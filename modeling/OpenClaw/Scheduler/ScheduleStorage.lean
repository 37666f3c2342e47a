import OpenClaw.Api.UpdateSchedule
import OpenClaw.Scheduler.DeliveryNormal

/-!
# The stored schedules

`services/scheduler/storage.py` with `Schedule.to_dict` and `Schedule.from_dict`. A file holds the
JSON document that the last save wrote. Loading validates every schedule again and skips those it
refuses; only some of the exceptions are caught there.
-/

namespace OpenClaw.ScheduleStorage

open Foundation DeliveryContract
open Api (TriggerType)
set_option autoImplicit false

/-- A field that nothing converts keeps what the file has there. -/
inductive TriggerValue (φ : Type) where
  | kind (t : TriggerType)
  | other (value : Json φ)

/-- `dataclass` fields are not checked for their types. -/
structure Schedule (φ : Type) where
  scheduleId : Json φ
  name : Json φ
  templateId : Json φ
  triggerType : TriggerValue φ := .kind .interval
  cronExpr : Json φ := .null
  intervalSec : Json φ := .null
  inputs : Json φ := .obj []
  delivery : Json φ := .null
  timezone : Json φ := .str (PyStr.ofString "local")
  enabled : Json φ := .bool true
  createdAt : Json φ
  updatedAt : Json φ
  lastTickTs : Json φ := .null
  lastRunId : Json φ := .null
  computeErrorCount : Json φ := .int 0
  lastComputeError : Json φ := .null

inductive Raised where
  | valueError | typeError | attributeError | osError
  deriving DecidableEq

def Raised.of : Api.Failure → Raised
  | .response _ _ _ => .valueError
  | .raised exception => if exception = "TypeError" then .typeError else .attributeError

/-- The exceptions that `load_schedules` skips a schedule for. -/
def Raised.skipped : Raised → Bool
  | .valueError | .typeError => true
  | .attributeError | .osError => false

section Validate
variable {φ : Type} (py : Interpreter φ)

def lift {α : Type} : Except Api.Failure α → Except Raised α
  | .ok a => .ok a
  | .error e => .error (.of e)

/-- The fields that the trigger checks read. -/
def Schedule.timed (s : Schedule φ) (t : TriggerType) : Api.Schedule φ :=
  { scheduleId := "", name := s.name, templateId := s.templateId, triggerType := t,
    cronExpr := s.cronExpr, intervalSec := s.intervalSec, updatedAt := "" }

/-- A trigger type that is no `TriggerType` equals none, so nothing is checked. -/
def checkTrigger (s : Schedule φ) : Except Raised Unit :=
  match s.triggerType with
  | .kind t => lift (Api.checkTrigger py (s.timed t))
  | .other _ => .ok ()

/-- `validate` up to the delivery. -/
def checkFields (s : Schedule φ) : Except Raised Unit := do
  lift (Api.checkRequired py s.name 100 "Schedule name required (max 100 chars)")
  lift (Api.checkRequired py s.templateId 200 "Template ID required (max 200 chars)")
  checkTrigger py s
  lift (Api.checkInputs py s.inputs)

def normalize (delivery : Json φ) : Except Raised (Json φ) := lift (Api.normalizeDelivery py delivery)

def checkErrorCount (s : Schedule φ) : Except Raised Unit :=
  match Api.less? py 0 s.computeErrorCount with
  | none => .error .typeError
  | some true => .error .valueError
  | some false => .ok ()

def revalidated (delivery : Json φ) : Except Raised (Json φ) :=
  if Api.truthy py delivery then normalize py delivery else .ok delivery

/-- `validate`; it leaves a normalized delivery. -/
def validate (s : Schedule φ) : Except Raised (Schedule φ) := do
  checkFields py s
  let delivery ← revalidated py s.delivery
  checkErrorCount py s
  return { s with delivery }

/-- `__post_init__`. -/
def postInit (s : Schedule φ) : Except Raised (Schedule φ) := do
  let delivery ← normalize py s.delivery
  validate py { s with delivery }

end Validate

/-! ## Dictionaries -/

section Dictionaries
variable {φ : Type} (py : Interpreter φ)

def triggerText : TriggerType → PyStr
  | .cron => PyStr.ofString "cron"
  | .interval => PyStr.ofString "interval"

/-- `TriggerType(text)`. -/
def triggerType? (text : PyStr) : Except Raised TriggerType :=
  if text = PyStr.ofString "cron" then .ok .cron
  else if text = PyStr.ofString "interval" then .ok .interval
  else .error .valueError

def fieldNames : List PyStr :=
  ["schedule_id", "name", "template_id", "trigger_type", "cron_expr", "interval_sec", "inputs",
    "delivery", "timezone", "enabled", "created_at", "updated_at", "last_tick_ts", "last_run_id",
    "compute_error_count", "last_compute_error"].map PyStr.ofString

def Schedule.fields (s : Schedule φ) (t : TriggerType) : Fields φ :=
  [field "schedule_id" s.scheduleId, field "name" s.name, field "template_id" s.templateId,
    field "trigger_type" (.str (triggerText t)), field "cron_expr" s.cronExpr,
    field "interval_sec" s.intervalSec, field "inputs" s.inputs, field "delivery" s.delivery,
    field "timezone" s.timezone, field "enabled" s.enabled, field "created_at" s.createdAt,
    field "updated_at" s.updatedAt, field "last_tick_ts" s.lastTickTs,
    field "last_run_id" s.lastRunId, field "compute_error_count" s.computeErrorCount,
    field "last_compute_error" s.lastComputeError]

/-- `to_dict`: only a `TriggerType` has a `value`. -/
def Schedule.toDict (s : Schedule φ) : Except Raised (Json φ) :=
  match s.triggerType with
  | .kind t => .ok (.obj (s.fields t))
  | .other _ => .error .attributeError

def readTrigger (raw : Fields φ) : Except Raised (TriggerValue φ) :=
  match get? raw "trigger_type" with
  | none => .ok (.kind .interval)
  | some (.str text) => (triggerType? text).map .kind
  | some value => .ok (.other value)

/-- `cls(**d)`; `now` is the ISO text of the clock. -/
def construct (now : PyStr) (raw : Fields φ) (triggerType : TriggerValue φ) :
    Except Raised (Schedule φ) :=
  match get? raw "schedule_id", get? raw "name", get? raw "template_id" with
  | some scheduleId, some name, some templateId =>
    if raw.all fun f => f.1 ∈ fieldNames then
      postInit py
        { scheduleId, name, templateId, triggerType
          cronExpr := (get? raw "cron_expr").getD .null
          intervalSec := (get? raw "interval_sec").getD .null
          inputs := (get? raw "inputs").getD (.obj [])
          delivery := (get? raw "delivery").getD .null
          timezone := (get? raw "timezone").getD (.str (PyStr.ofString "local"))
          enabled := (get? raw "enabled").getD (.bool true)
          createdAt := (get? raw "created_at").getD (.str now)
          updatedAt := (get? raw "updated_at").getD (.str now)
          lastTickTs := (get? raw "last_tick_ts").getD .null
          lastRunId := (get? raw "last_run_id").getD .null
          computeErrorCount := (get? raw "compute_error_count").getD (.int 0)
          lastComputeError := (get? raw "last_compute_error").getD .null }
    else .error .typeError
  | _, _, _ => .error .typeError

/-- `from_dict`: a list has a `copy` but is no mapping, the other values have none. -/
def fromDict (now : PyStr) : Json φ → Except Raised (Schedule φ)
  | .obj raw => do
    let triggerType ← readTrigger raw
    construct py now raw triggerType
  | .arr _ => .error .typeError
  | _ => .error .attributeError

end Dictionaries

/-! ## The file -/

/-- Schedules under the keys of the file, which need not be their ids. -/
abbrev Schedules (φ : Type) := Table (Prod.fst : PyStr × Schedule φ → PyStr)

/-- The bytes of a file may be no UTF-8, and its text no JSON. -/
inductive File (φ : Type) where
  | missing
  | undecodable
  | unreadable
  | document (data : Json φ)

/-- Whether the path and the write go through: an error of the path is raised, an error of the write
is caught. -/
inductive Io where
  | fine | writeFails | pathFails
  deriving DecidableEq

def maxSchedules : ℕ := Api.maxSchedules

section Files
variable {φ : Type} (py : Interpreter φ)

def loadRows (now : PyStr) : List (PyStr × Json φ) → Except Raised (List (PyStr × Schedule φ))
  | [] => .ok []
  | (sid, sdata) :: rows =>
    match fromDict py now sdata with
    | .ok s => (loadRows now rows).map fun loaded => (sid, s) :: loaded
    | .error e => if e.skipped then loadRows now rows else .error e

def loadSchedules (now : PyStr) : File φ → Except Raised (Schedules φ)
  | .document (.obj data) => (loadRows py now data).map Table.ofRows
  | .undecodable => .error .valueError
  | _ => .ok Table.empty

/-- `{sid: s.to_dict() for sid, s in schedules.items()}`. -/
def toData : List (PyStr × Schedule φ) → Except Raised (List (PyStr × Json φ))
  | [] => .ok []
  | (sid, s) :: rows =>
    match s.toDict with
    | .ok data => (toData rows).map fun datas => (sid, data) :: datas
    | .error e => .error e

/-- `save_schedules`: the file afterwards, and the answer. -/
def saveSchedules (schedules : Schedules φ) (io : Io) (file : File φ) : File φ × Except Raised Bool :=
  if maxSchedules < schedules.size then (file, .ok false)
  else
    match io, toData schedules.rows with
    | .pathFails, _ => (file, .error .osError)
    | _, .error e => (file, .error e)
    | .writeFails, .ok _ => (file, .ok false)
    | .fine, .ok data => (.document (.obj data), .ok true)

end Files

/-! ## The store -/

structure Store (φ : Type) where
  schedules : Schedules φ := Table.empty
  loaded : Bool := false
  file : File φ

/-- A schedule whose id is a text, as every caller passes. -/
structure Identified (φ : Type) where
  schedule : Schedule φ
  id : PyStr
  same : schedule.scheduleId = .str id

inductive Call (φ : Type) where
  | add (s : Identified φ)
  | update (s : Identified φ)
  | delete (scheduleId : PyStr)

section Store
variable {φ : Type} (py : Interpreter φ)

namespace Store

def ensureLoaded (st : Store φ) (now : PyStr) : Except Raised (Store φ) :=
  if st.loaded then .ok st
  else (loadSchedules py now st.file).map fun schedules => { st with schedules, loaded := true }

def get (st : Store φ) (now scheduleId : PyStr) : Except Raised (Option (Schedule φ)) :=
  (st.ensureLoaded py now).map fun st => (st.schedules.get? scheduleId).map Prod.snd

def listAll (st : Store φ) (now : PyStr) : Except Raised (List (Schedule φ)) :=
  (st.ensureLoaded py now).map fun st => st.schedules.rows.map Prod.snd

/-- `reload`. -/
def reload (st : Store φ) (now : PyStr) : Except Raised (Store φ) :=
  (loadSchedules py now st.file).map fun schedules => { st with schedules, loaded := true }

end Store

/-- The map with the call carried out, or nothing where the call is refused. -/
def Call.carriedOut (schedules : Schedules φ) : Call φ → Option (Schedules φ)
  | .add s =>
    if maxSchedules ≤ schedules.size ∨ (schedules.get? s.id).isSome then none
    else some (schedules.put (s.id, s.schedule))
  | .update s =>
    if (schedules.get? s.id).isNone then none else some (schedules.put (s.id, s.schedule))
  | .delete scheduleId =>
    if (schedules.get? scheduleId).isNone then none else some (schedules.drop scheduleId)

/-- `add`, `update` and `delete`: the map is changed, then saved. -/
def Store.call (st : Store φ) (c : Call φ) (now : PyStr) (io : Io) : Store φ × Except Raised Bool :=
  match st.ensureLoaded py now with
  | .error e => (st, .error e)
  | .ok st =>
    match c.carriedOut st.schedules with
    | none => (st, .ok false)
    | some schedules =>
      let (file, answer) := saveSchedules schedules io st.file
      ({ st with schedules, file }, answer)

end Store

end OpenClaw.ScheduleStorage
