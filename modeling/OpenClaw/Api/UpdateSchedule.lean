import Mathlib.Data.List.Infix
import OpenClaw.Foundation.Stages
import OpenClaw.Scheduler.DeliveryContract

/-!
# Updating a schedule

`ScheduleHandlers.update_schedule` of `api/schedules.py` with `Schedule.validate` and the
`ScheduleStore`. The handler edits the object that the store holds, so what a stage has written
stays when a later one fails. The fields of a schedule are whatever JSON the request assigns.
-/

namespace OpenClaw.Api

open Foundation DeliveryContract
set_option autoImplicit false

inductive TriggerType where
  | cron | interval
  deriving DecidableEq

structure Schedule (φ : Type) where
  scheduleId : String
  name : Json φ
  templateId : Json φ
  triggerType : TriggerType := .interval
  cronExpr : Json φ := .null
  intervalSec : Json φ := .null
  inputs : Json φ := .obj []
  delivery : Json φ := .null
  timezone : Json φ := .str (PyStr.ofString "local")
  enabled : Bool := true
  updatedAt : String
  computeErrorCount : ℤ := 0

/-- How a request fails: an error response, or an exception that the handler does not catch. -/
inductive Failure where
  | response (status : ℕ) (error : PyStr) (code : Option String)
  | raised (exception : String)
  deriving DecidableEq

def Failure.valueError (message : PyStr) : Failure := .response 400 message none

def Failure.delivery (e : DeliveryContractError) : Failure := .response 400 e.message (some e.code)

abbrev Edit (φ : Type) := Stage (Schedule φ) Failure

section Validate
variable {φ : Type} (py : Interpreter φ)

/-- `bool(value)`. -/
def truthy : Json φ → Bool
  | .null => false
  | .bool b => b
  | .int i => decide (i ≠ 0)
  | .float x => py.floatTruthy x
  | .str s => decide (s ≠ [])
  | .arr items => !items.isEmpty
  | .obj fields => !fields.isEmpty

/-- `len(value)`; `none` is a `TypeError`. -/
def len? : Json φ → Option ℕ
  | .str s => some s.len
  | .arr items => some items.length
  | .obj fields => some fields.length
  | _ => none

/-- `value < n`; `none` is a `TypeError`. -/
def less? (n : ℤ) : Json φ → Option Bool
  | .bool b => some (decide ((if b then 1 else 0) < n))
  | .int i => some (decide (i < n))
  | .float x => some (py.floatLess x n)
  | _ => none

def greater? (n : ℤ) : Json φ → Option Bool
  | .bool b => some (decide (n < (if b then 1 else 0)))
  | .int i => some (decide (n < i))
  | .float x => some (py.floatGreater x n)
  | _ => none

def checkRequired (value : Json φ) (maxLen : ℕ) (message : String) : Except Failure Unit :=
  if truthy py value = false then .error (.valueError (PyStr.ofString message))
  else
    match len? value with
    | none => .error (.raised "TypeError")
    | some n => if maxLen < n then .error (.valueError (PyStr.ofString message)) else .ok ()

def isCronChar (n : ℕ) : Bool :=
  decide (48 ≤ n ∧ n ≤ 57) || ([',', '-', '/'].map Char.toNat).contains n

/-- `CRON_PATTERN` on a stripped expression: five fields between white space. -/
def cronPattern (expr : List ℕ) : Bool :=
  let fields := (expr.splitOnP PyText.isSpaceCode).filter (· ≠ [])
  decide (fields.length = 5) && fields.all fun f => decide (f = ['*'.toNat]) || f.all isCronChar

def maxIntervalSec : ℤ := 86400 * 30

def checkTrigger (s : Schedule φ) : Except Failure Unit :=
  match s.triggerType with
  | .cron =>
    if truthy py s.cronExpr = false then
      .error (.valueError (PyStr.ofString "cron_expr required for cron trigger"))
    else
      match s.cronExpr with
      | .str expr =>
        if cronPattern expr.strip.codePoints then .ok ()
        else .error (.valueError (PyStr.ofString "Invalid cron expression: " ++ expr))
      | _ => .error (.raised "AttributeError")
  | .interval =>
    let tooSmall := Failure.valueError
      (PyStr.ofString "interval_sec required (minimum 60 seconds)")
    if truthy py s.intervalSec = false then .error tooSmall
    else
      match less? py 60 s.intervalSec, greater? py maxIntervalSec s.intervalSec with
      | some true, _ => .error tooSmall
      | some false, some true =>
        .error (.valueError (PyStr.ofString "interval_sec too large (max 30 days)"))
      | some false, some false => .ok ()
      | _, _ => .error (.raised "TypeError")

def maxInputsLen : ℕ := 32 * 1024

def checkInputs (inputs : Json φ) : Except Failure Unit :=
  if truthy py inputs = true ∧
      maxInputsLen < (Json.dumps py.floatRepr Json.Separators.standard inputs).length then
    .error (.valueError (PyStr.ofString "inputs too large (max 32KB)"))
  else .ok ()

/-- `validate` up to the delivery. -/
def checkFields (s : Schedule φ) : Except Failure Unit := do
  checkRequired py s.name 100 "Schedule name required (max 100 chars)"
  checkRequired py s.templateId 200 "Template ID required (max 200 chars)"
  checkTrigger py s
  checkInputs py s.inputs

/-- A check that writes nothing. -/
def guardStage (check : Schedule φ → Except Failure Unit) : Edit φ := fun s =>
  match check s with
  | .error e => .error e
  | .ok () => .ok s

def normalizeDelivery (delivery : Json φ) : Except Failure (Json φ) :=
  match normalizeScheduleDelivery py delivery with
  | .error e => .error (.delivery e)
  | .ok d => .ok d

/-- The delivery part of `validate` normalizes the stored delivery once more. -/
def revalidateDelivery : Edit φ := fun s =>
  if truthy py s.delivery = false then .ok s
  else
    match normalizeDelivery py s.delivery with
    | .error e => .error e
    | .ok d => .ok { s with delivery := d }

def checkErrorCount (s : Schedule φ) : Except Failure Unit :=
  if s.computeErrorCount < 0 then
    .error (.valueError (PyStr.ofString "compute_error_count must be >= 0"))
  else .ok ()

def validate : List (Edit φ) :=
  [guardStage (checkFields py), revalidateDelivery py, guardStage checkErrorCount]

end Validate

/-! ## The body of a request -/

section Body
variable {φ : Type} (py : Interpreter φ)

/-- `key in data` followed by `data[key]`, on whatever JSON the body is. -/
def lookup (data : Json φ) (key : String) : Except Failure (Option (Json φ)) :=
  let present : Except Failure (Option (Json φ)) := .error (.raised "TypeError")
  match data with
  | .obj fields => .ok (get? fields key)
  | .arr items =>
    if items.any fun
      | .str s => decide (s = PyStr.ofString key)
      | _ => false
    then present else .ok none
  | .str s => if PyStr.ofString key <:+: s then present else .ok none
  | _ => .error (.raised "TypeError")

/-- `if key in data:` and an assignment from `data[key]`. -/
def assign (data : Json φ) (key : String) (write : Json φ → Edit φ) : List (Edit φ) :=
  match lookup data key with
  | .error e => [fun _ => .error e]
  | .ok none => []
  | .ok (some value) => [write value]

/-- The template checker answers, or raises. -/
abbrev TemplateChecker (φ : Type) := Json φ → Except String Bool

def writeTemplateId (checker : TemplateChecker φ) (templateText : Json φ → PyStr)
    (value : Json φ) : Edit φ := fun s =>
  match checker value with
  | .error exception => .error (.raised exception)
  | .ok false => .error (.response 404
      (PyStr.ofString "template_id '" ++ templateText value ++ PyStr.ofString "' not found") none)
  | .ok true => .ok { s with templateId := value }

def writeName (value : Json φ) : Edit φ := fun s => .ok { s with name := value }

/-- The `ValueError` of `TriggerType(...)` is not caught here. -/
def writeTriggerType (value : Json φ) : Edit φ := fun s =>
  match value with
  | .str text =>
    if text = PyStr.ofString "cron" then .ok { s with triggerType := .cron }
    else if text = PyStr.ofString "interval" then .ok { s with triggerType := .interval }
    else .error (.raised "ValueError")
  | _ => .error (.raised "ValueError")

def writeCronExpr (value : Json φ) : Edit φ := fun s => .ok { s with cronExpr := value }

def writeIntervalSec (value : Json φ) : Edit φ := fun s => .ok { s with intervalSec := value }

def writeInputs (value : Json φ) : Edit φ := fun s => .ok { s with inputs := value }

def writeDelivery (value : Json φ) : Edit φ := fun s =>
  match normalizeDelivery py value with
  | .error e => .error e
  | .ok d => .ok { s with delivery := d }

def writeTimezone (value : Json φ) : Edit φ := fun s => .ok { s with timezone := value }

def writeEnabled (value : Json φ) : Edit φ := fun s => .ok { s with enabled := truthy py value }

end Body

/-! ## The store -/

def maxSchedules : ℕ := 200

/-- The schedules in memory and the rows of the last save. -/
structure ScheduleStore (φ : Type) where
  schedules : Table (Schedule.scheduleId : Schedule φ → String)
  file : List (Schedule φ)

namespace ScheduleStore
variable {φ : Type}

/-- `save_schedules`; `io` tells whether the write itself goes through. -/
def saves (st : ScheduleStore φ) (io : Bool) : Bool :=
  decide (st.schedules.size ≤ maxSchedules) && io

def save (st : ScheduleStore φ) (io : Bool) : ScheduleStore φ :=
  if st.saves io then { st with file := st.schedules.rows } else st

def add (st : ScheduleStore φ) (s : Schedule φ) (io : Bool) : ScheduleStore φ :=
  if maxSchedules ≤ st.schedules.size ∨ (st.schedules.get? s.scheduleId).isSome then st
  else save { st with schedules := st.schedules.put s } io

def update (st : ScheduleStore φ) (s : Schedule φ) (io : Bool) : ScheduleStore φ :=
  if (st.schedules.get? s.scheduleId).isNone then st
  else save { st with schedules := st.schedules.put s } io

def delete (st : ScheduleStore φ) (id : String) (io : Bool) : ScheduleStore φ :=
  if (st.schedules.get? id).isNone then st
  else save { st with schedules := st.schedules.drop id } io

end ScheduleStore

/-! ## The handler -/

structure UpdateRequest (φ : Type) where
  auth : Except Failure Unit
  scheduleId : String
  body : Option (Json φ)
  now : String
  io : Bool := true

inductive UpdateAnswer (φ : Type) where
  | updated (schedule : Schedule φ)
  | failed (failure : Failure)

section Handler
variable {φ : Type} (py : Interpreter φ) (checker : TemplateChecker φ)
  (templateText : Json φ → PyStr)

/-- What the handler does to the schedule it got from the store, in order. -/
def updateStages (st : ScheduleStore φ) (data : Json φ) (now : String) (io : Bool) :
    List (Edit φ) :=
  assign data "template_id" (writeTemplateId checker templateText) ++
  (assign data "name" writeName ++
  (assign data "trigger_type" writeTriggerType ++
  (assign data "cron_expr" writeCronExpr ++
  (assign data "interval_sec" writeIntervalSec ++
  (assign data "inputs" writeInputs ++
  (assign data "delivery" (writeDelivery py) ++
  (assign data "timezone" writeTimezone ++
  (assign data "enabled" (writeEnabled py) ++
  (validate py ++
  [fun s => .ok { s with updatedAt := now },
    guardStage fun _ =>
      if st.saves io then .ok ()
      else .error (.response 500 (PyStr.ofString "Failed to update schedule") none)])))))))))

def updateSchedule (st : ScheduleStore φ) (req : UpdateRequest φ) :
    ScheduleStore φ × UpdateAnswer φ :=
  match req.auth with
  | .error e => (st, .failed e)
  | .ok () =>
    match st.schedules.get? req.scheduleId with
    | none => (st, .failed (.response 404 (PyStr.ofString "Schedule not found") none))
    | some existing =>
      match req.body with
      | none => (st, .failed (.response 400 (PyStr.ofString "Invalid JSON") none))
      | some data =>
        let r := runStages (updateStages py checker templateText st data req.now req.io) existing
        let schedules := st.schedules.put r.1
        match r.2 with
        | some failure => ({ st with schedules }, .failed failure)
        | none => ({ schedules, file := schedules.rows }, .updated r.1)

end Handler

end OpenClaw.Api
