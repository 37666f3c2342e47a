import OpenClaw.Scheduler.OutboxDurability
import OpenClaw.Webhook.MappingTrees

/-!
# The rows of the outbox file

`DeliveryIntent.from_storage` and `DeliveryOutbox._ensure_loaded` of
`services/scheduler/delivery_outbox.py` on whatever rows the file has. One `try` stands around the
whole loop, so the first row that cannot be converted ends it.
-/

namespace OpenClaw.OutboxRows

open Foundation
open DeliveryOutbox (State Delivery DeliveryIntent defaultTenantId)
open Webhook (Builtins Raised intOfTree floatOfTree)
set_option autoImplicit false

structure StoredIntent (φ : Type) where
  deliveryId : PyStr
  runId : PyStr
  scheduleId : PyStr
  promptId : PyStr
  tenantId : PyStr
  delivery : List (Json φ × Json φ)
  state : PyStr
  createdAt : φ
  updatedAt : φ
  reason : Json φ := .null
  attempts : ℤ := 0
  leaseExpiresAt : Json φ := .null
  leaseTokenHash : Json φ := .null

def stateText : State → String
  | .pending => "pending"
  | .claimed => "claimed"
  | .sent => "sent"
  | .jobFailed => "job_failed"
  | .timedOut => "timed_out"
  | .undeliverable => "undeliverable"
  | .expired => "expired"

def allStates : List PyStr :=
  ["sent", "job_failed", "timed_out", "undeliverable", "expired", "pending", "claimed"].map
    PyStr.ofString

section Reading
variable {φ : Type} (py : Builtins φ)

abbrev Fields (φ : Type) := List (PyStr × Json φ)

/-- `data[key]`; the `KeyError` is one of the exceptions that a load catches. -/
def item (data : Fields φ) (key : String) : Except Raised (Json φ) :=
  match under? (PyStr.ofString key) data with
  | some j => .ok j
  | none => .error (.caught (PyStr.ofString ("'" ++ key ++ "'")))

/-- `data.get(key)`. -/
def get (data : Fields φ) (key : String) : Json φ :=
  (under? (PyStr.ofString key) data).getD .null

def text (data : Fields φ) (key : String) : Except Raised PyStr :=
  (item data key).map fun j => j.toStr py.toPyInterpreter

/-- `str(data.get("tenant_id") or DEFAULT_TENANT_ID)`. -/
def tenant (data : Fields φ) : PyStr :=
  if (get data "tenant_id").truthy py.toPyInterpreter then
    (get data "tenant_id").toStr py.toPyInterpreter
  else PyStr.ofString defaultTenantId

/-- `dict(data.get("delivery") or {})`. -/
def deliveryOf (data : Fields φ) : Except Raised (List (Json φ × Json φ)) :=
  match (get data "delivery").dictItems? py.toPyInterpreter with
  | some items => .ok items
  | none => .error (.caught (PyStr.ofString "delivery"))

/-- `from_storage`. What is no dictionary has no text keys. -/
def fromStorage : Json φ → Except Raised (StoredIntent φ)
  | .obj data => do
    let deliveryId ← text py data "delivery_id"
    let runId ← text py data "run_id"
    let scheduleId ← text py data "schedule_id"
    let promptId ← text py data "prompt_id"
    let delivery ← deliveryOf py data
    let state ← text py data "state"
    let createdAt ← (item data "created_at").bind (floatOfTree py)
    let updatedAt ← (item data "updated_at").bind (floatOfTree py)
    let attempts ← intOfTree py ((under? (PyStr.ofString "attempts") data).getD (.int 0))
    return { deliveryId, runId, scheduleId, promptId, tenantId := tenant py data, delivery, state,
             createdAt, updatedAt, reason := get data "reason", attempts,
             leaseExpiresAt := get data "lease_expires_at",
             leaseTokenHash := get data "lease_token_hash" }
  | _ => .error (.caught (PyStr.ofString "indices must be integers"))

/-- A key of a dictionary as `json.dump` writes it. -/
def keyText : Json φ → PyStr
  | .null => PyStr.ofString "null"
  | .bool true => PyStr.ofString "true"
  | .bool false => PyStr.ofString "false"
  | j => j.toStr py.toPyInterpreter

def StoredIntent.columns (i : StoredIntent φ) : Fields φ :=
  [(PyStr.ofString "delivery_id", .str i.deliveryId), (PyStr.ofString "run_id", .str i.runId),
    (PyStr.ofString "schedule_id", .str i.scheduleId), (PyStr.ofString "prompt_id", .str i.promptId),
    (PyStr.ofString "tenant_id", .str i.tenantId),
    (PyStr.ofString "delivery", .obj (i.delivery.map fun f => (keyText py f.1, f.2))),
    (PyStr.ofString "state", .str i.state), (PyStr.ofString "created_at", .float i.createdAt),
    (PyStr.ofString "updated_at", .float i.updatedAt), (PyStr.ofString "reason", i.reason),
    (PyStr.ofString "attempts", .int i.attempts),
    (PyStr.ofString "lease_expires_at", i.leaseExpiresAt),
    (PyStr.ofString "lease_token_hash", i.leaseTokenHash)]

def StoredIntent.toStorage (i : StoredIntent φ) : Json φ := .obj (i.columns py)

abbrev Stored (φ : Type) := Table (StoredIntent.deliveryId : StoredIntent φ → PyStr)

/-- The loop of a load, and the exception that ended it. -/
def loadRows : Stored φ → List (Json φ) → Stored φ × Option Raised
  | intents, [] => (intents, none)
  | intents, row :: rows =>
    match fromStorage py row with
    | .error e => (intents, some e)
    | .ok i => loadRows (if i.state ∈ allStates then intents.put i else intents) rows

/-- `_ensure_loaded` on a new process: the intents it leaves, and whether it raises. -/
def load (rows : List (Json φ)) : Stored φ × Bool :=
  match loadRows py Table.empty rows with
  | (intents, some .other) => (intents, true)
  | (intents, _) => (intents, false)

/-- The rows that the next `_save` writes. -/
def saved (intents : Stored φ) : List (Json φ) :=
  intents.rows.map fun i => i.toStorage py

end Reading

/-! ## What a load keeps -/

section Loading
variable {φ : Type} (py : Builtins φ)

/-- A load raises nothing and keeps every row that converts on its own, so that the next save writes
it again. -/
structure KeepsRows (rows : List (Json φ)) : Prop where
  quiet : (load py rows).2 = false
  present : ∀ row ∈ rows, ∀ i, fromStorage py row = .ok i → i.state ∈ allStates →
    (load py rows).1.get? i.deliveryId = some i
  written : ∀ row ∈ rows, ∀ i, fromStorage py row = .ok i → i.state ∈ allStates →
    i.toStorage py ∈ saved py (load py rows).1

/-- The intents of the rows before the first one that cannot be converted. -/
def readable : List (Json φ) → List (StoredIntent φ)
  | [] => []
  | row :: rows =>
    match fromStorage py row with
    | .error _ => []
    | .ok i => i :: readable rows

/-- Why the first row that cannot be converted cannot be. -/
def firstFailure : List (Json φ) → Option Raised
  | [] => none
  | row :: rows =>
    match fromStorage py row with
    | .error e => some e
    | .ok _ => firstFailure rows

/-- The intents with a known state among the readable ones. -/
def known (rows : List (Json φ)) : List (StoredIntent φ) :=
  (readable py rows).filter fun i => i.state ∈ allStates

/-- The first row that cannot be converted raises a caught exception, and every row with a known
state that can be is, before it, the last one of its delivery id. -/
structure Orderly (rows : List (Json φ)) : Prop where
  caught : firstFailure py rows ≠ some .other
  before : ∀ row ∈ rows, ∀ i, fromStorage py row = .ok i → i.state ∈ allStates →
    ((known py rows).reverse.find? fun j => j.deliveryId = i.deliveryId) = some i

variable {py}

theorem loadRows_eq (intents : Stored φ) (rows : List (Json φ)) :
    loadRows py intents rows =
      ((known py rows).foldl Table.put intents, firstFailure py rows) := by
  induction rows generalizing intents with
  | nil => rfl
  | cons row rows ih =>
    unfold loadRows known readable firstFailure
    cases hrow : fromStorage py row with
    | error e => rfl
    | ok i =>
      simp only [ih]
      by_cases hi : i.state ∈ allStates
      · simp [known, hi]
      · simp [known, hi]

theorem load_intents (rows : List (Json φ)) : (load py rows).1 = Table.ofRows (known py rows) := by
  unfold load
  rw [loadRows_eq]
  cases firstFailure py rows with
  | none => rfl
  | some e => cases e <;> rfl

theorem load_quiet_iff (rows : List (Json φ)) :
    (load py rows).2 = false ↔ firstFailure py rows ≠ some .other := by
  unfold load
  rw [loadRows_eq]
  cases hf : firstFailure py rows with
  | none => simp
  | some e => cases e <;> simp

/-- A load keeps the well-formed rows exactly when they stand before the first ill-formed one. -/
theorem keeps_rows_iff (rows : List (Json φ)) : KeepsRows py rows ↔ Orderly py rows := by
  have hget : ∀ d, (load py rows).1.get? d =
      (known py rows).reverse.find? fun j => j.deliveryId = d := by
    intro d
    rw [load_intents, Table.get?_ofRows]
  constructor
  · intro h
    refine ⟨(load_quiet_iff rows).mp h.quiet, fun row hrow i hi hstate => ?_⟩
    rw [← hget]
    exact h.present row hrow i hi hstate
  · intro h
    have hpresent : ∀ row ∈ rows, ∀ i, fromStorage py row = .ok i → i.state ∈ allStates →
        (load py rows).1.get? i.deliveryId = some i := by
      intro row hrow i hi hstate
      rw [hget]
      exact h.before row hrow i hi hstate
    refine ⟨(load_quiet_iff rows).mpr h.caught, hpresent, fun row hrow i hi hstate => ?_⟩
    exact List.mem_map_of_mem (Table.mem_of_get? (hpresent row hrow i hi hstate))

end Loading

/-- A row without its keys stands before a delivery that is still to be sent. -/
def damagedRows : List (Json Unit) :=
  [.obj [],
    .obj [(PyStr.ofString "delivery_id", .str (PyStr.ofString "dlv_a8750125e7a96ac4a236448a")),
      (PyStr.ofString "run_id", .str (PyStr.ofString "run_1")),
      (PyStr.ofString "schedule_id", .str (PyStr.ofString "sched_1")),
      (PyStr.ofString "prompt_id", .str (PyStr.ofString "prompt_1")),
      (PyStr.ofString "state", .str (PyStr.ofString "pending")),
      (PyStr.ofString "created_at", .float ()), (PyStr.ofString "updated_at", .float ())]]

/-- An interpreter for rows without float arithmetic. -/
def plainBuiltins : Builtins Unit where
  floatTruthy _ := true
  floatStr _ := PyStr.ofString "600.0"
  containerStr _ := []
  lower s := s
  circularStr _ _ := []
  intOfFloat _ := .ok 600
  intError _ := []
  floatOfInt _ := .ok ()
  floatOfStr _ := .error (.caught (PyStr.ofString "could not convert string to float"))
  loads _ := .error (.caught (PyStr.ofString "Expecting value"))

/-- The pending delivery is not in the outbox after the load. -/
theorem damaged_rows_lost : ¬KeepsRows plainBuiltins damagedRows := by
  intro h
  have hgone : (load plainBuiltins damagedRows).1.rows = [] := by decide
  obtain ⟨i, hi, hstate⟩ : ∃ i, fromStorage plainBuiltins damagedRows[1] = .ok i ∧
      i.state ∈ allStates := ⟨_, rfl, by decide⟩
  have hget := h.present damagedRows[1] (List.getElem_mem _) i hi hstate
  have hmem := Table.mem_of_get? hget
  rw [hgone] at hmem
  cases hmem

/-! ## Rows that the outbox wrote -/

section Written

def optionalText (key : String) : Option String → List (Json ℚ × Json ℚ)
  | none => []
  | some value => [(.str (PyStr.ofString key), .str (PyStr.ofString value))]

def deliveryItems (d : Delivery) : List (Json ℚ × Json ℚ) :=
  optionalText "platform" d.platform ++ optionalText "target_id" d.targetId ++
    optionalText "thread_id" d.threadId ++ optionalText "workspace_id" d.workspaceId ++
    optionalText "account_id" d.accountId ++ optionalText "mode" d.mode ++
    d.failureAlert.toList.map fun b => (.str (PyStr.ofString "failure_alert"), .bool b)

def orNull {α : Type} (f : α → Json ℚ) (x : Option α) : Json ℚ := (x.map f).getD .null

/-- An intent of the outbox as a load sees it. -/
def stored (i : DeliveryIntent) : StoredIntent ℚ where
  deliveryId := PyStr.ofString i.deliveryId
  runId := PyStr.ofString i.runId
  scheduleId := PyStr.ofString i.scheduleId
  promptId := PyStr.ofString i.promptId
  tenantId := PyStr.ofString i.tenantId
  delivery := deliveryItems i.delivery
  state := PyStr.ofString (stateText i.state)
  createdAt := i.createdAt
  updatedAt := i.updatedAt
  reason := orNull (fun r => .str (PyStr.ofString r)) i.reason
  attempts := i.attempts
  leaseExpiresAt := orNull .float i.leaseExpiresAt
  leaseTokenHash := orNull (fun h => .str (PyStr.ofString h)) i.leaseTokenHash

variable {py : Builtins ℚ}

theorem ofString_injective : Function.Injective PyStr.ofString :=
  PyStr.ofList_injective.comp fun _ _ h => String.toList_injective h

theorem under?_cons (key k : String) (v : Json ℚ) (data : Fields ℚ) :
    under? (PyStr.ofString key) ((PyStr.ofString k, v) :: data) =
      if k = key then some v else under? (PyStr.ofString key) data := by
  by_cases h : k = key
  · simp [under?, h]
  · have hne : PyStr.ofString k ≠ PyStr.ofString key := fun he => h (ofString_injective he)
    simp [under?, h, hne]

theorem key_optionalText {key : String} {value : Option String} {f : Json ℚ × Json ℚ}
    (h : f ∈ optionalText key value) : ∃ k, f.1 = .str k := by
  cases value with
  | none => cases h
  | some v =>
    rw [optionalText, List.mem_singleton] at h
    exact ⟨PyStr.ofString key, congrArg Prod.fst h⟩

theorem key_deliveryItems {d : Delivery} {f : Json ℚ × Json ℚ} (h : f ∈ deliveryItems d) :
    ∃ k, f.1 = .str k := by
  rw [deliveryItems] at h
  simp only [List.mem_append, List.mem_map] at h
  rcases h with (((((h | h) | h) | h) | h) | h) | ⟨b, -, rfl⟩
  all_goals first | exact key_optionalText h | exact ⟨_, rfl⟩

theorem dictItems?_delivery (d : Delivery) :
    (Json.obj ((deliveryItems d).map fun f => (keyText py f.1, f.2))).dictItems?
      py.toPyInterpreter = some (deliveryItems d) := by
  have hback : ((deliveryItems d).map fun f => (keyText py f.1, f.2)).map
      (fun f => ((Json.str f.1 : Json ℚ), f.2)) = deliveryItems d := by
    rw [List.map_map]
    conv_rhs => rw [← List.map_id (deliveryItems d)]
    apply List.map_congr_left
    intro f hf
    obtain ⟨k, hk⟩ := key_deliveryItems hf
    refine Prod.ext ?_ rfl
    change Json.str (keyText py f.1) = f.1
    rw [hk]
    rfl
  unfold Json.dictItems?
  split
  · rename_i hempty
    have hnil : (deliveryItems d).map (fun f => (keyText py f.1, f.2)) = [] := by
      simpa [Json.truthy] using hempty
    rw [List.map_eq_nil_iff] at hnil
    rw [hnil]
  · exact congrArg some hback

theorem text_str {data : Fields ℚ} {key : String} {s : PyStr}
    (h : under? (PyStr.ofString key) data = some (.str s)) : text py data key = .ok s := by
  rw [text, item, h]
  rfl

theorem tenant_str {data : Fields ℚ} {t : String}
    (h : under? (PyStr.ofString "tenant_id") data = some (.str (PyStr.ofString t))) :
    tenant py data = PyStr.ofString (if t = "" then defaultTenantId else t) := by
  rw [tenant, get, h]
  by_cases ht : t = ""
  · subst ht
    rfl
  · have hne : PyStr.ofString t ≠ [] := fun he => ht (ofString_injective he)
    rw [if_neg ht]
    exact if_pos (decide_eq_true hne)

/-- Reading an intent back only fills in the tenant. -/
theorem fromStorage_stored (i : DeliveryIntent) :
    fromStorage py ((stored i).toStorage py) = .ok (stored i.fromStorage) := by
  have hdelivery : deliveryOf py ((stored i).columns py) = .ok (deliveryItems i.delivery) := by
    have hget : get ((stored i).columns py) "delivery" =
        .obj ((deliveryItems i.delivery).map fun f => (keyText py f.1, f.2)) := by
      simp [get, StoredIntent.columns, under?_cons, stored]
    rw [deliveryOf, hget, dictItems?_delivery]
  have hcreated : (item ((stored i).columns py) "created_at").bind (floatOfTree py) =
      .ok i.createdAt := by
    simp [item, StoredIntent.columns, under?_cons, stored, Except.bind, floatOfTree]
  have hupdated : (item ((stored i).columns py) "updated_at").bind (floatOfTree py) =
      .ok i.updatedAt := by
    simp [item, StoredIntent.columns, under?_cons, stored, Except.bind, floatOfTree]
  have htexts : text py ((stored i).columns py) "delivery_id" = .ok (stored i).deliveryId ∧
      text py ((stored i).columns py) "run_id" = .ok (stored i).runId ∧
      text py ((stored i).columns py) "schedule_id" = .ok (stored i).scheduleId ∧
      text py ((stored i).columns py) "prompt_id" = .ok (stored i).promptId ∧
      text py ((stored i).columns py) "state" = .ok (stored i).state := by
    refine ⟨text_str ?_, text_str ?_, text_str ?_, text_str ?_, text_str ?_⟩ <;>
      simp [StoredIntent.columns, under?_cons]
  obtain ⟨hid, hrun, hschedule, hprompt, hstate⟩ := htexts
  have htenant : tenant py ((stored i).columns py) = (stored i.fromStorage).tenantId := by
    rw [tenant_str (by simp [StoredIntent.columns, under?_cons]; rfl)]
    rfl
  rw [StoredIntent.toStorage, fromStorage, hid, hrun, hschedule, hprompt, hdelivery, hstate, hcreated,
    hupdated, htenant]
  simp [StoredIntent.columns, under?_cons, get, intOfTree, bind, Except.bind]
  rfl

variable (py) in
theorem known_stored (rows : List DeliveryIntent) :
    known py (rows.map fun i => (stored i).toStorage py) =
      (rows.map DeliveryIntent.fromStorage).map stored ∧
    firstFailure py (rows.map fun i => (stored i).toStorage py) = none := by
  have hstate : ∀ s : State, PyStr.ofString (stateText s) ∈ allStates := by
    intro s
    cases s <;> decide
  induction rows with
  | nil => exact ⟨rfl, rfl⟩
  | cons i rows ih =>
    have hi : (stored i.fromStorage).state ∈ allStates := hstate i.fromStorage.state
    constructor
    · simp only [List.map_cons, known, readable, fromStorage_stored, List.filter_cons, hi,
        decide_true, if_true]
      exact congrArg _ ih.1
    · simp only [List.map_cons, firstFailure, fromStorage_stored]
      exact ih.2

/-- Of rows that the outbox wrote itself, the load on any rows is the load of intents. -/
theorem load_stored (rows : List DeliveryIntent) :
    (load py (rows.map fun i => (stored i).toStorage py)).1.rows =
        (DeliveryOutbox.Outbox.loadFile (some rows)).rows.map stored ∧
      (load py (rows.map fun i => (stored i).toStorage py)).2 = false := by
  obtain ⟨hknown, hfailure⟩ := known_stored py rows
  constructor
  · have hkeys : ∀ v w : DeliveryIntent,
        (stored v).deliveryId = (stored w).deliveryId ↔ v.deliveryId = w.deliveryId :=
      fun _ _ => ofString_injective.eq_iff
    rw [load_intents, hknown]
    exact Table.ofRows_map hkeys (rows.map DeliveryIntent.fromStorage)
  · rw [load_quiet_iff, hfailure]
    simp

end Written

end OpenClaw.OutboxRows
