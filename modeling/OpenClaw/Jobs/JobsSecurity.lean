import OpenClaw.Foundation.PyValue
import OpenClaw.Tenants.TenantContext

/-!
# Who owns a job record

`services/jobs_security.py`: which records of the host a tenant may see, and what of a job is shown.
The records are objects of the host. Whatever is no scalar, list, tuple or mapping is an object of
which nothing is known, and `str` of any of them may raise.
-/

namespace OpenClaw.Jobs

open Foundation
open Tenants (TenantBoundaryError normalizeTenantId)
set_option autoImplicit false

variable {φ : Type}

inductive HostValue (φ : Type) where
  | none
  | bool (b : Bool)
  | int (i : ℤ)
  | float (x : φ)
  | str (s : PyStr)
  /-- a list or a tuple -/
  | seq (items : List (HostValue φ))
  | mapping (fields : List (PyKey φ × HostValue φ))
  | object (id : ℕ)

/-- The text of an exception that an object of the host raises. -/
abbrev HostError := String

structure HostPython (φ : Type) where
  /-- `str(x or "")` -/
  text : HostValue φ → Except HostError PyStr
  /-- finite, with an absolute value of `MAX_ABSOLUTE_NUMBER` at most -/
  floatWithin : φ → Bool

def isKey (name : String) : PyKey φ → Bool
  | .str s => s.map Fin.val == name.toList.map Char.toNat
  | _ => false

abbrev Fields (φ : Type) := List (PyKey φ × HostValue φ)

def Fields.get? (fields : Fields φ) (name : String) : Option (HostValue φ) :=
  (fields.find? fun f => isKey name f.1).map Prod.snd

/-- `get(name)` of a mapping. -/
def Fields.get (fields : Fields φ) (name : String) : HostValue φ := (fields.get? name).getD .none

/-- `d[name] = value` of a name that is there. -/
def Fields.set (fields : Fields φ) (name : String) (value : HostValue φ) : Fields φ :=
  fields.map fun f => if isKey name f.1 then (f.1, value) else f

inductive JobSource where
  | queue | history
  deriving DecidableEq

/-! ## Visible records -/

/-- The extra data of a record that has it. -/
def extraData : JobSource → HostValue φ → Option (HostValue φ)
  | .queue, .seq items => items[3]?
  | .history, .mapping fields =>
    match Fields.get fields "prompt" with
    | .seq prompt => prompt[3]?
    | _ => none
  | _, _ => none

section Owner
variable (py : HostPython φ) (source : JobSource)

/-- `_extract_owner`: the owner and whether the record is malformed. -/
def extractOwner (record : HostValue φ) : Except HostError (Option PyStr × Bool) :=
  match extraData source record with
  | some (.mapping extra) =>
    match Fields.get extra "openclaw" with
    | .none => .ok (none, false)
    | .mapping openclaw =>
      match Fields.get openclaw "tenant_id" with
      | .none => .ok (none, false)
      | owner =>
        (py.text owner).map fun text =>
          match normalizeTenantId text with
          | .ok tenant => (some tenant, false)
          | .error _ => (none, true)
    | _ => .ok (none, true)
  | _ => .ok (none, true)

structure VisibilityFilterResult (ρ : Type) where
  records : List ρ
  excludedCount : ℕ
  malformedCount : ℕ

/-- The loop over the records, which are objects with a value. -/
def visibleRecords {ρ : Type} (value : ρ → HostValue φ) (expectedTenant : PyStr) :
    List ρ → Except HostError (List ρ × ℕ)
  | [] => .ok ([], 0)
  | record :: records =>
    match extractOwner py source (value record) with
    | .error e => .error e
    | .ok (owner, malformed) =>
      (visibleRecords value expectedTenant records).map fun rest =>
        (if owner = some expectedTenant then record :: rest.1 else rest.1,
          rest.2 + if malformed then 1 else 0)

def filterVisibleJobRecords {ρ : Type} (value : ρ → HostValue φ) (tenantId : PyStr)
    (multiTenant : Bool) (records : List ρ) : Except HostError (VisibilityFilterResult ρ) :=
  if multiTenant = false then .ok ⟨records, 0, 0⟩
  else
    match normalizeTenantId tenantId with
    | .error e => .error e.message
    | .ok expectedTenant =>
      (visibleRecords py source value expectedTenant records).map fun visible =>
        ⟨visible.1, records.length - visible.1.length, visible.2⟩

/-- Whether the record is one of the tenant's. -/
def isOwned (tenant : PyStr) (record : HostValue φ) : Bool :=
  match extractOwner py source record with
  | .ok (some owner, _) => owner == tenant
  | _ => false

/-- Asking for the owner of the record raises nothing. -/
def HasReadableOwner (record : HostValue φ) : Prop :=
  (extractOwner py source record).isOk = true

variable {py source} {ρ : Type} {value : ρ → HostValue φ} {tenant : PyStr} {records : List ρ}

variable (tenant) in
theorem visibleRecords_of_readable (h : ∀ r ∈ records, HasReadableOwner py source (value r)) :
    ∃ malformed, visibleRecords py source value tenant records =
      .ok (records.filter fun r => isOwned py source tenant (value r), malformed) := by
  induction records with
  | nil => exact ⟨0, rfl⟩
  | cons r records ih =>
    obtain ⟨malformed, hrest⟩ := ih fun r' hr' => h r' (List.mem_cons_of_mem r hr')
    have hr : (extractOwner py source (value r)).isOk = true := h r List.mem_cons_self
    rw [visibleRecords, hrest]
    cases howner : extractOwner py source (value r) with
    | error e =>
      rw [howner] at hr
      cases hr
    | ok answer =>
      obtain ⟨owner, bad⟩ := answer
      have howned : isOwned py source tenant (value r) = decide (owner = some tenant) := by
        rw [isOwned, howner]
        cases owner with
        | none => rfl
        | some o => simp [beq_eq_decide]
      refine ⟨malformed + if bad then 1 else 0, ?_⟩
      simp only [Except.map, List.filter_cons, howned, decide_eq_true_eq]

variable (tenant) in
theorem visibleRecords_of_unreadable {r : ρ} (hr : r ∈ records)
    (h : ¬ HasReadableOwner py source (value r)) :
    ∃ e, visibleRecords py source value tenant records = .error e := by
  induction records with
  | nil => cases hr
  | cons r' records ih =>
    rw [visibleRecords]
    cases howner : extractOwner py source (value r') with
    | error e => exact ⟨e, rfl⟩
    | ok answer =>
      rcases List.mem_cons.mp hr with rfl | hr
      · rw [HasReadableOwner, howner] at h
        exact absurd rfl h
      · obtain ⟨e, he⟩ := ih hr
        exact ⟨e, by rw [he]; rfl⟩

theorem eq_of_visibleRecords {visible : List ρ × ℕ}
    (h : visibleRecords py source value tenant records = .ok visible) :
    visible.1 = records.filter fun r => isOwned py source tenant (value r) := by
  have hread : ∀ r ∈ records, HasReadableOwner py source (value r) := by
    intro r hr
    by_contra hbad
    obtain ⟨e, he⟩ := visibleRecords_of_unreadable tenant hr hbad
    rw [h] at he
    cases he
  obtain ⟨malformed, heq⟩ := visibleRecords_of_readable tenant hread
  rw [h] at heq
  cases heq
  rfl

/-- What is passed on and what is excluded are all the records. -/
theorem length_filterVisible {tenantId : PyStr} {multiTenant : Bool}
    {result : VisibilityFilterResult ρ}
    (h : filterVisibleJobRecords py source value tenantId multiTenant records = .ok result) :
    records.length = result.records.length + result.excludedCount := by
  unfold filterVisibleJobRecords at h
  split at h
  · cases h
    rfl
  split at h
  · cases h
  · rename_i expectedTenant _
    cases hvisible : visibleRecords py source value expectedTenant records with
    | error e =>
      rw [hvisible] at h
      cases h
    | ok visible =>
      rw [hvisible] at h
      cases h
      have heq := eq_of_visibleRecords hvisible
      have hle := List.length_filter_le (fun r => isOwned py source expectedTenant (value r)) records
      simp only [heq]
      omega

end Owner

/-! ## Summaries -/

structure JobsSecurityError where
  code : String
  message : String

def maxJobIdentifierLength : ℕ := 128
def maxOutputCount : ℤ := 1000000
def maxAbsoluteNumber : ℕ := 1000000000000000000
def maxJobsSourceWindow : ℕ := 10000

def allowedJobStatuses : List PyStr :=
  ["pending", "in_progress", "completed", "failed", "cancelled"].map PyStr.ofString

def recordInvalid {α : Type} (message : String) : Except JobsSecurityError α :=
  .error ⟨"jobs_record_invalid", message⟩

def boundedIdentifier (field : String) : HostValue φ → Except JobsSecurityError (HostValue φ)
  | .str s =>
    if s = [] ∨ s ≠ s.strip then recordInvalid (field ++ " must be a non-empty string.")
    else if maxJobIdentifierLength < s.len then
      recordInvalid (field ++ " exceeds the safe length bound.")
    else .ok (.str s)
  | _ => recordInvalid (field ++ " must be a non-empty string.")

def validatedStatus : HostValue φ → Except JobsSecurityError (HostValue φ)
  | .str s =>
    if s ∈ allowedJobStatuses then .ok (.str s)
    else recordInvalid "status is outside the jobs lifecycle contract."
  | _ => recordInvalid "status is outside the jobs lifecycle contract."

def boundedNumber (py : HostPython φ) (field : String) :
    HostValue φ → Except JobsSecurityError (HostValue φ)
  | .int i =>
    if i.natAbs ≤ maxAbsoluteNumber then .ok (.int i)
    else recordInvalid (field ++ " is outside the safe numeric bound.")
  | .float x =>
    if py.floatWithin x then .ok (.float x)
    else recordInvalid (field ++ " is outside the safe numeric bound.")
  | _ => recordInvalid (field ++ " must be numeric.")

def boundedOutputsCount : HostValue φ → Except JobsSecurityError (HostValue φ)
  | .int i =>
    if i < 0 ∨ maxOutputCount < i then recordInvalid "outputs_count is outside the safe bound."
    else .ok (.int i)
  | _ => recordInvalid "outputs_count is outside the safe bound."

/-- A field that is shown if it is there and not `None`. -/
def optionalField (job : Fields φ) (field : String)
    (check : HostValue φ → Except JobsSecurityError (HostValue φ)) :
    Except JobsSecurityError (List (String × HostValue φ)) :=
  match Fields.get job field with
  | .none => .ok []
  | value => (check value).map fun value => [(field, value)]

def numberFields : List String :=
  ["priority", "create_time", "execution_start_time", "execution_end_time"]

def projectJobSummary (py : HostPython φ) :
    HostValue φ → Except JobsSecurityError (List (String × HostValue φ))
  | .mapping job => do
    let id ← boundedIdentifier "id" (Fields.get job "id")
    let status ← validatedStatus (Fields.get job "status")
    let numbers ← numberFields.mapM fun field => optionalField job field (boundedNumber py field)
    let outputs ← optionalField job "outputs_count" boundedOutputsCount
    let workflow ← optionalField job "workflow_id" (boundedIdentifier "workflow_id")
    .ok ([("id", id), ("status", status)] ++ numbers.flatten ++ outputs ++ workflow)
  | _ => recordInvalid "Job must be an object."

end OpenClaw.Jobs
