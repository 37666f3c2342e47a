import Mathlib.Data.String.Basic
import Mathlib.Order.OrderDual
import OpenClaw.Foundation.PyText
import OpenClaw.Foundation.Table

/-!
# The approval service

`services/approvals/service.py`: one definition for each method, and all of them as one step.
-/

namespace OpenClaw.Approvals

open Foundation
set_option autoImplicit false

/-!
## Approval requests and their store

`services/approvals/models.py` and `services/approvals/storage.py`. Requests live in a dictionary
under their id, and the service changes the stored objects themselves. Times are microseconds; a
timestamp is a text that `datetime` reads. What the clock shows and whether a save goes through
are inputs of a call.
-/

section Store

inductive Raised where
  | valueError (message : String)
  | tenantBoundaryError (code message : String)
  | overflowError
  deriving DecidableEq

/-! ## Tenants -/

def defaultTenantId : String := "default"

/-- `str.lower()` as far as the result is ASCII: the capital letters and the Kelvin sign. -/
def lowerChar (c : Char) : Char := if c.toNat = 0x212a then 'k' else c.toLower

/-- `TENANT_ID_RE`. -/
def tenantIdRe : List Char → Bool
  | [] => false
  | c :: cs => (c.isLower || c.isDigit) && decide (cs.length ≤ 63) &&
      cs.all fun d => d.isLower || d.isDigit || d = '.' || d = '_' || d = '-'

def normalizeTenantId (tenantId fieldName : String) : Except Raised String :=
  let text := (PyText.strip tenantId.toList).map lowerChar
  if text = [] then
    .error (.tenantBoundaryError "tenant_invalid" (fieldName ++ " must be non-empty"))
  else if tenantIdRe text then .ok (String.ofList text)
  else .error (.tenantBoundaryError "tenant_invalid"
    (fieldName ++ " must match ^[a-z0-9][a-z0-9._-]\x7b0,63\x7d$"))

/-! ## Time -/

/-- `isoformat`, and `fromisoformat` of a text whose `Z` is spelled out. -/
structure Datetime where
  isoformat : ℤ → String
  read : String → Option ℤ
  read_isoformat : ∀ t, read (isoformat t) = some t
  read_empty : read "" = none

def second : ℤ := 1000000
def day : ℤ := 24 * 3600 * second

/-- `datetime.min` and `datetime.max`. -/
def minTime : ℤ := -62135596800 * second
def maxTime : ℤ := 253402300800 * second - 1

/-! ## Requests -/

inductive ApprovalStatus where
  | pending | approved | rejected | expired
  deriving DecidableEq

def ApprovalStatus.value : ApprovalStatus → String
  | pending => "pending"
  | approved => "approved"
  | rejected => "rejected"
  | expired => "expired"

def ApprovalStatus.terminal (s : ApprovalStatus) : Bool :=
  decide (s ∈ [approved, rejected, expired])

inductive ApprovalSource where
  | trigger | chatops | sidecar | scheduler | manual
  deriving DecidableEq

abbrev JsonDict (φ : Type) := List (PyStr × Json φ)

structure ApprovalRequest (φ : Type) where
  approvalId : String
  templateId : String
  inputs : JsonDict φ
  source : ApprovalSource
  traceId : String
  tenantId : String
  status : ApprovalStatus
  requestedAt : String
  requestedBy : Option String
  expiresAt : Option String
  approvedAt : Option String
  rejectedAt : Option String
  decisionBy : Option String
  delivery : Option (JsonDict φ)
  metadata : JsonDict φ

variable {φ : Type}

namespace ApprovalRequest

/-- `validate`, which `__post_init__` calls; the tenant is stored normalized. -/
def validate (r : ApprovalRequest φ) : Except Raised (ApprovalRequest φ) :=
  if "apr_".toList.isPrefixOf r.approvalId.toList = false then
    .error (.valueError ("approval_id must start with 'apr_': " ++ r.approvalId))
  else if r.templateId = "" ∨ 128 < r.templateId.length then
    .error (.valueError "template_id must be 1-128 characters")
  else (normalizeTenantId r.tenantId "tenant_id").map fun tenantId => { r with tenantId }

def isPending (r : ApprovalRequest φ) : Bool := decide (r.status = .pending)

def isTerminal (r : ApprovalRequest φ) : Bool := r.status.terminal

/-- A text that cannot be read never expires. -/
def isExpired (dt : Datetime) (now : ℤ) (r : ApprovalRequest φ) : Bool :=
  r.expiresAt.any fun text => decide (text ≠ "") && (dt.read text).any fun t => decide (t ≤ now)

def cannot (verb : String) (r : ApprovalRequest φ) : Raised :=
  .valueError ("Cannot " ++ verb ++ " request in status: " ++ r.status.value)

def approve (dt : Datetime) (now : ℤ) (actor : Option String) (r : ApprovalRequest φ) :
    Except Raised (ApprovalRequest φ) :=
  if r.isPending then
    .ok { r with status := .approved, approvedAt := some (dt.isoformat now), decisionBy := actor }
  else .error (r.cannot "approve")

def reject (dt : Datetime) (now : ℤ) (actor : Option String) (r : ApprovalRequest φ) :
    Except Raised (ApprovalRequest φ) :=
  if r.isPending then
    .ok { r with status := .rejected, rejectedAt := some (dt.isoformat now), decisionBy := actor }
  else .error (r.cannot "reject")

def expire (r : ApprovalRequest φ) : Except Raised (ApprovalRequest φ) :=
  if r.isPending then .ok { r with status := .expired } else .error (r.cannot "expire")

end ApprovalRequest

/-! ## The store -/

@[irreducible] def maxApprovals : ℕ := 10000
def retentionDays : ℤ := 30

/-- What a call finds around it. -/
structure Env where
  now : ℤ
  saves : Bool
  multiTenant : Bool
  currentTenant : String
  uuid : String
  freshTraceId : String
  defaultTtlSec : ℤ

abbrev ApprovalStore (φ : Type) := Table (ApprovalRequest.approvalId : ApprovalRequest φ → String)

namespace ApprovalStore

def matchTenant (env : Env) (tenantId : Option String) (a : ApprovalRequest φ) : Bool :=
  match tenantId with
  | none => true
  | some tenant =>
    !env.multiTenant || decide (a.tenantId =
      match normalizeTenantId tenant "tenant_id" with
      | .ok expected => expected
      | .error _ => defaultTenantId)

def get (s : ApprovalStore φ) (env : Env) (approvalId : String) (tenantId : Option String) :
    Option (ApprovalRequest φ) :=
  (s.get? approvalId).filter (matchTenant env tenantId)

/-- Whether the loop of `_cleanup_old_approvals` removes a request; `left` is what it left over so
far. -/
def outdated (dt : Datetime) (now : ℤ) (left : ℕ) (a : ApprovalRequest φ) : Bool :=
  (dt.read a.requestedAt).any fun created =>
    decide (retentionDays < (now - created) / day) || decide (maxApprovals ≤ left + 100)

/-- The ids in `to_remove`. -/
def toRemove (dt : Datetime) (now : ℤ) : ℕ → List (ApprovalRequest φ) → List String
  | _, [] => []
  | left, a :: rest =>
    if outdated dt now left a then a.approvalId :: toRemove dt now (left - 1) rest
    else toRemove dt now left rest

def cleanupOldApprovals (dt : Datetime) (now : ℤ) (s : ApprovalStore φ) : ApprovalStore φ :=
  (toRemove dt now s.size (s.rows.filter (·.isTerminal))).foldl Table.drop s

/-- `add`; it answers `save_approvals`. -/
def add (dt : Datetime) (env : Env) (s : ApprovalStore φ) (a : ApprovalRequest φ) :
    ApprovalStore φ × Bool :=
  if (s.get? a.approvalId).isSome then (s, false)
  else
    let s := if maxApprovals ≤ s.size then cleanupOldApprovals dt env.now s else s
    if maxApprovals ≤ s.size then (s, false) else (s.put a, env.saves)

def update (env : Env) (s : ApprovalStore φ) (a : ApprovalRequest φ) : ApprovalStore φ × Bool :=
  if (s.get? a.approvalId).isSome then (s.put a, env.saves) else (s, false)

/-- The body of the loop of `expire_due`. -/
def expireIfDue (dt : Datetime) (now : ℤ) (a : ApprovalRequest φ) : ApprovalRequest φ :=
  if a.isPending && a.isExpired dt now then { a with status := .expired } else a

/-- `expire_due`; the answer of its save is not looked at. -/
def expireDue (dt : Datetime) (now : ℤ) (s : ApprovalStore φ) : ApprovalStore φ :=
  s.filterMap (fun a => some (expireIfDue dt now a)) fun a b h => by
    cases h
    unfold expireIfDue
    split <;> rfl

def listAll (s : ApprovalStore φ) (env : Env) (tenantId : Option String) :
    List (ApprovalRequest φ) :=
  s.rows.filter (matchTenant env tenantId)

def listByStatus (s : ApprovalStore φ) (env : Env) (status : ApprovalStatus)
    (tenantId : Option String) : List (ApprovalRequest φ) :=
  s.rows.filter fun a => decide (a.status = status) && matchTenant env tenantId a

end ApprovalStore

end Store

variable {φ : Type}

structure CreateArgs (φ : Type) where
  templateId : String
  inputs : JsonDict φ
  source : ApprovalSource := .trigger
  traceId : Option String := none
  tenantId : Option String := none
  requestedBy : Option String := none
  delivery : Option (JsonDict φ) := none
  ttlSec : Option ℤ := none
  metadata : Option (JsonDict φ) := none

structure ExecutionArgs where
  promptId : PyStr
  traceId : Option PyStr := none
  actor : Option PyStr := none

inductive Answer (φ : Type) where
  | request (r : ApprovalRequest φ)
  | found (r : Option (ApprovalRequest φ))
  | requests (rs : List (ApprovalRequest φ))
  | count (n : ℕ)

abbrev Reply (φ : Type) := Except Raised (Answer φ)

/-- `xs[i]` for a slice bound `i`. -/
def sliceBound (n : ℕ) (i : ℤ) : ℕ := if i < 0 then (i + n).toNat else i.toNat

def slice {α : Type} (xs : List α) (lo hi : ℤ) : List α :=
  (xs.take (sliceBound xs.length hi)).drop (sliceBound xs.length lo)

/-- `value or fallback`. -/
def textOr (value : Option String) (fallback : String) : String :=
  match value with
  | none => fallback
  | some text => if text = "" then fallback else text

namespace ApprovalService
variable (dt : Datetime) (env : Env)

/-- The id that `generate_id` draws. -/
def generateId : String := "apr_" ++ env.uuid

/-- `create_request` up to the store. -/
def newRequest (args : CreateArgs φ) : Except Raised (ApprovalRequest φ) := do
  let resolvedTenant ← normalizeTenantId
    (textOr args.tenantId (textOr (some env.currentTenant) defaultTenantId)) "tenant_id"
  let expires := env.now + args.ttlSec.getD env.defaultTtlSec * second
  if expires < minTime ∨ maxTime < expires then throw .overflowError
  ApprovalRequest.validate {
    approvalId := generateId env
    templateId := args.templateId
    inputs := args.inputs
    source := args.source
    traceId := textOr args.traceId env.freshTraceId
    tenantId := resolvedTenant
    status := .pending
    requestedAt := dt.isoformat env.now
    requestedBy := args.requestedBy
    expiresAt := some (dt.isoformat expires)
    approvedAt := none
    rejectedAt := none
    decisionBy := none
    delivery := args.delivery
    metadata := args.metadata.getD [] }

def createRequest (args : CreateArgs φ) (s : ApprovalStore φ) : ApprovalStore φ × Reply φ :=
  match newRequest dt env args with
  | .error e => (s, .error e)
  | .ok request =>
    match s.add dt env request with
    | (s, true) => (s, .ok (.request request))
    | (s, false) =>
      (s, .error (.valueError ("Failed to create approval request: " ++ request.approvalId)))

def notFound (approvalId : String) : Raised :=
  .valueError ("Approval request not found: " ++ approvalId)

/-- The end of a method that changed a stored request. -/
def commit (request : ApprovalRequest φ) (s : ApprovalStore φ) : ApprovalStore φ × Reply φ :=
  match s.update env request with
  | (s, true) => (s, .ok (.request request))
  | (s, false) =>
    (s, .error (.valueError ("Failed to update approval request: " ++ request.approvalId)))

def approve (approvalId : String) (actor tenantId : Option String) (s : ApprovalStore φ) :
    ApprovalStore φ × Reply φ :=
  match s.get env approvalId tenantId with
  | none => (s, .error (notFound approvalId))
  | some request =>
    if request.isExpired dt env.now then
      match request.expire with
      | .error e => (s, .error e)
      | .ok request => ((s.update env request).1,
          .error (.valueError ("Approval request has expired: " ++ approvalId)))
    else
      match request.approve dt env.now actor with
      | .error e => (s, .error e)
      | .ok request => commit env request s

def reject (approvalId : String) (actor tenantId : Option String) (s : ApprovalStore φ) :
    ApprovalStore φ × Reply φ :=
  match s.get env approvalId tenantId with
  | none => (s, .error (notFound approvalId))
  | some request =>
    match request.reject dt env.now actor with
    | .error e => (s, .error e)
    | .ok request => commit env request s

def setText (key : String) (value : PyStr) (metadata : JsonDict φ) : JsonDict φ :=
  replaceRow Prod.fst (PyStr.ofString key, .str value) metadata

def setTextIf (key : String) (value : Option PyStr) (metadata : JsonDict φ) : JsonDict φ :=
  match value with
  | none => metadata
  | some text => if text = [] then metadata else setText key text metadata

def executed (args : ExecutionArgs) (metadata : JsonDict φ) : JsonDict φ :=
  setTextIf "executed_by" args.actor <|
    setText "executed_at" (PyStr.ofString (dt.isoformat env.now)) <|
      setTextIf "executed_trace_id" args.traceId <|
        setText "executed_prompt_id" args.promptId metadata

def recordExecution (approvalId : String) (args : ExecutionArgs) (tenantId : Option String)
    (s : ApprovalStore φ) : ApprovalStore φ × Reply φ :=
  match s.get env approvalId tenantId with
  | none => (s, .error (notFound approvalId))
  | some request =>
    commit env { request with metadata := executed dt env args request.metadata } s

def listPending (limit : ℤ) (tenantId : Option String) (s : ApprovalStore φ) :
    ApprovalStore φ × Reply φ :=
  let s := s.expireDue dt env.now
  let pending := sortedBy (·.requestedAt) (s.listByStatus env .pending tenantId)
  (s, .ok (.requests (slice pending 0 limit)))

def listAll (status : Option ApprovalStatus) (limit offset : ℤ) (tenantId : Option String)
    (s : ApprovalStore φ) : ApprovalStore φ × Reply φ :=
  let s := s.expireDue dt env.now
  let approvals := match status with
    | some status => s.listByStatus env status tenantId
    | none => s.listAll env tenantId
  let newestFirst := sortedBy (fun a => OrderDual.toDual a.requestedAt) approvals
  (s, .ok (.requests (slice newestFirst offset (offset + limit))))

def countPending (tenantId : Option String) (s : ApprovalStore φ) : ApprovalStore φ × Reply φ :=
  let s := s.expireDue dt env.now
  (s, .ok (.count (s.listByStatus env .pending tenantId).length))

end ApprovalService

inductive Call (φ : Type) where
  | create (args : CreateArgs φ)
  | get (approvalId : String) (tenantId : Option String)
  | listPending (limit : ℤ) (tenantId : Option String)
  | listAll (status : Option ApprovalStatus) (limit offset : ℤ) (tenantId : Option String)
  | approve (approvalId : String) (actor tenantId : Option String)
  | reject (approvalId : String) (actor tenantId : Option String)
  | recordExecution (approvalId : String) (args : ExecutionArgs) (tenantId : Option String)
  | expireDue
  | countPending (tenantId : Option String)

/-- One call on the store. -/
def serve (dt : Datetime) (s : ApprovalStore φ) (input : Env × Call φ) :
    ApprovalStore φ × Reply φ :=
  let (env, call) := input
  match call with
  | .create args => ApprovalService.createRequest dt env args s
  | .get approvalId tenantId => (s, .ok (.found (s.get env approvalId tenantId)))
  | .listPending limit tenantId => ApprovalService.listPending dt env limit tenantId s
  | .listAll status limit offset tenantId =>
    ApprovalService.listAll dt env status limit offset tenantId s
  | .approve approvalId actor tenantId => ApprovalService.approve dt env approvalId actor tenantId s
  | .reject approvalId actor tenantId => ApprovalService.reject dt env approvalId actor tenantId s
  | .recordExecution approvalId args tenantId =>
    ApprovalService.recordExecution dt env approvalId args tenantId s
  | .expireDue => (s.expireDue dt env.now, .ok (.count
      (s.rows.filter fun a => a.isPending && a.isExpired dt env.now).length))
  | .countPending tenantId => ApprovalService.countPending dt env tenantId s

end OpenClaw.Approvals
