import Mathlib.Data.Rat.Defs
import Mathlib.Algebra.Order.Ring.Rat
import OpenClaw.Foundation.Table

/-!
# The schedule delivery outbox

`DeliveryOutbox` of `services/scheduler/delivery_outbox.py`. Intents live in a dictionary under
their delivery id and every mutation is followed by a save of all rows. Times are rational
seconds. The clock reading, whether the save of a call goes through, and the random tokens are
inputs.
-/

namespace OpenClaw.DeliveryOutbox

open Foundation
set_option autoImplicit false

inductive State where
  | pending | claimed | sent | jobFailed | timedOut | undeliverable | expired
  deriving DecidableEq, Repr

def ackOutcomes : List State := [.sent, .jobFailed, .timedOut, .undeliverable]

def terminalStates : List State := ackOutcomes ++ [.expired]

def State.terminal (s : State) : Bool := decide (s ∈ terminalStates)

/-- The outcome an acknowledgement names, when it is one of `ACK_OUTCOMES`. -/
def ackOutcome? : String → Option State
  | "sent" => some .sent
  | "job_failed" => some .jobFailed
  | "timed_out" => some .timedOut
  | "undeliverable" => some .undeliverable
  | _ => none

def ackReasons : State → List String
  | .jobFailed => ["job_error"]
  | .timedOut => ["result_timeout"]
  | .undeliverable => ["target_not_allowed", "platform_unavailable", "connector_error"]
  | _ => []

def reasonNoConnectorAdapter : String := "no_connector_adapter"
def reasonNotClaimed : String := "not_claimed"
def reasonCapacity : String := "capacity"

def connectorPlatforms : List String := ["discord", "feishu", "slack", "telegram"]

def pendingTtlSec : ℚ := 24 * 3600
def terminalRetentionSec : ℚ := 7 * 24 * 3600
@[irreducible] def maxRecords : ℕ := 2000
def minLeaseSec : ℤ := 60
def maxLeaseSec : ℤ := 7200
def maxClaimBatch : ℤ := 10
def defaultTenantId : String := "default"

/-- The fields of a normalized delivery that the outbox keeps (`_DELIVERY_FIELDS`). -/
structure Delivery where
  platform : Option String := none
  targetId : Option String := none
  threadId : Option String := none
  workspaceId : Option String := none
  accountId : Option String := none
  mode : Option String := none
  failureAlert : Option Bool := none
  deriving DecidableEq

structure DeliveryIntent where
  deliveryId : String
  runId : String
  scheduleId : String
  promptId : String
  tenantId : String
  delivery : Delivery
  state : State
  createdAt : ℚ
  updatedAt : ℚ
  reason : Option String := none
  attempts : ℕ := 0
  leaseExpiresAt : Option ℚ := none
  leaseTokenHash : Option String := none
  deriving DecidableEq

/-- Reading a stored row back: only an empty tenant is changed, to the default one. -/
def DeliveryIntent.fromStorage (row : DeliveryIntent) : DeliveryIntent :=
  { row with tenantId := if row.tenantId = "" then defaultTenantId else row.tenantId }

abbrev Intents := Table DeliveryIntent.deliveryId

structure ClaimedIntent where
  intent : DeliveryIntent
  leaseToken : String
  deriving DecidableEq

structure AckResult where
  intent : DeliveryIntent
  repeated : Bool
  deriving DecidableEq

inductive Raised where
  | outboxError (code message : String)
  | saveFailed
  deriving DecidableEq

def Raised.invalidOutcome : Raised := .outboxError "invalid_outcome" "unsupported outcome"
def Raised.invalidReason : Raised := .outboxError "invalid_reason" "unsupported reason for outcome"
def Raised.leaseTokenRequired : Raised :=
  .outboxError "lease_token_required" "lease_token is required"
def Raised.notFound : Raised := .outboxError "not_found" "delivery not found"
def Raised.leaseMismatch : Raised := .outboxError "lease_mismatch" "lease is not held"
def Raised.alreadyFinalized : Raised := .outboxError "already_finalized" "delivery is finalized"

/-- The hash (as a hex digest) and the stream of random lease tokens. -/
structure Env where
  sha256 : String → String
  tokenUrlsafe : ℕ → String

def Env.deliveryIdFor (env : Env) (idempotencyKey : String) : String :=
  "dlv_" ++ String.ofList ((env.sha256 idempotencyKey).toList.take 24)

def Env.hashToken (env : Env) (token : String) : String := env.sha256 token

/-- The process (`intents`, read from disk on first use), the file, and how many tokens
have been drawn so far. -/
structure Outbox where
  loaded : Bool := false
  intents : Intents := Table.empty
  file : Option (List DeliveryIntent) := none
  drawn : ℕ := 0

namespace Outbox

def loadFile (file : Option (List DeliveryIntent)) : Intents :=
  Table.ofRows ((file.getD []).map DeliveryIntent.fromStorage)

def ensureLoaded (s : Outbox) : Outbox :=
  if s.loaded then s else { s with loaded := true, intents := loadFile s.file }

/-- The end of a mutating call: the answer if the save goes through, else the exception. In
both cases the intents stay as the call left them. -/
def save {α : Type} (s : Outbox) (ok : Bool) (answer : α) : Outbox × Except Raised α :=
  if ok then ({ s with file := some s.intents.rows }, .ok answer) else (s, .error .saveFailed)

end Outbox

/-- One turn of the first loop of `_maintain`; `none` deletes the record. -/
def expireOrPrune (now : ℚ) (intent : DeliveryIntent) : Option DeliveryIntent :=
  if intent.state = .pending ∧ now - intent.createdAt > pendingTtlSec then
    some { intent with state := .expired, reason := some reasonNotClaimed, updatedAt := now }
  else if intent.state.terminal ∧ now - intent.updatedAt > terminalRetentionSec then
    none
  else
    some intent

theorem expireOrPrune_key (now : ℚ) (v w : DeliveryIntent) (h : expireOrPrune now v = some w) :
    w.deliveryId = v.deliveryId := by
  unfold expireOrPrune at h
  split at h
  · cases h; rfl
  split at h
  · cases h
  · cases h; rfl

/-- The records the second loop of `_maintain` takes: terminal ones first, each group by age. -/
def evictionOrder (intents : Intents) : List DeliveryIntent :=
  let byAge := sortedBy DeliveryIntent.updatedAt intents.rows
  byAge.filter (fun i => i.state.terminal) ++ byAge.filter (fun i => !i.state.terminal)

def evict (now : ℚ) (intents : Intents) (intent : DeliveryIntent) : Intents :=
  if intent.state.terminal then
    intents.drop intent.deliveryId
  else
    intents.put { intent with state := .expired, reason := some reasonCapacity, updatedAt := now }

/-- `_maintain`; the flag tells whether anything changed. -/
def maintain (now : ℚ) (intents : Intents) : Intents × Bool :=
  let kept := intents.filterMap (expireOrPrune now) (expireOrPrune_key now)
  let changed := decide (∃ i ∈ intents.rows, expireOrPrune now i ≠ some i)
  let overflow := kept.size - maxRecords
  if 0 < overflow then
    (((evictionOrder kept).take overflow).foldl (evict now) kept, true)
  else
    (kept, changed)

structure RecordArgs where
  idempotencyKey : String
  runId : String
  scheduleId : String
  promptId : String
  delivery : Delivery
  tenantId : String := defaultTenantId

structure ListArgs where
  tenantId : String
  state : Option State := none
  platform : Option String := none
  limit : ℤ := 50

structure ClaimArgs where
  tenantId : String
  platforms : List String
  limit : ℤ
  leaseSec : ℤ

structure AckArgs where
  tenantId : String
  deliveryId : String
  leaseToken : String
  outcome : String
  reason : Option String := none

namespace Outbox

def newIntent (env : Env) (args : RecordArgs) (now : ℚ) : DeliveryIntent :=
  let adapterMissing := ¬ ∃ p ∈ args.delivery.platform, p ∈ connectorPlatforms
  { deliveryId := env.deliveryIdFor args.idempotencyKey
    runId := args.runId
    scheduleId := args.scheduleId
    promptId := args.promptId
    tenantId := args.tenantId
    delivery := args.delivery
    state := if adapterMissing then .undeliverable else .pending
    reason := if adapterMissing then some reasonNoConnectorAdapter else none
    createdAt := now
    updatedAt := now }

def record (env : Env) (s : Outbox) (args : RecordArgs) (now : ℚ) (saveOk : Bool) :
    Outbox × Except Raised DeliveryIntent :=
  let s := s.ensureLoaded
  match s.intents.get? (env.deliveryIdFor args.idempotencyKey) with
  | some existing => (s, .ok existing)
  | none =>
    let intent := newIntent env args now
    let intents := (maintain now (s.intents.put intent)).1
    { s with intents }.save saveOk intent

def listIntents (s : Outbox) (args : ListArgs) (now : ℚ) (saveOk : Bool) :
    Outbox × Except Raised (List DeliveryIntent) :=
  let s := s.ensureLoaded
  let (intents, changed) := maintain now s.intents
  let found := intents.rows.filter fun i => i.tenantId = args.tenantId ∧
    (args.state = none ∨ args.state = some i.state) ∧
    (args.platform = none ∨ args.platform = i.delivery.platform)
  -- `reverse=True` keeps the sort stable, so equal creation times stay in dictionary order
  let answer := (sortedBy (fun i => -i.createdAt) found).take (max 0 args.limit).toNat
  if changed then { s with intents }.save saveOk answer else ({ s with intents }, .ok answer)

def claimBatch (limit : ℤ) : ℕ := (max 1 (min limit maxClaimBatch)).toNat

def claimLease (leaseSec : ℤ) : ℤ := max minLeaseSec (min leaseSec maxLeaseSec)

def claimable (args : ClaimArgs) (now : ℚ) (i : DeliveryIntent) : Bool :=
  i.tenantId = args.tenantId ∧
    (∃ p ∈ i.delivery.platform, p ∈ connectorPlatforms ∧ p ∈ args.platforms) ∧
    (i.state = .pending ∨ (i.state = .claimed ∧ i.leaseExpiresAt.getD 0 ≤ now))

def leased (env : Env) (now : ℚ) (lease : ℤ) (intent : DeliveryIntent) (n : ℕ) : ClaimedIntent :=
  { intent := { intent with
      state := .claimed
      attempts := intent.attempts + 1
      leaseExpiresAt := some (now + lease)
      leaseTokenHash := some (env.hashToken (env.tokenUrlsafe n))
      updatedAt := now }
    leaseToken := env.tokenUrlsafe n }

/-- The intents one claim call takes, with their fresh leases. -/
def claimedBy (env : Env) (args : ClaimArgs) (now : ℚ) (drawn : ℕ) (intents : Intents) :
    List ClaimedIntent :=
  let candidates := sortedBy DeliveryIntent.createdAt (intents.rows.filter (claimable args now))
  ((candidates.take (claimBatch args.limit)).zipIdx drawn).map fun (i, n) =>
    leased env now (claimLease args.leaseSec) i n

def claim (env : Env) (s : Outbox) (args : ClaimArgs) (now : ℚ) (saveOk : Bool) :
    Outbox × Except Raised (List ClaimedIntent) :=
  let s := s.ensureLoaded
  let (kept, changed) := maintain now s.intents
  let claimed := claimedBy env args now s.drawn kept
  let intents := claimed.foldl (fun t c => t.put c.intent) kept
  let s := { s with intents, drawn := s.drawn + claimed.length }
  if !claimed.isEmpty || changed then s.save saveOk claimed else (s, .ok claimed)

/-- The reason an acknowledgement ends up with; the outer `none` is an unsupported one. -/
def ackReason? (outcome : State) (reason : Option String) : Option (Option String) :=
  let allowed := ackReasons outcome
  let reason := match reason, allowed with
    | some r, _ => some r
    | none, [r] => some r
    | none, _ => none
  match reason with
  | none => if allowed.isEmpty then some none else none
  | some r => if r ∈ allowed then some (some r) else none

def ack (env : Env) (s : Outbox) (args : AckArgs) (now : ℚ) (saveOk : Bool) :
    Outbox × Except Raised AckResult :=
  match ackOutcome? args.outcome with
  | none => (s, .error .invalidOutcome)
  | some outcome =>
    match ackReason? outcome args.reason with
    | none => (s, .error .invalidReason)
    | some reason =>
      if args.leaseToken = "" then (s, .error .leaseTokenRequired) else
      let s := s.ensureLoaded
      match s.intents.get? args.deliveryId with
      | none => (s, .error .notFound)
      | some intent =>
        if intent.tenantId ≠ args.tenantId then
          (s, .error .notFound)
        else if intent.leaseTokenHash ≠ some (env.hashToken args.leaseToken) then
          (s, .error .leaseMismatch)
        else if intent.state.terminal then
          -- answered from memory, without a save
          if intent.state = outcome ∧ intent.reason = reason then
            (s, .ok { intent, repeated := true })
          else
            (s, .error .alreadyFinalized)
        else if intent.state ≠ .claimed then
          (s, .error .leaseMismatch)
        else
          let final := { intent with state := outcome, reason, updatedAt := now }
          { s with intents := s.intents.put final }.save saveOk { intent := final, repeated := false }

end Outbox

inductive Call where
  | record (args : RecordArgs) (now : ℚ)
  | list (args : ListArgs) (now : ℚ)
  | claim (args : ClaimArgs) (now : ℚ)
  | ack (args : AckArgs) (now : ℚ)

def Call.now : Call → ℚ
  | .record _ now | .list _ now | .claim _ now | .ack _ now => now

inductive Reply where
  | recorded (intent : DeliveryIntent)
  | listed (intents : List DeliveryIntent)
  | claimed (items : List ClaimedIntent)
  | acked (result : AckResult)
  | raised (error : Raised)

def Reply.of {α : Type} (f : α → Reply) : Except Raised α → Reply
  | .ok a => f a
  | .error e => .raised e

namespace Outbox

/-- One public call; `saveOk` tells whether a save it attempts goes through. -/
def exec (env : Env) (s : Outbox) (c : Call) (saveOk : Bool) : Outbox × Reply :=
  match c with
  | .record args now =>
    let (s, r) := s.record env args now saveOk
    (s, .of .recorded r)
  | .list args now =>
    let (s, r) := s.listIntents args now saveOk
    (s, .of .listed r)
  | .claim args now =>
    let (s, r) := s.claim env args now saveOk
    (s, .of .claimed r)
  | .ack args now =>
    let (s, r) := s.ack env args now saveOk
    (s, .of .acked r)

/-- The intent stored under `d` as the next call will see it. -/
def held (s : Outbox) (d : String) : Option DeliveryIntent := s.ensureLoaded.intents.get? d

end Outbox

end OpenClaw.DeliveryOutbox
