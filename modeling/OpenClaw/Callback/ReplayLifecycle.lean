import Mathlib.Data.Rat.Defs
import Mathlib.Algebra.Order.Ring.Rat
import OpenClaw.Foundation.PyText
import OpenClaw.Foundation.Table

/-!
# The replay lifecycle

`ConnectorReplayLifecycle` of `services/connector_replay_lifecycle.py`. The keys that the callback
contract builds are never empty; the `ValueError` of `_normalize_key` belongs to runs of any calls.
-/

namespace OpenClaw.Callback

open Foundation
set_option autoImplicit false

/-- `dict(metadata)` of texts. -/
abbrev Metadata := List (String × PyStr)

def Metadata.get? (metadata : Metadata) (key : String) : Option PyStr :=
  (metadata.find? fun f => f.1 = key).map Prod.snd

/-- `metadata.update(more)`. -/
def Metadata.update (metadata more : Metadata) : Metadata :=
  more.foldl (fun metadata f => replaceRow Prod.fst f metadata) metadata

inductive ReplayLifecycleState where
  | claimed | retryableFailure | delivered | terminalFailure
  deriving DecidableEq

inductive ReplayClaimCode where
  | claimed | retryClaimed | duplicateInFlight | duplicateAfterSuccess
  | duplicateAfterTerminalFailure
  deriving DecidableEq

def ReplayClaimCode.value : ReplayClaimCode → String
  | claimed => "claimed"
  | retryClaimed => "retry_claimed"
  | duplicateInFlight => "duplicate_in_flight"
  | duplicateAfterSuccess => "duplicate_after_success"
  | duplicateAfterTerminalFailure => "duplicate_after_terminal_failure"

structure ReplayLifecycleRecord where
  key : PyStr
  state : ReplayLifecycleState
  createdAt : ℚ
  updatedAt : ℚ
  expiresAt : ℚ
  claimCount : ℕ := 1
  lastReason : String := ""
  metadata : Metadata

structure ReplayClaimResult where
  accepted : Bool
  code : ReplayClaimCode

/-- `_ttl_sec` and `_max_entries`, which the constructor keeps positive. -/
structure LifecycleConfig where
  ttlSec : ℤ
  maxEntries : ℤ
  ttl_pos : 1 ≤ ttlSec
  max_pos : 1 ≤ maxEntries

def LifecycleConfig.of (ttlSec maxEntries : ℤ) : LifecycleConfig :=
  ⟨max 1 ttlSec, max 1 maxEntries, le_max_left _ _, le_max_left _ _⟩

abbrev ReplayLifecycle := Table ReplayLifecycleRecord.key

namespace ReplayLifecycle
variable (cfg : LifecycleConfig)

def normalizeKey (key : PyStr) : PyStr := key.strip

/-- `_evict_expired_locked`. -/
def evictExpired (now : ℚ) (s : ReplayLifecycle) : ReplayLifecycle :=
  s.filterMap (fun r => if r.expiresAt ≤ now then none else some r) fun r r' h => by
    split at h
    · cases h
    · cases h
      rfl

/-- `_enforce_cap_locked`; the records with the oldest update go first. -/
def enforceCap (s : ReplayLifecycle) : ReplayLifecycle :=
  if (s.size : ℤ) ≤ cfg.maxEntries then s
  else ((sortedBy (·.updatedAt) s.rows).take (s.size - cfg.maxEntries).toNat).foldl
    (fun s r => s.drop r.key) s

def newRecord (key : PyStr) (now : ℚ) (metadata : Metadata) : ReplayLifecycleRecord where
  key
  state := .claimed
  createdAt := now
  updatedAt := now
  expiresAt := now + cfg.ttlSec
  metadata

def claim (key : PyStr) (metadata : Metadata) (now : ℚ) (s : ReplayLifecycle) :
    ReplayLifecycle × ReplayClaimResult :=
  let s := evictExpired now s
  match s.get? (normalizeKey key) with
  | none =>
    (enforceCap cfg (s.put (newRecord cfg (normalizeKey key) now metadata)), ⟨true, .claimed⟩)
  | some existing =>
    match existing.state with
    | .retryableFailure =>
      (s.put { existing with
        state := .claimed
        updatedAt := now
        expiresAt := now + cfg.ttlSec
        claimCount := existing.claimCount + 1
        lastReason := ""
        metadata := existing.metadata.update metadata }, ⟨true, .retryClaimed⟩)
    | .claimed => (s.put { existing with updatedAt := now }, ⟨false, .duplicateInFlight⟩)
    | .delivered => (s.put { existing with updatedAt := now }, ⟨false, .duplicateAfterSuccess⟩)
    | .terminalFailure =>
      (s.put { existing with updatedAt := now }, ⟨false, .duplicateAfterTerminalFailure⟩)

def transition (key : PyStr) (state : ReplayLifecycleState) (reason : String) (now : ℚ)
    (allowedFrom : List ReplayLifecycleState) (s : ReplayLifecycle) : ReplayLifecycle :=
  let s := evictExpired now s
  match s.get? (normalizeKey key) with
  | none => s
  | some r =>
    if r.state ∈ allowedFrom then
      s.put { r with
        state, updatedAt := now, expiresAt := now + cfg.ttlSec, lastReason := reason }
    else s

def releaseRetryable (key : PyStr) (reason : String) (now : ℚ) (s : ReplayLifecycle) :
    ReplayLifecycle :=
  transition cfg key .retryableFailure reason now [.claimed] s

def commitSuccess (key : PyStr) (reason : String) (now : ℚ) (s : ReplayLifecycle) :
    ReplayLifecycle :=
  transition cfg key .delivered reason now [.claimed, .retryableFailure] s

def failTerminal (key : PyStr) (reason : String) (now : ℚ) (s : ReplayLifecycle) :
    ReplayLifecycle :=
  transition cfg key .terminalFailure reason now [.claimed, .retryableFailure] s

/-- A claim that stores a new record finds room for it. -/
def Roomy (key : PyStr) (now : ℚ) (s : ReplayLifecycle) : Prop :=
  (evictExpired now s).get? (normalizeKey key) = none →
    ((evictExpired now s).size : ℤ) < cfg.maxEntries

theorem get?_evictExpired (now : ℚ) (s : ReplayLifecycle) (key : PyStr) :
    (evictExpired now s).get? key =
      (s.get? key).bind fun r => if r.expiresAt ≤ now then none else some r :=
  Table.get?_filterMap _ _ _ _

variable {cfg} {s : ReplayLifecycle}

theorem enforceCap_of_room {r : ReplayLifecycleRecord} (h : (s.size : ℤ) < cfg.maxEntries) :
    enforceCap cfg (s.put r) = s.put r := by
  rw [enforceCap, if_pos]
  rw [Table.size_put]
  split <;> push_cast <;> omega

end ReplayLifecycle

end OpenClaw.Callback
