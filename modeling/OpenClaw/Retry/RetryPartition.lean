import OpenClaw.Foundation.Json
import OpenClaw.Foundation.PyText
import OpenClaw.Foundation.RetryLanes

/-!
# The retry partition

`services/retry_partition.py`: the classification of failures, the two lanes and the decision about
each failure. Waiting times and the times of failures, which no decision reads, are left out.
-/

namespace OpenClaw.Retry

open Foundation
set_option autoImplicit false

inductive RetryDecision where
  | retryRateLimit | retryTransport | rateLimitBudgetExhausted | transportBudgetExhausted
  | nonRetryableRejected | success
  deriving DecidableEq

def RetryDecision.value : RetryDecision → String
  | retryRateLimit => "R121_RETRY_RATE_LIMIT"
  | retryTransport => "R121_RETRY_TRANSPORT"
  | rateLimitBudgetExhausted => "R121_RATE_LIMIT_BUDGET_EXHAUSTED"
  | transportBudgetExhausted => "R121_TRANSPORT_BUDGET_EXHAUSTED"
  | nonRetryableRejected => "R121_NON_RETRYABLE_REJECTED"
  | success => "R121_SUCCESS"

inductive FailureClass where
  | rateLimit | transport | nonRetryable
  deriving DecidableEq

def rateLimitCodes : List ℕ := [429]

def nonRetryableCodes : List ℕ := [401, 403, 404, 405, 410, 451]

/-- What the classification reads of an exception: `str(exc)` and three `isinstance` tests. -/
structure PyError where
  text : PyStr
  runtimeError : Bool := false
  ssrfError : Bool := false
  osError : Bool := false

def httpMarker : List ℕ := "HTTP error ".toList.map Char.toNat

/-- The digits of the first match of `HTTP error (\d+)`. -/
def statusDigits (points : List ℕ) : Option (List ℕ) :=
  points.tails.findSome? fun rest =>
    if httpMarker <+: rest then
      match (rest.drop httpMarker.length).takeWhile fun n => (PyText.decimalCode? n).isSome with
      | [] => none
      | digits => some (digits.filterMap PyText.decimalCode?)
    else
      none

/-- `int(digits)`; `none` is the `ValueError` for more digits than it takes. -/
def intOfDigits (digits : List ℕ) : Option ℕ :=
  if PyText.maxStrDigits < digits.length then none
  else some (digits.foldl (fun n d => 10 * n + d) 0)

def classOfCode (code : ℕ) : FailureClass :=
  if code ∈ rateLimitCodes then .rateLimit
  else if code ∈ nonRetryableCodes then .nonRetryable
  else .transport

/-- `classify_failure`; `none` where it raises. -/
def classifyFailure (exc : PyError) : Option FailureClass :=
  if exc.runtimeError then
    match statusDigits exc.text.codePoints with
    | some digits => (intOfDigits digits).map classOfCode
    | none => some .transport
  else if exc.ssrfError then
    if PyStr.ofString "DNS resolution failed" <:+: exc.text ∨
        PyStr.ofString "No IP resolved" <:+: exc.text then
      some .transport
    else
      some .nonRetryable
  else if exc.osError then
    some .transport
  else
    some .nonRetryable

example : classifyFailure
    { text := PyStr.ofString "HTTP error 429: Too Many Requests", runtimeError := true } =
      some .rateLimit := by decide +kernel

structure LaneSnapshot where
  name : String
  maxRetries : ℤ
  consumed : ℕ
  remaining : ℤ
  exhausted : Bool

structure LaneState where
  name : String
  maxRetries : ℤ
  consumed : ℕ := 0

namespace LaneState

def remaining (lane : LaneState) : ℤ := max 0 (lane.maxRetries - lane.consumed)

def exhausted (lane : LaneState) : Bool := decide (lane.maxRetries ≤ lane.consumed)

def consume (lane : LaneState) : LaneState := { lane with consumed := lane.consumed + 1 }

def toDict (lane : LaneState) : LaneSnapshot :=
  ⟨lane.name, lane.maxRetries, lane.consumed, lane.remaining, lane.exhausted⟩

end LaneState

structure RetryEvidence where
  decision : RetryDecision
  lane : String
  attempt : ℕ
  error : PyStr
  failureClass : FailureClass
  laneSnapshot : Option LaneSnapshot := none

structure RetryPartition where
  rateLimitLane : LaneState
  transportLane : LaneState
  evidenceLog : List RetryEvidence := []

structure Diagnostics where
  rateLimitLane : LaneSnapshot
  transportLane : LaneSnapshot
  evidenceCount : ℕ
  evidenceTail : List RetryEvidence

namespace RetryPartition

/-- A new partition with the two budgets. -/
def new (rateLimitRetries transportRetries : ℤ) : RetryPartition where
  rateLimitLane := { name := "rate_limit", maxRetries := rateLimitRetries }
  transportLane := { name := "transport", maxRetries := transportRetries }

/-- The evidence for a failure of a lane that has just consumed it. -/
def laneEvidence (lane : LaneState) (retry exhausted : RetryDecision) (fc : FailureClass)
    (exc : PyError) : RetryEvidence where
  decision := if lane.exhausted then exhausted else retry
  lane := lane.name
  attempt := lane.consumed
  error := exc.text
  failureClass := fc
  laneSnapshot := some lane.toDict

def rejectedEvidence (exc : PyError) : RetryEvidence where
  decision := .nonRetryableRejected
  lane := "none"
  attempt := 0
  error := exc.text
  failureClass := .nonRetryable

def log (p : RetryPartition) (evidence : RetryEvidence) : RetryPartition :=
  { p with evidenceLog := p.evidenceLog ++ [evidence] }

/-- `record_failure`; `none` where the classification raises, which changes nothing. -/
def recordFailure (p : RetryPartition) (exc : PyError) : Option (RetryEvidence × RetryPartition) :=
  match classifyFailure exc with
  | none => none
  | some .nonRetryable =>
    let evidence := rejectedEvidence exc
    some (evidence, p.log evidence)
  | some .rateLimit =>
    let lane := p.rateLimitLane.consume
    let evidence := laneEvidence lane .retryRateLimit .rateLimitBudgetExhausted .rateLimit exc
    some (evidence, { p with rateLimitLane := lane }.log evidence)
  | some .transport =>
    let lane := p.transportLane.consume
    let evidence := laneEvidence lane .retryTransport .transportBudgetExhausted .transport exc
    some (evidence, { p with transportLane := lane }.log evidence)

def shouldRetry (evidence : RetryEvidence) : Bool :=
  decide (evidence.decision = .retryRateLimit ∨ evidence.decision = .retryTransport)

def diagnostics (p : RetryPartition) : Diagnostics where
  rateLimitLane := p.rateLimitLane.toDict
  transportLane := p.transportLane.toDict
  evidenceCount := p.evidenceLog.length
  evidenceTail := p.evidenceLog.drop (p.evidenceLog.length - 5)

/-- The partition after these failures, in this order. -/
def recordAll (p : RetryPartition) (failures : List PyError) : RetryPartition :=
  failures.foldl (fun p exc => ((p.recordFailure exc).map Prod.snd).getD p) p

end RetryPartition

/-! ## The lanes -/

inductive Lane where
  | rateLimit | transport
  deriving DecidableEq

instance : Fintype Lane := ⟨{.rateLimit, .transport}, fun l => by cases l <;> decide⟩

def laneOf : FailureClass → Option Lane
  | .rateLimit => some .rateLimit
  | .transport => some .transport
  | .nonRetryable => none

/-- The lane that a failure consumes, if it consumes one. -/
def failureLane (exc : PyError) : Option Lane := (classifyFailure exc).bind laneOf

structure Budgets where
  rateLimitRetries : ℤ
  transportRetries : ℤ

def Budgets.of (b : Budgets) : Lane → ℤ
  | .rateLimit => b.rateLimitRetries
  | .transport => b.transportRetries

def Budgets.partition (b : Budgets) : RetryPartition :=
  .new b.rateLimitRetries b.transportRetries

def RetryPartition.lane (p : RetryPartition) : Lane → LaneState
  | .rateLimit => p.rateLimitLane
  | .transport => p.transportLane

def Lane.retry : Lane → RetryDecision
  | .rateLimit => .retryRateLimit
  | .transport => .retryTransport

def Lane.exhausted : Lane → RetryDecision
  | .rateLimit => .rateLimitBudgetExhausted
  | .transport => .transportBudgetExhausted

def Lane.failureClass : Lane → FailureClass
  | .rateLimit => .rateLimit
  | .transport => .transport

def Lane.name : Lane → String
  | .rateLimit => "rate_limit"
  | .transport => "transport"

namespace RetryPartition
variable {p : RetryPartition} {exc : PyError} {l : Lane}

theorem recordFailure_of_lane (h : failureLane exc = some l) :
    ∃ p', p.recordFailure exc =
        some (laneEvidence (p.lane l).consume l.retry l.exhausted l.failureClass exc, p') ∧
      p'.lane l = (p.lane l).consume ∧ ∀ m ≠ l, p'.lane m = p.lane m := by
  unfold recordFailure
  unfold failureLane at h
  cases hclass : classifyFailure exc with
  | none => simp [hclass] at h
  | some fc =>
    rw [hclass] at h
    cases fc with
    | nonRetryable => cases h
    | rateLimit =>
      cases h
      refine ⟨_, rfl, rfl, fun m hm => ?_⟩
      cases m with
      | rateLimit => exact absurd rfl hm
      | transport => rfl
    | transport =>
      cases h
      refine ⟨_, rfl, rfl, fun m hm => ?_⟩
      cases m with
      | rateLimit => rfl
      | transport => exact absurd rfl hm

theorem recordFailure_of_rejected (h : classifyFailure exc = some .nonRetryable) :
    p.recordFailure exc = some (rejectedEvidence exc, p.log (rejectedEvidence exc)) := by
  unfold recordFailure
  rw [h]

theorem recordFailure_of_raised (h : classifyFailure exc = none) : p.recordFailure exc = none := by
  unfold recordFailure
  rw [h]

/-- The partition after a failure, which is the same one where the classification raises. -/
def next (p : RetryPartition) (exc : PyError) : RetryPartition :=
  ((p.recordFailure exc).map Prod.snd).getD p

theorem recordAll_append (failures : List PyError) :
    p.recordAll (failures ++ [exc]) = (p.recordAll failures).next exc := by
  simp only [recordAll, List.foldl_append, List.foldl_cons, List.foldl_nil]
  rfl

theorem lane_next_of_lane (h : failureLane exc = some l) :
    (p.next exc).lane l = (p.lane l).consume := by
  obtain ⟨p', hp, hl, -⟩ := recordFailure_of_lane (p := p) h
  simp only [next, hp, Option.map_some, Option.getD_some, hl]

theorem lane_next_of_ne (h : failureLane exc ≠ some l) : (p.next exc).lane l = p.lane l := by
  cases hclass : classifyFailure exc with
  | none => simp only [next, recordFailure_of_raised hclass, Option.map_none, Option.getD_none]
  | some fc =>
    cases hm : laneOf fc with
    | none =>
      cases fc with
      | nonRetryable =>
        simp only [next, recordFailure_of_rejected hclass, Option.map_some, Option.getD_some]
        cases l <;> rfl
      | rateLimit => cases hm
      | transport => cases hm
    | some m =>
      have hlane : failureLane exc = some m := by simp [failureLane, hclass, hm]
      obtain ⟨p', hp, -, hrest⟩ := recordFailure_of_lane (p := p) hlane
      have hne : l ≠ m := by
        intro heq
        rw [heq] at h
        exact h hlane
      simp only [next, hp, Option.map_some, Option.getD_some, hrest l hne]

end RetryPartition

section Runs
variable (b : Budgets)

theorem lane_recordAll (l : Lane) (failures : List PyError) :
    (b.partition.recordAll failures).lane l =
      ⟨l.name, b.of l, RetryLanes.used failureLane l failures⟩ := by
  induction failures using List.reverseRecOn with
  | nil => cases l <;> rfl
  | append_singleton failures exc ih =>
    rw [RetryPartition.recordAll_append]
    by_cases h : failureLane exc = some l
    · rw [RetryPartition.lane_next_of_lane h, ih, RetryLanes.used_append_of_lane h]
      rfl
    · rw [RetryPartition.lane_next_of_ne h, ih, RetryLanes.used_append_of_ne h]

/-- What `record_failure` says about a failure after these ones. -/
def evidenceAfter (failures : List PyError) (exc : PyError) : Option RetryEvidence :=
  ((b.partition.recordAll failures).recordFailure exc).map Prod.fst

variable {b} {failures : List PyError} {exc : PyError} {l : Lane}

theorem evidenceAfter_of_lane (h : failureLane exc = some l) :
    evidenceAfter b failures exc =
      some (RetryPartition.laneEvidence
        ⟨l.name, b.of l, RetryLanes.used failureLane l failures + 1⟩
        l.retry l.exhausted l.failureClass exc) := by
  obtain ⟨p', hp, -, -⟩ := RetryPartition.recordFailure_of_lane
    (p := b.partition.recordAll failures) h
  rw [evidenceAfter, hp, lane_recordAll]
  rfl

theorem evidenceAfter_of_rejected (h : classifyFailure exc = some .nonRetryable) :
    evidenceAfter b failures exc = some (RetryPartition.rejectedEvidence exc) := by
  rw [evidenceAfter, RetryPartition.recordFailure_of_rejected h]
  rfl

/-- The partition decides as the budgets of the lanes do. -/
theorem shouldRetry_eq {evidence : RetryEvidence}
    (h : evidenceAfter b failures exc = some evidence) :
    RetryPartition.shouldRetry evidence =
      RetryLanes.granted failureLane b.of failures exc := by
  cases hl : failureLane exc with
  | none =>
    have hclass : classifyFailure exc = some .nonRetryable := by
      cases hc : classifyFailure exc with
      | none => simp [evidenceAfter, RetryPartition.recordFailure_of_raised hc] at h
      | some fc =>
        cases fc with
        | nonRetryable => rfl
        | rateLimit => simp [failureLane, hc, laneOf] at hl
        | transport => simp [failureLane, hc, laneOf] at hl
    rw [evidenceAfter_of_rejected hclass] at h
    cases h
    simp [RetryPartition.shouldRetry, RetryPartition.rejectedEvidence, RetryLanes.granted, hl]
  | some l =>
    rw [evidenceAfter_of_lane hl] at h
    cases h
    rw [RetryLanes.granted, hl]
    by_cases hex : b.of l ≤ (RetryLanes.used failureLane l failures : ℤ) + 1
    · have hnot : ¬(RetryLanes.used failureLane l failures : ℤ) + 1 < b.of l := by omega
      cases l <;> simp [RetryPartition.shouldRetry, RetryPartition.laneEvidence,
        LaneState.exhausted, hex, hnot, Lane.exhausted]
    · have hlt : (RetryLanes.used failureLane l failures : ℤ) + 1 < b.of l := by omega
      cases l <;> simp [RetryPartition.shouldRetry, RetryPartition.laneEvidence,
        LaneState.exhausted, hlt, Lane.retry]

variable (b failures exc) in
/-- The next partition of a run is the one that the answer came with. -/
theorem recordFailure_recordAll :
    (b.partition.recordAll failures).recordFailure exc =
      (evidenceAfter b failures exc).map fun evidence =>
        (evidence, b.partition.recordAll (failures ++ [exc])) := by
  rw [RetryPartition.recordAll_append, RetryPartition.next, evidenceAfter]
  cases (b.partition.recordAll failures).recordFailure exc <;> rfl

theorem retried_of_granted (h : RetryLanes.granted failureLane b.of failures exc = true) :
    ∃ evidence, RetryPartition.shouldRetry evidence = true ∧
      (b.partition.recordAll failures).recordFailure exc =
        some (evidence, b.partition.recordAll (failures ++ [exc])) := by
  obtain ⟨l, hl⟩ := RetryLanes.lane_of_granted h
  have hev : evidenceAfter b failures exc = some _ := evidenceAfter_of_lane hl
  refine ⟨_, (shouldRetry_eq hev).trans h, ?_⟩
  rw [recordFailure_recordAll, hev]
  rfl

theorem stops_of_not_granted (h : RetryLanes.granted failureLane b.of failures exc = false)
    {evidence : RetryEvidence} {p : RetryPartition}
    (hrec : (b.partition.recordAll failures).recordFailure exc = some (evidence, p)) :
    RetryPartition.shouldRetry evidence = false := by
  have hev : evidenceAfter b failures exc = some evidence := by rw [evidenceAfter, hrec]; rfl
  exact (shouldRetry_eq hev).trans h

end Runs

end OpenClaw.Retry
