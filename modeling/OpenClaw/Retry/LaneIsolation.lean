import OpenClaw.ControlPlane.ControlPlaneAdapter
import OpenClaw.Retry.RetryPartition

/-!
# Lane isolation

A decision about a failure depends on its own lane alone, and the loops that follow the decisions
end before their own cap does, because the cap is more than the attempts both lanes can grant.
-/

namespace OpenClaw.Retry

open Foundation
set_option autoImplicit false

/-!
## The callback delivery loop

The retry loop of `services/callback_delivery.py`. What `safe_request_json` does at each attempt is
the input; logs, metrics and events are left out.
-/

section Delivery

inductive DeliveryEnd where
  | delivered
  /-- the request was refused by the address policy, which is not retried -/
  | blocked
  | decided (decision : RetryDecision)
  | capReached
  /-- the classification of the failure raised -/
  | raised
  deriving DecidableEq

def rateLimitRetries : ℤ := 2

def deliverLoop (attempts : ℕ → Except PyError Unit) :
    ℕ → ℕ → RetryPartition → DeliveryEnd × RetryPartition
  | 0, _, p => (.capReached, p)
  | remaining + 1, attempt, p =>
    match attempts attempt with
    | .ok _ => (.delivered, p)
    | .error exc =>
      if exc.ssrfError then
        (.blocked, p)
      else
        match p.recordFailure exc with
        | none => (.raised, p)
        | some (evidence, p') =>
          if RetryPartition.shouldRetry evidence then
            deliverLoop attempts remaining (attempt + 1) p'
          else
            (.decided evidence.decision, p')

/-- The delivery with `CALLBACK_MAX_RETRIES` set to `maxRetries`. -/
def deliver (maxRetries : ℤ) (attempts : ℕ → Except PyError Unit) : DeliveryEnd :=
  (deliverLoop attempts (maxRetries + 2).toNat 0
    (RetryPartition.new rateLimitRetries maxRetries)).1

end Delivery

/-! ## The decisions -/

def inLane (l : Lane) (exc : PyError) : Bool := decide (failureLane exc = some l)

/-- How many failures are answered with a retry of the lane. -/
def retriesGranted (l : Lane) : RetryPartition → List PyError → ℕ
  | _, [] => 0
  | p, exc :: rest =>
    (if (p.recordFailure exc).map (fun answer => answer.1.decision) = some l.retry then 1 else 0) +
      retriesGranted l (p.next exc) rest

theorem used_eq_length (l : Lane) (failures : List PyError) :
    RetryLanes.used failureLane l failures = (failures.filter (inLane l)).length := by
  rw [RetryLanes.used, List.countP_eq_length_filter]
  rfl

theorem evidenceAfter_congr {b b' : Budgets} {l : Lane} {failures failures' : List PyError}
    {exc : PyError} (h : failureLane exc = some l) (hbudget : b.of l = b'.of l)
    (hown : failures.filter (inLane l) = failures'.filter (inLane l)) :
    evidenceAfter b failures exc = evidenceAfter b' failures' exc := by
  rw [evidenceAfter_of_lane h, evidenceAfter_of_lane h, hbudget, used_eq_length, used_eq_length,
    hown]

theorem decision_retry_iff {b : Budgets} {failures : List PyError} {exc : PyError} {l : Lane} :
    (evidenceAfter b failures exc).map RetryEvidence.decision = some l.retry ↔
      failureLane exc = some l ∧ RetryLanes.granted failureLane b.of failures exc = true := by
  constructor
  · intro h
    obtain ⟨evidence, hev, hd⟩ := Option.map_eq_some_iff.mp h
    have hretry : RetryPartition.shouldRetry evidence = true := by
      unfold RetryPartition.shouldRetry
      rw [hd]
      cases l <;> rfl
    have hgranted := (shouldRetry_eq hev).symm.trans hretry
    obtain ⟨m, hm⟩ := RetryLanes.lane_of_granted hgranted
    rw [evidenceAfter_of_lane hm] at hev
    cases hev
    have hml : m = l := by
      simp only [RetryPartition.laneEvidence] at hd
      split at hd <;> cases m <;> cases l <;> first | rfl | cases hd
    exact ⟨hml ▸ hm, hgranted⟩
  · rintro ⟨hl, hgranted⟩
    have hev : evidenceAfter b failures exc = some _ := evidenceAfter_of_lane hl
    have hretry := (shouldRetry_eq hev).trans hgranted
    rw [hev]
    simp only [Option.map_some, RetryPartition.laneEvidence] at hretry ⊢
    split at hretry
    · cases l <;> cases hretry
    · rename_i hex
      rw [if_neg hex]

theorem retriesGranted_eq (b : Budgets) (l : Lane) (earlier failures : List PyError) :
    retriesGranted l (b.partition.recordAll earlier) failures =
      RetryLanes.grants failureLane b.of l earlier failures := by
  induction failures generalizing earlier with
  | nil => rfl
  | cons exc rest ih =>
    have hmap : ((b.partition.recordAll earlier).recordFailure exc).map
        (fun answer => answer.1.decision) =
          (evidenceAfter b earlier exc).map RetryEvidence.decision := by
      rw [evidenceAfter, Option.map_map]
      rfl
    rw [retriesGranted, RetryLanes.grants, hmap, ← RetryPartition.recordAll_append, ih]
    simp only [decision_retry_iff]

/-- A lane grants one attempt less than its budget. -/
theorem retriesGranted_le (b : Budgets) (l : Lane) (failures : List PyError) :
    (retriesGranted l b.partition failures : ℤ) ≤ max 0 (b.of l - 1) := by
  have heq := retriesGranted_eq b l [] failures
  have hle : RetryLanes.grants failureLane b.of l [] failures ≤ _ :=
    RetryLanes.grants_le l [] failures
  have hleft : RetryLanes.left failureLane b.of l [] = (b.of l - 1).toNat := by
    simp [RetryLanes.left, RetryLanes.used]
  change retriesGranted l b.partition failures = _ at heq
  omega

theorem next_of_rejected {p : RetryPartition} {exc : PyError}
    (h : classifyFailure exc = some .nonRetryable) (l : Lane) : (p.next exc).lane l = p.lane l := by
  apply RetryPartition.lane_next_of_ne
  simp [failureLane, h, laneOf]

/-! ## The loops -/

def allLeft (b : Budgets) (earlier : List PyError) : ℕ :=
  ∑ l, RetryLanes.left failureLane b.of l earlier

theorem allLeft_nil (b : Budgets) :
    allLeft b [] = (b.rateLimitRetries - 1).toNat + (b.transportRetries - 1).toNat := by
  have huniv : (Finset.univ : Finset Lane) = {.rateLimit, .transport} := rfl
  rw [allLeft, huniv, Finset.sum_pair (by decide)]
  simp [RetryLanes.left, RetryLanes.used, Budgets.of]

/-- The decisions that end a loop. -/
def Terminal (d : RetryDecision) : Prop :=
  d ≠ .retryRateLimit ∧ d ≠ .retryTransport ∧ d ≠ .success

theorem terminal_of_stop {p p' : RetryPartition} {exc : PyError} {evidence : RetryEvidence}
    (h : p.recordFailure exc = some (evidence, p'))
    (hstop : RetryPartition.shouldRetry evidence = false) : Terminal evidence.decision := by
  have hsuccess : evidence.decision ≠ .success := by
    unfold RetryPartition.recordFailure at h
    split at h
    · cases h
    · cases h
      intro heq
      cases heq
    all_goals
      cases h
      simp only [RetryPartition.laneEvidence]
      split <;>
        · intro heq
          cases heq
  simp only [RetryPartition.shouldRetry, decide_eq_false_iff_not, not_or] at hstop
  exact ⟨hstop.1, hstop.2, hsuccess⟩

theorem raised_of_none {p : RetryPartition} {exc : PyError} (h : p.recordFailure exc = none) :
    classifyFailure exc = none := by
  rw [RetryPartition.recordFailure] at h
  split at h
  · assumption
  all_goals cases h

section Dispatch
open ControlPlane (Attempt Ended attemptLoop)
variable {φ : Type} (py : PyInterpreter φ) (action : PyStr) (attempts : ℕ → Attempt φ)

/-- The loop of a dispatch ends with an answer, with a decision of the partition, or because the
status code of a failure is too long for `int`. -/
def DispatchSettled (ended : Ended) : Prop :=
  ended = .succeeded ∨ (∃ d, Terminal d ∧ ended = .decided d) ∨
    (ended = .raised ∧ ∃ k exc, (attempts k).reply = .error exc ∧ classifyFailure exc = none)

theorem attemptLoop_settled (b : Budgets) (remaining k : ℕ) (sentAt : ℚ)
    (earlier : List PyError) (cb : ControlPlane.CircuitBreakerState) (lastError : PyStr)
    (h : allLeft b earlier < remaining) :
    DispatchSettled attempts (attemptLoop py action attempts remaining k sentAt
      (b.partition.recordAll earlier) cb lastError).ended := by
  induction remaining generalizing k sentAt earlier cb lastError with
  | zero => exact absurd h (Nat.not_lt_zero _)
  | succ remaining ih =>
    cases hreply : (attempts k).reply with
    | ok reply =>
      obtain ⟨r, hr, hend⟩ := ControlPlane.attemptLoop_of_answer hreply
      rw [hr]
      rcases hend with ⟨hend, -⟩ | ⟨hend, -⟩
      · exact .inl hend
      · exact .inr (.inl ⟨.nonRetryableRejected, ⟨nofun, nofun, nofun⟩, hend⟩)
    | error exc =>
      cases hgranted : RetryLanes.granted failureLane b.of earlier exc with
      | false =>
        have hstop : ∀ evidence p',
            (b.partition.recordAll earlier).recordFailure exc = some (evidence, p') →
              RetryPartition.shouldRetry evidence = false :=
          fun _ _ hrec => stops_of_not_granted hgranted hrec
        obtain ⟨r, hr, hend, -⟩ := ControlPlane.attemptLoop_of_stop hreply hstop
        rw [hr]
        rcases hend with ⟨hend, hnone⟩ | ⟨evidence, p', hend, hrec⟩
        · exact .inr (.inr ⟨hend, k, exc, hreply, raised_of_none hnone⟩)
        · exact .inr (.inl ⟨_, terminal_of_stop hrec (hstop _ _ hrec), hend⟩)
      | true =>
        obtain ⟨evidence, hretry, hrec⟩ := retried_of_granted hgranted
        rw [ControlPlane.attemptLoop_of_retry hreply hrec hretry]
        apply ih
        have hsum := RetryLanes.sum_left_of_granted hgranted
        unfold allLeft at h ⊢
        omega

end Dispatch

section Delivery
variable (attempts : ℕ → Except PyError Unit)

/-- The delivery loop ends so too, or because the address policy refused the request. -/
def DeliverySettled (ended : DeliveryEnd) : Prop :=
  ended = .delivered ∨ (∃ d, Terminal d ∧ ended = .decided d) ∨
    (ended = .blocked ∧ ∃ k exc, attempts k = .error exc ∧ exc.ssrfError = true) ∨
    (ended = .raised ∧ ∃ k exc, attempts k = .error exc ∧ classifyFailure exc = none)

theorem deliverLoop_settled (b : Budgets) (remaining k : ℕ) (earlier : List PyError)
    (h : allLeft b earlier < remaining) :
    DeliverySettled attempts
      (deliverLoop attempts remaining k (b.partition.recordAll earlier)).1 := by
  induction remaining generalizing k earlier with
  | zero => exact absurd h (Nat.not_lt_zero _)
  | succ remaining ih =>
    unfold deliverLoop
    cases hreply : attempts k with
    | ok reply => exact .inl rfl
    | error exc =>
      simp only
      by_cases hssrf : exc.ssrfError = true
      · rw [if_pos hssrf]
        exact .inr (.inr (.inl ⟨rfl, k, exc, hreply, hssrf⟩))
      · rw [if_neg hssrf]
        cases hgranted : RetryLanes.granted failureLane b.of earlier exc with
        | false =>
          cases hrec : (b.partition.recordAll earlier).recordFailure exc with
          | none =>
            exact .inr (.inr (.inr ⟨rfl, k, exc, hreply, raised_of_none hrec⟩))
          | some answer =>
            have hstop := stops_of_not_granted hgranted hrec
            simp only [hstop, Bool.false_eq_true, if_false]
            exact .inr (.inl ⟨_, terminal_of_stop hrec hstop, rfl⟩)
        | true =>
          obtain ⟨evidence, hretry, hrec⟩ := retried_of_granted hgranted
          simp only [hrec, hretry, if_true]
          apply ih
          have hsum := RetryLanes.sum_left_of_granted hgranted
          unfold allLeft at h ⊢
          omega

end Delivery

/-! ## The law -/

/-- Lanes are isolated: the evidence for a failure is decided by the earlier failures of its lane
and its budget, a lane of budget `n` grants at most `n - 1` retries, a failure without a lane uses
nothing, and both loops end before their cap. -/
structure LanesIsolated (φ : Type) : Prop where
  own : ∀ (b b' : Budgets) (l : Lane) (failures failures' : List PyError) (exc : PyError),
    failureLane exc = some l → b.of l = b'.of l →
      failures.filter (inLane l) = failures'.filter (inLane l) →
        evidenceAfter b failures exc = evidenceAfter b' failures' exc
  bounded : ∀ (b : Budgets) (l : Lane) (failures : List PyError),
    (retriesGranted l b.partition failures : ℤ) ≤ max 0 (b.of l - 1)
  rejected : ∀ (p : RetryPartition) (exc : PyError),
    classifyFailure exc = some .nonRetryable → ∀ l, (p.next exc).lane l = p.lane l
  dispatch : ∀ (py : PyInterpreter φ) (action : PyStr) (attempts : ℕ → ControlPlane.Attempt φ)
    (now : ℚ) (cb : ControlPlane.CircuitBreakerState),
    DispatchSettled attempts (ControlPlane.attemptLoop py action attempts
      ControlPlane.maxTotalAttempts 0 now ControlPlane.budgets.partition cb []).ended
  delivery : ∀ (maxRetries : ℤ) (attempts : ℕ → Except PyError Unit), 0 ≤ maxRetries →
    DeliverySettled attempts (deliver maxRetries attempts)

theorem lane_isolation (φ : Type) : LanesIsolated φ where
  own _ _ _ _ _ _ := evidenceAfter_congr
  bounded := retriesGranted_le
  rejected _ _ h := next_of_rejected h
  dispatch py action attempts now cb := by
    apply attemptLoop_settled py action attempts ControlPlane.budgets _ 0 now [] cb []
    rw [allLeft_nil]
    decide
  delivery maxRetries attempts h := by
    apply deliverLoop_settled attempts ⟨rateLimitRetries, maxRetries⟩ _ 0 []
    rw [allLeft_nil]
    simp only [rateLimitRetries]
    omega

def blockedRequest : PyError where
  text := PyStr.ofString "Blocked: private address"
  ssrfError := true

/-- A refused address ends the delivery without any decision. -/
theorem blocked_without_decision :
    ¬(deliver 3 (fun _ => .error blockedRequest) = .delivered ∨
      ∃ d, Terminal d ∧ deliver 3 (fun _ => .error blockedRequest) = .decided d) := by
  have h : deliver 3 (fun _ => .error blockedRequest) = .blocked := rfl
  rw [h]
  rintro (h | ⟨d, -, h⟩) <;> cases h

end OpenClaw.Retry
