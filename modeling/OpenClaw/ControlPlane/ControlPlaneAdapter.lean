import Mathlib.Algebra.Order.Ring.Rat
import OpenClaw.Foundation.ObjectHeap
import OpenClaw.Foundation.PyJson
import OpenClaw.Retry.RetryPartition

/-!
# The control-plane adapter

`services/control_plane_adapter.py`: the circuit breaker and `_dispatch` with its retry loop. What
each request comes back with and every reading of the clock are inputs; the address and the headers
of a request are left out.
-/

namespace OpenClaw.ControlPlane

open Foundation
open Retry (PyError RetryDecision RetryPartition RetryEvidence Diagnostics Budgets)
set_option autoImplicit false

def adapterContractVersion : PyStr := PyStr.ofString "1.0"

inductive DegradeMode where
  | normal | degradedReadOnly | retryableUnavailable | hardFail
  deriving DecidableEq

/-! ## The circuit breaker -/

inductive BreakerState where
  | closed | opened | halfOpen
  deriving DecidableEq

structure CircuitBreakerState where
  failureCount : ℕ := 0
  lastFailureTime : ℚ := 0
  state : BreakerState := .closed
  failureThreshold : ℕ := 5
  resetTimeoutSeconds : ℚ := 30

namespace CircuitBreakerState

def recordSuccess (cb : CircuitBreakerState) : CircuitBreakerState :=
  { cb with failureCount := 0, state := .closed }

def recordFailure (now : ℚ) (cb : CircuitBreakerState) : CircuitBreakerState :=
  { cb with
    failureCount := cb.failureCount + 1
    lastFailureTime := now
    state := if cb.failureThreshold ≤ cb.failureCount + 1 then .opened else cb.state }

def canAttempt (now : ℚ) (cb : CircuitBreakerState) : Bool × CircuitBreakerState :=
  match cb.state with
  | .closed => (true, cb)
  | .opened =>
    if cb.resetTimeoutSeconds ≤ now - cb.lastFailureTime then
      (true, { cb with state := .halfOpen })
    else
      (false, cb)
  | .halfOpen => (true, cb)

end CircuitBreakerState

/-- What happens to the breaker and to the requests, in order. -/
inductive Event where
  | consulted (allowed : Bool)
  | sent
  | answered
  | failed
  /-- the answer came but cannot be used -/
  | rejected
  deriving DecidableEq

structure Moment where
  event : Event
  clock : ℚ
  before : CircuitBreakerState
  after : CircuitBreakerState

/-! ## One dispatch -/

structure ControlPlaneResponse (φ : Type) where
  ok : Json φ
  action : PyStr
  data : List (PyStr × Json φ) := []
  /-- the entry `_r121_lanes` of the data -/
  lanes : Option Diagnostics := none
  error : Json φ := .str []
  degradeMode : DegradeMode := .normal
  contractVersion : PyStr := adapterContractVersion

/-- How a request goes: what `safe_request_json` returns or raises and when, and the clock after the
wait that may follow. -/
structure Attempt (φ : Type) where
  reply : Except PyError (Json φ)
  endedAt : ℚ
  resumesAt : ℚ

structure Dispatch (φ : Type) where
  action : PyStr
  now : ℚ
  attempts : ℕ → Attempt φ

inductive Ended where
  | unconfigured | refused | succeeded | decided (decision : RetryDecision) | capReached
  /-- the classification of the failure raised -/
  | raised
  deriving DecidableEq

structure Dispatched (φ : Type) where
  ended : Ended
  response : Option (ControlPlaneResponse φ)
  breaker : CircuitBreakerState
  moments : List Moment := []

def Dispatched.following {φ : Type} (r : Dispatched φ) (moments : List Moment) : Dispatched φ :=
  { r with moments := moments ++ r.moments }

def maxRetries : ℤ := 3

def budgets : Budgets := ⟨2, maxRetries⟩

def maxTotalAttempts : ℕ := (maxRetries + 2).toNat

section Reply
variable {φ : Type} (py : PyInterpreter φ)

def typeName : Json φ → String
  | .null => "NoneType"
  | .bool _ => "bool"
  | .int _ => "int"
  | .float _ => "float"
  | .str _ => "str"
  | .arr _ => "list"
  | .obj _ => "dict"

/-- `j.get`; only a mapping has it. -/
def fieldsOf (problem : String) : Json φ → Except PyError (List (PyStr × Json φ))
  | .obj fields => .ok fields
  | j => .error { text := PyStr.ofString ("'" ++ typeName j ++ "' object " ++ problem) }

def lanesKey : PyStr := PyStr.ofString "_r121_lanes"

/-- The response for an answer, or the exception that reading the answer raises. -/
def respond (action : PyStr) (p : RetryPartition) (reply : Json φ) :
    Except PyError (ControlPlaneResponse φ) := do
  let fields ← fieldsOf "has no attribute 'get'" reply
  let remoteVersion := (under? (PyStr.ofString "contract_version") fields).getD (.str [])
  let agrees := match remoteVersion with
    | .str version => version == adapterContractVersion
    | _ => false
  let data ← fieldsOf "is not a mapping" ((under? (PyStr.ofString "data") fields).getD reply)
  .ok {
    ok := (under? (PyStr.ofString "ok") fields).getD (.bool true)
    action := action
    data := data.filter fun f => f.1 ≠ lanesKey
    lanes := some p.diagnostics
    error := (under? (PyStr.ofString "error") fields).getD (.str [])
    degradeMode := if remoteVersion.truthy py && !agrees then .degradedReadOnly else .normal }

end Reply

section Loop
variable {φ : Type} (py : PyInterpreter φ)

def failureResponse (action : PyStr) (error : PyStr) (mode : DegradeMode)
    (lanes : Option Diagnostics) : ControlPlaneResponse φ where
  ok := .bool false
  action := action
  lanes := lanes
  error := .str error
  degradeMode := mode

def terminalMode (evidence : RetryEvidence) : DegradeMode :=
  if evidence.decision = .nonRetryableRejected then .hardFail else .retryableUnavailable

/-- What comes before the `except` clause of an attempt: the breaker after it, and what it returns
or raises. -/
def receive (action : PyStr) (p : RetryPartition) (cb : CircuitBreakerState) (a : Attempt φ)
    (sentAt : ℚ) :
    List Moment × CircuitBreakerState × Event × Except PyError (ControlPlaneResponse φ) :=
  match a.reply with
  | .error exc => ([⟨.sent, sentAt, cb, cb⟩], cb, .failed, .error exc)
  | .ok reply =>
    ([⟨.sent, sentAt, cb, cb⟩, ⟨.answered, a.endedAt, cb, cb.recordSuccess⟩], cb.recordSuccess,
      .rejected, respond py action p reply)

/-- The loop over the attempts from number `attempt` on, `remaining` at most. -/
def attemptLoop (action : PyStr) (attempts : ℕ → Attempt φ) :
    ℕ → ℕ → ℚ → RetryPartition → CircuitBreakerState → PyStr → Dispatched φ
  | 0, _, _, p, cb, lastError =>
    { ended := .capReached
      response := some (failureResponse action
        (PyStr.ofString "R121 retry loop exhausted after 5 attempts: " ++ lastError)
        .retryableUnavailable (some p.diagnostics))
      breaker := cb }
  | remaining + 1, attempt, sentAt, p, cb, _ =>
    let a := attempts attempt
    match receive py action p cb a sentAt with
    | (moments, answeredBy, _, .ok response) =>
      { ended := .succeeded, response := some response, breaker := answeredBy, moments := moments }
    | (moments, answeredBy, event, .error exc) =>
      let failedBy := answeredBy.recordFailure a.endedAt
      let moments := moments ++ [⟨event, a.endedAt, answeredBy, failedBy⟩]
      match p.recordFailure exc with
      | none => { ended := .raised, response := none, breaker := failedBy, moments := moments }
      | some (evidence, p') =>
        if RetryPartition.shouldRetry evidence then
          (attemptLoop action attempts remaining (attempt + 1) a.resumesAt p' failedBy
            exc.text).following moments
        else
          { ended := .decided evidence.decision
            response := some (failureResponse action
              (PyStr.ofString ("R121 " ++ evidence.decision.value ++ ": ") ++ exc.text)
              (terminalMode evidence) (some p'.diagnostics))
            breaker := failedBy
            moments := moments }

/-- `_dispatch` of the adapter for this address. -/
def dispatch (baseUrl : PyStr) (cb : CircuitBreakerState) (d : Dispatch φ) : Dispatched φ :=
  if baseUrl = [] then
    { ended := .unconfigured
      response := some (failureResponse d.action
        (PyStr.ofString "External control plane URL not configured.") .hardFail none)
      breaker := cb }
  else
    match cb.canAttempt d.now with
    | (false, cb') =>
      { ended := .refused
        response := some (failureResponse d.action
          (PyStr.ofString
            "Circuit breaker open — external control plane temporarily unavailable.")
          .retryableUnavailable none)
        breaker := cb'
        moments := [⟨.consulted false, d.now, cb, cb'⟩] }
    | (true, cb') =>
      (attemptLoop py d.action d.attempts maxTotalAttempts 0 d.now budgets.partition cb'
        []).following [⟨.consulted true, d.now, cb, cb'⟩]

/-- The breaker after these dispatches of one adapter, and everything that happened. -/
def run (baseUrl : PyStr) (cb : CircuitBreakerState) : List (Dispatch φ) →
    CircuitBreakerState × List Moment
  | [] => (cb, [])
  | d :: ds =>
    let r := dispatch py baseUrl cb d
    let rest := run baseUrl r.breaker ds
    (rest.1, r.moments ++ rest.2)

end Loop

/-! ## What one attempt does -/

section Attempts
variable {φ : Type} {py : PyInterpreter φ} {action : PyStr} {p : RetryPartition}

theorem fieldsOf_error {problem : String} {j : Json φ} {exc : PyError}
    (h : fieldsOf problem j = .error exc) :
    Retry.classifyFailure exc = some .nonRetryable := by
  cases j <;> cases h <;> rfl

/-- An answer that cannot be used is not retried. -/
theorem respond_error {reply : Json φ} {exc : PyError} (h : respond py action p reply = .error exc) :
    Retry.classifyFailure exc = some .nonRetryable := by
  unfold respond at h
  cases hfields : fieldsOf "has no attribute 'get'" reply with
  | error e =>
    rw [hfields] at h
    cases h
    exact fieldsOf_error hfields
  | ok fields =>
    rw [hfields] at h
    cases hdata : fieldsOf "is not a mapping"
        ((under? (PyStr.ofString "data") fields).getD reply) with
    | error e =>
      simp only [bind, Except.bind, hdata] at h
      cases h
      exact fieldsOf_error hdata
    | ok data =>
      simp only [bind, Except.bind, hdata] at h
      cases h

/-- What a failed request leaves behind. -/
def failedMoments (cb : CircuitBreakerState) (sentAt endedAt : ℚ) : List Moment :=
  [⟨.sent, sentAt, cb, cb⟩, ⟨.failed, endedAt, cb, cb.recordFailure endedAt⟩]

def answeredMoments (cb : CircuitBreakerState) (sentAt endedAt : ℚ) : List Moment :=
  [⟨.sent, sentAt, cb, cb⟩, ⟨.answered, endedAt, cb, cb.recordSuccess⟩]

def rejectedMoment (cb : CircuitBreakerState) (endedAt : ℚ) : Moment :=
  ⟨.rejected, endedAt, cb.recordSuccess, cb.recordSuccess.recordFailure endedAt⟩

variable {attempts : ℕ → Attempt φ} {remaining k : ℕ} {sentAt : ℚ} {cb : CircuitBreakerState}
variable {lastError : PyStr}

theorem attemptLoop_of_answer {reply : Json φ} (h : (attempts k).reply = .ok reply) :
    ∃ r, attemptLoop py action attempts (remaining + 1) k sentAt p cb lastError = r ∧
      ((r.ended = .succeeded ∧ r.breaker = cb.recordSuccess ∧
          r.moments = answeredMoments cb sentAt (attempts k).endedAt) ∨
        (r.ended = .decided .nonRetryableRejected ∧
          r.breaker = cb.recordSuccess.recordFailure (attempts k).endedAt ∧
          r.moments = answeredMoments cb sentAt (attempts k).endedAt ++
            [rejectedMoment cb (attempts k).endedAt])) := by
  refine ⟨_, rfl, ?_⟩
  simp only [attemptLoop, receive, h]
  cases hr : respond py action p reply with
  | ok response => exact .inl ⟨rfl, rfl, rfl⟩
  | error exc =>
    simp only [Retry.RetryPartition.recordFailure_of_rejected (respond_error hr)]
    exact .inr ⟨rfl, rfl, rfl⟩

theorem attemptLoop_of_stop {exc : PyError} (h : (attempts k).reply = .error exc)
    (hstop : ∀ evidence p', p.recordFailure exc = some (evidence, p') →
      RetryPartition.shouldRetry evidence = false) :
    ∃ r, attemptLoop py action attempts (remaining + 1) k sentAt p cb lastError = r ∧
      ((r.ended = .raised ∧ p.recordFailure exc = none) ∨ ∃ evidence p',
        r.ended = .decided evidence.decision ∧ p.recordFailure exc = some (evidence, p')) ∧
      r.breaker = cb.recordFailure (attempts k).endedAt ∧
      r.moments = failedMoments cb sentAt (attempts k).endedAt := by
  refine ⟨_, rfl, ?_⟩
  simp only [attemptLoop, receive, h]
  cases hrec : p.recordFailure exc with
  | none => exact ⟨.inl ⟨rfl, rfl⟩, rfl, rfl⟩
  | some answer =>
    obtain ⟨evidence, p'⟩ := answer
    simp only [hstop evidence p' hrec, Bool.false_eq_true, if_false]
    exact ⟨.inr ⟨evidence, p', rfl, rfl⟩, trivial, rfl⟩

theorem attemptLoop_of_retry {exc : PyError} {evidence : RetryEvidence} {p' : RetryPartition}
    (h : (attempts k).reply = .error exc) (hrec : p.recordFailure exc = some (evidence, p'))
    (hretry : RetryPartition.shouldRetry evidence = true) :
    attemptLoop py action attempts (remaining + 1) k sentAt p cb lastError =
      (attemptLoop py action attempts remaining (k + 1) (attempts k).resumesAt p'
        (cb.recordFailure (attempts k).endedAt) exc.text).following
        (failedMoments cb sentAt (attempts k).endedAt) := by
  simp only [attemptLoop, receive, h, hrec, hretry, if_true]
  rfl

end Attempts

end OpenClaw.ControlPlane
