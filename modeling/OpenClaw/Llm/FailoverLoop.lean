import Mathlib.Algebra.Order.Ring.Rat
import Mathlib.Data.List.Infix
import OpenClaw.Foundation.Json
import OpenClaw.Foundation.Table

/-!
# The failover loop

`LLMClient._execute_failover_candidates` of `services/llm_client.py`. The provider catalog, the
outbound policy, the key lookup, the clocks and the requests themselves come from outside; `ε` are
exceptions, `ρ` are results.
-/

namespace OpenClaw.Llm

open Foundation
set_option autoImplicit false

/-!
## Failover state

`services/failover.py`: cooldowns, duplicate suppression, health scores, throttling and the
classification of errors. The readings of the two clocks are arguments; the state file is left out.
-/

section Cooldowns

inductive ErrorCategory where
  | auth | billing | rateLimit | timeout | invalidRequest | unknown
  deriving DecidableEq

def ErrorCategory.value : ErrorCategory → PyStr
  | auth => PyStr.ofString "auth"
  | billing => PyStr.ofString "billing"
  | rateLimit => PyStr.ofString "rate_limit"
  | timeout => PyStr.ofString "timeout"
  | invalidRequest => PyStr.ofString "invalid_request"
  | unknown => PyStr.ofString "unknown"

structure CooldownEntry where
  provider : PyStr
  model : Option PyStr
  reason : String
  untilTime : ℚ
  reasonCode : String
  bucket : String
  retryAfterSec : Option ℤ
  deriving DecidableEq

structure CooldownDecision where
  category : ErrorCategory
  retryAfterSec : Option ℤ
  reasonCode : String
  bucket : String

/-- What the classification reads of an exception. -/
structure RequestError where
  /-- `str(error).lower()` -/
  text : PyStr
  /-- what `_extract_status_code` finds in the text -/
  statusCode : Option ℤ
  /-- status and `retry_after` of a `ProviderHTTPError` -/
  http : Option (ℤ × Option ℤ) := none
  /-- the attribute `retry_after` of another exception -/
  retryAfter : Option ℤ := none

def dedupeWindowSec : ℚ := 2
def minCandidateIntervalSec : ℚ := 2
def defaultHealthScore : ℤ := 70

structure FailoverState where
  cooldowns : Table (ν := PyStr × CooldownEntry) Prod.fst := .empty
  dedupeMap : Table (ν := PyStr × ℚ) Prod.fst := .empty
  healthScores : Table (ν := PyStr × ℤ) Prod.fst := .empty
  lastAttempts : Table (ν := PyStr × ℚ) Prod.fst := .empty

def getKey (provider : PyStr) (model : Option PyStr) : PyStr :=
  match model with
  | none => provider
  | some m => if m = [] then provider else provider ++ PyStr.ofString ":" ++ m

namespace FailoverState

def setCooldown (now : ℚ) (provider : PyStr) (model : Option PyStr) (decision : CooldownDecision)
    (durationSec : ℚ) (s : FailoverState) : FailoverState :=
  { s with
    cooldowns := s.cooldowns.put (getKey provider model, {
      provider, model
      reason := decision.reasonCode
      untilTime := now + durationSec
      reasonCode := decision.reasonCode
      bucket := decision.bucket
      retryAfterSec := decision.retryAfterSec }) }

/-- An expired entry is removed. -/
def isCoolingDown (now : ℚ) (provider : PyStr) (model : Option PyStr) (s : FailoverState) :
    FailoverState × Bool :=
  match s.cooldowns.get? (getKey provider model) with
  | none => (s, false)
  | some (_, entry) =>
    if now < entry.untilTime then (s, true)
    else ({ s with cooldowns := s.cooldowns.drop (getKey provider model) }, false)

def shouldSuppressDuplicate (now : ℚ) (provider : PyStr) (model : Option PyStr)
    (category : ErrorCategory) (s : FailoverState) : FailoverState × Bool :=
  let key := getKey provider model ++ PyStr.ofString ":" ++ category.value
  if now - (s.dedupeMap.get? key).elim 0 Prod.snd < dedupeWindowSec then (s, true)
  else ({ s with dedupeMap := s.dedupeMap.put (key, now) }, false)

def healthDelta : ErrorCategory → ℤ
  | .rateLimit => 3
  | .timeout => 2
  | .auth => 10
  | .billing => 10
  | .invalidRequest => 10
  | .unknown => 1

/-- The category of a failure; a success has none. -/
def updateHealthScore (provider : PyStr) (model : Option PyStr) (failure : Option ErrorCategory)
    (s : FailoverState) : FailoverState :=
  let key := getKey provider model
  let current := (s.healthScores.get? key).elim defaultHealthScore Prod.snd
  let score :=
    match failure with
    | none => min 100 (current + 1)
    | some category => max 0 (current - healthDelta category)
  { s with healthScores := s.healthScores.put (key, score) }

def canAttemptNow (now : ℚ) (provider : PyStr) (model : Option PyStr) (s : FailoverState) : Bool :=
  decide (minCandidateIntervalSec ≤
    now - (s.lastAttempts.get? (getKey provider model)).elim 0 Prod.snd)

def markAttempt (now : ℚ) (provider : PyStr) (model : Option PyStr) (s : FailoverState) :
    FailoverState :=
  { s with lastAttempts := s.lastAttempts.put (getKey provider model, now) }

end FailoverState

/-! ## Errors -/

def RequestError.says (error : RequestError) (words : List String) : Bool :=
  words.any fun word => decide (PyStr.ofString word <:+: error.text)

def classifyStatus (error : RequestError) (retryAfter : Option ℤ) (status : ℤ) : CooldownDecision :=
  if status = 401 ∨ status = 403 then
    ⟨.auth, retryAfter, "provider_auth_failed", "provider_auth"⟩
  else if status = 402 then
    ⟨.billing, retryAfter, "provider_billing_required", "provider_quota"⟩
  else if status = 429 then
    if error.says ["quota", "billing", "insufficient_quota", "insufficient quota"] then
      ⟨.billing, retryAfter, "provider_quota_exceeded", "provider_quota"⟩
    else
      ⟨.rateLimit, retryAfter,
        if retryAfter.isSome then "provider_retry_after" else "provider_rate_limited",
        "provider_cooldown"⟩
  else if status = 400 ∨ status = 422 then
    ⟨.invalidRequest, retryAfter, "provider_invalid_request", "provider_invalid_request"⟩
  else
    ⟨.unknown, retryAfter, "provider_http_" ++ toString status, "provider_unknown"⟩

def classifyText (error : RequestError) (retryAfter : Option ℤ) : CooldownDecision :=
  if error.says ["timeout", "timed out"] then
    ⟨.timeout, retryAfter, "provider_timeout", "provider_cooldown"⟩
  else if error.says ["unauthorized", "forbidden"] then
    ⟨.auth, retryAfter, "provider_auth_failed", "provider_auth"⟩
  else if error.says ["rate limit", "too many requests"] then
    ⟨.rateLimit, retryAfter,
      if retryAfter.isSome then "provider_retry_after" else "provider_rate_limited",
      "provider_cooldown"⟩
  else if error.says ["quota", "insufficient"] then
    ⟨.billing, retryAfter, "provider_quota_exceeded", "provider_quota"⟩
  else
    ⟨.unknown, retryAfter, "provider_unknown", "provider_unknown"⟩

def classifyCooldown (error : RequestError) : CooldownDecision :=
  let (status, retryAfter) :=
    match error.http with
    | some (status, retryAfter) => (some status, retryAfter)
    | none => (error.statusCode, error.retryAfter)
  match status.filter (· ≠ 0) with
  | some status => classifyStatus error retryAfter status
  | none => classifyText error retryAfter

def shouldRetry (category : ErrorCategory) : Bool :=
  decide (category = .timeout ∨ category = .rateLimit)

def shouldFailover (category : ErrorCategory) : Bool :=
  decide (category ∈ [.auth, .billing, .invalidRequest, .unknown])

def getCooldownDuration (category : ErrorCategory) (retryAfter : Option ℤ) : ℚ :=
  match retryAfter, category with
  | some seconds, .rateLimit => seconds
  | some seconds, .timeout => seconds
  | _, .auth => 3600
  | _, .billing => 1800
  | _, .rateLimit => 300
  | _, .timeout => 60
  | _, .invalidRequest => 600
  | _, .unknown => 120

end Cooldowns

structure ProviderInfo where
  baseUrl : PyStr
  envKeyName : Option PyStr

/-- The fields that the loop switches from candidate to candidate. -/
structure LLMClient where
  provider : PyStr
  model : PyStr
  baseUrl : Option PyStr
  apiKey : Option PyStr
  providerInfo : Option ProviderInfo

structure Candidate where
  provider : PyStr
  model : Option PyStr
  baseUrl : Option PyStr

def Candidate.key (c : Candidate) : PyStr := getKey c.provider c.model

inductive Response (ε ρ : Type) where
  | ok (result : ρ)
  /-- an `Exception`; reading its text may raise another one -/
  | failed (exception : ε) (error : Except ε RequestError)
  /-- an exception that is no `Exception` -/
  | interrupted (exception : ε)

/-- `i` counts the candidates, `attempt` the attempts of one. -/
structure World (ε ρ : Type) where
  maxRetries : ℤ
  providerInfo : PyStr → Option ProviderInfo
  /-- `validate_outbound_url` under the egress controls of the provider -/
  outboundAllowed : PyStr → PyStr → Bool
  apiKey : PyStr → Except ε (Option PyStr)
  cooldownClock : ℕ → ℚ
  throttleClock : ℕ → ℚ
  attemptClock : ℕ → ℚ
  /-- the monotonic and the system clock after a failed attempt -/
  failureClock : ℕ → ℕ → ℚ × ℚ
  /-- the exception that ends the sleep before a retry -/
  sleep : ℕ → ℕ → Option ε
  respond : ℕ → ℕ → LLMClient → Response ε ρ

inductive Exit (ε ρ : Type) where
  | returned (result : ρ)
  | raised (exception : ε)

structure LoopState (ε : Type) where
  client : LLMClient
  failover : FailoverState
  /-- the requests that were sent -/
  sent : List (ℕ × ℕ) := []
  lastError : Option ε := none
  candidatesTried : ℕ := 0

section
variable {ε ρ : Type} (w : World ε ρ)

/-- `range(max_retries + 1)`. -/
def World.rounds : ℕ := (w.maxRetries + 1).toNat

def validateCandidateUrl (provider : PyStr) (baseUrl : Option PyStr) : Bool :=
  match baseUrl with
  | none => true
  | some url =>
    if url = [] then true
    else (w.providerInfo provider).any (fun info => info.baseUrl = url) ||
      w.outboundAllowed provider url

def requiresApiKey (provider : PyStr) : Bool :=
  match w.providerInfo provider with
  | none => true
  | some info => info.envKeyName.isSome

/-- The failure handler where the error is not retried. -/
def failOver (i attempt : ℕ) (c : Candidate) (decision : CooldownDecision) (s : FailoverState) :
    FailoverState :=
  if shouldFailover decision.category = false then s
  else
    let suppressed := s.shouldSuppressDuplicate (w.failureClock i attempt).1 c.provider c.model
      decision.category
    if suppressed.2 then suppressed.1
    else
      suppressed.1.setCooldown (w.failureClock i attempt).2 c.provider c.model decision
        (getCooldownDuration decision.category decision.retryAfterSec)

/-- The attempts of one candidate: how the loop is left, if it is, and the candidate's last error. -/
def retryLoop (i : ℕ) (c : Candidate) :
    (remaining attempt : ℕ) → Option ε → LoopState ε → Option (Exit ε ρ) × Option ε × LoopState ε
  | 0, _, lastError, s => (none, lastError, s)
  | remaining + 1, attempt, lastError, s =>
    match if 0 < attempt then w.sleep i attempt else none with
    | some e => (some (.raised e), lastError, s)
    | none =>
      let s := { s with sent := s.sent ++ [(i, attempt)] }
      match w.respond i attempt s.client with
      | .ok result =>
        (some (.returned result), lastError,
          { s with failover := s.failover.updateHealthScore c.provider c.model none })
      | .interrupted e => (some (.raised e), lastError, s)
      | .failed _ (.error e) => (some (.raised e), lastError, s)
      | .failed e (.ok error) =>
        let decision := classifyCooldown error
        let s := {
          s with
          failover := s.failover.updateHealthScore c.provider c.model (some decision.category)
          lastError := some e }
        if shouldRetry decision.category then retryLoop i c remaining (attempt + 1) (some e) s
        else (none, some e, { s with failover := failOver w i attempt c decision s.failover })

/-- The attempts of a candidate that was not skipped. -/
def attemptCandidate (i : ℕ) (c : Candidate) (s : LoopState ε) : Option (Exit ε ρ) × LoopState ε :=
  let s := { s with failover := s.failover.markAttempt (w.attemptClock i) c.provider c.model }
  let r := retryLoop w i c w.rounds 0 none s
  match r.1 with
  | some exit => (some exit, r.2.2)
  | none => (none, { r.2.2 with lastError := r.2.1.or r.2.2.lastError })

/-- The client with the candidate's configuration, before its key is looked up. -/
def switchTo (original : LLMClient) (c : Candidate) (client : LLMClient) : LLMClient :=
  { client with
    provider := c.provider
    model := (c.model.filter (· ≠ [])).getD original.model
    baseUrl := c.baseUrl
    providerInfo := w.providerInfo c.provider }

/-- One round of the loop over the candidates, of which there are `count`. -/
def tryCandidate (original : LLMClient) (count i : ℕ) (c : Candidate) (s : LoopState ε) :
    Option (Exit ε ρ) × LoopState ε :=
  let cooling := s.failover.isCoolingDown (w.cooldownClock i) c.provider c.model
  let s := { s with failover := cooling.1 }
  if cooling.2 = true ∧ i < count - 1 then (none, s)
  else if validateCandidateUrl w c.provider c.baseUrl = false then (none, s)
  else
    let s := {
      s with
      candidatesTried := s.candidatesTried + 1
      client := switchTo w original c s.client }
    match w.apiKey c.provider with
    | .error e => (some (.raised e), s)
    | .ok key =>
      let s := { s with client := { s.client with apiKey := key } }
      if requiresApiKey w c.provider = true ∧ (key.filter (· ≠ [])).isNone = true then (none, s)
      -- the last candidate is not throttled
      else if s.failover.canAttemptNow (w.throttleClock i) c.provider c.model = false ∧
          i < count - 1 then (none, s)
      else attemptCandidate w i c s

def runCandidates (original : LLMClient) (count : ℕ) :
    ℕ → List Candidate → LoopState ε → Option (Exit ε ρ) × LoopState ε
  | _, [], s => (none, s)
  | i, c :: rest, s =>
    match tryCandidate w original count i c s with
    | (some exit, s) => (some exit, s)
    | (none, s) => runCandidates original count (i + 1) rest s

inductive Result (ε ρ : Type) where
  | returned (result : ρ)
  | raised (exception : ε)
  /-- `All {tried} failover candidates exhausted` -/
  | exhausted (candidatesTried : ℕ)

structure Outcome (ε ρ : Type) where
  result : Result ε ρ
  client : LLMClient
  failover : FailoverState
  sent : List (ℕ × ℕ)

def executeFailoverCandidates (client : LLMClient) (failover : FailoverState)
    (candidates : List Candidate) : Outcome ε ρ :=
  let r := runCandidates w client candidates.length 0 candidates { client, failover }
  { result :=
      match r.1 with
      | some (.returned result) => .returned result
      | some (.raised e) => .raised e
      | none => r.2.lastError.elim (.exhausted r.2.candidatesTried) .raised
    -- the `finally` block
    client := {
      r.2.client with
      provider := client.provider
      model := client.model
      baseUrl := client.baseUrl
      apiKey := client.apiKey
      providerInfo := client.providerInfo }
    failover := r.2.failover
    sent := r.2.sent }

end

end OpenClaw.Llm
