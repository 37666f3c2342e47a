import OpenClaw.Foundation.Json
import OpenClaw.Webhook.IdempotencyStore

/-!
# The webhook and the bridge submit handlers

`webhook_submit_handler` of `api/webhook_submit.py` and `BridgeHandlers.submit_handler` of
`api/bridge.py`, from the idempotency check on. Requests that fail an earlier check never reach
the store. A handler suspends while its submission runs, so one request is two events: it
arrives, and its submission ends.
-/

namespace OpenClaw.Webhook

open Foundation
set_option autoImplicit false

variable {φ : Type}

inductive Surface where
  | webhook | bridge
  deriving DecidableEq

inductive Fate where
  | inFlight | submitted | failed
  deriving DecidableEq

/-- A request that got past the idempotency check, and what became of it. -/
structure Job where
  surface : Surface
  key : String
  traceId : String
  callback : Bool := false
  fate : Fate
  deriving DecidableEq

structure Server where
  idempotency : IdempotencyStore
  jobs : List Job := []

/-- The digest, how floats are written, and whether the bridge has its submit service. -/
structure SubmitEnv (φ : Type) where
  sha256 : List Char → String
  repr : φ → List Char
  submitService : Bool := true

/-- A normalized webhook job; `normalized` is what the fallback key hashes, without trace id. -/
structure WebhookRequest (φ : Type) where
  jobId : Option String := none
  normalized : Json φ := .obj []
  traceId : String
  callback : Bool := false

structure BridgeRequest where
  idempotencyKey : String
  traceId : String

/-- How `render_template` ends: a workflow, a `ValueError`, or another exception. -/
inductive Rendering where
  | rendered
  | invalid (detail : String)
  | raised

structure BudgetExceededError where
  budgetType : String
  detail : String
  retryAfter : ℤ

/-- How a submission ends. `followUp` is false when the bookkeeping after it raises. -/
inductive Submission where
  | returned (promptId : Option String) (followUp : Bool)
  | budgetExceeded (e : BudgetExceededError)
  | raised

inductive Reply where
  | deduped (promptId : Option String) (traceId message : String)
  | queued (promptId : Option String) (traceId : String)
  | refused (status : ℕ) (error detail : String) (retryAfter : Option ℤ)
  /-- an exception leaves the handler -/
  | raised (error : StoreError)
  deriving DecidableEq

def Reply.isDeduped : Reply → Bool
  | .deduped .. => true
  | _ => false

def safeErrorResponse (status : ℕ) (error : String) (detail : String) : Reply :=
  .refused status error detail none

/-- `generate_key`: the job id if there is one, else a digest of the normalized job. -/
def generateKey (env : SubmitEnv φ) (jobId : Option String) (normalized : Json φ) : String :=
  match jobId with
  | some id =>
    if id ≠ "" then "job:" ++ id
    else "hash:" ++ env.sha256 (Json.dumpsSorted env.repr .standard normalized)
  | none => "hash:" ++ env.sha256 (Json.dumpsSorted env.repr .standard normalized)

def bridgeTtl : ℕ := 86400

def bridgeKey (idempotencyKey : String) : String := "bridge:" ++ idempotencyKey

namespace Server

def addJob (s : Server) (job : Job) : Server := { s with jobs := s.jobs ++ [job] }

/-- A webhook request up to the point where its submission starts; no reply yet is `none`. -/
def webhookArrives (env : SubmitEnv φ) (s : Server) (req : WebhookRequest φ) (now : ℚ)
    (io : Backend) (rendering : Rendering) : Server × Option Reply :=
  let key := generateKey env req.jobId req.normalized
  let r := s.idempotency.checkAndRecord key none defaultTtlSeconds now io
  let s := { s with idempotency := r.1 }
  let job (fate : Fate) : Job :=
    { surface := .webhook, key, traceId := req.traceId, callback := req.callback, fate }
  match r.2 with
  | .error _ => (s, some (safeErrorResponse 500 "internal_error" ""))
  | .ok (true, existing) =>
    (s, some (.deduped existing req.traceId "Request already processed"))
  | .ok (false, _) =>
    match rendering with
    | .invalid detail =>
      (s.addJob (job .failed), some (safeErrorResponse 400 "template_error" detail))
    | .raised => (s.addJob (job .failed), some (safeErrorResponse 500 "internal_error" ""))
    | .rendered => (s.addJob (job .inFlight), none)

def bridgeArrives (env : SubmitEnv φ) (s : Server) (req : BridgeRequest) (now : ℚ) (io : Backend) :
    Server × Option Reply :=
  let key := bridgeKey req.idempotencyKey
  let r := s.idempotency.checkAndRecord key none bridgeTtl now io
  let s := { s with idempotency := r.1 }
  let job (fate : Fate) : Job := { surface := .bridge, key, traceId := req.traceId, fate }
  match r.2 with
  | .error e => (s, some (.raised e))
  | .ok (true, existing) =>
    (s, some (.deduped existing req.traceId "Duplicate request suppressed"))
  | .ok (false, _) =>
    if env.submitService then (s.addJob (job .inFlight), none)
    else (s.addJob (job .failed),
      some (.refused 503 "Bridge submit service not configured" "" none))

/-- The key learns its prompt id, when the submission returned one. -/
def recordPrompt (s : Server) (key : String) (promptId : Option String) (io : Backend) :
    Server × Except StoreError Unit :=
  match promptId with
  | some id =>
    if id ≠ "" then
      let r := s.idempotency.updatePromptId key id io
      ({ s with idempotency := r.1 }, r.2)
    else (s, .ok ())
  | none => (s, .ok ())

def settle (s : Server) (n : ℕ) (job : Job) (fate : Fate) : Server :=
  { s with jobs := s.jobs.set n { job with fate } }

/-- The rest of `webhook_submit_handler` for the `n`-th job. -/
def webhookFinishes (s : Server) (n : ℕ) (job : Job) (outcome : Submission) (io : Backend) :
    Server × Reply :=
  match outcome with
  | .returned promptId followUp =>
    let r := (s.settle n job .submitted).recordPrompt job.key promptId io
    match r.2 with
    | .error _ => (r.1, safeErrorResponse 500 "execution_failed" "")
    | .ok _ =>
      if followUp then (r.1, .queued promptId job.traceId)
      else (r.1, safeErrorResponse 500 "execution_failed" "")
  | .budgetExceeded e =>
    let status :=
      if e.budgetType ∈ ["rendered_workflow_size", "workflow_serialization"] then 413 else 429
    (s.settle n job .failed, .refused status "budget_exceeded" e.detail (some e.retryAfter))
  | .raised => (s.settle n job .failed, safeErrorResponse 500 "execution_failed" "")

/-- The rest of `submit_handler`; its trace bookkeeping cannot fail the request. -/
def bridgeFinishes (s : Server) (n : ℕ) (job : Job) (outcome : Submission) (io : Backend) :
    Server × Reply :=
  match outcome with
  | .returned promptId _ =>
    let r := (s.settle n job .submitted).recordPrompt job.key promptId io
    match r.2 with
    | .error _ => (r.1, .refused 500 "Internal server error" "" none)
    | .ok _ => (r.1, .queued (some (promptId.getD "")) job.traceId)
  | .budgetExceeded e =>
    (s.settle n job .failed, .refused 429 "budget_exceeded" e.detail (some e.retryAfter))
  | .raised => (s.settle n job .failed, .refused 500 "Internal server error" "" none)

/-- The submission of the `n`-th job ends, if it is still running. -/
def finishes (s : Server) (n : ℕ) (outcome : Submission) (io : Backend) : Server × Option Reply :=
  match s.jobs[n]? with
  | none => (s, none)
  | some job =>
    if job.fate = .inFlight then
      let r := match job.surface with
        | .webhook => s.webhookFinishes n job outcome io
        | .bridge => s.bridgeFinishes n job outcome io
      (r.1, some r.2)
    else (s, none)

end Server

inductive SubmitEvent (φ : Type) where
  | webhook (req : WebhookRequest φ) (now : ℚ) (io : Backend) (rendering : Rendering)
  | bridge (req : BridgeRequest) (now : ℚ) (io : Backend)
  | finish (n : ℕ) (outcome : Submission) (io : Backend)

def Server.handle (env : SubmitEnv φ) (s : Server) : SubmitEvent φ → Server × Option Reply
  | .webhook req now io rendering => s.webhookArrives env req now io rendering
  | .bridge req now io => s.bridgeArrives env req now io
  | .finish n outcome io => s.finishes n outcome io

/-- A server process over an empty store. -/
def Server.start (opened : ℚ) (durable strictMode : Bool) : Server where
  idempotency :=
    { lastCleanup := opened, durable := if durable then some Table.empty else none, strictMode }

end OpenClaw.Webhook
