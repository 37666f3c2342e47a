import OpenClaw.Foundation.Run
import OpenClaw.Webhook.SubmitHandlers

/-!
# Retrying a failed submission

The key of a request is recorded before its template is rendered and its job is submitted, and
no failure takes it back. A retry is answered as a duplicate while that record lives.
-/

namespace OpenClaw.Webhook

open Foundation Server
set_option autoImplicit false

variable {φ : Type}

/-- The key under which the event's request is checked. -/
def SubmitEvent.key? (env : SubmitEnv φ) : SubmitEvent φ → Option String
  | .webhook req _ _ _ => some (generateKey env req.jobId req.normalized)
  | .bridge req _ _ => some (bridgeKey req.idempotencyKey)
  | .finish _ _ _ => none

/-- The unexpired record the store holds for the event's request. -/
def Server.record? (env : SubmitEnv φ) (s : Server) : SubmitEvent φ → Option IdempotencyEntry
  | .webhook req now io _ =>
    s.idempotency.found? (generateKey env req.jobId req.normalized) now io
  | .bridge req now io => s.idempotency.found? (bridgeKey req.idempotencyKey) now io
  | .finish _ _ _ => none

/-- The store still holds a record of the request's key, and only failed requests have left it:
there is one, and none of that key was submitted or is in flight. -/
def LeftByFailure (env : SubmitEnv φ) (s : Server) (e : SubmitEvent φ) : Prop :=
  (s.record? env e).isSome = true ∧ ∃ key ∈ e.key? env,
    (∃ job ∈ s.jobs, job.key = key) ∧ ∀ job ∈ s.jobs, job.key = key → job.fate = .failed

section Runs
variable (env : SubmitEnv φ) (s₀ : Server) (events : ℕ → SubmitEvent φ)

def serverAt (k : ℕ) : Server := run (Server.handle env) s₀ events k

def replyTo (k : ℕ) : Option Reply := answer (Server.handle env) s₀ events k

/-- A request is answered as a duplicate only when an earlier request of its key was submitted
or is in flight. -/
def DedupesOnlySubmitted : Prop :=
  ∀ k reply key, replyTo env s₀ events k = some reply → reply.isDeduped = true →
    (events k).key? env = some key →
      ∃ job ∈ (serverAt env s₀ events k).jobs, job.key = key ∧ job.fate ≠ .failed

end Runs

/-! ## One event -/

section Events
variable {env : SubmitEnv φ} {s : Server}

theorem webhook_deduped_iff (req : WebhookRequest φ) (now : ℚ) (io : Backend)
    (rendering : Rendering) :
    (∃ reply ∈ (s.webhookArrives env req now io rendering).2, reply.isDeduped = true) ↔
      (s.idempotency.found? (generateKey env req.jobId req.normalized) now io).isSome = true := by
  rw [← duplicate_iff _ _ none defaultTtlSeconds]
  simp only [webhookArrives]
  generalize s.idempotency.checkAndRecord _ _ _ _ _ = r
  obtain ⟨store, answer⟩ := r
  match answer with
  | .error _ => simp [safeErrorResponse, Reply.isDeduped]
  | .ok (true, existing) => simp [Reply.isDeduped]
  | .ok (false, _) => cases rendering <;> simp [safeErrorResponse, Reply.isDeduped]

theorem bridge_deduped_iff (req : BridgeRequest) (now : ℚ) (io : Backend) :
    (∃ reply ∈ (s.bridgeArrives env req now io).2, reply.isDeduped = true) ↔
      (s.idempotency.found? (bridgeKey req.idempotencyKey) now io).isSome = true := by
  rw [← duplicate_iff _ _ none bridgeTtl]
  simp only [bridgeArrives]
  generalize s.idempotency.checkAndRecord _ _ _ _ _ = r
  obtain ⟨store, answer⟩ := r
  match answer with
  | .error _ => simp [Reply.isDeduped]
  | .ok (true, existing) => simp [Reply.isDeduped]
  | .ok (false, _) => by_cases hs : env.submitService = true <;> simp [hs, Reply.isDeduped]

/-- The end of a submission is never answered as a duplicate. -/
theorem finishes_not_deduped (n : ℕ) (outcome : Submission) (io : Backend) :
    ∀ reply ∈ (s.finishes n outcome io).2, reply.isDeduped = false := by
  intro reply hr
  unfold finishes at hr
  split at hr
  · cases hr
  rename_i job _
  split at hr
  · cases hr
    cases job.surface
    · simp only [webhookFinishes]
      split
      · split
        · rfl
        split <;> rfl
      · rfl
      · rfl
    · simp only [bridgeFinishes]
      split
      · split <;> rfl
      · rfl
      · rfl
  · cases hr

/-- A request is answered as a duplicate exactly when the store holds a record of its key. -/
theorem deduped_iff (e : SubmitEvent φ) :
    (∃ reply ∈ (s.handle env e).2, reply.isDeduped = true) ↔ (s.record? env e).isSome = true := by
  cases e with
  | webhook req now io rendering => exact webhook_deduped_iff req now io rendering
  | bridge req now io => exact bridge_deduped_iff req now io
  | finish n outcome io =>
    constructor
    · intro ⟨reply, hr, hd⟩
      rw [finishes_not_deduped n outcome io reply hr] at hd
      cases hd
    · intro h
      cases h

/-- Every record of the store belongs to a request that got past the check. -/
def Recorded (s : Server) : Prop := s.idempotency.All fun e => e.key ∈ s.jobs.map Job.key

theorem recorded_check {s' : Server} (h : Recorded s) {key : String} {ttl : ℕ} {now : ℚ}
    {io : Backend}
    (hstore : s'.idempotency = (s.idempotency.checkAndRecord key none ttl now io).1)
    (hkeep : ∀ k ∈ s.jobs.map Job.key, k ∈ s'.jobs.map Job.key)
    (hnew : (s.idempotency.checkAndRecord key none ttl now io).2 = .ok (false, none) →
      key ∈ s'.jobs.map Job.key) : Recorded s' := by
  rw [Recorded, hstore]
  have hold : s.idempotency.All fun e => e.key ∈ s'.jobs.map Job.key :=
    ⟨fun e he => hkeep _ (h.1 e he), fun rows hr e he => hkeep _ (h.2 rows hr e he)⟩
  exact all_check hold (fun e he => he) hnew

theorem settle_keys {n : ℕ} {job : Job} (hj : s.jobs[n]? = some job) (fate : Fate) :
    (s.settle n job fate).jobs.map Job.key = s.jobs.map Job.key := by
  obtain ⟨hn, rfl⟩ := List.getElem?_eq_some_iff.mp hj
  have hn' : n < (s.jobs.map Job.key).length := by simpa using hn
  have hkey : (s.jobs.map Job.key)[n] = s.jobs[n].key := List.getElem_map Job.key
  rw [settle, List.map_set, ← hkey]
  exact List.set_getElem_self hn'

theorem recorded_settle (h : Recorded s) {n : ℕ} {job : Job} (hj : s.jobs[n]? = some job)
    (fate : Fate) : Recorded (s.settle n job fate) := by
  rw [Recorded, settle_keys hj]
  exact h

theorem recorded_prompt (h : Recorded s) (key : String) (promptId : Option String) (io : Backend) :
    Recorded (s.recordPrompt key promptId io).1 := by
  unfold recordPrompt
  split
  · split
    · exact all_update h fun e he => he
    · exact h
  · exact h

/-- A new job is listed under its key. -/
theorem addJob_keys (s : Server) (job : Job) :
    job.key ∈ (s.addJob job).jobs.map Job.key ∧
      ∀ k ∈ s.jobs.map Job.key, k ∈ (s.addJob job).jobs.map Job.key := by
  rw [addJob, List.map_append]
  exact ⟨List.mem_append_right _ (by simp), fun k hk => List.mem_append_left _ hk⟩

theorem recorded_webhook (h : Recorded s) (req : WebhookRequest φ) (now : ℚ) (io : Backend)
    (rendering : Rendering) : Recorded (s.webhookArrives env req now io rendering).1 := by
  simp only [webhookArrives]
  split
  · rename_i hr
    exact recorded_check h rfl (fun k hk => hk) fun he => by rw [hr] at he; cases he
  · rename_i hr
    exact recorded_check h rfl (fun k hk => hk) fun he => by rw [hr] at he; cases he
  · cases rendering <;>
      exact recorded_check h rfl (addJob_keys _ _).2 fun _ => (addJob_keys _ _).1

theorem recorded_bridge (h : Recorded s) (req : BridgeRequest) (now : ℚ) (io : Backend) :
    Recorded (s.bridgeArrives env req now io).1 := by
  simp only [bridgeArrives]
  split
  · rename_i hr
    exact recorded_check h rfl (fun k hk => hk) fun he => by rw [hr] at he; cases he
  · rename_i hr
    exact recorded_check h rfl (fun k hk => hk) fun he => by rw [hr] at he; cases he
  · split <;>
      exact recorded_check h rfl (addJob_keys _ _).2 fun _ => (addJob_keys _ _).1

theorem recorded_finishes (h : Recorded s) (n : ℕ) (outcome : Submission) (io : Backend) :
    Recorded (s.finishes n outcome io).1 := by
  unfold finishes
  split
  · exact h
  rename_i job hj
  split
  · have hs (fate : Fate) : Recorded (s.settle n job fate) := recorded_settle h hj fate
    cases job.surface
    · simp only [webhookFinishes]
      split
      · have hp := fun promptId => recorded_prompt (hs .submitted) job.key promptId io
        split
        · exact hp _
        split <;> exact hp _
      · exact hs .failed
      · exact hs .failed
    · simp only [bridgeFinishes]
      split
      · have hp := fun promptId => recorded_prompt (hs .submitted) job.key promptId io
        split <;> exact hp _
      · exact hs .failed
      · exact hs .failed
  · exact h

/-- The step lemma: records keep belonging to requests that got past the check. -/
theorem recorded_handle (h : Recorded s) (e : SubmitEvent φ) : Recorded (s.handle env e).1 := by
  cases e with
  | webhook req now io rendering => exact recorded_webhook h req now io rendering
  | bridge req now io => exact recorded_bridge h req now io
  | finish n outcome io => exact recorded_finishes h n outcome io

/-- A record that a request meets belongs to an earlier job of its key. -/
theorem record_has_job (h : Recorded s) {e : SubmitEvent φ} {key : String}
    (hkey : e.key? env = some key) (hf : (s.record? env e).isSome = true) :
    ∃ job ∈ s.jobs, job.key = key := by
  obtain ⟨entry, hentry⟩ := Option.isSome_iff_exists.mp hf
  have hmem : key ∈ s.jobs.map Job.key := by
    cases e with
    | webhook req now io rendering =>
      cases hkey
      obtain ⟨hp, hk, _⟩ := found_of_all h hentry
      exact hk ▸ hp
    | bridge req now io =>
      cases hkey
      obtain ⟨hp, hk, _⟩ := found_of_all h hentry
      exact hk ▸ hp
    | finish n outcome io => cases hkey
  exact List.mem_map.mp hmem

end Events

theorem recorded_start (opened : ℚ) (durable strictMode : Bool) :
    Recorded (Server.start opened durable strictMode) := by
  constructor
  · intro e he
    cases he
  · intro rows hr e he
    cases durable with
    | false => cases hr
    | true =>
      cases hr
      cases he

/-- A job that exceeds its budget, and the retry that its `Retry-After` asks for. -/
def nightlyRequest : WebhookRequest Unit where
  jobId := some "nightly"
  traceId := "trace-1"

def nightlyEvents : ℕ → SubmitEvent Unit
  | 0 => .webhook nightlyRequest 100 {} .rendered
  | 1 => .finish 0 (.budgetExceeded ⟨"global_concurrency",
      "global_concurrency budget exceeded for webhook (limit=2, retry_after=1s)", 1⟩) {}
  | _ => .webhook nightlyRequest 105 {} .rendered

def nightlyEnv : SubmitEnv Unit where
  sha256 cs := String.ofList cs
  repr _ := ['0', '.', '0']

end OpenClaw.Webhook
