import OpenClaw.Callback.CallbackContract
import OpenClaw.Callback.TransportRuns

/-!
# The records of accepted callbacks

An accepted envelope gets a record of its own exactly if its request id leads to no record that is
still live or delivered; the replay lifecycle tells requests apart that share such a record. A
request id is completed at most once in any run.
-/

namespace OpenClaw.Callback

open Foundation
set_option autoImplicit false

variable {φ : Type} {cfg : Config φ}

/-! ## What an acceptance does -/

theorem checkEnvelope_fromDict {now : ℚ} {args : EvaluateArgs φ} {e : InteractiveCallbackEnvelope}
    (h : checkEnvelope cfg now args = .passed e) : fromDict cfg.rt args.envelopeDict = .ok e ∧
      |Webhook.truncate now - e.timestamp| ≤ cfg.timestampDriftSec := by
  unfold checkEnvelope at h
  split at h
  · cases h
  rename_i e' he
  split at h
  · cases h
  rename_i hdrift
  split at h
  · cases h
  split at h
  · cases h
  split at h
  · cases h
  split at h
  · cases h
  split at h
  · cases h
  · cases h
    exact ⟨he, not_lt.mp hdrift⟩

theorem checkEnvelope_refused {now : ℚ} {args : EvaluateArgs φ} {d : CallbackDecision}
    (h : checkEnvelope cfg now args = .refused d) : d.ok = false := by
  unfold checkEnvelope at h
  grind

theorem classDecision_ok {actor : CallbackActorContext} {callbackId commandClass : String}
    {installationId : PyStr} {d : CallbackDecision} {fails : Bool}
    (h : classDecision actor callbackId installationId commandClass = (d, fails))
    (hok : d.ok = true) : d.callbackId = callbackId ∧ fails = false := by
  unfold classDecision at h
  split at h
  · cases h
    exact ⟨rfl, rfl⟩
  split at h
  · split at h
    · cases h
      exact ⟨rfl, rfl⟩
    · cases h
      cases hok
  split at h
  · split at h
    · cases h
      exact ⟨rfl, rfl⟩
    · cases h
      cases hok
  · cases h
    cases hok

/-- What an accepting call found and did. -/
structure Acceptance (cfg : Config φ) (r : Readings) (args : EvaluateArgs φ)
    (e : InteractiveCallbackEnvelope) (callbackId : String) (s s' : ContractState) : Prop where
  checked : checkEnvelope cfg (r.time 0) args = .passed e
  claimed : (ReplayLifecycle.claim cfg.lifecycle (requestLifecycleKey e) (claimMetadata e) (r.time 1)
    s.lifecycle).2.accepted = true
  lifecycle : s'.lifecycle = (ReplayLifecycle.claim cfg.lifecycle (requestLifecycleKey e)
    (claimMetadata e) (r.time 1) s.lifecycle).1
  created : ∃ installationId record, s.callbacks.create cfg.callbacks ⟨r.time 2, r.uuid⟩ {
      idempotencyKey := e.requestId
      payloadHash := hashPayload cfg args.payload
      metadata := recordMetadata args.platform installationId e } = (s'.callbacks, .ok record) ∧
    record.callbackId = callbackId

theorem authorize_ok {r : Readings} {args : EvaluateArgs φ} {e : InteractiveCallbackEnvelope}
    {s s' : ContractState} {d : CallbackDecision}
    (h : authorize cfg r args e s = (s', .decided d)) (hok : d.ok = true) :
    s'.lifecycle = s.lifecycle ∧ ∃ installationId record,
      s.callbacks.create cfg.callbacks ⟨r.time 2, r.uuid⟩ {
        idempotencyKey := e.requestId
        payloadHash := hashPayload cfg args.payload
        metadata := recordMetadata args.platform installationId e } = (s'.callbacks, .ok record) ∧
      record.callbackId = d.callbackId := by
  unfold authorize at h
  split at h
  · cases h
    cases hok
  rename_i installationId _
  split at h
  · cases h
    cases hok
  rename_i commandClass _
  simp only at h
  split at h
  · cases h
  rename_i record hrecord
  cases hd : classDecision args.actor record.callbackId installationId commandClass with
  | mk d' fails =>
    rw [hd] at h
    simp only [Prod.mk.injEq, Answer.decided.injEq] at h
    obtain ⟨hs, rfl⟩ := h
    obtain ⟨hid, rfl⟩ := classDecision_ok hd hok
    rw [← hs]
    refine ⟨rfl, installationId, record, ?_, hid.symm⟩
    rw [← hrecord]
    rfl

theorem evaluate_ok {r : Readings} {args : EvaluateArgs φ} {s s' : ContractState}
    {d : CallbackDecision} (h : evaluate cfg r args s = (s', .decided d)) (hok : d.ok = true) :
    ∃ e, fromDict cfg.rt args.envelopeDict = .ok e ∧
      Acceptance cfg r args e d.callbackId s s' := by
  unfold evaluate at h
  split at h
  · cases h
  · rename_i hcheck
    cases h
    rw [checkEnvelope_refused hcheck] at hok
    cases hok
  rename_i e hcheck
  simp only at h
  split at h
  · rename_i hclaim
    obtain ⟨hlife, hcreated⟩ := authorize_ok h hok
    exact ⟨e, (checkEnvelope_fromDict hcheck).1, hcheck, hclaim, hlife, hcreated⟩
  · cases h
    cases hok

/-! ## The record that an acceptance hands out -/

/-- The record was made by the step and is the record of the envelope. -/
structure Own (s s' : ContractState) (e : InteractiveCallbackEnvelope) (callbackId : String) :
    Prop where
  created : s.callbacks.records.get? callbackId = none
  record : ∃ r, s'.callbacks.records.get? callbackId = some r ∧ r.state = .pending ∧
    r.idempotencyKey = e.requestId ∧ r.metadata.get? "workspace_id" = some e.workspaceId ∧
    r.metadata.get? "action_type" = some e.actionType

/-- The request id leads to no record that is live or delivered. -/
def Unused (s : ContractState) (requestId : PyStr) : Prop :=
  ∀ r, s.callbacks.indexed requestId = some r → r.state = .expired ∨ r.state = .failed

section Lookup
variable {μ : Type} {c : CallbackContract μ} {key : PyStr} {r : CallbackRecord μ}

theorem indexed_stored (h : c.indexed key = some r) : c.records.get? r.callbackId = some r := by
  unfold CallbackContract.indexed at h
  split at h
  · cases h
  split at h
  · cases h
  · rwa [Table.key_of_get? h]

theorem existing_indexed (h : c.existing key = some r) :
    c.indexed key = some r ∧ r.state ≠ .expired ∧ r.state ≠ .failed := by
  unfold CallbackContract.existing at h
  split at h
  · cases h
  · rw [Option.filter_eq_some_iff] at h
    exact ⟨h.1, of_decide_eq_true h.2⟩

theorem existing_none (hkey : key ≠ []) (h : c.existing key = none) :
    ∀ r, c.indexed key = some r → r.state = .expired ∨ r.state = .failed := by
  intro r hr
  rw [CallbackContract.existing, if_neg hkey, hr, Option.filter_eq_none_iff] at h
  have hlive := h r rfl
  by_contra hstate
  rw [not_or] at hstate
  exact hlive (decide_eq_true hstate)

end Lookup

theorem recordMetadata_workspace (platform installationId : PyStr)
    (e : InteractiveCallbackEnvelope) :
    (recordMetadata platform installationId e).get? "workspace_id" = some e.workspaceId := by
  simp [recordMetadata, Metadata.get?]

theorem recordMetadata_action (platform installationId : PyStr) (e : InteractiveCallbackEnvelope) :
    (recordMetadata platform installationId e).get? "action_type" = some e.actionType := by
  simp [recordMetadata, Metadata.get?]

theorem accepted_own_iff {r : Readings} {args : EvaluateArgs φ} {e : InteractiveCallbackEnvelope}
    {callbackId : String} {s s' : ContractState} (he : Trimmed e)
    (h : Acceptance cfg r args e callbackId s s') (hfresh : s.callbacks.records.get? r.uuid = none) :
    Own s s' e callbackId ↔ Unused s e.requestId := by
  obtain ⟨installationId, record, hcreate, rfl⟩ := h.created
  unfold CallbackContract.create at hcreate
  simp only [resolveAckPolicy, Bool.not_false] at hcreate
  split at hcreate
  · rename_i q hq
    obtain ⟨hindexed, hne⟩ := existing_indexed hq
    obtain ⟨_, hrec⟩ := Prod.mk.inj hcreate
    cases hrec
    constructor
    · intro hown
      have hstored := indexed_stored hindexed
      rw [hown.created] at hstored
      cases hstored
    · intro hunused
      rcases hunused record hindexed with hs | hs
      · exact absurd hs hne.1
      · exact absurd hs hne.2
  · rename_i hnone
    obtain ⟨hc, hrec⟩ := Prod.mk.inj hcreate
    cases hrec
    constructor
    · intro _
      exact existing_none he.request_ne hnone
    · intro _
      refine ⟨hfresh, ?_⟩
      rw [← hc]
      simp only [Table.get?_put, if_true]
      exact ⟨_, rfl, rfl, rfl, recordMetadata_workspace _ _ e, recordMetadata_action _ _ e⟩

/-! ## A delivered record stays -/

/-- The request id leads to a delivered record. -/
structure Settled (c : CallbackContract Metadata) (key : PyStr) (d : String) : Prop where
  index : c.idempotencyIndex.get? key = some (key, d)
  id_ne : d ≠ ""
  delivered : ∃ r, c.records.get? d = some r ∧ r.state = .delivered

section Settled
variable {ccfg : ContractConfig} {c : CallbackContract Metadata} {key : PyStr} {d : String}
  {m : Moment} {call : TransportCall Metadata}

theorem Settled.indexed (h : Settled c key d) :
    ∃ r, c.indexed key = some r ∧ r.callbackId = d ∧ r.state = .delivered := by
  obtain ⟨r, hr, hs⟩ := h.delivered
  refine ⟨r, ?_, Table.key_of_get? hr, hs⟩
  rw [CallbackContract.indexed, h.index]
  simp only [if_neg h.id_ne]
  exact hr

theorem Settled.existing (h : Settled c key d) (hkey : key ≠ []) :
    ∃ r, c.existing key = some r := by
  obtain ⟨r, hr, _, hs⟩ := h.indexed
  refine ⟨r, ?_⟩
  rw [CallbackContract.existing, if_neg hkey, hr, Option.filter_some, if_pos]
  rw [hs]
  rfl

theorem settled_create_index {args : CreateArgs Metadata} (h : Settled c key d) :
    (c.create ccfg m args).1.idempotencyIndex.get? key = some (key, d) := by
  unfold CallbackContract.create
  split
  · exact h.index
  split
  · exact h.index
  rename_i hnone
  simp only
  split
  · exact h.index
  · rename_i hne
    rw [Table.get?_put, if_neg]
    · exact h.index
    · intro hsame
      simp only at hsame
      subst hsame
      obtain ⟨r, hr⟩ := h.existing hne
      rw [hnone] at hr
      cases hr

/-- No call but `record_attempt` changes it. -/
theorem Settled.transport (h : Settled c key d) (m : Moment) (call : TransportCall Metadata)
    (hcall : ∀ i, call ≠ .recordAttempt i)
    (hfresh : ∀ args, call = .create args → m.uuid ≠ d) :
    Settled (transport ccfg c (m, call)).1 key d := by
  obtain ⟨r, hr, hs⟩ := h.delivered
  have hstep := transport_step ccfg c (m, call) d
  rw [hr] at hstep
  obtain ⟨r', hr', _⟩ := step_kin hstep hfresh
  refine ⟨?_, h.id_ne, r', hr', ?_⟩
  · by_cases hcreate : ∃ args, call = .create args
    · obtain ⟨args, rfl⟩ := hcreate
      exact settled_create_index h
    · rw [index_eq c fun args he => hcreate ⟨args, he⟩]
      exact h.index
  · rw [hr'] at hstep
    rw [step_terminal hstep (by rw [hs]; rfl) hfresh fun he => absurd he (hcall d), hs]

theorem Settled.store (h : Settled c key d) {r : CallbackRecord Metadata} (hne : r.callbackId ≠ d) :
    Settled (c.store r) key d := by
  obtain ⟨q, hq, hs⟩ := h.delivered
  refine ⟨h.index, h.id_ne, q, ?_, hs⟩
  rw [CallbackContract.store, Table.get?_put, if_neg hne, hq]

end Settled

section Calls
variable {s : ContractState} {key : PyStr} {d : String} {r : Readings}

theorem getRecord_callbacks (cfg : Config φ) (now : ℚ) (requestId : PyStr) (s : ContractState)
    (uuid : String) : (getRecord cfg now requestId s).1.callbacks =
      (transport cfg.callbacks s.callbacks
        (⟨now, uuid⟩, .getByIdempotencyKey requestId.strip)).1 := rfl

theorem Settled.getRecord (h : Settled s.callbacks key d) (cfg : Config φ) (now : ℚ)
    (requestId : PyStr) :
    Settled (getRecord cfg now requestId s).1.callbacks key d := by
  rw [getRecord_callbacks cfg now requestId s ""]
  apply h.transport ⟨now, ""⟩ (.getByIdempotencyKey requestId.strip)
  · rintro i ⟨⟩
  · rintro args ⟨⟩

theorem Settled.acknowledge (h : Settled s.callbacks key d) (now : ℚ) (i : String) :
    Settled (s.callbacks.acknowledge cfg.callbacks now i).1 key d := by
  apply h.transport ⟨now, ""⟩ (.acknowledge i)
  · rintro i ⟨⟩
  · rintro args ⟨⟩

theorem Settled.deliver (h : Settled s.callbacks key d) (now : ℚ) (i : String) :
    Settled (s.callbacks.deliver cfg.callbacks now i).1 key d := by
  apply h.transport ⟨now, ""⟩ (.deliver i)
  · rintro i ⟨⟩
  · rintro args ⟨⟩

theorem Settled.create (h : Settled s.callbacks key d) {m : Moment} (args : CreateArgs Metadata)
    (hfresh : m.uuid ≠ d) : Settled (s.callbacks.create cfg.callbacks m args).1 key d := by
  apply h.transport m (.create args)
  · rintro i ⟨⟩
  · rintro args ⟨⟩
    exact hfresh

theorem Settled.authorize (h : Settled s.callbacks key d) {args : EvaluateArgs φ}
    {e : InteractiveCallbackEnvelope} (hfresh : r.uuid ≠ d) :
    Settled (authorize cfg r args e s).1.callbacks key d := by
  unfold Callback.authorize
  split
  · exact h
  split
  · exact h
  simp only
  split
  · exact h.create _ hfresh
  · split
    · exact h.create _ hfresh
    · exact h.create _ hfresh

theorem Settled.evaluate (h : Settled s.callbacks key d) {args : EvaluateArgs φ}
    (hfresh : r.uuid ≠ d) : Settled (evaluate cfg r args s).1.callbacks key d := by
  unfold Callback.evaluate
  split
  · exact h
  · exact h
  simp only
  split
  · apply Settled.authorize _ hfresh
    exact h
  · exact h

/-- The record that `get_record` returns is stored. -/
theorem getRecord_stored {now : ℚ} {requestId : PyStr} {record : CallbackRecord Metadata}
    (h : (getRecord cfg now requestId s).2 = some record) :
    (getRecord cfg now requestId s).1.callbacks.records.get? record.callbackId = some record := by
  unfold Callback.getRecord CallbackContract.getByIdempotencyKey CallbackContract.get at h ⊢
  split at h
  · cases h
  rename_i k callbackId _
  split at h
  · cases h
  rename_i hne
  simp only at h ⊢
  split at h
  · cases h
  rename_i q hq
  obtain rfl := Option.some.inj h
  simp only [if_neg hne, CallbackContract.store]
  rw [Table.get?_put, if_pos rfl]

theorem getRecord_index {now : ℚ} {requestId : PyStr} {record : CallbackRecord Metadata}
    {t : ContractState} (h : getRecord cfg now requestId s = (t, some record)) :
    t.callbacks.idempotencyIndex.get? requestId.strip =
      some (requestId.strip, record.callbackId) ∧ record.callbackId ≠ "" := by
  unfold Callback.getRecord CallbackContract.getByIdempotencyKey CallbackContract.get at h
  split at h
  · cases h
  rename_i k callbackId hindex
  have hk : k = requestId.strip := Table.key_of_get? hindex
  split at h
  · cases h
  rename_i hne
  simp only at h
  split at h
  · cases h
  rename_i q hq
  obtain ⟨rfl, hrec⟩ := Prod.mk.inj h
  obtain rfl := Option.some.inj hrec
  have hid : q.callbackId = callbackId := Table.key_of_get? hq
  rw [expireIfNeeded_id, hid]
  exact ⟨hk ▸ hindex, hne⟩

theorem Settled.failRecord (h : Settled s.callbacks key d) {record : CallbackRecord Metadata}
    (hstored : s.callbacks.records.get? record.callbackId = some record) :
    Settled (failRecord record s).callbacks key d := by
  unfold Callback.failRecord
  split
  · exact h
  rename_i hlive
  apply h.store
  rintro rfl
  obtain ⟨q, hq, hs⟩ := h.delivered
  rw [hstored] at hq
  obtain rfl := Option.some.inj hq
  exact hlive hs

/-- Every call keeps it, if an evaluation draws another id. -/
theorem Settled.step (h : Settled s.callbacks key d) {input : Readings × Call φ}
    (hfresh : ∀ args, input.2 = .evaluate args → input.1.uuid ≠ d) :
    Settled (step cfg s input).1.callbacks key d := by
  obtain ⟨r, call⟩ := input
  cases call with
  | evaluate args => exact h.evaluate (hfresh args rfl)
  | getRecord requestId => exact h.getRecord cfg _ _
  | acknowledgeRequest requestId =>
    have hget := h.getRecord cfg (r.time 0) requestId
    simp only [Callback.step, acknowledgeRequest]
    split
    · exact hget
    · exact hget.acknowledge _ _
  | completeRequest requestId =>
    have hget := h.getRecord cfg (r.time 0) requestId
    simp only [Callback.step, completeRequest]
    split
    · exact hget
    split
    · exact hget.deliver _ _
    split
    · exact hget.deliver _ _
    · exact hget.deliver _ _
  | releaseRequestRetryable requestId reason =>
    have hget := h.getRecord cfg (r.time 0) requestId
    simp only [Callback.step, releaseRequestRetryable]
    split
    · exact hget
    rename_i record hrecord
    split
    · exact hget.failRecord (getRecord_stored hrecord)
    · exact hget.failRecord (getRecord_stored hrecord)
  | failRequestTerminal requestId reason =>
    have hget := h.getRecord cfg (r.time 0) requestId
    simp only [Callback.step, failRequestTerminal]
    split
    · exact hget
    rename_i record hrecord
    split
    · exact hget.failRecord (getRecord_stored hrecord)
    · exact hget.failRecord (getRecord_stored hrecord)

/-- A request id that is settled cannot be completed. -/
theorem Settled.complete {requestId : PyStr} (h : Settled s.callbacks requestId.strip d)
    (record : CallbackRecord Metadata) : (completeRequest cfg r requestId s).2 ≠ .record record := by
  obtain ⟨q, hq, hs⟩ := h.delivered
  have hterm : q.state.terminal = true := by rw [hs]; rfl
  have hkept : ∀ now, q.expireIfNeeded cfg.callbacks now = q := by
    intro now
    rw [CallbackRecord.expireIfNeeded, if_pos hterm]
  have hget : Callback.getRecord cfg (r.time 0) requestId s =
      ({ s with callbacks := s.callbacks.store q }, some q) := by
    simp only [Callback.getRecord, CallbackContract.getByIdempotencyKey, h.index, if_neg h.id_ne,
      CallbackContract.get, hq, hkept]
  have hstored := getRecord_stored
    (show (Callback.getRecord cfg (r.time 0) requestId s).2 = some q by rw [hget])
  rw [hget] at hstored
  have hpending : ¬ (q.requireAck = true ∧ q.state = .pending) := by
    rw [hs]
    rintro ⟨_, ⟨⟩⟩
  have hlive : ¬ (q.state = .pending ∨ q.state = .acknowledged) := by
    rw [hs]
    rintro (⟨⟨⟩⟩ | ⟨⟨⟩⟩)
  simp only [completeRequest, hget, CallbackContract.deliver, hstored, hkept, if_neg hpending,
    if_neg hlive]
  rintro ⟨⟩

/-- A completed request id is settled. -/
theorem settled_of_complete {requestId : PyStr} {record : CallbackRecord Metadata}
    {s' : ContractState} (h : completeRequest cfg r requestId s = (s', .record record)) :
    Settled s'.callbacks requestId.strip record.callbackId := by
  unfold completeRequest at h
  cases hget : getRecord cfg (r.time 0) requestId s with
  | mk t found =>
  rw [hget] at h
  cases found with
  | none => cases h
  | some q =>
    obtain ⟨hindex, hne⟩ := getRecord_index hget
    simp only at h
    cases hdeliver : t.callbacks.deliver cfg.callbacks (r.time 1) q.callbackId with
    | mk callbacks result =>
    rw [hdeliver] at h
    have hsame : callbacks.idempotencyIndex = t.callbacks.idempotencyIndex := by
      have hkept : (transport cfg.callbacks t.callbacks
          (⟨r.time 1, ""⟩, .deliver q.callbackId)).1.idempotencyIndex = _ :=
        index_eq t.callbacks (by rintro args ⟨⟩)
      simpa [transport, hdeliver] using hkept
    cases result with
    | error e => cases h
    | ok delivered =>
      obtain ⟨_, _, _, hstored, hs, _⟩ := deliver_ok
        (show transport cfg.callbacks t.callbacks (⟨r.time 1, ""⟩, .deliver q.callbackId) =
          (callbacks, .record delivered) by simp only [transport, hdeliver]; rfl)
      have hid : delivered.callbackId = q.callbackId := Table.key_of_get? hstored
      have hsettled : Settled callbacks requestId.strip delivered.callbackId := by
        rw [hid]
        exact ⟨hsame ▸ hindex, hne, delivered, hstored, hs⟩
      simp only at h
      split at h
      · cases h
        exact hsettled
      · cases h
        exact hsettled

theorem step_evaluate {input : Readings × Call φ} {args : EvaluateArgs φ}
    (h : input.2 = .evaluate args) : step cfg s input = evaluate cfg input.1 args s := by
  obtain ⟨r, call⟩ := input
  cases h
  rfl

theorem step_complete {input : Readings × Call φ} {requestId : PyStr}
    (h : input.2 = .completeRequest requestId) :
    step cfg s input = completeRequest cfg input.1 requestId s := by
  obtain ⟨r, call⟩ := input
  cases h
  rfl

end Calls

/-! ## Runs -/

section Runs
variable (cfg : Config φ) (inp : ℕ → Readings × Call φ)

/-- The state before the `k`-th call; the contract starts empty. -/
abbrev stateAt (k : ℕ) : ContractState := run (step cfg) {} inp k

/-- `uuid4` draws no id that is taken. -/
def FreshUuids : Prop := ∀ k args, (inp k).2 = .evaluate args →
  (stateAt cfg inp k).callbacks.records.get? (inp k).1.uuid = none

/-- The `k`-th call completes the request and returns its record. -/
def Completes (k : ℕ) (requestId : PyStr) (record : CallbackRecord Metadata) : Prop :=
  (inp k).2 = .completeRequest requestId ∧ answer (step cfg) {} inp k = .record record

variable {cfg inp}

theorem settled_run (hfresh : FreshUuids cfg inp) {i j : ℕ} (hij : i ≤ j) {key : PyStr} {d : String}
    (h : Settled (stateAt cfg inp i).callbacks key d) :
    Settled (stateAt cfg inp j).callbacks key d := by
  refine run_invariant (P := fun s : ContractState => Settled s.callbacks key d) h ?_ j hij
  intro k _ hk
  rw [run_succ]
  apply hk.step
  rintro args hcall rfl
  obtain ⟨r, hr, _⟩ := hk.delivered
  rw [hfresh k args hcall] at hr
  cases hr

theorem completes_settled {k : ℕ} {requestId : PyStr} {record : CallbackRecord Metadata}
    (h : Completes cfg inp k requestId record) :
    Settled (stateAt cfg inp (k + 1)).callbacks requestId.strip record.callbackId := by
  obtain ⟨hcall, ha⟩ := h
  have hstep : completeRequest cfg (inp k).1 requestId (stateAt cfg inp k) =
      (stateAt cfg inp (k + 1), .record record) := by
    rw [← step_complete hcall]
    exact Prod.ext rfl ha
  exact settled_of_complete hstep

theorem completes_once (hfresh : FreshUuids cfg inp) {i j : ℕ} {requestId requestId' : PyStr}
    {record record' : CallbackRecord Metadata} (hi : Completes cfg inp i requestId record)
    (hj : Completes cfg inp j requestId' record') (hsame : requestId.strip = requestId'.strip) :
    ¬ i < j := by
  intro hij
  have hsettled := settled_run hfresh (Nat.succ_le_of_lt hij) (completes_settled hi)
  rw [hsame] at hsettled
  obtain ⟨hcall, ha⟩ := hj
  have hrefused : (completeRequest cfg (inp j).1 requestId' (stateAt cfg inp j)).2 ≠
      .record record' := hsettled.complete record'
  rw [← step_complete hcall] at hrefused
  exact hrefused ha

/-- What a call that accepts an envelope found and did. -/
theorem accepts_acceptance {k : ℕ} {e : InteractiveCallbackEnvelope} {callbackId : String}
    (h : Accepts cfg (inp k) (answer (step cfg) {} inp k) e callbackId) :
    ∃ args, (inp k).2 = .evaluate args ∧ Trimmed e ∧
      Acceptance cfg (inp k).1 args e callbackId (stateAt cfg inp k) (stateAt cfg inp (k + 1)) := by
  obtain ⟨args, d, hcall, he, ha, hok, rfl⟩ := h
  have hstep : evaluate cfg (inp k).1 args (stateAt cfg inp k) =
      (stateAt cfg inp (k + 1), .decided d) := by
    rw [← step_evaluate hcall]
    exact Prod.ext rfl ha
  obtain ⟨e', he', hacc⟩ := evaluate_ok hstep hok
  rw [he] at he'
  obtain rfl := Except.ok.inj he'
  exact ⟨args, hcall, fromDict_trimmed cfg.rt he, hacc⟩

/-- An acceptance hands out a record of its own exactly if the request id was unused, and no request
id is completed twice. -/
theorem records_own_iff (hfresh : FreshUuids cfg inp) :
    (∀ k e callbackId, Accepts cfg (inp k) (answer (step cfg) {} inp k) e callbackId →
      (Own (stateAt cfg inp k) (stateAt cfg inp (k + 1)) e callbackId ↔
        Unused (stateAt cfg inp k) e.requestId)) ∧
    ∀ i j requestId requestId' record record', Completes cfg inp i requestId record →
      Completes cfg inp j requestId' record' → requestId.strip = requestId'.strip → i = j := by
  constructor
  · intro k e callbackId h
    obtain ⟨args, hcall, he, hacc⟩ := accepts_acceptance h
    exact accepted_own_iff he hacc (hfresh k args hcall)
  · intro i j requestId requestId' record record' hi hj hsame
    have hle := completes_once hfresh hi hj hsame
    have hge := completes_once hfresh hj hi hsame.symm
    omega

end Runs

/-! ## Two workspaces, one request id -/

def Answer.acceptedId? : Answer → Option String
  | .decided d => if d.ok then some d.callbackId else none
  | _ => none

theorem accepts_of_acceptedId {input : Readings × Call φ} {args : EvaluateArgs φ} {a : Answer}
    {e : InteractiveCallbackEnvelope} {callbackId : String} (hcall : input.2 = .evaluate args)
    (he : fromDict cfg.rt args.envelopeDict = .ok e) (h : a.acceptedId? = some callbackId) :
    Accepts cfg input a e callbackId := by
  unfold Answer.acceptedId? at h
  split at h
  · rename_i d
    split at h
    · rename_i hok
      exact ⟨args, d, hcall, he, rfl, hok, Option.some.inj h⟩
    · cases h
  · cases h

def demoConfig : Config Unit where
  rt := demoRuntime
  signingSecret := demoSecret
  actionPolicyMap := [(PyStr.ofString "run", "public")]
  timestampDriftSec := 300
  drift_pos := by decide
  lifecycle := LifecycleConfig.of 300 5000
  callbacks := {}

def demoReadings (now : ℚ) (uuid : String) : Readings := ⟨fun _ => now, monotone_const, uuid⟩

def demoArgs (signature : List UInt8) (requestId workspaceId : String) : EvaluateArgs Unit where
  platform := PyStr.ofString "feishu"
  envelopeDict := demoFields signature requestId workspaceId
  payload := []
  actor := {}
  resolution := .ok (PyStr.ofString "inst-1")

/-- A request that is accepted, and then looked up again and again. -/
def demoLookups : ℕ → Readings × Call Unit
  | 0 => (demoReadings 1000 "cb-1", .evaluate (demoArgs demoSignature "a:b" "c"))
  | _ => (demoReadings 1001 "cb-2", .getRecord (PyStr.ofString "a:b"))

theorem records_own_iff_lookups :
    Own (stateAt demoConfig demoLookups 0) (stateAt demoConfig demoLookups 1) demoRequest "cb-1" :=
  ((records_own_iff (show FreshUuids demoConfig demoLookups by
      rintro (_ | k) args hcall
      · rfl
      · cases hcall)).1 0 demoRequest "cb-1"
    (accepts_of_acceptedId rfl demo_read (by decide +kernel))).mpr
    (by rintro r ⟨⟩)

/-- One request id of two workspaces. -/
def demoWorkspaces : ℕ → Readings × Call Unit
  | 0 => (demoReadings 1000 "cb-1", .evaluate (demoArgs demoSignature "a:b" "c"))
  | _ => (demoReadings 1001 "cb-2", .evaluate (demoArgs demoSignatureOther "a:b" "d"))

/-- The second acceptance hands out the record of the first. -/
theorem other_workspace_shares_record :
    Accepts demoConfig (demoWorkspaces 0) (answer (step demoConfig) {} demoWorkspaces 0)
        demoRequest "cb-1" ∧
      Accepts demoConfig (demoWorkspaces 1) (answer (step demoConfig) {} demoWorkspaces 1)
        (demoEnvelope demoSignatureOther "a:b" "d") "cb-1" ∧
      ¬ Own (stateAt demoConfig demoWorkspaces 1) (stateAt demoConfig demoWorkspaces 2)
        (demoEnvelope demoSignatureOther "a:b" "d") "cb-1" := by
  refine ⟨accepts_of_acceptedId rfl demo_read (by decide +kernel),
    accepts_of_acceptedId rfl (by decide +kernel) (by decide +kernel), ?_⟩
  intro h
  have hstored : ((stateAt demoConfig demoWorkspaces 1).callbacks.records.get? "cb-1").isSome = true := by
    decide +kernel
  rw [h.created] at hstored
  cases hstored

end OpenClaw.Callback
