import Mathlib.Tactic.Linarith
import OpenClaw.Callback.CallbackRecords

/-!
# Replays of an accepted callback

The timestamp of an envelope and the record of its claim are two windows. While the record outlives
the freshness of the envelope, is not dropped for the capacity, and is released by its own request
only, an accepted envelope is refused until its request is released.
-/

namespace OpenClaw.Callback

open Foundation
set_option autoImplicit false

/-! ## The key of a claim -/

theorem lifecycleKey_strip {workspaceId actionType requestId requestId' : PyStr}
    (h : (lifecycleKey workspaceId actionType requestId).strip =
      (lifecycleKey workspaceId actionType requestId').strip) :
    requestId.strip = requestId'.strip := by
  let p : CodeUnit → Bool := fun u => PyText.isSpaceCode u.val
  have hkey : ∀ x : PyStr, (lifecycleKey workspaceId actionType x).strip =
      105 :: (PyStr.ofString "nteractive:" ++ (workspaceId ++ colon :: actionType) ++
        colon :: x.rdropWhile p) := by
    intro x
    have hsplit : lifecycleKey workspaceId actionType x =
        105 :: (PyStr.ofString "nteractive:" ++ (workspaceId ++ colon :: actionType) ++
          colon :: x) := by
      have hhead : PyStr.ofString "interactive:" = 105 :: PyStr.ofString "nteractive:" := by decide
      rw [lifecycleKey, hhead]
      simp
    rw [hsplit]
    exact PyText.stripWhere_delimited (p := p) (by decide) (by decide) _ _
  rw [hkey, hkey, List.cons.injEq] at h
  have hrest := (List.cons.inj (List.append_cancel_left h.2)).2
  have hstrip : ∀ x : PyStr, PyText.stripWhere p (x.rdropWhile p) = x.strip :=
    fun x => PyText.stripWhere_rdropWhile p x
  rw [← hstrip, hrest, hstrip]

theorem update_get? (metadata : Metadata) (e : InteractiveCallbackEnvelope) :
    (metadata.update (claimMetadata e)).get? "workspace_id" = some e.workspaceId ∧
      (metadata.update (claimMetadata e)).get? "action_type" = some e.actionType := by
  have hput : ∀ (t : Metadata) (f : String × PyStr) (k : String),
      Metadata.get? (replaceRow Prod.fst f t) k = if f.1 = k then some f.2 else t.get? k := by
    intro t f k
    rw [Metadata.get?, Table.find?_replaceRow]
    split <;> rfl
  simp [Metadata.update, claimMetadata, hput]

/-! ## What the lifecycle keeps -/

/-- The claim of the envelope is stored, not released, and lasts until then. -/
structure Guarded (s : ReplayLifecycle) (e : InteractiveCallbackEnvelope) (stale : ℚ) : Prop where
  stored : ∃ r, s.get? (ReplayLifecycle.normalizeKey (requestLifecycleKey e)) = some r ∧
    r.state ≠ .retryableFailure ∧ stale ≤ r.expiresAt ∧
    r.metadata.get? "workspace_id" = some e.workspaceId ∧
    r.metadata.get? "action_type" = some e.actionType

namespace ReplayLifecycle
variable {cfg : LifecycleConfig} {s : ReplayLifecycle} {e : InteractiveCallbackEnvelope}
  {stale now : ℚ}

theorem guarded_evict (h : Guarded s e stale) (hnow : now < stale) :
    Guarded (evictExpired now s) e stale := by
  obtain ⟨r, hr, hs, hexp, hmeta⟩ := h.stored
  refine ⟨r, ?_, hs, hexp, hmeta⟩
  rw [get?_evictExpired, hr, Option.bind_some, if_neg (not_le.mpr (lt_of_lt_of_le hnow hexp))]

theorem guarded_put {r : ReplayLifecycleRecord} (h : Guarded s e stale)
    (hkey : r.key = normalizeKey (requestLifecycleKey e) → r.state ≠ .retryableFailure ∧
      stale ≤ r.expiresAt ∧ r.metadata.get? "workspace_id" = some e.workspaceId ∧
      r.metadata.get? "action_type" = some e.actionType) :
    Guarded (s.put r) e stale := by
  by_cases hr : r.key = normalizeKey (requestLifecycleKey e)
  · refine ⟨r, ?_, hkey hr⟩
    rw [Table.get?_put, if_pos hr]
  · obtain ⟨q, hq, hrest⟩ := h.stored
    refine ⟨q, ?_, hrest⟩
    rw [Table.get?_put, if_neg hr, hq]

/-- A claim under any key keeps the stored one, and is refused under its key. -/
theorem guarded_claim {key : PyStr} (metadata : Metadata) (h : Guarded s e stale)
    (hnow : now < stale) (hroom : Roomy cfg key now s) :
    Guarded (claim cfg key metadata now s).1 e stale ∧
      (normalizeKey key = normalizeKey (requestLifecycleKey e) →
        (claim cfg key metadata now s).2.accepted = false) := by
  have hevict := guarded_evict h hnow
  obtain ⟨q, hq, hstate, hexp, hmeta⟩ := hevict.stored
  have hsame : ∀ {r : ReplayLifecycleRecord},
      (evictExpired now s).get? (normalizeKey key) = some r →
      r.key = normalizeKey (requestLifecycleKey e) → r = q := by
    intro r hr hk
    rw [← Table.key_of_get? hr, hk, hq] at hr
    exact (Option.some.inj hr).symm
  unfold claim
  simp only
  split
  · rename_i hnone
    rw [enforceCap_of_room (hroom hnone)]
    have hne : normalizeKey key ≠ normalizeKey (requestLifecycleKey e) := by
      intro hk
      rw [hk, hq] at hnone
      cases hnone
    refine ⟨guarded_put hevict fun hk => absurd hk hne, fun hk => absurd hk hne⟩
  · rename_i r hr
    have hown : normalizeKey key = normalizeKey (requestLifecycleKey e) → r = q :=
      fun hk => hsame hr ((Table.key_of_get? hr).trans hk)
    split
    · rename_i hretry
      have hne : r.key ≠ normalizeKey (requestLifecycleKey e) := by
        intro hk
        rw [hsame hr hk] at hretry
        exact hstate hretry
      refine ⟨guarded_put hevict fun hk => absurd hk hne, fun hk => ?_⟩
      exact absurd ((Table.key_of_get? hr).trans hk) hne
    all_goals
      refine ⟨guarded_put hevict fun hk => ?_, fun _ => rfl⟩
      rw [hsame hr hk]
      exact ⟨hstate, hexp, hmeta⟩

/-- A transition keeps it, unless it releases its key. -/
theorem guarded_transition {key : PyStr} {state : ReplayLifecycleState} {reason : String}
    {allowed : List ReplayLifecycleState} (h : Guarded s e stale) (hnow : now < stale)
    (hlive : stale ≤ now + cfg.ttlSec)
    (hkey : normalizeKey key = normalizeKey (requestLifecycleKey e) → state ≠ .retryableFailure) :
    Guarded (transition cfg key state reason now allowed s) e stale := by
  have hevict := guarded_evict h hnow
  obtain ⟨q, hq, _, _, hmeta⟩ := hevict.stored
  unfold transition
  simp only
  split
  · exact hevict
  rename_i r hr
  split
  · apply guarded_put hevict
    intro hk
    have hown : r.key = normalizeKey (requestLifecycleKey e) := hk
    have hrq : r = q := by
      rw [← Table.key_of_get? hr, hown, hq] at hr
      exact (Option.some.inj hr).symm
    refine ⟨hkey ((Table.key_of_get? hr).symm.trans hown), hlive, ?_⟩
    rw [hrq]
    exact hmeta
  · exact hevict

/-- An accepted claim is stored. -/
theorem guarded_of_claim (hroom : Roomy cfg (requestLifecycleKey e) now s)
    (hlive : stale ≤ now + cfg.ttlSec)
    (h : (claim cfg (requestLifecycleKey e) (claimMetadata e) now s).2.accepted = true) :
    Guarded (claim cfg (requestLifecycleKey e) (claimMetadata e) now s).1 e stale := by
  unfold claim at h ⊢
  simp only at h ⊢
  split
  · rename_i hnone
    rw [enforceCap_of_room (hroom hnone)]
    refine ⟨newRecord cfg (normalizeKey (requestLifecycleKey e)) now (claimMetadata e), ?_, ?_,
      hlive, ?_, ?_⟩
    · rw [Table.get?_put]
      exact if_pos rfl
    · intro hs
      cases hs
    · simp [newRecord, claimMetadata, Metadata.get?]
    · simp [newRecord, claimMetadata, Metadata.get?]
  · rename_i r hr
    rw [hr] at h
    simp only at h
    split
    · obtain ⟨hworkspace, haction⟩ := update_get? r.metadata e
      have hkey := Table.key_of_get? hr
      refine ⟨_, (Table.get?_put _ _ _).trans (if_pos hkey), ?_, hlive, hworkspace, haction⟩
      intro hs
      cases hs
    all_goals
      rename_i hs
      rw [hs] at h
      cases h

end ReplayLifecycle

/-! ## One call -/

section Step
variable {φ : Type} {cfg : Config φ} {s : ContractState} {r : Readings}
  {e : InteractiveCallbackEnvelope} {stale : ℚ}

/-- The lifecycle record that a release would reach is of the same workspace and action as the
callback record. -/
def releasesOwn (s : ContractState) (requestId : PyStr) : Bool :=
  match s.callbacks.indexed requestId.strip with
  | none => true
  | some record =>
    match recordLifecycleKey record requestId with
    | none => true
    | some key =>
      match s.lifecycle.get? (ReplayLifecycle.normalizeKey key) with
      | none => true
      | some l => l.metadata.get? "workspace_id" = record.metadata.get? "workspace_id" &&
          l.metadata.get? "action_type" = record.metadata.get? "action_type"

/-- When the freshness check refuses the envelope for good. -/
def staleAt (cfg : Config φ) (e : InteractiveCallbackEnvelope) : ℚ :=
  e.timestamp + cfg.timestampDriftSec + 1

/-- The claim of a checked envelope is made while it is fresh, its record outlives that and finds
room, and a release reaches no foreign record. -/
structure Overlapping (cfg : Config φ) (s : ContractState) (input : Readings × Call φ) : Prop where
  claimed : ∀ args e, input.2 = .evaluate args →
    checkEnvelope cfg (input.1.time 0) args = .passed e →
    input.1.time 1 < staleAt cfg e ∧ staleAt cfg e ≤ input.1.time 1 + cfg.lifecycle.ttlSec ∧
      ReplayLifecycle.Roomy cfg.lifecycle (requestLifecycleKey e) (input.1.time 1) s.lifecycle
  released : ∀ requestId reason, input.2 = .releaseRequestRetryable requestId reason →
    releasesOwn s requestId = true

theorem getRecord_found (cfg : Config φ) (now : ℚ) (requestId : PyStr) (s : ContractState) :
    (getRecord cfg now requestId s).2 =
      (s.callbacks.indexed requestId.strip).map (·.expireIfNeeded cfg.callbacks now) := by
  unfold getRecord CallbackContract.getByIdempotencyKey CallbackContract.indexed
    CallbackContract.get
  simp only
  split
  · rfl
  split
  · rfl
  · split <;> rename_i hget <;> rw [hget] <;> rfl

theorem recordLifecycleKey_expire (now : ℚ) (record : CallbackRecord Metadata) (requestId : PyStr) :
    recordLifecycleKey (record.expireIfNeeded cfg.callbacks now) requestId =
      recordLifecycleKey record requestId := by
  rcases expireIfNeeded_cases cfg.callbacks now record with h | ⟨_, h⟩ <;> rw [h] <;> rfl

/-- A release that reaches the claim of the envelope is of its request. -/
theorem released_own (he : Trimmed e) (h : Guarded s.lifecycle e stale) {requestId key : PyStr}
    {record : CallbackRecord Metadata} (hown : releasesOwn s requestId = true)
    (hrecord : s.callbacks.indexed requestId.strip = some record)
    (hkey : recordLifecycleKey record requestId = some key)
    (hsame : ReplayLifecycle.normalizeKey key =
      ReplayLifecycle.normalizeKey (requestLifecycleKey e)) :
    requestId.strip = e.requestId := by
  obtain ⟨l, hl, _, _, hworkspace, haction⟩ := h.stored
  unfold releasesOwn at hown
  simp only [hrecord, hkey, hsame, hl, hworkspace, haction, Bool.and_eq_true,
    decide_eq_true_eq] at hown
  unfold recordLifecycleKey at hkey
  simp only [← hown.1, ← hown.2, Option.getD_some] at hkey
  split at hkey
  · obtain rfl := Option.some.inj hkey
    rw [lifecycleKey_strip hsame, he.request_strip]
  · cases hkey

theorem failRecord_lifecycle (record : CallbackRecord Metadata) (s : ContractState) :
    (failRecord record s).lifecycle = s.lifecycle := by
  unfold failRecord
  split <;> rfl

section Guard
variable (h : Guarded s.lifecycle e stale) (hlast : r.time 3 < stale)
  (hlive : stale ≤ r.time 0 + cfg.lifecycle.ttlSec)
include h hlast hlive

theorem guarded_failTerminal {k : ℕ} (hk : k ≤ 3) (key : PyStr) (reason : String) :
    Guarded (failTerminal cfg key reason (r.time k) s).lifecycle e stale := by
  apply ReplayLifecycle.guarded_transition h ((r.mono hk).trans_lt hlast)
  · have := r.mono (Nat.zero_le k)
    linarith
  · intro _ hs
    cases hs

theorem guarded_authorize (args : EvaluateArgs φ) (e' : InteractiveCallbackEnvelope) :
    Guarded (authorize cfg r args e' s).1.lifecycle e stale := by
  unfold authorize
  split
  · exact guarded_failTerminal h hlast hlive (by omega) _ _
  split
  · exact guarded_failTerminal h hlast hlive (by omega) _ _
  simp only
  split
  · exact h
  split
  · apply guarded_failTerminal _ hlast hlive (by omega)
    exact h
  · exact h

theorem guarded_evaluate {args : EvaluateArgs φ}
    (hroom : ∀ e', checkEnvelope cfg (r.time 0) args = .passed e' →
      ReplayLifecycle.Roomy cfg.lifecycle (requestLifecycleKey e') (r.time 1) s.lifecycle) :
    Guarded (evaluate cfg r args s).1.lifecycle e stale := by
  unfold evaluate
  split
  · exact h
  · exact h
  rename_i e' hcheck
  have hclaim := (ReplayLifecycle.guarded_claim (claimMetadata e') h
    ((r.mono (by omega)).trans_lt hlast) (hroom e' hcheck)).1
  simp only
  split
  · apply guarded_authorize _ hlast hlive
    exact hclaim
  · exact hclaim

/-- A call keeps the claim of an envelope, unless it releases its request. -/
theorem guarded_step (he : Trimmed e) {call : Call φ} (hsound : Overlapping cfg s (r, call))
    (hrelease : ∀ requestId reason, call = .releaseRequestRetryable requestId reason →
      requestId.strip ≠ e.requestId) :
    Guarded (step cfg s (r, call)).1.lifecycle e stale := by
  cases call with
  | evaluate args =>
    apply guarded_evaluate h hlast hlive
    intro e' hcheck
    exact (hsound.claimed args e' rfl hcheck).2.2
  | getRecord requestId => exact h
  | acknowledgeRequest requestId =>
    simp only [step, acknowledgeRequest]
    split <;> exact h
  | completeRequest requestId =>
    simp only [step, completeRequest]
    split
    · exact h
    split
    · exact h
    split
    · exact h
    · apply ReplayLifecycle.guarded_transition h ((r.mono (by omega)).trans_lt hlast)
      · have := r.mono (Nat.zero_le 2)
        linarith
      · intro _ hs
        cases hs
  | releaseRequestRetryable requestId reason =>
    have hfound := getRecord_found cfg (r.time 0) requestId s
    simp only [step, releaseRequestRetryable]
    split
    · exact h
    rename_i record hrecord
    rw [hrecord] at hfound
    obtain ⟨q, hq, rfl⟩ := Option.map_eq_some_iff.mp hfound.symm
    rw [recordLifecycleKey_expire]
    split
    · rw [failRecord_lifecycle]
      exact h
    rename_i key hkey
    simp only [failRecord_lifecycle]
    apply ReplayLifecycle.guarded_transition h ((r.mono (by omega)).trans_lt hlast)
    · have := r.mono (Nat.zero_le 1)
      linarith
    · intro hsame _
      exact hrelease requestId reason rfl
        (released_own he h (hsound.released requestId reason rfl) hq hkey hsame)
  | failRequestTerminal requestId reason =>
    simp only [step, failRequestTerminal]
    split
    · exact h
    split
    · rw [failRecord_lifecycle]
      exact h
    · apply guarded_failTerminal _ hlast hlive (by omega)
      rw [failRecord_lifecycle]
      exact h

end Guard
end Step

/-! ## Runs -/

section Runs
variable {φ : Type} {cfg : Config φ} {inp : ℕ → Readings × Call φ}

/-- The clock does not go back from one call to the next; no call reads it more than four times. -/
def Forward (inp : ℕ → Readings × Call φ) : Prop :=
  ∀ k, (inp k).1.time 3 ≤ (inp (k + 1)).1.time 0

theorem Forward.le (h : Forward inp) {i j : ℕ} (hij : i < j) :
    (inp i).1.time 3 ≤ (inp j).1.time 0 := by
  induction j, hij using Nat.le_induction with
  | base => exact h i
  | succ j _ ih => exact ih.trans (((inp j).1.mono (by omega)).trans (h j))

/-- While the two windows overlap, an accepted envelope is not accepted again before its request is
released. -/
theorem no_replay (hclock : Forward inp)
    (hsound : ∀ k, Overlapping cfg (stateAt cfg inp k) (inp k)) {i j : ℕ} (hij : i < j)
    {e : InteractiveCallbackEnvelope} {callbackId callbackId' : String}
    (hi : Accepts cfg (inp i) (answer (step cfg) {} inp i) e callbackId)
    (hj : Accepts cfg (inp j) (answer (step cfg) {} inp j) e callbackId') :
    ∃ k requestId reason, i < k ∧ k < j ∧
      (inp k).2 = .releaseRequestRetryable requestId reason ∧ requestId.strip = e.requestId := by
  by_contra hnone
  obtain ⟨args, hcall, he, hacc⟩ := accepts_acceptance hi
  obtain ⟨_, hlive, hroom⟩ := (hsound i).claimed args e hcall hacc.checked
  have hguarded : ∀ k, i + 1 ≤ k → k ≤ j →
      Guarded (stateAt cfg inp k).lifecycle e (staleAt cfg e) ∨
        staleAt cfg e ≤ (inp k).1.time 0 := by
    intro k hik
    induction k, hik using Nat.le_induction with
    | base =>
      intro _
      left
      rw [hacc.lifecycle]
      exact ReplayLifecycle.guarded_of_claim hroom hlive hacc.claimed
    | succ k hik ih =>
      intro hkj
      rcases ih (by omega) with hg | hstale
      · by_cases hlast : (inp k).1.time 3 < staleAt cfg e
        · left
          apply guarded_step hg hlast _ he (hsound k)
          · intro requestId reason hrel hsame
            exact hnone ⟨k, requestId, reason, by omega, by omega, hrel, hsame⟩
          · have hbefore := hclock.le (Nat.lt_of_succ_le hik)
            have := (inp i).1.mono (by omega : 1 ≤ 3)
            linarith
        · exact .inr ((not_lt.mp hlast).trans (hclock k))
      · have := (inp k).1.mono (Nat.zero_le 3)
        exact .inr ((hstale.trans this).trans (hclock k))
  obtain ⟨args', hcall', _, hacc'⟩ := accepts_acceptance hj
  obtain ⟨hfresh, _, hroom'⟩ := (hsound j).claimed args' e hcall' hacc'.checked
  rcases hguarded j hij (Nat.le_refl j) with hg | hstale
  · have hrefused := (ReplayLifecycle.guarded_claim (claimMetadata e) hg hfresh hroom').2 rfl
    rw [hacc'.claimed] at hrefused
    cases hrefused
  · have := (inp j).1.mono (Nat.zero_le 1)
    linarith

end Runs

/-! ## A replay after the claim has expired -/

/-- A request that is accepted a second after its timestamp, released, and accepted again. -/
def demoRetry : ℕ → Readings × Call Unit
  | 0 => (demoReadings 1001 "cb-1", .evaluate (demoArgs demoSignature "a:b" "c"))
  | 1 => (demoReadings 1001 "cb-2",
      .releaseRequestRetryable (PyStr.ofString "a:b ") "retryable_failure")
  | 2 => (demoReadings 1001 "cb-3", .evaluate (demoArgs demoSignature "a:b" "c"))
  | _ => (demoReadings 1001 "cb-4", .getRecord (PyStr.ofString "a:b"))

theorem demo_checked {now : ℚ} {e : InteractiveCallbackEnvelope}
    (h : checkEnvelope demoConfig now (demoArgs demoSignature "a:b" "c") = .passed e) :
    e = demoRequest := by
  have hpassed := (checkEnvelope_fromDict h).1
  exact Except.ok.inj (hpassed.symm.trans demo_read)

theorem demo_times : 1001 < staleAt demoConfig demoRequest ∧
    staleAt demoConfig demoRequest ≤ 1001 + demoConfig.lifecycle.ttlSec := by
  decide +kernel

theorem demo_claimed {s : ContractState} {uuid : String}
    (hroom : (ReplayLifecycle.evictExpired 1001 s.lifecycle).size < 5000) :
    Overlapping demoConfig s
      (demoReadings 1001 uuid, .evaluate (demoArgs demoSignature "a:b" "c")) := by
  constructor
  · rintro args e ⟨⟩ hcheck
    rw [demo_checked hcheck]
    exact ⟨demo_times.1, demo_times.2, fun _ => Int.ofNat_lt.mpr hroom⟩
  · rintro requestId reason ⟨⟩

theorem demoRetry_overlapping (k : ℕ) :
    Overlapping demoConfig (stateAt demoConfig demoRetry k) (demoRetry k) := by
  have hroom : (ReplayLifecycle.evictExpired 1001
        (stateAt demoConfig demoRetry 0).lifecycle).size < 5000 ∧
      (ReplayLifecycle.evictExpired 1001
        (stateAt demoConfig demoRetry 2).lifecycle).size < 5000 := by
    decide +kernel
  rcases k with _ | _ | _ | k
  · exact demo_claimed hroom.1
  · constructor
    · rintro args e ⟨⟩
    · rintro requestId reason ⟨⟩
      decide +kernel
  · exact demo_claimed hroom.2
  · constructor
    · rintro args e ⟨⟩
    · rintro requestId reason ⟨⟩

theorem demoRetry_accepts {k : ℕ} {callbackId : String}
    (hcall : (demoRetry k).2 = .evaluate (demoArgs demoSignature "a:b" "c"))
    (h : (answer (step demoConfig) {} demoRetry k).acceptedId? = some callbackId) :
    Accepts demoConfig (demoRetry k) (answer (step demoConfig) {} demoRetry k) demoRequest
      callbackId :=
  accepts_of_acceptedId hcall demo_read h

theorem demoRetry_answers :
    (answer (step demoConfig) {} demoRetry 0).acceptedId? = some "cb-1" ∧
      (answer (step demoConfig) {} demoRetry 2).acceptedId? = some "cb-3" := by
  decide +kernel

theorem no_replay_retry : ∃ k requestId reason, 0 < k ∧ k < 2 ∧
    (demoRetry k).2 = .releaseRequestRetryable requestId reason ∧
    requestId.strip = demoRequest.requestId :=
  no_replay (show Forward demoRetry by rintro (_ | _ | _ | k) <;> exact le_refl _)
    demoRetry_overlapping (by decide)
    (demoRetry_accepts rfl demoRetry_answers.1) (demoRetry_accepts rfl demoRetry_answers.2)

/-- The same request at its timestamp, and once more when its claim has just expired. -/
def demoReplay : ℕ → Readings × Call Unit
  | 0 => (demoReadings 1000 "cb-1", .evaluate (demoArgs demoSignature "a:b" "c"))
  | _ => (demoReadings 1300 "cb-2", .evaluate (demoArgs demoSignature "a:b" "c"))

theorem replay_accepted : Forward demoReplay ∧
    Accepts demoConfig (demoReplay 0) (answer (step demoConfig) {} demoReplay 0) demoRequest
      "cb-1" ∧
    Accepts demoConfig (demoReplay 1) (answer (step demoConfig) {} demoReplay 1) demoRequest
      "cb-1" ∧
    ∀ k requestId reason, (demoReplay k).2 ≠ .releaseRequestRetryable requestId reason := by
  have hids : (answer (step demoConfig) {} demoReplay 0).acceptedId? = some "cb-1" ∧
      (answer (step demoConfig) {} demoReplay 1).acceptedId? = some "cb-1" := by
    decide +kernel
  refine ⟨?_, accepts_of_acceptedId rfl demo_read hids.1,
    accepts_of_acceptedId rfl demo_read hids.2, ?_⟩
  · rintro (_ | k)
    · exact (by norm_num : (1000 : ℚ) ≤ 1300)
    · exact le_refl _
  · rintro (_ | k) requestId reason ⟨⟩

end OpenClaw.Callback
