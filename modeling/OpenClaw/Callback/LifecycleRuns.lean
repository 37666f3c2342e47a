import Mathlib.Data.Finset.Card
import OpenClaw.Callback.ReplayLifecycle
import OpenClaw.Foundation.Run

/-!
# Runs of the replay lifecycle

`ConnectorReplayLifecycle` under any calls. A call takes effect when it changes the state of the
record of its key. While the records find room, what took effect last is stored until it expires.
-/

namespace OpenClaw.Callback

open Foundation
set_option autoImplicit false

namespace ReplayLifecycle

inductive Call where
  | claim (key : PyStr) (metadata : Metadata)
  | releaseRetryable (key : PyStr) (reason : String)
  | commitSuccess (key : PyStr) (reason : String)
  | failTerminal (key : PyStr) (reason : String)
  | get (key : PyStr)

def Call.key : Call → PyStr
  | .claim key _ => key
  | .releaseRetryable key _ => key
  | .commitSuccess key _ => key
  | .failTerminal key _ => key
  | .get key => key

inductive Answer where
  | claimed (result : ReplayClaimResult)
  | record (r : Option ReplayLifecycleRecord)
  /-- The `ValueError` of `_normalize_key`. -/
  | emptyKey

/-- A call at a reading of the clock; the record of the key is handed out as it is then. -/
def step (cfg : LifecycleConfig) (s : ReplayLifecycle) (input : ℚ × Call) :
    ReplayLifecycle × Answer :=
  let key := normalizeKey input.2.key
  if key = [] then (s, .emptyKey)
  else
    match input.2 with
    | .claim k metadata =>
      let r := claim cfg k metadata input.1 s
      (r.1, .claimed r.2)
    | .releaseRetryable k reason =>
      let s := releaseRetryable cfg k reason input.1 s
      (s, .record (s.get? key))
    | .commitSuccess k reason =>
      let s := commitSuccess cfg k reason input.1 s
      (s, .record (s.get? key))
    | .failTerminal k reason =>
      let s := failTerminal cfg k reason input.1 s
      (s, .record (s.get? key))
    | .get _ =>
      let s := evictExpired input.1 s
      (s, .record (s.get? key))

/-! ## What takes effect -/

/-- The state that the call leads to, and the states that it leads there from. -/
def Call.target? : Call → Option (ReplayLifecycleState × List ReplayLifecycleState)
  | .claim _ _ => some (.claimed, [.retryableFailure])
  | .releaseRetryable _ _ => some (.retryableFailure, [.claimed])
  | .commitSuccess _ _ => some (.delivered, [.claimed, .retryableFailure])
  | .failTerminal _ _ => some (.terminalFailure, [.claimed, .retryableFailure])
  | .get _ => none

def Call.isClaim : Call → Bool
  | .claim _ _ => true
  | _ => false

/-- The key's record comes to the state by this call: a claim may also make it. -/
structure Effect (s : ReplayLifecycle) (input : ℚ × Call) (key : PyStr)
    (state : ReplayLifecycleState) : Prop where
  own : normalizeKey input.2.key = key
  named : key ≠ []
  moves : ∃ sources, input.2.target? = some (state, sources) ∧
    match (evictExpired input.1 s).get? key with
    | some r => r.state ∈ sources
    | none => input.2.isClaim = true

theorem Effect.unique {s : ReplayLifecycle} {input : ℚ × Call} {key : PyStr}
    {state state' : ReplayLifecycleState} (h : Effect s input key state)
    (h' : Effect s input key state') : state = state' := by
  obtain ⟨sources, htarget, -⟩ := h.moves
  obtain ⟨sources', htarget', -⟩ := h'.moves
  cases htarget.symm.trans htarget'
  rfl

/-- No call leads out of a final state. -/
theorem Call.sources_open {call : Call} {state state' : ReplayLifecycleState}
    {sources : List ReplayLifecycleState} (htarget : call.target? = some (state', sources))
    (h : state ∈ sources) : state ≠ .delivered ∧ state ≠ .terminalFailure := by
  cases call <;> cases htarget <;> revert h <;> cases state <;> decide

/-- The state of a key's record, and when it expires. -/
def view (s : ReplayLifecycle) (key : PyStr) : Option (ReplayLifecycleState × ℚ) :=
  (s.get? key).map fun r => (r.state, r.expiresAt)

section Views
variable {cfg : LifecycleConfig} {s : ReplayLifecycle} {key key' : PyStr} {now : ℚ}

theorem view_put (r : ReplayLifecycleRecord) :
    view (s.put r) key = if r.key = key then some (r.state, r.expiresAt) else view s key := by
  unfold view
  rw [Table.get?_put]
  split <;> rfl

theorem view_evictExpired {state : ReplayLifecycleState} {expiresAt : ℚ}
    (h : view s key = some (state, expiresAt)) (hnow : now < expiresAt) :
    view (evictExpired now s) key = some (state, expiresAt) := by
  obtain ⟨r, hr, heq⟩ := Option.map_eq_some_iff.mp h
  have hexp : r.expiresAt = expiresAt := congrArg Prod.snd heq
  rw [view, get?_evictExpired, hr, Option.bind_some, if_neg (not_le.mpr (hexp ▸ hnow))]
  exact congrArg some heq

/-- A record that is stored again with the same state and expiry changes no view. -/
theorem view_put_same {r r' : ReplayLifecycleRecord} (hr : s.get? (normalizeKey key) = some r)
    (hsame : (r'.key, r'.state, r'.expiresAt) = (r.key, r.state, r.expiresAt)) (key' : PyStr) :
    view (s.put r') key' = view s key' := by
  simp only [Prod.mk.injEq] at hsame
  rw [view_put]
  split
  · rename_i hk
    have hkey := Table.key_of_get? hr
    rw [view, ← hk, hsame.1, hkey, hr, hsame.2.1, hsame.2.2]
    rfl
  · rfl

theorem view_claim (metadata : Metadata) (hroom : Roomy cfg key now s) :
    (∀ k, k ≠ normalizeKey key →
      view (claim cfg key metadata now s).1 k = view (evictExpired now s) k) ∧
    ((claim cfg key metadata now s).2.accepted = true →
      view (claim cfg key metadata now s).1 (normalizeKey key) =
        some (.claimed, now + cfg.ttlSec)) ∧
    ((claim cfg key metadata now s).2.accepted = false →
      view (claim cfg key metadata now s).1 (normalizeKey key) =
        view (evictExpired now s) (normalizeKey key)) := by
  unfold claim
  simp only
  split
  · rename_i hnone
    rw [enforceCap_of_room (hroom hnone)]
    refine ⟨fun k hk => ?_, fun _ => ?_, by rintro ⟨⟩⟩
    · rw [view_put]
      exact if_neg (Ne.symm hk)
    · rw [view_put]
      exact if_pos rfl
  · rename_i r hr
    have hkey := Table.key_of_get? hr
    split
    · refine ⟨fun k hk => ?_, fun _ => ?_, by rintro ⟨⟩⟩
      · rw [view_put]
        exact if_neg fun h => hk (h.symm.trans hkey)
      · rw [view_put]
        exact if_pos hkey
    all_goals
      -- a duplicate refreshes the update only
      have hsame : ∀ k, view ((evictExpired now s).put { r with updatedAt := now }) k =
          view (evictExpired now s) k := view_put_same hr rfl
      exact ⟨fun k _ => hsame k, by rintro ⟨⟩, fun _ => hsame _⟩

theorem view_transition (state : ReplayLifecycleState) (reason : String)
    (allowed : List ReplayLifecycleState) :
    (∀ k, k ≠ normalizeKey key →
      view (transition cfg key state reason now allowed s) k = view (evictExpired now s) k) ∧
    view (transition cfg key state reason now allowed s) (normalizeKey key) =
      match (evictExpired now s).get? (normalizeKey key) with
      | some r => if r.state ∈ allowed then some (state, now + cfg.ttlSec)
        else view (evictExpired now s) (normalizeKey key)
      | none => none := by
  unfold transition
  simp only
  cases hget : (evictExpired now s).get? (normalizeKey key) with
  | none => exact ⟨fun _ _ => rfl, by rw [view, hget]; rfl⟩
  | some r =>
    have hkey := Table.key_of_get? hget
    simp only
    split
    · refine ⟨fun k hk => ?_, ?_⟩
      · rw [view_put]
        exact if_neg fun h => hk (h.symm.trans hkey)
      · rw [view_put]
        exact if_pos hkey
    · exact ⟨fun _ _ => rfl, rfl⟩

theorem accepted_iff (metadata : Metadata) (s : ReplayLifecycle) :
    (claim cfg key metadata now s).2.accepted = true ↔
      match (evictExpired now s).get? (normalizeKey key) with
      | some r => r.state = .retryableFailure
      | none => True := by
  unfold claim
  simp only
  cases (evictExpired now s).get? (normalizeKey key) with
  | none => exact iff_of_true rfl trivial
  | some r =>
    simp only
    cases r.state <;> simp

end Views

/-! ## One call -/

section Step
variable {cfg : LifecycleConfig} {s : ReplayLifecycle} {now : ℚ} {call : Call} {key : PyStr}
  {state : ReplayLifecycleState} {expiresAt : ℚ}

/-- The records find room when the call is a claim. -/
def FindsRoom (cfg : LifecycleConfig) (s : ReplayLifecycle) (input : ℚ × Call) : Prop :=
  ∀ key metadata, input.2 = .claim key metadata → Roomy cfg key input.1 s

theorem step_named (h : normalizeKey call.key ≠ []) :
    (step cfg s (now, call)).1 =
      match call with
      | .claim k metadata => (claim cfg k metadata now s).1
      | .releaseRetryable k reason => releaseRetryable cfg k reason now s
      | .commitSuccess k reason => commitSuccess cfg k reason now s
      | .failTerminal k reason => failTerminal cfg k reason now s
      | .get _ => evictExpired now s := by
  unfold step
  simp only
  rw [if_neg h]
  cases call <;> rfl

/-- A call reaches the record of its own key only. -/
theorem view_step_other (hroom : FindsRoom cfg s (now, call)) (hne : normalizeKey call.key ≠ [])
    (hk : key ≠ normalizeKey call.key) :
    view (step cfg s (now, call)).1 key = view (evictExpired now s) key := by
  rw [step_named hne]
  cases call with
  | claim k metadata => exact (view_claim metadata (hroom k metadata rfl)).1 key hk
  | releaseRetryable k reason => exact (view_transition _ _ _).1 key hk
  | commitSuccess k reason => exact (view_transition _ _ _).1 key hk
  | failTerminal k reason => exact (view_transition _ _ _).1 key hk
  | get k => rfl

theorem view_transition_effect {reason : String} {sources : List ReplayLifecycleState}
    (h : match (evictExpired now s).get? (normalizeKey key) with
      | some r => r.state ∈ sources
      | none => False) :
    view (transition cfg key state reason now sources s) (normalizeKey key) =
      some (state, now + cfg.ttlSec) := by
  rw [(view_transition state reason sources).2]
  cases hget : (evictExpired now s).get? (normalizeKey key) with
  | none =>
    rw [hget] at h
    exact h.elim
  | some r =>
    rw [hget] at h
    exact if_pos h

theorem view_transition_quiet {reason : String} {sources : List ReplayLifecycleState}
    (h : ∀ r, (evictExpired now s).get? (normalizeKey key) = some r → r.state ∉ sources) :
    view (transition cfg key state reason now sources s) (normalizeKey key) =
      view (evictExpired now s) (normalizeKey key) := by
  rw [(view_transition state reason sources).2]
  cases hget : (evictExpired now s).get? (normalizeKey key) with
  | none => rw [view, hget]; rfl
  | some r => exact if_neg (h r hget)

/-- What takes effect is stored, for the time to live. -/
theorem Effect.stored (hroom : FindsRoom cfg s (now, call)) (h : Effect s (now, call) key state) :
    view (step cfg s (now, call)).1 key = some (state, now + cfg.ttlSec) := by
  obtain ⟨rfl, hne, sources, htarget, hsource⟩ := h
  rw [step_named hne]
  cases call with
  | claim k metadata =>
    cases htarget
    refine (view_claim metadata (hroom k metadata rfl)).2.1 ((accepted_iff metadata s).mpr ?_)
    show match (evictExpired now s).get? (normalizeKey k) with
      | some r => r.state = .retryableFailure
      | none => True
    simp only [Call.key] at hsource
    split at hsource
    · exact List.mem_singleton.mp hsource
    · trivial
  | get k => cases htarget
  | _ =>
    cases htarget
    apply view_transition_effect
    simp only [Call.key, Call.isClaim] at hsource
    split at hsource
    · exact hsource
    · cases hsource

/-- Without an effect on its key a stored record keeps its state and its expiry. -/
theorem view_step_quiet (hroom : FindsRoom cfg s (now, call))
    (hview : view s key = some (state, expiresAt)) (hnow : now < expiresAt)
    (hquiet : ∀ state', ¬ Effect s (now, call) key state') :
    view (step cfg s (now, call)).1 key = some (state, expiresAt) := by
  have hevict := view_evictExpired hview hnow
  by_cases hne : normalizeKey call.key = []
  · have hraised : (step cfg s (now, call)).1 = s := by
      unfold step
      simp only
      rw [if_pos hne]
    rw [hraised, hview]
  by_cases hk : key = normalizeKey call.key
  · subst hk
    obtain ⟨r, hr, -⟩ := Option.map_eq_some_iff.mp hevict
    have hkeeps : ∀ {target : ReplayLifecycleState} {sources : List ReplayLifecycleState},
        call.target? = some (target, sources) → r.state ∉ sources := by
      intro target sources htarget hmem
      refine hquiet target ⟨rfl, hne, sources, htarget, ?_⟩
      simp only
      rw [hr]
      exact hmem
    rw [step_named hne]
    cases call with
    | claim k metadata =>
      have hrefused : (claim cfg k metadata now s).2.accepted = false := by
        rw [Bool.eq_false_iff, ne_eq, accepted_iff]
        have hstate := hkeeps rfl
        rw [show (evictExpired now s).get? (normalizeKey k) = some r from hr]
        exact fun h => hstate (List.mem_singleton.mpr h)
      exact ((view_claim metadata (hroom k metadata rfl)).2.2 hrefused).trans hevict
    | get k => exact hevict
    | _ =>
      refine (view_transition_quiet fun r' hr' => ?_).trans hevict
      cases hr.symm.trans hr'
      exact hkeeps rfl
  · rw [view_step_other hroom hne hk, hevict]

/-- An effect on a stored record comes from its state. -/
theorem Effect.source {sources : List ReplayLifecycleState} {state' : ReplayLifecycleState}
    (h : Effect s (now, call) key state') (htarget : call.target? = some (state', sources))
    (hview : view s key = some (state, expiresAt)) (hnow : now < expiresAt) : state ∈ sources := by
  obtain ⟨-, -, sources', htarget', hsource⟩ := h
  cases htarget.symm.trans htarget'
  obtain ⟨r, hr, heq⟩ := Option.map_eq_some_iff.mp (view_evictExpired hview hnow)
  simp only [hr] at hsource
  rwa [show state = r.state from (congrArg Prod.fst heq).symm]

end Step

/-! ## The capacity -/

section Capacity
variable {cfg : LifecycleConfig} {s : ReplayLifecycle} {now : ℚ}

theorem size_enforceCap (s : ReplayLifecycle) : ((enforceCap cfg s).size : ℤ) ≤ cfg.maxEntries := by
  unfold enforceCap
  split
  · assumption
  rename_i hfull
  have hmax := cfg.max_pos
  have hperm := sortedBy_perm (·.updatedAt) s.rows
  have hkeys : ((sortedBy (·.updatedAt) s.rows).map ReplayLifecycleRecord.key).Nodup :=
    (hperm.map _).nodup_iff.mpr s.nodup
  set oldest := (sortedBy (·.updatedAt) s.rows).take (s.size - cfg.maxEntries).toNat
  have hfold : oldest.foldl (fun s r => s.drop r.key) s =
      (oldest.map ReplayLifecycleRecord.key).foldl Table.drop s := List.foldl_map.symm
  have hnodup : (oldest.map ReplayLifecycleRecord.key).Nodup :=
    ((List.take_sublist _ _).map _).nodup hkeys
  have hstored : ∀ k ∈ oldest.map ReplayLifecycleRecord.key, ∃ r, s.get? k = some r := by
    intro k hk
    obtain ⟨r, hr, rfl⟩ := List.mem_map.mp hk
    exact ⟨r, Table.get?_key (hperm.mem_iff.mp (List.mem_of_mem_take hr))⟩
  have hdropped := Table.size_foldl_drop hnodup hstored
  have hlen : oldest.length = (s.size - cfg.maxEntries).toNat := by
    rw [List.length_take, hperm.length_eq]
    show min _ s.size = _
    omega
  rw [List.length_map, hlen] at hdropped
  rw [hfold]
  omega

theorem size_evictExpired_le (now : ℚ) (s : ReplayLifecycle) :
    (evictExpired now s).size ≤ s.size :=
  Table.size_filterMap_le _ _ _

theorem size_put_stored {key : PyStr} {r r' : ReplayLifecycleRecord} (hr : s.get? key = some r)
    (hkey : r'.key = r.key) : (s.put r').size = s.size := by
  rw [Table.size_put, hkey, Table.key_of_get? hr, hr]
  rfl

theorem size_transition_le (key : PyStr) (state : ReplayLifecycleState) (reason : String)
    (allowed : List ReplayLifecycleState) :
    (transition cfg key state reason now allowed s).size ≤ s.size := by
  have hevict := size_evictExpired_le now s
  unfold transition
  simp only
  split
  · exact hevict
  rename_i r hr
  split
  · refine le_trans (le_of_eq (size_put_stored hr ?_)) hevict
    rfl
  · exact hevict

theorem size_claim (key : PyStr) (metadata : Metadata) (h : (s.size : ℤ) ≤ cfg.maxEntries) :
    ((claim cfg key metadata now s).1.size : ℤ) ≤ cfg.maxEntries := by
  have hevict : ((evictExpired now s).size : ℤ) ≤ cfg.maxEntries :=
    (Int.ofNat_le.mpr (size_evictExpired_le now s)).trans h
  unfold claim
  simp only
  split
  · exact size_enforceCap _
  rename_i r hr
  have hput : ∀ r' : ReplayLifecycleRecord, r'.key = r.key →
      (((evictExpired now s).put r').size : ℤ) ≤ cfg.maxEntries := by
    intro r' hkey
    rw [size_put_stored hr hkey]
    exact hevict
  split <;> exact hput _ rfl

theorem size_step (input : ℚ × Call) (h : (s.size : ℤ) ≤ cfg.maxEntries) :
    ((step cfg s input).1.size : ℤ) ≤ cfg.maxEntries := by
  obtain ⟨now, call⟩ := input
  by_cases hne : normalizeKey call.key = []
  · unfold step
    simp only
    rw [if_pos hne]
    exact h
  · rw [step_named hne]
    cases call with
    | claim k metadata => exact size_claim k metadata h
    | get k => exact (Int.ofNat_le.mpr (size_evictExpired_le now s)).trans h
    | _ => exact (Int.ofNat_le.mpr (size_transition_le _ _ _ _)).trans h

end Capacity

/-! ## Runs -/

section Runs
variable (cfg : LifecycleConfig) (inp : ℕ → ℚ × Call)

/-- The records before the `i`-th call. -/
def recordsAt (i : ℕ) : ReplayLifecycle := run (step cfg) Table.empty inp i

/-- The `i`-th call brings the key's record to the state. -/
def Takes (i : ℕ) (key : PyStr) (state : ReplayLifecycleState) : Prop :=
  Effect (recordsAt cfg inp i) (inp i) key state

def AcceptsClaim (i : ℕ) (key : PyStr) : Prop :=
  ∃ k metadata result, (inp i).2 = .claim k metadata ∧ normalizeKey k = key ∧
    answer (step cfg) Table.empty inp i = .claimed result ∧ result.accepted = true

/-- The keys whose records have not expired. -/
def liveKeys (now : ℚ) (s : ReplayLifecycle) : Finset PyStr :=
  ((evictExpired now s).rows.map ReplayLifecycleRecord.key).toFinset

/-- At a claim there are no more live keys than records, the claimed one included. -/
def FewLiveKeys : Prop :=
  ∀ i key metadata, (inp i).2 = .claim key metadata →
    ((insert (normalizeKey key) (liveKeys (inp i).1 (recordsAt cfg inp i))).card : ℤ) ≤
      cfg.maxEntries

variable {cfg inp} {i j : ℕ} {key : PyStr} {state : ReplayLifecycleState}

theorem findsRoom_of_few (h : FewLiveKeys cfg inp) (i : ℕ) :
    FindsRoom cfg (recordsAt cfg inp i) (inp i) := by
  intro key metadata hcall hnone
  have hfew := h i key metadata hcall
  have hnew : normalizeKey key ∉ liveKeys (inp i).1 (recordsAt cfg inp i) := by
    intro hmem
    obtain ⟨r, hr, hkey⟩ := List.mem_map.mp (List.mem_toFinset.mp hmem)
    exact Table.get?_eq_none_iff.mp hnone r hr hkey
  have hcard : (liveKeys (inp i).1 (recordsAt cfg inp i)).card =
      (evictExpired (inp i).1 (recordsAt cfg inp i)).size := by
    rw [liveKeys, List.toFinset_card_of_nodup (Table.nodup _), List.length_map]
    rfl
  rw [Finset.card_insert_of_notMem hnew, hcard] at hfew
  push_cast at hfew
  omega

theorem AcceptsClaim.takes (h : AcceptsClaim cfg inp i key) : Takes cfg inp i key .claimed := by
  obtain ⟨k, metadata, result, hcall, rfl, hanswer, hacc⟩ := h
  have hstep : answer (step cfg) Table.empty inp i =
      if normalizeKey k = [] then .emptyKey
      else .claimed (claim cfg k metadata (inp i).1 (recordsAt cfg inp i)).2 := by
    rw [answer, step, hcall]
    show (if normalizeKey k = [] then _ else _ : ReplayLifecycle × Answer).2 = _
    split <;> rfl
  rw [hstep] at hanswer
  split at hanswer
  · cases hanswer
  rename_i hne
  cases hanswer
  refine ⟨by rw [hcall]; rfl, hne, [.retryableFailure], by rw [hcall]; rfl, ?_⟩
  have hsource := (accepted_iff metadata _).mp hacc
  split at hsource
  · exact List.mem_singleton.mpr hsource
  · rw [hcall]
    rfl

/-- What took effect last is stored until it expires. -/
theorem Takes.kept (hroom : ∀ i, FindsRoom cfg (recordsAt cfg inp i) (inp i))
    (h : Takes cfg inp i key state) :
    ∀ j, i < j → (∀ m, i < m → m < j → ∀ state', ¬ Takes cfg inp m key state') →
      (∀ m, i < m → m < j → (inp m).1 < (inp i).1 + cfg.ttlSec) →
      view (recordsAt cfg inp j) key = some (state, (inp i).1 + cfg.ttlSec) := by
  intro j hij
  induction j, hij using Nat.le_induction with
  | base =>
    intro _ _
    exact Effect.stored (hroom i) h
  | succ j hij ih =>
    intro hquiet hlive
    have hview := ih (fun m him hmj => hquiet m him (Nat.lt_succ_of_lt hmj))
      fun m him hmj => hlive m him (Nat.lt_succ_of_lt hmj)
    exact view_step_quiet (hroom j) hview (hlive j hij (Nat.lt_succ_self j))
      (hquiet j hij (Nat.lt_succ_self j))

theorem exists_last_takes {m n : ℕ} (hmn : m < n) (h : Takes cfg inp m key state) :
    ∃ l state', m ≤ l ∧ l < n ∧ Takes cfg inp l key state' ∧
      ∀ k, l < k → k < n → ∀ state'', ¬ Takes cfg inp k key state'' := by
  induction n, hmn using Nat.le_induction with
  | base =>
    refine ⟨m, state, le_refl m, Nat.lt_succ_self m, h, fun k hmk hk => ?_⟩
    omega
  | succ n hmn ih =>
    by_cases hn : ∃ state', Takes cfg inp n key state'
    · obtain ⟨state', hn⟩ := hn
      refine ⟨n, state', Nat.le_of_lt hmn, Nat.lt_succ_self n, hn, fun k hnk hk => ?_⟩
      omega
    · obtain ⟨l, state', hml, hln, hl, hlast⟩ := ih
      refine ⟨l, state', hml, Nat.lt_succ_of_lt hln, hl, fun k hlk hk state'' htakes => ?_⟩
      rcases Nat.lt_succ_iff_lt_or_eq.mp hk with hk | rfl
      · exact hlast k hlk hk state'' htakes
      · exact hn ⟨state'', htakes⟩

/-- A second claim within the time to live is accepted behind a release only. -/
theorem released_between (hclock : Monotone fun i => (inp i).1)
    (hroom : ∀ i, FindsRoom cfg (recordsAt cfg inp i) (inp i)) {m : ℕ} (him : i ≤ m) (hmj : m < j)
    (hi : AcceptsClaim cfg inp i key) (hj : AcceptsClaim cfg inp j key)
    (hm : Takes cfg inp m key state) (hsoon : (inp j).1 < (inp m).1 + cfg.ttlSec) :
    ∃ n, i < n ∧ n < j ∧ Takes cfg inp n key .retryableFailure := by
  obtain ⟨l, state', hml, hlj, hl, hlast⟩ := exists_last_takes hmj hm
  have hlive : (inp j).1 < (inp l).1 + cfg.ttlSec := by
    have hle : (inp m).1 ≤ (inp l).1 := hclock hml
    exact hsoon.trans_le (add_le_add_left hle _)
  have hview := hl.kept hroom j hlj hlast fun k _ hkj =>
    lt_of_le_of_lt (hclock hkj.le) hlive
  have htarget : (inp j).2.target? = some (.claimed, [.retryableFailure]) := by
    obtain ⟨k, metadata, -, hcall, -⟩ := hj
    rw [hcall]
    rfl
  have hsource := Effect.source hj.takes htarget hview hlive
  obtain rfl := List.mem_singleton.mp hsource
  refine ⟨l, ?_, hlj, hl⟩
  refine Nat.lt_of_le_of_ne (him.trans hml) ?_
  rintro rfl
  cases hi.takes.unique hl

/-- A delivered or terminally failed record keeps its state until it expires. -/
theorem final_kept (hclock : Monotone fun i => (inp i).1)
    (hroom : ∀ i, FindsRoom cfg (recordsAt cfg inp i) (inp i)) (h : Takes cfg inp i key state)
    (hfinal : state = .delivered ∨ state = .terminalFailure) :
    ∀ j, i < j → (inp j).1 < (inp i).1 + cfg.ttlSec →
      (∀ state', ¬ Takes cfg inp j key state') ∧
        view (recordsAt cfg inp (j + 1)) key = some (state, (inp i).1 + cfg.ttlSec) := by
  have hquiet : ∀ j, i < j → (inp j).1 < (inp i).1 + cfg.ttlSec →
      ∀ state', ¬ Takes cfg inp j key state' := by
    intro j
    induction j using Nat.strong_induction_on with
    | _ j ih =>
      intro hij hlive state' htakes
      have hbefore : ∀ m, m < j → (inp m).1 < (inp i).1 + cfg.ttlSec := fun m hmj =>
        lt_of_le_of_lt (hclock hmj.le) hlive
      have hview := h.kept hroom j hij (fun m him hmj => ih m hmj him (hbefore m hmj))
        fun m _ hmj => hbefore m hmj
      obtain ⟨sources, htarget, -⟩ := htakes.moves
      have hsource := Effect.source htakes htarget hview hlive
      have hopen := Call.sources_open htarget hsource
      rcases hfinal with rfl | rfl
      · exact hopen.1 rfl
      · exact hopen.2 rfl
  intro j hij hlive
  have hbefore : ∀ m, m ≤ j → (inp m).1 < (inp i).1 + cfg.ttlSec := fun m hmj =>
    lt_of_le_of_lt (hclock hmj) hlive
  refine ⟨hquiet j hij hlive, h.kept hroom (j + 1) (Nat.lt_succ_of_lt hij) ?_ ?_⟩
  · exact fun m him hmj => hquiet m him (hbefore m (Nat.le_of_lt_succ hmj))
  · exact fun m _ hmj => hbefore m (Nat.le_of_lt_succ hmj)

theorem size_recordsAt (i : ℕ) : ((recordsAt cfg inp i).size : ℤ) ≤ cfg.maxEntries := by
  induction i with
  | zero => exact (Int.le_of_lt Int.zero_lt_one).trans cfg.max_pos
  | succ i ih => exact size_step (inp i) ih

theorem replay_lifecycle_runs (cfg : LifecycleConfig) {inp : ℕ → ℚ × Call}
    (hclock : Monotone fun i => (inp i).1) :
    (FewLiveKeys cfg inp →
      (∀ i m j key state, i ≤ m → m < j → AcceptsClaim cfg inp i key →
        AcceptsClaim cfg inp j key → Takes cfg inp m key state →
        (inp j).1 < (inp m).1 + cfg.ttlSec →
        ∃ n, i < n ∧ n < j ∧ Takes cfg inp n key .retryableFailure) ∧
      ∀ i j key state, Takes cfg inp i key state →
        state = .delivered ∨ state = .terminalFailure → i < j →
        (inp j).1 < (inp i).1 + cfg.ttlSec →
        (∀ state', ¬ Takes cfg inp j key state') ∧
          view (recordsAt cfg inp (j + 1)) key = some (state, (inp i).1 + cfg.ttlSec)) ∧
    ∀ i, ((recordsAt cfg inp i).size : ℤ) ≤ cfg.maxEntries := by
  refine ⟨fun hfew => ?_, size_recordsAt⟩
  have hroom := findsRoom_of_few hfew
  refine ⟨fun i m j key state him hmj hi hj hm hsoon => ?_,
    fun i j key state h hfinal hij hlive => ?_⟩
  · exact released_between hclock hroom him hmj hi hj hm hsoon
  · exact final_kept hclock hroom h hfinal j hij hlive

def Answer.accepted : Answer → Bool
  | .claimed result => result.accepted
  | _ => false

theorem acceptsClaim_of {k : PyStr} {metadata : Metadata} (hcall : (inp i).2 = .claim k metadata)
    (h : (answer (step cfg) Table.empty inp i).accepted = true) :
    AcceptsClaim cfg inp i (normalizeKey k) := by
  cases hanswer : answer (step cfg) Table.empty inp i with
  | claimed result =>
    rw [hanswer] at h
    exact ⟨k, metadata, result, hcall, rfl, hanswer, h⟩
  | record r =>
    rw [hanswer] at h
    cases h
  | emptyKey =>
    rw [hanswer] at h
    cases h

def demoLifecycle : LifecycleConfig := .of 300 2

/-- A claim, its release and a claim again, a second after one another. -/
def demoRetries : ℕ → ℚ × Call
  | 0 => (0, .claim (PyStr.ofString "k") [])
  | 1 => (1, .releaseRetryable (PyStr.ofString "k ") "busy")
  | 2 => (2, .claim (PyStr.ofString " k") [])
  | _ => (2, .get (PyStr.ofString "k"))

theorem demoRetries_monotone : Monotone fun i => (demoRetries i).1 := by
  refine monotone_nat_of_le_succ fun i => ?_
  match i with
  | 0 => exact zero_le_one
  | 1 => exact one_le_two
  | 2 => exact le_refl _
  | i + 3 => exact le_refl _

theorem demoRetries_few : FewLiveKeys demoLifecycle demoRetries := by
  intro i key metadata hcall
  match i with
  | 0 =>
    cases hcall
    decide +kernel
  | 1 => cases hcall
  | 2 =>
    cases hcall
    decide +kernel
  | i + 3 => cases hcall

theorem replay_lifecycle_retried : ∃ n, 0 < n ∧ n < 2 ∧
    Takes demoLifecycle demoRetries n (normalizeKey (PyStr.ofString "k")) .retryableFailure := by
  have haccepted : (answer (step demoLifecycle) Table.empty demoRetries 0).accepted = true ∧
      (answer (step demoLifecycle) Table.empty demoRetries 2).accepted = true := by
    decide +kernel
  have hkey : normalizeKey (PyStr.ofString " k") = normalizeKey (PyStr.ofString "k") := by
    decide
  have hfirst : AcceptsClaim demoLifecycle demoRetries 0 _ := acceptsClaim_of rfl haccepted.1
  have hsecond : AcceptsClaim demoLifecycle demoRetries 2 _ := acceptsClaim_of rfl haccepted.2
  rw [hkey] at hsecond
  exact ((replay_lifecycle_runs demoLifecycle demoRetries_monotone).1 demoRetries_few).1 0 0 2 _ _
    (le_refl 0) Nat.zero_lt_two hfirst hsecond hfirst.takes
    (by decide +kernel)

end Runs

end ReplayLifecycle

end OpenClaw.Callback
