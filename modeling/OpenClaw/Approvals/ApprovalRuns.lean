import OpenClaw.Approvals.ApprovalService
import OpenClaw.Foundation.Run

/-!
# Runs of the approval service

What one call does to the request under an id, and from it the safety of every run: decisions are
final, a request is approved once and in time, and retention spares what is pending.
-/

namespace OpenClaw.Approvals

open Foundation
set_option autoImplicit false

variable {φ : Type}

/-- What a call can do to the request under an id. -/
inductive Change (dt : Datetime) (env : Env) (id : String) : Call φ →
    Option (ApprovalRequest φ) → Option (ApprovalRequest φ) → Prop where
  | kept (c : Call φ) (r : Option (ApprovalRequest φ)) : Change dt env id c r r
  | expired (c : Call φ) {r : ApprovalRequest φ} : r.isPending = true →
      r.isExpired dt env.now = true →
      Change dt env id c (some r) (some { r with status := .expired })
  | approved {r r' : ApprovalRequest φ} {actor tenantId : Option String} :
      r.isExpired dt env.now = false → r.approve dt env.now actor = .ok r' →
      Change dt env id (.approve id actor tenantId) (some r) (some r')
  | rejected {r r' : ApprovalRequest φ} {actor tenantId : Option String} :
      r.reject dt env.now actor = .ok r' →
      Change dt env id (.reject id actor tenantId) (some r) (some r')
  | executed {r : ApprovalRequest φ} (args : ExecutionArgs) (tenantId : Option String) :
      Change dt env id (.recordExecution id args tenantId) (some r)
        (some { r with metadata := ApprovalService.executed dt env args r.metadata })
  | created {r : ApprovalRequest φ} {args : CreateArgs φ} :
      ApprovalService.newRequest dt env args = .ok r → r.approvalId = id →
      Change dt env id (.create args) none (some r)
  | evicted {r : ApprovalRequest φ} (args : CreateArgs φ) : r.isTerminal = true →
      Change dt env id (.create args) (some r) none

section Store
variable {dt : Datetime} {env : Env} {s : ApprovalStore φ} {id : String}

theorem toRemove_subset (now : ℤ) (rs : List (ApprovalRequest φ)) :
    ∀ left, ∀ i ∈ ApprovalStore.toRemove dt now left rs, ∃ r ∈ rs, r.approvalId = i := by
  induction rs with
  | nil =>
    intro left i hi
    cases hi
  | cons r rs ih =>
    intro left i hi
    have hrest : ∀ left, i ∈ ApprovalStore.toRemove dt now left rs →
        ∃ r' ∈ r :: rs, r'.approvalId = i := by
      intro left hi
      obtain ⟨r', hr', he⟩ := ih left i hi
      exact ⟨r', List.mem_cons_of_mem r hr', he⟩
    rw [ApprovalStore.toRemove] at hi
    split at hi
    · rcases List.mem_cons.mp hi with rfl | hi
      · exact ⟨r, List.mem_cons_self, rfl⟩
      · exact hrest _ hi
    · exact hrest _ hi

/-- The cleanup removes terminal requests only. -/
theorem get?_cleanup (now : ℤ) (s : ApprovalStore φ) (id : String) :
    (s.cleanupOldApprovals dt now).get? id = s.get? id ∨
      (s.cleanupOldApprovals dt now).get? id = none ∧
        ∃ r, s.get? id = some r ∧ r.isTerminal = true := by
  rw [ApprovalStore.cleanupOldApprovals, Table.get?_foldl_drop]
  split
  · rename_i hid
    obtain ⟨r, hr, rfl⟩ := toRemove_subset now _ _ _ hid
    obtain ⟨hmem, hterm⟩ := List.mem_filter.mp hr
    exact .inr ⟨rfl, r, Table.get?_key hmem, hterm⟩
  · exact .inl rfl

theorem get_eq_some {tenantId : Option String} {r : ApprovalRequest φ}
    (h : s.get env id tenantId = some r) : s.get? id = some r ∧ r.approvalId = id := by
  have hget := (Option.filter_eq_some_iff.mp h).1
  exact ⟨hget, Table.key_of_get? hget⟩

theorem update_of_get? {r r' : ApprovalRequest φ} (h : s.get? id = some r)
    (hid : r'.approvalId = id) : s.update env r' = (s.put r', env.saves) := by
  rw [ApprovalStore.update, if_pos]
  rw [hid, h]
  rfl

theorem expireDue_change (now : ℤ) (c : Call φ) (h : env.now = now) :
    Change dt env id c (s.get? id) ((s.expireDue dt now).get? id) := by
  rw [ApprovalStore.expireDue, Table.get?_filterMap]
  cases hr : s.get? id with
  | none => exact .kept c none
  | some r =>
    rw [Option.bind_some, ApprovalStore.expireIfDue]
    split
    · rename_i hdue
      obtain ⟨hp, he⟩ := Bool.and_eq_true_iff.mp hdue
      exact .expired c hp (h ▸ he)
    · exact .kept c _

/-- A request that was changed is stored whether or not the save goes through. -/
theorem commit_fst {r r' : ApprovalRequest φ} (h : s.get? id = some r) (hid : r'.approvalId = id) :
    (ApprovalService.commit env r' s).1 = s.put r' := by
  rw [ApprovalService.commit, update_of_get? h hid]
  cases env.saves <;> rfl

theorem put_change {c : Call φ} {r r' : ApprovalRequest φ} {i : String} (h : s.get? i = some r)
    (hid : r'.approvalId = i) (hc : i = id → Change dt env id c (some r) (some r')) :
    Change dt env id c (s.get? id) ((s.put r').get? id) := by
  rw [Table.get?_put, hid]
  split
  · rename_i he
    rw [← he, h]
    exact he ▸ hc he
  · exact .kept c _

end Store

section Service
variable {dt : Datetime} {env : Env} {s : ApprovalStore φ} {id : String}

theorem approve_id {r r' : ApprovalRequest φ} {now : ℤ} {actor : Option String}
    (h : r.approve dt now actor = .ok r') : r'.approvalId = r.approvalId ∧ r.isPending = true ∧
      r'.status = .approved := by
  unfold ApprovalRequest.approve at h
  split at h
  · cases h
    exact ⟨rfl, by assumption, rfl⟩
  · cases h

theorem reject_id {r r' : ApprovalRequest φ} {now : ℤ} {actor : Option String}
    (h : r.reject dt now actor = .ok r') : r'.approvalId = r.approvalId ∧ r.isPending = true := by
  unfold ApprovalRequest.reject at h
  split at h
  · cases h
    exact ⟨rfl, by assumption⟩
  · cases h

theorem expire_id {r r' : ApprovalRequest φ} (h : r.expire = .ok r') :
    r' = { r with status := .expired } ∧ r.isPending = true := by
  unfold ApprovalRequest.expire at h
  split at h
  · cases h
    exact ⟨rfl, by assumption⟩
  · cases h

theorem approve_change (approvalId : String) (actor tenantId : Option String) :
    Change dt env id (.approve approvalId actor tenantId) (s.get? id)
      ((ApprovalService.approve dt env approvalId actor tenantId s).1.get? id) := by
  unfold ApprovalService.approve
  cases hget : s.get env approvalId tenantId with
  | none => exact .kept _ _
  | some r =>
    obtain ⟨hr, hid⟩ := get_eq_some hget
    simp only
    split
    · rename_i hdue
      cases hexp : r.expire with
      | error e => exact .kept _ _
      | ok r' =>
        obtain ⟨he, hp⟩ := expire_id hexp
        have hid' : r'.approvalId = approvalId := by rw [he, hid]
        simp only [update_of_get? hr hid']
        apply put_change hr hid'
        intro _
        rw [he]
        exact .expired _ hp hdue
    · rename_i hexp
      cases happ : r.approve dt env.now actor with
      | error e => exact .kept _ _
      | ok r' =>
        have hid' := (approve_id happ).1.trans hid
        simp only [commit_fst hr hid']
        apply put_change hr hid'
        rintro rfl
        exact .approved (Bool.not_eq_true _ ▸ hexp) happ

theorem reject_change (approvalId : String) (actor tenantId : Option String) :
    Change dt env id (.reject approvalId actor tenantId) (s.get? id)
      ((ApprovalService.reject dt env approvalId actor tenantId s).1.get? id) := by
  unfold ApprovalService.reject
  cases hget : s.get env approvalId tenantId with
  | none => exact .kept _ _
  | some r =>
    obtain ⟨hr, hid⟩ := get_eq_some hget
    cases hrej : r.reject dt env.now actor with
    | error e => simpa only [hrej] using Change.kept _ _
    | ok r' =>
      have hid' := (reject_id hrej).1.trans hid
      simp only [hrej, commit_fst hr hid']
      apply put_change hr hid'
      rintro rfl
      exact .rejected hrej

theorem recordExecution_change (approvalId : String) (args : ExecutionArgs)
    (tenantId : Option String) :
    Change dt env id (.recordExecution approvalId args tenantId) (s.get? id)
      ((ApprovalService.recordExecution dt env approvalId args tenantId s).1.get? id) := by
  unfold ApprovalService.recordExecution
  cases hget : s.get env approvalId tenantId with
  | none => exact .kept _ _
  | some r =>
    obtain ⟨hr, hid⟩ := get_eq_some hget
    have hid' : ({ r with metadata := ApprovalService.executed dt env args r.metadata } :
        ApprovalRequest φ).approvalId = approvalId := hid
    simp only [commit_fst hr hid']
    apply put_change hr hid'
    rintro rfl
    exact .executed args tenantId

/-- The store that `add` puts a new request into, cleaned up where it was full. -/
def madeRoom (dt : Datetime) (env : Env) (s : ApprovalStore φ) : ApprovalStore φ :=
  if maxApprovals ≤ s.size then s.cleanupOldApprovals dt env.now else s

theorem add_cases (dt : Datetime) (env : Env) (s : ApprovalStore φ) (r : ApprovalRequest φ) :
    (s.get? r.approvalId).isSome = true ∧ s.add dt env r = (s, false) ∨
    s.get? r.approvalId = none ∧ (
      maxApprovals ≤ (madeRoom dt env s).size ∧ s.add dt env r = (madeRoom dt env s, false) ∨
      (madeRoom dt env s).size < maxApprovals ∧
        s.add dt env r = ((madeRoom dt env s).put r, env.saves)) := by
  by_cases hid : (s.get? r.approvalId).isSome = true
  · exact .inl ⟨hid, by rw [ApprovalStore.add, if_pos hid]⟩
  · refine .inr ⟨Option.not_isSome_iff_eq_none.mp hid, ?_⟩
    have hadd : s.add dt env r = if maxApprovals ≤ (madeRoom dt env s).size
        then (madeRoom dt env s, false) else ((madeRoom dt env s).put r, env.saves) := by
      rw [ApprovalStore.add, if_neg hid]
      rfl
    by_cases hfull : maxApprovals ≤ (madeRoom dt env s).size
    · exact .inl ⟨hfull, by rw [hadd, if_pos hfull]⟩
    · exact .inr ⟨by omega, by rw [hadd, if_neg hfull]⟩

theorem size_madeRoom_le (dt : Datetime) (env : Env) (s : ApprovalStore φ) :
    (madeRoom dt env s).size ≤ s.size := by
  unfold madeRoom
  split
  · exact Table.size_foldl_drop_le _ _
  · exact Nat.le_refl _

theorem validate_ok {r r' : ApprovalRequest φ} (h : r.validate = .ok r') :
    ∃ tenantId, r' = { r with tenantId } := by
  unfold ApprovalRequest.validate at h
  split at h
  · cases h
  split at h
  · cases h
  · cases ht : normalizeTenantId r.tenantId "tenant_id" with
    | error e =>
      rw [ht] at h
      cases h
    | ok tenantId =>
      rw [ht] at h
      cases h
      exact ⟨tenantId, rfl⟩

theorem newRequest_ok {args : CreateArgs φ} {r : ApprovalRequest φ}
    (h : ApprovalService.newRequest dt env args = .ok r) :
    r.approvalId = ApprovalService.generateId env ∧ r.status = .pending := by
  unfold ApprovalService.newRequest at h
  simp only [bind, Except.bind] at h
  split at h
  · cases h
  split at h
  · cases h
  · obtain ⟨tenantId, rfl⟩ := validate_ok h
    exact ⟨rfl, rfl⟩

theorem createRequest_fst (args : CreateArgs φ) {r : ApprovalRequest φ}
    (h : ApprovalService.newRequest dt env args = .ok r) :
    (ApprovalService.createRequest dt env args s).1 = (s.add dt env r).1 := by
  unfold ApprovalService.createRequest
  rw [h]
  simp only
  split <;> rename_i hadd <;> rw [hadd]

theorem createRequest_change (args : CreateArgs φ) :
    Change dt env id (.create args) (s.get? id)
      ((ApprovalService.createRequest dt env args s).1.get? id) := by
  cases hnew : ApprovalService.newRequest dt env args with
  | error e =>
    unfold ApprovalService.createRequest
    simpa only [hnew] using Change.kept _ _
  | ok r =>
    rw [createRequest_fst args hnew]
    have hroom : Change dt env id (.create args) (s.get? id) ((madeRoom dt env s).get? id) := by
      unfold madeRoom
      split
      · rcases get?_cleanup env.now s id with he | ⟨hn, old, hold, hterm⟩
        · rw [he]
          exact .kept _ _
        · rw [hn, hold]
          exact .evicted args hterm
      · exact .kept _ _
    rcases add_cases dt env s r with ⟨_, hadd⟩ | ⟨hnone, ⟨_, hadd⟩ | ⟨_, hadd⟩⟩
    · rw [hadd]
      exact .kept _ _
    · rw [hadd]
      exact hroom
    · rw [hadd, Table.get?_put]
      split
      · rename_i hid
        have hs : s.get? id = none := hid ▸ hnone
        rw [hs]
        exact .created hnew hid
      · exact hroom

/-- What a call does to the request under an id. -/
theorem serve_change (dt : Datetime) (s : ApprovalStore φ) (env : Env) (c : Call φ)
    (id : String) : Change dt env id c (s.get? id) ((serve dt s (env, c)).1.get? id) := by
  cases c with
  | create args => exact createRequest_change args
  | get approvalId tenantId => exact .kept _ _
  | listPending limit tenantId => exact expireDue_change env.now _ rfl
  | listAll status limit offset tenantId => exact expireDue_change env.now _ rfl
  | approve approvalId actor tenantId => exact approve_change approvalId actor tenantId
  | reject approvalId actor tenantId => exact reject_change approvalId actor tenantId
  | recordExecution approvalId args tenantId => exact recordExecution_change approvalId args tenantId
  | expireDue => exact expireDue_change env.now _ rfl
  | countPending tenantId => exact expireDue_change env.now _ rfl

/-- An approval was of a pending request that had not expired, and it is on record. -/
theorem approve_ok {approvalId : String} {actor tenantId : Option String} {a : Answer φ}
    (h : (ApprovalService.approve dt env approvalId actor tenantId s).2 = .ok a) :
    ∃ r r', s.get? approvalId = some r ∧ r.isPending = true ∧ r.isExpired dt env.now = false ∧
      (ApprovalService.approve dt env approvalId actor tenantId s).1.get? approvalId = some r' ∧
      r'.status = .approved := by
  unfold ApprovalService.approve at h ⊢
  cases hget : s.get env approvalId tenantId with
  | none =>
    rw [hget] at h
    cases h
  | some r =>
    obtain ⟨hr, hid⟩ := get_eq_some hget
    rw [hget] at h
    simp only at h ⊢
    split at h
    · cases hexp : r.expire <;> rw [hexp] at h <;> cases h
    · rename_i hexp
      cases happ : r.approve dt env.now actor with
      | error e =>
        rw [happ] at h
        cases h
      | ok r' =>
        obtain ⟨hid', hp, hst⟩ := approve_id happ
        refine ⟨r, r', hr, hp, Bool.not_eq_true _ ▸ hexp, ?_, hst⟩
        rw [if_neg hexp]
        simp only [commit_fst hr (hid'.trans hid)]
        rw [Table.get?_put, if_pos (hid'.trans hid)]

/-! ## The number of requests -/

theorem size_add_le (s : ApprovalStore φ) (r : ApprovalRequest φ) (h : s.size ≤ maxApprovals) :
    (s.add dt env r).1.size ≤ maxApprovals := by
  have hroom : (madeRoom dt env s).size ≤ s.size := size_madeRoom_le dt env s
  rcases add_cases dt env s r with ⟨_, hadd⟩ | ⟨_, ⟨_, hadd⟩ | ⟨hlt, hadd⟩⟩
  · rwa [hadd]
  · rw [hadd]
    exact hroom.trans h
  · rw [hadd, Table.size_put]
    split <;> omega

/-- An accepted request leaves room for itself, however full the store was. -/
theorem size_add_ok {s : ApprovalStore φ} {r : ApprovalRequest φ}
    (h : (s.add dt env r).2 = true) : (s.add dt env r).1.size ≤ maxApprovals := by
  rcases add_cases dt env s r with ⟨_, hadd⟩ | ⟨_, ⟨_, hadd⟩ | ⟨hlt, hadd⟩⟩
  · rw [hadd] at h
    cases h
  · rw [hadd] at h
    cases h
  · rw [hadd, Table.size_put]
    split <;> omega

theorem size_put_of_get? {r r' : ApprovalRequest φ} (h : s.get? id = some r)
    (hid : r'.approvalId = id) : (s.put r').size = s.size := by
  rw [Table.size_put, if_pos]
  rw [hid, h]
  rfl

theorem size_serve_le (s : ApprovalStore φ) (env : Env) (c : Call φ) (h : s.size ≤ maxApprovals) :
    (serve dt s (env, c)).1.size ≤ maxApprovals := by
  have hexpire : (s.expireDue dt env.now).size ≤ maxApprovals :=
    (Table.size_filterMap_le _ _ _).trans h
  cases c with
  | create args =>
    cases hnew : ApprovalService.newRequest dt env args with
    | error e =>
      have hsame : (serve dt s (env, .create args)).1 = s := by
        simp only [serve, ApprovalService.createRequest, hnew]
      rwa [hsame]
    | ok r =>
      have hadd : (serve dt s (env, .create args)).1 = (s.add dt env r).1 :=
        createRequest_fst args hnew
      rw [hadd]
      exact size_add_le s r h
  | get approvalId tenantId => exact h
  | listPending limit tenantId => exact hexpire
  | listAll status limit offset tenantId => exact hexpire
  | approve approvalId actor tenantId =>
    simp only [serve, ApprovalService.approve]
    cases hget : s.get env approvalId tenantId with
    | none => exact h
    | some r =>
      obtain ⟨hr, hid⟩ := get_eq_some hget
      simp only
      split
      · cases hexp : r.expire with
        | error e => exact h
        | ok r' =>
          have hid' : r'.approvalId = approvalId := by rw [(expire_id hexp).1, hid]
          simp only [update_of_get? hr hid']
          rwa [size_put_of_get? hr hid']
      · cases happ : r.approve dt env.now actor with
        | error e => exact h
        | ok r' =>
          have hid' := (approve_id happ).1.trans hid
          simp only [commit_fst hr hid']
          rwa [size_put_of_get? hr hid']
  | reject approvalId actor tenantId =>
    simp only [serve, ApprovalService.reject]
    cases hget : s.get env approvalId tenantId with
    | none => exact h
    | some r =>
      obtain ⟨hr, hid⟩ := get_eq_some hget
      cases hrej : r.reject dt env.now actor with
      | error e => simpa only [hrej] using h
      | ok r' =>
        have hid' := (reject_id hrej).1.trans hid
        simp only [hrej, commit_fst hr hid']
        rwa [size_put_of_get? hr hid']
  | recordExecution approvalId args tenantId =>
    simp only [serve, ApprovalService.recordExecution]
    cases hget : s.get env approvalId tenantId with
    | none => exact h
    | some r =>
      obtain ⟨hr, hid⟩ := get_eq_some hget
      have hid' : ({ r with metadata := ApprovalService.executed dt env args r.metadata } :
          ApprovalRequest φ).approvalId = approvalId := hid
      simp only [commit_fst hr hid']
      rwa [size_put_of_get? hr hid']
  | expireDue => exact hexpire
  | countPending tenantId => exact hexpire

end Service

/-! ## Runs -/

/-- The call creates a request under the id. -/
def Creates (input : Env × Call φ) (id : String) : Prop :=
  ∃ args, input.2 = .create args ∧ ApprovalService.generateId input.1 = id

section Runs
variable (dt : Datetime) (s : ApprovalStore φ) (inp : ℕ → Env × Call φ)

/-- The store before the `k`-th call. -/
abbrev storeAt (k : ℕ) : ApprovalStore φ := run (serve dt) s inp k

/-- The `k`-th call approves the request. -/
def Approves (k : ℕ) (id : String) : Prop :=
  ∃ actor tenantId a, (inp k).2 = .approve id actor tenantId ∧
    answer (serve dt) s inp k = .ok a

/-- The rules of the approval states over a whole run. -/
structure Settled : Prop where
  /-- A terminal status stays until the request is evicted and its id is drawn again. -/
  terminal : ∀ i j id r r', i ≤ j → (storeAt dt s inp i).get? id = some r → r.isTerminal = true →
    (∀ k, i ≤ k → k < j → ¬ Creates (inp k) id) → (storeAt dt s inp j).get? id = some r' →
    r'.status = r.status
  approvedOnce : ∀ i j id, i < j → Approves dt s inp i id → Approves dt s inp j id →
    ∃ k, i < k ∧ k < j ∧ Creates (inp k) id
  approvedInTime : ∀ k id, Approves dt s inp k id → ∃ r, (storeAt dt s inp k).get? id = some r ∧
    r.status = .pending ∧ ∀ text ∈ r.expiresAt, ∀ t ∈ dt.read text, (inp k).1.now < t
  pendingKept : ∀ k id r, (storeAt dt s inp k).get? id = some r → r.status = .pending →
    ((storeAt dt s inp (k + 1)).get? id).isSome = true
  /-- A store that was within the limit stays so, and so is every store that took a request. -/
  bounded : s.size ≤ maxApprovals → ∀ k, (storeAt dt s inp k).size ≤ maxApprovals
  added : ∀ k args a, (inp k).2 = .create args → answer (serve dt) s inp k = .ok a →
    (storeAt dt s inp (k + 1)).size ≤ maxApprovals

variable {dt s inp}

theorem terminal_ne_pending {r : ApprovalRequest φ} (h : r.isTerminal = true) :
    r.isPending = false := by
  unfold ApprovalRequest.isTerminal ApprovalStatus.terminal at h
  unfold ApprovalRequest.isPending
  cases hs : r.status <;> rw [hs] at h <;> first | rfl | cases h

/-- One call on a terminal request. -/
theorem change_terminal {env : Env} {id : String} {c : Call φ} {r : ApprovalRequest φ}
    {after : Option (ApprovalRequest φ)} (h : Change dt env id c (some r) after)
    (hr : r.isTerminal = true) : ∀ r' ∈ after, r'.status = r.status := by
  have hp := terminal_ne_pending hr
  intro r' hr'
  cases h with
  | kept => rw [Option.some.inj hr']
  | expired _ hpend =>
    rw [hp] at hpend
    cases hpend
  | approved _ happ =>
    rw [(approve_id happ).2.1] at hp
    cases hp
  | rejected hrej =>
    rw [(reject_id hrej).2] at hp
    cases hp
  | executed =>
    cases hr'
    rfl
  | evicted => cases hr'

theorem change_evicted {env : Env} {id : String} {c : Call φ} {r : ApprovalRequest φ}
    (h : Change dt env id c (some r) none) : r.isTerminal = true := by
  cases h with
  | evicted _ hterm => exact hterm

/-- Only a call that draws the id stores something under it. -/
theorem change_none {env : Env} {id : String} {c : Call φ} {after : Option (ApprovalRequest φ)}
    (h : Change dt env id c none after) (hc : ¬ Creates (env, c) id) : after = none := by
  cases h with
  | kept => rfl
  | @created r args hnew hid =>
    exact absurd ⟨args, rfl, (newRequest_ok hnew).1.symm.trans hid⟩ hc

theorem terminal_run {i j : ℕ} {id : String} {r : ApprovalRequest φ} (hij : i ≤ j)
    (hi : (storeAt dt s inp i).get? id = some r) (hr : r.isTerminal = true)
    (hno : ∀ k, i ≤ k → k < j → ¬ Creates (inp k) id) :
    ∀ r' ∈ (storeAt dt s inp j).get? id, r'.status = r.status := by
  induction j, hij using Nat.le_induction with
  | base =>
    intro r' hr'
    rw [hi] at hr'
    rw [Option.some.inj hr']
  | succ j hij ih =>
    have hprev := ih fun k hk hkj => hno k hk (by omega)
    have hstep := serve_change dt (storeAt dt s inp j) (inp j).1 (inp j).2 id
    intro r' hr'
    cases hj : (storeAt dt s inp j).get? id with
    | none =>
      rw [hj] at hstep
      have hnone := change_none hstep (hno j hij (by omega))
      rw [storeAt, run_succ, hnone] at hr'
      cases hr'
    | some q =>
      have hq := hprev q hj
      have hqt : q.isTerminal = true := by rw [ApprovalRequest.isTerminal, hq]; exact hr
      rw [hj] at hstep
      rw [change_terminal hstep hqt r' hr', hq]

theorem approve_facts {k : ℕ} {id : String} (h : Approves dt s inp k id) :
    ∃ r r', (storeAt dt s inp k).get? id = some r ∧ r.isPending = true ∧
      r.isExpired dt (inp k).1.now = false ∧ (storeAt dt s inp (k + 1)).get? id = some r' ∧
      r'.status = .approved := by
  obtain ⟨actor, tenantId, a, hc, ha⟩ := h
  have hserve : serve dt (storeAt dt s inp k) (inp k) =
      ApprovalService.approve dt (inp k).1 id actor tenantId (storeAt dt s inp k) := by
    unfold serve
    simp only [hc]
  rw [answer, hserve] at ha
  obtain ⟨r, r', hr, hp, hexp, hr', hst⟩ := approve_ok ha
  refine ⟨r, r', hr, hp, hexp, ?_, hst⟩
  rw [storeAt, run_succ, hserve]
  exact hr'

theorem isExpired_eq_false {r : ApprovalRequest φ} {now : ℤ} (h : r.isExpired dt now = false) :
    ∀ text ∈ r.expiresAt, ∀ t ∈ dt.read text, now < t := by
  intro text htext t ht
  have hne : text ≠ "" := by
    rintro rfl
    rw [dt.read_empty] at ht
    cases ht
  rw [Option.mem_def] at htext ht
  simpa [ApprovalRequest.isExpired, htext, ht, hne] using h

/-- The approval workflow keeps its rules in every run. -/
theorem approvals_settled (dt : Datetime) (s : ApprovalStore φ) (inp : ℕ → Env × Call φ) :
    Settled dt s inp where
  terminal i j id r r' hij hi hr hno hj := terminal_run hij hi hr hno r' hj
  approvedOnce i j id hij hi hj := by
    by_contra hno
    obtain ⟨_, r, _, _, _, hr, hst⟩ := approve_facts hi
    obtain ⟨q, _, hq, hpend, _⟩ := approve_facts hj
    have hterm : r.isTerminal = true := by
      rw [ApprovalRequest.isTerminal, hst]
      rfl
    have hsame := terminal_run hij hr hterm (fun k hk hkj hc => hno ⟨k, hk, hkj, hc⟩) q hq
    rw [ApprovalRequest.isPending, hsame, hst] at hpend
    cases hpend
  approvedInTime k id h := by
    obtain ⟨r, _, hr, hp, hexp, _⟩ := approve_facts h
    exact ⟨r, hr, of_decide_eq_true hp, isExpired_eq_false hexp⟩
  pendingKept k id r hr hp := by
    have hstep := serve_change dt (storeAt dt s inp k) (inp k).1 (inp k).2 id
    rw [hr] at hstep
    cases hafter : (storeAt dt s inp (k + 1)).get? id with
    | some r' => rfl
    | none =>
      rw [storeAt, run_succ] at hafter
      rw [hafter] at hstep
      have hpend := terminal_ne_pending (change_evicted hstep)
      rw [ApprovalRequest.isPending, hp] at hpend
      cases hpend
  bounded h k := by
    induction k with
    | zero => exact h
    | succ k ih => exact size_serve_le _ _ _ ih
  added k args a hc ha := by
    have hserve : serve dt (storeAt dt s inp k) (inp k) =
        ApprovalService.createRequest dt (inp k).1 args (storeAt dt s inp k) := by
      unfold serve
      simp only [hc]
    rw [answer, hserve] at ha
    rw [storeAt, run_succ, hserve]
    cases hnew : ApprovalService.newRequest dt (inp k).1 args with
    | error e =>
      unfold ApprovalService.createRequest at ha
      rw [hnew] at ha
      cases ha
    | ok r =>
      rw [createRequest_fst args hnew]
      apply size_add_ok
      unfold ApprovalService.createRequest at ha
      rw [hnew] at ha
      simp only at ha
      split at ha
      · rename_i hadd
        rw [hadd]
      · cases ha

end Runs

end OpenClaw.Approvals
