import OpenClaw.Approvals.ApprovalRuns
import OpenClaw.Foundation.JsonRoundTrip

/-!
# Approvals whose save fails

The service changes the stored objects before it saves, and a save that fails changes nothing
back. So a call whose save fails leaves everything as it was only if it is turned away before it
gets to the save.
-/

namespace OpenClaw.Approvals

open Foundation
set_option autoImplicit false

variable {φ : Type}

/-- The calls that decide about a request. -/
inductive Decision (φ : Type) where
  | create (args : CreateArgs φ)
  | approve (approvalId : String) (actor tenantId : Option String)
  | reject (approvalId : String) (actor tenantId : Option String)

def Decision.call : Decision φ → Call φ
  | create args => .create args
  | approve approvalId actor tenantId => .approve approvalId actor tenantId
  | reject approvalId actor tenantId => .reject approvalId actor tenantId

section Atomic
variable (dt : Datetime) (s : ApprovalStore φ) (env : Env)

/-- The call raises, and no later run of calls can tell that it was made. -/
def Atomic (d : Decision φ) : Prop :=
  (∃ e, (serve dt s (env, d.call)).2 = .error e) ∧
    ∀ (inp : ℕ → Env × Call φ) (k : ℕ),
      answer (serve dt) (serve dt s (env, d.call)).1 inp k = answer (serve dt) s inp k

/-- The call does not get as far as the save. -/
def TurnedAway : Decision φ → Prop
  | .create args => ∀ r, ApprovalService.newRequest dt env args = .ok r →
      (s.get? r.approvalId).isSome = true ∨
      maxApprovals ≤ s.size ∧ ∀ old ∈ s.rows, old.isTerminal = true → dt.read old.requestedAt = none
  | .approve approvalId _ tenantId | .reject approvalId _ tenantId =>
    ∀ r, s.get env approvalId tenantId = some r → r.status ≠ .pending

variable {dt s env}

theorem atomic_of_same {d : Decision φ} (h : ∃ e, serve dt s (env, d.call) = (s, .error e)) :
    Atomic dt s env d := by
  obtain ⟨e, he⟩ := h
  refine ⟨⟨e, by rw [he]⟩, ?_⟩
  intro inp k
  rw [he]

/-- A reader that looks the request up sees a change of it. -/
theorem not_atomic_of_seen {d : Decision φ} {approvalId : String} {tenantId : Option String}
    (h : (serve dt s (env, d.call)).1.get env approvalId tenantId ≠ s.get env approvalId tenantId) :
    ¬ Atomic dt s env d := by
  rintro ⟨_, hlater⟩
  have hget := hlater (fun _ => (env, .get approvalId tenantId)) 0
  simp only [answer, run_zero, serve, Except.ok.injEq, Answer.found.injEq] at hget
  exact h hget

theorem not_atomic_of_change {d : Decision φ} (id : String)
    (h : (serve dt s (env, d.call)).1.get? id ≠ s.get? id) : ¬ Atomic dt s env d := by
  have hall : ∀ t : ApprovalStore φ, t.get env id none = t.get? id := by
    intro t
    unfold ApprovalStore.get
    cases t.get? id <;> rfl
  apply not_atomic_of_seen
  rw [hall, hall]
  exact h

/-! ## Approving and rejecting -/

theorem expire_of_not_pending {r : ApprovalRequest φ} (h : r.status ≠ .pending) :
    r.expire = .error (r.cannot "expire") := by
  rw [ApprovalRequest.expire, ApprovalRequest.isPending, if_neg (by simpa using h)]

theorem approve_of_not_pending {r : ApprovalRequest φ} {now : ℤ} {actor : Option String}
    (h : r.status ≠ .pending) : r.approve dt now actor = .error (r.cannot "approve") := by
  rw [ApprovalRequest.approve, ApprovalRequest.isPending, if_neg (by simpa using h)]

theorem reject_of_not_pending {r : ApprovalRequest φ} {now : ℤ} {actor : Option String}
    (h : r.status ≠ .pending) : r.reject dt now actor = .error (r.cannot "reject") := by
  rw [ApprovalRequest.reject, ApprovalRequest.isPending, if_neg (by simpa using h)]

theorem approve_turned_away {approvalId : String} {actor tenantId : Option String}
    (h : TurnedAway dt s env (.approve approvalId actor tenantId)) :
    ∃ e, serve dt s (env, .approve approvalId actor tenantId) = (s, .error e) := by
  simp only [serve, ApprovalService.approve]
  cases hget : s.get env approvalId tenantId with
  | none => exact ⟨_, rfl⟩
  | some r =>
    have hr := h r hget
    simp only
    split
    · rw [expire_of_not_pending hr]
      exact ⟨_, rfl⟩
    · rw [approve_of_not_pending hr]
      exact ⟨_, rfl⟩

theorem reject_turned_away {approvalId : String} {actor tenantId : Option String}
    (h : TurnedAway dt s env (.reject approvalId actor tenantId)) :
    ∃ e, serve dt s (env, .reject approvalId actor tenantId) = (s, .error e) := by
  simp only [serve, ApprovalService.reject]
  cases hget : s.get env approvalId tenantId with
  | none => exact ⟨_, rfl⟩
  | some r =>
    simp only [reject_of_not_pending (h r hget)]
    exact ⟨_, rfl⟩

/-- A pending request that is approved or found expired is no longer pending. -/
theorem approve_changes {approvalId : String} {actor tenantId : Option String}
    {r : ApprovalRequest φ} (hget : s.get env approvalId tenantId = some r)
    (hp : r.status = .pending) :
    ∃ r', (serve dt s (env, .approve approvalId actor tenantId)).1.get? approvalId = some r' ∧
      r'.status ≠ .pending := by
  obtain ⟨hr, hid⟩ := get_eq_some hget
  have hpend : r.isPending = true := decide_eq_true hp
  simp only [serve, ApprovalService.approve, hget]
  split
  · have hexp : r.expire = .ok { r with status := .expired } := by
      rw [ApprovalRequest.expire, if_pos hpend]
    have hid' : ({ r with status := .expired } : ApprovalRequest φ).approvalId = approvalId := hid
    simp only [hexp, update_of_get? hr hid']
    refine ⟨_, by rw [Table.get?_put, if_pos hid'], ?_⟩
    simp
  · cases happ : r.approve dt env.now actor with
    | error e =>
      rw [ApprovalRequest.approve, if_pos hpend] at happ
      cases happ
    | ok r' =>
      obtain ⟨hid', _, hst⟩ := approve_id happ
      simp only [commit_fst hr (hid'.trans hid)]
      refine ⟨r', by rw [Table.get?_put, if_pos (hid'.trans hid)], ?_⟩
      simp [hst]

theorem reject_changes {approvalId : String} {actor tenantId : Option String}
    {r : ApprovalRequest φ} (hget : s.get env approvalId tenantId = some r)
    (hp : r.status = .pending) :
    ∃ r', (serve dt s (env, .reject approvalId actor tenantId)).1.get? approvalId = some r' ∧
      r'.status ≠ .pending := by
  obtain ⟨hr, hid⟩ := get_eq_some hget
  have hrej : r.reject dt env.now actor = .ok { r with
      status := .rejected, rejectedAt := some (dt.isoformat env.now), decisionBy := actor } := by
    have hpend : r.isPending = true := decide_eq_true hp
    rw [ApprovalRequest.reject, if_pos hpend]
  have hid' := (reject_id hrej).1.trans hid
  simp only [serve, ApprovalService.reject, hget, hrej, commit_fst hr hid']
  refine ⟨_, by rw [Table.get?_put, if_pos hid'], ?_⟩
  simp

theorem not_atomic_of_status {d : Decision φ} {approvalId : String} {tenantId : Option String}
    {r : ApprovalRequest φ} (hget : s.get env approvalId tenantId = some r)
    (hp : r.status = .pending)
    (h : ∃ r', (serve dt s (env, d.call)).1.get? approvalId = some r' ∧ r'.status ≠ .pending) :
    ¬ Atomic dt s env d := by
  obtain ⟨r', hr', hst⟩ := h
  apply not_atomic_of_change approvalId
  rw [hr', (get_eq_some hget).1]
  intro he
  rw [Option.some.inj he] at hst
  exact hst hp

/-! ## Creating -/

/-- A full store with an old terminal request that can be read loses one to the cleanup. -/
theorem toRemove_ne_nil {now : ℤ} {left : ℕ} {rs : List (ApprovalRequest φ)}
    (hfull : maxApprovals ≤ left) {r : ApprovalRequest φ} (hr : r ∈ rs)
    (hread : dt.read r.requestedAt ≠ none) : ApprovalStore.toRemove dt now left rs ≠ [] := by
  induction rs with
  | nil => cases hr
  | cons q rs ih =>
    rw [ApprovalStore.toRemove]
    split
    · simp
    · rename_i hq
      rcases List.mem_cons.mp hr with rfl | hr
      · obtain ⟨t, ht⟩ := Option.ne_none_iff_exists'.mp hread
        have hroom : maxApprovals ≤ left + 100 := by omega
        simp [ApprovalStore.outdated, ht, hroom] at hq
      · exact ih hr

theorem toRemove_eq_nil {now : ℤ} {rs : List (ApprovalRequest φ)}
    (h : ∀ r ∈ rs, dt.read r.requestedAt = none) :
    ∀ left, ApprovalStore.toRemove dt now left rs = [] := by
  induction rs with
  | nil => exact fun _ => rfl
  | cons r rs ih =>
    intro left
    rw [ApprovalStore.toRemove, ApprovalStore.outdated, h r List.mem_cons_self]
    exact ih (fun q hq => h q (List.mem_cons_of_mem r hq)) left

theorem create_turned_away {args : CreateArgs φ} (h : TurnedAway dt s env (.create args)) :
    ∃ e, serve dt s (env, .create args) = (s, .error e) := by
  simp only [serve, ApprovalService.createRequest]
  cases hnew : ApprovalService.newRequest dt env args with
  | error e => exact ⟨_, rfl⟩
  | ok r =>
    have hadd : s.add dt env r = (s, false) := by
      rcases h r hnew with hid | ⟨hfull, hold⟩
      · rw [ApprovalStore.add, if_pos hid]
      · have hclean : s.cleanupOldApprovals dt env.now = s := by
          rw [ApprovalStore.cleanupOldApprovals, toRemove_eq_nil, List.foldl_nil]
          intro q hq
          obtain ⟨hmem, hterm⟩ := List.mem_filter.mp hq
          exact hold q hmem hterm
        rw [ApprovalStore.add]
        split
        · rfl
        · simp only [hfull, if_true, hclean]
    simp only [hadd]
    exact ⟨_, rfl⟩

/-- A request that gets past the checks of `add`, or the cleanup before it, leaves a trace. -/
theorem create_changes {args : CreateArgs φ} (h : ¬ TurnedAway dt s env (.create args)) :
    ∃ id, (serve dt s (env, .create args)).1.get? id ≠ s.get? id := by
  simp only [TurnedAway, not_forall, not_or] at h
  obtain ⟨r, hnew, hid, hold⟩ := h
  have hserve : (serve dt s (env, .create args)).1 = (s.add dt env r).1 :=
    createRequest_fst args hnew
  rw [hserve]
  rcases add_cases dt env s r with ⟨hsome, _⟩ | ⟨hnone, ⟨hfull, hadd⟩ | ⟨_, hadd⟩⟩
  · exact absurd hsome hid
  · have hsize : maxApprovals ≤ s.size := hfull.trans (size_madeRoom_le dt env s)
    simp only [hsize, true_and, not_forall] at hold
    obtain ⟨old, hmem, hterm, hread⟩ := hold
    have hne : ApprovalStore.toRemove dt env.now s.size (s.rows.filter (·.isTerminal)) ≠ [] :=
      toRemove_ne_nil hsize (List.mem_filter.mpr ⟨hmem, hterm⟩) hread
    obtain ⟨id, hid⟩ := List.exists_mem_of_ne_nil _ hne
    refine ⟨id, ?_⟩
    obtain ⟨q, hq, rfl⟩ := toRemove_subset _ _ _ _ hid
    rw [hadd, madeRoom, if_pos hsize, ApprovalStore.cleanupOldApprovals, Table.get?_foldl_drop,
      if_pos hid, Table.get?_key (List.mem_filter.mp hq).1]
    simp
  · refine ⟨r.approvalId, ?_⟩
    rw [hadd, Table.get?_put, if_pos rfl, hnone]
    simp

/-! ## Both directions -/

theorem commit_raises {r : ApprovalRequest φ} (hsave : env.saves = false) :
    ∃ e, (ApprovalService.commit env r s).2 = .error e := by
  unfold ApprovalService.commit ApprovalStore.update
  rw [hsave]
  split
  · rename_i h
    split at h <;> cases h
  · exact ⟨_, rfl⟩

theorem failed_save_raises (d : Decision φ) (hsave : env.saves = false) :
    ∃ e, (serve dt s (env, d.call)).2 = .error e := by
  cases d with
  | create args =>
    simp only [Decision.call, serve, ApprovalService.createRequest]
    cases hnew : ApprovalService.newRequest dt env args with
    | error e => exact ⟨e, rfl⟩
    | ok r =>
      have hadd : (s.add dt env r).2 = false := by
        rcases add_cases dt env s r with ⟨_, h⟩ | ⟨_, ⟨_, h⟩ | ⟨_, h⟩⟩ <;> rw [h]
        exact hsave
      simp only
      split
      · rename_i h
        rw [h] at hadd
        cases hadd
      · exact ⟨_, rfl⟩
  | approve approvalId actor tenantId =>
    simp only [Decision.call, serve, ApprovalService.approve]
    cases s.get env approvalId tenantId with
    | none => exact ⟨_, rfl⟩
    | some r =>
      simp only
      split
      · cases r.expire <;> exact ⟨_, rfl⟩
      · cases r.approve dt env.now actor with
        | error e => exact ⟨e, rfl⟩
        | ok r' => exact commit_raises hsave
  | reject approvalId actor tenantId =>
    simp only [Decision.call, serve, ApprovalService.reject]
    cases s.get env approvalId tenantId with
    | none => exact ⟨_, rfl⟩
    | some r =>
      cases hrej : r.reject dt env.now actor with
      | error e => exact ⟨e, by simp only [hrej]⟩
      | ok r' =>
        simp only [hrej]
        exact commit_raises hsave

theorem atomic_iff (d : Decision φ) : Atomic dt s env d ↔ TurnedAway dt s env d := by
  constructor
  · intro hatomic
    cases d with
    | create args =>
      by_contra haway
      obtain ⟨id, hid⟩ := create_changes haway
      exact not_atomic_of_change id hid hatomic
    | approve approvalId actor tenantId =>
      intro r hget hp
      exact not_atomic_of_status hget hp (approve_changes hget hp) hatomic
    | reject approvalId actor tenantId =>
      intro r hget hp
      exact not_atomic_of_status hget hp (reject_changes hget hp) hatomic
  · intro haway
    apply atomic_of_same
    cases d with
    | create args => exact create_turned_away haway
    | approve approvalId actor tenantId => exact approve_turned_away haway
    | reject approvalId actor tenantId => exact reject_turned_away haway

end Atomic

/-- A decision whose save fails raises, and it is atomic exactly if it is turned away before the
save. -/
theorem failed_save_atomic_iff (dt : Datetime) (s : ApprovalStore φ) (env : Env) (d : Decision φ) :
    (∃ e, (serve dt s ({ env with saves := false }, d.call)).2 = .error e) ∧
      (Atomic dt s { env with saves := false } d ↔ TurnedAway dt s { env with saves := false } d) :=
  ⟨failed_save_raises d rfl, atomic_iff d⟩

/-! ## An approval that fails and stands -/

def demoNow : ℤ := 1767225600000000
def demoExpiry : ℤ := 1767229200000000
def demoNowText : String := "2026-01-01T00:00:00+00:00"
def demoExpiryText : String := "2026-01-01T01:00:00+00:00"

/-- Two instants as `datetime` writes them, and a stand-in for the others. -/
def demoDatetime : Datetime where
  isoformat t :=
    if t = demoNow then demoNowText
    else if t = demoExpiry then demoExpiryText
    else String.ofList (Json.showInt t)
  read text :=
    if text = demoNowText then some demoNow
    else if text = demoExpiryText then some demoExpiry
    else if text = "" then none
    else some (Json.readInt text.toList)
  read_isoformat t := by
    have hplain : ∀ text : String, 'T' ∈ text.toList → String.ofList (Json.showInt t) ≠ text := by
      rintro text hT rfl
      rw [String.toList_ofList] at hT
      unfold Json.showInt at hT
      split at hT
      · rcases List.mem_cons.mp hT with h | h
        · cases h
        · cases Json.toDigits_isDigit h
      · cases Json.toDigits_isDigit hT
    have hne : String.ofList (Json.showInt t) ≠ "" := by
      intro h
      have := congrArg String.toList h
      rw [String.toList_ofList] at this
      unfold Json.showInt at this
      split at this
      · cases this
      · exact absurd this Nat.toDigits_ne_nil
    split
    · rename_i h
      simp [h]
    split
    · rename_i h
      simp [h, demoExpiryText, demoNowText]
    · rw [if_neg (hplain demoNowText (by decide)), if_neg (hplain demoExpiryText (by decide)),
        String.toList_ofList, Json.readInt_showInt]
  read_empty := by decide

def demoRequest : ApprovalRequest Unit where
  approvalId := "apr_0123456789ab"
  templateId := "portrait"
  inputs := []
  source := .trigger
  traceId := "trace"
  tenantId := "default"
  status := .pending
  requestedAt := demoNowText
  requestedBy := none
  expiresAt := some demoExpiryText
  approvedAt := none
  rejectedAt := none
  decisionBy := none
  delivery := none
  metadata := []

def demoEnv : Env where
  now := demoNow
  saves := false
  multiTenant := false
  currentTenant := "default"
  uuid := "ba9876543210"
  freshTraceId := "trace"
  defaultTtlSec := 3600

/-- The disk is full when a pending request is approved: the call raises and the request is
approved. -/
theorem failed_approve_stands : ¬ Atomic demoDatetime (Table.ofRows [demoRequest]) demoEnv
    (.approve "apr_0123456789ab" none none) := by
  have hget : ApprovalStore.get (Table.ofRows [demoRequest]) demoEnv "apr_0123456789ab" none =
      some demoRequest := rfl
  exact not_atomic_of_status hget rfl (approve_changes hget rfl)

end OpenClaw.Approvals
