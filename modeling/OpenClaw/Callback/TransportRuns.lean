import OpenClaw.Callback.TransportContract
import OpenClaw.Foundation.Run

/-!
# Runs of the callback contract

What one call does to the record under an id, and from it the rules of the states: they hold in a
run exactly if no `record_attempt` fails a record that is already delivered or expired.
-/

namespace OpenClaw.Callback

open Foundation
set_option autoImplicit false

variable {μ : Type}

/-- What a call can do to the record under the id `d`. -/
inductive RecordStep (cfg : ContractConfig) (m : Moment) (d : String) : TransportCall μ →
    TransportAnswer μ → Option (CallbackRecord μ) → Option (CallbackRecord μ) → Prop where
  | kept (call : TransportCall μ) (a : TransportAnswer μ) (r : Option (CallbackRecord μ)) :
      RecordStep cfg m d call a r r
  | expired (call : TransportCall μ) (a : TransportAnswer μ) {r : CallbackRecord μ} :
      r.state.terminal = false →
      RecordStep cfg m d call a (some r) (some { r with state := .expired, expiredAt := some m.now })
  | acknowledged {r r' : CallbackRecord μ} : r.state = .pending →
      m.now - r.createdAt ≤ cfg.ackWindowSec →
      r' = { r with state := .acknowledged, acknowledgedAt := some m.now } →
      RecordStep cfg m d (.acknowledge d) (.record r') (some r) (some r')
  | delivered {r r' : CallbackRecord μ} :
      r.state = .acknowledged ∨ r.state = .pending ∧ r.requireAck = false →
      r' = { r with state := .delivered, deliveredAt := some m.now, attempts := r.attempts + 1 } →
      RecordStep cfg m d (.deliver d) (.record r') (some r) (some r')
  | attempted (a : TransportAnswer μ) (r : CallbackRecord μ) :
      RecordStep cfg m d (.recordAttempt d) a (some r) (some r.attempted)
  | created {args : CreateArgs μ} (a : TransportAnswer μ) (before : Option (CallbackRecord μ))
      {r : CallbackRecord μ} : r.callbackId = d → m.uuid = d → r.state = .pending →
      r.idempotencyKey = args.idempotencyKey → RecordStep cfg m d (.create args) a before (some r)

section Step
variable {cfg : ContractConfig} {m : Moment} {d : String}

theorem expireIfNeeded_cases (cfg : ContractConfig) (now : ℚ) (r : CallbackRecord μ) :
    r.expireIfNeeded cfg now = r ∨ r.state.terminal = false ∧
      r.expireIfNeeded cfg now = { r with state := .expired, expiredAt := some now } := by
  unfold CallbackRecord.expireIfNeeded
  split
  · exact .inl rfl
  rename_i hterm
  have hlive : r.state.terminal = false := Bool.not_eq_true _ ▸ hterm
  split
  · exact .inr ⟨hlive, rfl⟩
  split
  · exact .inr ⟨hlive, rfl⟩
  · exact .inl rfl

theorem expireIfNeeded_id (now : ℚ) (r : CallbackRecord μ) :
    (r.expireIfNeeded cfg now).callbackId = r.callbackId := by
  rcases expireIfNeeded_cases cfg now r with h | ⟨_, h⟩ <;> rw [h]

/-- A record that is live after the expiry check was not touched by it. -/
theorem expireIfNeeded_live {now : ℚ} {r : CallbackRecord μ}
    (h : (r.expireIfNeeded cfg now).state ≠ .expired) : r.expireIfNeeded cfg now = r := by
  rcases expireIfNeeded_cases cfg now r with he | ⟨_, he⟩
  · exact he
  · rw [he] at h
    exact absurd rfl h

theorem expire_step (call : TransportCall μ) (a : TransportAnswer μ) (r : CallbackRecord μ) :
    RecordStep cfg m d call a (some r) (some (r.expireIfNeeded cfg m.now)) := by
  rcases expireIfNeeded_cases cfg m.now r with h | ⟨hlive, h⟩
  · rw [h]
    exact .kept call a _
  · rw [h]
    exact .expired call a hlive

/-- A call that changes the record of one id. -/
theorem store_step {c : CallbackContract μ} {call : TransportCall μ} {a : TransportAnswer μ}
    {i : String} {r r' : CallbackRecord μ} (hr : c.records.get? i = some r)
    (hid : r'.callbackId = r.callbackId) (h : i = d → RecordStep cfg m d call a (some r) (some r')) :
    RecordStep cfg m d call a (c.records.get? d) ((c.store r').records.get? d) := by
  have hkey : r'.callbackId = i := hid.trans (Table.key_of_get? hr)
  rw [CallbackContract.store, Table.get?_put, hkey]
  split
  · rename_i he
    rw [← he, hr]
    exact he ▸ h he
  · exact .kept call a _

theorem create_step (c : CallbackContract μ) (args : CreateArgs μ) :
    RecordStep cfg m d (.create args) (.of (c.create cfg m args).2) (c.records.get? d)
      ((c.create cfg m args).1.records.get? d) := by
  unfold CallbackContract.create
  split
  · exact .kept _ _ _
  split
  · exact .kept _ _ _
  · simp only [Table.get?_put]
    by_cases hid : m.uuid = d
    · rw [if_pos hid]
      exact .created _ _ hid hid rfl rfl
    · rw [if_neg hid]
      exact .kept _ _ _

theorem acknowledge_step (c : CallbackContract μ) (callbackId : String) :
    RecordStep cfg m d (.acknowledge callbackId) (.of (c.acknowledge cfg m.now callbackId).2)
      (c.records.get? d) ((c.acknowledge cfg m.now callbackId).1.records.get? d) := by
  unfold CallbackContract.acknowledge
  cases hr : c.records.get? callbackId with
  | none => exact .kept _ _ _
  | some r =>
    simp only
    split
    · rename_i hlate
      refine store_step hr ?_ fun _ => ?_
      · rfl
      exact .expired _ _ (by rw [hlate.1]; rfl)
    rename_i hlate
    split
    · rename_i hpend
      have hsame : r.expireIfNeeded cfg m.now = r := by
        apply expireIfNeeded_live
        rw [hpend]
        simp
      rw [hsame] at hpend ⊢
      refine store_step hr ?_ ?_
      · rfl
      rintro rfl
      refine .acknowledged hpend ?_ rfl
      by_contra hwindow
      exact hlate ⟨hpend, not_le.mp hwindow⟩
    · apply store_step hr (expireIfNeeded_id m.now r)
      intro _
      exact expire_step _ _ r

theorem deliver_step (c : CallbackContract μ) (callbackId : String) :
    RecordStep cfg m d (.deliver callbackId) (.of (c.deliver cfg m.now callbackId).2)
      (c.records.get? d) ((c.deliver cfg m.now callbackId).1.records.get? d) := by
  unfold CallbackContract.deliver
  cases hr : c.records.get? callbackId with
  | none => exact .kept _ _ _
  | some r =>
    simp only
    split
    · apply store_step hr (expireIfNeeded_id m.now r)
      intro _
      exact expire_step _ _ r
    rename_i hstrict
    split
    · rename_i hlive
      have hsame : r.expireIfNeeded cfg m.now = r := by
        apply expireIfNeeded_live
        rcases hlive with h | h <;> rw [h] <;> simp
      rw [hsame] at hstrict hlive ⊢
      refine store_step hr ?_ ?_
      · rfl
      rintro rfl
      refine .delivered ?_ rfl
      rcases hlive with h | h
      · refine .inr ⟨h, ?_⟩
        by_contra hack
        exact hstrict ⟨by simpa using hack, h⟩
      · exact .inl h
    · apply store_step hr (expireIfNeeded_id m.now r)
      intro _
      exact expire_step _ _ r

theorem recordAttempt_step (c : CallbackContract μ) (callbackId : String) :
    RecordStep cfg m d (.recordAttempt callbackId) (.of (c.recordAttempt callbackId).2)
      (c.records.get? d) ((c.recordAttempt callbackId).1.records.get? d) := by
  unfold CallbackContract.recordAttempt
  cases hr : c.records.get? callbackId with
  | none => exact .kept _ _ _
  | some r =>
    refine store_step hr ?_ ?_
    · rfl
    rintro rfl
    exact .attempted _ r

theorem get_step (c : CallbackContract μ) (call : TransportCall μ) (a : TransportAnswer μ)
    (callbackId : String) : RecordStep cfg m d call a (c.records.get? d)
      ((c.get cfg m.now callbackId).1.records.get? d) := by
  unfold CallbackContract.get
  cases hr : c.records.get? callbackId with
  | none => exact .kept _ _ _
  | some r =>
    apply store_step hr (expireIfNeeded_id m.now r)
    intro _
    exact expire_step _ _ r

theorem getByIdempotencyKey_step (c : CallbackContract μ) (call : TransportCall μ)
    (a : TransportAnswer μ) (key : PyStr) : RecordStep cfg m d call a (c.records.get? d)
      ((c.getByIdempotencyKey cfg m.now key).1.records.get? d) := by
  unfold CallbackContract.getByIdempotencyKey
  split
  · exact .kept _ _ _
  split
  · exact .kept _ _ _
  · exact get_step c call a _

/-- What a call does to the record under an id. -/
theorem transport_step (cfg : ContractConfig) (c : CallbackContract μ)
    (input : Moment × TransportCall μ) (d : String) :
    RecordStep cfg input.1 d input.2 (transport cfg c input).2 (c.records.get? d)
      ((transport cfg c input).1.records.get? d) := by
  obtain ⟨m, call⟩ := input
  cases call with
  | create args => exact create_step c args
  | acknowledge callbackId => exact acknowledge_step c callbackId
  | deliver callbackId => exact deliver_step c callbackId
  | recordAttempt callbackId => exact recordAttempt_step c callbackId
  | get callbackId => exact get_step c _ _ callbackId
  | getByIdempotencyKey key => exact getByIdempotencyKey_step c _ _ key

/-- The fields of a record that no call changes. -/
structure Kin (r r' : CallbackRecord μ) : Prop where
  key : r'.idempotencyKey = r.idempotencyKey
  created : r'.createdAt = r.createdAt
  strict : r'.requireAck = r.requireAck

theorem Kin.trans {r r' r'' : CallbackRecord μ} (h : Kin r r') (h' : Kin r' r'') : Kin r r'' :=
  ⟨h'.key.trans h.key, h'.created.trans h.created, h'.strict.trans h.strict⟩

variable {call : TransportCall μ} {a : TransportAnswer μ} {r : CallbackRecord μ}
  {after : Option (CallbackRecord μ)}

/-- A record stays stored, and what it is for stays the same. -/
theorem step_kin (h : RecordStep cfg m d call a (some r) after)
    (hfresh : ∀ args, call = .create args → m.uuid ≠ d) : ∃ r', after = some r' ∧ Kin r r' := by
  cases h with
  | kept => exact ⟨r, rfl, rfl, rfl, rfl⟩
  | expired => exact ⟨_, rfl, rfl, rfl, rfl⟩
  | acknowledged _ _ he => exact ⟨_, rfl, by rw [he], by rw [he], by rw [he]⟩
  | delivered _ he => exact ⟨_, rfl, by rw [he], by rw [he], by rw [he]⟩
  | attempted => exact ⟨_, rfl, rfl, rfl, rfl⟩
  | created _ _ _ hid => exact absurd hid (hfresh _ rfl)

/-- No `record_attempt` fails a record that is delivered or expired. -/
def Proper (call : TransportCall μ) (d : String) (r : CallbackRecord μ) : Prop :=
  call = .recordAttempt d → r.state = .delivered ∨ r.state = .expired →
    ((r.attempts + 1 : ℕ) : ℤ) < r.maxAttempts

theorem step_terminal {r' : CallbackRecord μ} (h : RecordStep cfg m d call a (some r) (some r'))
    (hterm : r.state.terminal = true) (hfresh : ∀ args, call = .create args → m.uuid ≠ d)
    (hproper : Proper call d r) : r'.state = r.state := by
  cases h with
  | kept => rfl
  | expired _ _ hlive =>
    rw [hterm] at hlive
    cases hlive
  | acknowledged hp =>
    rw [hp] at hterm
    cases hterm
  | delivered hlive =>
    rcases hlive with hs | ⟨hs, _⟩ <;> rw [hs] at hterm <;> cases hterm
  | attempted =>
    rw [CallbackRecord.attempted]
    split
    · rename_i hmax
      cases hs : r.state with
      | failed => rfl
      | delivered =>
        have := hproper rfl (.inl hs)
        omega
      | expired =>
        have := hproper rfl (.inr hs)
        omega
      | pending =>
        rw [hs] at hterm
        cases hterm
      | acknowledged =>
        rw [hs] at hterm
        cases hterm
    · rfl
  | created _ _ _ hid => exact absurd hid (hfresh _ rfl)

/-- A record becomes acknowledged by a call that says so, in the window. -/
theorem step_acknowledged {r' : CallbackRecord μ} {before : Option (CallbackRecord μ)}
    (h : RecordStep cfg m d call a before (some r')) (hs : r'.state = .acknowledged) :
    (∃ r, before = some r ∧ r.state = .acknowledged) ∨
      call = .acknowledge d ∧ a = .record r' ∧ m.now - r'.createdAt ≤ cfg.ackWindowSec := by
  cases h with
  | kept => exact .inl ⟨_, rfl, hs⟩
  | expired => cases hs
  | acknowledged _ hwindow he => exact .inr ⟨rfl, rfl, by rwa [he]⟩
  | delivered _ he =>
    rw [he] at hs
    cases hs
  | attempted a r =>
    rw [CallbackRecord.attempted] at hs
    simp only at hs
    split at hs
    · cases hs
    · exact .inl ⟨r, rfl, hs⟩
  | created _ _ _ _ hp =>
    rw [hp] at hs
    cases hs

/-- A successful `deliver` takes a record that is acknowledged, or that need not be. -/
theorem deliver_ok {c c' : CallbackContract μ} {r' : CallbackRecord μ}
    (h : transport cfg c (m, .deliver d) = (c', .record r')) : ∃ r, c.records.get? d = some r ∧
      (r.state = .acknowledged ∨ r.state = .pending ∧ r.requireAck = false) ∧
      c'.records.get? d = some r' ∧ r'.state = .delivered ∧ Kin r r' := by
  simp only [transport, CallbackContract.deliver] at h
  cases hr : c.records.get? d with
  | none =>
    rw [hr] at h
    cases h
  | some r =>
    rw [hr] at h
    simp only at h
    split at h
    · cases h
    rename_i hstrict
    split at h
    · rename_i hlive
      have hsame : r.expireIfNeeded cfg m.now = r := by
        apply expireIfNeeded_live
        rcases hlive with h | h <;> rw [h] <;> simp
      rw [hsame] at hstrict hlive h
      cases h
      refine ⟨r, rfl, ?_, ?_, rfl, rfl, rfl, rfl⟩
      · rcases hlive with hp | hack
        · refine .inr ⟨hp, ?_⟩
          by_contra hne
          exact hstrict ⟨by simpa using hne, hp⟩
        · exact .inl hack
      · have hid : r.callbackId = d := Table.key_of_get? hr
        simp only [id, CallbackContract.store]
        rw [Table.get?_put, if_pos hid]
    · cases h

/-! ## The index -/

/-- A record that can still be delivered, or was, is the one that its key leads to. -/
def Indexed (c : CallbackContract μ) : Prop := ∀ d r, c.records.get? d = some r → d ≠ "" ∧
  (r.idempotencyKey ≠ [] → r.state = .expired ∨ r.state = .failed ∨
    c.idempotencyIndex.get? r.idempotencyKey = some (r.idempotencyKey, d))

theorem existing_eq_none {c : CallbackContract μ} {key : PyStr} {r : CallbackRecord μ}
    (h : c.existing key = none) (hkey : key ≠ [])
    (hindex : c.idempotencyIndex.get? key = some (key, d)) (hd : d ≠ "")
    (hr : c.records.get? d = some r) : r.state = .expired ∨ r.state = .failed := by
  rw [CallbackContract.existing, if_neg hkey, CallbackContract.indexed, hindex] at h
  simp only [if_neg hd, hr, Option.filter_some] at h
  by_contra hlive
  rw [not_or] at hlive
  rw [if_pos (decide_eq_true hlive)] at h
  cases h

theorem create_indexed {c : CallbackContract μ} {args : CreateArgs μ} (hc : Indexed c)
    (hid : m.uuid ≠ "") : Indexed (c.create cfg m args).1 := by
  unfold CallbackContract.create
  split
  · exact hc
  split
  · exact hc
  rename_i hnone
  intro d r hr
  simp only [Table.get?_put] at hr ⊢
  split at hr
  · rename_i hd
    obtain rfl := Option.some.inj hr
    refine ⟨hd ▸ hid, fun hkey => .inr (.inr ?_)⟩
    simp only [if_neg hkey, Table.get?_put, if_true, hd]
  · obtain ⟨hd, hindexed⟩ := hc d r hr
    refine ⟨hd, fun hkey => ?_⟩
    rcases hindexed hkey with hs | hs | hindex
    · exact .inl hs
    · exact .inr (.inl hs)
    · by_cases hsame : args.idempotencyKey = r.idempotencyKey
      · rw [hsame] at hnone
        rcases existing_eq_none hnone hkey hindex hd hr with hs | hs
        · exact .inl hs
        · exact .inr (.inl hs)
      · refine .inr (.inr ?_)
        split
        · exact hindex
        · rw [Table.get?_put, if_neg hsame, hindex]

/-- Only `create` writes to the index. -/
theorem index_eq (c : CallbackContract μ) (hcall : ∀ args, call ≠ .create args) :
    (transport cfg c (m, call)).1.idempotencyIndex = c.idempotencyIndex := by
  have hget : ∀ d, (c.get cfg m.now d).1.idempotencyIndex = c.idempotencyIndex := by
    intro d
    unfold CallbackContract.get
    split <;> rfl
  cases call with
  | create args => exact absurd rfl (hcall args)
  | acknowledge callbackId =>
    simp only [transport, CallbackContract.acknowledge]
    split
    · rfl
    split
    · rfl
    split <;> rfl
  | deliver callbackId =>
    simp only [transport, CallbackContract.deliver]
    split
    · rfl
    split
    · rfl
    split <;> rfl
  | recordAttempt callbackId =>
    simp only [transport, CallbackContract.recordAttempt]
    split <;> rfl
  | get callbackId => exact hget callbackId
  | getByIdempotencyKey key =>
    simp only [transport, CallbackContract.getByIdempotencyKey]
    split
    · rfl
    split
    · rfl
    · exact hget _

theorem step_back {before : Option (CallbackRecord μ)} {r' : CallbackRecord μ}
    (h : RecordStep cfg m d call a before (some r')) (hcall : ∀ args, call ≠ .create args) :
    ∃ r, before = some r ∧ Kin r r' := by
  cases hb : before with
  | some r =>
    rw [hb] at h
    obtain ⟨q, hq, hkin⟩ := step_kin h fun args he => absurd he (hcall args)
    rw [Option.some.inj hq]
    exact ⟨r, rfl, hkin⟩
  | none =>
    rw [hb] at h
    cases h with
    | created => exact absurd rfl (hcall _)

theorem transport_indexed {c : CallbackContract μ} (hc : Indexed c)
    (hfresh : ∀ args, call = .create args → m.uuid ≠ "") (hproper : ∀ d r, c.records.get? d = some r → Proper call d r) :
    Indexed (transport cfg c (m, call)).1 := by
  by_cases hcreate : ∃ args, call = .create args
  · obtain ⟨args, rfl⟩ := hcreate
    exact create_indexed hc (hfresh args rfl)
  · have hcall : ∀ args, call ≠ .create args := fun args he => hcreate ⟨args, he⟩
    intro d r' hr'
    have hstep := transport_step cfg c (m, call) d
    rw [hr'] at hstep
    obtain ⟨r, hr, hkin⟩ := step_back hstep hcall
    obtain ⟨hd, hindexed⟩ := hc d r hr
    refine ⟨hd, fun hkey => ?_⟩
    rw [hr] at hstep
    have hstays : r.state.terminal = true → r'.state = r.state := by
      intro hterm
      exact step_terminal hstep hterm (fun args he => absurd he (hcall args)) (hproper d r hr)
    rw [index_eq c hcall, hkin.key]
    rcases hindexed (hkin.key ▸ hkey) with hs | hs | hindex
    · exact .inl ((hstays (by rw [hs]; rfl)).trans hs)
    · exact .inr (.inl ((hstays (by rw [hs]; rfl)).trans hs))
    · exact .inr (.inr hindex)

end Step

/-! ## Runs -/

section Runs
variable (cfg : ContractConfig) (inp : ℕ → Moment × TransportCall μ)

/-- The contract before the `k`-th call; it starts empty. -/
abbrev contractAt (k : ℕ) : CallbackContract μ := run (transport cfg) {} inp k

abbrev recordAt (k : ℕ) (d : String) : Option (CallbackRecord μ) :=
  (contractAt cfg inp k).records.get? d

/-- `uuid4` draws no id that is taken. -/
def FreshIds : Prop := ∀ k args, (inp k).2 = .create args →
  (inp k).1.uuid ≠ "" ∧ recordAt cfg inp k (inp k).1.uuid = none

/-- The `k`-th call delivers the record. -/
def Delivers (k : ℕ) (r : CallbackRecord μ) : Prop :=
  (inp k).2 = .deliver r.callbackId ∧ answer (transport cfg) {} inp k = .record r

structure Rules : Prop where
  terminal : ∀ i j d r r', i ≤ j → recordAt cfg inp i d = some r → r.state.terminal = true →
    recordAt cfg inp j d = some r' → r'.state = r.state
  deliveredOnce : ∀ i j r r', Delivers cfg inp i r → Delivers cfg inp j r' →
    r.idempotencyKey ≠ [] → r'.idempotencyKey = r.idempotencyKey → i = j
  acknowledgedFirst : ∀ j r, Delivers cfg inp j r → r.requireAck = true → ∃ i q, i < j ∧
    (inp i).2 = .acknowledge r.callbackId ∧ answer (transport cfg) {} inp i = .record q ∧
    (inp i).1.now - r.createdAt ≤ cfg.ackWindowSec

variable {cfg inp}

theorem recordAt_step (cfg : ContractConfig) (inp : ℕ → Moment × TransportCall μ) (k : ℕ)
    (d : String) :
    RecordStep cfg (inp k).1 d (inp k).2 (answer (transport cfg) {} inp k) (recordAt cfg inp k d)
      (recordAt cfg inp (k + 1) d) :=
  transport_step cfg _ (inp k) d

theorem FreshIds.ne (hfresh : FreshIds cfg inp) {k : ℕ} {d : String} {r : CallbackRecord μ}
    (hr : recordAt cfg inp k d = some r) :
    ∀ args, (inp k).2 = .create args → (inp k).1.uuid ≠ d := by
  rintro args hcall rfl
  rw [(hfresh k args hcall).2] at hr
  cases hr

theorem kin_run (hfresh : FreshIds cfg inp) {i j : ℕ} {d : String} {r : CallbackRecord μ}
    (hij : i ≤ j) (hr : recordAt cfg inp i d = some r) :
    ∃ r', recordAt cfg inp j d = some r' ∧ Kin r r' := by
  induction j, hij using Nat.le_induction with
  | base => exact ⟨r, hr, rfl, rfl, rfl⟩
  | succ j _ ih =>
    obtain ⟨q, hq, hkin⟩ := ih
    have hstep := recordAt_step cfg inp j d
    rw [hq] at hstep
    obtain ⟨r', hr', hkin'⟩ := step_kin hstep (hfresh.ne hq)
    exact ⟨r', hr', hkin.trans hkin'⟩

theorem attempt_record (m : Moment) {c : CallbackContract μ} {d : String} {r : CallbackRecord μ}
    (hr : c.records.get? d = some r) :
    (transport cfg c (m, .recordAttempt d)).1.records.get? d = some r.attempted := by
  have hid : r.attempted.callbackId = d := by
    rw [← Table.key_of_get? hr]
    rfl
  simp only [transport, CallbackContract.recordAttempt, hr, Prod.map, id, CallbackContract.store]
  rw [Table.get?_put, if_pos hid]

theorem deliver_facts {k : ℕ} {r : CallbackRecord μ} (h : Delivers cfg inp k r) :
    ∃ q, recordAt cfg inp k r.callbackId = some q ∧
      (q.state = .acknowledged ∨ q.state = .pending ∧ q.requireAck = false) ∧
      recordAt cfg inp (k + 1) r.callbackId = some r ∧ r.state = .delivered ∧ Kin q r := by
  obtain ⟨hcall, ha⟩ := h
  apply deliver_ok
  rw [← hcall]
  exact Prod.ext rfl ha

section Proper
variable (hfresh : FreshIds cfg inp)
  (hproper : ∀ k d r, recordAt cfg inp k d = some r → Proper (inp k).2 d r)
include hfresh hproper

theorem terminal_run {i j : ℕ} {d : String} {r : CallbackRecord μ} (hij : i ≤ j)
    (hr : recordAt cfg inp i d = some r) (hterm : r.state.terminal = true) :
    ∃ r', recordAt cfg inp j d = some r' ∧ r'.state = r.state ∧ Kin r r' := by
  induction j, hij using Nat.le_induction with
  | base => exact ⟨r, hr, rfl, rfl, rfl, rfl⟩
  | succ j _ ih =>
    obtain ⟨q, hq, hst, hkin⟩ := ih
    have hstep := recordAt_step cfg inp j d
    rw [hq] at hstep
    obtain ⟨r', hr', hkin'⟩ := step_kin hstep (hfresh.ne hq)
    rw [hr'] at hstep
    have hsame := step_terminal hstep (hst ▸ hterm) (hfresh.ne hq) (hproper j d q hq)
    exact ⟨r', hr', hsame.trans hst, hkin.trans hkin'⟩

theorem indexed_run (k : ℕ) : Indexed (contractAt cfg inp k) := by
  induction k with
  | zero =>
    intro d r hr
    cases hr
  | succ k ih =>
    exact transport_indexed ih (fun args hcall => (hfresh k args hcall).1) (hproper k)

theorem delivered_once {i j : ℕ} {r r' : CallbackRecord μ} (hi : Delivers cfg inp i r)
    (hj : Delivers cfg inp j r') (hkey : r.idempotencyKey ≠ [])
    (hsame : r'.idempotencyKey = r.idempotencyKey) : ¬ i < j := by
  intro hij
  obtain ⟨_, _, _, hafter, hst, _⟩ := deliver_facts hi
  obtain ⟨q, hq, hlive, _, _, hkin⟩ := deliver_facts hj
  obtain ⟨p, hp, hpst, hpkin⟩ := terminal_run hfresh hproper hij hafter (by rw [hst]; rfl)
  have hindexed := indexed_run hfresh hproper j
  -- both records are the one that the key leads to
  have hpindex : (contractAt cfg inp j).idempotencyIndex.get? r.idempotencyKey =
      some (r.idempotencyKey, r.callbackId) := by
    have hpkey := hpkin.key
    rcases (hindexed _ p hp).2 (hpkey ▸ hkey) with hs | hs | hindex
    · rw [hpst, hst] at hs
      cases hs
    · rw [hpst, hst] at hs
      cases hs
    · rwa [hpkey] at hindex
  have hqindex : (contractAt cfg inp j).idempotencyIndex.get? r.idempotencyKey =
      some (r.idempotencyKey, r'.callbackId) := by
    have hqkey : q.idempotencyKey = r.idempotencyKey := hkin.key.symm.trans hsame
    rcases (hindexed _ q hq).2 (hqkey ▸ hkey) with hs | hs | hindex
    · rcases hlive with hl | ⟨hl, _⟩ <;> rw [hl] at hs <;> cases hs
    · rcases hlive with hl | ⟨hl, _⟩ <;> rw [hl] at hs <;> cases hs
    · rwa [hqkey] at hindex
  rw [hpindex, Option.some.injEq, Prod.mk.injEq] at hqindex
  rw [← hqindex.2, hp, Option.some.injEq] at hq
  rw [← hq, hpst, hst] at hlive
  rcases hlive with hl | ⟨hl, _⟩ <;> cases hl

end Proper

theorem acknowledged_before (hfresh : FreshIds cfg inp) (k : ℕ) {d : String}
    {r : CallbackRecord μ} (hr : recordAt cfg inp k d = some r) (hs : r.state = .acknowledged) :
    ∃ i q, i < k ∧ (inp i).2 = .acknowledge d ∧ answer (transport cfg) {} inp i = .record q ∧
      (inp i).1.now - r.createdAt ≤ cfg.ackWindowSec := by
  induction k generalizing r with
  | zero => cases hr
  | succ k ih =>
    have hstep := recordAt_step cfg inp k d
    rw [hr] at hstep
    rcases step_acknowledged hstep hs with ⟨q, hq, hqs⟩ | ⟨hcall, ha, hwindow⟩
    · obtain ⟨i, p, hi, hcall, ha, hwindow⟩ := ih hq hqs
      rw [hq] at hstep
      obtain ⟨r', hr', hkin⟩ := step_kin hstep (hfresh.ne hq)
      rw [← Option.some.inj hr'] at hkin
      exact ⟨i, p, by omega, hcall, ha, hkin.created ▸ hwindow⟩
    · exact ⟨k, r, by omega, hcall, ha, hwindow⟩

/-- The rules of the states hold in a run exactly if every `record_attempt` in it is proper. -/
theorem rules_iff (cfg : ContractConfig) (inp : ℕ → Moment × TransportCall μ)
    (hfresh : FreshIds cfg inp) : Rules cfg inp ↔
      ∀ k d r, recordAt cfg inp k d = some r → Proper (inp k).2 d r := by
  constructor
  · intro hrules k d r hr hcall hstate
    by_contra hmax
    have hafter : recordAt cfg inp (k + 1) d = some r.attempted := by
      have hin : inp k = ((inp k).1, .recordAttempt d) := by rw [← hcall]
      rw [recordAt, contractAt, run_succ, hin]
      exact attempt_record (inp k).1 hr
    have hterm : r.state.terminal = true := by
      rcases hstate with hs | hs <;> rw [hs] <;> rfl
    have hsame := hrules.terminal k (k + 1) d r _ (by omega) hr hterm hafter
    rw [CallbackRecord.attempted, if_pos (by omega)] at hsame
    rcases hstate with hs | hs <;> rw [hs] at hsame <;> cases hsame
  · intro hproper
    constructor
    · intro i j d r r' hij hr hterm hr'
      obtain ⟨q, hq, hst, _⟩ := terminal_run hfresh hproper hij hr hterm
      rw [hq] at hr'
      rw [← Option.some.inj hr', hst]
    · intro i j r r' hi hj hkey hsame
      rcases Nat.lt_trichotomy i j with hij | hij | hij
      · exact absurd hij (delivered_once hfresh hproper hi hj hkey hsame)
      · exact hij
      · exact absurd hij (delivered_once hfresh hproper hj hi (hsame ▸ hkey) hsame.symm)
    · intro j r hj hstrict
      obtain ⟨q, hq, hlive, _, _, hkin⟩ := deliver_facts hj
      rcases hlive with hack | ⟨_, hopen⟩
      · obtain ⟨i, p, hi, hcall, ha, hwindow⟩ := acknowledged_before hfresh j hq hack
        exact ⟨i, p, hi, hcall, ha, hkin.created ▸ hwindow⟩
      · rw [← hkin.strict, hstrict] at hopen
        cases hopen

end Runs

/-- A record is delivered and then one more attempt is counted, which is below the limit. -/
def demoQuiet : ℕ → Moment × TransportCall Unit
  | 0 => (⟨0, "a1b2c3d4e5f60718"⟩, .create {
      idempotencyKey := PyStr.ofString "req-1", allowDirectDelivery := true, metadata := () })
  | 1 => (⟨1, "b1"⟩, .deliver "a1b2c3d4e5f60718")
  | 2 => (⟨2, "b2"⟩, .recordAttempt "a1b2c3d4e5f60718")
  | _ => (⟨3, "b3"⟩, .get "a1b2c3d4e5f60718")

theorem rules_iff_quiet : Rules {} demoQuiet := by
  refine (rules_iff {} demoQuiet ?_).mpr ?_
  · intro k args hcall
    match k with
    | 0 => exact ⟨by decide, rfl⟩
    | 1 | 2 | _ + 3 => cases hcall
  · intro k d r hr hcall _
    match k with
    | 0 | 1 | _ + 3 => cases hcall
    | 2 =>
      obtain rfl : "a1b2c3d4e5f60718" = d := by injection hcall
      have hcount : (recordAt {} demoQuiet 2 "a1b2c3d4e5f60718").map
          (fun r => decide (((r.attempts + 1 : ℕ) : ℤ) < r.maxAttempts)) = some true := by
        decide +kernel
      rw [hr] at hcount
      exact of_decide_eq_true (Option.some.inj hcount)

/-- A record is delivered and then two more attempts are counted. -/
def demoCalls : ℕ → Moment × TransportCall Unit
  | 0 => (⟨0, "a1b2c3d4e5f60718"⟩, .create {
      idempotencyKey := PyStr.ofString "req-1", allowDirectDelivery := true, metadata := () })
  | 1 => (⟨1, "b1"⟩, .deliver "a1b2c3d4e5f60718")
  | _ => (⟨2, "b2"⟩, .recordAttempt "a1b2c3d4e5f60718")

theorem delivered_becomes_failed : FreshIds {} demoCalls ∧ ¬ Rules {} demoCalls := by
  constructor
  · intro k args hcall
    match k with
    | 0 => exact ⟨by decide, rfl⟩
    | 1 => cases hcall
    | _ + 2 => cases hcall
  · intro hrules
    have hbefore : (recordAt {} demoCalls 2 "a1b2c3d4e5f60718").map (·.state) = some .delivered := by
      decide +kernel
    have hafter : (recordAt {} demoCalls 4 "a1b2c3d4e5f60718").map (·.state) = some .failed := by
      decide +kernel
    obtain ⟨r, hr, hs⟩ := Option.map_eq_some_iff.mp hbefore
    obtain ⟨r', hr', hs'⟩ := Option.map_eq_some_iff.mp hafter
    have hsame := hrules.terminal 2 4 _ r r' (by decide) hr (by rw [hs]; rfl) hr'
    rw [hs, hs'] at hsame
    cases hsame

end OpenClaw.Callback
