import OpenClaw.Foundation.Run
import OpenClaw.Scheduler.OutboxLease

/-!
# The delivery outbox across failing saves and restarts

A restart forgets the dictionary; the next call reads the file again. Every operation changes
the dictionary before it saves, so what a reload shows depends on which saves went through.
-/

namespace OpenClaw.DeliveryOutbox

open Foundation Outbox
set_option autoImplicit false

namespace Outbox

/-- The intents as the next call will see them. -/
def view (s : Outbox) : Intents := s.ensureLoaded.intents

/-- A new process over the same file. -/
def restart (s : Outbox) : Outbox := { s with loaded := false, intents := Table.empty }

end Outbox

theorem view_of_loaded {s : Outbox} (h : s.loaded = true) : s.view = s.intents := by
  rw [view, ensureLoaded_of_loaded h]

@[simp] theorem view_ensureLoaded (s : Outbox) : s.ensureLoaded.view = s.view :=
  view_of_loaded (ensureLoaded_loaded s)

@[simp] theorem ensureLoaded_file (s : Outbox) : s.ensureLoaded.file = s.file := by
  unfold ensureLoaded
  split <;> rfl

/-- The acknowledgement passes every check and finds its intent claimed under its token. -/
def Accepted (env : Env) (s : Outbox) (args : AckArgs) : Prop :=
  (∃ outcome ∈ ackOutcome? args.outcome, (ackReason? outcome args.reason).isSome = true) ∧
    args.leaseToken ≠ "" ∧
    ∃ i ∈ s.view.get? args.deliveryId, i.tenantId = args.tenantId ∧
      i.leaseTokenHash = some (env.hashToken args.leaseToken) ∧ i.state = .claimed

/-- The call has changes to write. A `record` of a new id has none when maintenance evicts the
new intent at once. -/
def Writes (env : Env) (s : Outbox) : Call → Prop
  | .record args now => s.view.get? (env.deliveryIdFor args.idempotencyKey) = none ∧
      (maintain now (s.view.put (newIntent env args now))).1 ≠ s.view
  | .list _ now => (maintain now s.view).2 = true
  | .claim args now => (maintain now s.view).2 = true ∨
      claimedBy env args now s.ensureLoaded.drawn (maintain now s.view).1 ≠ []
  | .ack args _ => Accepted env s args

/-! ## Maintenance says whether it changed anything -/

theorem maintain_quiet {now : ℚ} {m : Intents} (h : (maintain now m).2 = false) :
    (maintain now m).1 = m := by
  simp only [maintain] at h ⊢
  split at h
  · cases h
  rename_i hsize
  rw [if_neg hsize]
  simp only [decide_eq_false_iff_not, not_exists, not_and, not_not] at h
  ext1
  have go (rows : List DeliveryIntent) (hr : ∀ i ∈ rows, expireOrPrune now i = some i) :
      rows.filterMap (expireOrPrune now) = rows := by
    induction rows with
    | nil => rfl
    | cons i rows ih =>
      rw [List.filterMap_cons_some (hr i List.mem_cons_self),
        ih fun j hj => hr j (List.mem_cons_of_mem i hj)]
  exact go m.rows h

/-- Evicting never restores what the first loop has changed. -/
theorem evicted_ne {now : ℚ} {i j : DeliveryIntent} (h : expireOrPrune now i = some j) :
    evicted now j ≠ some i := by
  intro he
  unfold evicted at he
  split at he
  · cases he
  rename_i hlive
  have hi : i.state = .expired := by
    cases he
    rfl
  unfold expireOrPrune at h
  rw [if_neg (by simp [hi])] at h
  split at h
  · cases h
  · cases h
    exact hlive (by simp [hi])

theorem evict_get_of_mem {now : ℚ} {m : Intents} {n : ℕ} {i : DeliveryIntent}
    (h : i ∈ (evictionOrder m).take n) :
    (((evictionOrder m).take n).foldl (evict now) m).get? i.deliveryId = evicted now i := by
  have hn : (((evictionOrder m).take n).map DeliveryIntent.deliveryId).Nodup :=
    ((List.take_sublist n _).map _).nodup (evictionOrder_nodup m)
  rw [Table.get?_foldl DeliveryIntent.deliveryId (get?_evict now) hn, Table.find?_of_nodup hn h]
  rfl

theorem maintain_busy {now : ℚ} {m : Intents} (h : (maintain now m).2 = true) :
    (maintain now m).1 ≠ m := by
  set kept := m.filterMap (expireOrPrune now) (expireOrPrune_key now) with hkept
  have hk (d : String) : kept.get? d = (m.get? d).bind (expireOrPrune now) := by simp [hkept]
  simp only [maintain, ← hkept] at h ⊢
  split
  · rename_i hover
    have hne : (evictionOrder kept).take (kept.size - maxRecords) ≠ [] := by
      rw [← List.length_pos_iff, List.length_take, (evictionOrder_perm kept).length_eq]
      exact lt_min hover (Nat.lt_of_lt_of_le hover (Nat.sub_le kept.size maxRecords))
    obtain ⟨j, hj⟩ := List.exists_mem_of_ne_nil _ hne
    have hjk : kept.get? j.deliveryId = some j :=
      Table.get?_key ((mem_evictionOrder kept j).mp (List.mem_of_mem_take hj))
    rw [hk, Option.bind_eq_some_iff] at hjk
    obtain ⟨i, hi, hij⟩ := hjk
    have hget : _ = evicted now j := evict_get_of_mem hj
    intro he
    rw [show List.foldl _ _ _ = m from he, hi] at hget
    exact evicted_ne hij hget.symm
  · rename_i hover
    rw [if_neg hover] at h
    obtain ⟨i, hi, hne⟩ := of_decide_eq_true h
    intro he
    have hget := hk i.deliveryId
    rw [show kept = m from he, Table.get?_key hi] at hget
    exact hne hget.symm

/-! ## One call -/

/-- What one call does to the view and to the file. -/
inductive ExecSpec (env : Env) (s : Outbox) (c : Call) (ok : Bool) : Outbox × Reply → Prop where
  | idle {s' : Outbox} {r : Reply} : ¬ Writes env s c → s'.view = s.view →
      (s'.file = s.file ∨ s'.file = some s.view.rows) → (ok = true → r ≠ .raised .saveFailed) →
      ExecSpec env s c ok (s', r)
  | wrote {s' : Outbox} {r : Reply} : Writes env s c → ok = true → s'.view ≠ s.view →
      s'.file = some s'.view.rows → r ≠ .raised .saveFailed → ExecSpec env s c ok (s', r)
  | failed {s' : Outbox} : Writes env s c → ok = false → s'.view ≠ s.view →
      s'.file = s.file → ExecSpec env s c ok (s', .raised .saveFailed)

section Calls
variable {env : Env} {s : Outbox}

/-- A call without a save leaves view and file alone. -/
theorem unsaved_spec {c : Call} {ok : Bool} {s' : Outbox} {r : Reply} (hw : ¬ Writes env s c)
    (hv : s'.view = s.view) (hf : s'.file = s.file) (hr : r ≠ .raised .saveFailed) :
    ExecSpec env s c ok (s', r) :=
  .idle hw hv (.inl hf) fun _ => hr

/-- A call that ends in the save of the process state `t`. -/
theorem saved_spec {α : Type} {c : Call} {ok : Bool} {t : Outbox} (hl : t.loaded = true)
    (hfile : t.file = s.file) (hw : Writes env s c ↔ t.intents ≠ s.view) {a : α} {f : α → Reply}
    (hf : ∀ a, f a ≠ .raised .saveFailed) :
    ExecSpec env s c ok ((t.save ok a).1, .of f (t.save ok a).2) := by
  have hv : (t.save ok a).1.view = t.intents := by
    rw [view_of_loaded ((save_loaded t ok a).trans hl), save_intents]
  by_cases hne : t.intents = s.view
  · have hw : ¬ Writes env s c := fun h => hw.mp h hne
    cases ok with
    | true => exact .idle hw (hv.trans hne) (.inr (by simp [hne])) fun _ => hf a
    | false => exact .idle hw (hv.trans hne) (.inl hfile) fun h => by cases h
  · cases ok with
    | true => exact .wrote (hw.mpr hne) rfl (hv ▸ hne) (by rw [hv]; rfl) (hf a)
    | false => exact .failed (hw.mpr hne) rfl (hv ▸ hne) hfile

theorem Maintained.attempts_eq {now : ℚ} {i j : DeliveryIntent} (h : Maintained now i (some j)) :
    j.attempts = i.attempts := by
  cases h <;> rfl

/-- A claimed intent differs from every intent maintenance could have found. -/
theorem claim_busy {args : ClaimArgs} {now : ℚ} {n : ℕ} {m : Intents}
    (h : claimedBy env args now n (maintain now m).1 ≠ []) :
    (claimedBy env args now n (maintain now m).1).foldl (fun t c => t.put c.intent)
      (maintain now m).1 ≠ m := by
  obtain ⟨c, hc⟩ := List.exists_mem_of_ne_nil _ h
  have hget := claim_get env args now n (maintain now m).1 c.intent.deliveryId
  rw [Table.find?_of_nodup (claimed_nodup env args now n _) hc, Option.elim_some] at hget
  obtain ⟨i, k, hi, hcl, rfl⟩ := mem_claimedBy hc
  intro he
  rw [he] at hget
  have hm : Maintained now _ _ := maintain_get hget
  rw [show (leased env now (claimLease args.leaseSec) i k).intent.deliveryId = i.deliveryId from rfl,
    Table.get?_key hi] at hm
  have : i.attempts = i.attempts + 1 := hm.attempts_eq
  omega

theorem record_spec (args : RecordArgs) (now : ℚ) (ok : Bool) :
    ExecSpec env s (.record args now) ok (s.exec env (.record args now) ok) := by
  simp only [exec, record]
  split
  · rename_i existing he
    have hw : ¬ Writes env s (.record args now) := fun h => by
      rw [Writes, view, he] at h
      cases h.1
    exact unsaved_spec hw (view_ensureLoaded s) (ensureLoaded_file s) (by simp [Reply.of])
  · rename_i he
    have hw : Writes env s (.record args now) ↔
        (maintain now (s.view.put (newIntent env args now))).1 ≠ s.view :=
      ⟨fun h => h.2, fun h => ⟨he, h⟩⟩
    refine saved_spec ?_ ?_ hw (by simp)
    · exact ensureLoaded_loaded s
    · exact ensureLoaded_file s

theorem list_spec (args : ListArgs) (now : ℚ) (ok : Bool) :
    ExecSpec env s (.list args now) ok (s.exec env (.list args now) ok) := by
  simp only [exec, listIntents]
  split
  · rename_i hm
    have hw : Writes env s (.list args now) ↔ (maintain now s.view).1 ≠ s.view :=
      ⟨fun _ => maintain_busy hm, fun _ => hm⟩
    refine saved_spec ?_ ?_ hw (by simp)
    · exact ensureLoaded_loaded s
    · exact ensureLoaded_file s
  · rename_i hm
    refine unsaved_spec hm ?_ (ensureLoaded_file s) (by simp [Reply.of])
    rw [view_of_loaded (by simp)]
    exact maintain_quiet (Bool.eq_false_of_not_eq_true hm)

theorem claim_spec (args : ClaimArgs) (now : ℚ) (ok : Bool) :
    ExecSpec env s (.claim args now) ok (s.exec env (.claim args now) ok) := by
  simp only [exec, claim]
  split
  · rename_i hm
    have hw : Writes env s (.claim args now) ↔
        (claimedBy env args now s.ensureLoaded.drawn (maintain now s.view).1).foldl
          (fun t c => t.put c.intent) (maintain now s.view).1 ≠ s.view := by
      have hchg : Writes env s (.claim args now) := by simpa [Writes, view, or_comm] using hm
      refine ⟨fun _ => ?_, fun _ => hchg⟩
      by_cases hnil : claimedBy env args now s.ensureLoaded.drawn (maintain now s.view).1 = []
      · rw [hnil]
        exact maintain_busy (hchg.resolve_right fun h => h hnil)
      · exact claim_busy hnil
    refine saved_spec ?_ ?_ hw (by simp)
    · exact ensureLoaded_loaded s
    · exact ensureLoaded_file s
  · rename_i hm
    obtain ⟨hnil, hkeep⟩ : claimedBy env args now s.ensureLoaded.drawn (maintain now s.view).1 = [] ∧
        (maintain now s.view).2 = false := by simpa [view] using hm
    refine unsaved_spec ?_ ?_ (ensureLoaded_file s) (by simp [Reply.of])
    · rintro (h | h)
      · rw [hkeep] at h
        cases h
      · exact h hnil
    · rw [view_of_loaded (by simp)]
      change List.foldl _ (maintain now s.view).1 (claimedBy _ _ _ _ (maintain now s.view).1) = _
      rw [hnil, maintain_quiet hkeep]
      rfl

theorem ack_spec (args : AckArgs) (now : ℚ) (ok : Bool) :
    ExecSpec env s (.ack args now) ok (s.exec env (.ack args now) ok) := by
  simp only [exec, Outbox.ack]
  split
  · rename_i ho
    exact unsaved_spec (by rintro ⟨⟨o, h, _⟩, _⟩; rw [ho] at h; cases h) rfl rfl
      (by simp [Reply.of, Raised.invalidOutcome])
  rename_i outcome ho
  split
  · rename_i hr
    refine unsaved_spec ?_ rfl rfl (by simp [Reply.of, Raised.invalidReason])
    rintro ⟨⟨o, h, hs⟩, _⟩
    cases ho.symm.trans h
    rw [hr] at hs
    cases hs
  rename_i reason hr
  split
  · rename_i ht
    exact unsaved_spec (fun h => h.2.1 ht) rfl rfl (by simp [Reply.of, Raised.leaseTokenRequired])
  rename_i ht
  have same {r : Reply} (hw : ¬ Accepted env s args) (hr : r ≠ .raised .saveFailed) :
      ExecSpec env s (.ack args now) ok (s.ensureLoaded, r) :=
    unsaved_spec hw (view_ensureLoaded s) (ensureLoaded_file s) hr
  split
  · rename_i hi
    refine same ?_ (by simp [Reply.of, Raised.notFound])
    rintro ⟨_, _, i, h, _⟩
    cases hi.symm.trans h
  rename_i intent hi
  have own : Accepted env s args → intent.tenantId = args.tenantId ∧
      intent.leaseTokenHash = some (env.hashToken args.leaseToken) ∧ intent.state = .claimed := by
    rintro ⟨_, _, i, h, hs⟩
    cases hi.symm.trans h
    exact hs
  split
  · rename_i hten
    exact same (fun h => hten (own h).1) (by simp [Reply.of, Raised.notFound])
  rename_i hten
  split
  · rename_i hhash
    exact same (fun h => hhash (own h).2.1) (by simp [Reply.of, Raised.leaseMismatch])
  rename_i hhash
  split
  · rename_i hterm
    have hw : ¬ Accepted env s args := fun h => terminal_ne_claimed hterm (own h).2.2
    split
    · exact same hw (by simp [Reply.of])
    · exact same hw (by simp [Reply.of, Raised.alreadyFinalized])
  rename_i hterm
  split
  · rename_i hst
    exact same (fun h => hst (own h).2.2) (by simp [Reply.of, Raised.leaseMismatch])
  rename_i hst
  have hacc : Accepted env s args :=
    ⟨⟨outcome, ho, by rw [hr]; rfl⟩, ht, intent, hi, not_not.mp hten, not_not.mp hhash,
      not_not.mp hst⟩
  have hw : Writes env s (.ack args now) ↔ s.view.put
      { intent with state := outcome, reason, updatedAt := now } ≠ s.view := by
    refine ⟨fun _ he => ?_, fun _ => hacc⟩
    have hget := congrArg (fun t => t.get? intent.deliveryId) he
    have hid : intent.deliveryId = args.deliveryId := Table.key_of_get? hi
    simp only [Table.get?_put, if_pos] at hget
    rw [hid, show s.view.get? _ = some intent from hi] at hget
    have := congrArg DeliveryIntent.state (Option.some.inj hget)
    exact hterm (this ▸ ackOutcome_terminal ho)
  refine saved_spec ?_ ?_ hw (by simp)
  · exact ensureLoaded_loaded s
  · exact ensureLoaded_file s

theorem exec_spec (c : Call) (ok : Bool) : ExecSpec env s c ok (s.exec env c ok) := by
  cases c with
  | record args now => exact record_spec args now ok
  | list args now => exact list_spec args now ok
  | claim args now => exact claim_spec args now ok
  | ack args now => exact ack_spec args now ok

/-- An acknowledgement that returns normally leaves its intent terminal. -/
theorem acked_terminal {args : AckArgs} {now : ℚ} {ok : Bool} {res : AckResult}
    (h : (s.exec env (.ack args now) ok).2 = .acked res) :
    ∃ i, (s.exec env (.ack args now) ok).1.view.get? args.deliveryId = some i ∧
      i.state.terminal = true := by
  simp only [exec, Outbox.ack] at h ⊢
  split at h
  · cases h
  rename_i outcome ho
  split at h
  · cases h
  rename_i reason _
  split at h
  · cases h
  rename_i ht
  rw [if_neg ht]
  split at h
  · cases h
  rename_i intent hi
  split at h
  · cases h
  rename_i hten
  split at h
  · cases h
  rename_i hhash
  rw [if_neg hten, if_neg hhash]
  split at h
  · rename_i hterm
    rw [if_pos hterm]
    split at h
    · rename_i hsame
      rw [if_pos hsame]
      exact ⟨intent, by rwa [view_ensureLoaded], hterm⟩
    · cases h
  rename_i hterm
  split at h
  · cases h
  rename_i hst
  rw [if_neg hterm, if_neg hst]
  refine ⟨{ intent with state := outcome, reason, updatedAt := now }, ?_,
    ackOutcome_terminal ho⟩
  rw [view_of_loaded (by simp), save_intents, Table.get?_put, if_pos (Table.key_of_get? hi)]

/-- A call whose save fails hands nothing out. -/
theorem claimOf_false (c : Call) (d : String) : (s.exec env c false).2.claimOf? d = none := by
  cases c with
  | record args now =>
    simp only [exec]
    generalize (s.record env args now false).2 = r
    cases r <;> rfl
  | list args now =>
    simp only [exec]
    generalize (s.listIntents args now false).2 = r
    cases r <;> rfl
  | ack args now =>
    simp only [exec]
    generalize (s.ack env args now false).2 = r
    cases r <;> rfl
  | claim args now =>
    simp only [exec, claim]
    split
    · rfl
    · rename_i hm
      have hnil : claimedBy env args now s.ensureLoaded.drawn
          (maintain now s.ensureLoaded.intents).1 = [] := by
        simp only [Bool.or_eq_true, not_or] at hm
        simpa using hm.1
      simp only [Reply.of, Reply.claimOf?, hnil, List.find?_nil]

end Calls

/-! ## Runs -/

inductive Event where
  | call (c : Call) (saveOk : Bool)
  | restart

def react (env : Env) (s : Outbox) : Event → Outbox × Option Reply
  | .call c saveOk => ((s.exec env c saveOk).1, some (s.exec env c saveOk).2)
  | .restart => (s.restart, none)

/-- A call with changes to write has its save go through. -/
def SaveSafe (env : Env) (s : Outbox) : Event → Prop
  | .call c saveOk => saveOk = true ∨ ¬ Writes env s c
  | .restart => True

section Runs
variable (env : Env) (file : Option (List DeliveryIntent)) (events : ℕ → Event)

/-- The process after `k` events, started over `file`. -/
def processAt (k : ℕ) : Outbox := run (react env) { file } events k

def outcomeAt (k : ℕ) : Option Reply := answer (react env) { file } events k

/-- Event `k` is an acknowledgement of `d` that returned normally, repeated or not. -/
def Acknowledged (d : String) (k : ℕ) : Prop :=
  ∃ args now ok res, events k = .call (.ack args now) ok ∧ args.deliveryId = d ∧
    outcomeAt env file events k = some (.acked res)

/-- Event `k` is a claim that returned `d`. -/
def Claimed (d : String) (k : ℕ) : Prop :=
  ∃ items, outcomeAt env file events k = some (.claimed items) ∧
    ∃ item ∈ items, item.intent.deliveryId = d

/-- Retention has not pruned `d` between the two events. -/
def Retained (d : String) (j k : ℕ) : Prop :=
  ∀ m, j < m → m ≤ k → (processAt env file events m).held d ≠ none

/-- Acknowledged means durable, and a failed save changes nothing. -/
structure AcknowledgedDurable : Prop where
  reload : ∀ d j k, j < k → Acknowledged env file events d j → Retained env file events d j k →
    ∃ i, (loadFile (processAt env file events k).file).get? d = some i ∧ i.state.terminal = true
  unclaimed : ∀ d j k, j < k → Acknowledged env file events d j →
    Retained env file events d j k → ¬ Claimed env file events d k
  unchanged : ∀ k, outcomeAt env file events k = some (.raised .saveFailed) →
    (processAt env file events (k + 1)).view = (processAt env file events k).view

variable {env file events}

theorem processAt_succ (k : ℕ) : processAt env file events (k + 1) =
    (react env (processAt env file events k) (events k)).1 := rfl

theorem outcomeAt_eq (k : ℕ) : outcomeAt env file events k =
    (react env (processAt env file events k) (events k)).2 := rfl

end Runs

/-! ## What a reload shows -/

theorem fromStorage_fromStorage (i : DeliveryIntent) : i.fromStorage.fromStorage = i.fromStorage := by
  simp only [DeliveryIntent.fromStorage]
  split <;> rfl

theorem get?_loadFile {rows : List DeliveryIntent}
    (h : (rows.map DeliveryIntent.deliveryId).Nodup) (d : String) :
    (loadFile (some rows)).get? d =
      (rows.find? fun i => i.deliveryId = d).map DeliveryIntent.fromStorage := by
  have hkeys : ((rows.map DeliveryIntent.fromStorage).map DeliveryIntent.deliveryId).Nodup := by
    rwa [List.map_map]
  rw [Table.get?, loadFile, Option.getD_some, Table.rows_ofRows hkeys, List.find?_map]
  rfl

/-- A reload would show what the process sees. -/
def Synced (s : Outbox) : Prop :=
  ∀ d, (loadFile s.file).get? d = (s.view.get? d).map DeliveryIntent.fromStorage

theorem view_restart (s : Outbox) : s.restart.view = loadFile s.file := rfl

theorem loadFile_normal (file : Option (List DeliveryIntent)) (d : String) :
    ((loadFile file).get? d).map DeliveryIntent.fromStorage = (loadFile file).get? d := by
  cases hi : (loadFile file).get? d with
  | none => rfl
  | some i =>
    obtain ⟨row, _, rfl⟩ := List.mem_map.mp (Table.mem_ofRows (Table.mem_of_get? hi))
    rw [Option.map_some, fromStorage_fromStorage]

theorem synced_start (file : Option (List DeliveryIntent)) : Synced { file } :=
  fun d => (loadFile_normal file d).symm

theorem synced_saved {s : Outbox} (h : s.file = some s.view.rows) : Synced s := by
  intro d
  rw [h, get?_loadFile s.view.nodup]
  rfl

/-- The step lemma: what a reload shows follows the process. -/
theorem synced_step {env : Env} {s : Outbox} {e : Event} (hs : Synced s) (he : SaveSafe env s e) :
    Synced (react env s e).1 := by
  cases e with
  | restart => exact fun d => (loadFile_normal s.file d).symm
  | call c ok =>
    have hspec : ExecSpec env s c ok (s.exec env c ok) := exec_spec c ok
    change Synced (s.exec env c ok).1
    generalize s.exec env c ok = out at hspec
    cases hspec with
    | idle _ hv hf _ =>
      rcases hf with hf | hf
      · intro d
        rw [hf, hv]
        exact hs d
      · exact synced_saved (by rw [hf, hv])
    | wrote _ _ _ hf _ => exact synced_saved hf
    | failed hw hok _ _ =>
      rcases he with he | he
      · rw [he] at hok
        cases hok
      · exact absurd hw he

/-- A terminal intent that is not pruned stays terminal. -/
theorem terminal_persists {env : Env} {s : Outbox} {e : Event} {d : String} {i j : DeliveryIntent}
    (hs : Synced s) (he : SaveSafe env s e) (hi : s.view.get? d = some i)
    (ht : i.state.terminal = true) (hj : (react env s e).1.view.get? d = some j) :
    j.state.terminal = true := by
  cases e with
  | restart =>
    have hr := hs d
    rw [hi, Option.map_some, ← view_restart] at hr
    cases hj.symm.trans hr
    exact ht
  | call c ok =>
    change (s.exec env c ok).1.view.get? d = some j at hj
    rcases he with rfl | hw
    · have hstep : IntentStep env d i c (s.exec env c true).2 (some j) := hj ▸ exec_step c hi
      exact (step_terminal hstep ht).1 ▸ ht
    · have hspec : ExecSpec env s c ok (s.exec env c ok) := exec_spec c ok
      generalize s.exec env c ok = out at hspec hj
      cases hspec with
      | idle _ hv _ _ =>
        rw [hv, hi] at hj
        cases hj
        exact ht
      | wrote h => exact absurd h hw
      | failed h => exact absurd h hw

/-- No event hands out a terminal intent. -/
theorem terminal_unclaimed {env : Env} {s : Outbox} {e : Event} {d : String} {i : DeliveryIntent}
    (hi : s.view.get? d = some i) (ht : i.state.terminal = true) {r : Reply}
    (hr : (react env s e).2 = some r) : r.claimOf? d = none := by
  cases e with
  | restart => cases hr
  | call c ok =>
    cases hr
    cases ok with
    | true => exact step_unclaimed (exec_step c hi) ht
    | false => exact claimOf_false c d

/-- Every save that has something to write goes through, exactly when acknowledgements are
durable and failed calls leave no trace. -/
theorem acknowledged_durable_iff (env : Env) (file : Option (List DeliveryIntent))
    (events : ℕ → Event) : AcknowledgedDurable env file events ↔
      ∀ k, SaveSafe env (processAt env file events k) (events k) := by
  constructor
  · intro h k
    cases hev : events k with
    | restart => trivial
    | call c ok =>
      have hspec : ExecSpec env (processAt env file events k) c ok _ := exec_spec c ok
      have hun := h.unchanged k
      rw [outcomeAt_eq, processAt_succ, hev] at hun
      simp only [react] at hun
      generalize (processAt env file events k).exec env c ok = out at hspec hun
      cases hspec with
      | idle hw => exact Or.inr hw
      | wrote _ hok => exact Or.inl hok
      | failed _ _ hne => exact absurd (hun rfl) hne
  · intro h
    have hsync (k : ℕ) : Synced (processAt env file events k) := by
      induction k with
      | zero => exact synced_start file
      | succ k ih => exact synced_step ih (h k)
    have hterm {d : String} {j k : ℕ} (hjk : j < k) (ha : Acknowledged env file events d j)
        (hr : Retained env file events d j k) :
        ∃ i, (processAt env file events k).view.get? d = some i ∧ i.state.terminal = true := by
      induction k, hjk using Nat.le_induction with
      | base =>
        obtain ⟨args, now, ok, res, hev, rfl, ho⟩ := ha
        rw [outcomeAt_eq, hev] at ho
        rw [processAt_succ, hev]
        exact acked_terminal (Option.some.inj ho)
      | succ k hjk ih =>
        obtain ⟨i, hi, ht⟩ := ih fun m hm hmk => hr m hm (Nat.le_succ_of_le hmk)
        obtain ⟨x, hx⟩ := Option.ne_none_iff_exists'.mp (hr (k + 1) (by omega) le_rfl)
        exact ⟨x, hx, terminal_persists (hsync k) (h k) hi ht hx⟩
    refine ⟨?_, ?_, ?_⟩
    · intro d j k hjk ha hr
      obtain ⟨i, hi, ht⟩ := hterm hjk ha hr
      exact ⟨i.fromStorage, by rw [hsync k d, hi, Option.map_some], ht⟩
    · intro d j k hjk ha hr hc
      obtain ⟨i, hi, ht⟩ := hterm hjk ha hr
      obtain ⟨items, ho, item, hm, rfl⟩ := hc
      have hnone := terminal_unclaimed hi ht ho
      rw [Reply.claimOf?, List.find?_eq_none] at hnone
      simpa using hnone item hm
    · intro k ho
      cases hev : events k with
      | restart =>
        rw [outcomeAt_eq, hev] at ho
        cases ho
      | call c ok =>
        have hspec : ExecSpec env (processAt env file events k) c ok _ := exec_spec c ok
        have hsafe := h k
        rw [outcomeAt_eq, hev] at ho
        rw [processAt_succ, hev]
        rw [hev] at hsafe
        simp only [react, Option.some.injEq] at ho ⊢
        generalize (processAt env file events k).exec env c ok = out at hspec ho
        cases hspec with
        | idle _ hv => exact hv
        | wrote _ _ _ _ hr => exact absurd ho hr
        | failed hw hok =>
          rcases hsafe with hs | hs
          · rw [hs] at hok
            cases hok
          · exact absurd hw hs

/-- The save of the acknowledgement fails; the connector acknowledges again. -/
def lostAckEvents : ℕ → Event
  | 0 => .call (.record dailyRecord 600) true
  | 1 => .call (.claim dailyClaim 615) true
  | 2 => .call (.ack dailyAck 640) false
  | _ => .call (.ack dailyAck 641) true

theorem acked_of_ackOf? {d : String} {c : Call} {r : Reply} {x : String × Bool}
    (h : ackOf? d c r = some x) : ∃ res, r = .acked res := by
  unfold ackOf? at h
  split at h
  · exact ⟨_, rfl⟩
  · cases h

/-- The repeated acknowledgement is answered, and a reload still shows the intent claimed. -/
theorem acknowledged_durable_lost_ack : ¬ AcknowledgedDurable dailyEnv none lostAckEvents := by
  intro h
  have hack : (outcomeAt dailyEnv none lostAckEvents 3).bind
      (ackOf? dailyDelivery (.ack dailyAck 641)) = some (dailyAck.leaseToken, true) := by
    decide +kernel
  obtain ⟨r, hr, hack⟩ := Option.bind_eq_some_iff.mp hack
  obtain ⟨res, rfl⟩ := acked_of_ackOf? hack
  obtain ⟨i, hi, ht⟩ := h.reload dailyDelivery 3 4 (by decide)
    ⟨dailyAck, 641, true, res, rfl, rfl, hr⟩ fun m hm hm4 => by
      obtain rfl : m = 4 := by omega
      decide +kernel
  have hst : ((loadFile (processAt dailyEnv none lostAckEvents 4).file).get? dailyDelivery).map
      DeliveryIntent.state = some .claimed := by decide +kernel
  rw [hi, Option.map_some, Option.some.injEq] at hst
  rw [hst] at ht
  cases ht

end OpenClaw.DeliveryOutbox
