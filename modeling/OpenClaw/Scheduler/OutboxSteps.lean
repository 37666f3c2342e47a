import Mathlib.Data.List.Perm.Basic
import OpenClaw.Scheduler.DeliveryOutbox

/-!
# What one outbox call does to one intent

The inversion lemmas of the outbox. Maintenance keeps an intent, expires it while it is live, or
drops it; a claim then leases it; an acknowledgement finalizes it; nothing else touches it.
-/

namespace OpenClaw.DeliveryOutbox

open Foundation
set_option autoImplicit false

/-- What a maintenance pass may leave of the intent `i`. -/
inductive Maintained (now : ℚ) (i : DeliveryIntent) : Option DeliveryIntent → Prop where
  | kept : Maintained now i (some i)
  | expired (reason : String) : i.state.terminal = false →
      Maintained now i
        (some { i with state := .expired, reason := some reason, updatedAt := now })
  | gone : i.state ≠ .claimed → Maintained now i none

@[simp] theorem expired_terminal : State.expired.terminal = true := by decide
@[simp] theorem pending_terminal : State.pending.terminal = false := by decide
@[simp] theorem claimed_terminal : State.claimed.terminal = false := by decide

theorem terminal_ne_pending {s : State} (h : s.terminal = true) : s ≠ .pending := by
  rintro rfl
  cases h

theorem terminal_ne_claimed {s : State} (h : s.terminal = true) : s ≠ .claimed := by
  rintro rfl
  cases h

theorem eq_pending_or_claimed {s : State} (h : s.terminal = false) : s = .pending ∨ s = .claimed := by
  cases s <;> first | exact Or.inl rfl | exact Or.inr rfl | cases h

theorem ackOutcome_terminal {o : String} {s : State} (h : ackOutcome? o = some s) :
    s.terminal = true := by
  unfold ackOutcome? at h
  split at h <;> cases h <;> decide

theorem expireOrPrune_cases (now : ℚ) (i : DeliveryIntent) :
    Maintained now i (expireOrPrune now i) := by
  unfold expireOrPrune
  split
  · rename_i hp
    exact .expired reasonNotClaimed (by simp [hp.1])
  split
  · rename_i ht
    exact .gone (terminal_ne_claimed ht.1)
  · exact .kept

theorem mem_evictionOrder (m : Intents) (i : DeliveryIntent) : i ∈ evictionOrder m ↔ i ∈ m.rows := by
  cases h : i.state.terminal <;> simp [evictionOrder, h]

theorem evictionOrder_perm (m : Intents) : (evictionOrder m).Perm m.rows :=
  (List.filter_append_perm (fun i : DeliveryIntent => i.state.terminal) _).trans
    (sortedBy_perm _ _)

theorem evictionOrder_nodup (m : Intents) :
    ((evictionOrder m).map DeliveryIntent.deliveryId).Nodup :=
  ((evictionOrder_perm m).map DeliveryIntent.deliveryId).nodup_iff.mpr m.nodup

/-- What evicting does to the intent it is called for. -/
def evicted (now : ℚ) (i : DeliveryIntent) : Option DeliveryIntent :=
  if i.state.terminal then none
  else some { i with state := .expired, reason := some reasonCapacity, updatedAt := now }

theorem get?_evict (now : ℚ) (m : Intents) (i : DeliveryIntent) (d : String) :
    (evict now m i).get? d = if i.deliveryId = d then evicted now i else m.get? d := by
  unfold evict evicted
  split <;> simp

theorem evict_all_get (now : ℚ) (m : Intents) (n : ℕ) (d : String) :
    let after := (((evictionOrder m).take n).foldl (evict now) m).get? d
    after = m.get? d ∨ ∃ i, m.get? d = some i ∧ after = evicted now i := by
  have hn : (((evictionOrder m).take n).map DeliveryIntent.deliveryId).Nodup :=
    ((List.take_sublist n _).map _).nodup (evictionOrder_nodup m)
  simp only [Table.get?_foldl DeliveryIntent.deliveryId (get?_evict now) hn]
  cases hf : ((evictionOrder m).take n).find? fun i => i.deliveryId = d with
  | none => exact Or.inl rfl
  | some i =>
    have hi : i ∈ m.rows :=
      (mem_evictionOrder m i).mp (List.mem_of_mem_take (List.mem_of_find?_eq_some hf))
    have hd : i.deliveryId = d := by simpa using List.find?_some hf
    exact Or.inr ⟨i, hd ▸ Table.get?_key hi, rfl⟩

theorem maintain_get_none {now : ℚ} {m : Intents} {d : String} (h : m.get? d = none) :
    (maintain now m).1.get? d = none := by
  have hk : (m.filterMap (expireOrPrune now) (expireOrPrune_key now)).get? d = none := by simp [h]
  simp only [maintain]
  split
  · rcases evict_all_get now _ _ d with he | ⟨i, hi, _⟩
    · rw [he, hk]
    · rw [hk] at hi
      cases hi
  · exact hk

theorem maintain_get {now : ℚ} {m : Intents} {d : String} {i : DeliveryIntent}
    (h : m.get? d = some i) : Maintained now i ((maintain now m).1.get? d) := by
  have hk : (m.filterMap (expireOrPrune now) (expireOrPrune_key now)).get? d =
      expireOrPrune now i := by simp [h]
  have hc := expireOrPrune_cases now i
  simp only [maintain]
  split
  · rcases evict_all_get now _ _ d with he | ⟨j, hj, he⟩
    · rwa [he, hk]
    · rw [he]
      rw [hk] at hj
      rw [hj] at hc
      -- `j` is what the first loop left of `i`: `i` itself, or `i` freshly expired
      cases hc with
      | kept =>
        cases ht : i.state.terminal with
        | true => simpa [evicted, ht] using Maintained.gone (terminal_ne_claimed ht)
        | false => simpa [evicted, ht] using Maintained.expired reasonCapacity ht
      | expired reason hlive =>
        have hpend : i.state ≠ .claimed := by
          intro hcl
          simp [expireOrPrune, hcl] at hj
          have := congrArg DeliveryIntent.state hj
          simp [hcl] at this
        simpa [evicted] using Maintained.gone hpend
  · rwa [hk]

/-! ## Claims -/

open Outbox

theorem claimed_ids (env : Env) (args : ClaimArgs) (now : ℚ) (n : ℕ) (m : Intents) :
    (claimedBy env args now n m).map (fun c => c.intent.deliveryId) =
      ((sortedBy DeliveryIntent.createdAt (m.rows.filter (claimable args now))).take
        (claimBatch args.limit)).map DeliveryIntent.deliveryId := by
  simp only [claimedBy, List.map_map]
  conv_rhs => rw [← List.zipIdx_map_fst n (List.take _ _), List.map_map]
  rfl

theorem claimed_nodup (env : Env) (args : ClaimArgs) (now : ℚ) (n : ℕ) (m : Intents) :
    ((claimedBy env args now n m).map fun c => c.intent.deliveryId).Nodup := by
  rw [claimed_ids]
  have hs : ((sortedBy DeliveryIntent.createdAt (m.rows.filter (claimable args now))).map
      DeliveryIntent.deliveryId).Nodup :=
    ((sortedBy_perm _ _).map _).nodup_iff.mpr ((List.filter_sublist.map _).nodup m.nodup)
  exact ((List.take_sublist _ _).map _).nodup hs

theorem mem_claimedBy {env : Env} {args : ClaimArgs} {now : ℚ} {n : ℕ} {m : Intents}
    {c : ClaimedIntent} (h : c ∈ claimedBy env args now n m) :
    ∃ i k, i ∈ m.rows ∧ claimable args now i = true ∧
      c = leased env now (claimLease args.leaseSec) i k := by
  obtain ⟨⟨i, k⟩, hik, rfl⟩ := List.mem_map.mp h
  have hi := List.mem_of_mem_take (List.fst_mem_of_mem_zipIdx hik)
  rw [mem_sortedBy, List.mem_filter] at hi
  exact ⟨i, k, hi.1, hi.2, rfl⟩

/-- Storing the claimed intents replaces exactly the claimed ones. -/
theorem claim_get (env : Env) (args : ClaimArgs) (now : ℚ) (n : ℕ) (m : Intents) (d : String) :
    ((claimedBy env args now n m).foldl (fun t c => t.put c.intent) m).get? d =
      ((claimedBy env args now n m).find? fun c => c.intent.deliveryId = d).elim (m.get? d)
        fun c => some c.intent := by
  have hput : ∀ (t : Intents) (c : ClaimedIntent) (k : String), (t.put c.intent).get? k =
      if c.intent.deliveryId = k then some c.intent else t.get? k :=
    fun t c k => Table.get?_put t c.intent k
  exact Table.get?_foldl _ hput (claimed_nodup env args now n m) m d

/-! ## One call, one intent -/

@[simp] theorem save_intents {α : Type} (s : Outbox) (ok : Bool) (a : α) :
    (s.save ok a).1.intents = s.intents := by
  unfold save
  split <;> rfl

@[simp] theorem save_loaded {α : Type} (s : Outbox) (ok : Bool) (a : α) :
    (s.save ok a).1.loaded = s.loaded := by
  unfold save
  split <;> rfl

@[simp] theorem save_drawn {α : Type} (s : Outbox) (ok : Bool) (a : α) :
    (s.save ok a).1.drawn = s.drawn := by
  unfold save
  split <;> rfl

@[simp] theorem ensureLoaded_loaded (s : Outbox) : s.ensureLoaded.loaded = true := by
  unfold ensureLoaded
  split
  · assumption
  · rfl

@[simp] theorem ensureLoaded_drawn (s : Outbox) : s.ensureLoaded.drawn = s.drawn := by
  unfold ensureLoaded
  split <;> rfl

theorem ensureLoaded_of_loaded {s : Outbox} (h : s.loaded = true) : s.ensureLoaded = s := by
  simp [ensureLoaded, h]

theorem held_of_loaded {s : Outbox} (h : s.loaded = true) (d : String) :
    s.held d = s.intents.get? d := by
  rw [held, ensureLoaded_of_loaded h]

/-- The claimed item a reply carries for `d`. -/
def Reply.claimOf? (d : String) : Reply → Option ClaimedIntent
  | .claimed items => items.find? fun c => c.intent.deliveryId = d
  | _ => none

/-- The presented token and the `repeated` flag, when the call is an acknowledgement of `d`
that returned normally. -/
def ackOf? (d : String) : Call → Reply → Option (String × Bool)
  | .ack args _, .acked res => if args.deliveryId = d then some (args.leaseToken, res.repeated) else none
  | _, _ => none

/-- Everything one call may do to the stored intent `i` of `d`, with what its reply then says. -/
inductive IntentStep (env : Env) (d : String) (i : DeliveryIntent) :
    Call → Reply → Option DeliveryIntent → Prop where
  | maintained {c : Call} {r : Reply} {o : Option DeliveryIntent} :
      r.claimOf? d = none → ackOf? d c r = none → Maintained c.now i o → IntentStep env d i c r o
  | leased {args : ClaimArgs} {now : ℚ} {r : Reply} (n : ℕ) :
      claimable args now i = true →
      r.claimOf? d = some (leased env now (claimLease args.leaseSec) i n) →
      IntentStep env d i (.claim args now) r (some (leased env now (claimLease args.leaseSec) i n).intent)
  | finalized {args : AckArgs} {now : ℚ} {outcome : State} {reason : Option String}
      {final : DeliveryIntent} :
      args.deliveryId = d → i.leaseTokenHash = some (env.hashToken args.leaseToken) →
      i.state = .claimed → outcome.terminal = true →
      final = { i with state := outcome, reason, updatedAt := now } →
      IntentStep env d i (.ack args now) (.acked { intent := final, repeated := false }) (some final)
  | repeated {args : AckArgs} {now : ℚ} :
      args.deliveryId = d → i.leaseTokenHash = some (env.hashToken args.leaseToken) →
      i.state.terminal = true →
      IntentStep env d i (.ack args now) (.acked { intent := i, repeated := true }) (some i)

theorem claimable_cases {args : ClaimArgs} {now : ℚ} {i : DeliveryIntent}
    (h : claimable args now i = true) :
    i.state = .pending ∨ (i.state = .claimed ∧ i.leaseExpiresAt.getD 0 ≤ now) := by
  simp only [claimable, decide_eq_true_eq] at h
  exact h.2.2

/-- A terminal intent keeps its state and its reason as long as it is stored. -/
theorem step_terminal {env : Env} {d : String} {i j : DeliveryIntent} {c : Call} {r : Reply}
    (h : IntentStep env d i c r (some j)) (ht : i.state.terminal = true) :
    j.state = i.state ∧ j.reason = i.reason := by
  cases h with
  | maintained _ _ hm =>
    cases hm with
    | kept => exact ⟨rfl, rfl⟩
    | expired _ hlive => rw [ht] at hlive; cases hlive
  | leased n hc _ =>
    rcases claimable_cases hc with hp | ⟨hs, _⟩
    · exact absurd hp (terminal_ne_pending ht)
    · exact absurd hs (terminal_ne_claimed ht)
  | finalized _ _ hs => exact absurd hs (terminal_ne_claimed ht)
  | repeated => exact ⟨rfl, rfl⟩

/-- No claim returns a terminal intent. -/
theorem step_unclaimed {env : Env} {d : String} {i : DeliveryIntent} {c : Call} {r : Reply}
    {o : Option DeliveryIntent} (h : IntentStep env d i c r o) (ht : i.state.terminal = true) :
    r.claimOf? d = none := by
  cases h with
  | maintained hcl _ _ => exact hcl
  | leased n hc _ =>
    rcases claimable_cases hc with hp | ⟨hs, _⟩
    · exact absurd hp (terminal_ne_pending ht)
    · exact absurd hs (terminal_ne_claimed ht)
  | finalized => rfl
  | repeated => rfl

@[simp] theorem save_true {α : Type} (s : Outbox) (a : α) :
    s.save true a = ({ s with file := some s.intents.rows }, .ok a) := rfl

theorem held_ensureLoaded (s : Outbox) (d : String) : s.ensureLoaded.held d = s.held d := by
  rw [held_of_loaded (ensureLoaded_loaded s)]
  rfl

section Calls
variable {env : Env} {s : Outbox} {d : String} {i : DeliveryIntent}

/-- Recording an unknown id: the new intent is stored, then maintenance runs. -/
theorem record_new (args : RecordArgs) (now : ℚ)
    (h : s.held (env.deliveryIdFor args.idempotencyKey) = none) (d : String) :
    (s.exec env (.record args now) true).2 = .recorded (newIntent env args now) ∧
      (s.exec env (.record args now) true).1.held d =
        (maintain now (s.ensureLoaded.intents.put (newIntent env args now))).1.get? d := by
  rw [held] at h
  simp only [exec, record, h, save_true, Reply.of, true_and]
  rw [held_of_loaded (by simp)]

theorem record_step {args : RecordArgs} {now : ℚ} (h : s.held d = some i) :
    IntentStep env d i (.record args now) (s.exec env (.record args now) true).2
      ((s.exec env (.record args now) true).1.held d) := by
  cases hx : s.held (env.deliveryIdFor args.idempotencyKey) with
  | some existing =>
    have he : s.exec env (.record args now) true = (s.ensureLoaded, .recorded existing) := by
      rw [held] at hx
      simp only [exec, record, hx, Reply.of]
    rw [he, held_ensureLoaded, h]
    exact .maintained rfl rfl .kept
  | none =>
    have hne : (newIntent env args now).deliveryId ≠ d := by
      rintro rfl
      rw [newIntent, hx] at h
      cases h
    have hput : (s.ensureLoaded.intents.put (newIntent env args now)).get? d = some i := by
      rw [Table.get?_put, if_neg hne]
      exact h
    obtain ⟨hr, hs⟩ := record_new args now hx d
    rw [hr, hs]
    exact .maintained rfl rfl (maintain_get hput)

theorem list_step {args : ListArgs} {now : ℚ} (h : s.held d = some i) :
    IntentStep env d i (.list args now) (s.exec env (.list args now) true).2
      ((s.exec env (.list args now) true).1.held d) := by
  have hm : Maintained now i _ := maintain_get h
  have he : (∃ found, (s.exec env (.list args now) true).2 = .listed found) ∧
      (s.exec env (.list args now) true).1.held d =
        (maintain now s.ensureLoaded.intents).1.get? d := by
    simp only [exec, listIntents]
    split
    · exact ⟨⟨_, rfl⟩, by rw [held_of_loaded (by simp), save_intents]⟩
    · exact ⟨⟨_, rfl⟩, by rw [held_of_loaded (by simp)]⟩
  obtain ⟨⟨found, hr⟩, hs⟩ := he
  rw [hr, hs]
  exact .maintained rfl rfl hm

/-- What a claim answers, and what it leaves under every id. -/
theorem claim_reply (env : Env) (s : Outbox) (args : ClaimArgs) (now : ℚ) :
    (s.exec env (.claim args now) true).2 = .claimed
        (claimedBy env args now s.drawn (maintain now s.ensureLoaded.intents).1) ∧
      ∀ d, (s.exec env (.claim args now) true).1.held d =
        ((claimedBy env args now s.drawn (maintain now s.ensureLoaded.intents).1).find?
          fun c => c.intent.deliveryId = d).elim
            ((maintain now s.ensureLoaded.intents).1.get? d) fun c => some c.intent := by
  rw [← ensureLoaded_drawn s]
  constructor
  · simp only [exec, claim]
    split <;> rfl
  · intro d
    rw [← claim_get]
    simp only [exec, claim]
    split
    · rw [held_of_loaded (by simp), save_intents]
    · rw [held_of_loaded (by simp)]

theorem claim_step {args : ClaimArgs} {now : ℚ} (h : s.held d = some i) :
    IntentStep env d i (.claim args now) (s.exec env (.claim args now) true).2
      ((s.exec env (.claim args now) true).1.held d) := by
  have hm : Maintained now i _ := maintain_get h
  obtain ⟨hr, hs⟩ := claim_reply env s args now
  rw [hr, hs]
  generalize hk : (maintain now s.ensureLoaded.intents).1 = kept at hm
  cases hf : (claimedBy env args now s.drawn kept).find?
      (fun c => c.intent.deliveryId = d) with
  | none => exact .maintained hf rfl hm
  | some c =>
    obtain ⟨j, n, hj, hcl, rfl⟩ := mem_claimedBy (List.mem_of_find?_eq_some hf)
    have hd : j.deliveryId = d := Table.own_of_find? (fun c : ClaimedIntent => c.intent.deliveryId) hf
    have hj : kept.get? d = some j := hd ▸ Table.get?_key hj
    -- a record that maintenance has just expired is not claimable
    rw [hj] at hm
    cases hm with
    | kept => exact .leased n hcl hf
    | expired reason _ => simp [claimable] at hcl

theorem ack_step {args : AckArgs} {now : ℚ} (h : s.held d = some i) :
    IntentStep env d i (.ack args now) (s.exec env (.ack args now) true).2
      ((s.exec env (.ack args now) true).1.held d) := by
  have same (s' : Outbox) (e : Raised) (hs : s'.held d = some i) :
      IntentStep env d i (.ack args now) (.raised e) (s'.held d) :=
    .maintained rfl rfl (hs ▸ .kept)
  have hl : s.ensureLoaded.held d = some i := by rw [held_ensureLoaded, h]
  simp only [exec, Outbox.ack]
  split
  · exact same s _ h
  rename_i outcome ho
  split
  · exact same s _ h
  rename_i reason _
  split
  · exact same s _ h
  split
  · exact same _ _ hl
  rename_i intent hi
  split
  · exact same _ _ hl
  split
  · exact same _ _ hl
  rename_i hhash
  have hhash : intent.leaseTokenHash = some (env.hashToken args.leaseToken) := not_not.mp hhash
  have hown (hd : args.deliveryId = d) : intent = i := by
    rw [hd] at hi
    rw [held, hi] at h
    exact Option.some.inj h
  split
  · rename_i hterm
    split
    · simp only [Reply.of]
      rw [hl]
      by_cases hd : args.deliveryId = d
      · obtain rfl := hown hd
        exact .repeated hd hhash hterm
      · exact .maintained rfl (by simp [ackOf?, hd]) .kept
    · exact same _ _ hl
  split
  · exact same _ _ hl
  rename_i hst
  have hst : intent.state = .claimed := not_not.mp hst
  have hid : intent.deliveryId = args.deliveryId := Table.key_of_get? hi
  simp only [save_true, Reply.of]
  rw [held_of_loaded (by simp)]
  by_cases hd : args.deliveryId = d
  · obtain rfl := hown hd
    rw [Table.get?_put, if_pos (hid.trans hd)]
    exact .finalized hd hhash hst (ackOutcome_terminal ho) rfl
  · rw [Table.get?_put, if_neg fun he => hd (hid.symm.trans he)]
    refine .maintained rfl (by simp [ackOf?, hd]) ?_
    rw [show s.ensureLoaded.intents.get? d = some i from h]
    exact .kept

/-- The inversion lemma of the outbox: one call, one stored intent. -/
theorem exec_step (c : Call) (h : s.held d = some i) :
    IntentStep env d i c (s.exec env c true).2 ((s.exec env c true).1.held d) := by
  cases c with
  | record args now => exact record_step h
  | list args now => exact list_step h
  | claim args now => exact claim_step h
  | ack args now => exact ack_step h

/-! ## Ids the outbox does not hold -/

/-- The call stores a new intent under `d`. -/
def Call.records (env : Env) (s : Outbox) (d : String) : Call → Prop
  | .record args _ => env.deliveryIdFor args.idempotencyKey = d ∧ s.held d = none
  | _ => False

/-- An id that is not held stays so, and no claim returns it, until a record stores it. -/
theorem exec_absent {c : Call} (h : s.held d = none) (hc : ¬ c.records env s d) :
    (s.exec env c true).1.held d = none ∧ (s.exec env c true).2.claimOf? d = none := by
  have hm (now : ℚ) : (maintain now s.ensureLoaded.intents).1.get? d = none := maintain_get_none h
  cases c with
  | record args now =>
    cases hx : s.held (env.deliveryIdFor args.idempotencyKey) with
    | some existing =>
      rw [held] at hx
      simp only [exec, record, hx, Reply.of]
      exact ⟨(held_ensureLoaded s d).trans h, rfl⟩
    | none =>
      have hne : ¬ (newIntent env args now).deliveryId = d := fun he => hc ⟨he, h⟩
      obtain ⟨hr, hs⟩ := record_new args now hx d
      rw [hr, hs]
      refine ⟨maintain_get_none ?_, rfl⟩
      rw [Table.get?_put, if_neg hne]
      exact h
  | list args now =>
    simp only [exec, listIntents]
    split
    · exact ⟨by rw [held_of_loaded (by simp), save_intents]; exact hm now, rfl⟩
    · exact ⟨by rw [held_of_loaded (by simp)]; exact hm now, rfl⟩
  | claim args now =>
    obtain ⟨hr, hs⟩ := claim_reply env s args now
    have hnone : (claimedBy env args now s.drawn (maintain now s.ensureLoaded.intents).1).find?
        (fun c => c.intent.deliveryId = d) = none := by
      rw [List.find?_eq_none]
      intro c hmem hid
      obtain ⟨j, n, hj, _, rfl⟩ := mem_claimedBy hmem
      have hget := Table.get?_key hj
      have hid : j.deliveryId = d := of_decide_eq_true hid
      rw [hid, hm now] at hget
      cases hget
    rw [hr, hs, hnone]
    exact ⟨hm now, hnone⟩
  | ack args now =>
    have hl : s.ensureLoaded.held d = none := (held_ensureLoaded s d).trans h
    simp only [exec, Outbox.ack]
    repeat' split
    all_goals try exact ⟨‹_›, rfl⟩
    rename_i intent hi _ _ _ _
    have hne : ¬ intent.deliveryId = d := by
      intro he
      rw [Table.key_of_get? hi] at he
      rw [held, ← he, hi] at h
      cases h
    simp only [save_true, Reply.of]
    rw [held_of_loaded (by simp), Table.get?_put, if_neg hne]
    exact ⟨h, rfl⟩

/-- Nothing can hand `d` out any more: it is not held, or finalized. -/
def Closed (s : Outbox) (d : String) : Prop := ∀ i ∈ s.held d, i.state.terminal = true

theorem closed_step {c : Call} (h : Closed s d) (hc : ¬ c.records env s d) :
    Closed (s.exec env c true).1 d ∧ (s.exec env c true).2.claimOf? d = none := by
  cases hd : s.held d with
  | none =>
    obtain ⟨habs, hcl⟩ := exec_absent hd hc
    exact ⟨fun i hi => (by rw [habs] at hi; cases hi), hcl⟩
  | some i =>
    have ht := h i hd
    have hstep : IntentStep env d i c _ _ := exec_step c hd
    refine ⟨fun j hj => ?_, step_unclaimed hstep ht⟩
    rw [Option.mem_def.mp hj] at hstep
    rw [(step_terminal hstep ht).1]
    exact ht

/-- An acknowledgement is accepted with the token on record, and closes its intent. -/
theorem acked_step {args : AckArgs} {now : ℚ} {res : AckResult}
    (hr : (s.exec env (.ack args now) true).2 = .acked res) :
    ∃ i, s.held args.deliveryId = some i ∧
      i.leaseTokenHash = some (env.hashToken args.leaseToken) ∧
        Closed (s.exec env (.ack args now) true).1 args.deliveryId := by
  cases hd : s.held args.deliveryId with
  | none =>
    rw [held] at hd
    simp only [exec, Outbox.ack, hd] at hr
    repeat' split at hr
    all_goals cases hr
  | some i =>
    have hstep : IntentStep env args.deliveryId i (.ack args now) _ _ := ack_step hd
    rw [hr] at hstep
    unfold Closed
    generalize (s.exec env (.ack args now) true).1.held args.deliveryId = o at hstep
    cases hstep with
    | maintained _ hack _ => simp [ackOf?] at hack
    | finalized _ hhash _ hterm hfin =>
      refine ⟨i, rfl, hhash, fun j hj => ?_⟩
      cases hj
      rw [hfin]
      exact hterm
    | repeated _ hhash hterm =>
      refine ⟨i, rfl, hhash, fun j hj => ?_⟩
      cases hj
      exact hterm

/-! ## Lease tokens -/

theorem drawn_mono (c : Call) : s.drawn ≤ (s.exec env c true).1.drawn := by
  cases c with
  | record args now =>
    simp only [exec, record]
    split <;> simp
  | list args now =>
    simp only [exec, listIntents]
    split <;> simp
  | claim args now =>
    simp only [exec, claim]
    split <;> simp
  | ack args now =>
    simp only [exec, Outbox.ack]
    repeat' split
    all_goals simp

theorem claim_drawn (s : Outbox) (args : ClaimArgs) (now : ℚ) :
    (s.exec env (.claim args now) true).1.drawn = s.drawn +
      (claimedBy env args now s.drawn (maintain now s.ensureLoaded.intents).1).length := by
  simp only [exec, claim, ensureLoaded_drawn]
  split <;> simp

/-- A claimed item carries a token of this call, and the stored intent its hash. -/
theorem claim_tokens {args : ClaimArgs} {now : ℚ} {items : List ClaimedIntent}
    (hr : (s.exec env (.claim args now) true).2 = .claimed items) {c : ClaimedIntent}
    (hc : c ∈ items) : ∃ n, s.drawn ≤ n ∧ n < (s.exec env (.claim args now) true).1.drawn ∧
      c.leaseToken = env.tokenUrlsafe n ∧
      (s.exec env (.claim args now) true).1.held c.intent.deliveryId = some c.intent ∧
      c.intent.leaseTokenHash = some (env.hashToken (env.tokenUrlsafe n)) := by
  obtain ⟨hrep, hheld⟩ := claim_reply env s args now
  rw [hrep, Reply.claimed.injEq] at hr
  subst hr
  obtain ⟨⟨i, k⟩, hik, rfl⟩ := List.mem_map.mp hc
  have hlen : (s.exec env (.claim args now) true).1.drawn = s.drawn +
      (claimedBy env args now s.drawn (maintain now s.ensureLoaded.intents).1).length :=
    claim_drawn s args now
  obtain ⟨hlo, hhi, _⟩ := List.mem_zipIdx hik
  refine ⟨k, hlo, ?_, rfl, ?_, rfl⟩
  · rw [hlen, claimedBy, List.length_map, List.length_zipIdx]
    exact hhi
  · rw [hheld, Table.find?_of_nodup (claimed_nodup env args now s.drawn _) hc]
    rfl

/-- The token on record for `d` is the old one or was drawn in this call. -/
theorem hash_step {c : Call} {j : DeliveryIntent} (hj : (s.exec env c true).1.held d = some j) :
    j.leaseTokenHash = none ∨ (∃ i, s.held d = some i ∧ j.leaseTokenHash = i.leaseTokenHash) ∨
      ∃ n, s.drawn ≤ n ∧ j.leaseTokenHash = some (env.hashToken (env.tokenUrlsafe n)) := by
  cases hd : s.held d with
  | none =>
    by_cases hc : c.records env s d
    · cases c with
      | record args now =>
        left
        obtain ⟨hid, _⟩ := hc
        have hnew := (record_new args now (hid.symm ▸ hd) d).2
        have hkey : (newIntent env args now).deliveryId = d := hid
        have hput : (s.ensureLoaded.intents.put (newIntent env args now)).get? d =
            some (newIntent env args now) := by rw [Table.get?_put, if_pos hkey]
        have hm : Maintained now _ _ := maintain_get hput
        rw [← hnew, hj] at hm
        cases hm <;> rfl
      | _ => exact hc.elim
    · rw [(exec_absent hd hc).1] at hj
      cases hj
  | some i =>
    right
    have hstep : IntentStep env d i c _ _ := exec_step c hd
    rw [hj] at hstep
    generalize hr : (s.exec env c true).2 = r at hstep
    cases hstep with
    | maintained _ _ hm =>
      left
      cases hm <;> exact ⟨_, rfl, rfl⟩
    | leased n _ hcl =>
      right
      obtain ⟨items, rfl⟩ : ∃ items, r = .claimed items := by
        cases r <;> first | exact ⟨_, rfl⟩ | cases hcl
      obtain ⟨n', hlo, _, _, _, hhash⟩ := claim_tokens hr (List.mem_of_find?_eq_some hcl)
      exact ⟨n', hlo, hhash⟩
    | finalized _ _ _ _ hfin =>
      left
      rw [hfin]
      exact ⟨_, rfl, rfl⟩
    | repeated => exact Or.inl ⟨_, rfl, rfl⟩

end Calls

end OpenClaw.DeliveryOutbox
