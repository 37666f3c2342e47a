import OpenClaw.Foundation.TextBytes
import OpenClaw.Scheduler.OutboxDurability
import Mathlib.Tactic.NormNum

/-!
# The limit of the delivery outbox

A record that stores a new intent may find the outbox full. Maintenance then makes one intent go:
a terminal one is deleted, and a live one is only expired, which frees no place. What is promised
about the limit holds as long as a terminal intent from before the call is the first to go.
-/

namespace OpenClaw.DeliveryOutbox

open Foundation Outbox
set_option autoImplicit false

/-- The intents after the first loop of `_maintain`. -/
def swept (now : ℚ) (m : Intents) : Intents :=
  m.filterMap (expireOrPrune now) (expireOrPrune_key now)

@[simp] theorem get?_swept (now : ℚ) (m : Intents) (d : String) :
    (swept now m).get? d = (m.get? d).bind (expireOrPrune now) :=
  Table.get?_filterMap m _ (expireOrPrune_key now) d

theorem maintain_of_fits {now : ℚ} {m : Intents} (h : (swept now m).size ≤ maxRecords) :
    (maintain now m).1 = swept now m := by
  have hno : ¬0 < (swept now m).size - maxRecords := by omega
  rw [maintain]
  exact congrArg Prod.fst (if_neg hno)

theorem maintain_of_full {now : ℚ} {m : Intents} (h : (swept now m).size = maxRecords + 1)
    {i : DeliveryIntent} (hi : (evictionOrder (swept now m)).head? = some i) :
    (maintain now m).1 = evict now (swept now m) i := by
  have hone : (swept now m).size - maxRecords = 1 := by omega
  obtain ⟨rest, hrest⟩ := List.head?_eq_some_iff.mp hi
  have hmain : (maintain now m).1 = ((evictionOrder (swept now m)).take
      ((swept now m).size - maxRecords)).foldl (evict now) (swept now m) := by
    rw [maintain]
    exact congrArg Prod.fst (if_pos (by omega : 0 < (swept now m).size - maxRecords))
  rw [hmain, hone, hrest]
  rfl

/-- The terminal intent with the oldest update, the first stored one of equals. -/
def OldestTerminal (m : Intents) (i : DeliveryIntent) : Prop :=
  FirstBy DeliveryIntent.updatedAt (fun i => i.state.terminal) m.rows i

theorem head?_evictionOrder {m : Intents} {i : DeliveryIntent}
    (h : (evictionOrder m).head? = some i) : OldestTerminal m i ∨
      i.state.terminal = false ∧ ∀ j ∈ m.rows, j.state.terminal = false := by
  rw [evictionOrder, List.head?_append, List.head?_filter, List.head?_filter,
    Option.or_eq_some_iff] at h
  rcases h with h | ⟨hnone, h⟩
  · exact .inl ((find?_sortedBy _ _ _ i).mp h)
  · have hall : ∀ j ∈ m.rows, j.state.terminal = false := by simpa using hnone
    exact .inr ⟨by simpa using List.find?_some h, hall⟩

theorem head?_of_oldest {m : Intents} {i : DeliveryIntent} (h : OldestTerminal m i) :
    (evictionOrder m).head? = some i := by
  have hfind := (find?_sortedBy _ _ _ i).mpr h
  rw [evictionOrder, List.head?_append, List.head?_filter, hfind]
  rfl

/-! ## Calls that store nothing new -/

/-- No more intents than before, and every live one is still there. -/
structure Keeps (m m' : Intents) : Prop where
  size : m'.size ≤ m.size
  live : ∀ d i, m.get? d = some i → i.state.terminal = false → m'.get? d ≠ none

theorem Keeps.refl (m : Intents) : Keeps m m := by
  refine ⟨Nat.le_refl _, fun d i hi _ hnone => ?_⟩
  rw [hi] at hnone
  cases hnone

theorem keeps_swept (now : ℚ) (m : Intents) : Keeps m (swept now m) := by
  refine ⟨Table.size_filterMap_le m _ _, fun d i hi hlive hnone => ?_⟩
  rw [get?_swept, hi, Option.bind_some] at hnone
  unfold expireOrPrune at hnone
  split at hnone
  · cases hnone
  split at hnone
  · rename_i hterm
    rw [hterm.1] at hlive
    cases hlive
  · cases hnone

/-- Storing under ids that are there changes neither the size nor the ids. -/
theorem Keeps.put {m m' : Intents} (h : Keeps m m') {i : DeliveryIntent}
    (hi : m'.get? i.deliveryId ≠ none) : Keeps m (m'.put i) := by
  obtain ⟨hsize, hlive⟩ := h
  constructor
  · rw [Table.size_put, if_pos (Option.ne_none_iff_isSome.mp hi)]
    exact hsize
  · intro d j hj hterm
    rw [Table.get?_put]
    split
    · exact Option.some_ne_none i
    · exact hlive d j hj hterm

theorem Keeps.putAll {m : Intents} (items : List ClaimedIntent) : ∀ {m' : Intents}, Keeps m m' →
    (∀ c ∈ items, m'.get? c.intent.deliveryId ≠ none) →
    Keeps m (items.foldl (fun t c => t.put c.intent) m') := by
  induction items with
  | nil => exact fun h _ => h
  | cons c items ih =>
    intro m' h hitems
    apply ih (h.put (hitems c List.mem_cons_self))
    intro c' hc'
    rw [Table.get?_put]
    split
    · exact Option.some_ne_none _
    · exact hitems c' (List.mem_cons_of_mem c hc')

section Calls
variable {env : Env} {s : Outbox}

theorem record_existing {args : RecordArgs} {i : DeliveryIntent} (now : ℚ) (ok : Bool)
    (h : s.view.get? (env.deliveryIdFor args.idempotencyKey) = some i) :
    s.exec env (.record args now) ok = (s.ensureLoaded, .recorded i) := by
  rw [view] at h
  simp only [exec, record, h, Reply.of]

theorem record_view {args : RecordArgs} (now : ℚ) (ok : Bool)
    (h : s.view.get? (env.deliveryIdFor args.idempotencyKey) = none) :
    (s.exec env (.record args now) ok).1.view =
      (maintain now (s.view.put (newIntent env args now))).1 := by
  rw [view] at h
  simp only [exec, record, h]
  rw [view_of_loaded (by simp), save_intents]
  rfl

theorem record_reply {args : RecordArgs} (now : ℚ) (ok : Bool)
    (h : s.view.get? (env.deliveryIdFor args.idempotencyKey) = none) :
    (s.exec env (.record args now) ok).2 =
      if ok then .recorded (newIntent env args now) else .raised .saveFailed := by
  rw [view] at h
  cases ok <;> simp only [exec, record, h, save, Reply.of] <;> rfl

theorem list_view (args : ListArgs) (now : ℚ) (ok : Bool) :
    (s.exec env (.list args now) ok).1.view = (maintain now s.view).1 := by
  simp only [exec, listIntents]
  split
  · rw [view_of_loaded (by simp), save_intents]
    rfl
  · rw [view_of_loaded (by simp)]
    rfl

theorem claim_view (args : ClaimArgs) (now : ℚ) (ok : Bool) :
    (s.exec env (.claim args now) ok).1.view =
      (claimedBy env args now s.drawn (maintain now s.view).1).foldl (fun t c => t.put c.intent)
        (maintain now s.view).1 := by
  rw [← ensureLoaded_drawn s]
  simp only [exec, claim]
  split
  · rw [view_of_loaded (by simp), save_intents]
    rfl
  · rw [view_of_loaded (by simp)]
    rfl

variable (env s) in
theorem ack_view (args : AckArgs) (now : ℚ) (ok : Bool) :
    (s.exec env (.ack args now) ok).1.view = s.view ∨
      ∃ final, s.view.get? final.deliveryId ≠ none ∧
        (s.exec env (.ack args now) ok).1.view = s.view.put final := by
  simp only [exec, Outbox.ack]
  repeat' split
  all_goals try exact .inl (view_ensureLoaded s)
  all_goals try exact .inl rfl
  rename_i intent hi _ _ _ _
  refine .inr ⟨_, ?_, by rw [view_of_loaded (by simp), save_intents]; rfl⟩
  have hid : intent.deliveryId = args.deliveryId := Table.key_of_get? hi
  change s.view.get? intent.deliveryId ≠ none
  rw [hid, view, hi]
  exact Option.some_ne_none intent

/-- The call stores a new intent. -/
def Stores (env : Env) (s : Outbox) : Call → Prop
  | .record args _ => s.view.get? (env.deliveryIdFor args.idempotencyKey) = none
  | _ => False

theorem keeps_of_not_stores {c : Call} (hc : ¬Stores env s c) (ok : Bool)
    (hs : s.view.size ≤ maxRecords) : Keeps s.view (s.exec env c ok).1.view := by
  have hmain : ∀ now, (maintain now s.view).1 = swept now s.view := fun now =>
    maintain_of_fits ((keeps_swept now s.view).size.trans hs)
  cases c with
  | record args now =>
    obtain ⟨i, hi⟩ := Option.ne_none_iff_exists'.mp hc
    rw [record_existing now ok hi, view_ensureLoaded]
    exact .refl _
  | list args now =>
    rw [list_view, hmain]
    exact keeps_swept now s.view
  | claim args now =>
    rw [claim_view, hmain]
    apply (keeps_swept now s.view).putAll
    intro c hc
    obtain ⟨i, k, hi, -, rfl⟩ := mem_claimedBy hc
    have hget : (swept now s.view).get? i.deliveryId = some i := Table.get?_key hi
    change (swept now s.view).get? i.deliveryId ≠ none
    rw [hget]
    exact Option.some_ne_none i
  | ack args now =>
    rcases ack_view env s args now ok with h | ⟨final, hfinal, h⟩
    · rw [h]
      exact .refl _
    · rw [h]
      exact (Keeps.refl _).put hfinal

/-! ## Storing a new intent -/

/-- What one call promises: the limit, that a recorded intent is stored, and that no live intent
disappears. -/
structure Lossless (env : Env) (s : Outbox) (c : Call) (ok : Bool) : Prop where
  bounded : (s.exec env c ok).1.view.size ≤ maxRecords
  stored : ∀ args now i, c = .record args now → (s.exec env c ok).2 = .recorded i →
    (s.exec env c ok).1.view.get? (env.deliveryIdFor args.idempotencyKey) = some i
  visible : ∀ d i, s.view.get? d = some i → i.state.terminal = false →
    (s.exec env c ok).1.view.get? d ≠ none

/-- The intents a record of something new hands to the eviction. -/
def stocked (env : Env) (s : Outbox) (args : RecordArgs) (now : ℚ) : Intents :=
  swept now (s.view.put (newIntent env args now))

/-- There is a place for what the call stores: after expiring and pruning the limit is not exceeded,
or the oldest terminal intent was there before the call and terminal. A record whose save fails
returns nothing, so there it may be the new intent too. -/
def Room (env : Env) (s : Outbox) (ok : Bool) : Call → Prop
  | .record args now => s.view.get? (env.deliveryIdFor args.idempotencyKey) = none →
      (stocked env s args now).size ≤ maxRecords ∨
      ∃ i, OldestTerminal (stocked env s args now) i ∧
        (i ∈ s.view.rows ∨ ok = false ∧ i.deliveryId = env.deliveryIdFor args.idempotencyKey)
  | _ => True

theorem expireOrPrune_newIntent (env : Env) (args : RecordArgs) (now : ℚ) :
    expireOrPrune now (newIntent env args now) = some (newIntent env args now) := by
  have hpending : ¬((newIntent env args now).state = .pending ∧
      now - (newIntent env args now).createdAt > pendingTtlSec) := by
    rintro ⟨-, h⟩
    have hnot : ¬now - now > pendingTtlSec := by
      rw [sub_self, pendingTtlSec]
      norm_num
    exact hnot h
  have hterm : ¬((newIntent env args now).state.terminal ∧
      now - (newIntent env args now).updatedAt > terminalRetentionSec) := by
    rintro ⟨-, h⟩
    have hnot : ¬now - now > terminalRetentionSec := by
      rw [sub_self, terminalRetentionSec]
      norm_num
    exact hnot h
  rw [expireOrPrune, if_neg hpending, if_neg hterm]

section Stock
variable {args : RecordArgs} {now : ℚ}
theorem stocked_new : (stocked env s args now).get? (env.deliveryIdFor args.idempotencyKey) =
    some (newIntent env args now) := by
  have hput : (s.view.put (newIntent env args now)).get? (env.deliveryIdFor args.idempotencyKey) =
      some (newIntent env args now) := by
    rw [Table.get?_put]
    exact if_pos rfl
  rw [stocked, get?_swept, hput]
  exact expireOrPrune_newIntent env args now

theorem stocked_other {d : String} (hd : d ≠ env.deliveryIdFor args.idempotencyKey) :
    (stocked env s args now).get? d = (s.view.get? d).bind (expireOrPrune now) := by
  rw [stocked, get?_swept, Table.get?_put]
  rw [if_neg (fun h : (newIntent env args now).deliveryId = d => hd h.symm)]

variable (env s args now) in
theorem stocked_size : (stocked env s args now).size ≤ s.view.size + 1 := by
  refine (Table.size_filterMap_le _ _ (expireOrPrune_key now)).trans ?_
  rw [Table.size_put]
  split
  · exact Nat.le_succ _
  · exact Nat.le_refl _

/-- Where an intent that is handed to the eviction comes from. -/
theorem stocked_cases {i : DeliveryIntent} (hi : i ∈ (stocked env s args now).rows) :
    i ∈ s.view.rows ∨ i = newIntent env args now ∨
      ∃ j, s.view.get? i.deliveryId = some j ∧ j.state.terminal = false := by
  have hget : (stocked env s args now).get? i.deliveryId = some i := Table.get?_key hi
  by_cases hd : i.deliveryId = env.deliveryIdFor args.idempotencyKey
  · rw [hd, stocked_new] at hget
    exact .inr (.inl (Option.some.inj hget).symm)
  · rw [stocked_other hd] at hget
    obtain ⟨j, hj, hexp⟩ := Option.bind_eq_some_iff.mp hget
    cases hlive : j.state.terminal with
    | false => exact .inr (.inr ⟨j, hj, hlive⟩)
    | true =>
      have hsame := expireOrPrune_cases now j
      rw [hexp] at hsame
      cases hsame with
      | kept => exact .inl (Table.mem_of_get? hj)
      | expired reason hno =>
        rw [hlive] at hno
        cases hno

variable (habs : s.view.get? (env.deliveryIdFor args.idempotencyKey) = none)
include habs

theorem stocked_live {d : String} {i : DeliveryIntent} (hi : s.view.get? d = some i)
    (hlive : i.state.terminal = false) : (stocked env s args now).get? d ≠ none := by
  have hd : d ≠ env.deliveryIdFor args.idempotencyKey := by
    intro h
    rw [h, habs] at hi
    cases hi
  rw [stocked_other hd, ← get?_swept]
  exact (keeps_swept now s.view).live d i hi hlive

theorem lossless_of_fits (ok : Bool) (hsize : (stocked env s args now).size ≤ maxRecords) :
    Lossless env s (.record args now) ok := by
  have hview : (s.exec env (.record args now) ok).1.view = stocked env s args now := by
    rw [record_view now ok habs]
    exact maintain_of_fits hsize
  constructor
  · rw [hview]
    exact hsize
  · intro args' now' i hc hr
    cases hc
    rw [record_reply now ok habs] at hr
    split at hr
    · cases hr
      rw [hview]
      exact stocked_new
    · cases hr
  · intro d i hi hlive
    rw [hview]
    exact stocked_live habs hi hlive

section Full
variable (hfull : (stocked env s args now).size = maxRecords + 1) {i : DeliveryIntent}
variable (hi : (evictionOrder (stocked env s args now)).head? = some i)
include hfull hi

theorem full_view (ok : Bool) : (s.exec env (.record args now) ok).1.view =
    evict now (stocked env s args now) i := by
  rw [record_view now ok habs]
  exact maintain_of_full hfull hi

/-- An old terminal intent makes room. -/
theorem lossless_of_oldest (ok : Bool) (hterm : i.state.terminal = true)
    (hold : i ∈ s.view.rows ∨ ok = false ∧ i.deliveryId = env.deliveryIdFor args.idempotencyKey) :
    Lossless env s (.record args now) ok := by
  have hview := full_view habs hfull hi ok
  have hrows : i ∈ (stocked env s args now).rows :=
    (mem_evictionOrder _ i).mp (List.mem_of_head? hi)
  have hdrop : (s.exec env (.record args now) ok).1.view =
      (stocked env s args now).drop i.deliveryId := by
    rw [hview, evict, if_pos hterm]
  constructor
  · have hlen := (Table.perm_cons_filter (stocked env s args now).nodup hrows).length_eq
    have hsize : (stocked env s args now).size = ((stocked env s args now).drop i.deliveryId).size + 1 :=
      hlen
    rw [hdrop]
    omega
  · intro args' now' j hc hr
    cases hc
    rw [record_reply now ok habs] at hr
    split at hr
    · rename_i hok
      cases hr
      have hne : i.deliveryId ≠ env.deliveryIdFor args.idempotencyKey := by
        rcases hold with hmem | ⟨hfalse, -⟩
        · intro hid
          have hget : s.view.get? i.deliveryId = some i := Table.get?_key hmem
          rw [hid, habs] at hget
          cases hget
        · rw [hok] at hfalse
          cases hfalse
      rw [hdrop, Table.get?_drop, if_neg (fun h => hne h)]
      exact stocked_new
    · cases hr
  · intro d j hj hlive
    have hne : i.deliveryId ≠ d := by
      rintro rfl
      rcases hold with hmem | ⟨-, hid⟩
      · have hget : s.view.get? i.deliveryId = some i := Table.get?_key hmem
        rw [hj] at hget
        cases hget
        rw [hterm] at hlive
        cases hlive
      · rw [hid, habs] at hj
        cases hj
    rw [hdrop, Table.get?_drop, if_neg hne]
    exact stocked_live habs hj hlive

theorem room_of_lossless {ok : Bool} (h : Lossless env s (.record args now) ok) :
    ∃ i, OldestTerminal (stocked env s args now) i ∧
      (i ∈ s.view.rows ∨ ok = false ∧ i.deliveryId = env.deliveryIdFor args.idempotencyKey) := by
  have hview := full_view habs hfull hi ok
  have hrows : i ∈ (stocked env s args now).rows :=
    (mem_evictionOrder _ i).mp (List.mem_of_head? hi)
  rcases head?_evictionOrder hi with hold | ⟨hlive, -⟩
  · have hdrop : (s.exec env (.record args now) ok).1.view =
        (stocked env s args now).drop i.deliveryId := by
      rw [hview, evict, if_pos hold.mem.2]
    have hgone : (s.exec env (.record args now) ok).1.view.get? i.deliveryId = none := by
      rw [hdrop, Table.get?_drop, if_pos rfl]
    refine ⟨i, hold, ?_⟩
    rcases stocked_cases hrows with hmem | rfl | ⟨j, hj, hlive⟩
    · exact .inl hmem
    · -- the new intent goes at once; only a failed save keeps it from being returned
      cases ok with
      | false => exact .inr ⟨rfl, rfl⟩
      | true =>
        have hstored := h.stored args now (newIntent env args now) rfl (record_reply now true habs)
        rw [show env.deliveryIdFor args.idempotencyKey = (newIntent env args now).deliveryId from rfl,
          hgone] at hstored
        cases hstored
    · exact absurd hgone (h.visible _ j hj hlive)
  · -- expiring a live intent frees no place
    have hbound := h.bounded
    have hthere : (stocked env s args now).get? i.deliveryId = some i := Table.get?_key hrows
    rw [hview, evict, if_neg (by simp [hlive]), Table.size_put, hthere] at hbound
    simp only [Option.isSome_some, if_true] at hbound
    omega

end Full

end Stock

/-- From below the limit, a call keeps its promises exactly when it has room. -/
theorem lossless_iff (c : Call) (ok : Bool) (hs : s.view.size ≤ maxRecords) :
    Lossless env s c ok ↔ Room env s ok c := by
  by_cases hc : Stores env s c
  · cases c with
    | record args now =>
      have habs : s.view.get? (env.deliveryIdFor args.idempotencyKey) = none := hc
      by_cases hsize : (stocked env s args now).size ≤ maxRecords
      · exact ⟨fun _ _ => .inl hsize, fun _ => lossless_of_fits habs ok hsize⟩
      · have hle := stocked_size env s args now
        have hfull : (stocked env s args now).size = maxRecords + 1 := by omega
        obtain ⟨i, hi⟩ : ∃ i, (evictionOrder (stocked env s args now)).head? = some i := by
          cases horder : evictionOrder (stocked env s args now) with
          | nil =>
            have hlen := (evictionOrder_perm (stocked env s args now)).length_eq
            rw [horder, show (stocked env s args now).rows.length = maxRecords + 1 from hfull] at hlen
            cases hlen
          | cons i rest => exact ⟨i, rfl⟩
        constructor
        · exact fun h _ => .inr (room_of_lossless habs hfull hi h)
        · intro h
          rcases h habs with hfits | ⟨j, hj, hold⟩
          · exact absurd hfits hsize
          · have hsame := head?_of_oldest hj
            rw [hi] at hsame
            cases hsame
            exact lossless_of_oldest habs hfull hi ok hj.mem.2 hold
    | _ => exact hc.elim
  · have hroom : Room env s ok c := by
      cases c with
      | record args now => exact fun habs => absurd habs hc
      | _ => trivial
    have hkeeps := keeps_of_not_stores hc ok hs
    refine ⟨fun _ => hroom, fun _ => ⟨hkeeps.size.trans hs, ?_, hkeeps.live⟩⟩
    rintro args now i rfl hr
    obtain ⟨j, hj⟩ := Option.ne_none_iff_exists'.mp hc
    rw [record_existing now ok hj] at hr ⊢
    cases hr
    rw [view_ensureLoaded]
    exact hj

end Calls

/-! ## Runs -/

section Runs
variable (env : Env) (s : Outbox) (calls : ℕ → Call × Bool)

/-- The outbox before call `k`; with each call comes whether its save goes through. -/
def storeAt (k : ℕ) : Outbox := run (fun s c => s.exec env c.1 c.2) s calls k

def answerAt (k : ℕ) : Reply := answer (fun s c => s.exec env c.1 c.2) s calls k

/-- The outbox stays within its limit, a recorded intent is stored and returned again, and a live
intent leaves only after it was seen in a terminal state. -/
structure NoSilentLoss : Prop where
  bounded : ∀ k, (storeAt env s calls (k + 1)).view.size ≤ maxRecords
  stored : ∀ k args now ok i, calls k = (.record args now, ok) →
    answerAt env s calls k = .recorded i →
    (storeAt env s calls (k + 1)).view.get? (env.deliveryIdFor args.idempotencyKey) = some i
  repeats : ∀ k args now ok i, calls k = (.record args now, ok) →
    answerAt env s calls k = .recorded i → ∀ args' now' ok',
    args'.idempotencyKey = args.idempotencyKey →
    ((storeAt env s calls (k + 1)).exec env (.record args' now') ok').2 = .recorded i
  visible : ∀ d j k i, j < k → (storeAt env s calls j).view.get? d = some i →
    i.state.terminal = false → (storeAt env s calls k).view.get? d = none →
    ∃ m i', j < m ∧ m < k ∧ (storeAt env s calls m).view.get? d = some i' ∧
      i'.state.terminal = true

theorem storeAt_succ (k : ℕ) : storeAt env s calls (k + 1) =
    ((storeAt env s calls k).exec env (calls k).1 (calls k).2).1 := rfl

theorem answerAt_eq (k : ℕ) : answerAt env s calls k =
    ((storeAt env s calls k).exec env (calls k).1 (calls k).2).2 := rfl

variable {env s calls}

/-- A live intent stays live or is seen terminal, as long as no call loses one. -/
theorem live_or_seen (h : ∀ k, Lossless env (storeAt env s calls k) (calls k).1 (calls k).2)
    {d : String} {j k : ℕ} (hjk : j ≤ k) {i : DeliveryIntent}
    (hi : (storeAt env s calls j).view.get? d = some i) (hlive : i.state.terminal = false) :
    (∃ i', (storeAt env s calls k).view.get? d = some i' ∧ i'.state.terminal = false) ∨
      ∃ m i', j < m ∧ m ≤ k ∧ (storeAt env s calls m).view.get? d = some i' ∧
        i'.state.terminal = true := by
  induction k, hjk using Nat.le_induction with
  | base => exact .inl ⟨i, hi, hlive⟩
  | succ k hjk ih =>
    rcases ih with ⟨i', hi', hlive'⟩ | ⟨m, i', hjm, hmk, hm⟩
    · have hthere := (h k).visible d i' hi' hlive'
      rw [← storeAt_succ] at hthere
      obtain ⟨x, hx⟩ := Option.ne_none_iff_exists'.mp hthere
      cases hterm : x.state.terminal with
      | false => exact .inl ⟨x, hx, hterm⟩
      | true => exact .inr ⟨k + 1, x, by omega, le_rfl, hx, hterm⟩
    · exact .inr ⟨m, i', hjm, by omega, hm⟩

theorem noSilentLoss_of_lossless
    (h : ∀ k, Lossless env (storeAt env s calls k) (calls k).1 (calls k).2) :
    NoSilentLoss env s calls := by
  have hstored : ∀ k args now ok i, calls k = (.record args now, ok) →
      answerAt env s calls k = .recorded i →
      (storeAt env s calls (k + 1)).view.get? (env.deliveryIdFor args.idempotencyKey) = some i := by
    intro k args now ok i hc hr
    rw [answerAt_eq, hc] at hr
    rw [storeAt_succ, hc]
    have hk := h k
    rw [hc] at hk
    exact hk.stored args now i rfl hr
  refine ⟨fun k => (h k).bounded, hstored, ?_, ?_⟩
  · intro k args now ok i hc hr args' now' ok' hkey
    have hget := hstored k args now ok i hc hr
    rw [← hkey] at hget
    rw [record_existing now' ok' hget]
  · intro d j k i hjk hi hlive hnone
    rcases live_or_seen h (Nat.le_of_lt hjk) hi hlive with ⟨i', hi', -⟩ | ⟨m, i', hjm, hmk, hm⟩
    · rw [hnone] at hi'
      cases hi'
    · have hne : m ≠ k := by
        rintro rfl
        rw [hnone] at hm
        cases hm.1
      exact ⟨m, i', hjm, by omega, hm⟩

theorem NoSilentLoss.lossless (h : NoSilentLoss env s calls) (k : ℕ) :
    Lossless env (storeAt env s calls k) (calls k).1 (calls k).2 := by
  refine ⟨h.bounded k, fun args now i hc hr => ?_, fun d i hi hlive hnone => ?_⟩
  · exact h.stored k args now (calls k).2 i (Prod.ext hc rfl) hr
  · obtain ⟨m, i', hkm, hmk, -⟩ := h.visible d k (k + 1) i (Nat.lt_succ_self k) hi hlive hnone
    omega

theorem NoSilentLoss.room (hs : s.view.size ≤ maxRecords) (h : NoSilentLoss env s calls) (k : ℕ) :
    Room env (storeAt env s calls k) (calls k).2 (calls k).1 := by
  have hk : (storeAt env s calls k).view.size ≤ maxRecords := by
    cases k with
    | zero => exact hs
    | succ k => exact h.bounded k
  exact (lossless_iff (calls k).1 (calls k).2 hk).mp (h.lossless k)

/-- A run keeps its promises exactly when every record of something new finds room. -/
theorem no_silent_loss_iff (hs : s.view.size ≤ maxRecords) : NoSilentLoss env s calls ↔
    ∀ k, Room env (storeAt env s calls k) (calls k).2 (calls k).1 := by
  constructor
  · exact fun h => h.room hs
  · intro h
    have hsize : ∀ k, (storeAt env s calls k).view.size ≤ maxRecords := by
      intro k
      induction k with
      | zero => exact hs
      | succ k ih => exact ((lossless_iff (calls k).1 (calls k).2 ih).mpr (h k)).bounded
    exact noSilentLoss_of_lossless fun k => (lossless_iff (calls k).1 (calls k).2 (hsize k)).mpr (h k)

end Runs

theorem no_silent_loss_iff_daily :
    NoSilentLoss dailyEnv {} (fun k => (dailyCalls k, true)) := by
  refine (no_silent_loss_iff (by decide +kernel)).mpr fun k => ?_
  match k with
  | 0 =>
    intro _
    apply Or.inl
    have hsize := stocked_size dailyEnv {} dailyRecord 600
    apply hsize.trans
    rw [maxRecords]
    decide +kernel
  | 1 | 2 | 3 | k + 4 => trivial

/-! ## Too many live intents -/

/-- Any injective function on the keys of the run below will do for SHA-256. -/
def crowdEnv : Env := ⟨fun key => key, fun n => toString n⟩

def crowdRecord (n : ℕ) : RecordArgs :=
  { dailyRecord with idempotencyKey := String.ofList [Char.ofNat n] }

/-- Every call records another delivery, all at one time. -/
def crowdCalls (n : ℕ) : Call × Bool := (.record (crowdRecord n) 600, true)

theorem crowd_injective {m n : ℕ} (hm : m ≤ maxRecords) (hn : n ≤ maxRecords)
    (h : crowdEnv.deliveryIdFor (crowdRecord m).idempotencyKey =
      crowdEnv.deliveryIdFor (crowdRecord n).idempotencyKey) : m = n := by
  have hvalid : ∀ k ≤ maxRecords, (Char.ofNat k).toNat = k := by
    intro k hk
    apply toNat_charOf?
    rw [charOf?, if_pos]
    rw [maxRecords] at hk
    exact .inl (by omega)
  have hchars : String.ofList [Char.ofNat m] = String.ofList [Char.ofNat n] := by
    have hlists := congrArg String.toList h
    rw [Env.deliveryIdFor, Env.deliveryIdFor, String.toList_append, String.toList_append,
      String.toList_ofList, String.toList_ofList] at hlists
    have htake := List.append_cancel_left hlists
    exact congrArg String.ofList (by simpa [crowdEnv, crowdRecord] using htake)
  have hlist := congrArg String.toList hchars
  rw [String.toList_ofList, String.toList_ofList] at hlist
  rw [← hvalid m hm, ← hvalid n hn, List.head_eq_of_cons_eq hlist]

/-- The intents after `k` records: all live, and one for each call. -/
structure Crowd (k : ℕ) (m : Intents) : Prop where
  size : m.size = k
  rows : ∀ i ∈ m.rows, ∃ n < k, i = newIntent crowdEnv (crowdRecord n) 600

theorem Crowd.absent {k : ℕ} {m : Intents} (h : Crowd k m) (hk : k ≤ maxRecords) :
    m.get? (crowdEnv.deliveryIdFor (crowdRecord k).idempotencyKey) = none := by
  rw [Table.get?_eq_none_iff]
  intro i hi hid
  obtain ⟨n, hn, rfl⟩ := h.rows i hi
  have hsame : n = k := crowd_injective (by omega) hk hid
  omega

theorem Crowd.stocked {k : ℕ} {s : Outbox} (h : Crowd k s.view) (hk : k ≤ maxRecords) :
    Crowd (k + 1) (stocked crowdEnv s (crowdRecord k) 600) := by
  have hrows : ∀ i ∈ (s.view.put (newIntent crowdEnv (crowdRecord k) 600)).rows,
      ∃ n < k + 1, i = newIntent crowdEnv (crowdRecord n) 600 := by
    intro i hi
    rcases Table.mem_put hi with rfl | hi
    · exact ⟨k, Nat.lt_succ_self k, rfl⟩
    · obtain ⟨n, hn, rfl⟩ := h.rows i hi
      exact ⟨n, by omega, rfl⟩
  have hkept : (DeliveryOutbox.stocked crowdEnv s (crowdRecord k) 600).rows =
      (s.view.put (newIntent crowdEnv (crowdRecord k) 600)).rows := by
    have hsome : ∀ i ∈ (s.view.put (newIntent crowdEnv (crowdRecord k) 600)).rows,
        expireOrPrune 600 i = some i := by
      intro i hi
      obtain ⟨n, -, rfl⟩ := hrows i hi
      exact expireOrPrune_newIntent crowdEnv (crowdRecord n) 600
    exact (List.filterMap_congr hsome).trans List.filterMap_some
  constructor
  · rw [Table.size, hkept]
    have hput := Table.size_put s.view (newIntent crowdEnv (crowdRecord k) 600)
    rw [show s.view.get? (newIntent crowdEnv (crowdRecord k) 600).deliveryId = none from
      h.absent hk, h.size] at hput
    exact hput
  · rw [hkept]
    exact hrows

theorem crowd_live {n : ℕ} : (newIntent crowdEnv (crowdRecord n) 600).state.terminal = false :=
  rfl

/-- With two thousand live intents one more is too many: one of them is expired, none goes. -/
theorem no_silent_loss_crowd : ¬NoSilentLoss crowdEnv {} crowdCalls := by
  intro h
  have hroom := h.room (Nat.zero_le _)
  have hcrowd : ∀ k ≤ maxRecords, Crowd k (storeAt crowdEnv {} crowdCalls k).view := by
    intro k
    induction k with
    | zero => exact fun _ => ⟨rfl, fun i hi => by cases hi⟩
    | succ k ih =>
      intro hk
      have hprev := ih (by omega)
      have hnext := hprev.stocked (by omega)
      have hview : (storeAt crowdEnv {} crowdCalls (k + 1)).view =
          stocked crowdEnv (storeAt crowdEnv {} crowdCalls k) (crowdRecord k) 600 := by
        rw [storeAt_succ]
        change ((storeAt crowdEnv {} crowdCalls k).exec crowdEnv
          (.record (crowdRecord k) 600) true).1.view = _
        rw [record_view 600 true (hprev.absent (by omega))]
        exact maintain_of_fits (hnext.size.trans_le hk)
      rw [hview]
      exact hnext
  have hfull := hcrowd maxRecords le_rfl
  have hstock := hfull.stocked le_rfl
  rcases hroom maxRecords (hfull.absent le_rfl) with hfits | ⟨i, hold, -⟩
  · rw [show (stocked crowdEnv (storeAt crowdEnv {} crowdCalls maxRecords)
      (crowdRecord maxRecords) 600).size = maxRecords + 1 from hstock.size] at hfits
    omega
  · obtain ⟨n, -, rfl⟩ := hstock.rows i hold.mem.1
    have hterm := hold.mem.2
    rw [crowd_live] at hterm
    cases hterm

end OpenClaw.DeliveryOutbox
