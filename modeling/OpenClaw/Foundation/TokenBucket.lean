import Mathlib.Algebra.Order.Field.Basic
import Mathlib.Algebra.BigOperators.Group.List.Basic
import Mathlib.Tactic.Linarith
import Mathlib.Tactic.Ring

/-!
# Token buckets

A bucket gains `rate` tokens a unit of time and holds `capacity` at most; a taker gets its amount
when the bucket holds that much. What a bucket hands out is bounded by a meter: a balance that gains
the same rate, never exceeds the capacity and pays for what is spent.
-/

namespace Foundation

set_option autoImplicit false

universe u
variable {K : Type u} [Field K] [LinearOrder K]

/-! ### Meters -/

/-- The amounts spent at each moment are paid from a balance that starts at `stamp`. -/
inductive Metered (capacity rate : K) : K → K → List (K × K) → Prop where
  | done {stamp balance : K} (nonneg : 0 ≤ balance) : Metered capacity rate stamp balance []
  | spend {stamp balance now spent left : K} {later : List (K × K)} (nonneg : 0 ≤ balance)
      (clock : stamp ≤ now) (held : spent + left ≤ capacity)
      (gained : spent + left ≤ balance + rate * (now - stamp))
      (rest : Metered capacity rate now left later) :
      Metered capacity rate stamp balance ((now, spent) :: later)

/-- What was spent from `first` to `last`. -/
def spentWithin (first last : K) (spends : List (K × K)) : K :=
  ((spends.filter fun x => decide (first ≤ x.1 ∧ x.1 ≤ last)).map Prod.snd).sum

@[simp] theorem spentWithin_nil (first last : K) : spentWithin first last ([] : List (K × K)) = 0 := rfl

theorem spentWithin_cons (first last : K) (x : K × K) (later : List (K × K)) :
    spentWithin first last (x :: later) =
      (if first ≤ x.1 ∧ x.1 ≤ last then x.2 else 0) + spentWithin first last later := by
  by_cases hx : first ≤ x.1 ∧ x.1 ≤ last
  · simp [spentWithin, hx]
  · simp [spentWithin, hx]

/-- Units spent are counted. -/
theorem spentWithin_count {α : Type} (time : α → K) (p : α → Prop) [DecidablePred p]
    (first last : K) (xs : List α) :
    spentWithin first last (xs.map fun x => (time x, if p x then 1 else 0)) =
      ((xs.filter fun x => decide (p x ∧ first ≤ time x ∧ time x ≤ last)).length : K) := by
  induction xs with
  | nil => simp
  | cons x xs ih =>
    rw [List.map_cons, spentWithin_cons, ih, List.filter_cons]
    by_cases hp : p x
    · by_cases hin : first ≤ time x ∧ time x ≤ last
      · simp [hp, hin, add_comm]
      · simp [hp, hin]
    · simp [hp]

namespace Metered
variable {capacity rate stamp balance first last : K} {spends : List (K × K)}

theorem balance_nonneg (h : Metered capacity rate stamp balance spends) : 0 ≤ balance := by
  cases h with
  | done nonneg => exact nonneg
  | spend nonneg => exact nonneg

/-- Nothing is spent in a window that is over. -/
theorem spentWithin_past (h : Metered capacity rate stamp balance spends) (hlast : last < stamp) :
    spentWithin first last spends = 0 := by
  induction h with
  | done => rfl
  | spend _ clock _ _ _ ih =>
    have hnow := hlast.trans_le clock
    rw [spentWithin_cons, if_neg (fun hin => absurd hin.2 (not_le.mpr hnow)), ih hnow, add_zero]

variable [IsStrictOrderedRing K]

/-- Inside a window the balance and what it still gains pay for the rest. -/
theorem spentWithin_inside (h : Metered capacity rate stamp balance spends) (hrate : 0 ≤ rate)
    (hfirst : first ≤ stamp) (hlast : stamp ≤ last) :
    spentWithin first last spends ≤ balance + rate * (last - stamp) := by
  induction h with
  | done nonneg =>
    have hgain := mul_nonneg hrate (sub_nonneg.mpr hlast)
    simpa using add_nonneg nonneg hgain
  | @spend stamp balance now spent left later nonneg clock _ gained rest ih =>
    rw [spentWithin_cons]
    by_cases hnow : now ≤ last
    · have hrest := ih (hfirst.trans clock) hnow
      rw [if_pos ⟨hfirst.trans clock, hnow⟩]
      linarith
    · have hgain := mul_nonneg hrate (sub_nonneg.mpr hlast)
      rw [if_neg fun hin => hnow hin.2, rest.spentWithin_past (not_le.mp hnow), add_zero]
      exact add_nonneg nonneg hgain

/-- In any window at most the capacity is spent and what the window's length gains. -/
theorem window_le (h : Metered capacity rate stamp balance spends) (hcapacity : 0 ≤ capacity)
    (hrate : 0 ≤ rate) (hwindow : first ≤ last) :
    spentWithin first last spends ≤ capacity + rate * (last - first) := by
  have hgain := mul_nonneg hrate (sub_nonneg.mpr hwindow)
  induction h with
  | done => simpa using add_nonneg hcapacity hgain
  | @spend stamp balance now spent left later _ _ held _ rest ih =>
    rw [spentWithin_cons]
    by_cases hin : first ≤ now ∧ now ≤ last
    · have hrest := rest.spentWithin_inside hrate hin.1 hin.2
      have hlater := mul_le_mul_of_nonneg_left (sub_le_sub_left hin.1 last) hrate
      rw [if_pos hin]
      linarith
    · rw [if_neg hin, zero_add]
      exact ih

end Metered

/-! ### Buckets -/

structure Bucket (K : Type u) where
  capacity : K
  rate : K
  tokens : K
  stamp : K

/-- A call that asks for an amount. -/
structure Take (K : Type u) where
  now : K
  amount : K

namespace Bucket

/-- The tokens the bucket holds at a moment. -/
def level (b : Bucket K) (now : K) : K := min b.capacity (b.tokens + (now - b.stamp) * b.rate)

def refill (b : Bucket K) (now : K) : Bucket K := { b with tokens := b.level now, stamp := now }

def take (b : Bucket K) (t : Take K) : Bool × Bucket K :=
  if t.amount ≤ b.level t.now then
    (true, { b.refill t.now with tokens := b.level t.now - t.amount })
  else (false, b.refill t.now)

/-- What a call gets. -/
def spend (b : Bucket K) (t : Take K) : K := if t.amount ≤ b.level t.now then t.amount else 0

structure Filled (b : Bucket K) : Prop where
  nonneg : 0 ≤ b.tokens
  held : b.tokens ≤ b.capacity

/-- The bucket has room for what the call gives back. -/
def Room (b : Bucket K) (t : Take K) : Prop := b.level t.now - t.amount ≤ b.capacity

variable {b : Bucket K} {t : Take K} {now later : K}

@[simp] theorem take_capacity (b : Bucket K) (t : Take K) : (b.take t).2.capacity = b.capacity := by
  unfold take
  split <;> rfl

@[simp] theorem take_rate (b : Bucket K) (t : Take K) : (b.take t).2.rate = b.rate := by
  unfold take
  split <;> rfl

@[simp] theorem take_stamp (b : Bucket K) (t : Take K) : (b.take t).2.stamp = t.now := by
  unfold take
  split <;> rfl

theorem take_granted (b : Bucket K) (t : Take K) :
    (b.take t).1 = true ↔ t.amount ≤ b.level t.now := by
  by_cases h : t.amount ≤ b.level t.now <;> simp [take, h]

theorem take_accepted (h : t.amount ≤ b.level t.now) :
    b.take t = (true, { b.refill t.now with tokens := b.level t.now - t.amount }) := if_pos h

theorem take_denied (h : ¬ t.amount ≤ b.level t.now) : b.take t = (false, b.refill t.now) :=
  if_neg h

theorem take_tokens (h : t.amount ≤ b.level t.now) :
    (b.take t).2.tokens = b.level t.now - t.amount := by rw [take_accepted h]

/-- What a call gets and what it leaves is what the bucket held. -/
theorem spend_add_tokens (b : Bucket K) (t : Take K) :
    b.spend t + (b.take t).2.tokens = b.level t.now := by
  by_cases h : t.amount ≤ b.level t.now
  · simp [spend, take, h]
  · simp [spend, take, h, refill]

theorem level_le_capacity (b : Bucket K) (now : K) : b.level now ≤ b.capacity := min_le_left _ _

theorem level_le_gained (b : Bucket K) (now : K) :
    b.level now ≤ b.tokens + b.rate * (now - b.stamp) := by
  rw [mul_comm]
  exact min_le_right _ _

/-- The meter of one call. -/
theorem Filled.metered (h : b.Filled) (hnow : b.stamp ≤ t.now) {spends : List (K × K)}
    (hrest : Metered b.capacity b.rate t.now (b.take t).2.tokens spends) :
    Metered b.capacity b.rate b.stamp b.tokens ((t.now, b.spend t) :: spends) :=
  .spend h.nonneg hnow ((b.spend_add_tokens t).trans_le (b.level_le_capacity _))
    ((b.spend_add_tokens t).trans_le (b.level_le_gained _)) hrest

variable [IsStrictOrderedRing K]

theorem Filled.level_nonneg (h : b.Filled) (hrate : 0 ≤ b.rate) (hnow : b.stamp ≤ now) :
    0 ≤ b.level now :=
  le_min (h.nonneg.trans h.held)
    (add_nonneg h.nonneg (mul_nonneg (sub_nonneg.mpr hnow) hrate))

/-- A call keeps the bucket between empty and full exactly when there is room for it. -/
theorem Filled.take_iff (h : b.Filled) (hrate : 0 ≤ b.rate) (hnow : b.stamp ≤ t.now) :
    (b.take t).2.Filled ↔ b.Room t := by
  have hlevel := h.level_nonneg hrate hnow
  have hheld := b.level_le_capacity t.now
  by_cases hgranted : t.amount ≤ b.level t.now
  · have htokens := take_tokens hgranted
    constructor
    · intro hfilled
      have hroom := hfilled.held
      rwa [htokens, take_capacity] at hroom
    · intro hroom
      refine ⟨?_, ?_⟩
      · rw [htokens]
        exact sub_nonneg.mpr hgranted
      · rw [htokens, take_capacity]
        exact hroom
  · have htokens : (b.take t).2.tokens = b.level t.now := by rw [take_denied hgranted]; rfl
    have hfilled : (b.take t).2.Filled := by
      refine ⟨?_, ?_⟩
      · rwa [htokens]
      · rwa [htokens, take_capacity]
    have hroom : b.Room t := by
      have hamount := not_le.mp hgranted
      unfold Room
      linarith
    exact iff_of_true hfilled hroom

theorem Filled.room_of_nonneg (h : 0 ≤ t.amount) : b.Room t := by
  have hheld := b.level_le_capacity t.now
  unfold Room
  linarith

/-- Between two moments the level gains the rate at most. -/
theorem level_gain (hrate : 0 ≤ b.rate) (hlater : now ≤ later) :
    b.level later ≤ b.level now + b.rate * (later - now) := by
  have hgain := mul_nonneg hrate (sub_nonneg.mpr hlater)
  unfold level
  rw [← min_add_add_right]
  exact le_min ((min_le_left _ _).trans (le_add_of_nonneg_right hgain))
    ((min_le_right _ _).trans (by linarith))

omit [IsStrictOrderedRing K] in
theorem Filled.level_stamp (h : b.Filled) : b.level b.stamp = b.tokens := by
  simp [level, h.held]

/-- Waiting only refills: the content at a moment is the same whenever it was last brought up to
date. -/
theorem level_refill (hrate : 0 ≤ b.rate) (hlater : now ≤ later) :
    (b.refill now).level later = b.level later := by
  have hgain := mul_nonneg (sub_nonneg.mpr hlater) hrate
  have hsum : b.tokens + (now - b.stamp) * b.rate + (later - now) * b.rate =
      b.tokens + (later - b.stamp) * b.rate := by ring
  unfold refill level
  rw [← hsum, ← min_add_add_right, ← min_assoc, min_eq_left (le_add_of_nonneg_right hgain)]

/-- A denied call that waits `wait` finds its amount exactly when the wait makes up what was
missing. -/
theorem level_after (hrate : 0 < b.rate) {wait : K} (hamount : t.amount ≤ b.capacity) :
    t.amount ≤ (b.refill t.now).level (t.now + wait) ↔
      (t.amount - b.level t.now) / b.rate ≤ wait := by
  rw [div_le_iff₀ hrate, sub_le_iff_le_add]
  unfold refill level
  simp [hamount, add_comm]

/-! ### Takers that keep to the policy -/

/-- From `stamp` on the bucket is full or has handed out `count` single tokens at most since it was
full at `origin`. -/
structure OnAccount (b : Bucket K) (stamp origin : K) (count : ℕ) : Prop where
  clock : origin ≤ stamp
  level : ∀ now, stamp ≤ now →
    b.level now = b.capacity ∨ b.capacity - count + b.rate * (now - origin) ≤ b.level now

theorem onAccount_full (h : b.level now = b.capacity) (hrate : 0 ≤ b.rate) :
    b.OnAccount now now 0 := by
  refine ⟨le_refl _, fun later hlater => .inl (le_antisymm (level_le_capacity b later) ?_)⟩
  have hgain := mul_le_mul_of_nonneg_right (sub_le_sub_right hlater b.stamp) hrate
  have hfull : b.capacity ≤ b.tokens + (now - b.stamp) * b.rate := min_eq_left_iff.mp h
  exact le_min (le_refl _) (by linarith)

omit [IsStrictOrderedRing K] in
theorem OnAccount.wait {stamp origin : K} {count : ℕ} (h : b.OnAccount stamp origin count)
    (hlater : stamp ≤ later) : b.OnAccount later origin count :=
  ⟨h.clock.trans hlater, fun now hnow => h.level now (hlater.trans hnow)⟩

/-- A single token is there for takers who keep to the policy, and the account goes on. -/
theorem OnAccount.take {stamp origin : K} {count : ℕ} (h : b.OnAccount stamp origin count)
    (hnow : stamp ≤ t.now) (hone : t.amount = 1) (hcapacity : 1 ≤ b.capacity)
    (hwithin : (count + 1 : ℕ) ≤ b.capacity + b.rate * (t.now - origin)) :
    (b.take t).1 = true ∧
      ((b.take t).2.OnAccount t.now t.now 1 ∨ (b.take t).2.OnAccount t.now origin (count + 1)) := by
  have hlevel := h.level t.now hnow
  have hgranted : t.amount ≤ b.level t.now := by
    rw [hone]
    rcases hlevel with hfull | hcounted
    · rwa [hfull]
    · push_cast at hwithin
      linarith
  have hleft : ∀ now, (b.take t).2.level now = b.capacity ∨
      (b.take t).2.level now = b.level t.now - 1 + (now - t.now) * b.rate := by
    intro now
    rw [take_accepted hgranted, hone]
    exact min_choice b.capacity (b.level t.now - 1 + (now - t.now) * b.rate)
  refine ⟨(take_granted b t).mpr hgranted, ?_⟩
  rcases hlevel with hfull | hcounted
  · refine .inl ⟨le_refl _, fun now _ => ?_⟩
    rw [take_capacity, take_rate, Nat.cast_one]
    refine (hleft now).imp_right fun heq => ?_
    rw [heq, hfull]
    linarith
  · refine .inr ⟨h.clock.trans hnow, fun now _ => ?_⟩
    rw [take_capacity, take_rate, Nat.cast_succ]
    refine (hleft now).imp_right fun heq => ?_
    rw [heq]
    linarith

end Bucket
end Foundation
