import Mathlib.Tactic.NormNum
import OpenClaw.Foundation.Run
import OpenClaw.RateLimit.RateLimiter

/-!
# The rate law of both buckets

Under a clock that never goes back both buckets are buckets of the library, so their tokens stay
between none and the capacity and no window hands out more than the capacity and its own gain. The
wait that the service advertises rounds up with `0.999999`: it falls short of what a caller needs
when that is less than a millionth of a second past a whole second.
-/

namespace OpenClaw.RateLimit

open Foundation
set_option autoImplicit false

/-- A `consume` call. -/
structure Consume where
  now : ℚ
  amount : ℤ

def Consume.toTake (c : Consume) : Take ℚ := ⟨c.now, c.amount⟩

def TokenBucket.toBucket (b : TokenBucket) : Bucket ℚ := ⟨b.capacity, b.rate, b.tokens, b.lastUpdate⟩

def TokenBucket.consume (b : TokenBucket) (c : Consume) : Bool × TokenBucket :=
  let consumed := b.consumeWithDiagnostics c.now c.amount
  (consumed.1.1, consumed.2)

namespace Connector.TokenBucket

def toBucket (b : Connector.TokenBucket) : Bucket ℚ :=
  ⟨b.capacity, b.refillRate, b.tokens, b.lastRefill⟩

def call (b : Connector.TokenBucket) (c : Consume) : Bool × Connector.TokenBucket :=
  b.consume c.now c.amount

end Connector.TokenBucket

/-! ### Runs of either bucket -/

section Runs
variable {β : Type} (consume : β → Consume → Bool × β) (toBucket : β → Bucket ℚ)

/-- `P` holds of every call of a run and the bucket it finds. -/
abbrev EachCall (P : β → Consume → Prop) : β → List Consume → Prop :=
  EachStep (fun b c => (consume b c).2) P

/-- What a run hands out, call by call. -/
def grants : β → List Consume → List (ℚ × ℚ)
  | _, [] => []
  | b, c :: calls =>
    (c.now, if (consume b c).1 then (c.amount : ℚ) else 0) :: grants (consume b c).2 calls

/-- The clock does not go back, from `start` on. -/
def Clocked (start : ℚ) (calls : List Consume) : Prop :=
  (start :: calls.map Consume.now).Pairwise (· ≤ ·)

structure RateLaw (b : β) (calls : List Consume) : Prop where
  bounds : EachCall consume (fun b c => (toBucket (consume b c).2).Filled) b calls
  windows : ∀ first length, 0 ≤ length →
    spentWithin first (first + length) (grants consume b calls) ≤
      (toBucket b).capacity + (toBucket b).rate * length

/-- A bucket of the source is a bucket of the library while the clock goes on. -/
def Refines : Prop :=
  ∀ b c, (toBucket b).stamp ≤ c.now →
    (consume b c).1 = ((toBucket b).take c.toTake).1 ∧
      toBucket (consume b c).2 = ((toBucket b).take c.toTake).2

variable {consume toBucket}

theorem Clocked.now_le {start : ℚ} {c : Consume} {calls : List Consume}
    (h : Clocked start (c :: calls)) : start ≤ c.now :=
  (List.pairwise_cons.mp h).1 _ (by simp)

theorem Clocked.rest {start : ℚ} {c : Consume} {calls : List Consume}
    (h : Clocked start (c :: calls)) : Clocked c.now calls := (List.pairwise_cons.mp h).2

namespace Refines

theorem consume_stamp (h : Refines consume toBucket) {b : β} {c : Consume}
    (hnow : (toBucket b).stamp ≤ c.now) : (toBucket (consume b c).2).stamp = c.now := by
  rw [(h b c hnow).2, Bucket.take_stamp]
  rfl

theorem consume_rate (h : Refines consume toBucket) {b : β} {c : Consume}
    (hnow : (toBucket b).stamp ≤ c.now) : (toBucket (consume b c).2).rate = (toBucket b).rate := by
  rw [(h b c hnow).2, Bucket.take_rate]

theorem consume_capacity (h : Refines consume toBucket) {b : β} {c : Consume}
    (hnow : (toBucket b).stamp ≤ c.now) :
    (toBucket (consume b c).2).capacity = (toBucket b).capacity := by
  rw [(h b c hnow).2, Bucket.take_capacity]

theorem grant_eq (h : Refines consume toBucket) {b : β} {c : Consume}
    (hnow : (toBucket b).stamp ≤ c.now) :
    (if (consume b c).1 then (c.amount : ℚ) else 0) = (toBucket b).spend c.toTake := by
  have hgranted := (toBucket b).take_granted c.toTake
  rw [← (h b c hnow).1] at hgranted
  exact if_congr hgranted rfl rfl

/-- A run whose tokens stay in bounds keeps to the meter of its bucket. -/
theorem metered (h : Refines consume toBucket) {b : β} {calls : List Consume}
    (hfilled : (toBucket b).Filled) (hclock : Clocked (toBucket b).stamp calls)
    (hbounds : EachCall consume (fun b c => (toBucket (consume b c).2).Filled) b calls) :
    Metered (toBucket b).capacity (toBucket b).rate (toBucket b).stamp (toBucket b).tokens
      (grants consume b calls) := by
  induction calls generalizing b with
  | nil => exact .done hfilled.nonneg
  | cons c calls ih =>
    have hnow := hclock.now_le
    have hstamp := h.consume_stamp hnow
    have hrest := ih hbounds.1 (by rw [hstamp]; exact hclock.rest) hbounds.2
    rw [h.consume_capacity hnow, h.consume_rate hnow, hstamp, (h b c hnow).2] at hrest
    rw [grants, h.grant_eq hnow]
    exact Bucket.Filled.metered (t := c.toTake) hfilled hnow hrest

/-- Bounds at every call are bounds for every window. -/
theorem rateLaw_of_bounds (h : Refines consume toBucket) {b : β} {calls : List Consume}
    (hfilled : (toBucket b).Filled) (hrate : 0 ≤ (toBucket b).rate)
    (hclock : Clocked (toBucket b).stamp calls)
    (hbounds : EachCall consume (fun b c => (toBucket (consume b c).2).Filled) b calls) :
    RateLaw consume toBucket b calls := by
  refine ⟨hbounds, fun first length hlength => ?_⟩
  have hcapacity := hfilled.nonneg.trans hfilled.held
  have hwindow := (h.metered hfilled hclock hbounds).window_le hcapacity hrate
    (le_add_of_nonneg_right hlength : first ≤ first + length)
  rwa [add_sub_cancel_left] at hwindow

/-- One call after another: what decides each call decides the run. -/
theorem eachCall_iff (h : Refines consume toBucket) {P Q : β → Consume → Prop}
    (hP : ∀ b c, P b c → (toBucket (consume b c).2).Filled)
    (hstep : ∀ b c, (toBucket b).Filled → 0 < (toBucket b).rate → (toBucket b).stamp ≤ c.now →
      (P b c ↔ Q b c))
    {b : β} {calls : List Consume} (hfilled : (toBucket b).Filled) (hrate : 0 < (toBucket b).rate)
    (hclock : Clocked (toBucket b).stamp calls) :
    EachCall consume P b calls ↔ EachCall consume Q b calls := by
  refine @EachStep.congr _ _ _ _ _ _ _ (fun b calls => ((toBucket b).Filled ∧ 0 < (toBucket b).rate) ∧
    Clocked (toBucket b).stamp calls) ?_ ?_ ⟨⟨hfilled, hrate⟩, hclock⟩
  · intro b c calls hinv
    exact hstep b c hinv.1.1 hinv.1.2 hinv.2.now_le
  · intro b c calls hinv hcall
    refine ⟨⟨hP b c hcall, ?_⟩, ?_⟩
    · rw [h.consume_rate hinv.2.now_le]
      exact hinv.1.2
    · rw [h.consume_stamp hinv.2.now_le]
      exact hinv.2.rest

end Refines
end Runs

/-! ### The two buckets -/

namespace TokenBucket
variable {b : TokenBucket} {c : Consume} {now : ℚ}

theorem refillUnlocked_tokens (hnow : b.lastUpdate ≤ now) :
    (b.refillUnlocked now).tokens = b.toBucket.level now := by
  simp [refillUnlocked, toBucket, Bucket.level, max_eq_right (sub_nonneg.mpr hnow)]

theorem refines : Refines consume toBucket := by
  intro b c hnow
  have htokens : (b.refillUnlocked c.now).tokens = b.toBucket.level c.toTake.now :=
    refillUnlocked_tokens hnow
  by_cases hgranted : c.toTake.amount ≤ b.toBucket.level c.toTake.now
  · rw [consume, consume_granted (htokens ▸ hgranted), Bucket.take_accepted hgranted, htokens]
    exact ⟨rfl, rfl⟩
  · rw [consume, consume_denied (htokens ▸ hgranted), Bucket.take_denied hgranted, Bucket.refill,
      ← htokens]
    exact ⟨rfl, rfl⟩

theorem new_filled {capacity : ℤ} (rate start : ℚ) (hcapacity : 1 ≤ capacity) :
    (new capacity rate start).toBucket.Filled := by
  have hnonneg : (0 : ℚ) ≤ capacity := by exact_mod_cast zero_le_one.trans hcapacity
  exact ⟨hnonneg, le_refl _⟩

end TokenBucket

theorem Connector.TokenBucket.refines : Refines call toBucket := by
  intro b c _
  by_cases hgranted : c.toTake.amount ≤ b.toBucket.level c.toTake.now
  · have hcall : b.call c = (true, _) := if_pos hgranted
    rw [hcall, Bucket.take_accepted hgranted]
    exact ⟨rfl, rfl⟩
  · have hcall : b.call c = (false, _) := if_neg hgranted
    rw [hcall, Bucket.take_denied hgranted]
    exact ⟨rfl, rfl⟩

/-! ### The advertised wait -/

namespace TokenBucket

/-- A call that is denied and told to wait `r` seconds is granted after them. -/
def WaitKept (b : TokenBucket) (c : Consume) : Prop :=
  ∀ r, (b.consumeWithDiagnostics c.now c.amount).1 = (false, r) → (c.amount : ℚ) ≤ b.capacity →
    ((b.consume c).2.consume ⟨c.now + r, c.amount⟩).1 = true

/-- The seconds after which the bucket holds what the call asks for. -/
def needed (b : TokenBucket) (c : Consume) : ℚ :=
  (c.amount - (b.refillUnlocked c.now).tokens) / b.rate

/-- The bucket has room for the call, and a call that waits needs at most a second, a whole number
of seconds, or at least a millionth more than one. -/
structure Kept (b : TokenBucket) (c : Consume) : Prop where
  room : (b.refillUnlocked c.now).tokens - c.amount ≤ b.capacity
  wait : (b.refillUnlocked c.now).tokens < c.amount → (c.amount : ℚ) ≤ b.capacity →
    b.needed c ≤ 1 ∨ Int.fract (b.needed c) = 0 ∨ 1 / 1000000 ≤ Int.fract (b.needed c)

end TokenBucket

theorem floor_max_one (x : ℚ) : ⌊max 1 x⌋ = max 1 ⌊x⌋ := by
  rw [Int.floor_mono.map_max, Int.floor_one]

/-- Adding `0.999999` and cutting off rounds up, but for the first millionth. -/
theorem le_floor_iff {q : ℚ} :
    q ≤ ⌊q + 999999 / 1000000⌋ ↔ Int.fract q = 0 ∨ 1 / 1000000 ≤ Int.fract q := by
  have hsplit := Int.floor_add_fract q
  have hlow := Int.fract_nonneg q
  have hhigh := Int.fract_lt_one q
  by_cases hearly : Int.fract q < 1 / 1000000
  · have hfloor : ⌊q + 999999 / 1000000⌋ = ⌊q⌋ := by
      rw [Int.floor_eq_iff]
      constructor <;> linarith
    rw [hfloor]
    constructor
    · intro hle
      exact .inl (by linarith)
    · intro hwhole
      rcases hwhole with hzero | hlate
      · linarith
      · exact absurd hlate (not_le.mpr hearly)
  · have hlate := not_lt.mp hearly
    have hfloor : ⌊q + 999999 / 1000000⌋ = ⌊q⌋ + 1 := by
      rw [Int.floor_eq_iff]
      push_cast
      constructor <;> linarith
    rw [hfloor]
    push_cast
    exact iff_of_true (by linarith) (.inr hlate)

/-- The advertised wait covers what is needed. -/
theorem le_wait_iff {q : ℚ} :
    q ≤ ⌊max 1 (q + 999999 / 1000000)⌋ ↔
      q ≤ 1 ∨ Int.fract q = 0 ∨ 1 / 1000000 ≤ Int.fract q := by
  rw [floor_max_one, Int.cast_max, Int.cast_one, le_max_iff, le_floor_iff]

namespace TokenBucket
variable {b : TokenBucket} {c : Consume}

theorem waitKept_iff (hrate : 0 < b.rate) (hnow : b.lastUpdate ≤ c.now) :
    b.WaitKept c ↔ ((b.refillUnlocked c.now).tokens < c.amount → (c.amount : ℚ) ≤ b.capacity →
      b.needed c ≤ 1 ∨ Int.fract (b.needed c) = 0 ∨ 1 / 1000000 ≤ Int.fract (b.needed c)) := by
  have htokens := refillUnlocked_tokens (b := b) hnow
  by_cases hgranted : (c.amount : ℚ) ≤ (b.refillUnlocked c.now).tokens
  · have hkept : b.WaitKept c := by
      intro r hr
      simp [consumeWithDiagnostics, hgranted] at hr
    exact iff_of_true hkept fun hdenied => absurd hdenied (not_lt.mpr hgranted)
  · have hanswer : (b.consumeWithDiagnostics c.now c.amount).1 =
        (false, ⌊max 1 (b.needed c + 999999 / 1000000)⌋) := by
      have hslow : ¬ (b.refillUnlocked c.now).rate ≤ 0 := not_le.mpr hrate
      rw [consume_denied hgranted, retryAfter, if_neg hslow]
      rfl
    have hafter : (b.consume c).2.toBucket = b.toBucket.refill c.now := by
      rw [(refines b c hnow).2, Bucket.take_denied (htokens ▸ hgranted)]
      rfl
    unfold WaitKept
    rw [hanswer]
    simp only [Prod.mk.injEq, true_and, forall_eq', not_le.mp hgranted, true_implies]
    refine imp_congr_right fun hamount => ?_
    have hlater : (b.consume c).2.toBucket.stamp ≤
        c.now + (⌊max 1 (b.needed c + 999999 / 1000000)⌋ : ℤ) := by
      have hpositive : (1 : ℚ) ≤ (⌊max 1 (b.needed c + 999999 / 1000000)⌋ : ℤ) := by
        rw [floor_max_one, Int.cast_max, Int.cast_one]
        exact le_max_left _ _
      have hstamp := refines.consume_stamp (b := b) (c := c) hnow
      rw [hstamp]
      linarith
    rw [(refines (b.consume c).2 ⟨_, c.amount⟩ hlater).1, Bucket.take_granted, hafter]
    have hwait := @Bucket.level_after ℚ _ _ b.toBucket c.toTake _ hrate
      (⌊max 1 (b.needed c + 999999 / 1000000)⌋ : ℤ) hamount
    have hneeded : (c.toTake.amount - b.toBucket.level c.toTake.now) / b.toBucket.rate =
        b.needed c := by rw [needed, htokens]; rfl
    rw [hneeded, le_wait_iff] at hwait
    exact hwait

/-- What one call keeps, and when. -/
theorem kept_iff (hfilled : b.toBucket.Filled) (hrate : 0 < b.rate) (hnow : b.lastUpdate ≤ c.now) :
    ((b.consume c).2.toBucket.Filled ∧ b.WaitKept c) ↔ b.Kept c := by
  have hroom : (b.consume c).2.toBucket.Filled ↔
      (b.refillUnlocked c.now).tokens - c.amount ≤ b.capacity := by
    rw [(refines b c hnow).2, hfilled.take_iff hrate.le hnow, refillUnlocked_tokens hnow]
    rfl
  rw [hroom, waitKept_iff hrate hnow]
  exact ⟨fun h => ⟨h.1, h.2⟩, fun h => ⟨h.room, h.wait⟩⟩

end TokenBucket

/-- The service's bucket keeps its rate law and its advertised waits in exactly the runs whose calls
are all kept; the connector's, which advertises no wait, in those whose calls it has room for. -/
theorem rate_law_iff {capacity : ℤ} {rate start : ℚ} {calls : List Consume}
    {bucket : Connector.TokenBucket} (hcapacity : 1 ≤ capacity) (hrate : 0 < rate)
    (hclock : Clocked start calls) (hrefill : 0 < bucket.refillRate)
    (htokens : 0 ≤ bucket.tokens ∧ bucket.tokens ≤ bucket.capacity)
    (hlast : Clocked bucket.lastRefill calls) :
    (RateLaw TokenBucket.consume TokenBucket.toBucket (.new capacity rate start) calls ∧
        EachCall TokenBucket.consume TokenBucket.WaitKept (.new capacity rate start) calls ↔
      EachCall TokenBucket.consume TokenBucket.Kept (.new capacity rate start) calls) ∧
    (RateLaw Connector.TokenBucket.call Connector.TokenBucket.toBucket bucket calls ↔
      EachCall Connector.TokenBucket.call (fun b c => b.toBucket.Room c.toTake) bucket calls) := by
  have hfilled := TokenBucket.new_filled rate start hcapacity
  have hpositive : 0 < (TokenBucket.new capacity rate start).toBucket.rate :=
    lt_max_of_lt_right hrate
  constructor
  · have hcalls := TokenBucket.refines.eachCall_iff
      (P := fun b c => (b.consume c).2.toBucket.Filled ∧ b.WaitKept c) (fun _ _ h => h.1)
      (fun _ _ => TokenBucket.kept_iff) hfilled hpositive hclock
    rw [← hcalls]
    constructor
    · intro h
      exact h.1.bounds.and h.2
    · intro h
      have hbounds := h.mono fun _ _ h => h.1
      exact ⟨TokenBucket.refines.rateLaw_of_bounds hfilled hpositive.le hclock hbounds,
        h.mono fun _ _ h => h.2⟩
  · have hheld : bucket.toBucket.Filled := ⟨htokens.1, htokens.2⟩
    have hcalls := Connector.TokenBucket.refines.eachCall_iff
      (P := fun b c => (b.call c).2.toBucket.Filled)
      (Q := fun b c => b.toBucket.Room c.toTake) (fun _ _ h => h)
      (fun b c h hrate hnow => by
        rw [(Connector.TokenBucket.refines b c hnow).2]
        exact h.take_iff hrate.le hnow) hheld hrefill hlast
    rw [← hcalls]
    exact ⟨fun h => h.bounds, Connector.TokenBucket.refines.rateLaw_of_bounds hheld hrefill.le hlast⟩

theorem rate_law_fresh :
    (RateLaw TokenBucket.consume TokenBucket.toBucket (.new 30 (1 / 2) 0) [⟨0, 1⟩, ⟨1, 1⟩] ∧
      EachCall TokenBucket.consume TokenBucket.WaitKept (.new 30 (1 / 2) 0) [⟨0, 1⟩, ⟨1, 1⟩]) ∧
    RateLaw Connector.TokenBucket.call Connector.TokenBucket.toBucket (.ofRpm 10 0)
      [⟨0, 1⟩, ⟨1, 1⟩] := by
  have hclock : Clocked 0 [⟨0, 1⟩, ⟨1, 1⟩] := by simp [Clocked]
  have hrefill : 0 < (Connector.TokenBucket.ofRpm 10 0).refillRate := by decide +kernel
  have htokens : 0 ≤ (Connector.TokenBucket.ofRpm 10 0).tokens ∧
      (Connector.TokenBucket.ofRpm 10 0).tokens ≤ (Connector.TokenBucket.ofRpm 10 0).capacity := by
    decide +kernel
  have hlaw := rate_law_iff (by decide : (1 : ℤ) ≤ 30) (by norm_num : (0 : ℚ) < 1 / 2) hclock
    hrefill htokens hclock
  refine ⟨hlaw.1.mpr ?_, hlaw.2.mpr ?_⟩
  · refine ⟨⟨by decide +kernel, fun hdenied => absurd hdenied (by decide +kernel)⟩, ⟨by decide +kernel,
      fun hdenied => absurd hdenied (by decide +kernel)⟩, trivial⟩
  · exact ⟨by unfold Bucket.Room; decide +kernel, by unfold Bucket.Room; decide +kernel, trivial⟩

/-- At the webhook's rate a caller that needs a second and half a microsecond is told one second. -/
theorem wait_too_short :
    Clocked 0 [⟨0, 30⟩, ⟨1999999 / 2000000, 1⟩] ∧
      ¬ EachCall TokenBucket.consume TokenBucket.WaitKept (.new 30 (1 / 2) 0)
        [⟨0, 30⟩, ⟨1999999 / 2000000, 1⟩] := by
  refine ⟨?_, ?_⟩
  · norm_num [Clocked]
  · intro h
    obtain ⟨-, hwait, -⟩ := h
    have hdenied := hwait 1 (by decide +kernel) (by decide +kernel)
    exact absurd hdenied (by decide +kernel)

end OpenClaw.RateLimit
