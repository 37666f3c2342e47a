import OpenClaw.RateLimit.DeniedRequests

/-!
# Forgotten buckets

`cleanup` of the connector's limiter removes the buckets that were not consulted for a while. A
bucket refills in a minute, so one that rested longer is full, as the one is that is made in its
place.
-/

namespace OpenClaw.RateLimit.Connector

open Foundation
set_option autoImplicit false

abbrev Buckets := CodePoints → Option TokenBucket

/-- The buckets that were consulted after the cutoff. -/
def Buckets.recent (bs : Buckets) (cutoff : ℚ) : Buckets :=
  fun key => (bs key).filter fun b => decide (cutoff < b.lastRefill)

def RateLimiter.cleanup (l : RateLimiter) (now maxAgeSeconds : ℚ) : RateLimiter :=
  let cutoff := now - maxAgeSeconds
  { l with
    userBuckets := Buckets.recent l.userBuckets cutoff
    channelBuckets := Buckets.recent l.channelBuckets cutoff }

inductive Call where
  | isAllowed (userId channelId : CodePoints) (now : RateLimiter.Readings)
  | cleanup (now maxAgeSeconds : ℚ)

namespace RateLimiter

def step (l : RateLimiter) : Call → RateLimiter
  | .isAllowed userId channelId now => (l.isAllowed userId channelId now).2
  | .cleanup now maxAgeSeconds => l.cleanup now maxAgeSeconds

/-- What `is_allowed` answers in a run. -/
def answers : RateLimiter → List Call → List Bool
  | _, [] => []
  | l, .isAllowed userId channelId now :: calls =>
    (l.isAllowed userId channelId now).1 :: answers (l.isAllowed userId channelId now).2 calls
  | l, .cleanup now maxAgeSeconds :: calls => answers (l.cleanup now maxAgeSeconds) calls

end RateLimiter

/-- The readings of a run never go back, and none is before `clock`. -/
def NonDecreasing : ℚ → List Call → Prop
  | _, [] => True
  | clock, .isAllowed _ _ now :: calls =>
    clock ≤ now.user ∧ now.user ≤ now.channel ∧ NonDecreasing now.channel calls
  | clock, .cleanup now _ :: calls => clock ≤ now ∧ NonDecreasing now calls

/-! ## The buckets of one kind -/

namespace TokenBucket
variable {b : TokenBucket} {rpm : ℤ} {clock now : ℚ}

/-- The bucket holds its capacity whenever it is consulted from then on. -/
def FullFrom (clock : ℚ) (b : TokenBucket) : Prop :=
  ∀ now, clock ≤ now → (b.refilled now).tokens = b.capacity

/-- A bucket of the rate, as it is left by the calls before the clock. -/
structure Regular (rpm : ℤ) (clock : ℚ) (b : TokenBucket) : Prop where
  capacity : b.capacity = rpm
  rate : b.refillRate = rpm / 60
  nonneg : 0 ≤ b.tokens
  past : b.lastRefill ≤ clock

theorem Regular.mono (h : Regular rpm clock b) (hnow : clock ≤ now) : Regular rpm now b :=
  { h with past := h.past.trans hnow }

theorem FullFrom.mono (h : FullFrom clock b) (hnow : clock ≤ now) : FullFrom now b :=
  fun later hlater => h later (hnow.trans hlater)

/-- A minute refills a bucket. -/
theorem Regular.fullFrom (h : Regular rpm clock b) (hrpm : 0 < rpm)
    (hrested : b.lastRefill + 60 ≤ now) : FullFrom now b := by
  intro later hlater
  have hpos : (0 : ℚ) < rpm := Int.cast_pos.mpr hrpm
  have hgain : 60 * ((rpm : ℚ) / 60) ≤ (later - b.lastRefill) * (rpm / 60) :=
    mul_le_mul_of_nonneg_right (by linarith) (by positivity)
  have hminute : 60 * ((rpm : ℚ) / 60) = rpm := by ring
  show min b.capacity (b.tokens + (later - b.lastRefill) * b.refillRate) = b.capacity
  rw [h.rate, h.capacity]
  have := h.nonneg
  exact min_eq_left (by linarith)

theorem regular_ofRpm (hrpm : 0 < rpm) (now : ℚ) : Regular rpm now (ofRpm rpm now) where
  capacity := rfl
  rate := rfl
  nonneg := Int.cast_nonneg hrpm.le
  past := le_refl now

theorem Regular.consume (h : Regular rpm clock b) (hrpm : 0 < rpm) (hnow : clock ≤ now) :
    Regular rpm now (b.consume now 1).2 := by
  have hpos : (0 : ℚ) < rpm := Int.cast_pos.mpr hrpm
  have hheld : 0 ≤ (b.refilled now).tokens := by
    have hpast := h.past.trans hnow
    have hgain : 0 ≤ (now - b.lastRefill) * ((rpm : ℚ) / 60) :=
      mul_nonneg (by linarith) (by positivity)
    have htokens := h.nonneg
    show 0 ≤ min b.capacity (b.tokens + (now - b.lastRefill) * b.refillRate)
    rw [h.rate, h.capacity]
    exact le_min hpos.le (by linarith)
  by_cases hone : 1 ≤ (b.refilled now).tokens
  · rw [consume_granted hone]
    exact ⟨h.capacity, h.rate, by simpa using hone, le_refl now⟩
  · rw [consume_denied hone]
    exact ⟨h.capacity, h.rate, hheld, le_refl now⟩

/-- A full bucket is consulted like a new one. -/
theorem FullFrom.consume (hfull : FullFrom clock b) (h : Regular rpm clock b) (hnow : clock ≤ now) :
    b.consume now 1 = (ofRpm rpm now).consume now 1 := by
  have hsame : b.refilled now = (ofRpm rpm now).refilled now := by
    have htokens := hfull now hnow
    have hnew := ofRpm_refilled rpm now
    rw [h.capacity] at htokens
    unfold refilled at htokens hnew ⊢
    simp only at htokens hnew ⊢
    rw [htokens, hnew, h.capacity, h.rate]
    rfl
  by_cases hone : 1 ≤ (b.refilled now).tokens
  · rw [consume_granted hone, consume_granted (hsame ▸ hone), hsame]
  · rw [consume_denied hone, consume_denied (hsame ▸ hone), hsame]

end TokenBucket

namespace Buckets
variable {rpm : ℤ} {clock now : ℚ} {bs bs' : Buckets}

/-- One bucket is consulted, and made if it is not there. -/
def consult (rpm : ℤ) (bs : Buckets) (key : CodePoints) (now : ℚ) : Bool × Buckets :=
  let r := ((bs key).getD (TokenBucket.ofRpm rpm now)).consume now 1
  (r.1, Function.update bs key (some r.2))

@[simp] theorem consult_fst (rpm : ℤ) (bs : Buckets) (key : CodePoints) (now : ℚ) :
    (consult rpm bs key now).1 = (((bs key).getD (TokenBucket.ofRpm rpm now)).consume now 1).1 :=
  rfl

@[simp] theorem consult_self (rpm : ℤ) (bs : Buckets) (key : CodePoints) (now : ℚ) :
    (consult rpm bs key now).2 key =
      some (((bs key).getD (TokenBucket.ofRpm rpm now)).consume now 1).2 :=
  Function.update_self _ _ _

theorem consult_other (rpm : ℤ) (bs : Buckets) {key key' : CodePoints} (h : key' ≠ key) (now : ℚ) :
    (consult rpm bs key now).2 key' = bs key' :=
  Function.update_of_ne h _ _

def Regular (rpm : ℤ) (clock : ℚ) (bs : Buckets) : Prop :=
  ∀ key b, bs key = some b → b.Regular rpm clock

/-- The second limiter has the same buckets, but for some that are full from now on. -/
def Forgets (clock : ℚ) (bs bs' : Buckets) : Prop :=
  ∀ key, bs' key = bs key ∨ bs' key = none ∧ ∃ b, bs key = some b ∧ b.FullFrom clock

theorem Regular.mono (h : Regular rpm clock bs) (hnow : clock ≤ now) : Regular rpm now bs :=
  fun key b hb => (h key b hb).mono hnow

theorem Regular.recent (h : Regular rpm clock bs) (cutoff : ℚ) :
    Regular rpm clock (bs.recent cutoff) := by
  intro key b hb
  exact h key b (Option.filter_eq_some_iff.mp hb).1

theorem Regular.consult (h : Regular rpm clock bs) (hrpm : 0 < rpm) (hnow : clock ≤ now)
    (key : CodePoints) : Regular rpm now (consult rpm bs key now).2 := by
  intro key' b hb
  by_cases hk : key' = key
  · subst hk
    rw [consult_self] at hb
    cases hb
    cases hbefore : bs key' with
    | none => exact (TokenBucket.regular_ofRpm hrpm now).consume hrpm (le_refl now)
    | some b => exact (h key' b hbefore).consume hrpm hnow
  · rw [consult_other rpm bs hk] at hb
    exact (h key' b hb).mono hnow

theorem Forgets.mono (h : Forgets clock bs bs') (hnow : clock ≤ now) : Forgets now bs bs' := by
  intro key
  rcases h key with heq | ⟨hnone, b, hb, hfull⟩
  · exact .inl heq
  · exact .inr ⟨hnone, b, hb, hfull.mono hnow⟩

/-- Both limiters may forget the same again. -/
theorem Forgets.recent (h : Forgets clock bs bs') (cutoff : ℚ) :
    Forgets clock (bs.recent cutoff) (bs'.recent cutoff) := by
  intro key
  rcases h key with heq | ⟨hnone, b, hb, hfull⟩
  · left
    rw [Buckets.recent, Buckets.recent, heq]
  · have hright : bs'.recent cutoff key = none := by
      rw [Buckets.recent, hnone]
      rfl
    by_cases hlate : cutoff < b.lastRefill
    · refine .inr ⟨hright, b, ?_, hfull⟩
      rw [Buckets.recent, hb, Option.filter_some, if_pos (by simpa using hlate)]
    · left
      rw [hright, Buckets.recent, hb, Option.filter_some, if_neg (by simpa using hlate)]

theorem Forgets.consult (h : Forgets clock bs bs') (hbs : Regular rpm clock bs)
    (hnow : clock ≤ now) (key : CodePoints) :
    (consult rpm bs' key now).1 = (consult rpm bs key now).1 ∧
      Forgets now (consult rpm bs key now).2 (consult rpm bs' key now).2 := by
  have hown : ((bs' key).getD (TokenBucket.ofRpm rpm now)).consume now 1 =
      ((bs key).getD (TokenBucket.ofRpm rpm now)).consume now 1 := by
    rcases h key with heq | ⟨hnone, b, hb, hfull⟩
    · rw [heq]
    · rw [hnone, hb]
      exact (hfull.consume (hbs key b hb) hnow).symm
  refine ⟨by rw [consult_fst, consult_fst, hown], fun key' => ?_⟩
  by_cases hk : key' = key
  · subst hk
    left
    rw [consult_self, consult_self, hown]
  · rw [consult_other rpm bs hk, consult_other rpm bs' hk]
    exact h.mono hnow key'

/-- What rested for a minute is forgotten without loss. -/
theorem forgets_recent (hbs : Regular rpm clock bs) (hrpm : 0 < rpm) {maxAge : ℚ}
    (hage : 60 ≤ maxAge) (now : ℚ) : Forgets now bs (bs.recent (now - maxAge)) := by
  intro key
  rw [Buckets.recent]
  cases hb : bs key with
  | none => exact .inl rfl
  | some b =>
    by_cases hlate : now - maxAge < b.lastRefill
    · left
      rw [Option.filter_some, if_pos (by simpa using hlate)]
    · refine .inr ⟨?_, b, rfl, (hbs key b hb).fullFrom hrpm ?_⟩
      · rw [Option.filter_some, if_neg (by simpa using hlate)]
      · linarith

end Buckets

/-! ## Runs of the limiter -/

namespace RateLimiter
variable {l l' : RateLimiter} {clock now maxAge : ℚ} {calls : List Call}

theorem isAllowed_eq (l : RateLimiter) (userId channelId : CodePoints) (now : Readings) :
    l.isAllowed userId channelId now =
      ((Buckets.consult l.userRpm l.userBuckets userId now.user).1 &&
          (Buckets.consult l.channelRpm l.channelBuckets channelId now.channel).1,
        { l with
          userBuckets := (Buckets.consult l.userRpm l.userBuckets userId now.user).2
          channelBuckets :=
            (Buckets.consult l.channelRpm l.channelBuckets channelId now.channel).2 }) := rfl

/-- A limiter as it is left by the calls before the clock. -/
structure Regular (clock : ℚ) (l : RateLimiter) : Prop where
  userRpm : 0 < l.userRpm
  channelRpm : 0 < l.channelRpm
  user : Buckets.Regular l.userRpm clock l.userBuckets
  channel : Buckets.Regular l.channelRpm clock l.channelBuckets

structure Forgets (clock : ℚ) (l l' : RateLimiter) : Prop where
  userRpm : l'.userRpm = l.userRpm
  channelRpm : l'.channelRpm = l.channelRpm
  user : Buckets.Forgets clock l.userBuckets l'.userBuckets
  channel : Buckets.Forgets clock l.channelBuckets l'.channelBuckets

theorem Regular.mono (h : Regular clock l) (hnow : clock ≤ now) : Regular now l :=
  { h with user := h.user.mono hnow, channel := h.channel.mono hnow }

theorem Regular.isAllowed (h : Regular clock l) {now : Readings} (huser : clock ≤ now.user)
    (hchannel : now.user ≤ now.channel) (userId channelId : CodePoints) :
    Regular now.channel (l.isAllowed userId channelId now).2 where
  userRpm := h.userRpm
  channelRpm := h.channelRpm
  user := (h.user.consult h.userRpm huser userId).mono hchannel
  channel := h.channel.consult h.channelRpm (huser.trans hchannel) channelId

theorem Regular.cleanup (h : Regular clock l) (hnow : clock ≤ now) (maxAge : ℚ) :
    Regular now (l.cleanup now maxAge) where
  userRpm := h.userRpm
  channelRpm := h.channelRpm
  user := (h.user.mono hnow).recent _
  channel := (h.channel.mono hnow).recent _

theorem Forgets.isAllowed (h : Forgets clock l l') (hl : Regular clock l) {now : Readings}
    (huser : clock ≤ now.user) (hchannel : now.user ≤ now.channel)
    (userId channelId : CodePoints) :
    (l'.isAllowed userId channelId now).1 = (l.isAllowed userId channelId now).1 ∧
      Forgets now.channel (l.isAllowed userId channelId now).2
        (l'.isAllowed userId channelId now).2 := by
  obtain ⟨husers, huser'⟩ := h.user.consult hl.user huser userId
  obtain ⟨hchannels, hchannel'⟩ := h.channel.consult hl.channel
    (huser.trans hchannel) channelId
  rw [isAllowed_eq, isAllowed_eq, h.userRpm, h.channelRpm]
  refine ⟨by rw [husers, hchannels], rfl, rfl, huser'.mono hchannel, hchannel'⟩

theorem Forgets.cleanup (h : Forgets clock l l') (hnow : clock ≤ now) (maxAge : ℚ) :
    Forgets now (l.cleanup now maxAge) (l'.cleanup now maxAge) where
  userRpm := h.userRpm
  channelRpm := h.channelRpm
  user := (h.user.mono hnow).recent _
  channel := (h.channel.mono hnow).recent _

theorem forgets_cleanup (hl : Regular clock l) (hage : 60 ≤ maxAge) (now : ℚ) :
    Forgets now l (l.cleanup now maxAge) where
  userRpm := rfl
  channelRpm := rfl
  user := Buckets.forgets_recent hl.user hl.userRpm hage now
  channel := Buckets.forgets_recent hl.channel hl.channelRpm hage now

/-- A limiter that forgot full buckets answers as the other one does. -/
theorem Forgets.answers_eq (h : Forgets clock l l') (hl : Regular clock l)
    (hclock : NonDecreasing clock calls) : l'.answers calls = l.answers calls := by
  induction calls generalizing l l' clock with
  | nil => rfl
  | cons call calls ih =>
    cases call with
    | isAllowed userId channelId now =>
      obtain ⟨huser, hchannel, hrest⟩ := hclock
      obtain ⟨hanswer, hnext⟩ := h.isAllowed hl huser hchannel userId channelId
      exact congrArg₂ List.cons hanswer (ih hnext (hl.isAllowed huser hchannel _ _) hrest)
    | cleanup now maxAge =>
      exact ih (h.cleanup hclock.1 maxAge) (hl.cleanup hclock.1 maxAge) hclock.2

theorem Regular.answers_insert (hl : Regular clock l) (hage : 60 ≤ maxAge)
    {before after : List Call}
    (hclock : NonDecreasing clock (before ++ .cleanup now maxAge :: after)) :
    l.answers (before ++ .cleanup now maxAge :: after) = l.answers (before ++ after) ∧
      ∀ key b, (before.foldl step l).userBuckets key = some b ∨
          (before.foldl step l).channelBuckets key = some b →
        b.lastRefill ≤ now - maxAge → b.FullFrom now := by
  induction before generalizing l clock with
  | nil =>
    have hnow := hl.mono hclock.1
    refine ⟨(forgets_cleanup hl hage now).answers_eq hnow hclock.2, fun key b hb hold => ?_⟩
    have hrested : b.lastRefill + 60 ≤ now := by linarith
    rcases hb with hb | hb
    · exact (hl.user key b hb).fullFrom hl.userRpm hrested
    · exact (hl.channel key b hb).fullFrom hl.channelRpm hrested
  | cons call before ih =>
    cases call with
    | isAllowed userId channelId now =>
      obtain ⟨huser, hchannel, hrest⟩ := hclock
      obtain ⟨hanswers, hfull⟩ := ih (hl.isAllowed huser hchannel userId channelId) hrest
      exact ⟨congrArg (List.cons _) hanswers, hfull⟩
    | cleanup now maxAge => exact ih (hl.cleanup hclock.1 maxAge) hclock.2

/-- One call empties both buckets, and a minute later they are forgotten. -/
def demoFirst : Call := .isAllowed (CodePoints.ofString "u") (CodePoints.ofString "c") ⟨0, 0⟩
def demoSecond : Call := .isAllowed (CodePoints.ofString "u") (CodePoints.ofString "c") ⟨60, 60⟩

end RateLimiter

end OpenClaw.RateLimit.Connector
