import OpenClaw.RateLimit.DeniedRequests

/-!
# Whose policy an address is held to

An address has one bucket for each kind of request, made under the policy of the caller who comes
first. A run whose requests find no bucket, or one that was made under their own policy, holds
anonymous callers to the anonymous policy and serves authenticated ones within the scaled policy.
-/

namespace OpenClaw.RateLimit

open Foundation
set_option autoImplicit false

/-! ### Runs of requests -/

structure Evaluation where
  env : String → Option CodePoints
  request : Request

def Evaluation.now (e : Evaluation) : ℚ := e.request.readings.ip

/-- The request is of this kind and comes from this address. -/
def Evaluation.At (limitType ip : CodePoints) (e : Evaluation) : Prop :=
  e.request.limitType = limitType ∧ e.request.caller.ip = ip

instance (limitType ip : CodePoints) (e : Evaluation) : Decidable (e.At limitType ip) := by
  unfold Evaluation.At; infer_instance

namespace RateLimiter

def step (l : RateLimiter) (e : Evaluation) : RateLimitDecision × RateLimiter :=
  evaluate e.env e.request l

def run (l : RateLimiter) (calls : List Evaluation) : RateLimiter :=
  calls.foldl (fun l e => (l.step e).2) l

def answers : RateLimiter → List Evaluation → List (Evaluation × RateLimitDecision)
  | _, [] => []
  | l, e :: calls => (e, (l.step e).1) :: answers (l.step e).2 calls

/-- The bucket of an address. -/
def ipBucket (l : RateLimiter) (limitType ip : CodePoints) : Option TokenBucket :=
  l.buckets (colon limitType BucketName.ip.text) ip

/-- The bucket was made under the policy. -/
structure MadeUnder (p : BucketPolicy) (b : TokenBucket) : Prop where
  capacity : b.capacity = p.capacity
  rate : b.rate = p.tokensPerSecond

/-- The request finds no bucket for its address, or one that was made under its own policy. -/
def OwnPolicy (l : RateLimiter) (e : Evaluation) : Prop :=
  ∀ b, l.ipBucket e.request.limitType e.request.caller.ip = some b →
    MadeUnder (ipPolicy e.request.limitType e.request.caller) b

end RateLimiter

/-- The addresses' clock does not go back. -/
def IpClock (start : ℚ) (calls : List Evaluation) : Prop :=
  (start :: calls.map Evaluation.now).Pairwise (· ≤ ·)

open RateLimiter

section Law
variable (limitType ip : CodePoints)

/-- The request is anonymous, and it is allowed. -/
def AnonymousServed (x : Evaluation × RateLimitDecision) : Prop :=
  x.1.At limitType ip ∧ ¬ x.1.request.caller.authenticated ∧ x.2.allowed = true

instance (x : Evaluation × RateLimitDecision) : Decidable (AnonymousServed limitType ip x) := by
  unfold AnonymousServed; infer_instance

/-- The anonymous requests that are allowed from `first` to `last`. -/
def servedAnonymous (first last : ℚ) (calls : List Evaluation) : ℕ :=
  ((answers {} calls).filter fun x => decide (AnonymousServed limitType ip x ∧
    first ≤ x.1.now ∧ x.1.now ≤ last)).length

/-- No window serves more anonymous requests than their policy has for it. -/
def AnonymousBound (calls : List Evaluation) : Prop :=
  ∀ first length, 0 ≤ length → (servedAnonymous limitType ip first (first + length) calls : ℚ) ≤
    (policyOf limitType).ip.capacity + (policyOf limitType).ip.tokensPerSecond * length

/-- No window holds more of the moments than the policy has for it. -/
def Conforms (p : BucketPolicy) (times : List ℚ) : Prop :=
  ∀ first last, first ≤ last →
    ((times.filter fun t => decide (first ≤ t ∧ t ≤ last)).length : ℚ) ≤
      p.capacity + p.tokensPerSecond * (last - first)

/-- Nothing that others took from the address is missing any more. -/
def Rested (now : ℚ) (l : RateLimiter) : Prop :=
  ∀ b, l.ipBucket limitType ip = some b → b.lastUpdate ≤ now ∧ (b.refillUnlocked now).tokens = b.capacity

/-- Authenticated callers who are alone on a rested address, and keep to the scaled policy, are not
denied by its bucket. -/
def AuthenticatedServed (calls : List Evaluation) : Prop :=
  ∀ before segment now, calls = before ++ segment → IpClock now segment →
    Rested limitType ip now (run {} before) →
    (∀ e ∈ segment, e.At limitType ip → e.request.caller.authenticated) →
    Conforms (policyOf limitType).ip.scaled
      ((segment.filter fun e => decide (e.At limitType ip)).map Evaluation.now) →
    ∀ x ∈ answers (run {} before) segment, x.1.At limitType ip → x.2.allowed = false →
      x.2.bucket ≠ .ip

end Law

/-! ### One request -/

/-- A check that never answers in the name of the address. -/
def Check.NotIp (check : Check) : Prop := ∀ l, (check l).1.bucket ≠ .ip

theorem Check.NotIp.andThen {check next : Check} (h : check.NotIp) (hnext : next.NotIp) :
    (check.andThen next).NotIp := by
  intro l
  cases hfirst : (check l).1.allowed with
  | false =>
    rw [andThen_denied hfirst]
    exact h l
  | true =>
    rw [andThen_allowed hfirst]
    exact hnext _

namespace RateLimiter
variable {env : String → Option CodePoints} {r : Request} {limitType ip : CodePoints}

theorem allow_notIp (who : Caller) : (allow limitType who).NotIp := fun _ => by simp [allow]

theorem checkBucket_notIp {bucket : BucketName} {scopeValue : CodePoints} {p : BucketPolicy}
    {now : ℚ} {who : Caller} (h : bucket ≠ .ip) :
    (checkBucket limitType bucket scopeValue p now who).NotIp := fun _ => h

theorem dailyCheck_notIp : (dailyCheck env r).NotIp := by
  intro l
  unfold dailyCheck checkDaily
  split
  · exact allow_notIp _ _
  · dsimp only
    split
    · exact allow_notIp _ _
    · simp

theorem tokenCheck_notIp : (tokenCheck r).NotIp := by
  unfold tokenCheck
  split
  · exact allow_notIp _
  · exact checkBucket_notIp (by decide)

theorem tenantCheck_notIp : (tenantCheck r).NotIp := by
  unfold tenantCheck
  split
  · exact allow_notIp _
  · exact checkBucket_notIp (by decide)

theorem earlierChecks_notIp : (earlierChecks env r).NotIp := by
  have hendpoint : (endpointCheck r).NotIp := checkBucket_notIp (by decide)
  exact (hendpoint.andThen dailyCheck_notIp).andThen (tokenCheck_notIp.andThen tenantCheck_notIp)

theorem earlierChecks_spares :
    (earlierChecks env r).Spares (colon limitType BucketName.ip.text) := by
  have hendpoint : (endpointCheck r).Spares (colon limitType BucketName.ip.text) :=
    checkBucket_spares (colon_ne (by decide))
  exact (hendpoint.andThen (dailyCheck_spares _)).andThen
    ((tokenCheck_spares (by decide)).andThen (tenantCheck_spares (by decide)))

/-- What a request that reaches the bucket of its address consumes from it. -/
def ipConsumed (l : RateLimiter) (e : Evaluation) : (Bool × ℤ) × TokenBucket :=
  (l.getBucket e.request.limitType .ip e.request.caller.ip
    (ipPolicy e.request.limitType e.request.caller) e.now).consumeWithDiagnostics e.now 1

variable {l : RateLimiter} {e : Evaluation}

theorem ipConsumed_of_some {b : TokenBucket}
    (here : l.ipBucket e.request.limitType e.request.caller.ip = some b) :
    l.ipConsumed e = b.consumeWithDiagnostics e.now 1 := by
  rw [ipConsumed, getBucket, show l.buckets _ _ = some b from here, Option.getD_some]

theorem ipConsumed_of_none (absent : l.ipBucket e.request.limitType e.request.caller.ip = none) :
    l.ipConsumed e = (TokenBucket.new (ipPolicy e.request.limitType e.request.caller).capacity
      (ipPolicy e.request.limitType e.request.caller).tokensPerSecond
      e.now).consumeWithDiagnostics e.now 1 := by
  rw [ipConsumed, getBucket, show l.buckets _ _ = none from absent, Option.getD_none]

/-- A request leaves the bucket of an address alone, or it comes from there and its answer is what
the bucket says. -/
theorem ipBucket_step (limitType ip : CodePoints) (l : RateLimiter) (e : Evaluation) :
    ((l.step e).2.ipBucket limitType ip = l.ipBucket limitType ip ∧
        (e.At limitType ip → (l.step e).1.allowed = false ∧ (l.step e).1.bucket ≠ .ip)) ∨
      (e.At limitType ip ∧
        (l.step e).2.ipBucket limitType ip = some (l.ipConsumed e).2 ∧
        (l.step e).1.allowed = (l.ipConsumed e).1.1) := by
  have hspared := @earlierChecks_spares e.env e.request limitType l
  cases hearlier : (earlierChecks e.env e.request l).1.allowed with
  | false =>
    left
    have hstep : l.step e = earlierChecks e.env e.request l := by
      rw [step, evaluate, Check.andThen_assoc, Check.andThen_denied hearlier]
    rw [hstep]
    exact ⟨congrFun hspared ip, fun _ => ⟨hearlier, earlierChecks_notIp l⟩⟩
  | true =>
    have hstep : l.step e = ((ipCheck e.request).andThen (allow e.request.limitType e.request.caller))
        (earlierChecks e.env e.request l).2 := by
      rw [step, evaluate, Check.andThen_assoc, Check.andThen_allowed hearlier]
    have hafter : (l.step e).2 = (ipCheck e.request (earlierChecks e.env e.request l).2).2 := by
      rw [hstep]
      unfold Check.andThen
      split <;> rfl
    have hown := @earlierChecks_spares e.env e.request e.request.limitType l
    have hconsumed : ((earlierChecks e.env e.request l).2.getBucket e.request.limitType .ip
        e.request.caller.ip (ipPolicy e.request.limitType e.request.caller)
        e.request.readings.ip).consumeWithDiagnostics e.request.readings.ip 1 = l.ipConsumed e := by
      rw [ipConsumed, getBucket, getBucket, hown]
      rfl
    have hanswer : (l.step e).1.allowed = (l.ipConsumed e).1.1 := by
      rw [hstep, ← hconsumed]
      unfold Check.andThen
      split
      · rename_i hallowed
        exact hallowed.symm
      · rfl
    by_cases hat : e.At limitType ip
    · right
      obtain ⟨rfl, rfl⟩ := hat
      refine ⟨⟨rfl, rfl⟩, ?_, hanswer⟩
      rw [hafter, ipBucket, ipCheck, checkBucket_own, hconsumed]
    · left
      refine ⟨?_, fun h => absurd h hat⟩
      have hother : colon limitType BucketName.ip.text ≠
          colon e.request.limitType BucketName.ip.text ∨ ip ≠ e.request.caller.ip := by
        by_contra hsame
        rw [not_or, not_not, not_not] at hsame
        exact hat ⟨(colon_text_injective hsame.1).1.symm, hsame.2.symm⟩
      rw [hafter, ipBucket, ipCheck, checkBucket_other hother, hspared]
      rfl

end RateLimiter

/-! ### Anonymous callers -/

/-- What the anonymous policy still has for the address at `stamp`. -/
inductive Balance (limitType ip : CodePoints) (l : RateLimiter) (stamp : ℚ) : ℚ → Prop where
  | unmade (absent : l.ipBucket limitType ip = none) :
      Balance limitType ip l stamp (policyOf limitType).ip.capacity
  | scaled (b : TokenBucket) (here : l.ipBucket limitType ip = some b)
      (made : MadeUnder (policyOf limitType).ip.scaled b) :
      Balance limitType ip l stamp (policyOf limitType).ip.capacity
  | own (b : TokenBucket) (here : l.ipBucket limitType ip = some b)
      (made : MadeUnder (policyOf limitType).ip b) (filled : b.toBucket.Filled)
      (clock : b.lastUpdate ≤ stamp) : Balance limitType ip l stamp (b.toBucket.level stamp)

theorem ipRate_nonneg (limitType : CodePoints) : 0 ≤ (policyOf limitType).ip.tokensPerSecond := by
  have hall : ∀ p ∈ buildDefaultPolicies.map Prod.snd, 0 ≤ p.ip.tokensPerSecond := by
    simp only [buildDefaultPolicies, policy, List.map_cons, List.map_nil, List.forall_mem_cons]
    norm_num
  exact hall _ (policyOf_cases limitType)

theorem scaled_capacity (limitType : CodePoints) :
    (policyOf limitType).ip.capacity < (policyOf limitType).ip.scaled.capacity := by
  have hcapacity := (policyOf_capacity limitType).2
  have hscaled : (policyOf limitType).ip.capacity * 5 ≤ (policyOf limitType).ip.scaled.capacity :=
    le_max_right _ _
  omega

namespace RateLimiter.MadeUnder
variable {p : BucketPolicy} {b : TokenBucket}

theorem consume (h : MadeUnder p b) (now : ℚ) : MadeUnder p (b.consumeWithDiagnostics now 1).2 := by
  unfold TokenBucket.consumeWithDiagnostics
  dsimp only
  split <;> exact ⟨h.capacity, h.rate⟩

theorem new (h : 0 ≤ p.tokensPerSecond) (now : ℚ) :
    MadeUnder p (.new p.capacity p.tokensPerSecond now) := ⟨rfl, max_eq_right h⟩

theorem rate_nonneg {limitType : CodePoints} (h : MadeUnder (policyOf limitType).ip b) :
    0 ≤ b.toBucket.rate := (ipRate_nonneg limitType).trans_eq h.rate.symm

end RateLimiter.MadeUnder

section Anonymous
variable {limitType ip : CodePoints} {l : RateLimiter} {stamp now : ℚ}

theorem Balance.nonneg {x : ℚ} (h : Balance limitType ip l stamp x) : 0 ≤ x := by
  have hcapacity : (0 : ℚ) ≤ (policyOf limitType).ip.capacity := by
    exact_mod_cast zero_le_one.trans (policyOf_capacity limitType).2
  cases h with
  | unmade => exact hcapacity
  | scaled => exact hcapacity
  | own b _ made filled clock => exact filled.level_nonneg made.rate_nonneg clock

/-- A bucket of the anonymous policy after a request that consumed from it. -/
theorem balance_consumed {b : TokenBucket} (made : MadeUnder (policyOf limitType).ip b)
    (filled : b.toBucket.Filled) (clock : b.lastUpdate ≤ now)
    (hafter : l.ipBucket limitType ip = some (b.consumeWithDiagnostics now 1).2) {cost : ℚ}
    (hcost : cost = 0 ∨ cost = 1 ∧ (b.consumeWithDiagnostics now 1).1.1 = true) :
    ∃ x, Balance limitType ip l now x ∧ cost + x ≤ b.toBucket.level now := by
  have htake := (TokenBucket.refines b ⟨now, 1⟩ clock).2
  have hfilled : (b.consumeWithDiagnostics now 1).2.toBucket.Filled := by
    have hroom := (filled.take_iff (t := Consume.toTake ⟨now, 1⟩) made.rate_nonneg clock).mpr
      (Bucket.Filled.room_of_nonneg (by norm_num [Consume.toTake]))
    rwa [← htake] at hroom
  have hstamp : (b.consumeWithDiagnostics now 1).2.toBucket.stamp = now :=
    TokenBucket.refines.consume_stamp (b := b) (c := ⟨now, 1⟩) clock
  have hlevel : (b.consumeWithDiagnostics now 1).2.toBucket.level now =
      (b.toBucket.take (Consume.toTake ⟨now, 1⟩)).2.tokens := by
    have hown := hfilled.level_stamp
    rw [hstamp] at hown
    rw [hown, ← htake]
    rfl
  have hspend : (if (b.consumeWithDiagnostics now 1).1.1 then ((1 : ℤ) : ℚ) else 0) =
      b.toBucket.spend (Consume.toTake ⟨now, 1⟩) :=
    TokenBucket.refines.grant_eq (b := b) (c := ⟨now, 1⟩) clock
  have hpaid : cost ≤ b.toBucket.spend (Consume.toTake ⟨now, 1⟩) := by
    rw [← hspend]
    rcases hcost with hzero | ⟨hone, hallowed⟩
    · rw [hzero]
      split <;> norm_num
    · rw [hone, if_pos hallowed]
      norm_num
  refine ⟨_, .own _ hafter (made.consume now) hfilled hstamp.le, ?_⟩
  rw [hlevel]
  exact (add_le_add_left hpaid _).trans (Bucket.spend_add_tokens _ _).le

/-- One request moves the balance as a meter does. -/
theorem Balance.step {x : ℚ} (h : Balance limitType ip l stamp x) {e : Evaluation}
    (hclock : stamp ≤ e.now)
    (hown : e.At limitType ip → ¬ e.request.caller.authenticated → l.OwnPolicy e) {cost : ℚ}
    (hcost : cost = if AnonymousServed limitType ip (e, (l.step e).1) then 1 else 0) :
    ∃ left, Balance limitType ip (l.step e).2 e.now left ∧
      cost + left ≤ (policyOf limitType).ip.capacity ∧
      cost + left ≤ x + (policyOf limitType).ip.tokensPerSecond * (e.now - stamp) := by
  have hgain : 0 ≤ (policyOf limitType).ip.tokensPerSecond * (e.now - stamp) :=
    mul_nonneg (ipRate_nonneg limitType) (sub_nonneg.mpr hclock)
  rcases ipBucket_step limitType ip l e with ⟨hsame, hdenied⟩ | ⟨hat, hafter, hanswer⟩
  · have hzero : cost = 0 := by
      rw [hcost, if_neg]
      intro ⟨hat, _, hallowed⟩
      rw [(hdenied hat).1] at hallowed
      exact absurd hallowed (by simp)
    subst hzero
    simp only [zero_add]
    cases h with
    | unmade absent =>
      exact ⟨_, .unmade (hsame.trans absent), le_refl _, le_add_of_nonneg_right hgain⟩
    | scaled b here made =>
      exact ⟨_, .scaled b (hsame.trans here) made, le_refl _, le_add_of_nonneg_right hgain⟩
    | own b here made filled clock =>
      refine ⟨_, .own b (hsame.trans here) made filled (clock.trans hclock), ?_, ?_⟩
      · exact (Bucket.level_le_capacity _ _).trans_eq made.capacity
      · exact (Bucket.level_gain made.rate_nonneg hclock).trans_eq (by rw [← made.rate]; rfl)
  · have hpaid : cost = 0 ∨ cost = 1 ∧ (l.ipConsumed e).1.1 = true := by
      by_cases hserved : AnonymousServed limitType ip (e, (l.step e).1)
      · exact .inr ⟨by rw [hcost, if_pos hserved], hanswer ▸ hserved.2.2⟩
      · exact .inl (by rw [hcost, if_neg hserved])
    have hfree : e.request.caller.authenticated → cost = 0 := by
      intro hauth
      rw [hcost, if_neg fun hserved => hserved.2.1 hauth]
    obtain ⟨rfl, rfl⟩ := hat
    cases h with
    | own b here made filled clock =>
      rw [ipConsumed_of_some here] at hafter hpaid
      obtain ⟨left, hleft, hle⟩ := balance_consumed made filled (clock.trans hclock) hafter hpaid
      refine ⟨left, hleft, ?_, ?_⟩
      · exact hle.trans ((Bucket.level_le_capacity _ _).trans_eq made.capacity)
      · exact hle.trans ((Bucket.level_gain made.rate_nonneg hclock).trans_eq
          (by rw [← made.rate]; rfl))
    | scaled b here made =>
      have hauth : e.request.caller.authenticated := by
        by_contra hanonymous
        have hsame := hown ⟨rfl, rfl⟩ hanonymous b here
        rw [ipPolicy, if_neg hanonymous] at hsame
        have hequal := hsame.capacity.symm.trans made.capacity
        exact absurd (by exact_mod_cast hequal) (scaled_capacity e.request.limitType).ne
      rw [ipConsumed_of_some here] at hafter
      simp only [hfree hauth, zero_add]
      exact ⟨_, .scaled _ hafter (made.consume _), le_refl _, le_add_of_nonneg_right hgain⟩
    | unmade absent =>
      rw [ipConsumed_of_none absent] at hafter hpaid
      by_cases hauth : e.request.caller.authenticated
      · simp only [hfree hauth, zero_add]
        have hscaled : 0 ≤ (policyOf e.request.limitType).ip.scaled.tokensPerSecond :=
          mul_nonneg (ipRate_nonneg _) (by norm_num [ipScaledMultiplier])
        rw [ipPolicy, if_pos hauth] at hafter
        exact ⟨_, .scaled _ hafter ((MadeUnder.new hscaled _).consume _), le_refl _,
          le_add_of_nonneg_right hgain⟩
      · rw [ipPolicy, if_neg hauth] at hafter hpaid
        have hfilled := TokenBucket.new_filled
          (policyOf e.request.limitType).ip.tokensPerSecond e.now
          (policyOf_capacity e.request.limitType).2
        obtain ⟨left, hleft, hle⟩ := balance_consumed (MadeUnder.new (ipRate_nonneg _) _) hfilled
          (le_refl _) hafter hpaid
        have hheld := hle.trans (Bucket.level_le_capacity _ _)
        exact ⟨left, hleft, hheld, hheld.trans (le_add_of_nonneg_right hgain)⟩

theorem IpClock.now_le {e : Evaluation} {calls : List Evaluation} (h : IpClock now (e :: calls)) :
    now ≤ e.now := (List.pairwise_cons.mp h).1 _ (by simp)

theorem IpClock.rest {e : Evaluation} {calls : List Evaluation} (h : IpClock now (e :: calls)) :
    IpClock e.now calls := (List.pairwise_cons.mp h).2

/-- A run whose anonymous requests find their own policy keeps to its meter. -/
theorem Balance.metered {x : ℚ} {calls : List Evaluation} (h : Balance limitType ip l stamp x)
    (hclock : IpClock stamp calls)
    (hown : EachStep (fun l e => (RateLimiter.step l e).2)
      (fun l e => e.At limitType ip → ¬ e.request.caller.authenticated → l.OwnPolicy e) l calls) :
    Metered ((policyOf limitType).ip.capacity : ℚ) (policyOf limitType).ip.tokensPerSecond stamp x
      ((answers l calls).map fun x => (x.1.now, if AnonymousServed limitType ip x then 1 else 0)) := by
  induction calls generalizing l stamp x with
  | nil => exact .done h.nonneg
  | cons e calls ih =>
    obtain ⟨left, hleft, hheld, hgained⟩ := h.step hclock.now_le hown.1 rfl
    exact .spend h.nonneg hclock.now_le hheld hgained (ih hleft hclock.rest hown.2)

end Anonymous

/-! ### Authenticated callers -/

section Authenticated
variable {limitType ip : CodePoints} {l : RateLimiter} {stamp now : ℚ} {past : List ℚ}

/-- No bucket of the address loses tokens by waiting. -/
def RateNonneg (limitType ip : CodePoints) (l : RateLimiter) : Prop :=
  ∀ b, l.ipBucket limitType ip = some b → 0 ≤ b.rate

theorem consume_rate (b : TokenBucket) (now : ℚ) : (b.consumeWithDiagnostics now 1).2.rate = b.rate := by
  unfold TokenBucket.consumeWithDiagnostics
  dsimp only
  split <;> rfl

theorem RateNonneg.step (h : RateNonneg limitType ip l) (e : Evaluation) :
    RateNonneg limitType ip (l.step e).2 := by
  rcases ipBucket_step limitType ip l e with ⟨hsame, -⟩ | ⟨⟨rfl, rfl⟩, hafter, -⟩
  · rw [RateNonneg, hsame]
    exact h
  · intro b hb
    rw [hafter] at hb
    cases hb
    rw [ipConsumed, consume_rate]
    cases hbefore : l.ipBucket e.request.limitType e.request.caller.ip with
    | none => rw [getBucket, show l.buckets _ _ = none from hbefore]; exact le_max_left _ _
    | some b => rw [getBucket, show l.buckets _ _ = some b from hbefore]; exact h b hbefore

theorem rateNonneg_run (calls : List Evaluation) (h : RateNonneg limitType ip l) :
    RateNonneg limitType ip (run l calls) := by
  induction calls generalizing l with
  | nil => exact h
  | cons e calls ih => exact ih (h.step e)

/-- The address has no bucket, or one that is full or has handed out a token at most for each of the
`past` moments since it was full at an `origin`. -/
inductive Standing (limitType ip : CodePoints) (l : RateLimiter) (stamp : ℚ) (past : List ℚ) :
    Prop where
  | unmade (absent : l.ipBucket limitType ip = none)
  | account (b : TokenBucket) (here : l.ipBucket limitType ip = some b)
      (clock : b.lastUpdate ≤ stamp) {origin : ℚ} {count : ℕ}
      (account : b.toBucket.OnAccount stamp origin count)
      (times : ∀ t ∈ past, origin ≤ t ∧ t ≤ stamp) (counted : count ≤ past.length)

theorem Standing.start (h : Rested limitType ip now l) (hrate : RateNonneg limitType ip l) :
    Standing limitType ip l now [] := by
  cases hb : l.ipBucket limitType ip with
  | none => exact .unmade hb
  | some b =>
    obtain ⟨hclock, hfull⟩ := h b hb
    rw [TokenBucket.refillUnlocked_tokens hclock] at hfull
    exact .account b hb hclock (Bucket.onAccount_full hfull (hrate b hb)) (by simp) (by simp)

theorem Conforms.sublist {p : BucketPolicy} {times fewer : List ℚ} (h : Conforms p times)
    (hfewer : fewer.Sublist times) : Conforms p fewer := by
  intro first last hwindow
  refine le_trans ?_ (h first last hwindow)
  exact_mod_cast (hfewer.filter _).length_le

/-- Moments since `origin` and the present one are all in one window. -/
theorem Conforms.count {p : BucketPolicy} {origin : ℚ} {rest : List ℚ}
    (h : Conforms p (past ++ now :: rest)) (htimes : ∀ t ∈ past, origin ≤ t ∧ t ≤ now)
    (horigin : origin ≤ now) :
    ((past.length + 1 : ℕ) : ℚ) ≤ p.capacity + p.tokensPerSecond * (now - origin) := by
  refine le_trans ?_ (h origin now horigin)
  have hpast : past.filter (fun t => decide (origin ≤ t ∧ t ≤ now)) = past :=
    List.filter_eq_self.mpr fun t ht => by simpa using htimes t ht
  rw [List.filter_append, hpast, List.filter_cons_of_pos (by simpa using horigin)]
  simp only [List.length_append, List.length_cons]
  exact_mod_cast Nat.add_le_add_left (Nat.le_add_left 1 _) past.length

/-- A bucket of the scaled policy grants what keeps to it. -/
theorem Standing.consumed {b : TokenBucket} (made : MadeUnder (policyOf limitType).ip.scaled b)
    (clock : b.lastUpdate ≤ now) {origin : ℚ} {count : ℕ}
    (account : b.toBucket.OnAccount stamp origin count) (hnow : stamp ≤ now)
    (times : ∀ t ∈ past, origin ≤ t ∧ t ≤ stamp) (counted : count ≤ past.length) {rest : List ℚ}
    (hconforms : Conforms (policyOf limitType).ip.scaled (past ++ now :: rest))
    (hafter : l.ipBucket limitType ip = some (b.consumeWithDiagnostics now 1).2) :
    (b.consumeWithDiagnostics now 1).1.1 = true ∧
      ∃ later, later.Sublist (past ++ [now]) ∧ Standing limitType ip l now later := by
  have hcapacity : 1 ≤ b.toBucket.capacity := by
    have hlarge := (policyOf_capacity limitType).2.trans (scaled_capacity limitType).le
    have hmade := made.capacity
    change 1 ≤ b.capacity
    rw [hmade]
    exact_mod_cast hlarge
  have htimes : ∀ t ∈ past, origin ≤ t ∧ t ≤ now :=
    fun t ht => (times t ht).imp_right fun hle => hle.trans hnow
  have hwithin : ((count + 1 : ℕ) : ℚ) ≤ b.toBucket.capacity + b.toBucket.rate * (now - origin) := by
    have hcount := hconforms.count htimes (account.clock.trans hnow)
    rw [← made.capacity, ← made.rate] at hcount
    refine le_trans ?_ hcount
    exact_mod_cast Nat.succ_le_succ counted
  obtain ⟨hgranted, htake⟩ := TokenBucket.refines b ⟨now, 1⟩ clock
  have hstamp : (b.consumeWithDiagnostics now 1).2.lastUpdate = now :=
    TokenBucket.refines.consume_stamp (b := b) (c := ⟨now, 1⟩) clock
  obtain ⟨haccepted, haccount⟩ := account.take (t := Consume.toTake ⟨now, 1⟩) hnow (by simp [Consume.toTake])
    hcapacity hwithin
  refine ⟨hgranted.trans haccepted, ?_⟩
  rw [← htake] at haccount
  rcases haccount with hfresh | hcounted
  · exact ⟨[now], List.sublist_append_right past [now],
      .account _ hafter hstamp.le hfresh (by simp [Consume.toTake]) (by simp)⟩
  · refine ⟨past ++ [now], List.Sublist.refl _, .account _ hafter hstamp.le hcounted ?_ (by simpa using counted)⟩
    intro t ht
    rcases List.mem_append.mp ht with hpast | hlast
    · exact htimes t hpast
    · rw [List.mem_singleton.mp hlast]
      exact ⟨account.clock.trans hnow, le_refl _⟩

/-- One request of callers who keep to the scaled policy is not denied by the address. -/
theorem Standing.step (h : Standing limitType ip l stamp past) {e : Evaluation}
    (hclock : stamp ≤ e.now) (hat : e.At limitType ip) (hauth : e.request.caller.authenticated)
    (hown : l.OwnPolicy e) {rest : List ℚ}
    (hconforms : Conforms (policyOf limitType).ip.scaled (past ++ e.now :: rest)) :
    ((l.step e).1.allowed = false → (l.step e).1.bucket ≠ .ip) ∧
      ∃ later, later.Sublist (past ++ [e.now]) ∧ Standing limitType ip (l.step e).2 e.now later := by
  rcases ipBucket_step limitType ip l e with ⟨hsame, hdenied⟩ | ⟨-, hafter, hanswer⟩
  · refine ⟨fun _ => (hdenied hat).2, ?_⟩
    cases h with
    | unmade absent => exact ⟨[], List.nil_sublist _, .unmade (hsame.trans absent)⟩
    | account b here clock account times counted =>
      refine ⟨past, List.sublist_append_left past [e.now], .account b (hsame.trans here)
        (clock.trans hclock) (account.wait hclock) ?_ counted⟩
      exact fun t ht => (times t ht).imp_right fun hle => hle.trans hclock
  · obtain ⟨rfl, rfl⟩ := hat
    suffices hgranted : (l.ipConsumed e).1.1 = true ∧ ∃ later, later.Sublist (past ++ [e.now]) ∧
        Standing e.request.limitType e.request.caller.ip (l.step e).2 e.now later by
      refine ⟨fun hfalse => ?_, hgranted.2⟩
      rw [hanswer, hgranted.1] at hfalse
      exact absurd hfalse (by simp)
    have hpolicy : ipPolicy e.request.limitType e.request.caller =
        (policyOf e.request.limitType).ip.scaled := if_pos hauth
    cases h with
    | unmade absent =>
      have hscaled : 0 ≤ (policyOf e.request.limitType).ip.scaled.tokensPerSecond :=
        mul_nonneg (ipRate_nonneg _) (by norm_num [ipScaledMultiplier])
      rw [ipConsumed_of_none absent, hpolicy] at hafter ⊢
      have hfull : (TokenBucket.new (policyOf e.request.limitType).ip.scaled.capacity
          (policyOf e.request.limitType).ip.scaled.tokensPerSecond e.now).toBucket.level e.now =
            ((policyOf e.request.limitType).ip.scaled.capacity : ℚ) := by
        simp [TokenBucket.new, TokenBucket.toBucket, Bucket.level]
      obtain ⟨hgranted, later, hlater, hstanding⟩ := Standing.consumed
        (MadeUnder.new hscaled e.now) (le_refl _)
        (Bucket.onAccount_full hfull (le_max_left _ _)) (le_refl _) (List.forall_mem_nil _) (le_refl 0)
        (hconforms.sublist (List.sublist_append_right past (e.now :: rest))) hafter
      exact ⟨hgranted, later, hlater.trans (List.sublist_append_right past [e.now]), hstanding⟩
    | account b here clock account times counted =>
      have made := hown b here
      rw [hpolicy] at made
      rw [ipConsumed_of_some here] at hafter ⊢
      exact Standing.consumed made (clock.trans hclock) account hclock times counted hconforms hafter

/-- A request that is not of the address leaves its standing. -/
theorem Standing.other (h : Standing limitType ip l stamp past) {e : Evaluation}
    (hclock : stamp ≤ e.now) (hat : ¬ e.At limitType ip) :
    Standing limitType ip (l.step e).2 e.now past := by
  rcases ipBucket_step limitType ip l e with ⟨hsame, -⟩ | ⟨hthere, -⟩
  · cases h with
    | unmade absent => exact .unmade (hsame.trans absent)
    | account b here clock account times counted =>
      exact .account b (hsame.trans here) (clock.trans hclock) (account.wait hclock)
        (fun t ht => (times t ht).imp_right fun hle => hle.trans hclock) counted
  · exact absurd hthere hat

/-- A run of callers who keep to the scaled policy is not denied by the address. -/
theorem Standing.served {calls : List Evaluation} (h : Standing limitType ip l stamp past)
    (hclock : IpClock stamp calls)
    (hauth : ∀ e ∈ calls, e.At limitType ip → e.request.caller.authenticated)
    (hown : EachStep (fun l e => (RateLimiter.step l e).2) (fun l e => e.At limitType ip → l.OwnPolicy e) l calls)
    (hconforms : Conforms (policyOf limitType).ip.scaled
      (past ++ (calls.filter fun e => decide (e.At limitType ip)).map Evaluation.now)) :
    ∀ x ∈ answers l calls, x.1.At limitType ip → x.2.allowed = false → x.2.bucket ≠ .ip := by
  induction calls generalizing l stamp past with
  | nil => simp [answers]
  | cons e calls ih =>
    have hrest := fun e' he' => hauth e' (List.mem_cons_of_mem e he')
    intro x hx
    by_cases hat : e.At limitType ip
    · rw [List.filter_cons_of_pos (by simpa using hat), List.map_cons] at hconforms
      obtain ⟨hserved, later, hlater, hstanding⟩ := h.step hclock.now_le hat
        (hauth e List.mem_cons_self hat) (hown.1 hat) hconforms
      rcases List.mem_cons.mp hx with rfl | hx
      · exact fun _ => hserved
      · refine ih hstanding hclock.rest hrest hown.2 (hconforms.sublist ?_) x hx
        simpa using hlater.append_right ((calls.filter fun e => decide (e.At limitType ip)).map Evaluation.now)
    · rw [List.filter_cons_of_neg (by simpa using hat)] at hconforms
      rcases List.mem_cons.mp hx with rfl | hx
      · exact fun hthere => absurd hthere hat
      · exact ih (h.other hclock.now_le hat) hclock.rest hrest hown.2 hconforms x hx

end Authenticated

/-- A request to a webhook, at the time zero. -/
def webhookCall (tenant : Option CodePoints) : Evaluation where
  env := fun _ => none
  request :=
    { limitType := CodePoints.ofString "webhook"
      ip := CodePoints.ofString "1.2.3.4"
      tokenId := none
      tenantId := tenant
      readings := ⟨0, 0, 0, 0, 0, 0⟩ }

end OpenClaw.RateLimit
