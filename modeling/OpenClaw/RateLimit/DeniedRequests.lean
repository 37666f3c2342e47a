import OpenClaw.RateLimit.BucketLaw

/-!
# What a denied request consumes

A check consumes as it decides, and `evaluate` stops at the first check that denies: everything
before it stays consumed. The connector consults both of its buckets whatever the first one says.
-/

namespace OpenClaw.RateLimit

open Foundation
set_option autoImplicit false

/-! ### Content up to refill -/

/-- What a kind of bucket holds, and how it refills. -/
structure Refilling (β : Type) where
  refill : β → ℚ → β
  tokens : β → ℚ
  capacity : β → ℚ
  stamp : β → ℚ
  stamp_refill : ∀ b now, stamp (refill b now) = now
  own_refill : ∀ b, tokens (refill b (stamp b)) ≤ tokens b
  refill_le : ∀ b now, tokens (refill b now) ≤ capacity b

section Content
variable {β : Type} (R : Refilling β)

/-- A bucket before and after a request that did not consume from it: nothing was done, it was
refilled, or it was made and is full. -/
inductive SameContent : Option β → Option β → Prop where
  | untouched (b : Option β) : SameContent b b
  | refilled (b : β) (now : ℚ) : SameContent (some b) (some (R.refill b now))
  | made (b : β) (full : R.tokens b = R.capacity b) : SameContent none (some b)

variable {R} {before : Option β} {fresh after : β} {now : ℚ}

theorem sameContent_refill
    (hfresh : R.tokens (R.refill fresh now) = R.capacity (R.refill fresh now)) :
    SameContent R before (some (R.refill (before.getD fresh) now)) := by
  cases before with
  | none => exact .made _ hfresh
  | some b => exact .refilled b now

/-- A bucket that handed out a token does not have its content any more. -/
theorem not_sameContent (hstamp : R.stamp after = now)
    (htokens : R.tokens after = R.tokens (R.refill (before.getD fresh) now) - 1)
    (hcapacity : R.capacity after = R.capacity (before.getD fresh)) :
    ¬ SameContent R before (some after) := by
  intro h
  cases h with
  | untouched =>
    have hown := R.own_refill after
    rw [hstamp] at hown
    simp only [Option.getD_some] at htokens
    linarith
  | refilled b later =>
    rw [R.stamp_refill] at hstamp
    rw [hstamp, Option.getD_some] at htokens
    linarith
  | made _ full =>
    have hheld := R.refill_le fresh now
    simp only [Option.getD_none] at htokens hcapacity
    linarith

end Content

def TokenBucket.refilling : Refilling TokenBucket where
  refill := TokenBucket.refillUnlocked
  tokens := TokenBucket.tokens
  capacity := TokenBucket.capacity
  stamp := TokenBucket.lastUpdate
  stamp_refill _ _ := rfl
  own_refill b := by simp [TokenBucket.refillUnlocked]
  refill_le _ _ := min_le_left _ _

/-- Content is the same when it is the same at every later moment. -/
theorem TokenBucket.tokens_of_sameContent {b b' : TokenBucket} {later : ℚ}
    (h : SameContent TokenBucket.refilling (some b) (some b')) (hrate : 0 ≤ b.rate)
    (hclock : b.lastUpdate ≤ b'.lastUpdate) (hlater : b'.lastUpdate ≤ later) :
    (b'.refillUnlocked later).tokens = (b.refillUnlocked later).tokens := by
  cases h with
  | untouched => rfl
  | refilled _ now =>
    have hnow : b.lastUpdate ≤ now := hclock
    have hafter : (b.refillUnlocked now).toBucket = b.toBucket.refill now := by
      rw [Bucket.refill, ← TokenBucket.refillUnlocked_tokens hnow]
      rfl
    have hsame := @Bucket.level_refill ℚ _ _ b.toBucket now _ _ hrate hlater
    rw [← hafter] at hsame
    rw [TokenBucket.refillUnlocked_tokens (hclock.trans hlater), ← hsame]
    exact TokenBucket.refillUnlocked_tokens hlater

namespace Connector.TokenBucket

/-- The refill that `consume` begins with. -/
def refilled (b : Connector.TokenBucket) (now : ℚ) : Connector.TokenBucket :=
  { b with
    tokens := min b.capacity (b.tokens + (now - b.lastRefill) * b.refillRate)
    lastRefill := now }

def refilling : Refilling Connector.TokenBucket where
  refill := refilled
  tokens := tokens
  capacity := capacity
  stamp := lastRefill
  stamp_refill _ _ := rfl
  own_refill b := by simp [refilled]
  refill_le _ _ := min_le_left _ _

theorem consume_granted {b : Connector.TokenBucket} {now : ℚ} (h : 1 ≤ (b.refilled now).tokens) :
    b.consume now 1 = (true, { b.refilled now with tokens := (b.refilled now).tokens - 1 }) := by
  have hone : ((1 : ℤ) : ℚ) ≤ (b.refilled now).tokens := by exact_mod_cast h
  have hconsume : b.consume now 1 = (true, _) := if_pos hone
  rw [hconsume, Int.cast_one]
  rfl

theorem consume_denied {b : Connector.TokenBucket} {now : ℚ} (h : ¬ 1 ≤ (b.refilled now).tokens) :
    b.consume now 1 = (false, b.refilled now) :=
  if_neg fun hone => h (by exact_mod_cast hone)

theorem ofRpm_refilled (rpm : ℤ) (now : ℚ) :
    ((ofRpm rpm now).refilled now).tokens = ((ofRpm rpm now).refilled now).capacity := by
  simp [ofRpm, refilled]

/-- After one consultation the content is the same exactly when there was no token. -/
theorem sameContent_consume {before : Option Connector.TokenBucket} {rpm : ℤ} {now : ℚ} :
    SameContent refilling before (some ((before.getD (ofRpm rpm now)).consume now 1).2) ↔
      ¬ 1 ≤ ((before.getD (ofRpm rpm now)).refilled now).tokens := by
  constructor
  · intro h hgranted
    rw [consume_granted hgranted] at h
    exact absurd h (@not_sameContent _ TokenBucket.refilling _ (ofRpm rpm now) _ now rfl rfl rfl)
  · intro hempty
    rw [consume_denied hempty]
    exact sameContent_refill (R := refilling) (ofRpm_refilled rpm now)

end Connector.TokenBucket

/-! ### The checks of the service -/

/-- Every bucket has its content, and every counter its count. -/
structure RateLimiter.Unchanged (before after : RateLimiter) : Prop where
  buckets : ∀ bucketType scopeValue, SameContent TokenBucket.refilling
    (before.buckets bucketType scopeValue) (after.buckets bucketType scopeValue)
  counters : after.dailyCounters = before.dailyCounters

/-- A check that leaves the buckets of a type alone. -/
def Check.Spares (check : Check) (bucketType : CodePoints) : Prop :=
  ∀ l, (check l).2.buckets bucketType = l.buckets bucketType

namespace Check
variable {check next : Check} {bucketType : CodePoints}

theorem andThen_denied {l : RateLimiter} (h : (check l).1.allowed = false) :
    check.andThen next l = check l := by simp [andThen, h]

theorem andThen_allowed {l : RateLimiter} (h : (check l).1.allowed = true) :
    check.andThen next l = next (check l).2 := by simp [andThen, h]

theorem andThen_assoc (a b c : Check) : (a.andThen b).andThen c = a.andThen (b.andThen c) := by
  funext l
  cases h : (a l).1.allowed with
  | false => rw [andThen_denied (by rwa [andThen_denied h]), andThen_denied h, andThen_denied h]
  | true =>
    rw [andThen_allowed h]
    unfold andThen
    rw [if_pos h]

theorem Spares.andThen (h : check.Spares bucketType) (hnext : next.Spares bucketType) :
    (check.andThen next).Spares bucketType := by
  intro l
  cases hfirst : (check l).1.allowed with
  | false =>
    rw [andThen_denied hfirst]
    exact h l
  | true => rw [andThen_allowed hfirst, hnext, h]

end Check

/-- The names of the buckets end in different letters. -/
theorem BucketName.text_injective {a b : BucketName} (h : a.text.getLast? = b.text.getLast?) :
    a = b := by
  cases a <;> cases b <;> first | rfl | exact absurd h (by decide)

theorem colon_text_injective {left left' : CodePoints} {a b : BucketName}
    (h : colon left a.text = colon left' b.text) : left = left' ∧ a = b := by
  have hlast : ∀ (left : CodePoints) (name : BucketName),
      (colon left name.text).getLast? = name.text.getLast? := by
    intro left name
    have hne : name.text ≠ [] := by cases name <;> decide
    rw [colon, List.getLast?_append_of_ne_nil _ hne]
  have hname : a = b := BucketName.text_injective (by rw [← hlast left, h, hlast])
  subst hname
  exact ⟨List.append_cancel_right (List.append_cancel_right h), rfl⟩

theorem colon_ne {left left' : CodePoints} {a b : BucketName} (h : a ≠ b) :
    colon left a.text ≠ colon left' b.text := fun heq => h (colon_text_injective heq).2

namespace RateLimiter
variable {l : RateLimiter} {limitType scopeValue : CodePoints} {bucket : BucketName}
variable {p : BucketPolicy} {now : ℚ} {who : Caller} {env : String → Option CodePoints} {r : Request}

/-- The bucket of a check after it. -/
theorem checkBucket_own : (checkBucket limitType bucket scopeValue p now who l).2.buckets
    (colon limitType bucket.text) scopeValue =
      some ((l.getBucket limitType bucket scopeValue p now).consumeWithDiagnostics now 1).2 := by
  simp [checkBucket, putBucket]

/-- A check touches its own bucket only. -/
theorem checkBucket_other {bucketType scope : CodePoints}
    (h : bucketType ≠ colon limitType bucket.text ∨ scope ≠ scopeValue) :
    (checkBucket limitType bucket scopeValue p now who l).2.buckets bucketType scope =
      l.buckets bucketType scope := by
  by_cases htype : bucketType = colon limitType bucket.text
  · subst htype
    have hscope : scope ≠ scopeValue := h.resolve_left (fun hne => hne rfl)
    simp [checkBucket, putBucket, hscope]
  · simp [checkBucket, putBucket, htype]

theorem checkBucket_counters :
    (checkBucket limitType bucket scopeValue p now who l).2.dailyCounters = l.dailyCounters := rfl

theorem checkBucket_spares {bucketType : CodePoints} (h : bucketType ≠ colon limitType bucket.text) :
    (checkBucket limitType bucket scopeValue p now who).Spares bucketType := by
  intro l
  funext scope
  exact checkBucket_other (.inl h)

theorem allow_spares (bucketType : CodePoints) : (allow limitType who).Spares bucketType := fun _ => rfl

theorem dailyCheck_spares (bucketType : CodePoints) : (dailyCheck env r).Spares bucketType := by
  intro l
  unfold dailyCheck checkDaily
  split
  · rfl
  · dsimp only
    split <;> rfl

theorem tokenCheck_spares {other : BucketName} (h : other ≠ .tokenId) :
    (tokenCheck r).Spares (colon limitType other.text) := by
  unfold tokenCheck
  split
  · exact allow_spares _
  · exact checkBucket_spares (colon_ne h)

theorem tenantCheck_spares {other : BucketName} (h : other ≠ .tenant) :
    (tenantCheck r).Spares (colon limitType other.text) := by
  unfold tenantCheck
  split
  · exact allow_spares _
  · exact checkBucket_spares (colon_ne h)

theorem ipCheck_spares {other : BucketName} (h : other ≠ .ip) :
    (ipCheck r).Spares (colon limitType other.text) := checkBucket_spares (colon_ne h)

/-- What comes after the first check. -/
def laterChecks (env : String → Option CodePoints) (r : Request) : Check :=
  (dailyCheck env r).andThen
    ((tokenCheck r).andThen ((tenantCheck r).andThen
      ((ipCheck r).andThen (allow r.limitType r.caller))))

theorem evaluate_eq : evaluate env r = (endpointCheck r).andThen (laterChecks env r) := by
  simp only [evaluate, earlierChecks, laterChecks, Check.andThen_assoc]

theorem laterChecks_spares :
    (laterChecks env r).Spares (colon r.limitType BucketName.endpointClass.text) :=
  (dailyCheck_spares _).andThen ((tokenCheck_spares (by decide)).andThen
    ((tenantCheck_spares (by decide)).andThen ((ipCheck_spares (by decide)).andThen
      (allow_spares _))))

theorem policyOf_cases (limitType : CodePoints) :
    policyOf limitType ∈ buildDefaultPolicies.map Prod.snd := by
  unfold policyOf
  cases h : buildDefaultPolicies.find? fun p => CodePoints.ofString p.1 = limitType with
  | none => exact List.mem_cons_self
  | some p => exact List.mem_map_of_mem (List.mem_of_find?_eq_some h)

theorem policyOf_capacity (limitType : CodePoints) :
    1 ≤ (policyOf limitType).endpointClass.capacity ∧ 1 ≤ (policyOf limitType).ip.capacity := by
  have hall : ∀ p ∈ buildDefaultPolicies.map Prod.snd,
      1 ≤ p.endpointClass.capacity ∧ 1 ≤ p.ip.capacity := by
    simp [buildDefaultPolicies, policy]
  exact hall _ (policyOf_cases limitType)

/-- The bucket of the endpoint class as the request finds it. -/
def endpointBucket (l : RateLimiter) (r : Request) : TokenBucket :=
  l.getBucket r.limitType .endpointClass r.limitType (policyOf r.limitType).endpointClass
    r.readings.endpointClass

/-- The request finds less than a token in the bucket of its endpoint class. -/
def EndpointEmpty (l : RateLimiter) (r : Request) : Prop :=
  ((l.endpointBucket r).refillUnlocked r.readings.endpointClass).tokens < 1

theorem new_refilled (capacity : ℤ) (rate now : ℚ) :
    ((TokenBucket.new capacity rate now).refillUnlocked now).tokens =
      ((TokenBucket.new capacity rate now).refillUnlocked now).capacity := by
  simp [TokenBucket.new, TokenBucket.refillUnlocked]

/-- A check that denies only refills. -/
theorem checkBucket_denied (who : Caller) (h : ¬ 1 ≤
      ((l.getBucket limitType bucket scopeValue p now).refillUnlocked now).tokens) :
    (checkBucket limitType bucket scopeValue p now who l).1.allowed = false ∧
      l.Unchanged (checkBucket limitType bucket scopeValue p now who l).2 := by
  have hdenied := @TokenBucket.consume_denied (l.getBucket limitType bucket scopeValue p now) now 1
    fun hone => h (by exact_mod_cast hone)
  refine ⟨by simp only [checkBucket, hdenied], fun bucketType scope => ?_, rfl⟩
  by_cases hkey : bucketType = colon limitType bucket.text ∧ scope = scopeValue
  · obtain ⟨rfl, rfl⟩ := hkey
    rw [checkBucket_own, hdenied]
    exact sameContent_refill (R := TokenBucket.refilling) (new_refilled _ _ _)
  · rw [checkBucket_other (not_and_or.mp hkey)]
    exact .untouched _

/-- A check that allows takes a token. -/
theorem checkBucket_allowed (who : Caller)
    (h : 1 ≤ ((l.getBucket limitType bucket scopeValue p now).refillUnlocked now).tokens) :
    (checkBucket limitType bucket scopeValue p now who l).1.allowed = true ∧
      ¬ SameContent TokenBucket.refilling (l.buckets (colon limitType bucket.text) scopeValue)
        ((checkBucket limitType bucket scopeValue p now who l).2.buckets
          (colon limitType bucket.text) scopeValue) := by
  have hgranted := @TokenBucket.consume_granted (l.getBucket limitType bucket scopeValue p now) now 1
    (by exact_mod_cast h)
  refine ⟨by simp only [checkBucket, hgranted], ?_⟩
  rw [checkBucket_own, hgranted, Int.cast_one]
  exact @not_sameContent _ TokenBucket.refilling _
    (TokenBucket.new p.capacity p.tokensPerSecond now) _ _ rfl rfl rfl

/-- A request leaves everything as it was exactly when the first check denies it. -/
theorem unchanged_evaluate_iff (env : String → Option CodePoints) (r : Request) (l : RateLimiter) :
    l.Unchanged (evaluate env r l).2 ↔ l.EndpointEmpty r := by
  rw [evaluate_eq]
  by_cases hempty : l.EndpointEmpty r
  · obtain ⟨hdenied, hunchanged⟩ := checkBucket_denied {} (not_le.mpr hempty)
    rw [@Check.andThen_denied (endpointCheck r) _ _ hdenied]
    exact iff_of_true hunchanged hempty
  · obtain ⟨hallowed, hchanged⟩ := checkBucket_allowed {} (not_lt.mp hempty)
    rw [@Check.andThen_allowed (endpointCheck r) _ _ hallowed]
    refine iff_of_false (fun h => hchanged ?_) hempty
    have hsame := h.buckets (colon r.limitType BucketName.endpointClass.text) r.limitType
    rwa [laterChecks_spares] at hsame

end RateLimiter

/-! ### The connector -/

namespace Connector.RateLimiter

structure Unchanged (before after : Connector.RateLimiter) : Prop where
  users : ∀ userId, SameContent TokenBucket.refilling (before.userBuckets userId)
    (after.userBuckets userId)
  channels : ∀ channelId, SameContent TokenBucket.refilling (before.channelBuckets channelId)
    (after.channelBuckets channelId)

/-- Both the user's and the channel's bucket are without a token. -/
def BothEmpty (l : Connector.RateLimiter) (userId channelId : CodePoints) (now : Readings) : Prop :=
  ((l.getUserBucket userId now.user).refilled now.user).tokens < 1 ∧
    ((l.getChannelBucket channelId now.channel).refilled now.channel).tokens < 1

theorem sameContent_update (buckets : CodePoints → Option Connector.TokenBucket) (key : CodePoints)
    (b : Connector.TokenBucket) :
    (∀ k, SameContent TokenBucket.refilling (buckets k) (Function.update buckets key (some b) k)) ↔
      SameContent TokenBucket.refilling (buckets key) (some b) := by
  constructor
  · intro h
    simpa using h key
  · intro h k
    by_cases hk : k = key
    · subst hk
      simpa using h
    · rw [Function.update_of_ne hk]
      exact .untouched _

theorem unchanged_isAllowed_iff (l : Connector.RateLimiter) (userId channelId : CodePoints)
    (now : Readings) :
    l.Unchanged (l.isAllowed userId channelId now).2 ↔ l.BothEmpty userId channelId now := by
  have husers := sameContent_update l.userBuckets userId
    ((l.getUserBucket userId now.user).consume now.user 1).2
  have hchannels := sameContent_update l.channelBuckets channelId
    ((l.getChannelBucket channelId now.channel).consume now.channel 1).2
  rw [getUserBucket, TokenBucket.sameContent_consume, not_le] at husers
  rw [getChannelBucket, TokenBucket.sameContent_consume, not_le] at hchannels
  constructor
  · intro h
    exact ⟨husers.mp h.users, hchannels.mp h.channels⟩
  · intro h
    exact ⟨husers.mpr h.1, hchannels.mpr h.2⟩

end Connector.RateLimiter

/-- A denied request consumes nothing exactly when, at the service, the check of the endpoint class
denies it, and, at the connector, neither of its buckets has a token. -/
theorem denied_consumes_nothing_iff (env : String → Option CodePoints) (r : Request)
    (l : RateLimiter) (c : Connector.RateLimiter) (userId channelId : CodePoints)
    (now : Connector.RateLimiter.Readings) :
    ((RateLimiter.evaluate env r l).1.allowed = false →
      (l.Unchanged (RateLimiter.evaluate env r l).2 ↔ l.EndpointEmpty r)) ∧
    ((c.isAllowed userId channelId now).1 = false →
      (c.Unchanged (c.isAllowed userId channelId now).2 ↔ c.BothEmpty userId channelId now)) :=
  ⟨fun _ => RateLimiter.unchanged_evaluate_iff env r l,
    fun _ => Connector.RateLimiter.unchanged_isAllowed_iff c userId channelId now⟩

/-- A limiter that knows one bucket. -/
def RateLimiter.holding (bucketType scopeValue : CodePoints) (b : TokenBucket) : RateLimiter :=
  ({} : RateLimiter).putBucket bucketType scopeValue b

/-- An administrator's request of one token at the time zero. -/
def adminRequest (token : Option CodePoints) : Request :=
  { limitType := CodePoints.ofString "admin"
    ip := CodePoints.ofString "10.10.10.10"
    tokenId := token
    tenantId := none
    readings := ⟨0, 0, 0, 0, 0, 0⟩ }

theorem denied_by_endpoint :
    (RateLimiter.evaluate (fun _ => none) (adminRequest none)
      (.holding (CodePoints.ofString "admin:endpoint_class") (CodePoints.ofString "admin")
        ⟨200, 0, 10 / 3, 0⟩)).1.allowed = false ∧
    (RateLimiter.holding (CodePoints.ofString "admin:endpoint_class") (CodePoints.ofString "admin")
        ⟨200, 0, 10 / 3, 0⟩).Unchanged
      (RateLimiter.evaluate (fun _ => none) (adminRequest none)
        (.holding (CodePoints.ofString "admin:endpoint_class") (CodePoints.ofString "admin")
          ⟨200, 0, 10 / 3, 0⟩)).2 := by
  have hdenied : (RateLimiter.evaluate (fun _ => none) (adminRequest none)
      (.holding (CodePoints.ofString "admin:endpoint_class") (CodePoints.ofString "admin")
        ⟨200, 0, 10 / 3, 0⟩)).1.allowed = false := by decide +kernel
  refine ⟨hdenied, ((denied_consumes_nothing_iff _ _ _ {} [] [] ⟨0, 0⟩).1 hdenied).mpr ?_⟩
  unfold RateLimiter.EndpointEmpty
  decide +kernel

/-- A token without budget, and a user without budget, take from budgets that others share. -/
theorem denied_consumes :
    ((RateLimiter.evaluate (fun _ => none) (adminRequest (some (CodePoints.ofString "kid-a")))
        (.holding (CodePoints.ofString "admin:token_id") (CodePoints.ofString "kid-a")
          ⟨20, 0, 1 / 3, 0⟩)).1.allowed = false ∧
      ¬ (RateLimiter.holding (CodePoints.ofString "admin:token_id") (CodePoints.ofString "kid-a")
          ⟨20, 0, 1 / 3, 0⟩).Unchanged
        (RateLimiter.evaluate (fun _ => none) (adminRequest (some (CodePoints.ofString "kid-a")))
          (.holding (CodePoints.ofString "admin:token_id") (CodePoints.ofString "kid-a")
            ⟨20, 0, 1 / 3, 0⟩)).2) ∧
    (({ userBuckets := fun _ => some ⟨10, 1 / 6, 0, 0⟩ } : Connector.RateLimiter).isAllowed
        (CodePoints.ofString "user") (CodePoints.ofString "channel") ⟨0, 0⟩).1 = false ∧
      ¬ ({ userBuckets := fun _ => some ⟨10, 1 / 6, 0, 0⟩ } : Connector.RateLimiter).Unchanged
        (({ userBuckets := fun _ => some ⟨10, 1 / 6, 0, 0⟩ } : Connector.RateLimiter).isAllowed
          (CodePoints.ofString "user") (CodePoints.ofString "channel") ⟨0, 0⟩).2 := by
  refine ⟨⟨by decide +kernel, ?_⟩, by decide +kernel, ?_⟩
  · rw [RateLimiter.unchanged_evaluate_iff]
    unfold RateLimiter.EndpointEmpty
    decide +kernel
  · rw [Connector.RateLimiter.unchanged_isAllowed_iff]
    unfold Connector.RateLimiter.BothEmpty
    decide +kernel

end OpenClaw.RateLimit
