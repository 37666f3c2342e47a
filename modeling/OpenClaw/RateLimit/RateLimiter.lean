import Mathlib.Algebra.Order.Floor.Ring
import Mathlib.Algebra.Order.Ring.Rat
import Mathlib.Data.Rat.Floor
import OpenClaw.Foundation.CodePoints
import OpenClaw.Foundation.TokenBucket

/-!
# Rate limiters

The hierarchical limiter of `services/rate_limit.py` and the limiter of a connector,
`connector/rate_limiter.py`. Seconds and tokens are rationals, and every reading of the clock is an
input. A new bucket is full, so the reading that makes it can be the one it is consulted at. A day
stands for its `%Y-%m-%d` text as the number of the day.
-/

namespace OpenClaw.RateLimit

open Foundation
set_option autoImplicit false

/-! ### The service's buckets and counters -/

structure TokenBucket where
  capacity : ℚ
  tokens : ℚ
  rate : ℚ
  lastUpdate : ℚ

def defaultRetryAfterSeconds : ℤ := 60

namespace TokenBucket

def new (capacity : ℤ) (tokensPerSecond now : ℚ) : TokenBucket :=
  { capacity := capacity, tokens := capacity, rate := max 0 tokensPerSecond, lastUpdate := now }

def refillUnlocked (b : TokenBucket) (now : ℚ) : TokenBucket :=
  { b with
    lastUpdate := now
    tokens := min b.capacity (b.tokens + max 0 (now - b.lastUpdate) * b.rate) }

/-- The wait that a denied call is told. -/
def retryAfter (b : TokenBucket) (amount : ℤ) : ℤ :=
  if b.rate ≤ 0 then defaultRetryAfterSeconds
  else ⌊max 1 ((amount - b.tokens) / b.rate + 999999 / 1000000)⌋

def consumeWithDiagnostics (b : TokenBucket) (now : ℚ) (amount : ℤ) : (Bool × ℤ) × TokenBucket :=
  let b := b.refillUnlocked now
  if amount ≤ b.tokens then ((true, 0), { b with tokens := b.tokens - amount })
  else ((false, b.retryAfter amount), b)

theorem consume_granted {b : TokenBucket} {now : ℚ} {amount : ℤ}
    (h : amount ≤ (b.refillUnlocked now).tokens) :
    b.consumeWithDiagnostics now amount = ((true, 0),
      { b.refillUnlocked now with tokens := (b.refillUnlocked now).tokens - amount }) := if_pos h

theorem consume_denied {b : TokenBucket} {now : ℚ} {amount : ℤ}
    (h : ¬ amount ≤ (b.refillUnlocked now).tokens) :
    b.consumeWithDiagnostics now amount =
      ((false, (b.refillUnlocked now).retryAfter amount), b.refillUnlocked now) := if_neg h

end TokenBucket

/-- The day and the count of each key. -/
abbrev DailyCounter := CodePoints → Option (ℤ × ℤ)

def utcDayKey (now : ℚ) : ℤ := ⌊now / 86400⌋

def secondsUntilNextUtcDay (now : ℚ) : ℤ := max 1 ⌊((utcDayKey now + 1) * 86400 : ℚ) - now⌋

/-- The clock is read again for the seconds that are left. -/
def DailyCounter.checkAndIncrement (counts : DailyCounter) (now again : ℚ) (key : CodePoints)
    (cap : ℤ) : (Bool × ℤ) × DailyCounter :=
  if cap ≤ 0 then ((true, 0), counts)
  else
    let current : ℤ := ((counts key).filter fun c => c.1 = utcDayKey now).elim 0 Prod.snd
    if cap ≤ current then ((false, secondsUntilNextUtcDay again), counts)
    else ((true, 0), Function.update counts key (some (utcDayKey now, current + 1)))

/-! ### Policies -/

structure BucketPolicy where
  capacity : ℤ
  tokensPerSecond : ℚ

structure RateLimitPolicy where
  principal : BucketPolicy
  tenant : BucketPolicy
  ip : BucketPolicy
  endpointClass : BucketPolicy
  dailyCapEnv : Option String := none

def policy (baseCapacity : ℤ) (dailyEnv : Option String := none) : RateLimitPolicy :=
  let baseRate : ℚ := baseCapacity / 60
  { principal := ⟨baseCapacity, baseRate⟩
    tenant := ⟨baseCapacity * 3, baseRate * 3⟩
    ip := ⟨baseCapacity, baseRate⟩
    endpointClass := ⟨baseCapacity * 10, baseRate * 10⟩
    dailyCapEnv := dailyEnv }

/-- The variables are named without their `OPENCLAW_`. -/
def buildDefaultPolicies : List (String × RateLimitPolicy) :=
  [("webhook", policy 30 (some "RATE_LIMIT_WEBHOOK_DAILY_CAP")),
   ("logs", policy 60),
   ("admin", policy 20 (some "RATE_LIMIT_ADMIN_DAILY_CAP")),
   ("bridge", policy 20 (some "RATE_LIMIT_BRIDGE_DAILY_CAP")),
   ("connector", policy 20 (some "RATE_LIMIT_CONNECTOR_DAILY_CAP")),
   ("trigger", policy 60 (some "RATE_LIMIT_TRIGGER_DAILY_CAP")),
   ("events", policy 30 (some "RATE_LIMIT_EVENTS_DAILY_CAP"))]

/-- `policies.get(limit_type, policies["webhook"])`. -/
def policyOf (limitType : CodePoints) : RateLimitPolicy :=
  ((buildDefaultPolicies.find? fun p => CodePoints.ofString p.1 = limitType).map Prod.snd).getD
    (policy 30 (some "RATE_LIMIT_WEBHOOK_DAILY_CAP"))

def ipScaledMultiplier : ℤ := 5

/-- `round` has nothing to do for a whole number. -/
def BucketPolicy.scaled (p : BucketPolicy) : BucketPolicy :=
  ⟨max 1 (p.capacity * ipScaledMultiplier), p.tokensPerSecond * ipScaledMultiplier⟩

/-! ### Requests and decisions -/

def anonymous : CodePoints := CodePoints.ofString "anonymous"

def defaultTenantId : CodePoints := CodePoints.ofString "default"

structure Caller where
  ip : CodePoints := CodePoints.ofString "unknown"
  tokenId : CodePoints := anonymous
  tenantId : CodePoints := defaultTenantId
  deriving DecidableEq

/-- The clock at each check. -/
structure Readings where
  endpointClass : ℚ
  daily : ℚ
  dailyAgain : ℚ
  tokenId : ℚ
  tenant : ℚ
  ip : ℚ

structure Request where
  limitType : CodePoints
  ip : CodePoints
  tokenId : Option CodePoints
  tenantId : Option CodePoints
  readings : Readings

/-- `(text or "").strip() or fallback`. -/
def orDefault (text : Option CodePoints) (fallback : CodePoints) : CodePoints :=
  let stripped := CodePoints.strip (text.getD [])
  if stripped = [] then fallback else stripped

def Request.caller (r : Request) : Caller :=
  { ip := if r.ip = [] then CodePoints.ofString "unknown" else r.ip
    tokenId := orDefault r.tokenId anonymous
    tenantId := orDefault r.tenantId defaultTenantId }

def Caller.authenticated (who : Caller) : Prop :=
  who.tokenId ≠ anonymous ∨ who.tenantId ≠ defaultTenantId

instance (who : Caller) : Decidable who.authenticated := by
  unfold Caller.authenticated; infer_instance

inductive BucketName where
  | endpointClass | daily | tokenId | tenant | ip | allow
  deriving DecidableEq

def BucketName.text : BucketName → CodePoints
  | endpointClass => CodePoints.ofString "endpoint_class"
  | daily => CodePoints.ofString "daily"
  | tokenId => CodePoints.ofString "token_id"
  | tenant => CodePoints.ofString "tenant"
  | ip => CodePoints.ofString "ip"
  | allow => CodePoints.ofString "allow"

/-- `f"{left}:{right}"`. -/
def colon (left right : CodePoints) : CodePoints := left ++ CodePoints.ofString ":" ++ right

structure RateLimitDecision where
  allowed : Bool
  limitType : CodePoints
  bucket : BucketName
  scope : CodePoints
  retryAfterSec : ℤ
  reasonCode : String
  endpointClass : CodePoints
  caller : Caller

/-! ### The service's limiter -/

/-- Buckets by type and scope. -/
structure RateLimiter where
  buckets : CodePoints → CodePoints → Option TokenBucket := fun _ _ => none
  dailyCounters : DailyCounter := fun _ => none

/-- What a check answers, and the limiter after it. -/
abbrev Check := RateLimiter → RateLimitDecision × RateLimiter

/-- The first denial is the answer. -/
def Check.andThen (check next : Check) : Check := fun l =>
  if (check l).1.allowed then next (check l).2 else check l

namespace RateLimiter

/-- `_get_bucket` without the entry that it leaves for a new bucket. -/
def getBucket (l : RateLimiter) (limitType : CodePoints) (bucket : BucketName)
    (scopeValue : CodePoints) (p : BucketPolicy) (now : ℚ) : TokenBucket :=
  (l.buckets (colon limitType bucket.text) scopeValue).getD
    (TokenBucket.new p.capacity p.tokensPerSecond now)

def putBucket (l : RateLimiter) (bucketType scopeValue : CodePoints) (b : TokenBucket) :
    RateLimiter :=
  { l with
    buckets := Function.update l.buckets bucketType
      (Function.update (l.buckets bucketType) scopeValue (some b)) }

def checkBucket (limitType : CodePoints) (bucket : BucketName) (scopeValue : CodePoints)
    (p : BucketPolicy) (now : ℚ) (who : Caller) : Check := fun l =>
  let consumed := (l.getBucket limitType bucket scopeValue p now).consumeWithDiagnostics now 1
  ({ allowed := consumed.1.1
     limitType := limitType
     bucket := bucket
     scope := colon bucket.text scopeValue
     retryAfterSec := if consumed.1.1 then 0 else consumed.1.2
     reasonCode := if consumed.1.1 then "allowed" else "burst_limit_exceeded"
     endpointClass := limitType
     caller := who },
   l.putBucket (colon limitType bucket.text) scopeValue consumed.2)

/-- Nothing to check, or every check passed. -/
def allow (limitType : CodePoints) (who : Caller) : Check := fun l =>
  ({ allowed := true
     limitType := limitType
     bucket := .allow
     scope := colon BucketName.endpointClass.text limitType
     retryAfterSec := 0
     reasonCode := "allowed"
     endpointClass := limitType
     caller := who }, l)

/-- `get_env_value` skips empty values. -/
def getEnvValue (env : String → Option CodePoints) (name : String) : CodePoints :=
  (["OPENCLAW_", "MOLTBOT_"].findSome? fun family => (env (family ++ name)).filter (· ≠ [])).getD []

def getDailyCap (env : String → Option CodePoints) (envName : Option String) : Option ℤ :=
  (envName.bind fun name => CodePoints.int? (CodePoints.strip (getEnvValue env name))).filter
    fun value => 0 < value

def principalScope (who : Caller) : BucketName × CodePoints :=
  if who.tokenId ≠ anonymous then (.tokenId, who.tokenId)
  else if who.tenantId ≠ defaultTenantId then (.tenant, who.tenantId)
  else (.ip, who.ip)

def checkDaily (cap : Option ℤ) (limitType : CodePoints) (now again : ℚ) (who : Caller) : Check :=
  fun l => match cap with
  | none => allow limitType who l
  | some cap =>
    let principal := colon (principalScope who).1.text (principalScope who).2
    let counted := l.dailyCounters.checkAndIncrement now again (colon limitType principal) cap
    if counted.1.1 then allow limitType who { l with dailyCounters := counted.2 }
    else
      ({ allowed := false
         limitType := limitType
         bucket := .daily
         scope := principal
         retryAfterSec := counted.1.2
         reasonCode := "daily_cap_exceeded"
         endpointClass := limitType
         caller := who }, { l with dailyCounters := counted.2 })

def ipPolicy (limitType : CodePoints) (who : Caller) : BucketPolicy :=
  if who.authenticated then (policyOf limitType).ip.scaled else (policyOf limitType).ip

section Checks
variable (env : String → Option CodePoints) (r : Request)

def endpointCheck : Check :=
  checkBucket r.limitType .endpointClass r.limitType (policyOf r.limitType).endpointClass
    r.readings.endpointClass {}

def dailyCheck : Check :=
  checkDaily (getDailyCap env (policyOf r.limitType).dailyCapEnv) r.limitType r.readings.daily
    r.readings.dailyAgain r.caller

def tokenCheck : Check :=
  if r.caller.tokenId = anonymous then allow r.limitType r.caller
  else checkBucket r.limitType .tokenId r.caller.tokenId (policyOf r.limitType).principal
    r.readings.tokenId r.caller

def tenantCheck : Check :=
  if r.caller.tenantId = defaultTenantId then allow r.limitType r.caller
  else checkBucket r.limitType .tenant r.caller.tenantId (policyOf r.limitType).tenant
    r.readings.tenant r.caller

def ipCheck : Check :=
  checkBucket r.limitType .ip r.caller.ip (ipPolicy r.limitType r.caller) r.readings.ip r.caller

/-- The checks that come before the address's. -/
def earlierChecks : Check :=
  ((endpointCheck r).andThen (dailyCheck env r)).andThen ((tokenCheck r).andThen (tenantCheck r))

def evaluate : Check :=
  ((earlierChecks env r).andThen (ipCheck r)).andThen (allow r.limitType r.caller)

end Checks
end RateLimiter

/-! ### The connector's limiter -/

namespace Connector

structure TokenBucket where
  capacity : ℚ
  refillRate : ℚ
  tokens : ℚ := 0
  lastRefill : ℚ

def TokenBucket.consume (b : TokenBucket) (now : ℚ) (tokens : ℤ) : Bool × TokenBucket :=
  let b := { b with
    tokens := min b.capacity (b.tokens + (now - b.lastRefill) * b.refillRate)
    lastRefill := now }
  if (tokens : ℚ) ≤ b.tokens then (true, { b with tokens := b.tokens - tokens }) else (false, b)

structure RateLimiter where
  userRpm : ℤ := 10
  channelRpm : ℤ := 30
  userBuckets : CodePoints → Option TokenBucket := fun _ => none
  channelBuckets : CodePoints → Option TokenBucket := fun _ => none

/-- The bucket that the limiter makes for a user or a channel. -/
def TokenBucket.ofRpm (rpm : ℤ) (now : ℚ) : TokenBucket :=
  { capacity := rpm, refillRate := rpm / 60, tokens := rpm, lastRefill := now }

namespace RateLimiter

def getUserBucket (l : RateLimiter) (userId : CodePoints) (now : ℚ) : TokenBucket :=
  (l.userBuckets userId).getD (TokenBucket.ofRpm l.userRpm now)

def getChannelBucket (l : RateLimiter) (channelId : CodePoints) (now : ℚ) : TokenBucket :=
  (l.channelBuckets channelId).getD (TokenBucket.ofRpm l.channelRpm now)

/-- The clock as each bucket reads it. -/
structure Readings where
  user : ℚ
  channel : ℚ

def isAllowed (l : RateLimiter) (userId channelId : CodePoints) (now : Readings) :
    Bool × RateLimiter :=
  let user := (l.getUserBucket userId now.user).consume now.user 1
  let channel := (l.getChannelBucket channelId now.channel).consume now.channel 1
  (user.1 && channel.1,
   { l with
     userBuckets := Function.update l.userBuckets userId (some user.2)
     channelBuckets := Function.update l.channelBuckets channelId (some channel.2) })

end RateLimiter
end Connector
end OpenClaw.RateLimit
