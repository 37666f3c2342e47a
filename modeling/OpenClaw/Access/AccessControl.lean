import Mathlib.Algebra.Order.Ring.Rat
import OpenClaw.Foundation.PyText
import OpenClaw.Tenants.TenantContext

/-!
# Access control

`services/access_control.py`: the tokens that are issued, the token a request presents, and what it
is allowed to do. The random parts of a new token and the clock are inputs of a call.
-/

namespace OpenClaw.Access

open Foundation Tenants
set_option autoImplicit false

/-!
## What a request says about its sender

The environment with its legacy names (`services/env_aliases.py`), header aliases
(`services/legacy_compat.py`) and the client address behind proxies (`services/request_ip.py`). The
addresses and networks of the `ipaddress` module are a parameter.
-/

section Senders

abbrev Environment := String → Option PyStr

/-- `get_env_value` in the mode that skips empty values. -/
def getEnvValue (env : Environment) (name default : String) : PyStr :=
  (["OPENCLAW_", "MOLTBOT_"].findSome? fun family => (env (family ++ name)).filter (· ≠ [])).getD
    (PyStr.ofString default)

/-- `remote` is empty where the source has none. -/
structure Request where
  headers : PyStr → Option PyStr
  remote : PyStr

structure HeaderAlias where
  primary : String
  legacy : String

def Request.headerValue (req : Request) (name : String) : PyStr :=
  match req.headers (PyStr.ofString name) with
  | none => []
  | some value => value.strip

def Request.getHeaderAliasValue (req : Request) (names : HeaderAlias) : PyStr :=
  let value := req.headerValue names.primary
  if value ≠ [] then value else req.headerValue names.legacy

/-- The `ipaddress` module; `none` is its `ValueError`. -/
structure IpAddress where
  Address : Type
  Network : Type
  ipAddress : PyStr → Option Address
  /-- of a single address -/
  ofAddress : Address → Network
  /-- `ip_network(text, strict=False)` -/
  ipNetwork : PyStr → Option Network
  isLoopback : Address → Bool
  contains : Network → Address → Bool

variable (ip : IpAddress) (env : Environment)

def isLoopback (remoteAddr : PyStr) : Bool :=
  if remoteAddr = [] then false
  else if remoteAddr ∈ ["127.0.0.1", "::1", "localhost"].map PyStr.ofString then true
  else (ip.ipAddress remoteAddr).any ip.isLoopback

def trustedProxy? (part : PyStr) : Option ip.Network :=
  match ip.ipAddress part with
  | some address => some (ip.ofAddress address)
  | none => ip.ipNetwork part

def getTrustedProxies : List ip.Network :=
  let raw := (getEnvValue env "TRUSTED_PROXIES" "").strip
  if raw = [] then []
  else (((raw.splitOn 44).map PyStr.strip).filter (· ≠ [])).filterMap (trustedProxy? ip)

def isTrustedProxy (ipStr : PyStr) (trusted : List ip.Network) : Bool :=
  if ipStr = [] ∨ trusted.isEmpty = true then false
  else (ip.ipAddress ipStr).any fun address => trusted.any fun net => ip.contains net address

def trustXff : Bool :=
  decide (getEnvValue env "TRUST_X_FORWARDED_FOR" "0" ∈
    ["1", "true", "True", "yes"].map PyStr.ofString)

def getClientIp (req : Request) : PyStr :=
  let trusted := getTrustedProxies ip env
  let xff := (req.headers (PyStr.ofString "X-Forwarded-For")).getD []
  if trustXff env = false then req.remote
  else if isTrustedProxy ip req.remote trusted = false then req.remote
  else if xff = [] then req.remote
  else
    -- from the nearest proxy to the furthest
    let hops := ((xff.splitOn 44).map PyStr.strip).reverse
    match hops.find? fun hop => !isTrustedProxy ip hop trusted with
    | some hop => hop
    | none => hops.getLast?.getD req.remote

end Senders

inductive AuthTier where
  | admin | observability | internal | everyone | webhook | bridge
  deriving DecidableEq

/-- `everyone` is the tier `PUBLIC`. -/
def AuthTier.value : AuthTier → PyStr
  | admin => PyStr.ofString "admin"
  | observability => PyStr.ofString "obs"
  | internal => PyStr.ofString "internal"
  | everyone => PyStr.ofString "public"
  | webhook => PyStr.ofString "webhook"
  | bridge => PyStr.ofString "bridge"

/-- `str` of the tier. -/
def AuthTier.text : AuthTier → PyStr
  | admin => PyStr.ofString "AuthTier.ADMIN"
  | observability => PyStr.ofString "AuthTier.OBSERVABILITY"
  | internal => PyStr.ofString "AuthTier.INTERNAL"
  | everyone => PyStr.ofString "AuthTier.PUBLIC"
  | webhook => PyStr.ofString "AuthTier.WEBHOOK"
  | bridge => PyStr.ofString "AuthTier.BRIDGE"

structure TokenInfo where
  tokenId : PyStr
  role : AuthTier
  scopes : List PyStr := []
  createdAt : ℚ := 0
  expiresAt : Option ℚ := none
  tenantId : PyStr := defaultTenantId
  deriving DecidableEq

/-- The scope ends with `:*` and the required one starts with what stands before the star. -/
def wildcardMatches (required scope : PyStr) : Bool :=
  decide ([58, 42] <:+ scope) && decide (scope.dropLast <+: required)

def TokenInfo.hasScope (info : TokenInfo) (required : PyStr) : Bool :=
  decide (PyStr.ofString "*" ∈ info.scopes) || decide (required ∈ info.scopes) ||
    info.scopes.any (wildcardMatches required)

/-! ## The registry -/

abbrev TokenRegistry := Table (ν := PyStr × TokenInfo) Prod.fst

/-- `uuid4().hex`. -/
structure Uuid where
  hex : PyStr
  ascii : hex.isAscii = true

namespace TokenRegistry

def secretOf (role : AuthTier) (uuid : Uuid) : PyStr :=
  PyStr.ofString "oc_" ++ role.value ++ PyStr.ofString "_" ++ uuid.hex

def issue (secretUuid idUuid : Uuid) (now : ℚ) (role : AuthTier) (scopes : List PyStr)
    (ttlSeconds : ℤ) (tenantId : PyStr) (s : TokenRegistry) :
    TokenRegistry × Except TenantBoundaryError (PyStr × TokenInfo) :=
  match normalizeTenantId tenantId with
  | .error e => (s, .error e)
  | .ok tenant =>
    let secret := secretOf role secretUuid
    let info : TokenInfo := {
      tokenId := PyStr.ofString "kid-" ++ idUuid.hex.take 8
      role
      scopes
      createdAt := now
      expiresAt := if 0 < ttlSeconds then some (now + ttlSeconds) else none
      tenantId := tenant }
    (Table.put s (secret, info), .ok (secret, info))

def revoke (tokenId : PyStr) (s : TokenRegistry) : TokenRegistry × Bool :=
  let toDelete := (s.rows.filter fun row => row.2.tokenId = tokenId).map Prod.fst
  (toDelete.foldl Table.drop s, decide (0 < toDelete.length))

def lookup (s : TokenRegistry) (secret : PyStr) : Option TokenInfo := (s.get? secret).map Prod.snd

end TokenRegistry

inductive Call where
  | issue (role : AuthTier) (scopes : List PyStr) (ttlSeconds : ℤ) (tenantId : PyStr)
  | revoke (tokenId : PyStr)

inductive Answer where
  | issued (r : Except TenantBoundaryError (PyStr × TokenInfo))
  | revoked (found : Bool)
  deriving DecidableEq

/-- The random parts of a token, the clock and the call. -/
structure Input where
  secretUuid : Uuid
  idUuid : Uuid
  now : ℚ
  call : Call

def step (s : TokenRegistry) (input : Input) : TokenRegistry × Answer :=
  match input.call with
  | .issue role scopes ttlSeconds tenantId =>
    (s.issue input.secretUuid input.idUuid input.now role scopes ttlSeconds tenantId).map id .issued
  | .revoke tokenId => (s.revoke tokenId).map id .revoked

/-! ## The token of a request -/

def adminTokenHeaders : HeaderAlias := ⟨"X-OpenClaw-Admin-Token", "X-Moltbot-Admin-Token"⟩
def obsTokenHeaders : HeaderAlias := ⟨"X-OpenClaw-Obs-Token", "X-Moltbot-Obs-Token"⟩

/-- The token that a request presents: the observability headers count where the admin headers are
empty. -/
def Request.clientToken (req : Request) : PyStr :=
  let token := req.getHeaderAliasValue adminTokenHeaders
  if token ≠ [] then token else req.getHeaderAliasValue obsTokenHeaders

/-- `compare_digest` of strings that are not ASCII. -/
inductive TypeError where
  | nonAscii
  deriving DecidableEq

def compareDigest (a b : PyStr) : Except TypeError Bool :=
  if a.isAscii = false ∨ b.isAscii = false then .error .nonAscii else .ok (decide (a = b))

variable (ip : IpAddress) (env : Environment)

def adminToken : PyStr := (getEnvValue env "ADMIN_TOKEN" "").strip
def obsToken : PyStr := (getEnvValue env "OBSERVABILITY_TOKEN" "").strip

def isMultiTenantEnabled : Bool :=
  decide ((getEnvValue env "MULTI_TENANT_ENABLED" "0").strip.map lowerUnit ∈
    ["1", "true", "yes", "on"].map PyStr.ofString)

def getTenantHeaderNames : List PyStr :=
  let fallback := "X-OpenClaw-Tenant-Id"
  [(getEnvValue env "TENANT_HEADER" fallback).strip, PyStr.ofString fallback,
    PyStr.ofString "X-Moltbot-Tenant-Id"].eraseDups

/-- `extract_tenant_from_headers`; the names of an error are not read by its caller. -/
def extractTenantFromHeaders (req : Request) : Except TenantBoundaryError (Option PyStr) :=
  match (getTenantHeaderNames env).findSome? fun name =>
    ((req.headers name).map PyStr.strip).filter (· ≠ []) with
  | none => .ok none
  | some value => (normalizeTenantId value).map some

def resolveHeaderTenant (req : Request) : PyStr :=
  if isMultiTenantEnabled env = false then defaultTenantId
  else
    match extractTenantFromHeaders env req with
    | .ok (some tenant) => tenant
    | _ => defaultTenantId

/-- `if configured and client: compare_digest(client, configured)`. -/
def matchesStatic (configured client : PyStr) : Except TypeError Bool :=
  if configured ≠ [] ∧ client ≠ [] then compareDigest client configured else .ok false

/-- What a loopback request is without a token. -/
def loopbackInfo (req : Request) : Option TokenInfo :=
  if isLoopback ip (getClientIp ip env req) = false then none
  else if adminToken env = [] then
    some { tokenId := PyStr.ofString "local-admin", role := .admin, scopes := [PyStr.ofString "*"],
           tenantId := resolveHeaderTenant env req }
  else
    some { tokenId := PyStr.ofString "local-internal", role := .internal,
           scopes := [PyStr.ofString "internal:call"], tenantId := resolveHeaderTenant env req }

def resolveTokenInfo (s : TokenRegistry) (req : Request) : Except TypeError (Option TokenInfo) :=
  let client := req.clientToken
  match if client ≠ [] then s.lookup client else none with
  | some info => .ok (some info)
  | none =>
    match matchesStatic (adminToken env) client with
    | .error e => .error e
    | .ok true =>
      .ok (some { tokenId := PyStr.ofString "env-admin", role := .admin,
                  scopes := [PyStr.ofString "*"], tenantId := resolveHeaderTenant env req })
    | .ok false =>
      match matchesStatic (obsToken env) client with
      | .error e => .error e
      | .ok true =>
        .ok (some { tokenId := PyStr.ofString "env-obs", role := .observability,
                    scopes := [PyStr.ofString "read:*"], tenantId := resolveHeaderTenant env req })
      | .ok false => .ok (loopbackInfo ip env req)

def getCurrentAuthTier (s : TokenRegistry) (req : Request) : Except TypeError AuthTier :=
  (resolveTokenInfo ip env s req).map fun info => (info.map TokenInfo.role).getD .everyone

/-! ## What a request is allowed to do -/

inductive Access where
  | granted
  | refused (error : PyStr)
  deriving DecidableEq

/-- The checks of `verify_tier_access` for the tier that was found. -/
def tierAccess (req : Request) (required current : AuthTier) : Access :=
  if required = .everyone then .granted
  else if required = .internal then
    if isLoopback ip (getClientIp ip env req) then .granted
    else .refused (PyStr.ofString "Internal (Loopback) access required.")
  else if current = .admin then .granted
  else if required = .admin then .refused (PyStr.ofString "Admin access required.")
  else if required = .observability then
    if current = .observability ∨ current = .internal then .granted
    else .refused (PyStr.ofString "Observability access required.")
  else
    .refused (PyStr.ofString "Access denied. Required: " ++ required.text ++
      PyStr.ofString ", Current: " ++ current.text)

def verifyTierAccess (s : TokenRegistry) (req : Request) (required : AuthTier) :
    Except TypeError Access :=
  (getCurrentAuthTier ip env s req).map (tierAccess ip env req required)

def scopeAccess (required : List PyStr) (info : TokenInfo) : Access :=
  let missing := required.filter fun scope => !info.hasScope scope
  if missing = [] then .granted
  else
    .refused (PyStr.ofString "Missing required scopes: " ++
      (PyStr.ofString ", ").intercalate missing)

def verifyScopeAccess (s : TokenRegistry) (req : Request) (requiredScopes : List PyStr) :
    Except TypeError Access :=
  if requiredScopes = [] then .ok .granted
  else
    (resolveTokenInfo ip env s req).map fun info =>
      match info with
      | none => .refused (PyStr.ofString "Authentication required for scoped access.")
      | some info => scopeAccess requiredScopes info

end OpenClaw.Access
