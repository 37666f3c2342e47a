import OpenClaw.Foundation.UrlSplit

/-!
# Outbound URL validation

`validate_outbound_url` of `services/safe_io.py` with the scheme and port policy and the blocked
ranges. The resolver is a parameter: it may answer anything, fail, or raise something else.
-/

namespace OpenClaw.Outbound

open Foundation
set_option autoImplicit false

structure OutboundPolicy where
  allowedSchemes : List CodePoints
  allowedPorts : List ℕ
  label : CodePoints

/-- Why a policy denies; the text quotes the sorted schemes or ports. -/
inductive DenyReason where
  | scheme (scheme label : CodePoints) (allowed : List CodePoints)
  | port (port : ℕ) (label : CodePoints) (allowed : List ℕ)

def OutboundPolicy.validate (policy : OutboundPolicy) (scheme : CodePoints) (port : ℕ) :
    Option DenyReason :=
  if scheme ∉ policy.allowedSchemes then
    some (.scheme scheme policy.label policy.allowedSchemes)
  else if port ∉ policy.allowedPorts then some (.port port policy.label policy.allowedPorts)
  else none

def strictOutboundPolicy : OutboundPolicy :=
  ⟨[CodePoints.ofString "https"], [443], CodePoints.ofString "strict"⟩

def blockedIpNetworks : List IpNetwork :=
  [.v4Net 0 0 0 0 8, .v4Net 10 0 0 0 8, .v4Net 100 64 0 0 10, .v4Net 127 0 0 0 8,
    .v4Net 169 254 0 0 16, .v4Net 172 16 0 0 12, .v4Net 192 0 0 0 24, .v4Net 192 0 2 0 24,
    .v4Net 192 168 0 0 16, .v4Net 198 18 0 0 15, .v4Net 198 51 100 0 24, .v4Net 203 0 113 0 24,
    .v4Net 224 0 0 0 4, .v4Net 240 0 0 0 4, .v4Net 255 255 255 255 32,
    .v6 1 128, .v6 0 128, .v6Net 0xfc00 0 7, .v6Net 0xfe80 0 10, .v6Net 0xff00 0 8]

/-- In a blocked range, or no address at all. -/
def isPrivateIp (ipStr : CodePoints) : Bool :=
  match ipAddress ipStr with
  | none => true
  | some ip =>
    ip.within blockedIpNetworks || (ip.isPrivate || (ip.isLoopback || (ip.isReserved ||
      ip.isMulticast)))

def isLoopbackIp (ipStr : CodePoints) : Bool := (ipAddress ipStr).any IpAddress.isLoopback

/-- Small letters, no dots at the end, and the IDNA form where there is one. -/
def normalizeHost (tables : UnicodeTables) (host : CodePoints) : CodePoints :=
  let host := ((tables.lower host).reverse.dropWhile (· = 46)).reverse
  (tables.idna host).getD host

structure OutboundOptions where
  allowHosts : Option (List CodePoints) := none
  allowAnyPublicHost : Bool := false
  allowLoopbackHosts : Option (List CodePoints) := none
  allowInsecureBaseUrl : Bool := false
  allowPrivateNetwork : Bool := false
  policy : Option OutboundPolicy := none

/-- What `getaddrinfo` does: the `sockaddr[0]` of its answers, `gaierror`, or another exception. -/
inductive Resolution where
  | addresses (ips : List CodePoints)
  | gaierror
  | raised

abbrev Resolver := CodePoints → ℕ → Resolution

inductive SsrfError where
  | invalidUrl
  | invalidScheme (scheme : CodePoints)
  | credentials
  | noHost
  | policy (reason : DenyReason)
  | deniedByDefault
  | noAllowHosts
  | hostNotInAllowlist (host : CodePoints)
  | privateNetworkRequiresHost
  | privateIpBlocked (ip : CodePoints)
  | dnsFailed
  | noIpResolved (host : CodePoints)

inductive OutboundError where
  | ssrf (error : SsrfError)
  /-- the `ValueError` of `parsed.port` -/
  | port (error : SplitResult.PortError)
  /-- what `getaddrinfo` raises besides `gaierror` -/
  | resolver

structure Validated where
  scheme : CodePoints
  host : CodePoints
  port : ℕ
  ips : List CodePoints

namespace OutboundOptions
variable (options : OutboundOptions) (tables : UnicodeTables)

def normalizedAllowlist : List CodePoints :=
  (options.allowHosts.getD []).map (normalizeHost tables)

def normalizedLoopbackAllowlist : List CodePoints :=
  (options.allowLoopbackHosts.getD []).map (normalizeHost tables)

def allowScopedPrivateNetwork (host : CodePoints) : Bool :=
  options.allowPrivateNetwork && decide (normalizeHost tables host ∈
    options.normalizedAllowlist tables)

/-- A blocked address that is let through because its host is listed for loopback. -/
def loopbackException (host ip : CodePoints) : Bool :=
  isLoopbackIp ip && decide (normalizeHost tables host ∈
    options.normalizedLoopbackAllowlist tables)

end OutboundOptions

def appendNew (ips : List CodePoints) (ip : CodePoints) : List CodePoints :=
  if ip ∈ ips then ips else ips ++ [ip]

section Validate
variable (tables : UnicodeTables) (options : OutboundOptions)

/-- The loop over the answers of the resolver. -/
def collectIps (host : CodePoints) : List CodePoints → List CodePoints →
    Except SsrfError (List CodePoints)
  | resolvedIps, [] => .ok resolvedIps
  | resolvedIps, ip :: rest =>
    if isPrivateIp ip && (!options.allowInsecureBaseUrl &&
        !options.allowScopedPrivateNetwork tables host) then
      if options.loopbackException tables host ip then collectIps host (appendNew resolvedIps ip) rest
      else .error (.privateIpBlocked ip)
    else collectIps host (appendNew resolvedIps ip) rest

def resolveIps (resolve : Resolver) (host : CodePoints) (port : ℕ) :
    Except OutboundError (List CodePoints) :=
  match resolve host port with
  | .gaierror => .error (.ssrf .dnsFailed)
  | .raised => .error .resolver
  | .addresses ips =>
    match collectIps tables options host [] ips with
    | .error e => .error (.ssrf e)
    | .ok [] => .error (.ssrf (.noIpResolved host))
    | .ok (ip :: rest) => .ok (ip :: rest)

def checkAllowlist (host : CodePoints) : Option SsrfError :=
  if options.allowInsecureBaseUrl || options.allowAnyPublicHost then none
  else if options.allowHosts.isNone then some .noAllowHosts
  else if normalizeHost tables host ∈ options.normalizedAllowlist tables then none
  else some (.hostNotInAllowlist host)

/-- The checks between the policy and the resolution. -/
def checkHost (host : CodePoints) : Option SsrfError :=
  if !options.allowInsecureBaseUrl && (!options.allowAnyPublicHost && options.allowHosts.isNone)
  then some .deniedByDefault
  else
    match checkAllowlist tables options host with
    | some e => some e
    | none =>
      if options.allowPrivateNetwork && !options.allowScopedPrivateNetwork tables host then
        some .privateNetworkRequiresHost
      else none

/-- The denial of the policy, which the insecure override leaves out. -/
def policyDenies (scheme : CodePoints) (port : ℕ) : Option DenyReason :=
  if options.allowInsecureBaseUrl then none
  else options.policy.bind fun policy => policy.validate scheme port

/-- 443 for https and 80 for http. -/
def defaultPort (scheme : CodePoints) : ℕ :=
  if scheme = CodePoints.ofString "https" then 443 else 80

/-- `parsed.port or ...`: a port 0 is taken for none. -/
def portOr (scheme : CodePoints) (port : Option ℕ) : ℕ :=
  (port.filter (· ≠ 0)).getD (defaultPort scheme)

def validateOutboundUrl (resolve : Resolver) (url : CodePoints) :
    Except OutboundError Validated :=
  match urlsplit tables url with
  | none => .error (.ssrf .invalidUrl)
  | some parsed =>
    if parsed.scheme ∉ [CodePoints.ofString "http", CodePoints.ofString "https"] then
      .error (.ssrf (.invalidScheme parsed.scheme))
    else if parsed.userinfo.1 ≠ [] ∨ parsed.userinfo.2 ≠ [] then .error (.ssrf .credentials)
    else
      match (parsed.hostname tables).filter (· ≠ []) with
      | none => .error (.ssrf .noHost)
      | some host =>
        match parsed.port with
        | .error e => .error (.port e)
        | .ok given =>
          let port := portOr parsed.scheme given
          match policyDenies options parsed.scheme port with
          | some reason => .error (.ssrf (.policy reason))
          | none =>
            match checkHost tables options host with
            | some e => .error (.ssrf e)
            | none =>
              match resolveIps tables options resolve host port with
              | .error e => .error e
              | .ok ips => .ok ⟨parsed.scheme, host, port, ips⟩

end Validate

end OpenClaw.Outbound
