import OpenClaw.Access.AccessControl
import OpenClaw.Bridge.TokenStore
import OpenClaw.Connector.SecurityProfile
import OpenClaw.WeChat.NonceWindow
import OpenClaw.Webhook.RequireAuth

/-!
# Checks of credentials

The six checks that see the texts of a client first, and when they come to a decision:
`compare_digest` takes ASCII texts only, and a lone surrogate has no encoding.
-/

namespace OpenClaw.Auth

open Foundation
open Webhook (TextRequest WebhookConfig HmacSha256 NonceAnswers Verdict)
open Connector (HmacDigest SignatureProfile AuthVerifyResult)
set_option autoImplicit false

/-- SHA-1 of a message. -/
abbrev Sha1 := List UInt8 → List UInt8

/-- The hash functions that the checks use. -/
structure Hashes where
  hmacSha256 : HmacSha256
  hmac : HmacDigest
  sha1 : Sha1

def Hashes.sha1Hex (hashes : Hashes) : WeChat.Sha1Hex :=
  fun m => CodePoints.ofChars (hex (hashes.sha1 m))

/-- A check with the configuration and the state that it reads, and what the client sends. -/
inductive AuthCall where
  | verifyHmac (cfg : WebhookConfig) (recorded : NonceAnswers) (now : ℚ) (req : TextRequest)
  | requireAuth (cfg : WebhookConfig) (recorded : NonceAnswers) (now : ℚ) (req : TextRequest)
  | resolveTokenInfo (ip : Access.IpAddress) (env : Access.Environment) (s : Access.TokenRegistry)
      (req : Access.Request)
  | validateToken (s : Bridge.BridgeTokenStore) (now : ℚ) (requiredScope : Option PyStr)
      (value : PyStr)
  | verifyWechatSignature (token timestamp nonce signature : CodePoints)
  | verifyHmacSignature (profile : SignatureProfile) (body : List UInt8)
      (signatureHeader : CodePoints)

inductive Decision where
  | webhook (verdict : Verdict)
  | tokenInfo (info : Option Access.TokenInfo)
  | bridge (result : Bridge.TokenValidationResult)
  | wechat (valid : Bool)
  | connector (result : AuthVerifyResult)
  deriving DecidableEq

/-- What a check decides; `none` if it raises. -/
def AuthCall.decision (hashes : Hashes) : AuthCall → Option Decision
  | .verifyHmac cfg recorded now req =>
    (Webhook.verifyHmacText hashes.hmacSha256 cfg req recorded now).toOption.map .webhook
  | .requireAuth cfg recorded now req =>
    (Webhook.requireAuth hashes.hmacSha256 cfg req recorded now).toOption.map .webhook
  | .resolveTokenInfo ip env s req => (Access.resolveTokenInfo ip env s req).toOption.map .tokenInfo
  | .validateToken s now requiredScope value =>
    (s.validateToken now value requiredScope).2.toOption.map .bridge
  | .verifyWechatSignature token timestamp nonce signature =>
    (WeChat.verifyWechatSignature hashes.sha1Hex token timestamp nonce signature).toOption.map
      .wechat
  | .verifyHmacSignature profile body signatureHeader =>
    (Connector.verifyHmacSignature hashes.hmac profile body signatureHeader).toOption.map .connector

/-! ## What can be compared -/

/-- The text has no lone surrogate. -/
def Encodable (t : CodePoints) : Prop := ∃ cs, CodePoints.chars? t = some cs

/-- A token after `Bearer ` is encodable, and so is the configured one. -/
def BearerComparable (cfg : WebhookConfig) (req : TextRequest) : Prop :=
  ∀ expected, cfg.bearerToken = some expected → expected ≠ [] →
    Webhook.bearerScheme <+: req.authHeader → req.bearer ≠ [] →
      Encodable req.bearer ∧ Encodable expected

/-- A signature after `sha256=` is ASCII once it is in small letters. -/
def SignatureComparable (cfg : WebhookConfig) (req : TextRequest) : Prop :=
  ∀ secret, cfg.hmacSecret = some secret → secret ≠ [] →
    Webhook.signatureScheme <+: req.sigHeader → req.providedSig ≠ [] →
      CodePoints.isAscii (CodePoints.lower req.providedSig) = true

/-- The request presents the configured bearer token. -/
def BearerMatches (cfg : WebhookConfig) (req : TextRequest) : Prop :=
  req.bearer ≠ [] ∧ Webhook.bearerScheme <+: req.authHeader ∧ cfg.bearerToken = some req.bearer

/-- The request presents the signature of its body. -/
def SignatureMatches (hashes : Hashes) (cfg : WebhookConfig) (req : TextRequest) : Prop :=
  req.providedSig ≠ [] ∧ Webhook.signatureScheme <+: req.sigHeader ∧
    ∃ secret, cfg.hmacSecret = some secret ∧ secret ≠ [] ∧ CodePoints.lower req.providedSig =
      CodePoints.lower (Webhook.expectedSig hashes.hmacSha256 req secret)

/-- The configured token and the client's are ASCII if both are there. -/
def StaticComparable (configured client : PyStr) : Prop :=
  configured ≠ [] → client ≠ [] → client.isAscii = true ∧ configured.isAscii = true

/-- The texts that the check comes to compare can be compared. -/
def AuthCall.Comparable : AuthCall → Prop
  | .verifyHmac cfg _ _ req => SignatureComparable cfg req
  | .requireAuth cfg _ _ req =>
    match Webhook.getAuthMode cfg with
    | .bearer => BearerComparable cfg req
    | .hmac => SignatureComparable cfg req
    | .bearerOrHmac =>
      BearerComparable cfg req ∧ (BearerMatches cfg req ∨ SignatureComparable cfg req)
    | .unknown => True
  | .resolveTokenInfo _ env s req =>
    s.lookup req.clientToken = none → StaticComparable (Access.adminToken env) req.clientToken ∧
      (req.clientToken ≠ Access.adminToken env →
        StaticComparable (Access.obsToken env) req.clientToken)
  | .validateToken s _ _ value =>
    s.tokens.rows = [] ∨ (value.isAscii = true ∧
      ∀ row ∈ s.tokens.rows.takeWhile (fun row => row.deviceToken ≠ value),
        row.deviceToken.isAscii = true)
  | .verifyWechatSignature token timestamp nonce signature =>
    (Encodable token ∧ Encodable timestamp ∧ Encodable nonce) ∧
      CodePoints.isAscii (CodePoints.lower signature) = true
  | .verifyHmacSignature profile _ signatureHeader =>
    profile.secret ≠ [] → signatureHeader ≠ [] → Connector.algoMap profile.algorithm ≠ none →
      Encodable profile.secret ∧
        CodePoints.isAscii (Connector.signatureText profile.algorithm signatureHeader) = true

/-! ## Wrong credentials -/

/-- A token after `Bearer `, and not the configured one. -/
def WrongBearer (cfg : WebhookConfig) (req : TextRequest) : Prop :=
  Webhook.bearerScheme <+: req.authHeader ∧ req.bearer ≠ [] ∧ cfg.bearerToken ≠ some req.bearer

/-- A signature after `sha256=`, and not the one of the body. -/
def WrongSignature (hashes : Hashes) (cfg : WebhookConfig) (req : TextRequest) : Prop :=
  Webhook.signatureScheme <+: req.sigHeader ∧ req.providedSig ≠ [] ∧
    ¬ SignatureMatches hashes cfg req

/-- The client presents a value that is not empty, and none that is a credential. -/
def AuthCall.Wrong (hashes : Hashes) : AuthCall → Prop
  | .verifyHmac cfg _ _ req => WrongSignature hashes cfg req
  | .requireAuth cfg _ _ req =>
    match Webhook.getAuthMode cfg with
    | .bearer => WrongBearer cfg req
    | .hmac => WrongSignature hashes cfg req
    | .bearerOrHmac => (WrongBearer cfg req ∨ WrongSignature hashes cfg req) ∧
        ¬ BearerMatches cfg req ∧ ¬ SignatureMatches hashes cfg req
    | .unknown => True
  | .resolveTokenInfo _ env s req =>
    req.clientToken ≠ [] ∧ s.lookup req.clientToken = none ∧
      req.clientToken ≠ Access.adminToken env ∧ req.clientToken ≠ Access.obsToken env
  | .validateToken s _ _ value => value ≠ [] ∧ ∀ row ∈ s.tokens.rows, row.deviceToken ≠ value
  | .verifyWechatSignature token timestamp nonce signature =>
    signature ≠ [] ∧ ∀ checkStr,
      CodePoints.encode (sortedBy id [token, timestamp, nonce]).flatten = .ok checkStr →
        hashes.sha1Hex checkStr ≠ CodePoints.lower signature
  | .verifyHmacSignature profile body signatureHeader =>
    signatureHeader ≠ [] ∧ ∀ hash key, Connector.algoMap profile.algorithm = some hash →
      CodePoints.encode profile.secret = .ok key →
        Connector.signatureText profile.algorithm signatureHeader ≠
          Connector.writeDigest profile.digestEncoding (hashes.hmac hash key body)

/-- Two requests to one check that may differ in what they present. What else the check reads of a
request is the same: the address of the client and the tenant. -/
inductive SameCheck : AuthCall → AuthCall → Prop where
  | verifyHmac {cfg : WebhookConfig} {recorded recorded' : NonceAnswers} {now now' : ℚ}
      {req req' : TextRequest} :
      SameCheck (.verifyHmac cfg recorded now req) (.verifyHmac cfg recorded' now' req')
  | requireAuth {cfg : WebhookConfig} {recorded recorded' : NonceAnswers} {now now' : ℚ}
      {req req' : TextRequest} :
      SameCheck (.requireAuth cfg recorded now req) (.requireAuth cfg recorded' now' req')
  | resolveTokenInfo {ip : Access.IpAddress} {env : Access.Environment} {s : Access.TokenRegistry}
      {req req' : Access.Request} :
      req.remote = req'.remote →
      req.headers (PyStr.ofString "X-Forwarded-For") =
        req'.headers (PyStr.ofString "X-Forwarded-For") →
      (∀ name ∈ Access.getTenantHeaderNames env, req.headers name = req'.headers name) →
      SameCheck (.resolveTokenInfo ip env s req) (.resolveTokenInfo ip env s req')
  | validateToken {s : Bridge.BridgeTokenStore} {now now' : ℚ} {scope scope' : Option PyStr}
      {value value' : PyStr} :
      SameCheck (.validateToken s now scope value) (.validateToken s now' scope' value')
  | verifyWechatSignature {token timestamp timestamp' nonce nonce' signature signature' :
      CodePoints} :
      SameCheck (.verifyWechatSignature token timestamp nonce signature)
        (.verifyWechatSignature token timestamp' nonce' signature')
  | verifyHmacSignature {profile : SignatureProfile} {body body' : List UInt8}
      {header header' : CodePoints} :
      SameCheck (.verifyHmacSignature profile body header)
        (.verifyHmacSignature profile body' header')

end OpenClaw.Auth
