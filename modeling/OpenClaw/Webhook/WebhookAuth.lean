import OpenClaw.Foundation.PyText
import OpenClaw.Webhook.IdempotencyStore

/-!
# Webhook signatures

`verify_hmac` of `services/webhook_auth.py`: the signature over the raw body, the timestamp window
and the nonce memory. The clock of the window, the clock and the backend of the store are inputs.
-/

namespace OpenClaw.Webhook

open Foundation
set_option autoImplicit false

structure HeaderAlias where
  primary : String
  legacy : String

def webhookSignatureHeaders : HeaderAlias := ⟨"X-OpenClaw-Signature", "X-Moltbot-Signature"⟩
def webhookTimestampHeaders : HeaderAlias := ⟨"X-OpenClaw-Timestamp", "X-Moltbot-Timestamp"⟩
def webhookNonceHeaders : HeaderAlias := ⟨"X-OpenClaw-Nonce", "X-Moltbot-Nonce"⟩

/-- `headers` looks a name up the way the request's mapping does. -/
structure RequestLike where
  headers : String → Option String
  rawBody : List UInt8

def headerValue (headers : String → Option String) (name : String) : List Char :=
  match headers name with
  | none => []
  | some value => PyText.strip value.toList

/-- `get_header_alias_value`; the empty text is no value. -/
def getHeaderAliasValue (headers : String → Option String) (names : HeaderAlias) : List Char :=
  let value := headerValue headers names.primary
  if value ≠ [] then value else headerValue headers names.legacy

/-- The secret and the strictness that the environment variables give. -/
structure AuthConfig where
  hmacSecret : Option (List UInt8)
  requireReplayProtection : Bool

/-- HMAC-SHA256 of a key and a message, as a hex digest. -/
abbrev HmacHex := List UInt8 → List UInt8 → List Char

/-- `str.lower` as far as ASCII results go: besides the capital letters, the Kelvin sign. -/
def lower (cs : List Char) : List Char :=
  cs.map fun c => if c.toNat = 0x212a then 'k' else c.toLower

def isAscii (cs : List Char) : Bool := cs.all fun c => c.toNat < 128

/-- `int(time.time())`, towards zero. -/
def truncate (t : ℚ) : ℤ := if 0 ≤ t then t.floor else t.ceil

def driftSec : ℤ := 300
def nonceTtl : ℕ := 600

inductive Verified where
  | accepted
  | rejected (error : String)
  | raised
  deriving DecidableEq

def RequestLike.sigHeader (req : RequestLike) : List Char :=
  getHeaderAliasValue req.headers webhookSignatureHeaders

/-- The signature the request presents, after `sha256=`. -/
def RequestLike.providedSig (req : RequestLike) : List Char := req.sigHeader.drop 7

def RequestLike.timestamp (req : RequestLike) : List Char :=
  getHeaderAliasValue req.headers webhookTimestampHeaders

def RequestLike.nonce (req : RequestLike) : List Char :=
  getHeaderAliasValue req.headers webhookNonceHeaders

def nonceKey (nonce : List Char) : String := "nonce:" ++ String.ofList nonce

/-- `verify_hmac` up to the replay protection; `none` lets the request through to it. -/
def checkSignature (hmacHex : HmacHex) (cfg : AuthConfig) (req : RequestLike) :
    Option Verified :=
  match cfg.hmacSecret with
  | none => some (.rejected "hmac_not_configured")
  | some secret =>
    if secret = [] then some (.rejected "hmac_not_configured")
    else if req.sigHeader = [] then some (.rejected "missing_signature_header")
    else if ¬ "sha256=".toList <+: req.sigHeader then some (.rejected "invalid_signature_format")
    else if req.providedSig = [] then some (.rejected "empty_signature")
    -- `compare_digest` takes ASCII texts only
    else if isAscii (lower req.providedSig) = false then some .raised
    else if lower req.providedSig ≠ lower (hmacHex secret req.rawBody) then
      some (.rejected "invalid_signature")
    else none

/-- The replay protection of `verify_hmac`. -/
def checkReplay (cfg : AuthConfig) (store : IdempotencyStore) (req : RequestLike)
    (now storeNow : ℚ) (io : Backend) : IdempotencyStore × Verified :=
  if req.timestamp = [] ∧ req.nonce = [] ∧ cfg.requireReplayProtection = false then
    (store, .accepted)
  else if req.timestamp = [] then (store, .rejected "missing_timestamp")
  else if req.nonce = [] then (store, .rejected "missing_nonce")
  else
    match PyText.int? req.timestamp with
    | none => (store, .rejected "invalid_timestamp")
    | some ts =>
      if |truncate now - ts| > driftSec then (store, .rejected "timestamp_out_of_range")
      else
        let r := store.checkAndRecord (nonceKey req.nonce) none nonceTtl storeNow io
        match r.2 with
        | .ok (isDup, _) => (r.1, if isDup then .rejected "nonce_used" else .accepted)
        | .error _ =>
          (r.1, if cfg.requireReplayProtection then .rejected "internal_error" else .accepted)

def verifyHmac (hmacHex : HmacHex) (cfg : AuthConfig) (store : IdempotencyStore)
    (req : RequestLike) (now storeNow : ℚ) (io : Backend) : IdempotencyStore × Verified :=
  match checkSignature hmacHex cfg req with
  | some refused => (store, refused)
  | none => checkReplay cfg store req now storeNow io

end OpenClaw.Webhook
