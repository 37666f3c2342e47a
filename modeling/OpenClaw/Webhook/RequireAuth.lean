import OpenClaw.Foundation.CodePoints
import OpenClaw.Webhook.WebhookAuth

/-!
# Webhook authentication

`verify_bearer`, `verify_hmac` and `require_auth` of `services/webhook_auth.py` on headers with lone
surrogates. The bearer token is compared as bytes, the signature as text. What the nonce memory
answers is an input.
-/

namespace OpenClaw.Webhook

open Foundation
set_option autoImplicit false

/-! ## Headers -/

/-- `headers` looks a name up the way the request's mapping does. -/
structure TextRequest where
  headers : String → Option CodePoints
  rawBody : List UInt8

namespace TextRequest

def headerValue (req : TextRequest) (name : String) : CodePoints :=
  match req.headers name with
  | none => []
  | some value => CodePoints.strip value

def aliasValue (req : TextRequest) (names : HeaderAlias) : CodePoints :=
  let value := req.headerValue names.primary
  if value ≠ [] then value else req.headerValue names.legacy

def authHeader (req : TextRequest) : CodePoints := (req.headers "Authorization").getD []

/-- The token after `Bearer `. -/
def bearer (req : TextRequest) : CodePoints := req.authHeader.drop 7

def sigHeader (req : TextRequest) : CodePoints := req.aliasValue webhookSignatureHeaders

/-- The signature after `sha256=`. -/
def providedSig (req : TextRequest) : CodePoints := req.sigHeader.drop 7

def timestamp (req : TextRequest) : CodePoints := req.aliasValue webhookTimestampHeaders

def nonce (req : TextRequest) : CodePoints := req.aliasValue webhookNonceHeaders

end TextRequest

def bearerScheme : CodePoints := CodePoints.ofString "Bearer "
def signatureScheme : CodePoints := CodePoints.ofString "sha256="

/-! ## Bearer tokens -/

/-- The values of the environment variables; a missing one is `none`. -/
structure WebhookConfig extends AuthConfig where
  authMode : Option CodePoints
  bearerToken : Option CodePoints

inductive Verdict where
  | accepted
  | rejected (error : String)
  deriving DecidableEq

/-- `compare_digest` of the encodings. -/
def constantTimeCompare (a b : CodePoints) : Except TextError Bool :=
  match a.encode with
  | .error e => .error e
  | .ok x =>
    match b.encode with
    | .error e => .error e
    | .ok y => .ok (decide (x = y))

def verifyBearer (cfg : WebhookConfig) (req : TextRequest) : Except TextError Verdict :=
  match cfg.bearerToken with
  | none => .ok (.rejected "bearer_not_configured")
  | some expected =>
    if expected = [] then .ok (.rejected "bearer_not_configured")
    else if req.authHeader = [] then .ok (.rejected "missing_authorization_header")
    else if ¬ bearerScheme <+: req.authHeader then .ok (.rejected "invalid_auth_scheme")
    else if req.bearer = [] then .ok (.rejected "empty_token")
    else
      (constantTimeCompare req.bearer expected).map fun same =>
        if same then .accepted else .rejected "invalid_token"

/-! ## Signatures -/

/-- HMAC-SHA256 of a key and a message. -/
abbrev HmacSha256 := List UInt8 → List UInt8 → List UInt8

/-- What the store answers when a nonce is recorded; `true` for a duplicate. -/
abbrev NonceAnswers := CodePoints → Except StoreError Bool

section Verify
variable (hmac : HmacSha256) (cfg : WebhookConfig) (req : TextRequest)

def expectedSig (secret : List UInt8) : CodePoints :=
  CodePoints.ofChars (hex (hmac secret req.rawBody))

/-- `verify_hmac` up to the replay protection; `none` lets the request through to it. -/
def checkSignatureText : Except TextError (Option Verdict) :=
  match cfg.hmacSecret with
  | none => .ok (some (.rejected "hmac_not_configured"))
  | some secret =>
    if secret = [] then .ok (some (.rejected "hmac_not_configured"))
    else if req.sigHeader = [] then .ok (some (.rejected "missing_signature_header"))
    else if ¬ signatureScheme <+: req.sigHeader then
      .ok (some (.rejected "invalid_signature_format"))
    else if req.providedSig = [] then .ok (some (.rejected "empty_signature"))
    else
      (CodePoints.compareDigest req.providedSig.lower (expectedSig hmac req secret).lower).map
        fun same => if same then none else some (.rejected "invalid_signature")

/-- The replay protection of `verify_hmac`. -/
def checkReplayText (recorded : NonceAnswers) (now : ℚ) : Verdict :=
  if req.timestamp = [] ∧ req.nonce = [] ∧ cfg.requireReplayProtection = false then .accepted
  else if req.timestamp = [] then .rejected "missing_timestamp"
  else if req.nonce = [] then .rejected "missing_nonce"
  else
    match CodePoints.int? req.timestamp with
    | none => .rejected "invalid_timestamp"
    | some ts =>
      if |truncate now - ts| > driftSec then .rejected "timestamp_out_of_range"
      else
        match recorded req.nonce with
        | .ok isDup => if isDup then .rejected "nonce_used" else .accepted
        | .error _ =>
          if cfg.requireReplayProtection then .rejected "internal_error" else .accepted

def verifyHmacText (recorded : NonceAnswers) (now : ℚ) : Except TextError Verdict :=
  match checkSignatureText hmac cfg req with
  | .error e => .error e
  | .ok (some refused) => .ok refused
  | .ok none => .ok (checkReplayText cfg req recorded now)

end Verify

/-! ## Modes -/

inductive AuthMode where
  | bearer | hmac | bearerOrHmac | unknown
  deriving DecidableEq

def getAuthMode (cfg : WebhookConfig) : AuthMode :=
  let mode := CodePoints.lower ((cfg.authMode.filter (· ≠ [])).getD (CodePoints.ofString "bearer"))
  if mode = CodePoints.ofString "bearer" then .bearer
  else if mode = CodePoints.ofString "hmac" then .hmac
  else if mode = CodePoints.ofString "bearer_or_hmac" then .bearerOrHmac
  else .unknown

def isAuthConfigured (cfg : WebhookConfig) : Bool :=
  match getAuthMode cfg with
  | .bearer => cfg.bearerToken.isSome
  | .hmac => cfg.hmacSecret.isSome
  | .bearerOrHmac => cfg.bearerToken.isSome || cfg.hmacSecret.isSome
  | .unknown => false

def requireAuth (hmac : HmacSha256) (cfg : WebhookConfig) (req : TextRequest)
    (recorded : NonceAnswers) (now : ℚ) : Except TextError Verdict :=
  if isAuthConfigured cfg = false then .ok (.rejected "auth_not_configured")
  else
    match getAuthMode cfg with
    | .bearer => verifyBearer cfg req
    | .hmac => verifyHmacText hmac cfg req recorded now
    | .bearerOrHmac =>
      match verifyBearer cfg req with
      | .error e => .error e
      | .ok .accepted => .ok .accepted
      | .ok (.rejected _) =>
        match verifyHmacText hmac cfg req recorded now with
        | .error e => .error e
        | .ok .accepted => .ok .accepted
        | .ok (.rejected _) => .ok (.rejected "invalid_credentials")
    | .unknown => .ok (.rejected "unknown_auth_mode")

/-! ## Headers of characters -/

/-- The request with its headers as code points. -/
def RequestLike.text (req : RequestLike) : TextRequest where
  headers name := (req.headers name).map fun value => CodePoints.ofChars value.toList
  rawBody := req.rawBody

def Verdict.verified : Verdict → Verified
  | .accepted => .accepted
  | .rejected error => .rejected error

/-- What the store answers for a nonce of characters. -/
def storeAnswers (store : IdempotencyStore) (storeNow : ℚ) (io : Backend) : NonceAnswers :=
  fun nonce =>
    (store.checkAndRecord (nonceKey ((CodePoints.chars? nonce).getD [])) none nonceTtl storeNow
      io).2.map Prod.fst

section Text
variable {req : RequestLike} {names : HeaderAlias}

theorem headerValue_text (name : String) :
    req.text.headerValue name = CodePoints.ofChars (headerValue req.headers name) := by
  have hheader : req.text.headers name =
      (req.headers name).map fun value => CodePoints.ofChars value.toList := rfl
  rw [TextRequest.headerValue, headerValue, hheader]
  cases req.headers name with
  | none => rfl
  | some value => exact CodePoints.strip_ofChars _

theorem ofChars_eq_nil {cs : List Char} : CodePoints.ofChars cs = [] ↔ cs = [] := List.map_eq_nil_iff

theorem aliasValue_text :
    req.text.aliasValue names = CodePoints.ofChars (getHeaderAliasValue req.headers names) := by
  unfold TextRequest.aliasValue getHeaderAliasValue
  rw [headerValue_text, headerValue_text]
  dsimp only
  by_cases hnil : headerValue req.headers names.primary = []
  · simp [hnil, CodePoints.ofChars]
  · rw [if_pos (mt ofChars_eq_nil.mp hnil), if_pos hnil]

theorem prefix_ofChars {ds cs : List Char} :
    CodePoints.ofChars ds <+: CodePoints.ofChars cs ↔ ds <+: cs := by
  constructor
  · intro h
    rw [List.prefix_iff_eq_take] at h ⊢
    apply CodePoints.ofChars_injective
    rw [CodePoints.ofChars, CodePoints.ofChars, List.map_take]
    simpa [CodePoints.ofChars] using h
  · rintro ⟨rest, rfl⟩
    exact ⟨CodePoints.ofChars rest, (List.map_append).symm⟩

theorem sigHeader_text : req.text.sigHeader = CodePoints.ofChars req.sigHeader := aliasValue_text

theorem providedSig_text : req.text.providedSig = CodePoints.ofChars req.providedSig := by
  rw [TextRequest.providedSig, sigHeader_text, RequestLike.providedSig, CodePoints.ofChars,
    CodePoints.ofChars, List.map_drop]

theorem lower_text (cs : List Char) :
    CodePoints.lower (CodePoints.ofChars cs) = CodePoints.ofChars (lower cs) :=
  CodePoints.lower_ofChars cs

/-- The signature is checked the same way. -/
theorem checkSignature_text (hmac : HmacSha256) (cfg : WebhookConfig) (req : RequestLike) :
    checkSignature (fun key message => hex (hmac key message)) cfg.toAuthConfig req =
      match checkSignatureText hmac cfg req.text with
      | .ok v => v.map Verdict.verified
      | .error _ => some .raised := by
  unfold checkSignature checkSignatureText
  cases cfg.hmacSecret with
  | none => rfl
  | some secret =>
    have hscheme : signatureScheme <+: CodePoints.ofChars req.sigHeader ↔
        "sha256=".toList <+: req.sigHeader := prefix_ofChars
    dsimp only
    by_cases hsecret : secret = []
    · rw [if_pos hsecret, if_pos hsecret]
      rfl
    rw [if_neg hsecret, if_neg hsecret, sigHeader_text, providedSig_text, lower_text]
    by_cases hheader : req.sigHeader = []
    · rw [if_pos hheader, if_pos (ofChars_eq_nil.mpr hheader)]
      rfl
    rw [if_neg hheader, if_neg (mt ofChars_eq_nil.mp hheader)]
    by_cases hformat : "sha256=".toList <+: req.sigHeader
    · rw [if_neg (not_not.mpr hformat), if_neg (not_not.mpr (hscheme.mpr hformat))]
      by_cases hsig : req.providedSig = []
      · rw [if_pos hsig, if_pos (ofChars_eq_nil.mpr hsig)]
        rfl
      rw [if_neg hsig, if_neg (mt ofChars_eq_nil.mp hsig)]
      have hexpected : CodePoints.lower (expectedSig hmac req.text secret) =
          CodePoints.ofChars (lower (hex (hmac secret req.rawBody))) := lower_text _
      have hascii : (CodePoints.ofChars (lower (hex (hmac secret req.rawBody)))).isAscii = true := by
        rw [← lower_text]
        exact CodePoints.lower_isAscii (CodePoints.hex_isAscii _)
      have hsame : CodePoints.ofChars (lower req.providedSig) =
          CodePoints.ofChars (lower (hex (hmac secret req.rawBody))) ↔
            lower req.providedSig = lower (hex (hmac secret req.rawBody)) :=
        CodePoints.ofChars_injective.eq_iff
      have hpresented : (CodePoints.ofChars (lower req.providedSig)).isAscii =
          isAscii (lower req.providedSig) := CodePoints.isAscii_ofChars _
      rw [hexpected, ← hpresented]
      cases hcase : (CodePoints.ofChars (lower req.providedSig)).isAscii with
      | false =>
        rw [if_pos rfl, CodePoints.compareDigest, hcase, if_pos (.inl rfl)]
        rfl
      | true =>
        rw [if_neg (by simp), CodePoints.compareDigest_ok hcase hascii]
        by_cases heq : lower req.providedSig = lower (hex (hmac secret req.rawBody))
        · simp [Except.map, heq]
        · simp [Except.map, heq, hsame, Verdict.verified]
    · rw [if_pos hformat, if_pos (mt hscheme.mp hformat)]
      rfl

/-- The replay protection is the same. -/
theorem checkReplay_text (cfg : WebhookConfig) (store : IdempotencyStore) (req : RequestLike)
    (now storeNow : ℚ) (io : Backend) :
    (checkReplay cfg.toAuthConfig store req now storeNow io).2 =
      (checkReplayText cfg req.text (storeAnswers store storeNow io) now).verified := by
  have htimestamp : req.text.timestamp = CodePoints.ofChars req.timestamp := aliasValue_text
  have hnonce : req.text.nonce = CodePoints.ofChars req.nonce := aliasValue_text
  have hanswer : storeAnswers store storeNow io (CodePoints.ofChars req.nonce) =
      (store.checkAndRecord (nonceKey req.nonce) none nonceTtl storeNow io).2.map Prod.fst := by
    rw [storeAnswers, CodePoints.chars?_ofChars, Option.getD_some]
  unfold checkReplay checkReplayText
  rw [htimestamp, hnonce, hanswer, CodePoints.int?_ofChars]
  simp only [ofChars_eq_nil]
  split
  · rfl
  split
  · rfl
  split
  · rfl
  cases PyText.int? req.timestamp with
  | none => rfl
  | some ts =>
    dsimp only
    split
    · rfl
    cases (store.checkAndRecord (nonceKey req.nonce) none nonceTtl storeNow io).2 with
    | ok answer =>
      obtain ⟨isDup, pid⟩ := answer
      cases isDup with
      | true => rfl
      | false => rfl
    | error e =>
      cases hrequire : cfg.requireReplayProtection with
      | true => simp [Except.map, Verdict.verified]
      | false => simp [Except.map, Verdict.verified]

/-- On headers of characters the two models of `verify_hmac` agree. -/
theorem verifyHmac_text (hmac : HmacSha256) (cfg : WebhookConfig) (store : IdempotencyStore)
    (req : RequestLike) (now storeNow : ℚ) (io : Backend) :
    (verifyHmac (fun key message => hex (hmac key message)) cfg.toAuthConfig store req now storeNow
      io).2 =
      match verifyHmacText hmac cfg req.text (storeAnswers store storeNow io) now with
      | .ok v => v.verified
      | .error _ => .raised := by
  rw [verifyHmac, verifyHmacText, checkSignature_text]
  cases checkSignatureText hmac cfg req.text with
  | error e => rfl
  | ok r =>
    cases r with
    | some refused => rfl
    | none =>
      exact checkReplay_text cfg store req now storeNow io
end Text

end OpenClaw.Webhook
