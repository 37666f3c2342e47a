import OpenClaw.Auth.AuthCalls

/-!
# When a check of credentials decides

A check decides exactly if the texts that it comes to compare can be compared, and then all wrong
credentials are treated alike.
-/

namespace OpenClaw.Auth

open Foundation
open Webhook (TextRequest WebhookConfig HmacSha256 NonceAnswers Verdict)
open Connector (HmacDigest SignatureProfile AuthVerifyResult)
set_option autoImplicit false

/-! ## Comparisons -/

theorem exists_decision {ε α β : Type*} {x : Except ε α} {f : α → β} :
    (∃ d, x.toOption.map f = some d) ↔ ∃ a, x = .ok a := by
  cases x with
  | error e => simp [Except.toOption]
  | ok a => simp [Except.toOption]

theorem encode_ok_iff {t : CodePoints} : (∃ bs, t.encode = .ok bs) ↔ Encodable t := by
  unfold CodePoints.encode Encodable
  cases t.chars? with
  | none => simp
  | some cs => simp

theorem compareDigest_ok_iff {a b : CodePoints} :
    (∃ r, CodePoints.compareDigest a b = .ok r) ↔ a.isAscii = true ∧ b.isAscii = true := by
  unfold CodePoints.compareDigest
  cases a.isAscii <;> cases b.isAscii <;> simp

/-- Encodable texts are the same if their encodings are. -/
theorem constantTimeCompare_eq {a b : CodePoints} (ha : Encodable a) (hb : Encodable b) :
    Webhook.constantTimeCompare a b = .ok (decide (a = b)) := by
  obtain ⟨cs, hcs⟩ := ha
  obtain ⟨ds, hds⟩ := hb
  have hsame : utf8 cs = utf8 ds ↔ a = b := by
    constructor
    · intro h
      rw [← CodePoints.ofChars_chars? hcs, ← CodePoints.ofChars_chars? hds, utf8_injective h]
    · rintro rfl
      rw [hcs] at hds
      rw [Option.some.inj hds]
  rw [Webhook.constantTimeCompare, CodePoints.encode, hcs, CodePoints.encode, hds]
  simp [hsame]

theorem constantTimeCompare_ok {a b : CodePoints} {r : Bool}
    (h : Webhook.constantTimeCompare a b = .ok r) : Encodable a ∧ Encodable b := by
  unfold Webhook.constantTimeCompare at h
  split at h
  · cases h
  rename_i x hx
  split at h
  · cases h
  rename_i y hy
  exact ⟨encode_ok_iff.mp ⟨x, hx⟩, encode_ok_iff.mp ⟨y, hy⟩⟩

/-! ## Webhook tokens and signatures -/

section Webhook
variable {hashes : Hashes} {cfg : WebhookConfig} {req : TextRequest} {recorded : NonceAnswers}
  {now : ℚ}

/-- A token behind the scheme comes to be compared with a configured one. -/
theorem verifyBearer_compares {expected : CodePoints} (hcfg : cfg.bearerToken = some expected)
    (hne : expected ≠ []) (hscheme : Webhook.bearerScheme <+: req.authHeader)
    (hbearer : req.bearer ≠ []) : Webhook.verifyBearer cfg req =
      (Webhook.constantTimeCompare req.bearer expected).map fun same =>
        if same then .accepted else .rejected "invalid_token" := by
  have hheader : req.authHeader ≠ [] := by
    intro hnil
    rw [TextRequest.bearer, hnil] at hbearer
    exact hbearer rfl
  simp only [Webhook.verifyBearer, hcfg, if_neg hne, if_neg hheader, not_true_eq_false, hscheme,
    if_false, if_neg hbearer]

/-- Without tokens to compare, the request is rejected. -/
theorem verifyBearer_rejects (h : ∀ expected, cfg.bearerToken = some expected → expected ≠ [] →
      Webhook.bearerScheme <+: req.authHeader → req.bearer = []) :
    ∃ error, Webhook.verifyBearer cfg req = .ok (.rejected error) := by
  unfold Webhook.verifyBearer
  split
  · exact ⟨_, rfl⟩
  rename_i expected hcfg
  split
  · exact ⟨_, rfl⟩
  rename_i hne
  split
  · exact ⟨_, rfl⟩
  split
  · exact ⟨_, rfl⟩
  rename_i hscheme
  rw [if_pos (h expected hcfg hne (not_not.mp hscheme))]
  exact ⟨_, rfl⟩

/-- Tokens are compared, or the request is rejected without. -/
theorem verifyBearer_cases (cfg : WebhookConfig) (req : TextRequest) :
    (∃ expected, cfg.bearerToken = some expected ∧ expected ≠ [] ∧
      Webhook.bearerScheme <+: req.authHeader ∧ req.bearer ≠ []) ∨
    ((∀ expected, cfg.bearerToken = some expected → expected ≠ [] →
      Webhook.bearerScheme <+: req.authHeader → req.bearer = []) ∧
        ∃ error, Webhook.verifyBearer cfg req = .ok (.rejected error)) := by
  by_cases hcase : ∃ expected, cfg.bearerToken = some expected ∧ expected ≠ [] ∧
      Webhook.bearerScheme <+: req.authHeader ∧ req.bearer ≠ []
  · exact .inl hcase
  · have hnone : ∀ expected, cfg.bearerToken = some expected → expected ≠ [] →
        Webhook.bearerScheme <+: req.authHeader → req.bearer = [] := by
      intro expected hcfg hne hscheme
      by_contra hbearer
      exact hcase ⟨expected, hcfg, hne, hscheme, hbearer⟩
    exact .inr ⟨hnone, verifyBearer_rejects hnone⟩

theorem verifyBearer_ok_iff : (∃ v, Webhook.verifyBearer cfg req = .ok v) ↔
    BearerComparable cfg req := by
  constructor
  · rintro ⟨v, hv⟩ expected hcfg hne hscheme hbearer
    rw [verifyBearer_compares hcfg hne hscheme hbearer] at hv
    cases hcompare : Webhook.constantTimeCompare req.bearer expected with
    | error e =>
      rw [hcompare] at hv
      cases hv
    | ok r => exact constantTimeCompare_ok hcompare
  · intro h
    rcases verifyBearer_cases cfg req with
      ⟨expected, hcfg, hne, hscheme, hbearer⟩ | ⟨-, error, herror⟩
    · obtain ⟨ha, hb⟩ := h expected hcfg hne hscheme hbearer
      rw [verifyBearer_compares hcfg hne hscheme hbearer, constantTimeCompare_eq ha hb]
      exact ⟨_, rfl⟩
    · exact ⟨_, herror⟩

/-- Only the configured token is accepted, and another one is rejected as invalid. -/
theorem verifyBearer_accepts_iff (h : BearerComparable cfg req) :
    Webhook.verifyBearer cfg req = .ok .accepted ↔ BearerMatches cfg req := by
  rcases verifyBearer_cases cfg req with
    ⟨expected, hcfg, hne, hscheme, hbearer⟩ | ⟨hnone, error, herror⟩
  · obtain ⟨ha, hb⟩ := h expected hcfg hne hscheme hbearer
    rw [verifyBearer_compares hcfg hne hscheme hbearer, constantTimeCompare_eq ha hb]
    by_cases hsame : req.bearer = expected
    · simp [Except.map, BearerMatches, hcfg, hsame, hne, hscheme]
    · simp [Except.map, BearerMatches, hcfg, hsame, Ne.symm hsame]
  · rw [herror]
    constructor
    · intro heq
      cases heq
    · rintro ⟨hbearer, hscheme, hcfg⟩
      exact absurd (hnone _ hcfg hbearer hscheme) hbearer

theorem verifyBearer_wrong (h : BearerComparable cfg req) (hwrong : WrongBearer cfg req)
    (hconfigured : cfg.bearerToken.isSome) : Webhook.verifyBearer cfg req =
      .ok (.rejected (if cfg.bearerToken = some [] then "bearer_not_configured"
        else "invalid_token")) := by
  obtain ⟨hscheme, hbearer, hother⟩ := hwrong
  obtain ⟨expected, hcfg⟩ := Option.isSome_iff_exists.mp hconfigured
  by_cases hne : expected = []
  · rw [hne] at hcfg
    simp [Webhook.verifyBearer, hcfg]
  · obtain ⟨ha, hb⟩ := h expected hcfg hne hscheme hbearer
    rw [verifyBearer_compares hcfg hne hscheme hbearer, constantTimeCompare_eq ha hb]
    rw [hcfg] at hother ⊢
    have hsame : req.bearer ≠ expected := fun heq => hother (by rw [heq])
    simp [Except.map, hsame, hne]

/-- A signature behind the scheme comes to be compared with the one of the body. -/
theorem checkSignature_compares {secret : List UInt8} (hcfg : cfg.hmacSecret = some secret)
    (hne : secret ≠ []) (hscheme : Webhook.signatureScheme <+: req.sigHeader)
    (hsig : req.providedSig ≠ []) : Webhook.checkSignatureText hashes.hmacSha256 cfg req =
      (CodePoints.compareDigest (CodePoints.lower req.providedSig)
        (CodePoints.lower (Webhook.expectedSig hashes.hmacSha256 req secret))).map fun same =>
          if same then none else some (.rejected "invalid_signature") := by
  have hheader : req.sigHeader ≠ [] := by
    intro hnil
    rw [TextRequest.providedSig, hnil] at hsig
    exact hsig rfl
  simp only [Webhook.checkSignatureText, hcfg, if_neg hne, if_neg hheader, not_true_eq_false,
    hscheme, if_false, if_neg hsig]

/-- Without signatures to compare, the request is rejected. -/
theorem checkSignature_rejects (h : ∀ secret, cfg.hmacSecret = some secret → secret ≠ [] →
      Webhook.signatureScheme <+: req.sigHeader → req.providedSig = []) :
    ∃ error, Webhook.checkSignatureText hashes.hmacSha256 cfg req =
      .ok (some (.rejected error)) := by
  unfold Webhook.checkSignatureText
  split
  · exact ⟨_, rfl⟩
  rename_i secret hcfg
  split
  · exact ⟨_, rfl⟩
  rename_i hne
  split
  · exact ⟨_, rfl⟩
  split
  · exact ⟨_, rfl⟩
  rename_i hscheme
  rw [if_pos (h secret hcfg hne (not_not.mp hscheme))]
  exact ⟨_, rfl⟩

/-- Signatures are compared, or the request is rejected without. -/
theorem checkSignature_cases (hashes : Hashes) (cfg : WebhookConfig) (req : TextRequest) :
    (∃ secret, cfg.hmacSecret = some secret ∧ secret ≠ [] ∧
      Webhook.signatureScheme <+: req.sigHeader ∧ req.providedSig ≠ []) ∨
    ((∀ secret, cfg.hmacSecret = some secret → secret ≠ [] →
      Webhook.signatureScheme <+: req.sigHeader → req.providedSig = []) ∧
        ∃ error, Webhook.checkSignatureText hashes.hmacSha256 cfg req =
          .ok (some (.rejected error))) := by
  by_cases hcase : ∃ secret, cfg.hmacSecret = some secret ∧ secret ≠ [] ∧
      Webhook.signatureScheme <+: req.sigHeader ∧ req.providedSig ≠ []
  · exact .inl hcase
  · have hnone : ∀ secret, cfg.hmacSecret = some secret → secret ≠ [] →
        Webhook.signatureScheme <+: req.sigHeader → req.providedSig = [] := by
      intro secret hcfg hne hscheme
      by_contra hsig
      exact hcase ⟨secret, hcfg, hne, hscheme, hsig⟩
    exact .inr ⟨hnone, checkSignature_rejects hnone⟩

theorem expectedSig_isAscii (secret : List UInt8) :
    (CodePoints.lower (Webhook.expectedSig hashes.hmacSha256 req secret)).isAscii = true :=
  CodePoints.lower_isAscii (CodePoints.hex_isAscii _)

theorem checkSignature_compared {secret : List UInt8} (h : SignatureComparable cfg req)
    (hcfg : cfg.hmacSecret = some secret) (hne : secret ≠ [])
    (hscheme : Webhook.signatureScheme <+: req.sigHeader) (hsig : req.providedSig ≠ []) :
    Webhook.checkSignatureText hashes.hmacSha256 cfg req =
      .ok (if CodePoints.lower req.providedSig =
        CodePoints.lower (Webhook.expectedSig hashes.hmacSha256 req secret) then none
        else some (.rejected "invalid_signature")) := by
  rw [checkSignature_compares hcfg hne hscheme hsig,
    CodePoints.compareDigest_ok (h secret hcfg hne hscheme hsig) (expectedSig_isAscii secret)]
  simp [Except.map]

theorem checkSignature_ok_iff (hashes : Hashes) :
    (∃ r, Webhook.checkSignatureText hashes.hmacSha256 cfg req = .ok r) ↔
      SignatureComparable cfg req := by
  constructor
  · rintro ⟨r, hr⟩ secret hcfg hne hscheme hsig
    rw [checkSignature_compares hcfg hne hscheme hsig] at hr
    cases hcompare : CodePoints.compareDigest (CodePoints.lower req.providedSig)
        (CodePoints.lower (Webhook.expectedSig hashes.hmacSha256 req secret)) with
    | error e =>
      rw [hcompare] at hr
      cases hr
    | ok same => exact (compareDigest_ok_iff.mp ⟨same, hcompare⟩).1
  · intro h
    rcases checkSignature_cases hashes cfg req with
    ⟨secret, hcfg, hne, hscheme, hsig⟩ | ⟨-, error, herror⟩
    · exact ⟨_, checkSignature_compared h hcfg hne hscheme hsig⟩
    · exact ⟨_, herror⟩

/-- The replay protection never raises. -/
theorem verifyHmac_ok_iff (hashes : Hashes) (recorded : NonceAnswers) (now : ℚ) :
    (∃ v, Webhook.verifyHmacText hashes.hmacSha256 cfg req recorded now = .ok v) ↔
      SignatureComparable cfg req := by
  rw [← checkSignature_ok_iff hashes]
  unfold Webhook.verifyHmacText
  cases Webhook.checkSignatureText hashes.hmacSha256 cfg req with
  | error e => simp
  | ok r =>
    cases r with
    | none => simp
    | some refused => simp

/-- Without the signature of its body a request is rejected. -/
theorem verifyHmac_unmatched (recorded : NonceAnswers) (now : ℚ) (h : SignatureComparable cfg req)
    (hother : ¬ SignatureMatches hashes cfg req) :
    ∃ error, Webhook.verifyHmacText hashes.hmacSha256 cfg req recorded now =
      .ok (.rejected error) := by
  rcases checkSignature_cases hashes cfg req with
    ⟨secret, hcfg, hne, hscheme, hsig⟩ | ⟨-, error, herror⟩
  · have hdiffers : CodePoints.lower req.providedSig ≠
        CodePoints.lower (Webhook.expectedSig hashes.hmacSha256 req secret) :=
      fun heq => hother ⟨hsig, hscheme, secret, hcfg, hne, heq⟩
    rw [Webhook.verifyHmacText, checkSignature_compared h hcfg hne hscheme hsig, if_neg hdiffers]
    exact ⟨_, rfl⟩
  · rw [Webhook.verifyHmacText, herror]
    exact ⟨_, rfl⟩

theorem verifyHmac_wrong (h : SignatureComparable cfg req)
    (hwrong : WrongSignature hashes cfg req) :
    Webhook.verifyHmacText hashes.hmacSha256 cfg req recorded now = .ok (.rejected
      (if cfg.hmacSecret = none ∨ cfg.hmacSecret = some [] then "hmac_not_configured"
        else "invalid_signature")) := by
  obtain ⟨hscheme, hsig, hother⟩ := hwrong
  cases hcfg : cfg.hmacSecret with
  | none => simp [Webhook.verifyHmacText, Webhook.checkSignatureText, hcfg]
  | some secret =>
    by_cases hne : secret = []
    · simp [Webhook.verifyHmacText, Webhook.checkSignatureText, hcfg, hne]
    · have hdiffers : CodePoints.lower req.providedSig ≠
          CodePoints.lower (Webhook.expectedSig hashes.hmacSha256 req secret) :=
        fun heq => hother ⟨hsig, hscheme, secret, hcfg, hne, heq⟩
      rw [Webhook.verifyHmacText, checkSignature_compared h hcfg hne hscheme hsig,
        if_neg hdiffers]
      simp [hne]

/-! ## Modes -/

theorem not_configured_comparable (h : Webhook.isAuthConfigured cfg = false) :
    (AuthCall.requireAuth cfg recorded now req).Comparable := by
  rw [AuthCall.Comparable]
  unfold Webhook.isAuthConfigured at h
  cases hmode : Webhook.getAuthMode cfg with
  | bearer =>
    rw [hmode] at h
    intro expected hcfg
    simp [hcfg] at h
  | hmac =>
    rw [hmode] at h
    intro secret hcfg
    simp [hcfg] at h
  | bearerOrHmac =>
    rw [hmode] at h
    obtain ⟨hbearer, hsecret⟩ := Bool.or_eq_false_iff.mp h
    refine ⟨?_, .inr ?_⟩
    · intro expected hcfg
      simp [hcfg] at hbearer
    · intro secret hcfg
      simp [hcfg] at hsecret
  | unknown => trivial

theorem requireAuth_ok_iff :
    (∃ v, Webhook.requireAuth hashes.hmacSha256 cfg req recorded now = .ok v) ↔
      (AuthCall.requireAuth cfg recorded now req).Comparable := by
  by_cases hconfigured : Webhook.isAuthConfigured cfg = false
  · rw [Webhook.requireAuth, if_pos hconfigured]
    exact ⟨fun _ => not_configured_comparable hconfigured, fun _ => ⟨_, rfl⟩⟩
  rw [Webhook.requireAuth, if_neg hconfigured, AuthCall.Comparable]
  cases Webhook.getAuthMode cfg with
  | bearer => exact verifyBearer_ok_iff
  | hmac => exact verifyHmac_ok_iff hashes recorded now
  | bearerOrHmac =>
    dsimp only
    rw [← verifyBearer_ok_iff, ← verifyHmac_ok_iff hashes recorded now]
    cases hbearer : Webhook.verifyBearer cfg req with
    | error e => simp
    | ok v =>
      have hmatches := verifyBearer_accepts_iff (verifyBearer_ok_iff.mp ⟨v, hbearer⟩)
      rw [hbearer] at hmatches
      cases v with
      | accepted => simp [hmatches.mp rfl]
      | rejected error =>
        have hother : ¬ BearerMatches cfg req := by
          intro h
          cases hmatches.mpr h
        cases Webhook.verifyHmacText hashes.hmacSha256 cfg req recorded now with
        | error e => simp [hother]
        | ok v =>
          cases v with
          | accepted => simp
          | rejected error => simp
  | unknown => simp

/-- What `require_auth` answers to all wrong credentials. -/
def refusal (cfg : WebhookConfig) : String :=
  if Webhook.isAuthConfigured cfg = false then "auth_not_configured"
  else
    match Webhook.getAuthMode cfg with
    | .bearer => if cfg.bearerToken = some [] then "bearer_not_configured" else "invalid_token"
    | .hmac =>
      if cfg.hmacSecret = none ∨ cfg.hmacSecret = some [] then "hmac_not_configured"
      else "invalid_signature"
    | .bearerOrHmac => "invalid_credentials"
    | .unknown => "unknown_auth_mode"

theorem requireAuth_wrong (h : (AuthCall.requireAuth cfg recorded now req).Comparable)
    (hwrong : (AuthCall.requireAuth cfg recorded now req).Wrong hashes) :
    Webhook.requireAuth hashes.hmacSha256 cfg req recorded now = .ok (.rejected (refusal cfg)) := by
  unfold refusal
  rw [Webhook.requireAuth]
  split
  · rfl
  rename_i hconfigured
  rw [AuthCall.Comparable] at h
  rw [AuthCall.Wrong] at hwrong
  unfold Webhook.isAuthConfigured at hconfigured
  cases hmode : Webhook.getAuthMode cfg with
  | bearer =>
    rw [hmode] at h hwrong hconfigured
    exact verifyBearer_wrong h hwrong (Option.isSome_iff_ne_none.mpr (by simpa using hconfigured))
  | hmac =>
    rw [hmode] at h hwrong
    exact verifyHmac_wrong h hwrong
  | bearerOrHmac =>
    rw [hmode] at h hwrong
    obtain ⟨hbearer, hsignature⟩ := h
    obtain ⟨-, hnoBearer, hnoSignature⟩ := hwrong
    obtain ⟨v, hv⟩ := verifyBearer_ok_iff.mpr hbearer
    obtain ⟨error, herror⟩ := verifyHmac_unmatched recorded now
      (hsignature.resolve_left hnoBearer) hnoSignature
    have hrejected := mt (verifyBearer_accepts_iff hbearer).mp hnoBearer
    rw [hv] at hrejected ⊢
    cases v with
    | accepted => exact absurd rfl hrejected
    | rejected _ =>
      dsimp only
      rw [herror]
  | unknown => rfl

end Webhook

end OpenClaw.Auth
