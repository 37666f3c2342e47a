import OpenClaw.Auth.AuthLaw

/-!
# All checks of credentials

The tokens of the local API and of bridges, the signatures of WeChat and of the connector, and the
law for all six checks.
-/

namespace OpenClaw.Auth

open Foundation
open Webhook (TextRequest WebhookConfig HmacSha256 NonceAnswers Verdict)
open Connector (HmacDigest SignatureProfile AuthVerifyResult)
set_option autoImplicit false

/-! ## Tokens of the local API -/

section Tokens
variable {ip : Access.IpAddress} {env : Access.Environment} {s : Access.TokenRegistry}
  {req req' : Access.Request} {configured client : PyStr}

theorem matchesStatic_ok_iff :
    (∃ r, Access.matchesStatic configured client = .ok r) ↔ StaticComparable configured client := by
  unfold Access.matchesStatic StaticComparable Access.compareDigest
  by_cases hconfigured : configured = []
  · simp [hconfigured]
  by_cases hclient : client = []
  · simp [hclient]
  cases client.isAscii <;> cases configured.isAscii <;> simp [hconfigured, hclient]

theorem matchesStatic_eq (h : StaticComparable configured client) :
    Access.matchesStatic configured client =
      .ok (decide (configured ≠ [] ∧ client = configured)) := by
  unfold Access.matchesStatic
  by_cases hconfigured : configured = []
  · simp [hconfigured]
  by_cases hclient : client = []
  · simp [hclient, Ne.symm hconfigured]
  obtain ⟨hascii, hascii'⟩ := h hconfigured hclient
  simp [Access.compareDigest, hconfigured, hclient, hascii, hascii']

/-- Without an issued token, the two configured ones are compared in turn. -/
theorem resolveTokenInfo_static
    (h : (if req.clientToken ≠ [] then s.lookup req.clientToken else none) = none) :
    Access.resolveTokenInfo ip env s req =
      (Access.matchesStatic (Access.adminToken env) req.clientToken).bind fun isAdmin =>
        if isAdmin then
          .ok (some { tokenId := PyStr.ofString "env-admin", role := .admin,
                      scopes := [PyStr.ofString "*"],
                      tenantId := Access.resolveHeaderTenant env req })
        else
          (Access.matchesStatic (Access.obsToken env) req.clientToken).bind fun isObs =>
            .ok (if isObs then
              some { tokenId := PyStr.ofString "env-obs", role := .observability,
                     scopes := [PyStr.ofString "read:*"],
                     tenantId := Access.resolveHeaderTenant env req }
              else Access.loopbackInfo ip env req) := by
  rw [Access.resolveTokenInfo]
  rw [h]
  cases Access.matchesStatic (Access.adminToken env) req.clientToken with
  | error e => rfl
  | ok isAdmin =>
    cases isAdmin with
    | true => rfl
    | false =>
      cases Access.matchesStatic (Access.obsToken env) req.clientToken with
      | error e => rfl
      | ok isObs =>
        cases isObs with
        | true => rfl
        | false => rfl

theorem resolveTokenInfo_ok_iff : (∃ r, Access.resolveTokenInfo ip env s req = .ok r) ↔
    (AuthCall.resolveTokenInfo ip env s req).Comparable := by
  rw [AuthCall.Comparable]
  by_cases hclient : req.clientToken = []
  · -- nothing is compared
    have hstatic : ∀ configured, StaticComparable configured req.clientToken :=
      fun configured _ hne => absurd hclient hne
    rw [resolveTokenInfo_static (by simp [hclient]), matchesStatic_eq (hstatic _),
      matchesStatic_eq (hstatic _)]
    refine ⟨fun _ _ => ⟨hstatic _, fun _ => hstatic _⟩, fun _ => ?_⟩
    cases decide (Access.adminToken env ≠ [] ∧ req.clientToken = Access.adminToken env) with
    | true => exact ⟨_, rfl⟩
    | false => exact ⟨_, rfl⟩
  cases hlookup : s.lookup req.clientToken with
  | some info => simp [Access.resolveTokenInfo, hclient, hlookup]
  | none =>
    rw [resolveTokenInfo_static (by simp [hlookup])]
    by_cases hadmin : StaticComparable (Access.adminToken env) req.clientToken
    · rw [matchesStatic_eq hadmin]
      by_cases hsame : Access.adminToken env ≠ [] ∧ req.clientToken = Access.adminToken env
      · rw [decide_eq_true hsame]
        exact ⟨fun _ _ => ⟨hadmin, fun hne => absurd hsame.2 hne⟩, fun _ => ⟨_, rfl⟩⟩
      · have hdiffers : req.clientToken ≠ Access.adminToken env := by
          intro heq
          exact hsame ⟨fun hnil => hclient (heq.trans hnil), heq⟩
        rw [decide_eq_false hsame]
        constructor
        · rintro ⟨r, hr⟩ _
          refine ⟨hadmin, fun _ => ?_⟩
          cases hobs : Access.matchesStatic (Access.obsToken env) req.clientToken with
          | error e =>
            rw [hobs] at hr
            cases hr
          | ok isObs => exact matchesStatic_ok_iff.mp ⟨isObs, hobs⟩
        · intro hrest
          obtain ⟨isObs, hobs⟩ := matchesStatic_ok_iff.mpr ((hrest rfl).2 hdiffers)
          rw [hobs]
          exact ⟨_, rfl⟩
    · have hraises := mt matchesStatic_ok_iff.mp hadmin
      cases hmatches : Access.matchesStatic (Access.adminToken env) req.clientToken with
      | error e => simp [Except.bind, hadmin]
      | ok isAdmin => exact absurd ⟨isAdmin, hmatches⟩ hraises

theorem resolveTokenInfo_wrong (h : (AuthCall.resolveTokenInfo ip env s req).Comparable)
    (hashes : Hashes) (hwrong : (AuthCall.resolveTokenInfo ip env s req).Wrong hashes) :
    Access.resolveTokenInfo ip env s req = .ok (Access.loopbackInfo ip env req) := by
  obtain ⟨-, hlookup, hadmin, hobs⟩ := hwrong
  obtain ⟨hstatic, hstaticObs⟩ := h hlookup
  rw [resolveTokenInfo_static (by simp [hlookup]), matchesStatic_eq hstatic,
    matchesStatic_eq (hstaticObs hadmin)]
  simp [Except.bind, hadmin, hobs]

/-- What a loopback request is does not depend on the token headers. -/
theorem loopbackInfo_congr (hremote : req.remote = req'.remote)
    (hforwarded : req.headers (PyStr.ofString "X-Forwarded-For") =
      req'.headers (PyStr.ofString "X-Forwarded-For"))
    (htenant : ∀ name ∈ Access.getTenantHeaderNames env, req.headers name = req'.headers name) :
    Access.loopbackInfo ip env req = Access.loopbackInfo ip env req' := by
  have hip : Access.getClientIp ip env req = Access.getClientIp ip env req' := by
    rw [Access.getClientIp, Access.getClientIp, hremote, hforwarded]
  have hfind : ∀ names : List PyStr, (∀ name ∈ names, req.headers name = req'.headers name) →
      (names.findSome? fun name => ((req.headers name).map PyStr.strip).filter (· ≠ [])) =
        names.findSome? fun name => ((req'.headers name).map PyStr.strip).filter (· ≠ []) := by
    intro names hnames
    induction names with
    | nil => rfl
    | cons name names ih =>
      rw [List.findSome?_cons, List.findSome?_cons, hnames name List.mem_cons_self,
        ih fun other hother => hnames other (List.mem_cons_of_mem _ hother)]
  have htenantId : Access.resolveHeaderTenant env req = Access.resolveHeaderTenant env req' := by
    rw [Access.resolveHeaderTenant, Access.resolveHeaderTenant, Access.extractTenantFromHeaders,
      Access.extractTenantFromHeaders, hfind _ htenant]
  rw [Access.loopbackInfo, Access.loopbackInfo, hip, htenantId]

end Tokens

/-! ## Tokens of bridges -/

section Bridge
variable {s : Bridge.BridgeTokenStore} {now : ℚ} {scope : Option PyStr} {value : PyStr}

theorem resolve_ok_iff {rows : List Bridge.DeviceToken} :
    (∃ r, Bridge.BridgeTokenStore.resolveTokenForValue value rows = .ok r) ↔
      rows = [] ∨ (value.isAscii = true ∧
        ∀ row ∈ rows.takeWhile (fun row => row.deviceToken ≠ value),
          row.deviceToken.isAscii = true) := by
  induction rows with
  | nil => simp [Bridge.BridgeTokenStore.resolveTokenForValue]
  | cons first rows ih =>
    rw [Bridge.BridgeTokenStore.resolveTokenForValue, List.takeWhile_cons]
    by_cases hvalue : value.isAscii = true
    · by_cases hsame : first.deviceToken = value
      · simp [hsame, hvalue]
      · by_cases hfirst : first.deviceToken.isAscii = true
        · rw [if_neg (by simp [hfirst, hvalue]), if_neg hsame, ih]
          rcases rows.eq_nil_or_concat with rfl | ⟨_, _, rfl⟩
          · simp [hsame, hfirst, hvalue]
          · simp [hsame, hfirst, hvalue]
        · simp [hsame, hfirst, hvalue]
    · simp [hvalue]

theorem resolve_wrong {rows : List Bridge.DeviceToken}
    (h : ∀ row ∈ rows, row.deviceToken ≠ value) {r : Option Bridge.DeviceToken}
    (hr : Bridge.BridgeTokenStore.resolveTokenForValue value rows = .ok r) : r = none := by
  induction rows with
  | nil =>
    cases hr
    rfl
  | cons first rows ih =>
    rw [Bridge.BridgeTokenStore.resolveTokenForValue] at hr
    split at hr
    · cases hr
    rw [if_neg (h first List.mem_cons_self)] at hr
    exact ih (fun row hrow => h row (List.mem_cons_of_mem _ hrow)) hr

theorem validateToken_ok_iff : (∃ r, (s.validateToken now value scope).2 = .ok r) ↔
    (AuthCall.validateToken s now scope value).Comparable := by
  rw [AuthCall.Comparable, ← resolve_ok_iff]
  unfold Bridge.BridgeTokenStore.validateToken
  cases Bridge.BridgeTokenStore.resolveTokenForValue value s.tokens.rows with
  | error e => simp
  | ok r =>
    cases r with
    | none => simp
    | some token => simp

theorem validateToken_wrong (h : (AuthCall.validateToken s now scope value).Comparable)
    (hwrong : ∀ row ∈ s.tokens.rows, row.deviceToken ≠ value) :
    (s.validateToken now value scope).2 = .ok { ok := false, rejectReason := "unknown_token" } := by
  obtain ⟨r, hr⟩ := resolve_ok_iff.mpr h
  obtain rfl := resolve_wrong hwrong hr
  rw [Bridge.BridgeTokenStore.validateToken, hr]

end Bridge

/-! ## Signatures of WeChat -/

theorem encodable_iff {t : CodePoints} : Encodable t ↔ ∀ c ∈ t, (charOf? c.val).isSome := by
  unfold Encodable CodePoints.chars?
  induction t with
  | nil => simp
  | cons c t ih =>
    rw [List.forall_mem_cons, ← ih, List.mapM_cons]
    cases charOf? c.val with
    | none => simp
    | some d =>
      cases t.mapM fun c => charOf? c.val with
      | none => simp
      | some cs => simp

theorem encodable_sorted {a b c : CodePoints} :
    Encodable (sortedBy id [a, b, c]).flatten ↔ Encodable a ∧ Encodable b ∧ Encodable c := by
  simp only [encodable_iff, List.mem_flatten, mem_sortedBy, List.mem_cons, List.not_mem_nil,
    or_false]
  constructor
  · intro h
    exact ⟨fun u hu => h u ⟨a, .inl rfl, hu⟩, fun u hu => h u ⟨b, .inr (.inl rfl), hu⟩,
      fun u hu => h u ⟨c, .inr (.inr rfl), hu⟩⟩
  · rintro ⟨ha, hb, hc⟩ u ⟨t, ht, hu⟩
    rcases ht with rfl | rfl | rfl
    · exact ha u hu
    · exact hb u hu
    · exact hc u hu

section WeChat
variable {hashes : Hashes} {token timestamp nonce signature : CodePoints}

theorem verifyWechatSignature_ok_iff :
    (∃ r, WeChat.verifyWechatSignature hashes.sha1Hex token timestamp nonce signature = .ok r) ↔
      (AuthCall.verifyWechatSignature token timestamp nonce signature).Comparable := by
  rw [AuthCall.Comparable, ← encodable_sorted, ← encode_ok_iff]
  unfold WeChat.verifyWechatSignature
  dsimp only
  cases CodePoints.encode (sortedBy id [token, timestamp, nonce]).flatten with
  | error e => simp
  | ok checkStr =>
    dsimp only
    rw [compareDigest_ok_iff]
    simp [Hashes.sha1Hex, CodePoints.hex_isAscii]

theorem verifyWechatSignature_wrong
    (h : (AuthCall.verifyWechatSignature token timestamp nonce signature).Comparable)
    (hwrong : (AuthCall.verifyWechatSignature token timestamp nonce signature).Wrong hashes) :
    WeChat.verifyWechatSignature hashes.sha1Hex token timestamp nonce signature = .ok false := by
  obtain ⟨hencodable, hascii⟩ := h
  obtain ⟨checkStr, hcheck⟩ := encode_ok_iff.mpr (encodable_sorted.mpr hencodable)
  have hexpected : (hashes.sha1Hex checkStr).isAscii = true := CodePoints.hex_isAscii _
  rw [WeChat.verifyWechatSignature, hcheck]
  dsimp only
  rw [CodePoints.compareDigest_ok hexpected hascii, decide_eq_false (hwrong.2 checkStr hcheck)]

end WeChat

/-! ## Signatures of the connector -/

section Connector
variable {hashes : Hashes} {profile : SignatureProfile} {body : List UInt8} {header : CodePoints}

theorem writeDigest_isAscii (digestEncoding : String) (digest : List UInt8) :
    (Connector.writeDigest digestEncoding digest).isAscii = true := by
  unfold Connector.writeDigest
  split
  · exact Base64.encode_isAscii digest
  · exact CodePoints.hex_isAscii digest

theorem verifyHmacSignature_ok_iff :
    (∃ r, Connector.verifyHmacSignature hashes.hmac profile body header = .ok r) ↔
      (AuthCall.verifyHmacSignature profile body header).Comparable := by
  rw [AuthCall.Comparable]
  unfold Connector.verifyHmacSignature
  by_cases hsecret : profile.secret = []
  · simp [hsecret]
  by_cases hheader : header = []
  · simp [hsecret, hheader]
  rw [if_neg hsecret, if_neg hheader]
  cases Connector.algoMap profile.algorithm with
  | none => simp
  | some hash =>
    dsimp only
    rw [← encode_ok_iff]
    cases CodePoints.encode profile.secret with
    | error e => simp [hsecret, hheader]
    | ok key =>
      dsimp only
      cases hascii : CodePoints.isAscii (Connector.signatureText profile.algorithm header) with
      | true =>
        rw [CodePoints.compareDigest_ok hascii (writeDigest_isAscii _ _)]
        simp [Except.map]
      | false => simp [CodePoints.compareDigest, hascii, Except.map, hsecret, hheader]

/-- What the connector answers to all wrong signatures. -/
def connectorRefusal (profile : SignatureProfile) : AuthVerifyResult :=
  if profile.secret = [] then Connector.refuseSignature "missing_secret"
  else if Connector.algoMap profile.algorithm = none then
    Connector.refuseSignature ("unsupported_algorithm:" ++ profile.algorithm)
  else Connector.refuseSignature "signature_mismatch"

theorem verifyHmacSignature_wrong
    (h : (AuthCall.verifyHmacSignature profile body header).Comparable)
    (hwrong : (AuthCall.verifyHmacSignature profile body header).Wrong hashes) :
    Connector.verifyHmacSignature hashes.hmac profile body header =
      .ok (connectorRefusal profile) := by
  obtain ⟨hheader, hother⟩ := hwrong
  unfold Connector.verifyHmacSignature connectorRefusal
  by_cases hsecret : profile.secret = []
  · rw [if_pos hsecret, if_pos hsecret]
  rw [if_neg hsecret, if_neg hsecret, if_neg hheader]
  cases halgorithm : Connector.algoMap profile.algorithm with
  | none => simp
  | some hash =>
    obtain ⟨hencodable, hascii⟩ := h hsecret hheader (by rw [halgorithm]; exact Option.some_ne_none _)
    obtain ⟨key, hkey⟩ := encode_ok_iff.mpr hencodable
    have hdiffers := hother hash key halgorithm hkey
    simp [hkey, CodePoints.compareDigest_ok hascii (writeDigest_isAscii _ _), hdiffers, Except.map]

end Connector

/-! ## All checks -/

theorem decides_iff (hashes : Hashes) (call : AuthCall) :
    (∃ d, call.decision hashes = some d) ↔ call.Comparable := by
  cases call with
  | verifyHmac cfg recorded now req => exact exists_decision.trans (verifyHmac_ok_iff hashes recorded now)
  | requireAuth cfg recorded now req => exact exists_decision.trans requireAuth_ok_iff
  | resolveTokenInfo ip env s req => exact exists_decision.trans resolveTokenInfo_ok_iff
  | validateToken s now scope value => exact exists_decision.trans validateToken_ok_iff
  | verifyWechatSignature token timestamp nonce signature =>
    exact exists_decision.trans verifyWechatSignature_ok_iff
  | verifyHmacSignature profile body header =>
    exact exists_decision.trans verifyHmacSignature_ok_iff

/-- Wrong credentials that can be compared get one decision. -/
theorem same_decision {hashes : Hashes} {call call' : AuthCall} (hsame : SameCheck call call')
    (hwrong : call.Wrong hashes) (hwrong' : call'.Wrong hashes) (h : call.Comparable)
    (h' : call'.Comparable) : call.decision hashes = call'.decision hashes := by
  cases hsame with
  | verifyHmac =>
    rw [AuthCall.decision, AuthCall.decision, verifyHmac_wrong h hwrong, verifyHmac_wrong h' hwrong']
  | requireAuth =>
    rw [AuthCall.decision, AuthCall.decision, requireAuth_wrong h hwrong,
      requireAuth_wrong h' hwrong']
  | resolveTokenInfo hremote hforwarded htenant =>
    rw [AuthCall.decision, AuthCall.decision, resolveTokenInfo_wrong h hashes hwrong,
      resolveTokenInfo_wrong h' hashes hwrong', loopbackInfo_congr hremote hforwarded htenant]
  | validateToken =>
    rw [AuthCall.decision, AuthCall.decision, validateToken_wrong h hwrong.2,
      validateToken_wrong h' hwrong'.2]
  | verifyWechatSignature =>
    rw [AuthCall.decision, AuthCall.decision, verifyWechatSignature_wrong h hwrong,
      verifyWechatSignature_wrong h' hwrong']
  | verifyHmacSignature =>
    rw [AuthCall.decision, AuthCall.decision, verifyHmacSignature_wrong h hwrong,
      verifyHmacSignature_wrong h' hwrong']

/-- A check decides exactly if what it compares can be compared, and two requests with wrong
credentials get one decision exactly if that is so of both. -/
theorem credentials_decided_iff (hashes : Hashes) :
    (∀ call : AuthCall, (∃ d, call.decision hashes = some d) ↔ call.Comparable) ∧
      ∀ call call' : AuthCall, SameCheck call call' → call.Wrong hashes → call'.Wrong hashes →
        ((∃ d, call.decision hashes = some d ∧ call'.decision hashes = some d) ↔
          call.Comparable ∧ call'.Comparable) := by
  refine ⟨decides_iff hashes, fun call call' hsame hwrong hwrong' => ?_⟩
  constructor
  · rintro ⟨d, hd, hd'⟩
    exact ⟨(decides_iff hashes call).mp ⟨d, hd⟩, (decides_iff hashes call').mp ⟨d, hd'⟩⟩
  · rintro ⟨h, h'⟩
    obtain ⟨d, hd⟩ := (decides_iff hashes call).mpr h
    rw [← same_decision hsame hwrong hwrong' h h']
    exact ⟨d, hd, hd⟩

/-- Hash functions that only keep the lengths of their inputs. -/
def lengthHashes : Hashes where
  hmacSha256 key message := [UInt8.ofNat key.length, UInt8.ofNat message.length]
  hmac _ key message := [UInt8.ofNat key.length, UInt8.ofNat message.length]
  sha1 message := [UInt8.ofNat message.length]

/-- A POST to WeChat's webhook with this signature. -/
def wechatPost (signature : String) : AuthCall :=
  .verifyWechatSignature (CodePoints.ofString "token") (CodePoints.ofString "1700000000")
    (CodePoints.ofString "n1") (CodePoints.ofString signature)

theorem wechatPost_wrong_ff_zz : ∃ d, (wechatPost "ff").decision lengthHashes = some d ∧
    (wechatPost "zz").decision lengthHashes = some d := by
  have hwrong : ∀ signature ∈ ["ff", "zz"], (wechatPost signature).Wrong lengthHashes := by
    intro signature hsignature
    refine ⟨?_, fun checkStr hcheck => ?_⟩
    · revert hsignature signature
      decide
    · cases hcheck
      revert hsignature signature
      decide +kernel
  have hcomparable : ∀ signature ∈ ["ff", "zz"], (wechatPost signature).Comparable := by
    intro signature hsignature
    refine ⟨⟨⟨_, CodePoints.chars?_ofChars _⟩, ⟨_, CodePoints.chars?_ofChars _⟩,
      ⟨_, CodePoints.chars?_ofChars _⟩⟩, ?_⟩
    revert hsignature signature
    decide
  exact ((credentials_decided_iff lengthHashes).2 _ _ .verifyWechatSignature (hwrong _ (by simp))
    (hwrong _ (by simp))).mpr ⟨hcomparable _ (by simp), hcomparable _ (by simp)⟩

/-- One letter outside of ASCII in the query makes the check raise. -/
theorem wechatPost_raises :
    (∃ d, (wechatPost "ff").decision lengthHashes = some d) ∧
      (wechatPost "é").decision lengthHashes = none := by
  refine ⟨⟨.wechat false, ?_⟩, ?_⟩
  · decide +kernel
  · decide +kernel

end OpenClaw.Auth
