import Mathlib.Order.Interval.Set.Defs
import OpenClaw.Access.AccessControl
import OpenClaw.Foundation.Run

/-!
# Issued tokens that should no longer work

A token leaves the registry when it is revoked. `lookup` does not read `expires_at`, so an expired
token keeps its tier and its scopes until it is revoked.
-/

namespace OpenClaw.Access

open Foundation Tenants TokenRegistry
set_option autoImplicit false

/-! ## The registry after a call -/

section Calls
variable {s : TokenRegistry} {input : Input} {secret : PyStr} {info : TokenInfo}

theorem role_unit_of_value : ∀ role role' : AuthTier, role.value.head? = role'.value.head? →
    role = role' := by
  intro role role'
  cases role <;> cases role' <;> decide

/-- The random part of a secret is what it ends with. -/
theorem hex_of_secretOf {role role' : AuthTier} {u u' : Uuid}
    (h : secretOf role u = secretOf role' u') : u.hex = u'.hex := by
  unfold secretOf at h
  rw [List.append_assoc, List.append_assoc, List.append_assoc, List.append_assoc] at h
  have htail := List.append_cancel_left h
  have hne : ∀ r : AuthTier, r.value ≠ [] := by
    intro r
    cases r <;> decide
  have hrole : role = role' := by
    apply role_unit_of_value
    have hhead := congrArg List.head? htail
    rwa [List.head?_append_of_ne_nil _ (hne role), List.head?_append_of_ne_nil _ (hne role')]
      at hhead
  subst hrole
  exact List.append_cancel_left (List.append_cancel_left htail)

theorem secretOf_ascii (role : AuthTier) (u : Uuid) : (secretOf role u).isAscii = true := by
  have hrole : role.value.isAscii = true := by cases role <;> decide
  have hfront : (PyStr.ofString "oc_").isAscii = true ∧ (PyStr.ofString "_").isAscii = true := by
    decide
  have hhex := u.ascii
  unfold PyStr.isAscii at hrole hfront hhex ⊢
  rw [secretOf, List.all_append, List.all_append, List.all_append, hfront.1, hrole, hfront.2, hhex]
  rfl

theorem secretOf_ne_nil (role : AuthTier) (u : Uuid) : secretOf role u ≠ [] := by
  intro h
  cases h

theorem get?_revoke_of_none {tokenId : PyStr} (h : s.get? secret = none) :
    (s.revoke tokenId).1.get? secret = none := by
  rw [TokenRegistry.revoke, Table.get?_foldl_drop, h]
  exact ite_self none

theorem get?_revoke {row : PyStr × TokenInfo} (tokenId : PyStr) (h : s.get? secret = some row) :
    (s.revoke tokenId).1.get? secret = if row.2.tokenId = tokenId then none else some row := by
  have hiff : secret ∈ (s.rows.filter fun row => row.2.tokenId = tokenId).map Prod.fst ↔
      row.2.tokenId = tokenId := by
    rw [List.mem_map]
    constructor
    · rintro ⟨row', hrow', rfl⟩
      obtain ⟨hmem', hid⟩ := List.mem_filter.mp hrow'
      rw [Table.get?_key hmem'] at h
      rw [← Option.some.inj h]
      exact of_decide_eq_true hid
    · intro hid
      refine ⟨row, List.mem_filter.mpr ⟨Table.mem_of_get? h, decide_eq_true hid⟩, ?_⟩
      exact Table.key_of_get? h
  rw [TokenRegistry.revoke, Table.get?_foldl_drop, h]
  by_cases hid : row.2.tokenId = tokenId
  · exact (if_pos (hiff.mpr hid)).trans (if_pos hid).symm
  · exact (if_neg (hiff.not.mpr hid)).trans (if_neg hid).symm

theorem get?_issue {now : ℚ} {secretUuid idUuid : Uuid} {role : AuthTier} {scopes : List PyStr}
    {ttlSeconds : ℤ} {tenantId : PyStr} (hnew : secretOf role secretUuid ≠ secret) :
    (s.issue secretUuid idUuid now role scopes ttlSeconds tenantId).1.get? secret =
      s.get? secret := by
  unfold issue
  cases normalizeTenantId tenantId with
  | error e => rfl
  | ok tenant => exact (Table.get?_put _ _ _).trans (if_neg hnew)

theorem issued_stored (h : (step s input).2 = .issued (.ok (secret, info))) :
    (step s input).1.get? secret = some (secret, info) ∧
      ∃ role, secret = secretOf role input.secretUuid := by
  unfold step at h ⊢
  cases hcall : input.call with
  | revoke tokenId =>
    rw [hcall] at h
    cases h
  | issue role scopes ttlSeconds tenantId =>
    rw [hcall] at h
    dsimp only [Prod.map, id, issue] at h ⊢
    cases htenant : normalizeTenantId tenantId with
    | error e =>
      rw [htenant] at h
      cases h
    | ok tenant =>
      rw [htenant] at h
      obtain ⟨rfl, rfl⟩ := Prod.mk.inj (Except.ok.inj (Answer.issued.inj h))
      refine ⟨?_, role, rfl⟩
      rw [Table.get?_put, if_pos rfl]

variable {row : PyStr × TokenInfo}

theorem step_keeps (h : s.get? secret = some row)
    (hnew : ∀ role, secretOf role input.secretUuid ≠ secret)
    (hcall : input.call ≠ .revoke row.2.tokenId) : (step s input).1.get? secret = some row := by
  unfold step
  cases hc : input.call with
  | issue role scopes ttlSeconds tenantId => exact (get?_issue (hnew role)).trans h
  | revoke tokenId =>
    refine (get?_revoke tokenId h).trans (if_neg ?_)
    rintro rfl
    exact hcall hc

theorem step_revokes (h : s.get? secret = some row) (hcall : input.call = .revoke row.2.tokenId) :
    (step s input).1.get? secret = none := by
  unfold step
  rw [hcall]
  exact (get?_revoke _ h).trans (if_pos rfl)

/-- What is not in the registry does not come back under the same secret. -/
theorem step_absent (h : s.get? secret = none)
    (hnew : ∀ role, secretOf role input.secretUuid ≠ secret) :
    (step s input).1.get? secret = none := by
  unfold step
  cases input.call with
  | issue role scopes ttlSeconds tenantId => exact (get?_issue (hnew role)).trans h
  | revoke tokenId => exact get?_revoke_of_none h

end Calls

/-! ## Requests with a stale token -/

section Requests
variable (ip : IpAddress) (env : Environment) (s : TokenRegistry) (req : Request)

def staticTokens : List PyStr := [adminToken env, obsToken env]

/-- No token is found, and every tier above `PUBLIC` and every list of scopes is refused. -/
structure Refused : Prop where
  unresolved : resolveTokenInfo ip env s req = .ok none
  tiers : ∀ tier, tier ≠ .everyone → ∃ e, verifyTierAccess ip env s req tier = .ok (.refused e)
  scopes : ∀ scopes, scopes ≠ [] → ∃ e, verifyScopeAccess ip env s req scopes = .ok (.refused e)

variable {ip env s req}

theorem refused_of_unresolved (hremote : isLoopback ip (getClientIp ip env req) = false)
    (h : resolveTokenInfo ip env s req = .ok none) : Refused ip env s req := by
  refine ⟨h, fun tier htier => ?_, fun scopes hscopes => ?_⟩
  · unfold verifyTierAccess getCurrentAuthTier
    rw [h]
    cases tier with
    | everyone => exact absurd rfl htier
    | internal =>
      refine ⟨PyStr.ofString "Internal (Loopback) access required.", congrArg Except.ok ?_⟩
      exact if_neg (fun hloopback => absurd (hremote.symm.trans hloopback) Bool.false_ne_true)
    | admin => exact ⟨_, rfl⟩
    | observability => exact ⟨_, rfl⟩
    | webhook => exact ⟨_, rfl⟩
    | bridge => exact ⟨_, rfl⟩
  · unfold verifyScopeAccess
    rw [if_neg hscopes, h]
    exact ⟨_, rfl⟩

theorem matchesStatic_of_ne {configured client : PyStr} (hclient : client.isAscii = true)
    (hne : client ≠ configured) (hempty : client ≠ []) : matchesStatic configured client =
      if configured.isAscii = true then .ok false else .error .nonAscii := by
  unfold matchesStatic compareDigest
  by_cases hconfigured : configured = []
  · subst hconfigured
    rfl
  · rw [if_pos ⟨hconfigured, hempty⟩, hclient, decide_eq_false hne]
    cases configured.isAscii <;> rfl

/-- A token that is not static finds nobody from a remote address exactly when it is not in the
registry and the static tokens can be compared with it. -/
theorem resolve_remote_iff (hascii : req.clientToken.isAscii = true) (hempty : req.clientToken ≠ [])
    (hstatic : req.clientToken ∉ staticTokens env)
    (hremote : isLoopback ip (getClientIp ip env req) = false) :
    resolveTokenInfo ip env s req = .ok none ↔
      s.get? req.clientToken = none ∧ ∀ token ∈ staticTokens env, token.isAscii = true := by
  have hadmin : req.clientToken ≠ adminToken env := fun h => hstatic (h ▸ List.mem_cons_self)
  have hobs : req.clientToken ≠ obsToken env := fun h => hstatic (h ▸ by simp [staticTokens])
  have hloopback : loopbackInfo ip env req = none := if_pos hremote
  have htokens : (∀ token ∈ staticTokens env, token.isAscii = true) ↔
      (adminToken env).isAscii = true ∧ (obsToken env).isAscii = true := by simp [staticTokens]
  unfold resolveTokenInfo
  dsimp only
  rw [if_pos hempty, lookup, htokens]
  cases hget : s.get? req.clientToken with
  | some row => exact ⟨fun h => (nomatch h), fun h => (nomatch h.1)⟩
  | none =>
    rw [Option.map_none, matchesStatic_of_ne hascii hadmin hempty,
      matchesStatic_of_ne hascii hobs hempty, hloopback]
    cases (adminToken env).isAscii <;> cases (obsToken env).isAscii <;> simp

end Requests

/-! ## Runs -/

section Runs
variable (ip : IpAddress) (inp : ℕ → Input)

abbrev registryAt (k : ℕ) : TokenRegistry := run step .empty inp k

def IssuedAt (j : ℕ) (secret : PyStr) (info : TokenInfo) : Prop :=
  answer step .empty inp j = .issued (.ok (secret, info))

/-- A call between the `j`-th and the `k`-th revokes the token. -/
def Revoked (j k : ℕ) (info : TokenInfo) : Prop :=
  ∃ i, j < i ∧ i < k ∧ (inp i).call = .revoke info.tokenId

/-- Before the `k`-th call, at the time `now`, a request from a remote address presents the token
that the `j`-th call issued; it is no static token, and it is revoked or expired. -/
structure Stale (k : ℕ) (env : Environment) (req : Request) (now : ℚ) (j : ℕ) (info : TokenInfo) :
    Prop where
  before : j < k
  issued : IssuedAt inp j req.clientToken info
  stale : Revoked inp j k info ∨ ∃ t, info.expiresAt = some t ∧ t < now
  notStatic : req.clientToken ∉ staticTokens env
  remote : isLoopback ip (getClientIp ip env req) = false

variable {ip inp}

theorem get?_issuedAt {j k : ℕ} {secret : PyStr} {info : TokenInfo}
    (hfresh : Set.InjOn (fun i => (inp i).secretUuid.hex) (Set.Iio k))
    (h : IssuedAt inp j secret info) (hk : j < k) :
    (Revoked inp j k info → (registryAt inp k).get? secret = none) ∧
      (¬ Revoked inp j k info → (registryAt inp k).get? secret = some (secret, info)) := by
  obtain ⟨hstored, role, hsecret⟩ := issued_stored h
  have hnew : ∀ i, j < i → i < k → ∀ role', secretOf role' (inp i).secretUuid ≠ secret := by
    intro i hi hik role' heq
    have hij : i = j := hfresh hik hk (hex_of_secretOf (heq.trans hsecret))
    omega
  clear hfresh
  induction k, hk using Nat.le_induction with
  | base => exact ⟨fun ⟨i, hi, hi', _⟩ => absurd hi (by omega), fun _ => hstored⟩
  | succ k hk ih =>
    have ih := ih fun i hi hik => hnew i hi (by omega)
    have hnew := hnew k hk (by omega)
    by_cases hrevoked : Revoked inp j k info
    · have hnone := step_absent (ih.1 hrevoked) hnew
      obtain ⟨i, hi, hi', hcall⟩ := hrevoked
      exact ⟨fun _ => hnone, fun h => absurd ⟨i, hi, by omega, hcall⟩ h⟩
    · have hkept := ih.2 hrevoked
      by_cases hcall : (inp k).call = .revoke info.tokenId
      · exact ⟨fun _ => step_revokes hkept hcall, fun h => absurd ⟨k, hk, by omega, hcall⟩ h⟩
      · refine ⟨fun ⟨i, hi, hi', hcall'⟩ => ?_, fun _ => step_keeps hkept hnew hcall⟩
        have hik : i < k ∨ i = k := by omega
        rcases hik with hik | rfl
        · exact absurd ⟨i, hi, hik, hcall'⟩ hrevoked
        · exact absurd hcall' hcall

/-- Requests with a stale token are refused exactly when every such token has been revoked and the
static tokens are ASCII. -/
theorem stale_refused_iff {k : ℕ}
    (hfresh : Set.InjOn (fun i => (inp i).secretUuid.hex) (Set.Iio k)) (env : Environment)
    (req : Request) (now : ℚ) :
    (∀ j info, Stale ip inp k env req now j info → Refused ip env (registryAt inp k) req) ↔
      ∀ j info, Stale ip inp k env req now j info →
        Revoked inp j k info ∧ ∀ token ∈ staticTokens env, token.isAscii = true := by
  have hiff : ∀ j info, Stale ip inp k env req now j info →
      (Refused ip env (registryAt inp k) req ↔
        Revoked inp j k info ∧ ∀ token ∈ staticTokens env, token.isAscii = true) := by
    intro j info h
    obtain ⟨_, role, hsecret⟩ := issued_stored h.issued
    have hresolve := resolve_remote_iff (s := registryAt inp k)
      (hsecret ▸ secretOf_ascii role _) (hsecret ▸ secretOf_ne_nil role _) h.notStatic h.remote
    obtain ⟨hgone, hkept⟩ := get?_issuedAt hfresh h.issued h.before
    have hregistry : (registryAt inp k).get? req.clientToken = none ↔ Revoked inp j k info := by
      constructor
      · intro hnone
        by_contra hrevoked
        rw [hkept hrevoked] at hnone
        cases hnone
      · exact hgone
    rw [← hregistry, ← hresolve]
    exact ⟨Refused.unresolved, refused_of_unresolved h.remote⟩
  exact forall_congr' fun j => forall_congr' fun info => ⟨fun h hs => (hiff j info hs).mp (h hs),
    fun h hs => (hiff j info hs).mpr (h hs)⟩

/-! ## A token of one minute -/

def octet? (part : PyStr) : Option ℕ :=
  if part ≠ [] ∧ part.all (fun u => decide (48 ≤ u.val ∧ u.val ≤ 57)) = true then
    some (part.foldl (fun n u => 10 * n + (u.val - 48)) 0)
  else none

def ipv4 : IpAddress where
  Address := List ℕ
  Network := List ℕ
  ipAddress text := ((text.splitOn 46).mapM octet?).filter fun address =>
    decide (address.length = 4) && address.all fun n => decide (n ≤ 255)
  ofAddress address := address
  ipNetwork _ := none
  isLoopback address := decide (address.head? = some 127)
  contains net address := decide (net = address)

def uuidAt (k : ℕ) : Uuid where
  hex := List.replicate 31 48 ++ [if k = 0 then 48 else 49]
  ascii := by
    split <;> decide

/-- A token of one minute is issued and, if so asked, revoked. -/
def minuteToken (revoked : Bool) (k : ℕ) : Input where
  secretUuid := uuidAt k
  idUuid := uuidAt k
  now := 1000
  call :=
    if k = 0 then .issue .admin [PyStr.ofString "*"] 60 defaultTenantId
    else .revoke (PyStr.ofString (if revoked then "kid-00000000" else ""))

def minuteInfo : TokenInfo where
  tokenId := PyStr.ofString "kid-00000000"
  role := .admin
  scopes := [PyStr.ofString "*"]
  createdAt := 1000
  expiresAt := some 1060

/-- From a public address, with the token in the admin header. -/
def remoteRequest : Request where
  headers name :=
    if name = PyStr.ofString "X-OpenClaw-Admin-Token" then
      some (PyStr.ofString "oc_admin_00000000000000000000000000000000")
    else none
  remote := PyStr.ofString "203.0.113.7"

theorem minuteToken_issued (revoked : Bool) :
    IssuedAt (minuteToken revoked) 0 remoteRequest.clientToken minuteInfo := by
  unfold IssuedAt
  cases revoked <;> decide +kernel

theorem remoteRequest_outside : remoteRequest.clientToken ∉ staticTokens (fun _ => none) ∧
    isLoopback ipv4 (getClientIp ipv4 (fun _ => none) remoteRequest) = false := by
  decide +kernel

theorem stale_refused_revoked :
    Refused ipv4 (fun _ => none) (registryAt (minuteToken true) 2) remoteRequest := by
  have hfresh : Set.InjOn (fun i => (minuteToken true i).secretUuid.hex) (Set.Iio 2) := by
    intro i hi j hj hij
    have hlast : (if i = 0 then 48 else 49 : CodeUnit) = if j = 0 then 48 else 49 := by
      simpa [minuteToken, uuidAt] using hij
    rw [Set.mem_Iio] at hi hj
    by_cases hzero : i = 0 <;> by_cases hzero' : j = 0
    · omega
    · rw [if_pos hzero, if_neg hzero'] at hlast
      cases hlast
    · rw [if_neg hzero, if_pos hzero'] at hlast
      cases hlast
    · omega
  have hrevoked : ∀ j info, Stale ipv4 (minuteToken true) 2 (fun _ => none) remoteRequest 2000 j info →
      Revoked (minuteToken true) j 2 info ∧
        ∀ token ∈ staticTokens fun _ => none, token.isAscii = true := by
    intro j info h
    have hj : j = 0 ∨ j = 1 := by have := h.before; omega
    rcases hj with rfl | rfl
    · obtain ⟨-, rfl⟩ := Prod.mk.inj (Except.ok.inj (Answer.issued.inj
        (h.issued.symm.trans (minuteToken_issued true))))
      exact ⟨⟨1, by omega, by omega, rfl⟩, by decide +kernel⟩
    · cases h.issued
  exact (stale_refused_iff hfresh (fun _ => none) remoteRequest 2000).mpr hrevoked 0 minuteInfo
    ⟨by omega, minuteToken_issued true, .inr ⟨1060, rfl, by decide⟩,
      remoteRequest_outside.1, remoteRequest_outside.2⟩

/-- Long after its minute the token is that of an administrator. -/
theorem expired_not_refused :
    Stale ipv4 (minuteToken false) 2 (fun _ => none) remoteRequest 2000 0 minuteInfo ∧
      ¬ Refused ipv4 (fun _ => none) (registryAt (minuteToken false) 2) remoteRequest ∧
      verifyTierAccess ipv4 (fun _ => none) (registryAt (minuteToken false) 2) remoteRequest .admin =
        .ok .granted := by
  obtain ⟨hgranted, hresolve⟩ :
      verifyTierAccess ipv4 (fun _ => none) (registryAt (minuteToken false) 2) remoteRequest .admin =
        .ok .granted ∧
      resolveTokenInfo ipv4 (fun _ => none) (registryAt (minuteToken false) 2) remoteRequest =
        .ok (some minuteInfo) := by
    decide +kernel
  refine ⟨⟨by omega, minuteToken_issued false, .inr ⟨1060, rfl, by decide⟩, remoteRequest_outside.1,
    remoteRequest_outside.2⟩, fun h => ?_, hgranted⟩
  rw [h.unresolved] at hresolve
  cases hresolve

end Runs

end OpenClaw.Access
