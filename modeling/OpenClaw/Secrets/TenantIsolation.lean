import OpenClaw.Foundation.Run
import OpenClaw.Secrets.SecretStore

/-!
# What tenants see of the common dictionary

The key of a tenant's secret names the tenant, and a valid tenant id has no colon, so the tenant can
be read off the key. A secret of the default tenant is under its bare provider id, which may look
like the key of another tenant. Where no call does this, the tenants are isolated from one another.
-/

namespace OpenClaw.Secrets

open Foundation Tenants
set_option autoImplicit false

/-! ## Whose key it is -/

/-- The tenant other than the default one whose keys start like this. -/
def foreignTenant? (key : PyStr) : Option PyStr :=
  if tenantMark.isPrefixOf key then
    let rest := key.drop tenantMark.length
    let tenant := rest.takeWhile fun u => decide (u ≠ 58)
    if tenantIdRe tenant ∧ tenant ≠ defaultTenantId ∧
        colons.isPrefixOf (rest.dropWhile fun u => decide (u ≠ 58)) then
      some tenant
    else none
  else none

def owner (key : PyStr) : PyStr := (foreignTenant? key).getD defaultTenantId

def owns (tenant key : PyStr) : Bool := decide (owner key = tenant)

def scopedKey (tenant providerId : PyStr) : PyStr :=
  if tenant = defaultTenantId then providerId else tenantPrefix tenant ++ providerId

section Keys
variable {t : PyStr}

theorem ne_colon_of_tenantUnit {u : CodeUnit} (h : isTenantUnit u = true) :
    decide (u ≠ (58 : CodeUnit)) = true := by
  apply decide_eq_true
  rintro rfl
  have := isTenantUnit_val h
  simp at this

theorem scan_tenant (h : tenantIdRe t = true) (rest : PyStr) :
    (t ++ colons ++ rest).takeWhile (fun u => decide (u ≠ 58)) = t ∧
      (t ++ colons ++ rest).dropWhile (fun u => decide (u ≠ 58)) = colons ++ rest := by
  have hunits : ∀ u ∈ t, decide (u ≠ (58 : CodeUnit)) = true :=
    fun u hu => ne_colon_of_tenantUnit (tenantIdRe_units h hu)
  have hcolon : colons = [58, 58] := by decide
  rw [List.append_assoc, List.takeWhile_append_of_pos hunits, List.dropWhile_append_of_pos hunits,
    hcolon]
  simp

theorem foreignTenant?_mark (h : tenantIdRe t = true) (hne : t ≠ defaultTenantId) (rest : PyStr) :
    foreignTenant? (tenantPrefix t ++ rest) = some t := by
  have hscan := scan_tenant h rest
  have hkey : tenantPrefix t ++ rest = tenantMark ++ (t ++ colons ++ rest) := by
    simp [tenantPrefix]
  have hmark : tenantMark.isPrefixOf (tenantMark ++ (t ++ colons ++ rest)) = true :=
    List.isPrefixOf_iff_prefix.mpr (List.prefix_append _ _)
  have hcolons : colons.isPrefixOf (colons ++ rest) = true :=
    List.isPrefixOf_iff_prefix.mpr (List.prefix_append _ _)
  rw [hkey, foreignTenant?, if_pos hmark, List.drop_left]
  simp only [hscan.1, hscan.2]
  exact if_pos ⟨h, hne, hcolons⟩

theorem tenantMark_of_foreign {key : PyStr} (h : foreignTenant? key = some t) :
    tenantMark.isPrefixOf key = true := by
  unfold foreignTenant? at h
  split at h
  · assumption
  · cases h

theorem owner_scopedKey (h : tenantIdRe t = true) {providerId : PyStr}
    (hown : t = defaultTenantId → foreignTenant? providerId = none) :
    owner (scopedKey t providerId) = t := by
  unfold scopedKey owner
  split
  · rename_i heq
    rw [hown heq, heq]
    rfl
  · rename_i hne
    rw [foreignTenant?_mark h hne]
    rfl

theorem owner_of_providerOf? (h : tenantIdRe t = true) {key : PyStr}
    (hsome : (SecretStore.providerOf? t key).isSome = true) : owner key = t := by
  unfold SecretStore.providerOf? at hsome
  split at hsome
  · rename_i heq
    split at hsome
    · cases hsome
    · rename_i hmark
      unfold owner
      cases hf : foreignTenant? key with
      | none => exact heq.symm
      | some t' => exact absurd (tenantMark_of_foreign hf) hmark
  · rename_i hne
    split at hsome
    · rename_i hprefix
      obtain ⟨rest, rfl⟩ := List.isPrefixOf_iff_prefix.mp hprefix
      unfold owner
      rw [foreignTenant?_mark h hne]
      rfl
    · cases hsome

end Keys

/-! ## Requests -/

inductive Call where
  | getSecret (providerId : PyStr)
  | setSecret (providerId secret : PyStr)
  | clearSecret (providerId : PyStr)
  | getStatus

inductive Answer where
  | secret (r : Except TenantBoundaryError (Option PyStr))
  | stored (r : Except Raised Unit)
  | cleared (r : Except Raised Bool)
  | status (r : Except TenantBoundaryError (List (PyStr × SecretStatus)))
  deriving DecidableEq

structure Request where
  env : Settings
  tenantId : Option PyStr
  saved : Bool := true
  call : Call

def SecretStore.handle (s : SecretStore) (r : Request) : SecretStore × Answer :=
  match r.call with
  | .getSecret p => (s, .secret (s.getSecret r.env p r.tenantId))
  | .setSecret p secret => (s.setSecret r.env r.saved p secret r.tenantId).map id .stored
  | .clearSecret p => (s.clearSecret r.env r.saved p r.tenantId).map id .cleared
  | .getStatus => (s, .status (s.getStatus r.env r.tenantId))

def Call.providerId? : Call → Option PyStr
  | .getSecret p => some p
  | .setSecret p _ => some p
  | .clearSecret p => some p
  | .getStatus => none

namespace Request

def isFor (tenant : PyStr) (r : Request) : Bool :=
  match resolveTenantId r.env r.tenantId with
  | .ok t => decide (t = tenant)
  | .error _ => false

/-- A call for the default tenant names a provider like the key of another tenant. -/
def crosses (r : Request) : Bool :=
  r.isFor defaultTenantId && r.call.providerId?.any fun p => (foreignTenant? p).isSome

end Request

/-! ## What a request does -/

section Handle
variable {env : Settings} {tenantId : Option PyStr} {t : PyStr}

theorem valid_of_resolve (h : resolveTenantId env tenantId = .ok t) : tenantIdRe t = true := by
  unfold resolveTenantId at h
  split at h
  · exact valid_of_normalizeTenantId h
  · split at h
    · split at h
      · rename_i hnorm
        cases h
        exact valid_of_normalizeTenantId hnorm
      · cases h
        exact tenantIdRe_default
    · cases h
      exact tenantIdRe_default

theorem tenantKey_eq (h : tenantIdRe t = true) (providerId : PyStr) :
    tenantKey env providerId (some t) = .ok (scopedKey t providerId) := by
  have hresolve : resolveTenantId env (some t) = .ok t := normalizeTenantId_of_valid h _
  simp only [tenantKey, hresolve, scopedKey, bind, Except.bind, pure, Except.pure]
  split <;> rfl

theorem keyFor_eq (h : resolveTenantId env tenantId = .ok t) (providerId : PyStr) :
    keyFor env providerId tenantId = .ok (scopedKey t providerId) := by
  simp only [keyFor, h, bind, Except.bind, tenantKey_eq (valid_of_resolve h)]

theorem keyFor_error {e : TenantBoundaryError} (h : resolveTenantId env tenantId = .error e)
    (providerId : PyStr) : keyFor env providerId tenantId = .error e := by
  simp only [keyFor, h, bind, Except.bind]

theorem getSecret_eq (h : resolveTenantId env tenantId = .ok t)
    (hfallback : env.allowLegacyFallback = false) (providerId : PyStr) (s : SecretStore) :
    s.getSecret env providerId tenantId =
      .ok (((s.secrets.get? (scopedKey t providerId)).map Prod.snd).filter (· ≠ [])) := by
  simp only [SecretStore.getSecret, h, tenantKey_eq (valid_of_resolve h), hfallback, bind,
    Except.bind, pure, Except.pure, Bool.false_eq_true, and_false, if_false]
  split
  · rename_i hvalue
    rw [hvalue, Option.filter_some_pos (by simp)]
  · rename_i hvalue
    cases hv : (s.secrets.get? (scopedKey t providerId)).map Prod.snd with
    | none => rfl
    | some v =>
      cases v with
      | nil => rfl
      | cons u us => exact absurd hv (hvalue u us)

theorem setSecret_eq (h : resolveTenantId env tenantId = .ok t) (saved : Bool)
    (providerId secret : PyStr) (s : SecretStore) :
    s.setSecret env saved providerId secret tenantId =
      if secret.strip = [] then (s, .error (.valueError "Secret must be non-empty string"))
      else
        let s := { s with secrets := s.secrets.put (scopedKey t providerId, secret.strip) }
        if saved then (s.save, .ok ()) else (s, .error .saveFailed) := by
  simp only [SecretStore.setSecret, keyFor_eq h]

theorem clearSecret_eq (h : resolveTenantId env tenantId = .ok t) (saved : Bool)
    (providerId : PyStr) (s : SecretStore) :
    s.clearSecret env saved providerId tenantId =
      if (s.secrets.get? (scopedKey t providerId)).isSome then
        let s := { s with secrets := s.secrets.drop (scopedKey t providerId) }
        if saved then (s.save, .ok true) else (s, .error .saveFailed)
      else (s, .ok false) := by
  simp only [SecretStore.clearSecret, keyFor_eq h]

/-- The secrets behind a request for a tenant. -/
theorem handle_secrets {r : Request} (h : resolveTenantId r.env r.tenantId = .ok t)
    (s : SecretStore) :
    (s.handle r).1.secrets = s.secrets ∨
      ∃ p, r.call.providerId? = some p ∧
        ((∃ v, (s.handle r).1.secrets = s.secrets.put (scopedKey t p, v)) ∨
          (s.handle r).1.secrets = s.secrets.drop (scopedKey t p)) := by
  unfold SecretStore.handle
  cases hcall : r.call with
  | getSecret p => exact .inl rfl
  | getStatus => exact .inl rfl
  | setSecret p secret =>
    simp only [setSecret_eq h]
    split
    · exact .inl rfl
    · refine .inr ⟨p, rfl, .inl ⟨secret.strip, ?_⟩⟩
      split <;> rfl
  | clearSecret p =>
    simp only [clearSecret_eq h]
    split
    · refine .inr ⟨p, rfl, .inr ?_⟩
      split <;> rfl
    · exact .inl rfl

theorem handle_unresolved {r : Request} {e : TenantBoundaryError}
    (h : resolveTenantId r.env r.tenantId = .error e) (s : SecretStore) : (s.handle r).1 = s := by
  unfold SecretStore.handle
  cases r.call with
  | getSecret p => rfl
  | getStatus => rfl
  | setSecret p secret =>
    simp only [SecretStore.setSecret, keyFor_error h]
    split <;> rfl
  | clearSecret p => simp only [SecretStore.clearSecret, keyFor_error h, Prod.map, id]

end Handle

/-! ## Isolation -/

/-- The tenant's part of the dictionary. -/
def SecretStore.share (tenant : PyStr) (s : SecretStore) : Secrets :=
  s.secrets.restrict (owns tenant)

/-- The request keeps to keys of its own tenant. -/
def Request.Tidy (r : Request) : Prop := r.env.allowLegacyFallback = false ∧ r.crosses = false

section Isolation
variable {tenant t : PyStr} {r : Request} {s s' : SecretStore}

theorem isFor_iff : r.isFor tenant = true ↔ resolveTenantId r.env r.tenantId = .ok tenant := by
  unfold Request.isFor
  cases resolveTenantId r.env r.tenantId <;> simp

theorem Request.Tidy.owner (h : r.Tidy) (ht : resolveTenantId r.env r.tenantId = .ok t) {p : PyStr}
    (hp : r.call.providerId? = some p) : owner (scopedKey t p) = t := by
  apply owner_scopedKey (valid_of_resolve ht)
  rintro rfl
  have hcross := h.2
  rw [Request.crosses, isFor_iff.mpr ht, hp, Bool.true_and, Option.any_some] at hcross
  exact Option.isSome_eq_false_iff.mp hcross |> Option.isNone_iff_eq_none.mp

theorem share_others (h : r.Tidy) (hother : r.isFor tenant = false) :
    (s.handle r).1.share tenant = s.share tenant := by
  cases ht : resolveTenantId r.env r.tenantId with
  | error e => rw [handle_unresolved ht]
  | ok t =>
    have hne : t ≠ tenant := by
      rintro rfl
      rw [isFor_iff.mpr ht] at hother
      cases hother
    have hown : ∀ p, r.call.providerId? = some p →
        owns tenant (scopedKey t p) = false := by
      intro p hp
      rw [owns, h.owner ht hp]
      exact decide_eq_false hne
    unfold SecretStore.share
    rcases handle_secrets ht s with hs | ⟨p, hp, ⟨v, hs⟩ | hs⟩
    · rw [hs]
    · rw [hs, Table.restrict_put, hown p hp]
      rfl
    · rw [hs, Table.restrict_drop_other (hown p hp)]

theorem share_get? (hview : s.share tenant = s'.share tenant) {key : PyStr}
    (hkey : owner key = tenant) : s.secrets.get? key = s'.secrets.get? key := by
  have hown : owns tenant key = true := decide_eq_true hkey
  unfold SecretStore.share at hview
  rw [← Table.get?_restrict hown, hview, Table.get?_restrict hown]

theorem share_status (hview : s.share tenant = s'.share tenant) (hvalid : tenantIdRe tenant = true)
    (row : PyStr → PyStr × SecretStatus) :
    (s.secrets.rows.filterMap fun kv => (SecretStore.providerOf? tenant kv.1).map row) =
      s'.secrets.rows.filterMap fun kv => (SecretStore.providerOf? tenant kv.1).map row := by
  have hshare : ∀ s : SecretStore,
      (s.share tenant).rows.filterMap (fun kv => (SecretStore.providerOf? tenant kv.1).map row) =
        s.secrets.rows.filterMap fun kv => (SecretStore.providerOf? tenant kv.1).map row := by
    intro s
    rw [SecretStore.share, Table.restrict, List.filterMap_filter]
    congr 1
    funext kv
    split
    · rfl
    · rename_i hother
      cases hp : SecretStore.providerOf? tenant kv.1 with
      | none => rfl
      | some p =>
        have hown : owner kv.1 = tenant := owner_of_providerOf? hvalid (by rw [hp]; rfl)
        exact absurd (decide_eq_true hown) hother
  rw [← hshare s, ← hshare s', hview]

/-- Two stores with the same share give the same answer and keep the same share. -/
theorem handle_own (h : r.Tidy) (hown : r.isFor tenant = true)
    (hview : s.share tenant = s'.share tenant) :
    (s.handle r).1.share tenant = (s'.handle r).1.share tenant ∧
      (s.handle r).2 = (s'.handle r).2 := by
  have ht := isFor_iff.mp hown
  have hkey : ∀ p, r.call.providerId? = some p → owner (scopedKey tenant p) = tenant :=
    fun p hp => h.owner ht hp
  unfold SecretStore.handle
  cases hcall : r.call with
  | getSecret p =>
    have hget := share_get? hview (hkey p (by rw [hcall]; rfl))
    simp only [getSecret_eq ht h.1, hget]
    exact ⟨hview, trivial⟩
  | getStatus =>
    have hstatus := share_status hview (valid_of_resolve ht) fun p => (p, {})
    simp only [SecretStore.getStatus, ht, bind, Except.bind, pure, Except.pure, hstatus]
    exact ⟨hview, trivial⟩
  | setSecret p secret =>
    have hput : (s.secrets.put (scopedKey tenant p, secret.strip)).restrict (owns tenant) =
        (s'.secrets.put (scopedKey tenant p, secret.strip)).restrict (owns tenant) := by
      rw [Table.restrict_put, Table.restrict_put]
      unfold SecretStore.share at hview
      rw [hview]
    simp only [setSecret_eq ht]
    split
    · exact ⟨hview, rfl⟩
    · split
      · exact ⟨hput, rfl⟩
      · exact ⟨hput, rfl⟩
  | clearSecret p =>
    have hget := share_get? hview (hkey p (by rw [hcall]; rfl))
    have hdrop : (s.secrets.drop (scopedKey tenant p)).restrict (owns tenant) =
        (s'.secrets.drop (scopedKey tenant p)).restrict (owns tenant) := by
      rw [Table.restrict_drop, Table.restrict_drop]
      unfold SecretStore.share at hview
      rw [hview]
    simp only [clearSecret_eq ht, hget]
    split
    · split
      · exact ⟨hdrop, rfl⟩
      · exact ⟨hdrop, rfl⟩
    · exact ⟨hview, rfl⟩

theorem isolates (tenant : PyStr) :
    Isolates SecretStore.handle (Request.isFor tenant) Request.Tidy
      fun s s' => s.share tenant = s'.share tenant where
  refl := fun _ => rfl
  symm := fun _ _ => Eq.symm
  trans := fun _ _ _ => Eq.trans
  others := fun _ _ h hother => (share_others h hother).symm
  states := fun _ _ _ h hown hview => (handle_own h hown hview).1
  answers := fun _ _ _ h hown hview => (handle_own h hown hview).2

end Isolation

/-! ## Two runs -/

/-- The run is with the legacy fallback off. -/
def Strict (requests : List Request) : Prop :=
  ∀ r ∈ requests, r.env.allowLegacyFallback = false

/-- A tenant is answered by what was done for it: two runs with the same requests for the tenant
give it the same answers, and a request for another tenant does not change the answer to the
request after it. -/
structure Isolated (s : SecretStore) (requests requests' : List Request) : Prop where
  answers : ∀ tenant,
    requests.filter (Request.isFor tenant) = requests'.filter (Request.isFor tenant) →
    ownAnswers SecretStore.handle (Request.isFor tenant) s requests =
      ownAnswers SecretStore.handle (Request.isFor tenant) s requests'
  undisturbed : ∀ tenant before other own after, requests = before ++ other :: own :: after →
    other.isFor tenant = false → own.isFor tenant = true →
    (((stateAfter SecretStore.handle s before).handle other).1.handle own).2 =
      ((stateAfter SecretStore.handle s before).handle own).2

/-- The tenants are isolated in runs where no request for the default tenant names a provider like
the key of another tenant. -/
theorem isolated_of_not_crosses {s : SecretStore} {requests requests' : List Request}
    (hstrict : Strict requests) (hstrict' : Strict requests')
    (h : ∀ r ∈ requests, r.crosses = false) (h' : ∀ r ∈ requests', r.crosses = false) :
    Isolated s requests requests' := by
  have htidy : ∀ r ∈ requests, r.Tidy := fun r hr => ⟨hstrict r hr, h r hr⟩
  have htidy' : ∀ r ∈ requests', r.Tidy := fun r hr => ⟨hstrict' r hr, h' r hr⟩
  constructor
  · intro tenant hsame
    exact (isolates tenant).ownAnswers_eq htidy htidy' hsame rfl
  · intro tenant before other own after hrun hother hown
    subst hrun
    apply (isolates tenant).answer_after_other (htidy other (by simp)) (htidy own (by simp))
      hother hown

def demoSettings : Settings := ⟨true, [], false⟩

def demoRequest (tenant : String) (call : Call) : Request where
  env := demoSettings
  tenantId := some (PyStr.ofString tenant)
  call := call

def openai : PyStr := PyStr.ofString "openai"

/-- Two tenants that store a secret for the same provider. -/
def tidyRun : List Request :=
  [demoRequest "default" (.setSecret openai (PyStr.ofString "sk-1")),
    demoRequest "alpha" (.setSecret openai (PyStr.ofString "sk-2")),
    demoRequest "default" (.getSecret openai), demoRequest "alpha" .getStatus]

theorem isolated_tidyRun :
    Isolated {} tidyRun (tidyRun.filter (Request.isFor (PyStr.ofString "alpha"))) :=
  isolated_of_not_crosses (by unfold Strict; decide +kernel) (by unfold Strict; decide +kernel)
    (by decide +kernel) (by decide +kernel)

/-- A secret that the default tenant stores for the provider `tenant::alpha::openai`. -/
def crossingRun : List Request :=
  [demoRequest "default" (.setSecret (PyStr.ofString "tenant::alpha::openai")
      (PyStr.ofString "sk-1")),
    demoRequest "alpha" (.getSecret openai)]

/-- Such a secret is what the other tenant reads. -/
theorem getSecret_after_crossing {env : Settings} {t rest secret : PyStr} (ht : tenantIdRe t = true)
    (hne : t ≠ defaultTenantId) (hsecret : secret.strip ≠ []) (s : SecretStore) :
    (s.setSecret env true (tenantPrefix t ++ rest) secret (some defaultTenantId)).1.getSecret
      { env with allowLegacyFallback := false } rest (some t) = .ok (some secret.strip) := by
  have hdefault : resolveTenantId env (some defaultTenantId) = .ok defaultTenantId :=
    normalizeTenantId_of_valid tenantIdRe_default _
  have htenant : resolveTenantId { env with allowLegacyFallback := false } (some t) = .ok t :=
    normalizeTenantId_of_valid ht _
  have hkey : scopedKey t rest = tenantPrefix t ++ rest := if_neg hne
  have hkey' : scopedKey defaultTenantId (tenantPrefix t ++ rest) = tenantPrefix t ++ rest :=
    if_pos rfl
  rw [setSecret_eq hdefault, if_neg hsecret, getSecret_eq htenant rfl, hkey, hkey']
  simp [SecretStore.save, hsecret]

theorem crossingRun_not_isolated : Strict crossingRun ∧
    ¬ Isolated {} crossingRun (crossingRun.filter (Request.isFor (PyStr.ofString "alpha"))) := by
  refine ⟨by unfold Strict; decide +kernel, fun h => ?_⟩
  have hsame := h.answers (PyStr.ofString "alpha") (by simp)
  revert hsame
  decide +kernel

end OpenClaw.Secrets
