import OpenClaw.Foundation.Run
import OpenClaw.Installations.InstallationRegistry
import OpenClaw.Secrets.TenantIsolation

/-!
# Tenants and their installations

An upsert looks for its installation id among the records of all tenants and does not ask whose
record it finds. A token reference is a provider id for the secret store, where the default tenant
can name the key of another tenant.
-/

namespace OpenClaw.Installations

open Foundation Tenants Secrets
set_option autoImplicit false

variable {φ : Type} (py : PyInterpreter φ)

/-- The reference leads to a secret that is stored for the tenant. -/
def OwnSecret (secrets : SecretStore) (tenantId ref : PyStr) : Prop :=
  owner (scopedKey tenantId ref) = tenantId ∧
    ∃ v, v ≠ [] ∧ secrets.secrets.get? (scopedKey tenantId ref) = some (scopedKey tenantId ref, v)

/-- An upsert leaves the records of other tenants, and what is resolved belongs to the tenant. -/
structure KeepsTenants (s : ConnectorInstallationRegistry φ) (input : Input φ) : Prop where
  upsert : ∀ args tenantId, input.call = .upsert args → normalizeTenant args.tenantId = .ok tenantId →
    ∀ i inst, s.installations.get? i = some inst → inst.tenantId ≠ tenantId →
      (step py s input).1.installations.get? i = some inst
  resolve : ∀ p w t r, input.call = .resolve p w t → (step py s input).2 = .resolution (.ok r) →
    r.ok = true → ∃ inst, r.installation = some inst ∧
      ConnectorInstallationRegistry.resolveTenant input.env t = .ok inst.tenantId ∧
      ∀ row ∈ inst.tokenRefs.rows, OwnSecret s.secretStore inst.tenantId row.2

/-- The references that a record of the tenant may have. -/
def TidyRefs (tenantId : PyStr) (refs : Refs) : Prop :=
  tenantId = defaultTenantId → ∀ row ∈ refs.rows, foreignTenant? row.2 = none

/-- An upsert finds no record of another tenant under its id and brings no reference that reads like
the key of another tenant, and no secret is resolved with the legacy fallback. -/
def OwnRecords (s : ConnectorInstallationRegistry φ) (input : Input φ) : Prop :=
  match input.call with
  | .upsert args => ∀ tenantId, normalizeTenant args.tenantId = .ok tenantId →
    (∀ inst, s.installations.get? args.installationId.strip = some inst →
      inst.tenantId = tenantId) ∧ TidyRefs tenantId args.tokenRefs
  | .resolve _ _ _ => input.env.allowLegacyFallback = false
  | _ => True

structure TidyRecord (inst : ConnectorInstallation φ) : Prop where
  valid : tenantIdRe inst.tenantId = true
  refs : TidyRefs inst.tenantId inst.tokenRefs

/-- The records in memory and in the file. -/
structure TidyRegistry (s : ConnectorInstallationRegistry φ) : Prop where
  memory : ∀ inst ∈ s.installations.rows, TidyRecord inst
  file : ∀ saved, s.file = some saved → ∀ inst ∈ saved.1.rows, TidyRecord inst

section Refs
variable {env : Settings} {io : Io φ}

theorem foreignTenant?_stored (text : PyStr) :
    foreignTenant? (PyStr.ofString "connector_installation:" ++ text) = none := by
  have hmark : tenantMark.isPrefixOf (PyStr.ofString "connector_installation:" ++ text) = false := by
    have hcons : PyStr.ofString "connector_installation:" =
        99 :: PyStr.ofString "onnector_installation:" := by decide
    have hmark : tenantMark = 116 :: PyStr.ofString "enant::" := by decide
    rw [hcons, hmark, List.cons_append, List.isPrefixOf_cons_cons]
    rfl
  rw [foreignTenant?, hmark]
  rfl

/-- The references that are added do not read like the key of a tenant. -/
theorem storeTokenRefs_tidy {installationId tenantId t : PyStr} {n : ℕ}
    {values : List (PyStr × PyStr)} {secrets secrets' : SecretStore} {refs refs' : Refs}
    (h : storeTokenRefs env io installationId tenantId n values secrets refs = (secrets', .ok refs'))
    (hrefs : TidyRefs t refs) : TidyRefs t refs' := by
  induction values generalizing n secrets refs with
  | nil =>
    cases h
    exact hrefs
  | cons kv values ih =>
    unfold storeTokenRefs at h
    split at h
    · cases h
    · split at h
      · cases h
      · dsimp only at h
        split at h
        · cases h
        · apply ih h
          intro ht row hrow
          rcases Table.mem_put hrow with rfl | hrow
          · exact foreignTenant?_stored _
          · exact hrefs ht row hrow

theorem valid_of_normalizeTenant {raw t : PyStr} (h : normalizeTenant raw = .ok t) :
    tenantIdRe t = true := by
  unfold normalizeTenant at h
  cases hn : normalizeTenantId raw with
  | error e =>
    rw [hn] at h
    cases h
  | ok t' =>
    rw [hn] at h
    cases h
    exact valid_of_normalizeTenantId hn

theorem ownSecret_of_not_stale {tenantId : PyStr} {secrets : SecretStore}
    (hfallback : env.allowLegacyFallback = false) (hvalid : tenantIdRe tenantId = true)
    {rows : List (PyStr × PyStr)}
    (htidy : tenantId = defaultTenantId → ∀ row ∈ rows, foreignTenant? row.2 = none)
    (h : ConnectorInstallationRegistry.staleRef? env tenantId secrets rows = .ok none) :
    ∀ row ∈ rows, OwnSecret secrets tenantId row.2 := by
  induction rows with
  | nil => exact fun _ hrow => nomatch hrow
  | cons first rows ih =>
    have hresolve : resolveTenantId env (some tenantId) = .ok tenantId :=
      normalizeTenantId_of_valid hvalid _
    unfold ConnectorInstallationRegistry.staleRef? at h
    rw [getSecret_eq hresolve hfallback] at h
    split at h
    · cases h
    · rename_i u us hvalue
      intro row hrow
      rcases List.mem_cons.mp hrow with rfl | hrow
      · refine ⟨owner_scopedKey hvalid fun ht => htidy ht _ List.mem_cons_self, u :: us, ?_, ?_⟩
        · exact List.cons_ne_nil u us
        · obtain ⟨hmap, _⟩ := Option.filter_eq_some_iff.mp (Except.ok.inj hvalue)
          obtain ⟨kv, hget, hv⟩ := Option.map_eq_some_iff.mp hmap
          have hkey : kv.1 = scopedKey tenantId _ := Table.key_of_get? hget
          rw [hget, ← hkey, ← hv]
      · exact ih (fun ht row hrow => htidy ht row (List.mem_cons_of_mem _ hrow)) h row hrow
    · cases h

end Refs

/-! ## One call -/

section Step
variable {py} {s : ConnectorInstallationRegistry φ} {io : Io φ} {inst : ConnectorInstallation φ}

open ConnectorInstallationRegistry

theorem TidyRegistry.secrets (h : TidyRegistry s) (secretStore : SecretStore) :
    TidyRegistry { s with secretStore } := ⟨h.memory, h.file⟩

theorem TidyRegistry.commit (h : TidyRegistry s) (hinst : TidyRecord inst) (now : ℚ)
    (action : String) (details : List (String × Json φ)) :
    TidyRegistry (s.commit io now action details inst).1 := by
  have hput : ∀ inst' ∈ (s.installations.put inst).rows, TidyRecord inst' := by
    intro inst' hmem
    rcases Table.mem_put hmem with rfl | hmem
    · exact hinst
    · exact h.memory inst' hmem
  unfold ConnectorInstallationRegistry.commit
  dsimp only
  split
  · refine ⟨hput, ?_⟩
    rintro saved ⟨⟩
    exact hput
  · exact ⟨hput, h.file⟩

theorem TidyRegistry.get? (h : TidyRegistry s) {i : PyStr}
    (hget : s.installations.get? i = some inst) : TidyRecord inst :=
  h.memory inst (Table.mem_of_get? hget)

theorem transition_tidy (h : TidyRegistry s) (n : ℕ) (raw status reason : PyStr) (action : String) :
    TidyRegistry (s.transition io n raw status reason action).1 := by
  unfold transition
  split
  · exact h
  · rename_i inst hget
    have hold := h.get? hget
    apply h.commit
    exact ⟨hold.valid, hold.refs⟩

theorem updateHealth_tidy (h : TidyRegistry s) (n : ℕ) (raw healthCode reason : PyStr)
    (details : List (PyStr × Json φ)) :
    TidyRegistry (s.updateInstallationHealth py io n raw healthCode reason details).1 := by
  unfold updateInstallationHealth
  split
  · exact h
  · rename_i inst hget
    have hold := h.get? hget
    apply h.commit
    exact ⟨hold.valid, hold.refs⟩

theorem transitionWithHealth_tidy (h : TidyRegistry s)
    (raw status reason healthCode healthReason : PyStr) (action : String) :
    TidyRegistry
      (s.transitionWithHealth py io raw status reason action healthCode healthReason).1 := by
  have hfirst : TidyRegistry (s.transition io 0 raw status reason action).1 :=
    transition_tidy h 0 raw status reason action
  unfold transitionWithHealth
  split
  · rename_i heq
    rwa [heq] at hfirst
  · rename_i heq
    rw [heq] at hfirst
    exact updateHealth_tidy hfirst _ _ _ _ _

theorem load_tidy (h : TidyRegistry s) (startup : SecretStore.Startup) (readable : Bool) :
    TidyRegistry (s.load startup readable) := by
  have hnone : ∀ inst ∈ (Table.empty : InstallationTable φ).rows, TidyRecord inst :=
    fun _ hmem => nomatch hmem
  unfold load
  cases hfile : s.file with
  | none => exact ⟨hnone, fun _ hsaved => (nomatch hsaved)⟩
  | some saved =>
    have hkept := h.file saved hfile
    dsimp only
    split
    · constructor
      · exact fun inst hmem => hkept inst (List.mem_filter.mp hmem).1
      · rintro _ ⟨⟩
        exact hkept
    · constructor
      · exact hnone
      · rintro _ ⟨⟩
        exact hkept

theorem upsertedRecord_tidy {secrets secrets' : SecretStore} {now : ℚ} {p t w i status : PyStr}
    {refs : Refs} {args : UpsertArgs φ} {env : Settings}
    (ht : normalizeTenant args.tenantId = .ok t)
    (hrefs : storeTokenRefs env io i t 0 args.tokenValues secrets args.tokenRefs =
      (secrets', .ok refs))
    {existing : Option (ConnectorInstallation φ)}
    (hexisting : ∀ inst, existing = some inst → TidyRecord inst ∧ inst.tenantId = t)
    (hargs : TidyRefs t args.tokenRefs) :
    TidyRecord (upsertedRecord now p t w i refs status args existing) := by
  have hstored := storeTokenRefs_tidy hrefs hargs
  refine ⟨valid_of_normalizeTenant ht, ?_⟩
  unfold upsertedRecord
  dsimp only
  cases existing with
  | none => exact hstored
  | some inst =>
    obtain ⟨htidy, htenant⟩ := hexisting inst rfl
    dsimp only
    split
    · rw [← htenant]
      exact htidy.refs
    · exact hstored

theorem step_tidy (h : TidyRegistry s) {input : Input φ} (hown : OwnRecords s input) :
    TidyRegistry (step py s input).1 := by
  unfold step
  unfold OwnRecords at hown
  cases hcall : input.call with
  | resolve p w t => exact h
  | get raw t => exact h
  | list filters => exact h
  | auditTrail raw t limit => exact h
  | reload startup readable => exact load_tidy h startup readable
  | deactivate raw reason => exact transition_tidy h _ _ _ _ _
  | revoke raw reason => exact transitionWithHealth_tidy h _ _ _ _ _ _
  | activate raw reason => exact transitionWithHealth_tidy h _ _ _ _ _ _
  | updateHealth raw healthCode reason details => exact updateHealth_tidy h _ _ _ _ _
  | uninstall raw reason =>
    dsimp only [uninstallInstallation, Prod.map]
    split
    · exact h
    · rename_i inst hget
      have hold := h.get? hget
      split
      · exact h.secrets _
      · apply (h.secrets _).commit
        exact ⟨hold.valid, hold.refs⟩
  | rotate raw values reason =>
    dsimp only [rotateInstallationTokens, Prod.map]
    split
    · exact h
    · rename_i inst hget
      have hold := h.get? hget
      split
      · exact h.secrets _
      · rename_i hrefs
        apply (h.secrets _).commit
        exact ⟨hold.valid, storeTokenRefs_tidy hrefs hold.refs⟩
  | upsert args =>
    rw [hcall] at hown
    dsimp only [Prod.map]
    rcases upsert_cases py input.env input.io args s with
      ⟨secretStore, e, hrun⟩ | ⟨secretStore, p, t, w, refs, status, details, ht, hrefs, hrun⟩
    · rw [hrun]
      exact h.secrets secretStore
    · obtain ⟨htenant, hargs⟩ := hown t ht
      rw [hrun]
      apply (h.secrets secretStore).commit
      exact upsertedRecord_tidy ht hrefs (fun inst hget => ⟨h.get? hget, htenant inst hget⟩) hargs

theorem step_keepsTenants (h : TidyRegistry s) {input : Input φ} (hown : OwnRecords s input)
    (hmulti : input.env.multiTenant = true) : KeepsTenants py s input := by
  unfold OwnRecords at hown
  constructor
  · intro args tenantId hcall htenant i inst hget hother
    rw [hcall] at hown
    unfold step
    rw [hcall]
    dsimp only [Prod.map, id]
    rcases upsert_cases py input.env input.io args s with
      ⟨secretStore, e, hrun⟩ | ⟨secretStore, p, t, w, refs, status, details, _, _, hrun⟩
    · rw [hrun]
      exact hget
    · have hne : args.installationId.strip ≠ i := by
        rintro rfl
        exact hother ((hown tenantId htenant).1 inst hget)
      rw [hrun, commit_installations, Table.get?_put]
      exact (if_neg hne).trans hget
  · intro p w t r hcall hanswer hok
    rw [hcall] at hown
    have hresolve : s.resolveInstallation py input.env p w t = .ok r := by
      unfold step at hanswer
      rw [hcall] at hanswer
      injection hanswer
    obtain ⟨inst, hinst, hresolved⟩ := resolve_ok hresolve hok
    have htidy := h.memory inst hresolved.stored
    exact ⟨inst, hinst, hresolved.tenant hmulti,
      ownSecret_of_not_stale hown htidy.valid htidy.refs hresolved.refs⟩

/-- An upsert that returns has put its tenant's record under the id, whosever it was before. -/
theorem upsert_takes {env : Settings} {args : UpsertArgs φ} {inst : ConnectorInstallation φ}
    (h : (s.upsertInstallation py env io args).2 = .ok inst) :
    normalizeTenant args.tenantId = .ok inst.tenantId ∧
      (s.upsertInstallation py env io args).1.installations.get? args.installationId.strip =
        some inst := by
  rcases upsert_cases py env io args s with
    ⟨secretStore, e, hrun⟩ | ⟨secretStore, p, t, w, refs, status, details, ht, _, hrun⟩
  · rw [hrun] at h
    cases h
  · rw [hrun] at h ⊢
    have hinst : upsertedRecord (io.now 0) p t w args.installationId.strip refs status args
        (s.installations.get? args.installationId.strip) = inst := by
      unfold ConnectorInstallationRegistry.commit at h
      dsimp only at h
      split at h
      · exact Except.ok.inj h
      · cases h
    rw [commit_installations, Table.get?_put, ← hinst]
    exact ⟨ht, if_pos rfl⟩

end Step

/-! ## Runs -/

section Runs
variable (secrets : SecretStore) (inp : ℕ → Input φ)

/-- The registry before the `k`-th call; it starts empty, over any secret store. -/
abbrev registryBefore (k : ℕ) : ConnectorInstallationRegistry φ :=
  run (step py) { secretStore := secrets } inp k

variable {py secrets inp}

/-- In a run with multi-tenancy where every upsert finds no record of another tenant and brings no
reference to another tenant's key, and nothing is resolved with the legacy fallback, the tenants are
kept apart at every call. -/
theorem tenants_kept (hmulti : ∀ k, (inp k).env.multiTenant = true)
    (hown : ∀ k, OwnRecords (registryBefore py secrets inp k) (inp k)) (k : ℕ) :
    KeepsTenants py (registryBefore py secrets inp k) (inp k) := by
  have hstart : TidyRegistry (registryBefore py secrets inp 0) :=
    ⟨fun _ hmem => (nomatch hmem), fun _ hsaved => (nomatch hsaved)⟩
  have htidy : ∀ k, 0 ≤ k → TidyRegistry (registryBefore py secrets inp k) :=
    run_invariant hstart fun k _ h => step_tidy h (hown k)
  exact step_keepsTenants (htidy k (Nat.zero_le k)) (hown k) (hmulti k)

end Runs

/-! ## An upsert over the record of another tenant -/

def tenantInterpreter : PyInterpreter Unit where
  floatTruthy := fun _ => true
  floatStr := fun _ => []
  containerStr := fun _ => []
  lower := fun s => s.map lowerUnit

def tenantInput (call : Call Unit) : Input Unit where
  env := ⟨true, [], false⟩
  io := { now := fun n => n, float := fun _ => () }
  call := call

def upsertFor (tenant workspace : String) (refs : Refs) : Call Unit :=
  .upsert {
    platform := PyStr.ofString "slack"
    tenantId := PyStr.ofString tenant
    workspaceId := PyStr.ofString workspace
    installationId := PyStr.ofString ("inst-" ++ workspace)
    tokenValues := if refs.rows = [] then [(PyStr.ofString "bot", PyStr.ofString "xoxb")] else []
    tokenRefs := refs
    status := InstallationStatus.active }

def resolveFor (tenant workspace : String) : Call Unit :=
  .resolve (PyStr.ofString "slack") (PyStr.ofString workspace) (some (PyStr.ofString tenant))

/-- Two tenants with an installation each. -/
def separateRun : ℕ → Input Unit
  | 0 => tenantInput (upsertFor "beta" "T1" .empty)
  | 1 => tenantInput (upsertFor "alpha" "T2" .empty)
  | _ => tenantInput (resolveFor "beta" "T1")

theorem tenants_kept_separate :
    KeepsTenants tenantInterpreter (registryBefore tenantInterpreter {} separateRun 1)
      (separateRun 1) := by
  apply tenants_kept
  · rintro (_ | _ | k) <;> rfl
  · rintro (_ | _ | k)
    · intro t _
      exact ⟨fun _ hget => (nomatch hget), fun _ _ hrow => (nomatch hrow)⟩
    · intro t _
      refine ⟨fun inst hget => ?_, fun _ _ hrow => (nomatch hrow)⟩
      have hnone : (registryBefore tenantInterpreter {} separateRun 1).installations.get?
          (PyStr.ofString "inst-T2").strip = none := by decide +kernel
      exact absurd (hnone.symm.trans hget) (by simp)
    · rfl

/-- `alpha` upserts the installation of `beta`, and the default tenant refers to its token. -/
def takenRun : ℕ → Input Unit
  | 0 => tenantInput (upsertFor "beta" "T1" .empty)
  | 1 => tenantInput (upsertFor "default" "T2" (Table.empty.put (PyStr.ofString "bot",
      PyStr.ofString "tenant::beta::connector_installation:inst-T1:bot")))
  | 2 => tenantInput (resolveFor "default" "T2")
  | _ => tenantInput (upsertFor "alpha" "T1" .empty)

def tenantAt (k : ℕ) : Option PyStr :=
  ((registryBefore tenantInterpreter {} takenRun k).installations.get?
    (PyStr.ofString "inst-T1")).map (·.tenantId)

theorem takenRun_not_kept :
    tenantAt 3 = some (PyStr.ofString "beta") ∧ tenantAt 4 = some (PyStr.ofString "alpha") ∧
      ¬ (∀ k, KeepsTenants tenantInterpreter (registryBefore tenantInterpreter {} takenRun k)
        (takenRun k)) := by
  have hbefore : tenantAt 3 = some (PyStr.ofString "beta") := by decide +kernel
  have hafter : tenantAt 4 = some (PyStr.ofString "alpha") := by decide +kernel
  refine ⟨hbefore, hafter, fun h => ?_⟩
  obtain ⟨inst, hget, htenant⟩ := Option.map_eq_some_iff.mp hbefore
  have hkept := (h 3).upsert _ (PyStr.ofString "alpha") rfl (by decide +kernel) _ inst hget
    (by rw [htenant]; decide)
  have hsame : tenantAt 4 = some inst.tenantId :=
    congrArg (Option.map ConnectorInstallation.tenantId) hkept
  rw [hafter, htenant] at hsame
  revert hsame
  decide

/-- The tenant and the references of the record that is resolved. -/
def Answer.resolvedRefs? : Answer φ → Option (PyStr × List PyStr)
  | .resolution (.ok r) =>
    if r.ok then r.installation.map fun inst => (inst.tenantId, inst.tokenRefs.rows.map Prod.snd)
    else none
  | _ => none

/-- The default tenant resolves its installation with the token of `beta`. -/
theorem takenRun_resolves_foreign :
    ¬ KeepsTenants tenantInterpreter (registryBefore tenantInterpreter {} takenRun 2)
      (takenRun 2) := by
  intro h
  let ref := PyStr.ofString "tenant::beta::connector_installation:inst-T1:bot"
  have hanswer : (answer (step tenantInterpreter) {} takenRun 2).resolvedRefs? =
      some (defaultTenantId, [ref]) := by decide +kernel
  have hforeign : owner (scopedKey defaultTenantId ref) ≠ defaultTenantId := by decide +kernel
  unfold Answer.resolvedRefs? at hanswer
  split at hanswer
  · rename_i r hr
    split at hanswer
    · rename_i hok
      obtain ⟨inst, hinst, _, hrefs⟩ := h.resolve _ _ _ r rfl hr hok
      rw [hinst, Option.map_some, Option.some.injEq, Prod.mk.injEq] at hanswer
      obtain ⟨htenant, hrows⟩ := hanswer
      obtain ⟨row, hrow, href⟩ := List.mem_map.mp (hrows ▸ List.mem_singleton_self ref)
      have howner := (hrefs row hrow).1
      rw [htenant, href] at howner
      exact hforeign howner
    · cases hanswer
  · cases hanswer

end OpenClaw.Installations
