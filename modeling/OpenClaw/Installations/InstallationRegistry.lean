import Mathlib.Data.Rat.Defs
import OpenClaw.Foundation.PyJson
import OpenClaw.Secrets.SecretStore

/-!
# The connector installation registry

`services/connector_installation_registry.py`: the installations of all tenants in one dictionary
under their installation id, with references to their tokens in the secret store. What the clock
shows, and which saves and loads go through, are inputs of a call.
-/

namespace OpenClaw.Installations

open Foundation Tenants Secrets
set_option autoImplicit false

namespace InstallationStatus

def created : PyStr := PyStr.ofString "created"
def active : PyStr := PyStr.ofString "active"
def rotating : PyStr := PyStr.ofString "rotating"
def revoked : PyStr := PyStr.ofString "revoked"
def deactivated : PyStr := PyStr.ofString "deactivated"
def uninstalled : PyStr := PyStr.ofString "uninstalled"

end InstallationStatus

def resolvableStatuses : List PyStr := [InstallationStatus.active, InstallationStatus.rotating]

def unresolvableHealthCodes : List PyStr := ["invalid_token", "revoked"].map PyStr.ofString

abbrev Refs := Table (Prod.fst : PyStr × PyStr → PyStr)

abbrev Metadata (φ : Type) := Table (Prod.fst : PyStr × Json φ → PyStr)

structure ConnectorInstallation (φ : Type) where
  platform : PyStr
  workspaceId : PyStr
  installationId : PyStr
  tenantId : PyStr
  tokenRefs : Refs
  status : PyStr
  updatedAt : ℚ
  createdAt : ℚ
  statusReason : PyStr
  metadata : Metadata φ

structure InstallationAuditEvent (φ : Type) where
  timestamp : ℚ
  action : String
  installationId : PyStr
  platform : PyStr
  tenantId : PyStr
  workspaceId : PyStr
  status : PyStr
  details : List (String × Json φ)

structure InstallationResolution (φ : Type) where
  ok : Bool := false
  installation : Option (ConnectorInstallation φ) := none
  rejectReason : PyStr := []
  auditCode : String
  healthCode : PyStr

abbrev InstallationTable (φ : Type) :=
  Table (ConnectorInstallation.installationId : ConnectorInstallation φ → PyStr)

structure ConnectorInstallationRegistry (φ : Type) where
  installations : InstallationTable φ := .empty
  auditTrail : List (InstallationAuditEvent φ) := []
  /-- `connector_installations.json` -/
  file : Option (InstallationTable φ × List (InstallationAuditEvent φ)) := none
  secretStore : SecretStore := {}

inductive RegistryError where
  | valueError (message : PyStr)
  | tenantBoundary (e : TenantBoundaryError)
  | secret (e : Secrets.Raised)
  /-- the health in the metadata is no dictionary -/
  | badHealth
  | saveFailed
  deriving DecidableEq

/-- The `n`-th reading of the clock in a call and a reading as a float, whether the save of the
registry goes through, and the `n`-th save of the secret store. -/
structure Io (φ : Type) where
  now : ℕ → ℚ
  float : ℚ → φ
  saved : Bool := true
  secretSaved : ℕ → Bool := fun _ => true

variable {φ : Type}

def normalizeIdentifier (value : PyStr) (fieldName : PyStr) : Except RegistryError PyStr :=
  if value.strip = [] then .error (.valueError (fieldName ++ PyStr.ofString " must be non-empty"))
  else .ok value.strip

def normalizePlatform (py : PyInterpreter φ) (platform : PyStr) : Except RegistryError PyStr :=
  (normalizeIdentifier platform (PyStr.ofString "platform")).map py.lower

def normalizeTenant (tenantId : PyStr) : Except RegistryError PyStr :=
  (normalizeTenantId tenantId).mapError .tenantBoundary

def notFound (installationId : PyStr) : RegistryError :=
  .valueError (PyStr.ofString "Installation not found: " ++ installationId)

/-- The health state in the metadata; `none` if there is something else than a dictionary. -/
def healthRecord (py : PyInterpreter φ) (metadata : Metadata φ) : Option PyStr :=
  let health := ((metadata.get? (PyStr.ofString "health")).map Prod.snd).getD (.obj [])
  (health.dictItems? py).map fun items =>
    py.lower (((Json.itemUnder? (PyStr.ofString "state") items).getD (.str [])).toStr py).strip

def healthCodeForInstallation (py : PyInterpreter φ) (inst : ConnectorInstallation φ) :
    Except RegistryError PyStr :=
  match healthRecord py inst.metadata with
  | none => .error .badHealth
  | some healthCode =>
    if healthCode ≠ [] then .ok healthCode
    else if inst.status = InstallationStatus.revoked then .ok (PyStr.ofString "revoked")
    else .ok []

/-- `_store_token_refs`, from the `n`-th save of the secret store on. -/
def storeTokenRefs (env : Settings) (io : Io φ) (installationId tenantId : PyStr) :
    ℕ → List (PyStr × PyStr) → SecretStore → Refs → SecretStore × Except RegistryError Refs
  | _, [], secrets, refs => (secrets, .ok refs)
  | n, (key, value) :: rest, secrets, refs =>
    match normalizeIdentifier key (PyStr.ofString "token_name") with
    | .error e => (secrets, .error e)
    | .ok name =>
      match normalizeIdentifier value (PyStr.ofString "token:" ++ name) with
      | .error e => (secrets, .error e)
      | .ok secretValue =>
        let ref := PyStr.ofString "connector_installation:" ++ (installationId ++
          (PyStr.ofString ":" ++ name))
        match secrets.setSecret env (io.secretSaved n) ref secretValue (some tenantId) with
        | (secrets, .error e) => (secrets, .error (.secret e))
        | (secrets, .ok _) =>
          storeTokenRefs env io installationId tenantId (n + 1) rest secrets (refs.put (name, ref))

def maxInstallationAudit : ℕ := 500

structure UpsertArgs (φ : Type) where
  platform : PyStr
  tenantId : PyStr := defaultTenantId
  workspaceId : PyStr
  installationId : PyStr
  tokenValues : List (PyStr × PyStr) := []
  tokenRefs : Refs := .empty
  status : PyStr := InstallationStatus.created
  metadata : Metadata φ := .empty
  statusReason : PyStr := []

namespace ConnectorInstallationRegistry
variable (py : PyInterpreter φ) (env : Settings)

abbrev Registry := ConnectorInstallationRegistry

def audit (now : ℚ) (action : String) (inst : ConnectorInstallation φ)
    (details : List (String × Json φ)) (s : Registry φ) : Registry φ :=
  let trail := s.auditTrail ++ [⟨now, action, inst.installationId, inst.platform, inst.tenantId,
    inst.workspaceId, inst.status, details⟩]
  { s with auditTrail := trail.drop (trail.length - maxInstallationAudit) }

def save (s : Registry φ) : Registry φ := { s with file := some (s.installations, s.auditTrail) }

/-- The end of every change: the record is stored, the audit trail grows, and both are saved. -/
def commit (io : Io φ) (now : ℚ) (action : String) (details : List (String × Json φ))
    (inst : ConnectorInstallation φ) (s : Registry φ) :
    Registry φ × Except RegistryError (ConnectorInstallation φ) :=
  let s := { s with installations := s.installations.put inst }.audit now action inst details
  if io.saved then (s.save, .ok inst) else (s, .error .saveFailed)

/-- The record that `upsert_installation` stores. -/
def upsertedRecord (now : ℚ) (platform tenantId workspaceId installationId : PyStr) (refs : Refs)
    (status : PyStr) (args : UpsertArgs φ) (existing : Option (ConnectorInstallation φ)) :
    ConnectorInstallation φ where
  platform := platform
  tenantId := tenantId
  workspaceId := workspaceId
  installationId := installationId
  tokenRefs :=
    match existing with
    | some inst => if refs.rows = [] then inst.tokenRefs else refs
    | none => refs
  status := status
  updatedAt := now
  createdAt := (existing.map (·.createdAt)).getD now
  statusReason := args.statusReason
  metadata :=
    if args.metadata.rows = [] then (existing.map (·.metadata)).getD .empty else args.metadata

/-- The platform, the tenant, the workspace and the installation id of an upsert. -/
def normalizeBinding (args : UpsertArgs φ) : Except RegistryError (PyStr × PyStr × PyStr × PyStr) := do
  let platform ← normalizePlatform py args.platform
  let tenantId ← normalizeTenant args.tenantId
  let workspaceId ← normalizeIdentifier args.workspaceId (PyStr.ofString "workspace_id")
  let installationId ← normalizeIdentifier args.installationId (PyStr.ofString "installation_id")
  return (platform, tenantId, workspaceId, installationId)

def upsertInstallation (io : Io φ) (args : UpsertArgs φ) (s : Registry φ) :
    Registry φ × Except RegistryError (ConnectorInstallation φ) :=
  match normalizeBinding py args with
  | .error e => (s, .error e)
  | .ok (platform, tenantId, workspaceId, installationId) =>
    let now := io.now 0
    match storeTokenRefs env io installationId tenantId 0 args.tokenValues s.secretStore
        args.tokenRefs with
    | (secretStore, .error e) => ({ s with secretStore }, .error e)
    | (secretStore, .ok refs) =>
      let s := { s with secretStore }
      match normalizeIdentifier args.status (PyStr.ofString "status") with
      | .error e => (s, .error e)
      | .ok status =>
        let inst := upsertedRecord now platform tenantId workspaceId installationId refs status args
          (s.installations.get? installationId)
        s.commit io (io.now 1) "upsert" [("token_ref_count", .int inst.tokenRefs.size)] inst

/-- `_transition`; the clock is read from the `n`-th time on. -/
def transition (io : Io φ) (n : ℕ) (installationId targetStatus reason : PyStr) (action : String)
    (s : Registry φ) : Registry φ × Except RegistryError (ConnectorInstallation φ) :=
  match s.installations.get? installationId.strip with
  | none => (s, .error (notFound installationId))
  | some inst =>
    s.commit io (io.now (n + 1)) action [("reason", .str reason)]
      { inst with status := targetStatus, statusReason := reason, updatedAt := io.now n }

def healthState (healthCode : PyStr) : PyStr :=
  let code := if healthCode = [] then PyStr.ofString "ok" else healthCode
  let state := py.lower code.strip
  if state = [] then PyStr.ofString "ok" else state

/-- `update_installation_health`; the clock is read from the `n`-th time on. -/
def updateInstallationHealth (io : Io φ) (n : ℕ)
    (installationId healthCode reason : PyStr) (details : List (PyStr × Json φ)) (s : Registry φ) :
    Registry φ × Except RegistryError (ConnectorInstallation φ) :=
  match s.installations.get? installationId.strip with
  | none => (s, .error (notFound installationId))
  | some inst =>
    let health : Json φ := .obj [(PyStr.ofString "state", .str (healthState py healthCode)),
      (PyStr.ofString "reason", .str reason.strip),
      (PyStr.ofString "updated_at", .float (io.float (io.now n))),
      (PyStr.ofString "details", .obj details)]
    s.commit io (io.now (n + 2)) "health_update"
      [("health_code", .str (healthState py healthCode)), ("reason", .str reason.strip)]
      { inst with
        metadata := inst.metadata.put (PyStr.ofString "health", health)
        updatedAt := io.now (n + 1) }

def reasonOr (reason : PyStr) (text : String) : PyStr :=
  if reason = [] then PyStr.ofString text else reason

/-- A transition with the health that goes with it. -/
def transitionWithHealth (io : Io φ) (installationId targetStatus reason : PyStr) (action : String)
    (healthCode healthReason : PyStr) (s : Registry φ) :
    Registry φ × Except RegistryError (ConnectorInstallation φ) :=
  match s.transition io 0 installationId targetStatus reason action with
  | (s, .error e) => (s, .error e)
  | (s, .ok inst) =>
    s.updateInstallationHealth py io 2 installationId healthCode healthReason
      [(PyStr.ofString "status", .str inst.status)]

def activateInstallation (io : Io φ) (installationId reason : PyStr) (s : Registry φ) :
    Registry φ × Except RegistryError (ConnectorInstallation φ) :=
  s.transitionWithHealth py io installationId InstallationStatus.active reason "activate"
    (PyStr.ofString "ok") (reasonOr reason "activated")

def revokeInstallation (io : Io φ) (installationId reason : PyStr) (s : Registry φ) :
    Registry φ × Except RegistryError (ConnectorInstallation φ) :=
  s.transitionWithHealth py io installationId InstallationStatus.revoked reason "revoke"
    (PyStr.ofString "revoked") (reasonOr reason "revoked")

def deactivateInstallation (io : Io φ) (installationId reason : PyStr) (s : Registry φ) :
    Registry φ × Except RegistryError (ConnectorInstallation φ) :=
  s.transition io 0 installationId InstallationStatus.deactivated reason "deactivate"

def rotateInstallationTokens (io : Io φ) (installationId : PyStr)
    (tokenValues : List (PyStr × PyStr)) (reason : PyStr) (s : Registry φ) :
    Registry φ × Except RegistryError (ConnectorInstallation φ) :=
  match s.installations.get? installationId.strip with
  | none => (s, .error (notFound installationId))
  | some inst =>
    match storeTokenRefs env io inst.installationId inst.tenantId 0 tokenValues s.secretStore
        inst.tokenRefs with
    | (secretStore, .error e) => ({ s with secretStore }, .error e)
    | (secretStore, .ok refs) =>
      { s with secretStore }.commit io (io.now 1) "rotate"
        [("reason", .str reason), ("token_ref_count", .int refs.size)]
        { inst with
          tokenRefs := refs
          status := InstallationStatus.rotating
          statusReason := reason
          updatedAt := io.now 0 }

/-- The loop over the references, from the `n`-th save of the secret store on. -/
def clearRefs (io : Io φ) (tenantId : PyStr) :
    ℕ → List (PyStr × PyStr) → SecretStore → SecretStore × Except RegistryError Unit
  | _, [], secrets => (secrets, .ok ())
  | n, (_, ref) :: rest, secrets =>
    match secrets.clearSecret env (io.secretSaved n) ref (some tenantId) with
    | (secrets, .error e) => (secrets, .error (.secret e))
    | (secrets, .ok _) => clearRefs io tenantId (n + 1) rest secrets

def uninstallInstallation (io : Io φ) (installationId reason : PyStr) (s : Registry φ) :
    Registry φ × Except RegistryError (ConnectorInstallation φ) :=
  match s.installations.get? installationId.strip with
  | none => (s, .error (notFound installationId))
  | some inst =>
    match clearRefs env io inst.tenantId 0 inst.tokenRefs.rows s.secretStore with
    | (secretStore, .error e) => ({ s with secretStore }, .error e)
    | (secretStore, .ok _) =>
      { s with secretStore }.commit io (io.now 1) "uninstall" [("reason", .str reason)]
        { inst with
          status := InstallationStatus.uninstalled
          statusReason := reason
          updatedAt := io.now 0 }

/-! ## Reads -/

/-- The first reference, by its name, that has no secret. -/
def staleRef? (tenantId : PyStr) (secrets : SecretStore) :
    List (PyStr × PyStr) → Except TenantBoundaryError (Option PyStr)
  | [] => .ok none
  | (name, ref) :: rest =>
    match secrets.getSecret env ref (some tenantId) with
    | .error e => .error e
    | .ok (some (_ :: _)) => staleRef? tenantId secrets rest
    | .ok _ => .ok (some name)

def resolveTenant (tenantId : Option PyStr) : Except RegistryError PyStr :=
  let given := tenantId.getD []
  let tenant := if given = [] then env.getCurrentTenantId else given
  normalizeTenant (if tenant = [] then defaultTenantId else tenant)

def reject (rejectReason : PyStr) (auditCode : String) (healthCode : PyStr) :
    InstallationResolution φ where
  rejectReason := rejectReason
  auditCode := auditCode
  healthCode := healthCode

def degraded : PyStr := PyStr.ofString "degraded"

/-- The end of `resolve_installation`, for the only eligible record. -/
def resolveEligible (s : Registry φ) (inst : ConnectorInstallation φ) :
    Except RegistryError (InstallationResolution φ) := do
  let healthCode ← healthCodeForInstallation py inst
  if healthCode ∈ unresolvableHealthCodes then
    return reject (PyStr.ofString "inactive_binding") "conn_install.resolve_unhealthy" healthCode
  match ← (staleRef? env inst.tenantId s.secretStore inst.tokenRefs.rows).mapError
      .tenantBoundary with
  | some name =>
    return reject (PyStr.ofString "stale_token_ref:" ++ name) "conn_install.resolve_stale_ref"
      degraded
  | none =>
    return {
      ok := true
      installation := some inst
      auditCode := "conn_install.resolve_ok"
      healthCode := if healthCode = [] then PyStr.ofString "ok" else healthCode }

def resolveInstallation (platform workspaceId : PyStr) (tenantId : Option PyStr) (s : Registry φ) :
    Except RegistryError (InstallationResolution φ) := do
  let platform ← normalizePlatform py platform
  let workspaceId ← normalizeIdentifier workspaceId (PyStr.ofString "workspace_id")
  let tenantId ← resolveTenant env tenantId
  let bound := s.installations.rows.filter fun inst =>
    decide (inst.platform = platform ∧ inst.workspaceId = workspaceId)
  let tenantMatches := bound.filter fun inst => decide (inst.tenantId = tenantId)
  if env.multiTenant ∧ tenantMatches = [] ∧ bound ≠ [] then
    return reject (PyStr.ofString "tenant_mismatch") "conn_install.resolve_tenant_mismatch" degraded
  let matched := if env.multiTenant then tenantMatches else bound
  match matched.filter fun inst => decide (inst.status ∈ resolvableStatuses) with
  | _ :: _ :: _ =>
    return reject (PyStr.ofString "ambiguous_binding") "conn_install.resolve_ambiguous" degraded
  | [inst] => s.resolveEligible py env inst
  | [] =>
    match matched with
    | [] =>
      return reject (PyStr.ofString "missing_binding") "conn_install.resolve_missing"
        (PyStr.ofString "workspace_unbound")
    | inst :: _ =>
      let healthCode ← healthCodeForInstallation py inst
      return reject (PyStr.ofString "inactive_binding") "conn_install.resolve_inactive"
        (if healthCode = [] then degraded else healthCode)

def getInstallation (installationId : PyStr) (tenantId : Option PyStr) (s : Registry φ) :
    Except RegistryError (Option (ConnectorInstallation φ)) :=
  match s.installations.get? installationId.strip, tenantId with
  | some inst, some t =>
    if env.multiTenant then do
      let t ← normalizeTenant t
      return if inst.tenantId = t then some inst else none
    else .ok (some inst)
  | found, _ => .ok found

/-- A filter that is not empty, applied to the records that are left. -/
def keepOnly {α : Type} (filter : Option PyStr) (normalize : PyStr → Except RegistryError PyStr)
    (field : α → PyStr) (items : List α) : Except RegistryError (List α) :=
  match filter with
  | none => .ok items
  | some [] => .ok items
  | some (u :: us) => do
    let value ← normalize (u :: us)
    return items.filter fun item => decide (field item = value)

structure Filters where
  platform : Option PyStr := none
  tenantId : Option PyStr := none
  workspaceId : Option PyStr := none
  status : Option PyStr := none

def sortKey (inst : ConnectorInstallation φ) : List (List ℕ) :=
  [inst.platform, inst.tenantId, inst.workspaceId, inst.installationId].map PyStr.codePoints

/-- The platform filter is normalized once for each record, so not at all if there is none. -/
def listInstallations (filters : Filters) (s : Registry φ) :
    Except RegistryError (List (ConnectorInstallation φ)) := do
  let items := s.installations.rows
  let items ← if items = [] then pure [] else
    keepOnly filters.platform (normalizePlatform py) (·.platform) items
  let items ← keepOnly filters.tenantId normalizeTenant (·.tenantId) items
  let items ← keepOnly filters.workspaceId (fun w => .ok w.strip) (·.workspaceId) items
  let items ← keepOnly filters.status (fun w => .ok w.strip) (·.status) items
  return sortedBy sortKey items

def getAuditTrail (installationId tenantId : Option PyStr) (limit : ℤ) (s : Registry φ) :
    Except RegistryError (List (InstallationAuditEvent φ)) := do
  let items ← keepOnly installationId (fun i => .ok i.strip) (·.installationId) s.auditTrail
  let items ← keepOnly tenantId normalizeTenant (·.tenantId) items
  return items.drop (items.length - (max 1 (min limit 500)).toNat)

/-! ## A new process -/

/-- `_load`, with the secret store of the process. -/
def load (io : SecretStore.Startup) (readable : Bool) (s : Registry φ) : Registry φ :=
  let fresh : Registry φ := { file := s.file, secretStore := s.secretStore.load io }
  match s.file with
  | none => fresh
  | some (installations, auditTrail) =>
    if readable then
      { fresh with
        installations := installations.restrict fun i => decide (i ≠ [])
        auditTrail := auditTrail.filter fun event => decide (event.installationId ≠ []) }
    else fresh

/-! ## What an upsert does -/

@[simp] theorem commit_installations (io : Io φ) (now : ℚ) (action : String)
    (details : List (String × Json φ)) (inst : ConnectorInstallation φ) (s : Registry φ) :
    (s.commit io now action details inst).1.installations = s.installations.put inst := by
  unfold commit
  dsimp only
  split <;> rfl

theorem normalizeIdentifier_ok {value fieldName v : PyStr}
    (h : normalizeIdentifier value fieldName = .ok v) : v = value.strip := by
  unfold normalizeIdentifier at h
  split at h
  · cases h
  · exact (Except.ok.inj h).symm

theorem normalizeBinding_ok {py : PyInterpreter φ} {args : UpsertArgs φ} {p t w i : PyStr}
    (h : normalizeBinding py args = .ok (p, t, w, i)) :
    normalizeTenant args.tenantId = .ok t ∧ i = args.installationId.strip := by
  unfold normalizeBinding at h
  cases hp : normalizePlatform py args.platform with
  | error e =>
    rw [hp] at h
    cases h
  | ok p' =>
    cases ht : normalizeTenant args.tenantId with
    | error e =>
      rw [hp, ht] at h
      cases h
    | ok t' =>
      cases hw : normalizeIdentifier args.workspaceId (PyStr.ofString "workspace_id") with
      | error e =>
        rw [hp, ht, hw] at h
        cases h
      | ok w' =>
        cases hi : normalizeIdentifier args.installationId (PyStr.ofString "installation_id") with
        | error e =>
          rw [hp, ht, hw, hi] at h
          cases h
        | ok i' =>
          rw [hp, ht, hw, hi] at h
          cases h
          exact ⟨rfl, normalizeIdentifier_ok hi⟩

/-- An upsert stops before it stores a record, or stores one under the stripped id. -/
theorem upsert_cases (py : PyInterpreter φ) (env : Settings) (io : Io φ) (args : UpsertArgs φ)
    (s : Registry φ) :
    (∃ secretStore e, s.upsertInstallation py env io args = ({ s with secretStore }, .error e)) ∨
      ∃ secretStore p t w refs status details,
        let i := args.installationId.strip
        let inst := upsertedRecord (io.now 0) p t w i refs status args (s.installations.get? i)
        normalizeTenant args.tenantId = .ok t ∧
        storeTokenRefs env io i t 0 args.tokenValues s.secretStore args.tokenRefs =
          (secretStore, .ok refs) ∧
        s.upsertInstallation py env io args =
          { s with secretStore }.commit io (io.now 1) "upsert" details inst := by
  unfold upsertInstallation
  cases hb : normalizeBinding py args with
  | error e => exact .inl ⟨s.secretStore, e, rfl⟩
  | ok binding =>
    obtain ⟨p, t, w, i⟩ := binding
    obtain ⟨ht, rfl⟩ := normalizeBinding_ok hb
    dsimp only
    split
    · exact .inl ⟨_, _, rfl⟩
    · rename_i secretStore refs hrefs
      split
      · exact .inl ⟨_, _, rfl⟩
      · exact .inr ⟨secretStore, p, t, w, refs, _, _, ht, hrefs, rfl⟩

/-! ## What is resolved -/

/-- The record that a resolution returns. -/
structure Resolved (py : PyInterpreter φ) (env : Settings) (s : Registry φ) (tenantId : Option PyStr)
    (inst : ConnectorInstallation φ) : Prop where
  stored : inst ∈ s.installations.rows
  status : inst.status ∈ resolvableStatuses
  health : ∃ code, healthCodeForInstallation py inst = .ok code ∧ code ∉ unresolvableHealthCodes
  refs : staleRef? env inst.tenantId s.secretStore inst.tokenRefs.rows = .ok none
  tenant : env.multiTenant = true → resolveTenant env tenantId = .ok inst.tenantId

theorem resolveEligible_ok {py : PyInterpreter φ} {env : Settings} {s : Registry φ}
    {inst : ConnectorInstallation φ} {r : InstallationResolution φ}
    (h : s.resolveEligible py env inst = .ok r) (hok : r.ok = true) :
    r.installation = some inst ∧
      (∃ code, healthCodeForInstallation py inst = .ok code ∧ code ∉ unresolvableHealthCodes) ∧
      staleRef? env inst.tenantId s.secretStore inst.tokenRefs.rows = .ok none := by
  unfold resolveEligible at h
  cases hcode : healthCodeForInstallation py inst with
  | error e =>
    rw [hcode] at h
    cases h
  | ok code =>
    rw [hcode] at h
    simp only [bind, Except.bind] at h
    split at h
    · cases h
      cases hok
    · rename_i hgood
      cases hstale : staleRef? env inst.tenantId s.secretStore inst.tokenRefs.rows with
      | error e =>
        rw [hstale] at h
        cases h
      | ok found =>
        rw [hstale] at h
        simp only [Except.mapError] at h
        cases found with
        | some name =>
          cases h
          cases hok
        | none =>
          cases h
          exact ⟨rfl, ⟨code, rfl, hgood⟩, rfl⟩

theorem resolve_ok {py : PyInterpreter φ} {env : Settings} {s : Registry φ} {p w : PyStr}
    {t : Option PyStr} {r : InstallationResolution φ}
    (h : s.resolveInstallation py env p w t = .ok r) (hok : r.ok = true) :
    ∃ inst, r.installation = some inst ∧ Resolved py env s t inst := by
  unfold resolveInstallation at h
  cases hp : normalizePlatform py p with
  | error e =>
    rw [hp] at h
    cases h
  | ok platform =>
    cases hw : normalizeIdentifier w (PyStr.ofString "workspace_id") with
    | error e =>
      rw [hp, hw] at h
      cases h
    | ok workspaceId =>
      cases ht : resolveTenant env t with
      | error e =>
        rw [hp, hw, ht] at h
        cases h
      | ok tenantId =>
        rw [hp, hw, ht] at h
        simp only [bind, Except.bind] at h
        split at h
        · cases h
          cases hok
        · split at h
          · cases h
            cases hok
          · rename_i inst heligible
            obtain ⟨hinst, hhealth, hrefs⟩ := resolveEligible_ok h hok
            have hmem : inst ∈ [inst] := List.mem_singleton_self inst
            rw [← heligible, List.mem_filter, decide_eq_true_eq] at hmem
            obtain ⟨hmatched, hstatus⟩ := hmem
            refine ⟨inst, hinst, ?_, hstatus, hhealth, hrefs, ?_⟩
            · split at hmatched
              · exact (List.mem_filter.mp (List.mem_filter.mp hmatched).1).1
              · exact (List.mem_filter.mp hmatched).1
            · intro hmulti
              rw [if_pos hmulti, List.mem_filter, decide_eq_true_eq] at hmatched
              rw [hmatched.2]
              exact ht
          · split at h
            · cases h
              cases hok
            · cases hcode : healthCodeForInstallation py _ with
              | error e =>
                rw [hcode] at h
                cases h
              | ok code =>
                rw [hcode] at h
                cases h
                cases hok

end ConnectorInstallationRegistry

/-! ## Calls -/

inductive Call (φ : Type) where
  | upsert (args : UpsertArgs φ)
  | activate (installationId reason : PyStr)
  | rotate (installationId : PyStr) (tokenValues : List (PyStr × PyStr)) (reason : PyStr)
  | revoke (installationId reason : PyStr)
  | deactivate (installationId reason : PyStr)
  | uninstall (installationId reason : PyStr)
  | updateHealth (installationId healthCode reason : PyStr) (details : List (PyStr × Json φ))
  | resolve (platform workspaceId : PyStr) (tenantId : Option PyStr)
  | get (installationId : PyStr) (tenantId : Option PyStr)
  | list (filters : ConnectorInstallationRegistry.Filters)
  | auditTrail (installationId tenantId : Option PyStr) (limit : ℤ)
  | reload (io : SecretStore.Startup) (readable : Bool)

inductive Answer (φ : Type) where
  | installation (r : Except RegistryError (ConnectorInstallation φ))
  | resolution (r : Except RegistryError (InstallationResolution φ))
  | found (r : Except RegistryError (Option (ConnectorInstallation φ)))
  | listed (r : Except RegistryError (List (ConnectorInstallation φ)))
  | trail (r : Except RegistryError (List (InstallationAuditEvent φ)))
  | reloaded

structure Input (φ : Type) where
  env : Settings
  io : Io φ
  call : Call φ

open ConnectorInstallationRegistry in
def step (py : PyInterpreter φ) (s : ConnectorInstallationRegistry φ) (input : Input φ) :
    ConnectorInstallationRegistry φ × Answer φ :=
  let env := input.env
  let io := input.io
  match input.call with
  | .upsert args => (s.upsertInstallation py env io args).map id .installation
  | .activate i reason => (s.activateInstallation py io i reason).map id .installation
  | .rotate i values reason => (s.rotateInstallationTokens env io i values reason).map id .installation
  | .revoke i reason => (s.revokeInstallation py io i reason).map id .installation
  | .deactivate i reason => (s.deactivateInstallation io i reason).map id .installation
  | .uninstall i reason => (s.uninstallInstallation env io i reason).map id .installation
  | .updateHealth i code reason details =>
    (s.updateInstallationHealth py io 0 i code reason details).map id .installation
  | .resolve p w t => (s, .resolution (s.resolveInstallation py env p w t))
  | .get i t => (s, .found (s.getInstallation env i t))
  | .list filters => (s, .listed (s.listInstallations py filters))
  | .auditTrail i t limit => (s, .trail (s.getAuditTrail i t limit))
  | .reload startup readable => (s.load startup readable, .reloaded)

end OpenClaw.Installations
