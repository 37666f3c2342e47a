import OpenClaw.Foundation.Table
import OpenClaw.Tenants.TenantContext

/-!
# The secret store

`services/secret_store.py`. The secrets of all tenants are in one dictionary. A secret of the
default tenant is under its provider id, and a secret of another tenant is under a key with the
tenant in front. The encrypted file is kept as the dictionary it decrypts to; whether it can be read
and whether a save goes through are inputs of a call.
-/

namespace OpenClaw.Secrets

open Foundation Tenants
set_option autoImplicit false

abbrev Secrets := Table (Prod.fst : PyStr × PyStr → PyStr)

inductive Raised where
  | tenantBoundary (e : TenantBoundaryError)
  | valueError (message : String)
  /-- the error of a failed save -/
  | saveFailed
  deriving DecidableEq

def tenantMark : PyStr := PyStr.ofString "tenant::"

def colons : PyStr := PyStr.ofString "::"

/-- `f"tenant::{tenant}::"`. -/
def tenantPrefix (tenant : PyStr) : PyStr := tenantMark ++ (tenant ++ colons)

def resolveTenantId (env : Settings) (tenantId : Option PyStr) : Except TenantBoundaryError PyStr :=
  match tenantId with
  | some t => normalizeTenantId t
  | none =>
    if env.multiTenant then
      match normalizeTenantId env.getCurrentTenantId with
      | .ok t => .ok t
      | .error _ => .ok defaultTenantId
    else .ok defaultTenantId

def tenantKey (env : Settings) (providerId : PyStr) (tenantId : Option PyStr) :
    Except TenantBoundaryError PyStr := do
  let tenant ← resolveTenantId env tenantId
  if tenant = defaultTenantId then return providerId
  return tenantPrefix tenant ++ providerId

/-- The first lines of `set_secret` and `clear_secret`. -/
def keyFor (env : Settings) (providerId : PyStr) (tenantId : Option PyStr) :
    Except TenantBoundaryError PyStr := do
  let tenant ← resolveTenantId env tenantId
  tenantKey env providerId (some tenant)

structure SecretStore where
  secrets : Secrets := .empty
  /-- `secrets.enc.json` -/
  file : Option Secrets := none
  /-- `secrets.json`, in plain text -/
  legacy : Option Secrets := none

/-- The row of a configured provider. -/
structure SecretStatus where
  configured : Bool := true
  source : String := "server_store"
  deriving DecidableEq

namespace SecretStore

/-- `_save`: the keys are sorted in the file. -/
def save (s : SecretStore) : SecretStore :=
  { s with file := some (s.secrets.sortRows fun row => row.1.codePoints) }

def getSecret (env : Settings) (providerId : PyStr) (tenantId : Option PyStr) (s : SecretStore) :
    Except TenantBoundaryError (Option PyStr) := do
  let tenant ← resolveTenantId env tenantId
  let scopedKey ← tenantKey env providerId (some tenant)
  match (s.secrets.get? scopedKey).map Prod.snd with
  | some (u :: us) => return some (u :: us)
  | _ =>
    if tenant ≠ defaultTenantId ∧ env.allowLegacyFallback then
      return (s.secrets.get? providerId).map Prod.snd
    return none

def setSecret (env : Settings) (saved : Bool) (providerId secret : PyStr) (tenantId : Option PyStr)
    (s : SecretStore) : SecretStore × Except Raised Unit :=
  if secret.strip = [] then (s, .error (.valueError "Secret must be non-empty string"))
  else
    match keyFor env providerId tenantId with
    | .error e => (s, .error (.tenantBoundary e))
    | .ok scopedKey =>
      let s := { s with secrets := s.secrets.put (scopedKey, secret.strip) }
      if saved then (s.save, .ok ()) else (s, .error .saveFailed)

def clearSecret (env : Settings) (saved : Bool) (providerId : PyStr) (tenantId : Option PyStr)
    (s : SecretStore) : SecretStore × Except Raised Bool :=
  match keyFor env providerId tenantId with
  | .error e => (s, .error (.tenantBoundary e))
  | .ok scopedKey =>
    if (s.secrets.get? scopedKey).isSome then
      let s := { s with secrets := s.secrets.drop scopedKey }
      if saved then (s.save, .ok true) else (s, .error .saveFailed)
    else (s, .ok false)

def clearAll (saved : Bool) (s : SecretStore) : SecretStore × Except Raised ℕ :=
  let count := s.secrets.size
  let s := { s with secrets := .empty }
  if saved then (s.save, .ok count) else (s, .error .saveFailed)

/-- The provider id that a key stands for in the view of a tenant. -/
def providerOf? (tenant key : PyStr) : Option PyStr :=
  let providerId :=
    if tenant = defaultTenantId then
      if tenantMark.isPrefixOf key then none else some key
    else if (tenantPrefix tenant).isPrefixOf key then some (key.drop (tenantPrefix tenant).length)
    else none
  providerId.filter (· ≠ [])

def getStatus (env : Settings) (tenantId : Option PyStr) (s : SecretStore) :
    Except TenantBoundaryError (List (PyStr × SecretStatus)) := do
  let tenant ← resolveTenantId env tenantId
  return s.secrets.rows.filterMap fun row => (providerOf? tenant row.1).map fun p => (p, {})

/-- What a new process finds of the files, and how it gets on. -/
structure Startup where
  readable : Bool := true
  saved : Bool := true
  renamed : Bool := true

/-- `_migrate_legacy`, on an empty dictionary. -/
def migrateLegacy (io : Startup) (s : SecretStore) : SecretStore :=
  match s.legacy with
  | none => s
  | some data =>
    if io.readable = false then s
    else
      let s := { s with secrets := data }
      if io.saved = false then s
      else if io.renamed then { s.save with legacy := none } else s.save

/-- `_load` in a new process. -/
def load (io : Startup) (s : SecretStore) : SecretStore :=
  let s := { s with secrets := .empty }
  match s.file with
  | some data => if io.readable then { s with secrets := data } else s
  | none => s.migrateLegacy io

end SecretStore

end OpenClaw.Secrets
