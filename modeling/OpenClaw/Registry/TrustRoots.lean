import Mathlib.Data.Rat.Defs
import Mathlib.Algebra.Order.Ring.Rat
import OpenClaw.Foundation.TextBytes
import OpenClaw.Foundation.Table

/-!
# Trust roots

`TrustRootStore` of `services/registry_quarantine.py`. The roots in memory and the roots in the file
are two tables: a save that fails is only logged, and a restart reads the file.
-/

namespace OpenClaw.Registry

open Foundation
set_option autoImplicit false

structure TrustRoot where
  keyId : PyStr
  publicKeyPem : PyStr
  fingerprint : PyStr := []
  validFrom : ℚ := 0
  validUntil : ℚ := 0
  revoked : Bool := false
  revocationReason : PyStr := []
  addedAt : ℚ := 0
  deriving DecidableEq

/-- The foreign code under the signatures: `base64.b64decode`, and whether a key that is loaded from
its PEM bytes is an Ed25519 key and verifies the signature of the data. -/
structure Crypto where
  available : Bool
  b64decode : PyStr → Option (List UInt8)
  verify : List UInt8 → List UInt8 → List UInt8 → Bool
  sha256 : List UInt8 → List UInt8

abbrev Roots := Table TrustRoot.keyId

structure TrustRootStore where
  roots : Roots := Table.empty
  /-- The trust file, if it exists. -/
  file : Option Roots := none

/-- One candidate of `verify_signature`; every exception counts as a failure. -/
def TrustRoot.verifies (crypto : Crypto) (root : TrustRoot) (signature data : List UInt8) : Bool :=
  match root.publicKeyPem.chars? with
  | none => false
  | some pem => crypto.verify (utf8 pem) signature data

/-- The root is in its validity window; a bound of zero is no bound. -/
def TrustRoot.validAt (root : TrustRoot) (now : ℚ) : Bool :=
  decide (¬ (root.validFrom ≠ 0 ∧ now < root.validFrom) ∧
    ¬ (root.validUntil ≠ 0 ∧ root.validUntil < now))

namespace TrustRootStore
variable (crypto : Crypto)

def save (saved : Bool) (s : TrustRootStore) : TrustRootStore :=
  if saved then { s with file := some s.roots } else s

/-- The root as `add_root` stores it; `none` is a `UnicodeEncodeError`. -/
def completed (now : ℚ) (root : TrustRoot) : Option TrustRoot :=
  let root := if root.addedAt = 0 then { root with addedAt := now } else root
  if root.fingerprint = [] ∧ root.publicKeyPem ≠ [] then
    root.publicKeyPem.chars?.map fun pem =>
      { root with fingerprint := PyStr.ofList ((hex (crypto.sha256 (utf8 pem))).take 16) }
  else some root

def addRoot (now : ℚ) (saved : Bool) (root : TrustRoot) (s : TrustRootStore) :
    TrustRootStore × Bool :=
  match completed crypto now root with
  | none => (s, false)
  | some root => (save saved { s with roots := s.roots.put root }, true)

def revokeRoot (saved : Bool) (keyId reason : PyStr) (s : TrustRootStore) : TrustRootStore × Bool :=
  match s.roots.get? keyId with
  | none => (s, false)
  | some root =>
    (save saved { s with
      roots := s.roots.put { root with revoked := true, revocationReason := reason } }, true)

def getActiveRoots (now : ℚ) (s : TrustRootStore) : List TrustRoot :=
  s.roots.rows.filter fun root => !root.revoked && root.validAt now

/-- The keys that `verify_signature` tries, or why it tries none. -/
def candidates (now : ℚ) (keyId : PyStr) (s : TrustRootStore) : Except PyStr (List TrustRoot) :=
  if keyId = [] then .ok (s.getActiveRoots now)
  else
    match s.roots.get? keyId with
    | none => .error (PyStr.ofString "S61: Unknown key_id '" ++ keyId ++ PyStr.ofString "'")
    | some root =>
      if root.revoked then
        .error (PyStr.ofString "S61: Key '" ++ keyId ++ PyStr.ofString "' has been revoked: " ++
          root.revocationReason)
      else .ok [root]

/-- `verify_signature`: the root whose key verified, or the message. -/
def verifySignature (now : ℚ) (data : List UInt8) (signatureB64 keyId : PyStr)
    (s : TrustRootStore) : Except PyStr TrustRoot :=
  if signatureB64 = [] then .error (PyStr.ofString "S61: Missing signature")
  else if crypto.available = false then
    .error (PyStr.ofString "S61: cryptography library not available (fail-closed)")
  else
    match crypto.b64decode signatureB64 with
    | none => .error (PyStr.ofString "S61: Invalid signature encoding (not valid base64)")
    | some signature =>
      match candidates now keyId s with
      | .error message => .error message
      | .ok roots =>
        if roots = [] then .error (PyStr.ofString "S61: No active trust roots configured")
        else
          match roots.find? (·.verifies crypto signature data) with
          | none => .error
              (PyStr.ofString "S61: Signature verification failed against all active trust roots")
          | some root => .ok root

/-- A new process reads the file. -/
def restart (s : TrustRootStore) : TrustRootStore := { s with roots := s.file.getD Table.empty }

/-! ## Accepted signatures -/

variable {crypto}
variable {now : ℚ} {data : List UInt8} {signatureB64 keyId : PyStr} {s : TrustRootStore}
  {root : TrustRoot}

/-- A root that verified is stored and not revoked, and is in its window if no key was named. -/
theorem verifySignature_ok (h : s.verifySignature crypto now data signatureB64 keyId = .ok root) :
    (s.roots.get? root.keyId = some root ∧ root.revoked = false) ∧
      (keyId = [] → root.validAt now = true) ∧
      ∃ signature, crypto.b64decode signatureB64 = some signature ∧
        root.verifies crypto signature data = true := by
  unfold verifySignature at h
  split at h
  · cases h
  split at h
  · cases h
  split at h
  · cases h
  rename_i signature hdecode
  split at h
  · cases h
  rename_i roots hroots
  split at h
  · cases h
  split at h
  · cases h
  rename_i found hfound
  obtain rfl := Except.ok.inj h
  have hverifies := List.find?_some hfound
  have hmem := List.mem_of_find?_eq_some hfound
  unfold candidates at hroots
  split at hroots
  · cases hroots
    obtain ⟨hrow, hactive⟩ := List.mem_filter.mp hmem
    rw [Bool.and_eq_true, Bool.not_eq_true'] at hactive
    exact ⟨⟨Table.get?_key hrow, hactive.1⟩, fun _ => hactive.2, signature, hdecode, hverifies⟩
  · rename_i hkey
    split at hroots
    · cases hroots
    rename_i named hnamed
    split at hroots
    · cases hroots
    rename_i hlive
    cases hroots
    obtain rfl := List.mem_singleton.mp hmem
    refine ⟨⟨?_, by simpa using hlive⟩, fun hnil => absurd hnil hkey, signature, hdecode, hverifies⟩
    rw [Table.key_of_get? hnamed]
    exact hnamed

end TrustRootStore

end OpenClaw.Registry
