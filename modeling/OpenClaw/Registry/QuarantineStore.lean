import OpenClaw.Foundation.PyText
import OpenClaw.Registry.TrustRoots

/-!
# The registry quarantine

`RegistryQuarantineStore` of `services/registry_quarantine.py`. An entry is stored under the text that
its name and version are joined to. The readings of the clock in a call, the feature flag, what the
abuse limits and the preflight scan find, and whether a save succeeds are inputs.
-/

namespace OpenClaw.Registry

open Foundation
set_option autoImplicit false

inductive QuarantineState where
  | fetched | verified | quarantined | activated | rejected | rolledBack
  deriving DecidableEq

structure AuditRecord where
  action : String
  timestamp : ℚ
  detail : PyStr

structure RegistryEntry where
  name : PyStr
  version : PyStr
  sourceUrl : PyStr := []
  state : QuarantineState := .fetched
  sha256 : PyStr := []
  signature : PyStr := []
  provenance : PyStr := []
  fetchedAt : ℚ := 0
  verifiedAt : ℚ := 0
  activatedAt : ℚ := 0
  rejectedAt : ℚ := 0
  rejectionReason : PyStr := []
  auditTrail : List AuditRecord := []

def atSign : CodeUnit := 64
def colon : CodeUnit := 58

def entryKey (name version : PyStr) : PyStr := name ++ atSign :: version

def RegistryEntry.key (e : RegistryEntry) : PyStr := entryKey e.name e.version

def RegistryEntry.addAudit (e : RegistryEntry) (action : String) (now : ℚ) (detail : PyStr) :
    RegistryEntry :=
  { e with auditTrail := e.auditTrail ++ [⟨action, now, detail⟩] }

abbrev Entries := Table RegistryEntry.key

structure RegistryQuarantineStore where
  entries : Entries := Table.empty
  /-- The index file, if it exists. -/
  file : Option Entries := none
  trustRootStore : TrustRootStore := {}

structure Policy where
  crypto : Crypto
  /-- `_policy_mode` is "strict". -/
  strict : Bool

/-- The successive readings of the clock in one call; `time.time()` is positive. -/
structure Readings where
  time : ℕ → ℚ
  mono : Monotone time
  pos : 0 < time 0

/-- What a call meets outside of the store. -/
structure Environment where
  readings : Readings
  enabled : Bool := true
  /-- The message of `_check_abuse`, if it raises. -/
  abuse : Option PyStr := none
  pruneSaved : Bool := true
  saved : Bool := true

inductive RegistryError where
  | disabled
  | abuse (message : PyStr)
  | entryLimit
  | noEntry (key : PyStr)
  | cannotVerify (state : QuarantineState)
  | filePathRequired
  | fileNotFound
  | cannotActivate (state : QuarantineState)
  | cannotReject
  | cannotRollback (state : QuarantineState)
  | cannotRemove (state : QuarantineState)
  | persist
  | unicodeEncode

inductive Answer where
  | entry (e : RegistryEntry)
  | verified (ok : Bool)
  | removed (found : Bool)
  | pruned (count : ℕ)
  | revoked (found : Bool)
  | signature (result : Except PyStr TrustRoot)
  | done
  | raised (e : RegistryError)

/-- The preflight scan: no path, no scanner, no file, or what the scan finds. -/
inductive Preflight where
  | noPath | noScanner | notFound | safe
  | violation (message : PyStr)

structure FetchArgs where
  name : PyStr
  version : PyStr
  sourceUrl : PyStr
  sha256 : PyStr
  signature : PyStr := []
  provenance : PyStr := []

structure VerifyArgs where
  name : PyStr
  version : PyStr
  actualSha256 : PyStr
  preflight : Preflight

def maxEntries : ℕ := 200

/-- Seven days. -/
def staleTtl : ℚ := 7 * 24 * 3600

/-- An entry that a prune removes. -/
def RegistryEntry.stale (now : ℚ) (e : RegistryEntry) : Bool :=
  decide ((e.state = .rejected ∨ e.state = .rolledBack) ∧
    staleTtl < now - (if e.rejectedAt = 0 then e.fetchedAt else e.rejectedAt))

def Entries.prune (now : ℚ) (entries : Entries) : Entries :=
  entries.filterMap (fun e => if e.stale now then none else some e) fun e e' h => by
    split at h
    · cases h
    · cases h
      rfl

namespace RegistryQuarantineStore
variable (policy : Policy) (env : Environment)

/-- `_save` and the answer behind it. -/
def saveThen (saved : Bool) (answer : Answer) (s : RegistryQuarantineStore) :
    RegistryQuarantineStore × Answer :=
  if saved then ({ s with file := some s.entries }, answer) else (s, .raised .persist)

/-- `_prune_stale_entries`; `none` is a failed save. -/
def pruneStaleEntries (now : ℚ) (saved : Bool) (s : RegistryQuarantineStore) :
    RegistryQuarantineStore × Option ℕ :=
  let pruned := { s with entries := s.entries.prune now }
  let removed := s.entries.size - pruned.entries.size
  if removed = 0 then (pruned, some 0)
  else if saved then ({ pruned with file := some pruned.entries }, some removed)
  else (pruned, none)

def newEntry (r : Readings) (args : FetchArgs) : RegistryEntry :=
  RegistryEntry.addAudit {
      name := args.name
      version := args.version
      sourceUrl := args.sourceUrl
      sha256 := args.sha256
      signature := args.signature
      provenance := args.provenance
      fetchedAt := r.time 2 }
    "fetch" (r.time 3) (PyStr.ofString "Fetched from " ++ args.sourceUrl)

def registerFetch (args : FetchArgs) (s : RegistryQuarantineStore) :
    RegistryQuarantineStore × Answer :=
  if env.enabled = false then (s, .raised .disabled)
  else
    match env.abuse with
    | some message => (s, .raised (.abuse message))
    | none =>
      let (s, removed) := pruneStaleEntries (env.readings.time 1) env.pruneSaved s
      match removed with
      | none => (s, .raised .persist)
      | some _ =>
        if maxEntries ≤ s.entries.size then (s, .raised .entryLimit)
        else
          let entry := newEntry env.readings args
          saveThen env.saved (.entry entry) { s with entries := s.entries.put entry }

/-- The text that a publisher signs. -/
def signedText (name version sha256 : PyStr) : PyStr :=
  name ++ atSign :: (version ++ colon :: sha256)

/-- `_verify_signature`; `none` is a `UnicodeEncodeError`. -/
def verifyEntrySignature (e : RegistryEntry) (s : RegistryQuarantineStore) :
    Option (Except PyStr TrustRoot) :=
  if e.signature = [] then some (.error (PyStr.ofString "Missing signature"))
  else (signedText e.name e.version e.sha256).chars?.map fun data =>
    s.trustRootStore.verifySignature policy.crypto (env.readings.time 1) (utf8 data) e.signature []

/-- Put the entry back under its key. -/
def store (e : RegistryEntry) (s : RegistryQuarantineStore) : RegistryQuarantineStore :=
  { s with entries := s.entries.put e }

/-- Hold the entry in quarantine. -/
def hold (e : RegistryEntry) (action : String) (detail : PyStr) (s : RegistryQuarantineStore) :
    RegistryQuarantineStore × Answer :=
  saveThen env.saved (.verified false)
    (store (RegistryEntry.addAudit { e with state := .quarantined } action (env.readings.time 2)
      detail) s)

def pass (e : RegistryEntry) (s : RegistryQuarantineStore) : RegistryQuarantineStore × Answer :=
  saveThen env.saved (.verified true)
    (store (RegistryEntry.addAudit { e with state := .verified, verifiedAt := env.readings.time 3 }
      "verify" (env.readings.time 4) (PyStr.ofString "Integrity check passed")) s)

/-- The comparison of the hashes and the signature policy. -/
def verifyHash (e : RegistryEntry) (actualSha256 : PyStr) (s : RegistryQuarantineStore) :
    RegistryQuarantineStore × Answer :=
  if actualSha256 = e.sha256 then
    match verifyEntrySignature policy env e s with
    | none => (store e s, .raised .unicodeEncode)
    | some (.ok _) => pass env e s
    | some (.error message) =>
      if policy.strict then
        hold env e "verify_failed" (PyStr.ofString "Signature policy failed: " ++ message) s
      else
        pass env (e.addAudit "policy_warning" (env.readings.time 2)
          (PyStr.ofString "Signature check failed: " ++ message)) s
  else
    hold env e "verify_failed" (PyStr.ofString "Hash mismatch: expected " ++ e.sha256 ++
      PyStr.ofString ", got " ++ actualSha256) s

def verifyIntegrity (args : VerifyArgs) (s : RegistryQuarantineStore) :
    RegistryQuarantineStore × Answer :=
  if env.enabled = false then (s, .raised .disabled)
  else
    match s.entries.get? (entryKey args.name args.version) with
    | none => (s, .raised (.noEntry (entryKey args.name args.version)))
    | some e =>
      if e.state ≠ .fetched ∧ e.state ≠ .quarantined then (s, .raised (.cannotVerify e.state))
      else
        match args.preflight with
        | .noPath => (s, .raised .filePathRequired)
        | .notFound => (s, .raised .fileNotFound)
        | .noScanner => verifyHash policy env e args.actualSha256 s
        | .safe =>
          verifyHash policy env (e.addAudit "preflight_scan" (env.readings.time 0)
            (PyStr.ofString "Code safety check passed")) args.actualSha256 s
        | .violation message =>
          let detail := PyStr.ofString "Code safety violation: " ++ message
          if policy.strict then hold env e "preflight_failed" detail s
          else
            verifyHash policy env (e.addAudit "policy_warning" (env.readings.time 0) detail)
              args.actualSha256 s

def activate (name version : PyStr) (s : RegistryQuarantineStore) :
    RegistryQuarantineStore × Answer :=
  if env.enabled = false then (s, .raised .disabled)
  else
    match s.entries.get? (entryKey name version) with
    | none => (s, .raised (.noEntry (entryKey name version)))
    | some e =>
      if e.state ≠ .verified then (s, .raised (.cannotActivate e.state))
      else
        let e := RegistryEntry.addAudit
          { e with state := .activated, activatedAt := env.readings.time 0 } "activate"
          (env.readings.time 1) (PyStr.ofString "Operator-approved activation")
        saveThen env.saved (.entry e) (store e s)

/-- `reason or text`. -/
def reasonOr (reason : PyStr) (text : String) : PyStr :=
  if reason = [] then PyStr.ofString text else reason

def reject (name version reason : PyStr) (s : RegistryQuarantineStore) :
    RegistryQuarantineStore × Answer :=
  if env.enabled = false then (s, .raised .disabled)
  else
    match s.entries.get? (entryKey name version) with
    | none => (s, .raised (.noEntry (entryKey name version)))
    | some e =>
      if e.state = .activated then (s, .raised .cannotReject)
      else
        let e := RegistryEntry.addAudit
          { e with
            state := .rejected, rejectedAt := env.readings.time 0, rejectionReason := reason }
          "reject" (env.readings.time 1) (reasonOr reason "Operator rejected")
        saveThen env.saved (.entry e) (store e s)

def rollback (name version reason : PyStr) (s : RegistryQuarantineStore) :
    RegistryQuarantineStore × Answer :=
  if env.enabled = false then (s, .raised .disabled)
  else
    match s.entries.get? (entryKey name version) with
    | none => (s, .raised (.noEntry (entryKey name version)))
    | some e =>
      if e.state ≠ .activated then (s, .raised (.cannotRollback e.state))
      else
        let e := RegistryEntry.addAudit { e with state := .rolledBack } "rollback"
          (env.readings.time 0) (reasonOr reason "Operator-initiated rollback")
        saveThen env.saved (.entry e) (store e s)

def removeEntry (name version : PyStr) (s : RegistryQuarantineStore) :
    RegistryQuarantineStore × Answer :=
  if env.enabled = false then (s, .raised .disabled)
  else
    match s.entries.get? (entryKey name version) with
    | none => (s, .removed false)
    | some e =>
      if e.state ≠ .rejected ∧ e.state ≠ .rolledBack then (s, .raised (.cannotRemove e.state))
      else
        saveThen env.saved (.removed true)
          { s with entries := s.entries.drop (entryKey name version) }

/-- A new process reads the index and the trust file. -/
def restart (s : RegistryQuarantineStore) : RegistryQuarantineStore :=
  { s with
    entries := s.file.getD Table.empty
    trustRootStore := s.trustRootStore.restart }

end RegistryQuarantineStore

/-! ## One call -/

inductive Call where
  | registerFetch (args : FetchArgs)
  | verifyIntegrity (args : VerifyArgs)
  | activate (name version : PyStr)
  | reject (name version reason : PyStr)
  | rollback (name version reason : PyStr)
  | removeEntry (name version : PyStr)
  | prune
  | addRoot (root : TrustRoot)
  | revokeRoot (keyId reason : PyStr)
  /-- `verify_signature` of the trust roots, with a key id or with an empty one. -/
  | verifySignature (data : List UInt8) (signatureB64 keyId : PyStr)
  | restart

open RegistryQuarantineStore in
def step (policy : Policy) (s : RegistryQuarantineStore) (input : Environment × Call) :
    RegistryQuarantineStore × Answer :=
  let (env, call) := input
  match call with
  | .registerFetch args => registerFetch env args s
  | .verifyIntegrity args => verifyIntegrity policy env args s
  | .activate name version => activate env name version s
  | .reject name version reason => reject env name version reason s
  | .rollback name version reason => rollback env name version reason s
  | .removeEntry name version => removeEntry env name version s
  | .prune =>
    (pruneStaleEntries (env.readings.time 1) env.pruneSaved s).map id fun removed =>
      removed.elim (.raised .persist) .pruned
  | .addRoot root =>
    let (trust, added) := s.trustRootStore.addRoot policy.crypto (env.readings.time 0) env.saved root
    ({ s with trustRootStore := trust }, if added then .done else .raised .unicodeEncode)
  | .revokeRoot keyId reason =>
    let (trust, found) := s.trustRootStore.revokeRoot env.saved keyId reason
    ({ s with trustRootStore := trust }, .revoked found)
  | .verifySignature data signatureB64 keyId =>
    (s, .signature (s.trustRootStore.verifySignature policy.crypto (env.readings.time 1) data
      signatureB64 keyId))
  | .restart => (s.restart, .done)

end OpenClaw.Registry
