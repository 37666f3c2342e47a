import OpenClaw.Registry.QuarantineStore

/-!
# What a call does to one entry

Every call but a restart moves the entry under a key along one edge of the lifecycle, or leaves it.
-/

namespace OpenClaw.Registry

open Foundation
set_option autoImplicit false

/-- The fields that only `register_fetch` writes. -/
structure SameBody (e e' : RegistryEntry) : Prop where
  name : e'.name = e.name
  version : e'.version = e.version
  sha256 : e'.sha256 = e.sha256
  signature : e'.signature = e.signature

theorem SameBody.refl (e : RegistryEntry) : SameBody e e := ⟨rfl, rfl, rfl, rfl⟩

theorem SameBody.trans {e e' e'' : RegistryEntry} (h : SameBody e e') (h' : SameBody e' e'') :
    SameBody e e'' :=
  ⟨h'.name.trans h.name, h'.version.trans h.version, h'.sha256.trans h.sha256,
    h'.signature.trans h.signature⟩

theorem SameBody.key {e e' : RegistryEntry} (h : SameBody e e') : e'.key = e.key := by
  rw [RegistryEntry.key, RegistryEntry.key, h.name, h.version]

theorem addAudit_same (e : RegistryEntry) (action : String) (now : ℚ) (detail : PyStr) :
    SameBody e (e.addAudit action now detail) := ⟨rfl, rfl, rfl, rfl⟩

/-- `verify_integrity` works on the entry. -/
def Open (e : RegistryEntry) : Prop := e.state = .fetched ∨ e.state = .quarantined

/-- The signature of the entry verifies under a trust root. -/
def SignedBy (policy : Policy) (trust : TrustRootStore) (now : ℚ) (e : RegistryEntry) : Prop :=
  ∃ data root, (RegistryQuarantineStore.signedText e.name e.version e.sha256).chars? = some data ∧
    trust.verifySignature policy.crypto now (utf8 data) e.signature [] = .ok root

/-- `register_fetch` gets as far as storing its entry. -/
structure Admits (env : Environment) (s : RegistryQuarantineStore) : Prop where
  enabled : env.enabled = true
  abuse : env.abuse = none
  pruned : (s.pruneStaleEntries (env.readings.time 1) env.pruneSaved).2.isSome = true
  room : (s.entries.prune (env.readings.time 1)).size < maxEntries

/-- The call prunes the entries. -/
def Prunes (env : Environment) (call : Call) : Prop :=
  call = .prune ∨ (∃ args, call = .registerFetch args) ∧ env.enabled = true ∧ env.abuse = none

/-- What a call can do to the entry under the key `K`. -/
inductive EntryStep (policy : Policy) (s : RegistryQuarantineStore) (env : Environment)
    (K : PyStr) : Call → Option RegistryEntry → Option RegistryEntry → Prop where
  | kept (call : Call) (o : Option RegistryEntry) : EntryStep policy s env K call o o
  | fetched {args : FetchArgs} (before : Option RegistryEntry) {e : RegistryEntry} :
      Admits env s → e = RegistryQuarantineStore.newEntry env.readings args → e.key = K →
      EntryStep policy s env K (.registerFetch args) before (some e)
  | pruned {call : Call} {e : RegistryEntry} :
      Prunes env call → e.stale (env.readings.time 1) = true → EntryStep policy s env K call (some e) none
  | verified {args : VerifyArgs} {e e' : RegistryEntry} :
      entryKey args.name args.version = K → Open e → args.actualSha256 = e.sha256 →
      SameBody e e' → e'.state = .verified →
      (policy.strict = true → SignedBy policy s.trustRootStore (env.readings.time 1) e) →
      EntryStep policy s env K (.verifyIntegrity args) (some e) (some e')
  | held {args : VerifyArgs} {e e' : RegistryEntry} : entryKey args.name args.version = K →
      Open e → SameBody e e' → Open e' →
      EntryStep policy s env K (.verifyIntegrity args) (some e) (some e')
  | activated {name version : PyStr} {e e' : RegistryEntry} : entryKey name version = K →
      e.state = .verified → SameBody e e' → e'.state = .activated →
      EntryStep policy s env K (.activate name version) (some e) (some e')
  | rejected {name version reason : PyStr} {e e' : RegistryEntry} : entryKey name version = K →
      e.state ≠ .activated → SameBody e e' → e'.state = .rejected →
      e'.rejectedAt = env.readings.time 0 →
      EntryStep policy s env K (.reject name version reason) (some e) (some e')
  | rolledBack {name version reason : PyStr} {e e' : RegistryEntry} : entryKey name version = K →
      e.state = .activated → SameBody e e' → e'.state = .rolledBack →
      (∃ a, e'.auditTrail.getLast? = some a ∧ a.timestamp = env.readings.time 0) →
      EntryStep policy s env K (.rollback name version reason) (some e) (some e')
  | removed {name version : PyStr} {e : RegistryEntry} : entryKey name version = K →
      e.state = .rejected ∨ e.state = .rolledBack →
      EntryStep policy s env K (.removeEntry name version) (some e) none

section Step
variable {policy : Policy} {env : Environment} {K : PyStr} {s : RegistryQuarantineStore}

theorem saveThen_entries (saved : Bool) (answer : Answer) (s : RegistryQuarantineStore) :
    (s.saveThen saved answer).1.entries = s.entries := by
  unfold RegistryQuarantineStore.saveThen
  split <;> rfl

theorem saveThen_trust (saved : Bool) (answer : Answer) (s : RegistryQuarantineStore) :
    (s.saveThen saved answer).1.trustRootStore = s.trustRootStore := by
  unfold RegistryQuarantineStore.saveThen
  split <;> rfl

theorem get?_prune (now : ℚ) (entries : Entries) (K : PyStr) :
    (entries.prune now).get? K =
      (entries.get? K).bind fun e => if e.stale now then none else some e :=
  Table.get?_filterMap _ _ _ _

theorem pruneStaleEntries_entries (now : ℚ) (saved : Bool) (s : RegistryQuarantineStore) :
    (s.pruneStaleEntries now saved).1.entries = s.entries.prune now := by
  unfold RegistryQuarantineStore.pruneStaleEntries
  simp only
  split
  · rfl
  · split <;> rfl

/-- Pruning keeps an entry or removes a stale one. -/
theorem prune_step {call : Call} (hcall : Prunes env call) :
    EntryStep policy s env K call (s.entries.get? K)
      ((s.entries.prune (env.readings.time 1)).get? K) := by
  rw [get?_prune]
  cases hs : s.entries.get? K with
  | none => exact .kept _ _
  | some e =>
    rw [Option.bind_some]
    split
    · rename_i hstale
      exact .pruned hcall hstale
    · exact .kept _ _

/-- A call that puts the entry of its key back. -/
theorem store_step {call : Call} {e e' : RegistryEntry}
    (he : s.entries.get? e.key = some e) (hsame : SameBody e e')
    (h : e.key = K → EntryStep policy s env K call (some e) (some e')) :
    EntryStep policy s env K call (s.entries.get? K) ((s.store e').entries.get? K) := by
  rw [RegistryQuarantineStore.store, Table.get?_put, hsame.key]
  split
  · rename_i hk
    rw [← hk, he, hk]
    exact h hk
  · exact .kept _ _

/-- A call that changes the entry of a name and a version, and saves it. -/
theorem saved_step {call : Call} {name version : PyStr} {e e' : RegistryEntry} (saved : Bool)
    (answer : Answer) (hget : s.entries.get? (entryKey name version) = some e)
    (hbody : SameBody e e')
    (h : entryKey name version = K → EntryStep policy s env K call (some e) (some e')) :
    EntryStep policy s env K call (s.entries.get? K)
      (((s.store e').saveThen saved answer).1.entries.get? K) := by
  have hkey : e.key = entryKey name version := Table.key_of_get? hget
  rw [saveThen_entries]
  exact store_step (hkey ▸ hget) hbody fun hk => h (hkey.symm.trans hk)

theorem registerFetch_step (args : FetchArgs) :
    EntryStep policy s env K (.registerFetch args) (s.entries.get? K)
      ((s.registerFetch env args).1.entries.get? K) := by
  unfold RegistryQuarantineStore.registerFetch
  split
  · exact .kept _ _
  rename_i henabled
  rw [Bool.not_eq_false] at henabled
  split
  · exact .kept _ _
  rename_i habuse
  have hprune : EntryStep policy s env K (.registerFetch args) (s.entries.get? K)
      ((s.pruneStaleEntries (env.readings.time 1) env.pruneSaved).1.entries.get? K) := by
    rw [pruneStaleEntries_entries]
    exact prune_step (.inr ⟨⟨args, rfl⟩, henabled, habuse⟩)
  simp only
  split
  · exact hprune
  rename_i hpruned
  split
  · exact hprune
  rename_i hroom
  rw [saveThen_entries, Table.get?_put]
  split
  · rename_i hkey
    rw [pruneStaleEntries_entries] at hroom
    refine .fetched _ ⟨henabled, habuse, ?_, not_le.mp hroom⟩ rfl hkey
    rw [hpruned]
    rfl
  · exact hprune

section Verify
variable {args : VerifyArgs} {e e' : RegistryEntry} (he : s.entries.get? e.key = some e)
  (hkey : e.key = entryKey args.name args.version) (hopen : Open e)
include he hkey hopen

theorem hold_step (hsame : SameBody e e') (action : String) (detail : PyStr) :
    EntryStep policy s env K (.verifyIntegrity args) (s.entries.get? K)
      ((s.hold env e' action detail).1.entries.get? K) := by
  unfold RegistryQuarantineStore.hold
  rw [saveThen_entries]
  have hbody : SameBody e (RegistryEntry.addAudit { e' with state := .quarantined } action
      (env.readings.time 2) detail) := hsame.trans ⟨rfl, rfl, rfl, rfl⟩
  apply store_step he hbody
  intro hk
  exact .held (hkey.symm.trans hk) hopen hbody (.inr rfl)

theorem pass_step (hsame : SameBody e e') (hsha : args.actualSha256 = e.sha256)
    (hsigned : policy.strict = true →
      SignedBy policy s.trustRootStore (env.readings.time 1) e) :
    EntryStep policy s env K (.verifyIntegrity args) (s.entries.get? K)
      ((s.pass env e').1.entries.get? K) := by
  unfold RegistryQuarantineStore.pass
  rw [saveThen_entries]
  have hbody : SameBody e (RegistryEntry.addAudit
      { e' with state := .verified, verifiedAt := env.readings.time 3 } "verify"
      (env.readings.time 4) (PyStr.ofString "Integrity check passed")) :=
    hsame.trans ⟨rfl, rfl, rfl, rfl⟩
  apply store_step he hbody
  intro hk
  exact .verified (hkey.symm.trans hk) hopen hsha hbody rfl hsigned

theorem verifyHash_step (hsame : SameBody e e') (hstate : e'.state = e.state) :
    EntryStep policy s env K (.verifyIntegrity args) (s.entries.get? K)
      ((s.verifyHash policy env e' args.actualSha256).1.entries.get? K) := by
  unfold RegistryQuarantineStore.verifyHash
  split
  · rename_i hsha
    rw [hsame.sha256] at hsha
    split
    · apply store_step he hsame
      intro hk
      refine .held (hkey.symm.trans hk) hopen hsame ?_
      rcases hopen with h | h
      · exact .inl (hstate.trans h)
      · exact .inr (hstate.trans h)
    · rename_i root hsig
      apply pass_step he hkey hopen hsame hsha
      intro _
      unfold RegistryQuarantineStore.verifyEntrySignature at hsig
      split at hsig
      · cases hsig
      · obtain ⟨data, hdata, hok⟩ := Option.map_eq_some_iff.mp hsig
        rw [hsame.name, hsame.version, hsame.sha256] at hdata
        rw [hsame.signature] at hok
        exact ⟨data, root, hdata, hok⟩
    · split
      · exact hold_step he hkey hopen hsame _ _
      · rename_i hlax
        apply pass_step he hkey hopen (hsame.trans (addAudit_same e' _ _ _)) hsha
        intro hstrict
        exact absurd hstrict hlax
  · exact hold_step he hkey hopen hsame _ _

end Verify

theorem verifyIntegrity_step (args : VerifyArgs) :
    EntryStep policy s env K (.verifyIntegrity args) (s.entries.get? K)
      ((s.verifyIntegrity policy env args).1.entries.get? K) := by
  unfold RegistryQuarantineStore.verifyIntegrity
  split
  · exact .kept _ _
  split
  · exact .kept _ _
  rename_i e hget
  have hkey : e.key = entryKey args.name args.version := Table.key_of_get? hget
  have he : s.entries.get? e.key = some e := hkey ▸ hget
  split
  · exact .kept _ _
  rename_i hstate
  have hopen : Open e := by
    by_contra hnot
    rw [Open, not_or] at hnot
    exact hstate hnot
  split
  · exact .kept _ _
  · exact .kept _ _
  · exact verifyHash_step he hkey hopen (.refl e) rfl
  · exact verifyHash_step he hkey hopen (addAudit_same e _ _ _) rfl
  · simp only
    split
    · exact hold_step he hkey hopen (.refl e) _ _
    · exact verifyHash_step he hkey hopen (addAudit_same e _ _ _) rfl

theorem activate_step (name version : PyStr) :
    EntryStep policy s env K (.activate name version) (s.entries.get? K)
      ((s.activate env name version).1.entries.get? K) := by
  unfold RegistryQuarantineStore.activate
  split
  · exact .kept _ _
  split
  · exact .kept _ _
  rename_i e hget
  split
  · exact .kept _ _
  rename_i hstate
  refine saved_step _ _ hget ⟨rfl, rfl, rfl, rfl⟩ fun hk => ?_
  exact .activated hk (not_not.mp hstate) ⟨rfl, rfl, rfl, rfl⟩ rfl

theorem reject_step (name version reason : PyStr) :
    EntryStep policy s env K (.reject name version reason) (s.entries.get? K)
      ((s.reject env name version reason).1.entries.get? K) := by
  unfold RegistryQuarantineStore.reject
  split
  · exact .kept _ _
  split
  · exact .kept _ _
  rename_i e hget
  split
  · exact .kept _ _
  rename_i hstate
  refine saved_step _ _ hget ⟨rfl, rfl, rfl, rfl⟩ fun hk => ?_
  exact .rejected hk hstate ⟨rfl, rfl, rfl, rfl⟩ rfl rfl

theorem rollback_step (name version reason : PyStr) :
    EntryStep policy s env K (.rollback name version reason) (s.entries.get? K)
      ((s.rollback env name version reason).1.entries.get? K) := by
  unfold RegistryQuarantineStore.rollback
  split
  · exact .kept _ _
  split
  · exact .kept _ _
  rename_i e hget
  split
  · exact .kept _ _
  rename_i hstate
  refine saved_step _ _ hget ⟨rfl, rfl, rfl, rfl⟩ fun hk => ?_
  refine .rolledBack hk (not_not.mp hstate) ⟨rfl, rfl, rfl, rfl⟩ rfl ?_
  exact ⟨_, List.getLast?_concat, rfl⟩

theorem removeEntry_step (name version : PyStr) :
    EntryStep policy s env K (.removeEntry name version) (s.entries.get? K)
      ((s.removeEntry env name version).1.entries.get? K) := by
  unfold RegistryQuarantineStore.removeEntry
  split
  · exact .kept _ _
  split
  · exact .kept _ _
  rename_i e hget
  split
  · exact .kept _ _
  rename_i hstate
  rw [saveThen_entries, Table.get?_drop]
  split
  · rename_i hk
    rw [← hk, hget]
    refine .removed rfl ?_
    by_contra hnot
    rw [not_or] at hnot
    exact hstate hnot
  · exact .kept _ _

/-- What a call does to the entry under a key. -/
theorem step_entry (policy : Policy) (s : RegistryQuarantineStore) (input : Environment × Call)
    (K : PyStr) (hrun : input.2 ≠ .restart) :
    EntryStep policy s input.1 K input.2 (s.entries.get? K)
      ((step policy s input).1.entries.get? K) := by
  obtain ⟨env, call⟩ := input
  cases call with
  | registerFetch args => exact registerFetch_step args
  | verifyIntegrity args => exact verifyIntegrity_step args
  | activate name version => exact activate_step name version
  | reject name version reason => exact reject_step name version reason
  | rollback name version reason => exact rollback_step name version reason
  | removeEntry name version => exact removeEntry_step name version
  | prune =>
    simp only [step, Prod.map, id, pruneStaleEntries_entries]
    exact prune_step (.inl rfl)
  | addRoot root => exact .kept _ _
  | revokeRoot keyId reason => exact .kept _ _
  | verifySignature data signatureB64 keyId => exact .kept _ _
  | restart => exact absurd rfl hrun

end Step

end OpenClaw.Registry
