import OpenClaw.Foundation.Delimited
import OpenClaw.Registry.EntryLifecycle

/-!
# Signatures of the registry

In strict mode an entry is verified by a trust root that is live at that moment, and a revoked key
stays barred, in every run with restarts. What the signature says of the entry depends on the
delimiters in names and versions, and the bar on every revocation reaching the trust file and on no
key coming back.
-/

namespace OpenClaw.Registry

open Foundation
set_option autoImplicit false

/-- What a publisher signs. -/
structure Triple where
  name : PyStr
  version : PyStr
  sha256 : PyStr
  deriving DecidableEq

def Triple.text (t : Triple) : PyStr := RegistryQuarantineStore.signedText t.name t.version t.sha256

def RegistryEntry.triple (e : RegistryEntry) : Triple := ⟨e.name, e.version, e.sha256⟩

/-- As many delimiters in the name and in the version. -/
def SameDelimiters (t t' : Triple) : Prop :=
  t.name.count atSign = t'.name.count atSign ∧ t.version.count colon = t'.version.count colon

instance (t t' : Triple) : Decidable (SameDelimiters t t') :=
  inferInstanceAs (Decidable (_ ∧ _))

theorem triple_of_text {t t' : Triple} (h : t.text = t'.text) (hsame : SameDelimiters t t') :
    t = t' := by
  obtain ⟨hname, hrest⟩ := delimited_inj h hsame.1
  obtain ⟨hversion, hsha⟩ := delimited_inj hrest hsame.2
  cases t
  cases t'
  simp only [Triple.mk.injEq]
  exact ⟨hname, hversion, hsha⟩

/-- Signatures cannot be forged: one that verifies under a key was made with it, for a triple, and
verifies for the text of that triple only. -/
structure Unforgeable (crypto : Crypto) (Made : PyStr → List UInt8 → Triple → Prop) : Prop where
  made : ∀ (root : TrustRoot) (signature data : List UInt8),
    root.verifies crypto signature data = true → ∃ t, Made root.publicKeyPem signature t
  binds : ∀ (root : TrustRoot) (signature data : List UInt8) (t : Triple),
    root.verifies crypto signature data = true → Made root.publicKeyPem signature t →
    t.text.chars?.map utf8 = some data

variable (policy : Policy) (Made : PyStr → List UInt8 → Triple → Prop)

/-- A live root of the store signed exactly the triple of the entry. -/
def Backing (trust : TrustRootStore) (now : ℚ) (e : RegistryEntry) : Prop :=
  ∃ root, trust.roots.get? root.keyId = some root ∧ root.revoked = false ∧
    root.validAt now = true ∧ ∃ signature, policy.crypto.b64decode e.signature = some signature ∧
      (∃ t, Made root.publicKeyPem signature t) ∧
      ∀ t, Made root.publicKeyPem signature t → t = e.triple

/-- Every signature by a root of the store over the text of the entry has its delimiters. -/
def Unambiguous (trust : TrustRootStore) (e : RegistryEntry) : Prop :=
  ∀ root ∈ trust.roots.rows, ∀ signature t, policy.crypto.b64decode e.signature = some signature →
    Made root.publicKeyPem signature t → t.text = e.triple.text → SameDelimiters t e.triple

/-- No revoked key is added again: neither under its id nor, unless revoked, under another. -/
def Unrevived (trust : TrustRootStore) (root : TrustRoot) : Prop :=
  ∀ q ∈ trust.roots.rows, q.revoked = true →
    q.keyId ≠ root.keyId ∧ (q.publicKeyPem = root.publicKeyPem → root.revoked = true)

/-- The key of the root is under no other id. -/
def Alone (trust : TrustRootStore) (keyId : PyStr) : Prop :=
  ∀ p ∈ trust.roots.rows, p.keyId = keyId → ∀ q ∈ trust.roots.rows,
    q.publicKeyPem = p.publicKeyPem → q.keyId = keyId ∨ q.revoked = true

/-- Every revocation has reached the file, and the file holds no key that is revoked in memory. -/
structure Synced (trust : TrustRootStore) : Prop where
  saved : ∀ p ∈ trust.roots.rows, p.revoked = true →
    (trust.file.getD Table.empty).get? p.keyId = some p
  barred : ∀ q ∈ (trust.file.getD Table.empty).rows, q.revoked = false →
    ∀ p ∈ trust.roots.rows, p.revoked = true →
      p.keyId ≠ q.keyId ∧ p.publicKeyPem ≠ q.publicKeyPem

/-- What the calls of a run have to keep to. -/
structure Accountable (s : RegistryQuarantineStore) (call : Call) : Prop where
  verify : ∀ args e, call = .verifyIntegrity args →
    s.entries.get? (entryKey args.name args.version) = some e →
    Unambiguous policy Made s.trustRootStore e
  add : ∀ root, call = .addRoot root → Unrevived s.trustRootStore root
  revoke : ∀ keyId reason, call = .revokeRoot keyId reason → Alone s.trustRootStore keyId
  restart : call = .restart → Synced s.trustRootStore

/-! ## Verified entries -/

section Verified
variable {policy Made}

theorem backing_of_signed {trust : TrustRootStore} {now : ℚ} {e : RegistryEntry}
    (hunforged : Unforgeable policy.crypto Made) (hsigned : SignedBy policy trust now e)
    (hunambiguous : Unambiguous policy Made trust e) : Backing policy Made trust now e := by
  obtain ⟨data, root, hdata, hok⟩ := hsigned
  obtain ⟨⟨hstored, hlive⟩, hvalid, signature, hdecode, hverifies⟩ :=
    TrustRootStore.verifySignature_ok hok
  refine ⟨root, hstored, hlive, hvalid rfl, signature, hdecode,
    hunforged.made root signature _ hverifies, ?_⟩
  intro t ht
  obtain ⟨chars, hchars, hbytes⟩ :=
    Option.map_eq_some_iff.mp (hunforged.binds root signature _ t hverifies ht)
  have hsame : chars = data := utf8_injective hbytes
  have htext : t.text = e.triple.text := by
    rw [← PyStr.ofList_chars? hchars, hsame, PyStr.ofList_chars? hdata]
    rfl
  exact triple_of_text htext (hunambiguous root (Table.mem_of_get? hstored) signature t hdecode ht
    htext)

theorem Backing.congr {trust : TrustRootStore} {now : ℚ} {e e' : RegistryEntry}
    (h : Backing policy Made trust now e) (hsame : SameBody e e') :
    Backing policy Made trust now e' := by
  obtain ⟨root, hstored, hlive, hvalid, signature, hdecode, hmade, hall⟩ := h
  refine ⟨root, hstored, hlive, hvalid, signature, hsame.signature ▸ hdecode, hmade, ?_⟩
  intro t ht
  rw [hall t ht, RegistryEntry.triple, RegistryEntry.triple, hsame.name, hsame.version,
    hsame.sha256]

end Verified

/-! ## The index file -/

section File
variable {policy} {s t : RegistryQuarantineStore} {env : Environment} {K : PyStr}
  {e : RegistryEntry}

/-- The entry is in the index file. -/
def Filed (s : RegistryQuarantineStore) (K : PyStr) (e : RegistryEntry) : Prop :=
  (s.file.getD Table.empty).get? K = some e

/-- What is in the file behind was in it, was stored, or is stored behind. -/
def Writes (s s' : RegistryQuarantineStore) : Prop := ∀ K e, Filed s' K e →
  Filed s K e ∨ s.entries.get? K = some e ∨ s'.entries.get? K = some e

theorem writes_of_file (h : t.file = s.file) : Writes s t := by
  intro K e he
  rw [Filed, h] at he
  exact .inl he

theorem writes_saveThen {saved : Bool} {answer : Answer} (h : Writes s t) :
    Writes s (t.saveThen saved answer).1 := by
  intro K e he
  rw [saveThen_entries]
  unfold RegistryQuarantineStore.saveThen at he
  split at he
  · exact .inr (.inr he)
  · exact h K e he

theorem writes_prune (now : ℚ) (saved : Bool) : Writes s (s.pruneStaleEntries now saved).1 := by
  intro K e he
  rw [pruneStaleEntries_entries]
  unfold RegistryQuarantineStore.pruneStaleEntries at he
  simp only at he
  split at he
  · exact .inl he
  split at he
  · exact .inr (.inr he)
  · exact .inl he

/-- An entry that is not pruned was stored. -/
theorem get?_of_prune {now : ℚ} {entries : Entries} (h : (entries.prune now).get? K = some e) :
    entries.get? K = some e := by
  rw [get?_prune] at h
  obtain ⟨q, hq, hkept⟩ := Option.bind_eq_some_iff.mp h
  split at hkept
  · cases hkept
  · rw [hq]
    exact hkept

theorem writes_registerFetch (args : FetchArgs) : Writes s (s.registerFetch env args).1 := by
  have hprune := writes_prune (s := s) (env.readings.time 1) env.pruneSaved
  unfold RegistryQuarantineStore.registerFetch
  split
  · exact writes_of_file rfl
  split
  · exact writes_of_file rfl
  simp only
  split
  · exact hprune
  split
  · exact hprune
  · apply writes_saveThen
    intro K e he
    rcases hprune K e he with h | h | h
    · exact .inl h
    · exact .inr (.inl h)
    · rw [pruneStaleEntries_entries] at h
      exact .inr (.inl (get?_of_prune h))

theorem writes_verifyHash (e : RegistryEntry) (actualSha256 : PyStr) :
    Writes s (s.verifyHash policy env e actualSha256).1 := by
  unfold RegistryQuarantineStore.verifyHash RegistryQuarantineStore.hold
    RegistryQuarantineStore.pass
  split
  · split
    · exact writes_of_file rfl
    · exact writes_saveThen (writes_of_file rfl)
    split
    · exact writes_saveThen (writes_of_file rfl)
    · exact writes_saveThen (writes_of_file rfl)
  · exact writes_saveThen (writes_of_file rfl)

theorem writes_verifyIntegrity (args : VerifyArgs) :
    Writes s (s.verifyIntegrity policy env args).1 := by
  unfold RegistryQuarantineStore.verifyIntegrity
  split
  · exact writes_of_file rfl
  split
  · exact writes_of_file rfl
  split
  · exact writes_of_file rfl
  split
  · exact writes_of_file rfl
  · exact writes_of_file rfl
  · exact writes_verifyHash _ _
  · exact writes_verifyHash _ _
  · simp only
    split
    · exact writes_saveThen (writes_of_file rfl)
    · exact writes_verifyHash _ _

/-- Every call but a restart writes only what is stored. -/
theorem step_writes (policy : Policy) (s : RegistryQuarantineStore) (input : Environment × Call) :
    Writes s (step policy s input).1 := by
  obtain ⟨env, call⟩ := input
  cases call with
  | registerFetch args => exact writes_registerFetch args
  | verifyIntegrity args => exact writes_verifyIntegrity args
  | activate name version =>
    simp only [step, RegistryQuarantineStore.activate]
    split
    · exact writes_of_file rfl
    split
    · exact writes_of_file rfl
    split
    · exact writes_of_file rfl
    · exact writes_saveThen (writes_of_file rfl)
  | reject name version reason =>
    simp only [step, RegistryQuarantineStore.reject]
    split
    · exact writes_of_file rfl
    split
    · exact writes_of_file rfl
    split
    · exact writes_of_file rfl
    · exact writes_saveThen (writes_of_file rfl)
  | rollback name version reason =>
    simp only [step, RegistryQuarantineStore.rollback]
    split
    · exact writes_of_file rfl
    split
    · exact writes_of_file rfl
    split
    · exact writes_of_file rfl
    · exact writes_saveThen (writes_of_file rfl)
  | removeEntry name version =>
    simp only [step, RegistryQuarantineStore.removeEntry]
    split
    · exact writes_of_file rfl
    split
    · exact writes_of_file rfl
    split
    · exact writes_of_file rfl
    · exact writes_saveThen (writes_of_file rfl)
  | prune => exact writes_prune _ _
  | addRoot root => exact writes_of_file rfl
  | revokeRoot keyId reason => exact writes_of_file rfl
  | verifySignature data signatureB64 keyId => exact writes_of_file rfl
  | restart => exact writes_of_file rfl

/-! ## The trust roots -/

theorem pruneStaleEntries_trust (now : ℚ) (saved : Bool) :
    (s.pruneStaleEntries now saved).1.trustRootStore = s.trustRootStore := by
  unfold RegistryQuarantineStore.pruneStaleEntries
  simp only
  split
  · rfl
  · split <;> rfl

theorem verifyHash_trust (e : RegistryEntry) (actualSha256 : PyStr) :
    (s.verifyHash policy env e actualSha256).1.trustRootStore = s.trustRootStore := by
  unfold RegistryQuarantineStore.verifyHash RegistryQuarantineStore.hold
    RegistryQuarantineStore.pass
  split
  · split
    · rfl
    · rw [saveThen_trust]
      rfl
    split
    · rw [saveThen_trust]
      rfl
    · rw [saveThen_trust]
      rfl
  · rw [saveThen_trust]
    rfl

/-- Only three calls change the trust roots. -/
theorem step_trust (policy : Policy) (s : RegistryQuarantineStore) (env : Environment) {call : Call}
    (hadd : ∀ root, call ≠ .addRoot root) (hrevoke : ∀ keyId reason, call ≠ .revokeRoot keyId reason)
    (hrestart : call ≠ .restart) :
    (step policy s (env, call)).1.trustRootStore = s.trustRootStore := by
  cases call with
  | registerFetch args =>
    simp only [step, RegistryQuarantineStore.registerFetch]
    split
    · rfl
    split
    · rfl
    split
    · exact pruneStaleEntries_trust _ _
    split
    · exact pruneStaleEntries_trust _ _
    · rw [saveThen_trust]
      exact pruneStaleEntries_trust _ _
  | verifyIntegrity args =>
    simp only [step, RegistryQuarantineStore.verifyIntegrity]
    split
    · rfl
    split
    · rfl
    split
    · rfl
    split
    · rfl
    · rfl
    · exact verifyHash_trust _ _
    · exact verifyHash_trust _ _
    split
    · exact saveThen_trust _ _ _
    · exact verifyHash_trust _ _
  | activate name version =>
    simp only [step, RegistryQuarantineStore.activate]
    split
    · rfl
    split
    · rfl
    split
    · rfl
    · exact saveThen_trust _ _ _
  | reject name version reason =>
    simp only [step, RegistryQuarantineStore.reject]
    split
    · rfl
    split
    · rfl
    split
    · rfl
    · exact saveThen_trust _ _ _
  | rollback name version reason =>
    simp only [step, RegistryQuarantineStore.rollback]
    split
    · rfl
    split
    · rfl
    split
    · rfl
    · exact saveThen_trust _ _ _
  | removeEntry name version =>
    simp only [step, RegistryQuarantineStore.removeEntry]
    split
    · rfl
    split
    · rfl
    split
    · rfl
    · exact saveThen_trust _ _ _
  | prune => exact pruneStaleEntries_trust _ _
  | addRoot root => exact absurd rfl (hadd root)
  | revokeRoot keyId reason => exact absurd rfl (hrevoke keyId reason)
  | verifySignature data signatureB64 keyId => rfl
  | restart => exact absurd rfl hrestart

end File

/-! ## Barred keys -/

/-- The key is revoked, and no live root has its id or its PEM. -/
structure Barred (trust : TrustRootStore) (keyId pem : PyStr) : Prop where
  stored : ∃ q, trust.roots.get? keyId = some q ∧ q.revoked = true ∧ q.publicKeyPem = pem
  barred : ∀ q ∈ trust.roots.rows, q.keyId = keyId ∨ q.publicKeyPem = pem → q.revoked = true

section Barred
variable {crypto : Crypto} {trust : TrustRootStore} {keyId pem : PyStr} {now : ℚ} {saved : Bool}
  {root : TrustRoot}

theorem save_roots (saved : Bool) (trust : TrustRootStore) :
    (trust.save saved).roots = trust.roots := by
  unfold TrustRootStore.save
  split <;> rfl

theorem completed_fields {root' : TrustRoot}
    (h : TrustRootStore.completed crypto now root = some root') : root'.keyId = root.keyId ∧
      root'.publicKeyPem = root.publicKeyPem ∧ root'.revoked = root.revoked := by
  unfold TrustRootStore.completed at h
  simp only at h
  split at h
  all_goals
    split at h
    · obtain ⟨chars, _, rfl⟩ := Option.map_eq_some_iff.mp h
      exact ⟨rfl, rfl, rfl⟩
    · obtain rfl := Option.some.inj h
      exact ⟨rfl, rfl, rfl⟩

theorem Barred.put (h : Barred trust keyId pem) {roots : Roots}
    (hroots : roots = trust.roots.put root)
    (hkey : root.keyId = keyId → root.revoked = true ∧ root.publicKeyPem = pem)
    (hpem : root.publicKeyPem = pem → root.revoked = true) {t : TrustRootStore}
    (ht : t.roots = roots) : Barred t keyId pem := by
  obtain ⟨q, hq, hrevoked, hqpem⟩ := h.stored
  constructor
  · rw [ht, hroots, Table.get?_put]
    split
    · rename_i hk
      exact ⟨root, rfl, hkey hk⟩
    · exact ⟨q, hq, hrevoked, hqpem⟩
  · intro p hp hsame
    rw [ht, hroots] at hp
    rcases Table.mem_put hp with rfl | hp
    · rcases hsame with hk | hk
      · exact (hkey hk).1
      · exact hpem hk
    · exact h.barred p hp hsame

theorem Barred.addRoot (h : Barred trust keyId pem) (hunrevived : Unrevived trust root) :
    Barred (trust.addRoot crypto now saved root).1 keyId pem := by
  unfold TrustRootStore.addRoot
  split
  · exact h
  rename_i root' hroot'
  obtain ⟨hid, hpem, hrevoked⟩ := completed_fields hroot'
  obtain ⟨q, hq, hqrevoked, hqpem⟩ := h.stored
  obtain ⟨hne, hsame⟩ := hunrevived q (Table.mem_of_get? hq) hqrevoked
  refine h.put rfl ?_ ?_ (save_roots _ _)
  · intro hk
    rw [hid, ← Table.key_of_get? hq] at hk
    exact absurd hk.symm hne
  · intro hp
    rw [hrevoked]
    exact hsame (by rw [hqpem, ← hp, hpem])

theorem Barred.revokeRoot (h : Barred trust keyId pem) (keyId' reason : PyStr) :
    Barred (trust.revokeRoot saved keyId' reason).1 keyId pem := by
  unfold TrustRootStore.revokeRoot
  split
  · exact h
  rename_i root hroot
  refine h.put rfl ?_ (fun _ => rfl) (save_roots _ _)
  intro hk
  refine ⟨rfl, ?_⟩
  obtain ⟨q, hq, _, hqpem⟩ := h.stored
  have hsame : keyId' = keyId := (Table.key_of_get? hroot).symm.trans hk
  rw [← hsame, hroot] at hq
  rw [← hqpem, ← Option.some.inj hq]

theorem Barred.restart (h : Barred trust keyId pem) (hsynced : Synced trust) :
    Barred trust.restart keyId pem := by
  obtain ⟨q, hq, hrevoked, hqpem⟩ := h.stored
  have hid := Table.key_of_get? hq
  constructor
  · have hsaved := hsynced.saved q (Table.mem_of_get? hq) hrevoked
    rw [hid] at hsaved
    exact ⟨q, hsaved, hrevoked, hqpem⟩
  · intro p hp hsame
    by_contra hlive
    obtain ⟨hne, hnepem⟩ :=
      hsynced.barred p hp (Bool.not_eq_true _ ▸ hlive) q (Table.mem_of_get? hq) hrevoked
    rcases hsame with hk | hk
    · exact hne (hid.trans hk.symm)
    · exact hnepem (hqpem.trans hk.symm)

/-- A revocation bars the key. -/
theorem barred_of_revoke (hroot : trust.roots.get? keyId = some root) (reason : PyStr)
    (halone : Alone trust keyId) :
    Barred (trust.revokeRoot saved keyId reason).1 keyId root.publicKeyPem := by
  have hid : root.keyId = keyId := Table.key_of_get? hroot
  unfold TrustRootStore.revokeRoot
  rw [hroot]
  simp only
  constructor
  · rw [save_roots, Table.get?_put, if_pos hid]
    exact ⟨_, rfl, rfl, rfl⟩
  · intro q hq hsame
    rw [save_roots] at hq
    have hget := Table.get?_key hq
    rw [Table.get?_put] at hget
    split at hget
    · rw [← Option.some.inj hget]
    · rename_i hne
      have hold := Table.mem_of_get? hget
      have hother : q.keyId ≠ keyId := fun hk => hne (hid.trans hk.symm)
      rcases hsame with hk | hk
      · exact absurd hk hother
      · exact (halone root (Table.mem_of_get? hroot) hid q hold hk).resolve_left hother

/-- No signature of a barred key is accepted. -/
theorem Barred.refused (h : Barred trust keyId pem) {data : List UInt8}
    {signatureB64 keyId' : PyStr}
    (hok : trust.verifySignature crypto now data signatureB64 keyId' = .ok root) :
    root.keyId ≠ keyId ∧ root.publicKeyPem ≠ pem := by
  obtain ⟨⟨hstored, hlive⟩, _⟩ := TrustRootStore.verifySignature_ok hok
  have hbarred := h.barred root (Table.mem_of_get? hstored)
  constructor
  · intro hk
    rw [hbarred (.inl hk)] at hlive
    cases hlive
  · intro hk
    rw [hbarred (.inr hk)] at hlive
    cases hlive

end Barred

/-! ## Runs -/

section Runs
variable (inp : ℕ → Environment × Call)

/-- What holds of the signatures in a run. -/
structure Bound : Prop where
  verified : ∀ k K e, entryAt policy inp k K = some e → e.state = .verified →
    ∃ j < k, (∃ args, (inp j).2 = .verifyIntegrity args) ∧
      Backing policy Made (storeAt policy inp j).trustRootStore (timeAt inp j 1) e
  /-- `revoke_root` returns true if it finds a root. -/
  revoked : ∀ i j keyId reason root, i < j → (inp i).2 = .revokeRoot keyId reason →
    (storeAt policy inp i).trustRootStore.roots.get? keyId = some root →
    ∀ now data signatureB64 keyId' root',
      (storeAt policy inp j).trustRootStore.verifySignature policy.crypto now data signatureB64
        keyId' = .ok root' →
      root'.keyId ≠ keyId ∧ root'.publicKeyPem ≠ root.publicKeyPem

variable {policy Made inp}

def Backed (policy : Policy) (Made : PyStr → List UInt8 → Triple → Prop)
    (inp : ℕ → Environment × Call) (k : ℕ) (e : RegistryEntry) : Prop :=
  e.state = .verified → ∃ j < k, (∃ args, (inp j).2 = .verifyIntegrity args) ∧
    Backing policy Made (storeAt policy inp j).trustRootStore (timeAt inp j 1) e

theorem Backed.succ {k : ℕ} {e : RegistryEntry} (h : Backed policy Made inp k e) :
    Backed policy Made inp (k + 1) e := by
  intro hs
  obtain ⟨j, hj, hrest⟩ := h hs
  exact ⟨j, by omega, hrest⟩

theorem backed_of_state {k : ℕ} {e : RegistryEntry} (h : e.state ≠ .verified) :
    Backed policy Made inp k e := fun hs => absurd hs h

theorem backed_step (hstrict : policy.strict = true)
    (hunforged : Unforgeable policy.crypto Made) {k : ℕ}
    (hacc : Accountable policy Made (storeAt policy inp k) (inp k).2) {K : PyStr}
    {before : Option RegistryEntry} {e' : RegistryEntry} {call : Call} (hcall : (inp k).2 = call)
    (hbefore : entryAt policy inp k K = before)
    (hbacked : ∀ e, before = some e → Backed policy Made inp k e)
    (h : EntryStep policy (storeAt policy inp k) (inp k).1 K call before (some e')) :
    Backed policy Made inp (k + 1) e' := by
  cases h with
  | kept => exact (hbacked e' rfl).succ
  | fetched _ _ hnew =>
    apply backed_of_state
    rw [hnew]
    rintro ⟨⟩
  | verified hkey _ _ hsame _ hsigned =>
    intro _
    refine ⟨k, by omega, ⟨_, hcall⟩, ?_⟩
    apply Backing.congr _ hsame
    exact backing_of_signed hunforged (hsigned hstrict) (hacc.verify _ _ hcall (hkey ▸ hbefore))
  | held _ _ _ hopen =>
    apply backed_of_state
    rcases hopen with h | h <;> rw [h] <;> rintro ⟨⟩
  | activated _ _ _ h =>
    apply backed_of_state
    rw [h]
    rintro ⟨⟩
  | rejected _ _ _ h =>
    apply backed_of_state
    rw [h]
    rintro ⟨⟩
  | rolledBack _ _ _ h =>
    apply backed_of_state
    rw [h]
    rintro ⟨⟩

/-- Every entry in memory and in the index file is backed. -/
theorem backed_run (hstrict : policy.strict = true) (hunforged : Unforgeable policy.crypto Made)
    (hacc : ∀ k, Accountable policy Made (storeAt policy inp k) (inp k).2) (k : ℕ) :
    ∀ K e, entryAt policy inp k K = some e ∨ Filed (storeAt policy inp k) K e →
      Backed policy Made inp k e := by
  induction k with
  | zero =>
    intro K e h
    rcases h with h | h <;> cases h
  | succ k ih =>
    have hstored : ∀ K e, entryAt policy inp (k + 1) K = some e →
        Backed policy Made inp (k + 1) e := by
      intro K e he
      by_cases hrestart : (inp k).2 = .restart
      · have hfile : entryAt policy inp (k + 1) K =
            ((storeAt policy inp k).file.getD Table.empty).get? K := by
          rw [entryAt, storeAt, run_succ, ← Prod.mk.eta (p := inp k), hrestart]
          rfl
        have hfiled : Filed (storeAt policy inp k) K e := by rw [Filed, ← hfile, he]
        exact (ih K e (.inr hfiled)).succ
      · have hstep := step_entry policy (storeAt policy inp k) (inp k) K hrestart
        have hafter : (step policy (storeAt policy inp k) (inp k)).1.entries.get? K = some e := he
        rw [hafter] at hstep
        exact backed_step hstrict hunforged (hacc k) rfl rfl (fun q hq => ih K q (.inl hq)) hstep
    intro K e h
    rcases h with h | h
    · exact hstored K e h
    · rcases step_writes policy (storeAt policy inp k) (inp k) K e h with hf | hb | ha
      · exact (ih K e (.inr hf)).succ
      · exact (ih K e (.inl hb)).succ
      · exact hstored K e ha

/-- A call that keeps to the conditions keeps a key barred. -/
theorem barred_step {s : RegistryQuarantineStore} {input : Environment × Call}
    {keyId pem : PyStr} (hacc : Accountable policy Made s input.2)
    (h : Barred s.trustRootStore keyId pem) :
    Barred (step policy s input).1.trustRootStore keyId pem := by
  obtain ⟨env, call⟩ := input
  by_cases hadd : ∃ root, call = .addRoot root
  · obtain ⟨root, rfl⟩ := hadd
    exact h.addRoot (hacc.add root rfl)
  by_cases hrevoke : ∃ keyId reason, call = .revokeRoot keyId reason
  · obtain ⟨keyId', reason, rfl⟩ := hrevoke
    exact h.revokeRoot keyId' reason
  by_cases hrestart : call = .restart
  · subst hrestart
    exact h.restart (hacc.restart rfl)
  · rw [step_trust policy s env (fun root hr => hadd ⟨root, hr⟩)
      (fun keyId reason hr => hrevoke ⟨keyId, reason, hr⟩) hrestart]
    exact h

theorem barred_run (hacc : ∀ k, Accountable policy Made (storeAt policy inp k) (inp k).2)
    {i j : ℕ} (hij : i < j) {keyId reason : PyStr} {root : TrustRoot}
    (hcall : (inp i).2 = .revokeRoot keyId reason)
    (hroot : (storeAt policy inp i).trustRootStore.roots.get? keyId = some root) :
    Barred (storeAt policy inp j).trustRootStore keyId root.publicKeyPem := by
  refine run_invariant (m := i + 1)
    (P := fun s : RegistryQuarantineStore => Barred s.trustRootStore keyId root.publicKeyPem)
    ?_ ?_ j hij
  · rw [run_succ, ← Prod.mk.eta (p := inp i), hcall]
    exact barred_of_revoke hroot reason ((hacc i).revoke keyId reason hcall)
  · intro k _ hk
    rw [run_succ]
    exact barred_step (hacc k) hk

end Runs

/-! ## One signature for two packs -/

/-- The Ed25519 key of the demo. -/
def demoPem : PyStr := PyStr.ofString
  "-----BEGIN PUBLIC KEY-----\nMCowBQYDK2VwAyEA11qYAYKxCrfVS/7TyWQHOg7hcvPapiMlrwIaaPcHURo=\n-----END PUBLIC KEY-----\n"

/-- Its signature of the text "a@1@2:ab12". -/
def demoSignature : List UInt8 :=
  [236, 0, 138, 70, 216, 140, 175, 102, 137, 47, 187, 186, 26, 125, 123, 144, 250, 187, 46, 228, 88,
    89, 126, 20, 1, 229, 17, 23, 198, 1, 136, 11, 188, 57, 75, 43, 148, 211, 213, 17, 71, 123, 127,
    132, 119, 194, 18, 140, 87, 13, 100, 79, 185, 83, 213, 247, 35, 88, 127, 55, 230, 15, 132, 15]

def demoSignatureB64 : PyStr := PyStr.ofString
  "7ACKRtiMr2aJL7u6Gn17kPq7LuRYWX4UAeURF8YBiAu8OUsrlNPVEUd7f4R3whKMVw1kT7lT1fcjWH835g+EDw=="

def demoCrypto : Crypto where
  available := true
  b64decode text := if text = demoSignatureB64 then some demoSignature else none
  verify pem signature data := demoPem.chars?.map utf8 = some pem && signature = demoSignature &&
    data = utf8 "a@1@2:ab12".toList
  sha256 message := message

def demoStrict : Policy := ⟨demoCrypto, true⟩

/-- The publisher has signed one triple. -/
def demoTriple : Triple := ⟨PyStr.ofString "a@1", PyStr.ofString "2", PyStr.ofString "ab12"⟩

def DemoMade (pem : PyStr) (signature : List UInt8) (t : Triple) : Prop :=
  pem = demoPem ∧ signature = demoSignature ∧ t = demoTriple

theorem demo_verifies {root : TrustRoot} {signature data : List UInt8}
    (h : root.verifies demoCrypto signature data = true) :
    root.publicKeyPem = demoPem ∧ signature = demoSignature ∧ data = utf8 "a@1@2:ab12".toList := by
  unfold TrustRoot.verifies at h
  split at h
  · cases h
  rename_i pem hpem
  simp only [demoCrypto, Bool.and_eq_true, decide_eq_true_eq] at h
  obtain ⟨⟨hkey, hsignature⟩, hdata⟩ := h
  refine ⟨?_, hsignature, hdata⟩
  obtain ⟨chars, hchars, hbytes⟩ := Option.map_eq_some_iff.mp hkey
  rw [← PyStr.ofList_chars? hpem, ← utf8_injective hbytes, PyStr.ofList_chars? hchars]

theorem demo_unforgeable : Unforgeable demoCrypto DemoMade := by
  constructor
  · intro root signature data h
    obtain ⟨hpem, hsignature, _⟩ := demo_verifies h
    exact ⟨demoTriple, hpem, hsignature, rfl⟩
  · intro root signature data t h hmade
    obtain ⟨_, _, hdata⟩ := demo_verifies h
    rw [hmade.2.2, hdata]
    decide +kernel

def demoKeyId : PyStr := PyStr.ofString "publisher"

def demoRoot : TrustRoot where
  keyId := demoKeyId
  publicKeyPem := demoPem
  fingerprint := PyStr.ofString "ed25519"

def demoFetchSigned (name version : String) : Call :=
  .registerFetch ⟨PyStr.ofString name, PyStr.ofString version, PyStr.ofString "https://packs.test/a",
    PyStr.ofString "ab12", demoSignatureB64, []⟩

def demoVerifySigned (name version : String) : Call :=
  .verifyIntegrity ⟨PyStr.ofString name, PyStr.ofString version, PyStr.ofString "ab12", .safe⟩

/-- A signed pack is verified, and then its key is revoked and the process restarted. -/
def demoSigned : ℕ → Environment × Call
  | 0 => (demoNow, .addRoot demoRoot)
  | 1 => (demoNow, demoFetchSigned "a@1" "2")
  | 2 => (demoNow, demoVerifySigned "a@1" "2")
  | 3 => (demoNow, .revokeRoot demoKeyId [])
  | 4 => (demoNow, .restart)
  | _ => (demoNow, .verifySignature (utf8 "a@1@2:ab12".toList) demoSignatureB64 [])

theorem demoSigned_accountable (k : ℕ) :
    Accountable demoStrict DemoMade (storeAt demoStrict demoSigned k) (demoSigned k).2 := by
  rcases k with _ | _ | _ | _ | _ | k
  · constructor
    · rintro args e ⟨⟩
    · rintro root ⟨⟩ q hq
      cases hq
    · rintro keyId reason ⟨⟩
    · rintro ⟨⟩
  · constructor
    · rintro args e ⟨⟩
    · rintro root ⟨⟩
    · rintro keyId reason ⟨⟩
    · rintro ⟨⟩
  · constructor
    · rintro args e ⟨⟩ he root _ signature t _ hmade _
      have hstored : ((storeAt demoStrict demoSigned 2).entries.get?
          (entryKey (PyStr.ofString "a@1") (PyStr.ofString "2"))).map RegistryEntry.triple =
          some demoTriple := by decide +kernel
      rw [he] at hstored
      rw [hmade.2.2, ← Option.some.inj hstored]
      exact ⟨rfl, rfl⟩
    · rintro root ⟨⟩
    · rintro keyId reason ⟨⟩
    · rintro ⟨⟩
  · constructor
    · rintro args e ⟨⟩
    · rintro root ⟨⟩
    · rintro keyId reason ⟨⟩
      unfold Alone
      decide +kernel
    · rintro ⟨⟩
  · constructor
    · rintro args e ⟨⟩
    · rintro root ⟨⟩
    · rintro keyId reason ⟨⟩
    · intro _
      exact ⟨by decide +kernel, by decide +kernel⟩
  · constructor
    · rintro args e ⟨⟩
    · rintro root ⟨⟩
    · rintro keyId reason ⟨⟩
    · rintro ⟨⟩

/-- The same signature at a pack whose name and version are split elsewhere. -/
def demoMoved : ℕ → Environment × Call
  | 0 => (demoNow, .addRoot demoRoot)
  | 1 => (demoNow, demoFetchSigned "a" "1@2")
  | _ => (demoNow, demoVerifySigned "a" "1@2")

end OpenClaw.Registry
