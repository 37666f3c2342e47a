import OpenClaw.Audit.VerifiedChain
import OpenClaw.Foundation.JsonQuotes

/-!
# Tamper evidence

If the keyed hash is injective, the terminal hash and the number of entries of an accepted log
determine its entries. The text under the hash is the previous hash, a bar and the entry; that
these two can be told apart, whatever the hash field of a forged line contains, rests on where
strings begin and end in the text of an entry.
-/

namespace OpenClaw.Audit

open Foundation
set_option autoImplicit false

section TamperEvidence
variable {φ : Type}

/-- Equal dictionaries: the order of the keys aside, here and inside the values. -/
def SameEntry (e e' : Fields φ) : Prop := Json.sortKeys (.obj e) = Json.sortKeys (.obj e')

theorem valid_dropHashes {e : Fields φ} (h : Json.Valid (.obj e)) :
    Json.Valid (.obj (dropHashes e)) := by
  cases h with
  | obj hk hv =>
    refine .obj ((List.filter_sublist.map Prod.fst).nodup hk) fun f hf => ?_
    exact hv f (List.mem_of_mem_filter hf)

theorem perm_of_sameEntry {e e' : Fields φ} (h : SameEntry e e') :
    (e.map Json.sortField).Perm (e'.map Json.sortField) := by
  unfold SameEntry at h
  rw [Json.sortKeys_obj, Json.sortKeys_obj, Json.obj.injEq] at h
  have hperm := sortedBy_perm (fun f : PyStr × Json φ => f.1.codePoints) (e.map Json.sortField)
  have hperm' := sortedBy_perm (fun f : PyStr × Json φ => f.1.codePoints) (e'.map Json.sortField)
  unfold Json.sortFields at h
  exact hperm.symm.trans (h ▸ hperm')

theorem sameEntry_of_perm {e e' : Fields φ} (hv : Json.Valid (.obj e'))
    (h : (e.map Json.sortField).Perm (e'.map Json.sortField)) : SameEntry e e' := by
  cases hv with
  | obj hk _ =>
    unfold SameEntry
    rw [Json.sortKeys_obj, Json.sortKeys_obj]
    apply congrArg Json.obj
    apply sortedBy_eq_of_perm ((sortedBy_perm _ _).trans h)
    · apply Json.keys_nodup
      rwa [Json.keys_sortField]
    · exact sortedBy_pairwise _ _

theorem mem_of_get? {e : Fields φ} {key : String} {value : Json φ}
    (h : get? e key = some value) : (PyStr.ofString key, value) ∈ e := by
  obtain ⟨f, hf, rfl⟩ := Option.map_eq_some_iff.mp h
  have hkey : f.1 = PyStr.ofString key := by simpa using List.find?_some hf
  rw [← hkey]
  exact List.mem_of_find?_eq_some hf

/-- An entry is its two hashes and the rest. -/
theorem Holds.perm {wrapped : Fields φ} {l : AuditLink φ} (h : Holds wrapped l) :
    wrapped.Perm ((PyStr.ofString "prev_hash", .str l.prev) ::
      (PyStr.ofString "entry_hash", .str l.hash) :: l.entry) := by
  have hkeys : (wrapped.map Prod.fst).Nodup := by
    cases h.valid with
    | obj hk _ => exact hk
  have hother : (PyStr.ofString "entry_hash", Json.str l.hash) ∈
      wrapped.filter fun f => f.1 ≠ PyStr.ofString "prev_hash" := by
    rw [List.mem_filter]
    exact ⟨mem_of_get? h.hash, by simp⟩
  have hrest := Table.perm_cons_filter ((List.filter_sublist.map Prod.fst).nodup hkeys) hother
  rw [List.filter_filter] at hrest
  apply (Table.perm_cons_filter hkeys (mem_of_get? h.prev)).trans
  apply (hrest.cons _).trans
  rw [← h.entry, dropHashes]
  simp [and_comm]

/-- The relation of two rests under the same hash. -/
def SameRest (rest rest' : Fields φ) : Prop :=
  Json.Valid (.obj rest) → Json.Valid (.obj rest') → SameEntry rest rest'

/-- Entries that hold the same hashes and the same rest are the same. -/
theorem Holds.sameEntry {e e' : Fields φ} {l l' : AuditLink φ} (h : Holds e l) (h' : Holds e' l')
    (hag : Link.Agree SameRest l l') : SameEntry e e' := by
  apply sameEntry_of_perm h'.valid
  have hrest := perm_of_sameEntry
    (hag.entry (h.entry ▸ valid_dropHashes h.valid) (h'.entry ▸ valid_dropHashes h'.valid))
  apply (h.perm.map Json.sortField).trans
  apply List.Perm.trans _ (h'.perm.map Json.sortField).symm
  rw [hag.prev, hag.hash]
  exact (hrest.cons _).cons _

theorem forall₂_sameEntry {es es' : List (Fields φ)} {links links' : List (AuditLink φ)}
    (hag : List.Forall₂ (Link.Agree SameRest) links links') (h : List.Forall₂ Holds es links)
    (h' : List.Forall₂ Holds es' links') : List.Forall₂ SameEntry es es' := by
  induction hag generalizing es es' with
  | nil =>
    cases h
    cases h'
    exact .nil
  | cons hl _ ih =>
    cases h with
    | cons he hes =>
      cases h' with
      | cons he' hes' => exact .cons (he.sameEntry he' hl) (ih hes hes')

section Injective
variable {rt : Runtime φ}

/-- The previous hash and the entry can be read off the hash. -/
theorem chainHash_determines (hinj : Function.Injective rt.digest) {p p' : PyStr}
    {entry entry' : Fields φ} {hash : PyStr} (h : chainHash rt p entry = some hash)
    (h' : chainHash rt p' entry' = some hash) : p = p' ∧ SameRest entry entry' := by
  obtain ⟨cs, hcs, rfl⟩ := Option.map_eq_some_iff.mp h
  obtain ⟨cs', hcs', he⟩ := Option.map_eq_some_iff.mp h'
  have hhex := congrArg PyStr.chars? he
  rw [PyStr.chars?_ofList, PyStr.chars?_ofList] at hhex
  have htext := utf8_injective (hinj (hex_injective (Option.some.inj hhex)))
  obtain ⟨hprev, hentry⟩ := Json.Mode.bar_unique (Json.closed_render rt.floats _ _)
    (Json.closed_render rt.floats _ _) htext
  constructor
  · rw [← PyStr.ofList_chars? hcs, ← PyStr.ofList_chars? hcs', hprev]
  · intro hv hv'
    exact (Json.dumpsSorted_injective rt.floats _ hv' hv hentry).symm

/-- An accepted log is the text of a chain that its answer describes. -/
theorem links_of_accepted {path : String} {files : List (String × List Char)}
    {r : AuditVerificationResult} (h : verifyAuditChain rt path files = .ok r) (hok : r.ok = true) :
    ∃ (p : PyStr) (links : List (AuditLink φ)), Linked (chainHash rt) p links ∧
      List.Forall₂ Holds (chainEntries rt files) links ∧ r.entriesChecked = links.length ∧
      (links ≠ [] → r.terminalHash = terminal p links) := by
  unfold verifyAuditChain at h
  split at h
  · cases h
    cases hok
  · obtain ⟨links, ⟨p, _, hlinks⟩, hentries, rfl⟩ := verifyLines_ok h hok
    refine ⟨p, links, hlinks, hentries, ?_, fun hne => terminalHash_result hne hlinks⟩
    simp [VerifyState.result, entriesChecked_advance]

/-- Accepted logs with the same terminal hash and the same number of entries have the same
entries in the same order. -/
theorem accepted_same_entries (hinj : Function.Injective rt.digest) {path path' : String}
    {files files' : List (String × List Char)} {r r' : AuditVerificationResult}
    (h : verifyAuditChain rt path files = .ok r) (h' : verifyAuditChain rt path' files' = .ok r')
    (hok : r.ok = true) (hok' : r'.ok = true) (hterm : r.terminalHash = r'.terminalHash)
    (hcount : r.entriesChecked = r'.entriesChecked) :
    List.Forall₂ SameEntry (chainEntries rt files) (chainEntries rt files') := by
  obtain ⟨p, links, hlinks, hentries, hlen, hlast⟩ := links_of_accepted h hok
  obtain ⟨p', links', hlinks', hentries', hlen', hlast'⟩ := links_of_accepted h' hok'
  have hsame : links.length = links'.length := by omega
  have hterminal : links ≠ [] → terminal p links = terminal p' links' := by
    intro hne
    have hne' : links' ≠ [] := by
      rintro rfl
      exact hne (List.length_eq_zero_iff.mp hsame)
    rw [← hlast hne, ← hlast' hne', hterm]
  have hdet : ∀ q q' (e e' : Fields φ) x, chainHash rt q e = some x → chainHash rt q' e' = some x →
      q = q' ∧ SameRest e e' := by
    intro q q' e e' x
    exact chainHash_determines hinj
  have hagree := linked_determined hdet hlinks hlinks' hterminal hsame
  exact forall₂_sameEntry hagree hentries hentries'

end Injective

end TamperEvidence

/-! ## Two texts of one entry -/

/-- `hmac.digest` under a key of 32 zeros on the message of the demo entry. -/
def demoDigest : List UInt8 :=
  [236, 163, 129, 54, 37, 127, 4, 125, 5, 0, 55, 8, 139, 140, 87, 139, 107, 251, 155, 3, 24, 8, 152,
    227, 14, 11, 132, 223, 255, 228, 211, 106]

def demoMessage : List UInt8 := utf8 "GENESIS|\x7b\"action\":\"config.update\"\x7d".toList

def demoRuntime : Runtime Unit where
  floats := Json.nanOnly
  decodeError _ := "Expecting value"
  digest message := if message = demoMessage then demoDigest else 0 :: message
  digest_ne_nil message := by
    split
    · decide
    · simp

theorem demoRuntime_injective : Function.Injective demoRuntime.digest := by
  have hhead : ∀ message, demoDigest ≠ 0 :: message := by
    intro message h
    cases h
  intro m m' h
  simp only [demoRuntime] at h
  split at h <;> split at h
  · rename_i hm hm'
    rw [hm, hm']
  · exact absurd h (hhead _)
  · exact absurd h.symm (hhead _)
  · exact (List.cons.inj h).2

def demoHash : String := "eca38136257f047d050037088b8c578b6bfb9b03180898e30e0b84dfffe4d36a"

def demoFiles : List (String × List Char) :=
  [("audit.log", ("\x7b\"action\": \"config.update\", \"entry_hash\": \"" ++ demoHash ++
    "\", \"prev_hash\": \"GENESIS\"\x7d\n").toList)]

/-- The same entry with its keys in another order, behind a file of blank lines. -/
def demoFilesReordered : List (String × List Char) :=
  [("audit.log.1", "\n  \r\n".toList),
    ("audit.log", (" \x7b\"prev_hash\":\"GENESIS\",\"entry_hash\":\"" ++ demoHash ++
      "\",\"action\" : \"config.update\"\x7d").toList)]

def demoAnswer (paths : List String) : AuditVerificationResult where
  ok := true
  filesChecked := paths
  entriesChecked := 1
  windowStartPrevHash := genesis
  terminalHash := PyStr.ofString demoHash
  windowTruncated := false
  issues := []

theorem demoFiles_accepted :
    verifyAuditChain demoRuntime "audit.log" demoFiles = .ok (demoAnswer ["audit.log"]) := by
  unfold demoFiles demoHash
  rewrite [String.toList_append, String.toList_append, String.toList_ofList, String.toList_ofList,
    String.toList_ofList]
  decide +kernel

theorem demoFilesReordered_accepted :
    verifyAuditChain demoRuntime "audit.log" demoFilesReordered =
      .ok (demoAnswer ["audit.log.1", "audit.log"]) := by
  unfold demoFilesReordered demoHash
  rewrite [String.toList_append, String.toList_append, String.toList_ofList, String.toList_ofList,
    String.toList_ofList, String.toList_ofList]
  decide +kernel

theorem accepted_same_entries_reordered : List.Forall₂ SameEntry
    (chainEntries demoRuntime demoFiles) (chainEntries demoRuntime demoFilesReordered) :=
  accepted_same_entries demoRuntime_injective demoFiles_accepted demoFilesReordered_accepted
    rfl rfl rfl rfl

end OpenClaw.Audit
