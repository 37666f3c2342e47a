import OpenClaw.Audit.AuditPipeline
import OpenClaw.Foundation.HashChain
import OpenClaw.Foundation.JsonSorted

/-!
# What the verifier accepts

`verify_audit_chain` accepts exactly the texts whose lines hold the links of a chain of hashes. Its
counters and hashes are then those of the links.
-/

namespace OpenClaw.Audit

open Foundation
set_option autoImplicit false

/-- A line of the log: the hash before it, the entry without its hashes, and its own hash. -/
abbrev AuditLink (φ : Type) := Link (Fields φ) PyStr

section Lines
variable {φ : Type} (rt : Runtime φ)

/-- The entry that a line holds, with its hashes. -/
def entryOf? (raw : List Char) : Option (Fields φ) :=
  match Json.loads rt.floats.read (PyText.strip raw) with
  | some (.obj wrapped) => some wrapped
  | _ => none

/-- The entries of the files in their order. -/
def chainEntries (files : List (String × List Char)) : List (Fields φ) :=
  (chainLines files).filterMap fun l => entryOf? rt l.2.2

/-- The entry holds the link. -/
structure Holds (wrapped : Fields φ) (l : AuditLink φ) : Prop where
  prev : get? wrapped "prev_hash" = some (.str l.prev)
  hash : get? wrapped "entry_hash" = some (.str l.hash)
  entry : dropHashes wrapped = l.entry
  valid : Json.Valid (.obj wrapped)

/-- What the verifier does with a link that it passes. -/
def VerifyState.advance (st : VerifyState) (l : AuditLink φ) : VerifyState where
  previousEntryHash := some l.hash
  windowStartPrevHash := if st.previousEntryHash.isNone then l.prev else st.windowStartPrevHash
  entriesChecked := st.entriesChecked + 1

/-- The links continue the chain that the verifier has read so far. -/
def VerifyState.Continues (st : VerifyState) (links : List (AuditLink φ)) : Prop :=
  ∃ p, (∀ q ∈ st.previousEntryHash, p = q) ∧ Linked (chainHash rt) p links

variable {rt}

theorem entryOf?_blank {raw : List Char} (h : PyText.strip raw = []) :
    entryOf? rt raw = none := by
  rw [entryOf?, h]
  rfl

theorem entryOf?_eq_some {raw : List Char} {wrapped : Fields φ}
    (h : entryOf? rt raw = some wrapped) :
    Json.loads rt.floats.read (PyText.strip raw) = some (.obj wrapped) := by
  unfold entryOf? at h
  split at h
  · cases h
    assumption
  · cases h

theorem chainHash_ne_nil {p : PyStr} {entry : Fields φ} {hash : PyStr}
    (h : chainHash rt p entry = some hash) : hash ≠ [] := by
  obtain ⟨cs, _, rfl⟩ := Option.map_eq_some_iff.mp h
  intro hnil
  have hcodes := congrArg PyStr.chars? hnil
  rw [PyStr.chars?_ofList] at hcodes
  exact hex_ne_nil (rt.digest_ne_nil _) (Option.some.inj hcodes)

theorem continues_cons {st : VerifyState} {l : AuditLink φ} {links : List (AuditLink φ)} :
    st.Continues rt (l :: links) ↔ (∀ q ∈ st.previousEntryHash, l.prev = q) ∧
      chainHash rt l.prev l.entry = some l.hash ∧ (st.advance l).Continues rt links := by
  constructor
  · rintro ⟨p, hp, hprev, hhash, hrest⟩
    refine ⟨hprev ▸ hp, hhash, l.hash, ?_, hrest⟩
    intro q hq
    exact Option.some.inj hq
  · rintro ⟨hp, hhash, p, hlast, hrest⟩
    obtain rfl : p = l.hash := hlast _ rfl
    exact ⟨l.prev, hp, rfl, hhash, hrest⟩

/-! ## One line -/

theorem verifyLine_holds {st : VerifyState} {raw : List Char} {wrapped : Fields φ}
    {l : AuditLink φ} (he : entryOf? rt raw = some wrapped) (hl : Holds wrapped l)
    (hprev : ∀ q ∈ st.previousEntryHash, l.prev = q)
    (hhash : chainHash rt l.prev l.entry = some l.hash) :
    verifyLine rt st raw = .next (st.advance l) := by
  have hblank : PyText.strip raw ≠ [] := by
    intro h
    rw [entryOf?_blank h] at he
    cases he
  rw [verifyLine]
  simp only [if_neg hblank, entryOf?_eq_some he, hl.prev, hl.hash]
  rw [verifyEntry, if_neg]
  · simp only [hl.entry, hhash, ne_eq, not_true_eq_false, if_false]
    unfold VerifyState.advance
    cases st.previousEntryHash <;> rfl
  · rw [Option.any_eq_true]
    rintro ⟨q, hq, hne⟩
    exact of_decide_eq_true hne (hprev q hq)

/-- A line that the verifier passes is blank or holds a link. -/
theorem verifyLine_next {st st' : VerifyState} {raw : List Char}
    (h : verifyLine rt st raw = .next st') : (entryOf? rt raw = none ∧ st' = st) ∨
      ∃ wrapped l, entryOf? rt raw = some wrapped ∧ Holds wrapped l ∧
        (∀ q ∈ st.previousEntryHash, l.prev = q) ∧ chainHash rt l.prev l.entry = some l.hash ∧
        st' = st.advance l := by
  rw [verifyLine] at h
  split at h
  · rename_i hblank
    cases h
    exact .inl ⟨entryOf?_blank hblank, rfl⟩
  split at h
  · cases h
  · rename_i wrapped hloads
    split at h
    · rename_i prevHash entryHash hp hh
      have he : entryOf? rt raw = some wrapped := by rw [entryOf?, hloads]
      rw [verifyEntry] at h
      split at h
      · cases h
      rename_i hprev
      simp only at h
      split at h
      · cases h
      rename_i expected hexpected
      split at h
      · cases h
      rename_i hentry
      obtain rfl : entryHash = expected := not_not.mp hentry
      refine .inr ⟨wrapped, ⟨prevHash, dropHashes wrapped, entryHash⟩, he,
        ⟨hp, hh, rfl, Json.loads_valid _ hloads⟩, ?_, hexpected, ?_⟩
      · intro q hq
        by_contra hne
        apply hprev
        rw [Option.any_eq_true]
        exact ⟨q, hq, decide_eq_true hne⟩
      · cases h
        unfold VerifyState.advance
        cases st.previousEntryHash <;> rfl
    · cases h
  · cases h

/-! ## All lines -/

/-- Lines with linked entries are accepted, blank lines among them or not. -/
theorem verifyLines_holds {paths : List String} {lines : List (String × ℕ × List Char)}
    {st : VerifyState} {links : List (AuditLink φ)}
    (hlines : List.Forall₂ (fun (line : String × ℕ × List Char) l =>
      ∃ wrapped, entryOf? rt line.2.2 = some wrapped ∧ Holds wrapped l) lines links)
    (hlinks : st.Continues rt links) :
    verifyLines rt paths st lines = .ok ((links.foldl VerifyState.advance st).result true paths []) := by
  induction hlines generalizing st with
  | nil => rfl
  | @cons line l lines links hline _ ih =>
    obtain ⟨wrapped, he, hl⟩ := hline
    obtain ⟨hprev, hhash, hrest⟩ := continues_cons.mp hlinks
    obtain ⟨path, number, raw⟩ := line
    rw [verifyLines, verifyLine_holds he hl hprev hhash]
    exact ih hrest

/-- The lines of an accepted text hold linked entries, and the answer is theirs. -/
theorem verifyLines_ok {paths : List String} {lines : List (String × ℕ × List Char)}
    {st : VerifyState} {r : AuditVerificationResult} (h : verifyLines rt paths st lines = .ok r)
    (hok : r.ok = true) : ∃ links : List (AuditLink φ), st.Continues rt links ∧
      List.Forall₂ Holds (lines.filterMap fun line => entryOf? rt line.2.2) links ∧
      r = (links.foldl VerifyState.advance st).result true paths [] := by
  induction lines generalizing st with
  | nil =>
    cases h
    cases hq : st.previousEntryHash with
    | none => exact ⟨[], ⟨genesis, by simp [hq], trivial⟩, .nil, rfl⟩
    | some q => exact ⟨[], ⟨q, by simp [hq], trivial⟩, .nil, rfl⟩
  | cons line lines ih =>
    obtain ⟨path, number, raw⟩ := line
    rw [verifyLines] at h
    split at h
    · rename_i st' hnext
      rcases verifyLine_next hnext with ⟨hnone, rfl⟩ | ⟨wrapped, l, he, hl, hprev, hhash, rfl⟩
      · obtain ⟨links, hlinks, hentries, hr⟩ := ih h
        refine ⟨links, hlinks, ?_, hr⟩
        simpa only [List.filterMap_cons, hnone] using hentries
      · obtain ⟨links, hlinks, hentries, hr⟩ := ih h
        refine ⟨l :: links, continues_cons.mpr ⟨hprev, hhash, hlinks⟩, ?_, hr⟩
        simpa only [List.filterMap_cons, he] using List.Forall₂.cons hl hentries
    · cases h
      cases hok
    · cases h

/-! ## The answer -/

section Answer
variable {links : List (AuditLink φ)} {st : VerifyState}

theorem entriesChecked_advance : (links.foldl VerifyState.advance st).entriesChecked =
    st.entriesChecked + links.length := by
  induction links generalizing st with
  | nil => rfl
  | cons l links ih =>
    rw [List.foldl_cons, ih, List.length_cons]
    simp only [VerifyState.advance]
    omega

theorem previousEntryHash_advance (p : PyStr) (h : links ≠ []) :
    (links.foldl VerifyState.advance st).previousEntryHash = some (terminal p links) := by
  obtain ⟨front, l, rfl⟩ := (List.eq_nil_or_concat links).resolve_left h
  rw [List.concat_eq_append, List.foldl_append, terminal_concat]
  rfl

theorem windowStart_advance {l : AuditLink φ} (h : st.previousEntryHash = none) :
    ((l :: links).foldl VerifyState.advance st).windowStartPrevHash = l.prev := by
  have hkeep : ∀ (links : List (AuditLink φ)) (st : VerifyState),
      st.previousEntryHash.isNone = false →
      (links.foldl VerifyState.advance st).windowStartPrevHash = st.windowStartPrevHash := by
    intro links
    induction links with
    | nil => exact fun _ _ => rfl
    | cons l links ih =>
      intro st hst
      rw [List.foldl_cons, ih _ rfl]
      simp only [VerifyState.advance, hst, Bool.false_eq_true, if_false]
  rw [List.foldl_cons, hkeep links _ rfl]
  simp only [VerifyState.advance, h, Option.isNone_none, if_true]

theorem terminalHash_result {p : PyStr} {paths : List String} (h : links ≠ [])
    (hlinks : Linked (chainHash rt) p links) :
    ((links.foldl VerifyState.advance st).result true paths []).terminalHash = terminal p links := by
  obtain ⟨front, l, rfl⟩ := (List.eq_nil_or_concat links).resolve_left h
  rw [List.concat_eq_append] at h hlinks ⊢
  have hhash := (linked_singleton.mp (linked_append.mp hlinks).2).2
  simp only [VerifyState.result, previousEntryHash_advance p h, terminal_concat]
  rw [if_neg (chainHash_ne_nil hhash)]

end Answer

end Lines

end OpenClaw.Audit
