import OpenClaw.Audit.TamperEvidence
import OpenClaw.Foundation.JsonChars

/-!
# Lines of the log

A line that was written is one line of printable text, holds its entry with both hashes, and is what
the reader of the tail finds if it fits into the window.
-/

namespace OpenClaw.Audit

open Foundation
set_option autoImplicit false

/-- A line that was written: an entry and its hashes. -/
structure Written (φ : Type) where
  entry : AuditEntry φ
  prev : PyStr
  hash : PyStr

namespace Written
variable {φ : Type}

/-- The entry with its hashes, as it is read. -/
def fields (w : Written φ) : Fields φ :=
  Json.sortFields ((wrap w.entry.fields w.prev w.hash).map Json.sortField)

def link (w : Written φ) : AuditLink φ :=
  ⟨w.prev, Json.sortFields (w.entry.fields.map Json.sortField), w.hash⟩

variable (rt : Runtime φ)

/-- The line without its end. -/
def body (w : Written φ) : List Char :=
  Json.dumpsSorted rt.floats.repr Json.Separators.standard
    (.obj (wrap w.entry.fields w.prev w.hash))

def line (w : Written φ) : List Char := lineOf rt w.entry.fields w.prev w.hash

end Written

/-- The text of some lines. -/
def textOf {φ : Type} (rt : Runtime φ) (ws : List (Written φ)) : List Char := ws.flatMap (·.line rt)

section Entries
variable {φ : Type} (w : Written φ)

theorem wrap_eq : wrap w.entry.fields w.prev w.hash =
    w.entry.fields ++ [(PyStr.ofString "prev_hash", .str w.prev),
      (PyStr.ofString "entry_hash", .str w.hash)] := by
  have hprev : ∀ f ∈ w.entry.fields, f.1 ≠ PyStr.ofString "prev_hash" := fun f hf =>
    (w.entry.plain f hf).1
  have hset : setField w.entry.fields "prev_hash" (.str w.prev) =
      w.entry.fields ++ [(PyStr.ofString "prev_hash", .str w.prev)] :=
    Table.replaceRow_append hprev
  rw [wrap, hset, setField, Table.replaceRow_append]
  · rw [List.append_assoc]
    rfl
  · intro f hf
    rcases List.mem_append.mp hf with hf | hf
    · exact (w.entry.plain f hf).2
    · rw [List.mem_singleton.mp hf]
      simp

theorem wrap_keys : ((wrap w.entry.fields w.prev w.hash).map Prod.fst).Nodup := by
  have hk : (w.entry.fields.map Prod.fst).Nodup := by
    have hv := w.entry.valid
    cases hv
    assumption
  exact replaceRow_nodup _ (replaceRow_nodup _ hk)

theorem wrap_valid : Json.Valid (.obj (wrap w.entry.fields w.prev w.hash)) := by
  refine .obj (wrap_keys w) fun f hf => ?_
  rw [wrap_eq] at hf
  have hv := w.entry.valid
  cases hv with
  | obj _ hvalid =>
    rcases List.mem_append.mp hf with hf | hf
    · exact hvalid f hf
    · rcases List.mem_pair.mp hf with rfl | rfl
      · exact .str _
      · exact .str _

theorem get?_written {key : String} {value : PyStr}
    (h : (PyStr.ofString key, .str value) ∈ wrap w.entry.fields w.prev w.hash) :
    get? w.fields key = some (.str value) := by
  unfold get? Written.fields
  have hfind := Json.find?_sortFields (wrap_keys w) h
  rw [hfind]
  simp [Json.sortField, Json.sortKeys]

theorem dropHashes_written : dropHashes w.fields = w.link.entry := by
  have hkeys : (((wrap w.entry.fields w.prev w.hash).map Json.sortField).map
      fun f => f.1.codePoints).Nodup := by
    apply Json.keys_nodup
    rw [Json.keys_sortField]
    exact wrap_keys w
  have hplain : (w.entry.fields.map Json.sortField).filter (fun f => decide
      (f.1 ≠ PyStr.ofString "prev_hash" ∧ f.1 ≠ PyStr.ofString "entry_hash")) =
        w.entry.fields.map Json.sortField := by
    rw [List.filter_eq_self]
    intro f hf
    obtain ⟨g, hg, rfl⟩ := List.mem_map.mp hf
    exact decide_eq_true (w.entry.plain g hg)
  unfold dropHashes Written.fields Json.sortFields
  rw [filter_sortedBy hkeys, wrap_eq, List.map_append, List.filter_append, hplain]
  simp [Json.sortField, Written.link, Json.sortFields]

theorem fields_valid : Json.Valid (.obj w.fields) := by
  have h := Json.valid_sortKeys (wrap_valid w)
  rwa [Json.sortKeys_obj] at h

/-- What is read from the line holds the link. -/
theorem written_holds : Holds w.fields w.link where
  prev := get?_written w (by rw [wrap_eq]; simp [Written.link])
  hash := get?_written w (by rw [wrap_eq]; simp [Written.link])
  entry := dropHashes_written w
  valid := fields_valid w

theorem sameEntry_written : SameEntry (dropHashes w.fields) w.entry.fields := by
  have h := Json.sortKeys_sortKeys (.obj w.entry.fields : Json φ)
  rw [dropHashes_written]
  unfold SameEntry
  rwa [Json.sortKeys_obj w.entry.fields] at h ⊢

theorem chainHash_written (rt : Runtime φ) (p : PyStr) :
    chainHash rt p w.link.entry = chainHash rt p w.entry.fields := by
  have h := sameEntry_written w
  rw [dropHashes_written] at h
  unfold SameEntry at h
  unfold chainHash Json.dumpsSorted
  rw [h]

end Entries

section Lines
variable {φ : Type} (rt : Runtime φ) (w : Written φ)

theorem line_eq : w.line rt = w.body rt ++ ['\n'] := rfl

theorem loads_body : Json.loads rt.floats.read (w.body rt) = some (.obj w.fields) := by
  have h := Json.loads_dumps rt.floats Json.Separators.standard (Json.valid_sortKeys (wrap_valid w))
  have hfields := Json.sortKeys_obj (wrap w.entry.fields w.prev w.hash)
  exact h.trans (congrArg some hfields)

theorem body_printable : Json.AllPrintable (w.body rt) :=
  Json.render_printable rt.floats (Json.AllPrintable.cons (by decide) Json.allPrintable_nil)
    (Json.AllPrintable.cons (by decide) Json.allPrintable_nil) _

/-- An object of at least one field. -/
theorem body_braces : ∃ inner, w.body rt = '{' :: (inner ++ ['}']) := by
  have hne : w.fields ≠ [] := by
    have h := (written_holds w).prev
    intro hnil
    rw [hnil] at h
    cases h
  have hbody : w.body rt = Json.render rt.floats.repr Json.Separators.standard (.obj w.fields) := by
    unfold Written.body Json.dumpsSorted
    rw [Json.sortKeys_obj]
    rfl
  rw [hbody]
  cases hf : w.fields with
  | nil => exact absurd hf hne
  | cons f fields =>
    obtain ⟨k, j⟩ := f
    rw [Json.render]
    refine ⟨Json.quote k ++ (Json.Separators.standard.key ++ (Json.render rt.floats.repr
      Json.Separators.standard j ++ Json.renderFields rt.floats.repr Json.Separators.standard
        fields)), ?_⟩
    simp only [List.append_assoc]

theorem strip_body : PyText.strip (w.body rt) = w.body rt := by
  obtain ⟨inner, h⟩ := body_braces rt w
  have hstrip := PyText.stripWhere_delimited (p := PyText.isSpace) (a := '{') (d := '}') (by decide)
    (by decide) inner []
  rw [h]
  exact hstrip

theorem body_ne_nil : w.body rt ≠ [] := by
  obtain ⟨inner, h⟩ := body_braces rt w
  rw [h]
  simp

theorem entryOf?_body : entryOf? rt (w.body rt) = some w.fields := by
  rw [entryOf?, strip_body, loads_body]

theorem isNewline_printable {c : Char} (h : Json.Printable c) : isNewline c = false := by
  unfold isNewline
  rw [Bool.or_eq_false_iff, decide_eq_false_iff_not, decide_eq_false_iff_not]
  constructor <;>
  · rintro rfl
    revert h
    decide

theorem isLineBreak_printable {c : Char} (h : Json.Printable c) : isLineBreak c = false := by
  obtain ⟨hlow, hhigh⟩ := h
  simp only [isLineBreak, List.contains_eq_mem, List.mem_cons, List.not_mem_nil, or_false,
    decide_eq_false_iff_not, not_or]
  omega

/-- The lines of a text that was written, behind a text that ends with a line. -/
theorem linesOf_textOf {isEnd : Char → Bool} (hprint : ∀ c, Json.Printable c → isEnd c = false)
    (hend : isEnd '\n' = true) (hreturn : isEnd '\r' = true) (ws : List (Written φ)) :
    linesOf isEnd (textOf rt ws) = ws.map (·.body rt) := by
  induction ws with
  | nil => rfl
  | cons w ws ih =>
    have hline := linesOf_line (fun c hc => hprint c (body_printable rt w c hc)) hend hreturn
    rw [textOf, List.flatMap_cons, line_eq, List.append_assoc, List.singleton_append,
      linesOf_append_newline hend, hline, ← textOf, ih]
    rfl

/-! ## The tail -/

theorem byteSize_append (x y : List Char) : byteSize (x ++ y) = byteSize x + byteSize y := by
  simp only [byteSize, utf8, List.flatMap_append, List.length_append]

/-- The window keeps an end that fits. -/
theorem tailChars_append {bytes : ℕ} (x : List Char) {y : List Char} (h : byteSize y ≤ bytes) :
    ∃ x', x' <:+ x ∧ tailChars bytes (x ++ y) = x' ++ y := by
  induction x with
  | nil =>
    refine ⟨[], List.suffix_refl _, ?_⟩
    cases y with
    | nil => rfl
    | cons c y => rw [List.nil_append, tailChars, if_pos h]
  | cons c x ih =>
    rw [List.cons_append, tailChars]
    split
    · exact ⟨c :: x, List.suffix_refl _, rfl⟩
    · obtain ⟨x', hsuffix, heq⟩ := ih
      exact ⟨x', hsuffix.trans (List.suffix_cons c x), heq⟩

/-- What stands before a line is empty or ends with a line feed. -/
theorem textOf_end (ws : List (Written φ)) : textOf rt ws = [] ∨ ∃ x, textOf rt ws = x ++ ['\n'] := by
  rcases List.eq_nil_or_concat ws with rfl | ⟨front, w, rfl⟩
  · exact Or.inl rfl
  · refine Or.inr ⟨textOf rt front ++ w.body rt, ?_⟩
    rw [List.concat_eq_append, textOf, List.flatMap_append, List.flatMap_singleton, line_eq,
      List.append_assoc]
    rfl

/-- The last line is read back if it fits into the window. -/
theorem tailHash_textOf {front : List (Written φ)} {w : Written φ} (hhash : w.hash ≠ [])
    (hfits : byteSize (w.line rt) ≤ tailWindow) :
    tailHashFromFile rt (textOf rt (front ++ [w])) = .ok (some w.hash) := by
  have htext : textOf rt (front ++ [w]) = textOf rt front ++ w.line rt := by
    rw [textOf, List.flatMap_append, List.flatMap_singleton]
    rfl
  obtain ⟨x, hsuffix, htail⟩ := tailChars_append (textOf rt front) hfits
  have hline : linesOf isLineBreak (w.body rt ++ ['\n']) = [w.body rt] :=
    linesOf_line (fun c hc => isLineBreak_printable (body_printable rt w c hc)) (by decide)
      (by decide)
  have hlines : ∃ before, linesOf isLineBreak (x ++ w.line rt) = before ++ [w.body rt] := by
    rcases List.eq_nil_or_concat x with rfl | ⟨x, c, rfl⟩
    · exact ⟨[], hline⟩
    · rw [List.concat_eq_append] at hsuffix ⊢
      have hc : c = '\n' := by
        rcases textOf_end rt front with hnil | ⟨y, hy⟩
        · rw [hnil, List.suffix_nil] at hsuffix
          simp at hsuffix
        · rw [hy] at hsuffix
          obtain ⟨z, hz⟩ := hsuffix
          rw [← List.append_assoc] at hz
          exact List.singleton_inj.mp (List.append_inj' hz rfl).2
      rw [hc, List.append_assoc, List.singleton_append,
        linesOf_append_newline (by decide), line_eq, hline]
      exact ⟨_, rfl⟩
  obtain ⟨before, hbefore⟩ := hlines
  have hlast : (((linesOf isLineBreak (x ++ w.line rt)).map PyText.strip).filter (· ≠ [])).getLast? =
      some (w.body rt) := by
    rw [hbefore, List.map_append, List.filter_append, List.map_singleton, strip_body]
    simp [body_ne_nil]
  unfold tailHashFromFile
  rw [htext, htail]
  simp only [hlast, loads_body, (written_holds w).hash]
  exact congrArg Except.ok (if_neg hhash)

end Lines

end OpenClaw.Audit
