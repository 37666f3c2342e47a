import OpenClaw.Foundation.PyValue

/-!
# Canonical text

`json.dumps` with `sort_keys` of a value in memory, and of what `json.loads` makes of its text. The
two are the same text where the spelled keys ascend, and only there.
-/

namespace Foundation

set_option autoImplicit false

namespace PyStr

theorem codePoints_lt (s : PyStr) : ∀ n ∈ s.codePoints, n < 0x110000 := by
  induction s using codePoints.induct with
  | case1 => simp [codePoints]
  | case2 u =>
    intro n hn
    have hu := u.isLt
    rw [codePoints, List.mem_singleton] at hn
    omega
  | case3 u v rest h ih =>
    intro n hn
    rw [codePoints, if_pos h] at hn
    rcases List.mem_cons.mp hn with hn | hn
    · have hu := h.2.1
      have hv := h.2.2.2
      omega
    · exact ih n hn
  | case4 u v rest h ih =>
    intro n hn
    have hu := u.isLt
    rw [codePoints, if_neg h] at hn
    rcases List.mem_cons.mp hn with rfl | hn
    · omega
    · exact ih n hn

/-- The string with these code units, surrogate pairs joined. -/
def points (s : PyStr) : List CodePoint := s.codePoints.map (Fin.ofNat 0x110000)

theorem val_points (s : PyStr) : s.points.map Fin.val = s.codePoints := by
  rw [points, List.map_map]
  conv_rhs => rw [← List.map_id s.codePoints]
  exact List.map_congr_left fun n hn => Nat.mod_eq_of_lt (codePoints_lt s n hn)

theorem spellStr_points (s : PyStr) : spellStr s.points = s := by
  have hmap : spellStr s.points = (s.points.map Fin.val).flatMap units := by
    rw [List.flatMap_map]
    rfl
  rw [hmap, val_points, units_codePoints]

end PyStr

/-! ## Values that were read -/

namespace Json
variable {φ : Type}

mutual

/-- The value that `json.loads` builds. -/
def toPy : Json φ → PyValue φ
  | .null => .none
  | .bool b => .bool b
  | .int i => .int i
  | .float x => .float x
  | .str s => .str s.points
  | .arr items => .list (toPyItems items)
  | .obj fields => .dict (toPyFields fields)

def toPyItems : List (Json φ) → List (PyValue φ)
  | [] => []
  | j :: items => toPy j :: toPyItems items

def toPyFields : List (PyStr × Json φ) → List (PyKey φ × PyValue φ)
  | [] => []
  | (k, j) :: fields => (.str k.points, toPy j) :: toPyFields fields

end

theorem toPyItems_eq (items : List (Json φ)) : toPyItems items = items.map toPy := by
  induction items with
  | nil => rfl
  | cons j items ih => rw [toPyItems, ih, List.map_cons]

def toPyField (f : PyStr × Json φ) : PyKey φ × PyValue φ := (.str f.1.points, f.2.toPy)

theorem toPyFields_eq (fields : List (PyStr × Json φ)) :
    toPyFields fields = fields.map toPyField := by
  induction fields with
  | nil => rfl
  | cons f fields ih =>
    obtain ⟨k, j⟩ := f
    rw [toPyFields, ih, List.map_cons]
    rfl

variable {repr : φ → List Char} {order : FloatOrder φ}

/-- String keys are sorted by code points, as the fields of the text are. -/
theorem sortItems?_toPy {β : Type} (g : Json φ → β) (fields : List (PyStr × Json φ)) :
    sortItems? order (fields.map fun f => (.str f.1.points, g f.2)) =
      some ((sortFields fields).map fun f => (.str f.1.points, g f.2)) := by
  have hsorted : sortedBy (fun f => f.1.points)
      (fields.map fun f => ((.str f.1.points, g f.2) : PyKey φ × β)) =
        (sortFields fields).map fun f => (.str f.1.points, g f.2) := by
    symm
    refine List.map_insertionSort _ _ _ _ fun a _ b _ => ?_
    simp only [PyKey.points, PyStr.val_points]
  unfold sortItems?
  split
  · rename_i hlen
    rw [List.length_map] at hlen
    have hfields : sortFields fields = fields := by
      match fields, hlen with
      | [], _ => rfl
      | [f], _ => rfl
    rw [hfields]
  · rw [if_pos (by simp [PyKey.isStr]), hsorted]

/-- The canonical text of a value that was read is the text with its keys sorted. -/
theorem spellSorted?_toPy (j : Json φ) : spellSorted? repr order j.toPy = some j.sortKeys := by
  induction j using Json.induction with
  | null => simp [toPy, spellSorted?, sortKeys]
  | bool b => simp [toPy, spellSorted?, sortKeys]
  | int i => simp [toPy, spellSorted?, sortKeys]
  | float x => simp [toPy, spellSorted?, sortKeys]
  | str s => simp [toPy, spellSorted?, sortKeys, PyStr.spellStr_points]
  | arr items ih =>
    have hitems : ∀ items : List (Json φ),
        (∀ j ∈ items, spellSorted? repr order j.toPy = some j.sortKeys) →
          spellSortedItems? repr order (items.map toPy) = some (items.map sortKeys) := by
      intro items ih
      induction items with
      | nil => rfl
      | cons j items ih' =>
        rw [List.map_cons, spellSortedItems?, ih j List.mem_cons_self,
          ih' fun i hi => ih i (List.mem_cons_of_mem j hi)]
        rfl
    rw [toPy, toPyItems_eq, spellSorted?, hitems items ih, sortKeys_arr]
    rfl
  | obj fields ih =>
    have hfields : ∀ fields : List (PyStr × Json φ),
        (∀ f ∈ fields, spellSorted? repr order f.2.toPy = some f.2.sortKeys) →
          spellSortedFields? repr order (fields.map toPyField) =
            some (fields.map fun f => (.str f.1.points, f.2.sortKeys)) := by
      intro fields ih
      induction fields with
      | nil => rfl
      | cons f fields ih' =>
        rw [List.map_cons, toPyField, spellSortedFields?, ih f List.mem_cons_self,
          ih' fun g hg => ih g (List.mem_cons_of_mem f hg)]
        rfl
    have hmap : (fields.map fun f => ((.str f.1.points, f.2.sortKeys) : PyKey φ × Json φ)) =
        (fields.map sortField).map fun f => (.str f.1.points, f.2) := by
      rw [List.map_map]
      rfl
    rw [toPy, toPyFields_eq, spellSorted?, hfields fields ih, Option.bind_some, hmap,
      sortItems?_toPy fun j => j, sortKeys_obj, Option.map_some, List.map_map]
    have hspell : ((sortFields (fields.map sortField)).map fun f : PyStr × Json φ =>
        (spellKey repr (.str f.1.points : PyKey φ), f.2)) = sortFields (fields.map sortField) := by
      simp only [spellKey, PyStr.spellStr_points, Prod.mk.eta, List.map_id']
    exact congrArg (some ∘ obj) hspell

end Json

/-! ## Texts -/

section Texts
variable {φ : Type} (F : Json.FloatFormat φ) (order : FloatOrder φ)

/-- `json.dumps(d, sort_keys=True, separators=(",", ":"))`; `none` is its `TypeError`. -/
def dumpsCanonical? (d : PyValue φ) : Option (List Char) :=
  (spellSorted? F.repr order d).map (Json.dumps F.repr Json.Separators.compact)

/-- `json.loads(json.dumps(d))`. -/
def jsonImage (d : PyValue φ) : Json φ := (spell F.repr d).collapse

theorem jsonImage_eq (sep : Json.Separators) (d : PyValue φ) :
    Json.loads F.read (Json.dumps F.repr sep (spell F.repr d)) = some (jsonImage F d) :=
  Json.loads_dumps_collapse F sep (spell F.repr d)

theorem dumpsCanonical?_toPy (j : Json φ) : dumpsCanonical? F order j.toPy =
    some (Json.dumpsSorted F.repr Json.Separators.compact j) := by
  rw [dumpsCanonical?, Json.spellSorted?_toPy]
  rfl

variable {F order}

/-- A value that was read can have the canonical text of `d` only if the keys of `d` ascend, and
then it is what `d` is read as, up to the order of keys. -/
theorem read_of_dumpsCanonical? {d : PyValue φ} {j : Json φ} (hv : Json.Valid j)
    (h : dumpsCanonical? F order j.toPy = dumpsCanonical? F order d) :
    KeysAscend F.repr order d ∧ j.sortKeys = (jsonImage F d).sortKeys := by
  rw [dumpsCanonical?_toPy] at h
  obtain ⟨c, hc, htext⟩ := Option.map_eq_some_iff.mp h.symm
  have hread : j.sortKeys = c.collapse := by
    have hj := Json.loads_dumps F Json.Separators.compact (Json.valid_sortKeys hv)
    have hc' := Json.loads_dumps_collapse F Json.Separators.compact c
    rw [htext] at hc'
    exact Option.some.inj (hj.symm.trans hc')
  have hdumps : Json.dumps F.repr Json.Separators.compact c.collapse =
      Json.dumps F.repr Json.Separators.compact c := by
    rw [← hread]
    exact htext.symm
  have hvalid := Json.valid_of_dumps_collapse hdumps
  have hsame : j.sortKeys = c := hread.trans (Json.collapse_of_valid hvalid)
  have hfixed : c.sortKeys = c := by
    rw [← hsame]
    exact Json.sortKeys_sortKeys j
  have hascend := keysAscend_of_spellSorted? hc hvalid hfixed
  obtain ⟨hspell, himage⟩ := hascend.spelled_sorted
  refine ⟨hascend, ?_⟩
  rw [jsonImage, Json.collapse_of_valid himage, hsame]
  exact Option.some.inj (hc.symm.trans hspell)

/-- The canonical text survives one round trip through JSON exactly where the keys ascend. -/
theorem dumpsCanonical?_image_iff {d : PyValue φ} {t : List Char}
    (hd : dumpsCanonical? F order d = some t) :
    dumpsCanonical? F order (jsonImage F d).toPy = some t ↔ KeysAscend F.repr order d := by
  constructor
  · intro h
    exact (read_of_dumpsCanonical? (Json.valid_collapse _) (h.trans hd.symm)).1
  · intro h
    obtain ⟨hspell, hvalid⟩ := h.spelled_sorted
    rw [← hd, dumpsCanonical?_toPy, jsonImage, Json.collapse_of_valid hvalid, dumpsCanonical?,
      hspell]
    rfl

/-- The keys of a value that was read ascend. -/
theorem keysAscend_toPy {j : Json φ} (hv : Json.Valid j) : KeysAscend F.repr order j.toPy :=
  keysAscend_of_spellSorted? (Json.spellSorted?_toPy j) (Json.valid_sortKeys hv)
    (Json.sortKeys_sortKeys j)

end Texts

end Foundation
