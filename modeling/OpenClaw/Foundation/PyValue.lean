import OpenClaw.Foundation.JsonSorted

/-!
# Python values under `json.dumps`

A dictionary in memory may have keys of every scalar class, and `json.dumps` spells each of them
as a string. With `sort_keys` it sorts before it spells: numbers by value, strings by code points,
a mixture not at all. The order of the spelled keys can be another one.
-/

namespace Foundation

set_option autoImplicit false

abbrev CodePoint := Fin 0x110000

instance codePointNeZero : NeZero 0x110000 := ⟨by decide⟩

instance codePointLawful : LawfulBEq CodePoint := inferInstance

instance codePointsLawful : LawfulBEq (List CodePoint) := inferInstance

inductive PyKey (φ : Type) where
  | none
  | bool (b : Bool)
  | int (i : ℤ)
  | float (x : φ)
  | str (s : List CodePoint)

inductive PyValue (φ : Type) where
  | none
  | bool (b : Bool)
  | int (i : ℤ)
  | float (x : φ)
  | str (s : List CodePoint)
  | list (items : List (PyValue φ))
  | dict (items : List (PyKey φ × PyValue φ))

namespace PyValue
variable {φ : Type}

/-- Induction over values, with the hypothesis for every item. -/
theorem induction {P : PyValue φ → Prop} (none : P .none) (bool : ∀ b, P (.bool b))
    (int : ∀ i, P (.int i)) (float : ∀ x, P (.float x)) (str : ∀ s, P (.str s))
    (list : ∀ items, (∀ j ∈ items, P j) → P (.list items))
    (dict : ∀ items, (∀ f ∈ items, P f.2) → P (.dict items)) : ∀ j, P j
  | .none => none
  | .bool b => bool b
  | .int i => int i
  | .float x => float x
  | .str s => str s
  | .list items => list items fun j _ => induction none bool int float str list dict j
  | .dict items => dict items fun f _ => induction none bool int float str list dict f.2
termination_by j => sizeOf j
decreasing_by
  · have hj := List.sizeOf_lt_of_mem (by assumption : j ∈ items)
    simp only [PyValue.list.sizeOf_spec]
    omega
  · have hf := List.sizeOf_lt_of_mem (by assumption : f ∈ items)
    have hp : sizeOf f = 1 + sizeOf f.1 + sizeOf f.2 := rfl
    simp only [PyValue.dict.sizeOf_spec]
    omega

end PyValue

/-! ## The order of keys -/

section Positions
variable {α β : Type}

/-- The elements at the positions. -/
def atPositions (ps : List ℕ) (xs : List α) : List α := ps.filterMap fun i => xs[i]?

theorem atPositions_range (xs : List α) : atPositions (List.range xs.length) xs = xs := by
  induction xs with
  | nil => rfl
  | cons x xs ih =>
    rw [atPositions, List.length_cons, List.range_succ_eq_map, List.filterMap_cons,
      List.filterMap_map]
    exact congrArg (x :: ·) ih

theorem atPositions_perm {ps : List ℕ} {xs : List α} (h : ps.Perm (List.range xs.length)) :
    (atPositions ps xs).Perm xs := by
  have hperm := h.filterMap fun i => xs[i]?
  rwa [← atPositions, ← atPositions, atPositions_range] at hperm

theorem map_atPositions (g : α → β) (ps : List ℕ) (xs : List α) :
    (atPositions ps xs).map g = atPositions ps (xs.map g) := by
  simp only [atPositions, List.map_filterMap, List.getElem?_map]

end Positions

namespace PyKey
variable {φ : Type}

def isStr : PyKey φ → Bool
  | .str _ => true
  | _ => false

def isInt : PyKey φ → Bool
  | .bool _ => true
  | .int _ => true
  | _ => false

def isFloat : PyKey φ → Bool
  | .float _ => true
  | _ => false

/-- The code points of a string. -/
def points : PyKey φ → List ℕ
  | .str s => s.map Fin.val
  | _ => []

/-- The value of an integer; a truth value is one. -/
def number : PyKey φ → ℤ
  | .int i => i
  | .bool true => 1
  | _ => 0

end PyKey

/-- Where `list.sort` puts the keys of a dictionary that has a float among its numbers. -/
structure FloatOrder (φ : Type) where
  positions : List (PyKey φ) → List ℕ
  perm : ∀ keys, (positions keys).Perm (List.range keys.length)

section Ordering
variable {φ : Type} (order : FloatOrder φ) {β γ : Type}

/-- `sorted(d.items())`; `none` is the `TypeError` of keys that do not compare. -/
def sortItems? (items : List (PyKey φ × β)) : Option (List (PyKey φ × β)) :=
  if items.length ≤ 1 then some items
  else if items.all fun f => f.1.isStr then some (sortedBy (fun f => f.1.points) items)
  else if items.all fun f => f.1.isInt then some (sortedBy (fun f => f.1.number) items)
  else if items.all fun f => f.1.isInt || f.1.isFloat then
    some (atPositions (order.positions (items.map Prod.fst)) items)
  else none

variable {order}

theorem sortItems?_perm {items sorted : List (PyKey φ × β)}
    (h : sortItems? order items = some sorted) : sorted.Perm items := by
  unfold sortItems? at h
  split at h
  · cases h
    exact List.Perm.refl _
  split at h
  · cases h
    exact sortedBy_perm _ items
  split at h
  · cases h
    exact sortedBy_perm _ items
  split at h
  · cases h
    apply atPositions_perm
    simpa using order.perm (items.map Prod.fst)
  · cases h

variable (order)

/-- The values have no part in the order. -/
theorem sortItems?_map (g : β → γ) (items : List (PyKey φ × β)) :
    sortItems? order (items.map (Prod.map id g)) =
      (sortItems? order items).map (List.map (Prod.map id g)) := by
  have hsorted : ∀ {κ : Type} [LinearOrder κ] (key : PyKey φ → κ),
      sortedBy (fun f => key f.1) (items.map (Prod.map id g)) =
        (sortedBy (fun f => key f.1) items).map (Prod.map id g) := by
    intro κ _ key
    symm
    exact List.map_insertionSort _ _ _ _ fun _ _ _ _ => Iff.rfl
  have hkeys : (items.map (Prod.map id g)).map Prod.fst = items.map Prod.fst := by
    rw [List.map_map]
    rfl
  unfold sortItems?
  rw [List.length_map, List.all_map, List.all_map, List.all_map, hkeys, hsorted, hsorted,
    ← map_atPositions]
  simp only [Function.comp_def, Prod.map_fst, id_eq]
  split <;> [rfl; skip]
  split <;> [rfl; skip]
  split <;> [rfl; skip]
  split <;> rfl

end Ordering

/-! ## Spelling -/

/-- The code units of a string; surrogates that meet are one character from then on. -/
def spellStr (s : List CodePoint) : PyStr := s.flatMap fun c => PyStr.units c.val

section Spell
variable {φ : Type} (repr : φ → List Char)

/-- The string `json.dumps` writes for a key. -/
def spellKey : PyKey φ → PyStr
  | .none => PyStr.ofString "null"
  | .bool true => PyStr.ofString "true"
  | .bool false => PyStr.ofString "false"
  | .int i => PyStr.ofList (Json.showInt i)
  | .float x => PyStr.ofList (repr x)
  | .str s => spellStr s

mutual

/-- What `json.dumps` writes, in the order of the dictionaries. -/
def spell : PyValue φ → Json φ
  | .none => .null
  | .bool b => .bool b
  | .int i => .int i
  | .float x => .float x
  | .str s => .str (spellStr s)
  | .list items => .arr (spellItems items)
  | .dict items => .obj (spellFields items)

def spellItems : List (PyValue φ) → List (Json φ)
  | [] => []
  | j :: items => spell j :: spellItems items

def spellFields : List (PyKey φ × PyValue φ) → List (PyStr × Json φ)
  | [] => []
  | (k, j) :: items => (spellKey repr k, spell j) :: spellFields items

end

variable (order : FloatOrder φ)

mutual

/-- What `json.dumps` with `sort_keys` writes; `none` is its `TypeError`. -/
def spellSorted? : PyValue φ → Option (Json φ)
  | .none => some .null
  | .bool b => some (.bool b)
  | .int i => some (.int i)
  | .float x => some (.float x)
  | .str s => some (.str (spellStr s))
  | .list items => (spellSortedItems? items).map .arr
  | .dict items => (spellSortedFields? items).bind fun fields =>
    (sortItems? order fields).map fun sorted =>
      .obj (sorted.map fun f => (spellKey repr f.1, f.2))

def spellSortedItems? : List (PyValue φ) → Option (List (Json φ))
  | [] => some []
  | j :: items => (spellSorted? j).bind fun j => (spellSortedItems? items).map (j :: ·)

def spellSortedFields? : List (PyKey φ × PyValue φ) → Option (List (PyKey φ × Json φ))
  | [] => some []
  | (k, j) :: items =>
    (spellSorted? j).bind fun j => (spellSortedFields? items).map ((k, j) :: ·)

end

/-- In every dictionary the keys, in the order that Python sorts them in, have spellings that
ascend by code points. -/
inductive KeysAscend : PyValue φ → Prop where
  | none : KeysAscend .none
  | bool (b : Bool) : KeysAscend (.bool b)
  | int (i : ℤ) : KeysAscend (.int i)
  | float (x : φ) : KeysAscend (.float x)
  | str (s : List CodePoint) : KeysAscend (.str s)
  | list {items : List (PyValue φ)} : (∀ j ∈ items, KeysAscend j) → KeysAscend (.list items)
  | dict {items sorted : List (PyKey φ × PyValue φ)} : sortItems? order items = some sorted →
      (sorted.map fun f => (spellKey repr f.1).codePoints).Pairwise (· < ·) →
      (∀ f ∈ items, KeysAscend f.2) → KeysAscend (.dict items)

variable {repr order}

theorem spellItems_eq (items : List (PyValue φ)) :
    spellItems repr items = items.map (spell repr) := by
  induction items with
  | nil => rfl
  | cons j items ih => rw [spellItems, ih, List.map_cons]

/-- The field with its key and its value spelled. -/
def spellField (repr : φ → List Char) (f : PyKey φ × PyValue φ) : PyStr × Json φ :=
  (spellKey repr f.1, spell repr f.2)

theorem spellFields_eq (items : List (PyKey φ × PyValue φ)) :
    spellFields repr items = items.map (spellField repr) := by
  induction items with
  | nil => rfl
  | cons f items ih =>
    obtain ⟨k, j⟩ := f
    rw [spellFields, ih, List.map_cons]
    rfl

theorem spellSortedItems?_of {g : PyValue φ → Json φ} {items : List (PyValue φ)}
    (h : ∀ j ∈ items, spellSorted? repr order j = some (g j)) :
    spellSortedItems? repr order items = some (items.map g) := by
  induction items with
  | nil => rfl
  | cons j items ih =>
    rw [spellSortedItems?, h j List.mem_cons_self, ih fun i hi => h i (List.mem_cons_of_mem j hi)]
    rfl

theorem spellSortedFields?_of {g : PyValue φ → Json φ} {items : List (PyKey φ × PyValue φ)}
    (h : ∀ f ∈ items, spellSorted? repr order f.2 = some (g f.2)) :
    spellSortedFields? repr order items = some (items.map (Prod.map id g)) := by
  induction items with
  | nil => rfl
  | cons f items ih =>
    obtain ⟨k, j⟩ := f
    rw [spellSortedFields?, h (k, j) List.mem_cons_self,
      ih fun f hf => h f (List.mem_cons_of_mem _ hf)]
    rfl

theorem isSome_of_spellSortedItems? {items : List (PyValue φ)} {l : List (Json φ)}
    (h : spellSortedItems? repr order items = some l) :
    ∀ j ∈ items, ∃ c, spellSorted? repr order j = some c := by
  induction items generalizing l with
  | nil => simp
  | cons j items ih =>
    obtain ⟨c, hc, hrest⟩ := Option.bind_eq_some_iff.mp h
    obtain ⟨more, hmore, _⟩ := Option.map_eq_some_iff.mp hrest
    intro i hi
    rcases List.mem_cons.mp hi with rfl | hi
    · exact ⟨c, hc⟩
    · exact ih hmore i hi

theorem isSome_of_spellSortedFields? {items : List (PyKey φ × PyValue φ)}
    {l : List (PyKey φ × Json φ)} (h : spellSortedFields? repr order items = some l) :
    ∀ f ∈ items, ∃ c, spellSorted? repr order f.2 = some c := by
  induction items generalizing l with
  | nil => simp
  | cons f items ih =>
    obtain ⟨k, j⟩ := f
    obtain ⟨c, hc, hrest⟩ := Option.bind_eq_some_iff.mp h
    obtain ⟨more, hmore, _⟩ := Option.map_eq_some_iff.mp hrest
    intro g hg
    rcases List.mem_cons.mp hg with rfl | hg
    · exact ⟨c, hc⟩
    · exact ih hmore g hg

/-- The spelled fields of a dictionary, each value by `g`, in Python's order. -/
theorem spellSorted?_dict {g : PyValue φ → Json φ} {items : List (PyKey φ × PyValue φ)}
    (h : ∀ f ∈ items, spellSorted? repr order f.2 = some (g f.2)) :
    spellSorted? repr order (.dict items) = (sortItems? order items).map fun sorted =>
      .obj (sorted.map fun f => (spellKey repr f.1, g f.2)) := by
  rw [spellSorted?, spellSortedFields?_of h, Option.bind_some, sortItems?_map, Option.map_map]
  congr 1
  funext sorted
  simp only [Function.comp_def, List.map_map, Prod.map_fst, Prod.map_snd, id_eq]

/-! ## Spelled in order -/

/-- Where the spellings ascend, sorting before and after spelling is the same, and nothing is
lost. -/
theorem KeysAscend.spelled_sorted {d : PyValue φ} (h : KeysAscend repr order d) :
    spellSorted? repr order d = some (spell repr d).sortKeys ∧ Json.Valid (spell repr d) := by
  induction h with
  | none => exact ⟨by simp [spellSorted?, spell, Json.sortKeys], .null⟩
  | bool b => exact ⟨by simp [spellSorted?, spell, Json.sortKeys], .bool b⟩
  | int i => exact ⟨by simp [spellSorted?, spell, Json.sortKeys], .int i⟩
  | float x => exact ⟨by simp [spellSorted?, spell, Json.sortKeys], .float x⟩
  | str s => exact ⟨by simp [spellSorted?, spell, Json.sortKeys], .str _⟩
  | @list items _ ih =>
    rw [spell, spellItems_eq]
    constructor
    · rw [spellSorted?, spellSortedItems?_of fun j hj => (ih j hj).1,
        Json.sortKeys_arr, List.map_map]
      rfl
    · refine .arr fun j hj => ?_
      obtain ⟨i, hi, rfl⟩ := List.mem_map.mp hj
      exact (ih i hi).2
  | @dict items sorted hsort hascend _ ih =>
    have hperm := sortItems?_perm hsort
    have hnodup : ((items.map (spellField repr)).map fun f => f.1.codePoints).Nodup := by
      have hlt : (sorted.map fun f => (spellKey repr f.1).codePoints).Nodup :=
        hascend.imp fun h => ne_of_lt h
      rw [List.map_map]
      exact (hperm.map fun f => (spellKey repr f.1).codePoints).nodup_iff.mp hlt
    rw [spell, spellFields_eq]
    constructor
    · rw [spellSorted?_dict (g := fun v => (spell repr v).sortKeys) fun f hf => (ih f hf).1, hsort,
        Json.sortKeys_obj]
      have hsorted : (sorted.map fun f => (spellKey repr f.1, (spell repr f.2).sortKeys)) =
          Json.sortFields ((items.map (spellField repr)).map Json.sortField) := by
        apply sortedBy_eq_of_perm
        · rw [List.map_map]
          exact hperm.map _
        · rw [List.map_map]
          exact hnodup
        · rw [List.pairwise_map] at hascend ⊢
          exact hascend.imp fun h => le_of_lt h
      exact congrArg (some ∘ Json.obj) hsorted
    · refine .obj ?_ fun f hf => ?_
      · apply List.Nodup.of_map PyStr.codePoints
        rw [List.map_map]
        exact hnodup
      · obtain ⟨g, hg, rfl⟩ := List.mem_map.mp hf
        exact (ih g hg).2

/-- What is spelled sorted and stays as it is when it is sorted again has its keys in order. -/
theorem keysAscend_of_spellSorted? {d : PyValue φ} {c : Json φ}
    (h : spellSorted? repr order d = some c) (hv : Json.Valid c) (hc : c.sortKeys = c) :
    KeysAscend repr order d := by
  induction d using PyValue.induction generalizing c with
  | none => exact .none
  | bool b => exact .bool b
  | int i => exact .int i
  | float x => exact .float x
  | str s => exact .str s
  | list items ih =>
    rw [spellSorted?] at h
    obtain ⟨l, hl, rfl⟩ := Option.map_eq_some_iff.mp h
    have : Nonempty (Json φ) := ⟨.null⟩
    choose! g hg using isSome_of_spellSortedItems? hl
    cases (spellSortedItems?_of hg).symm.trans hl
    refine .list fun j hj => ?_
    have hmem : g j ∈ items.map g := List.mem_map_of_mem hj
    cases hv with
    | arr hvalid => exact ih j hj (hg j hj) (hvalid _ hmem) (Json.sortKeys_item hc hmem)
  | dict items ih =>
    have hsome : ∀ f ∈ items, ∃ c, spellSorted? repr order f.2 = some c := by
      rw [spellSorted?] at h
      obtain ⟨l, hl, _⟩ := Option.bind_eq_some_iff.mp h
      exact isSome_of_spellSortedFields? hl
    have hg : ∀ f ∈ items, spellSorted? repr order f.2 =
        some ((spellSorted? repr order f.2).getD .null) := by
      intro f hf
      obtain ⟨c, hc⟩ := hsome f hf
      rw [hc]
      rfl
    rw [spellSorted?_dict (g := fun v => (spellSorted? repr order v).getD .null) hg] at h
    obtain ⟨sorted, hsort, rfl⟩ := Option.map_eq_some_iff.mp h
    cases hv with
    | obj hnodup hvalid =>
      obtain ⟨hle, hfixed⟩ := Json.sortKeys_fields hc
      refine .dict hsort ?_ fun f hf => ?_
      · have hne := Json.keys_nodup hnodup
        rw [List.map_map] at hle hne
        exact (hle.and hne).imp fun h => lt_of_le_of_ne h.1 h.2
      · have hmem := List.mem_map_of_mem (f := fun f : PyKey φ × PyValue φ =>
          (spellKey repr f.1, (spellSorted? repr order f.2).getD .null))
          ((sortItems?_perm hsort).mem_iff.mpr hf)
        exact ih f hf (hg f hf) (hvalid _ hmem) (hfixed _ hmem)

end Spell

end Foundation
