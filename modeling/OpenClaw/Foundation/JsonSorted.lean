import OpenClaw.Foundation.JsonParse
import OpenClaw.Foundation.JsonRoundTrip
import OpenClaw.Foundation.PyText

/-!
# Sorted keys and distinct keys

What is read from a text has distinct keys, and sorting the keys of a value is idempotent. Two
values with the same sorted text are equal up to the order of their keys, as dictionaries are.
-/

namespace Foundation

set_option autoImplicit false

namespace Json
variable {φ : Type}

/-! ## Values that were read -/

section Loads
variable (read : List Char → φ)

theorem parseScalar_valid {cs : List Char} {r : Json φ × List Char}
    (h : parseScalar read cs = some r) : Valid r.1 := by
  unfold parseScalar at h
  split at h
  · rename_i r' hw
    cases h
    obtain ⟨w, hmem, hr⟩ := List.exists_of_findSome?_eq_some hw
    clear hw
    obtain ⟨rest, _, rfl⟩ := Option.map_eq_some_iff.mp hr
    simp only [words, List.mem_cons, List.not_mem_nil, or_false] at hmem
    rcases hmem with rfl | rfl | rfl | rfl | rfl | rfl
    · exact .null
    · exact .bool true
    · exact .bool false
    · exact .float _
    · exact .float _
    · exact .float _
  · obtain ⟨n, _, rfl⟩ := Option.map_eq_some_iff.mp h
    split
    · exact .int _
    · exact .float _

theorem dict_valid {fields : List (PyStr × Json φ)} (h : ∀ f ∈ fields, Valid f.2) :
    Valid (.obj (dict fields)) :=
  .obj (Table.nodup _) fun f hf => h f (Table.mem_ofRows hf)

/-- The three loops of the parser, by induction on the fuel. -/
theorem parse_valid (n : ℕ) :
    (∀ cs r, parseValue read n cs = some r → Valid r.1) ∧
    (∀ cs r, parseItems read n cs = some r → ∀ j ∈ r.1, Valid j) ∧
    (∀ cs r, parseFields read n cs = some r → ∀ f ∈ r.1, Valid f.2) := by
  induction n with
  | zero =>
    refine ⟨?_, ?_, ?_⟩ <;>
    · intro cs r h
      simp [parseValue, parseItems, parseFields] at h
  | succ n ih =>
    obtain ⟨ihv, ihi, ihf⟩ := ih
    refine ⟨?_, ?_, ?_⟩
    · intro cs r h
      cases cs with
      | nil => cases h
      | cons c cs =>
        unfold parseValue at h
        split at h
        · obtain ⟨s, _, rfl⟩ := Option.map_eq_some_iff.mp h
          exact .str s.1
        split at h
        · split at h
          · cases h
            exact .arr (by simp)
          · obtain ⟨items, hitems, rfl⟩ := Option.map_eq_some_iff.mp h
            exact .arr (ihi _ _ hitems)
        split at h
        · split at h
          · cases h
            exact .obj (by simp) (by simp)
          · obtain ⟨fields, hfields, rfl⟩ := Option.map_eq_some_iff.mp h
            exact dict_valid (ihf _ _ hfields)
        · exact parseScalar_valid read h
    · intro cs r h
      unfold parseItems at h
      split at h
      · cases h
      rename_i j rest hj
      split at h
      · cases h
      split at h
      · obtain ⟨more, hmore, rfl⟩ := Option.map_eq_some_iff.mp h
        intro i hi
        rcases List.mem_cons.mp hi with rfl | hi
        · exact ihv _ _ hj
        · exact ihi _ _ hmore i hi
      split at h
      · cases h
        intro i hi
        rw [List.mem_singleton.mp hi]
        exact ihv _ _ hj
      · cases h
    · intro cs r h
      unfold parseFields at h
      split at h
      · cases h
      split at h
      · cases h
      rename_i j rest hj
      obtain ⟨rest', _, hj⟩ := Option.bind_eq_some_iff.mp hj
      split at h
      · cases h
      split at h
      · obtain ⟨more, hmore, rfl⟩ := Option.map_eq_some_iff.mp h
        intro f hf
        rcases List.mem_cons.mp hf with rfl | hf
        · exact ihv _ _ hj
        · exact ihf _ _ hmore f hf
      split at h
      · cases h
        intro f hf
        rw [List.mem_singleton.mp hf]
        exact ihv _ _ hj
      · cases h

theorem loads_valid {cs : List Char} {j : Json φ} (h : loads read cs = some j) : Valid j := by
  unfold loads at h
  split at h
  · rename_i hparse
    split at h
    · cases h
      exact (parse_valid read _).1 _ _ hparse
    · cases h
  · cases h

end Loads

/-! ## Sorted keys -/

/-- The field with its value sorted. -/
def sortField (f : PyStr × Json φ) : PyStr × Json φ := (f.1, f.2.sortKeys)

theorem sortItems_eq (items : List (Json φ)) : sortItems items = items.map sortKeys := by
  induction items with
  | nil => rfl
  | cons j items ih => exact congrArg (sortKeys j :: ·) ih

theorem sortValues_eq (fields : List (PyStr × Json φ)) :
    sortValues fields = fields.map sortField := by
  induction fields with
  | nil => rfl
  | cons f fields ih =>
    obtain ⟨k, j⟩ := f
    exact congrArg ((k, sortKeys j) :: ·) ih

theorem sortKeys_obj (fields : List (PyStr × Json φ)) :
    sortKeys (.obj fields) = .obj (sortFields (fields.map sortField)) :=
  congrArg (fun values => obj (sortFields values)) (sortValues_eq fields)

theorem sortKeys_arr (items : List (Json φ)) : sortKeys (.arr items) = .arr (items.map sortKeys) :=
  congrArg arr (sortItems_eq items)

theorem keys_nodup {fields : List (PyStr × Json φ)} (h : (fields.map Prod.fst).Nodup) :
    (fields.map fun f => f.1.codePoints).Nodup := by
  have := h.map PyStr.codePoints_injective
  rwa [List.map_map] at this

theorem keys_sortField (fields : List (PyStr × Json φ)) :
    (fields.map sortField).map Prod.fst = fields.map Prod.fst := by
  rw [List.map_map]
  rfl

theorem nodup_sortFields {fields : List (PyStr × Json φ)} (h : (fields.map Prod.fst).Nodup) :
    ((sortFields (fields.map sortField)).map Prod.fst).Nodup := by
  have hperm := (sortedBy_perm (fun f => f.1.codePoints) (fields.map sortField)).map Prod.fst
  rw [keys_sortField] at hperm
  exact hperm.nodup_iff.mpr h

theorem valid_sortKeys {j : Json φ} (h : Valid j) : Valid j.sortKeys := by
  induction h with
  | null => exact .null
  | bool b => exact .bool b
  | int i => exact .int i
  | float x => exact .float x
  | str s => exact .str s
  | @arr items _ ih =>
    rw [sortKeys_arr]
    refine .arr fun j hj => ?_
    obtain ⟨i, hi, rfl⟩ := List.mem_map.mp hj
    exact ih i hi
  | @obj fields hk _ ih =>
    rw [sortKeys_obj]
    refine .obj (nodup_sortFields hk) fun f hf => ?_
    obtain ⟨g, hg, rfl⟩ := List.mem_map.mp ((mem_sortedBy _ _ f).mp hf)
    exact ih g hg

theorem sortField_sortFields (fields : List (PyStr × Json φ)) :
    (sortFields fields).map sortField = sortFields (fields.map sortField) :=
  List.map_insertionSort _ _ _ _ fun _ _ _ _ => Iff.rfl

theorem sortKeys_sortKeys (j : Json φ) : j.sortKeys.sortKeys = j.sortKeys := by
  induction j using Json.induction with
  | null => rfl
  | bool b => rfl
  | int i => rfl
  | float x => rfl
  | str s => rfl
  | arr items ih =>
    rw [sortKeys_arr, sortKeys_arr, List.map_map]
    exact congrArg arr (List.map_congr_left ih)
  | obj fields ih =>
    have hfields : (fields.map sortField).map sortField = fields.map sortField := by
      rw [List.map_map]
      exact List.map_congr_left fun f hf => Prod.ext rfl (ih f hf)
    rw [sortKeys_obj, sortKeys_obj, sortField_sortFields, hfields]
    exact congrArg obj (sortedBy_sortedBy _ _)

theorem sortKeys_item {items : List (Json φ)} (h : (arr items).sortKeys = arr items) {j : Json φ}
    (hj : j ∈ items) : j.sortKeys = j := by
  rw [sortKeys_arr] at h
  have hmap : items.map sortKeys = items.map id := by
    rw [List.map_id]
    exact Json.arr.inj h
  exact List.map_inj_left.mp hmap j hj

/-- The fields of an object that is sorted. -/
theorem sortKeys_fields {fields : List (PyStr × Json φ)}
    (h : (obj fields).sortKeys = obj fields) :
    (fields.map fun f => f.1.codePoints).Pairwise (· ≤ ·) ∧ ∀ f ∈ fields, f.2.sortKeys = f.2 := by
  rw [sortKeys_obj] at h
  have hsorted : sortFields (fields.map sortField) = fields := Json.obj.inj h
  constructor
  · have hpair := sortedBy_pairwise (fun f : PyStr × Json φ => f.1.codePoints)
      (fields.map sortField)
    rw [List.pairwise_map]
    rwa [← sortFields, hsorted] at hpair
  · intro f hf
    rw [← hsorted] at hf
    obtain ⟨g, _, rfl⟩ := List.mem_map.mp ((mem_sortedBy _ _ f).mp hf)
    exact sortKeys_sortKeys g.2

/-- The field of a key, sorted or not. -/
theorem find?_sortFields {fields : List (PyStr × Json φ)} (hk : (fields.map Prod.fst).Nodup)
    {f : PyStr × Json φ} (hf : f ∈ fields) :
    (sortFields (fields.map sortField)).find? (fun g => g.1 = f.1) = some (sortField f) := by
  have hperm := sortedBy_perm (fun f => f.1.codePoints) (fields.map sortField)
  exact Table.find?_of_nodup (nodup_sortFields hk) (hperm.mem_iff.mpr (List.mem_map_of_mem hf))

/-- Equal sorted texts come from values that are equal up to the order of keys. -/
theorem dumpsSorted_injective (F : FloatFormat φ) (sep : Separators) {j j' : Json φ}
    (hv : Valid j) (hv' : Valid j') (h : dumpsSorted F.repr sep j = dumpsSorted F.repr sep j') :
    j.sortKeys = j'.sortKeys :=
  dumps_injective F sep (valid_sortKeys hv) (valid_sortKeys hv') h

end Json

end Foundation
