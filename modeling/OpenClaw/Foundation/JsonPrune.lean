import Mathlib.Data.List.Forall2
import OpenClaw.Foundation.JsonRoundTrip

/-!
# Leaving out the marked parts of a value

Marks name keys and dictionaries. Pruning removes the fields under marked keys and every marked
dictionary, wherever it stands. Whether a dictionary is marked is read from scalars under keys that
are not marked themselves, so that pruning does not change it.
-/

namespace Foundation

set_option autoImplicit false

/-! ## Lists side by side
-/

section Pairs

universe u v w
variable {α : Type u} {β : Type v} {γ : Type w} {xs : List α} {ys : List β}

theorem map_eq_of_zip {f : α → γ} {g : β → γ} (hlength : xs.length = ys.length)
    (h : ∀ p ∈ xs.zip ys, f p.1 = g p.2) : xs.map f = ys.map g := by
  rw [← List.forall₂_eq_eq_eq, List.forall₂_map_left_iff, List.forall₂_map_right_iff,
    List.forall₂_iff_zip]
  exact ⟨hlength, fun {x y} hxy => h (x, y) hxy⟩

theorem filterMap_eq_of_zip {f : α → Option γ} {g : β → Option γ} (hlength : xs.length = ys.length)
    (h : ∀ p ∈ xs.zip ys, f p.1 = g p.2) : xs.filterMap f = ys.filterMap g := by
  have hmap := congrArg (List.filterMap id) (map_eq_of_zip hlength h)
  rwa [List.filterMap_map, List.filterMap_map] at hmap

theorem zip_of_map_eq {f : α → γ} {g : β → γ} (h : xs.map f = ys.map g) :
    xs.length = ys.length ∧ ∀ p ∈ xs.zip ys, f p.1 = g p.2 := by
  rw [← List.forall₂_eq_eq_eq, List.forall₂_map_left_iff, List.forall₂_map_right_iff,
    List.forall₂_iff_zip] at h
  exact ⟨h.1, fun p hp => h.2 hp⟩

theorem mem_zip_map {f : α → β} {p : α × β} (hp : p ∈ xs.zip (xs.map f)) :
    p.1 ∈ xs ∧ p.2 = f p.1 := by
  rw [← List.map_prod_left_eq_zip, List.mem_map] at hp
  obtain ⟨x, hx, rfl⟩ := hp
  exact ⟨hx, rfl⟩

end Pairs

namespace Json
variable {φ : Type}

def isScalar : Json φ → Bool
  | .arr _ => false
  | .obj _ => false
  | _ => true

/-- The value under a key, where it is no list and no dictionary. -/
def scalarUnder (k : PyStr) (fields : List (PyStr × Json φ)) : Option (Json φ) :=
  ((fields.find? fun f => f.1 = k).map Prod.snd).filter isScalar

structure Marks (φ : Type) where
  key : PyStr → Bool
  dict : List (PyStr × Json φ) → Bool
  reads : PyStr → Prop
  /-- A dictionary is known by its scalars. -/
  dict_congr : ∀ {fields fields' : List (PyStr × Json φ)},
    (∀ k, reads k → scalarUnder k fields = scalarUnder k fields') → dict fields = dict fields'

namespace Marks

def union (m n : Marks φ) : Marks φ where
  key k := m.key k || n.key k
  dict fields := m.dict fields || n.dict fields
  reads k := m.reads k ∨ n.reads k
  dict_congr h := by
    rw [m.dict_congr fun k hk => h k (.inl hk), n.dict_congr fun k hk => h k (.inr hk)]

variable (m : Marks φ)

/-- The value is a marked dictionary. -/
def hides : Json φ → Bool
  | .obj fields => m.dict fields
  | _ => false

def hidesField (f : PyStr × Json φ) : Bool := m.key f.1 || m.hides f.2

mutual

/-- The value without its marked parts; `none` where it is marked itself. -/
def prune : Json φ → Option (Json φ)
  | .obj fields => if m.dict fields then none else some (.obj (pruneFields fields))
  | .arr items => some (.arr (pruneItems items))
  | .null => some .null
  | .bool b => some (.bool b)
  | .int i => some (.int i)
  | .float x => some (.float x)
  | .str s => some (.str s)

def pruneItems : List (Json φ) → List (Json φ)
  | [] => []
  | j :: items =>
    match prune j with
    | none => pruneItems items
    | some j' => j' :: pruneItems items

def pruneFields : List (PyStr × Json φ) → List (PyStr × Json φ)
  | [] => []
  | (k, j) :: fields =>
    if m.key k then pruneFields fields
    else
      match prune j with
      | none => pruneFields fields
      | some j' => (k, j') :: pruneFields fields

end

/-- No dictionary in the value is marked, and no key. -/
inductive Unmarked : Json φ → Prop where
  | scalar {j : Json φ} : j.isScalar → Unmarked j
  | arr {items : List (Json φ)} : (∀ j ∈ items, Unmarked j) → Unmarked (.arr items)
  | obj {fields : List (PyStr × Json φ)} : m.dict fields = false →
    (∀ f ∈ fields, m.key f.1 = false) → (∀ f ∈ fields, Unmarked f.2) → Unmarked (.obj fields)

/-- The values differ only in what is marked: in marked dictionaries, in fields under marked keys,
and in how many of these there are. -/
inductive Alike : Json φ → Json φ → Prop where
  | same (j : Json φ) : Alike j j
  | hidden {j j' : Json φ} : m.hides j → m.hides j' → Alike j j'
  | arr {items items' : List (Json φ)} :
    (items.filter fun j => !m.hides j).length = (items'.filter fun j => !m.hides j).length →
    (∀ p ∈ (items.filter fun j => !m.hides j).zip (items'.filter fun j => !m.hides j),
      Alike p.1 p.2) → Alike (.arr items) (.arr items')
  | obj {fields fields' : List (PyStr × Json φ)} : m.dict fields = false → m.dict fields' = false →
    (fields.filter fun f => !m.hidesField f).map Prod.fst =
      (fields'.filter fun f => !m.hidesField f).map Prod.fst →
    (∀ p ∈ (fields.filter fun f => !m.hidesField f).zip (fields'.filter fun f => !m.hidesField f),
      Alike p.1.2 p.2.2) → Alike (.obj fields) (.obj fields')

variable {m}

/-- What becomes of a field. -/
def pruneField (m : Marks φ) (f : PyStr × Json φ) : Option (PyStr × Json φ) :=
  if m.key f.1 then none else (m.prune f.2).map fun j => (f.1, j)

theorem pruneItems_eq (items : List (Json φ)) : m.pruneItems items = items.filterMap m.prune := by
  induction items with
  | nil => rfl
  | cons j items ih =>
    rw [pruneItems, ih, List.filterMap_cons]
    cases m.prune j <;> rfl

theorem pruneFields_eq (fields : List (PyStr × Json φ)) :
    m.pruneFields fields = fields.filterMap m.pruneField := by
  induction fields with
  | nil => rfl
  | cons f fields ih =>
    obtain ⟨k, j⟩ := f
    rw [pruneFields, ih, List.filterMap_cons]
    cases hk : m.key k with
    | true => simp [pruneField, hk]
    | false => cases hj : m.prune j <;> simp [pruneField, hk, hj]

theorem prune_arr (items : List (Json φ)) :
    m.prune (.arr items) = some (.arr (items.filterMap m.prune)) := by
  rw [prune, pruneItems_eq]

theorem prune_obj (fields : List (PyStr × Json φ)) : m.prune (.obj fields) =
    if m.dict fields then none else some (.obj (fields.filterMap m.pruneField)) := by
  rw [prune, pruneFields_eq]

theorem prune_scalar {j : Json φ} (h : j.isScalar) : m.prune j = some j := by
  cases j with
  | arr items => cases h
  | obj fields => cases h
  | _ => rfl

theorem prune_eq_none {j : Json φ} : m.prune j = none ↔ m.hides j = true := by
  cases j with
  | obj fields =>
    rw [prune_obj, hides]
    split <;> simp_all
  | arr items => simp [prune_arr, hides]
  | _ => simp [prune, hides]

theorem isScalar_prune {j j' : Json φ} (h : m.prune j = some j') : j'.isScalar = j.isScalar := by
  cases j with
  | obj fields =>
    rw [prune_obj] at h
    split at h <;> cases h
    rfl
  | arr items =>
    rw [prune_arr] at h
    cases h
    rfl
  | _ =>
    cases h
    rfl

/-- Pruning leaves every scalar under a key that is not marked. -/
theorem scalarUnder_prune {fields : List (PyStr × Json φ)} (hnodup : (fields.map Prod.fst).Nodup)
    {k : PyStr} (hk : m.key k = false) :
    scalarUnder k (fields.filterMap m.pruneField) = scalarUnder k fields := by
  have hkey : ∀ {f f' : PyStr × Json φ}, m.pruneField f = some f' → f'.1 = f.1 := by
    intro f f' h
    unfold pruneField at h
    split at h
    · cases h
    · obtain ⟨j, -, rfl⟩ := Option.map_eq_some_iff.mp h
      rfl
  unfold scalarUnder
  induction fields with
  | nil => rfl
  | cons f fields ih =>
    obtain ⟨hf, hnodup⟩ := List.nodup_cons.mp hnodup
    by_cases hfk : f.1 = k
    · subst hfk
      have hrest : (fields.filterMap m.pruneField).find? (fun g => g.1 = f.1) = none := by
        rw [List.find?_eq_none]
        intro g' hg'
        obtain ⟨g, hg, hgg'⟩ := List.mem_filterMap.mp hg'
        rw [hkey hgg', decide_eq_true_eq]
        intro heq
        exact hf (heq ▸ List.mem_map_of_mem hg)
      rw [List.filterMap_cons, pruneField, if_neg (by simp [hk])]
      cases hj : m.prune f.2 with
      | none =>
        have hscalar : f.2.isScalar = false := by
          by_contra hscalar
          rw [prune_scalar (by simpa using hscalar)] at hj
          cases hj
        simp [hrest, hscalar, Option.filter_some]
      | some j =>
        have hscalar := isScalar_prune hj
        by_cases hs : f.2.isScalar = true
        · rw [prune_scalar hs] at hj
          cases hj
          simp
        · simp [hscalar, hs, Option.filter_some]
    · rw [List.filterMap_cons, List.find?_cons_of_neg (by simp [hfk])]
      cases hf' : m.pruneField f with
      | none => exact ih hnodup
      | some f' =>
        have hne : f'.1 ≠ k := hkey hf' ▸ hfk
        show Option.filter isScalar (((f' :: fields.filterMap m.pruneField).find?
          fun f => f.1 = k).map Prod.snd) = _
        rw [List.find?_cons_of_neg (by simp [hne])]
        exact ih hnodup

theorem dict_prune {n : Marks φ} (hreads : ∀ k, n.reads k → m.key k = false)
    {fields : List (PyStr × Json φ)} (hnodup : (fields.map Prod.fst).Nodup) :
    n.dict (fields.filterMap m.pruneField) = n.dict fields :=
  n.dict_congr fun k hk => scalarUnder_prune hnodup (hreads k hk)

/-- Pruning by one mark after the other is pruning by both. -/
theorem prune_bind {n : Marks φ} (hreads : ∀ k, n.reads k → m.key k = false) {j : Json φ}
    (hj : Valid j) : (m.prune j).bind n.prune = (m.union n).prune j := by
  induction hj with
  | arr _ ih =>
    rw [prune_arr, Option.bind_some, prune_arr, prune_arr, List.filterMap_filterMap]
    congr 2
    exact List.filterMap_congr fun j hj => ih j hj
  | @obj fields hnodup _ ih =>
    rw [prune_obj, prune_obj]
    have hunion : (m.union n).dict fields = (m.dict fields || n.dict fields) := rfl
    rw [hunion]
    cases hm : m.dict fields with
    | true => rfl
    | false =>
      rw [if_neg (by simp), Option.bind_some, prune_obj, dict_prune hreads hnodup, Bool.false_or]
      split
      · rfl
      · rw [List.filterMap_filterMap]
        congr 2
        apply List.filterMap_congr
        intro f hf
        have hkey : (m.union n).key f.1 = (m.key f.1 || n.key f.1) := rfl
        unfold pruneField
        rw [← ih f hf, hkey]
        cases m.key f.1 with
        | true => rfl
        | false =>
          cases m.prune f.2 <;> simp
  | _ => rfl

/-- What pruning leaves is not marked, and it leaves what is not marked. -/
theorem prune_unmarked (hreads : ∀ k, m.reads k → m.key k = false) {j j' : Json φ} (hj : Valid j)
    (h : m.prune j = some j') : m.Unmarked j' := by
  induction hj generalizing j' with
  | arr _ ih =>
    rw [prune_arr] at h
    cases h
    refine .arr fun i' hi' => ?_
    obtain ⟨i, hi, hi'⟩ := List.mem_filterMap.mp hi'
    exact ih i hi hi'
  | @obj fields hnodup _ ih =>
    rw [prune_obj] at h
    split at h
    · cases h
    rename_i hdict
    cases h
    have hfield : ∀ f' ∈ fields.filterMap m.pruneField,
        m.key f'.1 = false ∧ m.Unmarked f'.2 := by
      intro f' hf'
      obtain ⟨f, hf, hff'⟩ := List.mem_filterMap.mp hf'
      unfold pruneField at hff'
      split at hff'
      · cases hff'
      · rename_i hkey
        obtain ⟨i, hi, rfl⟩ := Option.map_eq_some_iff.mp hff'
        exact ⟨by simpa using hkey, ih f hf hi⟩
    refine .obj ?_ (fun f hf => (hfield f hf).1) fun f hf => (hfield f hf).2
    rw [dict_prune hreads hnodup]
    simpa using hdict
  | _ =>
    cases h
    exact .scalar rfl

theorem Unmarked.left {n : Marks φ} {j : Json φ} (h : (m.union n).Unmarked j) : m.Unmarked j := by
  induction h with
  | scalar hj => exact .scalar hj
  | arr _ ih => exact .arr ih
  | obj hdict hkeys _ ih =>
    exact .obj (Bool.or_eq_false_iff.mp hdict).1
      (fun f hf => (Bool.or_eq_false_iff.mp (hkeys f hf)).1) ih

theorem Unmarked.right {n : Marks φ} {j : Json φ} (h : (m.union n).Unmarked j) : n.Unmarked j := by
  induction h with
  | scalar hj => exact .scalar hj
  | arr _ ih => exact .arr ih
  | obj hdict hkeys _ ih =>
    exact .obj (Bool.or_eq_false_iff.mp hdict).2
      (fun f hf => (Bool.or_eq_false_iff.mp (hkeys f hf)).2) ih

theorem Unmarked.prune {j : Json φ} (h : m.Unmarked j) : m.prune j = some j := by
  induction h with
  | scalar hj => exact prune_scalar hj
  | arr _ ih =>
    rw [prune_arr]
    congr 2
    exact (List.filterMap_congr ih).trans List.filterMap_some
  | @obj fields hdict hkeys _ ih =>
    rw [prune_obj, hdict, if_neg (by simp)]
    congr 2
    refine (List.filterMap_congr fun f hf => ?_).trans List.filterMap_some
    rw [pruneField, hkeys f hf, if_neg (by simp), ih f hf]
    rfl

theorem filterMap_prune (items : List (Json φ)) :
    items.filterMap m.prune = (items.filter fun j => !m.hides j).filterMap m.prune := by
  rw [List.filterMap_filter]
  apply List.filterMap_congr
  intro j _
  cases hj : m.hides j with
  | true => exact prune_eq_none.mpr hj
  | false => rfl

theorem filterMap_pruneField (fields : List (PyStr × Json φ)) : fields.filterMap m.pruneField =
    (fields.filter fun f => !m.hidesField f).filterMap m.pruneField := by
  rw [List.filterMap_filter]
  apply List.filterMap_congr
  intro f _
  unfold pruneField hidesField
  cases m.key f.1 with
  | true => rfl
  | false =>
    cases hj : m.hides f.2 with
    | true => simp [prune_eq_none.mpr hj]
    | false => rfl

/-- What is marked has no influence on what pruning leaves. -/
theorem Alike.prune_eq {j j' : Json φ} (h : m.Alike j j') : m.prune j = m.prune j' := by
  induction h with
  | same j => rfl
  | hidden hj hj' => rw [prune_eq_none.mpr hj, prune_eq_none.mpr hj']
  | @arr items items' hlength _ ih =>
    rw [prune_arr, prune_arr, filterMap_prune items, filterMap_prune items']
    congr 2
    exact filterMap_eq_of_zip hlength ih
  | @obj fields fields' hdict hdict' hkeys _ ih =>
    obtain ⟨hlength, hkey⟩ := zip_of_map_eq hkeys
    rw [prune_obj, prune_obj, hdict, hdict', filterMap_pruneField fields,
      filterMap_pruneField fields']
    congr 3
    refine filterMap_eq_of_zip hlength fun p hp => ?_
    rw [pruneField, pruneField, hkey p hp, ih p hp]

end Marks

end Json

end Foundation
