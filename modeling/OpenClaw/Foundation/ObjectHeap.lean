import OpenClaw.Foundation.Checks
import OpenClaw.Foundation.Json

/-!
# Lists and dictionaries in memory

A list or a dictionary is a cell with an address, and a value may refer to it, so what is stored
under one name can be written under another. New cells go to the end. `build` makes fresh cells
for a JSON value, as `json.loads` and `copy.deepcopy` do, and `read` is the way back.
-/

namespace Foundation

set_option autoImplicit false

variable {φ : Type}

inductive Val (φ : Type) where
  | null
  | bool (b : Bool)
  | int (i : ℤ)
  | float (x : φ)
  | str (s : PyStr)
  | ref (a : ℕ)

def Val.isNull : Val φ → Bool
  | .null => true
  | _ => false

def Val.str? : Val φ → Option PyStr
  | .str s => some s
  | _ => none

/-- The address of the value, if it has one, is in the set. -/
def Val.Within (Q : ℕ → Prop) : Val φ → Prop
  | .ref a => Q a
  | _ => True

theorem Val.Within.mono {Q Q' : ℕ → Prop} (h : ∀ a, Q a → Q' a) {v : Val φ} (hv : v.Within Q) :
    v.Within Q' := by
  cases v with
  | ref a => exact h a hv
  | _ => trivial

/-- `get(key)` of a dictionary. -/
def under? {α : Type*} (k : PyStr) (es : List (PyStr × α)) : Option α :=
  (es.find? fun e => e.1 = k).map Prod.snd

section Entries
variable {α β : Type*} {k k' : PyStr} {es : List (PyStr × α)}

theorem mem_of_under? {v : α} (h : under? k es = some v) : (k, v) ∈ es := by
  obtain ⟨e, he, rfl⟩ := Option.map_eq_some_iff.mp h
  have hk : e.1 = k := by simpa using List.find?_some he
  exact hk ▸ List.mem_of_find?_eq_some he

theorem under?_replaceRow (k k' : PyStr) (v : α) (es : List (PyStr × α)) :
    under? k (replaceRow Prod.fst (k', v) es) = if k' = k then some v else under? k es := by
  rw [under?, Table.find?_replaceRow]
  split <;> rfl

theorem mem_replaceRow {e : PyStr × α} {v : α} (h : e ∈ replaceRow Prod.fst (k, v) es) :
    e = (k, v) ∨ e ∈ es := by
  induction es with
  | nil => exact .inl (List.mem_singleton.mp h)
  | cons e' es ih =>
    rw [replaceRow] at h
    split at h
    · exact (List.mem_cons.mp h).imp_right (List.mem_cons_of_mem e')
    · rcases List.mem_cons.mp h with rfl | h
      · exact .inr List.mem_cons_self
      · exact (ih h).imp_right (List.mem_cons_of_mem e')

/-- Dictionaries with the same keys, entry by entry. -/
theorem under?_forall₂ {R : PyStr → α → β → Prop} {fs : List (PyStr × β)}
    (h : List.Forall₂ (fun e f => e.1 = f.1 ∧ R e.1 e.2 f.2) es fs) (k : PyStr) :
    (under? k es = none ∧ under? k fs = none) ∨
      ∃ v w, under? k es = some v ∧ under? k fs = some w ∧ R k v w := by
  induction h with
  | nil => exact .inl ⟨rfl, rfl⟩
  | @cons e f es fs hef _ ih =>
    by_cases hk : e.1 = k
    · exact .inr ⟨e.2, f.2, by simp [under?, hk], by simp [under?, ← hef.1, hk], hk ▸ hef.2⟩
    · simpa [under?, hk, ← hef.1] using ih

theorem forall₂_imp_of_mem {R S : α → β → Prop} {xs : List α} {ys : List β}
    (h : List.Forall₂ R xs ys) (hRS : ∀ x ∈ xs, ∀ y, R x y → S x y) : List.Forall₂ S xs ys := by
  induction h with
  | nil => exact .nil
  | @cons x y xs ys hxy _ ih =>
    exact .cons (hRS x List.mem_cons_self y hxy) (ih fun x hx => hRS x (List.mem_cons_of_mem _ hx))

theorem forall₂_getElem? {R : α → β → Prop} {xs : List α} {ys : List β} (h : List.Forall₂ R xs ys)
    (i : ℕ) : (xs[i]? = none ∧ ys[i]? = none) ∨ ∃ x y, xs[i]? = some x ∧ ys[i]? = some y ∧ R x y := by
  induction h generalizing i with
  | nil => exact .inl ⟨rfl, rfl⟩
  | @cons x y xs ys hxy _ ih =>
    cases i with
    | zero => exact .inr ⟨x, y, rfl, rfl, hxy⟩
    | succ i => simpa using ih i

theorem forall₂_left {R : α → β → Prop} {p : α → Prop} {xs : List α} {ys : List β}
    (h : List.Forall₂ R xs ys) (hR : ∀ x y, R x y → p x) : ∀ x ∈ xs, p x := by
  induction h with
  | nil => exact nofun
  | cons hxy _ ih => exact List.forall_mem_cons.mpr ⟨hR _ _ hxy, ih⟩

end Entries

inductive Cell (φ : Type) where
  | list (items : List (Val φ))
  | dict (entries : List (PyStr × Val φ))

namespace Cell

def values : Cell φ → List (Val φ)
  | .list items => items
  | .dict entries => entries.map Prod.snd

def Within (Q : ℕ → Prop) (c : Cell φ) : Prop := ∀ v ∈ c.values, v.Within Q

theorem Within.mono {Q Q' : ℕ → Prop} (h : ∀ a, Q a → Q' a) {c : Cell φ} (hc : c.Within Q) :
    c.Within Q' := fun v hv => (hc v hv).mono h

theorem Within.of_under? {Q : ℕ → Prop} {es : List (PyStr × Val φ)} (hc : (dict es).Within Q)
    {k : PyStr} {v : Val φ} (h : under? k es = some v) : v.Within Q :=
  hc v (List.mem_map_of_mem (mem_of_under? h))

end Cell

structure Heap (φ : Type) where
  cells : List (Cell φ) := []

namespace Heap

def size (h : Heap φ) : ℕ := h.cells.length

def get? (h : Heap φ) (a : ℕ) : Option (Cell φ) := h.cells[a]?

def alloc (h : Heap φ) (c : Cell φ) : Heap φ × Val φ := (⟨h.cells ++ [c]⟩, .ref h.size)

def write (h : Heap φ) (a : ℕ) (c : Cell φ) : Heap φ := ⟨h.cells.set a c⟩

/-- The cell of a value that is a list or a dictionary. -/
def cell? (h : Heap φ) : Val φ → Option (Cell φ)
  | .ref a => h.get? a
  | _ => none

def list? (h : Heap φ) (v : Val φ) : Option (List (Val φ)) :=
  match h.cell? v with
  | some (.list items) => some items
  | _ => none

def dict? (h : Heap φ) (v : Val φ) : Option (List (PyStr × Val φ)) :=
  match h.cell? v with
  | some (.dict es) => some es
  | _ => none

theorem cell?_of_list? {h : Heap φ} {v : Val φ} {items : List (Val φ)}
    (hv : h.list? v = some items) : h.cell? v = some (.list items) := by
  unfold list? at hv
  split at hv
  · cases hv
    assumption
  · cases hv

theorem cell?_of_dict? {h : Heap φ} {v : Val φ} {es : List (PyStr × Val φ)}
    (hv : h.dict? v = some es) : h.cell? v = some (.dict es) := by
  unfold dict? at hv
  split at hv
  · cases hv
    assumption
  · cases hv

/-- `d[key] = v`. -/
def setItem (h : Heap φ) (d : ℕ) (k : PyStr) (v : Val φ) : Heap φ :=
  match h.get? d with
  | some (.dict es) => h.write d (.dict (replaceRow Prod.fst (k, v) es))
  | _ => h

@[simp] theorem size_write (h : Heap φ) (a : ℕ) (c : Cell φ) : (h.write a c).size = h.size :=
  List.length_set

@[simp] theorem size_setItem (h : Heap φ) (d : ℕ) (k : PyStr) (v : Val φ) :
    (h.setItem d k v).size = h.size := by
  unfold setItem
  split
  · exact size_write h d _
  · rfl

theorem lt_size_of_get? {h : Heap φ} {a : ℕ} {c : Cell φ} (hc : h.get? a = some c) : a < h.size :=
  (List.getElem?_eq_some_iff.mp hc).1

theorem get?_write_ne {h : Heap φ} {a b : ℕ} (hab : a ≠ b) (c : Cell φ) :
    (h.write a c).get? b = h.get? b := List.getElem?_set_ne hab

theorem get?_write_self {h : Heap φ} {a : ℕ} {c : Cell φ} (ha : a < h.size) :
    (h.write a c).get? a = some c := List.getElem?_set_self ha

theorem get?_setItem_ne {h : Heap φ} {d b : ℕ} (hdb : d ≠ b) (k : PyStr) (v : Val φ) :
    (h.setItem d k v).get? b = h.get? b := by
  unfold setItem
  split
  · exact get?_write_ne hdb _
  · rfl

theorem get?_setItem_self {h : Heap φ} {d : ℕ} {es : List (PyStr × Val φ)}
    (hd : h.get? d = some (.dict es)) (k : PyStr) (v : Val φ) :
    (h.setItem d k v).get? d = some (.dict (replaceRow Prod.fst (k, v) es)) := by
  rw [setItem, hd]
  exact get?_write_self (lt_size_of_get? hd)

/-! ## Growth -/

/-- The cells of one heap stand unchanged at the front of the other. -/
def Grows (h h' : Heap φ) : Prop := h.cells <+: h'.cells

theorem Grows.refl (h : Heap φ) : h.Grows h := List.prefix_refl _

theorem Grows.trans {h h' h'' : Heap φ} (h₁ : h.Grows h') (h₂ : h'.Grows h'') : h.Grows h'' :=
  List.IsPrefix.trans h₁ h₂

theorem Grows.size_le {h h' : Heap φ} (hg : h.Grows h') : h.size ≤ h'.size := hg.length_le

theorem Grows.get? {h h' : Heap φ} (hg : h.Grows h') {a : ℕ} (ha : a < h.size) :
    h'.get? a = h.get? a := by
  obtain ⟨t, ht⟩ := hg
  rw [Heap.get?, ← ht]
  exact List.getElem?_append_left ha

theorem grows_alloc (h : Heap φ) (c : Cell φ) : h.Grows (h.alloc c).1 := List.prefix_append _ _

@[simp] theorem size_alloc (h : Heap φ) (c : Cell φ) : (h.alloc c).1.size = h.size + 1 :=
  List.length_append

theorem get?_alloc_self (h : Heap φ) (c : Cell φ) : (h.alloc c).1.get? h.size = some c :=
  List.getElem?_concat_length

/-! ## Sealed sets of addresses -/

/-- No cell of the set refers out of it. -/
def Sealed (h : Heap φ) (Q : ℕ → Prop) : Prop := ∀ a c, h.get? a = some c → Q a → c.Within Q

theorem Sealed.cell {h : Heap φ} {Q : ℕ → Prop} (hs : h.Sealed Q) {v : Val φ} (hv : v.Within Q)
    {c : Cell φ} (hc : h.cell? v = some c) : c.Within Q := by
  cases v with
  | ref a => exact hs a c hc hv
  | _ => cases hc

theorem Sealed.setItem {h : Heap φ} {Q : ℕ → Prop} (hs : h.Sealed Q) {d : ℕ} (k : PyStr)
    {v : Val φ} (hv : Q d → v.Within Q) : (h.setItem d k v).Sealed Q := by
  intro a c hc ha
  by_cases hda : d = a
  · subst hda
    cases hcell : h.get? d with
    | none => exact hs d c (by rwa [Heap.setItem, hcell] at hc) ha
    | some c₀ =>
      cases c₀ with
      | list items => exact hs d c (by rwa [Heap.setItem, hcell] at hc) ha
      | dict es =>
        rw [get?_setItem_self hcell] at hc
        cases hc
        intro w hw
        obtain ⟨e, he, rfl⟩ := List.mem_map.mp hw
        rcases mem_replaceRow he with rfl | he
        · exact hv ha
        · exact hs d _ hcell ha e.2 (List.mem_map_of_mem he)
  · rw [get?_setItem_ne hda] at hc
    exact hs a c hc ha

/-! ## Reading a value -/

/-- The JSON value in memory; `none` when the fuel does not reach the leaves, as in a circular
structure. -/
def read (h : Heap φ) : ℕ → Val φ → Option (Json φ)
  | _, .null => some .null
  | _, .bool b => some (.bool b)
  | _, .int i => some (.int i)
  | _, .float x => some (.float x)
  | _, .str s => some (.str s)
  | 0, .ref _ => none
  | n + 1, .ref a =>
    match h.get? a with
    | some (.list items) => (items.mapM (read h n)).map .arr
    | some (.dict es) => (es.mapM fun e => (read h n e.2).map fun j => (e.1, j)).map .obj
    | none => none

theorem read_succ (h : Heap φ) (n a : ℕ) : h.read (n + 1) (.ref a) =
    match h.get? a with
    | some (.list items) => (items.mapM (h.read n)).map .arr
    | some (.dict es) => (es.mapM fun e => (h.read n e.2).map fun j => (e.1, j)).map .obj
    | none => none := rfl

def toJson? (h : Heap φ) (v : Val φ) : Option (Json φ) := h.read h.size v

section Scalars
variable (h : Heap φ) (n : ℕ)

@[simp] theorem read_null : h.read n .null = some .null := by cases n <;> rfl

@[simp] theorem read_bool (b : Bool) : h.read n (.bool b) = some (.bool b) := by cases n <;> rfl

@[simp] theorem read_int (i : ℤ) : h.read n (.int i) = some (.int i) := by cases n <;> rfl

@[simp] theorem read_float (x : φ) : h.read n (.float x) = some (.float x) := by cases n <;> rfl

@[simp] theorem read_str (s : PyStr) : h.read n (.str s) = some (.str s) := by cases n <;> rfl

end Scalars

theorem read_entries_iff {h : Heap φ} {n : ℕ} {es : List (PyStr × Val φ)}
    {fs : List (PyStr × Json φ)} :
    (es.mapM fun e => (h.read n e.2).map fun j => (e.1, j)) = some fs ↔
      List.Forall₂ (fun e f => e.1 = f.1 ∧ h.read n e.2 = some f.2) es fs := by
  rw [mapM_some_iff]
  refine iff_of_eq (congrArg (List.Forall₂ · es fs) ?_)
  funext e f
  cases h.read n e.2 <;> simp [Prod.ext_iff]

/-- A value is read the same wherever the cells of a sealed set around it are the same, and with
more fuel. -/
theorem read_frame {h h' : Heap φ} {Q : ℕ → Prop} (hs : h.Sealed Q)
    (heq : ∀ a c, Q a → h.get? a = some c → h'.get? a = some c) :
    ∀ {n m : ℕ} {v : Val φ} {j : Json φ}, n ≤ m → v.Within Q → h.read n v = some j →
      h'.read m v = some j := by
  intro n
  induction n with
  | zero =>
    intro m v j _ _ hj
    cases v with
    | ref a => cases hj
    | _ => cases m <;> exact hj
  | succ n ih =>
    intro m v j hm hv hj
    obtain ⟨m, rfl⟩ : ∃ k, m = k + 1 := ⟨m - 1, by omega⟩
    cases v with
    | ref a =>
      rw [read_succ] at hj ⊢
      cases hcell : h.get? a with
      | none => simp [hcell] at hj
      | some c =>
        have hwithin := hs a c hcell hv
        rw [heq a c hv hcell]
        rw [hcell] at hj
        cases c with
        | list items =>
          obtain ⟨js, hjs, rfl⟩ := Option.map_eq_some_iff.mp hj
          refine Option.map_eq_some_iff.mpr ⟨js, mapM_some_iff.mpr ?_, rfl⟩
          exact forall₂_imp_of_mem (mapM_some_iff.mp hjs) fun w hw j hj =>
            ih (by omega) (hwithin w hw) hj
        | dict es =>
          obtain ⟨fs, hfs, rfl⟩ := Option.map_eq_some_iff.mp hj
          refine Option.map_eq_some_iff.mpr ⟨fs, read_entries_iff.mpr ?_, rfl⟩
          exact forall₂_imp_of_mem (read_entries_iff.mp hfs) fun e he f hf =>
            ⟨hf.1, ih (by omega) (hwithin e.2 (List.mem_map_of_mem he)) hf.2⟩
    | _ => exact hj

theorem read_mono {h : Heap φ} {n m : ℕ} (hnm : n ≤ m) {v : Val φ} {j : Json φ}
    (hj : h.read n v = some j) : h.read m v = some j := by
  have hall : h.Sealed fun _ => True := fun _ _ _ _ v _ => by cases v <;> trivial
  exact read_frame hall (fun _ _ _ hc => hc) hnm (by cases v <;> trivial) hj

theorem read_list {h : Heap φ} {n : ℕ} {v : Val φ} {vs : List (Val φ)} {j : Json φ}
    (hc : h.cell? v = some (.list vs)) (hj : h.read n v = some j) :
    ∃ js, j = .arr js ∧ List.Forall₂ (fun w i => h.read n w = some i) vs js := by
  cases v with
  | ref a =>
    cases n with
    | zero => cases hj
    | succ n =>
      rw [read_succ, show h.get? a = some (.list vs) from hc] at hj
      obtain ⟨js, hjs, rfl⟩ := Option.map_eq_some_iff.mp hj
      exact ⟨js, rfl, (mapM_some_iff.mp hjs).imp fun _ _ hw => read_mono n.le_succ hw⟩
  | _ => cases hc

theorem read_dict {h : Heap φ} {n : ℕ} {v : Val φ} {es : List (PyStr × Val φ)} {j : Json φ}
    (hc : h.cell? v = some (.dict es)) (hj : h.read n v = some j) :
    ∃ fs, j = .obj fs ∧
      List.Forall₂ (fun e f => e.1 = f.1 ∧ h.read n e.2 = some f.2) es fs := by
  cases v with
  | ref a =>
    cases n with
    | zero => cases hj
    | succ n =>
      rw [read_succ, show h.get? a = some (.dict es) from hc] at hj
      obtain ⟨fs, hfs, rfl⟩ := Option.map_eq_some_iff.mp hj
      exact ⟨fs, rfl, (read_entries_iff.mp hfs).imp fun _ _ hw =>
        ⟨hw.1, read_mono n.le_succ hw.2⟩⟩
  | _ => cases hc

theorem read_dangling {h : Heap φ} {n : ℕ} {a : ℕ} (ha : h.get? a = none) :
    h.read n (.ref a) = none := by
  cases n with
  | zero => rfl
  | succ n => rw [read_succ, ha]

theorem read_ref {h : Heap φ} {n : ℕ} {a : ℕ} {j : Json φ} (hj : h.read n (.ref a) = some j) :
    (∃ items, j = .arr items) ∨ ∃ fields, j = .obj fields := by
  cases hcell : h.cell? (.ref a) with
  | none => exact absurd (hj.symm.trans (read_dangling hcell)) nofun
  | some c =>
    cases c with
    | list vs =>
      obtain ⟨js, rfl, -⟩ := read_list hcell hj
      exact .inl ⟨js, rfl⟩
    | dict es =>
      obtain ⟨fs, rfl, -⟩ := read_dict hcell hj
      exact .inr ⟨fs, rfl⟩

theorem read_scalar {h : Heap φ} {n : ℕ} {v : Val φ} {j : Json φ} (hc : h.cell? v = none)
    (hj : h.read n v = some j) : (∀ items, j ≠ .arr items) ∧ ∀ fields, j ≠ .obj fields := by
  cases v with
  | ref a => exact absurd (hj.symm.trans (read_dangling hc)) nofun
  | _ =>
    simp only [read_null, read_bool, read_int, read_float, read_str, Option.some.injEq] at hj
    subst hj
    exact ⟨nofun, nofun⟩

/-! ## Fresh cells for a value -/

mutual

/-- Cells for the value, behind those there are. -/
def build (h : Heap φ) : Json φ → Heap φ × Val φ
  | .null => (h, .null)
  | .bool b => (h, .bool b)
  | .int i => (h, .int i)
  | .float x => (h, .float x)
  | .str s => (h, .str s)
  | .arr items =>
    let r := buildItems h items
    r.1.alloc (.list r.2)
  | .obj fields =>
    let r := buildFields h fields
    r.1.alloc (.dict r.2)

def buildItems (h : Heap φ) : List (Json φ) → Heap φ × List (Val φ)
  | [] => (h, [])
  | j :: items =>
    let r := build h j
    let s := buildItems r.1 items
    (s.1, r.2 :: s.2)

def buildFields (h : Heap φ) : List (PyStr × Json φ) → Heap φ × List (PyStr × Val φ)
  | [] => (h, [])
  | (k, j) :: fields =>
    let r := build h j
    let s := buildFields r.1 fields
    (s.1, (k, r.2) :: s.2)

end

/-- The addresses that were given out between two heaps. -/
def New (h h' : Heap φ) (a : ℕ) : Prop := h.size ≤ a ∧ a < h'.size

/-- The value, read with as much fuel as there are new cells. -/
def readNew (h h' : Heap φ) (v : Val φ) : Option (Json φ) := h'.read (h'.size - h.size) v

/-- What building a value does: it only adds cells, these refer to each other only, and the value
can be read in them. -/
structure Built (h h' : Heap φ) (v : Val φ) (j : Json φ) : Prop where
  grows : h.Grows h'
  closed : h'.Sealed (New h h')
  within : v.Within (New h h')
  reads : readNew h h' v = some j

theorem New.mono {h h₁ h₂ h' : Heap φ} (hl : h'.size ≤ h.size) (hr : h₁.size ≤ h₂.size) {a : ℕ}
    (ha : New h h₁ a) : New h' h₂ a := ⟨hl.trans ha.1, ha.2.trans_le hr⟩

theorem Sealed.grows {h h' : Heap φ} {Q : ℕ → Prop} (hs : h.Sealed Q) (hg : h.Grows h')
    (hQ : ∀ a, Q a → a < h.size) : h'.Sealed Q := by
  intro a c hc ha
  rw [hg.get? (hQ a ha)] at hc
  exact hs a c hc ha

theorem Sealed.read {h h' : Heap φ} {Q : ℕ → Prop} (hs : h.Sealed Q) (hg : h.Grows h') {n m : ℕ}
    (hnm : n ≤ m) {v : Val φ} (hv : v.Within Q) {j : Json φ} (hj : h.read n v = some j) :
    h'.read m v = some j := by
  refine read_frame hs (fun a c _ hc => ?_) hnm hv hj
  rwa [hg.get? (lt_size_of_get? hc)]

theorem Sealed.alloc {h₀ h : Heap φ} {c : Cell φ} (hs : h.Sealed (New h₀ h))
    (hc : c.Within (New h₀ h)) : (h.alloc c).1.Sealed (New h₀ (h.alloc c).1) := by
  have hsize : h.size ≤ (h.alloc c).1.size := (grows_alloc h c).size_le
  intro a c' hc' ha
  rcases Nat.lt_or_ge a h.size with hlt | hge
  · rw [(grows_alloc h c).get? hlt] at hc'
    exact (hs a c' hc' ⟨ha.1, hlt⟩).mono fun b hb => hb.mono le_rfl hsize
  · have heq : a = h.size := by
      have := ha.2
      rw [size_alloc] at this
      omega
    subst heq
    rw [get?_alloc_self] at hc'
    cases hc'
    exact hc.mono fun b hb => hb.mono le_rfl hsize

theorem new_alloc {h₀ h : Heap φ} (hle : h₀.size ≤ h.size) (c : Cell φ) :
    (h.alloc c).2.Within (New h₀ (h.alloc c).1) := by
  show New h₀ (h.alloc c).1 h.size
  exact ⟨hle, by rw [size_alloc]; exact Nat.lt_succ_self _⟩

theorem built_scalar (h : Heap φ) {v : Val φ} {j : Json φ} (hv : ∀ Q, v.Within Q)
    (hj : h.read 0 v = some j) : Built h h v j :=
  ⟨.refl h, fun _ _ _ ha => absurd ha.2 (Nat.not_lt.mpr ha.1), hv _, read_mono (Nat.zero_le _) hj⟩

structure BuiltItems (h h' : Heap φ) (vs : List (Val φ)) (js : List (Json φ)) : Prop where
  grows : h.Grows h'
  closed : h'.Sealed (New h h')
  within : ∀ v ∈ vs, v.Within (New h h')
  reads : List.Forall₂ (fun v j => readNew h h' v = some j) vs js

/-- The entries of a dictionary, their cells split in two: the cells in `S` belong to the entries
of the keys in `P`, and no entry refers to the cells of the others. -/
structure BuiltFields (P : PyStr → Prop) (h h' : Heap φ) (S : ℕ → Prop)
    (es : List (PyStr × Val φ)) (fs : List (PyStr × Json φ)) : Prop where
  grows : h.Grows h'
  new : ∀ a, S a → New h h' a
  closed : h'.Sealed S
  rest : h'.Sealed fun a => New h h' a ∧ ¬ S a
  entries : List.Forall₂ (fun e f => e.1 = f.1 ∧ (P e.1 → e.2.Within S) ∧
    (¬ P e.1 → e.2.Within fun a => New h h' a ∧ ¬ S a) ∧ readNew h h' e.2 = some f.2) es fs

theorem Built.append {h h₁ h₂ : Heap φ} {v : Val φ} {j : Json φ} {vs : List (Val φ)}
    {js : List (Json φ)} (hv : Built h h₁ v j) (hvs : BuiltItems h₁ h₂ vs js) :
    BuiltItems h h₂ (v :: vs) (j :: js) where
  grows := hv.grows.trans hvs.grows
  closed := by
    intro a c hc ha
    rcases Nat.lt_or_ge a h₁.size with hlt | hge
    · rw [hvs.grows.get? hlt] at hc
      exact (hv.closed a c hc ⟨ha.1, hlt⟩).mono fun b hb => hb.mono le_rfl hvs.grows.size_le
    · exact (hvs.closed a c hc ⟨hge, ha.2⟩).mono fun b hb => hb.mono hv.grows.size_le le_rfl
  within := by
    intro w hw
    rcases List.mem_cons.mp hw with rfl | hw
    · exact hv.within.mono fun b hb => hb.mono le_rfl hvs.grows.size_le
    · exact (hvs.within w hw).mono fun b hb => hb.mono hv.grows.size_le le_rfl
  reads :=
    .cons (hv.closed.read hvs.grows (Nat.sub_le_sub_right hvs.grows.size_le _) hv.within hv.reads)
      (hvs.reads.imp fun _ _ hj => read_mono (Nat.sub_le_sub_left hv.grows.size_le _) hj)

theorem Built.appendField {P : PyStr → Prop} {h h₁ h₂ : Heap φ} {S : ℕ → Prop} {k : PyStr}
    {v : Val φ} {j : Json φ} {es : List (PyStr × Val φ)} {fs : List (PyStr × Json φ)}
    (hv : Built h h₁ v j) (hes : BuiltFields P h₁ h₂ S es fs) :
    BuiltFields P h h₂ (fun a => S a ∨ P k ∧ New h h₁ a) ((k, v) :: es) ((k, j) :: fs) where
  grows := hv.grows.trans hes.grows
  new := by
    rintro a (ha | ha)
    · exact (hes.new a ha).mono hv.grows.size_le le_rfl
    · exact ha.2.mono le_rfl hes.grows.size_le
  closed := by
    rintro a c hc (ha | ha)
    · exact (hes.closed a c hc ha).mono fun b hb => .inl hb
    · have hnew := hv.closed.grows hes.grows (fun _ hb => hb.2)
      exact (hnew a c hc ha.2).mono fun b hb => .inr ⟨ha.1, hb⟩
  rest := by
    intro a c hc ⟨ha, hnot⟩
    rcases Nat.lt_or_ge a h₁.size with hlt | hge
    · have hnew := hv.closed.grows hes.grows (fun _ hb => hb.2)
      refine (hnew a c hc ⟨ha.1, hlt⟩).mono fun b hb => ⟨hb.mono le_rfl hes.grows.size_le, ?_⟩
      rintro (hb' | hb')
      · exact absurd (hes.new b hb').1 (Nat.not_le.mpr hb.2)
      · exact hnot (.inr ⟨hb'.1, ha.1, hlt⟩)
    · have hout : ¬ S a := fun hS => hnot (.inl hS)
      refine (hes.rest a c hc ⟨⟨hge, ha.2⟩, hout⟩).mono fun b hb =>
        ⟨hb.1.mono hv.grows.size_le le_rfl, ?_⟩
      rintro (hb' | hb')
      · exact hb.2 hb'
      · exact absurd hb'.2.2 (Nat.not_lt.mpr hb.1.1)
  entries := by
    have hread : readNew h h₂ v = some j :=
      hv.closed.read hes.grows (Nat.sub_le_sub_right hes.grows.size_le _) hv.within hv.reads
    refine .cons ⟨rfl, fun hP => hv.within.mono fun b hb => .inr ⟨hP, hb⟩, fun hP => ?_, hread⟩ ?_
    · refine hv.within.mono fun b hb => ⟨hb.mono le_rfl hes.grows.size_le, ?_⟩
      rintro (hb' | hb')
      · exact absurd (hes.new b hb').1 (Nat.not_le.mpr hb.2)
      · exact hP hb'.1
    · refine hes.entries.imp fun e f hef => ⟨hef.1, fun hP => ?_, fun hP => ?_,
        read_mono (Nat.sub_le_sub_left hv.grows.size_le _) hef.2.2.2⟩
      · exact (hef.2.1 hP).mono fun b hb => .inl hb
      · refine (hef.2.2.1 hP).mono fun b hb => ⟨hb.1.mono hv.grows.size_le le_rfl, ?_⟩
        rintro (hb' | hb')
        · exact hb.2 hb'
        · exact absurd hb'.2.2 (Nat.not_lt.mpr hb.1.1)

theorem BuiltFields.closed_new {P : PyStr → Prop} {h h' : Heap φ} {S : ℕ → Prop}
    {es : List (PyStr × Val φ)} {fs : List (PyStr × Json φ)} (hb : BuiltFields P h h' S es fs) :
    h'.Sealed (New h h') := by
  intro a c hc ha
  by_cases hS : S a
  · exact (hb.closed a c hc hS).mono hb.new
  · exact (hb.rest a c hc ⟨ha, hS⟩).mono fun b hb => hb.1

theorem BuiltFields.within {P : PyStr → Prop} {h h' : Heap φ} {S : ℕ → Prop}
    {es : List (PyStr × Val φ)} {fs : List (PyStr × Json φ)} (hb : BuiltFields P h h' S es fs) :
    (Cell.dict es).Within (New h h') := by
  intro v hv
  obtain ⟨e, he, rfl⟩ := List.mem_map.mp hv
  refine forall₂_left (p := fun e => e.2.Within (New h h')) hb.entries (fun e f hef => ?_) e he
  by_cases hP : P e.1
  · exact (hef.2.1 hP).mono hb.new
  · exact (hef.2.2.1 hP).mono fun b hb => hb.1

section
variable (P : PyStr → Prop)

theorem build_items {items : List (Json φ)}
    (ih : ∀ j ∈ items, ∀ h : Heap φ, Built h (h.build j).1 (h.build j).2 j) (h : Heap φ) :
    BuiltItems h (h.buildItems items).1 (h.buildItems items).2 items := by
  induction items generalizing h with
  | nil => exact ⟨.refl h, fun _ _ _ ha => absurd ha.2 (Nat.not_lt.mpr ha.1), nofun, .nil⟩
  | cons j items ihs =>
    exact (ih j List.mem_cons_self h).append
      (ihs (fun j hj => ih j (List.mem_cons_of_mem _ hj)) (h.build j).1)

theorem build_fields {fields : List (PyStr × Json φ)}
    (ih : ∀ f ∈ fields, ∀ h : Heap φ, Built h (h.build f.2).1 (h.build f.2).2 f.2) (h : Heap φ) :
    ∃ S, BuiltFields P h (h.buildFields fields).1 S (h.buildFields fields).2 fields := by
  induction fields generalizing h with
  | nil =>
    exact ⟨fun _ => False, .refl h, nofun, nofun,
      fun _ _ _ ha => absurd ha.1.2 (Nat.not_lt.mpr ha.1.1), .nil⟩
  | cons f fields ihs =>
    obtain ⟨S, hS⟩ :=
      ihs (fun f hf => ih f (List.mem_cons_of_mem _ hf)) (h.build f.2).1
    exact ⟨_, (ih f List.mem_cons_self h).appendField hS⟩

end

theorem read_alloc_list {h : Heap φ} {n : ℕ} {vs : List (Val φ)} {js : List (Json φ)}
    (hjs : List.Forall₂ (fun v j => (h.alloc (.list vs)).1.read n v = some j) vs js) :
    (h.alloc (.list vs)).1.read (n + 1) (h.alloc (.list vs)).2 = some (.arr js) := by
  show (h.alloc (.list vs)).1.read (n + 1) (.ref h.size) = _
  rw [read_succ, get?_alloc_self]
  exact Option.map_eq_some_iff.mpr ⟨js, mapM_some_iff.mpr hjs, rfl⟩

theorem read_alloc_dict {h : Heap φ} {n : ℕ} {es : List (PyStr × Val φ)}
    {fs : List (PyStr × Json φ)}
    (hfs : List.Forall₂ (fun e f => e.1 = f.1 ∧ (h.alloc (.dict es)).1.read n e.2 = some f.2)
      es fs) :
    (h.alloc (.dict es)).1.read (n + 1) (h.alloc (.dict es)).2 = some (.obj fs) := by
  show (h.alloc (.dict es)).1.read (n + 1) (.ref h.size) = _
  rw [read_succ, get?_alloc_self]
  exact Option.map_eq_some_iff.mpr ⟨fs, read_entries_iff.mpr hfs, rfl⟩

theorem size_alloc_sub {h₀ h : Heap φ} (hle : h₀.size ≤ h.size) (c : Cell φ) :
    (h.alloc c).1.size - h₀.size = h.size - h₀.size + 1 := by
  rw [size_alloc]
  omega

theorem built_build (j : Json φ) (h : Heap φ) : Built h (h.build j).1 (h.build j).2 j := by
  induction j using Json.induction generalizing h with
  | null | bool b | int i | float x | str s =>
    exact built_scalar h (fun _ => trivial) rfl
  | arr items ih =>
    have hb := build_items ih h
    have hle := hb.grows.size_le
    rw [build]
    refine ⟨hb.grows.trans (grows_alloc _ _), hb.closed.alloc hb.within, new_alloc hle _, ?_⟩
    rw [readNew, size_alloc_sub hle]
    refine read_alloc_list (forall₂_imp_of_mem hb.reads fun v hv j hj => ?_)
    exact hb.closed.read (grows_alloc _ _) le_rfl (hb.within v hv) hj
  | obj fields ih =>
    obtain ⟨S, hb⟩ := build_fields (fun _ => False) ih h
    have hle := hb.grows.size_le
    rw [build]
    refine ⟨hb.grows.trans (grows_alloc _ _), hb.closed_new.alloc hb.within, new_alloc hle _, ?_⟩
    rw [readNew, size_alloc_sub hle]
    refine read_alloc_dict (forall₂_imp_of_mem hb.entries fun e he f hef => ⟨hef.1, ?_⟩)
    have hwithin := hb.within e.2 (List.mem_map_of_mem he)
    exact hb.closed_new.read (grows_alloc _ _) le_rfl hwithin hef.2.2.2

theorem built_fields (P : PyStr → Prop) (fields : List (PyStr × Json φ)) (h : Heap φ) :
    ∃ S, BuiltFields P h (h.buildFields fields).1 S (h.buildFields fields).2 fields :=
  build_fields P (fun f _ => built_build f.2) h

end Heap

/-- A value in memory; nothing refers to a cell that is not there. -/
structure Object (φ : Type) where
  heap : Heap φ
  value : Val φ
  closed : heap.Sealed (· < heap.size)
  valid : value.Within (· < heap.size)

def Object.ofJson (j : Json φ) : Object φ :=
  have hb := Heap.built_build j {}
  { heap := (Heap.build {} j).1
    value := (Heap.build {} j).2
    closed := fun a c hc ha =>
      (hb.closed a c hc ⟨Nat.zero_le a, ha⟩).mono fun _ hb => hb.2
    valid := hb.within.mono fun _ hb => hb.2 }

theorem Object.toJson?_ofJson (j : Json φ) :
    (Object.ofJson j).heap.toJson? (Object.ofJson j).value = some j :=
  Heap.read_mono (Nat.sub_le _ _) (Heap.built_build j {}).reads

end Foundation
