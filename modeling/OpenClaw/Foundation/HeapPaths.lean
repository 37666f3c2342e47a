import Mathlib.Data.List.Induction
import OpenClaw.Foundation.ObjectHeap

/-!
# Locations in documents

A location is the list of keys and indices that leads to it, in a JSON value or in memory. Where no
other cell refers into a document, writing at one location changes no location beside it.
-/

namespace Foundation

set_option autoImplicit false

variable {φ : Type}

inductive Step where
  | key (k : PyStr)
  | index (i : ℕ)
  deriving DecidableEq

abbrev Location := List Step

/-- What a location holds, apart from what is below it. -/
inductive Shape (φ : Type) where
  | null
  | bool (b : Bool)
  | int (i : ℤ)
  | float (x : φ)
  | str (s : PyStr)
  | list (length : ℕ)
  | dict (keys : List PyStr)

/-! ## JSON values -/

namespace Json

def child? : Json φ → Step → Option (Json φ)
  | .arr items, .index i => items[i]?
  | .obj fields, .key k => under? k fields
  | _, _ => none

def at? (j : Json φ) : Location → Option (Json φ)
  | [] => some j
  | s :: l => (j.child? s).bind fun i => i.at? l

def shape : Json φ → Shape φ
  | .null => .null
  | .bool b => .bool b
  | .int i => .int i
  | .float x => .float x
  | .str s => .str s
  | .arr items => .list items.length
  | .obj fields => .dict (fields.map Prod.fst)

theorem at?_append (j : Json φ) (l l' : Location) :
    j.at? (l ++ l') = (j.at? l).bind fun i => i.at? l' := by
  induction l generalizing j with
  | nil => rfl
  | cons s l ih =>
    rw [List.cons_append, at?, at?]
    cases j.child? s with
    | none => rfl
    | some i => exact ih i

end Json

/-! ## Cells -/

namespace Cell

def child? : Cell φ → Step → Option (Val φ)
  | .list items, .index i => items[i]?
  | .dict es, .key k => under? k es
  | _, _ => none

/-- The cell with another value where it had one. -/
def put : Cell φ → Step → Val φ → Cell φ
  | .list items, .index i, v => .list (items.set i v)
  | .dict es, .key k, v => .dict (replaceRow Prod.fst (k, v) es)
  | c, _, _ => c

def shape : Cell φ → Shape φ
  | .list items => .list items.length
  | .dict es => .dict (es.map Prod.fst)

theorem Within.of_child? {Q : ℕ → Prop} {c : Cell φ} (hc : c.Within Q) {s : Step} {v : Val φ}
    (h : c.child? s = some v) : v.Within Q := by
  cases c with
  | list items =>
    cases s with
    | key k => cases h
    | index i => exact hc v (List.mem_of_getElem? h)
  | dict es =>
    cases s with
    | key k => exact hc.of_under? h
    | index i => cases h

theorem child?_put {c : Cell φ} {s : Step} {w : Val φ} (hw : c.child? s = some w) (v : Val φ)
    (s' : Step) : (c.put s v).child? s' = if s = s' then some v else c.child? s' := by
  cases c with
  | list items =>
    cases s with
    | key k => cases hw
    | index i =>
      have hlt := (List.getElem?_eq_some_iff.mp hw).1
      cases s' with
      | key k => simp [put, child?]
      | index i' =>
        by_cases hii : i = i'
        · subst hii
          simp [put, child?, hlt]
        · simp [put, child?, hii]
  | dict es =>
    cases s with
    | index i => cases hw
    | key k =>
      cases s' with
      | index i' => simp [put, child?]
      | key k' => simp [put, child?, under?_replaceRow]

theorem keys_replaceRow {α : Type} {k : PyStr} {w : α} {es : List (PyStr × α)}
    (hw : under? k es = some w) (v : α) :
    (replaceRow Prod.fst (k, v) es).map Prod.fst = es.map Prod.fst := by
  induction es with
  | nil => cases hw
  | cons e es ih =>
    rw [replaceRow]
    split
    · rename_i hk
      rw [List.map_cons, List.map_cons, hk]
    · rename_i hk
      have hrest : under? k es = some w := by
        simpa [under?, List.find?_cons, hk] using hw
      rw [List.map_cons, ih hrest, List.map_cons]

theorem shape_put {c : Cell φ} {s : Step} {w : Val φ} (hw : c.child? s = some w) (v : Val φ) :
    (c.put s v).shape = c.shape := by
  cases c with
  | list items =>
    cases s with
    | key k => cases hw
    | index i => simp [put, shape]
  | dict es =>
    cases s with
    | index i => cases hw
    | key k => exact congrArg Shape.dict (keys_replaceRow hw v)

theorem within_put {Q : ℕ → Prop} {c : Cell φ} (hc : c.Within Q) (s : Step) {v : Val φ}
    (hv : v.Within Q) : (c.put s v).Within Q := by
  cases c with
  | list items =>
    cases s with
    | key k => exact hc
    | index i =>
      intro w hw
      rcases List.mem_or_eq_of_mem_set hw with hw | rfl
      · exact hc w hw
      · exact hv
  | dict es =>
    cases s with
    | index i => exact hc
    | key k =>
      intro w hw
      obtain ⟨e, he, rfl⟩ := List.mem_map.mp hw
      rcases mem_replaceRow he with rfl | he
      · exact hv
      · exact hc e.2 (List.mem_map_of_mem he)

end Cell

/-! ## Values in memory -/

namespace Heap

def child? (h : Heap φ) (v : Val φ) (s : Step) : Option (Val φ) := (h.cell? v).bind (·.child? s)

def at? (h : Heap φ) (v : Val φ) : Location → Option (Val φ)
  | [] => some v
  | s :: l => (h.child? v s).bind fun w => h.at? w l

def shape? (h : Heap φ) : Val φ → Option (Shape φ)
  | .null => some .null
  | .bool b => some (.bool b)
  | .int i => some (.int i)
  | .float x => some (.float x)
  | .str s => some (.str s)
  | .ref a => (h.get? a).map Cell.shape

/-- `container[step] = v`, where the container has the key or the index. -/
def put (h : Heap φ) (a : ℕ) (s : Step) (v : Val φ) : Heap φ :=
  match h.get? a with
  | some c => h.write a (c.put s v)
  | none => h

theorem at?_append (h : Heap φ) (v : Val φ) (l l' : Location) :
    h.at? v (l ++ l') = (h.at? v l).bind fun w => h.at? w l' := by
  induction l generalizing v with
  | nil => rfl
  | cons s l ih =>
    rw [List.cons_append, at?, at?]
    cases h.child? v s with
    | none => rfl
    | some w => exact ih w

theorem at?_concat (h : Heap φ) (v : Val φ) (l : Location) (s : Step) :
    h.at? v (l ++ [s]) = (h.at? v l).bind fun w => h.child? w s := by
  rw [at?_append]
  refine congrArg _ (funext fun w => ?_)
  rw [at?]
  cases h.child? w s <;> rfl

theorem Sealed.child? {h : Heap φ} {Q : ℕ → Prop} (hs : h.Sealed Q) {v w : Val φ}
    (hv : v.Within Q) {s : Step} (hw : h.child? v s = some w) : w.Within Q := by
  obtain ⟨c, hc, hcw⟩ := Option.bind_eq_some_iff.mp hw
  exact (hs.cell hv hc).of_child? hcw

theorem Sealed.at? {h : Heap φ} {Q : ℕ → Prop} (hs : h.Sealed Q) {v w : Val φ}
    (hv : v.Within Q) {l : Location} (hw : h.at? v l = some w) : w.Within Q := by
  induction l generalizing v with
  | nil =>
    cases hw
    exact hv
  | cons s l ih =>
    obtain ⟨u, hu, hw⟩ := Option.bind_eq_some_iff.mp hw
    exact ih (hs.child? hv hu) hw

@[simp] theorem size_put (h : Heap φ) (a : ℕ) (s : Step) (v : Val φ) :
    (h.put a s v).size = h.size := by
  unfold put
  split
  · exact size_write h a _
  · rfl

theorem get?_put_ne {h : Heap φ} {a b : ℕ} (hab : a ≠ b) (s : Step) (v : Val φ) :
    (h.put a s v).get? b = h.get? b := by
  unfold put
  split
  · exact get?_write_ne hab _
  · rfl

theorem get?_put_self {h : Heap φ} {a : ℕ} {c : Cell φ} (hc : h.get? a = some c) (s : Step)
    (v : Val φ) : (h.put a s v).get? a = some (c.put s v) := by
  rw [put, hc]
  exact get?_write_self (lt_size_of_get? hc)

theorem Sealed.put {h : Heap φ} {Q : ℕ → Prop} (hs : h.Sealed Q) (a : ℕ) (s : Step) {v : Val φ}
    (hv : Q a → v.Within Q) : (h.put a s v).Sealed Q := by
  intro b c hc hb
  by_cases hab : a = b
  · subst hab
    cases hcell : h.get? a with
    | none => exact hs a c (by rwa [Heap.put, hcell] at hc) hb
    | some c₀ =>
      rw [get?_put_self hcell] at hc
      cases hc
      exact Cell.within_put (hs a c₀ hcell hb) s (hv hb)
  · rw [get?_put_ne hab] at hc
    exact hs b c hc hb

theorem shape_of_read {h : Heap φ} {n : ℕ} {v : Val φ} {j : Json φ} (hj : h.read n v = some j) :
    h.shape? v = some j.shape := by
  cases v with
  | ref a =>
    cases hcell : h.cell? (.ref a) with
    | none => exact absurd (hj.symm.trans (read_dangling hcell)) nofun
    | some c =>
      have hget : h.get? a = some c := hcell
      rw [shape?, hget]
      cases c with
      | list vs =>
        obtain ⟨js, rfl, hjs⟩ := read_list hcell hj
        simp [Cell.shape, Json.shape, hjs.length_eq]
      | dict es =>
        obtain ⟨fs, rfl, hfs⟩ := read_dict hcell hj
        have hkeys : es.map Prod.fst = fs.map Prod.fst := by
          refine List.forall₂_eq_eq_eq ▸ ?_
          rw [List.forall₂_map_left_iff, List.forall₂_map_right_iff]
          exact hfs.imp fun _ _ hef => hef.1
        simp [Cell.shape, Json.shape, hkeys]
  | _ =>
    simp only [read_null, read_bool, read_int, read_float, read_str, Option.some.injEq] at hj
    subst hj
    rfl

theorem read_child {h : Heap φ} {n : ℕ} {v : Val φ} {j : Json φ} (hj : h.read n v = some j)
    (s : Step) : (h.child? v s = none ∧ j.child? s = none) ∨
      ∃ w i, h.child? v s = some w ∧ j.child? s = some i ∧ h.read n w = some i := by
  unfold child?
  cases hcell : h.cell? v with
  | none =>
    obtain ⟨hitems, hfields⟩ := read_scalar hcell hj
    refine .inl ⟨rfl, ?_⟩
    cases j with
    | arr items => exact absurd rfl (hitems items)
    | obj fields => exact absurd rfl (hfields fields)
    | _ => rfl
  | some c =>
    cases c with
    | list vs =>
      obtain ⟨js, rfl, hjs⟩ := read_list hcell hj
      cases s with
      | key k => exact .inl ⟨rfl, rfl⟩
      | index i => exact forall₂_getElem? hjs i
    | dict es =>
      obtain ⟨fs, rfl, hfs⟩ := read_dict hcell hj
      cases s with
      | key k => exact under?_forall₂ (R := fun _ w i => h.read n w = some i) hfs k
      | index i => exact .inl ⟨rfl, rfl⟩

/-- What is read of a value has the locations of the value. -/
theorem read_at {h : Heap φ} {n : ℕ} {v : Val φ} {j : Json φ} (hj : h.read n v = some j)
    (l : Location) : (h.at? v l = none ∧ j.at? l = none) ∨
      ∃ w i, h.at? v l = some w ∧ j.at? l = some i ∧ h.read n w = some i := by
  induction l generalizing v j with
  | nil => exact .inr ⟨v, j, rfl, rfl, hj⟩
  | cons s l ih =>
    rcases read_child hj s with ⟨hv, hi⟩ | ⟨w, i, hv, hi, hw⟩
    · exact .inl ⟨by rw [at?, hv]; rfl, by rw [Json.at?, hi]; rfl⟩
    · rw [at?, hv, Json.at?, hi]
      exact ih hw

/-- The shapes at the locations of what is read are those in memory. -/
theorem shape_at {h : Heap φ} {n : ℕ} {v : Val φ} {j : Json φ} (hj : h.read n v = some j)
    (l : Location) : (j.at? l).map Json.shape = (h.at? v l).bind h.shape? := by
  rcases read_at hj l with ⟨hv, hi⟩ | ⟨w, i, hv, hi, hw⟩
  · rw [hv, hi]
    rfl
  · rw [hv, hi, Option.map_some, Option.bind_some, shape_of_read hw]

/-- Locations stay where the cells of a sealed set around the value do. -/
theorem Sealed.at?_eq {h h' : Heap φ} {Q : ℕ → Prop} (hs : h.Sealed Q)
    (hsame : ∀ a, Q a → h'.get? a = h.get? a) {v : Val φ} (hv : v.Within Q) (l : Location) :
    h'.at? v l = h.at? v l := by
  induction l generalizing v with
  | nil => rfl
  | cons s l ih =>
    have hchild : h'.child? v s = h.child? v s := by
      cases v with
      | ref a => exact congrArg (Option.bind · (·.child? s)) (hsame a hv)
      | _ => rfl
    rw [Heap.at?, Heap.at?, hchild]
    cases hw : h.child? v s with
    | none => rfl
    | some w => exact ih (hs.child? hv hw)

/-! ## Documents -/

/-- No two locations of the value lead to one cell. -/
def Unshared (h : Heap φ) (v : Val φ) : Prop :=
  ∀ l l' a, h.at? v l = some (.ref a) → h.at? v l' = some (.ref a) → l = l'

/-- No two locations of the values lead to one cell. -/
def AllUnshared (h : Heap φ) (vs : List (Val φ)) : Prop :=
  ∀ (i i' : ℕ) (w w' : Val φ) (l l' : Location) (a : ℕ), vs[i]? = some w → vs[i']? = some w' →
    h.at? w l = some (.ref a) → h.at? w' l' = some (.ref a) → i = i' ∧ l = l'

theorem unshared_scalar (h : Heap φ) {v : Val φ} (hv : ∀ a, v ≠ .ref a) : h.Unshared v := by
  intro l l' a hl _
  cases l with
  | nil => exact absurd (Option.some.inj hl) (hv a)
  | cons s l =>
    have hnone : h.child? v s = none := by
      cases v with
      | ref b => exact absurd rfl (hv b)
      | _ => rfl
    rw [at?, hnone] at hl
    cases hl

theorem unshared_items {items : List (Json φ)}
    (ih : ∀ j ∈ items, ∀ h : Heap φ, (h.build j).1.Unshared (h.build j).2) (h : Heap φ) :
    (h.buildItems items).1.AllUnshared (h.buildItems items).2 := by
  induction items generalizing h with
  | nil =>
    intro i i' w w' l l' a hi
    cases hi
  | cons j items ihs =>
    have hfirst := built_build j h
    have hrest : BuiltItems (h.build j).1 (h.buildItems (j :: items)).1
        ((h.build j).1.buildItems items).2 items :=
      build_items (fun j _ => built_build j) (h.build j).1
    have hat : ∀ l, (h.buildItems (j :: items)).1.at? (h.build j).2 l =
        (h.build j).1.at? (h.build j).2 l :=
      hfirst.closed.at?_eq (fun a ha => hrest.grows.get? ha.2) hfirst.within
    have hlow : ∀ l a, (h.buildItems (j :: items)).1.at? (h.build j).2 l = some (.ref a) →
        a < (h.build j).1.size := by
      intro l a hl
      rw [hat] at hl
      exact (hfirst.closed.at? hfirst.within hl).2
    have hhigh : ∀ (i : ℕ) (w : Val φ) (l : Location) (a : ℕ),
        ((h.build j).1.buildItems items).2[i]? = some w →
        (h.buildItems (j :: items)).1.at? w l = some (.ref a) → (h.build j).1.size ≤ a := by
      intro i w l a hw hl
      exact (hrest.closed.at? (hrest.within w (List.mem_of_getElem? hw)) hl).1
    intro i i' w w' l l' a hi hi' hl hl'
    cases i with
    | zero =>
      cases hi
      cases i' with
      | zero =>
        cases hi'
        rw [hat] at hl hl'
        exact ⟨rfl, ih j List.mem_cons_self h l l' a hl hl'⟩
      | succ i' =>
        have := hlow l a hl
        have := hhigh i' w' l' a hi' hl'
        omega
    | succ i =>
      cases i' with
      | zero =>
        cases hi'
        have := hlow l' a hl'
        have := hhigh i w l a hi hl
        omega
      | succ i' =>
        obtain ⟨heq, hll⟩ := ihs (fun j hj => ih j (List.mem_cons_of_mem _ hj)) (h.build j).1
          i i' w w' l l' a hi hi' hl hl'
        exact ⟨congrArg (· + 1) heq, hll⟩

/-- The entries of a dictionary are built as its values are. -/
theorem buildFields_eq (h : Heap φ) (fields : List (PyStr × Json φ)) :
    (h.buildFields fields).1 = (h.buildItems (fields.map Prod.snd)).1 ∧
      (h.buildFields fields).2.map Prod.snd = (h.buildItems (fields.map Prod.snd)).2 := by
  induction fields generalizing h with
  | nil => exact ⟨rfl, rfl⟩
  | cons f fields ih =>
    obtain ⟨k, j⟩ := f
    obtain ⟨hheap, hvalues⟩ := ih (h.build j).1
    exact ⟨hheap, congrArg ((h.build j).2 :: ·) hvalues⟩

/-- A new cell whose values share nothing. -/
theorem unshared_alloc {h₀ h : Heap φ} {c : Cell φ} (hs : h.Sealed (New h₀ h))
    (hc : c.Within (New h₀ h)) (hall : ∀ s s' w w' l l' a, c.child? s = some w →
      c.child? s' = some w' → h.at? w l = some (.ref a) → h.at? w' l' = some (.ref a) →
      s = s' ∧ l = l') : (h.alloc c).1.Unshared (h.alloc c).2 := by
  have hgrow := grows_alloc h c
  have hroot : (h.alloc c).2 = .ref h.size := rfl
  have hbelow : ∀ s l v, (h.alloc c).1.at? (.ref h.size) (s :: l) = some v →
      ∃ w, c.child? s = some w ∧ h.at? w l = some v ∧ v.Within (New h₀ h) := by
    intro s l v hv
    obtain ⟨w, hw, hv⟩ := Option.bind_eq_some_iff.mp hv
    have hcell : (h.alloc c).1.cell? (.ref h.size) = some c := get?_alloc_self h c
    rw [child?, hcell, Option.bind_some] at hw
    have hwithin := hc.of_child? hw
    rw [hs.at?_eq (fun a ha => hgrow.get? ha.2) hwithin] at hv
    exact ⟨w, hw, hv, hs.at? hwithin hv⟩
  intro l l' a hl hl'
  rw [hroot] at hl hl'
  cases l with
  | nil =>
    cases hl
    cases l' with
    | nil => rfl
    | cons s' l' =>
      obtain ⟨w, -, -, hwithin⟩ := hbelow s' l' _ hl'
      exact absurd hwithin.2 (Nat.lt_irrefl _)
  | cons s l =>
    obtain ⟨w, hw, hl, hwithin⟩ := hbelow s l _ hl
    cases l' with
    | nil =>
      cases hl'
      exact absurd hwithin.2 (Nat.lt_irrefl _)
    | cons s' l' =>
      obtain ⟨w', hw', hl', -⟩ := hbelow s' l' _ hl'
      obtain ⟨rfl, rfl⟩ := hall s s' w w' l l' a hw hw' hl hl'
      rfl

theorem unshared_build (j : Json φ) (h : Heap φ) : (h.build j).1.Unshared (h.build j).2 := by
  induction j using Json.induction generalizing h with
  | null | bool b | int i | float x | str s => exact unshared_scalar h nofun
  | arr items ih =>
    have hb : BuiltItems h (h.buildItems items).1 (h.buildItems items).2 items :=
      build_items (fun j _ => built_build j) h
    have hall := unshared_items ih h
    rw [build]
    refine unshared_alloc hb.closed hb.within ?_
    intro s s' w w' l l' a hs hs' hl hl'
    cases s with
    | key k => cases hs
    | index i =>
      cases s' with
      | key k => cases hs'
      | index i' =>
        obtain ⟨rfl, rfl⟩ := hall i i' w w' l l' a hs hs' hl hl'
        exact ⟨rfl, rfl⟩
  | obj fields ih =>
    obtain ⟨S, hb⟩ := built_fields (fun _ => False) fields h
    have hall : (h.buildFields fields).1.AllUnshared ((h.buildFields fields).2.map Prod.snd) := by
      obtain ⟨hheap, hvalues⟩ := buildFields_eq h fields
      rw [hheap, hvalues]
      refine unshared_items (fun j hj => ?_) h
      obtain ⟨f, hf, rfl⟩ := List.mem_map.mp hj
      exact ih f hf
    rw [build]
    refine unshared_alloc hb.closed_new hb.within ?_
    intro s s' w w' l l' a hs hs' hl hl'
    cases s with
    | index i => cases hs
    | key k =>
      cases s' with
      | index i => cases hs'
      | key k' =>
        obtain ⟨i, hi⟩ := List.mem_iff_getElem?.mp (mem_of_under? hs)
        obtain ⟨i', hi'⟩ := List.mem_iff_getElem?.mp (mem_of_under? hs')
        obtain ⟨rfl, rfl⟩ := hall i i' w w' l l' a (by rw [List.getElem?_map, hi]; rfl)
          (by rw [List.getElem?_map, hi']; rfl) hl hl'
        rw [hi] at hi'
        cases hi'
        exact ⟨rfl, rfl⟩

/-- A document has cells of its own, each at one location. -/
structure Document (h : Heap φ) (Q : ℕ → Prop) (r : Val φ) : Prop where
  bound : ∀ a, Q a → a < h.size
  closed : h.Sealed Q
  within : r.Within Q
  unshared : h.Unshared r

theorem document_build (h : Heap φ) (j : Json φ) :
    Document (h.build j).1 (New h (h.build j).1) (h.build j).2 where
  bound := fun _ ha => ha.2
  closed := (built_build j h).closed
  within := (built_build j h).within
  unshared := unshared_build j h

/-! ## Writing into a document -/

/-- The document at `r` after writes at the locations of `B`: its cells have their shapes and, where
they have not got values from elsewhere, their values; no other cell refers to them. -/
structure Overwritten (h₀ h : Heap φ) (Q : ℕ → Prop) (r : Val φ) (B : Location → Prop) : Prop where
  pruned : ∀ a c₀, Q a → h₀.get? a = some c₀ → ∃ c, h.get? a = some c ∧ c.shape = c₀.shape ∧
    ∀ s v, c.child? s = some v → c₀.child? s = some v ∨ v.Within fun b => ¬Q b
  apart : h.Sealed fun a => ¬Q a
  outside : ∀ l, ¬B l → h.at? r l = h₀.at? r l

section Writes
variable {h₀ h h' : Heap φ} {Q : ℕ → Prop} {r : Val φ} {B : Location → Prop}

theorem overwritten_refl (hapart : h₀.Sealed fun a => ¬Q a) :
    Overwritten h₀ h₀ Q r B where
  pruned := fun _ c₀ _ hc => ⟨c₀, hc, rfl, fun _ _ hv => .inl hv⟩
  apart := hapart
  outside := fun _ _ => rfl

/-- A cell of the document is where it was. -/
theorem Overwritten.location (ho : Overwritten h₀ h Q r B) (hd : Document h₀ Q r) {l : Location}
    {a : ℕ} (hl : h.at? r l = some (.ref a)) (ha : Q a) : h₀.at? r l = some (.ref a) := by
  induction l using List.reverseRecOn generalizing a with
  | nil => exact hl
  | append_singleton l s ih =>
    rw [at?_concat] at hl ⊢
    obtain ⟨p, hp, hchild⟩ := Option.bind_eq_some_iff.mp hl
    obtain ⟨c, hc, hslot⟩ := Option.bind_eq_some_iff.mp hchild
    cases p with
    | ref b =>
      by_cases hb : Q b
      · obtain ⟨c₀, hc₀⟩ : ∃ c₀, h₀.get? b = some c₀ :=
          ⟨_, List.getElem?_eq_getElem (hd.bound b hb)⟩
        obtain ⟨c', hc', -, hvalues⟩ := ho.pruned b c₀ hb hc₀
        have hsame : c' = c := Option.some.inj (hc'.symm.trans hc)
        subst hsame
        have hcell : h₀.cell? (.ref b) = some c₀ := hc₀
        rw [ih hp hb, Option.bind_some, Heap.child?, hcell, Option.bind_some]
        exact (hvalues s _ hslot).resolve_right fun hout => hout ha
      · exact absurd ha ((ho.apart b c hc hb).of_child? hslot)
    | _ => cases hc

/-- What is not at a written location stays if the values at the locations beside the written ones
do. -/
theorem Overwritten.outside_of (ho : Overwritten h₀ h Q r B)
    (hdown : ∀ l s, B l → B (l ++ [s])) (hchild : ∀ l s a, ¬B (l ++ [s]) →
      h₀.at? r l = some (.ref a) → h'.child? (.ref a) s = h.child? (.ref a) s) :
    ∀ l, ¬B l → h'.at? r l = h₀.at? r l := by
  intro l hl
  induction l using List.reverseRecOn with
  | nil => rfl
  | append_singleton l s ih =>
    have hfront : ¬B l := fun hB => hl (hdown l s hB)
    have hbefore := ho.outside (l ++ [s]) hl
    rw [at?_concat, at?_concat, ho.outside l hfront] at hbefore
    rw [at?_concat, at?_concat, ih hfront]
    cases hp : h₀.at? r l with
    | none => rfl
    | some p =>
      rw [hp, Option.bind_some, Option.bind_some] at hbefore
      rw [Option.bind_some, Option.bind_some, ← hbefore]
      cases p with
      | ref a => exact hchild l s a hl hp
      | _ => rfl

/-- New cells with values from elsewhere. -/
theorem Overwritten.grow (ho : Overwritten h₀ h Q r B) (hd : Document h₀ Q r)
    (hdown : ∀ l s, B l → B (l ++ [s])) (hg : h.Grows h') (hsize : h₀.size ≤ h.size)
    (hnew : ∀ a c, h.size ≤ a → h'.get? a = some c → c.Within fun b => ¬Q b) :
    Overwritten h₀ h' Q r B where
  pruned := by
    intro a c₀ ha hc₀
    rw [hg.get? (lt_of_lt_of_le (hd.bound a ha) hsize)]
    exact ho.pruned a c₀ ha hc₀
  apart := by
    intro a c hc ha
    by_cases hlt : a < h.size
    · rw [hg.get? hlt] at hc
      exact ho.apart a c hc ha
    · exact hnew a c (Nat.not_lt.mp hlt) hc
  outside := by
    refine ho.outside_of hdown fun l s a _ hl => ?_
    have ha : Q a := hd.closed.at? hd.within hl
    exact congrArg (Option.bind · (·.child? s)) (hg.get? (lt_of_lt_of_le (hd.bound a ha) hsize))

/-- A value from elsewhere, written at a location of `B`. -/
theorem Overwritten.put (ho : Overwritten h₀ h Q r B) (hd : Document h₀ Q r)
    (hdown : ∀ l s, B l → B (l ++ [s])) {l : Location} {s : Step} {a : ℕ} {v w : Val φ}
    (hl : h.at? r l = some (.ref a)) (hw : h.child? (.ref a) s = some w) (hB : B (l ++ [s]))
    (hv : v.Within fun b => ¬Q b) : Overwritten h₀ (h.put a s v) Q r B where
  pruned := by
    intro b c₀ hb hc₀
    obtain ⟨c, hc, hshape, hvalues⟩ := ho.pruned b c₀ hb hc₀
    by_cases hab : a = b
    · subst hab
      have hslot : c.child? s = some w := by
        have hcell : h.cell? (.ref a) = some c := hc
        rwa [Heap.child?, hcell] at hw
      refine ⟨c.put s v, get?_put_self hc s v, (Cell.shape_put hslot v).trans hshape, ?_⟩
      intro s' u hu
      rw [Cell.child?_put hslot] at hu
      split at hu
      · cases hu
        exact .inr hv
      · exact hvalues s' u hu
    · exact ⟨c, by rw [get?_put_ne hab, hc], hshape, hvalues⟩
  apart := ho.apart.put a s fun _ => hv
  outside := by
    refine ho.outside_of hdown fun l' s' b hout hl' => ?_
    have hb : Q b := hd.closed.at? hd.within hl'
    by_cases hab : a = b
    · subst hab
      have hll : l' = l := hd.unshared l' l a hl' (ho.location hd hl hb)
      have hss : s ≠ s' := by
        rintro rfl
        exact hout (hll ▸ hB)
      obtain ⟨c, hc, hslot⟩ := Option.bind_eq_some_iff.mp hw
      have hput : (h.put a s v).cell? (.ref a) = some (c.put s v) := get?_put_self hc s v
      rw [Heap.child?, hput, Heap.child?, hc, Option.bind_some, Option.bind_some,
        Cell.child?_put hslot, if_neg hss]
    · exact congrArg (Option.bind · (·.child? s')) (get?_put_ne hab s v)

theorem Overwritten.shape_at (ho : Overwritten h₀ h Q r B) (hd : Document h₀ Q r) {l : Location}
    (hl : ¬B l) : (h.at? r l).bind h.shape? = (h₀.at? r l).bind h₀.shape? := by
  rw [ho.outside l hl]
  cases hp : h₀.at? r l with
  | none => rfl
  | some p =>
    cases p with
    | ref a =>
      have ha : Q a := hd.closed.at? hd.within hp
      obtain ⟨c₀, hc₀⟩ : ∃ c₀, h₀.get? a = some c₀ :=
        ⟨_, List.getElem?_eq_getElem (hd.bound a ha)⟩
      obtain ⟨c, hc, hshape, -⟩ := ho.pruned a c₀ ha hc₀
      simp only [Option.bind_some, shape?, hc, hc₀, Option.map_some, hshape]
    | _ => rfl

end Writes

end Heap

end Foundation
