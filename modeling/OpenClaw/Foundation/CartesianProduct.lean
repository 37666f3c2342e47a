import Mathlib.Algebra.BigOperators.Group.List.Basic
import Mathlib.Data.List.Forall2
import Mathlib.Data.List.Pairwise

/-!
# The product of lists

All choices of one element from each list, in lexicographic order: the last list varies fastest.
-/

namespace Foundation

set_option autoImplicit false

universe u
variable {α : Type u}

def product : List (List α) → List (List α)
  | [] => [[]]
  | vs :: vss => vs.flatMap fun v => (product vss).map fun c => v :: c

theorem product_cons (vs : List α) (vss : List (List α)) :
    product (vs :: vss) = vs.flatMap fun v => (product vss).map fun c => v :: c := rfl

/-- The choices agree up to a list in which the one's element stands before the other's. -/
inductive LexBefore : List (List α) → List α → List α → Prop where
  | head {vs : List α} {vss : List (List α)} {v w : α} (c d : List α) (h : [v, w].Sublist vs) :
    LexBefore (vs :: vss) (v :: c) (w :: d)
  | tail {vs : List α} {vss : List (List α)} {c d : List α} (v : α) (h : LexBefore vss c d) :
    LexBefore (vs :: vss) (v :: c) (v :: d)

theorem mem_product {vss : List (List α)} {c : List α} :
    c ∈ product vss ↔ List.Forall₂ (fun v vs => v ∈ vs) c vss := by
  induction vss generalizing c with
  | nil => simp [product]
  | cons vs vss ih =>
    rw [product_cons, List.mem_flatMap]
    constructor
    · rintro ⟨v, hv, hc⟩
      obtain ⟨d, hd, rfl⟩ := List.mem_map.mp hc
      exact .cons hv (ih.mp hd)
    · intro h
      cases h with
      | cons hv hd => exact ⟨_, hv, List.mem_map_of_mem (ih.mpr hd)⟩

theorem length_product (vss : List (List α)) :
    (product vss).length = (vss.map List.length).prod := by
  induction vss with
  | nil => rfl
  | cons vs vss ih =>
    rw [product_cons, List.length_flatMap]
    simp only [List.length_map, List.map_const', List.sum_replicate, List.map_cons,
      List.prod_cons, ih]
    rfl

theorem product_pairwise (vss : List (List α)) : (product vss).Pairwise (LexBefore vss) := by
  induction vss with
  | nil => exact List.pairwise_singleton _ _
  | cons vs vss ih =>
    rw [product_cons, List.pairwise_flatMap]
    constructor
    · intro v _
      rw [List.pairwise_map]
      exact ih.imp fun h => .tail v h
    · refine List.pairwise_of_forall_sublist fun {v w} hvw c hc d hd => ?_
      obtain ⟨c, -, rfl⟩ := List.mem_map.mp hc
      obtain ⟨d, -, rfl⟩ := List.mem_map.mp hd
      exact .head c d hvw

theorem LexBefore.ne {vss : List (List α)} (hvss : ∀ vs ∈ vss, vs.Nodup) {c d : List α}
    (h : LexBefore vss c d) : c ≠ d := by
  induction h with
  | head c d hvw =>
    rintro ⟨⟩
    have htwice := (hvss _ List.mem_cons_self).sublist hvw
    simp at htwice
  | tail v h ih =>
    intro heq
    exact ih (fun vs hvs => hvss vs (List.mem_cons_of_mem _ hvs)) (List.cons.inj heq).2

theorem product_nodup {vss : List (List α)} (hvss : ∀ vs ∈ vss, vs.Nodup) :
    (product vss).Nodup := (product_pairwise vss).imp fun h => h.ne hvss

end Foundation
