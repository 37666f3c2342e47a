import Mathlib.Data.List.Basic

/-!
# Texts with a delimiter between them

Two texts that are put on both sides of a delimiter can be read off the whole if the number of
delimiters on the left is known, and not otherwise. Splitting once at the first or at the last
delimiter does so.
-/

namespace Foundation

set_option autoImplicit false

universe u
variable {α : Type u} [DecidableEq α] {c : α} {x y s t : List α}

/-- With equally many delimiters on the left the split is the same. -/
theorem delimited_inj (h : x ++ c :: s = y ++ c :: t) (hc : x.count c = y.count c) :
    x = y ∧ s = t := by
  have hlonger : ∀ {x y s t : List α}, x.count c = y.count c → x ++ c :: s = y ++ c :: t →
      ∀ z, y = x ++ z → z = [] := by
    intro x y s t hc h z hz
    cases z with
    | nil => rfl
    | cons d z =>
      rw [hz, List.append_assoc, List.append_cancel_left_eq, List.cons_append,
        List.cons.injEq] at h
      rw [hz, ← h.1, List.count_append, List.count_cons_self] at hc
      omega
  rcases List.append_eq_append_iff.mp h with ⟨z, hz, _⟩ | ⟨z, hz, _⟩
  · have hnil := hlonger hc h z hz
    rw [hnil, List.append_nil] at hz
    rw [hz, List.append_cancel_left_eq, List.cons.injEq] at h
    exact ⟨hz.symm, h.2⟩
  · have hnil := hlonger hc.symm h.symm z hz
    rw [hnil, List.append_nil] at hz
    rw [hz, List.append_cancel_left_eq, List.cons.injEq] at h
    exact ⟨hz, h.2⟩

/-- Without delimiters on the left the split is the same. -/
theorem delimited_free (hx : c ∉ x) (hy : c ∉ y) (h : x ++ c :: s = y ++ c :: t) :
    x = y ∧ s = t := by
  apply delimited_inj h
  rw [List.count_eq_zero_of_not_mem hx, List.count_eq_zero_of_not_mem hy]

/-! ## Splitting once -/

/-- `xs.split(c, 1)`, of a text with a delimiter. -/
def splitFirst? (c : α) : List α → Option (List α × List α)
  | [] => none
  | a :: xs => if a = c then some ([], xs) else (splitFirst? c xs).map fun p => (a :: p.1, p.2)

/-- `xs.rsplit(c, 1)`, of a text with a delimiter. -/
def splitLast? (c : α) (xs : List α) : Option (List α × List α) :=
  (splitFirst? c xs.reverse).map fun p => (p.2.reverse, p.1.reverse)

theorem splitFirst?_append (hx : c ∉ x) : splitFirst? c (x ++ c :: s) = some (x, s) := by
  induction x with
  | nil => simp [splitFirst?]
  | cons a x ih =>
    rw [List.mem_cons, not_or] at hx
    rw [List.cons_append, splitFirst?, if_neg (Ne.symm hx.1), ih hx.2]
    rfl

theorem splitFirst?_eq_none : splitFirst? c x = none ↔ c ∉ x := by
  induction x with
  | nil => simp [splitFirst?]
  | cons a x ih =>
    rw [splitFirst?]
    by_cases ha : a = c
    · simp [ha]
    · simp [ha, ih, Ne.symm ha]

theorem splitFirst?_eq_some : splitFirst? c t = some (x, s) ↔ t = x ++ c :: s ∧ c ∉ x := by
  constructor
  · intro h
    have hc : c ∈ t := by
      by_contra hc
      rw [splitFirst?_eq_none.mpr hc] at h
      cases h
    obtain ⟨y, z, rfl, hy⟩ := List.eq_append_cons_of_mem hc
    rw [splitFirst?_append hy] at h
    cases h
    exact ⟨rfl, hy⟩
  · rintro ⟨rfl, hx⟩
    exact splitFirst?_append hx

theorem splitLast?_eq_none : splitLast? c x = none ↔ c ∉ x := by
  rw [splitLast?, Option.map_eq_none_iff, splitFirst?_eq_none, List.mem_reverse]

theorem splitLast?_eq_some : splitLast? c t = some (x, s) ↔ t = x ++ c :: s ∧ c ∉ s := by
  rw [splitLast?, Option.map_eq_some_iff]
  constructor
  · rintro ⟨⟨y, z⟩, h, heq⟩
    rw [splitFirst?_eq_some] at h
    cases heq
    refine ⟨?_, by rw [List.mem_reverse]; exact h.2⟩
    rw [← List.reverse_reverse t, h.1]
    simp
  · rintro ⟨rfl, hs⟩
    refine ⟨(s.reverse, x.reverse), ?_, by simp⟩
    rw [splitFirst?_eq_some]
    exact ⟨by simp, by rw [List.mem_reverse]; exact hs⟩

end Foundation
