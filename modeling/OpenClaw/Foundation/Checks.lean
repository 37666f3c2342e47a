import Mathlib.Data.List.Forall2

/-!
# Loops that stop at the first error

A loop of checks is a `foldlM` over `Except`. It fails at the first element whose check fails, and
what every check establishes holds of the elements before.
-/

namespace Foundation

set_option autoImplicit false

universe u v w
variable {σ : Type u} {α : Type v} {ε : Type w} {f : σ → α → Except ε σ} {s s' : σ}

theorem foldlM_cons_ok {x : α} {xs : List α} (h : f s x = .ok s') :
    (x :: xs).foldlM f s = xs.foldlM f s' := by
  rw [List.foldlM_cons, h]
  rfl

theorem foldlM_cons_error {x : α} {xs : List α} {e : ε} (h : f s x = .error e) :
    (x :: xs).foldlM f s = .error e := by
  rw [List.foldlM_cons, h]
  rfl

theorem foldlM_error_iff {xs : List α} {e : ε} : xs.foldlM f s = .error e ↔
    ∃ front x back s', xs = front ++ x :: back ∧ front.foldlM f s = .ok s' ∧ f s' x = .error e := by
  induction xs generalizing s with
  | nil =>
    constructor
    · intro h
      cases h
    · rintro ⟨front, x, back, s', h, -⟩
      cases front <;> cases h
  | cons y xs ih =>
    cases hy : f s y with
    | error e' =>
      rw [foldlM_cons_error hy]
      constructor
      · rintro ⟨⟩
        exact ⟨[], y, xs, s, rfl, rfl, hy⟩
      · rintro ⟨front, x, back, s', h, hfront, hx⟩
        cases front with
        | nil =>
          cases h
          cases hfront
          rw [← hy, hx]
        | cons z front =>
          cases h
          rw [foldlM_cons_error hy] at hfront
          cases hfront
    | ok t =>
      rw [foldlM_cons_ok hy, ih]
      constructor
      · rintro ⟨front, x, back, s', rfl, hfront, hx⟩
        exact ⟨y :: front, x, back, s', rfl, by rw [foldlM_cons_ok hy, hfront], hx⟩
      · rintro ⟨front, x, back, s', h, hfront, hx⟩
        cases front with
        | nil =>
          cases h
          cases hfront
          rw [hx] at hy
          cases hy
        | cons z front =>
          cases h
          rw [foldlM_cons_ok hy] at hfront
          exact ⟨front, x, back, s', rfl, hfront, hx⟩

/-- What every check establishes, about the elements before and the state. -/
theorem foldlM_invariant {P : List α → σ → Prop} {xs : List α} (start : P [] s)
    (step : ∀ front x t t', P front t → f t x = .ok t' → P (front ++ [x]) t')
    (h : xs.foldlM f s = .ok s') : P xs s' := by
  have go (xs : List α) : ∀ front t, P front t → xs.foldlM f t = .ok s' → P (front ++ xs) s' := by
    induction xs with
    | nil =>
      rintro front t ht ⟨⟩
      rwa [List.append_nil]
    | cons x xs ih =>
      intro front t ht hrun
      cases hx : f t x with
      | error e =>
        rw [foldlM_cons_error hx] at hrun
        cases hrun
      | ok t' =>
        rw [foldlM_cons_ok hx] at hrun
        rw [← List.singleton_append, ← List.append_assoc]
        exact ih _ t' (step front x t t' ht hx) hrun
  exact go xs [] s start h

/-! ## Loops of independent checks -/

section Each
variable {β : Type v}

theorem bind_eq_ok {x : Except ε α} {g : α → Except ε β} {b : β} (h : (x >>= g) = .ok b) :
    ∃ a, x = .ok a ∧ g a = .ok b := by
  cases x with
  | error e => cases h
  | ok a => exact ⟨a, rfl, h⟩

theorem forM_ok {xs : List α} {g : α → Except ε PUnit} {u : PUnit} (h : xs.forM g = .ok u) :
    ∀ x ∈ xs, g x = .ok ⟨⟩ := by
  induction xs with
  | nil => simp
  | cons x xs ih =>
    obtain ⟨⟨⟩, hx, hxs⟩ := bind_eq_ok h
    intro y hy
    rcases List.mem_cons.mp hy with rfl | hy
    · exact hx
    · exact ih hxs y hy

theorem forM_of_forall {xs : List α} {g : α → Except ε PUnit} (h : ∀ x ∈ xs, g x = .ok ⟨⟩) :
    xs.forM g = .ok ⟨⟩ := by
  induction xs with
  | nil => rfl
  | cons x xs ih =>
    have hxs := ih fun y hy => h y (List.mem_cons_of_mem x hy)
    have hcons : (x :: xs).forM g = g x >>= fun _ => xs.forM g := rfl
    rw [hcons, h x List.mem_cons_self]
    exact hxs

theorem mapM_ok {xs : List α} {g : α → Except ε β} {ys : List β} (h : xs.mapM g = .ok ys) :
    List.Forall₂ (fun x y => g x = .ok y) xs ys := by
  induction xs generalizing ys with
  | nil =>
    cases h
    exact .nil
  | cons x xs ih =>
    rw [List.mapM_cons] at h
    obtain ⟨y, hy, h⟩ := bind_eq_ok h
    obtain ⟨ys, hys, h⟩ := bind_eq_ok h
    cases h
    exact .cons hy (ih hys)

theorem forall₂_exists_left {R : α → β → Prop} {xs : List α} {ys : List β}
    (h : List.Forall₂ R xs ys) {y : β} (hy : y ∈ ys) : ∃ x ∈ xs, R x y := by
  induction h with
  | nil => cases hy
  | @cons x z xs zs hxz _ ih =>
    rcases List.mem_cons.mp hy with rfl | hy
    · exact ⟨x, List.mem_cons_self, hxz⟩
    · obtain ⟨w, hw, hR⟩ := ih hy
      exact ⟨w, List.mem_cons_of_mem x hw, hR⟩

theorem mapM_some_iff {f : α → Option β} {xs : List α} {ys : List β} :
    xs.mapM f = some ys ↔ List.Forall₂ (fun x y => f x = some y) xs ys := by
  induction xs generalizing ys with
  | nil => cases ys <;> simp
  | cons x xs ih =>
    cases ys with
    | nil => simp [List.mapM_cons, Option.bind_eq_some_iff]
    | cons y ys => simp [List.mapM_cons, Option.bind_eq_some_iff, ih]

/-- Results that are there for each element are there for the list. -/
theorem mapM_some_of_forall {f : α → Option β} {P : α → β → Prop} {xs : List α}
    (h : ∀ x ∈ xs, ∃ y, f x = some y ∧ P x y) : ∃ ys, xs.mapM f = some ys ∧ List.Forall₂ P xs ys := by
  induction xs with
  | nil => exact ⟨[], rfl, .nil⟩
  | cons x xs ih =>
    obtain ⟨y, hy, hxy⟩ := h x List.mem_cons_self
    obtain ⟨ys, hys, hrest⟩ := ih fun z hz => h z (List.mem_cons_of_mem x hz)
    exact ⟨y :: ys, by simp [List.mapM_cons, hy, hys], .cons hxy hrest⟩

/-- A loop goes through where each of its steps does. -/
theorem foldlM_ok_of_some {g : σ → α → Option σ} {xs : List α}
    (h : ∀ x ∈ xs, ∀ s s', g s x = some s' → f s x = .ok s') (hs : xs.foldlM g s = some s') :
    xs.foldlM f s = .ok s' := by
  induction xs generalizing s with
  | nil =>
    cases hs
    rfl
  | cons x xs ih =>
    rw [List.foldlM_cons] at hs ⊢
    obtain ⟨t, ht, hs⟩ := Option.bind_eq_some_iff.mp hs
    rw [h x List.mem_cons_self s t ht]
    exact ih (fun y hy => h y (List.mem_cons_of_mem x hy)) hs

theorem foldlM_some_mono {f g : σ → α → Option σ} {xs : List α} {s s' : σ}
    (h : ∀ s x t, f s x = some t → g s x = some t) (hs : xs.foldlM f s = some s') :
    xs.foldlM g s = some s' := by
  induction xs generalizing s with
  | nil => exact hs
  | cons x xs ih =>
    rw [List.foldlM_cons] at hs ⊢
    obtain ⟨t, ht, hs⟩ := Option.bind_eq_some_iff.mp hs
    rw [h s x t ht]
    exact ih hs

end Each

/-! ## Errors of a kind -/

/-- The computation ends with an error of the kind. -/
def Fails {α : Type v} (P : ε → Prop) (r : Except ε α) : Prop := ∃ e, r = .error e ∧ P e

section Fails
variable {β : Type v} {P : ε → Prop}

@[simp] theorem fails_ok {a : β} : ¬Fails P (.ok a : Except ε β) := by
  rintro ⟨e, h, -⟩
  cases h

@[simp] theorem fails_error {e : ε} : Fails P (.error e : Except ε β) ↔ P e := by
  constructor
  · rintro ⟨e', h, he⟩
    cases h
    exact he
  · intro he
    exact ⟨e, rfl, he⟩

theorem fails_bind {x : Except ε α} {g : α → Except ε β} :
    Fails P (x >>= g) ↔ Fails P x ∨ ∃ a, x = .ok a ∧ Fails P (g a) := by
  cases x with
  | error e =>
    have hbind : ((.error e : Except ε α) >>= g) = .error e := rfl
    rw [hbind, fails_error, fails_error]
    simp
  | ok a =>
    have hbind : ((.ok a : Except ε α) >>= g) = g a := rfl
    rw [hbind]
    simp

theorem fails_ite {c : Prop} [Decidable c] {x y : Except ε β} :
    Fails P (if c then x else y) ↔ (c ∧ Fails P x) ∨ (¬c ∧ Fails P y) := by
  split <;> simp [*]

theorem fails_foldlM {xs : List α} : Fails P (xs.foldlM f s) ↔
    ∃ front x back s', xs = front ++ x :: back ∧ front.foldlM f s = .ok s' ∧ Fails P (f s' x) := by
  constructor
  · rintro ⟨e, h, he⟩
    obtain ⟨front, x, back, s', hxs, hfront, hx⟩ := foldlM_error_iff.mp h
    exact ⟨front, x, back, s', hxs, hfront, e, hx, he⟩
  · rintro ⟨front, x, back, s', hxs, hfront, e, hx, he⟩
    exact ⟨e, foldlM_error_iff.mpr ⟨front, x, back, s', hxs, hfront, hx⟩, he⟩

end Fails

end Foundation
