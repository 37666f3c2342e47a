import Mathlib.Data.List.Basic

/-!
# Editing in place, with checks

A procedure edits one object stage by stage. A stage fails or leaves the edited object; when one
fails, the procedure stops and the object stays as the stages before it left it.
-/

namespace Foundation

set_option autoImplicit false

universe u v
variable {σ : Type u} {ε : Type v}

abbrev Stage (σ : Type u) (ε : Type v) := σ → Except ε σ

/-- The object the stages leave, and the failure that stopped them. -/
def runStages : List (Stage σ ε) → σ → σ × Option ε
  | [], s => (s, none)
  | f :: fs, s =>
    match f s with
    | .error e => (s, some e)
    | .ok s' => runStages fs s'

/-- Every stage gets through. -/
def Passes : List (Stage σ ε) → σ → Prop
  | [], _ => True
  | f :: fs, s => ∃ s', f s = .ok s' ∧ Passes fs s'

/-- Every stage before the first failure leaves the object as it is. -/
def Harmless : List (Stage σ ε) → σ → Prop
  | [], _ => True
  | f :: fs, s => ∀ s', f s = .ok s' → s' = s ∧ Harmless fs s

/-- No stage is undone by the stages after it. -/
def NoUndo : List (Stage σ ε) → Prop
  | [] => True
  | f :: fs => (∀ s s', f s = .ok s' → (runStages fs s').1 = s → s' = s) ∧ NoUndo fs

theorem passes_iff (fs : List (Stage σ ε)) : ∀ s, Passes fs s ↔ (runStages fs s).2 = none := by
  induction fs with
  | nil => exact fun s => ⟨fun _ => rfl, fun _ => trivial⟩
  | cons f fs ih =>
    intro s
    unfold Passes runStages
    cases hf : f s with
    | error e => simp
    | ok s' => simp [ih s']

theorem Harmless.state {fs : List (Stage σ ε)} : ∀ {s : σ}, Harmless fs s →
    (runStages fs s).1 = s := by
  induction fs with
  | nil => exact fun _ => rfl
  | cons f fs ih =>
    intro s h
    unfold runStages
    cases hf : f s with
    | error e => rfl
    | ok s' =>
      obtain ⟨rfl, h'⟩ := h s' hf
      exact ih h'

theorem harmless_of_state {fs : List (Stage σ ε)} (hfs : NoUndo fs) : ∀ {s : σ},
    (runStages fs s).1 = s → Harmless fs s := by
  induction fs with
  | nil => exact fun _ => trivial
  | cons f fs ih =>
    intro s h s' hf
    unfold runStages at h
    rw [hf] at h
    obtain rfl := hfs.1 s s' hf h
    exact ⟨rfl, ih hfs.2 h⟩

theorem harmless_iff {fs : List (Stage σ ε)} (hfs : NoUndo fs) (s : σ) :
    Harmless fs s ↔ (runStages fs s).1 = s :=
  ⟨Harmless.state, harmless_of_state hfs⟩

/-! ## Stages that write different parts -/

section Ranked
variable (agree : ℕ → σ → σ → Prop)

/-- `agree n s t` says that `t` has the first `n` parts of `s`. The stages write these parts in
order, from the `n`-th on, and some parts are written by no stage. -/
inductive Ranked : ℕ → List (Stage σ ε) → Prop where
  | nil (n : ℕ) : Ranked n []
  | skip {n : ℕ} {fs : List (Stage σ ε)} : Ranked (n + 1) fs → Ranked n fs
  | cons {n : ℕ} {f : Stage σ ε} {fs : List (Stage σ ε)} :
      (∀ s s', f s = .ok s' → agree n s s') →
      (∀ s s', f s = .ok s' → agree (n + 1) s' s → s' = s) →
      Ranked (n + 1) fs → Ranked n (f :: fs)

variable {agree} {n : ℕ} {fs : List (Stage σ ε)}

theorem Ranked.keeps (refl : ∀ n s, agree n s s)
    (trans : ∀ n s t u, agree n s t → agree n t u → agree n s u)
    (fewer : ∀ n s t, agree (n + 1) s t → agree n s t) (h : Ranked agree n fs) :
    ∀ s, agree n s (runStages fs s).1 := by
  induction h with
  | nil n => exact fun s => refl n s
  | skip _ ih => exact fun s => fewer _ _ _ (ih s)
  | @cons n f fs hkeep _ _ ih =>
    intro s
    unfold runStages
    cases hf : f s with
    | error e => exact refl n s
    | ok s' => exact trans n _ _ _ (hkeep s s' hf) (fewer _ _ _ (ih s'))

theorem Ranked.noUndo (refl : ∀ n s, agree n s s)
    (trans : ∀ n s t u, agree n s t → agree n t u → agree n s u)
    (fewer : ∀ n s t, agree (n + 1) s t → agree n s t) (h : Ranked agree n fs) : NoUndo fs := by
  induction h with
  | nil n => exact trivial
  | skip _ ih => exact ih
  | cons _ hsettle hfs ih =>
    refine ⟨fun s s' hf hback => hsettle s s' hf ?_, ih⟩
    have hkept := hfs.keeps refl trans fewer s'
    rw [hback] at hkept
    exact hkept

end Ranked

end Foundation
