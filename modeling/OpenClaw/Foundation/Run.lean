import Mathlib.Data.List.Basic
import Mathlib.Order.Monotone.Basic

/-!
# Runs of a deterministic machine

A machine answers every input and moves to its next state. A run is driven by an input
sequence; the facts below are the inductions every safety proof over runs needs.
-/

namespace Foundation

set_option autoImplicit false

universe u v w
variable {σ : Type u} {ι : Type v} {ο : Type w}
variable (step : σ → ι → σ × ο) (s : σ) (inp : ℕ → ι)

/-- The state before the `k`-th input. -/
def run : ℕ → σ
  | 0 => s
  | k + 1 => (step (run k) (inp k)).1

/-- The answer to the `k`-th input. -/
def answer (k : ℕ) : ο := (step (run step s inp k) (inp k)).2

@[simp] theorem run_zero : run step s inp 0 = s := rfl

theorem run_succ (k : ℕ) : run step s inp (k + 1) = (step (run step s inp k) (inp k)).1 := rfl

variable {step s inp}

/-- What the start has and every step keeps holds from there on. -/
theorem run_invariant {P : σ → Prop} {m : ℕ} (hm : P (run step s inp m))
    (hstep : ∀ k, m ≤ k → P (run step s inp k) → P (run step s inp (k + 1))) :
    ∀ k, m ≤ k → P (run step s inp k) := by
  intro k hk
  induction k, hk using Nat.le_induction with
  | base => exact hm
  | succ k hk ih => exact hstep k hk ih

/-! ### Finite runs -/

/-- `P` holds at every input of a run, in the state that the input finds. -/
def EachStep (next : σ → ι → σ) (P : σ → ι → Prop) : σ → List ι → Prop
  | _, [] => True
  | s, i :: is => P s i ∧ EachStep next P (next s i) is

namespace EachStep
variable {next : σ → ι → σ} {P Q : σ → ι → Prop} {s : σ} {is : List ι}

theorem and (hP : EachStep next P s is) (hQ : EachStep next Q s is) :
    EachStep next (fun s i => P s i ∧ Q s i) s is := by
  induction is generalizing s with
  | nil => trivial
  | cons i is ih => exact ⟨⟨hP.1, hQ.1⟩, ih hP.2 hQ.2⟩

theorem mono (hPQ : ∀ s i, P s i → Q s i) (hP : EachStep next P s is) : EachStep next Q s is := by
  induction is generalizing s with
  | nil => trivial
  | cons i is ih => exact ⟨hPQ s i hP.1, ih hP.2⟩

theorem append {before : List ι} (h : EachStep next P s (before ++ is)) :
    EachStep next P (before.foldl next s) is := by
  induction before generalizing s with
  | nil => exact h
  | cons i before ih => exact ih h.2

/-- What decides every step decides the run, while an invariant of the state and of the inputs that
are left goes on. -/
theorem congr {Inv : σ → List ι → Prop} (hstep : ∀ s i is, Inv s (i :: is) → (P s i ↔ Q s i))
    (hnext : ∀ s i is, Inv s (i :: is) → P s i → Inv (next s i) is) (h : Inv s is) :
    EachStep next P s is ↔ EachStep next Q s is := by
  induction is generalizing s with
  | nil => exact Iff.rfl
  | cons i is ih =>
    rw [EachStep, EachStep, ← hstep s i is h]
    exact and_congr_right fun hP => ih (hnext s i is h hP)

end EachStep

/-!
## Isolation of one party's inputs

A machine serves several parties. What one of them sees of the state is given by a relation. If the
inputs of the others leave this view and its own inputs read nothing else, then its answers depend
on its own inputs alone.
-/

section Isolation

section Runs
variable (step : σ → ι → σ × ο) (own : ι → Bool)

/-- The state behind a list of inputs. -/
def stateAfter (s : σ) (inputs : List ι) : σ := inputs.foldl (fun s i => (step s i).1) s

/-- The answers to the party's own inputs. -/
def ownAnswers : σ → List ι → List ο
  | _, [] => []
  | s, i :: inputs =>
    if own i then (step s i).2 :: ownAnswers (step s i).1 inputs
    else ownAnswers (step s i).1 inputs

end Runs

/-- Two states that the party cannot tell apart stay so, on inputs that are `good`. -/
structure Isolates (step : σ → ι → σ × ο) (own : ι → Bool) (good : ι → Prop)
    (View : σ → σ → Prop) : Prop where
  refl : ∀ s, View s s
  symm : ∀ s t, View s t → View t s
  trans : ∀ s t r, View s t → View t r → View s r
  others : ∀ s i, good i → own i = false → View s (step s i).1
  states : ∀ s t i, good i → own i = true → View s t → View (step s i).1 (step t i).1
  answers : ∀ s t i, good i → own i = true → View s t → (step s i).2 = (step t i).2

namespace Isolates
variable {step : σ → ι → σ × ο} {own : ι → Bool} {good : ι → Prop} {View : σ → σ → Prop}
  {s t : σ} {inputs inputs' : List ι}

/-- The inputs of the others can be left out. -/
theorem ownAnswers_filter (h : Isolates step own good View) (hgood : ∀ i ∈ inputs, good i)
    (hst : View s t) : ownAnswers step own s inputs = ownAnswers step own t (inputs.filter own) := by
  induction inputs generalizing s t with
  | nil => rfl
  | cons i inputs ih =>
    have hi : good i := hgood i List.mem_cons_self
    have hrest : ∀ j ∈ inputs, good j := fun j hj => hgood j (List.mem_cons_of_mem i hj)
    cases hown : own i with
    | false =>
      have hskip : View (step s i).1 t := h.trans _ _ _ (h.symm _ _ (h.others s i hi hown)) hst
      rw [List.filter_cons_of_neg (by simp [hown]), ownAnswers, if_neg (by simp [hown])]
      exact ih hrest hskip
    | true =>
      rw [List.filter_cons_of_pos hown, ownAnswers, ownAnswers, if_pos hown, if_pos hown,
        h.answers s t i hi hown hst, ih hrest (h.states s t i hi hown hst)]

theorem ownAnswers_eq (h : Isolates step own good View) (hgood : ∀ i ∈ inputs, good i)
    (hgood' : ∀ i ∈ inputs', good i) (hsame : inputs.filter own = inputs'.filter own)
    (hst : View s t) : ownAnswers step own s inputs = ownAnswers step own t inputs' := by
  rw [h.ownAnswers_filter hgood hst, h.ownAnswers_filter hgood' (h.refl t), hsame]

/-- An input of another party does not change what the own input after it is answered. -/
theorem answer_after_other (h : Isolates step own good View) {c r : ι} (hc : good c) (hr : good r)
    (hother : own c = false) (hown : own r = true) :
    (step (step s c).1 r).2 = (step s r).2 :=
  (h.answers s _ r hr hown (h.others s c hc hother)).symm

end Isolates

end Isolation

end Foundation

/-!
## Rules on logs

A rule speaks of an event and of the events before it. A log obeys the rule when each of its events
does.
-/

namespace Foundation.EventLog

universe u
variable {α : Type u} (rule : List α → α → Prop)

/-- Every event of the log, which follows `past`, obeys the rule. -/
def Obeys : List α → List α → Prop
  | _, [] => True
  | past, e :: log => rule past e ∧ Obeys (past ++ [e]) log

variable {rule}

theorem obeys_append {past xs ys : List α} :
    Obeys rule past (xs ++ ys) ↔ Obeys rule past xs ∧ Obeys rule (past ++ xs) ys := by
  induction xs generalizing past with
  | nil => simp [Obeys]
  | cons e xs ih => simp [Obeys, ih, and_assoc]

theorem obeys_iff {past log : List α} :
    Obeys rule past log ↔ ∀ pre e post, log = pre ++ e :: post → rule (past ++ pre) e := by
  induction log generalizing past with
  | nil =>
    refine ⟨fun _ pre e post h => ?_, fun _ => trivial⟩
    have hlen := congrArg List.length h
    simp at hlen
  | cons x log ih =>
    rw [Obeys, ih]
    constructor
    · rintro ⟨hx, hlog⟩ pre e post h
      cases pre with
      | nil =>
        cases h
        rwa [List.append_nil]
      | cons y pre =>
        cases h
        have := hlog pre e post rfl
        rwa [List.append_assoc] at this
    · intro h
      refine ⟨?_, fun pre e post heq => ?_⟩
      · have := h [] x log rfl
        rwa [List.append_nil] at this
      · rw [List.append_assoc]
        exact h (x :: pre) e post (by rw [heq]; rfl)

end Foundation.EventLog
