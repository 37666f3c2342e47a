import Mathlib.Order.Lattice
import Mathlib.Order.Basic
import Mathlib.Data.Option.Basic
import Mathlib.Logic.Function.Basic
import OpenClaw.Foundation.Run

/-!
# Ledgers of keys that expire

A key is admitted with an expiry and a note. Until then it is known, and whoever checks it is given
the note; afterwards it may be admitted again. Two ledgers that agree on the keys that are known at
one time give the same answers from then on, so expired entries may be dropped at any moment.
-/

namespace Foundation

set_option autoImplicit false

universe u v w
variable {κ : Type u} {τ : Type v} {ρ : Type w} [LinearOrder τ]

/-- The expiry and the note of a key. -/
abbrev Ledger (κ : Type u) (τ : Type v) (ρ : Type w) := κ → Option (τ × ρ)

inductive LedgerCall (κ : Type u) (τ : Type v) (ρ : Type w) where
  | check (key : κ) (now expiry : τ) (note : ρ)
  | amend (key : κ) (note : ρ)

namespace Ledger

/-- The keys that are known at the time. -/
def live (L : Ledger κ τ ρ) (t : τ) : Ledger κ τ ρ := fun k => (L k).filter fun e => t < e.1

/-- The ledgers know the same keys from the time on. -/
def Same (t : τ) (L L' : Ledger κ τ ρ) : Prop := L.live t = L'.live t

variable {L L' : Ledger κ τ ρ} {t t' : τ}

theorem live_live (h : t ≤ t') (L : Ledger κ τ ρ) : (L.live t).live t' = L.live t' := by
  funext k
  simp only [live, Option.filter_filter]
  congr 1
  funext e
  rw [Bool.and_eq_right_iff_imp]
  intro he
  exact decide_eq_true (h.trans_lt (of_decide_eq_true he))

theorem Same.mono (h : Same t L L') (ht : t ≤ t') : Same t' L L' := by
  unfold Same at h ⊢
  rw [← live_live ht L, ← live_live ht L', h]

theorem Same.symm (h : Same t L L') : Same t L' L := Eq.symm h

theorem Same.trans {L'' : Ledger κ τ ρ} (h : Same t L L') (h' : Same t L' L'') : Same t L L'' :=
  Eq.trans h h'

/-! ## Steps -/

variable [DecidableEq κ]

/-- A known key is answered with its note, another one is admitted. -/
def check (L : Ledger κ τ ρ) (key : κ) (now expiry : τ) (note : ρ) : Ledger κ τ ρ × Option ρ :=
  match L.live now key with
  | some e => (L, some e.2)
  | none => (Function.update L key (some (expiry, note)), none)

def amend (L : Ledger κ τ ρ) (key : κ) (note : ρ) : Ledger κ τ ρ :=
  Function.update L key ((L key).map fun e => (e.1, note))

/-- Only a check is answered. -/
def step (L : Ledger κ τ ρ) : LedgerCall κ τ ρ → Ledger κ τ ρ × Option (Option ρ)
  | .check key now expiry note => ((L.check key now expiry note).1,
      some (L.check key now expiry note).2)
  | .amend key note => (L.amend key note, none)

theorem live_update (L : Ledger κ τ ρ) (key : κ) (e : Option (τ × ρ)) :
    live (Function.update L key e) t =
      Function.update (L.live t) key (e.filter fun e => t < e.1) := by
  funext k
  by_cases hk : k = key
  · subst hk
    simp [live]
  · simp [live, hk]

theorem Same.update (h : Same t L L') (key : κ) (e : Option (τ × ρ)) :
    Same t (Function.update L key e) (Function.update L' key e) := by
  unfold Same at h ⊢
  rw [live_update, live_update, h]

theorem Same.check (h : Same t L L') (key : κ) (expiry : τ) (note : ρ) :
    (L.check key t expiry note).2 = (L'.check key t expiry note).2 ∧
      Same t (L.check key t expiry note).1 (L'.check key t expiry note).1 := by
  have hkey : L.live t key = L'.live t key := congrFun h key
  unfold Ledger.check
  rw [hkey]
  cases L'.live t key with
  | some e => exact ⟨rfl, h⟩
  | none => exact ⟨rfl, h.update key _⟩

theorem Same.amend (h : Same t L L') (key : κ) (note : ρ) :
    Same t (L.amend key note) (L'.amend key note) := by
  have hkey : L.live t key = L'.live t key := congrFun h key
  have hmap : ∀ o : Option (τ × ρ), (o.map fun e => (e.1, note)).filter (fun e => t < e.1) =
      (o.filter fun e => t < e.1).map fun e => (e.1, note) := by
    intro o
    cases o with
    | none => rfl
    | some e =>
      by_cases he : t < e.1
      · rw [Option.filter_some, if_pos (decide_eq_true he), Option.map_some, Option.filter_some,
          if_pos (decide_eq_true he)]
      · rw [Option.filter_some, if_neg (by simpa using he), Option.map_some, Option.filter_some,
          if_neg (by simpa using he)]
        rfl
  unfold Same at h ⊢
  unfold Ledger.amend
  rw [live_update, live_update, h, hmap, hmap]
  rw [live, live] at hkey
  rw [hkey]

/-! ## Runs -/

section Runs
variable {calls : ℕ → LedgerCall κ τ ρ}

/-- The checks read a clock that does not go back. -/
def Chronological (calls : ℕ → LedgerCall κ τ ρ) : Prop :=
  ∀ i j, i < j → ∀ k t x n k' t' x' n', calls i = .check k t x n → calls j = .check k' t' x' n' →
    t ≤ t'

theorem step_keeps {key : κ} {x : τ} {call : LedgerCall κ τ ρ} (h : (L key).map Prod.fst = some x)
    (hclock : ∀ k t x' n, call = .check k t x' n → t < x) :
    ((L.step call).1 key).map Prod.fst = some x := by
  obtain ⟨e, he, rfl⟩ := Option.map_eq_some_iff.mp h
  cases call with
  | amend k n =>
    simp only [step, amend]
    by_cases hk : key = k
    · subst hk
      simp [he]
    · simpa [hk] using h
  | check k now x' n =>
    simp only [step, check]
    split
    · exact h
    · rename_i hnone
      by_cases hk : key = k
      · subst hk
        have hlive : L.live now key = some e := by
          rw [live, he, Option.filter_some, if_pos (decide_eq_true (hclock key now x' n rfl))]
        rw [hlive] at hnone
        cases hnone
      · simpa [hk] using h

/-- A key is not admitted twice before its first expiry. -/
theorem spaced (hclock : Chronological calls) {i j : ℕ} (hij : i < j) {key : κ} {t x t' x' : τ}
    {n n' : ρ} (hi : calls i = .check key t x n) (hj : calls j = .check key t' x' n')
    (hfirst : answer step L calls i = some none) (hagain : answer step L calls j = some none) :
    x ≤ t' := by
  by_contra hlt
  rw [not_le] at hlt
  have hstart : (run step L calls (i + 1) key).map Prod.fst = some x := by
    rw [answer, hi, step, Option.some.injEq] at hfirst
    rw [run_succ, hi, step]
    cases hknown : (run step L calls i).live t key with
    | some e =>
      rw [check, hknown] at hfirst
      cases hfirst
    | none =>
      rw [check, hknown]
      simp
  have hheld : ∀ m, i + 1 ≤ m → m ≤ j → (run step L calls m key).map Prod.fst = some x := by
    intro m hm
    induction m, hm using Nat.le_induction with
    | base => exact fun _ => hstart
    | succ m hm ih =>
      intro hmj
      rw [run_succ]
      apply step_keeps (ih (by omega))
      intro k s y r hcall
      exact (hclock m j (by omega) _ _ _ _ _ _ _ _ hcall hj).trans_lt hlt
  obtain ⟨e, he, rfl⟩ := Option.map_eq_some_iff.mp (hheld j (by omega) (le_refl j))
  have hlive : (run step L calls j).live t' key = some e := by
    rw [live, he, Option.filter_some, if_pos (decide_eq_true hlt)]
  rw [answer, hj, step, Option.some.injEq, check, hlive] at hagain
  cases hagain

end Runs

end Ledger

end Foundation
