import Mathlib.Algebra.BigOperators.Group.Finset.Basic
import Mathlib.Data.Fintype.Basic
import Mathlib.Algebra.Order.Ring.Int

/-!
# Retry lanes

Failures of several kinds share one retry loop. A kind with a lane uses up the budget of its lane,
a kind without one is never retried. A failure is granted another attempt while its lane has budget
left after it.
-/

namespace Foundation.RetryLanes

set_option autoImplicit false

universe u v
variable {ε : Type u} {Λ : Type v} [DecidableEq Λ] (lane : ε → Option Λ) (budget : Λ → ℤ)

/-- What the failures use of a lane. -/
def used (l : Λ) (failures : List ε) : ℕ := failures.countP fun e => lane e = some l

def granted (earlier : List ε) (e : ε) : Bool :=
  match lane e with
  | none => false
  | some l => decide ((used lane l earlier : ℤ) + 1 < budget l)

/-- How many of the failures of a lane are granted another attempt. -/
def grants (l : Λ) : List ε → List ε → ℕ
  | _, [] => 0
  | earlier, e :: rest =>
    (if lane e = some l ∧ granted lane budget earlier e then 1 else 0) +
      grants l (earlier ++ [e]) rest

/-- How many grants a lane still has. -/
def left (l : Λ) (earlier : List ε) : ℕ := (budget l - 1 - used lane l earlier).toNat

/-- Each of the failures is granted another attempt. -/
def AllGranted : List ε → List ε → Prop
  | _, [] => True
  | earlier, e :: rest => granted lane budget earlier e = true ∧ AllGranted (earlier ++ [e]) rest

variable {lane budget} {earlier : List ε} {e : ε} {l : Λ}

theorem used_append_of_lane (h : lane e = some l) :
    used lane l (earlier ++ [e]) = used lane l earlier + 1 := by
  simp [used, h]

theorem used_append_of_ne (h : lane e ≠ some l) :
    used lane l (earlier ++ [e]) = used lane l earlier := by
  simp [used, h]

theorem granted_iff (h : lane e = some l) :
    granted lane budget earlier e ↔ (used lane l earlier : ℤ) + 1 < budget l := by
  simp [granted, h]

theorem lane_of_granted (h : granted lane budget earlier e) : ∃ l, lane e = some l := by
  cases hl : lane e with
  | none => simp [granted, hl] at h
  | some l => exact ⟨l, rfl⟩

/-- Failures of other lanes, and their budgets, do not enter the decision. -/
theorem granted_congr {budget' : Λ → ℤ} {earlier' : List ε} (h : lane e = some l)
    (hbudget : budget l = budget' l) (hused : used lane l earlier = used lane l earlier') :
    granted lane budget earlier e = granted lane budget' earlier' e := by
  simp only [granted, h, hbudget, hused]

theorem left_of_granted (hl : lane e = some l) (h : granted lane budget earlier e) :
    left lane budget l (earlier ++ [e]) + 1 = left lane budget l earlier := by
  have hlt := (granted_iff hl).mp h
  unfold left
  rw [used_append_of_lane hl]
  omega

theorem left_of_ne (h : lane e ≠ some l) :
    left lane budget l (earlier ++ [e]) = left lane budget l earlier := by
  unfold left
  rw [used_append_of_ne h]

theorem left_append_le : left lane budget l (earlier ++ [e]) ≤ left lane budget l earlier := by
  by_cases h : lane e = some l
  · unfold left
    rw [used_append_of_lane h]
    omega
  · exact (left_of_ne h).le

/-- A lane of budget `n` never grants more than `n - 1` attempts. -/
theorem grants_le (l : Λ) (earlier failures : List ε) :
    grants lane budget l earlier failures ≤ left lane budget l earlier := by
  induction failures generalizing earlier with
  | nil => exact Nat.zero_le _
  | cons e rest ih =>
    unfold grants
    by_cases h : lane e = some l ∧ granted lane budget earlier e
    · rw [if_pos h, ← left_of_granted h.1 h.2]
      have := ih (earlier ++ [e])
      omega
    · rw [if_neg h, Nat.zero_add]
      exact (ih (earlier ++ [e])).trans left_append_le

/-- A granted attempt is one of those that all lanes together still have. -/
theorem sum_left_of_granted [Fintype Λ] (h : granted lane budget earlier e) :
    (∑ l, left lane budget l (earlier ++ [e])) + 1 = ∑ l, left lane budget l earlier := by
  obtain ⟨l, hl⟩ := lane_of_granted h
  have hrest : ∀ m ∈ Finset.univ.erase l,
      left lane budget m (earlier ++ [e]) = left lane budget m earlier := by
    intro m hm
    apply left_of_ne
    rw [hl]
    intro heq
    exact Finset.ne_of_mem_erase hm (Option.some.inj heq).symm
  rw [← Finset.add_sum_erase _ _ (Finset.mem_univ l), ← Finset.add_sum_erase _ _ (Finset.mem_univ l),
    Finset.sum_congr rfl hrest, ← left_of_granted hl h]
  omega

end Foundation.RetryLanes
