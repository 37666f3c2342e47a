import Mathlib.Data.Rat.Floor
import Mathlib.Order.Bounds.Basic
import OpenClaw.Scheduler.Runner

/-!
# The first run of a cron schedule

Without a cursor `is_cron_due` lets `croniter` count from the minute before the present one, which
it gets by taking one from the minute of the hour. In the first minute of an hour that raises, and
the schedule is charged with a compute error.
-/

namespace OpenClaw.Scheduler

open Foundation
set_option autoImplicit false

/-- `get_next` gives the first minute after its base that the expression matches. A minute is
numbered from the epoch. -/
def LeastMatch (c : Croniter) (expr : List Char) (hits : ℤ → Prop) : Prop :=
  ∀ base, ∃ next, c.getNext expr base = .ok next ∧
    IsLeast {t : ℚ | base < t ∧ ∃ k : ℤ, t = k * 60 ∧ hits k} next

/-- `is_cron_due` answers for the minute of the clock. -/
def FirstRunDecided (env : Env) (expr : List Char) (hits : ℤ → Prop) (now : Clock) : Prop :=
  ∃ due, isCronDue env expr none now = .ok due ∧ (due = true ↔ hits (now.ts / 60).floor)

section
variable {env : Env} {c : Croniter} {expr : List Char} {hits : ℤ → Prop} {now : Clock}

/-- The first matching minute from the present one on is not after the clock exactly when the
present one matches. -/
theorem next_le_now_iff {next : ℚ}
    (h : IsLeast {t : ℚ | (minuteOf now.ts - 60 : ℤ) < t ∧ ∃ k : ℤ, t = k * 60 ∧ hits k} next) :
    next ≤ now.ts ↔ hits (now.ts / 60).floor := by
  have hfloor : ((now.ts / 60).floor : ℚ) ≤ now.ts / 60 := Int.floor_le _
  have hbelow : now.ts / 60 < (now.ts / 60).floor + 1 := Int.lt_floor_add_one _
  obtain ⟨⟨hafter, k, hk, hmatch⟩, hleast⟩ := h
  unfold minuteOf at hafter hleast
  constructor
  · intro hle
    have hlow : (now.ts / 60).floor - 1 < k := by
      have hcast : (((now.ts / 60).floor - 1 : ℤ) : ℚ) < k := by
        push_cast at hafter ⊢
        linarith
      exact_mod_cast hcast
    have hhigh : k < (now.ts / 60).floor + 1 := by
      have hcast : (k : ℚ) < (now.ts / 60).floor + 1 := by linarith
      exact_mod_cast hcast
    have hsame : k = (now.ts / 60).floor := by omega
    rwa [← hsame]
  · intro hnow
    refine (hleast ⟨?_, (now.ts / 60).floor, rfl, hnow⟩).trans (by linarith)
    push_cast
    linarith

/-- In the first minute of an hour there is no base. -/
theorem isCronDue_minute_zero (hcr : env.croniter = some c) (hzero : now.minute = 0) :
    isCronDue env expr none now = .error "minute must be in 0..59" := by
  simp [isCronDue, hcr, cronNext, cronBase, hzero]

/-- The evaluation of such a schedule is counted as an error, which disables it at the threshold. -/
theorem evaluateDue_minute_zero {s : Schedule} (hcr : env.croniter = some c)
    (htrigger : s.trigger = .cron expr) (hlast : s.lastTickTs = none) (hzero : now.minute = 0)
    (threshold : ℕ) : s.evaluateDue env now threshold =
      (s.recordComputeError "minute must be in 0..59" threshold, false) := by
  have hdue : s.isDue env now = .error "minute must be in 0..59" := by
    rw [Schedule.isDue, htrigger, hlast]
    exact isCronDue_minute_zero hcr hzero
  rw [Schedule.evaluateDue, hdue]

/-- A first run is decided by the minute of the clock exactly outside the first minute of an hour. -/
theorem first_run_decided_iff (hcr : env.croniter = some c) (hnext : LeastMatch c expr hits)
    (now : Clock) : FirstRunDecided env expr hits now ↔ now.minute ≠ 0 := by
  constructor
  · rintro ⟨due, hdue, -⟩ hzero
    rw [isCronDue_minute_zero hcr hzero] at hdue
    cases hdue
  · intro hminute
    obtain ⟨next, hget, hleast⟩ := hnext (minuteOf now.ts - 60)
    refine ⟨decide (next ≤ now.ts), ?_, ?_⟩
    · simp [isCronDue, hcr, cronNext, cronBase, hminute, hget]
    · rw [decide_eq_true_iff]
      exact next_le_now_iff (by exact_mod_cast hleast)

end

/-- `croniter` on an expression that every minute matches. -/
def everyMinute : Croniter where
  getNext _ base := .ok (((base / 60).floor + 1) * 60)
  later := by
    intro _ base next h
    cases h
    have hbelow : base / 60 < (base / 60).floor + 1 := Int.lt_floor_add_one _
    linarith

theorem everyMinute_least (expr : List Char) : LeastMatch everyMinute expr fun _ => True := by
  intro base
  have hbelow : base / 60 < (base / 60).floor + 1 := Int.lt_floor_add_one _
  refine ⟨((base / 60).floor + 1) * 60, rfl, ⟨by linarith, (base / 60).floor + 1, by push_cast; ring,
    trivial⟩, ?_⟩
  rintro t ⟨hafter, k, rfl, -⟩
  have hminute : base / 60 < k := by linarith
  have hk : (base / 60).floor < k := Int.floor_lt.mpr hminute
  have hk' : ((base / 60).floor : ℚ) + 1 ≤ k := by exact_mod_cast hk
  linarith

def everyMinuteEnv : Env := { sha256 := id, croniter := some everyMinute }

/-- Seconds after ten o'clock on the first day of the epoch. -/
def afterTen (sec : ℕ) : Clock where
  ts := 36000 + sec
  positive := by positivity
  minute := sec / 60
  hour := 10
  day := 1
  month := 1
  weekday := 3

theorem first_run_decided_past_ten :
    FirstRunDecided everyMinuteEnv "* * * * *".toList (fun _ => True) (afterTen 90) :=
  (first_run_decided_iff rfl (everyMinute_least _) (afterTen 90)).mpr (by decide)

/-- Every minute matches, and at ten o'clock the check raises. -/
theorem first_run_raises_at_ten :
    LeastMatch everyMinute "* * * * *".toList (fun _ => True) ∧
      ¬ FirstRunDecided everyMinuteEnv "* * * * *".toList (fun _ => True) (afterTen 5) := by
  refine ⟨everyMinute_least _, ?_⟩
  rintro ⟨due, hdue, -⟩
  rw [isCronDue_minute_zero rfl (by decide)] at hdue
  cases hdue

end OpenClaw.Scheduler
