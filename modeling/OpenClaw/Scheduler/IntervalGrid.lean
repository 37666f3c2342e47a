import Mathlib.Data.Rat.Floor
import OpenClaw.Scheduler.RunnerOccurrences

/-!
# The grid of an interval schedule

Ticks and startup skips move the cursor of an interval schedule by whole intervals. A manual run
takes the same step when a whole interval has passed, and otherwise sets the cursor to its own time,
which is off the grid. Each operation here is over before the next one begins.
-/

namespace OpenClaw.Scheduler

open Foundation Runner
set_option autoImplicit false

/-! ## Operations -/

/-- `run_now` of the API: the schedule is executed at the clock's time, due or not. -/
def Runner.runNow (env : Env) (r : Runner) (id : String) (now : Clock) (x : Execution) : Runner :=
  match r.schedules.get? id with
  | none => r
  | some s =>
    if x.delegated then r
    else if isProcessed r.runs (computeIdempotencyKey env id now.ts) then r
    else { r with now := now }.perform env s x

/-- A tick comes with what its executions meet. -/
inductive Operation where
  | tick (now : Clock) (cfg : Config) (executions : List Execution)
  | skipMissedTicks (now : Clock) (cfg : Config)
  | runNow (id : String) (now : Clock) (x : Execution)

def Operation.now : Operation → Clock
  | .tick now _ _ => now
  | .skipMissedTicks now _ => now
  | .runNow _ now _ => now

def Runner.apply (env : Env) (r : Runner) : Operation → Runner
  | .tick now cfg executions =>
    (executions.foldl (fun r x => r.execute env x) (r.tick env now cfg)).restart
  | .skipMissedTicks now cfg => r.skipMissedTicks env now cfg
  | .runNow id now x => r.runNow env id now x

/-- No crash keeps the execution from saving the cursor. -/
def Execution.saves (x : Execution) : Bool :=
  match x.crash, x.result with
  | some .beforeSubmit, _ => false
  | some .afterSubmit, _ => false
  | some .afterRun, .raised _ => false
  | _, _ => true

/-! ## The law -/

/-- The schedule has this interval and this cursor. -/
def Runner.CursorAt (r : Runner) (id : String) (sec : ℕ) (c : ℚ) : Prop :=
  ∃ s, r.schedules.get? id = some s ∧ (∃ h, s.trigger = .interval sec h) ∧ s.lastTickTs = some c

/-- The operation keeps the cursor on the grid of `first`, in order and not ahead of the clock, and a
tick executes the schedule only when an interval has passed. -/
def GridStep (env : Env) (id : String) (sec : ℕ) (first : ℚ) (r : Runner) (op : Operation) : Prop :=
  ∃ c c', r.CursorAt id sec c ∧ (r.apply env op).CursorAt id sec c' ∧ c ≤ c' ∧
    (∃ k : ℤ, c' = first + k * sec) ∧ c' ≤ op.now.ts ∧
    ∀ now cfg executions, op = .tick now cfg executions →
      id ∈ (r.tick env now cfg).due → c + sec ≤ now.ts

/-- A manual run that reaches the cursor comes when an interval has passed, or at the cursor. -/
def OnTime (env : Env) (id : String) (r : Runner) : Operation → Prop
  | .runNow id' now x =>
    id' = id → x.delegated = false → x.saves = true →
      isProcessed r.runs (computeIdempotencyKey env id now.ts) = false →
      ∀ sec c, r.CursorAt id sec c → c + sec ≤ now.ts ∨ now.ts = c
  | _ => True

def OpClock (start : ℚ) (ops : List Operation) : Prop :=
  (start :: ops.map fun op => op.now.ts).Pairwise (· ≤ ·)

/-! ## One operation -/

section Operations
variable {env : Env} {r : Runner} {id : String} {sec : ℕ} {c : ℚ}

theorem Runner.CursorAt.unique {c' : ℚ} {sec' : ℕ} (h : r.CursorAt id sec c)
    (h' : r.CursorAt id sec' c') : sec' = sec ∧ c' = c := by
  obtain ⟨s, hget, ⟨_, htrigger⟩, hcursor⟩ := h
  obtain ⟨s', hget', ⟨_, htrigger'⟩, hcursor'⟩ := h'
  rw [hget] at hget'
  cases hget'
  rw [htrigger] at htrigger'
  rw [hcursor] at hcursor'
  cases htrigger'
  cases hcursor'
  exact ⟨rfl, rfl⟩

theorem Runner.CursorAt.congr {r' : Runner} (h : r.CursorAt id sec c)
    (hsame : r'.schedules.get? id = r.schedules.get? id) : r'.CursorAt id sec c := by
  unfold Runner.CursorAt
  rw [hsame]
  exact h

/-- What an execution that reaches its submission does to the schedules. -/
theorem perform_schedules (env : Env) (r : Runner) (s : Schedule) (x : Execution) :
    ∃ runId, (r.perform env s x).schedules =
      if x.saves then r.schedules.put (s.updateCursor (s.cursorTickTs r.now.ts) runId)
      else r.schedules := by
  obtain ⟨traceId, wall, delegated, result, crash⟩ := x
  rcases crash with _ | crash
  · cases result <;> exact ⟨_, rfl⟩
  · cases crash <;> cases result <;> first | exact ⟨"", rfl⟩ | exact ⟨_, rfl⟩

/-- An execution of another schedule. -/
theorem CursorAt.perform_other {s : Schedule} (h : r.CursorAt id sec c) (hid : s.scheduleId ≠ id)
    (x : Execution) : (r.perform env s x).CursorAt id sec c := by
  obtain ⟨runId, hschedules⟩ := perform_schedules env r s x
  refine h.congr ?_
  rw [hschedules]
  split
  · rw [Table.get?_put, if_neg (show (s.updateCursor _ runId).scheduleId ≠ id from hid)]
  · rfl

/-- An execution of the schedule itself. -/
theorem CursorAt.perform (env : Env) {s : Schedule} (h : r.CursorAt id sec c)
    (hs : r.schedules.get? id = some s) (x : Execution) :
    (r.perform env s x).CursorAt id sec
      (if x.saves then if c + sec ≤ r.now.ts then c + sec else r.now.ts else c) := by
  obtain ⟨s', hs', ⟨hsec, htrigger⟩, hcursor⟩ := h
  rw [hs] at hs'
  cases hs'
  obtain ⟨runId, hschedules⟩ := perform_schedules env r s x
  cases hsaves : x.saves with
  | false =>
    refine ⟨s, ?_, ⟨hsec, htrigger⟩, by simpa using hcursor⟩
    rw [hschedules, hsaves]
    simpa using hs
  | true =>
    have hmoved : s.cursorTickTs r.now.ts = if c + sec ≤ r.now.ts then c + sec else r.now.ts := by
      simp only [Schedule.cursorTickTs, htrigger, hcursor]
    refine ⟨s.updateCursor (s.cursorTickTs r.now.ts) runId, ?_, ⟨hsec, htrigger⟩, ?_⟩
    · have hkey : s.scheduleId = id := Table.key_of_get? hs
      rw [hschedules, hsaves, if_pos rfl, Table.get?_put,
        if_pos (show (s.updateCursor _ runId).scheduleId = id from hkey)]
    · rw [if_pos rfl, ← hmoved]
      rfl

/-- The cursor while a tick executes: not yet moved, or moved by one interval and done. -/
structure InTick (id : String) (sec : ℕ) (c : ℚ) (now : Clock) (r : Runner) : Prop where
  nodup : r.due.Nodup
  waiting : id ∈ r.due → r.now = now ∧ r.CursorAt id sec c ∧ c + sec ≤ now.ts
  moved : id ∉ r.due → r.CursorAt id sec c ∨ c + sec ≤ now.ts ∧ r.CursorAt id sec (c + sec)

theorem inTick_start (env : Env) (h : r.CursorAt id sec c) (hidle : r.due = []) (now : Clock) (cfg : Config) :
    InTick id sec c now (r.tick env now cfg) := by
  unfold Runner.tick
  split
  · exact ⟨hidle ▸ List.nodup_nil, fun hid => (by rw [hidle] at hid; cases hid), fun _ => .inl h⟩
  · have hcursor : ∀ due : List Schedule, ({ r with
        schedules := r.evaluateAll env now cfg, due := due.map Schedule.scheduleId, now } :
          Runner).CursorAt id sec c := by
      intro due
      obtain ⟨s, hget, ⟨hsec, htrigger⟩, hlast⟩ := h
      obtain ⟨hsame, hkept⟩ := evaluated_same env now cfg s
      refine ⟨evaluated env now cfg s, ?_, ⟨hsec, hsame.trans htrigger⟩, hkept.trans hlast⟩
      simp only [get?_evaluateAll, hget, Option.map_some]
    have hin : ∀ due : List Schedule, (∃ l, due.Sublist l ∧ l.Perm (r.collectDue env now cfg)) →
        InTick id sec c now { r with
          schedules := r.evaluateAll env now cfg, due := due.map Schedule.scheduleId, now } := by
      rintro due ⟨l, hsub, hperm⟩
      refine ⟨(hsub.map _).nodup ((hperm.map _).nodup_iff.mpr (collectDue_ids now cfg)), ?_,
        fun _ => .inl (hcursor due)⟩
      intro hid
      obtain ⟨s, hs, rfl⟩ := List.mem_map.mp hid
      obtain ⟨s₀, hs₀, rfl, hisDue⟩ := mem_collectDue (hperm.mem_iff.mp (hsub.subset hs))
      obtain ⟨s', hget, ⟨hsec, htrigger⟩, hlast⟩ := h
      rw [evaluated_id, Table.get?_key hs₀] at hget
      cases hget
      rw [isDue_evaluated] at hisDue
      exact ⟨rfl, hcursor due, interval_due htrigger hisDue hlast⟩
    simp only
    split
    · exact hin _ ⟨_, List.take_sublist _ _, sortedBy_perm _ _⟩
    · exact hin _ ⟨_, List.Sublist.refl _, List.Perm.refl _⟩

/-- A shorter list of due schedules. -/
theorem InTick.shorten {now : Clock} (h : InTick id sec c now r) {due : List String}
    (hdue : due.Sublist r.due) : InTick id sec c now { r with due := due } := by
  refine ⟨hdue.nodup h.nodup, fun hid => h.waiting (hdue.subset hid), fun _ => ?_⟩
  by_cases hid : id ∈ r.due
  · exact .inl (h.waiting hid).2.1
  · exact h.moved hid

/-- One execution of a tick. -/
theorem InTick.execute {now : Clock} (h : InTick id sec c now r) (x : Execution) :
    InTick id sec c now (r.execute env x) := by
  unfold Runner.execute
  cases hdue : r.due with
  | nil => exact h
  | cons head rest =>
    have hrest : InTick id sec c now { r with due := rest } :=
      h.shorten (hdue ▸ List.sublist_cons_self head rest)
    simp only
    split
    · exact hrest
    rename_i s hs
    split
    · exact h.shorten (List.nil_sublist _)
    split
    · exact hrest
    have hkey : s.scheduleId = head := Table.key_of_get? hs
    obtain ⟨hnow, hsub, -⟩ := perform_cases env { r with due := rest } s x
    have hnodup := h.nodup
    rw [hdue, List.nodup_cons] at hnodup
    by_cases hid : head = id
    · subst hid
      obtain ⟨hclock, hcursor, hdueNow⟩ := h.waiting (hdue ▸ List.mem_cons_self)
      have hdone : ¬ head ∈ ({ r with due := rest }.perform env s x).due :=
        fun hmem => hnodup.1 (hsub.subset hmem)
      have hmoved := @CursorAt.perform { r with due := rest } _ _ _ env _ hcursor hs x
      refine ⟨hsub.nodup hnodup.2, fun hmem => absurd hmem hdone, fun _ => ?_⟩
      have hts : r.now.ts = now.ts := congrArg Clock.ts hclock
      dsimp only at hmoved
      rw [hts, if_pos hdueNow] at hmoved
      cases hsaves : x.saves with
      | false => exact .inl (by simpa [hsaves] using hmoved)
      | true => exact .inr ⟨hdueNow, by simpa [hsaves] using hmoved⟩
    · have hother : s.scheduleId ≠ id := hkey ▸ hid
      refine ⟨hsub.nodup hnodup.2, fun hmem => ?_, fun hmem => ?_⟩
      · obtain ⟨hclock, hcursor, hdueNow⟩ := hrest.waiting (hsub.subset hmem)
        exact ⟨hnow.trans hclock, CursorAt.perform_other hcursor hother x, hdueNow⟩
      · by_cases hwaits : id ∈ rest
        · exact .inl (CursorAt.perform_other (hrest.waiting hwaits).2.1 hother x)
        · rcases hrest.moved hwaits with hsame | ⟨hdueNow, hmoved⟩
          · exact .inl (CursorAt.perform_other hsame hother x)
          · exact .inr ⟨hdueNow, CursorAt.perform_other hmoved hother x⟩

/-- A tick leaves the cursor, or moves it by the interval that has passed. -/
theorem cursorAt_tick (env : Env) (h : r.CursorAt id sec c) (hidle : r.due = []) (now : Clock) (cfg : Config)
    (executions : List Execution) :
    (r.apply env (.tick now cfg executions)).CursorAt id sec c ∨
      c + sec ≤ now.ts ∧ (r.apply env (.tick now cfg executions)).CursorAt id sec (c + sec) := by
  have hrun : ∀ (xs : List Execution) (r' : Runner), InTick id sec c now r' →
      InTick id sec c now (xs.foldl (fun r x => r.execute env x) r') := by
    intro xs
    induction xs with
    | nil => exact fun _ h => h
    | cons x xs ih => exact fun r' h => ih _ (h.execute x)
  have hover := (hrun executions _ (inTick_start env h hidle now cfg)).shorten
    (List.nil_sublist _)
  exact hover.moved (by simp)

/-- A startup skip leaves the cursor, or moves it to the last boundary. -/
theorem cursorAt_skip (env : Env) (h : r.CursorAt id sec c) (now : Clock) (cfg : Config) :
    (r.skipMissedTicks env now cfg).CursorAt id sec c ∨
      ∃ k : ℤ, 0 < k ∧ c + k * sec ≤ now.ts ∧
        (r.skipMissedTicks env now cfg).CursorAt id sec (c + k * sec) := by
  obtain ⟨s, hget, ⟨hsec, htrigger⟩, hlast⟩ := h
  have hpositive : (0 : ℚ) < sec := by exact_mod_cast (by omega : 0 < sec)
  have hput : ∀ (t : Table Schedule.scheduleId) (s : Schedule) (k : String),
      (t.put (s.updateCursor (s.startupSkipCursorTs now.ts) "skipped_startup")).get? k =
        if s.scheduleId = k then
          some (s.updateCursor (s.startupSkipCursorTs now.ts) "skipped_startup")
        else t.get? k := fun t s k => Table.get?_put t _ k
  have hafter := Table.get?_foldl Schedule.scheduleId hput (@collectDue_ids env r now cfg)
  cases hf : (r.collectDue env now cfg).find? fun s => s.scheduleId = id with
  | none =>
    left
    obtain ⟨hsame, hkept⟩ := evaluated_same env now cfg s
    refine ⟨evaluated env now cfg s, ?_, ⟨hsec, hsame.trans htrigger⟩, hkept.trans hlast⟩
    simp only [skipMissedTicks, hafter, hf, Option.elim_none, get?_evaluateAll, hget, Option.map_some]
  | some s' =>
    right
    obtain ⟨s₀, hs₀, hs', hisDue⟩ := mem_collectDue (List.mem_of_find?_eq_some hf)
    have hid : s'.scheduleId = id := Table.own_of_find? Schedule.scheduleId hf
    rw [← hid, hs', evaluated_id, Table.get?_key hs₀] at hget
    cases hget
    obtain ⟨hsame, hkept⟩ := evaluated_same env now cfg s
    rw [← hs'] at hsame hkept
    have hdue := interval_due (hsame.trans htrigger) hisDue (hkept.trans hlast)
    have hwhole : 1 ≤ ⌊(now.ts - c) / sec⌋ := by
      rw [Int.le_floor, le_div_iff₀ hpositive]
      push_cast
      linarith
    have hskip : s'.startupSkipCursorTs now.ts = c + ⌊(now.ts - c) / sec⌋ * sec := by
      have hlate : ¬ now.ts - c ≤ 0 := by linarith
      simp only [Schedule.startupSkipCursorTs, hsame.trans htrigger, hkept.trans hlast, if_neg hlate]
      exact if_pos (by exact_mod_cast hwhole)
    have hboundary : c + ⌊(now.ts - c) / sec⌋ * sec ≤ now.ts := by
      have hfloor := (le_div_iff₀ hpositive).mp (Int.floor_le ((now.ts - c) / sec))
      linarith
    refine ⟨⌊(now.ts - c) / sec⌋, hwhole, hboundary, ?_⟩
    refine ⟨s'.updateCursor (s'.startupSkipCursorTs now.ts) "skipped_startup", ?_,
      ⟨hsec, hsame.trans htrigger⟩, by rw [← hskip]; rfl⟩
    simp only [skipMissedTicks, hafter, hf, Option.elim_some]

/-- A manual run leaves the cursor, or moves it as an execution at its own time does. -/
theorem cursorAt_runNow (env : Env) (h : r.CursorAt id sec c) (id' : String) (now : Clock) (x : Execution) :
    (r.runNow env id' now x).CursorAt id sec
      (if id' = id ∧ x.delegated = false ∧ x.saves = true ∧
          isProcessed r.runs (computeIdempotencyKey env id now.ts) = false then
        if c + sec ≤ now.ts then c + sec else now.ts
      else c) := by
  unfold Runner.runNow
  by_cases hid : id' = id
  · subst hid
    obtain ⟨s, hget, htrigger, hlast⟩ := h
    have hcursor : ({ r with now := now } : Runner).CursorAt id' sec c := ⟨s, hget, htrigger, hlast⟩
    simp only [hget, true_and]
    split
    · rename_i hdelegated
      simpa [hdelegated] using (show r.CursorAt id' sec c from hcursor)
    split
    · rename_i hprocessed
      simpa [hprocessed] using (show r.CursorAt id' sec c from hcursor)
    rename_i hdelegated hprocessed
    have hmoved := CursorAt.perform env hcursor hget x
    simpa [hdelegated, hprocessed] using hmoved
  · rw [if_neg fun hall => hid hall.1]
    split
    · exact h
    rename_i s hs
    have hkey : s.scheduleId = id' := Table.key_of_get? hs
    split
    · exact h
    split
    · exact h
    exact CursorAt.perform_other (r := { r with now := now }) (h.congr rfl) (hkey ▸ hid) x

/-- No operation leaves due schedules behind. -/
theorem apply_idle (hidle : r.due = []) (op : Operation) : (r.apply env op).due = [] := by
  cases op with
  | tick => rfl
  | skipMissedTicks => exact hidle
  | runNow id now x =>
    change (r.runNow env id now x).due = []
    unfold Runner.runNow
    split
    · exact hidle
    split
    · exact hidle
    split
    · exact hidle
    rename_i s _ _ _
    have hsub := (perform_cases env { r with now := now } s x).2.1
    exact List.sublist_nil.mp (hidle ▸ hsub)

/-! ## Runs -/

variable {first : ℚ}

/-- Between operations: nothing is due, and the cursor is on the grid and not ahead of the clock. -/
structure OnGrid (id : String) (sec : ℕ) (first : ℚ) (r : Runner) (ops : List Operation) : Prop where
  idle : r.due = []
  cursor : ∃ c start, r.CursorAt id sec c ∧ (∃ k : ℤ, c = first + k * sec) ∧ c ≤ start ∧
    OpClock start ops

theorem sec_positive (h : r.CursorAt id sec c) : (0 : ℚ) < sec := by
  obtain ⟨_, _, ⟨hsec, _⟩, _⟩ := h
  exact_mod_cast (by omega : 0 < sec)

/-- A moment between two neighbours on the grid is not on it. -/
theorem not_on_grid {now : ℚ} (hsec : (0 : ℚ) < sec) (hgrid : ∃ k : ℤ, c = first + k * sec)
    (hafter : c < now) (hbefore : now < c + sec) : ¬ ∃ k : ℤ, now = first + k * sec := by
  obtain ⟨k, hk⟩ := hgrid
  rintro ⟨m, hm⟩
  have hlow : (k : ℚ) < m := by
    have hproduct : (k : ℚ) * sec < m * sec := by linarith
    exact lt_of_mul_lt_mul_right hproduct hsec.le
  have hhigh : (m : ℚ) < k + 1 := by
    have hproduct : (m : ℚ) * sec < (k + 1) * sec := by linarith
    exact lt_of_mul_lt_mul_right hproduct hsec.le
  have hlow' : k < m := by exact_mod_cast hlow
  have hhigh' : m < k + 1 := by exact_mod_cast hhigh
  omega

theorem gridStep_iff {op : Operation} {ops : List Operation}
    (h : OnGrid id sec first r (op :: ops)) : GridStep env id sec first r op ↔ OnTime env id r op := by
  obtain ⟨hidle, c, start, hcursor, hgrid, hstart, hclock⟩ := h
  have hnow : c ≤ op.now.ts := hstart.trans ((List.pairwise_cons.mp hclock).1 _ (by simp))
  have hsec := sec_positive hcursor
  have hnext : ∃ k : ℤ, c + sec = first + k * sec := by
    obtain ⟨k, rfl⟩ := hgrid
    exact ⟨k + 1, by push_cast; ring⟩
  cases op with
  | tick now cfg executions =>
    have hdue : ∀ now' cfg' executions', Operation.tick now cfg executions =
        .tick now' cfg' executions' → id ∈ (r.tick env now' cfg').due → c + sec ≤ now'.ts := by
      rintro now' cfg' executions' heq hid
      cases heq
      exact ((inTick_start env hcursor hidle now cfg).waiting hid).2.2
    refine iff_of_true ?_ trivial
    rcases cursorAt_tick env hcursor hidle now cfg executions with hsame | ⟨hle, hmoved⟩
    · exact ⟨c, c, hcursor, hsame, le_refl c, hgrid, hnow, hdue⟩
    · exact ⟨c, c + sec, hcursor, hmoved, by linarith, hnext, hle, hdue⟩
  | skipMissedTicks now cfg =>
    have hdue : ∀ now' cfg' executions', Operation.skipMissedTicks now cfg =
        .tick now' cfg' executions' → id ∈ (r.tick env now' cfg').due → c + sec ≤ now'.ts :=
      fun _ _ _ heq => by cases heq
    refine iff_of_true ?_ trivial
    rcases cursorAt_skip env hcursor now cfg with hsame | ⟨k, hk, hle, hmoved⟩
    · exact ⟨c, c, hcursor, hsame, le_refl c, hgrid, hnow, hdue⟩
    · refine ⟨c, _, hcursor, hmoved, ?_, ?_, hle, hdue⟩
      · have hk' : (0 : ℚ) < k := by exact_mod_cast hk
        have hgain := mul_pos hk' hsec
        linarith
      · obtain ⟨m, rfl⟩ := hgrid
        exact ⟨m + k, by push_cast; ring⟩
  | runNow id' now x =>
    have hdue : ∀ now' cfg' executions', Operation.runNow id' now x =
        .tick now' cfg' executions' → id ∈ (r.tick env now' cfg').due → c + sec ≤ now'.ts :=
      fun _ _ _ heq => by cases heq
    have hafter := cursorAt_runNow env hcursor id' now x
    by_cases hreach : id' = id ∧ x.delegated = false ∧ x.saves = true ∧
        isProcessed r.runs (computeIdempotencyKey env id now.ts) = false
    · rw [if_pos hreach] at hafter
      have hcondition : OnTime env id r (.runNow id' now x) ↔ c + sec ≤ now.ts ∨ now.ts = c := by
        constructor
        · intro hontime
          exact hontime hreach.1 hreach.2.1 hreach.2.2.1 hreach.2.2.2 sec c hcursor
        · rintro hpunctual _ _ _ _ sec' c' hcursor'
          obtain ⟨rfl, rfl⟩ := hcursor.unique hcursor'
          exact hpunctual
      rw [hcondition]
      by_cases hpassed : c + sec ≤ now.ts
      · rw [if_pos hpassed] at hafter
        exact iff_of_true ⟨c, c + sec, hcursor, hafter, by linarith, hnext, hpassed, hdue⟩
          (.inl hpassed)
      · rw [if_neg hpassed] at hafter
        constructor
        · rintro ⟨c₁, c₂, _, hmoved, _, hkept, _, _⟩
          rw [(hafter.unique hmoved).2] at hkept
          right
          by_contra hne
          exact not_on_grid hsec hgrid (lt_of_le_of_ne hnow (Ne.symm hne)) (not_le.mp hpassed) hkept
        · rintro (hpassed' | heq)
          · exact absurd hpassed' hpassed
          · rw [heq] at hafter
            exact ⟨c, c, hcursor, hafter, le_refl c, hgrid, hnow, hdue⟩
    · rw [if_neg hreach] at hafter
      refine iff_of_true ⟨c, c, hcursor, hafter, le_refl c, hgrid, hnow, hdue⟩ ?_
      intro hid hdelegated hsaves hprocessed
      exact absurd ⟨hid, hdelegated, hsaves, hprocessed⟩ hreach

theorem onGrid_next {op : Operation} {ops : List Operation}
    (h : OnGrid id sec first r (op :: ops)) (hstep : GridStep env id sec first r op) :
    OnGrid id sec first (r.apply env op) ops := by
  obtain ⟨_, c', _, hcursor, _, hgrid, hnow, _⟩ := hstep
  obtain ⟨hidle, c, start, _, _, _, hclock⟩ := h
  exact ⟨apply_idle hidle op, c', op.now.ts, hcursor, hgrid, hnow, (List.pairwise_cons.mp hclock).2⟩

end Operations

/-- The cursor keeps to its grid in exactly the runs whose manual runs are all on time. -/
theorem interval_grid_iff {env : Env} {r : Runner} {id : String} {sec : ℕ} {first start : ℚ}
    {ops : List Operation} (hidle : r.due = []) (hcursor : r.CursorAt id sec first)
    (hstart : first ≤ start) (hclock : OpClock start ops) :
    EachStep (Runner.apply env) (GridStep env id sec first) r ops ↔
      EachStep (Runner.apply env) (OnTime env id) r ops :=
  EachStep.congr (fun _ _ _ => gridStep_iff) (fun _ _ _ => onGrid_next)
    ⟨hidle, first, start, hcursor, ⟨0, by simp⟩, hstart, hclock⟩

theorem hourly_cursor : (start hourly [] (afterTwo 0)).CursorAt "poll" 3600 3600 :=
  ⟨_, rfl, ⟨by omega, rfl⟩, rfl⟩

/-- A manual run that is queued. -/
def queued : Execution := { traceId := "4bf92f3577b3", wall := 7206, result := .queued (some "p1") }

theorem interval_grid_hourly :
    EachStep (Runner.apply hourlyEnv) (GridStep hourlyEnv "poll" 3600 3600)
      (start hourly [] (afterTwo 0)) [.runNow "poll" (afterTwo 5) queued] := by
  refine (@interval_grid_iff _ _ _ _ _ 3600 _ rfl hourly_cursor (le_refl _) ?_).mpr ⟨?_, trivial⟩
  · norm_num [OpClock, Operation.now, afterTwo]
  · intro _ _ _ _ sec c hcursor
    obtain ⟨rfl, rfl⟩ := hourly_cursor.unique hcursor
    left
    norm_num [afterTwo]

def halfPastOne : Clock where
  ts := 5400
  positive := by norm_num
  minute := 30
  hour := 1
  day := 1
  month := 1
  weekday := 3

/-- A manual run half an hour after the hourly tick moves the schedule to the half hours. -/
theorem manual_run_off_grid :
    OpClock 3600 [.runNow "poll" halfPastOne queued] ∧
      ¬ EachStep (Runner.apply hourlyEnv) (GridStep hourlyEnv "poll" 3600 3600)
        (start hourly [] (afterTwo 0)) [.runNow "poll" halfPastOne queued] := by
  refine ⟨by norm_num [OpClock, Operation.now, halfPastOne], fun h => ?_⟩
  obtain ⟨⟨c, c', _, hmoved, _, ⟨k, hk⟩, _⟩, _⟩ := h
  have hafter : ((start hourly [] (afterTwo 0)).apply hourlyEnv
      (.runNow "poll" halfPastOne queued)).CursorAt "poll" 3600 5400 :=
    ⟨_, rfl, ⟨by omega, rfl⟩, by decide +kernel⟩
  rw [(hafter.unique hmoved).2] at hk
  have hk' : (5400 : ℤ) = 3600 + k * 3600 := by exact_mod_cast hk
  omega

end OpenClaw.Scheduler
