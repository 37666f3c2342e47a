import Mathlib.Data.Rat.Defs
import Mathlib.Algebra.Order.Ring.Rat
import OpenClaw.Foundation.Table

/-!
# The scheduler runner

`SchedulerRunner` of `services/scheduler/runner.py` with the schedules and the run history it
writes. Both are saved at every change, so a restart loses the running tick and nothing else.
A tick is split into its collection of due schedules and one event for each execution; an
execution may be cut short by a crash.
-/

namespace OpenClaw.Scheduler

open Foundation
set_option autoImplicit false

/-- A validated trigger. -/
inductive Trigger where
  | cron (expr : List Char)
  | interval (sec : ℕ) (minimum : 60 ≤ sec)
  deriving DecidableEq

structure Schedule where
  scheduleId : String
  trigger : Trigger
  enabled : Bool := true
  lastTickTs : Option ℚ := none
  lastRunId : Option String := none
  computeErrorCount : ℕ := 0
  lastComputeError : Option String := none
  deriving DecidableEq

/-- One reading of the UTC clock, as a timestamp and as the fields of a `datetime`. -/
structure Clock where
  ts : ℚ
  positive : 0 < ts
  minute : ℕ
  hour : ℕ
  day : ℕ
  month : ℕ
  weekday : ℕ

/-- `croniter(expr, base).get_next()`: the next matching time strictly after the base, or the
text of the exception it raises. -/
structure Croniter where
  getNext : List Char → ℚ → Except String ℚ
  later : ∀ expr base next, getNext expr base = .ok next → base < next

structure Env where
  sha256 : String → String
  croniter : Option Croniter

/-- The timestamp floored to its minute. -/
def minuteOf (ts : ℚ) : ℤ := (ts / 60).floor * 60

def computeIdempotencyKey (env : Env) (scheduleId : String) (tickTs : ℚ) : String :=
  let raw := scheduleId ++ ":" ++ toString (minuteOf tickTs)
  "sched_" ++ String.ofList ((env.sha256 raw).toList.take 16)

/-! ## When a schedule is due -/

/-- `int(text)` on the characters a cron field may have. -/
def pyInt (cs : List Char) : Except String ℤ :=
  let digits := match cs with
    | '-' :: ds => ds
    | ds => ds
  if digits ≠ [] ∧ digits.all Char.isDigit then
    let n : ℤ := Nat.ofDigitChars 10 digits 0
    .ok (if cs.head? = some '-' then -n else n)
  else
    .error ("invalid literal for int() with base 10: '" ++ String.ofList cs ++ "'")

def isDigits (cs : List Char) : Bool := cs ≠ [] ∧ cs.all Char.isDigit

/-- `matches` of `_basic_cron_match`. -/
def cronFieldMatches (field : List Char) (value : ℕ) : Except String Bool :=
  if field = ['*'] then .ok true
  else if isDigits field then .ok (decide (Nat.ofDigitChars 10 field 0 = value))
  else if ',' ∈ field then
    .ok (decide (∃ x ∈ field.splitOn ',', isDigits x = true ∧ Nat.ofDigitChars 10 x 0 = value))
  else if '/' ∈ field then
    match pyInt ((field.splitOn '/').getD 1 []) with
    | .error e => .error e
    | .ok 0 => .error "integer modulo by zero"
    | .ok step => .ok (decide ((value : ℤ) % step = 0))
  else .ok true

/-- `and` over checks that may raise; the first false one stops it. -/
def allChecks : List (Except String Bool) → Except String Bool
  | [] => .ok true
  | .error e :: _ => .error e
  | .ok false :: _ => .ok false
  | .ok true :: checks => allChecks checks

def basicCronMatch (expr : List Char) (now : Clock) : Except String Bool :=
  match (expr.splitOnP Char.isWhitespace).filter (· ≠ []) with
  | [minute, hour, day, month, weekday] =>
    allChecks [cronFieldMatches minute now.minute, cronFieldMatches hour now.hour,
      cronFieldMatches day now.day, cronFieldMatches month now.month,
      cronFieldMatches weekday now.weekday]
  | _ => .ok false

/-- The base that `croniter` counts from. Without a cursor it is the minute before this one,
which does not exist as a `datetime` in the first minute of an hour. -/
def cronBase (lastTickTs : Option ℚ) (now : Clock) : Except String ℚ :=
  let first : Except String ℚ :=
    if now.minute = 0 then .error "minute must be in 0..59" else .ok (minuteOf now.ts - 60)
  match lastTickTs with
  | some ts => if ts ≠ 0 then .ok ts else first
  | none => first

def cronNext (c : Croniter) (expr : List Char) (lastTickTs : Option ℚ) (now : Clock) :
    Except String ℚ :=
  match cronBase lastTickTs now with
  | .error e => .error e
  | .ok base => c.getNext expr base

def isCronDue (env : Env) (expr : List Char) (lastTickTs : Option ℚ) (now : Clock) :
    Except String Bool :=
  match env.croniter with
  | none => basicCronMatch expr now
  | some c =>
    match cronNext c expr lastTickTs now with
    | .error e => .error e
    | .ok next => .ok (decide (next ≤ now.ts))

def isIntervalDue (sec : ℕ) (lastTickTs : Option ℚ) (nowTs : ℚ) : Bool :=
  match lastTickTs with
  | none => true
  | some ts => decide (nowTs - ts ≥ sec)

namespace Schedule

def isDue (env : Env) (s : Schedule) (now : Clock) : Except String Bool :=
  match s.trigger with
  | .cron expr => isCronDue env expr s.lastTickTs now
  | .interval sec _ => .ok (isIntervalDue sec s.lastTickTs now.ts)

def recordComputeError (s : Schedule) (message : String) (disableThreshold : ℕ) : Schedule :=
  let count := s.computeErrorCount + 1
  { s with
    computeErrorCount := count
    lastComputeError := some (String.ofList (message.toList.take 200))
    enabled := if count ≥ max 1 disableThreshold then false else s.enabled }

/-- `_evaluate_schedule_due`, for an enabled schedule. -/
def evaluateDue (env : Env) (s : Schedule) (now : Clock) (disableThreshold : ℕ) :
    Schedule × Bool :=
  match s.isDue env now with
  | .ok due => ({ s with computeErrorCount := 0, lastComputeError := none }, due)
  | .error message => (s.recordComputeError message disableThreshold, false)

/-- `_compute_cursor_tick_ts`: intervals advance by one step, everything else to now. -/
def cursorTickTs (s : Schedule) (tickTs : ℚ) : ℚ :=
  match s.trigger, s.lastTickTs with
  | .interval sec _, some last => if last + sec ≤ tickTs then last + sec else tickTs
  | _, _ => tickTs

/-- `_compute_startup_skip_cursor_ts`: the latest interval boundary, or now. -/
def startupSkipCursorTs (s : Schedule) (nowTs : ℚ) : ℚ :=
  match s.trigger, s.lastTickTs with
  | .interval sec _, some last =>
    let elapsed := nowTs - last
    let intervals := (elapsed / sec).floor
    if elapsed ≤ 0 then nowTs
    else if 0 < intervals then last + intervals * sec
    else nowTs
  | _, _ => nowTs

def updateCursor (s : Schedule) (tickTs : ℚ) (runId : String) : Schedule :=
  { s with lastTickTs := some tickTs, lastRunId := some runId }

end Schedule

/-! ## The run history -/

inductive RunStatus where
  | completed | skipped | error
  deriving DecidableEq

structure RunRecord where
  runId : String
  scheduleId : String
  traceId : String
  idempotencyKey : String
  status : RunStatus
  promptId : Option String := none
  errorSummary : Option String := none
  startedAt : ℚ
  deriving DecidableEq

@[irreducible] def maxRuns : ℕ := 10000
def retentionDays : ℕ := 30

def isProcessed (runs : List RunRecord) (key : String) : Bool :=
  runs.any fun r => r.idempotencyKey = key

/-- `_enforce_retention`: by age, then the newest `MAX_RUNS`. -/
def enforceRetention (runs : List RunRecord) (wall : ℚ) : List RunRecord :=
  let recent := runs.filter fun r => r.startedAt > wall - retentionDays * 86400
  recent.drop (recent.length - maxRuns)

def addRun (runs : List RunRecord) (run : RunRecord) (wall : ℚ) : List RunRecord :=
  if isProcessed runs run.idempotencyKey then runs else enforceRetention (runs ++ [run]) wall

/-! ## The runner -/

/-- What a due execution is for: the first run of an interval schedule, a tick of its grid, or a
matching minute. -/
inductive Occurrence where
  | first
  | tick (ts : ℚ)
  deriving DecidableEq

def Schedule.occurrence (env : Env) (s : Schedule) (now : Clock) : Occurrence :=
  match s.trigger with
  | .interval sec _ =>
    match s.lastTickTs with
    | none => .first
    | some last => .tick (last + sec)
  | .cron expr =>
    match env.croniter with
    | none => .tick (minuteOf now.ts)
    | some c =>
      match cronNext c expr s.lastTickTs now with
      | .ok next => .tick next
      | .error _ => .first

/-- One call of the submit function. `saved` tells whether the execution went on to save the
cursor. -/
structure Submission where
  scheduleId : String
  occurrence : Occurrence
  tickTs : ℚ
  key : String
  saved : Bool
  deriving DecidableEq

/-- The schedules and the history, the due schedules of the running tick, its time, and the calls
the submit function has seen. -/
structure Runner where
  schedules : Table Schedule.scheduleId
  runs : List RunRecord := []
  due : List String := []
  now : Clock
  submissions : List Submission := []

structure Config where
  maxRunsPerTick : ℕ := 5
  disableThreshold : ℕ := 3
  delegated : Bool := false

inductive SubmitResult where
  | queued (promptId : Option String)
  | deduped (promptId : Option String)
  | raised (error : String)
  | noSubmitFn

inductive CrashPoint where
  | beforeSubmit | afterSubmit | afterCursor | afterRun
  deriving DecidableEq

/-- What one execution meets: its trace id, the clock, the submit function, and a crash. -/
structure Execution where
  traceId : String
  wall : ℚ
  delegated : Bool := false
  result : SubmitResult
  crash : Option CrashPoint := none

namespace Runner

/-- The schedule after its due state was evaluated; errors are kept on it. -/
def evaluated (env : Env) (now : Clock) (cfg : Config) (s : Schedule) : Schedule :=
  if s.enabled then (s.evaluateDue env now cfg.disableThreshold).1 else s

theorem evaluated_id (env : Env) (now : Clock) (cfg : Config) (s : Schedule) :
    (evaluated env now cfg s).scheduleId = s.scheduleId := by
  unfold evaluated
  split
  · unfold Schedule.evaluateDue
    split <;> rfl
  · rfl

def evaluateAll (env : Env) (r : Runner) (now : Clock) (cfg : Config) :
    Table Schedule.scheduleId :=
  r.schedules.filterMap (fun s => some (evaluated env now cfg s)) fun s w h => by
    cases h
    exact evaluated_id env now cfg s

/-- `_collect_due_schedules`. -/
def collectDue (env : Env) (r : Runner) (now : Clock) (cfg : Config) : List Schedule :=
  (r.schedules.rows.filter fun s => s.enabled && decide (s.isDue env now = .ok true)).map
    (evaluated env now cfg)

/-- `_tick` up to its loop: the due schedules, the most starved first when there are too many. -/
def tick (env : Env) (r : Runner) (now : Clock) (cfg : Config) : Runner :=
  if cfg.delegated then r else
  let found := r.collectDue env now cfg
  let due :=
    if found.length > cfg.maxRunsPerTick then
      (sortedBy (fun s => s.lastTickTs.getD 0) found).take cfg.maxRunsPerTick
    else found
  { r with schedules := r.evaluateAll env now cfg, due := due.map Schedule.scheduleId, now }

/-- `_skip_missed_ticks`: every due schedule moves its cursor without running. -/
def skipMissedTicks (env : Env) (r : Runner) (now : Clock) (cfg : Config) : Runner :=
  let found := r.collectDue env now cfg
  let skipped (s : Schedule) : Schedule :=
    s.updateCursor (s.startupSkipCursorTs now.ts) "skipped_startup"
  { r with schedules := found.foldl (fun t s => t.put (skipped s)) (r.evaluateAll env now cfg) }

def restart (r : Runner) : Runner := { r with due := [] }

def runRecord (id key : String) (x : Execution) : RunRecord :=
  let base : RunRecord :=
    { runId := "run_" ++ String.ofList (x.traceId.toList.take 12), scheduleId := id,
      traceId := x.traceId, idempotencyKey := key, status := .completed, startedAt := x.wall }
  match x.result with
  | .queued promptId => { base with promptId }
  | .deduped _ => { base with status := .skipped, errorSummary := some "Already queued" }
  | .raised error =>
    { base with
      status := .error
      errorSummary := if error = "" then none else some (String.ofList (error.toList.take 200)) }
  | .noSubmitFn =>
    { base with status := .skipped, errorSummary := some "No submit function" }

def submission (env : Env) (r : Runner) (s : Schedule) (saved : Bool) : Submission :=
  { scheduleId := s.scheduleId, occurrence := s.occurrence env r.now, tickTs := r.now.ts,
    key := computeIdempotencyKey env s.scheduleId r.now.ts, saved }

/-- The submit function is called, if there is one. -/
def submit (env : Env) (r : Runner) (s : Schedule) (x : Execution) (saved : Bool) : Runner :=
  match x.result with
  | .noSubmitFn => r
  | _ => { r with submissions := r.submissions ++ [r.submission env s saved] }

def saveCursor (r : Runner) (s : Schedule) (run : RunRecord) : Runner :=
  { r with schedules := r.schedules.put (s.updateCursor (s.cursorTickTs r.now.ts) run.runId) }

def saveRun (r : Runner) (run : RunRecord) (x : Execution) : Runner :=
  { r with runs := addRun r.runs run x.wall }

/-- The submission and the two writes after it. A submission that raises is followed by the run
record first, any other by the cursor. -/
def perform (env : Env) (r : Runner) (s : Schedule) (x : Execution) : Runner :=
  let run := runRecord s.scheduleId (computeIdempotencyKey env s.scheduleId r.now.ts) x
  match x.crash, x.result with
  | some .beforeSubmit, _ => r.restart
  | some .afterSubmit, _ => (r.submit env s x false).restart
  | some .afterRun, .raised _ => ((r.submit env s x false).saveRun run x).restart
  | some .afterCursor, .raised _ =>
    (((r.submit env s x true).saveRun run x).saveCursor s run).restart
  | none, .raised _ => ((r.submit env s x true).saveRun run x).saveCursor s run
  | some .afterCursor, _ => ((r.submit env s x true).saveCursor s run).restart
  | some .afterRun, _ => (((r.submit env s x true).saveCursor s run).saveRun run x).restart
  | none, _ => ((r.submit env s x true).saveCursor s run).saveRun run x

/-- `_execute_schedule` for the first schedule that the tick has left. -/
def execute (env : Env) (r : Runner) (x : Execution) : Runner :=
  match r.due with
  | [] => r
  | id :: rest =>
    match r.schedules.get? id with
    | none => { r with due := rest }
    | some s =>
      -- the delegated mode raises out of the loop
      if x.delegated then r.restart
      else if isProcessed r.runs (computeIdempotencyKey env id r.now.ts) then { r with due := rest }
      else { r with due := rest }.perform env s x

end Runner

inductive Event where
  | tick (now : Clock) (cfg : Config)
  | execute (x : Execution)
  | skipMissedTicks (now : Clock) (cfg : Config)
  | restart

/-- One event. The loop is one thread: a tick or a startup skip waits until the tick before it has
executed all its schedules. -/
def Runner.step (env : Env) (r : Runner) : Event → Runner
  | .tick now cfg => if r.due = [] then r.tick env now cfg else r
  | .execute x => r.execute env x
  | .skipMissedTicks now cfg => if r.due = [] then r.skipMissedTicks env now cfg else r
  | .restart => r.restart

end OpenClaw.Scheduler
