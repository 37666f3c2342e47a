import Mathlib.Tactic.Linarith
import OpenClaw.Foundation.Run
import OpenClaw.Scheduler.Runner

/-!
# Submissions of one due occurrence

An execution that saves its cursor settles its occurrence: the schedule moves past it and never
becomes due for it again. An execution that loses its cursor to a crash does not, and the
occurrence is submitted again under the key of whatever minute comes next.
-/

namespace OpenClaw.Scheduler

open Foundation Runner
set_option autoImplicit false

variable {env : Env}

theorem key_of_minute {id : String} {t t' : ℚ} (h : minuteOf t = minuteOf t') :
    computeIdempotencyKey env id t = computeIdempotencyKey env id t' := by
  simp only [computeIdempotencyKey, h]

/-! ## Cursors move past their occurrences -/

/-- The schedule has moved past the occurrence of a submission. Without `croniter` a matching
minute is recognised by the clock alone. -/
def Settled (env : Env) (s : Schedule) (x : Submission) : Prop :=
  match s.trigger, env.croniter with
  | .interval _ _, _ =>
    match x.occurrence with
    | .first => s.lastTickTs ≠ none
    | .tick t => ∃ c, s.lastTickTs = some c ∧ t ≤ c
  | .cron _, some _ => ∃ t c, x.occurrence = .tick t ∧ s.lastTickTs = some c ∧ 0 < c ∧ t ≤ c
  | .cron _, none => x.occurrence = .tick (minuteOf x.tickTs)

/-- The cursor of `s'` is not behind that of `s`. -/
def Forward (env : Env) (s s' : Schedule) : Prop :=
  s'.trigger = s.trigger ∧ ((∃ expr, s.trigger = .cron expr ∧ env.croniter = none) ∨
    ∀ c, s.lastTickTs = some c → ∃ c', s'.lastTickTs = some c' ∧ c ≤ c')

theorem settled_forward {s s' : Schedule} {x : Submission} (h : Settled env s x)
    (hf : Forward env s s') : Settled env s' x := by
  obtain ⟨htr, hcur⟩ := hf
  unfold Settled at h ⊢
  rw [htr]
  cases htrig : s.trigger with
  | interval sec hsec =>
    have hmove : ∀ c, s.lastTickTs = some c → ∃ c', s'.lastTickTs = some c' ∧ c ≤ c' := by
      rcases hcur with ⟨expr, he, _⟩ | hmove
      · rw [htrig] at he
        cases he
      · exact hmove
    simp only [htrig] at h ⊢
    cases hocc : x.occurrence with
    | first =>
      simp only [hocc] at h ⊢
      obtain ⟨c, hc⟩ := Option.ne_none_iff_exists'.mp h
      obtain ⟨c', hc', _⟩ := hmove c hc
      rw [hc']
      exact Option.some_ne_none c'
    | tick t =>
      simp only [hocc] at h ⊢
      obtain ⟨c, hc, htc⟩ := h
      obtain ⟨c', hc', hle⟩ := hmove c hc
      exact ⟨c', hc', htc.trans hle⟩
  | cron expr =>
    cases hcr : env.croniter with
    | none =>
      simp only [htrig, hcr] at h ⊢
      exact h
    | some cr =>
      simp only [htrig, hcr] at h ⊢
      obtain ⟨t, c, hocc, hc, hpos, htc⟩ := h
      rcases hcur with ⟨_, _, hnone⟩ | hmove
      · rw [hcr] at hnone
        cases hnone
      · obtain ⟨c', hc', hle⟩ := hmove c hc
        exact ⟨t, c', hocc, hc', hpos.trans_le hle, htc.trans hle⟩

/-! ## What being due means -/

theorem interval_due {s : Schedule} {now : Clock} {sec : ℕ} {hsec : 60 ≤ sec}
    (htr : s.trigger = .interval sec hsec) (hdue : s.isDue env now = .ok true) {last : ℚ}
    (hl : s.lastTickTs = some last) : last + sec ≤ now.ts := by
  simp only [Schedule.isDue, htr, isIntervalDue, hl, Except.ok.injEq, decide_eq_true_eq] at hdue
  linarith

theorem cron_due {s : Schedule} {now : Clock} {expr : List Char} {cr : Croniter}
    (htr : s.trigger = .cron expr) (hcr : env.croniter = some cr)
    (hdue : s.isDue env now = .ok true) :
    ∃ next, cronNext cr expr s.lastTickTs now = .ok next ∧ next ≤ now.ts := by
  simp only [Schedule.isDue, htr, isCronDue, hcr] at hdue
  split at hdue
  · cases hdue
  · rename_i next hnext
    exact ⟨next, hnext, by simpa using hdue⟩

/-- A cursor that `croniter` starts from lies before the next matching time. -/
theorem cron_after {cr : Croniter} {expr : List Char} {now : Clock} {c next : ℚ} (hc : c ≠ 0)
    (h : cronNext cr expr (some c) now = .ok next) : c < next := by
  simp only [cronNext, cronBase, if_pos hc] at h
  exact cr.later expr c next h

/-- Both ways to move the cursor of a due schedule move it forward. -/
theorem forward_of_due {s : Schedule} {now : Clock} (hdue : s.isDue env now = .ok true) {ts : ℚ}
    (hts : ts = s.cursorTickTs now.ts ∨ ts = s.startupSkipCursorTs now.ts) (runId : String) :
    Forward env s (s.updateCursor ts runId) := by
  refine ⟨rfl, ?_⟩
  cases htr : s.trigger with
  | interval sec hsec =>
    right
    intro last hl
    have hd := interval_due htr hdue hl
    have hsec' : (0 : ℚ) < sec := by exact_mod_cast (by omega : 0 < sec)
    refine ⟨ts, rfl, ?_⟩
    rcases hts with rfl | rfl
    · simp only [Schedule.cursorTickTs, htr, hl, if_pos hd]
      linarith
    · simp only [Schedule.startupSkipCursorTs, htr, hl]
      split
      · linarith
      split
      · rename_i hpos
        have hpos' : (0 : ℚ) < ((now.ts - last) / sec).floor := by exact_mod_cast hpos
        have := mul_pos hpos' hsec'
        linarith
      · linarith
  | cron expr =>
    cases hcr : env.croniter with
    | none => exact Or.inl ⟨expr, rfl, rfl⟩
    | some cr =>
      right
      intro c hc
      have hnow : ts = now.ts := by
        rcases hts with rfl | rfl
        · simp only [Schedule.cursorTickTs, htr]
        · simp only [Schedule.startupSkipCursorTs, htr]
      refine ⟨ts, rfl, ?_⟩
      obtain ⟨next, hnext, hle⟩ := cron_due htr hcr hdue
      by_cases hz : c = 0
      · rw [hz, hnow]
        exact now.positive.le
      · rw [hc] at hnext
        have := cron_after hz hnext
        linarith

/-- Saving the cursor of a due schedule settles the occurrence it was due for. -/
theorem settled_of_due {s : Schedule} {now : Clock} (hdue : s.isDue env now = .ok true)
    (runId key : String) : Settled env (s.updateCursor (s.cursorTickTs now.ts) runId)
      ⟨s.scheduleId, s.occurrence env now, now.ts, key, true⟩ := by
  unfold Settled
  simp only [Schedule.updateCursor]
  cases htr : s.trigger with
  | interval sec hsec =>
    cases hl : s.lastTickTs with
    | none =>
      simp [Schedule.occurrence, htr, hl]
    | some last =>
      have hd := interval_due htr hdue hl
      simp [Schedule.occurrence, Schedule.cursorTickTs, htr, hl, hd]
  | cron expr =>
    cases hcr : env.croniter with
    | none => simp [Schedule.occurrence, htr, hcr]
    | some cr =>
      obtain ⟨next, hnext, hle⟩ := cron_due htr hcr hdue
      simp only [Schedule.occurrence, Schedule.cursorTickTs, htr, hcr, hnext]
      exact ⟨next, now.ts, rfl, rfl, now.positive, hle⟩

/-- A settled occurrence comes back, if at all, within the minute of its submission. -/
theorem settled_again {s : Schedule} {x : Submission} {now : Clock} (h : Settled env s x)
    (hdue : s.isDue env now = .ok true) (hocc : x.occurrence = s.occurrence env now) :
    minuteOf x.tickTs = minuteOf now.ts := by
  unfold Settled at h
  cases htr : s.trigger with
  | interval sec hsec =>
    have hsec' : (0 : ℚ) < sec := by exact_mod_cast (by omega : 0 < sec)
    cases hl : s.lastTickTs with
    | none =>
      simp only [Schedule.occurrence, htr, hl] at hocc
      simp [htr, hocc, hl] at h
    | some last =>
      simp only [Schedule.occurrence, htr, hl] at hocc
      simp only [htr, hocc, hl, Option.some.injEq] at h
      obtain ⟨c, rfl, hle⟩ := h
      linarith
  | cron expr =>
    cases hcr : env.croniter with
    | none =>
      simp only [htr, hcr] at h
      simp only [Schedule.occurrence, htr, hcr] at hocc
      rw [h] at hocc
      have := Occurrence.tick.inj hocc
      exact_mod_cast this
    | some cr =>
      simp only [htr, hcr] at h
      obtain ⟨t, c, hx, hc, hpos, hle⟩ := h
      obtain ⟨next, hnext, _⟩ := cron_due htr hcr hdue
      simp only [Schedule.occurrence, htr, hcr, hnext] at hocc
      rw [hx] at hocc
      cases hocc
      rw [hc] at hnext
      have := cron_after (ne_of_gt hpos) hnext
      linarith

/-! ## One event -/

/-- The schedule whose submit function the execution calls. -/
def Runner.submits (env : Env) (r : Runner) (x : Execution) : Option Schedule :=
  match r.due, x.result, x.crash with
  | [], _, _ => none
  | _, .noSubmitFn, _ => none
  | _, _, some .beforeSubmit => none
  | id :: _, _, _ =>
    if x.delegated || isProcessed r.runs (computeIdempotencyKey env id r.now.ts) then none
    else r.schedules.get? id

/-- An execution whose occurrence was submitted before, and whose cursor was then lost to a crash,
comes in the minute of that submission. -/
def SameMinuteRetry (env : Env) (r : Runner) : Event → Prop
  | .execute x => ∀ s ∈ r.submits env x, ∀ y ∈ r.submissions, y.scheduleId = s.scheduleId →
      y.saved = false → y.occurrence = s.occurrence env r.now →
        minuteOf y.tickTs = minuteOf r.now.ts
  | _ => True

/-- What the runner keeps: due schedules are distinct and due, submissions that saved their cursor
are settled, and an occurrence is submitted in one minute only. -/
structure Inv (env : Env) (r : Runner) : Prop where
  nodup : r.due.Nodup
  due : ∀ id ∈ r.due, ∃ s, r.schedules.get? id = some s ∧ s.isDue env r.now = .ok true
  settled : ∀ x ∈ r.submissions, x.saved = true →
    ∀ s, r.schedules.get? x.scheduleId = some s → Settled env s x
  minute : ∀ x ∈ r.submissions, ∀ y ∈ r.submissions, x.scheduleId = y.scheduleId →
    x.occurrence = y.occurrence → minuteOf x.tickTs = minuteOf y.tickTs
  keys : ∀ x ∈ r.submissions, x.key = computeIdempotencyKey env x.scheduleId x.tickTs

section Steps
variable {r : Runner}

/-- Schedules may only move forward while no submission is added. -/
theorem Inv.move (h : Inv env r) {r' : Runner} (hnodup : r'.due.Nodup)
    (hdue : ∀ id ∈ r'.due, ∃ s, r'.schedules.get? id = some s ∧ s.isDue env r'.now = .ok true)
    (hsub : r'.submissions = r.submissions)
    (hfwd : ∀ id s', r'.schedules.get? id = some s' →
      ∃ s, r.schedules.get? id = some s ∧ Forward env s s') : Inv env r' := by
  refine ⟨hnodup, hdue, ?_, ?_, ?_⟩
  · intro x hx hs s' hs'
    rw [hsub] at hx
    obtain ⟨s, hget, hf⟩ := hfwd _ s' hs'
    exact settled_forward (h.settled x hx hs s hget) hf
  · rw [hsub]
    exact h.minute
  · rw [hsub]
    exact h.keys

theorem Forward.refl (env : Env) (s : Schedule) : Forward env s s :=
  ⟨rfl, Or.inr fun c hc => ⟨c, hc, le_rfl⟩⟩

theorem inv_restart (h : Inv env r) : Inv env r.restart := by
  refine h.move List.nodup_nil ?_ rfl fun id s hs => ⟨s, hs, Forward.refl env s⟩
  intro id hid
  cases hid

theorem evaluated_same (env : Env) (now : Clock) (cfg : Config) (s : Schedule) :
    (evaluated env now cfg s).trigger = s.trigger ∧
      (evaluated env now cfg s).lastTickTs = s.lastTickTs := by
  unfold evaluated
  split
  · unfold Schedule.evaluateDue
    split <;> exact ⟨rfl, rfl⟩
  · exact ⟨rfl, rfl⟩

theorem isDue_evaluated (now : Clock) (cfg : Config) (s : Schedule) :
    (evaluated env now cfg s).isDue env now = s.isDue env now := by
  obtain ⟨htr, hl⟩ := evaluated_same env now cfg s
  simp only [Schedule.isDue, htr, hl]

theorem forward_evaluated (now : Clock) (cfg : Config) (s : Schedule) :
    Forward env s (evaluated env now cfg s) := by
  obtain ⟨htr, hl⟩ := evaluated_same env now cfg s
  exact ⟨htr, Or.inr fun c hc => ⟨c, hl.trans hc, le_rfl⟩⟩

theorem get?_evaluateAll (now : Clock) (cfg : Config) (id : String) :
    (r.evaluateAll env now cfg).get? id =
      (r.schedules.get? id).map (evaluated env now cfg) := by
  rw [evaluateAll, Table.get?_filterMap]
  cases r.schedules.get? id <;> rfl

/-- A collected schedule is the evaluated form of a stored one, and due. -/
theorem mem_collectDue {now : Clock} {cfg : Config} {s : Schedule}
    (h : s ∈ r.collectDue env now cfg) :
    ∃ s₀ ∈ r.schedules.rows, s = evaluated env now cfg s₀ ∧ s.isDue env now = .ok true := by
  obtain ⟨s₀, hs₀, rfl⟩ := List.mem_map.mp h
  obtain ⟨hmem, hdue⟩ := List.mem_filter.mp hs₀
  refine ⟨s₀, hmem, rfl, ?_⟩
  rw [isDue_evaluated]
  simpa using (Bool.and_eq_true_iff.mp hdue).2

theorem collectDue_ids (now : Clock) (cfg : Config) :
    ((r.collectDue env now cfg).map Schedule.scheduleId).Nodup := by
  have hids : (r.collectDue env now cfg).map Schedule.scheduleId =
      (r.schedules.rows.filter fun s => s.enabled && decide (s.isDue env now = .ok true)).map
        Schedule.scheduleId := by
    rw [collectDue, List.map_map]
    exact List.map_congr_left fun s _ => evaluated_id env now cfg s
  rw [hids]
  exact (List.filter_sublist.map _).nodup r.schedules.nodup

theorem inv_tick (h : Inv env r) (now : Clock) (cfg : Config) : Inv env (r.tick env now cfg) := by
  unfold tick
  split
  · exact h
  have hperm : ∀ due : List Schedule, (∃ l, due.Sublist l ∧ l.Perm (r.collectDue env now cfg)) →
      Inv env { r with
        schedules := r.evaluateAll env now cfg, due := due.map Schedule.scheduleId, now } := by
    intro due ⟨l, hsub, hl⟩
    refine h.move ?_ ?_ rfl ?_
    · exact (hsub.map _).nodup ((hl.map _).nodup_iff.mpr (collectDue_ids now cfg))
    · intro id hid
      obtain ⟨s, hs, rfl⟩ := List.mem_map.mp hid
      obtain ⟨s₀, hs₀, rfl, hdue⟩ := mem_collectDue (hl.mem_iff.mp (hsub.subset hs))
      refine ⟨_, ?_, hdue⟩
      rw [get?_evaluateAll, evaluated_id, Table.get?_key hs₀, Option.map_some]
    · intro id s' hs'
      rw [get?_evaluateAll] at hs'
      obtain ⟨s, hs, rfl⟩ := Option.map_eq_some_iff.mp hs'
      exact ⟨s, hs, forward_evaluated now cfg s⟩
  simp only
  split
  · exact hperm _ ⟨_, List.take_sublist _ _, sortedBy_perm _ _⟩
  · exact hperm _ ⟨_, List.Sublist.refl _, List.Perm.refl _⟩

theorem Forward.trans {s s' s'' : Schedule} (h : Forward env s s') (h' : Forward env s' s'') :
    Forward env s s'' := by
  refine ⟨h'.1.trans h.1, ?_⟩
  rcases h.2 with hcr | hm
  · exact Or.inl hcr
  rcases h'.2 with ⟨expr, he, hn⟩ | hm'
  · exact Or.inl ⟨expr, h.1 ▸ he, hn⟩
  · right
    intro c hc
    obtain ⟨c', hc', hle⟩ := hm c hc
    obtain ⟨c'', hc'', hle'⟩ := hm' c' hc'
    exact ⟨c'', hc'', hle.trans hle'⟩

theorem inv_skip (h : Inv env r) (hdue : r.due = []) (now : Clock) (cfg : Config) :
    Inv env (r.skipMissedTicks env now cfg) := by
  refine h.move h.nodup ?_ rfl ?_
  · intro id hid
    have hid : id ∈ r.due := hid
    rw [hdue] at hid
    cases hid
  · intro id s' hs'
    have hput : ∀ (t : Table Schedule.scheduleId) (s : Schedule) (k : String),
        (t.put (s.updateCursor (s.startupSkipCursorTs now.ts) "skipped_startup")).get? k =
          if s.scheduleId = k then
            some (s.updateCursor (s.startupSkipCursorTs now.ts) "skipped_startup")
          else t.get? k := fun t s k => Table.get?_put t _ k
    simp only [skipMissedTicks,
      Table.get?_foldl Schedule.scheduleId hput (collectDue_ids now cfg)] at hs'
    cases hf : (r.collectDue env now cfg).find? fun s => s.scheduleId = id with
    | none =>
      rw [hf, Option.elim_none, get?_evaluateAll] at hs'
      obtain ⟨s, hs, rfl⟩ := Option.map_eq_some_iff.mp hs'
      exact ⟨s, hs, forward_evaluated now cfg s⟩
    | some s =>
      rw [hf, Option.elim_some] at hs'
      cases hs'
      obtain ⟨s₀, hs₀, hs, hd⟩ := mem_collectDue (List.mem_of_find?_eq_some hf)
      have hid : s.scheduleId = id := Table.own_of_find? Schedule.scheduleId hf
      refine ⟨s₀, ?_, ?_⟩
      · rw [← hid, hs, evaluated_id, Table.get?_key hs₀]
      · have hfs : Forward env s₀ s := hs ▸ forward_evaluated now cfg s₀
        exact hfs.trans (forward_of_due hd (Or.inr rfl) _)

/-- What an execution that reaches its submission leaves: the cursor is saved together with the
settled submission, or neither changes a schedule. -/
theorem perform_cases (env : Env) (r : Runner) (s : Schedule) (x : Execution) :
    (r.perform env s x).now = r.now ∧ (r.perform env s x).due.Sublist r.due ∧
      (((r.perform env s x).schedules = r.schedules ∧
        ((r.perform env s x).submissions = r.submissions ∨
          (x.result ≠ .noSubmitFn ∧ x.crash ≠ some .beforeSubmit ∧ (r.perform env s x).submissions =
            r.submissions ++ [r.submission env s false]))) ∨
      ((∃ runId, (r.perform env s x).schedules =
          r.schedules.put (s.updateCursor (s.cursorTickTs r.now.ts) runId)) ∧
        ((r.perform env s x).submissions = r.submissions ∨
          (x.result ≠ .noSubmitFn ∧ x.crash ≠ some .beforeSubmit ∧ (r.perform env s x).submissions =
            r.submissions ++ [r.submission env s true])))) := by
  obtain ⟨traceId, wall, delegated, result, crash⟩ := x
  have hnil : List.Sublist [] r.due := List.nil_sublist _
  have hall : r.due.Sublist r.due := List.Sublist.refl _
  rcases crash with _ | crash
  · cases result <;> exact ⟨rfl, hall, Or.inr ⟨⟨_, rfl⟩, by simp [perform, submit, saveCursor, saveRun]⟩⟩
  cases crash with
  | beforeSubmit => exact ⟨rfl, hnil, Or.inl ⟨rfl, Or.inl rfl⟩⟩
  | afterSubmit =>
    cases result <;> exact ⟨rfl, hnil, Or.inl ⟨rfl, by simp [perform, submit, restart]⟩⟩
  | afterCursor =>
    cases result <;> exact ⟨rfl, hnil, Or.inr ⟨⟨_, rfl⟩, by
      simp [perform, submit, saveCursor, saveRun, restart]⟩⟩
  | afterRun =>
    cases result with
    | raised e => exact ⟨rfl, hnil, Or.inl ⟨rfl, by simp [perform, submit, saveRun, restart]⟩⟩
    | _ => exact ⟨rfl, hnil, Or.inr ⟨⟨_, rfl⟩, by
        simp [perform, submit, saveCursor, saveRun, restart]⟩⟩

/-- The occurrence of a due schedule was submitted before, if at all, in this minute. -/
def Runner.fresh (env : Env) (r : Runner) (s : Schedule) : Prop :=
  ∀ y ∈ r.submissions, y.scheduleId = s.scheduleId → y.occurrence = s.occurrence env r.now →
    minuteOf y.tickTs = minuteOf r.now.ts

theorem Inv.fresh (h : Inv env r) {s : Schedule} (hs : r.schedules.get? s.scheduleId = some s)
    (hdue : s.isDue env r.now = .ok true)
    (hlost : ∀ y ∈ r.submissions, y.scheduleId = s.scheduleId → y.saved = false →
      y.occurrence = s.occurrence env r.now → minuteOf y.tickTs = minuteOf r.now.ts) :
    r.fresh env s := by
  intro y hy hid hocc
  cases hsaved : y.saved with
  | false => exact hlost y hy hid hsaved hocc
  | true => exact settled_again (h.settled y hy hsaved s (by rw [hid]; exact hs)) hdue hocc

/-- One more submission of a fresh occurrence, while the schedules move forward. -/
theorem Inv.add (h : Inv env r) {r' : Runner} {s : Schedule} {saved : Bool}
    (hfresh : r.fresh env s) (hnodup : r'.due.Nodup)
    (hdue : ∀ id ∈ r'.due, ∃ s, r'.schedules.get? id = some s ∧ s.isDue env r'.now = .ok true)
    (hsub : r'.submissions = r.submissions ++ [r.submission env s saved])
    (hfwd : ∀ id s', r'.schedules.get? id = some s' →
      ∃ s, r.schedules.get? id = some s ∧ Forward env s s')
    (hnew : saved = true → ∀ s', r'.schedules.get? s.scheduleId = some s' →
      Settled env s' (r.submission env s saved)) : Inv env r' := by
  have hmem : ∀ x ∈ r'.submissions, x ∈ r.submissions ∨ x = r.submission env s saved := by
    intro x hx
    rw [hsub] at hx
    simpa using hx
  refine ⟨hnodup, hdue, ?_, ?_, ?_⟩
  · intro x hx hs s' hs'
    rcases hmem x hx with hx | rfl
    · obtain ⟨s₀, hget, hf⟩ := hfwd _ s' hs'
      exact settled_forward (h.settled x hx hs s₀ hget) hf
    · exact hnew hs s' hs'
  · intro x hx y hy hid hocc
    rcases hmem x hx with hx | rfl <;> rcases hmem y hy with hy | rfl
    · exact h.minute x hx y hy hid hocc
    · exact hfresh x hx hid hocc
    · exact (hfresh y hy hid.symm hocc.symm).symm
    · rfl
  · intro x hx
    rcases hmem x hx with hx | rfl
    · exact h.keys x hx
    · rfl

theorem inv_perform (h : Inv env r) {s : Schedule} (x : Execution)
    (hs : r.schedules.get? s.scheduleId = some s) (hdue : s.isDue env r.now = .ok true)
    (hout : s.scheduleId ∉ r.due)
    (hfresh : x.result ≠ .noSubmitFn → x.crash ≠ some .beforeSubmit → r.fresh env s) :
    Inv env (r.perform env s x) := by
  obtain ⟨hnow, hsub, hcases⟩ := perform_cases env r s x
  have hnodup := hsub.nodup h.nodup
  rcases hcases with ⟨hsched, hsubs⟩ | ⟨⟨runId, hsched⟩, hsubs⟩
  · have hdue' : ∀ id ∈ (r.perform env s x).due, ∃ s', (r.perform env s x).schedules.get? id =
        some s' ∧ s'.isDue env (r.perform env s x).now = .ok true := by
      intro id hid
      rw [hsched, hnow]
      exact h.due id (hsub.subset hid)
    have hfwd : ∀ id s', (r.perform env s x).schedules.get? id = some s' →
        ∃ s₀, r.schedules.get? id = some s₀ ∧ Forward env s₀ s' := by
      intro id s' hs'
      rw [hsched] at hs'
      exact ⟨s', hs', Forward.refl env s'⟩
    rcases hsubs with hsubs | ⟨hres, hcrash, hsubs⟩
    · exact h.move hnodup hdue' hsubs hfwd
    · exact h.add (hfresh hres hcrash) hnodup hdue' hsubs hfwd fun hf => by cases hf
  · have hget : ∀ id, (r.perform env s x).schedules.get? id =
        if s.scheduleId = id then some (s.updateCursor (s.cursorTickTs r.now.ts) runId)
        else r.schedules.get? id := by
      intro id
      rw [hsched]
      exact Table.get?_put _ _ id
    have hdue' : ∀ id ∈ (r.perform env s x).due, ∃ s', (r.perform env s x).schedules.get? id =
        some s' ∧ s'.isDue env (r.perform env s x).now = .ok true := by
      intro id hid
      have hne : s.scheduleId ≠ id := fun he => hout (he ▸ hsub.subset hid)
      rw [hget, if_neg hne, hnow]
      exact h.due id (hsub.subset hid)
    have hfwd : ∀ id s', (r.perform env s x).schedules.get? id = some s' →
        ∃ s₀, r.schedules.get? id = some s₀ ∧ Forward env s₀ s' := by
      intro id s' hs'
      rw [hget] at hs'
      split at hs'
      · rename_i he
        cases hs'
        exact ⟨s, he ▸ hs, forward_of_due hdue (Or.inl rfl) runId⟩
      · exact ⟨s', hs', Forward.refl env s'⟩
    rcases hsubs with hsubs | ⟨hres, hcrash, hsubs⟩
    · exact h.move hnodup hdue' hsubs hfwd
    · refine h.add (hfresh hres hcrash) hnodup hdue' hsubs hfwd fun _ s' hs' => ?_
      rw [hget, if_pos rfl] at hs'
      cases hs'
      exact settled_of_due hdue runId _

/-- The executed schedule leaves the tick; the rest of it stays due. -/
theorem inv_rest (h : Inv env r) {id : String} {rest : List String} (hd : r.due = id :: rest) :
    Inv env { r with due := rest } := by
  refine h.move ?_ ?_ rfl fun id s hs => ⟨s, hs, Forward.refl env s⟩
  · exact (List.nodup_cons.mp (hd ▸ h.nodup)).2
  · intro id' hid
    exact h.due id' (by rw [hd]; exact List.mem_cons_of_mem id hid)

theorem inv_execute (h : Inv env r) (x : Execution) (hok : SameMinuteRetry env r (.execute x)) :
    Inv env (r.execute env x) := by
  unfold execute
  split
  · exact h
  rename_i id rest hd
  have hrest := inv_rest h hd
  split
  · exact hrest
  rename_i s hs
  split
  · exact inv_restart h
  rename_i hdel
  split
  · exact hrest
  rename_i hproc
  have hid : s.scheduleId = id := Table.key_of_get? hs
  obtain ⟨s', hs', hdue⟩ := h.due id (by rw [hd]; exact List.mem_cons_self)
  cases hs.symm.trans hs'
  have hget : r.schedules.get? s.scheduleId = some s := by rw [hid]; exact hs
  apply inv_perform hrest x hget hdue
  · rw [hid]
    exact (List.nodup_cons.mp (hd ▸ h.nodup)).1
  · intro hres hcrash
    have hsubm : r.submits env x = some s := by
      obtain ⟨traceId, wall, delegated, result, crash⟩ := x
      simp only at hdel hres hcrash
      simp only [Runner.submits, hd]
      split <;> simp_all
    exact h.fresh hget hdue (hok s (by rw [hsubm]; rfl))

theorem inv_step (h : Inv env r) (e : Event) (hok : SameMinuteRetry env r e) :
    Inv env (r.step env e) := by
  cases e with
  | tick now cfg =>
    simp only [Runner.step]
    split
    · exact inv_tick h now cfg
    · exact h
  | execute x => exact inv_execute h x hok
  | skipMissedTicks now cfg =>
    simp only [Runner.step]
    split
    · rename_i hdue
      exact inv_skip h hdue now cfg
    · exact h
  | restart => exact inv_restart h

end Steps

/-! ## Runs -/

/-- A runner over stored schedules that has submitted nothing yet. -/
def Runner.start (schedules : Table Schedule.scheduleId) (runs : List RunRecord) (now : Clock) :
    Runner := { schedules, runs, now }

/-- The runner before the `k`-th event. -/
def Runner.state (env : Env) (r : Runner) (events : ℕ → Event) : ℕ → Runner :=
  run (fun r e => (r.step env e, ())) r events

/-- Each occurrence of each schedule was submitted under one key. -/
def Runner.OneKey (r : Runner) : Prop :=
  ∀ x ∈ r.submissions, ∀ y ∈ r.submissions, x.scheduleId = y.scheduleId →
    x.occurrence = y.occurrence → x.key = y.key

theorem inv_start (schedules : Table Schedule.scheduleId) (runs : List RunRecord) (now : Clock) :
    Inv env (start schedules runs now) where
  nodup := List.nodup_nil
  due := fun _ h => by cases h
  settled := fun _ h => by cases h
  minute := fun _ h => by cases h
  keys := fun _ h => by cases h

theorem Inv.oneKey {r : Runner} (h : Inv env r) : r.OneKey := by
  intro x hx y hy hid hocc
  have hmin := h.minute x hx y hy hid hocc
  calc x.key = computeIdempotencyKey env x.scheduleId x.tickTs := h.keys x hx
    _ = computeIdempotencyKey env y.scheduleId y.tickTs := by rw [hid, key_of_minute hmin]
    _ = y.key := (h.keys y hy).symm

/-- When every retry of a lost cursor comes within the minute of its submission, no occurrence is
ever submitted under two keys. -/
theorem one_key_of_same_minute (schedules : Table Schedule.scheduleId) (runs : List RunRecord)
    (now : Clock) (events : ℕ → Event)
    (hok : ∀ k, SameMinuteRetry env ((start schedules runs now).state env events k) (events k)) :
    ∀ k, ((start schedules runs now).state env events k).OneKey := by
  have hinv : ∀ k, 0 ≤ k → Inv env ((start schedules runs now).state env events k) :=
    run_invariant (inv_start schedules runs now) fun k _ h => inv_step h (events k) (hok k)
  exact fun k => (hinv k (Nat.zero_le k)).oneKey

section Hourly

/-- SHA-256 on the two minutes of the runs below. -/
def hourlyEnv : Env where
  sha256 raw :=
    if raw = "poll:7200" then "40346c38fd483048fb2b4d3bcbf9c9b9f7591b4a4a6a35db9b802fbce8c802f3"
    else if raw = "poll:7260" then
      "841c755ce2f664593707255322d46c764cc1287d9f16d19f0126321798477a16"
    else ""
  croniter := none

/-- Five past two, or so, on the first day of the epoch. -/
def afterTwo (sec : ℕ) : Clock where
  ts := 7200 + sec
  positive := by positivity
  minute := sec / 60
  hour := 2
  day := 1
  month := 1
  weekday := 3

/-- An hourly schedule that ran at one o'clock last. -/
def hourly : Table Schedule.scheduleId :=
  Table.ofRows [{ scheduleId := "poll", trigger := .interval 3600 (by omega)
                  lastTickTs := some 3600 }]

/-- A tick whose submission is queued before the process dies, and a tick after the restart. -/
def crashed (retry : ℕ) : ℕ → Event
  | 0 => .tick (afterTwo 5) {}
  | 1 => .execute { traceId := "4bf92f3577b3", wall := 7206, result := .queued (some "p1"),
                    crash := some .afterSubmit }
  | 2 => .tick (afterTwo retry) {}
  | 3 => .execute { traceId := "00f067aa0ba9", wall := 7201 + retry, result := .queued (some "p2") }
  | _ => .restart

/-- A restart within the minute. -/
theorem one_key_of_same_minute_hourly :
    ((start hourly [] (afterTwo 0)).state hourlyEnv (crashed 30) 4).OneKey := by
  refine one_key_of_same_minute hourly [] (afterTwo 0) (crashed 30) ?_ 4
  intro k
  match k with
  | 0 | 2 => trivial
  | 1 | 3 =>
    simp only [crashed, SameMinuteRetry]
    decide +kernel
  | _ + 4 => trivial

/-- A restart a minute later. -/
theorem one_key_next_minute :
    ¬ ((start hourly [] (afterTwo 0)).state hourlyEnv (crashed 70) 4).OneKey := by
  unfold Runner.OneKey
  decide +kernel

end Hourly

end OpenClaw.Scheduler
