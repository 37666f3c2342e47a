import Mathlib.Tactic.NormNum
import OpenClaw.Foundation.Run
import OpenClaw.Scheduler.Runner

/-!
# The index of the run history

Through every addition, update, flush and reload the index knows exactly the keys of the retained
runs. It names a run by its id only, so a lookup finds the run of a key as long as the ids of the
retained runs are distinct and not empty.
-/

namespace OpenClaw.RunHistory

open Foundation Scheduler
set_option autoImplicit false

/-!
## The run history and its index

`RunHistory` of `services/scheduler/history.py`: the list of runs, the index from idempotency keys to
run ids, and the file. The three are written by different steps, and the index is rebuilt only by the
retention and by a load.
-/

section History

structure RunRecord where
  runId : String
  scheduleId : String
  traceId : String
  idempotencyKey : String
  promptId : Option String := none
  status : String := "queued"
  startedAt : String := ""
  finishedAt : Option String := none
  errorSummary : Option String := none
  deriving DecidableEq

/-- `__post_init__`; `now` is the ISO text of the clock. -/
def RunRecord.postInit (now : String) (r : RunRecord) : RunRecord :=
  if r.startedAt = "" then { r with startedAt := now } else r

/-- The entry of a run in the index. -/
def RunRecord.entry (r : RunRecord) : String × String := (r.idempotencyKey, r.runId)

/-- One `setattr` of `update_run`; a name that is no attribute is passed over. -/
inductive Update where
  | runId (value : String)
  | scheduleId (value : String)
  | traceId (value : String)
  | idempotencyKey (value : String)
  | promptId (value : Option String)
  | status (value : String)
  | startedAt (value : String)
  | finishedAt (value : Option String)
  | errorSummary (value : Option String)
  | unknown (name : String)
  deriving DecidableEq

def RunRecord.setattr (r : RunRecord) : Update → RunRecord
  | .runId value => { r with runId := value }
  | .scheduleId value => { r with scheduleId := value }
  | .traceId value => { r with traceId := value }
  | .idempotencyKey value => { r with idempotencyKey := value }
  | .promptId value => { r with promptId := value }
  | .status value => { r with status := value }
  | .startedAt value => { r with startedAt := value }
  | .finishedAt value => { r with finishedAt := value }
  | .errorSummary value => { r with errorSummary := value }
  | .unknown _ => r

def RunRecord.update (r : RunRecord) (updates : List Update) : RunRecord :=
  updates.foldl RunRecord.setattr r

/-- `datetime.fromisoformat(text).timestamp()`, or nothing where it raises. -/
structure Env where
  timestamp : String → Option ℚ

/-- `_parse_ts`. -/
def Env.parseTs (env : Env) (isoStr : String) : ℚ :=
  (env.timestamp (isoStr.replace "Z" "+00:00")).getD 0

abbrev Index := Table (Prod.fst : String × String → String)

structure History where
  runs : List RunRecord := []
  index : Index := Table.empty
  loaded : Bool := false
  file : Option (List RunRecord) := none

/-- Young enough for the retention at `wall`. -/
def recent (env : Env) (wall : ℚ) (r : RunRecord) : Bool :=
  decide (env.parseTs r.startedAt > wall - retentionDays * 86400)

/-- The runs that the retention leaves: by age, then the newest `MAX_RUNS`. -/
def retained (env : Env) (wall : ℚ) (runs : List RunRecord) : List RunRecord :=
  let runs := runs.filter (recent env wall)
  runs.drop (runs.length - maxRuns)

namespace History

def ensureLoaded (s : History) (now : String) : History :=
  if s.loaded then s
  else
    let rows := (s.file.getD []).map (RunRecord.postInit now)
    { s with
      loaded := true
      runs := s.runs ++ rows
      index := rows.foldl (fun index r => index.put r.entry) s.index }

/-- `_save` with its answer. -/
def save (s : History) (ok : Bool) : History × Bool :=
  if ok then ({ s with file := some s.runs }, true) else (s, false)

def flush (s : History) (ok : Bool) : History × Bool := if s.loaded then s.save ok else (s, true)

def enforceRetention (env : Env) (s : History) (wall : ℚ) : History :=
  let runs := retained env wall s.runs
  { s with runs, index := Table.ofRows (runs.map RunRecord.entry) }

def addRun (env : Env) (s : History) (run : RunRecord) (now : String) (wall : ℚ) (ok : Bool) :
    History × Bool :=
  let s := s.ensureLoaded now
  if (s.index.get? run.idempotencyKey).isSome then (s, false)
  else
    let s := { s with runs := s.runs ++ [run], index := s.index.put run.entry }
    (s.enforceRetention env wall).save ok

/-- The first run with the id is updated. -/
def updateFirst (runId : String) (updates : List Update) : List RunRecord → List RunRecord
  | [] => []
  | r :: runs =>
    if r.runId = runId then r.update updates :: runs else r :: updateFirst runId updates runs

def updateRun (s : History) (runId : String) (updates : List Update) (now : String) (ok : Bool) :
    History × Bool :=
  let s := s.ensureLoaded now
  if s.runs.any (fun r => r.runId = runId) then
    { s with runs := updateFirst runId updates s.runs }.save ok
  else (s, false)

def getRun (s : History) (now : String) (runId : String) : Option RunRecord :=
  (s.ensureLoaded now).runs.find? fun r => r.runId = runId

def getByIdempotencyKey (s : History) (now : String) (key : String) : Option RunRecord :=
  let s := s.ensureLoaded now
  match s.index.get? key with
  | none => none
  | some (_, runId) => if runId = "" then none else s.getRun now runId

def isProcessed (s : History) (now : String) (key : String) : Bool :=
  ((s.ensureLoaded now).index.get? key).isSome

/-- `reset_run_history`: the next access reads the file again. -/
def reset (s : History) : History := { file := s.file }

end History

inductive Event where
  | addRun (run : RunRecord) (now : String) (wall : ℚ) (saveOk : Bool)
  | updateRun (runId : String) (updates : List Update) (now : String) (saveOk : Bool)
  | flush (saveOk : Bool)
  | reload

def History.step (env : Env) (s : History) : Event → History × Bool
  | .addRun run now wall ok => s.addRun env run now wall ok
  | .updateRun runId updates now ok => s.updateRun runId updates now ok
  | .flush ok => s.flush ok
  | .reload => (s.reset, true)

end History

def ids (runs : List RunRecord) : List String := runs.map RunRecord.runId

def keys (runs : List RunRecord) : List String := runs.map RunRecord.idempotencyKey

/-- The ids tell the runs apart, and none is empty. -/
def IdsTell (runs : List RunRecord) : Prop := (ids runs).Nodup ∧ "" ∉ ids runs

theorem ids_of_entries {runs runs' : List RunRecord}
    (h : runs'.map RunRecord.entry = runs.map RunRecord.entry) : ids runs' = ids runs := by
  have hmap := congrArg (List.map Prod.snd) h
  rwa [List.map_map, List.map_map] at hmap

theorem keys_of_entries {runs runs' : List RunRecord}
    (h : runs'.map RunRecord.entry = runs.map RunRecord.entry) : keys runs' = keys runs := by
  have hmap := congrArg (List.map Prod.fst) h
  rwa [List.map_map, List.map_map] at hmap

@[simp] theorem entry_postInit (now : String) (r : RunRecord) : (r.postInit now).entry = r.entry := by
  unfold RunRecord.postInit
  split <;> rfl

theorem entries_postInit (now : String) (rows : List RunRecord) :
    (rows.map (RunRecord.postInit now)).map RunRecord.entry = rows.map RunRecord.entry := by
  rw [List.map_map]
  exact List.map_congr_left fun r _ => entry_postInit now r

/-! ## The index of a list -/

/-- The index that a rebuild makes of the runs. -/
def indexOf (runs : List RunRecord) : Index := Table.ofRows (runs.map RunRecord.entry)

theorem get?_indexOf {runs : List RunRecord} (h : (keys runs).Nodup) (key : String) :
    (indexOf runs).get? key =
      (runs.find? fun r => r.idempotencyKey = key).map RunRecord.entry := by
  have hnodup : ((runs.map RunRecord.entry).map Prod.fst).Nodup := by
    rw [List.map_map]
    exact h
  rw [indexOf, Table.get?, Table.rows_ofRows hnodup, List.find?_map]
  rfl

/-- What the index says of every key, whatever the order of its entries. -/
def Indexes (index : Index) (runs : List RunRecord) : Prop :=
  ∀ key, index.get? key = (runs.find? fun r => r.idempotencyKey = key).map RunRecord.entry

theorem Indexes.isSome {index : Index} {runs : List RunRecord} (h : Indexes index runs)
    (key : String) : (index.get? key).isSome = true ↔ ∃ r ∈ runs, r.idempotencyKey = key := by
  rw [h key, Option.isSome_map, List.find?_isSome]
  simp

/-- With the same entries in place the index still says what it should. -/
theorem Indexes.of_entries {index : Index} {runs runs' : List RunRecord} (h : Indexes index runs)
    (he : runs'.map RunRecord.entry = runs.map RunRecord.entry) : Indexes index runs' := by
  intro key
  have hfind : ∀ rs : List RunRecord,
      (rs.find? fun r => r.idempotencyKey = key).map RunRecord.entry =
        (rs.map RunRecord.entry).find? fun e => e.1 = key := by
    intro rs
    rw [List.find?_map]
    rfl
  rw [h key, hfind, hfind, he]

/-! ## What every history keeps -/

/-- The runs as the next access will see them. -/
def History.remembered (s : History) : List RunRecord := if s.loaded then s.runs else s.file.getD []

/-- List, index and file belong together. -/
structure Coherent (s : History) : Prop where
  keys : (keys s.remembered).Nodup
  bounded : s.remembered.length ≤ maxRuns
  index : s.loaded = true → Indexes s.index s.runs
  file : s.loaded = true → (s.file.getD []).map RunRecord.entry = s.runs.map RunRecord.entry
  fresh : s.loaded = false → s.runs = [] ∧ s.index = Table.empty

namespace Coherent
variable {s : History}

theorem ensureLoaded_entries (h : Coherent s) (now : String) :
    (s.ensureLoaded now).runs.map RunRecord.entry = s.remembered.map RunRecord.entry := by
  unfold History.ensureLoaded History.remembered
  split
  · rfl
  · rename_i hl
    change (s.runs ++ _).map RunRecord.entry = _
    rw [(h.fresh (by simpa using hl)).1, List.nil_append, entries_postInit]

theorem ensureLoaded_indexes (h : Coherent s) (now : String) :
    Indexes (s.ensureLoaded now).index (s.ensureLoaded now).runs := by
  cases hl : s.loaded with
  | true =>
    have hsame : s.ensureLoaded now = s := by
      rw [History.ensureLoaded, if_pos hl]
    rw [hsame]
    exact h.index hl
  | false =>
    obtain ⟨hruns, hindex⟩ := h.fresh hl
    have hrem : s.remembered = s.file.getD [] := by simp [History.remembered, hl]
    have hnodup : (RunHistory.keys ((s.file.getD []).map (RunRecord.postInit now))).Nodup := by
      rw [keys_of_entries (entries_postInit now _), ← hrem]
      exact h.keys
    intro key
    rw [History.ensureLoaded, if_neg (by simp [hl])]
    have hfold : ((s.file.getD []).map (RunRecord.postInit now)).foldl
        (fun index r => index.put r.entry) s.index =
        indexOf ((s.file.getD []).map (RunRecord.postInit now)) := by
      rw [hindex]
      exact List.foldl_map.symm
    change (List.foldl _ s.index _).get? key = (List.find? _ (s.runs ++ _)).map _
    rw [hfold, hruns, List.nil_append]
    exact get?_indexOf hnodup key

theorem ensureLoaded_keys (h : Coherent s) (now : String) :
    RunHistory.keys (s.ensureLoaded now).runs = RunHistory.keys s.remembered :=
  keys_of_entries (h.ensureLoaded_entries now)

theorem ensureLoaded_length (h : Coherent s) (now : String) :
    (s.ensureLoaded now).runs.length = s.remembered.length := by
  have hlen := congrArg List.length (h.ensureLoaded_entries now)
  rwa [List.length_map, List.length_map] at hlen

end Coherent

theorem ensureLoaded_loaded (s : History) (now : String) : (s.ensureLoaded now).loaded = true := by
  unfold History.ensureLoaded
  split
  · assumption
  · rfl

theorem ensureLoaded_of_loaded {s : History} (h : s.loaded = true) (now : String) :
    s.ensureLoaded now = s := by
  rw [History.ensureLoaded, if_pos h]

theorem ensureLoaded_file (s : History) (now : String) : (s.ensureLoaded now).file = s.file := by
  unfold History.ensureLoaded
  split <;> rfl

@[simp] theorem save_runs (s : History) (ok : Bool) : (s.save ok).1.runs = s.runs := by
  unfold History.save
  split <;> rfl

/-- Any loaded history whose list and index agree is coherent once it is saved. -/
theorem coherent_save {s : History} (hl : s.loaded = true) (hkeys : (keys s.runs).Nodup)
    (hlen : s.runs.length ≤ maxRuns) (hindex : Indexes s.index s.runs) :
    Coherent (s.save true).1 := by
  have hrem : (s.save true).1.remembered = s.runs := by simp [History.save, History.remembered, hl]
  refine ⟨?_, ?_, fun _ => hindex, fun _ => rfl, fun hf => ?_⟩
  · rwa [hrem]
  · rwa [hrem]
  · have hcontra : s.loaded = false := hf
    rw [hl] at hcontra
    cases hcontra

theorem coherent_ensureLoaded {s : History} (h : Coherent s) (now : String) :
    Coherent (s.ensureLoaded now) := by
  have hl := ensureLoaded_loaded s now
  have hrem : (s.ensureLoaded now).remembered = (s.ensureLoaded now).runs := by
    simp [History.remembered, hl]
  refine ⟨?_, ?_, fun _ => h.ensureLoaded_indexes now, fun _ => ?_, fun hf => ?_⟩
  · rw [hrem, h.ensureLoaded_keys]
    exact h.keys
  · rw [hrem, h.ensureLoaded_length]
    exact h.bounded
  · rw [ensureLoaded_file, h.ensureLoaded_entries]
    cases hs : s.loaded with
    | true =>
      rw [h.file hs]
      simp [History.remembered, hs]
    | false => simp [History.remembered, hs]
  · rw [hl] at hf
    cases hf

/-! ## Retention -/

section Retention
variable {env : Env} {wall : ℚ}

theorem retained_sublist (runs : List RunRecord) : (retained env wall runs).Sublist runs :=
  (List.drop_sublist _ _).trans List.filter_sublist

theorem retained_length (runs : List RunRecord) : (retained env wall runs).length ≤ maxRuns := by
  unfold retained
  rw [List.length_drop]
  omega

variable (env wall) in
/-- What the count leaves of the recent runs are the last ones. -/
theorem retained_newest (runs : List RunRecord) : ∃ older,
    runs.filter (recent env wall) = older ++ retained env wall runs ∧
      (older ≠ [] → (retained env wall runs).length = maxRuns) := by
  refine ⟨(runs.filter (recent env wall)).take ((runs.filter (recent env wall)).length - maxRuns),
    (List.take_append_drop _ _).symm, fun hne => ?_⟩
  have hpos : (runs.filter (recent env wall)).length - maxRuns ≠ 0 := by
    intro hzero
    rw [hzero, List.take_zero] at hne
    exact hne rfl
  unfold retained
  rw [List.length_drop]
  omega

variable (env wall) in
theorem mem_retained {runs : List RunRecord} {r : RunRecord} (hr : r ∈ runs) :
    r ∈ retained env wall runs ∨ recent env wall r = false ∨
      ∃ older newer, runs.filter (recent env wall) = older ++ r :: newer ∧
        maxRuns ≤ newer.length := by
  cases hrec : recent env wall r with
  | false => exact .inr (.inl rfl)
  | true =>
    obtain ⟨older, hsplit, hfull⟩ := retained_newest env wall runs
    have hmem : r ∈ older ++ retained env wall runs := by
      rw [← hsplit, List.mem_filter]
      exact ⟨hr, hrec⟩
    rcases List.mem_append.mp hmem with hold | hkept
    · obtain ⟨before, after, rfl⟩ := List.append_of_mem hold
      refine .inr (.inr ⟨before, after ++ retained env wall runs, ?_, ?_⟩)
      · rw [hsplit, List.append_assoc, List.cons_append]
      · rw [List.length_append, hfull (by simp)]
        omega
    · exact .inl hkept

end Retention

/-! ## Steps -/

/-- The step keeps the ids telling: an addition leaves runs with distinct, non-empty ids, and an
update leaves the id of its run. -/
def IdsKept (env : Env) (s : History) : Event → Prop
  | .addRun run now wall _ => s.isProcessed now run.idempotencyKey = false →
      IdsTell (retained env wall ((s.ensureLoaded now).runs ++ [run]))
  | .updateRun runId updates now _ => ∀ r, s.getRun now runId = some r →
      (r.update updates).runId = r.runId
  | _ => True

/-- The save of the step goes through. -/
def Event.saves : Event → Prop
  | .addRun _ _ _ ok => ok = true
  | .updateRun _ _ _ ok => ok = true
  | .flush ok => ok = true
  | .reload => True

/-- The step sets no idempotency key. -/
def Event.keepsKeys : Event → Prop
  | .updateRun _ updates _ _ => ∀ value, Update.idempotencyKey value ∉ updates
  | _ => True

theorem update_key {updates : List Update} (h : ∀ value, Update.idempotencyKey value ∉ updates)
    (r : RunRecord) : (r.update updates).idempotencyKey = r.idempotencyKey := by
  induction updates generalizing r with
  | nil => rfl
  | cons u updates ih =>
    have hrest : ∀ value, Update.idempotencyKey value ∉ updates :=
      fun value hv => h value (List.mem_cons_of_mem u hv)
    have hstep : (r.setattr u).idempotencyKey = r.idempotencyKey := by
      cases u with
      | idempotencyKey value => exact absurd List.mem_cons_self (h value)
      | _ => rfl
    exact (ih hrest (r.setattr u)).trans hstep

/-- Only the first run with the id is written. -/
theorem updateFirst_map {β : Type} (f : RunRecord → β) {runId : String} {updates : List Update}
    {runs : List RunRecord}
    (h : ∀ r, runs.find? (fun r => r.runId = runId) = some r → f (r.update updates) = f r) :
    (History.updateFirst runId updates runs).map f = runs.map f := by
  induction runs with
  | nil => rfl
  | cons r runs ih =>
    by_cases hr : r.runId = runId
    · rw [History.updateFirst, if_pos hr, List.map_cons, List.map_cons, h r (by simp [hr])]
    · rw [History.updateFirst, if_neg hr, List.map_cons, List.map_cons, ih]
      intro r' hr'
      exact h r' (by simpa [hr] using hr')

theorem mem_updateFirst {runId : String} {updates : List Update} {runs : List RunRecord}
    {r : RunRecord} (h : runs.find? (fun r => r.runId = runId) = some r) :
    r.update updates ∈ History.updateFirst runId updates runs := by
  induction runs with
  | nil => cases h
  | cons r' runs ih =>
    by_cases hr : r'.runId = runId
    · rw [List.find?_cons_of_pos (by simp [hr])] at h
      cases h
      rw [History.updateFirst, if_pos hr]
      exact List.mem_cons_self
    · rw [List.find?_cons_of_neg (by simp [hr])] at h
      rw [History.updateFirst, if_neg hr]
      exact List.mem_cons_of_mem _ (ih h)

section Steps
variable {env : Env} {s : History}

theorem addRun_seen {run : RunRecord} {now : String} (wall : ℚ) (ok : Bool)
    (h : s.isProcessed now run.idempotencyKey = true) :
    s.addRun env run now wall ok = (s.ensureLoaded now, false) := by
  rw [History.isProcessed] at h
  rw [History.addRun, if_pos h]

/-- The history after the retention of an addition, before its save. -/
def History.extended (env : Env) (s : History) (run : RunRecord) (now : String) (wall : ℚ) : History :=
  enforceRetention env { s.ensureLoaded now with
    runs := (s.ensureLoaded now).runs ++ [run]
    index := (s.ensureLoaded now).index.put run.entry } wall

/-- The history after an update, before its save. -/
def History.edited (s : History) (runId : String) (updates : List Update) (now : String) : History :=
  { s.ensureLoaded now with runs := updateFirst runId updates (s.ensureLoaded now).runs }

theorem extended_loaded (run : RunRecord) (now : String) (wall : ℚ) :
    (s.extended env run now wall).loaded = true := by
  rw [History.extended, History.enforceRetention]
  exact ensureLoaded_loaded s now

theorem edited_loaded (runId : String) (updates : List Update) (now : String) :
    (s.edited runId updates now).loaded = true := ensureLoaded_loaded s now

theorem addRun_new {run : RunRecord} {now : String} (wall : ℚ) (ok : Bool)
    (h : s.isProcessed now run.idempotencyKey = false) :
    s.addRun env run now wall ok = (s.extended env run now wall).save ok := by
  rw [History.isProcessed] at h
  rw [History.addRun, if_neg (by simp [h])]
  rfl

theorem getRun_id {now runId : String} {r : RunRecord} (h : s.getRun now runId = some r) :
    r.runId = runId := by
  have hid := List.find?_some (p := fun r : RunRecord => r.runId = runId) h
  exact of_decide_eq_true hid

theorem updateRun_known {runId : String} {updates : List Update} {now : String} (ok : Bool)
    {r : RunRecord} (h : s.getRun now runId = some r) :
    s.updateRun runId updates now ok = (s.edited runId updates now).save ok := by
  have hany : (s.ensureLoaded now).runs.any (fun r => r.runId = runId) = true := by
    rw [List.any_eq_true]
    exact ⟨r, List.mem_of_find?_eq_some h, decide_eq_true (getRun_id h)⟩
  rw [History.updateRun, if_pos hany]
  rfl

theorem updateRun_unknown {runId : String} {updates : List Update} {now : String} (ok : Bool)
    (h : s.getRun now runId = none) :
    s.updateRun runId updates now ok = (s.ensureLoaded now, false) := by
  have hany : ¬(s.ensureLoaded now).runs.any (fun r => r.runId = runId) = true := by
    rw [List.any_eq_true]
    rintro ⟨r, hr, hid⟩
    exact List.find?_eq_none.mp h r hr hid
  rw [History.updateRun, if_neg hany]

theorem Coherent.isProcessed_iff (h : Coherent s) (now key : String) :
    s.isProcessed now key = true ↔ ∃ r ∈ (s.ensureLoaded now).runs, r.idempotencyKey = key :=
  (h.ensureLoaded_indexes now).isSome key

/-- A new key makes the keys of the longer list distinct. -/
theorem Coherent.keys_append (h : Coherent s) {run : RunRecord} {now : String}
    (hnew : s.isProcessed now run.idempotencyKey = false) :
    (RunHistory.keys ((s.ensureLoaded now).runs ++ [run])).Nodup := by
  have hold : (RunHistory.keys (s.ensureLoaded now).runs).Nodup := by
    rw [h.ensureLoaded_keys]
    exact h.keys
  have habs : run.idempotencyKey ∉ RunHistory.keys (s.ensureLoaded now).runs := by
    intro hmem
    obtain ⟨r, hr, hkey⟩ := List.mem_map.mp hmem
    rw [(h.isProcessed_iff now _).mpr ⟨r, hr, hkey⟩] at hnew
    cases hnew
  unfold RunHistory.keys at *
  rw [List.map_append, List.nodup_append]
  refine ⟨hold, List.nodup_singleton _, ?_⟩
  intro a ha b hb hab
  rw [List.map_singleton, List.mem_singleton] at hb
  exact habs (hb ▸ hab ▸ ha)

/-- Loading, like every step without a write, changes no entry. -/
theorem remembered_ensureLoaded (h : Coherent s) (now : String) :
    (s.ensureLoaded now).remembered.map RunRecord.entry = s.remembered.map RunRecord.entry := by
  rw [History.remembered, if_pos (ensureLoaded_loaded s now)]
  exact h.ensureLoaded_entries now

theorem remembered_save {t : History} (hl : t.loaded = true) : (t.save true).1.remembered = t.runs := by
  simp [History.save, History.remembered, hl]

theorem remembered_addRun {run : RunRecord} {now : String} (wall : ℚ)
    (h : s.isProcessed now run.idempotencyKey = false) :
    (s.addRun env run now wall true).1.remembered =
      retained env wall ((s.ensureLoaded now).runs ++ [run]) := by
  rw [addRun_new wall true h, remembered_save (extended_loaded run now wall), History.extended,
    History.enforceRetention]

theorem coherent_addRun (h : Coherent s) (run : RunRecord) (now : String) (wall : ℚ) :
    Coherent (s.addRun env run now wall true).1 := by
  cases hproc : s.isProcessed now run.idempotencyKey with
  | true =>
    rw [addRun_seen wall true hproc]
    exact coherent_ensureLoaded h now
  | false =>
    rw [addRun_new wall true hproc]
    have hkeys : (RunHistory.keys (retained env wall ((s.ensureLoaded now).runs ++ [run]))).Nodup :=
      ((retained_sublist _).map _).nodup (h.keys_append hproc)
    exact coherent_save (extended_loaded run now wall) hkeys (retained_length _) (get?_indexOf hkeys)

theorem coherent_updateRun (h : Coherent s) {runId : String} {updates : List Update} {now : String}
    (hkeep : ∀ r, s.getRun now runId = some r → (r.update updates).entry = r.entry) :
    Coherent (s.updateRun runId updates now true).1 := by
  cases hget : s.getRun now runId with
  | none =>
    rw [updateRun_unknown true hget]
    exact coherent_ensureLoaded h now
  | some r =>
    rw [updateRun_known true hget]
    have hentries : (History.updateFirst runId updates (s.ensureLoaded now).runs).map
        RunRecord.entry = (s.ensureLoaded now).runs.map RunRecord.entry :=
      updateFirst_map RunRecord.entry hkeep
    apply coherent_save (edited_loaded runId updates now)
    · change (RunHistory.keys (History.updateFirst runId updates (s.ensureLoaded now).runs)).Nodup
      rw [keys_of_entries hentries, h.ensureLoaded_keys]
      exact h.keys
    · have hlen := congrArg List.length hentries
      rw [List.length_map, List.length_map, h.ensureLoaded_length] at hlen
      exact hlen.trans_le h.bounded
    · exact (h.ensureLoaded_indexes now).of_entries hentries

theorem coherent_reset (h : Coherent s) : Coherent s.reset ∧
    s.reset.remembered.map RunRecord.entry = s.remembered.map RunRecord.entry := by
  have hrows : s.reset.remembered.map RunRecord.entry = s.remembered.map RunRecord.entry := by
    cases hl : s.loaded with
    | true =>
      have hfile := h.file hl
      simpa [History.reset, History.remembered, hl] using hfile
    | false => simp [History.reset, History.remembered, hl]
  have hlen := congrArg List.length hrows
  rw [List.length_map, List.length_map] at hlen
  refine ⟨⟨?_, hlen.trans_le h.bounded, nofun, nofun, fun _ => ⟨rfl, rfl⟩⟩, hrows⟩
  rw [keys_of_entries hrows]
  exact h.keys

theorem coherent_flush (h : Coherent s) : Coherent (s.flush true).1 ∧
    (s.flush true).1.remembered = s.remembered := by
  cases hl : s.loaded with
  | true =>
    have hrem : s.remembered = s.runs := by simp [History.remembered, hl]
    rw [History.flush, if_pos hl, remembered_save hl, hrem]
    refine ⟨coherent_save hl ?_ ?_ (h.index hl), rfl⟩
    · rw [← hrem]
      exact h.keys
    · rw [← hrem]
      exact h.bounded
  | false =>
    rw [History.flush, if_neg (by simp [hl])]
    exact ⟨h, rfl⟩

theorem update_entry {updates : List Update}
    (hkeys : ∀ value, Update.idempotencyKey value ∉ updates) {r : RunRecord}
    (hid : (r.update updates).runId = r.runId) : (r.update updates).entry = r.entry :=
  Prod.ext (update_key hkeys r) hid

theorem coherent_step (h : Coherent s) {e : Event} (hsave : e.saves) (hkeys : e.keepsKeys)
    (hids : IdsKept env s e) : Coherent (s.step env e).1 := by
  cases e with
  | addRun run now wall ok =>
    obtain rfl : ok = true := hsave
    exact coherent_addRun h run now wall
  | updateRun runId updates now ok =>
    obtain rfl : ok = true := hsave
    exact coherent_updateRun h fun r hr => update_entry hkeys (hids r hr)
  | flush ok =>
    obtain rfl : ok = true := hsave
    exact (coherent_flush h).1
  | reload => exact (coherent_reset h).1

/-- Only an addition changes which entries are retained. -/
theorem entries_step (h : Coherent s) {e : Event} (hsave : e.saves) (hkeys : e.keepsKeys)
    (hids : IdsKept env s e) (hadd : ∀ run now wall ok, e ≠ .addRun run now wall ok) :
    (s.step env e).1.remembered.map RunRecord.entry = s.remembered.map RunRecord.entry := by
  cases e with
  | addRun run now wall ok => exact absurd rfl (hadd run now wall ok)
  | updateRun runId updates now ok =>
    obtain rfl : ok = true := hsave
    change (s.updateRun runId updates now true).1.remembered.map RunRecord.entry = _
    cases hget : s.getRun now runId with
    | none =>
      rw [updateRun_unknown true hget]
      exact remembered_ensureLoaded h now
    | some r =>
      rw [updateRun_known true hget, remembered_save (edited_loaded runId updates now)]
      exact (updateFirst_map RunRecord.entry fun r hr => update_entry hkeys (hids r hr)).trans
        (h.ensureLoaded_entries now)
  | flush ok =>
    obtain rfl : ok = true := hsave
    exact congrArg _ (coherent_flush h).2
  | reload => exact (coherent_reset h).2

/-! ## Lookups -/

/-- A lookup answers with the first run that has the id on record. -/
theorem lookup_eq (h : Coherent s) {now : String} {r : RunRecord}
    (hr : r ∈ (s.ensureLoaded now).runs) : s.getByIdempotencyKey now r.idempotencyKey =
      if r.runId = "" then none else s.getRun now r.runId := by
  have hnodup : (keys (s.ensureLoaded now).runs).Nodup := by
    rw [h.ensureLoaded_keys]
    exact h.keys
  have hfind : (s.ensureLoaded now).index.get? r.idempotencyKey = some r.entry := by
    rw [h.ensureLoaded_indexes now, Table.find?_of_nodup hnodup hr]
    rfl
  have hsame : (s.ensureLoaded now).ensureLoaded now = s.ensureLoaded now := by
    rw [History.ensureLoaded, if_pos (ensureLoaded_loaded s now)]
  rw [History.getByIdempotencyKey, hfind]
  change (if r.runId = "" then none else (s.ensureLoaded now).getRun now r.runId) = _
  rw [History.getRun, hsame, History.getRun]

/-- Lookups find the run of every retained key exactly when the ids tell the runs apart. -/
theorem found_iff (h : Coherent s) (now : String) :
    (∀ r ∈ (s.ensureLoaded now).runs, s.getByIdempotencyKey now r.idempotencyKey = some r) ↔
      IdsTell s.remembered := by
  have hids : ids (s.ensureLoaded now).runs = ids s.remembered :=
    ids_of_entries (h.ensureLoaded_entries now)
  rw [IdsTell, ← hids]
  constructor
  · intro hfound
    have hget : ∀ r ∈ (s.ensureLoaded now).runs, r.runId ≠ "" ∧ s.getRun now r.runId = some r := by
      intro r hr
      have hlook := hfound r hr
      rw [lookup_eq h hr] at hlook
      split at hlook
      · cases hlook
      · exact ⟨‹_›, hlook⟩
    constructor
    · have hkeys : (keys (s.ensureLoaded now).runs).Nodup := by
        rw [h.ensureLoaded_keys]
        exact h.keys
      refine List.Nodup.map_on ?_ hkeys.of_map
      intro r hr r' hr' hid
      have hr₁ := (hget r hr).2
      rw [hid, (hget r' hr').2] at hr₁
      exact (Option.some.inj hr₁).symm
    · intro hmem
      obtain ⟨r, hr, hempty⟩ := List.mem_map.mp hmem
      exact (hget r hr).1 hempty
  · rintro ⟨hnodup, hempty⟩ r hr
    have hne : r.runId ≠ "" := by
      intro he
      apply hempty
      rw [← he]
      exact List.mem_map_of_mem hr
    rw [lookup_eq h hr, if_neg hne]
    exact Table.find?_of_nodup hnodup hr

theorem lookup_none {now key : String} (hkey : s.isProcessed now key = false) :
    s.getByIdempotencyKey now key = none := by
  rw [History.isProcessed, Option.isSome_eq_false_iff, Option.isNone_iff_eq_none] at hkey
  rw [History.getByIdempotencyKey, hkey]

theorem idsTell_step (h : Coherent s) {e : Event} (hsave : e.saves) (hkeys : e.keepsKeys)
    (hids : IdsKept env s e) (htell : IdsTell s.remembered) :
    IdsTell (s.step env e).1.remembered := by
  by_cases hadd : ∃ run now wall ok, e = .addRun run now wall ok
  · obtain ⟨run, now, wall, ok, rfl⟩ := hadd
    obtain rfl : ok = true := hsave
    change IdsTell (s.addRun env run now wall true).1.remembered
    cases hproc : s.isProcessed now run.idempotencyKey with
    | true =>
      rw [addRun_seen wall true hproc, IdsTell, ids_of_entries (remembered_ensureLoaded h now)]
      exact htell
    | false =>
      rw [remembered_addRun wall hproc]
      exact hids hproc
  · have hentries := entries_step h hsave hkeys hids fun run now wall ok he =>
      hadd ⟨run, now, wall, ok, he⟩
    rw [IdsTell, ids_of_entries hentries]
    exact htell

/-- If lookups still work after a step, the step kept the ids telling. -/
theorem idsKept_of_found (h : Coherent s) {e : Event} (hsave : e.saves) (hkeys : e.keepsKeys)
    (hfound : ∀ now, ∀ r ∈ ((s.step env e).1.ensureLoaded now).runs,
      (s.step env e).1.getByIdempotencyKey now r.idempotencyKey = some r) : IdsKept env s e := by
  cases e with
  | addRun run now wall ok =>
    obtain rfl : ok = true := hsave
    intro hproc
    have hcoh : Coherent (s.addRun env run now wall true).1 := coherent_addRun h run now wall
    have htell := (found_iff hcoh now).mp (hfound now)
    rw [remembered_addRun wall hproc] at htell
    exact htell
  | updateRun runId updates now ok =>
    obtain rfl : ok = true := hsave
    intro r hr
    have hlook := hfound now (r.update updates)
    have hkey := update_key hkeys r
    have hnodup : (keys (s.ensureLoaded now).runs).Nodup := by
      rw [h.ensureLoaded_keys]
      exact h.keys
    have hindex : (s.ensureLoaded now).index.get? r.idempotencyKey = some r.entry := by
      rw [h.ensureLoaded_indexes now, Table.find?_of_nodup hnodup (List.mem_of_find?_eq_some hr)]
      rfl
    change r.update updates ∈ ((s.updateRun runId updates now true).1.ensureLoaded now).runs →
      (s.updateRun runId updates now true).1.getByIdempotencyKey now _ = _ at hlook
    have hloaded : ((s.edited runId updates now).save true).1.loaded = true :=
      edited_loaded runId updates now
    rw [updateRun_known true hr, hkey, ensureLoaded_of_loaded hloaded] at hlook
    have hfind := hlook (mem_updateFirst hr)
    rw [History.getByIdempotencyKey, ensureLoaded_of_loaded hloaded] at hfind
    change (match (s.ensureLoaded now).index.get? r.idempotencyKey with
      | none => none
      | some (_, runId) => if runId = "" then none else History.getRun _ now runId) = _ at hfind
    rw [hindex] at hfind
    change (if r.runId = "" then none else History.getRun _ now r.runId) = _ at hfind
    split at hfind
    · cases hfind
    · exact getRun_id hfind
  | flush ok => trivial
  | reload => trivial

/-- The history that the runner works with is this one without its index. -/
theorem addRun_refines (h : Coherent s) {f : RunRecord → Scheduler.RunRecord}
    (hkey : ∀ r, (f r).idempotencyKey = r.idempotencyKey)
    (htime : ∀ r, (f r).startedAt = env.parseTs r.startedAt) (run : RunRecord) (now : String)
    (wall : ℚ) (ok : Bool) : (s.addRun env run now wall ok).1.runs.map f =
      Scheduler.addRun ((s.ensureLoaded now).runs.map f) (f run) wall := by
  have hseen : Scheduler.isProcessed ((s.ensureLoaded now).runs.map f) (f run).idempotencyKey =
      s.isProcessed now run.idempotencyKey := by
    rw [Bool.eq_iff_iff, h.isProcessed_iff, Scheduler.isProcessed, List.any_map, List.any_eq_true]
    simp [hkey]
  have hretained : ∀ runs : List RunRecord, (retained env wall runs).map f =
      Scheduler.enforceRetention (runs.map f) wall := by
    intro runs
    have hfilter : (runs.map f).filter (fun r => r.startedAt > wall - retentionDays * 86400) =
        (runs.filter (recent env wall)).map f := by
      rw [List.filter_map]
      congr 2
      funext r
      simp [recent, htime]
    rw [retained, Scheduler.enforceRetention, hfilter, List.map_drop, List.length_map]
  rw [Scheduler.addRun, hseen]
  cases hproc : s.isProcessed now run.idempotencyKey with
  | true => rw [addRun_seen wall ok hproc, if_pos rfl]
  | false =>
    rw [addRun_new wall ok hproc, save_runs, History.extended, History.enforceRetention,
      if_neg Bool.false_ne_true, hretained, List.map_append]
    rfl

end Steps

/-! ## Runs -/

section Runs
variable (env : Env) (events : ℕ → Event)

def stateAt (k : ℕ) : History := run (History.step env) {} events k

def answerAt (k : ℕ) : Bool := answer (History.step env) {} events k

/-- The keys of the first `k` events that were added, in the order of their addition. -/
def addedKeys : ℕ → List String
  | 0 => []
  | k + 1 =>
    match events k with
    | .addRun run _ _ _ =>
      if answerAt env events k then addedKeys k ++ [run.idempotencyKey] else addedKeys k
    | _ => addedKeys k

/-- The runs as a reader at the time `now` sees them. -/
def runsAt (k : ℕ) (now : String) : List RunRecord := ((stateAt env events k).ensureLoaded now).runs

/-- The index belongs to the retained runs, these are the newest, and a key is given up only with a
run that is too old or has `MAX_RUNS` recent runs after it. -/
structure IndexKept : Prop where
  distinct : ∀ k now, (keys (runsAt env events k now)).Nodup
  processed : ∀ k now key, (stateAt env events k).isProcessed now key = true ↔
    ∃ r ∈ runsAt env events k now, r.idempotencyKey = key
  found : ∀ k now, ∀ r ∈ runsAt env events k now,
    (stateAt env events k).getByIdempotencyKey now r.idempotencyKey = some r
  absent : ∀ k now key, (stateAt env events k).isProcessed now key = false →
    (stateAt env events k).getByIdempotencyKey now key = none
  bounded : ∀ k now, (runsAt env events k now).length ≤ maxRuns
  ordered : ∀ k now, (keys (runsAt env events k now)).Sublist (addedKeys env events k)
  newest : ∀ k run now wall ok, events k = .addRun run now wall ok →
    answerAt env events k = true → ∃ older,
    (runsAt env events k now ++ [run]).filter (recent env wall) =
      older ++ (stateAt env events (k + 1)).runs ∧
    (older ≠ [] → (stateAt env events (k + 1)).runs.length = maxRuns)
  givenUp : ∀ k now key, (stateAt env events k).isProcessed now key = true →
    (stateAt env events (k + 1)).isProcessed now key = false →
    ∃ run now' wall ok, events k = .addRun run now' wall ok ∧
      ∃ r ∈ runsAt env events k now', r.idempotencyKey = key ∧
        (recent env wall r = false ∨ ∃ older newer,
          (runsAt env events k now' ++ [run]).filter (recent env wall) = older ++ r :: newer ∧
            maxRuns ≤ newer.length)

theorem stateAt_succ (k : ℕ) :
    stateAt env events (k + 1) = ((stateAt env events k).step env (events k)).1 := rfl

theorem answerAt_eq (k : ℕ) :
    answerAt env events k = ((stateAt env events k).step env (events k)).2 := rfl

variable {env events}

theorem addedKeys_sublist (k : ℕ) :
    (addedKeys env events k).Sublist (addedKeys env events (k + 1)) := by
  rw [addedKeys]
  split
  · split
    · exact List.sublist_append_left _ _
    · exact List.Sublist.refl _
  · exact List.Sublist.refl _

theorem coherent_start : Coherent {} := by
  refine ⟨List.nodup_nil, Nat.zero_le _, nofun, nofun, fun _ => ⟨rfl, rfl⟩⟩

/-- A key is processed by its entry in the runs, whenever the reader comes. -/
theorem isProcessed_eq {s : History} (h : Coherent s) (now key : String) :
    s.isProcessed now key = true ↔ key ∈ keys s.remembered := by
  rw [h.isProcessed_iff, ← h.ensureLoaded_keys now, keys, List.mem_map]

variable (hsave : ∀ k, (events k).saves) (hkeys : ∀ k, (events k).keepsKeys)
include hsave hkeys

theorem coherent_run (hids : ∀ k, IdsKept env (stateAt env events k) (events k)) (k : ℕ) :
    Coherent (stateAt env events k) ∧ IdsTell (stateAt env events k).remembered := by
  induction k with
  | zero => exact ⟨coherent_start, List.nodup_nil, by simp [ids, stateAt, History.remembered]⟩
  | succ k ih =>
    rw [stateAt_succ]
    exact ⟨coherent_step ih.1 (hsave k) (hkeys k) (hids k),
      idsTell_step ih.1 (hsave k) (hkeys k) (hids k) ih.2⟩

theorem keys_step (hids : ∀ k, IdsKept env (stateAt env events k) (events k)) (k : ℕ) :
    keys (stateAt env events (k + 1)).remembered = keys (stateAt env events k).remembered ∨
      ∃ run now wall ok, events k = .addRun run now wall ok ∧ answerAt env events k = true ∧
        (stateAt env events (k + 1)).remembered =
          retained env wall (runsAt env events k now ++ [run]) := by
  have hcoh := (coherent_run hsave hkeys hids k).1
  by_cases hadd : ∃ run now wall ok, events k = .addRun run now wall ok
  · obtain ⟨run, now, wall, ok, he⟩ := hadd
    obtain rfl : ok = true := by
      have hok := hsave k
      rwa [he] at hok
    rw [stateAt_succ, answerAt_eq, he]
    change keys ((stateAt env events k).addRun env run now wall true).1.remembered = _ ∨
      ∃ run' now' wall' ok', _ ∧ ((stateAt env events k).addRun env run now wall true).2 = true ∧
        ((stateAt env events k).addRun env run now wall true).1.remembered = _
    cases hproc : (stateAt env events k).isProcessed now run.idempotencyKey with
    | true =>
      rw [addRun_seen wall true hproc]
      exact .inl (keys_of_entries (remembered_ensureLoaded hcoh now))
    | false =>
      refine .inr ⟨run, now, wall, true, rfl, ?_, remembered_addRun wall hproc⟩
      rw [addRun_new wall true hproc]
      rfl
  · rw [stateAt_succ]
    exact .inl (keys_of_entries (entries_step hcoh (hsave k) (hkeys k) (hids k)
      fun run now wall ok he => hadd ⟨run, now, wall, ok, he⟩))

theorem IndexKept.idsKept (h : IndexKept env events) (k : ℕ) :
    IdsKept env (stateAt env events k) (events k) := by
  have hboth : Coherent (stateAt env events k) ∧ IdsKept env (stateAt env events k) (events k) := by
    induction k with
    | zero => exact ⟨coherent_start, idsKept_of_found coherent_start (hsave 0) (hkeys 0) (h.found 1)⟩
    | succ k ih =>
      have hnext : Coherent (stateAt env events (k + 1)) :=
        coherent_step ih.1 (hsave k) (hkeys k) ih.2
      exact ⟨hnext, idsKept_of_found hnext (hsave _) (hkeys _) (h.found (k + 2))⟩
  exact hboth.2

end Runs

/-- Every text is a time in the retention period. -/
def steadyEnv : Env := ⟨fun _ => some 1700000000⟩

def hourlyRun : RunRecord where
  runId := "run_0a1b2c3d4e5f"
  scheduleId := "sched_1"
  traceId := "0a1b2c3d4e5f60718293a4b5c6d7e8f9"
  idempotencyKey := "sched_11aa22bb33cc44dd"
  startedAt := "2023-11-14T22:13:20+00:00"

/-- Added, completed, saved by a flush, and read again ever after. -/
def hourlyEvents : ℕ → Event
  | 0 => .addRun hourlyRun "2023-11-14T22:13:20+00:00" 1700000000 true
  | 1 => .updateRun "run_0a1b2c3d4e5f" [.status "completed", .promptId (some "prompt_1")]
      "2023-11-14T22:13:21+00:00" true
  | 2 => .flush true
  | _ => .reload

/-- Another run of another key under the same id. -/
def twinEvents : ℕ → Event
  | 0 => .addRun hourlyRun "2023-11-14T22:13:20+00:00" 1700000000 true
  | 1 => .addRun { hourlyRun with idempotencyKey := "sched_55ee66ff77001122" }
      "2023-11-14T22:13:20+00:00" 1700000000 true
  | _ => .reload

theorem twin_saves (k : ℕ) : (twinEvents k).saves := by
  match k with
  | 0 | 1 => rfl
  | k + 2 => trivial

theorem twin_keepsKeys (k : ℕ) : (twinEvents k).keepsKeys := by
  match k with
  | 0 | 1 | k + 2 => trivial

theorem retained_of_few {env : Env} {wall : ℚ} {runs : List RunRecord}
    (hrec : ∀ r ∈ runs, recent env wall r = true) (hlen : runs.length ≤ maxRuns) :
    retained env wall runs = runs := by
  have hfilter : runs.filter (recent env wall) = runs := List.filter_eq_self.mpr hrec
  rw [retained, hfilter, Nat.sub_eq_zero_of_le hlen]
  exact List.drop_zero

end OpenClaw.RunHistory
