import Mathlib.Algebra.Order.Ring.Rat
import Mathlib.Data.Prod.Lex
import OpenClaw.Foundation.Table
import OpenClaw.Tenants.TenantContext

/-!
# Download tasks

The task list of the model manager (`services/model_manager_tasks.py`, and the blocks of
`services/model_manager_transfer.py` that hold its lock): its changes, its file and its listing.
Every block is one step. The readings of the clock and whether the file can be written are inputs.
A row that was written is read back as it was, so the file is a list of tasks.
-/

namespace OpenClaw.ModelManager

open Foundation
open Tenants (defaultTenantId normalizeTenantId)
set_option autoImplicit false

inductive TaskState where
  | queued | running | recovering | completed | failed | cancelled
  deriving DecidableEq

def TaskState.value : TaskState → String
  | queued => "queued"
  | running => "running"
  | recovering => "recovering"
  | completed => "completed"
  | failed => "failed"
  | cancelled => "cancelled"

def TaskState.isTerminal : TaskState → Bool
  | completed | failed | cancelled => true
  | queued | running | recovering => false

structure Provenance where
  publisher : String
  license : String
  sourceUrl : String
  note : String := ""
  deriving DecidableEq

/-- The fields of a task that never change. -/
structure DownloadSpec where
  taskId : String
  modelId : String
  name : String
  modelType : String
  source : String
  sourceLabel : String
  downloadUrl : String
  destinationSubdir : String
  filename : String
  expectedSha256 : String
  provenance : Provenance
  tenantId : PyStr
  createdAt : ℚ
  deriving DecidableEq

structure DownloadStatus where
  state : TaskState := .queued
  updatedAt : ℚ
  startedAt : ℚ := 0
  finishedAt : ℚ := 0
  bytesDownloaded : ℕ := 0
  totalBytes : ℕ := 0
  progress : ℚ := 0
  cancelRequested : Bool := false
  error : String := ""
  stagedPath : String := ""
  computedSha256 : String := ""
  imported : Bool := false
  installationPath : String := ""
  installationRecordId : String := ""
  resumeStatus : String := "not_started"
  recoveryAttempts : ℕ := 0
  lastCheckpointAt : ℚ := 0
  deriving DecidableEq

structure DownloadTask where
  spec : DownloadSpec
  status : DownloadStatus
  changeSeq : ℕ := 0
  deriving DecidableEq

namespace DownloadTask

def taskId (t : DownloadTask) : String := t.spec.taskId

def state (t : DownloadTask) : TaskState := t.status.state

def isTerminal (t : DownloadTask) : Bool := t.state.isTerminal

end DownloadTask

/-- The list, its counter, and the file with the time it was last written. -/
structure TaskStore where
  tasks : Table DownloadTask.taskId := Table.empty
  changeSeq : ℕ := 0
  lastPersistAt : ℚ := 0
  file : Option (List DownloadTask) := none

/-- A save: the reading of its clock, and whether the file can be written. -/
structure Save where
  now : ℚ
  ok : Bool
  deriving DecidableEq

namespace TaskStore

/-- `_persist_tasks_locked`: the store after it, and whether it raises. -/
def persist (s : TaskStore) (force : Bool) (save : Save) : TaskStore × Bool :=
  if force = false ∧ save.now - s.lastPersistAt < 3 / 10 then
    (s, false)
  else if save.ok then
    ({ s with
        file := some (sortedBy (fun t => t.spec.createdAt) s.tasks.rows)
        lastPersistAt := save.now }, false)
  else
    (s, true)

/-- A change of a task and of its number, which is the next one. -/
def change (s : TaskStore) (id : String) (f : DownloadStatus → DownloadStatus) : TaskStore :=
  match s.tasks.get? id with
  | none => s
  | some t =>
    { s with
      tasks := s.tasks.put { t with status := f t.status, changeSeq := s.changeSeq + 1 }
      changeSeq := s.changeSeq + 1 }

/-- A change of a task that leaves its number as it is. -/
def touch (s : TaskStore) (id : String) (f : DownloadStatus → DownloadStatus) : TaskStore :=
  match s.tasks.get? id with
  | none => s
  | some t => { s with tasks := s.tasks.put { t with status := f t.status } }

theorem get?_change (s : TaskStore) (id k : String) (f : DownloadStatus → DownloadStatus) :
    (s.change id f).tasks.get? k =
      if k = id then
        (s.tasks.get? id).map fun t =>
          { t with status := f t.status, changeSeq := s.changeSeq + 1 }
      else s.tasks.get? k := by
  unfold change
  cases hid : s.tasks.get? id with
  | none =>
    by_cases hk : k = id
    · rw [if_pos hk, hk, hid]
      rfl
    · rw [if_neg hk]
  | some t =>
    have hkey : t.taskId = id := Table.key_of_get? hid
    change (s.tasks.put _).get? k = _
    rw [Table.get?_put]
    change (if t.taskId = k then _ else _) = _
    rw [hkey]
    by_cases hk : id = k
    · rw [if_pos hk, if_pos hk.symm]
      rfl
    · rw [if_neg hk, if_neg (Ne.symm hk)]

theorem get?_touch (s : TaskStore) (id k : String) (f : DownloadStatus → DownloadStatus) :
    (s.touch id f).tasks.get? k =
      if k = id then (s.tasks.get? id).map fun t => { t with status := f t.status }
      else s.tasks.get? k := by
  unfold touch
  cases hid : s.tasks.get? id with
  | none =>
    by_cases hk : k = id
    · rw [if_pos hk, hk, hid]
      rfl
    · rw [if_neg hk]
  | some t =>
    have hkey : t.taskId = id := Table.key_of_get? hid
    change (s.tasks.put _).get? k = _
    rw [Table.get?_put]
    change (if t.taskId = k then _ else _) = _
    rw [hkey]
    by_cases hk : id = k
    · rw [if_pos hk, if_pos hk.symm]
      rfl
    · rw [if_neg hk, if_neg (Ne.symm hk)]

/-! ## The blocks -/

/-- The block of `create_download_task`; the checks of the request come before it. -/
def createDownloadTask (s : TaskStore) (spec : DownloadSpec) (now : ℚ) (save : Save) :
    TaskStore × Bool :=
  { s with
    tasks := s.tasks.put
      { spec := spec
        status := { updatedAt := now, resumeStatus := "queued_new" }
        changeSeq := s.changeSeq + 1 }
    changeSeq := s.changeSeq + 1 }.persist true save

/-- The first block of `run_task`. -/
def runBegins (s : TaskStore) (id : String) (now : ℚ) (save : Save) : TaskStore × Bool :=
  (s.change id fun t =>
    { t with
      state := .running
      startedAt := now
      updatedAt := now
      resumeStatus := if t.resumeStatus = "" then "running" else t.resumeStatus }).persist true save

def runCompletes (s : TaskStore) (id stagedPath digest : String) (now : ℚ) (save : Save) :
    TaskStore × Bool :=
  (s.change id fun t =>
    { t with
      state := .completed
      updatedAt := now
      finishedAt := now
      progress := 1
      stagedPath := stagedPath
      computedSha256 := digest }).persist true save

def runIsCancelled (s : TaskStore) (id : String) (now : ℚ) (save : Save) : TaskStore × Bool :=
  (s.change id fun t =>
    { t with state := .cancelled, error := "cancelled", updatedAt := now,
             finishedAt := now }).persist true save

def runFails (s : TaskStore) (id error : String) (now : ℚ) (save : Save) : TaskStore × Bool :=
  (s.change id fun t =>
    { t with state := .failed, error := error, updatedAt := now,
             finishedAt := now }).persist true save

def setResumeStatus (s : TaskStore) (id status : String) (now : ℚ) (save : Save) :
    TaskStore × Bool :=
  match s.tasks.get? id with
  | none => (s, false)
  | some _ =>
    (s.change id fun t =>
      { t with
        resumeStatus := String.ofList
          ((if status = "" then "not_started" else status).toList.take 120)
        updatedAt := now }).persist true save

/-- The block of `save_checkpoint`. -/
def checkpointSaved (s : TaskStore) (id : String) (updatedAt : ℚ) (save : Save) :
    TaskStore × Bool :=
  match s.tasks.get? id with
  | none => (s, false)
  | some _ => (s.touch id fun t => { t with lastCheckpointAt := updatedAt }).persist false save

def progress (s : TaskStore) (id : String) (downloaded total : ℕ) (now : ℚ) (save : Save) :
    TaskStore × Bool :=
  match s.tasks.get? id with
  | none => (s, false)
  | some _ =>
    (s.change id fun t =>
      { t with
        bytesDownloaded := downloaded
        totalBytes := total
        progress := if total = 0 then 0 else min 1 (downloaded / total)
        updatedAt := now }).persist false save

/-- The block of `cancel_download_task` for a task that is there; `withdrawn` is whether the future
can still be cancelled. -/
def cancelDownloadTask (s : TaskStore) (id : String) (withdrawn : Bool) (now : ℚ) (save : Save) :
    TaskStore × Bool :=
  match s.tasks.get? id with
  | none => (s, false)
  | some t =>
    if t.isTerminal then
      (s, false)
    else
      let s := s.change id fun t => { t with cancelRequested := true, updatedAt := now }
      let s := if t.state = .queued ∧ withdrawn then
          s.change id fun t =>
            { t with
              state := .cancelled
              error := "cancelled_before_start"
              finishedAt := now
              updatedAt := now }
        else s
      s.persist true save

/-- The last block of `import_downloaded_model`. -/
def importEnds (s : TaskStore) (id path recordId : String) (now : ℚ) (save : Save) :
    TaskStore × Bool :=
  match s.tasks.get? id with
  | none => (s, false)
  | some _ =>
    (s.change id fun t =>
      { t with
        imported := true
        installationPath := path
        installationRecordId := recordId
        updatedAt := now }).persist true save

/-! ## A new process -/

/-- `load_tasks_from_disk` of a new process. -/
def load (file : Option (List DownloadTask)) : TaskStore where
  tasks := Table.ofRows (file.getD [])
  changeSeq := (file.getD []).foldl (fun n t => max n t.changeSeq) 0
  file := file

def recoverable (s : TaskStore) : List DownloadTask :=
  sortedBy (fun t => t.spec.createdAt) (s.tasks.rows.filter fun t => !t.isTerminal)

def recovering (now : ℚ) (t : DownloadStatus) : DownloadStatus :=
  { t with
    state := .recovering
    updatedAt := now
    error := "restart_recovery_pending"
    recoveryAttempts := t.recoveryAttempts + 1
    resumeStatus := "restart_recovering" }

def overflowed (now : ℚ) (t : DownloadStatus) : DownloadStatus :=
  { t with
    state := .failed
    error := "recovery_replay_limit_exceeded"
    resumeStatus := "recovery_replay_limit_exceeded"
    finishedAt := now
    updatedAt := now }

def replayed (now : ℚ) (t : DownloadStatus) : DownloadStatus :=
  { t with
    state := .queued
    cancelRequested := false
    error := ""
    updatedAt := now
    resumeStatus := "restart_replay_queued" }

def changeAll (s : TaskStore) (ids : List String) (f : DownloadStatus → DownloadStatus) :
    TaskStore :=
  ids.foldl (fun s id => s.change id f) s

/-- `recover_incomplete_tasks` up to its save. -/
def recovered (s : TaskStore) (replayLimit : ℕ) (now : ℚ) : TaskStore :=
  let ids := s.recoverable.map DownloadTask.taskId
  let s := s.changeAll ids (recovering now)
  let s := s.changeAll (ids.drop replayLimit) (overflowed now)
  s.changeAll (ids.take replayLimit) (replayed now)

/-- What a new process has once it is up. A start whose save fails raises, and leaves no process. -/
def restart (file : Option (List DownloadTask)) (replayLimit : ℕ) (now saveAt : ℚ) : TaskStore :=
  let s := load file
  if s.recoverable = [] then s
  else ((s.recovered replayLimit now).persist true ⟨saveAt, true⟩).1

end TaskStore

/-! ## The listing -/

/-- `tenant_ok`: what multi-tenant mode lets a request see. -/
def tenantOk (multiTenant : Bool) (requestTenant : Option PyStr) (recordTenant : PyStr) : Bool :=
  let norm := fun (t : PyStr) =>
    match normalizeTenantId (if t = [] then defaultTenantId else t) with
    | .ok tenant => tenant
    | .error _ => defaultTenantId
  !multiTenant || norm recordTenant == norm (requestTenant.getD [])

structure Delta where
  requestedSinceSeq : ℕ
  effectiveSinceSeq : ℕ
  nextSinceSeq : ℕ
  latestChangeSeq : ℕ
  earliestAvailableSeq : Option ℕ
  latestAvailableSeq : Option ℕ
  cursorStatus : String
  truncated : Bool

structure TaskPage where
  tasks : List DownloadTask
  limit : ℕ
  offset : ℕ
  total : ℕ
  delta : Option Delta := none

structure ListArgs where
  visible : DownloadTask → Bool
  /-- the stripped lower-case text of `state` -/
  stateFilter : String := ""
  limit : ℤ := 100
  offset : ℤ := 0
  sinceSeq : Option ℤ := none

def ListArgs.clampedLimit (args : ListArgs) : ℕ := (max 1 (min 200 args.limit)).toNat

def earliest (out : List DownloadTask) : Option ℕ :=
  ((out.map DownloadTask.changeSeq).filter (0 < ·)).min?

def latest (out : List DownloadTask) : Option ℕ :=
  ((out.map DownloadTask.changeSeq).filter (0 < ·)).max?

/-- The position that a delta starts from, and what it says about it. -/
def resetCursor (requested latestChangeSeq : ℕ) (earliestAvailable : Option ℕ) : ℕ × String :=
  let (effective, status) :=
    if latestChangeSeq < requested then (latestChangeSeq, "future_cursor_reset")
    else (requested, "ok")
  match earliestAvailable with
  | some e =>
    if effective ≠ 0 ∧ effective + 1 < e then (e - 1, "stale_cursor_reset") else (effective, status)
  | none => (effective, status)

/-- The tasks that have changed since a position, in the order of their numbers. -/
def changesAfter (pos : ℕ) (out : List DownloadTask) : List DownloadTask :=
  sortedBy (fun t => toLex (t.changeSeq, t.spec.createdAt))
    (out.filter fun t => pos < t.changeSeq)

/-- The number that a page ends with. -/
def nextAfter (pos : ℕ) (page : List DownloadTask) : ℕ :=
  (page.getLast?.map DownloadTask.changeSeq).getD pos

/-- The answer of a delta query. -/
def deltaPage (latestChangeSeq : ℕ) (out : List DownloadTask) (limit requested : ℕ) : TaskPage :=
  let reset := resetCursor requested latestChangeSeq (earliest out)
  let changes := changesAfter reset.1 out
  let page := changes.take limit
  let next := nextAfter reset.1 page
  { tasks := page
    limit := limit
    offset := 0
    total := changes.length
    delta := some {
      requestedSinceSeq := requested
      effectiveSinceSeq := reset.1
      nextSinceSeq := next
      latestChangeSeq := latestChangeSeq
      earliestAvailableSeq := earliest out
      latestAvailableSeq := latest out
      cursorStatus := reset.2
      truncated := decide (page.length < changes.length) ||
        (latest out).any fun n => decide (next < n) } }

def TaskStore.listDownloadTasks (s : TaskStore) (args : ListArgs) : TaskPage :=
  let limit := args.clampedLimit
  let offset := (max 0 args.offset).toNat
  let out := s.tasks.rows.filter fun t =>
    args.visible t && (args.stateFilter == "" || t.state.value == args.stateFilter)
  match args.sinceSeq with
  | none =>
    let out := sortedBy (fun t => -t.spec.createdAt) out
    { tasks := (out.drop offset).take limit, limit := limit, offset := offset, total := out.length }
  | some since => deltaPage s.changeSeq out limit (max 0 since).toNat

end OpenClaw.ModelManager
