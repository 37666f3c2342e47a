import OpenClaw.Foundation.Run
import OpenClaw.ModelManager.ChangeNumbers
import OpenClaw.ModelManager.DownloadWorker

/-!
# Runs of the model manager

The tasks, their workers, their cancel events and their staging directories, with whatever comes
between the steps of a worker: other workers, requests, imports and new processes. A process that
ends takes its workers with it.
-/

namespace OpenClaw.ModelManager

open Foundation
set_option autoImplicit false

structure Worker where
  spec : DownloadSpec
  phase : Phase

def Worker.isPending (w : Worker) : Bool :=
  match w.phase with
  | .submitted => true
  | _ => false

def Worker.isReceiving (w : Worker) : Bool :=
  match w.phase with
  | .receiving _ _ => true
  | _ => false

structure Manager where
  store : TaskStore := {}
  ids : List String := []
  stages : String → StageDir := fun _ => {}
  workers : String → Option Worker := fun _ => none
  cancelEvents : String → Bool := fun _ => false

inductive Action where
  | createDownloadTask (spec : DownloadSpec) (now : ℚ) (save : Save)
  | work (id : String) (o : Outside)
  | cancelDownloadTask (id : String) (withdrawn : Bool) (now : ℚ) (save : Save)
  | importEnds (id path recordId : String) (now : ℚ) (save : Save)
  /-- `flushed` is how much of each part file is on disk when its process ends -/
  | restart (replayLimit : ℕ) (now saveAt : ℚ) (flushed : String → ℕ)

/-- The tasks that a new process puts in its queue again. -/
def TaskStore.replayable (s : TaskStore) (replayLimit : ℕ) : List String :=
  (s.recoverable.map DownloadTask.taskId).take replayLimit

namespace Manager

/-- Only a worker that waits in the queue can be withdrawn, and `cancel_download_task` asks for it
only while the task is queued. -/
def withdraws (m : Manager) (id : String) (withdrawn : Bool) : Bool :=
  withdrawn && (m.workers id).any Worker.isPending &&
    (m.store.tasks.get? id).any fun t => t.state == .queued

def step (h : Host) (m : Manager) : Action → Manager
  | .createDownloadTask spec now save =>
    -- `uuid4` gives a new id
    if spec.taskId ∈ m.ids then m
    else
      { store := (m.store.createDownloadTask spec now save).1
        ids := spec.taskId :: m.ids
        stages := m.stages
        workers := Function.update m.workers spec.taskId (some ⟨spec, .submitted⟩)
        cancelEvents := Function.update m.cancelEvents spec.taskId false }
  | .work id o =>
    match m.workers id with
    | none => m
    | some w =>
      let desk := workStep h m.store w.spec (m.stages id) o (m.cancelEvents id) w.phase
      { m with
        store := desk.store
        stages := Function.update m.stages id desk.stage
        workers := Function.update m.workers id (desk.phase.map (Worker.mk w.spec)) }
  | .cancelDownloadTask id withdrawn now save =>
    let withdrawn := m.withdraws id withdrawn
    { m with
      store := (m.store.cancelDownloadTask id withdrawn now save).1
      workers := if withdrawn then Function.update m.workers id none else m.workers
      cancelEvents :=
        if (m.store.tasks.get? id).any fun t => !t.isTerminal then
          Function.update m.cancelEvents id true
        else m.cancelEvents }
  | .importEnds id path recordId now save =>
    { m with store := (m.store.importEnds id path recordId now save).1 }
  | .restart replayLimit now saveAt flushed =>
    let store := TaskStore.restart m.store.file replayLimit now saveAt
    { store := store
      ids := m.ids
      stages := fun id =>
        if (m.workers id).any Worker.isReceiving then (m.stages id).cut (flushed id)
        else m.stages id
      workers := fun id =>
        if id ∈ (TaskStore.load m.store.file).replayable replayLimit then
          (store.tasks.get? id).map fun t => ⟨t.spec, .submitted⟩
        else none
      cancelEvents := fun _ => false }

end Manager

/-! ## What a run should keep -/

section Runs
variable (h : Host)

/-- The manager before the `k`-th action of a run. -/
def managerAt (actions : ℕ → Action) : ℕ → Manager :=
  run (fun m a => (m.step h a, ())) {} actions

def Manager.stateOf (m : Manager) (id : String) : Option TaskState :=
  (m.store.tasks.get? id).map DownloadTask.state

/-- A finished task stays as it is. -/
def FinalStates (actions : ℕ → Action) : Prop :=
  ∀ id state k n, k ≤ n → (managerAt h actions k).stateOf id = some state →
    state.isTerminal = true → (managerAt h actions n).stateOf id = some state

/-- The staged file of a task, with the digest that the task expects. -/
structure Staged (t : DownloadTask) (d : StageDir) : Prop where
  path : t.status.stagedPath = h.stagedFile t.spec
  computed : t.status.computedSha256 = t.spec.expectedSha256
  file : ∃ bytes, d.final = some bytes ∧ h.sha256 bytes = t.spec.expectedSha256

def CompletedStaged (actions : ℕ → Action) : Prop :=
  ∀ k id t, (managerAt h actions k).store.tasks.get? id = some t → t.state = .completed →
    Staged h t ((managerAt h actions k).stages id)

/-- A worker that resumes from `resumeFrom` bytes gets a response that is taken. -/
structure Resumes (m : Manager) (id : String) (o : Outside) (a : Attempt) (st : Stream) : Prop where
  resuming : ∃ spec, m.workers id = some ⟨spec, .requesting a⟩
  positive : 0 < a.resumeFrom
  arrives : o.fault = false
  taken : a.openStream o.response = .stream st

/-- What is received goes to the end of the part file: a resumed body starts at the length that the
file has, and in a body that is read the next byte has the number of bytes in the file. -/
structure AppendsAtEnd (actions : ℕ → Action) : Prop where
  start : ∀ k id o a st, actions k = .work id o → Resumes (managerAt h actions k) id o a st →
    ∃ bytes stop total, ((managerAt h actions k).stages id).part = some bytes ∧
      ((managerAt h actions (k + 1)).stages id).part = some bytes ∧
      parseContentRange o.response.contentRange = .ok ((bytes.length : ℤ), stop, total) ∧
      st.downloaded = bytes.length
  reading : ∀ k id spec st, (managerAt h actions k).workers id = some ⟨spec, .receiving .chunk st⟩ →
    ∃ bytes, ((managerAt h actions k).stages id).part = some bytes ∧
      st.downloaded = bytes.length ∧ st.digest = bytes

structure DownloadsLawful (actions : ℕ → Action) : Prop where
  final : FinalStates h actions
  staged : CompletedStaged h actions
  appends : AppendsAtEnd h actions

/-- What keeps finished tasks as they are: a completion is saved, and when a process ends the file
has every finished task in its state. -/
def FinalsSaved (m : Manager) : Action → Prop
  | .work id o => ∀ spec digest, m.workers id = some ⟨spec, .completing digest⟩ → o.save.ok = true
  | .restart _ _ _ _ => ∀ id t, m.store.tasks.get? id = some t → t.isTerminal = true →
      ∃ t', (TaskStore.load m.store.file).tasks.get? id = some t' ∧ t'.state = t.state
  | _ => True

end Runs

/-! ## Blocks -/

namespace TaskStore
variable {s s' : TaskStore} {id : String}

/-- What the file has of a task. -/
def saved (s : TaskStore) (id : String) : Option DownloadTask := (load s.file).tasks.get? id

theorem get?_load_sorted (s : TaskStore) (id : String) :
    (load (some (sortedBy (fun t => t.spec.createdAt) s.tasks.rows))).tasks.get? id =
      s.tasks.get? id := by
  have hperm := sortedBy_perm (fun t : DownloadTask => t.spec.createdAt) s.tasks.rows
  have hids : ((sortedBy (fun t : DownloadTask => t.spec.createdAt) s.tasks.rows).map
      DownloadTask.taskId).Nodup := ((hperm.map _).nodup_iff).mpr s.tasks.nodup
  have hrows : (Table.ofRows (sortedBy (fun t : DownloadTask => t.spec.createdAt)
      s.tasks.rows) : Table DownloadTask.taskId).rows = _ := Table.rows_ofRows hids
  ext t
  constructor
  · intro h
    have hmem := Table.mem_of_get? h
    simp only [load, Option.getD_some, hrows, mem_sortedBy] at hmem
    exact Table.key_of_get? h ▸ Table.get?_key hmem
  · intro h
    rw [← Table.key_of_get? h]
    apply Table.get?_key
    simp only [load, Option.getD_some, hrows, mem_sortedBy]
    exact Table.mem_of_get? h

/-- The file is as it was, or as the tasks are now. -/
def SavedOrNot (s s' : TaskStore) : Prop :=
  (∀ k, s'.saved k = s.saved k) ∨ ∀ k, s'.saved k = s'.tasks.get? k

/-- A block that changes at most the status of one task. -/
structure Block (s s' : TaskStore) (id : String) (f : DownloadStatus → DownloadStatus) : Prop where
  others : ∀ k, k ≠ id → s'.tasks.get? k = s.tasks.get? k
  own : (s'.tasks.get? id).map (fun t => (t.spec, t.status)) =
    (s.tasks.get? id).map fun t => (t.spec, f t.status)
  saved : SavedOrNot s s'

theorem persist_saved (s : TaskStore) (force : Bool) (save : Save) :
    SavedOrNot s (s.persist force save).1 := by
  obtain ⟨htasks, -, hfile | hfile⟩ := persist_fields s force save
  · refine .inl fun k => ?_
    rw [saved, hfile, ← saved]
  · refine .inr fun k => ?_
    rw [saved, hfile, htasks]
    exact get?_load_sorted s k

/-- A forced save that works. -/
theorem persist_forced (s : TaskStore) {save : Save} (hok : save.ok = true) (k : String) :
    (s.persist true save).1.saved k = s.tasks.get? k := by
  unfold persist
  rw [if_neg (by simp), if_pos hok]
  exact get?_load_sorted s k

@[simp] theorem change_file (s : TaskStore) (id : String) (f : DownloadStatus → DownloadStatus) :
    (s.change id f).file = s.file := by
  unfold change
  cases s.tasks.get? id <;> rfl

theorem block_change (s : TaskStore) (id : String) (f : DownloadStatus → DownloadStatus)
    (force : Bool) (save : Save) : Block s ((s.change id f).persist force save).1 id f := by
  have htasks := (persist_fields (s.change id f) force save).1
  refine ⟨fun k hk => ?_, ?_, ?_⟩
  · rw [htasks, get?_change, if_neg hk]
  · rw [htasks, get?_change, if_pos rfl, Option.map_map]
    rfl
  · rcases persist_saved (s.change id f) force save with hold | hnew
    · refine .inl fun k => (hold k).trans ?_
      rw [saved, change_file, ← saved]
    · exact .inr hnew

theorem block_touch (s : TaskStore) (id : String) (f : DownloadStatus → DownloadStatus)
    (force : Bool) (save : Save) : Block s ((s.touch id f).persist force save).1 id f := by
  have htasks := (persist_fields (s.touch id f) force save).1
  refine ⟨fun k hk => ?_, ?_, ?_⟩
  · rw [htasks, get?_touch, if_neg hk]
  · rw [htasks, get?_touch, if_pos rfl, Option.map_map]
    rfl
  · rcases persist_saved (s.touch id f) force save with hold | hnew
    · refine .inl fun k => (hold k).trans ?_
      rw [saved, touch_file, ← saved]
    · exact .inr hnew

theorem block_refl (s : TaskStore) (id : String) : Block s s id fun t => t :=
  ⟨fun _ _ => rfl, rfl, .inl fun _ => rfl⟩

end TaskStore

end OpenClaw.ModelManager
