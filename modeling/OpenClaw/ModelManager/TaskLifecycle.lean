import OpenClaw.ModelManager.DownloadRuns

/-!
# The states of a download task

Each task is followed through its row in memory, its row in the file, its worker and its directory.
A worker that has not raised works on a task that is open in both; it leaves by the block that
completes the task, cancels it or fails it. Only the handler of an error may come after a
completion: that of the save that completes the task.
-/

namespace OpenClaw.ModelManager

open Foundation
set_option autoImplicit false

/-! ## Changes of a status -/

/-- An open task stays open. -/
def StaysOpen (f : DownloadStatus → DownloadStatus) : Prop :=
  ∀ t : DownloadStatus, t.state.isTerminal = false → (f t).state.isTerminal = false

/-- The state and what it rests on stay. -/
structure Keeps (f : DownloadStatus → DownloadStatus) : Prop where
  state : ∀ t, (f t).state = t.state
  stagedPath : ∀ t, (f t).stagedPath = t.stagedPath
  computedSha256 : ∀ t, (f t).computedSha256 = t.computedSha256

theorem Keeps.staysOpen {f : DownloadStatus → DownloadStatus} (h : Keeps f) : StaysOpen f :=
  fun t ht => by rw [h.state, ht]

theorem keeps_id : Keeps fun t => t := ⟨fun _ => rfl, fun _ => rfl, fun _ => rfl⟩

namespace TaskStore

variable {s s' : TaskStore} {id : String} {f : DownloadStatus → DownloadStatus}

theorem Block.mem (h : Block s s' id f) {t : DownloadTask} (ht : s.tasks.get? id = some t) :
    ∃ t', s'.tasks.get? id = some t' ∧ t'.spec = t.spec ∧ t'.status = f t.status := by
  have hown := h.own
  rw [ht, Option.map_some, Option.map_eq_some_iff] at hown
  obtain ⟨t', ht', heq⟩ := hown
  exact ⟨t', ht', (Prod.mk.inj heq).1, (Prod.mk.inj heq).2⟩

theorem Block.of_mem (h : Block s s' id f) {t' : DownloadTask} (ht : s'.tasks.get? id = some t') :
    ∃ t, s.tasks.get? id = some t ∧ t'.spec = t.spec ∧ t'.status = f t.status := by
  have hown := h.own.symm
  rw [ht, Option.map_some, Option.map_eq_some_iff] at hown
  obtain ⟨t, ht, heq⟩ := hown
  exact ⟨t, ht, (Prod.mk.inj heq).1.symm, (Prod.mk.inj heq).2.symm⟩

theorem block_setResumeStatus (s : TaskStore) (id status : String) (now : ℚ) (save : Save) :
    ∃ f, Keeps f ∧ Block s (s.setResumeStatus id status now save).1 id f := by
  unfold setResumeStatus
  cases h : s.tasks.get? id with
  | none => exact ⟨_, keeps_id, block_refl s id⟩
  | some t =>
    refine ⟨_, ?_, block_change s id _ true save⟩
    exact ⟨fun _ => rfl, fun _ => rfl, fun _ => rfl⟩

theorem block_progress (s : TaskStore) (id : String) (downloaded total : ℕ) (now : ℚ)
    (save : Save) : ∃ f, Keeps f ∧ Block s (s.progress id downloaded total now save).1 id f := by
  unfold progress
  cases h : s.tasks.get? id with
  | none => exact ⟨_, keeps_id, block_refl s id⟩
  | some t =>
    refine ⟨_, ?_, block_change s id _ false save⟩
    exact ⟨fun _ => rfl, fun _ => rfl, fun _ => rfl⟩

theorem block_checkpointSaved (s : TaskStore) (id : String) (updatedAt : ℚ) (save : Save) :
    ∃ f, Keeps f ∧ Block s (s.checkpointSaved id updatedAt save).1 id f := by
  unfold checkpointSaved
  cases h : s.tasks.get? id with
  | none => exact ⟨_, keeps_id, block_refl s id⟩
  | some t =>
    refine ⟨_, ?_, block_touch s id _ false save⟩
    exact ⟨fun _ => rfl, fun _ => rfl, fun _ => rfl⟩

theorem block_importEnds (s : TaskStore) (id path recordId : String) (now : ℚ) (save : Save) :
    ∃ f, Keeps f ∧ Block s (s.importEnds id path recordId now save).1 id f := by
  unfold importEnds
  cases h : s.tasks.get? id with
  | none => exact ⟨_, keeps_id, block_refl s id⟩
  | some t =>
    refine ⟨_, ?_, block_change s id _ true save⟩
    exact ⟨fun _ => rfl, fun _ => rfl, fun _ => rfl⟩

theorem block_change_change (s : TaskStore) (id : String) (f g : DownloadStatus → DownloadStatus)
    (force : Bool) (save : Save) :
    Block s (((s.change id f).change id g).persist force save).1 id (g ∘ f) := by
  have hlast := block_change (s.change id f) id g force save
  refine ⟨fun k hk => ?_, ?_, ?_⟩
  · rw [hlast.others k hk, get?_change, if_neg hk]
  · rw [hlast.own, get?_change, if_pos rfl, Option.map_map]
    rfl
  · rcases hlast.saved with hold | hnew
    · refine .inl fun k => (hold k).trans ?_
      rw [saved, change_file, ← saved]
    · exact .inr hnew

theorem block_cancel_asked (s : TaskStore) (id : String) (now : ℚ) (save : Save) :
    ∃ f, Keeps f ∧ Block s (s.cancelDownloadTask id false now save).1 id f := by
  unfold cancelDownloadTask
  cases h : s.tasks.get? id with
  | none => exact ⟨_, keeps_id, block_refl s id⟩
  | some t =>
    simp only
    split
    · exact ⟨_, keeps_id, block_refl s id⟩
    · rw [if_neg (by simp)]
      refine ⟨_, ?_, block_change s id _ true save⟩
      exact ⟨fun _ => rfl, fun _ => rfl, fun _ => rfl⟩

theorem block_cancel_withdrawn {t : DownloadTask} (ht : s.tasks.get? id = some t)
    (hqueued : t.state = .queued) (now : ℚ) (save : Save) :
    ∃ f, (∀ u : DownloadStatus, (f u).state = .cancelled) ∧
      Block s (s.cancelDownloadTask id true now save).1 id f := by
  unfold cancelDownloadTask
  rw [ht]
  have hopen : t.isTerminal = false := by rw [DownloadTask.isTerminal, hqueued]; rfl
  simp only [hopen, hqueued, and_self, if_true, Bool.false_eq_true, if_false]
  refine ⟨_, ?_, block_change_change s id _ _ true save⟩
  exact fun _ => rfl

/-- What `runCompletes` does to a status. -/
def completion (stagedPath digest : String) (now : ℚ) (t : DownloadStatus) : DownloadStatus :=
  { t with
    state := .completed
    updatedAt := now
    finishedAt := now
    progress := 1
    stagedPath := stagedPath
    computedSha256 := digest }

theorem block_runCompletes (s : TaskStore) (id stagedPath digest : String) (now : ℚ)
    (save : Save) : Block s (s.runCompletes id stagedPath digest now save).1 id
      (completion stagedPath digest now) :=
  block_change s id _ true save

theorem createDownloadTask_row (s : TaskStore) (spec : DownloadSpec) (now : ℚ) (save : Save) :
    ∃ t : DownloadTask, t.spec = spec ∧ t.state = .queued ∧
      (∀ k, (s.createDownloadTask spec now save).1.tasks.get? k =
        if spec.taskId = k then some t else s.tasks.get? k) ∧
      SavedOrNot s (s.createDownloadTask spec now save).1 := by
  let t : DownloadTask :=
    { spec := spec
      status := { updatedAt := now, resumeStatus := "queued_new" }
      changeSeq := s.changeSeq + 1 }
  let mid : TaskStore := { s with tasks := s.tasks.put t, changeSeq := s.changeSeq + 1 }
  refine ⟨t, rfl, rfl, fun k => ?_, persist_saved mid true save⟩
  rw [createDownloadTask, (persist_fields mid true save).1]
  exact Table.get?_put s.tasks t k

/-- The rows of the task after a block: the one in memory is changed, and the file may still have
the old one. -/
theorem Block.row (h : Block s s' id f) {t' : DownloadTask}
    (ht : s'.tasks.get? id = some t' ∨ s'.saved id = some t') :
    (∃ t, s.tasks.get? id = some t ∧ t'.spec = t.spec ∧ t'.status = f t.status) ∨
      s.saved id = some t' := by
  rcases ht with ht | ht
  · exact .inl (h.of_mem ht)
  · rcases h.saved with hold | hnew
    · exact .inr (hold id ▸ ht)
    · exact .inl (h.of_mem (hnew id ▸ ht))

end TaskStore

/-! ## One task -/

structure View where
  memory : Option DownloadTask
  saved : Option DownloadTask
  worker : Option Worker
  stage : StageDir

def Manager.view (m : Manager) (id : String) : View :=
  ⟨m.store.tasks.get? id, m.store.saved id, m.workers id, m.stages id⟩

def View.Row (v : View) (t : DownloadTask) : Prop := v.memory = some t ∨ v.saved = some t

def Phase.isRaising : Phase → Bool
  | .raising _ => true
  | _ => false

/-- What the worker of a task knows of its directory. -/
def PhaseHolds (h : Host) (spec : DownloadSpec) (d : StageDir) : Phase → Prop
  | .resumeAttempt a | .requesting a =>
    a.resumeFrom = 0 ∧ a.digest = [] ∨ d.part = some a.digest ∧ a.resumeFrom = a.digest.length
  | .receiving _ st => d.part = some st.digest ∧ st.downloaded = st.digest.length
  | .renamed st | .finishing st =>
    d.final = some st.digest ∧ h.sha256 st.digest = spec.expectedSha256
  | .completing digest => digest = spec.expectedSha256 ∧
    ∃ bytes, d.final = some bytes ∧ h.sha256 bytes = spec.expectedSha256
  | _ => True

structure View.Ok (h : Host) (v : View) : Prop where
  spec : ∀ w, v.worker = some w → ∃ t, v.memory = some t ∧ t.spec = w.spec
  staged : ∀ t, v.Row t → t.state = .completed → Staged h t v.stage
  isOpen : ∀ w, v.worker = some w → w.phase.isRaising = false →
    ∀ t, v.Row t → t.isTerminal = false
  phase : ∀ w, v.worker = some w → PhaseHolds h w.spec v.stage w.phase

section Views
variable {h : Host} {v v' : View}

/-- Another task changes; at most the file is written. -/
theorem View.Ok.other (hv : v.Ok h) (hmem : v'.memory = v.memory) (hworker : v'.worker = v.worker)
    (hstage : v'.stage = v.stage) (hsaved : v'.saved = v.saved ∨ v'.saved = v'.memory) :
    v'.Ok h := by
  have hrow : ∀ t, v'.Row t → v.Row t := by
    rintro t (ht | ht)
    · exact .inl (hmem ▸ ht)
    · rcases hsaved with heq | heq
      · exact .inr (heq ▸ ht)
      · exact .inl (hmem ▸ heq ▸ ht)
  constructor
  · rw [hworker, hmem]
    exact hv.spec
  · intro t ht hstate
    rw [hstage]
    exact hv.staged t (hrow t ht) hstate
  · intro w hw hp t ht
    exact hv.isOpen w (hworker ▸ hw) hp t (hrow t ht)
  · rw [hworker, hstage]
    exact hv.phase

variable {s s' : TaskStore} {id : String} {f : DownloadStatus → DownloadStatus}
  {spec : DownloadSpec} {d d' : StageDir} {p : Phase} {worker : Option Worker}

/-- Its worker goes on: the task stays open, so the directory may change. -/
theorem View.Ok.move (hv : View.Ok h ⟨s.tasks.get? id, s.saved id, some ⟨spec, p⟩, d⟩)
    (hp : p.isRaising = false) (hb : TaskStore.Block s s' id f) (hf : StaysOpen f)
    {p' : Option Phase} (hphase : ∀ q, p' = some q → PhaseHolds h spec d' q) :
    View.Ok h ⟨s'.tasks.get? id, s'.saved id, p'.map (Worker.mk spec), d'⟩ := by
  have hopen : ∀ t', s'.tasks.get? id = some t' ∨ s'.saved id = some t' →
      t'.isTerminal = false := by
    intro t' ht'
    rcases hb.row ht' with ⟨t, ht, -, hstatus⟩ | hold
    · have hbefore := hv.isOpen _ rfl hp t (.inl ht)
      rw [DownloadTask.isTerminal, DownloadTask.state, hstatus]
      exact hf t.status hbefore
    · exact hv.isOpen _ rfl hp t' (.inr hold)
  constructor
  · intro w hw
    obtain ⟨q, -, rfl⟩ := Option.map_eq_some_iff.mp hw
    obtain ⟨t, ht, hspec⟩ := hv.spec _ rfl
    obtain ⟨t', ht', hspec', -⟩ := hb.mem ht
    exact ⟨t', ht', hspec'.trans hspec⟩
  · intro t ht hstate
    have hterm := hopen t ht
    rw [DownloadTask.isTerminal, hstate] at hterm
    cases hterm
  · exact fun _ _ _ => hopen
  · intro w hw
    obtain ⟨q, hq, rfl⟩ := Option.map_eq_some_iff.mp hw
    exact hphase q hq

/-- The state of the task stays, and its worker is where it was. -/
theorem View.Ok.keep (hv : View.Ok h ⟨s.tasks.get? id, s.saved id, worker, d⟩)
    (hb : TaskStore.Block s s' id f) (hf : Keeps f) :
    View.Ok h ⟨s'.tasks.get? id, s'.saved id, worker, d⟩ := by
  constructor
  · intro w hw
    obtain ⟨t, ht, hspec⟩ := hv.spec w hw
    obtain ⟨t', ht', hspec', -⟩ := hb.mem ht
    exact ⟨t', ht', hspec'.trans hspec⟩
  · intro t' ht' hstate
    rcases hb.row ht' with ⟨t, ht, hspec, hstatus⟩ | hold
    · rw [DownloadTask.state, hstatus, hf.state] at hstate
      obtain ⟨hpath, hcomputed, hfile⟩ := hv.staged t (.inl ht) hstate
      refine ⟨?_, ?_, ?_⟩
      · rw [hstatus, hf.stagedPath, hspec, hpath]
      · rw [hstatus, hf.computedSha256, hspec, hcomputed]
      · rw [hspec]
        exact hfile
    · exact hv.staged t' (.inr hold) hstate
  · intro w hw hp t' ht'
    rcases hb.row ht' with ⟨t, ht, -, hstatus⟩ | hold
    · rw [DownloadTask.isTerminal, DownloadTask.state, hstatus, hf.state]
      exact hv.isOpen w hw hp t (.inl ht)
    · exact hv.isOpen w hw hp t' (.inr hold)
  · exact hv.phase

/-- Its worker ends without completing the task. -/
theorem View.Ok.leave (hv : View.Ok h ⟨s.tasks.get? id, s.saved id, worker, d⟩)
    (hb : TaskStore.Block s s' id f) (hf : ∀ t, (f t).state ≠ .completed) :
    View.Ok h ⟨s'.tasks.get? id, s'.saved id, none, d⟩ := by
  refine ⟨fun w hw => (Option.some_ne_none w hw.symm).elim, ?_,
    fun w hw => (Option.some_ne_none w hw.symm).elim,
    fun w hw => (Option.some_ne_none w hw.symm).elim⟩
  intro t' ht' hstate
  rcases hb.row ht' with ⟨t, -, -, hstatus⟩ | hold
  · rw [DownloadTask.state, hstatus] at hstate
    exact absurd hstate (hf t.status)
  · exact hv.staged t' (.inr hold) hstate

/-- Its worker completes the task, and is done unless the save fails. -/
theorem View.Ok.complete {digest : String} {now : ℚ} {save : Save}
    (hv : View.Ok h ⟨s.tasks.get? id, s.saved id, some ⟨spec, .completing digest⟩, d⟩)
    {p' : Option Phase} (hphase : ∀ q, p' = some q → q.isRaising = true) :
    let s' := (s.runCompletes id (h.stagedFile spec) digest now save).1
    View.Ok h ⟨s'.tasks.get? id, s'.saved id, p'.map (Worker.mk spec), d⟩ := by
  intro s'
  have hb := TaskStore.block_runCompletes s id (h.stagedFile spec) digest now save
  obtain ⟨t₀, ht₀, hspec₀⟩ := hv.spec _ rfl
  obtain ⟨hdigest, hfile⟩ := hv.phase _ rfl
  have hraising : ∀ w, p'.map (Worker.mk spec) = some w → w.phase.isRaising = true := by
    intro w hw
    obtain ⟨q, hq, rfl⟩ := Option.map_eq_some_iff.mp hw
    exact hphase q hq
  constructor
  · intro w hw
    obtain ⟨q, -, rfl⟩ := Option.map_eq_some_iff.mp hw
    obtain ⟨t', ht', hspec', -⟩ := hb.mem ht₀
    exact ⟨t', ht', hspec'.trans hspec₀⟩
  · intro t' ht' hstate
    rcases hb.row ht' with ⟨t, ht, hspec, hstatus⟩ | hold
    · have ht₀' : t = t₀ := Option.some.inj (ht.symm.trans ht₀)
      have hspec' : t'.spec = spec := by rw [hspec, ht₀', hspec₀]
      refine ⟨?_, ?_, ?_⟩
      · rw [hstatus, hspec']
        rfl
      · rw [hstatus, hspec', ← hdigest]
        rfl
      · rw [hspec']
        exact hfile
    · exact hv.staged t' (.inr hold) hstate
  · intro w hw hp
    rw [hraising w hw] at hp
    cases hp
  · intro w hw
    have hp := hraising w hw
    cases hq : w.phase with
    | raising e => trivial
    | _ =>
      rw [hq] at hp
      cases hp

end Views

/-! ## The steps of a worker -/

section Steps
variable {h : Host} {s : TaskStore} {spec : DownloadSpec} {d : StageDir} {o : Outside}

/-- The task stays open, and what the next step needs of the directory is there. -/
structure Goes (h : Host) (s : TaskStore) (spec : DownloadSpec) (desk : Desk) : Prop where
  block : ∃ f, StaysOpen f ∧ TaskStore.Block s desk.store spec.taskId f
  phase : ∀ q, desk.phase = some q → PhaseHolds h spec desk.stage q

/-- A step beside the lock. -/
theorem goes_on {d' : StageDir} {q : Phase} (hq : PhaseHolds h spec d' q) :
    Goes h s spec ⟨s, d', some q⟩ where
  block := ⟨_, keeps_id.staysOpen, TaskStore.block_refl s spec.taskId⟩
  phase _ hq' := Option.some.inj hq' ▸ hq

theorem goes_after {block : TaskStore × Bool} {d' : StageDir} {next : Phase}
    (hb : ∃ f, Keeps f ∧ TaskStore.Block s block.1 spec.taskId f)
    (hnext : block.2 = false → PhaseHolds h spec d' next) :
    Goes h s spec (o.after block d' next) where
  block := by
    obtain ⟨f, hf, hblock⟩ := hb
    exact ⟨f, hf.staysOpen, hblock⟩
  phase q hq := by
    cases Option.some.inj hq
    change PhaseHolds h spec d' (if block.2 then o.error else next)
    split
    · trivial
    · rename_i hok
      exact hnext (Bool.eq_false_iff.mpr hok)

theorem goes_afterOpen {block : TaskStore × Bool} {d' : StageDir} {next : Phase}
    (hb : ∃ f, Keeps f ∧ TaskStore.Block s block.1 spec.taskId f)
    (hnext : PhaseHolds h spec d' next) :
    Goes h s spec (o.afterOpen block d' next) := by
  refine goes_after hb fun hok => ?_
  rw [if_neg (by simp [hok])]
  exact hnext

theorem goes_prepare : Goes h s spec (prepare s spec d o) := by
  simp only [prepare]
  generalize (if o.unlinked then { d with final := none } else d) = d'
  split
  · exact goes_on trivial
  · split
    · rename_i _ hresume
      refine goes_on (.inr ⟨?_, rfl⟩)
      cases hpart : d'.part with
      | none =>
        rw [hpart] at hresume
        exact absurd hresume.1 (lt_irrefl 0)
      | some bytes => rfl
    · split
      · exact goes_on trivial
      · exact goes_on trivial

/-- A response that is taken starts at the byte from which the call resumes. -/
theorem openStream_stream {a : Attempt} {r : Response} {st : Stream}
    (hst : a.openStream r = .stream st) :
    st.toAttempt = a ∧ st.downloaded = a.resumeFrom ∧
      (0 < a.resumeFrom → ∃ stop total,
        parseContentRange r.contentRange = .ok ((a.resumeFrom : ℤ), stop, total)) := by
  simp only [Attempt.openStream] at hst
  split at hst
  · cases hst
  split at hst
  · cases hst
  split at hst
  · split at hst
    · cases hst
    split at hst
    · cases hst
    split at hst
    · cases hst
    · rename_i start stop rangeTotal hrange
      split at hst
      · cases hst
      · rename_i hstart
        cases Opening.stream.inj hst
        refine ⟨rfl, rfl, fun _ => ⟨stop, rangeTotal, ?_⟩⟩
        rw [hrange, not_not.mp hstart]
  · rename_i hzero
    cases Opening.stream.inj hst
    exact ⟨rfl, (Nat.eq_zero_of_not_pos hzero).symm, fun hpos => absurd hpos hzero⟩

theorem goes_request {a : Attempt} (ha : PhaseHolds h spec d (.requesting a)) :
    Goes h s spec (request s d o a) := by
  unfold request
  split
  · exact goes_on trivial
  · cases hopening : a.openStream o.response with
    | raises text => exact goes_on trivial
    | fallback reason =>
      simp only
      split
      · exact goes_on trivial
      · exact goes_on trivial
    | stream st =>
      obtain ⟨hattempt, hdownloaded, -⟩ := openStream_stream hopening
      have hdigest : st.digest = a.digest := by rw [hattempt]
      refine goes_on ?_
      rcases ha with ⟨hzero, hnil⟩ | ⟨hpart, hlen⟩
      · rw [PhaseHolds, hdownloaded, hdigest, hzero, hnil, if_neg (lt_irrefl 0)]
        exact ⟨rfl, rfl⟩
      · rw [PhaseHolds, hdownloaded, hdigest, hpart, hlen]
        refine ⟨?_, rfl⟩
        split
        · rfl
        · rename_i hzero
          rw [List.eq_nil_of_length_eq_zero (Nat.eq_zero_of_not_pos hzero)]

theorem goes_readChunk {cancelled : Bool} {point : Reading} {st : Stream}
    (hst : PhaseHolds h spec d (.receiving point st)) :
    Goes h s spec (readChunk s d o cancelled st) := by
  obtain ⟨hpart, hlen⟩ := hst
  simp only [readChunk]
  split
  · exact goes_on ⟨hpart, hlen⟩
  split
  · exact goes_on trivial
  split
  · exact goes_on ⟨hpart, hlen⟩
  -- the chunk is at the end of the file and of the digest
  have hpart' : d.part.map (· ++ o.chunk) = some (st.digest ++ o.chunk) := by rw [hpart]; rfl
  have hlen' : st.downloaded + o.chunk.length = (st.digest ++ o.chunk).length := by
    rw [List.length_append, hlen]
  split
  · exact goes_on ⟨hpart', hlen'⟩
  · exact goes_on ⟨hpart', hlen'⟩

theorem saveCheckpoint_spec (s : TaskStore) (spec : DownloadSpec) (d : StageDir) (st : Stream)
    (o : Outside) :
    (∃ f, Keeps f ∧ TaskStore.Block s (saveCheckpoint s spec d st o).1.1 spec.taskId f) ∧
      (saveCheckpoint s spec d st o).2.part = d.part := by
  unfold saveCheckpoint
  split
  · exact ⟨⟨_, keeps_id, TaskStore.block_refl s spec.taskId⟩, rfl⟩
  · exact ⟨TaskStore.block_checkpointSaved s spec.taskId o.now o.save, rfl⟩

/-- A staged file has the digest that was compared. -/
theorem goes_verify {st : Stream} (hst : PhaseHolds h spec d (.receiving .verify st)) :
    Goes h s spec (verify h s spec d o st) := by
  simp only [verify]
  split
  · exact goes_on trivial
  · rename_i hdigest
    split
    · exact goes_on trivial
    · exact goes_on ⟨hst.1, not_not.mp hdigest⟩

theorem goes_receive {cancelled : Bool} {point : Reading} {st : Stream}
    (hst : PhaseHolds h spec d (.receiving point st)) :
    Goes h s spec (receive h s spec d o cancelled st point) := by
  obtain ⟨hcheckpoint, hpart⟩ := saveCheckpoint_spec s spec d st o
  have hkept : PhaseHolds h spec (saveCheckpoint s spec d st o).2 (.receiving point st) :=
    ⟨hpart.trans hst.1, hst.2⟩
  cases point with
  | chunk => exact goes_readChunk hst
  | progress =>
    exact goes_afterOpen (TaskStore.block_progress s spec.taskId _ _ o.now o.save) hst
  | checkpoint => exact goes_afterOpen hcheckpoint hkept
  | cancelled =>
    obtain ⟨f, hf, hblock⟩ := hcheckpoint
    refine ⟨⟨f, hf.staysOpen, hblock⟩, fun q hq => ?_⟩
    cases Option.some.inj hq
    change PhaseHolds h spec _ (if _ then o.error else .raising .cancelled)
    split
    · trivial
    · trivial
  | ended => exact goes_after (TaskStore.block_progress s spec.taskId _ _ o.now o.save) fun _ => hst
  | lastCheckpoint => exact goes_after hcheckpoint fun _ => hkept
  | verify => exact goes_verify hst

theorem goes_renamed {cancelled : Bool} {st : Stream} (hst : PhaseHolds h spec d (.renamed st)) :
    Goes h s spec (workStep h s spec d o cancelled (.renamed st)) := by
  simp only [workStep]
  cases st.stagedStatus with
  | none => exact goes_on hst
  | some status =>
    exact goes_after (TaskStore.block_setResumeStatus s spec.taskId status o.now o.save) fun _ => hst

/-- A step of a worker that neither completes its task nor handles an error. -/
theorem goes_workStep {cancelled : Bool} {p : Phase} (hp : PhaseHolds h spec d p)
    (hcompleting : ∀ digest, p ≠ .completing digest) (hraising : p.isRaising = false) :
    Goes h s spec (workStep h s spec d o cancelled p) := by
  cases p with
  | submitted =>
    refine ⟨⟨_, ?_, TaskStore.block_change s spec.taskId _ true o.save⟩, fun q hq => ?_⟩
    · exact fun _ _ => rfl
    · simp only [workStep] at hq
      split at hq
      · cases hq
      · cases Option.some.inj hq
        trivial
  | preparing => exact goes_prepare
  | resumeAttempt a =>
    exact goes_after (TaskStore.block_setResumeStatus s spec.taskId _ o.now o.save) fun _ => hp
  | requesting a => exact goes_request hp
  | fallingBack reason resumeBytes =>
    exact goes_after (TaskStore.block_setResumeStatus s spec.taskId reason o.now o.save)
      fun _ => trivial
  | discarding resumeBytes => exact goes_on (.inl ⟨rfl, rfl⟩)
  | receiving point st => exact goes_receive hp
  | renamed st => exact goes_renamed hp
  | finishing st =>
    refine goes_after (TaskStore.block_progress s spec.taskId _ _ o.now o.save) fun _ => ?_
    exact ⟨hp.2, st.digest, hp.1, hp.2⟩
  | completing digest => exact absurd rfl (hcompleting digest)
  | raising e => cases hraising

end Steps

end OpenClaw.ModelManager
