import OpenClaw.Foundation.CursorFeed
import OpenClaw.Foundation.Run
import OpenClaw.ModelManager.ChangeNumbers

/-!
# Clients that poll for changed tasks

A client goes on from the number of the last change it got. A process that starts from an old file
gives numbers again that the client has passed, and the time of a checkpoint is changed without a
number.
-/

namespace OpenClaw.ModelManager

open Foundation
set_option autoImplicit false

/-! ## One client -/

/-- Who polls: the mode of the server and the tenant of the requests. -/
structure Client where
  multiTenant : Bool
  tenant : Option PyStr

def Client.sees (c : Client) (t : DownloadTask) : Bool :=
  tenantOk c.multiTenant c.tenant t.spec.tenantId

def Client.args (c : Client) (cursor : ℕ) (limit offset : ℤ) : ListArgs where
  visible := c.sees
  limit := limit
  offset := offset
  sinceSeq := some cursor

section Listing
variable {s : TaskStore} (c : Client)

theorem pairwise_seq_ne (h : s.Numbered) :
    s.tasks.rows.Pairwise fun t u => t.changeSeq ≠ u.changeSeq := by
  have hids : s.tasks.rows.Pairwise fun t u => t.taskId ≠ u.taskId :=
    List.pairwise_map.mp s.tasks.nodup
  refine hids.imp_of_mem fun ht hu hne heq => hne ?_
  exact h.distinct (Table.get?_key ht) (Table.get?_key hu) heq

/-- The changed tasks in the order of their numbers. -/
theorem sorted_by_seq (h : s.Numbered) (p : DownloadTask → Bool) :
    (sortedBy (fun t : DownloadTask => toLex (t.changeSeq, t.spec.createdAt))
      (s.tasks.rows.filter p)).Pairwise fun t u => t.changeSeq < u.changeSeq := by
  have hne : (sortedBy (fun t : DownloadTask => toLex (t.changeSeq, t.spec.createdAt))
      (s.tasks.rows.filter p)).Pairwise fun t u => t.changeSeq ≠ u.changeSeq := by
    refine ((sortedBy_perm _ _).pairwise_iff fun hab => Ne.symm hab).mpr ?_
    exact (pairwise_seq_ne h).sublist List.filter_sublist
  refine (List.Pairwise.and (sortedBy_pairwise _ _) hne).imp ?_
  rintro t u ⟨hle, hlt⟩
  rcases Prod.Lex.le_iff.mp hle with hseq | ⟨hseq, -⟩
  · exact hseq
  · exact absurd hseq hlt

theorem earliest_le {out : List DownloadTask} {e : ℕ} (h : earliest out = some e)
    {t : DownloadTask} (ht : t ∈ out) (hpos : 0 < t.changeSeq) : e ≤ t.changeSeq := by
  have hmem : t.changeSeq ∈ (out.map DownloadTask.changeSeq).filter (0 < ·) := by
    simpa using ⟨⟨t, ht, rfl⟩, hpos⟩
  exact (List.min?_eq_some_iff.mp h).2 _ hmem

theorem earliest_mem {out : List DownloadTask} {e : ℕ} (h : earliest out = some e) :
    ∃ t ∈ out, t.changeSeq = e ∧ 0 < e := by
  have hmem := (List.min?_eq_some_iff.mp h).1
  simp only [List.mem_filter, List.mem_map, decide_eq_true_eq] at hmem
  obtain ⟨⟨t, ht, rfl⟩, hpos⟩ := hmem
  exact ⟨t, ht, rfl, hpos⟩

/-- A position that the listing starts from skips no task above the cursor. -/
theorem resetCursor_spec {out : List DownloadTask} {cursor : ℕ}
    (hbounds : ∀ t ∈ out, 0 < t.changeSeq ∧ t.changeSeq ≤ s.changeSeq)
    (hcursor : cursor ≤ s.changeSeq) :
    ∃ pos status, resetCursor cursor s.changeSeq (earliest out) = (pos, status) ∧
      cursor ≤ pos ∧ pos ≤ s.changeSeq ∧
        ∀ t ∈ out, cursor < t.changeSeq → pos < t.changeSeq := by
  unfold resetCursor
  rw [if_neg (Nat.not_lt.mpr hcursor)]
  cases he : earliest out with
  | none => exact ⟨cursor, "ok", rfl, le_refl _, hcursor, fun t _ h => h⟩
  | some e =>
    obtain ⟨u, hu, hseq, hpos⟩ := earliest_mem he
    simp only
    split
    · refine ⟨e - 1, "stale_cursor_reset", rfl, by omega, ?_, ?_⟩
      · have := (hbounds u hu).2
        omega
      · intro t ht _
        have := earliest_le he ht (hbounds t ht).1
        omega
    · exact ⟨cursor, "ok", rfl, le_refl _, hcursor, fun t _ h => h⟩

/-- The query of the client is a delta query on the tasks that it sees. -/
theorem listDownloadTasks_args (cursor : ℕ) (limit offset : ℤ) :
    s.listDownloadTasks (c.args cursor limit offset) =
      deltaPage s.changeSeq (s.tasks.rows.filter c.sees)
        (c.args cursor limit offset).clampedLimit cursor := by
  have hout : (s.tasks.rows.filter fun t => c.sees t && ("" == "" || t.state.value == "")) =
      s.tasks.rows.filter c.sees := by
    simp
  have hcast : (max 0 (cursor : ℤ)).toNat = cursor := by omega
  simp only [TaskStore.listDownloadTasks, Client.args, hout, hcast]

/-- What an answer to a client means: it is exact for the tasks that the client sees. -/
structure Answers (s : TaskStore) (cursor : ℕ) (page : List DownloadTask) (next : ℕ) : Prop where
  exact : Page.Exact DownloadTask.changeSeq (fun t => t ∈ s.tasks.rows ∧ c.sees t = true) cursor
    ⟨page, next⟩
  behind : next ≤ s.changeSeq
  shown : ∀ t ∈ page, t ∈ s.tasks.rows ∧ c.sees t = true
  empty : page = [] → ∀ t ∈ s.tasks.rows, c.sees t = true → t.changeSeq ≤ cursor

theorem answers_of_page (h : s.Numbered) {cursor limit : ℕ} (hcursor : cursor ≤ s.changeSeq)
    (hlimit : 0 < limit) :
    ∃ delta, (deltaPage s.changeSeq (s.tasks.rows.filter c.sees) limit cursor).delta = some delta ∧
      Answers c s cursor (deltaPage s.changeSeq (s.tasks.rows.filter c.sees) limit cursor).tasks
        delta.nextSinceSeq := by
  have hmem : ∀ t, t ∈ s.tasks.rows.filter c.sees ↔ t ∈ s.tasks.rows ∧ c.sees t = true :=
    fun _ => List.mem_filter
  have hbounds : ∀ t ∈ s.tasks.rows.filter c.sees, 0 < t.changeSeq ∧ t.changeSeq ≤ s.changeSeq :=
    fun t ht => h.bounds (Table.get?_key ((hmem t).mp ht).1)
  obtain ⟨pos, status, hreset, hle, hpos, hgap⟩ := resetCursor_spec hbounds hcursor
  have hchanges : ∀ t, t ∈ changesAfter pos (s.tasks.rows.filter c.sees) ↔
      (t ∈ s.tasks.rows ∧ c.sees t = true) ∧ pos < t.changeSeq := by
    intro t
    rw [changesAfter, mem_sortedBy, List.mem_filter, hmem, decide_eq_true_eq]
  have hsorted : (changesAfter pos (s.tasks.rows.filter c.sees)).Pairwise
      fun t u => t.changeSeq < u.changeSeq := by
    rw [changesAfter, List.filter_filter]
    exact sorted_by_seq h _
  have hpage := List.take_prefix limit (changesAfter pos (s.tasks.rows.filter c.sees))
  have hexact : Page.Exact DownloadTask.changeSeq (fun t => t ∈ s.tasks.rows ∧ c.sees t = true) pos
      ⟨_, _⟩ :=
    exact_of_front hsorted hpage (fun t ht => ((hchanges t).mp ht).2)
      fun t ht hlt _ => (hchanges t).mpr ⟨ht, hlt⟩
  have hshown : ∀ t ∈ (changesAfter pos (s.tasks.rows.filter c.sees)).take limit,
      t ∈ s.tasks.rows ∧ c.sees t = true :=
    fun t ht => ((hchanges t).mp (hpage.subset ht)).1
  refine ⟨_, rfl, ?_⟩
  simp only [deltaPage, hreset]
  refine ⟨hexact.back hle fun t ht hlt => hgap t ((hmem t).mpr ht) hlt, ?_, hshown, ?_⟩
  · rcases List.eq_nil_or_concat
      ((changesAfter pos (s.tasks.rows.filter c.sees)).take limit) with hnil | ⟨front, last, heq⟩
    · simp only [nextAfter, hnil, List.getLast?_nil, Option.map_none, Option.getD_none]
      exact hpos
    · have hlast : last ∈ (changesAfter pos (s.tasks.rows.filter c.sees)).take limit := by
        rw [heq]
        simp
      simp only [nextAfter, heq, List.concat_eq_append, List.getLast?_concat, Option.map_some,
        Option.getD_some]
      exact (h.bounds (Table.get?_key (hshown last hlast).1)).2
  · intro hnil t ht hsees
    by_contra hlt
    have hin := (hchanges t).mpr ⟨⟨ht, hsees⟩, hgap t ((hmem t).mpr ⟨ht, hsees⟩) (by omega)⟩
    have hempty := (List.take_eq_nil_iff.mp hnil).resolve_left hlimit.ne'
    rw [hempty] at hin
    cases hin

end Listing

/-! ## The world of a client -/

/-- The server, the ids it has given to tasks, and what the client has. -/
structure World where
  store : TaskStore := {}
  ids : List String := []
  cursor : ℕ := 0
  copies : Table DownloadTask.taskId := Table.empty

inductive Event where
  | createDownloadTask (spec : DownloadSpec) (now : ℚ) (save : Save)
  | runBegins (id : String) (now : ℚ) (save : Save)
  | runCompletes (id stagedPath digest : String) (now : ℚ) (save : Save)
  | runIsCancelled (id : String) (now : ℚ) (save : Save)
  | runFails (id error : String) (now : ℚ) (save : Save)
  | setResumeStatus (id status : String) (now : ℚ) (save : Save)
  | checkpointSaved (id : String) (updatedAt : ℚ) (save : Save)
  | progress (id : String) (downloaded total : ℕ) (now : ℚ) (save : Save)
  | cancelDownloadTask (id : String) (withdrawn : Bool) (now : ℚ) (save : Save)
  | importEnds (id path recordId : String) (now : ℚ) (save : Save)
  | restart (replayLimit : ℕ) (now saveAt : ℚ)
  | poll (limit offset : ℤ)

/-- The list after an event that is no poll. An id that `uuid4` gives is new. -/
def World.storeAfter (w : World) : Event → TaskStore
  | .createDownloadTask spec now save =>
    if spec.taskId ∈ w.ids then w.store else (w.store.createDownloadTask spec now save).1
  | .runBegins id now save => (w.store.runBegins id now save).1
  | .runCompletes id stagedPath digest now save =>
    (w.store.runCompletes id stagedPath digest now save).1
  | .runIsCancelled id now save => (w.store.runIsCancelled id now save).1
  | .runFails id error now save => (w.store.runFails id error now save).1
  | .setResumeStatus id status now save => (w.store.setResumeStatus id status now save).1
  | .checkpointSaved id updatedAt save => (w.store.checkpointSaved id updatedAt save).1
  | .progress id downloaded total now save => (w.store.progress id downloaded total now save).1
  | .cancelDownloadTask id withdrawn now save =>
    (w.store.cancelDownloadTask id withdrawn now save).1
  | .importEnds id path recordId now save => (w.store.importEnds id path recordId now save).1
  | .restart replayLimit now saveAt => TaskStore.restart w.store.file replayLimit now saveAt
  | .poll _ _ => w.store

/-- The id that an event gives to a task. -/
def Event.newIds : Event → List String
  | .createDownloadTask spec _ _ => [spec.taskId]
  | _ => []

section Steps
variable (c : Client)

def World.answer (w : World) (limit offset : ℤ) : TaskPage :=
  w.store.listDownloadTasks (c.args w.cursor limit offset)

def World.step (w : World) (e : Event) : World × Option TaskPage :=
  match e with
  | .poll limit offset =>
    let page := w.answer c limit offset
    ({ w with
        cursor := (page.delta.map Delta.nextSinceSeq).getD w.cursor
        copies := page.tasks.foldl Table.put w.copies }, some page)
  | e => ({ w with store := w.storeAfter e, ids := e.newIds ++ w.ids }, none)

/-- The world before the `k`-th event of a run. -/
def worldAt (events : ℕ → Event) : ℕ → World := run (World.step c) {} events

/-- Whenever a poll is answered by an empty page that is not truncated, the client has every task
that it may see as the server has it. -/
def NoLostUpdate (events : ℕ → Event) : Prop :=
  ∀ k page, answer (World.step c) {} events k = some page → page.tasks = [] →
    (page.delta.map Delta.truncated) = some false →
      ∀ id t, (worldAt c events (k + 1)).store.tasks.get? id = some t → c.sees t = true →
        (worldAt c events (k + 1)).copies.get? id = some t

/-- What keeps the client up to date. A checkpoint is recorded while the last change of its task is
still to be told. When the server starts again, its file goes up to the cursor at least, and has
the finished tasks as they were. -/
def Careful (w : World) : Event → Prop
  | .checkpointSaved id _ _ => ∀ t, w.store.tasks.get? id = some t → c.sees t = true →
      w.cursor < t.changeSeq
  | .restart _ _ _ => w.cursor ≤ TaskStore.topSeq (w.store.file.getD []) ∧
      ∀ t ∈ w.store.file.getD [], c.sees t = true → t.isTerminal = true →
        w.store.tasks.get? t.taskId = some t
  | _ => True

/-! ## What the client is still to be told -/

/-- The client has every task that it may see, but for those whose number lies above its cursor. -/
structure UpToDate (w : World) : Prop where
  numbered : w.store.Numbered
  file : TaskStore.FileNumbered w.store.file
  behind : w.cursor ≤ w.store.changeSeq
  copies : ∀ id t, w.store.tasks.get? id = some t → c.sees t = true →
    w.cursor < t.changeSeq ∨ w.copies.get? id = some t

theorem upToDate_init : UpToDate c {} where
  numbered := ⟨fun h => (Option.some_ne_none _ h.symm).elim,
    fun h => (Option.some_ne_none _ h.symm).elim⟩
  file := ⟨List.nodup_nil, fun _ h => absurd h List.not_mem_nil,
    fun _ h => absurd h List.not_mem_nil⟩
  behind := le_refl 0
  copies _ _ h := (Option.some_ne_none _ h.symm).elim

variable {c} {w : World}

theorem UpToDate.proceed (h : UpToDate c w) {s : TaskStore} (hs : TaskStore.Proceeds w.store s)
    (ids : List String) : UpToDate c { w with store := s, ids := ids } where
  numbered := hs.numbered h.numbered
  file := hs.file h.numbered h.file
  behind := h.behind.trans hs.counter
  copies id t ht hsees := by
    rcases hs.tasks id with heq | ⟨u, hu, hlt⟩
    · exact h.copies id t (heq ▸ ht) hsees
    · rw [show t = u from Option.some.inj (ht.symm.trans hu)]
      exact .inl (h.behind.trans_lt hlt)

theorem UpToDate.checkpoint (h : UpToDate c w) {id : String} {updatedAt : ℚ} {save : Save}
    (hcare : Careful c w (.checkpointSaved id updatedAt save)) (ids : List String) :
    UpToDate c { w with store := (w.store.checkpointSaved id updatedAt save).1, ids := ids } := by
  rcases w.store.checkpointSaved_cases id updatedAt save with heq | heq
  · rw [heq]
    exact h.proceed (.refl w.store) ids
  · rw [heq]
    refine UpToDate.proceed (w := { w with store := w.store.touch id _ }) ?_
      (TaskStore.proceeds_persist _ false save) ids
    refine ⟨TaskStore.numbered_touch h.numbered id fun t => { t with lastCheckpointAt := updatedAt },
      ?_, ?_, fun k t ht hsees => ?_⟩
    · rw [TaskStore.touch_file]
      exact h.file
    · rw [TaskStore.touch_changeSeq]
      exact h.behind
    · rw [TaskStore.get?_touch] at ht
      split at ht
      · obtain ⟨u, hu, rfl⟩ := Option.map_eq_some_iff.mp ht
        exact .inl (hcare u hu hsees)
      · exact h.copies k t ht hsees

/-- Rows that are as in a table `s` keep what a copy already has of it. -/
theorem get?_foldl_put {s copies : Table DownloadTask.taskId} {page : List DownloadTask}
    (hpage : ∀ u ∈ page, s.get? u.taskId = some u) {id : String} {t : DownloadTask}
    (ht : s.get? id = some t) (h : t ∈ page ∨ copies.get? id = some t) :
    (page.foldl Table.put copies).get? id = some t := by
  induction page generalizing copies with
  | nil => exact h.resolve_left List.not_mem_nil
  | cons u page ih =>
    refine ih (fun v hv => hpage v (List.mem_cons_of_mem _ hv)) ?_
    rw [Table.get?_put]
    by_cases hu : u.taskId = id
    · have heq := hpage u List.mem_cons_self
      rw [hu, ht] at heq
      rw [if_pos hu]
      exact .inr heq.symm
    · rw [if_neg hu]
      rcases h with hmem | hcopy
      · rcases List.mem_cons.mp hmem with rfl | hmem
        · exact absurd (Table.key_of_get? ht) hu
        · exact .inl hmem
      · exact .inr hcopy

theorem UpToDate.answers (h : UpToDate c w) (limit offset : ℤ) :
    ∃ delta, (w.answer c limit offset).delta = some delta ∧
      Answers c w.store w.cursor (w.answer c limit offset).tasks delta.nextSinceSeq := by
  rw [World.answer, listDownloadTasks_args]
  apply answers_of_page c h.numbered h.behind
  simp only [ListArgs.clampedLimit]
  omega

theorem UpToDate.poll (h : UpToDate c w) (limit offset : ℤ) :
    UpToDate c (w.step c (.poll limit offset)).1 := by
  obtain ⟨delta, hdelta, hanswers⟩ := h.answers limit offset
  have hstep : (w.step c (.poll limit offset)).1 =
      { w with
        cursor := delta.nextSinceSeq
        copies := (w.answer c limit offset).tasks.foldl Table.put w.copies } := by
    simp only [World.step, hdelta, Option.map_some, Option.getD_some]
  rw [hstep]
  refine ⟨h.numbered, h.file, hanswers.behind, fun id t ht hsees => ?_⟩
  by_cases hnext : delta.nextSinceSeq < t.changeSeq
  · exact .inl hnext
  · refine .inr (get?_foldl_put (fun u hu => Table.get?_key (hanswers.shown u hu).1) ht ?_)
    rcases h.copies id t ht hsees with hlt | hcopy
    · exact .inl (hanswers.exact.complete t ⟨Table.mem_of_get? ht, hsees⟩ hlt (by
        simpa using hnext))
    · exact .inr hcopy

theorem UpToDate.restart (h : UpToDate c w) {replayLimit : ℕ} {now saveAt : ℚ}
    (hcare : Careful c w (.restart replayLimit now saveAt)) (ids : List String) :
    UpToDate c
      { w with store := TaskStore.restart w.store.file replayLimit now saveAt, ids := ids } := by
  obtain ⟨hcursor, hfinished⟩ := hcare
  have hproceeds := TaskStore.proceeds_restart w.store.file replayLimit now saveAt
  have hnumbered := TaskStore.numbered_load h.file
  refine ⟨hproceeds.numbered hnumbered, hproceeds.file hnumbered h.file,
    hcursor.trans hproceeds.counter, fun id t ht hsees => ?_⟩
  rcases TaskStore.get?_restart h.file ht with hlt | ⟨hmem, rfl, hterm⟩
  · exact .inl (hcursor.trans_lt hlt)
  · exact h.copies _ t (hfinished t hmem hsees hterm) hsees

/-- One event. -/
theorem upToDate_step (h : UpToDate c w) {e : Event} (hcare : Careful c w e) :
    UpToDate c (w.step c e).1 := by
  cases e with
  | createDownloadTask spec now save =>
    refine h.proceed ?_ _
    simp only [World.storeAfter]
    split
    · exact .refl w.store
    · exact TaskStore.proceeds_createDownloadTask w.store spec now save
  | runBegins id now save => exact h.proceed (TaskStore.proceeds_block w.store id _ true save) _
  | runCompletes id stagedPath digest now save =>
    exact h.proceed (TaskStore.proceeds_block w.store id _ true save) _
  | runIsCancelled id now save =>
    exact h.proceed (TaskStore.proceeds_block w.store id _ true save) _
  | runFails id error now save =>
    exact h.proceed (TaskStore.proceeds_block w.store id _ true save) _
  | setResumeStatus id status now save =>
    exact h.proceed (TaskStore.proceeds_setResumeStatus w.store id status now save) _
  | checkpointSaved id updatedAt save => exact h.checkpoint hcare _
  | progress id downloaded total now save =>
    exact h.proceed (TaskStore.proceeds_progress w.store id downloaded total now save) _
  | cancelDownloadTask id withdrawn now save =>
    exact h.proceed (TaskStore.proceeds_cancelDownloadTask w.store id withdrawn now save) _
  | importEnds id path recordId now save =>
    exact h.proceed (TaskStore.proceeds_importEnds w.store id path recordId now save) _
  | restart replayLimit now saveAt => exact h.restart hcare _
  | poll limit offset => exact h.poll limit offset

theorem upToDate_worldAt {events : ℕ → Event}
    (hcare : ∀ k, Careful c (worldAt c events k) (events k)) (k : ℕ) :
    UpToDate c (worldAt c events k) :=
  run_invariant (m := 0) (upToDate_init c) (fun k _ h => upToDate_step h (hcare k)) k (Nat.zero_le k)

/-- An empty answer leaves the client where it was, and all it may see below its cursor. -/
theorem UpToDate.of_empty (h : UpToDate c w) {limit offset : ℤ}
    (hempty : (w.answer c limit offset).tasks = []) {id : String} {t : DownloadTask}
    (ht : w.store.tasks.get? id = some t) (hsees : c.sees t = true) :
    w.copies.get? id = some t := by
  obtain ⟨delta, -, hanswers⟩ := h.answers limit offset
  have hle := hanswers.empty hempty t (Table.mem_of_get? ht) hsees
  exact (h.copies id t ht hsees).resolve_left (Nat.not_lt.mpr hle)

theorem step_answer {e : Event} {page : TaskPage} (h : (w.step c e).2 = some page) :
    ∃ limit offset, e = .poll limit offset ∧ page = w.answer c limit offset := by
  cases e with
  | poll limit offset => exact ⟨limit, offset, rfl, (Option.some.inj h).symm⟩
  | _ => cases h

end Steps

/-! ## Two runs -/

def tenantClient : Client where
  multiTenant := true
  tenant := some (PyStr.ofString "acme")

def modelSpec : DownloadSpec where
  taskId := "dl_1"
  modelId := "m1"
  name := "m1"
  modelType := "checkpoint"
  source := "catalog"
  sourceLabel := "catalog"
  downloadUrl := "https://models.example/m1"
  destinationSubdir := "checkpoints"
  filename := "m1.safetensors"
  expectedSha256 := "00"
  provenance := { publisher := "p", license := "l", sourceUrl := "u" }
  tenantId := PyStr.ofString "acme"
  createdAt := 0

/-- A start from a file that goes up to the cursor. -/
def restartedRun : ℕ → Event
  | 0 => .createDownloadTask modelSpec 0 ⟨0, true⟩
  | 2 => .restart 10 1 1
  | _ => .poll 100 0

theorem restartedRun_careful (k : ℕ) :
    Careful tenantClient (worldAt tenantClient restartedRun k) (restartedRun k) := by
  match k with
  | 0 => trivial
  | 1 => trivial
  | 2 => exact ⟨by decide +kernel, by decide +kernel⟩
  | k + 3 => trivial

/-- Progress that is not in the file yet has numbers that the next process gives again. -/
def renumberedRun : ℕ → Event
  | 0 => .createDownloadTask modelSpec 0 ⟨0, true⟩
  | 1 => .runBegins "dl_1" 0 ⟨0, true⟩
  | 2 => .progress "dl_1" 10 100 0 ⟨0, true⟩
  | 3 => .progress "dl_1" 20 100 0 ⟨0, true⟩
  | 5 => .restart 10 1 1
  | _ => .poll 100 0

end OpenClaw.ModelManager
