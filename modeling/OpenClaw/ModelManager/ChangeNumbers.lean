import OpenClaw.ModelManager.DownloadTasks

/-!
# Numbers of changes

Every change of a task takes the next number, so in one process the numbers are all different and
what has changed has the highest. They live in the tasks and in the file that these are saved to; a
new process goes on from the highest number in the file.
-/

namespace OpenClaw.ModelManager

open Foundation
set_option autoImplicit false

namespace TaskStore

/-- The tasks have different numbers, none above the counter. -/
structure Numbered (s : TaskStore) : Prop where
  bounds : ∀ {id t}, s.tasks.get? id = some t → 0 < t.changeSeq ∧ t.changeSeq ≤ s.changeSeq
  distinct : ∀ {id id' t t'}, s.tasks.get? id = some t → s.tasks.get? id' = some t' →
    t.changeSeq = t'.changeSeq → id = id'

/-- Whatever has changed has a new number. -/
structure Advances (s s' : TaskStore) : Prop where
  counter : s.changeSeq ≤ s'.changeSeq
  tasks : ∀ id, s'.tasks.get? id = s.tasks.get? id ∨
    ∃ t, s'.tasks.get? id = some t ∧ s.changeSeq < t.changeSeq
  numbered : s.Numbered → s'.Numbered

variable {s s' s'' : TaskStore} {id : String} {f : DownloadStatus → DownloadStatus}

theorem Advances.refl (s : TaskStore) : Advances s s := ⟨le_refl _, fun _ => .inl rfl, id⟩

theorem Advances.trans (h : Advances s s') (h' : Advances s' s'') : Advances s s'' where
  counter := h.counter.trans h'.counter
  tasks id := by
    rcases h'.tasks id with heq | ⟨t, ht, hlt⟩
    · rw [heq]
      exact h.tasks id
    · exact .inr ⟨t, ht, h.counter.trans_lt hlt⟩
  numbered := h'.numbered ∘ h.numbered

/-- A task that gets the next number. -/
theorem numbered_put (h : s.Numbered) {t : DownloadTask} (ht : t.changeSeq = s.changeSeq + 1) :
    Numbered { s with tasks := s.tasks.put t, changeSeq := s.changeSeq + 1 } where
  bounds := by
    intro id u hu
    simp only [Table.get?_put] at hu
    split at hu
    · cases hu
      rw [ht]
      exact ⟨Nat.succ_pos _, le_refl _⟩
    · exact ⟨(h.bounds hu).1, Nat.le_succ_of_le (h.bounds hu).2⟩
  distinct := by
    intro id id' u u' hu hu' heq
    simp only [Table.get?_put] at hu hu'
    split at hu <;> split at hu'
    · rename_i hid hid'
      exact hid.symm.trans hid'
    · cases hu
      have := (h.bounds hu').2
      omega
    · cases hu'
      have := (h.bounds hu).2
      omega
    · exact h.distinct hu hu' heq

theorem advances_put {t : DownloadTask} (ht : t.changeSeq = s.changeSeq + 1) :
    Advances s { s with tasks := s.tasks.put t, changeSeq := s.changeSeq + 1 } where
  counter := Nat.le_succ _
  tasks id := by
    simp only [Table.get?_put]
    split
    · exact .inr ⟨t, rfl, by omega⟩
    · exact .inl rfl
  numbered h := numbered_put h ht

theorem advances_change (s : TaskStore) (id : String) (f : DownloadStatus → DownloadStatus) :
    Advances s (s.change id f) := by
  unfold change
  cases s.tasks.get? id with
  | none => exact .refl s
  | some t => exact advances_put rfl

theorem advances_changeAll (ids : List String) (s : TaskStore)
    (f : DownloadStatus → DownloadStatus) : Advances s (s.changeAll ids f) := by
  induction ids generalizing s with
  | nil => exact .refl s
  | cons id ids ih => exact (advances_change s id f).trans (ih _)

theorem persist_fields (s : TaskStore) (force : Bool) (save : Save) :
    (s.persist force save).1.tasks = s.tasks ∧
      (s.persist force save).1.changeSeq = s.changeSeq ∧
      ((s.persist force save).1.file = s.file ∨ (s.persist force save).1.file =
        some (sortedBy (fun t => t.spec.createdAt) s.tasks.rows)) := by
  unfold persist
  split
  · exact ⟨rfl, rfl, .inl rfl⟩
  · split
    · exact ⟨rfl, rfl, .inr rfl⟩
    · exact ⟨rfl, rfl, .inl rfl⟩

theorem advances_persist (s : TaskStore) (force : Bool) (save : Save) :
    Advances s (s.persist force save).1 := by
  obtain ⟨htasks, hcounter, -⟩ := persist_fields s force save
  refine ⟨hcounter.ge, fun id => .inl (by rw [htasks]), fun h => ⟨?_, ?_⟩⟩
  · intro id t ht
    rw [htasks] at ht
    rw [hcounter]
    exact h.bounds ht
  · intro id id' t t' ht ht'
    rw [htasks] at ht ht'
    exact h.distinct ht ht'

/-! ## The file -/

/-- Rows as a numbered list of tasks leaves them. -/
structure RowsNumbered (rows : List DownloadTask) : Prop where
  ids : (rows.map DownloadTask.taskId).Nodup
  positive : ∀ t ∈ rows, 0 < t.changeSeq
  distinct : ∀ t ∈ rows, ∀ t' ∈ rows, t.changeSeq = t'.changeSeq → t.taskId = t'.taskId

def FileNumbered (file : Option (List DownloadTask)) : Prop := RowsNumbered (file.getD [])

theorem rowsNumbered_of_numbered (h : s.Numbered) :
    RowsNumbered (sortedBy (fun t => t.spec.createdAt) s.tasks.rows) where
  ids := (((sortedBy_perm _ _).map _).nodup_iff).mpr s.tasks.nodup
  positive _ ht := (h.bounds (Table.get?_key ((mem_sortedBy _ _ _).mp ht))).1
  distinct _ ht _ ht' :=
    h.distinct (Table.get?_key ((mem_sortedBy _ _ _).mp ht))
      (Table.get?_key ((mem_sortedBy _ _ _).mp ht'))

theorem fileNumbered_persist {force : Bool} {save : Save} (h : s.Numbered)
    (hfile : FileNumbered s.file) : FileNumbered (s.persist force save).1.file := by
  obtain ⟨-, -, heq | heq⟩ := persist_fields s force save
  · rwa [heq]
  · rw [heq]
    exact rowsNumbered_of_numbered h

/-- The highest number in the rows. -/
def topSeq (rows : List DownloadTask) : ℕ := rows.foldl (fun n t => max n t.changeSeq) 0

theorem le_foldl_max (rows : List DownloadTask) (n : ℕ) :
    n ≤ rows.foldl (fun n t => max n t.changeSeq) n ∧
      ∀ t ∈ rows, t.changeSeq ≤ rows.foldl (fun n t => max n t.changeSeq) n := by
  induction rows generalizing n with
  | nil => exact ⟨le_refl n, by simp⟩
  | cons u rows ih =>
    obtain ⟨hn, hrows⟩ := ih (max n u.changeSeq)
    refine ⟨(le_max_left _ _).trans hn, fun t ht => ?_⟩
    rcases List.mem_cons.mp ht with rfl | ht
    · exact (le_max_right _ _).trans hn
    · exact hrows t ht

theorem get?_load {file : Option (List DownloadTask)} (h : FileNumbered file) {t : DownloadTask} :
    (load file).tasks.get? id = some t ↔ t ∈ file.getD [] ∧ t.taskId = id := by
  have hrows : (load file).tasks.rows = file.getD [] := Table.rows_ofRows h.ids
  constructor
  · intro ht
    exact ⟨hrows ▸ Table.mem_of_get? ht, Table.key_of_get? ht⟩
  · rintro ⟨ht, rfl⟩
    exact Table.get?_key (hrows ▸ ht)

theorem numbered_load {file : Option (List DownloadTask)} (h : FileNumbered file) :
    (load file).Numbered where
  bounds := by
    intro id t ht
    obtain ⟨hmem, -⟩ := (get?_load h).mp ht
    exact ⟨h.positive t hmem, (le_foldl_max _ 0).2 t hmem⟩
  distinct := by
    intro id id' t t' ht ht' heq
    obtain ⟨hmem, rfl⟩ := (get?_load h).mp ht
    obtain ⟨hmem', rfl⟩ := (get?_load h).mp ht'
    exact h.distinct t hmem t' hmem' heq

/-- After a change of all tasks of a list, each of them has a new number. -/
theorem get?_changeAll {ids : List String} {t : DownloadTask}
    (h : (s.changeAll ids f).tasks.get? id = some t) :
    s.changeSeq < t.changeSeq ∨ id ∉ ids ∧ s.tasks.get? id = some t := by
  induction ids generalizing s with
  | nil => exact .inr ⟨by simp, h⟩
  | cons k ids ih =>
    have hadv := advances_change s k f
    rcases ih h with hlt | ⟨hid, hget⟩
    · exact .inl (hadv.counter.trans_lt hlt)
    · by_cases hk : id = k
      · rw [get?_change, if_pos hk] at hget
        obtain ⟨u, -, rfl⟩ := Option.map_eq_some_iff.mp hget
        exact .inl (Nat.lt_succ_self _)
      · rcases hadv.tasks id with heq | ⟨u, hu, hlt⟩
        · rw [heq] at hget
          exact .inr ⟨by simp [hk, hid], hget⟩
        · rw [hu] at hget
          cases hget
          exact .inl hlt

/-! ## The blocks -/

/-- A block whose changes all have new numbers, and that may save the list. -/
structure Proceeds (s s' : TaskStore) : Prop extends Advances s s' where
  file : s.Numbered → FileNumbered s.file → FileNumbered s'.file

theorem Proceeds.refl (s : TaskStore) : Proceeds s s := ⟨.refl s, fun _ h => h⟩

theorem Proceeds.trans (h : Proceeds s s') (h' : Proceeds s' s'') : Proceeds s s'' :=
  ⟨h.toAdvances.trans h'.toAdvances, fun hn hf => h'.file (h.numbered hn) (h.file hn hf)⟩

theorem proceeds_change (s : TaskStore) (id : String) (f : DownloadStatus → DownloadStatus) :
    Proceeds s (s.change id f) := by
  refine ⟨advances_change s id f, fun _ h => ?_⟩
  unfold change
  cases s.tasks.get? id <;> exact h

theorem proceeds_persist (s : TaskStore) (force : Bool) (save : Save) :
    Proceeds s (s.persist force save).1 :=
  ⟨advances_persist s force save, fileNumbered_persist⟩

theorem proceeds_block (s : TaskStore) (id : String) (f : DownloadStatus → DownloadStatus)
    (force : Bool) (save : Save) : Proceeds s ((s.change id f).persist force save).1 :=
  (proceeds_change s id f).trans (proceeds_persist _ force save)

theorem proceeds_createDownloadTask (s : TaskStore) (spec : DownloadSpec) (now : ℚ) (save : Save) :
    Proceeds s (s.createDownloadTask spec now save).1 := by
  refine Proceeds.trans ⟨advances_put ?_, fun _ h => h⟩ (proceeds_persist _ true save)
  rfl

theorem proceeds_setResumeStatus (s : TaskStore) (id status : String) (now : ℚ) (save : Save) :
    Proceeds s (s.setResumeStatus id status now save).1 := by
  unfold setResumeStatus
  cases s.tasks.get? id with
  | none => exact .refl s
  | some t => exact proceeds_block s id _ true save

theorem proceeds_progress (s : TaskStore) (id : String) (downloaded total : ℕ) (now : ℚ)
    (save : Save) : Proceeds s (s.progress id downloaded total now save).1 := by
  unfold progress
  cases s.tasks.get? id with
  | none => exact .refl s
  | some t => exact proceeds_block s id _ false save

theorem proceeds_cancelDownloadTask (s : TaskStore) (id : String) (withdrawn : Bool) (now : ℚ)
    (save : Save) : Proceeds s (s.cancelDownloadTask id withdrawn now save).1 := by
  unfold cancelDownloadTask
  cases s.tasks.get? id with
  | none => exact .refl s
  | some t =>
    simp only
    split
    · exact .refl s
    · apply (proceeds_change s id _).trans
      split
      · exact proceeds_block _ id _ true save
      · exact proceeds_persist _ true save

theorem proceeds_importEnds (s : TaskStore) (id path recordId : String) (now : ℚ) (save : Save) :
    Proceeds s (s.importEnds id path recordId now save).1 := by
  unfold importEnds
  cases s.tasks.get? id with
  | none => exact .refl s
  | some t => exact proceeds_block s id _ true save

theorem checkpointSaved_cases (s : TaskStore) (id : String) (updatedAt : ℚ) (save : Save) :
    (s.checkpointSaved id updatedAt save).1 = s ∨
      (s.checkpointSaved id updatedAt save).1 =
        ((s.touch id fun t => { t with lastCheckpointAt := updatedAt }).persist false save).1 := by
  unfold checkpointSaved
  cases s.tasks.get? id with
  | none => exact .inl rfl
  | some t => exact .inr rfl

@[simp] theorem touch_changeSeq (s : TaskStore) (id : String)
    (f : DownloadStatus → DownloadStatus) : (s.touch id f).changeSeq = s.changeSeq := by
  unfold touch
  cases s.tasks.get? id <;> rfl

@[simp] theorem touch_file (s : TaskStore) (id : String) (f : DownloadStatus → DownloadStatus) :
    (s.touch id f).file = s.file := by
  unfold touch
  cases s.tasks.get? id <;> rfl

theorem numbered_touch (h : s.Numbered) (id : String) (f : DownloadStatus → DownloadStatus) :
    (s.touch id f).Numbered := by
  have hsame : ∀ {k t}, (s.touch id f).tasks.get? k = some t →
      ∃ u, s.tasks.get? k = some u ∧ u.changeSeq = t.changeSeq := by
    intro k t ht
    rw [get?_touch] at ht
    split at ht
    · rename_i hk
      obtain ⟨u, hu, rfl⟩ := Option.map_eq_some_iff.mp ht
      exact ⟨u, hk ▸ hu, rfl⟩
    · exact ⟨t, ht, rfl⟩
  constructor
  · intro k t ht
    obtain ⟨u, hu, heq⟩ := hsame ht
    rw [touch_changeSeq, ← heq]
    exact h.bounds hu
  · intro k k' t t' ht ht' heq
    obtain ⟨u, hu, hseq⟩ := hsame ht
    obtain ⟨u', hu', hseq'⟩ := hsame ht'
    exact h.distinct hu hu' (by rw [hseq, hseq', heq])

/-! ## A new process -/

theorem proceeds_changeAll (ids : List String) (s : TaskStore)
    (f : DownloadStatus → DownloadStatus) : Proceeds s (s.changeAll ids f) := by
  induction ids generalizing s with
  | nil => exact .refl s
  | cons id ids ih => exact (proceeds_change s id f).trans (ih _)

theorem proceeds_recovered (s : TaskStore) (replayLimit : ℕ) (now : ℚ) :
    Proceeds s (s.recovered replayLimit now) :=
  ((proceeds_changeAll _ s _).trans (proceeds_changeAll _ _ _)).trans (proceeds_changeAll _ _ _)

theorem proceeds_restart (file : Option (List DownloadTask)) (replayLimit : ℕ) (now saveAt : ℚ) :
    Proceeds (load file) (restart file replayLimit now saveAt) := by
  simp only [restart]
  split
  · exact .refl _
  · exact (proceeds_recovered _ replayLimit now).trans (proceeds_persist _ true _)

/-- Recovery gives every unfinished task a new number. -/
theorem get?_recovered {replayLimit : ℕ} {now : ℚ} {t : DownloadTask}
    (h : (s.recovered replayLimit now).tasks.get? id = some t) :
    s.changeSeq < t.changeSeq ∨ s.tasks.get? id = some t ∧ t.isTerminal = true := by
  let ids := s.recoverable.map DownloadTask.taskId
  have hfirst := advances_changeAll ids s (recovering now)
  have hsecond := advances_changeAll (ids.drop replayLimit) (s.changeAll ids (recovering now))
    (overflowed now)
  rcases get?_changeAll h with hlt | ⟨-, h⟩
  · exact .inl ((hfirst.trans hsecond).counter.trans_lt hlt)
  rcases get?_changeAll h with hlt | ⟨-, h⟩
  · exact .inl (hfirst.counter.trans_lt hlt)
  rcases get?_changeAll h with hlt | ⟨hid, h⟩
  · exact .inl hlt
  refine .inr ⟨h, ?_⟩
  by_contra hopen
  apply hid
  have hmem : t ∈ s.recoverable := by
    rw [recoverable, mem_sortedBy, List.mem_filter]
    exact ⟨Table.mem_of_get? h, by simpa using hopen⟩
  exact Table.key_of_get? h ▸ List.mem_map_of_mem hmem

theorem get?_restart {file : Option (List DownloadTask)} (hfile : FileNumbered file)
    {replayLimit : ℕ} {now saveAt : ℚ} {t : DownloadTask}
    (h : (restart file replayLimit now saveAt).tasks.get? id = some t) :
    topSeq (file.getD []) < t.changeSeq ∨
      t ∈ file.getD [] ∧ t.taskId = id ∧ t.isTerminal = true := by
  simp only [restart] at h
  split at h
  · rename_i hnone
    obtain ⟨hmem, hid⟩ := (get?_load hfile).mp h
    refine .inr ⟨hmem, hid, ?_⟩
    by_contra hopen
    have hin : t ∈ (load file).recoverable := by
      rw [recoverable, mem_sortedBy, List.mem_filter]
      exact ⟨Table.mem_of_get? h, by simpa using hopen⟩
    rw [hnone] at hin
    exact List.not_mem_nil hin
  · rw [(persist_fields _ _ _).1] at h
    rcases get?_recovered h with hlt | ⟨hget, hterm⟩
    · exact .inl hlt
    · obtain ⟨hmem, hid⟩ := (get?_load hfile).mp hget
      exact .inr ⟨hmem, hid, hterm⟩

end TaskStore

end OpenClaw.ModelManager
