import OpenClaw.ModelManager.TaskLifecycle

/-!
# Finished tasks

Whatever fails, a completed task has its staged file, and what is resumed goes on where the part
file ends. Finished tasks stay as they are as long as completions are saved and a process leaves
them in its file when it ends.
-/

namespace OpenClaw.ModelManager

open Foundation
set_option autoImplicit false

/-! ## A new process -/

namespace TaskStore

variable {s s' : TaskStore} {id : String} {f : DownloadStatus → DownloadStatus}

theorem changeAll_absent (h : s.tasks.get? id = none) (ids : List String) :
    (s.changeAll ids f).tasks.get? id = none := by
  induction ids generalizing s with
  | nil => exact h
  | cons k ids ih =>
    refine ih ?_
    rw [get?_change]
    split
    · rename_i hk
      rw [← hk, h]
      rfl
    · exact h

theorem changeAll_row {t : DownloadTask} (h : s.tasks.get? id = some t) (ids : List String) :
    ∃ t', (s.changeAll ids f).tasks.get? id = some t' ∧ t'.spec = t.spec ∧
      (id ∈ ids → ∃ u, t'.status = f u) ∧ (id ∉ ids → t' = t) := by
  induction ids generalizing s t with
  | nil => exact ⟨t, h, rfl, fun hid => absurd hid List.not_mem_nil, fun _ => rfl⟩
  | cons k ids ih =>
    have hchange := get?_change s k id f
    by_cases hk : id = k
    · subst hk
      rw [if_pos rfl, h, Option.map_some] at hchange
      obtain ⟨t', ht', hspec, hin, hout⟩ := ih hchange
      refine ⟨t', ht', hspec, fun _ => ?_, fun hid => absurd List.mem_cons_self hid⟩
      by_cases hid : id ∈ ids
      · exact hin hid
      · exact ⟨t.status, by rw [hout hid]⟩
    · rw [if_neg hk, h] at hchange
      obtain ⟨t', ht', hspec, hin, hout⟩ := ih hchange
      exact ⟨t', ht', hspec, fun hid => hin (List.mem_of_ne_of_mem hk hid),
        fun hid => hout fun hmem => hid (List.mem_cons_of_mem k hmem)⟩

/-- What recovery makes of a row: finished tasks stay, the others are queued or fail. -/
structure Recovered (s : TaskStore) (replayLimit : ℕ) (t t' : DownloadTask) : Prop where
  spec : t'.spec = t.spec
  finished : t.isTerminal = true → t' = t
  unfinished : t.isTerminal = false → t'.state = .queued ∨ t'.state = .failed
  replayed : t.taskId ∈ s.replayable replayLimit → t'.state = .queued

theorem mem_recoverable {t : DownloadTask} (h : s.tasks.get? id = some t) :
    id ∈ s.recoverable.map DownloadTask.taskId ↔ t.isTerminal = false := by
  constructor
  · intro hid
    obtain ⟨u, hu, hkey⟩ := List.mem_map.mp hid
    rw [recoverable, mem_sortedBy, List.mem_filter] at hu
    have hget := Table.get?_key hu.1
    rw [hkey, h] at hget
    cases hget
    simpa using hu.2
  · intro hopen
    refine List.mem_map.mpr ⟨t, ?_, Table.key_of_get? h⟩
    rw [recoverable, mem_sortedBy, List.mem_filter]
    exact ⟨Table.mem_of_get? h, by rw [hopen]; rfl⟩

theorem recovered_row {t : DownloadTask} (h : s.tasks.get? id = some t) (replayLimit : ℕ)
    (now : ℚ) :
    ∃ t', (s.recovered replayLimit now).tasks.get? id = some t' ∧
      Recovered s replayLimit t t' := by
  let ids := s.recoverable.map DownloadTask.taskId
  obtain ⟨t₁, ht₁, hspec₁, -, hout₁⟩ := changeAll_row (f := recovering now) h ids
  obtain ⟨t₂, ht₂, hspec₂, hin₂, hout₂⟩ :=
    changeAll_row (f := overflowed now) ht₁ (ids.drop replayLimit)
  obtain ⟨t₃, ht₃, hspec₃, hin₃, hout₃⟩ :=
    changeAll_row (f := replayed now) ht₂ (ids.take replayLimit)
  have hkey : t.taskId = id := Table.key_of_get? h
  have hqueued : id ∈ ids.take replayLimit → t₃.state = .queued := by
    intro hid
    obtain ⟨u, hu⟩ := hin₃ hid
    rw [DownloadTask.state, hu]
    rfl
  refine ⟨t₃, ht₃, hspec₃.trans (hspec₂.trans hspec₁), fun hterm => ?_, fun hopen => ?_,
    fun hid => hqueued (hkey ▸ hid)⟩
  · have hid : id ∉ ids := by
      rw [mem_recoverable h, hterm]
      exact Bool.noConfusion
    rw [hout₃ fun hmem => hid (List.mem_of_mem_take hmem),
      hout₂ fun hmem => hid (List.mem_of_mem_drop hmem), hout₁ hid]
  · have hid : id ∈ ids := (mem_recoverable h).mpr hopen
    by_cases htake : id ∈ ids.take replayLimit
    · exact .inl (hqueued htake)
    · rw [← List.take_append_drop replayLimit ids, List.mem_append] at hid
      obtain ⟨u, hu⟩ := hin₂ (hid.resolve_left htake)
      rw [hout₃ htake, DownloadTask.state, hu]
      exact .inr rfl

variable {file : Option (List DownloadTask)} {replayLimit : ℕ} {now saveAt : ℚ}

theorem restart_row {t : DownloadTask} (h : (load file).tasks.get? id = some t) :
    ∃ t', (restart file replayLimit now saveAt).tasks.get? id = some t' ∧
      Recovered (load file) replayLimit t t' := by
  simp only [restart]
  split
  · rename_i hnone
    have hid : id ∉ (load file).recoverable.map DownloadTask.taskId := by simp [hnone]
    have hterm : t.isTerminal = true := by
      rw [mem_recoverable h, Bool.not_eq_false] at hid
      exact hid
    refine ⟨t, h, rfl, fun _ => rfl, fun hopen => ?_, fun hmem => ?_⟩
    · rw [hterm] at hopen
      cases hopen
    · rw [Table.key_of_get? h] at hmem
      exact absurd (List.mem_of_mem_take hmem) hid
  · rw [(persist_fields _ _ _).1]
    exact recovered_row h replayLimit now

variable (replayLimit now saveAt) in
theorem restart_absent (h : (load file).tasks.get? id = none) :
    (restart file replayLimit now saveAt).tasks.get? id = none := by
  simp only [restart]
  split
  · exact h
  · rw [(persist_fields _ _ _).1]
    exact changeAll_absent (changeAll_absent (changeAll_absent h _) _) _

theorem restart_saved (k : String) :
    (restart file replayLimit now saveAt).saved k =
      (restart file replayLimit now saveAt).tasks.get? k := by
  simp only [restart]
  split
  · rfl
  · rw [persist_forced _ rfl, (persist_fields _ _ _).1]

theorem Block.absent (hb : Block s s' id f) {k : String} (hk : s.tasks.get? k = none)
    (hsaved : s.saved k = none) : s'.tasks.get? k = none ∧ s'.saved k = none := by
  have hmem : s'.tasks.get? k = none := by
    by_cases hid : k = id
    · cases hget : s'.tasks.get? k with
      | none => rfl
      | some t' =>
        obtain ⟨t, ht, -⟩ := hb.of_mem (hid ▸ hget)
        rw [← hid, hk] at ht
        cases ht
    · rw [hb.others k hid, hk]
  rcases hb.saved with hold | hnew
  · exact ⟨hmem, (hold k).trans hsaved⟩
  · exact ⟨hmem, (hnew k).trans hmem⟩

end TaskStore

/-! ## All tasks -/

section Managers
variable {h : Host} {m : Manager}

structure Sound (h : Host) (m : Manager) : Prop where
  views : ∀ id, (m.view id).Ok h
  fresh : ∀ id, id ∉ m.ids → m.store.tasks.get? id = none ∧ m.store.saved id = none

theorem sound_init (h : Host) : Sound h {} where
  views id := by
    refine ⟨fun w hw => (Option.some_ne_none w hw.symm).elim, fun t ht => ?_,
      fun w hw => (Option.some_ne_none w hw.symm).elim,
      fun w hw => (Option.some_ne_none w hw.symm).elim⟩
    exact ht.elim (fun ht => (Option.some_ne_none t ht.symm).elim)
      fun ht => (Option.some_ne_none t ht.symm).elim
  fresh _ _ := ⟨rfl, rfl⟩

/-- A step in which one task, its worker and its directory change. -/
theorem Sound.block (hm : Sound h m) {m' : Manager} {id : String}
    {f : DownloadStatus → DownloadStatus} (hb : TaskStore.Block m.store m'.store id f)
    (hids : m'.ids = m.ids)
    (hothers : ∀ k, k ≠ id → m'.workers k = m.workers k ∧ m'.stages k = m.stages k)
    (hown : (m'.view id).Ok h) : Sound h m' where
  views k := by
    by_cases hk : k = id
    · exact hk ▸ hown
    · refine (hm.views k).other (hb.others k hk) (hothers k hk).1 (hothers k hk).2 ?_
      rcases hb.saved with hold | hnew
      · exact .inl (hold k)
      · exact .inr (hnew k)
  fresh k hk := by
    rw [hids] at hk
    exact hb.absent (hm.fresh k hk).1 (hm.fresh k hk).2

theorem Sound.taskId (hm : Sound h m) {id : String} {w : Worker} (hw : m.workers id = some w) :
    w.spec.taskId = id := by
  obtain ⟨t, ht, hspec⟩ := (hm.views id).spec w hw
  have hkey : t.taskId = id := Table.key_of_get? (show m.store.tasks.get? id = some t from ht)
  rw [← hspec, ← hkey]
  rfl

theorem persist_raises (s : TaskStore) {save : Save} (hok : save.ok = true) :
    (s.persist true save).2 = false := by
  unfold TaskStore.persist
  rw [if_neg (by simp), if_pos hok]

/-- The three ways of a worker's step. -/
theorem workStep_cases {s : TaskStore} {spec : DownloadSpec} {d : StageDir} {p : Phase}
    (hp : PhaseHolds h spec d p) (o : Outside) (cancelled : Bool) :
    Goes h s spec (workStep h s spec d o cancelled p) ∧ p.isRaising = false ∨
      (∃ digest, p = .completing digest) ∨
      p.isRaising = true ∧ (workStep h s spec d o cancelled p).phase = none ∧
        (workStep h s spec d o cancelled p).stage = d ∧
        ∃ f, (∀ t, (f t).state ≠ .completed) ∧
          TaskStore.Block s (workStep h s spec d o cancelled p).store spec.taskId f := by
  cases p with
  | completing digest => exact .inr (.inl ⟨digest, rfl⟩)
  | raising e =>
    refine .inr (.inr ⟨rfl, ?_, ?_, ?_⟩)
    · cases e <;> rfl
    · cases e <;> rfl
    · cases e with
      | cancelled =>
        refine ⟨_, ?_, TaskStore.block_change s spec.taskId _ true o.save⟩
        exact fun t => TaskState.noConfusion
      | error text =>
        refine ⟨_, ?_, TaskStore.block_change s spec.taskId _ true o.save⟩
        exact fun t => TaskState.noConfusion
  | _ => exact .inl ⟨goes_workStep hp (fun _ => Phase.noConfusion) rfl, rfl⟩

theorem Sound.work (hm : Sound h m) (id : String) (o : Outside) :
    Sound h (m.step h (.work id o)) := by
  simp only [Manager.step]
  cases hw : m.workers id with
  | none => exact hm
  | some w =>
    obtain ⟨spec, p⟩ := w
    obtain rfl : spec.taskId = id := hm.taskId hw
    have hview : (m.view spec.taskId).Ok h := hm.views spec.taskId
    rw [Manager.view, hw] at hview
    have hothers : ∀ (d : StageDir) (w' : Option Worker) (k : String), k ≠ spec.taskId →
        Function.update m.workers spec.taskId w' k = m.workers k ∧
          Function.update m.stages spec.taskId d k = m.stages k :=
      fun _ _ _ hk => ⟨Function.update_of_ne hk _ _, Function.update_of_ne hk _ _⟩
    rcases workStep_cases (s := m.store) (hview.phase _ rfl) o (m.cancelEvents spec.taskId) with
      ⟨hgoes, hp⟩ | ⟨digest, rfl⟩ | ⟨-, hphase, hstage, f, hf, hb⟩
    · obtain ⟨f, hf, hb⟩ := hgoes.block
      refine hm.block hb rfl (hothers _ _) ?_
      rw [Manager.view]
      simp only [Function.update_self]
      exact hview.move hp hb hf hgoes.phase
    · have hb := TaskStore.block_runCompletes m.store spec.taskId (h.stagedFile spec) digest o.now
        o.save
      refine hm.block hb rfl (hothers _ _) ?_
      rw [Manager.view]
      simp only [Function.update_self]
      refine hview.complete fun q hq => ?_
      simp only [workStep] at hq
      split at hq
      · cases Option.some.inj hq
        rfl
      · cases hq
    · refine hm.block hb rfl (hothers _ _) ?_
      rw [Manager.view]
      simp only [Function.update_self, hphase, hstage, Option.map_none]
      exact hview.leave hb hf

theorem Manager.withdraws_eq_true {id : String} {withdrawn : Bool}
    (hw : m.withdraws id withdrawn = true) :
    ∃ t, m.store.tasks.get? id = some t ∧ t.state = .queued := by
  simp only [Manager.withdraws, Bool.and_eq_true, Option.any_eq_true, beq_iff_eq] at hw
  obtain ⟨-, t, ht, hqueued⟩ := hw
  exact ⟨t, ht, hqueued⟩

theorem Sound.cancel (hm : Sound h m) (id : String) (withdrawn : Bool) (now : ℚ) (save : Save) :
    Sound h (m.step h (.cancelDownloadTask id withdrawn now save)) := by
  simp only [Manager.step]
  cases hw : m.withdraws id withdrawn with
  | false =>
    obtain ⟨f, hf, hb⟩ := TaskStore.block_cancel_asked m.store id now save
    exact hm.block hb rfl (fun _ _ => ⟨rfl, rfl⟩) ((hm.views id).keep hb hf)
  | true =>
    obtain ⟨t, ht, hqueued⟩ := Manager.withdraws_eq_true hw
    obtain ⟨f, hf, hb⟩ := TaskStore.block_cancel_withdrawn ht hqueued now save
    refine hm.block hb rfl (fun k hk => ⟨Function.update_of_ne hk _ _, rfl⟩) ?_
    rw [Manager.view]
    simp only [if_true, Function.update_self]
    refine (hm.views id).leave hb fun u => ?_
    rw [hf u]
    exact TaskState.noConfusion

theorem Sound.create (hm : Sound h m) (spec : DownloadSpec) (now : ℚ) (save : Save) :
    Sound h (m.step h (.createDownloadTask spec now save)) := by
  simp only [Manager.step]
  split
  · exact hm
  · rename_i hnew
    obtain ⟨hmem, hsaved⟩ := hm.fresh spec.taskId hnew
    obtain ⟨t, hspec, hqueued, htasks, hpersist⟩ :=
      TaskStore.createDownloadTask_row m.store spec now save
    generalize (m.store.createDownloadTask spec now save).1 = s' at htasks hpersist ⊢
    constructor
    · intro k
      by_cases hk : spec.taskId = k
      · subst hk
        have hget : s'.tasks.get? spec.taskId = some t := by rw [htasks, if_pos rfl]
        have hrow : ∀ u, s'.tasks.get? spec.taskId = some u ∨ s'.saved spec.taskId = some u →
            u = t := by
          rintro u (hu | hu)
          · exact Option.some.inj (hu.symm.trans hget)
          · rcases hpersist with hold | hput
            · rw [hold, hsaved] at hu
              cases hu
            · exact Option.some.inj (hu.symm.trans ((hput _).trans hget))
        have hworker : ∀ w, Function.update m.workers spec.taskId (some ⟨spec, .submitted⟩)
            spec.taskId = some w → w = ⟨spec, .submitted⟩ := by
          intro w hw
          rw [Function.update_self] at hw
          exact (Option.some.inj hw).symm
        refine ⟨fun w hw => ⟨t, hget, ?_⟩, fun u hu hstate => ?_, fun w hw _ u hu => ?_,
          fun w hw => ?_⟩
        · rw [hworker w hw, hspec]
        · rw [hrow u hu, hqueued] at hstate
          cases hstate
        · rw [hrow u hu, DownloadTask.isTerminal, hqueued]
          rfl
        · rw [hworker w hw]
          trivial
      · refine (hm.views k).other ?_ (Function.update_of_ne (Ne.symm hk) _ _) rfl ?_
        · exact (htasks k).trans (if_neg hk)
        · rcases hpersist with hold | hput
          · exact .inl (hold k)
          · exact .inr (hput k)
    · intro k hk
      obtain ⟨hk', hk⟩ := not_or.mp (mt List.mem_cons.mpr hk)
      have hget : s'.tasks.get? k = none := by
        rw [htasks, if_neg (Ne.symm hk')]
        exact (hm.fresh k hk).1
      refine ⟨hget, ?_⟩
      rcases hpersist with hold | hput
      · exact (hold k).trans (hm.fresh k hk).2
      · exact (hput k).trans hget

theorem Sound.restart (hm : Sound h m) (replayLimit : ℕ) (now saveAt : ℚ) (flushed : String → ℕ) :
    Sound h (m.step h (.restart replayLimit now saveAt flushed)) := by
  simp only [Manager.step]
  constructor
  · intro id
    have hrow : ∀ t', (TaskStore.restart m.store.file replayLimit now saveAt).tasks.get? id =
        some t' ∨ (TaskStore.restart m.store.file replayLimit now saveAt).saved id = some t' →
        ∃ t, m.store.saved id = some t ∧
          TaskStore.Recovered (TaskStore.load m.store.file) replayLimit t t' := by
      intro t' ht'
      rw [TaskStore.restart_saved, or_self] at ht'
      cases hload : (TaskStore.load m.store.file).tasks.get? id with
      | none =>
        rw [TaskStore.restart_absent replayLimit now saveAt hload] at ht'
        cases ht'
      | some t =>
        obtain ⟨u, hu, hrec⟩ := TaskStore.restart_row hload
        rw [hu] at ht'
        exact ⟨t, hload, Option.some.inj ht' ▸ hrec⟩
    have hfinal : ∀ d : StageDir, (if (m.workers id).any Worker.isReceiving then
        d.cut (flushed id) else d).final = d.final := by
      intro d
      split <;> rfl
    refine ⟨fun w hw => ?_, fun t' ht' hstate => ?_, fun w hw _ t' ht' => ?_, fun w hw => ?_⟩
    · simp only [Manager.view] at hw ⊢
      split at hw
      · obtain ⟨t, ht, rfl⟩ := Option.map_eq_some_iff.mp hw
        exact ⟨t, ht, rfl⟩
      · cases hw
    · obtain ⟨t, hsaved, hrec⟩ := hrow t' ht'
      cases hopen : t.isTerminal with
      | false =>
        rcases hrec.unfinished hopen with hq | hq
        · rw [hq] at hstate
          cases hstate
        · rw [hq] at hstate
          cases hstate
      | true =>
        rw [hrec.finished hopen] at hstate ⊢
        obtain ⟨hpath, hcomputed, bytes, hbytes, hdigest⟩ :=
          (hm.views id).staged t (.inr hsaved) hstate
        exact ⟨hpath, hcomputed, bytes, (hfinal (m.stages id)).trans hbytes, hdigest⟩
    · obtain ⟨t, hsaved, hrec⟩ := hrow t' ht'
      simp only [Manager.view] at hw
      split at hw
      · rename_i hid
        rw [← Table.key_of_get? hsaved] at hid
        rw [DownloadTask.isTerminal, hrec.replayed hid]
        rfl
      · cases hw
    · simp only [Manager.view] at hw
      split at hw
      · obtain ⟨t, -, rfl⟩ := Option.map_eq_some_iff.mp hw
        trivial
      · cases hw
  · intro id hid
    have hget := TaskStore.restart_absent replayLimit now saveAt (hm.fresh id hid).2
    exact ⟨hget, (TaskStore.restart_saved id).trans hget⟩

/-- One step. -/
theorem Sound.step (hm : Sound h m) (a : Action) : Sound h (m.step h a) := by
  cases a with
  | createDownloadTask spec now save => exact hm.create spec now save
  | work id o => exact hm.work id o
  | cancelDownloadTask id withdrawn now save => exact hm.cancel id withdrawn now save
  | importEnds id path recordId now save =>
    obtain ⟨f, hf, hb⟩ := TaskStore.block_importEnds m.store id path recordId now save
    exact hm.block hb rfl (fun _ _ => ⟨rfl, rfl⟩) ((hm.views id).keep hb hf)
  | restart replayLimit now saveAt flushed => exact hm.restart replayLimit now saveAt flushed

theorem sound_managerAt (h : Host) (actions : ℕ → Action) (k : ℕ) :
    Sound h (managerAt h actions k) := by
  refine run_invariant (P := Sound h) (m := 0) (sound_init h) (fun k _ hk => ?_) k (Nat.zero_le k)
  exact hk.step (actions k)

theorem completedStaged (h : Host) (actions : ℕ → Action) : CompletedStaged h actions :=
  fun k id t ht hstate => ((sound_managerAt h actions k).views id).staged t (.inl ht) hstate

theorem appendsAtEnd (h : Host) (actions : ℕ → Action) : AppendsAtEnd h actions where
  start := by
    intro k id o a st hwork hres
    obtain ⟨spec, hw⟩ := hres.resuming
    have hphase : PhaseHolds h spec ((managerAt h actions k).stages id) (.requesting a) :=
      ((sound_managerAt h actions k).views id).phase _ hw
    obtain ⟨-, hdownloaded, hrange⟩ := openStream_stream hres.taken
    obtain ⟨stop, total, hrange⟩ := hrange hres.positive
    rcases hphase with ⟨hzero, -⟩ | ⟨hpart, hlen⟩
    · exact absurd hzero hres.positive.ne'
    have hnext : ((managerAt h actions (k + 1)).stages id).part = some a.digest := by
      have hstep : managerAt h actions (k + 1) = (managerAt h actions k).step h (.work id o) := by
        rw [← hwork]
        rfl
      rw [hstep]
      simp only [Manager.step, hw, workStep, request, hres.arrives, hres.taken,
        Function.update_self, if_pos hres.positive, hpart, Option.getD_some, Bool.false_eq_true,
        if_false]
    exact ⟨a.digest, stop, total, hpart, hnext, hlen ▸ hrange, hdownloaded.trans hlen⟩
  reading := by
    intro k id spec st hw
    obtain ⟨hpart, hlen⟩ : PhaseHolds h spec ((managerAt h actions k).stages id)
        (.receiving .chunk st) := ((sound_managerAt h actions k).views id).phase _ hw
    exact ⟨st.digest, hpart, hlen, rfl⟩

/-! ## Finished tasks stay -/

/-- No worker is left on a finished task. -/
def AllOpen (m : Manager) : Prop :=
  ∀ id w t, m.workers id = some w → m.store.tasks.get? id = some t → t.isTerminal = false

/-- A step after which finished tasks are as before. -/
structure Settles (m m' : Manager) : Prop where
  open' : AllOpen m'
  final : ∀ id state, m.stateOf id = some state → state.isTerminal = true →
    m'.stateOf id = some state

theorem settles_block (hopen : AllOpen m) {m' : Manager} {id : String}
    {f : DownloadStatus → DownloadStatus} (hb : TaskStore.Block m.store m'.store id f)
    (hothers : ∀ k, k ≠ id → m'.workers k = m.workers k)
    (hown : ∀ w t, m'.workers id = some w → m.store.tasks.get? id = some t →
      (f t.status).state.isTerminal = false)
    (hstays : ∀ t, m.store.tasks.get? id = some t → t.isTerminal = true →
      (f t.status).state = t.state) : Settles m m' where
  open' k w t' hw ht' := by
    by_cases hk : k = id
    · subst hk
      obtain ⟨t, ht, -, hstatus⟩ := hb.of_mem ht'
      rw [DownloadTask.isTerminal, DownloadTask.state, hstatus]
      exact hown w t hw ht
    · rw [hothers k hk] at hw
      rw [hb.others k hk] at ht'
      exact hopen k w t' hw ht'
  final k state hstate hterm := by
    obtain ⟨t, ht, rfl⟩ := Option.map_eq_some_iff.mp hstate
    by_cases hk : k = id
    · subst hk
      obtain ⟨t', ht', -, hstatus⟩ := hb.mem ht
      rw [Manager.stateOf, ht', Option.map_some, DownloadTask.state, hstatus, hstays t ht hterm]
    · rw [Manager.stateOf, hb.others k hk, ht]
      rfl

theorem settles_work (hm : Sound h m) (hopen : AllOpen m) {id : String} {o : Outside}
    (hcare : FinalsSaved m (.work id o)) : Settles m (m.step h (.work id o)) := by
  simp only [Manager.step]
  cases hw : m.workers id with
  | none => exact ⟨hopen, fun _ _ hstate _ => hstate⟩
  | some w =>
    obtain ⟨spec, p⟩ := w
    obtain rfl : spec.taskId = id := hm.taskId hw
    have hphase : PhaseHolds h spec (m.stages spec.taskId) p := (hm.views spec.taskId).phase _ hw
    have hothers : ∀ (w' : Option Worker) (k : String), k ≠ spec.taskId →
        Function.update m.workers spec.taskId w' k = m.workers k :=
      fun _ _ hk => Function.update_of_ne hk _ _
    have hstays : ∀ (f : DownloadStatus → DownloadStatus) (t : DownloadTask),
        m.store.tasks.get? spec.taskId = some t → t.isTerminal = true →
          (f t.status).state = t.state := by
      intro f t ht hterm
      rw [hopen spec.taskId _ t hw ht] at hterm
      cases hterm
    have hgone : ∀ (f : DownloadStatus → DownloadStatus) (w' : Worker) (t : DownloadTask),
        Function.update m.workers spec.taskId none spec.taskId = some w' →
          m.store.tasks.get? spec.taskId = some t → (f t.status).state.isTerminal = false := by
      intro f w' t hw'
      rw [Function.update_self] at hw'
      cases hw'
    rcases workStep_cases (s := m.store) hphase o (m.cancelEvents spec.taskId) with
      ⟨hgoes, -⟩ | ⟨digest, rfl⟩ | ⟨-, hphase, -, f, -, hb⟩
    · obtain ⟨f, hf, hb⟩ := hgoes.block
      exact settles_block hopen hb (hothers _)
        (fun _ t _ ht => hf t.status (hopen spec.taskId _ t hw ht)) (hstays f)
    · have hok := hcare spec digest hw
      have hraises : (m.store.runCompletes spec.taskId (h.stagedFile spec) digest o.now
          o.save).2 = false := persist_raises _ hok
      have hb := TaskStore.block_runCompletes m.store spec.taskId (h.stagedFile spec) digest o.now
        o.save
      simp only [workStep, hraises, Bool.false_eq_true, if_false, Option.map_none]
      exact settles_block hopen hb (hothers _) (hgone _) (hstays _)
    · simp only [hphase, Option.map_none]
      exact settles_block hopen hb (hothers _) (hgone f) (hstays f)

theorem settles_cancel (hopen : AllOpen m) (id : String) (withdrawn : Bool) (now : ℚ)
    (save : Save) : Settles m (m.step h (.cancelDownloadTask id withdrawn now save)) := by
  simp only [Manager.step]
  cases hw : m.withdraws id withdrawn with
  | false =>
    obtain ⟨f, hf, hb⟩ := TaskStore.block_cancel_asked m.store id now save
    exact settles_block hopen hb (fun _ _ => rfl)
      (fun w t hw ht => hf.staysOpen t.status (hopen id w t hw ht)) fun t _ _ => hf.state t.status
  | true =>
    obtain ⟨t, ht, hqueued⟩ := Manager.withdraws_eq_true hw
    obtain ⟨f, -, hb⟩ := TaskStore.block_cancel_withdrawn ht hqueued now save
    refine settles_block hopen hb (fun k hk => Function.update_of_ne hk _ _) ?_ ?_
    · intro w t hw
      simp only [if_true, Function.update_self] at hw
      cases hw
    · intro u hu hterm
      rw [show u = t from Option.some.inj (hu.symm.trans ht), DownloadTask.isTerminal,
        hqueued] at hterm
      cases hterm

theorem settles_create (hm : Sound h m) (hopen : AllOpen m) (spec : DownloadSpec) (now : ℚ)
    (save : Save) : Settles m (m.step h (.createDownloadTask spec now save)) := by
  simp only [Manager.step]
  split
  · exact ⟨hopen, fun _ _ hstate _ => hstate⟩
  · rename_i hnew
    have hmem := (hm.fresh spec.taskId hnew).1
    obtain ⟨t₀, -, hqueued, htasks, -⟩ := TaskStore.createDownloadTask_row m.store spec now save
    constructor
    · intro k w t hw ht
      rw [htasks] at ht
      by_cases hk : spec.taskId = k
      · rw [if_pos hk] at ht
        rw [← Option.some.inj ht, DownloadTask.isTerminal, hqueued]
        rfl
      · rw [if_neg hk] at ht
        exact hopen k w t ((Function.update_of_ne (Ne.symm hk) _ _).symm.trans hw) ht
    · intro k state hstate _
      obtain ⟨t, ht, rfl⟩ := Option.map_eq_some_iff.mp hstate
      by_cases hk : spec.taskId = k
      · rw [← hk, hmem] at ht
        cases ht
      · rw [Manager.stateOf, htasks, if_neg hk, ht]
        rfl

theorem settles_restart {replayLimit : ℕ} {now saveAt : ℚ} {flushed : String → ℕ}
    (hm : Sound h m) (hcare : FinalsSaved m (.restart replayLimit now saveAt flushed)) :
    Settles m (m.step h (.restart replayLimit now saveAt flushed)) := by
  have hnext := hm.restart replayLimit now saveAt flushed
  constructor
  · intro id w t hw ht
    refine (hnext.views id).isOpen w hw ?_ t (.inl ht)
    simp only [Manager.step] at hw
    split at hw
    · obtain ⟨u, -, rfl⟩ := Option.map_eq_some_iff.mp hw
      rfl
    · cases hw
  · intro id state hstate hterm
    obtain ⟨t, ht, rfl⟩ := Option.map_eq_some_iff.mp hstate
    obtain ⟨t', hsaved, hsame⟩ := hcare id t ht hterm
    obtain ⟨u, hu, hrec⟩ := TaskStore.restart_row hsaved
    have hfinished : t'.isTerminal = true := by
      rw [DownloadTask.isTerminal, hsame]
      exact hterm
    rw [hrec.finished hfinished] at hu
    exact (congrArg (Option.map DownloadTask.state) hu).trans (congrArg some hsame)

theorem settles_step (hm : Sound h m) (hopen : AllOpen m) {a : Action} (hcare : FinalsSaved m a) :
    Settles m (m.step h a) := by
  cases a with
  | createDownloadTask spec now save => exact settles_create hm hopen spec now save
  | work id o => exact settles_work hm hopen hcare
  | cancelDownloadTask id withdrawn now save => exact settles_cancel hopen id withdrawn now save
  | importEnds id path recordId now save =>
    obtain ⟨f, hf, hb⟩ := TaskStore.block_importEnds m.store id path recordId now save
    exact settles_block hopen hb (fun _ _ => rfl)
      (fun w t hw ht => hf.staysOpen t.status (hopen id w t hw ht)) fun t _ _ => hf.state t.status
  | restart replayLimit now saveAt flushed => exact settles_restart hm hcare

theorem allOpen_managerAt {actions : ℕ → Action}
    (hcare : ∀ k, FinalsSaved (managerAt h actions k) (actions k)) (k : ℕ) :
    AllOpen (managerAt h actions k) := by
  refine run_invariant (P := AllOpen) (m := 0) ?_ (fun k _ hk => ?_) k (Nat.zero_le k)
  · exact fun _ _ _ hw => (Option.some_ne_none _ hw.symm).elim
  · exact (settles_step (sound_managerAt h actions k) hk (hcare k)).open'

theorem finalStates {actions : ℕ → Action}
    (hcare : ∀ k, FinalsSaved (managerAt h actions k) (actions k)) : FinalStates h actions := by
  intro id state k n hkn hstate hterm
  induction n, hkn using Nat.le_induction with
  | base => exact hstate
  | succ n _ ih =>
    exact (settles_step (sound_managerAt h actions n) (allOpen_managerAt hcare n)
      (hcare n)).final id state ih hterm

/-- The law of the downloads, in a run that saves what is finished. -/
theorem downloadsLawful_of_finalsSaved (h : Host) (actions : ℕ → Action)
    (hcare : ∀ k, FinalsSaved (managerAt h actions k) (actions k)) : DownloadsLawful h actions :=
  ⟨finalStates hcare, completedStaged h actions, appendsAtEnd h actions⟩

end Managers

/-! ## Two runs -/

/-- The digest of the empty file. -/
def emptyDigest : String := "e3b0c44298fc1c149afbf4c8996fb92427ae41e4649b934ca495991b7852b855"

def emptyFileHost : Host where
  sha256 bytes := if bytes = [] then emptyDigest else ""
  stagingDir := "/state/model_manager/staging"

def emptyFileSpec : DownloadSpec where
  taskId := "dl_1"
  modelId := "m1"
  name := "m1"
  modelType := "checkpoint"
  source := "catalog"
  sourceLabel := "catalog"
  downloadUrl := "https://models.example/m1"
  destinationSubdir := "checkpoints"
  filename := "m1.safetensors"
  expectedSha256 := emptyDigest
  provenance := { publisher := "p", license := "l", sourceUrl := "u" }
  tenantId := PyStr.ofString "default"
  createdAt := 0

/-- An empty file is downloaded, and whether its completion can be saved. -/
def emptyFileRun (saved : Bool) : ℕ → Action
  | 0 => .createDownloadTask emptyFileSpec 0 ⟨0, true⟩
  | 11 => .work "dl_1" { save := ⟨1, saved⟩, errorText := "No space left on device" }
  | _ => .work "dl_1" {}

theorem emptyFileRun_saved (k : ℕ) :
    FinalsSaved (managerAt emptyFileHost (emptyFileRun true) k) (emptyFileRun true k) := by
  unfold emptyFileRun
  split
  · trivial
  · exact fun _ _ _ => rfl
  · exact fun _ _ _ => rfl

theorem downloadsLawful_emptyFileRun : DownloadsLawful emptyFileHost (emptyFileRun true) :=
  downloadsLawful_of_finalsSaved emptyFileHost (emptyFileRun true) emptyFileRun_saved

/-- A completion that cannot be saved is handled as a failure of the task that has completed. -/
theorem completed_then_failed : ¬ DownloadsLawful emptyFileHost (emptyFileRun false) := by
  intro hlaw
  have hcompleted : (managerAt emptyFileHost (emptyFileRun false) 12).stateOf "dl_1" =
      some .completed := by decide +kernel
  have hfailed : (managerAt emptyFileHost (emptyFileRun false) 13).stateOf "dl_1" =
      some .failed := by decide +kernel
  have hstays := hlaw.final "dl_1" .completed 12 13 (Nat.le_succ 12) hcompleted rfl
  rw [hfailed] at hstays
  cases hstays

end OpenClaw.ModelManager
