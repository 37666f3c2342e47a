import Mathlib.Data.Finset.Dedup
import Mathlib.Data.Finset.Order
import OpenClaw.WeChat.CommandRuns

/-!
# A command runs at most once

Each task accounts for its own effect and reply: the phase says how many there have been. The guard
accounts for the deliveries under one key: two that were let through are further apart than its window.
-/

namespace OpenClaw.WeChat.CommandServer

open Foundation Connector
set_option autoImplicit false

/-! ## Tasks -/

/-- The effects and replies of a task in its phase. -/
def PhaseCounts (effects replies : ℕ) : Option RouterPhase → Prop
  | none => effects = 0 ∧ replies = 0
  | some (.handling effected) => effects = effected.toNat ∧ replies = 0
  | some (.deferred effected) => effects = effected.toNat ∧ replies = 0
  | some .ended => effects ≤ 1 ∧ replies ≤ 1

def Accounted (s : CommandServer) : Prop :=
  ∀ i, PhaseCounts (s.effects.count i) (s.replies.count i) (s.phaseOf i)

theorem PhaseCounts.le_one {effects replies : ℕ} {phase : Option RouterPhase}
    (h : PhaseCounts effects replies phase) : effects ≤ 1 ∧ replies ≤ 1 := by
  cases phase with
  | none =>
    obtain ⟨he, hr⟩ := h
    omega
  | some phase =>
    cases phase with
    | handling effected =>
      obtain ⟨he, hr⟩ := h
      have hle := Bool.toNat_le effected
      omega
    | deferred effected =>
      obtain ⟨he, hr⟩ := h
      have hle := Bool.toNat_le effected
      omega
    | ended => exact h

variable {s : CommandServer}

theorem phaseOf_setPhase (s : CommandServer) (i : ℕ) (phase : RouterPhase) (j : ℕ) :
    (s.setPhase i phase).phaseOf j =
      if i = j then (s.phaseOf j).map fun _ => phase else s.phaseOf j := by
  unfold phaseOf setPhase
  dsimp only
  rw [List.getElem?_modify]
  split
  · cases s.tasks[j]? <;> rfl
  · cases s.tasks[j]? <;> rfl

theorem phaseOf_addTask (s : CommandServer) (event : WeChatEvent) (key : Option CodePoints)
    (since : ℚ) (j : ℕ) : (s.addTask event key since).phaseOf j =
      if j = s.tasks.length then some (.handling false) else s.phaseOf j := by
  unfold phaseOf addTask
  dsimp only
  by_cases hj : j = s.tasks.length
  · subst hj
    simp
  · rw [if_neg hj]
    by_cases hlt : j < s.tasks.length
    · rw [List.getElem?_append_left hlt]
    · rw [List.getElem?_eq_none (by simp; omega), List.getElem?_eq_none (by omega)]

/-- The next task has no phase yet. -/
theorem phaseOf_length (s : CommandServer) : s.phaseOf s.tasks.length = none := by
  simp [phaseOf]

theorem Accounted.addTask (h : Accounted s) (event : WeChatEvent) (key : Option CodePoints)
    (since : ℚ) : Accounted (s.addTask event key since) := by
  intro j
  rw [phaseOf_addTask]
  split
  · rename_i hj
    subst hj
    have hnone := h s.tasks.length
    rw [phaseOf_length] at hnone
    exact hnone
  · exact h j

theorem Accounted.deliver (h : Accounted s) (fields : WeChatFields) (evict check : ℚ) :
    Accounted (s.deliver fields evict check) := by
  unfold CommandServer.deliver
  split
  · exact h
  · exact h
  · split
    · exact h
    · split
      · exact h.addTask _ _ _
      · dsimp only
        split
        · exact Accounted.addTask (s := { s with guard := _ }) h _ _ _
        · exact h

/-- Replacing the counts and the phase of one task leaves the others accounted for. -/
theorem Accounted.update (h : Accounted s) {s' : CommandServer} (i : ℕ) (phase : RouterPhase)
    (hlive : (s.phaseOf i).isSome = true) (htasks : s'.tasks = (s.setPhase i phase).tasks)
    (hothers : ∀ j, i ≠ j → s'.effects.count j = s.effects.count j ∧
      s'.replies.count j = s.replies.count j)
    (hself : PhaseCounts (s'.effects.count i) (s'.replies.count i) (some phase)) :
    Accounted s' := by
  intro j
  have hphase : s'.phaseOf j = (s.setPhase i phase).phaseOf j := by rw [phaseOf, htasks, phaseOf]
  rw [hphase, phaseOf_setPhase]
  by_cases hj : i = j
  · subst hj
    obtain ⟨p, hp⟩ := Option.isSome_iff_exists.mp hlive
    rw [if_pos rfl, hp]
    exact hself
  · rw [if_neg hj, (hothers j hj).1, (hothers j hj).2]
    exact h j

theorem count_concat {xs : List ℕ} (i j : ℕ) :
    (xs ++ [i]).count j = xs.count j + if i = j then 1 else 0 := by
  rw [List.count_append, List.count_singleton]
  congr 1
  by_cases h : i = j <;> simp [h]

theorem Accounted.effect (h : Accounted s) (i : ℕ) : Accounted (s.effect i) := by
  have hi := h i
  have hothers : ∀ j, i ≠ j → (s.effects ++ [i]).count j = s.effects.count j ∧
      s.replies.count j = s.replies.count j := by
    intro j hj
    rw [count_concat, if_neg hj]
    exact ⟨rfl, rfl⟩
  unfold CommandServer.effect
  split
  · rename_i hphase
    rw [hphase] at hi
    refine h.update i (.handling true) (by rw [hphase]; rfl) rfl hothers ?_
    change (s.effects ++ [i]).count i = _ ∧ s.replies.count i = 0
    rw [count_concat, if_pos rfl, hi.1]
    exact ⟨rfl, hi.2⟩
  · rename_i hphase
    rw [hphase] at hi
    refine h.update i (.deferred true) (by rw [hphase]; rfl) rfl hothers ?_
    change (s.effects ++ [i]).count i = _ ∧ s.replies.count i = 0
    rw [count_concat, if_pos rfl, hi.1]
    exact ⟨rfl, hi.2⟩
  · exact h

/-- A task that ends has replied once at most. -/
theorem Accounted.reply (h : Accounted s) {i : ℕ} {effected : Bool}
    (hlive : (s.phaseOf i).isSome = true)
    (hcounts : s.effects.count i = effected.toNat ∧ s.replies.count i = 0) (text : CodePoints)
    (sent : Bool) : Accounted ((s.setPhase i .ended).reply i text sent) := by
  have hle := Bool.toNat_le effected
  unfold CommandServer.reply
  split
  · refine h.update i .ended hlive rfl ?_ ?_
    · intro j hj
      change _ ∧ (s.replies ++ [i]).count j = _
      rw [count_concat, if_neg hj]
      exact ⟨rfl, rfl⟩
    · change s.effects.count i ≤ 1 ∧ (s.replies ++ [i]).count i ≤ 1
      rw [count_concat, if_pos rfl]
      omega
  · refine h.update i .ended hlive rfl (fun j _ => ⟨rfl, rfl⟩) ?_
    change s.effects.count i ≤ 1 ∧ s.replies.count i ≤ 1
    omega

theorem Accounted.finish (h : Accounted s) {i : ℕ} {outcome : RouterOutcome} {sent : Bool}
    (hcareful : s.Careful (.finish i outcome sent)) : Accounted (s.finish i outcome sent) := by
  have hi := h i
  have hended : ∀ effected, (s.phaseOf i).isSome = true →
      s.effects.count i = Bool.toNat effected ∧ s.replies.count i = 0 →
      Accounted (s.setPhase i .ended) := by
    intro effected hlive hcounts
    have hle := Bool.toNat_le effected
    refine h.update i .ended hlive rfl (fun j _ => ⟨rfl, rfl⟩) ?_
    change s.effects.count i ≤ 1 ∧ s.replies.count i ≤ 1
    omega
  unfold CommandServer.finish
  split
  · rename_i effected hphase
    have hlive : (s.phaseOf i).isSome = true := by rw [hphase]; rfl
    rw [hphase] at hi
    cases outcome with
    | response text => exact h.reply hlive hi text true
    | otherError => exact hended effected hlive hi
    | timeoutError =>
      -- the run that is cancelled has had no effect, so the next one starts from nothing
      cases effected with
      | true => exact absurd hphase hcareful
      | false =>
        exact h.update i (.deferred false) hlive rfl (fun j _ => ⟨rfl, rfl⟩) hi
  · rename_i effected hphase
    have hlive : (s.phaseOf i).isSome = true := by rw [hphase]; rfl
    rw [hphase] at hi
    cases outcome with
    | response text => exact h.reply hlive hi text sent
    | otherError => exact hended effected hlive hi
    | timeoutError => exact hended effected hlive hi
  · exact h

theorem Accounted.step (h : Accounted s) {a : ServerAction} (hcareful : s.Careful a) :
    Accounted (s.step a) := by
  cases a with
  | nonce nonce evict check => exact h
  | deliver fields evict check => exact h.deliver fields evict check
  | effect i => exact h.effect i
  | finish i outcome sent => exact h.finish hcareful

/-! ## Keys -/

/-- The key and the time of every delivery that was let through. -/
def marks (s : CommandServer) : List (Option CodePoints × ℚ) := s.tasks.map fun t => (t.key, t.since)

/-- The guard knows the keys of the deliveries, and those under one key are apart. -/
structure Remembered (s : CommandServer) (now : ℚ) : Prop where
  window : s.guard.windowSec = replayWindowSec
  cap : s.guard.maxEntries = nonceCacheSize
  held : ∀ m ∈ s.marks, ∀ key, m.1 = some key → m.2 ≤ now ∧ Held s.guard key m.2 now
  apart : s.marks.Pairwise fun a b => ∀ key, a.1 = some key → b.1 = some key → a.2 + 300 < b.2

theorem Remembered.mono {now now' : ℚ} (h : Remembered s now) (hle : now ≤ now') :
    Remembered s now' where
  window := h.window
  cap := h.cap
  held := fun m hm key hkey =>
    ⟨(h.held m hm key hkey).1.trans hle, (h.held m hm key hkey).2.mono hle⟩
  apart := h.apart

theorem marks_setPhase (s : CommandServer) (i : ℕ) (phase : RouterPhase) :
    (s.setPhase i phase).marks = s.marks := by
  unfold marks setPhase
  dsimp only
  apply List.ext_getElem?
  intro j
  rw [List.getElem?_map, List.getElem?_map, List.getElem?_modify]
  cases s.tasks[j]? with
  | none => rfl
  | some t => by_cases hj : i = j <;> simp [hj]

/-- What only moves phases and counts leaves the keys as they are. -/
theorem Remembered.congr {s' : CommandServer} {now : ℚ} (h : Remembered s now)
    (hguard : s'.guard = s.guard) (hmarks : s'.marks = s.marks) : Remembered s' now where
  window := hguard ▸ h.window
  cap := hguard ▸ h.cap
  held := by
    rw [hmarks, hguard]
    exact h.held
  apart := by
    rw [hmarks]
    exact h.apart

theorem Remembered.check {evict check : ℚ} (h : Remembered s evict) (hle : evict ≤ check)
    (hroom : s.guard.size < nonceCacheSize) (key : CodePoints) :
    Remembered { s with guard := (s.guard.checkAndRecord key evict check).1 } check := by
  have hspace : s.guard.size < s.guard.maxEntries := by
    rw [h.cap]
    exact hroom
  obtain ⟨hwindow, hcap⟩ := s.guard.checkAndRecord_windowSec key evict check
  refine ⟨hwindow.trans h.window, hcap.trans h.cap, ?_, h.apart⟩
  intro m hm k hk
  obtain ⟨hpast, hheld⟩ := h.held m hm k hk
  exact ⟨hpast.trans hle, hheld.check hspace h.window hpast hle key⟩

/-- A delivery that is let through under a key is later than the window of every earlier one. -/
theorem Remembered.new {evict check : ℚ} (h : Remembered s evict) (hle : evict ≤ check)
    (hroom : s.guard.size < nonceCacheSize) {key : CodePoints}
    (hnew : (s.guard.checkAndRecord key evict check).2 = true) :
    ∀ m ∈ s.marks, m.1 = some key → m.2 + 300 < check := by
  intro m hm hkey
  have hspace : s.guard.size < s.guard.maxEntries := by
    rw [h.cap]
    exact hroom
  rw [ReplayGuard.checkAndRecord_new_iff hspace hle] at hnew
  rcases (h.held m hm key hkey).2 with ⟨t, ht, hget⟩ | hover
  · have hlater := hnew _ hget
    rw [h.window, replayWindowSec] at hlater
    push_cast at hlater
    linarith
  · linarith

theorem Remembered.addTask {now : ℚ} (h : Remembered s now) (event : WeChatEvent)
    (key : Option CodePoints) (hheld : ∀ k, key = some k → Held s.guard k now now)
    (hapart : ∀ m ∈ s.marks, ∀ k, m.1 = some k → key = some k → m.2 + 300 < now) :
    Remembered (s.addTask event key now) now := by
  have hmarks : (s.addTask event key now).marks = s.marks ++ [(key, now)] := by
    simp [marks, CommandServer.addTask]
  refine ⟨h.window, h.cap, ?_, ?_⟩
  · intro m hm k hk
    rw [hmarks, List.mem_append, List.mem_singleton] at hm
    rcases hm with hm | rfl
    · exact h.held m hm k hk
    · exact ⟨le_refl _, hheld k hk⟩
  · rw [hmarks, List.pairwise_append]
    refine ⟨h.apart, by simp, ?_⟩
    intro a ha b hb k hak hbk
    obtain rfl := List.mem_singleton.mp hb
    exact hapart a ha k hak hbk

theorem Remembered.deliver {evict check : ℚ} (h : Remembered s evict) (hle : evict ≤ check)
    (hroom : s.guard.size < nonceCacheSize) (fields : WeChatFields) :
    Remembered (s.deliver fields evict check) check := by
  unfold CommandServer.deliver
  split
  · exact h.mono hle
  · exact h.mono hle
  split
  · exact h.mono hle
  split
  · apply (h.mono hle).addTask
    · intro k hk
      cases hk
    · intro m _ k _ hk
      cases hk
  rename_i event _ key _
  dsimp only
  have hchecked := h.check hle hroom key
  split
  · rename_i hnew
    apply hchecked.addTask
    · intro k hk
      cases hk
      left
      have hspace : s.guard.size < s.guard.maxEntries := by
        rw [h.cap]
        exact hroom
      refine ⟨check, le_refl _, ?_⟩
      change (s.guard.checkAndRecord key evict check).1.seen.get? key = _
      rw [ReplayGuard.get?_checkAndRecord_self hspace, hnew, if_pos rfl]
    · intro m hm k hk hsame
      cases hsame
      exact h.new hle hroom hnew m hm hk
  · exact hchecked

theorem effect_marks (s : CommandServer) (i : ℕ) :
    (s.effect i).marks = s.marks ∧ (s.effect i).guard = s.guard := by
  unfold CommandServer.effect
  split
  · exact ⟨marks_setPhase s i _, rfl⟩
  · exact ⟨marks_setPhase s i _, rfl⟩
  · exact ⟨rfl, rfl⟩

theorem reply_marks (s : CommandServer) (i : ℕ) (text : CodePoints) (sent : Bool) :
    (s.reply i text sent).marks = s.marks ∧ (s.reply i text sent).guard = s.guard := by
  unfold CommandServer.reply
  split <;> exact ⟨rfl, rfl⟩

theorem finish_marks (s : CommandServer) (i : ℕ) (outcome : RouterOutcome) (sent : Bool) :
    (s.finish i outcome sent).marks = s.marks ∧ (s.finish i outcome sent).guard = s.guard := by
  have hreply : ∀ text sent, ((s.setPhase i .ended).reply i text sent).marks = s.marks ∧
      ((s.setPhase i .ended).reply i text sent).guard = s.guard := by
    intro text sent
    obtain ⟨hm, hg⟩ := reply_marks (s.setPhase i .ended) i text sent
    exact ⟨hm.trans (marks_setPhase s i _), hg⟩
  unfold CommandServer.finish
  split
  · cases outcome with
    | response text => exact hreply text true
    | timeoutError => exact ⟨marks_setPhase s i _, rfl⟩
    | otherError => exact ⟨marks_setPhase s i _, rfl⟩
  · cases outcome with
    | response text => exact hreply text sent
    | timeoutError => exact ⟨marks_setPhase s i _, rfl⟩
    | otherError => exact ⟨marks_setPhase s i _, rfl⟩
  · exact ⟨rfl, rfl⟩

/-! ## Runs -/

theorem after_concat (actions : List ServerAction) (a : ServerAction) :
    after (actions ++ [a]) = (after actions).step a := by
  simp [after]

theorem CarefulRun.concat {actions : List ServerAction} {a : ServerAction}
    (h : CarefulRun (actions ++ [a])) : CarefulRun actions ∧ (after actions).Careful a :=
  ⟨fun before b hb => h before b (hb.trans (List.prefix_append _ _)), h actions a (List.prefix_refl _)⟩

theorem after_accounted {actions : List ServerAction} (h : CarefulRun actions) :
    Accounted (after actions) := by
  induction actions using List.reverseRecOn with
  | nil =>
    intro i
    exact ⟨rfl, rfl⟩
  | append_singleton actions a ih =>
    obtain ⟨hbefore, hcareful⟩ := CarefulRun.concat h
    rw [after_concat]
    exact (ih hbefore).step hcareful

theorem after_remembered {actions : List ServerAction} (hcareful : CarefulRun actions)
    (horder : InOrder actions) (now : ℚ)
    (hnow : ∀ t ∈ actions.flatMap ServerAction.readings, t ≤ now) :
    Remembered (after actions) now := by
  induction actions using List.reverseRecOn generalizing now with
  | nil => exact ⟨rfl, rfl, fun m hm => absurd hm List.not_mem_nil, List.Pairwise.nil⟩
  | append_singleton actions a ih =>
    obtain ⟨hbefore, ha⟩ := CarefulRun.concat hcareful
    unfold InOrder at horder
    rw [List.flatMap_append, List.pairwise_append] at horder
    rw [List.flatMap_append] at hnow
    have hpast : ∀ t ∈ a.readings, ∀ u ∈ actions.flatMap ServerAction.readings, u ≤ t :=
      fun t ht u hu => horder.2.2 u hu t (by simpa using ht)
    have hlast : ∀ t ∈ a.readings, t ≤ now :=
      fun t ht => hnow t (List.mem_append_right _ (by simpa using ht))
    have hsame := ih hbefore horder.1 now (fun t ht => hnow t (List.mem_append_left _ ht))
    rw [after_concat]
    cases a with
    | nonce nonce evict check =>
      have hle : evict ≤ check := by simpa [ServerAction.readings] using horder.2.1
      have hprior := ih hbefore horder.1 evict (hpast evict (by simp [ServerAction.readings]))
      exact (hprior.check hle ha nonce).mono (hlast check (by simp [ServerAction.readings]))
    | deliver fields evict check =>
      have hle : evict ≤ check := by simpa [ServerAction.readings] using horder.2.1
      have hprior := ih hbefore horder.1 evict (hpast evict (by simp [ServerAction.readings]))
      exact (hprior.deliver hle ha fields).mono (hlast check (by simp [ServerAction.readings]))
    | effect i =>
      obtain ⟨hm, hg⟩ := effect_marks (after actions) i
      exact hsame.congr hg hm
    | finish i outcome sent =>
      obtain ⟨hm, hg⟩ := finish_marks (after actions) i outcome sent
      exact hsame.congr hg hm

/-- A key covers one task in a window. -/
theorem covers_unique {now : ℚ} (h : Remembered s now) {key : CodePoints} {since : ℚ} {i j : ℕ}
    (hi : s.covers (.keyed key since) i = true) (hj : s.covers (.keyed key since) j = true) :
    i = j := by
  have hmark : ∀ i, s.covers (.keyed key since) i = true → ∃ t, s.marks[i]? = some (some key, t) ∧
      since ≤ t ∧ t ≤ since + 300 := by
    intro i hi
    obtain ⟨t, ht, hin⟩ := (Option.any_eq_true _ _).mp hi
    obtain ⟨hkey, hle, hlt⟩ := of_decide_eq_true hin
    refine ⟨t.since, ?_, hle, by rw [replayWindowSec] at hlt; exact_mod_cast hlt⟩
    rw [marks, List.getElem?_map, ht, Option.map_some, hkey]
  obtain ⟨t, ht, hit, hti⟩ := hmark i hi
  obtain ⟨u, hu, hju, huj⟩ := hmark j hj
  obtain ⟨hilt, hti'⟩ := List.getElem?_eq_some_iff.mp ht
  obtain ⟨hjlt, huj'⟩ := List.getElem?_eq_some_iff.mp hu
  have hapart := List.pairwise_iff_getElem.mp h.apart
  rcases lt_trichotomy i j with hlt | heq | hlt
  · have hfar := hapart i j hilt hjlt hlt key (by rw [hti']) (by rw [huj'])
    rw [hti', huj'] at hfar
    dsimp only at hfar
    linarith
  · exact heq
  · have hfar := hapart j i hjlt hilt hlt key (by rw [huj']) (by rw [hti'])
    rw [hti', huj'] at hfar
    dsimp only at hfar
    linarith

/-- Entries of one task, and no task more than once. -/
theorem filter_length_le_one {xs : List ℕ} {p : ℕ → Bool} (hcount : ∀ i, xs.count i ≤ 1)
    (hsame : ∀ i j, p i = true → p j = true → i = j) : (xs.filter p).length ≤ 1 := by
  cases hf : xs.filter p with
  | nil => simp
  | cons i rest =>
    have hi : p i = true := (List.mem_filter.mp (hf ▸ List.mem_cons_self)).2
    have hsub : xs.filter p = xs.filter fun j => j == i := by
      apply List.filter_congr
      intro j _
      by_cases hj : j = i
      · simp [hj, hi]
      · have hnot : p j = false := by
          by_contra hp
          exact hj (hsame j i (by simpa using hp) hi)
        simp [hj, hnot]
    rw [← hf, hsub, ← List.count_eq_length_filter]
    exact hcount i

/-- In a run in which no router run is cut off after its effect and the guard never overflows, the
effect of a command happens once at most and one reply at most is sent. -/
theorem atMostOnce_of_careful (actions : List ServerAction) (horder : InOrder actions)
    (hcareful : CarefulRun actions) : (after actions).AtMostOnce := by
  have hcounts : ∀ i, (after actions).effects.count i ≤ 1 ∧ (after actions).replies.count i ≤ 1 :=
    fun i => (after_accounted hcareful i).le_one
  obtain ⟨now, hnow⟩ := (actions.flatMap ServerAction.readings).toFinset.exists_le
  have hkeys := after_remembered hcareful horder now fun t ht => hnow t (List.mem_toFinset.mpr ht)
  intro c
  have hsame : ∀ i j, (after actions).covers c i = true → (after actions).covers c j = true →
      i = j := by
    intro i j hi hj
    cases c with
    | keyed key since => exact covers_unique hkeys hi hj
    | single k =>
      have hki : i = k := of_decide_eq_true hi
      have hkj : j = k := of_decide_eq_true hj
      exact hki.trans hkj.symm
  exact ⟨filter_length_le_one (fun i => (hcounts i).1) hsame,
    filter_length_le_one (fun i => (hcounts i).2) hsame⟩

section RunCommand

/-- A text message with an id. -/
def runFields : WeChatFields := fun tag =>
  if tag = CodePoints.ofString "MsgType" then some (CodePoints.ofString "text")
  else if tag = CodePoints.ofString "FromUserName" then some (CodePoints.ofString "user")
  else if tag = CodePoints.ofString "MsgId" then some (CodePoints.ofString "1")
  else if tag = CodePoints.ofString "Content" then some (CodePoints.ofString "/run")
  else none

/-- The platform sends the message a second time while the router is at work. -/
def retriedRun : List ServerAction :=
  [.deliver runFields 1000 1000, .effect 0, .deliver runFields 1005 1005,
    .finish 0 (.response (CodePoints.ofString "queued")) true]

/-- The limit is over after the job was submitted and before the router has answered. -/
def cutOffRun : List ServerAction :=
  [.deliver runFields 1000 1000, .effect 0, .finish 0 .timeoutError true, .effect 0]

theorem carefulRun_of_take {actions : List ServerAction}
    (h : ∀ i : Fin actions.length, (after (actions.take i)).Careful (actions.get i)) :
    CarefulRun actions := by
  intro before a hpre
  obtain ⟨rest, rfl⟩ := hpre
  have hlt : before.length < (before ++ [a] ++ rest).length := by
    simp
  have hi := h ⟨before.length, hlt⟩
  simpa using hi

theorem retriedRun_atMostOnce : (after retriedRun).AtMostOnce :=
  atMostOnce_of_careful retriedRun (by decide +kernel) (carefulRun_of_take (by decide +kernel))

theorem cutOffRun_twice : ¬ ∀ actions, InOrder actions → (after actions).AtMostOnce := by
  intro h
  have honce := (h cutOffRun (by decide +kernel) (.single 0)).1
  revert honce
  decide +kernel

end RunCommand

end OpenClaw.WeChat.CommandServer
