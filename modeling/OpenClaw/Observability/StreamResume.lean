import OpenClaw.Observability.EventStream

/-!
# Resuming the event stream

What a stream delivers ascends. It delivers all that falls due unless an event has a number up to
the id the client came with, as after a restart, or a full batch leaves an event for a poll that
comes too late for it.
-/

namespace OpenClaw.Observability

open Foundation
set_option autoImplicit false

variable {φ : Type}

/-! ## One poll -/

namespace StreamPoll
variable {ttl : ℤ} {promptId : Option String} {p : StreamPoll φ} {evt : JobEvent φ}

theorem mem_waiting : evt ∈ p.waiting ttl promptId ↔
    evt ∈ p.store.retained ∧ p.lastSeq < evt.seq ∧ Live ttl promptId p.now evt := by
  simp [waiting, Live]

theorem batch_eq : p.batch ttl promptId = (p.waiting ttl promptId).take batchLimit := by
  unfold batch JobEventStore.eventsSince
  rw [sinceLoop_eq _ _ _ _ (by simp [batchLimit])]
  rfl

theorem mem_batch_or_leftOver (h : evt ∈ p.waiting ttl promptId) :
    evt ∈ p.batch ttl promptId ∨ evt ∈ p.leftOver ttl promptId := by
  rw [← List.take_append_drop batchLimit (p.waiting ttl promptId), List.mem_append] at h
  rwa [batch_eq]

theorem waiting_of_batch (h : evt ∈ p.batch ttl promptId) : evt ∈ p.waiting ttl promptId := by
  rw [batch_eq] at h
  exact List.mem_of_mem_take h

theorem waiting_of_leftOver (h : evt ∈ p.leftOver ttl promptId) :
    evt ∈ p.waiting ttl promptId := List.mem_of_mem_drop h

variable (ttl promptId)

/-- The next position is the old one, or the number of an event of the batch. -/
theorem nextSeq_cases (p : StreamPoll φ) :
    (p.batch ttl promptId = [] ∧ p.nextSeq ttl promptId = p.lastSeq) ∨
    ∃ evt ∈ p.batch ttl promptId, p.nextSeq ttl promptId = evt.seq := by
  unfold nextSeq
  cases hlast : (p.batch ttl promptId).getLast? with
  | none => exact .inl ⟨List.getLast?_eq_none_iff.mp hlast, rfl⟩
  | some evt => exact .inr ⟨evt, List.mem_of_getLast? hlast, rfl⟩

theorem lastSeq_le_nextSeq (p : StreamPoll φ) : p.lastSeq ≤ p.nextSeq ttl promptId := by
  rcases nextSeq_cases ttl promptId p with ⟨-, heq⟩ | ⟨evt, h, heq⟩
  · exact heq.ge
  · rw [heq]
    exact (mem_waiting.mp (waiting_of_batch h)).2.1.le

variable (hn : p.store.Numbered)
include hn

theorem nextSeq_le : p.nextSeq ttl promptId ≤ max p.lastSeq p.store.seqCounter := by
  rcases nextSeq_cases ttl promptId p with ⟨-, heq⟩ | ⟨evt, h, heq⟩
  · rw [heq]
    exact le_max_left _ _
  · rw [heq]
    have hle := hn.2 evt (mem_waiting.mp (waiting_of_batch h)).1
    omega

theorem waiting_pairwise : (p.waiting ttl promptId).Pairwise fun a b => a.seq < b.seq :=
  hn.1.sublist List.filter_sublist

theorem batch_pairwise : (p.batch ttl promptId).Pairwise fun a b => a.seq < b.seq := by
  rw [batch_eq]
  exact (waiting_pairwise ttl promptId hn).sublist (List.take_sublist _ _)

variable {ttl promptId}

theorem batch_lt_leftOver {a b : JobEvent φ} (ha : a ∈ p.batch ttl promptId)
    (hb : b ∈ p.leftOver ttl promptId) : a.seq < b.seq := by
  have hw := waiting_pairwise ttl promptId hn
  rw [← List.take_append_drop batchLimit (p.waiting ttl promptId), List.pairwise_append] at hw
  rw [batch_eq] at ha
  exact hw.2.2 a ha b hb

theorem batch_le_nextSeq (h : evt ∈ p.batch ttl promptId) :
    (evt.seq : ℤ) ≤ p.nextSeq ttl promptId := by
  unfold nextSeq
  obtain ⟨init, last, heq⟩ : ∃ init last, p.batch ttl promptId = init ++ [last] :=
    ⟨_, _, (List.dropLast_append_getLast (List.ne_nil_of_mem h)).symm⟩
  have hpw := batch_pairwise ttl promptId hn
  rw [heq, List.pairwise_append] at hpw
  rw [heq] at h
  rw [heq, List.getLast?_append_of_ne_nil _ (by simp), List.getLast?_singleton]
  simp only [Option.map_some, Option.getD_some, Int.ofNat_le]
  rcases List.mem_append.mp h with h | h
  · exact Nat.le_of_lt (hpw.2.2 evt h last (List.mem_singleton_self _))
  · rw [List.mem_singleton.mp h]

theorem nextSeq_lt_leftOver (h : evt ∈ p.leftOver ttl promptId) :
    p.nextSeq ttl promptId < evt.seq := by
  rcases nextSeq_cases ttl promptId p with ⟨-, heq⟩ | ⟨a, ha, heq⟩
  · rw [heq]
    exact (mem_waiting.mp (waiting_of_leftOver h)).2.1
  · have hlt := batch_lt_leftOver hn ha h
    omega

end StreamPoll

/-! ## All polls -/

/-- Every event that falls due has a number above the position. -/
def Behind (ttl : ℤ) (promptId : Option String) (ps : List (StreamPoll φ)) (lastSeq : ℤ) : Prop :=
  ∀ p ∈ ps, ∀ evt, p.Due ttl promptId evt → lastSeq < evt.seq

/-- What a full batch leaves of the events after a number is still there at the next poll. -/
def KeepsUp (ttl : ℤ) (promptId : Option String) (ps : List (StreamPoll φ)) (opened : ℕ) : Prop :=
  ∀ before p after, ps = before ++ p :: after →
    ∀ evt ∈ p.leftOver ttl promptId, opened < evt.seq →
      ∃ next ∈ after.head?, evt ∈ next.store.retained ∧ unexpired ttl next.now evt = true

section Polls
variable {ttl : ℤ} {promptId : Option String}

/-- What a poll of a stream has in common with the point where the stream is. -/
structure After (s : JobEventStore φ) (lastSeq : ℤ) (p : StreamPoll φ) : Prop where
  numbered : p.store.Numbered
  grown : s.Extends p.store
  counted : s.seqCounter ≤ p.before
  moved : lastSeq ≤ p.lastSeq

variable (ttl promptId) in
theorem after_polls (rounds : List (Round φ)) {s : JobEventStore φ} (hn : s.Numbered)
    (lastSeq : ℤ) : ∀ p ∈ polls ttl promptId s lastSeq rounds, After s lastSeq p := by
  induction rounds generalizing s lastSeq with
  | nil => simp [polls]
  | cons r rest ih =>
    obtain ⟨hn', he⟩ := JobEventStore.emitAll_spec hn r.emissions
    intro p hp
    rw [polls, List.mem_cons] at hp
    rcases hp with rfl | hp
    · exact ⟨hn', he, Nat.le_refl _, Int.le_refl _⟩
    · have hafter := ih hn' _ p hp
      exact ⟨hafter.numbered, he.trans hafter.grown, he.counter.trans hafter.counted,
        (StreamPoll.lastSeq_le_nextSeq ttl promptId _).trans hafter.moved⟩

variable (ttl promptId) in
/-- A poll and a later one. -/
theorem polls_pairwise (rounds : List (Round φ)) {s : JobEventStore φ} (hn : s.Numbered)
    (lastSeq : ℤ) : (polls ttl promptId s lastSeq rounds).Pairwise fun p q =>
      After p.store (p.nextSeq ttl promptId) q := by
  induction rounds generalizing s lastSeq with
  | nil => exact .nil
  | cons r rest ih =>
    have hn' := (JobEventStore.emitAll_spec hn r.emissions).1
    exact List.pairwise_cons.mpr ⟨after_polls ttl promptId rest hn' _, ih hn' _⟩

theorem sent_pairwise (rounds : List (Round φ)) {s : JobEventStore φ} (hn : s.Numbered)
    (lastSeq : ℤ) :
    (sent ttl promptId (polls ttl promptId s lastSeq rounds)).Pairwise
      fun a b => a.seq < b.seq := by
  induction rounds generalizing s lastSeq with
  | nil => exact .nil
  | cons r rest ih =>
    have hn' := (JobEventStore.emitAll_spec hn r.emissions).1
    rw [polls, sent, List.flatMap_cons, List.pairwise_append]
    refine ⟨StreamPoll.batch_pairwise ttl promptId hn', ih hn' _, ?_⟩
    intro a ha b hb
    obtain ⟨q, hq, hb⟩ := List.mem_flatMap.mp hb
    have hmoved := (after_polls ttl promptId rest hn' _ q hq).moved
    have hle := StreamPoll.batch_le_nextSeq hn' ha
    have hlt := (StreamPoll.mem_waiting.mp (StreamPoll.waiting_of_batch hb)).2.1
    omega

theorem lastSeq_head {rounds : List (Round φ)} {s : JobEventStore φ} {lastSeq : ℤ}
    {p : StreamPoll φ} (h : p ∈ (polls ttl promptId s lastSeq rounds).head?) :
    p.lastSeq = lastSeq := by
  cases rounds with
  | nil => cases h
  | cons r rest =>
    rw [polls, List.head?_cons, Option.mem_some_iff] at h
    rw [← h]

/-- An event that waits at the first poll is delivered by one of them. -/
theorem sent_of_waiting {opened : ℕ} {evt : JobEvent φ} (hopened : opened < evt.seq)
    (rounds : List (Round φ)) {s : JobEventStore φ} (hn : s.Numbered) (lastSeq : ℤ)
    (hkeeps : KeepsUp ttl promptId (polls ttl promptId s lastSeq rounds) opened)
    (hfirst : ∃ p ∈ (polls ttl promptId s lastSeq rounds).head?, evt ∈ p.waiting ttl promptId) :
    evt ∈ sent ttl promptId (polls ttl promptId s lastSeq rounds) := by
  induction rounds generalizing s lastSeq with
  | nil =>
    obtain ⟨p, hp, -⟩ := hfirst
    cases hp
  | cons r rest ih =>
    have hn' := (JobEventStore.emitAll_spec hn r.emissions).1
    obtain ⟨p, hp, hwait⟩ := hfirst
    rw [polls, List.head?_cons, Option.mem_some_iff] at hp
    subst hp
    rw [polls, sent, List.flatMap_cons, List.mem_append]
    rcases StreamPoll.mem_batch_or_leftOver hwait with hbatch | hleft
    · exact .inl hbatch
    · right
      obtain ⟨next, hnext, hkept, halive⟩ := hkeeps [] _ _ rfl evt hleft hopened
      apply ih hn'
      · intro before q after heq
        exact hkeeps (_ :: before) q after (by rw [polls, heq]; rfl)
      · refine ⟨next, hnext, StreamPoll.mem_waiting.mpr ⟨hkept, ?_, halive, ?_⟩⟩
        · rw [lastSeq_head hnext]
          exact StreamPoll.nextSeq_lt_leftOver hn' hleft
        · exact (StreamPoll.mem_waiting.mp hwait).2.2.2

theorem sent_of_due {opened : ℕ} (rounds : List (Round φ)) {s : JobEventStore φ}
    (hn : s.Numbered) (hs : opened ≤ s.seqCounter) (lastSeq : ℤ)
    (hbehind : Behind ttl promptId (polls ttl promptId s lastSeq rounds) lastSeq)
    (hkeeps : KeepsUp ttl promptId (polls ttl promptId s lastSeq rounds) opened) :
    ∀ p ∈ polls ttl promptId s lastSeq rounds, ∀ evt, p.Due ttl promptId evt →
      evt ∈ sent ttl promptId (polls ttl promptId s lastSeq rounds) := by
  induction rounds generalizing s lastSeq with
  | nil => simp [polls]
  | cons r rest ih =>
    obtain ⟨hn', he⟩ := JobEventStore.emitAll_spec hn r.emissions
    intro p hp evt hdue
    have habove := hbehind p hp evt hdue
    have hp' := hp
    rw [polls, List.mem_cons] at hp'
    rcases hp' with heq | hp'
    · refine sent_of_waiting ?_ (r :: rest) hn lastSeq hkeeps ⟨p, ?_, ?_⟩
      · have hafter := (after_polls ttl promptId (r :: rest) hn lastSeq p hp).counted
        have hbefore := hdue.1
        omega
      · rw [polls, heq]
        exact Option.mem_some_self _
      · have hpos : p.lastSeq = lastSeq := by rw [heq]
        exact StreamPoll.mem_waiting.mpr ⟨hdue.2.1, by rw [hpos]; exact habove, hdue.2.2⟩
    · rw [polls, sent, List.flatMap_cons, List.mem_append]
      right
      refine ih hn' (hs.trans he.counter) _ ?_ ?_ p hp' evt hdue
      · -- a later event is above the batch, whose numbers were all given out before it
        intro q hq evt' hdue'
        have hcounted := (after_polls ttl promptId rest hn' _ q hq).counted
        have hbefore := hdue'.1
        have hlow := hbehind q (by rw [polls]; exact List.mem_cons_of_mem _ hq) evt' hdue'
        have hnext : StreamPoll.nextSeq ttl promptId
            ⟨s.seqCounter, s.emitAll r.emissions, r.now, lastSeq⟩ ≤
              max lastSeq (s.emitAll r.emissions).seqCounter :=
          StreamPoll.nextSeq_le ttl promptId hn'
        omega
      · intro before q after heq
        exact hkeeps (_ :: before) q after (by rw [polls, heq]; rfl)

/-! ## What a stream that resumes has done -/

theorem unexpired_mono {t u : ℚ} (htu : t ≤ u) {evt : JobEvent φ}
    (h : unexpired ttl u evt = true) : unexpired ttl t evt = true := by
  simp only [unexpired, decide_eq_true_eq] at h ⊢
  exact (sub_le_sub_right htu _).trans h

/-- An event that is still there at a poll was due at the poll of its round. -/
theorem due_of_live (rounds : List (Round φ)) {s : JobEventStore φ} (hn : s.Numbered)
    (lastSeq : ℤ)
    (hclocks : (polls ttl promptId s lastSeq rounds).Pairwise fun p q => p.now ≤ q.now) :
    ∀ p ∈ polls ttl promptId s lastSeq rounds, ∀ evt ∈ p.store.retained, s.seqCounter < evt.seq →
      Live ttl promptId p.now evt →
        ∃ q ∈ polls ttl promptId s lastSeq rounds, q.Due ttl promptId evt := by
  induction rounds generalizing s lastSeq with
  | nil => simp [polls]
  | cons r rest ih =>
    obtain ⟨hn', -⟩ := JobEventStore.emitAll_spec hn r.emissions
    intro p hp evt hevt hnew hlive
    rw [polls, List.pairwise_cons] at hclocks
    rw [polls, List.mem_cons] at hp
    rw [polls]
    rcases hp with rfl | hp
    · exact ⟨_, List.mem_cons_self, hnew, hevt, hlive⟩
    · by_cases finished_in_time : evt.seq ≤ (s.emitAll r.emissions).seqCounter
      · have hkept := (after_polls ttl promptId rest hn' _ p hp).grown.kept evt hevt finished_in_time
        have hearlier := unexpired_mono (hclocks.1 p hp) hlive.1
        exact ⟨_, List.mem_cons_self, hnew, hkept, hearlier, hlive.2⟩
      · obtain ⟨q, hq, hdue⟩ := ih hn' _ hclocks.2 p hp evt hevt (Nat.not_le.mp finished_in_time) hlive
        exact ⟨q, List.mem_cons_of_mem _ hq, hdue⟩

theorem behind_of_resumes {rounds : List (Round φ)} {s : JobEventStore φ} (hn : s.Numbered)
    {lastSeq : ℤ} (h : Resumes ttl promptId (polls ttl promptId s lastSeq rounds)) :
    Behind ttl promptId (polls ttl promptId s lastSeq rounds) lastSeq := by
  intro p hp evt hdue
  obtain ⟨q, hq, hbatch⟩ := List.mem_flatMap.mp (h.2 p hp evt hdue)
  have hmoved := (after_polls ttl promptId rounds hn lastSeq q hq).moved
  have habove := (StreamPoll.mem_waiting.mp (StreamPoll.waiting_of_batch hbatch)).2.1
  omega

theorem keepsUp_of_resumes {rounds : List (Round φ)} {s : JobEventStore φ} (hn : s.Numbered)
    {lastSeq : ℤ}
    (hclocks : (polls ttl promptId s lastSeq rounds).Pairwise fun p q => p.now ≤ q.now)
    (h : Resumes ttl promptId (polls ttl promptId s lastSeq rounds)) :
    KeepsUp ttl promptId (polls ttl promptId s lastSeq rounds) s.seqCounter := by
  intro before p after heq evt hleft hnew
  have hp : p ∈ polls ttl promptId s lastSeq rounds := by simp [heq]
  have hpn := (after_polls ttl promptId rounds hn lastSeq p hp).numbered
  obtain ⟨hkept, hpos, hlive⟩ :=
    StreamPoll.mem_waiting.mp (StreamPoll.waiting_of_leftOver hleft)
  obtain ⟨q, hq, hdue⟩ := due_of_live rounds hn lastSeq hclocks p hp evt hkept hnew hlive
  obtain ⟨j, hj, hbatch⟩ := List.mem_flatMap.mp (h.2 q hq evt hdue)
  have hwaitj := StreamPoll.mem_waiting.mp (StreamPoll.waiting_of_batch hbatch)
  have horder := polls_pairwise ttl promptId rounds hn lastSeq
  have hall := after_polls ttl promptId rounds hn lastSeq
  rw [heq] at hj horder hclocks hall
  obtain ⟨-, horder, hcross⟩ := List.pairwise_append.mp horder
  obtain ⟨hlater, horder⟩ := List.pairwise_cons.mp horder
  rcases List.mem_append.mp hj with hj | hj
  · -- before the poll the event would have moved the position past itself
    have hmoved := (hcross j hj p List.mem_cons_self).moved
    have hle := StreamPoll.batch_le_nextSeq (hall j (by simp [hj])).numbered hbatch
    omega
  rcases List.mem_cons.mp hj with rfl | hj
  · have hlt := StreamPoll.batch_lt_leftOver hpn hbatch hleft
    omega
  · cases after with
    | nil => cases hj
    | cons next rest =>
      obtain ⟨-, hclocks, -⟩ := List.pairwise_append.mp hclocks
      obtain ⟨-, hclocks⟩ := List.pairwise_cons.mp hclocks
      refine ⟨next, rfl, ?_⟩
      rcases List.mem_cons.mp hj with rfl | hj
      · exact ⟨hwaitj.1, hwaitj.2.2.1⟩
      · have hgrown := ((List.pairwise_cons.mp horder).1 j hj).grown
        have hcount := (hlater next List.mem_cons_self).grown.counter
        have hle := hpn.2 evt hkept
        exact ⟨hgrown.kept evt hwaitj.1 (hle.trans hcount),
          unexpired_mono ((List.pairwise_cons.mp hclocks).1 j hj) hwaitj.2.2.1⟩

end Polls

/-! ## Streams -/

section Streams
variable (maxSize : ℕ) (pos : 0 < maxSize) (steps : List (ServerStep φ)) (ttl : ℤ)
  (promptId : Option String) (header : List Char) (start : ℚ) (rounds : List (Round φ))

theorem stream_resumes_when :
    (Behind ttl promptId
        (streamPolls ttl promptId (server maxSize pos steps).store header start rounds)
        (lastSeqOf header) ∧
      KeepsUp ttl promptId
        (streamPolls ttl promptId (server maxSize pos steps).store header start rounds)
        (server maxSize pos steps).store.seqCounter →
      Resumes ttl promptId
        (streamPolls ttl promptId (server maxSize pos steps).store header start rounds)) ∧
    ((streamPolls ttl promptId (server maxSize pos steps).store header start rounds).Pairwise
        (fun p q => p.now ≤ q.now) →
      Resumes ttl promptId
        (streamPolls ttl promptId (server maxSize pos steps).store header start rounds) →
      Behind ttl promptId
        (streamPolls ttl promptId (server maxSize pos steps).store header start rounds)
        (lastSeqOf header) ∧
      KeepsUp ttl promptId
        (streamPolls ttl promptId (server maxSize pos steps).store header start rounds)
        (server maxSize pos steps).store.seqCounter) := by
  have hn : (server maxSize pos steps).store.Numbered :=
    JobEventStore.numbered_server maxSize pos steps
  constructor
  · rintro ⟨hbehind, hkeeps⟩
    exact ⟨sent_pairwise _ hn _, sent_of_due _ hn le_rfl _ hbehind hkeeps⟩
  · intro hclocks hresumes
    exact ⟨behind_of_resumes hn hresumes, keepsUp_of_resumes hn hclocks hresumes⟩

end Streams

private def finished : Emission Unit := ⟨.completed, "p1", "", none, 5⟩

private theorem finished_in_time : [(⟨[finished], 5, 6⟩ : Round Unit)].takeWhile
    (fun r => decide (r.clock - 5 ≤ sseMaxDurationSec)) = [⟨[finished], 5, 6⟩] := by
  rw [List.takeWhile_cons_of_pos (by decide +kernel), List.takeWhile_nil]

theorem stream_after_restart_misses :
    ¬ ∀ (maxSize : ℕ) (pos : 0 < maxSize) (steps : List (ServerStep Unit)) (ttl : ℤ)
      (promptId : Option String) (start : ℚ) (rounds : List (Round Unit)),
      ∀ id ∈ (server maxSize pos steps).ids,
        Resumes ttl promptId (streamPolls ttl promptId (server maxSize pos steps).store
          (toString id).toList start rounds) := by
  intro h
  have hdue := (h 500 (by decide) [.emit finished, .emit finished, .restart] 600 none 5
    [⟨[finished], 5, 6⟩] 2 (by decide)).2
  have hpos : lastSeqOf (toString 2).toList = 2 := by decide +kernel
  have hempty : (sent 600 none (polls 600 none (server 500 (by decide)
      [.emit finished, .emit finished, .restart]).store 2 [⟨[finished], 5, 6⟩])).length = 0 := by
    decide +kernel
  rw [streamPolls, finished_in_time, hpos, List.length_eq_zero_iff.mp hempty] at hdue
  have hlost := hdue _ List.mem_cons_self ⟨1, .completed, "p1", "", 5, []⟩
    ⟨by decide, List.mem_singleton_self _, by decide +kernel, by decide⟩
  cases hlost

theorem stream_resumed_in_time :
    Resumes 600 none (streamPolls 600 none (server 500 (by decide)
      [.emit finished, .emit finished]).store "2".toList 5 [⟨[finished], 5, 6⟩]) := by
  have hpos : lastSeqOf "2".toList = 2 := by decide +kernel
  apply (stream_resumes_when 500 (by decide) [.emit finished, .emit finished] 600 none "2".toList 5
    [⟨[finished], 5, 6⟩]).1
  rw [streamPolls, finished_in_time, hpos]
  constructor
  · intro p hp evt hdue
    rw [polls, polls, List.mem_singleton] at hp
    have hbefore := hdue.1
    rw [hp] at hbefore
    exact Int.ofNat_lt.mpr hbefore
  · intro before p after heq evt hleft
    have hp : p ∈ before ++ p :: after := by simp
    rw [← heq, polls, polls, List.mem_singleton] at hp
    have hnone : (p.leftOver 600 none).length = 0 := by
      rw [hp]
      decide +kernel
    rw [List.length_eq_zero_iff.mp hnone] at hleft
    cases hleft

end OpenClaw.Observability
