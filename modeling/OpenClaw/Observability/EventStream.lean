import Mathlib.Algebra.Order.Ring.Rat
import OpenClaw.Foundation.PyText
import OpenClaw.Observability.JobEvents

/-!
# The event stream

`events_since` of `services/job_events.py` and `events_stream_handler` of `api/events.py`, once the
rate limit and the access check have let the request in. Between two polls other threads emit events.
Every write goes through; a stream that is cut off ends between two polls.
-/

namespace OpenClaw.Observability

open Foundation
set_option autoImplicit false

section Since
variable {φ : Type}

/-- The pass over the buffer, which stops at the limit. -/
def sinceLoop (wanted : JobEvent φ → Bool) (limit : ℕ) :
    List (JobEvent φ) → List (JobEvent φ) → List (JobEvent φ)
  | results, [] => results
  | results, evt :: rest =>
    if wanted evt then
      if limit ≤ (results ++ [evt]).length then results ++ [evt]
      else sinceLoop wanted limit (results ++ [evt]) rest
    else sinceLoop wanted limit results rest

def JobEventStore.eventsSince (s : JobEventStore φ) (ttl : ℤ) (now : ℚ) (lastSeq : ℤ) (limit : ℕ)
    (promptId : Option String) : List (JobEvent φ) :=
  sinceLoop (fun evt => decide (lastSeq < evt.seq) &&
    (unexpired ttl now evt && matchesPrompt promptId evt)) limit [] s.retained

end Since

/-! ## The handler -/

def sseMaxDurationSec : ℚ := 300

def batchLimit : ℕ := 50

/-- The header `Last-Event-ID`, or 0. -/
def lastSeqOf (header : List Char) : ℤ :=
  if PyText.strip header = [] then 0 else (PyText.int? (PyText.strip header)).getD 0

/-- What is emitted before a poll, the clock of the duration check and the clock of the poll. -/
structure Round (φ : Type) where
  emissions : List (Emission φ)
  clock : ℚ
  now : ℚ

/-- A poll of a stream finds its store, and the last number before the emissions of its round. -/
structure StreamPoll (φ : Type) where
  before : ℕ
  store : JobEventStore φ
  now : ℚ
  lastSeq : ℤ

section Handler
variable {φ : Type} (ttl : ℤ) (promptId : Option String)

def JobEventStore.emitAll (s : JobEventStore φ) (emissions : List (Emission φ)) :
    JobEventStore φ :=
  emissions.foldl JobEventStore.emit s

namespace StreamPoll

def batch (p : StreamPoll φ) : List (JobEvent φ) :=
  p.store.eventsSince ttl p.now p.lastSeq batchLimit promptId

/-- `last_seq` after the events of a poll are written. -/
def nextSeq (p : StreamPoll φ) : ℤ :=
  ((p.batch ttl promptId).getLast?.map fun evt => (evt.seq : ℤ)).getD p.lastSeq

/-- The events that the poll could deliver. -/
def waiting (p : StreamPoll φ) : List (JobEvent φ) :=
  p.store.retained.filter fun evt => decide (p.lastSeq < evt.seq) &&
    (unexpired ttl p.now evt && matchesPrompt promptId evt)

/-- Those that the limit leaves for the next poll. -/
def leftOver (p : StreamPoll φ) : List (JobEvent φ) := (p.waiting ttl promptId).drop batchLimit

/-- An event of the round, of the prompt, that is neither evicted nor expired at its poll. -/
def Due (p : StreamPoll φ) (evt : JobEvent φ) : Prop :=
  p.before < evt.seq ∧ evt ∈ p.store.retained ∧ Live ttl promptId p.now evt

end StreamPoll

def polls : JobEventStore φ → ℤ → List (Round φ) → List (StreamPoll φ)
  | _, _, [] => []
  | s, lastSeq, r :: rest =>
    let p : StreamPoll φ := ⟨s.seqCounter, s.emitAll r.emissions, r.now, lastSeq⟩
    p :: polls p.store (p.nextSeq ttl promptId) rest

/-- The polls of a stream that was opened at the time: the loop ends when it has lasted too long. -/
def streamPolls (s : JobEventStore φ) (header : List Char) (start : ℚ) (rounds : List (Round φ)) :
    List (StreamPoll φ) :=
  polls ttl promptId s (lastSeqOf header)
    (rounds.takeWhile fun r => decide (r.clock - start ≤ sseMaxDurationSec))

/-- The events that the client receives. -/
def sent (ps : List (StreamPoll φ)) : List (JobEvent φ) :=
  ps.flatMap (StreamPoll.batch ttl promptId)

/-- Every event that falls due is delivered, in the order of the numbers and once. -/
def Resumes (ps : List (StreamPoll φ)) : Prop :=
  (sent ttl promptId ps).Pairwise (fun a b => a.seq < b.seq) ∧
    ∀ p ∈ ps, ∀ evt, p.Due ttl promptId evt → evt ∈ sent ttl promptId ps

end Handler

/-! ## The service before the stream -/

inductive ServerStep (φ : Type) where
  | emit (m : Emission φ)
  | restart

/-- The store, and every number that the service has given out as an event id. -/
structure Server (φ : Type) where
  store : JobEventStore φ
  ids : List ℕ

section Server
variable {φ : Type} (maxSize : ℕ) (pos : 0 < maxSize)

def Server.step (w : Server φ) : ServerStep φ → Server φ
  | .emit m => ⟨w.store.emit m, w.ids ++ [(w.store.nextEvent m).seq]⟩
  | .restart => ⟨.new maxSize pos, w.ids⟩

def server (steps : List (ServerStep φ)) : Server φ :=
  steps.foldl (Server.step maxSize pos) ⟨.new maxSize pos, []⟩

end Server

/-! ## Stores -/

section Stores
variable {φ : Type}

theorem sinceLoop_eq (wanted : JobEvent φ → Bool) (limit : ℕ) (evts : List (JobEvent φ)) :
    ∀ results : List (JobEvent φ), results.length < limit →
      sinceLoop wanted limit results evts =
        results ++ (evts.filter wanted).take (limit - results.length) := by
  induction evts with
  | nil => simp [sinceLoop]
  | cons evt rest ih =>
    intro results hlen
    unfold sinceLoop
    split
    · rename_i hw
      obtain ⟨room, hroom⟩ : ∃ room, limit - results.length = room + 1 :=
        ⟨limit - results.length - 1, by omega⟩
      rw [List.filter_cons_of_pos hw, hroom, List.take_succ_cons]
      split
      · rename_i hfull
        have hzero : room = 0 := by
          simp only [List.length_append, List.length_singleton] at hfull
          omega
        simp [hzero]
      · rename_i hfull
        have hleft : limit - (results ++ [evt]).length = room := by
          simp only [List.length_append, List.length_singleton]
          omega
        rw [ih _ (by omega), hleft, List.append_assoc]
        rfl
    · rename_i hw
      rw [List.filter_cons_of_neg hw, ih _ hlen]

namespace JobEventStore

/-- The numbers ascend and end with the last one given out. -/
def Numbered (s : JobEventStore φ) : Prop :=
  s.retained.Pairwise (fun a b => a.seq < b.seq) ∧ ∀ evt ∈ s.retained, evt.seq ≤ s.seqCounter

theorem numbered_new (maxSize : ℕ) (pos : 0 < maxSize) :
    Numbered (JobEventStore.new maxSize pos : JobEventStore φ) :=
  ⟨.nil, fun _ h => by cases h⟩

theorem retained_emit (s : JobEventStore φ) (m : Emission φ) :
    ∃ kept, kept.Sublist s.retained ∧ (s.emit m).retained = kept ++ [s.nextEvent m] := by
  refine ⟨_, ?_, rfl⟩
  split
  · exact List.tail_sublist _
  · exact List.Sublist.refl _

theorem Numbered.emit {s : JobEventStore φ} (h : Numbered s) (m : Emission φ) :
    Numbered (s.emit m) := by
  obtain ⟨kept, hkept, heq⟩ := retained_emit s m
  have hnew : (s.nextEvent m).seq = s.seqCounter + 1 := rfl
  have hcounter : (s.emit m).seqCounter = s.seqCounter + 1 := rfl
  unfold Numbered
  rw [heq, hcounter]
  constructor
  · rw [List.pairwise_append]
    refine ⟨h.1.sublist hkept, List.pairwise_singleton _ _, ?_⟩
    intro a ha b hb
    have hle := h.2 a (hkept.subset ha)
    rw [List.mem_singleton.mp hb, hnew]
    omega
  · intro evt hevt
    rcases List.mem_append.mp hevt with hevt | hevt
    · have hle := h.2 evt (hkept.subset hevt)
      omega
    · rw [List.mem_singleton.mp hevt, hnew]

/-- What is emitted later gets higher numbers, and nothing comes back. -/
structure Extends (s s' : JobEventStore φ) : Prop where
  counter : s.seqCounter ≤ s'.seqCounter
  kept : ∀ evt ∈ s'.retained, evt.seq ≤ s.seqCounter → evt ∈ s.retained

theorem Extends.refl (s : JobEventStore φ) : Extends s s := ⟨Nat.le_refl _, fun _ h _ => h⟩

theorem Extends.trans {s t u : JobEventStore φ} (h : Extends s t) (h' : Extends t u) :
    Extends s u :=
  ⟨h.counter.trans h'.counter, fun evt hevt hle =>
    h.kept evt (h'.kept evt hevt (hle.trans h.counter)) hle⟩

theorem extends_emit (s : JobEventStore φ) (m : Emission φ) : Extends s (s.emit m) := by
  obtain ⟨kept, hkept, heq⟩ := retained_emit s m
  refine ⟨Nat.le_succ _, ?_⟩
  intro evt hevt hle
  rw [heq] at hevt
  rcases List.mem_append.mp hevt with hevt | hevt
  · exact hkept.subset hevt
  · have hnew : evt.seq = s.seqCounter + 1 := by rw [List.mem_singleton.mp hevt]; rfl
    omega

theorem emitAll_spec {s : JobEventStore φ} (h : Numbered s) (emissions : List (Emission φ)) :
    Numbered (s.emitAll emissions) ∧ Extends s (s.emitAll emissions) := by
  induction emissions generalizing s with
  | nil => exact ⟨h, .refl s⟩
  | cons m rest ih =>
    obtain ⟨hn, he⟩ := ih (h.emit m)
    exact ⟨hn, (extends_emit s m).trans he⟩

theorem numbered_server (maxSize : ℕ) (pos : 0 < maxSize) (steps : List (ServerStep φ)) :
    Numbered (server maxSize pos steps).store := by
  induction steps using List.reverseRecOn with
  | nil => exact numbered_new maxSize pos
  | append_singleton before step ih =>
    rw [server, List.foldl_append]
    cases step with
    | emit m => exact ih.emit m
    | restart => exact numbered_new maxSize pos

end JobEventStore

end Stores

end OpenClaw.Observability
