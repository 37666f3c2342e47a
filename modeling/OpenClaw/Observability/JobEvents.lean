import Mathlib.Data.Rat.Defs
import OpenClaw.Foundation.Json

/-!
# The job event buffer

`BoundedQueue` of `services/observability/backpressure.py` and `JobEventStore` of
`services/job_events.py`. The store numbers the events and keeps the last ones.
-/

namespace OpenClaw.Observability

open Foundation
set_option autoImplicit false

/-! ## The queue -/

structure BoundedQueue (α : Type) where
  capacity : ℕ
  items : List α
  highWatermark : ℕ
  totalEnqueued : ℕ
  totalDropped : ℕ
  pos : 0 < capacity
  bounded : items.length ≤ capacity

namespace BoundedQueue
variable {α : Type}

def new (capacity : ℕ) (pos : 0 < capacity) : BoundedQueue α :=
  ⟨capacity, [], 0, 0, 0, pos, Nat.zero_le capacity⟩

/-- The oldest item makes room in a full queue. -/
def enqueue (q : BoundedQueue α) (item : α) : BoundedQueue α where
  capacity := q.capacity
  items := (if q.items.length = q.capacity then q.items.tail else q.items) ++ [item]
  highWatermark := max q.highWatermark (min (q.items.length + 1) q.capacity)
  totalEnqueued := q.totalEnqueued + 1
  totalDropped := if q.items.length = q.capacity then q.totalDropped + 1 else q.totalDropped
  pos := q.pos
  bounded := by
    have hb := q.bounded
    have hp := q.pos
    split
    · simp only [List.length_append, List.length_tail, List.length_singleton]
      omega
    · simp only [List.length_append, List.length_singleton]
      omega

theorem enqueue_length (q : BoundedQueue α) (item : α) :
    (q.enqueue item).items.length = min q.capacity (q.items.length + 1) := by
  have hb := q.bounded
  have hp := q.pos
  simp only [enqueue]
  split
  · simp only [List.length_append, List.length_tail, List.length_singleton]
    omega
  · simp only [List.length_append, List.length_singleton]
    omega

/-- Nothing is dropped unaccounted. -/
def Balanced (q : BoundedQueue α) : Prop := q.totalDropped + q.items.length = q.totalEnqueued

theorem balanced_new (capacity : ℕ) (pos : 0 < capacity) :
    (new capacity pos : BoundedQueue α).Balanced := rfl

theorem Balanced.enqueue {q : BoundedQueue α} (h : q.Balanced) (item : α) :
    (q.enqueue item).Balanced := by
  unfold Balanced at h ⊢
  have hb := q.bounded
  rw [enqueue_length]
  simp only [BoundedQueue.enqueue]
  split <;> omega

theorem enqueue_suffix {q : BoundedQueue α} {log : List α} (h : q.items <:+ log) (item : α) :
    (q.enqueue item).items <:+ log ++ [item] := by
  have hkept : (if q.items.length = q.capacity then q.items.tail else q.items) <:+ log := by
    split
    · exact (List.tail_suffix q.items).trans h
    · exact h
  obtain ⟨lost, hlost⟩ := hkept
  refine ⟨lost, ?_⟩
  rw [← hlost, List.append_assoc]
  rfl

end BoundedQueue

/-! ## Events -/

inductive JobEventType where
  | queued | running | completed | failed | cancelled | callbackSent | callbackFailed
  deriving DecidableEq

structure JobEvent (φ : Type) where
  seq : ℕ
  eventType : JobEventType
  promptId : String
  traceId : String
  timestamp : ℚ
  data : List (PyStr × Json φ)

/-- The arguments of one `emit` and the clock it reads. -/
structure Emission (φ : Type) where
  eventType : JobEventType
  promptId : String
  traceId : String := ""
  data : Option (List (PyStr × Json φ)) := none
  now : ℚ

structure JobEventStore (φ : Type) where
  queue : BoundedQueue (JobEvent φ)
  seqCounter : ℕ

section Store
variable {φ : Type}

def unexpired (ttl : ℤ) (now : ℚ) (evt : JobEvent φ) : Bool := decide (now - evt.timestamp ≤ ttl)

/-- No filter, or an empty one, matches every event. -/
def matchesPrompt (promptId : Option String) (evt : JobEvent φ) : Bool :=
  match promptId with
  | none => true
  | some p => decide (p = "" ∨ evt.promptId = p)

/-- The first and the last sequence number noted. -/
structure Bounds where
  earliest : Option ℕ
  latest : Option ℕ

def Bounds.note (b : Bounds) (seq : ℕ) : Bounds := ⟨b.earliest.or (some seq), some seq⟩

/-- The diagnostics of `events_since_bounded`. -/
structure Scan where
  scanned : ℕ
  scanCap : ℕ
  truncated : Bool
  earliestRetainedSeq : Option ℕ
  latestRetainedSeq : Option ℕ

/-- The bounded pass: what was collected, how many events were looked at, and the bounds. -/
def scanLoop (wanted : JobEvent φ → Bool) (limit scanCap : ℕ) :
    ℕ → List (JobEvent φ) → Bounds → List (JobEvent φ) → List (JobEvent φ) × ℕ × Bounds
  | scanned, results, bounds, [] => (results, scanned, bounds)
  | scanned, results, bounds, evt :: rest =>
    if scanCap ≤ scanned then (results, scanned, bounds)
    else if wanted evt then
      if limit ≤ (results ++ [evt]).length then
        (results ++ [evt], scanned + 1, bounds.note evt.seq)
      else scanLoop wanted limit scanCap (scanned + 1) (results ++ [evt]) (bounds.note evt.seq) rest
    else scanLoop wanted limit scanCap (scanned + 1) results bounds rest

/-- The pass over the whole buffer that looks for bounds only. -/
def boundsLoop (wanted : JobEvent φ → Bool) : Bounds → List (JobEvent φ) → Bounds
  | bounds, [] => bounds
  | bounds, evt :: rest =>
    boundsLoop wanted (if wanted evt then bounds.note evt.seq else bounds) rest

namespace JobEventStore

def new (maxSize : ℕ) (pos : 0 < maxSize) : JobEventStore φ := ⟨.new maxSize pos, 0⟩

def retained (s : JobEventStore φ) : List (JobEvent φ) := s.queue.items

/-- The event that `emit` records next. -/
def nextEvent (s : JobEventStore φ) (m : Emission φ) : JobEvent φ where
  seq := s.seqCounter + 1
  eventType := m.eventType
  promptId := m.promptId
  traceId := m.traceId
  timestamp := m.now
  data := m.data.getD []

def emit (s : JobEventStore φ) (m : Emission φ) : JobEventStore φ :=
  ⟨s.queue.enqueue (s.nextEvent m), s.seqCounter + 1⟩

def latestSeq (s : JobEventStore φ) : ℕ := s.seqCounter

def eventsSinceBounded (s : JobEventStore φ) (ttl : ℤ) (now : ℚ) (lastSeq limit : ℕ)
    (promptId : Option String) (scanCap : ℕ) : List (JobEvent φ) × Scan :=
  let scanCap := max scanCap 1
  let live := fun evt => unexpired ttl now evt && matchesPrompt promptId evt
  let r := scanLoop (fun evt => decide (lastSeq < evt.seq) && live evt) limit scanCap
    0 [] ⟨none, none⟩ s.retained
  let bounds := if r.2.2.earliest.isNone || r.2.2.latest.isNone then
      boundsLoop (fun evt => decide (0 < evt.seq) && live evt) r.2.2 s.retained
    else r.2.2
  (r.1, {
    scanned := r.2.1
    scanCap
    truncated := decide (scanCap ≤ r.2.1) && decide (r.1.length < limit)
    earliestRetainedSeq := bounds.earliest
    latestRetainedSeq := bounds.latest })

end JobEventStore

/-! ## What a scan returns -/

/-- Unexpired, and of the prompt that is asked for. -/
def Live (ttl : ℤ) (promptId : Option String) (now : ℚ) (evt : JobEvent φ) : Prop :=
  unexpired ttl now evt = true ∧ matchesPrompt promptId evt = true

theorem scanLoop_results (wanted : JobEvent φ → Bool) (limit scanCap : ℕ)
    (evts : List (JobEvent φ)) : ∀ (scanned : ℕ) (results : List (JobEvent φ)) (bounds : Bounds),
    results.length < limit →
    (scanLoop wanted limit scanCap scanned results bounds evts).1 =
      results ++ ((evts.take (scanCap - scanned)).filter wanted).take (limit - results.length) := by
  induction evts with
  | nil => simp [scanLoop]
  | cons evt rest ih =>
    intro scanned results bounds hlen
    unfold scanLoop
    split
    · rename_i hcap
      simp [Nat.sub_eq_zero_of_le hcap]
    rename_i hcap
    obtain ⟨left, hleft⟩ : ∃ left, scanCap - scanned = left + 1 := ⟨scanCap - scanned - 1, by omega⟩
    have hnext : scanCap - (scanned + 1) = left := by omega
    obtain ⟨room, hroom⟩ : ∃ room, limit - results.length = room + 1 :=
      ⟨limit - results.length - 1, by omega⟩
    rw [hleft, List.take_succ_cons]
    split
    · rename_i hw
      rw [List.filter_cons_of_pos hw, hroom, List.take_succ_cons]
      split
      · rename_i hfull
        have : room = 0 := by
          simp only [List.length_append, List.length_singleton] at hfull
          omega
        simp [this]
      · rename_i hfull
        rw [ih _ _ _ (by omega), hnext, List.append_assoc]
        have : limit - (results ++ [evt]).length = room := by
          simp only [List.length_append, List.length_singleton]
          omega
        rw [this]
        rfl
    · rename_i hw
      rw [List.filter_cons_of_neg hw, ih _ _ _ hlen, hnext]

/-- The bounds that go with a list of results. -/
def Bounds.Of (results : List (JobEvent φ)) (b : Bounds) : Prop :=
  b.earliest = results.head?.map JobEvent.seq ∧ b.latest = results.getLast?.map JobEvent.seq

theorem Bounds.Of.note {results : List (JobEvent φ)} {b : Bounds} (h : b.Of results)
    (evt : JobEvent φ) : (b.note evt.seq).Of (results ++ [evt]) := by
  constructor
  · rw [Bounds.note, h.1]
    cases results <;> rfl
  · simp [Bounds.note]

theorem scanLoop_bounds (wanted : JobEvent φ → Bool) (limit scanCap : ℕ)
    (evts : List (JobEvent φ)) : ∀ (scanned : ℕ) (results : List (JobEvent φ)) (bounds : Bounds),
    bounds.Of results →
    (scanLoop wanted limit scanCap scanned results bounds evts).2.2.Of
      (scanLoop wanted limit scanCap scanned results bounds evts).1 := by
  induction evts with
  | nil => exact fun _ _ _ h => h
  | cons evt rest ih =>
    intro scanned results bounds h
    unfold scanLoop
    split
    · exact h
    split
    · split
      · exact h.note evt
      · exact ih _ _ _ (h.note evt)
    · exact ih _ _ _ h

theorem boundsLoop_earliest (wanted : JobEvent φ → Bool) (evts : List (JobEvent φ)) :
    ∀ bounds : Bounds, (boundsLoop wanted bounds evts).earliest =
      bounds.earliest.or ((evts.find? wanted).map JobEvent.seq) := by
  induction evts with
  | nil => simp [boundsLoop]
  | cons evt rest ih =>
    intro bounds
    unfold boundsLoop
    rw [ih]
    by_cases hw : wanted evt = true
    · simp [hw, Bounds.note]
    · simp [hw]

namespace JobEventStore
variable (s : JobEventStore φ) (ttl : ℤ) (now : ℚ) (lastSeq limit : ℕ) (promptId : Option String)
  (scanCap : ℕ)

/-- The first event above `lastSeq` that a poll may return. -/
def firstLive? : Option (JobEvent φ) :=
  s.retained.find? fun evt =>
    decide (lastSeq < evt.seq) && (unexpired ttl now evt && matchesPrompt promptId evt)

variable {limit}

theorem eventsSinceBounded_results (hlimit : 0 < limit) :
    (s.eventsSinceBounded ttl now lastSeq limit promptId scanCap).1 =
      ((s.retained.take (max scanCap 1)).filter fun evt =>
        decide (lastSeq < evt.seq) && (unexpired ttl now evt && matchesPrompt promptId evt)).take
        limit := by
  simp only [eventsSinceBounded]
  rw [scanLoop_results _ _ _ _ _ _ _ hlimit]
  rfl

theorem eventsSinceBounded_earliest :
    (s.eventsSinceBounded ttl now lastSeq limit promptId scanCap).2.earliestRetainedSeq =
      ((s.eventsSinceBounded ttl now lastSeq limit promptId scanCap).1.head?.or
        (s.firstLive? ttl now 0 promptId)).map JobEvent.seq := by
  have hbounds := scanLoop_bounds (fun evt => decide (lastSeq < evt.seq) &&
    (unexpired ttl now evt && matchesPrompt promptId evt)) limit (max scanCap 1) s.retained 0 []
    ⟨none, none⟩ ⟨rfl, rfl⟩
  simp only [eventsSinceBounded, firstLive?]
  generalize scanLoop _ limit (max scanCap 1) 0 [] ⟨none, none⟩ s.retained = r at hbounds ⊢
  obtain ⟨results, scanned, bounds⟩ := r
  cases results with
  | nil =>
    have hnone : bounds.earliest = none := hbounds.1
    rw [if_pos (by simp [hnone]), boundsLoop_earliest, hnone]
    rfl
  | cons evt rest =>
    have hsome : bounds.earliest = some evt.seq := hbounds.1
    have hlast : bounds.latest = ((evt :: rest).getLast?.map JobEvent.seq) := hbounds.2
    rw [if_neg (by simp [hsome, hlast, List.getLast?_cons]), hsome]
    rfl

end JobEventStore

end Store

end OpenClaw.Observability
