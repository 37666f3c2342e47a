import OpenClaw.Foundation.CursorFeed
import OpenClaw.Foundation.Run
import OpenClaw.Observability.EventsPoll

/-!
# Pollers that follow the cursor

A client polls from the cursor of the last answer while events are emitted, between its polls and
during them. What it gets is ordered, without repetition and without a gap. But a scan looks at
the oldest events first, also below the cursor, so it may end before it comes to a new one; and a
reset is announced whenever the next event that matches is not the next number.
-/

namespace OpenClaw.Observability

open Foundation
set_option autoImplicit false

/-! ## The world of a poller -/

structure World (φ : Type) where
  store : JobEventStore φ
  log : List (JobEvent φ)
  cursor : ℕ
  delivered : List (JobEvent φ)

/-- A poll with the events that are emitted before its scan and after it, and its clock. -/
structure Poll (φ : Type) where
  limit : Option QueryValue := none
  between : List (Emission φ) := []
  during : List (Emission φ) := []
  now : ℚ
  nowRescan : ℚ

inductive Event (φ : Type) where
  | emit (m : Emission φ)
  | poll (p : Poll φ)

namespace World
variable {φ : Type}

def fresh (capacity : ℕ) (pos : 0 < capacity) (start : ℕ) : World φ :=
  ⟨.new capacity pos, [], start, []⟩

def emit (w : World φ) (m : Emission φ) : World φ :=
  { w with store := w.store.emit m, log := w.log ++ [w.store.nextEvent m] }

def emitAll (w : World φ) (ms : List (Emission φ)) : World φ := ms.foldl emit w

/-- The world that the scan of a poll finds, and the one that a second scan would find. -/
def scanned (w : World φ) (p : Poll φ) : World φ := w.emitAll p.between
def rescanned (w : World φ) (p : Poll φ) : World φ := (w.scanned p).emitAll p.during

def reads (w : World φ) (p : Poll φ) : PollReads φ :=
  ⟨w.store, (w.scanned p).store, (w.rescanned p).store, p.now, p.nowRescan⟩

variable (ttl : ℤ) (promptId : Option String)

def query (w : World φ) (p : Poll φ) : PollQuery :=
  ⟨some ⟨toString w.cursor, some w.cursor⟩, p.limit, promptId⟩

def answer (w : World φ) (p : Poll φ) : PollAnswer φ :=
  eventsPoll ttl (w.reads p) (w.query promptId p)

def step (w : World φ) : Event φ → World φ × Option (PollAnswer φ)
  | .emit m => (w.emit m, none)
  | .poll p =>
    let answer := w.answer ttl promptId p
    ({ w.rescanned p with
        cursor := answer.nextSinceSeq
        delivered := w.delivered ++ answer.events }, some answer)

/-! ## The store and the log -/

/-- The store keeps the end of an ordered log, as much of it as it can. -/
structure Kept (w : World φ) : Prop where
  suffix : w.store.retained <:+ w.log
  size : w.store.retained.length = min w.store.queue.capacity w.log.length
  balanced : w.store.queue.Balanced
  ordered : w.log.Pairwise fun x y => x.seq < y.seq
  numbered : ∀ x ∈ w.log, 0 < x.seq ∧ x.seq ≤ w.store.seqCounter

theorem kept_fresh (capacity : ℕ) (pos : 0 < capacity) (start : ℕ) :
    (fresh capacity pos start : World φ).Kept :=
  ⟨List.suffix_refl [], (Nat.min_zero _).symm, rfl, .nil, by simp [fresh]⟩

variable {w : World φ}

theorem Kept.emit (h : w.Kept) (m : Emission φ) : (w.emit m).Kept where
  suffix := BoundedQueue.enqueue_suffix h.suffix _
  size := by
    have hsize : (w.emit m).store.retained.length =
        min w.store.queue.capacity (w.store.retained.length + 1) :=
      BoundedQueue.enqueue_length w.store.queue _
    have hlog : (w.emit m).log.length = w.log.length + 1 := List.length_append
    have hcapacity : (w.emit m).store.queue.capacity = w.store.queue.capacity := rfl
    rw [hsize, h.size, hlog, hcapacity]
    omega
  balanced := h.balanced.enqueue _
  ordered := by
    refine List.pairwise_append.mpr ⟨h.ordered, List.pairwise_singleton _ _, fun x hx y hy => ?_⟩
    rw [List.mem_singleton.mp hy]
    exact Nat.lt_succ_of_le (h.numbered x hx).2
  numbered := by
    intro x hx
    rcases List.mem_append.mp hx with hx | hx
    · exact ⟨(h.numbered x hx).1, Nat.le_succ_of_le (h.numbered x hx).2⟩
    · rw [List.mem_singleton.mp hx]
      exact ⟨Nat.succ_pos _, le_refl _⟩

/-- Later worlds extend the log with higher numbers. -/
structure Extends (w w' : World φ) : Prop where
  log : w.log <+: w'.log
  later : ∀ x ∈ w'.log, x ∉ w.log → w.store.seqCounter < x.seq
  counter : w.store.seqCounter ≤ w'.store.seqCounter

theorem Extends.refl (w : World φ) : Extends w w :=
  ⟨List.prefix_refl _, fun _ hx hx' => absurd hx hx', le_refl _⟩

theorem Extends.trans {w w' w'' : World φ} (h : Extends w w') (h' : Extends w' w'') :
    Extends w w'' where
  log := h.log.trans h'.log
  later := by
    intro x hx hnot
    by_cases hmid : x ∈ w'.log
    · exact h.later x hmid hnot
    · exact h.counter.trans_lt (h'.later x hx hmid)
  counter := h.counter.trans h'.counter

theorem extends_emit (w : World φ) (m : Emission φ) : Extends w (w.emit m) where
  log := List.prefix_append _ _
  later := by
    intro x hx hnot
    rcases List.mem_append.mp hx with hx | hx
    · exact absurd hx hnot
    · rw [List.mem_singleton.mp hx]
      exact Nat.lt_succ_self _
  counter := Nat.le_succ _

theorem Kept.emitAll (h : w.Kept) (ms : List (Emission φ)) :
    (w.emitAll ms).Kept ∧ Extends w (w.emitAll ms) := by
  unfold World.emitAll
  induction ms generalizing w with
  | nil => exact ⟨h, .refl w⟩
  | cons m ms ih =>
    have hrest := ih (h.emit m)
    exact ⟨hrest.1, (extends_emit w m).trans hrest.2⟩

end World

/-! ## One poll -/

section Poll
variable {φ : Type}

/-- The page size of a poll, and how many events its scans look at. -/
def Poll.size (p : Poll φ) : ℕ := (normalizeLimit p.limit defaultLimit maxLimit).1

def Poll.budget (p : Poll φ) : ℕ := scanCapFor p.size

theorem Poll.size_pos (p : Poll φ) : 0 < p.size :=
  normalizeLimit_pos p.limit defaultLimit (show 0 < maxLimit by decide)

theorem Poll.budget_pos (p : Poll φ) : max p.budget 1 = p.budget := by
  unfold Poll.budget scanCapFor
  omega

/-- A cursor ahead of the log goes back to its end. -/
def World.since (w : World φ) : ℕ := min w.cursor w.store.seqCounter

variable (ttl : ℤ) (promptId : Option String) (w : World φ) (p : Poll φ)

def World.scan (store : JobEventStore φ) (now : ℚ) (pos : ℕ) : List (JobEvent φ) × Scan :=
  store.eventsSinceBounded ttl now pos p.size promptId p.budget

def pageFrom (pos : ℕ) (evts : List (JobEvent φ)) : Page (JobEvent φ) :=
  ⟨evts, (evts.getLast?.map JobEvent.seq).getD pos⟩

/-- The answer comes from the first scan, or, after a reset, from the second one. -/
theorem answer_cases :
    let a := w.answer ttl promptId p
    let first := World.scan ttl promptId p (w.scanned p).store p.now w.since
    (a.cursorStatus ≠ .staleCursorReset ∧
      (⟨a.events, a.nextSinceSeq⟩ : Page (JobEvent φ)) = pageFrom w.since first.1 ∧
      ∀ n, first.2.earliestRetainedSeq = some n → w.since = 0 ∨ n ≤ w.since + 1) ∨
    (a.cursorStatus = .staleCursorReset ∧ ∃ n, first.2.earliestRetainedSeq = some n ∧
      w.since ≠ 0 ∧ w.since + 1 < n ∧
      (⟨a.events, a.nextSinceSeq⟩ : Page (JobEvent φ)) = pageFrom (n - 1)
        (World.scan ttl promptId p (w.rescanned p).store p.nowRescan (n - 1)).1) := by
  have hcursor : (normalizeCursor (some ⟨toString w.cursor, some (w.cursor : ℤ)⟩) "since").1 =
      w.cursor := normalizeCursor_parsed _ _ _
  have hsince : (if decide (w.store.latestSeq < w.cursor) = true then w.store.latestSeq
      else w.cursor) = w.since := by
    unfold World.since JobEventStore.latestSeq
    split <;> rename_i h <;> simp only [decide_eq_true_eq] at h <;> omega
  simp only [World.answer, eventsPoll, World.reads, World.query, normalizeCursorLimit, hcursor,
    hsince]
  have hscan : (w.scanned p).store.eventsSinceBounded ttl p.now w.since
      (normalizeLimit p.limit defaultLimit maxLimit).1 promptId
      (scanCapFor (normalizeLimit p.limit defaultLimit maxLimit).1) =
      World.scan ttl promptId p (w.scanned p).store p.now w.since := rfl
  rw [hscan]
  cases hn : (World.scan ttl promptId p (w.scanned p).store p.now w.since).2.earliestRetainedSeq with
  | none =>
    refine .inl ⟨?_, rfl, by simp⟩
    simp only [respond]
    split <;> simp
  | some n =>
    dsimp only
    by_cases hreset : w.since ≠ 0 ∧ w.since < n - 1
    · rw [if_pos hreset]
      exact .inr ⟨rfl, n, rfl, hreset.1, by omega, rfl⟩
    · rw [if_neg hreset]
      refine .inl ⟨?_, rfl, fun m hm => ?_⟩
      · simp only [respond]
        split <;> simp
      · cases hm
        omega

/-- The events above `pos` that a scan would return without its limits. -/
def wantedFrom (store : JobEventStore φ) (now : ℚ) (pos : ℕ) : List (JobEvent φ) :=
  store.retained.filter fun evt =>
    decide (pos < evt.seq) && (unexpired ttl now evt && matchesPrompt promptId evt)

variable {ttl promptId w p}

theorem mem_wantedFrom {store : JobEventStore φ} {now : ℚ} {pos : ℕ} {x : JobEvent φ} :
    x ∈ wantedFrom ttl promptId store now pos ↔
      x ∈ store.retained ∧ pos < x.seq ∧ Live ttl promptId now x := by
  simp [wantedFrom, Live]

theorem scan_front (store : JobEventStore φ) (now : ℚ) (pos : ℕ) :
    (World.scan ttl promptId p store now pos).1 <+: wantedFrom ttl promptId store now pos := by
  unfold World.scan wantedFrom
  rw [JobEventStore.eventsSinceBounded_results _ _ _ _ _ _ p.size_pos]
  exact (List.take_prefix _ _).trans ((List.take_prefix _ _).filter _)

theorem scan_earliest {store : JobEventStore φ} {now : ℚ} {pos n : ℕ}
    (hord : store.retained.Pairwise fun x y => x.seq < y.seq)
    (hn : (World.scan ttl promptId p store now pos).2.earliestRetainedSeq = some n) :
    (∃ y ∈ store.retained, y.seq = n ∧ Live ttl promptId now y) ∧
      ∀ x ∈ wantedFrom ttl promptId store now pos, n ≤ x.seq := by
  have hprefix : (World.scan ttl promptId p store now pos).1 <+:
    wantedFrom ttl promptId store now pos := scan_front store now pos
  unfold World.scan at hn hprefix
  rw [JobEventStore.eventsSinceBounded_earliest] at hn
  cases hres : (store.eventsSinceBounded ttl now pos p.size promptId p.budget).1 with
  | nil =>
    rw [hres] at hn
    obtain ⟨y, hy, rfl⟩ := Option.map_eq_some_iff.mp hn
    have hlive := List.find?_some hy
    simp only [Bool.and_eq_true, decide_eq_true_eq] at hlive
    refine ⟨⟨y, List.mem_of_find?_eq_some hy, rfl, hlive.2⟩, fun x hx => ?_⟩
    obtain ⟨hx, hpos, hlive⟩ := mem_wantedFrom.mp hx
    have hzero : 0 < x.seq := by omega
    exact find?_least hord hy hx (by simp [hzero, hlive.1, hlive.2])
  | cons y rest =>
    rw [hres] at hn hprefix
    cases hn
    obtain ⟨more, hmore⟩ := hprefix
    have hy : y ∈ wantedFrom ttl promptId store now pos := hmore ▸ List.mem_cons_self
    refine ⟨⟨y, (mem_wantedFrom.mp hy).1, rfl, (mem_wantedFrom.mp hy).2.2⟩, fun x hx => ?_⟩
    have hwanted : (wantedFrom ttl promptId store now pos).Pairwise fun x y => x.seq < y.seq :=
      hord.sublist List.filter_sublist
    rw [← hmore] at hwanted hx
    rcases List.mem_cons.mp hx with rfl | hx
    · exact le_refl _
    · exact ((List.pairwise_cons.mp hwanted).1 x hx).le

theorem World.Kept.retained (h : w.Kept) : w.store.retained.Pairwise fun x y => x.seq < y.seq :=
  h.ordered.sublist h.suffix.sublist

theorem scan_next_le {w' : World φ} (hk : w'.Kept) {now : ℚ} {pos : ℕ}
    (hpos : pos ≤ w'.store.seqCounter) :
    (pageFrom pos (World.scan ttl promptId p w'.store now pos).1).next ≤ w'.store.seqCounter := by
  have hprefix : (World.scan ttl promptId p w'.store now pos).1 <+:
    wantedFrom ttl promptId w'.store now pos := scan_front w'.store now pos
  unfold pageFrom
  cases hlast : (World.scan ttl promptId p w'.store now pos).1.getLast? with
  | none => exact hpos
  | some y =>
    have hy := hprefix.subset (List.mem_of_getLast? hlast)
    exact (hk.numbered y (hk.suffix.subset (mem_wantedFrom.mp hy).1)).2

/-- One scan is exact for what the store still has and what comes later. -/
theorem scan_exact {w' : World φ} (hk : w'.Kept) {now : ℚ} {pos : ℕ}
    (hpos : pos ≤ w'.store.seqCounter) {held : JobEvent φ → Prop}
    (hheld : ∀ x, held x → (x ∈ w'.log → x ∈ w'.store.retained ∧ Live ttl promptId now x) ∧
      (x ∉ w'.log → w'.store.seqCounter < x.seq)) :
    (pageFrom pos (World.scan ttl promptId p w'.store now pos).1).Exact JobEvent.seq held pos := by
  have hprefix : (World.scan ttl promptId p w'.store now pos).1 <+:
    wantedFrom ttl promptId w'.store now pos := scan_front w'.store now pos
  have hwanted : (wantedFrom ttl promptId w'.store now pos).Pairwise fun x y => x.seq < y.seq :=
    hk.retained.sublist List.filter_sublist
  refine exact_of_front hwanted hprefix (fun x hx => (mem_wantedFrom.mp hx).2.1) ?_
  intro x hx habove hnext
  have hbound : x.seq ≤ w'.store.seqCounter := hnext.trans (scan_next_le hk hpos)
  have hlog : x ∈ w'.log := by
    by_contra hnot
    have := (hheld x hx).2 hnot
    omega
  obtain ⟨hret, hlive⟩ := (hheld x hx).1 hlog
  exact mem_wantedFrom.mpr ⟨hret, habove, hlive⟩

variable (ttl) in
/-- While the poll runs, the event is retained and unexpired from when it is emitted. -/
def World.Standing (w : World φ) (p : Poll φ) (x : JobEvent φ) : Prop :=
  (x ∈ (w.scanned p).log → x ∈ (w.scanned p).store.retained ∧ unexpired ttl p.now x = true) ∧
    (x ∈ (w.rescanned p).log →
      x ∈ (w.rescanned p).store.retained ∧ unexpired ttl p.nowRescan x = true)

/-- What a poll may not skip: events that match and stand, and what is emitted after it. -/
def World.Held (ttl : ℤ) (promptId : Option String) (w : World φ) (p : Poll φ) (x : JobEvent φ) :
    Prop :=
  matchesPrompt promptId x = true ∧ w.Standing ttl p x ∧
    (x ∉ (w.rescanned p).log → (w.rescanned p).store.seqCounter < x.seq)

theorem since_le_counter (w : World φ) : w.since ≤ w.store.seqCounter := Nat.min_le_right _ _

theorem since_le_cursor (w : World φ) : w.since ≤ w.cursor := Nat.min_le_left _ _

theorem World.Kept.rescanned (h : w.Kept) (p : Poll φ) :
    (w.rescanned p).Kept ∧ World.Extends w (w.rescanned p) := by
  obtain ⟨hk₁, hext₁⟩ := h.emitAll p.between
  obtain ⟨hk₂, hext₂⟩ := hk₁.emitAll p.during
  exact ⟨hk₂, hext₁.trans hext₂⟩

/-- Whichever scan an answer comes from, it skips nothing that stands. -/
theorem answer_exact (hk : w.Kept) :
    (⟨(w.answer ttl promptId p).events, (w.answer ttl promptId p).nextSinceSeq⟩ :
      Page (JobEvent φ)).Exact JobEvent.seq (w.Held ttl promptId p) w.since := by
  obtain ⟨hk₁, hext₁⟩ := hk.emitAll p.between
  obtain ⟨hk₂, hext₂⟩ := hk₁.emitAll p.during
  have hfirst : ∀ x, w.Held ttl promptId p x →
      (x ∈ (w.scanned p).log →
        x ∈ (w.scanned p).store.retained ∧ Live ttl promptId p.now x) ∧
      (x ∉ (w.scanned p).log → (w.scanned p).store.seqCounter < x.seq) := by
    rintro x ⟨hmatch, hstand, hlate⟩
    refine ⟨fun hx => ⟨(hstand.1 hx).1, (hstand.1 hx).2, hmatch⟩, fun hx => ?_⟩
    by_cases hx₂ : x ∈ (w.rescanned p).log
    · exact hext₂.later x hx₂ hx
    · exact hext₂.counter.trans_lt (hlate hx₂)
  have hsince : w.since ≤ (w.scanned p).store.seqCounter :=
    (since_le_counter w).trans hext₁.counter
  rcases answer_cases ttl promptId w p with ⟨_, heq, _⟩ | ⟨_, n, hn, _, hlt, heq⟩
  · rw [heq]
    exact scan_exact hk₁ hsince hfirst
  · obtain ⟨⟨y, hy, rfl, _⟩, hleast⟩ := scan_earliest hk₁.retained hn
    have hbound : y.seq ≤ (w.scanned p).store.seqCounter :=
      (hk₁.numbered y (hk₁.suffix.subset hy)).2
    have hsecond : ∀ x, w.Held ttl promptId p x →
        (x ∈ (w.rescanned p).log →
          x ∈ (w.rescanned p).store.retained ∧ Live ttl promptId p.nowRescan x) ∧
        (x ∉ (w.rescanned p).log → (w.rescanned p).store.seqCounter < x.seq) :=
      fun x hx => ⟨fun hx₂ => ⟨(hx.2.1.2 hx₂).1, (hx.2.1.2 hx₂).2, hx.1⟩, hx.2.2⟩
    have hpos : y.seq - 1 ≤ (w.rescanned p).store.seqCounter :=
      (Nat.sub_le _ _).trans (hbound.trans hext₂.counter)
    rw [heq]
    apply (scan_exact hk₂ hpos hsecond).back (by omega)
    intro x hx habove
    by_cases hlog : x ∈ (w.scanned p).log
    · obtain ⟨hret, hlive⟩ := (hfirst x hx).1 hlog
      have := hleast x (mem_wantedFrom.mpr ⟨hret, habove, hlive⟩)
      omega
    · have := (hfirst x hx).2 hlog
      omega

theorem answer_next_le (hk : w.Kept) :
    (w.answer ttl promptId p).nextSinceSeq ≤ (w.rescanned p).store.seqCounter := by
  obtain ⟨hk₁, hext₁⟩ := hk.emitAll p.between
  obtain ⟨hk₂, hext₂⟩ := hk₁.emitAll p.during
  rcases answer_cases ttl promptId w p with ⟨_, heq, _⟩ | ⟨_, n, hn, _, _, heq⟩
  · have hpos : w.since ≤ (w.scanned p).store.seqCounter :=
      (since_le_counter w).trans hext₁.counter
    rw [show (w.answer ttl promptId p).nextSinceSeq = _ from congrArg Page.next heq]
    exact (scan_next_le hk₁ hpos).trans hext₂.counter
  · obtain ⟨⟨y, hy, rfl, _⟩, _⟩ := scan_earliest hk₁.retained hn
    have hbound : y.seq ≤ (w.scanned p).store.seqCounter :=
      (hk₁.numbered y (hk₁.suffix.subset hy)).2
    have hpos : y.seq - 1 ≤ (w.rescanned p).store.seqCounter :=
      (Nat.sub_le _ _).trans (hbound.trans hext₂.counter)
    rw [show (w.answer ttl promptId p).nextSinceSeq = _ from congrArg Page.next heq]
    exact scan_next_le hk₂ hpos

theorem answer_wanted (hk : w.Kept) : ∀ x ∈ (w.answer ttl promptId p).events,
    x ∈ (w.rescanned p).log ∧ matchesPrompt promptId x = true := by
  obtain ⟨hk₁, _⟩ := hk.emitAll p.between
  obtain ⟨hk₂, hext₂⟩ := hk₁.emitAll p.during
  intro x hx
  rcases answer_cases ttl promptId w p with ⟨_, heq, _⟩ | ⟨_, n, _, _, _, heq⟩
  · rw [show (w.answer ttl promptId p).events = _ from congrArg Page.items heq] at hx
    obtain ⟨hret, _, _, hmatch⟩ := mem_wantedFrom.mp ((scan_front _ _ _).subset hx)
    exact ⟨hext₂.log.subset (hk₁.suffix.subset hret), hmatch⟩
  · rw [show (w.answer ttl promptId p).events = _ from congrArg Page.items heq] at hx
    obtain ⟨hret, _, _, hmatch⟩ := mem_wantedFrom.mp ((scan_front _ _ _).subset hx)
    exact ⟨hk₂.suffix.subset hret, hmatch⟩

/-! ## Truthful answers -/

/-- The world and the clock of the scan that an answer comes from. -/
def World.lastScan (w : World φ) (p : Poll φ) (status : CursorStatus) : World φ × ℚ :=
  if status = .staleCursorReset then (w.rescanned p, p.nowRescan) else (w.scanned p, p.now)

variable (ttl promptId p) in
/-- What an answer says: an empty one, that nothing is waiting above the cursor it returns; a
reset, that an event which matches is lost to this client. -/
structure World.Truthful (w : World φ) : Prop where
  drained : (w.answer ttl promptId p).events = [] →
    ∀ x ∈ (w.lastScan p (w.answer ttl promptId p).cursorStatus).1.store.retained,
      Live ttl promptId (w.lastScan p (w.answer ttl promptId p).cursorStatus).2 x →
      x.seq ≤ (w.answer ttl promptId p).nextSinceSeq
  reset : (w.answer ttl promptId p).cursorStatus = .staleCursorReset →
    ∃ x ∈ (w.rescanned p).log, matchesPrompt promptId x = true ∧ w.cursor < x.seq ∧
      x ∉ (w.rescanned p).store.retained

variable (ttl promptId p) in
/-- The next event of the client is within the budget of the scan, and it has the next number
unless an event that matches is lost. -/
def World.Fits (w : World φ) : Prop :=
  ∀ x ∈ (w.scanned p).store.firstLive? ttl p.now w.since promptId,
    x ∈ (w.scanned p).store.retained.take p.budget ∧
    (w.since = 0 ∨ x.seq = w.since + 1 ∨
      (∃ y ∈ (w.rescanned p).log, matchesPrompt promptId y = true ∧ w.cursor < y.seq ∧
        y ∉ (w.rescanned p).store.retained) ∧
      ∀ z ∈ (w.rescanned p).store.firstLive? ttl p.nowRescan (x.seq - 1) promptId,
        z ∈ (w.rescanned p).store.retained.take p.budget)

theorem since_lt_first {store : JobEventStore φ} {now : ℚ} {pos : ℕ} {x : JobEvent φ}
    (hx : x ∈ store.firstLive? ttl now pos promptId) :
    x ∈ store.retained ∧ pos < x.seq ∧ Live ttl promptId now x := by
  have hlive := List.find?_some hx
  simp only [Bool.and_eq_true, decide_eq_true_eq] at hlive
  exact ⟨List.mem_of_find?_eq_some hx, hlive⟩

theorem first_of_live {store : JobEventStore φ} {now : ℚ} {pos : ℕ} {x : JobEvent φ}
    (hx : x ∈ store.retained) (habove : pos < x.seq) (hlive : Live ttl promptId now x) :
    ∃ y, y ∈ store.firstLive? ttl now pos promptId := by
  apply Option.isSome_iff_exists.mp
  rw [JobEventStore.firstLive?, List.find?_isSome]
  exact ⟨x, hx, by simp [habove, hlive.1, hlive.2]⟩

theorem scan_empty {store : JobEventStore φ} {now : ℚ} {pos : ℕ}
    (hempty : (World.scan ttl promptId p store now pos).1 = [])
    (hfirst : ∀ x ∈ store.firstLive? ttl now pos promptId, x ∈ store.retained.take p.budget)
    {x : JobEvent φ} (hx : x ∈ store.retained) (hlive : Live ttl promptId now x) : x.seq ≤ pos := by
  by_contra habove
  obtain ⟨y, hy⟩ := first_of_live hx (not_le.mp habove) hlive
  have hseen := List.mem_filter.mpr ⟨hfirst y hy, List.find?_some hy⟩
  unfold World.scan at hempty
  rw [JobEventStore.eventsSinceBounded_results _ _ _ _ _ _ p.size_pos, p.budget_pos,
    List.take_eq_nil_iff] at hempty
  rcases hempty with hsize | hnone
  · exact absurd hsize p.size_pos.ne'
  · rw [hnone] at hseen
    cases hseen

/-- A reset goes to the next event of the client. -/
theorem reset_first (hk : w.Kept) {n : ℕ}
    (hn : (World.scan ttl promptId p (w.scanned p).store p.now w.since).2.earliestRetainedSeq =
      some n) (hlt : w.since + 1 < n) :
    ∃ x ∈ (w.scanned p).store.firstLive? ttl p.now w.since promptId, x.seq = n := by
  have hord := (hk.emitAll p.between).1.retained
  obtain ⟨⟨y, hy, rfl, hlive⟩, hleast⟩ := scan_earliest hord hn
  have habove : w.since < y.seq := by omega
  obtain ⟨x, hx⟩ := first_of_live hy habove hlive
  have hle : x.seq ≤ y.seq :=
    find?_least hord hx hy (by simp [habove, hlive.1, hlive.2])
  have hge := hleast x (mem_wantedFrom.mpr (since_lt_first hx))
  exact ⟨x, hx, le_antisymm hle hge⟩

theorem truthful_of_fits (hk : w.Kept) (h : w.Fits ttl promptId p) : w.Truthful ttl promptId p := by
  rcases answer_cases ttl promptId w p with ⟨hstatus, heq, _⟩ | ⟨hstatus, n, hn, h0, hlt, heq⟩
  · have hevents := congrArg Page.items heq
    have hnext := congrArg Page.next heq
    dsimp only [pageFrom] at hevents hnext
    constructor
    · intro hempty x hx hlive
      rw [World.lastScan, if_neg hstatus] at hx hlive
      rw [hempty] at hevents
      rw [hnext, ← hevents]
      exact scan_empty hevents.symm (fun y hy => (h y hy).1) hx hlive
    · exact fun hreset => absurd hreset hstatus
  · have hevents := congrArg Page.items heq
    have hnext := congrArg Page.next heq
    dsimp only [pageFrom] at hevents hnext
    obtain ⟨x, hx, rfl⟩ := reset_first hk hn hlt
    have hlost := (h x hx).2
    have hstep : x.seq ≠ w.since + 1 := by omega
    simp only [h0, hstep, false_or] at hlost
    constructor
    · intro hempty y hy hlive
      rw [World.lastScan, if_pos hstatus] at hy hlive
      rw [hempty] at hevents
      rw [hnext, ← hevents]
      exact scan_empty hevents.symm hlost.2 hy hlive
    · exact fun _ => hlost.1

theorem seen_of_scan {store : JobEventStore φ} {now : ℚ} {pos : ℕ}
    (hord : store.retained.Pairwise fun x y => x.seq < y.seq)
    (hsome : (World.scan ttl promptId p store now pos).1 ≠ []) :
    ∀ x ∈ store.firstLive? ttl now pos promptId, x ∈ store.retained.take p.budget := by
  intro x hx
  unfold World.scan at hsome
  rw [JobEventStore.eventsSinceBounded_results _ _ _ _ _ _ p.size_pos, p.budget_pos] at hsome
  obtain ⟨y, hy⟩ := List.exists_mem_of_ne_nil _ hsome
  obtain ⟨hseen, hwanted⟩ := List.mem_filter.mp (List.mem_of_mem_take hy)
  have hle : x.seq ≤ y.seq := find?_least hord hx (List.mem_of_mem_take hseen) hwanted
  exact mem_of_front hord (List.take_prefix _ _) (List.mem_of_find?_eq_some hx) hseen hle

theorem earliest_of_scan {store : JobEventStore φ} {now : ℚ} {pos : ℕ}
    (hord : store.retained.Pairwise fun x y => x.seq < y.seq)
    (hsome : (World.scan ttl promptId p store now pos).1 ≠ []) {x : JobEvent φ}
    (hx : x ∈ store.firstLive? ttl now pos promptId) :
    (World.scan ttl promptId p store now pos).2.earliestRetainedSeq = some x.seq := by
  have hprefix : (World.scan ttl promptId p store now pos).1 <+:
    wantedFrom ttl promptId store now pos := scan_front store now pos
  obtain ⟨y, rest, hres⟩ := List.exists_cons_of_ne_nil hsome
  have hearliest : (World.scan ttl promptId p store now pos).2.earliestRetainedSeq =
      some y.seq := by
    unfold World.scan at hres ⊢
    rw [JobEventStore.eventsSinceBounded_earliest, hres]
    rfl
  have hy : y ∈ wantedFrom ttl promptId store now pos :=
    hprefix.subset (hres ▸ List.mem_cons_self)
  have hle : x.seq ≤ y.seq :=
    find?_least hord hx (List.mem_of_mem_filter hy) (List.mem_filter.mp hy).2
  have hge := (scan_earliest hord hearliest).2 x (mem_wantedFrom.mpr (since_lt_first hx))
  rw [hearliest, le_antisymm hge hle]

/-- For polls that no event interrupts, nothing less than the condition will do. -/
theorem truthful_iff_fits (hk : w.Kept) (hduring : p.during = []) (hnow : p.nowRescan = p.now) :
    w.Truthful ttl promptId p ↔ w.Fits ttl promptId p := by
  refine ⟨fun h x hx => ?_, truthful_of_fits hk⟩
  have hsame : w.rescanned p = w.scanned p := by
    rw [World.rescanned, hduring]
    rfl
  have hord := (hk.emitAll p.between).1.retained
  obtain ⟨hret, habove, hlive⟩ := since_lt_first hx
  have hlast : ∀ status, w.lastScan p status = (w.scanned p, p.now) := by
    intro status
    unfold World.lastScan
    rw [hsame, hnow, ite_self]
  have hdrained := h.drained
  rw [hlast] at hdrained
  rcases answer_cases ttl promptId w p with ⟨_, heq, hnear⟩ | ⟨hstatus, n, hn, h0, hlt, heq⟩
  · have hevents := congrArg Page.items heq
    have hnext := congrArg Page.next heq
    dsimp only [pageFrom] at hevents hnext
    have hsome : (World.scan ttl promptId p (w.scanned p).store p.now w.since).1 ≠ [] := by
      intro hempty
      rw [hempty] at hevents hnext
      have := hdrained hevents x hret hlive
      rw [hnext] at this
      exact absurd this (by simpa using habove)
    refine ⟨seen_of_scan hord hsome x hx, ?_⟩
    rcases hnear x.seq (earliest_of_scan hord hsome hx) with h0 | hle
    · exact .inl h0
    · exact .inr (.inl (le_antisymm hle habove))
  · rw [hsame, hnow] at heq
    have hevents := congrArg Page.items heq
    have hnext := congrArg Page.next heq
    dsimp only [pageFrom] at hevents hnext
    obtain ⟨y, hy, rfl⟩ := reset_first hk hn hlt
    obtain rfl : x = y := Option.some.inj (hx.symm.trans hy)
    have hsome : (World.scan ttl promptId p (w.scanned p).store p.now (x.seq - 1)).1 ≠ [] := by
      intro hempty
      rw [hempty] at hevents hnext
      have hle := hdrained hevents x hret hlive
      rw [hnext] at hle
      simp only [List.getLast?_nil, Option.map_none, Option.getD_none] at hle
      omega
    have hseen := seen_of_scan hord hsome
    have hprev : x.seq - 1 < x.seq := by omega
    obtain ⟨z, hz⟩ := first_of_live hret hprev hlive
    have hxz : x.seq ≤ z.seq := by
      have := (since_lt_first hz).2.1
      omega
    refine ⟨mem_of_front hord (List.take_prefix _ _) hret (hseen z hz) hxz, .inr (.inr ?_)⟩
    rw [hsame, hnow]
    refine ⟨?_, hseen⟩
    have hlost := h.reset hstatus
    rwa [hsame] at hlost

/-- A truthful poll moves the cursor past an event that stands, or on by one at least. -/
theorem poll_moves (hk : w.Kept) (htruth : w.Truthful ttl promptId p) {x : JobEvent φ}
    (hx : x ∈ w.log) (hmatch : matchesPrompt promptId x = true)
    (hstand : w.cursor < x.seq → w.Standing ttl p x) :
    x.seq ≤ (w.answer ttl promptId p).nextSinceSeq ∨
      w.cursor < (w.answer ttl promptId p).nextSinceSeq := by
  have hbound := (hk.numbered x hx).2
  have hexact : (⟨(w.answer ttl promptId p).events, (w.answer ttl promptId p).nextSinceSeq⟩ :
    Page (JobEvent φ)).Exact JobEvent.seq (w.Held ttl promptId p) w.since := answer_exact hk
  by_cases hpast : x.seq ≤ w.cursor
  · exact .inl ((le_min hpast hbound).trans hexact.forward)
  have hsince : w.since = w.cursor := Nat.min_eq_left (by omega)
  have hwaiting := hstand (not_le.mp hpast)
  rw [← hsince]
  apply hexact.progress
  intro hempty
  obtain ⟨hk₁, hext₁⟩ := hk.emitAll p.between
  obtain ⟨_, hext₂⟩ := hk₁.emitAll p.during
  have hdrained := htruth.drained hempty x
  unfold World.lastScan at hdrained
  split at hdrained
  · obtain ⟨hret, hlive⟩ := hwaiting.2 (hext₂.log.subset (hext₁.log.subset hx))
    exact hdrained hret ⟨hlive, hmatch⟩
  · obtain ⟨hret, hlive⟩ := hwaiting.1 (hext₁.log.subset hx)
    exact hdrained hret ⟨hlive, hmatch⟩

/-! ## Runs -/

/-- The service and its client: the filter and the cursor that the client starts from. -/
structure Setup where
  ttl : ℤ
  capacity : ℕ
  pos : 0 < capacity
  promptId : Option String
  start : ℕ

def Event.isPoll : Event φ → Bool
  | .emit _ => false
  | .poll _ => true

namespace Setup
variable (c : Setup) (events : ℕ → Event φ)

/-- The world after the first `k` events of a run on a fresh store. -/
def world (k : ℕ) : World φ :=
  run (World.step c.ttl c.promptId) (World.fresh c.capacity c.pos c.start) events k

/-- The event stays retained and unexpired at every poll until the cursor has passed it. -/
def Stays (k : ℕ) (x : JobEvent φ) : Prop :=
  ∀ j < k, ∀ p, events j = .poll p → (c.world events j).cursor < x.seq →
    (c.world events j).Standing c.ttl p x

/-- The polls from the `m`-th event on and before the `k`-th one. -/
def pollsSince (m : ℕ) : ℕ → ℕ
  | 0 => 0
  | k + 1 => pollsSince m k + if m ≤ k ∧ (events k).isPoll = true then 1 else 0

/-- What the client is promised after `k` events of the run. -/
structure Served (k : ℕ) : Prop where
  ordered : (c.world events k).delivered.Pairwise fun x y => x.seq < y.seq
  wanted : ∀ x ∈ (c.world events k).delivered,
    x ∈ (c.world events k).log ∧ matchesPrompt c.promptId x = true
  complete : ∀ x ∈ (c.world events k).log, matchesPrompt c.promptId x = true →
    c.Stays events k x → c.start < x.seq → x.seq ≤ (c.world events k).cursor →
    x ∈ (c.world events k).delivered
  returned : ∀ m ≤ k, ∀ x ∈ (c.world events m).log, matchesPrompt c.promptId x = true →
    c.Stays events k x → c.start < x.seq → x.seq ≤ pollsSince events m k →
    x ∈ (c.world events k).delivered
  truthful : ∀ p, events k = .poll p → (c.world events k).Truthful c.ttl c.promptId p

variable {c events}

theorem world_emit {k : ℕ} {m : Emission φ} (h : events k = .emit m) :
    c.world events (k + 1) = (c.world events k).emit m := by
  simp only [world, run_succ, h]
  rfl

theorem world_poll {k : ℕ} {p : Poll φ} (h : events k = .poll p) :
    c.world events (k + 1) = { (c.world events k).rescanned p with
      cursor := ((c.world events k).answer c.ttl c.promptId p).nextSinceSeq
      delivered := (c.world events k).delivered ++
        ((c.world events k).answer c.ttl c.promptId p).events } := by
  simp only [world, run_succ, h]
  rfl

variable (c events)

theorem kept_world (k : ℕ) : (c.world events k).Kept := by
  induction k with
  | zero => exact World.kept_fresh c.capacity c.pos c.start
  | succ k ih =>
    cases h : events k with
    | emit m =>
      rw [world_emit h]
      exact ih.emit m
    | poll p =>
      rw [world_poll h]
      obtain ⟨hsuffix, hsize, hbalanced, hordered, hnumbered⟩ := (ih.rescanned p).1
      exact ⟨hsuffix, hsize, hbalanced, hordered, hnumbered⟩

theorem extends_step (k : ℕ) : World.Extends (c.world events k) (c.world events (k + 1)) := by
  cases h : events k with
  | emit m =>
    rw [world_emit h]
    exact World.extends_emit _ m
  | poll p =>
    rw [world_poll h]
    obtain ⟨hlog, hlater, hcounter⟩ := ((kept_world c events k).rescanned p).2
    exact ⟨hlog, hlater, hcounter⟩

theorem extends_run {m k : ℕ} (h : m ≤ k) :
    World.Extends (c.world events m) (c.world events k) := by
  induction k, h using Nat.le_induction with
  | base => exact .refl _
  | succ k _ ih => exact ih.trans (extends_step c events k)

variable {c events}

theorem Stays.mono {m k : ℕ} (hmk : m ≤ k) {x : JobEvent φ} (h : c.Stays events k x) :
    c.Stays events m x := fun j hj => h j (by omega)

/-- After the first poll the cursor is not ahead of the log. -/
theorem cursor_behind (c : Setup) (events : ℕ → Event φ) (k : ℕ) :
    (c.world events k).cursor ≤ (c.world events k).store.seqCounter ∨
      (c.world events k).cursor = c.start ∧ (c.world events k).delivered = [] := by
  induction k with
  | zero => exact .inr ⟨rfl, rfl⟩
  | succ k ih =>
    cases h : events k with
    | emit m =>
      rw [world_emit h]
      rcases ih with ih | ih
      · exact .inl (Nat.le_succ_of_le ih)
      · exact .inr ih
    | poll p =>
      rw [world_poll h]
      exact .inl (answer_next_le (kept_world c events k))

theorem since_world (k : ℕ) : (c.world events k).since = (c.world events k).cursor ∨
    (c.world events k).since ≤ (c.world events k).cursor ∧
      (c.world events k).cursor = c.start ∧ (c.world events k).delivered = [] := by
  rcases cursor_behind c events k with h | h
  · exact .inl (Nat.min_eq_left h)
  · exact .inr ⟨since_le_cursor _, h⟩

/-- What a poll must not skip, seen from the end of the run. -/
def Standing (c : Setup) (events : ℕ → Event φ) (k : ℕ) (x : JobEvent φ) : Prop :=
  matchesPrompt c.promptId x = true ∧ c.Stays events k x ∧
    (x ∉ (c.world events k).log → (c.world events k).store.seqCounter < x.seq)

theorem caughtUp (c : Setup) (events : ℕ → Event φ) (k : ℕ) : CaughtUp JobEvent.seq (c.Standing events k) c.start
    (c.world events k).cursor (c.world events k).delivered := by
  induction k with
  | zero => exact caughtUp_nil
  | succ k ih =>
    have hback : ∀ x, c.Standing events (k + 1) x → c.Standing events k x := by
      rintro x ⟨hmatch, hstays, hlate⟩
      refine ⟨hmatch, hstays.mono (Nat.le_succ k), fun hx => ?_⟩
      have hext := extends_step c events k
      by_cases hx' : x ∈ (c.world events (k + 1)).log
      · exact hext.later x hx' hx
      · exact hext.counter.trans_lt (hlate hx')
    cases h : events k with
    | emit m =>
      have hcursor : (c.world events (k + 1)).cursor = (c.world events k).cursor := by
        rw [world_emit h]
        rfl
      have hdelivered : (c.world events (k + 1)).delivered = (c.world events k).delivered := by
        rw [world_emit h]
        rfl
      rw [hcursor, hdelivered]
      exact ih.mono hback
    | poll p =>
      have hlast : ∀ x, c.Standing events (k + 1) x → c.Standing events k x ∧
          ((c.world events k).cursor < x.seq → (c.world events k).Held c.ttl c.promptId p x) := by
        intro x hx
        refine ⟨hback x hx, fun habove => ⟨hx.1, hx.2.1 k (Nat.lt_succ_self k) p h habove, ?_⟩⟩
        have hlate := hx.2.2
        rw [world_poll h] at hlate
        exact hlate
      rw [world_poll h]
      exact ih.page (answer_exact (kept_world c events k)) (since_world k) hlast

theorem delivered_wanted (k : ℕ) : ∀ x ∈ (c.world events k).delivered,
    x ∈ (c.world events k).log ∧ matchesPrompt c.promptId x = true := by
  induction k with
  | zero => exact fun x hx => by cases hx
  | succ k ih =>
    have hlog := (extends_step c events k).log
    cases h : events k with
    | emit m =>
      have hdelivered : (c.world events (k + 1)).delivered = (c.world events k).delivered := by
        rw [world_emit h]
        rfl
      rw [hdelivered]
      exact fun x hx => ⟨hlog.subset (ih x hx).1, (ih x hx).2⟩
    | poll p =>
      rw [world_poll h] at hlog ⊢
      intro x hx
      rcases List.mem_append.mp hx with hx | hx
      · exact ⟨hlog.subset (ih x hx).1, (ih x hx).2⟩
      · exact answer_wanted (kept_world c events k) x hx

theorem pollsSince_self (m : ℕ) : pollsSince events m m = 0 := by
  have hnone : ∀ k ≤ m, pollsSince events m k = 0 := by
    intro k hk
    induction k with
    | zero => rfl
    | succ k ih =>
      rw [pollsSince, ih (by omega), if_neg (by omega)]
  exact hnone m (le_refl m)

theorem returned_or_moved {m : ℕ} {x : JobEvent φ} (hx : x ∈ (c.world events m).log)
    (hmatch : matchesPrompt c.promptId x = true)
    (htruth : ∀ j p, events j = .poll p → (c.world events j).Truthful c.ttl c.promptId p) {k : ℕ}
    (hmk : m ≤ k) (hstays : c.Stays events k x) :
    x.seq ≤ (c.world events k).cursor ∨ pollsSince events m k ≤ (c.world events k).cursor := by
  induction k, hmk using Nat.le_induction with
  | base =>
    rw [pollsSince_self]
    exact .inr (Nat.zero_le _)
  | succ k hmk ih =>
    specialize ih (hstays.mono (Nat.le_succ k))
    cases h : events k with
    | emit e =>
      have hcount : pollsSince events m (k + 1) = pollsSince events m k := by
        rw [pollsSince, h]
        simp [Event.isPoll]
      have hcursor : (c.world events (k + 1)).cursor = (c.world events k).cursor := by
        rw [world_emit h]
        rfl
      rw [hcount, hcursor]
      exact ih
    | poll p =>
      have hcount : pollsSince events m (k + 1) = pollsSince events m k + 1 := by
        rw [pollsSince, h, if_pos ⟨hmk, rfl⟩]
      have hcursor : (c.world events (k + 1)).cursor =
          ((c.world events k).answer c.ttl c.promptId p).nextSinceSeq := by
        rw [world_poll h]
      have hk := kept_world c events k
      have hlog := (extends_run c events hmk).log.subset hx
      rw [hcount]
      rcases poll_moves hk (htruth k p h) hlog hmatch (hstays k (Nat.lt_succ_self k) p h)
        with hmoved | hmoved
      · exact .inl (hcursor ▸ hmoved)
      rw [← hcursor] at hmoved
      rcases ih with ih | ih
      · exact .inl (ih.trans hmoved.le)
      · right
        omega

/-- In every run whose polls all fit, the client is served. -/
theorem served_of_fits (c : Setup) (events : ℕ → Event φ)
    (hfits : ∀ j p, events j = .poll p → (c.world events j).Fits c.ttl c.promptId p) (k : ℕ) :
    c.Served events k := by
  have htruth : ∀ j p, events j = .poll p →
      (c.world events j).Truthful c.ttl c.promptId p :=
    fun j p h => truthful_of_fits (kept_world c events j) (hfits j p h)
  have hcaught := caughtUp c events k
  have hstanding : ∀ x ∈ (c.world events k).log, matchesPrompt c.promptId x = true →
      c.Stays events k x → c.Standing events k x :=
    fun x hx hmatch hstays => ⟨hmatch, hstays, fun hnot => absurd hx hnot⟩
  refine {
    ordered := hcaught.ordered
    wanted := delivered_wanted k
    complete := fun x hx hmatch hstays => hcaught.complete x (hstanding x hx hmatch hstays)
    returned := ?_
    truthful := htruth k }
  intro m hmk x hx hmatch hstays hstart hpolls
  have hlog := (extends_run c events hmk).log.subset hx
  apply hcaught.complete x (hstanding x hlog hmatch hstays) hstart
  rcases returned_or_moved hx hmatch htruth hmk hstays with h | h
  · exact h
  · exact hpolls.trans h

end Setup

end Poll

/-! ## One event, and a reset for nothing -/

/-- One event, and polls without a filter ever after. -/
def singleEvent : ℕ → Event Empty
  | 0 => .emit ⟨.queued, "a", "", none, 100⟩
  | _ + 1 => .poll { now := 101, nowRescan := 101 }

def unfiltered : Setup := ⟨600, 500, by decide, none, 0⟩

theorem singleEvent_store (k : ℕ) : (unfiltered.world singleEvent (k + 1)).store.retained =
    [⟨1, .queued, "a", "", 100, []⟩] := by
  induction k with
  | zero => rfl
  | succ k ih =>
    rw [Setup.world_poll (p := { now := 101, nowRescan := 101 }) rfl]
    exact ih

theorem served_of_fits_single : unfiltered.Served singleEvent 5 := by
  apply Setup.served_of_fits
  intro j p h
  cases j with
  | zero => cases h
  | succ j =>
    cases h
    intro x hx
    obtain ⟨hret, habove, _⟩ := since_lt_first hx
    have hstore : ((unfiltered.world singleEvent (j + 1)).scanned
        { now := 101, nowRescan := 101 }).store.retained = _ := singleEvent_store j
    rw [hstore, List.mem_singleton] at hret
    subst hret
    have hbudget : 1 ≤ Poll.budget ({ now := 101, nowRescan := 101 } : Poll Empty) := by decide
    refine ⟨?_, .inl (Nat.lt_one_iff.mp habove)⟩
    rw [hstore, List.take_of_length_le hbudget]
    exact List.mem_singleton_self _

/-- Two events of the client with one of another prompt between them, and polls for one event. -/
def interleaved : ℕ → Event Empty
  | 0 => .emit ⟨.queued, "a", "", none, 100⟩
  | 1 => .emit ⟨.queued, "b", "", none, 101⟩
  | 2 => .emit ⟨.completed, "a", "", none, 102⟩
  | _ + 3 => .poll { limit := some ⟨"1", some 1⟩, now := 103, nowRescan := 103 }

def filtered : Setup := ⟨600, 500, by decide, some "a", 0⟩

/-- The second poll announces a reset, though the buffer holds every event that was emitted. -/
theorem served_of_fits_interleaved :
    ((filtered.world interleaved 4).answer 600 (some "a")
      { limit := some ⟨"1", some 1⟩, now := 103, nowRescan := 103 }).cursorStatus =
      .staleCursorReset ∧
    (filtered.world interleaved 4).store.retained = (filtered.world interleaved 4).log ∧
    ¬ filtered.Served interleaved 4 := by
  have hstatus : ((filtered.world interleaved 4).answer 600 (some "a")
      { limit := some ⟨"1", some 1⟩, now := 103, nowRescan := 103 }).cursorStatus =
      .staleCursorReset := by decide +kernel
  have hall : (filtered.world interleaved 4).store.retained =
      (filtered.world interleaved 4).log := rfl
  refine ⟨hstatus, hall, fun h => ?_⟩
  obtain ⟨x, hx, _, _, hlost⟩ := (h.truthful _ rfl).reset hstatus
  exact hlost (hall ▸ hx)

end OpenClaw.Observability
