import Mathlib.Algebra.Order.Ring.Rat
import Mathlib.Tactic.Linarith
import OpenClaw.Foundation.Recency
import OpenClaw.Foundation.Run

/-!
# The bounded TTL cache

`TTLCache` of `services/cache/ttl_cache.py`, an ordered dictionary with the least recently used key
in front. A call reads the clock once at most, and its reading is an input.
-/

namespace OpenClaw.Cache

open Foundation
set_option autoImplicit false

structure Entry (κ α : Type) where
  key : κ
  ts : ℚ
  value : α

abbrev Entries (κ α : Type) [DecidableEq κ] := Table (@Entry.key κ α)

variable {κ α : Type}

section Model
variable [DecidableEq κ]

structure TTLCache (κ α : Type) [DecidableEq κ] where
  maxSize : ℤ := 1000
  ttlSec : ℚ := 3600
  cache : Entries κ α := Table.empty

namespace TTLCache

def get (c : TTLCache κ α) (key : κ) (now : ℚ) : TTLCache κ α × Option α :=
  match c.cache.get? key with
  | none => (c, none)
  | some e =>
    if c.ttlSec < now - e.ts then ({ c with cache := c.cache.drop key }, none)
    else ({ c with cache := c.cache.moveToEnd key }, some e.value)

def put (c : TTLCache κ α) (key : κ) (value : α) (now : ℚ) : TTLCache κ α :=
  let stored := (c.cache.moveToEnd key).put ⟨key, now, value⟩
  { c with cache := if c.maxSize < stored.size then stored.popFirst else stored }

/-- Also the number of the entries that were removed. -/
def cleanup (c : TTLCache κ α) (now : ℚ) : TTLCache κ α × ℕ :=
  let kept := c.cache.filterMap (fun e => if c.ttlSec < now - e.ts then none else some e)
    fun e e' h => by
      split at h
      · cases h
      · cases h
        rfl
  ({ c with cache := kept }, c.cache.size - kept.size)

end TTLCache

inductive Call (κ α : Type) where
  | get (key : κ)
  | put (key : κ) (value : α)
  | cleanup

inductive Answer (α : Type) where
  | got (value : Option α)
  | stored
  | removed (count : ℕ)

/-- A call at a reading of the clock. -/
def step (c : TTLCache κ α) (input : ℚ × Call κ α) : TTLCache κ α × Answer α :=
  match input.2 with
  | .get key => ((c.get key input.1).1, .got (c.get key input.1).2)
  | .put key value => (c.put key value input.1, .stored)
  | .cleanup => ((c.cleanup input.1).1, .removed (c.cleanup input.1).2)

end Model

/-! ## What a run remembers -/

/-- The call `p` is the most recent put of the key before the call `i`. -/
structure LastPut (inp : ℕ → ℚ × Call κ α) (i p : ℕ) (key : κ) (value : α) : Prop where
  before : p < i
  put : (inp p).2 = .put key value
  last : ∀ m v, p < m → m < i → (inp m).2 ≠ .put key v

namespace LastPut
variable {inp : ℕ → ℚ × Call κ α} {i p p' : ℕ} {key : κ} {value value' : α}

theorem self (h : (inp i).2 = .put key value) : LastPut inp (i + 1) i key value where
  before := Nat.lt_succ_self i
  put := h
  last := by
    intro m v him hmi
    omega

theorem later (h : LastPut inp i p key value) (hi : ∀ v, (inp i).2 ≠ .put key v) :
    LastPut inp (i + 1) p key value where
  before := Nat.lt_succ_of_lt h.before
  put := h.put
  last := by
    intro m v hpm hmi
    rcases Nat.lt_succ_iff_lt_or_eq.mp hmi with hmi | rfl
    · exact h.last m v hpm hmi
    · exact hi v

theorem earlier (h : LastPut inp (i + 1) p key value) (hi : ∀ v, (inp i).2 ≠ .put key v) :
    LastPut inp i p key value where
  before := by
    refine Nat.lt_of_le_of_ne (Nat.le_of_lt_succ h.before) ?_
    rintro rfl
    exact hi value h.put
  put := h.put
  last m v hpm hmi := h.last m v hpm (Nat.lt_succ_of_lt hmi)

theorem unique (h : LastPut inp i p key value) (h' : LastPut inp i p' key value') :
    p = p' ∧ value = value' := by
  have hp : p = p' := by
    rcases Nat.lt_trichotomy p p' with hlt | heq | hlt
    · exact absurd h'.put (h.last p' value' hlt h'.before)
    · exact heq
    · exact absurd h.put (h'.last p value hlt h.before)
  subst hp
  have hput := h.put.symm.trans h'.put
  cases hput
  exact ⟨rfl, rfl⟩

end LastPut

section Log
variable [DecidableEq κ] (c₀ : TTLCache κ α) (inp : ℕ → ℚ × Call κ α)

/-- The key that the call puts or successfully reads. -/
def touched? (i : ℕ) : Option κ :=
  match (inp i).2, answer step c₀ inp i with
  | .put key _, _ => some key
  | .get key, .got (some _) => some key
  | _, _ => none

/-- The keys that were touched before the call, the most recent first. -/
def touches : ℕ → List κ
  | 0 => []
  | i + 1 => (touched? c₀ inp i).toList ++ touches i

end Log

section Invariant
variable [DecidableEq κ]

/-- What a cache holds behind the first `i` calls, which touched the keys of the log. -/
structure Remembers (inp : ℕ → ℚ × Call κ α) (i : ℕ) (log : List κ) (c : TTLCache κ α) : Prop where
  written : ∀ e ∈ c.cache.rows, ∃ p, LastPut inp i p e.key e.value ∧ e.ts = (inp p).1
  ordered : InOrder log (c.cache.rows.map Entry.key)
  lost : ∀ p key value, LastPut inp i p key value → c.cache.get? key = none →
    (∃ m < i, c.ttlSec < (inp m).1 - (inp p).1) ∨ c.maxSize ≤ staleness key log
  bounded : (c.cache.size : ℤ) ≤ c.maxSize

namespace Remembers
variable {inp : ℕ → ℚ × Call κ α} {i : ℕ} {log : List κ} {c : TTLCache κ α}

theorem init {maxSize : ℤ} (hmax : 0 ≤ maxSize) (ttlSec : ℚ) :
    Remembers inp 0 [] ({ maxSize, ttlSec } : TTLCache κ α) where
  written _ he := absurd he List.not_mem_nil
  ordered := List.Pairwise.nil
  lost p _ _ hput := absurd hput.before (Nat.not_lt_zero p)
  bounded := hmax

theorem stored (h : Remembers inp i log c) {e : Entry κ α} {key : κ}
    (he : c.cache.get? key = some e) :
    ∃ p, LastPut inp i p key e.value ∧ e.ts = (inp p).1 := by
  obtain rfl := Table.key_of_get? he
  exact h.written e (Table.mem_of_get? he)

/-- A call that puts nothing and touches nothing may drop what has expired. -/
theorem dropped (h : Remembers inp i log c) {cache : Entries κ α}
    (hquiet : ∀ key v, (inp i).2 ≠ .put key v) (hrows : cache.rows.Sublist c.cache.rows)
    (hlost : ∀ key e, c.cache.get? key = some e → cache.get? key = none →
      c.ttlSec < (inp i).1 - e.ts) : Remembers inp (i + 1) log { c with cache } where
  written := by
    intro e he
    obtain ⟨p, hput, hts⟩ := h.written e (hrows.subset he)
    exact ⟨p, hput.later (hquiet e.key), hts⟩
  ordered := h.ordered.sublist (hrows.map Entry.key)
  lost := by
    intro p key value hput hnone
    have hput := hput.earlier (hquiet key)
    cases hget : c.cache.get? key with
    | none =>
      refine (h.lost p key value hput hget).imp_left ?_
      rintro ⟨m, hm, hold⟩
      exact ⟨m, Nat.lt_succ_of_lt hm, hold⟩
    | some e =>
      obtain ⟨p', hput', hts⟩ := h.stored hget
      obtain ⟨rfl, -⟩ := hput.unique hput'
      have hold := hlost key e hget hnone
      rw [hts] at hold
      exact .inl ⟨i, Nat.lt_succ_self i, hold⟩
  bounded := by
    have hle := h.bounded
    have hlen : cache.size ≤ c.cache.size := hrows.length_le
    show (cache.size : ℤ) ≤ c.maxSize
    omega

/-- A key that is read goes to the end. -/
theorem read (h : Remembers inp i log c) {key : κ} {e : Entry κ α}
    (hcall : (inp i).2 = .get key) (he : c.cache.get? key = some e) :
    Remembers inp (i + 1) (key :: log) { c with cache := c.cache.moveToEnd key } where
  written := by
    intro e' he'
    obtain ⟨p, hput, hts⟩ := h.written e' (Table.mem_moveToEnd he')
    refine ⟨p, hput.later fun v hv => ?_, hts⟩
    cases hcall.symm.trans hv
  ordered := by
    have hrow : e.key = key := Table.key_of_get? he
    show InOrder (key :: log) ((c.cache.moveToEnd key).rows.map Entry.key)
    rw [Table.rows_moveToEnd he, List.map_append, Table.keys_filter, List.map_singleton, hrow]
    exact h.ordered.touch key
  lost := by
    intro p key' value hput hnone
    have hnone : c.cache.get? key' = none := (Table.get?_moveToEnd _ _ _).symm.trans hnone
    have hne : key ≠ key' := by
      rintro rfl
      cases he.symm.trans hnone
    have hput : LastPut inp i p key' value := hput.earlier fun v hv => by cases hcall.symm.trans hv
    rcases h.lost p key' value hput hnone with ⟨m, hm, hold⟩ | hstale
    · exact .inl ⟨m, Nat.lt_succ_of_lt hm, hold⟩
    · have := staleness_le_cons hne log
      right
      show c.maxSize ≤ _
      omega
  bounded := by
    show ((c.cache.moveToEnd key).size : ℤ) ≤ c.maxSize
    rw [Table.size_moveToEnd]
    exact h.bounded

/-- A key that is put goes to the end, and the first one goes away when there is no room. -/
theorem put (h : Remembers inp i log c) {key : κ} {value : α}
    (hcall : (inp i).2 = .put key value) :
    Remembers inp (i + 1) (key :: log) (c.put key value (inp i).1) := by
  set e : Entry κ α := ⟨key, (inp i).1, value⟩
  set stored : Entries κ α := (c.cache.moveToEnd key).put e
  have hrows : stored.rows = c.cache.rows.filter (fun w => w.key ≠ key) ++ [e] :=
    Table.rows_moveToEnd_put c.cache e
  have hget : ∀ key', stored.get? key' = if key = key' then some e else c.cache.get? key' := by
    intro key'
    rw [Table.get?_put, Table.get?_moveToEnd]
  have hwritten : ∀ e' ∈ stored.rows, ∃ p, LastPut inp (i + 1) p e'.key e'.value ∧
      e'.ts = (inp p).1 := by
    intro e' he'
    rw [hrows] at he'
    rcases List.mem_append.mp he' with he' | he'
    · obtain ⟨hmem, hne⟩ := List.mem_filter.mp he'
      obtain ⟨p, hput, hts⟩ := h.written e' hmem
      refine ⟨p, hput.later fun v hv => ?_, hts⟩
      cases hcall.symm.trans hv
      simp at hne
    · obtain rfl := List.mem_singleton.mp he'
      exact ⟨i, .self hcall, rfl⟩
  have hordered : InOrder (key :: log) (stored.rows.map Entry.key) := by
    rw [hrows, List.map_append, Table.keys_filter, List.map_singleton]
    exact h.ordered.touch key
  have hlost : ∀ p key' value', LastPut inp (i + 1) p key' value' → stored.get? key' = none →
      (∃ m < i + 1, c.ttlSec < (inp m).1 - (inp p).1) ∨
        c.maxSize ≤ staleness key' (key :: log) := by
    intro p key' value' hput hnone
    rw [hget] at hnone
    split at hnone
    · cases hnone
    rename_i hne
    have hput : LastPut inp i p key' value' :=
      hput.earlier fun v hv => hne (by cases hcall.symm.trans hv; rfl)
    rcases h.lost p key' value' hput hnone with ⟨m, hm, hold⟩ | hstale
    · exact .inl ⟨m, Nat.lt_succ_of_lt hm, hold⟩
    · have := staleness_le_cons hne log
      right
      omega
  by_cases hfull : c.maxSize < stored.size
  · have heq : c.put key value (inp i).1 = { c with cache := stored.popFirst } := by
      unfold TTLCache.put
      simp only
      rw [if_pos hfull]
    have htail : stored.rows.tail.Sublist stored.rows := List.tail_sublist _
    rw [heq]
    refine ⟨fun e' he' => hwritten e' (htail.subset he'), hordered.sublist (htail.map _), ?_, ?_⟩
    · intro p key' value' hput hnone
      rcases Table.get?_popFirst_eq_none hnone with hnone | ⟨v, vs, hv, rfl⟩
      · exact hlost p key' value' hput hnone
      · -- the key that was evicted: those behind it were all touched since
        have hnodup := stored.nodup
        rw [hv, List.map_cons] at hordered hnodup
        have hle := hordered.length_le_staleness (List.nodup_cons.mp hnodup).2
        have hsize : stored.size = vs.length + 1 := by rw [Table.size, hv, List.length_cons]
        rw [List.length_map] at hle
        right
        show c.maxSize ≤ _
        omega
    · have hsize : stored.popFirst.size = stored.size - 1 := List.length_tail
      have hle : stored.size ≤ c.cache.size + 1 := by
        show stored.rows.length ≤ c.cache.rows.length + 1
        rw [hrows, List.length_append]
        exact Nat.add_le_add_right (List.length_filter_le _ _) 1
      have hbound := h.bounded
      show (stored.popFirst.size : ℤ) ≤ c.maxSize
      omega
  · have heq : c.put key value (inp i).1 = { c with cache := stored } := by
      unfold TTLCache.put
      simp only
      rw [if_neg hfull]
    rw [heq]
    exact ⟨hwritten, hordered, hlost, not_lt.mp hfull⟩

end Remembers

end Invariant

/-! ## Runs -/

section Runs
variable [DecidableEq κ] {inp : ℕ → ℚ × Call κ α} {c₀ : TTLCache κ α}

theorem step_get {c : TTLCache κ α} {input : ℚ × Call κ α} {key : κ} (hcall : input.2 = .get key) :
    step c input = ((c.get key input.1).1, .got (c.get key input.1).2) := by
  unfold step
  rw [hcall]

/-- The three ways of a read. -/
theorem get_cases (c : TTLCache κ α) (key : κ) (now : ℚ) :
    (c.cache.get? key = none ∧ c.get key now = (c, none)) ∨
    (∃ e, c.cache.get? key = some e ∧ c.ttlSec < now - e.ts ∧
      c.get key now = ({ c with cache := c.cache.drop key }, none)) ∨
    ∃ e, c.cache.get? key = some e ∧ ¬ c.ttlSec < now - e.ts ∧
      c.get key now = ({ c with cache := c.cache.moveToEnd key }, some e.value) := by
  unfold TTLCache.get
  cases c.cache.get? key with
  | none => exact .inl ⟨rfl, rfl⟩
  | some e =>
    by_cases hold : c.ttlSec < now - e.ts
    · exact .inr (.inl ⟨e, rfl, hold, if_pos hold⟩)
    · exact .inr (.inr ⟨e, rfl, hold, if_neg hold⟩)

theorem remembers_next {i : ℕ}
    (h : Remembers inp i (touches c₀ inp i) (run step c₀ inp i)) :
    Remembers inp (i + 1) (touches c₀ inp (i + 1)) (run step c₀ inp (i + 1)) := by
  rw [run_succ, touches]
  cases hcall : (inp i).2 with
  | get key =>
    have hquiet : ∀ key' v, (inp i).2 ≠ .put key' v := by
      intro key' v hv
      cases hcall.symm.trans hv
    rcases get_cases (run step c₀ inp i) key (inp i).1 with
      ⟨hmiss, hget⟩ | ⟨e, he, hold, hget⟩ | ⟨e, he, hfresh, hget⟩
    · have hlog : touched? c₀ inp i = none := by
        rw [touched?, hcall, answer, step_get hcall, hget]
      rw [hlog, step_get hcall, hget]
      exact h.dropped hquiet (List.Sublist.refl _) fun key' e' he' hnone => by
        cases he'.symm.trans hnone
    · have hlog : touched? c₀ inp i = none := by
        rw [touched?, hcall, answer, step_get hcall, hget]
      rw [hlog, step_get hcall, hget]
      refine h.dropped hquiet List.filter_sublist fun key' e' he' hnone => ?_
      rw [Table.get?_drop] at hnone
      split at hnone
      · rename_i heq
        subst heq
        cases he.symm.trans he'
        exact hold
      · cases he'.symm.trans hnone
    · have hlog : touched? c₀ inp i = some key := by
        rw [touched?, hcall, answer, step_get hcall, hget]
      rw [hlog, step_get hcall, hget]
      exact h.read hcall he
  | put key value =>
    have hlog : touched? c₀ inp i = some key := by rw [touched?, hcall]
    have hstep : (step (run step c₀ inp i) (inp i)).1 =
        (run step c₀ inp i).put key value (inp i).1 := by
      rw [step, hcall]
    rw [hlog, hstep]
    exact h.put hcall
  | cleanup =>
    have hlog : touched? c₀ inp i = none := by rw [touched?, hcall]
    have hstep : (step (run step c₀ inp i) (inp i)).1 =
        ((run step c₀ inp i).cleanup (inp i).1).1 := by
      rw [step, hcall]
    rw [hlog, hstep]
    refine h.dropped (fun key' v hv => ?_) ?_ fun key' e he hnone => ?_
    · cases hcall.symm.trans hv
    · refine Table.filterMap_sublist (fun e e' he => ?_) _
      split at he
      · cases he
      · exact (Option.some.inj he).symm
    · rw [Table.get?_filterMap, he, Option.bind_some] at hnone
      split at hnone
      · assumption
      · cases hnone

theorem config_step (c : TTLCache κ α) (input : ℚ × Call κ α) :
    (step c input).1.maxSize = c.maxSize ∧ (step c input).1.ttlSec = c.ttlSec := by
  unfold step
  split
  · rename_i key _
    rcases get_cases c key input.1 with ⟨-, hget⟩ | ⟨e, -, -, hget⟩ | ⟨e, -, -, hget⟩ <;>
      rw [hget] <;> exact ⟨rfl, rfl⟩
  · exact ⟨rfl, rfl⟩
  · exact ⟨rfl, rfl⟩

theorem config_run (i : ℕ) :
    (run step c₀ inp i).maxSize = c₀.maxSize ∧ (run step c₀ inp i).ttlSec = c₀.ttlSec := by
  induction i with
  | zero => exact ⟨rfl, rfl⟩
  | succ i ih =>
    obtain ⟨hmax, httl⟩ := config_step (run step c₀ inp i) (inp i)
    exact ⟨hmax.trans ih.1, httl.trans ih.2⟩

theorem remembers_run (h : Remembers inp 0 [] c₀) (i : ℕ) :
    Remembers inp i (touches c₀ inp i) (run step c₀ inp i) := by
  induction i with
  | zero => exact h
  | succ i ih => exact remembers_next ih

theorem answer_get {i : ℕ} {key : κ} (hcall : (inp i).2 = .get key) :
    answer step c₀ inp i = .got ((run step c₀ inp i).get key (inp i).1).2 := by
  rw [answer, step_get hcall]

/-- What is read was written last, and recently. -/
theorem got_lastPut {i : ℕ} {key : κ} {value : α}
    (h : Remembers inp i (touches c₀ inp i) (run step c₀ inp i)) (hcall : (inp i).2 = .get key)
    (hgot : answer step c₀ inp i = .got (some value)) :
    ∃ p, LastPut inp i p key value ∧ (inp i).1 - (inp p).1 ≤ c₀.ttlSec := by
  rw [answer_get hcall] at hgot
  rcases get_cases (run step c₀ inp i) key (inp i).1 with
    ⟨-, hget⟩ | ⟨e, -, -, hget⟩ | ⟨e, he, hfresh, hget⟩
  · rw [hget] at hgot
    cases hgot
  · rw [hget] at hgot
    cases hgot
  · rw [hget] at hgot
    cases hgot
    obtain ⟨p, hput, hts⟩ := h.stored he
    rw [(config_run i).2, hts] at hfresh
    exact ⟨p, hput, not_lt.mp hfresh⟩

/-- What was written last and recently is read, unless too many other keys were touched since. -/
theorem got_of_lastPut {i p : ℕ} {key : κ} {value : α}
    (h : Remembers inp i (touches c₀ inp i) (run step c₀ inp i))
    (hclock : Monotone fun i => (inp i).1) (hcall : (inp i).2 = .get key)
    (hput : LastPut inp i p key value) (hrecent : (inp i).1 - (inp p).1 ≤ c₀.ttlSec)
    (hfew : staleness key (touches c₀ inp i) < c₀.maxSize) :
    answer step c₀ inp i = .got (some value) := by
  rw [answer_get hcall]
  rcases get_cases (run step c₀ inp i) key (inp i).1 with
    ⟨hmiss, -⟩ | ⟨e, he, hold, -⟩ | ⟨e, he, -, hget⟩
  · -- the key was dropped, by its age or by the others
    rcases h.lost p key value hput hmiss with ⟨m, hm, hold⟩ | hstale
    · have hle : (inp m).1 ≤ (inp i).1 := hclock hm.le
      rw [(config_run i).2] at hold
      linarith
    · rw [(config_run i).1] at hstale
      omega
  · obtain ⟨p', hput', hts⟩ := h.stored he
    obtain ⟨rfl, -⟩ := hput.unique hput'
    rw [(config_run i).2, hts] at hold
    linarith
  · obtain ⟨p', hput', -⟩ := h.stored he
    obtain ⟨rfl, rfl⟩ := hput.unique hput'
    rw [hget]

theorem ttl_cache_semantics {maxSize : ℤ} (hmax : 1 ≤ maxSize) (ttlSec : ℚ)
    {inp : ℕ → ℚ × Call κ α} (hclock : Monotone fun i => (inp i).1) :
    (∀ i key, (inp i).2 = .get key →
      (∀ value, answer step { maxSize, ttlSec } inp i = .got (some value) →
        ∃ p, LastPut inp i p key value ∧ (inp i).1 - (inp p).1 ≤ ttlSec) ∧
      ∀ p value, LastPut inp i p key value → (inp i).1 - (inp p).1 ≤ ttlSec →
        staleness key (touches { maxSize, ttlSec } inp i) < maxSize →
        answer step { maxSize, ttlSec } inp i = .got (some value)) ∧
    ∀ i, ((run step { maxSize, ttlSec } inp i).cache.size : ℤ) ≤ maxSize := by
  have h : ∀ i, Remembers inp i _ _ :=
    remembers_run (.init (Int.le_of_lt (Int.lt_of_lt_of_le Int.zero_lt_one hmax)) ttlSec)
  refine ⟨fun i key hcall => ⟨fun value hgot => ?_, fun p value hput hrecent hfew => ?_⟩,
    fun i => ?_⟩
  · exact got_lastPut (h i) hcall hgot
  · exact got_of_lastPut (h i) hclock hcall hput hrecent hfew
  · have hbound := (h i).bounded
    rw [(config_run i).1] at hbound
    exact hbound

/-- One key is put and then read once a second. -/
def demoCalls (i : ℕ) : ℚ × Call Unit ℕ := (i, if i = 0 then .put () 7 else .get ())

theorem ttl_cache_semantics_demo :
    answer step ({ maxSize := 1, ttlSec := 10 } : TTLCache Unit ℕ) demoCalls 2 =
      .got (some 7) := by
  have hclock : Monotone fun i => (demoCalls i).1 := Nat.mono_cast
  have hput : LastPut demoCalls 2 0 () 7 := by
    refine ⟨by omega, rfl, fun m v hm hmi h => ?_⟩
    obtain rfl : m = 1 := by omega
    cases h
  exact ((ttl_cache_semantics (le_refl 1) 10 hclock).1 2 () rfl).2 0 7 hput
    (by norm_num [demoCalls]) (by decide +kernel)

end Runs

end OpenClaw.Cache
