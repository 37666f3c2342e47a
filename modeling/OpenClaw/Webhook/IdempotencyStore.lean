import Mathlib.Data.Rat.Defs
import Mathlib.Algebra.Order.Ring.Rat
import OpenClaw.Foundation.Table

/-!
# The idempotency store

`IdempotencyStore` and `SQLiteDurableBackend` of `services/idempotency_store.py`. One call reads
the clock once; whether the statements it sends to the durable backend go through is an input,
and a failed statement leaves the rows as they were.
-/

namespace OpenClaw.Webhook

open Foundation
set_option autoImplicit false

def defaultTtlSeconds : ℕ := 3600

@[irreducible] def maxItems : ℕ := 10000

/-- A record of the in-memory dictionary, or a row of the SQLite table. -/
structure IdempotencyEntry where
  key : String
  firstSeenTs : ℚ
  lastSeenTs : ℚ
  expiresAt : ℚ
  count : ℕ
  promptId : Option String
  deriving DecidableEq

abbrev Entries := Table IdempotencyEntry.key

namespace Entries

/-- The unexpired record of a key. -/
def live? (rows : Entries) (key : String) (now : ℚ) : Option IdempotencyEntry :=
  (rows.get? key).filter fun e => e.expiresAt > now

/-- Drop the records that expired before `now`. -/
def dropExpired (rows : Entries) (now : ℚ) : Entries :=
  rows.filterMap (fun e => if e.expiresAt < now then none else some e) fun _ _ h => by
    split at h
    · cases h
    · cases h; rfl

/-- Drop the oldest records beyond `MAX_ITEMS`. -/
def dropOldest (rows : Entries) : Entries :=
  ((sortedBy IdempotencyEntry.firstSeenTs rows.rows).take (rows.size - maxItems)).foldl
    (fun t e => t.drop e.key) rows

/-- Look the key up; record it when it is new or expired. The answer says whether it was a
duplicate, and of which prompt. -/
def checkAndRecord (rows : Entries) (key : String) (ttl : ℕ) (promptId : Option String) (now : ℚ) :
    Entries × (Bool × Option String) :=
  match rows.live? key now with
  | some item =>
    (rows.put { item with count := item.count + 1, lastSeenTs := now }, (true, item.promptId))
  | none =>
    let entry : IdempotencyEntry :=
      { key, firstSeenTs := now, lastSeenTs := now, expiresAt := now + ttl, count := 1, promptId }
    ((rows.drop key).put entry, (false, none))

def updatePromptId (rows : Entries) (key promptId : String) : Entries :=
  match rows.get? key with
  | some item => rows.put { item with promptId := some promptId }
  | none => rows

end Entries

/-- `IdempotencyStoreError`, raised in strict mode only. -/
inductive StoreError where
  | unavailable
  | backend
  deriving DecidableEq

/-- Which of the durable statements of a call go through. -/
structure Backend where
  cleanup : Bool := true
  check : Bool := true
  update : Bool := true

structure IdempotencyStore where
  store : Entries := Table.empty
  lastCleanup : ℚ
  durable : Option Entries := none
  strictMode : Bool := false

namespace IdempotencyStore

/-- `_cleanup`: the dictionary when it is large or five minutes have passed, and the durable
backend always. -/
def cleanup (s : IdempotencyStore) (now : ℚ) (io : Backend) : IdempotencyStore :=
  let due : Bool := s.store.size > maxItems ∨ now - s.lastCleanup > 300
  { s with
    store := if due then (s.store.dropExpired now).dropOldest else s.store
    lastCleanup := if due then now else s.lastCleanup
    durable := s.durable.map fun rows => if io.cleanup then rows.dropExpired now else rows }

def checkInMemory (s : IdempotencyStore) (key : String) (promptId : Option String) (ttl : ℕ)
    (now : ℚ) : IdempotencyStore × Except StoreError (Bool × Option String) :=
  let r := s.store.checkAndRecord key ttl promptId now
  ({ s with store := r.1 }, .ok r.2)

def checkAndRecord (s : IdempotencyStore) (key : String) (promptId : Option String) (ttl : ℕ)
    (now : ℚ) (io : Backend) : IdempotencyStore × Except StoreError (Bool × Option String) :=
  let s := s.cleanup now io
  match s.durable with
  | none =>
    if s.strictMode then (s, .error .unavailable) else s.checkInMemory key promptId ttl now
  | some rows =>
    if io.check then
      let r := rows.checkAndRecord key ttl promptId now
      ({ s with durable := some r.1 }, .ok r.2)
    else if s.strictMode then (s, .error .backend)
    else s.checkInMemory key promptId ttl now

def updateInMemory (s : IdempotencyStore) (key promptId : String) : IdempotencyStore :=
  { s with store := s.store.updatePromptId key promptId }

def updatePromptId (s : IdempotencyStore) (key promptId : String) (io : Backend) :
    IdempotencyStore × Except StoreError Unit :=
  match s.durable with
  | none => (s.updateInMemory key promptId, .ok ())
  | some rows =>
    if io.update then ({ s with durable := some (rows.updatePromptId key promptId) }, .ok ())
    else if s.strictMode then (s, .error .backend)
    else (s.updateInMemory key promptId, .ok ())

/-- The unexpired record that `check_and_record` would find under the key. -/
def found? (s : IdempotencyStore) (key : String) (now : ℚ) (io : Backend) :
    Option IdempotencyEntry :=
  let s := s.cleanup now io
  match s.durable with
  | none => if s.strictMode then none else s.store.live? key now
  | some rows =>
    if io.check then rows.live? key now
    else if s.strictMode then none
    else s.store.live? key now

/-- Every record of the store, in memory or durable, satisfies `P`. -/
def All (P : IdempotencyEntry → Prop) (s : IdempotencyStore) : Prop :=
  (∀ e ∈ s.store.rows, P e) ∧ ∀ rows ∈ s.durable, ∀ e ∈ rows.rows, P e

end IdempotencyStore

/-! ## One check -/

open IdempotencyStore

theorem check_duplicate_iff (rows : Entries) (key : String) (ttl : ℕ) (promptId : Option String)
    (now : ℚ) : (rows.checkAndRecord key ttl promptId now).2.1 = true ↔
      (rows.live? key now).isSome = true := by
  unfold Entries.checkAndRecord
  split
  · rename_i item h
    simp [h]
  · rename_i h
    simp [h]

/-- The store calls a key a duplicate exactly when it holds an unexpired record of it. -/
theorem duplicate_iff (s : IdempotencyStore) (key : String) (promptId : Option String) (ttl : ℕ)
    (now : ℚ) (io : Backend) :
    (∃ existing, (s.checkAndRecord key promptId ttl now io).2 = .ok (true, existing)) ↔
      (s.found? key now io).isSome = true := by
  have hpair (rows : Entries) : (∃ existing, (Except.ok (rows.checkAndRecord key ttl promptId now).2 :
      Except StoreError (Bool × Option String)) = .ok (true, existing)) ↔
        (rows.live? key now).isSome = true := by
    rw [← check_duplicate_iff rows key ttl promptId now]
    constructor
    · rintro ⟨existing, h⟩
      rw [Except.ok.inj h]
    · intro h
      exact ⟨(rows.checkAndRecord key ttl promptId now).2.2, by rw [← h]⟩
  simp only [checkAndRecord, found?, checkInMemory]
  split
  · split
    · simp
    · exact hpair _
  · split
    · exact hpair _
    split
    · simp
    · exact hpair _

theorem check_error_iff (s : IdempotencyStore) (key : String) (promptId : Option String) (ttl : ℕ)
    (now : ℚ) (io : Backend) : (∃ e, (s.checkAndRecord key promptId ttl now io).2 = .error e) ↔
      s.strictMode = true ∧ (s.durable = none ∨ io.check = false) := by
  have hstrict : (s.cleanup now io).strictMode = s.strictMode := rfl
  have hdurable : (s.cleanup now io).durable = none ↔ s.durable = none := by
    simp [IdempotencyStore.cleanup]
  simp only [IdempotencyStore.checkAndRecord, IdempotencyStore.checkInMemory, hstrict, ← hdurable]
  split
  · rename_i hd
    split
    · rename_i hs
      simp [hs, hd]
    · rename_i hs
      simp [hs]
  · rename_i rows hd
    split
    · rename_i hc
      simp [hc, hd]
    · rename_i hc
      split
      · rename_i hs
        simp [hs, hc]
      · rename_i hs
        simp [hs]

theorem live_get {rows : Entries} {key : String} {now : ℚ} {e : IdempotencyEntry}
    (h : rows.live? key now = some e) : rows.get? key = some e :=
  Option.eq_some_of_filter_eq_some h

/-! ## What the records stand for -/

section Provenance
variable {P : IdempotencyEntry → Prop}

theorem dropExpired_subset {rows : Entries} {now : ℚ} {e : IdempotencyEntry}
    (h : e ∈ (rows.dropExpired now).rows) : e ∈ rows.rows := by
  obtain ⟨x, hx, he⟩ := List.mem_filterMap.mp h
  split at he
  · cases he
  · cases he
    exact hx

theorem drop_subset {rows : Entries} {key : String} {e : IdempotencyEntry}
    (h : e ∈ (rows.drop key).rows) : e ∈ rows.rows :=
  (List.mem_filter.mp h).1

theorem dropOldest_subset {rows : Entries} {e : IdempotencyEntry}
    (h : e ∈ rows.dropOldest.rows) : e ∈ rows.rows := by
  have go (xs : List IdempotencyEntry) : ∀ t : Entries,
      e ∈ (xs.foldl (fun t x => t.drop x.key) t).rows → e ∈ t.rows := by
    induction xs with
    | nil => exact fun t h => h
    | cons x xs ih => exact fun t h => drop_subset (ih (t.drop x.key) h)
  exact go _ rows h

theorem all_cleanup {s : IdempotencyStore} (h : s.All P) (now : ℚ) (io : Backend) :
    (s.cleanup now io).All P := by
  constructor
  · intro e he
    simp only [cleanup] at he
    split at he
    · exact h.1 e (dropExpired_subset (dropOldest_subset he))
    · exact h.1 e he
  · intro rows hrows e he
    obtain ⟨rows', hr', rfl⟩ := Option.map_eq_some_iff.mp hrows
    split at he
    · exact h.2 rows' hr' e (dropExpired_subset he)
    · exact h.2 rows' hr' e he

/-- Records are written for the checked key only; a duplicate is counted on its own record. -/
theorem check_rows {rows : Entries} (h : ∀ e ∈ rows.rows, P e) {key : String} {ttl : ℕ}
    {promptId : Option String} {now : ℚ}
    (hdup : ∀ e, P e → P { e with count := e.count + 1, lastSeenTs := now })
    (hnew : rows.live? key now = none → P ⟨key, now, now, now + ttl, 1, promptId⟩) :
    ∀ e ∈ (rows.checkAndRecord key ttl promptId now).1.rows, P e := by
  intro e he
  unfold Entries.checkAndRecord at he
  split at he
  · rename_i item hlive
    have hitem : item ∈ rows.rows := Table.mem_of_get? (live_get hlive)
    rcases Table.mem_put he with rfl | he
    · exact hdup item (h item hitem)
    · exact h e he
  · rename_i hlive
    rcases Table.mem_put he with rfl | he
    · exact hnew hlive
    · exact h e (drop_subset he)

theorem all_check {s : IdempotencyStore} (h : s.All P) {key : String} {ttl : ℕ}
    {promptId : Option String} {now : ℚ} {io : Backend}
    (hdup : ∀ e, P e → P { e with count := e.count + 1, lastSeenTs := now })
    (hnew : (s.checkAndRecord key promptId ttl now io).2 = .ok (false, none) →
      P ⟨key, now, now, now + ttl, 1, promptId⟩) :
    (s.checkAndRecord key promptId ttl now io).1.All P := by
  have hc := all_cleanup h now io
  have hanswer {rows : Entries} (hl : rows.live? key now = none) :
      (rows.checkAndRecord key ttl promptId now).2 = (false, none) := by
    rw [Entries.checkAndRecord, hl]
  have hmem (hnew : ((s.cleanup now io).checkInMemory key promptId ttl now).2 =
      .ok (false, none) → P ⟨key, now, now, now + ttl, 1, promptId⟩) :
      ((s.cleanup now io).checkInMemory key promptId ttl now).1.All P :=
    ⟨check_rows hc.1 hdup fun hl => hnew (congrArg Except.ok (hanswer hl)), hc.2⟩
  simp only [checkAndRecord] at hnew ⊢
  split
  · rename_i hd
    rw [hd] at hnew
    split
    · exact hc
    · rename_i hs
      simp only [if_neg hs] at hnew
      exact hmem hnew
  · rename_i rows hd
    rw [hd] at hnew
    split
    · rename_i hio
      simp only [if_pos hio] at hnew
      refine ⟨hc.1, fun rows' hr' => ?_⟩
      cases hr'
      exact check_rows (hc.2 rows hd) hdup fun hl => hnew (congrArg Except.ok (hanswer hl))
    rename_i hio
    simp only [if_neg hio] at hnew
    split
    · exact hc
    · rename_i hs
      simp only [if_neg hs] at hnew
      exact hmem hnew

theorem all_update {s : IdempotencyStore} (h : s.All P) {key promptId : String} {io : Backend}
    (hid : ∀ e, P e → P { e with promptId := some promptId }) :
    (s.updatePromptId key promptId io).1.All P := by
  have hrows {rows : Entries} (hr : ∀ e ∈ rows.rows, P e) :
      ∀ e ∈ (rows.updatePromptId key promptId).rows, P e := by
    intro e he
    unfold Entries.updatePromptId at he
    split at he
    · rename_i item hitem
      rcases Table.mem_put he with rfl | he
      · exact hid item (hr item (Table.mem_of_get? hitem))
      · exact hr e he
    · exact hr e he
  simp only [updatePromptId, updateInMemory]
  split
  · exact ⟨hrows h.1, h.2⟩
  rename_i rows hd
  split
  · refine ⟨h.1, fun rows' hr' => ?_⟩
    cases hr'
    exact hrows (h.2 rows hd)
  split
  · exact h
  · exact ⟨hrows h.1, h.2⟩

/-- The record a check finds is one of the store. -/
theorem found_of_all {s : IdempotencyStore} (h : s.All P) {key : String} {now : ℚ} {io : Backend}
    {e : IdempotencyEntry} (hf : s.found? key now io = some e) :
    P e ∧ e.key = key ∧ now < e.expiresAt := by
  have hc := all_cleanup h now io
  have hlive {rows : Entries} (hr : ∀ e ∈ rows.rows, P e) (hl : rows.live? key now = some e) :
      P e ∧ e.key = key ∧ now < e.expiresAt := by
    have hget := live_get hl
    refine ⟨hr e (Table.mem_of_get? hget), Table.key_of_get? hget, ?_⟩
    simpa using (Option.filter_eq_some_iff.mp hl).2
  simp only [found?] at hf
  split at hf
  · split at hf
    · cases hf
    · exact hlive hc.1 hf
  rename_i rows hd
  split at hf
  · exact hlive (hc.2 rows hd) hf
  split at hf
  · cases hf
  · exact hlive hc.1 hf

end Provenance

end OpenClaw.Webhook
