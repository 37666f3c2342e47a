import OpenClaw.Foundation.ExpiringLedger
import OpenClaw.Webhook.IdempotencyStore

/-!
# The two backends of the idempotency store

The dictionary is cleaned when it is large or five minutes have passed, the SQLite table whenever
somebody calls `cleanup`, and both leave expired records where they are until then. Both are read
as one ledger of keys that expire.
-/

namespace OpenClaw.Webhook

open Foundation
set_option autoImplicit false

/-- The arguments of `check_and_record` and the readings of the clock: in `_cleanup`, in the calls
of the backend's `cleanup` since the last call, and in the check. -/
structure KeyCheck where
  key : String
  promptId : Option String := none
  ttl : ℕ := defaultTtlSeconds
  swept : ℚ
  cleaned : List ℚ := []
  now : ℚ

inductive StoreCall where
  | check (c : KeyCheck)
  | update (key promptId : String)

/-- The store without a durable backend. -/
def IdempotencyStore.memoryCall (s : IdempotencyStore) :
    StoreCall → IdempotencyStore × Option (Bool × Option String)
  | .check c =>
    let s := s.cleanup c.swept {}
    let r := s.store.checkAndRecord c.key c.ttl c.promptId c.now
    ({ s with store := r.1 }, some r.2)
  | .update key promptId => (s.updateInMemory key promptId, none)

/-- `SQLiteDurableBackend`. -/
def Entries.sqliteCall (rows : Entries) : StoreCall → Entries × Option (Bool × Option String)
  | .check c =>
    let r := (c.cleaned.foldl Entries.dropExpired rows).checkAndRecord c.key c.ttl c.promptId c.now
    (r.1, some r.2)
  | .update key promptId => (rows.updatePromptId key promptId, none)

theorem checkAndRecord_memory (s : IdempotencyStore) (hdurable : s.durable = none)
    (hstrict : s.strictMode = false) (key : String) (promptId : Option String) (ttl : ℕ) (now : ℚ) :
    ∃ a, s.memoryCall (.check { key, promptId, ttl, swept := now, now }) =
        ((s.checkAndRecord key promptId ttl now {}).1, some a) ∧
      (s.checkAndRecord key promptId ttl now {}).2 = .ok a := by
  have hd : (s.cleanup now {}).durable = none := by simp [IdempotencyStore.cleanup, hdurable]
  have hs : (s.cleanup now {}).strictMode = false := hstrict
  simp only [IdempotencyStore.checkAndRecord, hd, hs]
  exact ⟨_, rfl, rfl⟩

/-- With the backend the store cleans the table in every call. -/
theorem checkAndRecord_sqlite (s : IdempotencyStore) {rows : Entries} (hdurable : s.durable = some rows)
    (key : String) (promptId : Option String) (ttl : ℕ) (now : ℚ) :
    ∃ a, rows.sqliteCall (.check { key, promptId, ttl, swept := now, cleaned := [now], now }) =
        ((rows.dropExpired now).checkAndRecord key ttl promptId now |>.1, some a) ∧
      (s.checkAndRecord key promptId ttl now {}).1.durable =
        some ((rows.dropExpired now).checkAndRecord key ttl promptId now).1 ∧
      (s.checkAndRecord key promptId ttl now {}).2 = .ok a := by
  have hd : (s.cleanup now {}).durable = some (rows.dropExpired now) := by
    simp [IdempotencyStore.cleanup, hdurable]
  refine ⟨((rows.dropExpired now).checkAndRecord key ttl promptId now).2, rfl, ?_⟩
  simp only [IdempotencyStore.checkAndRecord, hd, if_true, and_self]

/-! ## Records as a ledger -/

section Ledger
variable {rows : Entries} {t : ℚ}

def Entries.ledger (rows : Entries) : Ledger String ℚ (Option String) := fun key =>
  (rows.get? key).map fun e => (e.expiresAt, e.promptId)

theorem live_ledger (rows : Entries) (t : ℚ) (key : String) :
    rows.ledger.live t key = (rows.live? key t).map fun e => (e.expiresAt, e.promptId) := by
  simp only [Foundation.Ledger.live, Entries.ledger, Entries.live?]
  cases rows.get? key with
  | none => rfl
  | some e =>
    by_cases h : t < e.expiresAt
    · simp [Option.filter_some, h]
    · simp [Option.filter_some, h]

/-- What the store says of a key that the ledger admits or knows. -/
def storeAnswer : Option (Option String) → Bool × Option String
  | none => (false, none)
  | some promptId => (true, promptId)

theorem ledger_check (rows : Entries) (c : KeyCheck) :
    (rows.checkAndRecord c.key c.ttl c.promptId c.now).1.ledger =
        (rows.ledger.check c.key c.now (c.now + c.ttl) c.promptId).1 ∧
      (rows.checkAndRecord c.key c.ttl c.promptId c.now).2 =
        storeAnswer (rows.ledger.check c.key c.now (c.now + c.ttl) c.promptId).2 := by
  unfold Entries.checkAndRecord Foundation.Ledger.check
  rw [live_ledger]
  cases hlive : rows.live? c.key c.now with
  | some item =>
    refine ⟨?_, rfl⟩
    rw [Option.map_some]
    have hget := live_get hlive
    have hkey : item.key = c.key := Table.key_of_get? hget
    funext key
    simp only [Entries.ledger, Table.get?_put, hkey]
    by_cases h : c.key = key
    · subst h
      rw [if_pos rfl, hget]
      rfl
    · rw [if_neg h]
  | none =>
    refine ⟨?_, rfl⟩
    funext key
    simp only [Entries.ledger, Table.get?_put, Table.get?_drop, Option.map_none]
    by_cases h : c.key = key
    · subst h
      simp
    · rw [if_neg h, if_neg h, Function.update_of_ne (Ne.symm h)]
      rfl

theorem ledger_update (rows : Entries) (key promptId : String) :
    (rows.updatePromptId key promptId).ledger = rows.ledger.amend key (some promptId) := by
  funext k
  unfold Entries.updatePromptId Foundation.Ledger.amend
  cases hget : rows.get? key with
  | none =>
    by_cases h : k = key
    · subst h
      simp [Entries.ledger, hget]
    · simp [Entries.ledger, h]
  | some item =>
    have hkey : item.key = key := Table.key_of_get? hget
    by_cases h : k = key
    · subst h
      simp [Entries.ledger, hget, hkey]
    · simp [Entries.ledger, Table.get?_put, hkey, h, Ne.symm h]

theorem same_dropExpired {s : ℚ} (h : s ≤ t) :
    Foundation.Ledger.Same t (rows.dropExpired s).ledger rows.ledger := by
  funext key
  rw [live_ledger, live_ledger]
  congr 1
  rw [Entries.live?, Entries.live?, Entries.dropExpired, Table.get?_filterMap]
  cases rows.get? key with
  | none => rfl
  | some e =>
    by_cases he : e.expiresAt < s
    · have hlate : ¬ e.expiresAt > t := not_lt.mpr (he.le.trans h)
      simp [Option.filter_some, he, hlate]
    · simp [he]

theorem same_cleaned {cleaned : List ℚ} (h : ∀ s ∈ cleaned, s ≤ t) :
    Foundation.Ledger.Same t (cleaned.foldl Entries.dropExpired rows).ledger rows.ledger := by
  induction cleaned generalizing rows with
  | nil => rfl
  | cons s cleaned ih =>
    exact (ih fun u hu => h u (List.mem_cons_of_mem _ hu)).trans
      (same_dropExpired (h s List.mem_cons_self))

/-- How many recorded keys have an expiry that is not past. -/
def Entries.unexpired (rows : Entries) (now : ℚ) : ℕ := (rows.dropExpired now).size

theorem dropOldest_of_le (h : rows.size ≤ maxItems) : rows.dropOldest = rows := by
  rw [Entries.dropOldest, Nat.sub_eq_zero_of_le h]
  rfl

theorem same_cleanup {s : IdempotencyStore} {swept : ℚ} (h : swept ≤ t)
    (hroom : s.store.unexpired swept ≤ maxItems) :
    Foundation.Ledger.Same t (s.cleanup swept {}).store.ledger s.store.ledger := by
  simp only [IdempotencyStore.cleanup]
  split
  · rw [dropOldest_of_le hroom]
    exact same_dropExpired h
  · rfl

end Ledger

/-! ## Runs -/

section Runs
variable {calls : ℕ → StoreCall} {lastCleanup : ℚ}

/-- The clock does not go back. -/
structure ClockForward (calls : ℕ → StoreCall) : Prop where
  swept : ∀ k c, calls k = .check c → c.swept ≤ c.now
  cleaned : ∀ k c, calls k = .check c → ∀ t ∈ c.cleaned, t ≤ c.now
  between : ∀ j k c d, j < k → calls j = .check c → calls k = .check d → c.now ≤ d.now

abbrev memoryAt (lastCleanup : ℚ) (calls : ℕ → StoreCall) (k : ℕ) : IdempotencyStore :=
  run IdempotencyStore.memoryCall { lastCleanup } calls k

abbrev memoryAnswer (lastCleanup : ℚ) (calls : ℕ → StoreCall) (k : ℕ) :
    Option (Bool × Option String) :=
  answer IdempotencyStore.memoryCall { lastCleanup } calls k

abbrev sqliteAnswer (calls : ℕ → StoreCall) (k : ℕ) : Option (Bool × Option String) :=
  answer Entries.sqliteCall Table.empty calls k

/-- Two answers that the key is new lie at least the first time to live apart. -/
def Spaced (calls : ℕ → StoreCall) (answers : ℕ → Option (Bool × Option String)) : Prop :=
  ∀ i j c d p q, i < j → calls i = .check c → calls j = .check d → c.key = d.key →
    answers i = some (false, p) → answers j = some (false, q) → c.now + c.ttl ≤ d.now

def StoreCall.toLedger : StoreCall → LedgerCall String ℚ (Option String)
  | .check c => .check c.key c.now (c.now + c.ttl) c.promptId
  | .update key promptId => .amend key (some promptId)

/-- The ledger's answer to the `k`-th call, as the store words it. -/
def ledgerAnswer (calls : ℕ → StoreCall) (k : ℕ) : Option (Bool × Option String) :=
  (answer Foundation.Ledger.step (fun _ => none) (fun i => (calls i).toLedger) k).map storeAnswer

abbrev ledgerAt (calls : ℕ → StoreCall) (k : ℕ) : Ledger String ℚ (Option String) :=
  run Foundation.Ledger.step (fun _ => none) (fun i => (calls i).toLedger) k

/-- The rows before the `k`-th call know the keys that the ledger knows, at every time that no
earlier check has overtaken. -/
def ShowsLedger (calls : ℕ → StoreCall) (k : ℕ) (rows : Entries) : Prop :=
  ∀ t, (∀ j c, j < k → calls j = .check c → c.now ≤ t) →
    Foundation.Ledger.Same t rows.ledger (ledgerAt calls k)

theorem shows_check (hclock : ClockForward calls) {k : ℕ} {c : KeyCheck} (hk : calls k = .check c)
    {rows rows' : Entries} (h : ShowsLedger calls k rows)
    (hrows : Foundation.Ledger.Same c.now rows'.ledger rows.ledger) :
    ShowsLedger calls (k + 1) (rows'.checkAndRecord c.key c.ttl c.promptId c.now).1 ∧
      some (rows'.checkAndRecord c.key c.ttl c.promptId c.now).2 = ledgerAnswer calls k := by
  have hbefore := hrows.trans (h c.now fun j d hj hd => hclock.between j k d c hj hd hk)
  obtain ⟨hsame, hafter⟩ := hbefore.check c.key (c.now + c.ttl) c.promptId
  obtain ⟨hledger, hanswer⟩ := ledger_check rows' c
  constructor
  · intro t ht
    rw [hledger, ledgerAt, run_succ, hk]
    exact hafter.mono (ht k c (Nat.lt_succ_self k) hk)
  · rw [hanswer, hsame, ledgerAnswer, answer, hk]
    rfl

theorem shows_update {k : ℕ} {key promptId : String} (hk : calls k = .update key promptId)
    {rows : Entries} (h : ShowsLedger calls k rows) :
    ShowsLedger calls (k + 1) (rows.updatePromptId key promptId) := by
  intro t ht
  rw [ledger_update, ledgerAt, run_succ, hk]
  exact (h t fun j c hj hc => ht j c (hj.trans (Nat.lt_succ_self k)) hc).amend key (some promptId)

theorem shows_memory (hclock : ClockForward calls) (hroom : ∀ k c, calls k = .check c →
      (memoryAt lastCleanup calls k).store.unexpired c.swept ≤ maxItems) (k : ℕ) :
    ShowsLedger calls k (memoryAt lastCleanup calls k).store ∧
      memoryAnswer lastCleanup calls k = ledgerAnswer calls k := by
  have hstep : ∀ k, ShowsLedger calls k (memoryAt lastCleanup calls k).store →
      ShowsLedger calls (k + 1) (memoryAt lastCleanup calls (k + 1)).store ∧
        memoryAnswer lastCleanup calls k = ledgerAnswer calls k := by
    intro k h
    rw [memoryAt, run_succ, memoryAnswer, answer]
    cases hk : calls k with
    | check c =>
      exact shows_check hclock hk h (same_cleanup (hclock.swept k c hk) (hroom k c hk))
    | update key promptId =>
      refine ⟨shows_update hk h, ?_⟩
      rw [ledgerAnswer, answer, hk]
      rfl
  have hshows : ShowsLedger calls k (memoryAt lastCleanup calls k).store := by
    induction k with
    | zero => exact fun t _ => rfl
    | succ k ih => exact (hstep k ih).1
  exact ⟨hshows, (hstep k hshows).2⟩

theorem shows_sqlite (hclock : ClockForward calls) (k : ℕ) :
    ShowsLedger calls k (run Entries.sqliteCall Table.empty calls k) ∧
      sqliteAnswer calls k = ledgerAnswer calls k := by
  have hstep : ∀ k, ShowsLedger calls k (run Entries.sqliteCall Table.empty calls k) →
      ShowsLedger calls (k + 1) (run Entries.sqliteCall Table.empty calls (k + 1)) ∧
        sqliteAnswer calls k = ledgerAnswer calls k := by
    intro k h
    rw [run_succ, sqliteAnswer, answer]
    cases hk : calls k with
    | check c => exact shows_check hclock hk h (same_cleaned (hclock.cleaned k c hk))
    | update key promptId =>
      refine ⟨shows_update hk h, ?_⟩
      rw [ledgerAnswer, answer, hk]
      rfl
  have hshows : ShowsLedger calls k (run Entries.sqliteCall Table.empty calls k) := by
    induction k with
    | zero => exact fun t _ => rfl
    | succ k ih => exact (hstep k ih).1
  exact ⟨hshows, (hstep k hshows).2⟩

theorem StoreCall.of_toLedger {call : StoreCall} {key : String} {now expiry : ℚ}
    {note : Option String} (h : call.toLedger = .check key now expiry note) :
    ∃ c, call = .check c ∧ c.now = now := by
  cases call with
  | check c =>
    cases h
    exact ⟨c, rfl, rfl⟩
  | update key promptId => cases h

theorem chronological (hclock : ClockForward calls) :
    Foundation.Ledger.Chronological fun i => (calls i).toLedger := by
  intro i j hij k t x n k' t' x' n' hi hj
  obtain ⟨c, hc, rfl⟩ := StoreCall.of_toLedger hi
  obtain ⟨d, hd, rfl⟩ := StoreCall.of_toLedger hj
  exact hclock.between i j c d hij hc hd

theorem admitted_of_new {k : ℕ} {p : Option String} (h : ledgerAnswer calls k = some (false, p)) :
    answer Foundation.Ledger.step (fun _ => none) (fun i => (calls i).toLedger) k = some none := by
  obtain ⟨a, ha, hp⟩ := Option.map_eq_some_iff.mp h
  cases a with
  | none => exact ha
  | some promptId => cases hp

theorem spaced_of_ledger (hclock : ClockForward calls) {answers : ℕ → Option (Bool × Option String)}
    (h : ∀ k, answers k = ledgerAnswer calls k) :
    Spaced calls answers := by
  intro i j c d p q hij hi hj hkey hnew hagain
  rw [h] at hnew hagain
  have hci : (calls i).toLedger = .check c.key c.now (c.now + c.ttl) c.promptId := by rw [hi]; rfl
  have hcj : (calls j).toLedger = .check c.key d.now (d.now + d.ttl) d.promptId := by
    rw [hj, hkey]
    rfl
  exact Foundation.Ledger.spaced (chronological hclock) hij hci hcj (admitted_of_new hnew)
    (admitted_of_new hagain)

end Runs

/-- A key is recorded, known half a minute later, and recorded again after its minute. -/
def minuteKey : ℕ → StoreCall
  | 0 => .check { key := "wr:a", ttl := 60, swept := 1000, now := 1000 }
  | 1 => .update "wr:a" "p-1"
  | 2 => .check { key := "wr:a", ttl := 60, swept := 1030, cleaned := [1030], now := 1030 }
  | 3 => .check { key := "wr:a", ttl := 60, swept := 1060, now := 1060 }
  | _ => .update "wr:a" "p-2"

theorem minuteKey_check {k : ℕ} {c : KeyCheck} (h : minuteKey k = .check c) :
    c.swept = c.now ∧ (∀ t ∈ c.cleaned, t ≤ c.now) ∧
      (k = 0 ∧ c.now = 1000 ∨ k = 2 ∧ c.now = 1030 ∨ k = 3 ∧ c.now = 1060) := by
  match k with
  | 0 =>
    cases h
    simp
  | 2 =>
    cases h
    simp
  | 3 =>
    cases h
    simp

theorem minuteKey_forward : ClockForward minuteKey where
  swept := fun k c h => (minuteKey_check h).1.le
  cleaned := fun k c h => (minuteKey_check h).2.1
  between := by
    intro j k c d hjk hj hk
    obtain ⟨-, -, hc⟩ := minuteKey_check hj
    obtain ⟨-, -, hd⟩ := minuteKey_check hk
    rcases hc with ⟨rfl, hc⟩ | ⟨rfl, hc⟩ | ⟨rfl, hc⟩ <;>
      rcases hd with ⟨rfl, hd⟩ | ⟨rfl, hd⟩ | ⟨rfl, hd⟩ <;>
      first
        | omega
        | (rw [hc, hd]; decide)

end OpenClaw.Webhook
