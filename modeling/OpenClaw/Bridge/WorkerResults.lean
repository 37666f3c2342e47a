import OpenClaw.Foundation.ObjectHeap
import OpenClaw.Foundation.Run
import OpenClaw.Webhook.IdempotencyStore

/-!
# Worker results

`worker_result_handler` of `api/bridge.py`. The idempotency key of a post is recorded before its
body is read, under the key alone, while results are stored by job. So a duplicate may be the
repetition of a post that was refused, or of one for another job.
-/

namespace OpenClaw.Bridge

open Foundation Webhook
set_option autoImplicit false

variable {φ : Type}

/-- A record of `_worker_results`. -/
structure WorkerResult (φ : Type) where
  jobId : String
  status : Json φ
  outputs : Json φ
  workerId : String
  timestamp : ℚ

/-- A request, with what its handling meets outside of it. -/
structure ResultPost (φ : Type) where
  /-- the device that `require_bridge_auth` lets in, or the status of its refusal -/
  auth : Except ℕ String
  jobId : String
  headers : String → Option String
  /-- `request.json()`; `none` raises -/
  body : Option (Json φ)
  storeNow : ℚ
  io : Backend := {}
  now : ℚ

def ResultPost.idempotencyKey (p : ResultPost φ) : String := (p.headers "X-Idempotency-Key").getD ""

def storeKey (idempotencyKey : String) : String := "wr:" ++ idempotencyKey

def resultTtl : ℕ := 86400

inductive ResultAnswer where
  | authFailed (status : ℕ)
  | jobIdRequired
  | deduped (jobId : String)
  | invalidJson
  | accepted (jobId : String)
  /-- an exception that the server turns into a 500 -/
  | raised
  deriving DecidableEq

namespace ResultAnswer

def status : ResultAnswer → ℕ
  | authFailed status => status
  | jobIdRequired => 400
  | deduped _ => 200
  | invalidJson => 400
  | accepted _ => 201
  | raised => 500

/-- The answer says `ok`, as a success or as a duplicate. -/
def saysAccepted : ResultAnswer → Bool
  | deduped _ => true
  | accepted _ => true
  | _ => false

end ResultAnswer

structure WorkerBridge (φ : Type) where
  idempotencyStore : IdempotencyStore
  workerResults : Table (WorkerResult.jobId (φ := φ)) := Table.empty

/-- What a body stores; only an object has a `get`. -/
def ResultPost.result? (tag : String → String) (p : ResultPost φ) : Option (WorkerResult φ) :=
  match p.auth, p.body with
  | .ok deviceId, some (.obj data) => some {
      jobId := p.jobId
      status := (under? (PyStr.ofString "status") data).getD (.str (PyStr.ofString "completed"))
      outputs := (under? (PyStr.ofString "outputs") data).getD (.obj [])
      workerId := tag deviceId
      timestamp := p.now }
  | _, _ => none

namespace WorkerBridge

/-- The check of the idempotency key, if there is one. -/
def checkKey (s : WorkerBridge φ) (p : ResultPost φ) : WorkerBridge φ × Except StoreError Bool :=
  if p.idempotencyKey = "" then (s, .ok false)
  else
    let r := s.idempotencyStore.checkAndRecord (storeKey p.idempotencyKey) none resultTtl p.storeNow
      p.io
    ({ s with idempotencyStore := r.1 }, r.2.map Prod.fst)

def storeResult (tag : String → String) (s : WorkerBridge φ) (p : ResultPost φ) :
    WorkerBridge φ × ResultAnswer :=
  match p.body with
  | none => (s, .invalidJson)
  | some _ =>
    match p.result? tag with
    | some result => ({ s with workerResults := s.workerResults.put result }, .accepted p.jobId)
    | none => (s, .raised)

/-- `worker_result_handler`; `tag` is `stable_redaction_tag` for devices. -/
def workerResultHandler (tag : String → String) (s : WorkerBridge φ) (p : ResultPost φ) :
    WorkerBridge φ × ResultAnswer :=
  match p.auth with
  | .error status => (s, .authFailed status)
  | .ok _ =>
    if p.jobId = "" then (s, .jobIdRequired)
    else
      match s.checkKey p with
      | (s, .error _) => (s, .raised)
      | (s, .ok true) => (s, .deduped p.jobId)
      | (s, .ok false) => s.storeResult tag p

/-- The store holds an unexpired record of the post's key. -/
def known (s : WorkerBridge φ) (p : ResultPost φ) : Bool :=
  decide (p.idempotencyKey ≠ "") &&
    (s.idempotencyStore.found? (storeKey p.idempotencyKey) p.storeNow p.io).isSome

/-- The strict store raises. -/
def storeFails (s : WorkerBridge φ) (p : ResultPost φ) : Prop :=
  p.idempotencyKey ≠ "" ∧ s.idempotencyStore.strictMode = true ∧
    (s.idempotencyStore.durable = none ∨ p.io.check = false)

/-- The post gets to the check of its key. -/
def Reaches (p : ResultPost φ) : Prop := (∃ deviceId, p.auth = .ok deviceId) ∧ p.jobId ≠ ""

/-- The post is a duplicate for the store. -/
def Repeated (s : WorkerBridge φ) (p : ResultPost φ) : Prop := Reaches p ∧ s.known p = true

/-- The post gets past the check of its key. -/
def Taken (s : WorkerBridge φ) (p : ResultPost φ) : Prop :=
  Reaches p ∧ s.known p = false ∧ ¬ s.storeFails p

/-! ## One post -/

variable {tag : String → String} {s : WorkerBridge φ} {p : ResultPost φ}

theorem checkKey_results : (s.checkKey p).1.workerResults = s.workerResults := by
  unfold checkKey
  split <;> rfl

theorem checkKey_cases :
    (s.known p = true ∧ (s.checkKey p).2 = .ok true) ∨
    (s.known p = false ∧ s.storeFails p ∧ ∃ e, (s.checkKey p).2 = .error e) ∨
    (s.known p = false ∧ ¬ s.storeFails p ∧ (s.checkKey p).2 = .ok false) := by
  have hdup := duplicate_iff s.idempotencyStore (storeKey p.idempotencyKey) none resultTtl
    p.storeNow p.io
  have herror := check_error_iff s.idempotencyStore (storeKey p.idempotencyKey) none resultTtl
    p.storeNow p.io
  unfold checkKey known storeFails
  by_cases hkey : p.idempotencyKey = ""
  · simp [hkey]
  · simp only [hkey, ne_eq, not_false_eq_true, decide_true, Bool.true_and, if_false, true_and]
    rw [← herror]
    generalize s.idempotencyStore.checkAndRecord (storeKey p.idempotencyKey) none resultTtl
      p.storeNow p.io = r at hdup herror
    obtain ⟨store, answer⟩ := r
    match answer with
    | .error e =>
      have hnone : (s.idempotencyStore.found? (storeKey p.idempotencyKey) p.storeNow
          p.io).isSome = false := by
        rw [← Bool.not_eq_true, ← hdup]
        simp
      exact .inr (.inl ⟨hnone, ⟨e, rfl⟩, e, rfl⟩)
    | .ok (true, existing) => exact .inl ⟨hdup.mp ⟨existing, rfl⟩, rfl⟩
    | .ok (false, existing) =>
      have hnone : (s.idempotencyStore.found? (storeKey p.idempotencyKey) p.storeNow
          p.io).isSome = false := by
        rw [← Bool.not_eq_true, ← hdup]
        simp
      exact .inr (.inr ⟨hnone, by simp, rfl⟩)

/-- A post stores its result and is accepted, is a duplicate, or is turned away; only the first
changes the results. -/
theorem handler_cases :
    (Taken s p ∧ ∃ result, p.result? tag = some result ∧
      (workerResultHandler tag s p).1.workerResults = s.workerResults.put result ∧
      (workerResultHandler tag s p).2 = .accepted p.jobId) ∨
    (Repeated s p ∧ (workerResultHandler tag s p).1.workerResults = s.workerResults ∧
      (workerResultHandler tag s p).2 = .deduped p.jobId) ∨
    ((Taken s p → p.result? tag = none) ∧
      (workerResultHandler tag s p).1.workerResults = s.workerResults ∧
      (workerResultHandler tag s p).2.saysAccepted = false) := by
  unfold workerResultHandler
  cases hauth : p.auth with
  | error status =>
    refine .inr (.inr ⟨fun h => ?_, rfl, rfl⟩)
    obtain ⟨⟨⟨deviceId, hok⟩, -⟩, -⟩ := h
    rw [hauth] at hok
    cases hok
  | ok deviceId =>
    dsimp only
    split
    · rename_i hjob
      exact .inr (.inr ⟨fun h => absurd hjob h.1.2, rfl, rfl⟩)
    · rename_i hjob
      have hreach : Reaches p := ⟨⟨deviceId, hauth⟩, hjob⟩
      have hsame := checkKey_results (s := s) (p := p)
      have hcases := checkKey_cases (s := s) (p := p)
      generalize s.checkKey p = r at hsame hcases
      obtain ⟨s', answer⟩ := r
      dsimp only at hsame hcases
      rcases hcases with ⟨hknown, rfl⟩ | ⟨-, hfails, e, rfl⟩ | ⟨hknown, hfree, rfl⟩
      · exact .inr (.inl ⟨⟨hreach, hknown⟩, hsame, rfl⟩)
      · exact .inr (.inr ⟨fun h => absurd hfails h.2.2, hsame, rfl⟩)
      · dsimp only [storeResult]
        split
        · rename_i hbody
          refine .inr (.inr ⟨fun _ => ?_, hsame, rfl⟩)
          rw [ResultPost.result?, hauth, hbody]
        · split
          · rename_i result hresult
            exact .inl ⟨⟨hreach, hknown, hfree⟩, result, hresult, by rw [hsame], rfl⟩
          · rename_i hnone
            exact .inr (.inr ⟨fun _ => hnone, hsame, rfl⟩)

theorem taken_of_new (hreach : Reaches p) (hkey : p.idempotencyKey ≠ "") {existing : Option String}
    (h : (s.idempotencyStore.checkAndRecord (storeKey p.idempotencyKey) none resultTtl p.storeNow
      p.io).2 = .ok (false, existing)) : Taken s p := by
  have hanswer : (s.checkKey p).2 = .ok false := by
    rw [checkKey, if_neg hkey]
    dsimp only
    rw [h]
    rfl
  rcases checkKey_cases (s := s) (p := p) with ⟨-, hknown⟩ | ⟨-, -, e, herror⟩ | ⟨hknown, hfree, -⟩
  · rw [hanswer] at hknown
    cases hknown
  · rw [hanswer] at herror
    cases herror
  · exact ⟨hreach, hknown, hfree⟩

theorem handler_store : (workerResultHandler tag s p).1.idempotencyStore = s.idempotencyStore ∨
    (Reaches p ∧ p.idempotencyKey ≠ "" ∧ (workerResultHandler tag s p).1.idempotencyStore =
      (s.idempotencyStore.checkAndRecord (storeKey p.idempotencyKey) none resultTtl p.storeNow
        p.io).1) := by
  unfold workerResultHandler
  cases hauth : p.auth with
  | error status => exact .inl rfl
  | ok deviceId =>
    dsimp only
    split
    · exact .inl rfl
    · rename_i hjob
      have hchecked : (s.checkKey p).1.idempotencyStore = s.idempotencyStore ∨
          (p.idempotencyKey ≠ "" ∧ (s.checkKey p).1.idempotencyStore =
            (s.idempotencyStore.checkAndRecord (storeKey p.idempotencyKey) none resultTtl
              p.storeNow p.io).1) := by
        unfold checkKey
        split
        · exact .inl rfl
        · rename_i hkey
          exact .inr ⟨hkey, rfl⟩
      replace hchecked := hchecked.imp_right fun h =>
        (⟨⟨⟨deviceId, hauth⟩, hjob⟩, h⟩ : Reaches p ∧ _)
      generalize s.checkKey p = r at hchecked
      obtain ⟨s', answer⟩ := r
      match answer with
      | .error e => exact hchecked
      | .ok true => exact hchecked
      | .ok false =>
        dsimp only [storeResult]
        split
        · exact hchecked
        · split <;> exact hchecked

end WorkerBridge

/-! ## Runs -/

section Runs
open WorkerBridge
variable (tag : String → String) (store : IdempotencyStore) (posts : ℕ → ResultPost φ)

abbrev bridgeAt (k : ℕ) : WorkerBridge φ :=
  run (workerResultHandler tag) { idempotencyStore := store } posts k

abbrev resultAnswer (k : ℕ) : ResultAnswer :=
  answer (workerResultHandler tag) { idempotencyStore := store } posts k

/-- The result that is recorded for the job of the `k`-th post is the one of this or an earlier post
for this job with its key. -/
def RecordedFor (k : ℕ) : Prop :=
  ∃ i ≤ k, (posts i).jobId = (posts k).jobId ∧
    (posts i).idempotencyKey = (posts k).idempotencyKey ∧ ∃ result, (posts i).result? tag = some result ∧
      (bridgeAt tag store posts (k + 1)).workerResults.get? (posts k).jobId = some result

/-- The `i`-th post put the key of the `k`-th on record: the last one before it with this key that
was taken. -/
structure LastTaken (i k : ℕ) : Prop where
  lt : i < k
  key : (posts i).idempotencyKey = (posts k).idempotencyKey
  taken : Taken (bridgeAt tag store posts i) (posts i)
  last : ∀ m, i < m → m < k → (posts m).idempotencyKey = (posts k).idempotencyKey →
    ¬ Taken (bridgeAt tag store posts m) (posts m)

/-- A duplicate repeats a post with a result for the same job, and no other post with a result for
this job was taken since. -/
def Genuine (k : ℕ) : Prop :=
  Repeated (bridgeAt tag store posts k) (posts k) → ∀ i, LastTaken tag store posts i k →
    ((posts i).result? tag).isSome = true ∧ (posts i).jobId = (posts k).jobId ∧
      ∀ m, i < m → m < k → (posts m).jobId = (posts k).jobId →
        Taken (bridgeAt tag store posts m) (posts m) → (posts m).result? tag = none

variable {tag store posts}

/-- Behind every record of a posted key stands a post with this key that was taken. -/
theorem recorded_taken (hfresh : store.All fun e => ∀ key, e.key ≠ storeKey key) (k : ℕ) :
    (bridgeAt tag store posts k).idempotencyStore.All fun e => ∀ key, e.key = storeKey key →
      ∃ i < k, (posts i).idempotencyKey = key ∧ Taken (bridgeAt tag store posts i) (posts i) := by
  induction k with
  | zero => exact ⟨fun e he key hkey => absurd hkey (hfresh.1 e he key),
      fun rows hrows e he key hkey => absurd hkey (hfresh.2 rows hrows e he key)⟩
  | succ k ih =>
    have hkept : (bridgeAt tag store posts k).idempotencyStore.All fun e => ∀ key,
        e.key = storeKey key → ∃ i < k + 1, (posts i).idempotencyKey = key ∧
          Taken (bridgeAt tag store posts i) (posts i) := by
      have hmono (e : IdempotencyEntry) (h : ∀ key, e.key = storeKey key →
          ∃ i < k, (posts i).idempotencyKey = key ∧ Taken (bridgeAt tag store posts i) (posts i))
          (key : String) (hkey : e.key = storeKey key) : ∃ i < k + 1,
            (posts i).idempotencyKey = key ∧ Taken (bridgeAt tag store posts i) (posts i) := by
        obtain ⟨i, hi, h⟩ := h key hkey
        exact ⟨i, hi.trans (Nat.lt_succ_self k), h⟩
      exact ⟨fun e he => hmono e (ih.1 e he), fun rows hrows e he => hmono e (ih.2 rows hrows e he)⟩
    rw [bridgeAt, run_succ]
    rcases @handler_store φ tag (bridgeAt tag store posts k) (posts k) with
      hsame | ⟨hreach, hkey, hstore⟩
    · rw [hsame]
      exact hkept
    · rw [hstore]
      refine all_check hkept (fun e h => h) fun hnew key hentry => ?_
      exact ⟨k, Nat.lt_succ_self k, (String.append_right_inj "wr:").mp hentry,
        taken_of_new hreach hkey hnew⟩

theorem result_jobId {p : ResultPost φ} {result : WorkerResult φ} (h : p.result? tag = some result) :
    result.jobId = p.jobId := by
  unfold ResultPost.result? at h
  split at h
  · cases h
    rfl
  · cases h

/-- The result of a taken post stays until another post for its job is taken. -/
theorem stored_since {i k : ℕ} (hik : i < k) {result : WorkerResult φ}
    (hresult : (posts i).result? tag = some result)
    (htaken : Taken (bridgeAt tag store posts i) (posts i))
    (hothers : ∀ m, i < m → m < k → (posts m).jobId = (posts i).jobId →
      Taken (bridgeAt tag store posts m) (posts m) → (posts m).result? tag = none) :
    (bridgeAt tag store posts k).workerResults.get? (posts i).jobId = some result := by
  induction k, hik using Nat.le_induction with
  | base =>
    rw [bridgeAt, run_succ]
    rcases @handler_cases φ tag (bridgeAt tag store posts i) (posts i) with
      ⟨-, result', hresult', hput, -⟩ | ⟨hrepeated, -⟩ | ⟨hnone, -⟩
    · rw [hresult] at hresult'
      cases hresult'
      rw [hput, Table.get?_put, if_pos (result_jobId hresult)]
    · exact absurd (htaken.2.1.symm.trans hrepeated.2) Bool.false_ne_true
    · rw [hnone htaken] at hresult
      cases hresult
  | succ m hm ih =>
    have hkept := ih fun n hin hnm => hothers n hin (hnm.trans (Nat.lt_succ_self m))
    rw [bridgeAt, run_succ]
    rcases @handler_cases φ tag (bridgeAt tag store posts m) (posts m) with
      ⟨htaken', result', hresult', hput, -⟩ | ⟨-, hsame, -⟩ | ⟨-, hsame, -⟩
    · rw [hput, Table.get?_put, result_jobId hresult']
      split
      · rename_i hjob
        have hnone := hothers m hm (Nat.lt_succ_self m) hjob htaken'
        rw [hresult'] at hnone
        cases hnone
      · exact hkept
    · rw [hsame]
      exact hkept
    · rw [hsame]
      exact hkept

/-- The last of the posts before the `k`-th that have a property. -/
theorem exists_last {P : ℕ → Prop} {k i : ℕ} (hi : i < k) (h : P i) :
    ∃ m, m < k ∧ P m ∧ ∀ n, m < n → n < k → ¬ P n := by
  induction k with
  | zero => omega
  | succ k ih =>
    by_cases hk : P k
    · exact ⟨k, Nat.lt_succ_self k, hk, fun n hkn hn => by omega⟩
    · have hik : i < k := by
        rcases Nat.lt_succ_iff_lt_or_eq.mp hi with hik | rfl
        · exact hik
        · exact absurd h hk
      obtain ⟨m, hm, hPm, hlast⟩ := ih hik
      refine ⟨m, by omega, hPm, fun n hmn hn => ?_⟩
      rcases Nat.lt_succ_iff_lt_or_eq.mp hn with hn | rfl
      · exact hlast n hmn hn
      · exact hk

theorem lastTaken_of_repeated (hfresh : store.All fun e => ∀ key, e.key ≠ storeKey key) {k : ℕ}
    (h : Repeated (bridgeAt tag store posts k) (posts k)) : ∃ i, LastTaken tag store posts i k := by
  have hknown := h.2
  rw [known, Bool.and_eq_true] at hknown
  obtain ⟨entry, hentry⟩ := Option.isSome_iff_exists.mp hknown.2
  obtain ⟨hbehind, hkey, -⟩ := found_of_all (recorded_taken hfresh k) hentry
  obtain ⟨i, hi, hsame, htaken⟩ := hbehind _ hkey
  obtain ⟨m, hm, ⟨hmkey, hmtaken⟩, hlast⟩ := exists_last
    (P := fun i => (posts i).idempotencyKey = (posts k).idempotencyKey ∧
      Taken (bridgeAt tag store posts i) (posts i)) hi ⟨hsame, htaken⟩
  exact ⟨m, hm, hmkey, hmtaken, fun n hmn hn hnkey hntaken => hlast n hmn hn ⟨hnkey, hntaken⟩⟩

/-- If every duplicate is genuine, a post that is answered with `ok` has a result on record. -/
theorem answers_recorded (hfresh : store.All fun e => ∀ key, e.key ≠ storeKey key)
    (hgenuine : ∀ k, Genuine tag store posts k) :
    ∀ k, (resultAnswer tag store posts k).saysAccepted = true → RecordedFor tag store posts k := by
  intro k haccepted
  unfold RecordedFor
  rw [bridgeAt, run_succ]
  rcases @handler_cases φ tag (bridgeAt tag store posts k) (posts k) with
    ⟨-, result, hresult, hput, -⟩ | ⟨hrepeated, hsame, -⟩ | ⟨-, -, hturned⟩
  · refine ⟨k, le_refl k, rfl, rfl, result, hresult, ?_⟩
    rw [hput, Table.get?_put, if_pos (result_jobId hresult)]
  · obtain ⟨i, hi⟩ := lastTaken_of_repeated hfresh hrepeated
    obtain ⟨hsome, hjob, hothers⟩ := hgenuine k hrepeated i hi
    obtain ⟨result, hresult⟩ := Option.isSome_iff_exists.mp hsome
    refine ⟨i, hi.lt.le, hjob, hi.key, result, hresult, ?_⟩
    rw [hsame, ← hjob]
    exact stored_since hi.lt hresult hi.taken fun m him hmk hm => hothers m him hmk (hm.trans hjob)
  · rw [resultAnswer, answer, hturned] at haccepted
    cases haccepted

end Runs

/-! ## Retries -/

def demoPost (jobId key : String) (body : Option (Json Unit)) (now : ℚ) : ResultPost Unit where
  auth := .ok "device-1"
  jobId := jobId
  headers := fun name => if name = "X-Idempotency-Key" then some key else none
  body := body
  storeNow := now
  now := now

def strangerPost : ResultPost Unit := { demoPost "j-1" "k-1" none 2000 with auth := .error 401 }

/-- A result is posted twice, and one for another job under another key. -/
def honestPosts : ℕ → ResultPost Unit
  | 0 => demoPost "j-1" "k-1" (some (.obj [])) 1000
  | 1 => demoPost "j-1" "k-1" (some (.obj [])) 1001
  | 2 => demoPost "j-2" "k-2" (some (.obj [])) 1002
  | _ => strangerPost

def demoStore : IdempotencyStore := { lastCleanup := 900 }

theorem honest_answers :
    (resultAnswer id demoStore honestPosts 1).saysAccepted = true ∧
      (bridgeAt id demoStore honestPosts 2).known (honestPosts 2) = false := by
  decide +kernel

theorem genuine_honest (k : ℕ) : Genuine id demoStore honestPosts k := by
  intro hrepeated i hi
  match k with
  | 0 => exact absurd hi.lt (Nat.not_lt_zero i)
  | 1 =>
    have hzero : i = 0 := Nat.lt_one_iff.mp hi.lt
    subst hzero
    exact ⟨rfl, rfl, fun m h0 h1 => by omega⟩
  | 2 =>
    exact absurd (honest_answers.2.symm.trans hrepeated.2) Bool.false_ne_true
  | k + 3 =>
    obtain ⟨⟨⟨deviceId, hauth⟩, -⟩, -⟩ := hrepeated
    cases hauth

/-- The second post is answered as a duplicate of the first. -/
theorem answers_recorded_honest : (resultAnswer id demoStore honestPosts 1).saysAccepted = true ∧
    RecordedFor id demoStore honestPosts 1 := by
  have hfresh : demoStore.All fun e => ∀ key, e.key ≠ storeKey key :=
    ⟨fun e he => (nomatch he), fun rows h => (nomatch h)⟩
  exact ⟨honest_answers.1, answers_recorded hfresh genuine_honest 1 honest_answers.1⟩

/-- A body that is no JSON, and the retry of its post. -/
def brokenPosts : ℕ → ResultPost Unit
  | 0 => demoPost "j-1" "k-1" none 1000
  | 1 => demoPost "j-1" "k-1" (some (.obj [])) 1001
  | _ => strangerPost

theorem broken_not_recorded :
    ¬ ∀ k, (resultAnswer id demoStore brokenPosts k).saysAccepted = true →
      RecordedFor id demoStore brokenPosts k := by
  intro h
  obtain ⟨haccepted, hnone⟩ : (resultAnswer id demoStore brokenPosts 1).saysAccepted = true ∧
      ((bridgeAt id demoStore brokenPosts 2).workerResults.get? "j-1").isSome = false := by
    decide +kernel
  obtain ⟨i, -, -, -, result, -, hstored⟩ := h 1 haccepted
  rw [show (bridgeAt id demoStore brokenPosts 2).workerResults.get? "j-1" = some result from hstored]
    at hnone
  cases hnone

/-- A result for one job, and one for another job under the same key. -/
def sharedKeyPosts : ℕ → ResultPost Unit
  | 0 => demoPost "j-1" "k-1" (some (.obj [])) 1000
  | _ => demoPost "j-2" "k-1" (some (.obj [])) 1001

example : resultAnswer id demoStore sharedKeyPosts 1 = .deduped "j-2" := by decide +kernel

end OpenClaw.Bridge
