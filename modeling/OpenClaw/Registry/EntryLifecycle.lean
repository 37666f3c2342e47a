import Mathlib.Tactic.Linarith
import OpenClaw.Foundation.Run
import OpenClaw.Registry.EntrySteps

/-!
# The lifecycle of quarantined entries

Over every run without a restart: how an entry came into its state, and what follows for a run in
which no fetch overwrites an entry that is activated or closed, no prune takes a rolled back entry
early, and no two packs share a key.
-/

namespace OpenClaw.Registry

open Foundation
set_option autoImplicit false

variable (policy : Policy) (inp : ℕ → Environment × Call)

/-- The store before the `k`-th call; it starts empty. -/
abbrev storeAt (k : ℕ) : RegistryQuarantineStore := run (step policy) {} inp k

abbrev entryAt (k : ℕ) (K : PyStr) : Option RegistryEntry := (storeAt policy inp k).entries.get? K

/-- The `n`-th reading of the clock in the `k`-th call. -/
abbrev timeAt (k n : ℕ) : ℚ := (inp k).1.readings.time n

/-- After the `i`-th call and up to the `k`-th there is always an entry with the property. -/
def Since (K : PyStr) (i k : ℕ) (P : RegistryEntry → Prop) : Prop :=
  ∀ m, i < m → m ≤ k → ∃ e, entryAt policy inp m K = some e ∧ P e

/-- An entry with the body of `e` that is verified or activated. -/
def Passed (e e' : RegistryEntry) : Prop :=
  SameBody e e' ∧ (e'.state = .verified ∨ e'.state = .activated)

/-- The `j`-th call found the stored hash. -/
def VerifiedBy (K : PyStr) (j k : ℕ) (e : RegistryEntry) : Prop :=
  (∃ args, (inp j).2 = .verifyIntegrity args ∧ entryKey args.name args.version = K ∧
    args.actualSha256 = e.sha256) ∧ (∃ q, entryAt policy inp j K = some q ∧ SameBody q e) ∧
    Since policy inp K j k (Passed e)

/-- How the entry under the key came into its state. -/
structure Story (k : ℕ) (K : PyStr) (e : RegistryEntry) : Prop where
  verified : e.state = .verified → ∃ j < k, VerifiedBy policy inp K j k e
  activated : e.state = .activated → ∃ j i, j < i ∧ i < k ∧ VerifiedBy policy inp K j k e ∧
    (∃ name version, (inp i).2 = .activate name version ∧ entryKey name version = K) ∧
    (∃ q, entryAt policy inp i K = some q ∧ q.state = .verified) ∧
    Since policy inp K i k (·.state = .activated)
  rejected : e.state = .rejected → ∃ i < k, e.rejectedAt = timeAt inp i 0 ∧
    Since policy inp K i k (·.state = .rejected)
  rolledBack : e.state = .rolledBack → ∃ i < k,
    (∃ a, e.auditTrail.getLast? = some a ∧ a.timestamp = timeAt inp i 0) ∧
    Since policy inp K i k (·.state = .rolledBack)

section Since
variable {policy inp} {K : PyStr} {i k : ℕ} {P : RegistryEntry → Prop} {e : RegistryEntry}

theorem since_single (he : entryAt policy inp (k + 1) K = some e) (hP : P e) :
    Since policy inp K k (k + 1) P := by
  intro m hkm hmk
  obtain rfl : m = k + 1 := by omega
  exact ⟨e, he, hP⟩

theorem Since.extend (h : Since policy inp K i k P) (he : entryAt policy inp (k + 1) K = some e)
    (hP : P e) : Since policy inp K i (k + 1) P := by
  intro m him hmk
  by_cases hm : m ≤ k
  · exact h m him hm
  · obtain rfl : m = k + 1 := by omega
    exact ⟨e, he, hP⟩

theorem VerifiedBy.extend {j : ℕ} (h : VerifiedBy policy inp K j k e) {e' : RegistryEntry}
    (he : entryAt policy inp (k + 1) K = some e') (hsame : SameBody e e')
    (hstate : e'.state = .verified ∨ e'.state = .activated) :
    VerifiedBy policy inp K j (k + 1) e' := by
  obtain ⟨⟨args, hcall, hkey, hsha⟩, ⟨q, hq, hbody⟩, hsince⟩ := h
  refine ⟨⟨args, hcall, hkey, hsha.trans hsame.sha256.symm⟩, ⟨q, hq, hbody.trans hsame⟩, ?_⟩
  have hback : SameBody e' e := ⟨hsame.name.symm, hsame.version.symm, hsame.sha256.symm,
    hsame.signature.symm⟩
  intro m hjm hmk
  by_cases hm : m ≤ k
  · obtain ⟨q, hq, hbody, hs⟩ := hsince m hjm hm
    exact ⟨q, hq, hback.trans hbody, hs⟩
  · obtain rfl : m = k + 1 := by omega
    exact ⟨e', he, .refl e', hstate⟩

/-- An entry that a call leaves keeps its story. -/
theorem Story.extend (h : Story policy inp k K e) (he : entryAt policy inp (k + 1) K = some e) :
    Story policy inp (k + 1) K e := by
  constructor
  · intro hs
    obtain ⟨j, hj, hver⟩ := h.verified hs
    exact ⟨j, by omega, hver.extend he (.refl e) (.inl hs)⟩
  · intro hs
    obtain ⟨j, i, hji, hik, hver, hcall, hbefore, hsince⟩ := h.activated hs
    exact ⟨j, i, hji, by omega, hver.extend he (.refl e) (.inr hs), hcall, hbefore,
      hsince.extend he hs⟩
  · intro hs
    obtain ⟨i, hi, ht, hsince⟩ := h.rejected hs
    exact ⟨i, by omega, ht, hsince.extend he hs⟩
  · intro hs
    obtain ⟨i, hi, ht, hsince⟩ := h.rolledBack hs
    exact ⟨i, by omega, ht, hsince.extend he hs⟩

/-- An entry in an open state has none. -/
theorem story_of_open (h : Open e) : Story policy inp k K e := by
  rcases h with h | h
  · constructor <;> intro hs <;> rw [h] at hs <;> cases hs
  · constructor <;> intro hs <;> rw [h] at hs <;> cases hs

end Since

section Runs
variable {policy inp}

theorem entryAt_step (policy : Policy) (hrun : ∀ k, (inp k).2 ≠ .restart) (k : ℕ) (K : PyStr) :
    EntryStep policy (storeAt policy inp k) (inp k).1 K (inp k).2
      (entryAt policy inp k K) (entryAt policy inp (k + 1) K) :=
  step_entry policy _ (inp k) K (hrun k)

/-- One call continues the story of the entry under a key. -/
theorem story_step {k : ℕ} {K : PyStr} {e' : RegistryEntry} {before : Option RegistryEntry}
    {call : Call} (hcall : (inp k).2 = call) (hbefore : entryAt policy inp k K = before)
    (hstory : ∀ e, before = some e → Story policy inp k K e)
    (he : entryAt policy inp (k + 1) K = some e') {s : RegistryQuarantineStore}
    (h : EntryStep policy s (inp k).1 K call before (some e')) :
    Story policy inp (k + 1) K e' := by
  cases h with
  | kept => exact (hstory e' rfl).extend he
  | fetched _ _ hnew => exact story_of_open (.inl (by rw [hnew]; rfl))
  | held _ _ _ hopen => exact story_of_open hopen
  | verified hkey _ hsha hsame hs _ =>
    constructor <;> intro hs' <;> rw [hs] at hs'
    · refine ⟨k, by omega, ⟨_, hcall, hkey, hsha.trans hsame.sha256.symm⟩, ⟨_, hbefore, hsame⟩, ?_⟩
      exact since_single he ⟨.refl e', .inl hs⟩
    all_goals cases hs'
  | activated hkey hs hsame hs' =>
    constructor <;> intro hstate <;> rw [hs'] at hstate
    · cases hstate
    · obtain ⟨j, hj, hver⟩ := (hstory _ rfl).verified hs
      exact ⟨j, k, hj, by omega, hver.extend he hsame (.inr hs'), ⟨_, _, hcall, hkey⟩,
        ⟨_, hbefore, hs⟩, since_single he hs'⟩
    all_goals cases hstate
  | rejected _ _ _ hs ht =>
    constructor <;> intro hstate <;> rw [hs] at hstate
    · cases hstate
    · cases hstate
    · exact ⟨k, by omega, ht, since_single he hs⟩
    · cases hstate
  | rolledBack _ _ _ hs ht =>
    constructor <;> intro hstate <;> rw [hs] at hstate
    · cases hstate
    · cases hstate
    · cases hstate
    · exact ⟨k, by omega, ht, since_single he hs⟩

/-- Every stored entry has its story. -/
theorem story_run (hrun : ∀ k, (inp k).2 ≠ .restart) (k : ℕ) (K : PyStr) {e : RegistryEntry}
    (he : entryAt policy inp k K = some e) : Story policy inp k K e := by
  induction k generalizing e with
  | zero => cases he
  | succ k ih =>
    have hstep := entryAt_step policy hrun k K
    rw [he] at hstep
    exact story_step rfl rfl (fun e he => ih he) he hstep

end Runs

/-! ## Orderly runs -/

/-- The pack that a call is about. -/
def Call.pair? : Call → Option (PyStr × PyStr)
  | .registerFetch args => some (args.name, args.version)
  | .verifyIntegrity args => some (args.name, args.version)
  | .activate name version => some (name, version)
  | .reject name version _ => some (name, version)
  | .rollback name version _ => some (name, version)
  | .removeEntry name version => some (name, version)
  | _ => none

/-- The last audit record is of seven days ago. -/
def RegistryEntry.settled (now : ℚ) (e : RegistryEntry) : Bool :=
  e.auditTrail.getLast?.any fun a => decide (a.timestamp + staleTtl ≤ now)

/-- A fetch may replace the entry. -/
def RegistryEntry.replaceable (now : ℚ) (e : RegistryEntry) : Bool :=
  e.stale now || decide (e.state ∈ [.fetched, .verified, .quarantined])

/-- The call finds its own pack under its key; a fetch replaces no entry that is activated or closed;
and a prune takes no entry that was rolled back less than seven days ago. -/
structure Orderly (s : RegistryQuarantineStore) (input : Environment × Call) : Prop where
  pair : ∀ name version, input.2.pair? = some (name, version) →
    (s.entries.get? (entryKey name version)).all
      fun e => decide (e.name = name ∧ e.version = version)
  fetch : ∀ args, input.2 = .registerFetch args → Admits input.1 s →
    (s.entries.get? (entryKey args.name args.version)).all
      (·.replaceable (input.1.readings.time 1))
  prune : Prunes input.1 input.2 → s.entries.rows.all fun e =>
    !(decide (e.state = .rolledBack) && e.stale (input.1.readings.time 1)) ||
      e.settled (input.1.readings.time 1)

/-- Rejected or rolled back. -/
def Closed (e : RegistryEntry) : Prop := e.state = .rejected ∨ e.state = .rolledBack

/-- The lifecycle of the quarantine, for every entry at every moment. -/
structure Lifecycle (policy : Policy) (inp : ℕ → Environment × Call) : Prop where
  activated : ∀ k K e, entryAt policy inp k K = some e → e.state = .activated →
    ∃ j i, j < i ∧ i < k ∧
      (∃ args, (inp j).2 = .verifyIntegrity args ∧ args.name = e.name ∧ args.version = e.version ∧
        args.actualSha256 = e.sha256) ∧
      (inp i).2 = .activate e.name e.version ∧
      (∃ q, entryAt policy inp i K = some q ∧ q.state = .verified) ∧
      Since policy inp K j k (Passed e) ∧ Since policy inp K i k (·.state = .activated)
  leavesActivated : ∀ k K e, entryAt policy inp k K = some e → e.state = .activated →
    (∃ e', entryAt policy inp (k + 1) K = some e' ∧ SameBody e e' ∧ e'.state = .activated) ∨
      ∃ reason, (inp k).2 = .rollback e.name e.version reason
  leavesStore : ∀ k K e, entryAt policy inp k K = some e → Closed e →
    (∃ e', entryAt policy inp (k + 1) K = some e' ∧ SameBody e e' ∧ Closed e') ∨
      (inp k).2 = .removeEntry e.name e.version ∨
      ∃ i < k, Since policy inp K i k (·.state = e.state) ∧
        timeAt inp i 0 + staleTtl ≤ timeAt inp k 1
  others : ∀ k K e name version, entryAt policy inp k K = some e →
    (inp k).2.pair? = some (name, version) → (name, version) ≠ (e.name, e.version) →
    entryAt policy inp (k + 1) K = some e ∨ entryAt policy inp (k + 1) K = none ∧
      Prunes (inp k).1 (inp k).2 ∧ e.stale (timeAt inp k 1) = true

section Orderly
variable {policy inp} {s : RegistryQuarantineStore} {env : Environment} {call : Call} {K : PyStr}
  {e : RegistryEntry} {after : Option RegistryEntry}

/-- The names in an orderly call are those of the entry it finds. -/
theorem Orderly.names (h : Orderly s (env, call)) {name version : PyStr}
    (hpair : call.pair? = some (name, version)) (hkey : entryKey name version = K)
    (he : s.entries.get? K = some e) : name = e.name ∧ version = e.version := by
  have hall := h.pair name version hpair
  rw [hkey, he, Option.all_some, decide_eq_true_eq] at hall
  exact ⟨hall.1.symm, hall.2.symm⟩

theorem Orderly.replaced (h : Orderly s (env, call)) {args : FetchArgs}
    (hcall : call = .registerFetch args) (hadmits : Admits env s)
    (he : s.entries.get? (entryKey args.name args.version) = some e) :
    e.stale (env.readings.time 1) = true ∨ e.state ∈ [.fetched, .verified, .quarantined] := by
  have hall := h.fetch args hcall hadmits
  rw [he, Option.all_some, RegistryEntry.replaceable, Bool.or_eq_true, decide_eq_true_eq] at hall
  exact hall

theorem Orderly.pruned (h : Orderly s (env, call)) (hprunes : Prunes env call)
    (he : s.entries.get? K = some e) (hs : e.state = .rolledBack)
    (hstale : e.stale (env.readings.time 1) = true) :
    ∃ a, e.auditTrail.getLast? = some a ∧ a.timestamp + staleTtl ≤ env.readings.time 1 := by
  have hall := List.all_eq_true.mp (h.prune hprunes) e (Table.mem_of_get? he)
  simp only [hs, hstale, decide_true, Bool.and_self, Bool.not_true, Bool.false_or] at hall
  obtain ⟨a, ha, htime⟩ := (Option.any_eq_true _ _).mp hall
  exact ⟨a, ha, of_decide_eq_true htime⟩

/-- An activated entry stays, or is rolled back. -/
theorem step_activated (h : EntryStep policy s env K call (some e) after)
    (horderly : Orderly s (env, call)) (he : s.entries.get? K = some e)
    (hs : e.state = .activated) :
    (∃ e', after = some e' ∧ SameBody e e' ∧ e'.state = .activated) ∨
      ∃ reason, call = .rollback e.name e.version reason := by
  have hstale : ¬ e.stale (env.readings.time 1) = true := by
    rw [RegistryEntry.stale, hs, decide_eq_true_eq]
    rintro ⟨⟨⟨⟩⟩ | ⟨⟨⟩⟩, _⟩
  cases h with
  | kept => exact .inl ⟨e, rfl, .refl e, hs⟩
  | fetched _ hadmits hnew hkey =>
    rw [hnew] at hkey
    rcases horderly.replaced rfl hadmits (hkey ▸ he) with h | h
    · exact absurd h hstale
    · rw [hs] at h
      simp at h
  | pruned _ h => exact absurd h hstale
  | verified _ hopen => rcases hopen with h | h <;> rw [hs] at h <;> cases h
  | held _ hopen => rcases hopen with h | h <;> rw [hs] at h <;> cases h
  | activated _ h =>
    rw [hs] at h
    cases h
  | rejected _ h => exact absurd hs h
  | rolledBack hkey =>
    obtain ⟨rfl, rfl⟩ := horderly.names rfl hkey he
    exact .inr ⟨_, rfl⟩
  | removed _ hclosed => rcases hclosed with h | h <;> rw [hs] at h <;> cases h

/-- A closed entry stays closed, is removed, or was stale. -/
theorem step_closed (h : EntryStep policy s env K call (some e) after)
    (horderly : Orderly s (env, call)) (he : s.entries.get? K = some e) (hs : Closed e) :
    (∃ e', after = some e' ∧ SameBody e e' ∧ Closed e') ∨
      call = .removeEntry e.name e.version ∨
      Prunes env call ∧ e.stale (env.readings.time 1) = true := by
  cases h with
  | kept => exact .inl ⟨e, rfl, .refl e, hs⟩
  | fetched _ hadmits hnew hkey =>
    rw [hnew] at hkey
    rcases horderly.replaced rfl hadmits (hkey ▸ he) with h | h
    · exact .inr (.inr ⟨.inr ⟨⟨_, rfl⟩, hadmits.enabled, hadmits.abuse⟩, h⟩)
    · rcases hs with hs | hs <;> rw [hs] at h <;> simp at h
  | pruned hprunes h => exact .inr (.inr ⟨hprunes, h⟩)
  | verified _ hopen =>
    rcases hs with hs | hs <;> rcases hopen with h | h <;> rw [hs] at h <;> cases h
  | held _ hopen =>
    rcases hs with hs | hs <;> rcases hopen with h | h <;> rw [hs] at h <;> cases h
  | activated _ h => rcases hs with hs | hs <;> rw [hs] at h <;> cases h
  | rejected _ _ hsame h => exact .inl ⟨_, rfl, hsame, .inl h⟩
  | rolledBack _ h => rcases hs with hs | hs <;> rw [hs] at h <;> cases h
  | removed hkey =>
    obtain ⟨rfl, rfl⟩ := horderly.names rfl hkey he
    exact .inr (.inl rfl)

/-- A call about another pack leaves the entry or prunes it. -/
theorem step_other (h : EntryStep policy s env K call (some e) after)
    (horderly : Orderly s (env, call)) (he : s.entries.get? K = some e) {name version : PyStr}
    (hpair : call.pair? = some (name, version)) (hne : (name, version) ≠ (e.name, e.version)) :
    after = some e ∨ after = none ∧ Prunes env call ∧ e.stale (env.readings.time 1) = true := by
  have hkeys : entryKey name version ≠ K := by
    intro hkey
    obtain ⟨hname, hversion⟩ := horderly.names hpair hkey he
    rw [hname, hversion] at hne
    exact hne rfl
  cases h with
  | kept => exact .inl rfl
  | pruned hprunes hstale => exact .inr ⟨rfl, hprunes, hstale⟩
  | fetched _ _ hnew hkey =>
    cases hpair
    rw [hnew] at hkey
    exact absurd hkey hkeys
  | verified hkey =>
    cases hpair
    exact absurd hkey hkeys
  | held hkey =>
    cases hpair
    exact absurd hkey hkeys
  | activated hkey =>
    cases hpair
    exact absurd hkey hkeys
  | rejected hkey =>
    cases hpair
    exact absurd hkey hkeys
  | rolledBack hkey =>
    cases hpair
    exact absurd hkey hkeys
  | removed hkey =>
    cases hpair
    exact absurd hkey hkeys

/-- In an orderly run without a restart every entry follows the lifecycle. -/
theorem lifecycle_of_orderly (hrun : ∀ k, (inp k).2 ≠ .restart)
    (horderly : ∀ k, Orderly (storeAt policy inp k) (inp k)) : Lifecycle policy inp := by
  constructor
  · intro k K e he hs
    obtain ⟨j, i, hji, hik, ⟨⟨args, hcall, hkey, hsha⟩, ⟨q, hq, hbody⟩, hsince⟩,
      ⟨name, version, hact, hkey'⟩, hbefore, hsince'⟩ := (story_run hrun k K he).activated hs
    obtain ⟨hname, hversion⟩ := (horderly j).names (by rw [hcall]; rfl) hkey hq
    obtain ⟨p, hp, hbody', _⟩ := hsince i hji (by omega)
    obtain ⟨hname', hversion'⟩ := (horderly i).names (by rw [hact]; rfl) hkey' hp
    refine ⟨j, i, hji, hik, ⟨args, hcall, ?_, ?_, hsha⟩, ?_, hbefore, hsince, hsince'⟩
    · rw [hname, hbody.name]
    · rw [hversion, hbody.version]
    · rw [hact, hname', hversion', hbody'.name, hbody'.version]
  · intro k K e he hs
    have hstep := entryAt_step policy hrun k K
    rw [he] at hstep
    exact step_activated hstep (horderly k) he hs
  · intro k K e he hs
    have hstep := entryAt_step policy hrun k K
    rw [he] at hstep
    rcases step_closed hstep (horderly k) he hs with h | h | ⟨hprunes, hstale⟩
    · exact .inl h
    · exact .inr (.inl h)
    · refine .inr (.inr ?_)
      have hstory := story_run hrun k K he
      rcases hs with hs | hs
      · obtain ⟨i, hik, ht, hsince⟩ := hstory.rejected hs
        refine ⟨i, hik, by rw [hs]; exact hsince, ?_⟩
        have hpos : e.rejectedAt ≠ 0 := ht ▸ (inp i).1.readings.pos.ne'
        rw [RegistryEntry.stale, decide_eq_true_eq, if_neg hpos] at hstale
        have := hstale.2
        rw [← ht]
        linarith
      · obtain ⟨i, hik, ⟨a, ha, ht⟩, hsince⟩ := hstory.rolledBack hs
        obtain ⟨b, hb, hold⟩ := (horderly k).pruned hprunes he hs hstale
        rw [ha] at hb
        obtain rfl := Option.some.inj hb
        exact ⟨i, hik, by rw [hs]; exact hsince, ht ▸ hold⟩
  · intro k K e name version he hpair hne
    have hstep := entryAt_step policy hrun k K
    rw [he] at hstep
    exact step_other hstep (horderly k) he hpair hne

end Orderly

/-! ## A fetch over an activated entry -/

def demoPolicy : Policy where
  crypto := ⟨false, fun _ => none, fun _ _ _ => false, fun message => message⟩
  strict := false

def demoEnvironment (now : ℚ) (pos : 0 < now) : Environment where
  readings := ⟨fun _ => now, monotone_const, pos⟩

def demoNow : Environment := demoEnvironment 1000 (by decide +kernel)
def demoLater : Environment := demoEnvironment 2000 (by decide +kernel)

def demoName : PyStr := PyStr.ofString "pack"
def demoVersion : PyStr := PyStr.ofString "1.0"

def demoFetch (url : String) : Call :=
  .registerFetch ⟨demoName, demoVersion, PyStr.ofString url, PyStr.ofString "ab12", [], []⟩

def demoVerify : Call := .verifyIntegrity ⟨demoName, demoVersion, PyStr.ofString "ab12", .safe⟩

/-- A pack that is fetched, verified, activated and rolled back; then others are looked for. -/
def demoRun : ℕ → Environment × Call
  | 0 => (demoNow, demoFetch "https://packs.test/a")
  | 1 => (demoEnvironment 1001 (by decide +kernel), demoVerify)
  | 2 => (demoEnvironment 1002 (by decide +kernel), .activate demoName demoVersion)
  | 3 => (demoEnvironment 1003 (by decide +kernel), .rollback demoName demoVersion [])
  | _ => (demoEnvironment 1004 (by decide +kernel), .verifySignature [] [] [])

theorem demoRun_orderly (k : ℕ) : Orderly (storeAt demoPolicy demoRun k) (demoRun k) := by
  rcases k with _ | _ | _ | _ | k
  · constructor
    · rintro name version ⟨⟩
      decide +kernel
    · rintro args ⟨⟩ _
      decide +kernel
    · intro _
      decide +kernel
  · constructor
    · rintro name version ⟨⟩
      decide +kernel
    · rintro args ⟨⟩
    · intro _
      decide +kernel
  · constructor
    · rintro name version ⟨⟩
      decide +kernel
    · rintro args ⟨⟩
    · intro _
      decide +kernel
  · constructor
    · rintro name version ⟨⟩
      decide +kernel
    · rintro args ⟨⟩
    · intro _
      decide +kernel
  · constructor
    · rintro name version ⟨⟩
    · rintro args ⟨⟩
    · rintro (⟨⟨⟩⟩ | ⟨⟨args, ⟨⟩⟩, _⟩)

theorem lifecycle_of_orderly_run : Lifecycle demoPolicy demoRun :=
  lifecycle_of_orderly (by rintro (_ | _ | _ | _ | k) ⟨⟩) demoRun_orderly

/-- The same pack is fetched again while it is activated. -/
def demoRefetch : ℕ → Environment × Call
  | 0 => (demoNow, demoFetch "https://packs.test/a")
  | 1 => (demoEnvironment 1001 (by decide +kernel), demoVerify)
  | 2 => (demoEnvironment 1002 (by decide +kernel), .activate demoName demoVersion)
  | _ => (demoLater, demoFetch "https://packs.test/b")

/-- It is then fetched, without a rollback. -/
theorem refetch_leaves_activated :
    (entryAt demoPolicy demoRefetch 3 (entryKey demoName demoVersion)).map (·.state) =
        some .activated ∧
      (entryAt demoPolicy demoRefetch 4 (entryKey demoName demoVersion)).map (·.state) =
        some .fetched ∧
      ¬ Lifecycle demoPolicy demoRefetch := by
  have hbefore : (entryAt demoPolicy demoRefetch 3 (entryKey demoName demoVersion)).map (·.state) =
      some .activated := by decide +kernel
  have hafter : (entryAt demoPolicy demoRefetch 4 (entryKey demoName demoVersion)).map (·.state) =
      some .fetched := by decide +kernel
  refine ⟨hbefore, hafter, ?_⟩
  intro h
  obtain ⟨e, he, hs⟩ := Option.map_eq_some_iff.mp hbefore
  rcases h.leavesActivated 3 _ e he hs with ⟨e', he', _, hs'⟩ | ⟨reason, hcall⟩
  · rw [he', Option.map_some, hs'] at hafter
    cases hafter
  · cases hcall

end OpenClaw.Registry
