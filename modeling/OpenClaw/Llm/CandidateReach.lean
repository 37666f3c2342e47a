import OpenClaw.Llm.FailoverLoop

/-!
# Which candidates are reached

The loop skips a candidate that is cooling down or throttled whenever it is not the last one, without
asking whether a later one has a key and an allowed URL.
-/

namespace OpenClaw.Llm

open Foundation FailoverState
set_option autoImplicit false

section
variable {ε ρ : Type} (w : World ε ρ) (failover : FailoverState) (candidates : List Candidate)

/-- The candidate has a key, if it needs one, and an allowed URL. -/
def usable (c : Candidate) : Bool :=
  validateCandidateUrl w c.provider c.baseUrl &&
    match w.apiKey c.provider with
    | .ok key => !requiresApiKey w c.provider || (key.filter (· ≠ [])).isSome
    | .error _ => false

/-- The entry of the candidate has not expired at the `i`-th check, nor at an earlier check under the
same key. -/
def CoolingAt (i : ℕ) (c : Candidate) : Prop :=
  ∃ entry, failover.cooldowns.get? c.key = some (c.key, entry) ∧
    ∀ j c', j ≤ i → candidates[j]? = some c' → c'.key = c.key → w.cooldownClock j < entry.untilTime

/-- There are alternatives after the candidate, and it is cooling down or throttled. -/
def SkippedAt (i : ℕ) (c : Candidate) : Prop :=
  i < candidates.length - 1 ∧ (CoolingAt w failover candidates i c ∨
    failover.canAttemptNow (w.throttleClock i) c.provider c.model = false)

/-- The key lookup of the candidate raises and is reached. -/
def AbortsAt (i : ℕ) (c : Candidate) : Prop :=
  ¬ (i < candidates.length - 1 ∧ CoolingAt w failover candidates i c) ∧
    validateCandidateUrl w c.provider c.baseUrl = true ∧ ∃ e, w.apiKey c.provider = .error e

/-- A usable candidate is not skipped, and no lookup before it raises. -/
def Reached : Prop :=
  0 < w.rounds ∧ ∃ i c, candidates[i]? = some c ∧ usable w c = true ∧
    ¬ SkippedAt w failover candidates i c ∧
    ∀ j c', j < i → candidates[j]? = some c' → ¬ AbortsAt w failover candidates j c'

end

/-! ## How many requests are sent -/

section Sent
variable {ε ρ : Type} (w : World ε ρ) (i : ℕ) (c : Candidate)

/-- One attempt: the sleep before it ends the loop, or a request is sent and the loop ends or goes on
with the next attempt. -/
theorem retryLoop_cases (remaining attempt : ℕ) (lastError : Option ε) (s : LoopState ε) :
    (0 < attempt ∧ (retryLoop w i c (remaining + 1) attempt lastError s).2.2.sent = s.sent) ∨
      (retryLoop w i c (remaining + 1) attempt lastError s).2.2.sent = s.sent ++ [(i, attempt)] ∨
      ∃ e s', s'.sent = s.sent ++ [(i, attempt)] ∧
        retryLoop w i c (remaining + 1) attempt lastError s =
          retryLoop w i c remaining (attempt + 1) (some e) s' := by
  rw [retryLoop]
  split
  · rename_i e hsleep
    refine .inl ⟨?_, rfl⟩
    by_contra hfirst
    rw [if_neg hfirst] at hsleep
    cases hsleep
  · dsimp only
    split
    · exact .inr (.inl rfl)
    · exact .inr (.inl rfl)
    · exact .inr (.inl rfl)
    · split
      · exact .inr (.inr ⟨_, _, rfl, rfl⟩)
      · exact .inr (.inl rfl)

theorem retryLoop_sent (remaining attempt : ℕ) (lastError : Option ε) (s : LoopState ε) :
    s.sent.length ≤ (retryLoop w i c remaining attempt lastError s).2.2.sent.length ∧
      (retryLoop w i c remaining attempt lastError s).2.2.sent.length ≤
        s.sent.length + remaining := by
  induction remaining generalizing attempt lastError s with
  | zero => exact ⟨le_refl _, le_refl _⟩
  | succ remaining ih =>
    have hsent : (s.sent ++ [(i, attempt)]).length = s.sent.length + 1 := by simp
    rcases retryLoop_cases w i c remaining attempt lastError s with ⟨_, h⟩ | h | ⟨e, s', hs', h⟩
    · rw [h]
      omega
    · rw [h]
      omega
    · have ih := ih (attempt + 1) (some e) s'
      rw [hs', hsent] at ih
      rw [h]
      omega

theorem retryLoop_sends (remaining : ℕ) (lastError : Option ε) (s : LoopState ε) :
    s.sent.length < (retryLoop w i c (remaining + 1) 0 lastError s).2.2.sent.length := by
  have hsent : (s.sent ++ [(i, 0)]).length = s.sent.length + 1 := by simp
  rcases retryLoop_cases w i c remaining 0 lastError s with ⟨hfirst, _⟩ | h | ⟨e, s', hs', h⟩
  · omega
  · rw [h]
    omega
  · have hnext := (retryLoop_sent w i c remaining 1 (some e) s').1
    rw [hs', hsent] at hnext
    rw [h]
    exact hnext

theorem attemptCandidate_sent (s : LoopState ε) :
    s.sent.length ≤ (attemptCandidate w i c s).2.sent.length ∧
      (attemptCandidate w i c s).2.sent.length ≤ s.sent.length + w.rounds ∧
      (0 < w.rounds → s.sent.length < (attemptCandidate w i c s).2.sent.length) := by
  have hbound := retryLoop_sent w i c w.rounds 0 none
    { s with failover := s.failover.markAttempt (w.attemptClock i) c.provider c.model }
  have hsends : 0 < w.rounds → s.sent.length < (retryLoop w i c w.rounds 0 none
      { s with
        failover := s.failover.markAttempt (w.attemptClock i) c.provider c.model }).2.2.sent.length := by
    intro hrounds
    obtain ⟨remaining, heq⟩ := Nat.exists_eq_succ_of_ne_zero hrounds.ne'
    have hfirst := retryLoop_sends w i c remaining none
      { s with failover := s.failover.markAttempt (w.attemptClock i) c.provider c.model }
    rw [heq]
    exact hfirst
  unfold attemptCandidate
  dsimp only at hbound hsends ⊢
  split <;> exact ⟨hbound.1, hbound.2, hsends⟩

/-! ## One candidate -/

variable (original : LLMClient) (count : ℕ)

/-- The state of the cooldowns after the check, and whether the candidate is cooling down. -/
def check (s : FailoverState) : FailoverState × Bool :=
  s.isCoolingDown (w.cooldownClock i) c.provider c.model

def SkippedNow (s : FailoverState) : Prop :=
  i < count - 1 ∧ ((check w i c s).2 = true ∨
    (check w i c s).1.canAttemptNow (w.throttleClock i) c.provider c.model = false)

def AbortsNow (s : FailoverState) : Prop :=
  ¬ (i < count - 1 ∧ (check w i c s).2 = true) ∧
    validateCandidateUrl w c.provider c.baseUrl = true ∧ ∃ e, w.apiKey c.provider = .error e

/-- A candidate gets to its attempts, its lookup raises, or it is passed over. -/
theorem tryCandidate_cases (s : LoopState ε) :
    (usable w c = true ∧ ¬ SkippedNow w i c count s.failover ∧ ∃ s',
      tryCandidate w original count i c s = attemptCandidate w i c s' ∧ s'.sent = s.sent) ∨
    (usable w c = false ∧ AbortsNow w i c count s.failover ∧ ∃ e s',
      tryCandidate w original count i c s = (some (.raised e), s') ∧ s'.sent = s.sent) ∨
    (¬ (usable w c = true ∧ ¬ SkippedNow w i c count s.failover) ∧
      ¬ AbortsNow w i c count s.failover ∧ ∃ s',
      tryCandidate w original count i c s = (none, s') ∧ s'.sent = s.sent ∧
      s'.failover = (check w i c s.failover).1) := by
  unfold tryCandidate
  dsimp only
  split
  · rename_i hcooling
    have hcooling : i < count - 1 ∧ (check w i c s.failover).2 = true := hcooling.symm
    refine .inr (.inr ⟨fun h => h.2 ⟨hcooling.1, .inl hcooling.2⟩, fun h => h.1 hcooling, ?_⟩)
    exact ⟨_, rfl, rfl, rfl⟩
  · rename_i hcooling
    have hcooling : ¬ (i < count - 1 ∧ (check w i c s.failover).2 = true) :=
      fun h => hcooling h.symm
    split
    · rename_i hurl
      have hunusable : usable w c = false := by rw [usable, hurl, Bool.false_and]
      refine .inr (.inr ⟨fun h => ?_, fun h => ?_, _, rfl, rfl, rfl⟩)
      · exact absurd (hunusable.symm.trans h.1) Bool.false_ne_true
      · exact absurd (hurl.symm.trans h.2.1) Bool.false_ne_true
    · rename_i hurl
      rw [Bool.not_eq_false] at hurl
      cases hkey : w.apiKey c.provider with
      | error e =>
        refine .inr (.inl ⟨?_, ⟨hcooling, hurl, e, hkey⟩, e, _, rfl, rfl⟩)
        rw [usable, hkey, Bool.and_false]
      | ok key =>
        have haborts : ¬ AbortsNow w i c count s.failover := by
          rintro ⟨-, -, e, he⟩
          rw [hkey] at he
          cases he
        have husable : usable w c =
            (!requiresApiKey w c.provider || (key.filter (· ≠ [])).isSome) := by
          rw [usable, hurl, hkey, Bool.true_and]
        dsimp only
        split
        · rename_i hmissing
          have hunusable : usable w c = false := by
            rw [husable, hmissing.1, Bool.not_true, Bool.false_or, ← Option.not_isNone, hmissing.2]
            rfl
          refine .inr (.inr ⟨fun h => ?_, haborts, _, rfl, rfl, rfl⟩)
          exact absurd (hunusable.symm.trans h.1) Bool.false_ne_true
        · rename_i hpresent
          have husable : usable w c = true := by
            rw [husable]
            cases hrequired : requiresApiKey w c.provider with
            | false => rfl
            | true =>
              have hsome := not_and.mp hpresent hrequired
              rw [Bool.not_eq_true] at hsome
              rw [Bool.not_true, Bool.false_or, ← Option.not_isNone, hsome]
              rfl
          split
          · rename_i hthrottled
            have hskipped : SkippedNow w i c count s.failover := ⟨hthrottled.2, .inr hthrottled.1⟩
            exact .inr (.inr ⟨fun h => h.2 hskipped, haborts, _, rfl, rfl, rfl⟩)
          · rename_i hfree
            refine .inl ⟨husable, fun hskipped => ?_, _, rfl, rfl⟩
            rcases hskipped.2 with hcool | hthrottled
            · exact hcooling ⟨hskipped.1, hcool⟩
            · exact hfree ⟨hthrottled, hskipped.1⟩

theorem tryCandidate_sent (s : LoopState ε) :
    s.sent.length ≤ (tryCandidate w original count i c s).2.sent.length ∧
      (tryCandidate w original count i c s).2.sent.length ≤ s.sent.length + w.rounds := by
  rcases tryCandidate_cases w i c original count s with ⟨-, -, s', h, hs'⟩ | ⟨-, -, e, s', h, hs'⟩ |
    ⟨-, -, s', h, hs', -⟩
  · have hsent := attemptCandidate_sent w i c s'
    rw [hs'] at hsent
    rw [h]
    exact ⟨hsent.1, hsent.2.1⟩
  · rw [h, hs']
    omega
  · rw [h, hs']
    omega

theorem runCandidates_sent (rest : List Candidate) (s : LoopState ε) :
    s.sent.length ≤ (runCandidates w original count i rest s).2.sent.length ∧
      (runCandidates w original count i rest s).2.sent.length ≤
        s.sent.length + rest.length * w.rounds := by
  induction rest generalizing i s with
  | nil => exact ⟨le_refl _, by simp [runCandidates]⟩
  | cons c rest ih =>
    have hone := tryCandidate_sent w i c original count s
    unfold runCandidates
    rw [List.length_cons, Nat.succ_mul]
    split
    · rename_i exit s' h
      rw [h] at hone
      dsimp only at hone ⊢
      omega
    · rename_i s' h
      rw [h] at hone
      have hrest := ih (i + 1) s'
      dsimp only at hone
      omega

/-- What the first candidate sent stays in the log. -/
theorem runCandidates_first (rest : List Candidate) (s : LoopState ε) :
    (tryCandidate w original count i c s).2.sent.length ≤
      (runCandidates w original count i (c :: rest) s).2.sent.length := by
  unfold runCandidates
  split
  · rename_i exit s' h
    rw [h]
  · rename_i s' h
    rw [h]
    exact (runCandidates_sent w (i + 1) original count rest s').1

end Sent

/-! ## Before the first request -/

section Untried
variable {ε ρ : Type} {w : World ε ρ} {failover s : FailoverState} {candidates : List Candidate}
  {i : ℕ} {c : Candidate}

/-- The first `i` checks have removed entries that were expired at them, and nothing else happened. -/
structure Untried (w : World ε ρ) (failover : FailoverState) (candidates : List Candidate) (i : ℕ)
    (s : FailoverState) : Prop where
  cooldowns : ∀ k entry, s.cooldowns.get? k = some (k, entry) ↔
    failover.cooldowns.get? k = some (k, entry) ∧ ∀ j c', j < i → candidates[j]? = some c' →
      c'.key = k → w.cooldownClock j < entry.untilTime
  attempts : s.lastAttempts = failover.lastAttempts

theorem check_iff (s : FailoverState) : (check w i c s).2 = true ↔
    ∃ entry, s.cooldowns.get? c.key = some (c.key, entry) ∧ w.cooldownClock i < entry.untilTime := by
  unfold check isCoolingDown Candidate.key
  cases hget : s.cooldowns.get? (getKey c.provider c.model) with
  | none => exact ⟨fun h => (nomatch h), fun ⟨_, h, _⟩ => (nomatch h)⟩
  | some row =>
    obtain ⟨k, entry⟩ := row
    obtain rfl : k = getKey c.provider c.model := Table.key_of_get? hget
    dsimp only
    constructor
    · intro h
      split at h
      · rename_i hactive
        exact ⟨entry, rfl, hactive⟩
      · cases h
    · rintro ⟨entry', hentry, hactive⟩
      cases hentry
      rw [if_pos hactive]

theorem check_attempts (s : FailoverState) : (check w i c s).1.lastAttempts = s.lastAttempts := by
  unfold check isCoolingDown
  split
  · rfl
  · split <;> rfl

/-- The check leaves the entries of other keys, and its own one while it is active. -/
theorem check_cooldowns (s : FailoverState) (k : PyStr) (entry : CooldownEntry) :
    (check w i c s).1.cooldowns.get? k = some (k, entry) ↔
      s.cooldowns.get? k = some (k, entry) ∧ (c.key = k → w.cooldownClock i < entry.untilTime) := by
  unfold check isCoolingDown Candidate.key
  cases hget : s.cooldowns.get? (getKey c.provider c.model) with
  | none =>
    refine ⟨fun h => ⟨h, ?_⟩, fun h => h.1⟩
    rintro rfl
    rw [hget] at h
    cases h
  | some row =>
    obtain ⟨own, entry'⟩ := row
    dsimp only
    split
    · rename_i hactive
      refine ⟨fun h => ⟨h, ?_⟩, fun h => h.1⟩
      rintro rfl
      rw [hget] at h
      cases h
      exact hactive
    · rename_i hexpired
      rw [Table.get?_drop]
      split
      · rename_i heq
        constructor
        · intro h
          cases h
        rintro ⟨h, hactive⟩
        rw [← heq, hget] at h
        cases h
        exact absurd (hactive heq) hexpired
      · rename_i hne
        exact ⟨fun h => ⟨h, fun heq => absurd heq hne⟩, fun h => h.1⟩

theorem Untried.check (h : Untried w failover candidates i s) (hc : candidates[i]? = some c) :
    Untried w failover candidates (i + 1) (check w i c s).1 := by
  refine ⟨fun k entry => ?_, (check_attempts s).trans h.attempts⟩
  rw [check_cooldowns, h.cooldowns]
  constructor
  · rintro ⟨⟨hget, hactive⟩, hown⟩
    refine ⟨hget, fun j c' hj hc' hkey => ?_⟩
    rcases Nat.lt_succ_iff_lt_or_eq.mp hj with hj | rfl
    · exact hactive j c' hj hc' hkey
    · rw [hc] at hc'
      cases hc'
      exact hown hkey
  · rintro ⟨hget, hactive⟩
    exact ⟨⟨hget, fun j c' hj => hactive j c' (by omega)⟩, hactive i c (by omega) hc⟩

theorem Untried.cooling_iff (h : Untried w failover candidates i s) (hc : candidates[i]? = some c) :
    (OpenClaw.Llm.check w i c s).2 = true ↔ CoolingAt w failover candidates i c := by
  rw [check_iff]
  constructor
  · rintro ⟨entry, hget, hactive⟩
    obtain ⟨hget, hearlier⟩ := (h.cooldowns _ _).mp hget
    refine ⟨entry, hget, fun j c' hj hc' hkey => ?_⟩
    rcases Nat.lt_or_eq_of_le hj with hj | rfl
    · exact hearlier j c' hj hc' hkey
    · exact hactive
  · rintro ⟨entry, hget, hactive⟩
    have hearlier := (h.cooldowns c.key entry).mpr ⟨hget, fun j c' hj => hactive j c' (by omega)⟩
    exact ⟨entry, hearlier, hactive i c (le_refl i) hc rfl⟩

theorem Untried.skipped_iff (h : Untried w failover candidates i s) (hc : candidates[i]? = some c) :
    SkippedNow w i c candidates.length s ↔ SkippedAt w failover candidates i c := by
  unfold SkippedNow SkippedAt canAttemptNow
  rw [h.cooling_iff hc, check_attempts, h.attempts]

theorem Untried.aborts_iff (h : Untried w failover candidates i s) (hc : candidates[i]? = some c) :
    AbortsNow w i c candidates.length s ↔ AbortsAt w failover candidates i c := by
  unfold AbortsNow AbortsAt
  rw [h.cooling_iff hc]

/-- From the `i`-th candidate on, a request is sent exactly when one of the rest is reached. -/
theorem runCandidates_reaches (original : LLMClient) (hrounds : 0 < w.rounds)
    {rest : List Candidate} {l : LoopState ε} (hrest : candidates.drop i = rest)
    (huntried : Untried w failover candidates i l.failover) (hsent : l.sent = []) :
    (runCandidates w original candidates.length i rest l).2.sent ≠ [] ↔
      ∃ k c, i ≤ k ∧ candidates[k]? = some c ∧ usable w c = true ∧
        ¬ SkippedAt w failover candidates k c ∧ ∀ j c', i ≤ j → j < k → candidates[j]? = some c' →
          ¬ AbortsAt w failover candidates j c' := by
  induction rest generalizing i l with
  | nil =>
    have hlength : candidates.length ≤ i := List.drop_eq_nil_iff.mp hrest
    refine ⟨fun h => absurd hsent h, fun ⟨k, c, hk, hc, _⟩ => ?_⟩
    rw [List.getElem?_eq_none (by omega)] at hc
    cases hc
  | cons c rest ih =>
    have hc : candidates[i]? = some c := by
      have hhead : (candidates.drop i)[0]? = candidates[i]? := List.getElem?_drop
      rw [hrest] at hhead
      exact hhead.symm
    have htail : candidates.drop (i + 1) = rest := by
      rw [← List.drop_drop, hrest]
      rfl
    rcases tryCandidate_cases w i c original candidates.length l with
      ⟨husable, hopen, s', h, hs'⟩ | ⟨hunusable, haborts, e, s', h, hs'⟩ |
      ⟨hpassed, hquiet, s', h, hs', hfailover⟩
    · -- a request is sent here, and it stays in the log
      rw [huntried.skipped_iff hc] at hopen
      refine ⟨fun _ => ⟨i, c, le_refl i, hc, husable, hopen, fun j c' hj hji => ?_⟩, fun _ => ?_⟩
      · omega
      · have hgrows := (attemptCandidate_sent w i c s').2.2 hrounds
        have hkeeps := runCandidates_first w i c original candidates.length rest l
        rw [h] at hkeeps
        exact List.ne_nil_of_length_pos (by omega)
    · -- the key lookup raises
      rw [huntried.aborts_iff hc] at haborts
      have hnone : (runCandidates w original candidates.length i (c :: rest) l).2.sent = [] := by
        unfold runCandidates
        rw [h]
        exact hs'.trans hsent
      refine ⟨fun hne => absurd hnone hne, fun ⟨k, c', hk, hc', husable, _, hquiet⟩ => ?_⟩
      rcases Nat.lt_or_eq_of_le hk with hk | rfl
      · exact absurd haborts (hquiet i c (le_refl i) hk hc)
      · rw [hc] at hc'
        cases hc'
        exact absurd (hunusable.symm.trans husable) Bool.false_ne_true
    · rw [huntried.skipped_iff hc] at hpassed
      rw [huntried.aborts_iff hc] at hquiet
      have hnext : runCandidates w original candidates.length i (c :: rest) l =
          runCandidates w original candidates.length (i + 1) rest s' := by
        rw [runCandidates, h]
      rw [hnext, ih htail (hfailover ▸ huntried.check hc) (hs'.trans hsent)]
      constructor
      · rintro ⟨k, c', hk, hc', husable, hopen, hothers⟩
        refine ⟨k, c', by omega, hc', husable, hopen, fun j d hj hjk hd => ?_⟩
        rcases Nat.lt_or_eq_of_le hj with hj | rfl
        · exact hothers j d hj hjk hd
        · rw [hc] at hd
          cases hd
          exact hquiet
      · rintro ⟨k, c', hk, hc', husable, hopen, hothers⟩
        rcases Nat.lt_or_eq_of_le hk with hk | rfl
        · exact ⟨k, c', hk, hc', husable, hopen, fun j d hj => hothers j d (by omega)⟩
        · rw [hc] at hc'
          cases hc'
          exact absurd ⟨husable, hopen⟩ hpassed

end Untried

/-! ## The whole call -/

section Call
variable {ε ρ : Type} (w : World ε ρ) (client : LLMClient) (failover : FailoverState)
  (candidates : List Candidate)

/-- A usable candidate leads to a request, the requests are bounded and the client is as before. -/
structure MeetsContract : Prop where
  reaches : (∃ c ∈ candidates, usable w c = true) →
    (executeFailoverCandidates w client failover candidates).sent ≠ []
  bounded : (executeFailoverCandidates w client failover candidates).sent.length ≤
    candidates.length * w.rounds
  restored : (executeFailoverCandidates w client failover candidates).client = client

theorem meets_contract_iff : MeetsContract w client failover candidates ↔
    ((∃ c ∈ candidates, usable w c = true) → Reached w failover candidates) := by
  have hsent := runCandidates_sent w 0 client candidates.length candidates
    { client, failover }
  have hreached : (executeFailoverCandidates w client failover candidates).sent ≠ [] ↔
      Reached w failover candidates := by
    by_cases hrounds : 0 < w.rounds
    · have huntried : Untried w failover candidates 0 failover :=
        ⟨fun k entry => ⟨fun h => ⟨h, fun j c' hj => absurd hj (by omega)⟩, fun h => h.1⟩, rfl⟩
      have hiff := runCandidates_reaches (l := { client, failover }) client hrounds rfl huntried rfl
      refine hiff.trans ?_
      unfold Reached
      simp [hrounds]
    · have hzero : w.rounds = 0 := by omega
      have hnone : (executeFailoverCandidates w client failover candidates).sent = [] := by
        rw [hzero, Nat.mul_zero] at hsent
        exact List.eq_nil_of_length_eq_zero (Nat.le_zero.mp hsent.2)
      exact ⟨fun h => absurd hnone h, fun h => absurd h.1 hrounds⟩
  constructor
  · exact fun h husable => hreached.mp (h.reaches husable)
  · refine fun h => ⟨fun husable => hreached.mpr (h husable), ?_, rfl⟩
    have hbound := hsent.2
    rw [List.length_nil, Nat.zero_add] at hbound
    exact hbound

/-! ### A last candidate without a key -/

def openaiInfo : ProviderInfo where
  baseUrl := PyStr.ofString "https://api.openai.com/v1"
  envKeyName := some (PyStr.ofString "OPENAI_API_KEY")

def anthropicInfo : ProviderInfo where
  baseUrl := PyStr.ofString "https://api.anthropic.com"
  envKeyName := some (PyStr.ofString "ANTHROPIC_API_KEY")

/-- Only the first provider has a key; every request would succeed. -/
def oneKey : World Unit String where
  maxRetries := 3
  providerInfo provider :=
    if provider = PyStr.ofString "openai" then some openaiInfo
    else if provider = PyStr.ofString "anthropic" then some anthropicInfo
    else none
  outboundAllowed _ _ := false
  apiKey provider :=
    .ok (if provider = PyStr.ofString "openai" then some (PyStr.ofString "sk-1") else none)
  cooldownClock _ := 1000
  throttleClock _ := 1000
  attemptClock _ := 1000
  failureClock _ _ := (1000, 1000)
  sleep _ _ := none
  respond _ _ _ := .ok "done"

def openaiClient : LLMClient where
  provider := PyStr.ofString "openai"
  model := PyStr.ofString "gpt-4o"
  baseUrl := some openaiInfo.baseUrl
  apiKey := some (PyStr.ofString "sk-1")
  providerInfo := some openaiInfo

def openaiCooling : FailoverState :=
  FailoverState.setCooldown 900 (PyStr.ofString "openai") (some (PyStr.ofString "gpt-4o"))
    ⟨.rateLimit, none, "provider_rate_limited", "provider_cooldown"⟩ 300 {}

def twoProviders : List Candidate :=
  [⟨PyStr.ofString "openai", some (PyStr.ofString "gpt-4o"), some openaiInfo.baseUrl⟩,
    ⟨PyStr.ofString "anthropic", some (PyStr.ofString "gpt-4o"), some anthropicInfo.baseUrl⟩]

theorem cooling_not_attempted :
    ¬ MeetsContract oneKey openaiClient openaiCooling twoProviders := by
  intro h
  have hnone : (executeFailoverCandidates oneKey openaiClient openaiCooling twoProviders).sent = [] := by
    decide +kernel
  apply h.reaches ?_ hnone
  exact ⟨_, List.mem_cons_self, by decide +kernel⟩

end Call

end OpenClaw.Llm
