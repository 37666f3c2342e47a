import Mathlib.Algebra.Order.Floor.Ring
import Mathlib.Data.Rat.Floor
import OpenClaw.Foundation.HttpDate

/-!
# Retry hints of a provider

`services/retry_after.py`: the wait that a provider asks for, from three headers and three places of
a JSON error body. The readings of the clock are inputs. `ValueError` and `TypeError` are caught
where a hint is converted; an `OverflowError` is not.
-/

namespace OpenClaw.Retry

open Foundation
set_option autoImplicit false

def minRetryAfterSeconds : ℤ := 1
def maxRetryAfterSeconds : ℤ := 3600
def defaultRetryAfterSeconds : ℤ := 60

/-- `_clamp_retry_after`. -/
def clampRetryAfter (seconds : ℤ) : ℤ := max minRetryAfterSeconds (min seconds maxRetryAfterSeconds)

/-- A float: `json.loads` reads infinities and what is not a number, too. -/
inductive PyFloat where
  | nan
  | infinite (negative : Bool)
  | finite (x : ℚ)
  deriving DecidableEq

/-- The exception that escapes. -/
inductive Escaped where
  | overflow
  deriving DecidableEq

/-- What a place gives: a hint, nothing, or an exception that nobody catches. -/
abbrev Hint := Except Escaped (Option ℤ)

/-- The next place is asked when there is no hint. -/
def Hint.orElse' (h : Hint) (next : Hint) : Hint :=
  match h with
  | .ok none => next
  | h => h

/-! ## Headers -/

abbrev Headers := List (CodePoints × CodePoints)

/-- `headers_lower.get(name)`, without an empty value. -/
def Headers.value? (headers : Headers) (name : String) : Option CodePoints :=
  ((headers.reverse.find? fun h => CodePoints.lower h.1 = CodePoints.ofString name).map
    Prod.snd).filter (· ≠ [])

/-- `int(x)`: toward zero. -/
def truncate (x : ℚ) : ℤ := if 0 ≤ x then ⌊x⌋ else ⌈x⌉

/-- The standard header as a date; a date without a zone cannot be compared with the clock. -/
def dateHint (text : CodePoints) (now : ℚ) : Hint :=
  match HttpDate.parsedateToDatetime text with
  | .error .overflow => .error .overflow
  | .error .value => .ok none
  | .ok date =>
    match date.offset with
    | none => .ok none
    | some offset =>
      let deltaSeconds := truncate (date.epoch offset - now)
      .ok (if 0 < deltaSeconds then some (clampRetryAfter deltaSeconds) else none)

def retryAfterHint (headers : Headers) (now : ℚ) : Hint :=
  match headers.value? "retry-after" with
  | none => .ok none
  | some text =>
    match CodePoints.int? text with
    | some seconds => .ok (some (clampRetryAfter seconds))
    | none => dateHint text now

def resetAfterHint (headers : Headers) : Option ℤ :=
  ((headers.value? "x-ratelimit-reset-after").bind CodePoints.int?).map clampRetryAfter

def resetHint (headers : Headers) (now : ℚ) : Option ℤ :=
  ((headers.value? "x-ratelimit-reset").bind CodePoints.int?).bind fun reset =>
    let deltaSeconds := reset - truncate now
    if 0 < deltaSeconds then some (clampRetryAfter deltaSeconds) else none

/-- The readings of the clock for a date and for a reset time. -/
structure Now where
  date : ℚ
  reset : ℚ

/-- The two headers that are asked after the standard one. -/
def resetHeaders (headers : Headers) (now : Now) : Option ℤ :=
  (resetAfterHint headers).orElse fun _ => resetHint headers now.reset

def parseRetryAfterHeader (headers : Headers) (now : Now) : Hint :=
  (retryAfterHint headers now.date).orElse' (.ok (resetHeaders headers now))

/-! ## The body -/

/-- `int(value)`: `none` is a `ValueError` or a `TypeError`. -/
def intOf : Json PyFloat → Hint
  | .null => .ok none
  | .bool b => .ok (some (if b then 1 else 0))
  | .int i => .ok (some i)
  | .float .nan => .ok none
  | .float (.infinite _) => .error .overflow
  | .float (.finite x) => .ok (some (truncate x))
  | .str s => .ok (s.chars?.bind PyText.int?)
  | .arr _ => .ok none
  | .obj _ => .ok none

/-- `body.get(key)`; nothing for a value that is no dictionary. -/
def fieldOf (body : Json PyFloat) (key : String) : Option (Json PyFloat) :=
  match body with
  | .obj fields => (fields.find? fun f => f.1 = PyStr.ofString key).map Prod.snd
  | _ => none

/-- The hint of a field, as `convert` makes it from the number. -/
def fieldHint (value : Option (Json PyFloat)) (convert : ℤ → ℤ) : Hint :=
  match value with
  | none => .ok none
  | some value => (intOf value).map fun seconds => seconds.map (clampRetryAfter ∘ convert)

/-- An empty body, or one that is no dictionary, has none of the fields. -/
def parseRetryAfterBody (body : Json PyFloat) : Hint :=
  (fieldHint (fieldOf body "retry_after") id).orElse'
    ((fieldHint (fieldOf body "retry_after_ms") (· / 1000)).orElse'
      (fieldHint ((fieldOf body "error").bind fun error => fieldOf error "retry_after") id))

def getRetryAfterSeconds (headers : Headers) (body : Json PyFloat) (default : ℤ) (now : Now) :
    Except Escaped ℤ :=
  (((parseRetryAfterHeader headers now).orElse' (parseRetryAfterBody body))).map fun hint =>
    hint.getD (clampRetryAfter default)

/-! ## The law -/

/-- The header is a number of seconds as the standard writes it. -/
def DeltaSeconds (headers : Headers) (digits : List Char) : Prop :=
  headers.value? "retry-after" = some (CodePoints.ofChars digits) ∧ digits ≠ [] ∧
    ∀ c ∈ digits, c.isDigit = true

def secondsOf (digits : List Char) : ℕ := Nat.ofDigitChars 10 digits 0

/-- There is an answer within the bounds, and a number of seconds in the header decides it whatever
the body says. -/
structure RetryAfterLaw (headers : Headers) (body : Json PyFloat) (default : ℤ) (now : Now) :
    Prop where
  bounded : ∃ seconds, getRetryAfterSeconds headers body default now = .ok seconds ∧
    1 ≤ seconds ∧ seconds ≤ 3600
  precedence : ∀ digits, DeltaSeconds headers digits → ∀ other,
    getRetryAfterSeconds headers other default now = .ok (clampRetryAfter (secondsOf digits))

/-- The standard header is no date whose numbers do not fit. -/
def DateFits (headers : Headers) : Prop :=
  ∀ text, headers.value? "retry-after" = some text → CodePoints.int? text = none →
    ∀ p, HttpDate.parsedateTz text = some p → p.Fits

/-- The wait that the other two headers ask for. -/
def ResetAsked (headers : Headers) (now : Now) (seconds : ℤ) : Prop :=
  (headers.value? "x-ratelimit-reset-after").bind CodePoints.int? = some seconds ∨
    (headers.value? "x-ratelimit-reset-after").bind CodePoints.int? = none ∧ 0 < seconds ∧
      (headers.value? "x-ratelimit-reset").bind CodePoints.int? = some (seconds + truncate now.reset)

/-- The standard header is neither a number nor a date to come, and the other two ask for nothing. -/
structure Silent (headers : Headers) (now : Now) : Prop where
  standard : ∀ text, headers.value? "retry-after" = some text → CodePoints.int? text = none ∧
    ∀ date offset, HttpDate.parsedateToDatetime text = .ok date → date.offset = some offset →
      truncate (date.epoch offset - now.date) ≤ 0
  reset : ∀ seconds, ¬ ResetAsked headers now seconds

/-- `int` reads no number there. -/
def NoNumber (value : Option (Json PyFloat)) : Prop := ∀ v, value = some v → intOf v = .ok none

def Infinite (value : Option (Json PyFloat)) : Prop :=
  ∃ negative, value = some (.float (.infinite negative))

/-- No infinite number stands where the body is asked. -/
structure BodyFits (body : Json PyFloat) : Prop where
  seconds : ¬ Infinite (fieldOf body "retry_after")
  milliseconds : NoNumber (fieldOf body "retry_after") → ¬ Infinite (fieldOf body "retry_after_ms")
  nested : NoNumber (fieldOf body "retry_after") → NoNumber (fieldOf body "retry_after_ms") →
    ¬ Infinite ((fieldOf body "error").bind fun error => fieldOf error "retry_after")

/-- The header's date fits, so does the body where no header asks for a wait, and a number of seconds
is not too long for `int`, or the other headers ask for the same. -/
structure Fits (headers : Headers) (body : Json PyFloat) (now : Now) : Prop where
  date : DateFits headers
  body : Silent headers now → BodyFits body
  digits : ∀ digits, DeltaSeconds headers digits → PyText.maxStrDigits < digits.length →
    ∃ seconds, ResetAsked headers now seconds ∧
      clampRetryAfter seconds = clampRetryAfter (secondsOf digits)

theorem clamp_bounds (seconds : ℤ) :
    1 ≤ clampRetryAfter seconds ∧ clampRetryAfter seconds ≤ 3600 := by
  unfold clampRetryAfter minRetryAfterSeconds maxRetryAfterSeconds
  omega

namespace Hint
variable {h next : Hint}

theorem orElse'_error_iff {e : Escaped} :
    h.orElse' next = .error e ↔ h = .error e ∨ h = .ok none ∧ next = .error e := by
  rcases h with e' | _ | n
  · simp [orElse']
  · simp [orElse']
  · simp [orElse']

/-- Every number it may give is a clamped one. -/
def Clamped (h : Hint) : Prop := ∀ n, h = .ok (some n) → ∃ m, n = clampRetryAfter m

theorem Clamped.orElse' (hh : h.Clamped) (hnext : next.Clamped) : (h.orElse' next).Clamped := by
  rcases h with e | _ | n
  · exact hh
  · exact hnext
  · exact hh

end Hint

section Law
variable {headers : Headers} {body : Json PyFloat} {default : ℤ} {now : Now}

theorem dateHint_clamped (text : CodePoints) (t : ℚ) : (dateHint text t).Clamped := by
  intro n hn
  unfold dateHint at hn
  split at hn
  · cases hn
  · cases hn
  · split at hn
    · cases hn
    · dsimp only at hn
      split at hn
      · cases hn
        exact ⟨_, rfl⟩
      · cases hn

theorem retryAfterHint_clamped (headers : Headers) (t : ℚ) : (retryAfterHint headers t).Clamped := by
  intro n hn
  unfold retryAfterHint at hn
  split at hn
  · cases hn
  · split at hn
    · cases hn
      exact ⟨_, rfl⟩
    · exact dateHint_clamped _ _ n hn

theorem resetHeaders_eq_some_iff {n : ℤ} :
    resetHeaders headers now = some n ↔
      ∃ seconds, ResetAsked headers now seconds ∧ clampRetryAfter seconds = n := by
  unfold resetHeaders resetAfterHint resetHint ResetAsked
  cases (headers.value? "x-ratelimit-reset-after").bind CodePoints.int? with
  | some seconds => simp
  | none =>
    cases (headers.value? "x-ratelimit-reset").bind CodePoints.int? with
    | none => simp
    | some reset =>
      simp only [Option.map_none, Option.orElse_none, Option.bind_some, reduceCtorEq, true_and,
        false_or, Option.some.injEq]
      constructor
      · intro h
        split at h
        · rename_i hpos
          exact ⟨reset - truncate now.reset, ⟨hpos, by ring⟩, Option.some.inj h⟩
        · cases h
      · rintro ⟨seconds, ⟨hpos, rfl⟩, rfl⟩
        rw [add_sub_cancel_right, if_pos hpos]

theorem resetHeaders_eq_none_iff :
    resetHeaders headers now = none ↔ ∀ seconds, ¬ ResetAsked headers now seconds := by
  rw [Option.eq_none_iff_forall_ne_some]
  constructor
  · intro h seconds hasked
    exact h _ (resetHeaders_eq_some_iff.mpr ⟨seconds, hasked, rfl⟩)
  · intro h n hn
    obtain ⟨seconds, hasked, -⟩ := resetHeaders_eq_some_iff.mp hn
    exact h seconds hasked

theorem resetHeaders_clamped (headers : Headers) (now : Now) :
    Hint.Clamped (.ok (resetHeaders headers now)) := by
  intro n hn
  obtain ⟨seconds, -, rfl⟩ := resetHeaders_eq_some_iff.mp (Except.ok.inj hn)
  exact ⟨seconds, rfl⟩

theorem fieldHint_clamped (value : Option (Json PyFloat)) (convert : ℤ → ℤ) :
    (fieldHint value convert).Clamped := by
  intro n hn
  unfold fieldHint at hn
  split at hn
  · cases hn
  · rename_i value
    cases hint : intOf value with
    | error e =>
      rw [hint] at hn
      cases hn
    | ok seconds =>
      rw [hint] at hn
      obtain ⟨m, -, rfl⟩ := Option.map_eq_some_iff.mp (Except.ok.inj hn)
      exact ⟨convert m, rfl⟩

theorem parseRetryAfterBody_clamped (body : Json PyFloat) : (parseRetryAfterBody body).Clamped :=
  (fieldHint_clamped _ _).orElse' ((fieldHint_clamped _ _).orElse' (fieldHint_clamped _ _))

theorem parseRetryAfterHeader_clamped (headers : Headers) (now : Now) :
    (parseRetryAfterHeader headers now).Clamped :=
  (retryAfterHint_clamped _ _).orElse' (resetHeaders_clamped _ _)

/-- An answer is within the bounds whenever there is one. -/
theorem bounded_iff : (∃ seconds, getRetryAfterSeconds headers body default now = .ok seconds ∧
    1 ≤ seconds ∧ seconds ≤ 3600) ↔
      ∀ e, (parseRetryAfterHeader headers now).orElse' (parseRetryAfterBody body) ≠ .error e := by
  have hclamped := (parseRetryAfterHeader_clamped headers now).orElse'
    (parseRetryAfterBody_clamped body)
  unfold getRetryAfterSeconds
  rcases hhint : (parseRetryAfterHeader headers now).orElse' (parseRetryAfterBody body) with
    e | _ | n
  · exact iff_of_false (fun ⟨_, h, _⟩ => by cases h) fun h => h e rfl
  · exact iff_of_true ⟨_, rfl, clamp_bounds default⟩ fun e h => by cases h
  · obtain ⟨m, rfl⟩ := hclamped n hhint
    exact iff_of_true ⟨_, rfl, clamp_bounds m⟩ fun e h => by cases h

/-! ### What escapes -/

theorem dateHint_error_iff {text : CodePoints} {t : ℚ} {e : Escaped} :
    dateHint text t = .error e ↔ ∃ p, HttpDate.parsedateTz text = some p ∧ ¬ p.Fits := by
  rw [← HttpDate.parsedateToDatetime_overflow_iff]
  cases e
  unfold dateHint
  rcases HttpDate.parsedateToDatetime text with e | date
  · cases e <;> simp
  · cases hoffset : date.offset <;> simp [hoffset]

theorem dateHint_none_iff {text : CodePoints} {t : ℚ}
    (h : ∀ p, HttpDate.parsedateTz text = some p → p.Fits) :
    dateHint text t = .ok none ↔ ∀ date offset, HttpDate.parsedateToDatetime text = .ok date →
      date.offset = some offset → truncate (date.epoch offset - t) ≤ 0 := by
  have hfits : HttpDate.parsedateToDatetime text ≠ .error .overflow := fun heq =>
    have ⟨p, hp, hnot⟩ := HttpDate.parsedateToDatetime_overflow_iff.mp heq
    hnot (h p hp)
  unfold dateHint
  rcases hdate : HttpDate.parsedateToDatetime text with e | date
  · cases e with
    | value => simp
    | overflow => exact absurd hdate hfits
  · cases hoffset : date.offset with
    | none =>
      refine iff_of_true (by simp [hoffset]) fun date' offset heq hsome => ?_
      cases heq
      rw [hoffset] at hsome
      cases hsome
    | some offset =>
      simp only [hoffset, Except.ok.injEq, ite_eq_right_iff, reduceCtorEq, imp_false, not_lt]
      constructor
      · intro hle date' offset' heq hsome
        cases heq
        rw [hoffset] at hsome
        cases hsome
        exact hle
      · intro hall
        exact hall date offset rfl hoffset

theorem header_escapes_iff :
    (∀ e, parseRetryAfterHeader headers now ≠ .error e) ↔ DateFits headers := by
  unfold parseRetryAfterHeader retryAfterHint DateFits
  cases hvalue : headers.value? "retry-after" with
  | none => simp [Hint.orElse'_error_iff]
  | some text =>
    cases hint : CodePoints.int? text with
    | some n => simp [hint, Hint.orElse'_error_iff]
    | none =>
      simp only [hint, ne_eq, Hint.orElse'_error_iff, dateHint_error_iff, reduceCtorEq, and_false,
        or_false, Option.some.injEq, forall_eq', forall_const, not_exists, not_and, not_not]
      exact ⟨fun h => h .overflow, fun h _ => h⟩

theorem parseRetryAfterHeader_none_iff (h : DateFits headers) :
    parseRetryAfterHeader headers now = .ok none ↔ Silent headers now := by
  have hboth : parseRetryAfterHeader headers now = .ok none ↔
      retryAfterHint headers now.date = .ok none ∧ resetHeaders headers now = none := by
    unfold parseRetryAfterHeader
    rcases retryAfterHint headers now.date with e | _ | n <;> simp [Hint.orElse']
  have hstandard : retryAfterHint headers now.date = .ok none ↔
      ∀ text, headers.value? "retry-after" = some text → CodePoints.int? text = none ∧
        ∀ date offset, HttpDate.parsedateToDatetime text = .ok date → date.offset = some offset →
          truncate (date.epoch offset - now.date) ≤ 0 := by
    unfold retryAfterHint
    cases hvalue : headers.value? "retry-after" with
    | none => simp
    | some text =>
      cases hint : CodePoints.int? text with
      | some n => simp [hint]
      | none => simp [hint, dateHint_none_iff (h text hvalue hint)]
  rw [hboth, hstandard, resetHeaders_eq_none_iff]
  exact ⟨fun ⟨hs, hr⟩ => ⟨hs, hr⟩, fun hsilent => ⟨hsilent.standard, hsilent.reset⟩⟩

theorem fieldHint_error_iff {value : Option (Json PyFloat)} {convert : ℤ → ℤ} {e : Escaped} :
    fieldHint value convert = .error e ↔ Infinite value := by
  unfold Infinite
  cases e
  rcases value with _ | j
  · simp [fieldHint]
  · cases j with
    | float x => cases x <;> simp [fieldHint, intOf, Except.map]
    | _ => simp [fieldHint, intOf, Except.map]

theorem fieldHint_none_iff {value : Option (Json PyFloat)} {convert : ℤ → ℤ} :
    fieldHint value convert = .ok none ↔ NoNumber value := by
  unfold NoNumber
  rcases value with _ | j
  · simp [fieldHint]
  · simp only [fieldHint, Option.some.injEq, forall_eq']
    rcases intOf j with e | _ | n <;> simp [Except.map]

theorem body_escapes_iff : (∀ e, parseRetryAfterBody body ≠ .error e) ↔ BodyFits body := by
  unfold parseRetryAfterBody
  simp only [ne_eq, Hint.orElse'_error_iff, fieldHint_error_iff, fieldHint_none_iff]
  constructor
  · intro h
    have hnone := h .overflow
    exact ⟨fun hs => hnone (.inl hs), fun hn hm => hnone (.inr ⟨hn, .inl hm⟩),
      fun hn hn' he => hnone (.inr ⟨hn, .inr ⟨hn', he⟩⟩)⟩
  · intro h _ hsome
    rcases hsome with hs | ⟨hn, hm | ⟨hn', he⟩⟩
    · exact h.seconds hs
    · exact h.milliseconds hn hm
    · exact h.nested hn hn' he

/-! ### A number of seconds -/

/-- `int` of plain digits. -/
theorem int?_digits {digits : List Char} (hne : digits ≠ [])
    (hdigits : ∀ c ∈ digits, c.isDigit = true) :
    CodePoints.int? (CodePoints.ofChars digits) =
      if PyText.maxStrDigits < digits.length then none else some (secondsOf digits : ℤ) := by
  have hstrip : PyText.strip digits = digits :=
    PyText.strip_eq_self fun c hc => PyText.isSpace_of_isDigit (hdigits c hc)
  have hvalue : (digits.map fun c => c.toNat - 48).foldl (fun m d => 10 * m + d) 0 =
      secondsOf digits := by
    rw [List.foldl_map]
    rfl
  have hnat : PyText.nat? digits =
      if PyText.maxStrDigits < digits.length then none else some (secondsOf digits) := by
    rw [PyText.nat?, PyText.digits?_of_isDigit hne hdigits, Option.bind_some, List.length_map, hvalue]
  rw [CodePoints.int?_ofChars, PyText.int?, hstrip]
  split
  · exact absurd (hdigits '+' List.mem_cons_self) (by decide)
  · exact absurd (hdigits '-' List.mem_cons_self) (by decide)
  · rw [hnat]
    split <;> rfl

/-- Digits are one word, so too many of them are no date either. -/
theorem dateHint_digits {digits : List Char} (hdigits : ∀ c ∈ digits, c.isDigit = true) (t : ℚ) :
    dateHint (CodePoints.ofChars digits) t = .ok none := by
  have hword : ∀ u ∈ CodePoints.ofChars digits, PyText.isSpaceCode u.val = false := by
    intro u hu
    obtain ⟨c, hc, rfl⟩ := List.mem_map.mp hu
    rw [CodePoints.val_ofChars]
    exact PyText.isSpace_of_isDigit (hdigits c hc)
  have hsplit : (HttpDate.splitSpace (CodePoints.ofChars digits)).length ≤ 1 := by
    unfold HttpDate.splitSpace
    refine (List.length_filter_le _ _).trans ?_
    rw [List.splitOnP_eq_singleton hword]
    simp
  rw [dateHint, HttpDate.parsedateToDatetime_word hsplit]

theorem getRetryAfterSeconds_short {digits : List Char} (h : DeltaSeconds headers digits)
    (hshort : digits.length ≤ PyText.maxStrDigits) (other : Json PyFloat) :
    getRetryAfterSeconds headers other default now = .ok (clampRetryAfter (secondsOf digits)) := by
  obtain ⟨hvalue, hne, hdigits⟩ := h
  have hhint : retryAfterHint headers now.date = .ok (some (clampRetryAfter (secondsOf digits))) := by
    rw [retryAfterHint, hvalue]
    simp only [int?_digits hne hdigits, if_neg (not_lt.mpr hshort)]
  rw [getRetryAfterSeconds, parseRetryAfterHeader, hhint]
  rfl

theorem parseRetryAfterHeader_long {digits : List Char} (h : DeltaSeconds headers digits)
    (hlong : PyText.maxStrDigits < digits.length) :
    parseRetryAfterHeader headers now = .ok (resetHeaders headers now) := by
  obtain ⟨hvalue, hne, hdigits⟩ := h
  have hhint : retryAfterHint headers now.date = .ok none := by
    rw [retryAfterHint, hvalue]
    simp only [int?_digits hne hdigits, if_pos hlong]
    exact dateHint_digits hdigits _
  rw [parseRetryAfterHeader, hhint]
  rfl

/-- A body that asks for a number of seconds within the bounds. -/
def bodyAsking (seconds : ℤ) : Json PyFloat := .obj [(PyStr.ofString "retry_after", .int seconds)]

theorem parseRetryAfterBody_asking (seconds : ℤ) :
    parseRetryAfterBody (bodyAsking seconds) = .ok (some (clampRetryAfter seconds)) := by
  have hfield : fieldOf (bodyAsking seconds) "retry_after" = some (.int seconds) := by
    simp [fieldOf, bodyAsking]
  rw [parseRetryAfterBody, hfield]
  rfl

/-- Too many digits decide only when the other headers happen to say the same. -/
theorem precedence_long_iff {digits : List Char} (h : DeltaSeconds headers digits)
    (hlong : PyText.maxStrDigits < digits.length) :
    (∀ other, getRetryAfterSeconds headers other default now =
      .ok (clampRetryAfter (secondsOf digits))) ↔
        ∃ seconds, ResetAsked headers now seconds ∧
          clampRetryAfter seconds = clampRetryAfter (secondsOf digits) := by
  rw [← resetHeaders_eq_some_iff]
  unfold getRetryAfterSeconds
  rw [parseRetryAfterHeader_long h hlong]
  cases hreset : resetHeaders headers now with
  | some n =>
    constructor
    · intro hall
      exact congrArg some (Except.ok.inj (hall .null))
    · intro heq _
      cases heq
      rfl
  | none =>
    refine iff_of_false (fun hall => ?_) (by simp)
    have hone := hall (bodyAsking 1)
    have htwo := hall (bodyAsking 2)
    simp only [Hint.orElse', parseRetryAfterBody_asking] at hone htwo
    have hsame : clampRetryAfter 1 = clampRetryAfter 2 := Except.ok.inj (hone.trans htwo.symm)
    exact absurd hsame (by decide)

end Law

/-- The hint is total, bounded and decided by a number of seconds in the header exactly when
everything it converts fits. -/
theorem retry_after_law_iff (headers : Headers) (body : Json PyFloat) (default : ℤ) (now : Now) :
    RetryAfterLaw headers body default now ↔ Fits headers body now := by
  have hescapes : (∀ e, (parseRetryAfterHeader headers now).orElse' (parseRetryAfterBody body) ≠
      .error e) ↔ DateFits headers ∧
        (Silent headers now → BodyFits body) := by
    constructor
    · intro h
      have hdate : DateFits headers :=
        header_escapes_iff.mp fun e he => h e (Hint.orElse'_error_iff.mpr (.inl he))
      refine ⟨hdate, fun hsilent => body_escapes_iff.mp fun e he => ?_⟩
      have hnone := (parseRetryAfterHeader_none_iff hdate).mpr hsilent
      exact h e (Hint.orElse'_error_iff.mpr (.inr ⟨hnone, he⟩))
    · intro ⟨hdate, hbody⟩ e he
      rcases Hint.orElse'_error_iff.mp he with herror | ⟨hnone, herror⟩
      · exact header_escapes_iff.mpr hdate e herror
      · have hsilent := (parseRetryAfterHeader_none_iff hdate).mp hnone
        exact body_escapes_iff.mpr (hbody hsilent) e herror
  constructor
  · intro h
    obtain ⟨hdate, hbody⟩ := hescapes.mp (bounded_iff.mp h.bounded)
    exact ⟨hdate, hbody, fun digits hdelta hlong =>
      (precedence_long_iff hdelta hlong).mp (h.precedence digits hdelta)⟩
  · intro h
    refine ⟨bounded_iff.mpr (hescapes.mpr ⟨h.date, h.body⟩), fun digits hdelta => ?_⟩
    by_cases hlong : PyText.maxStrDigits < digits.length
    · exact (precedence_long_iff hdelta hlong).mpr (h.digits digits hdelta hlong)
    · exact getRetryAfterSeconds_short hdelta (not_lt.mp hlong)

/-- A body that asks for an infinite wait escapes. -/
theorem infinite_wait_escapes :
    getRetryAfterSeconds [] (.obj [(PyStr.ofString "retry_after", .float (.infinite false))]) 60
        ⟨0, 0⟩ = .error .overflow ∧
      ¬ RetryAfterLaw [] (.obj [(PyStr.ofString "retry_after", .float (.infinite false))]) 60
        ⟨0, 0⟩ := by
  have hescaped : getRetryAfterSeconds []
      (.obj [(PyStr.ofString "retry_after", .float (.infinite false))]) 60 ⟨0, 0⟩ =
        .error .overflow := by
    decide +kernel
  refine ⟨hescaped, fun h => ?_⟩
  obtain ⟨seconds, hseconds, -⟩ := h.bounded
  rw [hescaped] at hseconds
  cases hseconds

end OpenClaw.Retry
