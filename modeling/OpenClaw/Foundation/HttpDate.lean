import Mathlib.Algebra.Order.Ring.Rat
import Mathlib.Data.Rat.Defs
import OpenClaw.Foundation.Literals

/-!
# Dates of internet messages

`parsedate_to_datetime` of `email.utils`: a date is split into its five parts, whose numbers are then
made a `datetime`. A date without the right parts, or with a number out of its range, is a
`ValueError`; a number that no machine integer holds is an `OverflowError`.
-/

namespace Foundation.HttpDate

open CodePoints
set_option autoImplicit false

def dayNames : List CodePoints := ["mon", "tue", "wed", "thu", "fri", "sat", "sun"].map ofString

def monthNames : List CodePoints :=
  ["jan", "feb", "mar", "apr", "may", "jun", "jul", "aug", "sep", "oct", "nov", "dec", "january",
    "february", "march", "april", "may", "june", "july", "august", "september", "october", "november",
    "december"].map ofString

def timezones : List (CodePoints × ℤ) :=
  [("UT", 0), ("UTC", 0), ("GMT", 0), ("Z", 0), ("AST", -400), ("ADT", -300), ("EST", -500),
    ("EDT", -400), ("CST", -600), ("CDT", -500), ("MST", -700), ("MDT", -600), ("PST", -800),
    ("PDT", -700)].map fun z => (ofString z.1, z.2)

def comma : CodePoint := 44
def hyphen : CodePoint := 45
def plus : CodePoint := 43
def period : CodePoint := 46
def colonPoint : CodePoint := 58

/-- `t.split()`. -/
def splitSpace (t : CodePoints) : List CodePoints :=
  (t.splitOnP fun c => PyText.isSpaceCode c.val).filter (· ≠ [])

/-- `str.upper` as far as the letters of zone names go: besides the small letters, the long s and its
ligatures with t. -/
def upperPoint (c : CodePoint) : CodePoints :=
  if c.val = 0x17f then ofString "S"
  else if c.val = 0xfb05 ∨ c.val = 0xfb06 then ofString "ST"
  else if 97 ≤ c.val ∧ c.val ≤ 122 then [c - 32] else [c]

def upper (t : CodePoints) : CodePoints := t.flatMap upperPoint

/-- What `_parsedate_tz` reads; `tz` is absent for a time that disclaims its zone. -/
structure Parsed where
  year : ℤ
  month : ℤ
  day : ℤ
  hour : ℤ
  minute : ℤ
  second : ℤ
  tz : Option ℤ

/-- Skip a day name, or what comes before the last comma of the first word. -/
def skipDayName : List CodePoints → List CodePoints
  | [] => []
  | first :: rest =>
    if first.getLast? = some comma ∨ first.lower ∈ dayNames then rest
    else (first.reverse.takeWhile (· ≠ comma)).reverse :: rest

/-- The deprecated form that joins day, month and year by hyphens. -/
def splitHyphens (data : List CodePoints) : List CodePoints :=
  match data with
  | [date, time, zone] =>
    match date.splitOn hyphen with
    | [day, month, year] => [day, month, year, time, zone]
    | _ => data
  | _ => data

/-- `s[:i], s[i:]` at the first mark. -/
def cut? (mark : CodePoint) (s : CodePoints) : Option (CodePoints × CodePoints) :=
  if mark ∈ s then some (s.takeWhile (· ≠ mark), s.dropWhile (· ≠ mark)) else none

/-- A zone that is written onto the time, or no zone. -/
def splitZone (data : List CodePoints) : List CodePoints :=
  match data with
  | [day, month, year, time] =>
    match (cut? plus time).orElse fun _ => cut? hyphen time with
    | some (clock, zone) =>
      if clock ≠ [] then [day, month, year, clock, zone] else [day, month, year, time, []]
    | none => [day, month, year, time, []]
  | _ => data

def dropComma (t : CodePoints) : CodePoints := if t.getLast? = some comma then t.dropLast else t

/-- The month's number and the day, which may be written in either order. -/
def monthAndDay? (day month : CodePoints) : Option (ℤ × CodePoints) :=
  let number (name : CodePoints) : ℤ :=
    let i := monthNames.idxOf name + 1
    if 12 < i then i - 12 else i
  if month.lower ∈ monthNames then some (number month.lower, day)
  else if day.lower ∈ monthNames then some (number day.lower, month.lower)
  else none

/-- Hour, minute and second. -/
def clockParts? (time : CodePoints) : Option (CodePoints × CodePoints × CodePoints) :=
  match time.splitOn colonPoint with
  | [hour, minute] => some (hour, minute, ofString "0")
  | [hour, minute, second] => some (hour, minute, second)
  | [whole] =>
    match whole.splitOn period with
    | [hour, minute] => some (hour, minute, ofString "0")
    | [hour, minute, second] => some (hour, minute, second)
    | _ => none
  | _ => none

def fullYear (year : ℤ) : ℤ :=
  if year < 100 then if 68 < year then year + 1900 else year + 2000 else year

/-- The offset of a zone in seconds. -/
def zoneOffset (zone : CodePoints) : Option ℤ :=
  let name := upper zone
  let written : Option ℤ :=
    match timezones.find? fun z => z.1 = name with
    | some z => some z.2
    | none => (int? name).filter fun offset => ¬ (offset = 0 ∧ name.head? = some hyphen)
  written.map fun offset => offset.sign * (offset.natAbs / 100 * 3600 + offset.natAbs % 100 * 60 : ℕ)

/-- `_parsedate_tz` from its five parts on. -/
def parseParts (day month year time zone : CodePoints) : Option Parsed :=
  if day = [] ∨ month = [] ∨ year = [] then none
  else
    (monthAndDay? day month).bind fun (monthNumber, day) =>
      let day := dropComma day
      let swapped := colonPoint ∈ year ∧ year.head? ≠ some colonPoint
      let time' := if swapped then year else time
      let year := dropComma (if swapped then time else year)
      if year = [] then none
      else
        let dated := isDigit (year.take 1)
        let zone' := if dated then zone else year
        let year := if dated then year else zone
        (clockParts? (dropComma time')).bind fun (hour, minute, second) =>
          (int? year).bind fun year => (int? day).bind fun day => (int? hour).bind fun hour =>
            (int? minute).bind fun minute => (int? second).map fun second =>
              { year := fullYear year, month := monthNumber, day, hour, minute, second,
                tz := zoneOffset zone' }

/-- `_parsedate_tz`. -/
def parsedateTz (data : CodePoints) : Option Parsed :=
  match splitZone (splitHyphens (skipDayName (splitSpace data))) with
  | day :: month :: year :: time :: zone :: _ => parseParts day month year time zone
  | _ => none

/-! ## The calendar -/

inductive DateError where
  | value | overflow
  deriving DecidableEq

structure DateTime where
  year : ℤ
  month : ℤ
  day : ℤ
  hour : ℤ
  minute : ℤ
  second : ℤ
  offset : Option ℤ

def isLeap (year : ℤ) : Bool := year % 4 = 0 ∧ (year % 100 ≠ 0 ∨ year % 400 = 0)

def daysInMonth (year month : ℤ) : ℤ :=
  if month = 2 then if isLeap year then 29 else 28
  else if month ∈ [4, 6, 9, 11] then 30 else 31

def daysBeforeMonth (year month : ℤ) : ℤ :=
  ((List.range (month - 1).toNat).map fun m : ℕ => daysInMonth year (m + 1)).sum

/-- Days since the first of January of the year one, which is day one. -/
def toOrdinal (year month day : ℤ) : ℤ :=
  (year - 1) * 365 + (year - 1) / 4 - (year - 1) / 100 + (year - 1) / 400 +
    daysBeforeMonth year month + day

/-- Seconds since the epoch at the given offset. -/
def DateTime.epoch (d : DateTime) (offset : ℤ) : ℤ :=
  (toOrdinal d.year d.month d.day - 719163) * 86400 + d.hour * 3600 + d.minute * 60 + d.second - offset

/-- A C integer holds the number. -/
def isCInt (n : ℤ) : Bool := -2147483648 ≤ n ∧ n ≤ 2147483647

/-- A `timedelta` holds that many seconds. -/
def isTimedelta (seconds : ℤ) : Bool :=
  -999999999 ≤ seconds / 86400 ∧ seconds / 86400 ≤ 999999999

/-- `timezone(timedelta(seconds=offset))`. -/
def checkOffset (offset : ℤ) : Except DateError Unit :=
  if ¬ isTimedelta offset then .error .overflow
  else if -86400 < offset ∧ offset < 86400 then .ok () else .error .value

/-- Machine integers hold the numbers of the date. -/
def Parsed.isCInts (p : Parsed) : Bool :=
  [p.year, p.month, p.day, p.hour, p.minute, p.second].all isCInt

/-- `datetime(...)`. -/
def makeDateTime (p : Parsed) : Except DateError DateTime :=
  if ¬ p.isCInts then .error .overflow
  else if (1 ≤ p.year ∧ p.year ≤ 9999) ∧ (1 ≤ p.month ∧ p.month ≤ 12) ∧
      (1 ≤ p.day ∧ p.day ≤ daysInMonth p.year p.month) ∧ (0 ≤ p.hour ∧ p.hour ≤ 23) ∧
      (0 ≤ p.minute ∧ p.minute ≤ 59) ∧ 0 ≤ p.second ∧ p.second ≤ 59 then
    .ok ⟨p.year, p.month, p.day, p.hour, p.minute, p.second, p.tz⟩
  else .error .value

def parsedateToDatetime (data : CodePoints) : Except DateError DateTime :=
  match parsedateTz data with
  | none => .error .value
  | some p =>
    match p.tz with
    | none => makeDateTime p
    | some offset => (checkOffset offset).bind fun _ => makeDateTime p

/-- Every number that is converted fits: the offset first, and the date's own when there is a zone of
that offset. -/
def Parsed.Fits (p : Parsed) : Prop :=
  (∀ offset, p.tz = some offset → isTimedelta offset) ∧
    ((∀ offset, p.tz = some offset → -86400 < offset ∧ offset < 86400) → p.isCInts)

theorem makeDateTime_overflow_iff {p : Parsed} :
    makeDateTime p = .error .overflow ↔ ¬ p.isCInts := by
  unfold makeDateTime
  by_cases h : p.isCInts
  · rw [if_neg (not_not.mpr h)]
    refine iff_of_false (fun heq => ?_) (not_not.mpr h)
    split at heq <;> cases heq
  · rw [if_pos h]
    exact iff_of_true rfl h

theorem parsedateToDatetime_overflow_iff {data : CodePoints} :
    parsedateToDatetime data = .error .overflow ↔ ∃ p, parsedateTz data = some p ∧ ¬ p.Fits := by
  unfold parsedateToDatetime
  cases hparsed : parsedateTz data with
  | none => exact iff_of_false (fun h => by cases h) fun ⟨_, h, _⟩ => by cases h
  | some p =>
    simp only [Option.some.injEq, exists_eq_left', Parsed.Fits]
    cases htz : p.tz with
    | none => simp [makeDateTime_overflow_iff]
    | some offset =>
      simp only [Option.some.injEq, forall_eq', checkOffset]
      by_cases hdelta : isTimedelta offset
      · by_cases hzone : -86400 < offset ∧ offset < 86400
        · simp [hdelta, hzone, Except.bind, makeDateTime_overflow_iff]
        · simp [hdelta, hzone, Except.bind]
      · simp [hdelta, Except.bind]

/-- A single word is no date. -/
theorem parsedateToDatetime_word {t : CodePoints} (h : (splitSpace t).length ≤ 1) :
    parsedateToDatetime t = .error .value := by
  have hskip : (skipDayName (splitSpace t)).length ≤ 1 := by
    cases hs : splitSpace t with
    | nil => simp [skipDayName]
    | cons first rest =>
      rw [hs, List.length_cons] at h
      rw [skipDayName]
      split
      · omega
      · rw [List.length_cons]
        omega
  have hparsed : parsedateTz t = none := by
    unfold parsedateTz
    match hd : skipDayName (splitSpace t) with
    | [] => rfl
    | [_] => rfl
    | _ :: _ :: rest =>
      rw [hd] at hskip
      simp at hskip
  rw [parsedateToDatetime, hparsed]

example : (parsedateToDatetime (ofString "Wed, 21 Oct 2025 07:28:00 GMT")).toOption.map
    (fun d => d.epoch 0) = some 1761031680 := by decide +kernel

end Foundation.HttpDate
