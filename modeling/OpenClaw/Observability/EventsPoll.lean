import OpenClaw.Observability.JobEvents

/-!
# Polling for job events

`events_poll_handler` of `api/events.py` with `normalize_cursor_limit` of
`services/management_query.py`, once the rate limit and the access check have let the request in.
Other threads emit events while the handler runs, so each of its reads finds its own store.
-/

namespace OpenClaw.Observability

open Foundation
set_option autoImplicit false

/-! ## The query -/

/-- The text of a query value, and the integer that `_parse_int` reads from it. -/
structure QueryValue where
  raw : String
  parsed : Option ℤ

structure PollQuery where
  since : Option QueryValue := none
  limit : Option QueryValue := none
  promptId : Option String := none

structure Warning where
  code : String
  field : String
  raw : String
  normalized : ℤ

structure PaginationMeta where
  limit : ℕ
  cursor : ℕ
  warnings : List Warning

def warn (code field : String) (value : Option QueryValue) (normalized : ℤ) : Warning :=
  ⟨code, field, (value.map QueryValue.raw).getD "", normalized⟩

/-- A value that is there but is no integer. -/
def malformed (value : Option QueryValue) : Bool := value.any fun v => v.parsed.isNone

def normalizeLimit (value : Option QueryValue) (defaultLimit maxLimit : ℕ) : ℕ × List Warning :=
  let limit : ℤ := (value.bind QueryValue.parsed).getD defaultLimit
  let invalid := if malformed value then
    [warn "R95_INVALID_LIMIT" "limit" value defaultLimit] else []
  if limit < 1 then (1, invalid ++ [warn "R95_LIMIT_BELOW_MIN" "limit" value 1])
  else if maxLimit < limit then
    (maxLimit, invalid ++ [warn "R95_LIMIT_CLAMPED" "limit" value maxLimit])
  else (limit.toNat, invalid)

/-- The cursor defaults to 0, which is also its least value. -/
def normalizeCursor (value : Option QueryValue) (cursorKey : String) : ℕ × List Warning :=
  let cursor : ℤ := (value.bind QueryValue.parsed).getD 0
  let invalid := if malformed value then
    [warn "R95_INVALID_CURSOR" cursorKey value 0] else []
  if cursor < 0 then (0, invalid ++ [warn "R95_CURSOR_BELOW_MIN" cursorKey value 0])
  else (cursor.toNat, invalid)

def normalizeCursorLimit (query : PollQuery) (defaultLimit maxLimit : ℕ) : PaginationMeta :=
  let limit := normalizeLimit query.limit defaultLimit maxLimit
  let cursor := normalizeCursor query.since "since"
  ⟨limit.1, cursor.1, limit.2 ++ cursor.2⟩

theorem normalizeLimit_pos (value : Option QueryValue) (defaultLimit : ℕ) {maxLimit : ℕ}
    (hmax : 0 < maxLimit) : 0 < (normalizeLimit value defaultLimit maxLimit).1 := by
  simp only [normalizeLimit]
  split
  · exact Nat.one_pos
  split
  · exact hmax
  · simp only [Int.pos_iff_toNat_pos.symm]
    omega

theorem normalizeCursor_parsed (raw cursorKey : String) (n : ℕ) :
    (normalizeCursor (some ⟨raw, some n⟩) cursorKey).1 = n := by
  have hn : ¬ (n : ℤ) < 0 := by omega
  simp [normalizeCursor, hn]

/-! ## The handler -/

inductive CursorStatus where
  | ok | futureCursorReset | staleCursorReset
  deriving DecidableEq

/-- The store and the clock at the reads of the handler: the latest number, the scan, and the scan
after a reset. -/
structure PollReads (φ : Type) where
  atStart : JobEventStore φ
  atScan : JobEventStore φ
  atRescan : JobEventStore φ
  now : ℚ
  nowRescan : ℚ

structure PollAnswer (φ : Type) where
  events : List (JobEvent φ)
  latestSeq : ℕ
  limit : ℕ
  sinceRequested : ℕ
  sinceEffective : ℕ
  nextSinceSeq : ℕ
  cursorStatus : CursorStatus
  warnings : List Warning
  snapshot : Bool
  truncated : Bool
  scan : Scan

def defaultLimit : ℕ := 50
def maxLimit : ℕ := 200

def scanCapFor (limit : ℕ) : ℕ := max (limit * 10) 500

section Handler
variable {φ : Type} (ttl : ℤ) (reads : PollReads φ) (query : PollQuery)

/-- The response after the last scan. -/
def respond (page : PaginationMeta) (latestSeq sinceEffective : ℕ) (cursorStatus : CursorStatus)
    (warnings : List Warning) (r : List (JobEvent φ) × Scan) : PollAnswer φ where
  events := r.1
  latestSeq
  limit := page.limit
  sinceRequested := page.cursor
  sinceEffective
  nextSinceSeq := (r.1.getLast?.map JobEvent.seq).getD sinceEffective
  cursorStatus
  warnings
  snapshot := decide (page.cursor = 0)
  truncated := r.2.truncated ||
    (r.1.getLast?.any fun evt => r.2.latestRetainedSeq.any fun seq => decide (evt.seq < seq))
  scan := r.2

def eventsPoll : PollAnswer φ :=
  let page := normalizeCursorLimit query defaultLimit maxLimit
  let latestSeq := reads.atStart.latestSeq
  let future := decide (latestSeq < page.cursor)
  let since := if future then latestSeq else page.cursor
  let status := if future then CursorStatus.futureCursorReset else .ok
  let warnings := page.warnings ++ if future then
    [⟨"R95_STALE_CURSOR_FUTURE", "since", toString page.cursor, since⟩] else []
  let scanCap := scanCapFor page.limit
  let r := reads.atScan.eventsSinceBounded ttl reads.now since page.limit query.promptId scanCap
  let answer := respond page latestSeq since status warnings r
  match r.2.earliestRetainedSeq with
  | none => answer
  | some earliest =>
    if since ≠ 0 ∧ since < earliest - 1 then
      respond page latestSeq (earliest - 1) .staleCursorReset
        (warnings ++ [⟨"R95_STALE_CURSOR_RESET", "since", toString page.cursor,
          (earliest - 1 : ℕ)⟩])
        (reads.atRescan.eventsSinceBounded ttl reads.nowRescan (earliest - 1) page.limit
          query.promptId scanCap)
    else answer

end Handler

end OpenClaw.Observability
