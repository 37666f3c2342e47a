import OpenClaw.Foundation.IpAddress

/-!
# The parts of a URL

`urlsplit` up to the network location, and the user, the host and the port in it. The Unicode
tables are a parameter.
-/

namespace Foundation

set_option autoImplicit false

structure UnicodeTables where
  lower : CodePoints → CodePoints
  nfkc : CodePoints → CodePoints
  /-- `t.encode("idna").decode("ascii")`; `none` is a `UnicodeError`. -/
  idna : CodePoints → Option CodePoints

structure SplitResult where
  scheme : CodePoints
  netloc : CodePoints

/-- What comes before the first separator and what comes after it. -/
def CodePoints.partition (sep : CodePoint) (t : CodePoints) : CodePoints × CodePoints :=
  (t.takeWhile (· ≠ sep), (t.dropWhile (· ≠ sep)).tail)

/-- What comes before the last separator and what comes after it. -/
def CodePoints.rpartition (sep : CodePoint) (t : CodePoints) : CodePoints × CodePoints :=
  if sep ∈ t then
    (((t.reverse.dropWhile (· ≠ sep)).tail).reverse, (t.reverse.takeWhile (· ≠ sep)).reverse)
  else ([], t)

def isAsciiLetter (c : CodePoint) : Bool :=
  decide ((65 ≤ c.val ∧ c.val ≤ 90) ∨ (97 ≤ c.val ∧ c.val ≤ 122))

/-- Letters, digits and `+-.` -/
def isSchemeChar (c : CodePoint) : Bool :=
  isAsciiLetter c || decide ((48 ≤ c.val ∧ c.val ≤ 57) ∨ c.val ∈ [43, 45, 46])

/-- `v`, hexadecimal digits, a dot and at least one more character. -/
def isIpvFuture (hostname : CodePoints) : Bool :=
  let digits := (hostname.drop 1).takeWhile fun c => (IpAddress.hexDigit? c).isSome
  match (hostname.drop 1).drop digits.length with
  | dot :: rest => decide (digits ≠ [] ∧ dot.val = 46 ∧ rest ≠ [])
  | [] => false

def checkBracketedHost (hostname : CodePoints) : Bool :=
  if hostname.head? = some 118 then isIpvFuture hostname
  else
    match ipAddress hostname with
    | some (.v6 _ _) => true
    | _ => false

section Split
variable (tables : UnicodeTables)

/-- No character of the location turns into a delimiter under the normalization. -/
def checkNetloc (netloc : CodePoints) : Bool :=
  if netloc = [] ∨ netloc.isAscii = true then true
  else
    let n := netloc.filter fun c => c.val ∉ [64, 58, 35, 63]
    let normalized := tables.nfkc n
    if n = normalized then true
    else normalized.all fun c => c.val ∉ [47, 63, 35, 64, 58]

/-- `urlsplit(url)`; `none` is its `ValueError`. -/
def urlsplit (url : CodePoints) : Option SplitResult :=
  let url := (url.dropWhile fun c => c.val ≤ 32).filter fun c => c.val ∉ [9, 10, 13]
  let front := (CodePoints.partition 58 url).1
  let hasScheme := decide (58 ∈ url) && ((front.head?.any isAsciiLetter) && front.all isSchemeChar)
  let scheme := if hasScheme then front.lower else []
  let rest := if hasScheme then url.drop (front.length + 1) else url
  if rest.take 2 = [47, 47] then
    let netloc := (rest.drop 2).takeWhile fun c => c.val ∉ [47, 63, 35]
    if decide (91 ∈ netloc) ≠ decide (93 ∈ netloc) then none
    else if 91 ∈ netloc ∧ checkBracketedHost
        (CodePoints.partition 93 (CodePoints.partition 91 netloc).2).1 = false then none
    else if checkNetloc tables netloc then some ⟨scheme, netloc⟩
    else none
  else some ⟨scheme, []⟩

end Split

namespace SplitResult

/-- The user and the password, both empty where the location has none. -/
def userinfo (r : SplitResult) : CodePoints × CodePoints :=
  CodePoints.partition 58 (CodePoints.rpartition 64 r.netloc).1

def hostinfo (r : SplitResult) : CodePoints × CodePoints :=
  let hostinfo := (CodePoints.rpartition 64 r.netloc).2
  if 91 ∈ hostinfo then
    let bracketed := CodePoints.partition 93 (CodePoints.partition 91 hostinfo).2
    (bracketed.1, (CodePoints.partition 58 bracketed.2).2)
  else CodePoints.partition 58 hostinfo

/-- The host in small letters, the zone of a scoped address as it is. -/
def hostname (tables : UnicodeTables) (r : SplitResult) : Option CodePoints :=
  let host := r.hostinfo.1
  if host = [] then none
  else some (tables.lower (host.takeWhile (· ≠ 37)) ++ host.dropWhile (· ≠ 37))

inductive PortError where
  /-- `Port could not be cast to integer value` -/
  | noInteger
  /-- the limit on the digits of an integer -/
  | tooManyDigits
  /-- `Port out of range 0-65535` -/
  | outOfRange
  deriving DecidableEq

/-- The three errors are all a `ValueError`. -/
def port (r : SplitResult) : Except PortError (Option ℕ) :=
  let text := r.hostinfo.2
  if text = [] then .ok none
  else if text.isDigit && text.isAscii then
    match text.int? with
    | none => .error .tooManyDigits
    | some n => if 0 ≤ n ∧ n ≤ 65535 then .ok (some n.toNat) else .error .outOfRange
  else .error .noInteger

end SplitResult

end Foundation
