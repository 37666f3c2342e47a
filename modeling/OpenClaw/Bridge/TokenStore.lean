import Mathlib.Algebra.Order.Ring.Rat
import OpenClaw.Foundation.PyText
import OpenClaw.Foundation.Table

/-!
# Bridge tokens

`services/bridge_token_lifecycle.py` without its audit trail. The clock, the random token and whether
a save goes through are inputs of a call; a failed save is not reported.
-/

namespace OpenClaw.Bridge

open Foundation
set_option autoImplicit false

inductive BridgeScope where
  | jobSubmit | jobStatus | delivery | configRead
  deriving DecidableEq

def BridgeScope.value : BridgeScope → PyStr
  | jobSubmit => PyStr.ofString "job:submit"
  | jobStatus => PyStr.ofString "job:status"
  | delivery => PyStr.ofString "delivery:send"
  | configRead => PyStr.ofString "config:read"

inductive TokenStatus where
  | active | expired | revoked
  deriving DecidableEq

structure DeviceToken where
  deviceId : PyStr
  deviceToken : PyStr
  scopes : List BridgeScope
  expiresAt : Option ℚ
  tokenId : PyStr
  issuedAt : ℚ
  status : TokenStatus
  replaces : PyStr := []
  overlapUntil : Option ℚ := none
  deriving DecidableEq

abbrev Tokens := Table DeviceToken.tokenId

def maxTtlSec : ℤ := 86400
def maxOverlapSec : ℤ := 1800

structure BridgeTokenStore where
  tokens : Tokens := .empty
  /-- `bridge_tokens.json` -/
  file : Option Tokens := none
  /-- there is a state directory -/
  persistent : Bool := true

structure TokenValidationResult where
  ok : Bool
  token : Option DeviceToken := none
  rejectReason : String := ""
  isOverlap : Bool := false
  deriving DecidableEq

inductive TokenError where
  | notFound (tokenId : PyStr)
  | notActive (status : TokenStatus)
  /-- `compare_digest` of strings that are not ASCII -/
  | typeError
  deriving DecidableEq

/-- What `secrets` draws for a token: its id and its value, which is URL-safe text. -/
structure Draw where
  tokenId : PyStr
  tokenValue : PyStr
  ascii : tokenValue.isAscii = true

/-- `limit and now > limit`. -/
def past (now : ℚ) (limit : Option ℚ) : Bool :=
  limit.any fun t => decide (t ≠ 0 ∧ t < now)

namespace BridgeTokenStore

def save (saved : Bool) (s : BridgeTokenStore) : BridgeTokenStore :=
  if s.persistent && saved then { s with file := some s.tokens } else s

/-- `_load` in a new process. -/
def load (s : BridgeTokenStore) : BridgeTokenStore :=
  { s with tokens := if s.persistent then s.file.getD .empty else .empty }

def resolveTokenForValue (value : PyStr) : List DeviceToken → Except TokenError (Option DeviceToken)
  | [] => .ok none
  | token :: rest =>
    if token.deviceToken.isAscii = false ∨ value.isAscii = false then .error .typeError
    else if token.deviceToken = value then .ok (some token)
    else resolveTokenForValue value rest

def issuedToken (draw : Draw) (now : ℚ) (deviceId : PyStr) (scopes : List BridgeScope)
    (ttlSec : ℤ) : DeviceToken where
  deviceId := deviceId
  deviceToken := draw.tokenValue
  scopes := if scopes = [] then [.jobStatus, .configRead] else scopes
  expiresAt := some (now + (min (max ttlSec 60) maxTtlSec : ℤ))
  tokenId := draw.tokenId
  issuedAt := now
  status := .active

def issueToken (draw : Draw) (now : ℚ) (saved : Bool) (deviceId : PyStr)
    (scopes : List BridgeScope) (ttlSec : ℤ) (s : BridgeTokenStore) :
    BridgeTokenStore × DeviceToken :=
  let token := issuedToken draw now deviceId scopes ttlSec
  ({ s with tokens := s.tokens.put token }.save saved, token)

/-- The old token with its overlap window. -/
def withOverlap (now : ℚ) (overlapSec : ℤ) (old : DeviceToken) : DeviceToken :=
  let window := now + (min (max overlapSec 30) maxOverlapSec : ℤ)
  let expires := match old.expiresAt with
    | some t => if t ≠ 0 then t else now + 86400
    | none => now + 86400
  { old with overlapUntil := some (min window expires) }

/-- `rotate_token`; the clock is read again when the new token is issued. -/
def rotateToken (draw : Draw) (now later : ℚ) (saved : Bool) (oldTokenId : PyStr)
    (overlapSec ttlSec : ℤ) (scopes : List BridgeScope) (s : BridgeTokenStore) :
    BridgeTokenStore × Except TokenError (DeviceToken × DeviceToken) :=
  match s.tokens.get? oldTokenId with
  | none => (s, .error (.notFound oldTokenId))
  | some old =>
    if old.status ≠ .active then (s, .error (.notActive old.status))
    else
      let old := withOverlap now overlapSec old
      let issued := { s with tokens := s.tokens.put old }.issueToken draw later saved old.deviceId
        (if scopes = [] then old.scopes else scopes) ttlSec
      let new := { issued.2 with replaces := oldTokenId }
      ({ issued.1 with tokens := (issued.1.tokens.put old).put new }.save saved, .ok (new, old))

def revokeToken (saved : Bool) (tokenId : PyStr) (s : BridgeTokenStore) :
    BridgeTokenStore × Except TokenError DeviceToken :=
  match s.tokens.get? tokenId with
  | none => (s, .error (.notFound tokenId))
  | some token =>
    let token := { token with status := .revoked }
    ({ s with tokens := s.tokens.put token }.save saved, .ok token)

/-- The token is marked as expired in memory only. -/
def expire (token : DeviceToken) (rejectReason : String) (s : BridgeTokenStore) :
    BridgeTokenStore × TokenValidationResult :=
  let token := { token with status := .expired }
  ({ s with tokens := s.tokens.put token }, { ok := false, token := some token, rejectReason })

/-- `validate_token` for the token that was found. -/
def validateFound (now : ℚ) (requiredScope : Option PyStr) (token : DeviceToken)
    (s : BridgeTokenStore) : BridgeTokenStore × TokenValidationResult :=
  if token.status = .revoked then
    (s, { ok := false, token := some token, rejectReason := "token_revoked" })
  else if past now token.expiresAt then s.expire token "token_expired"
  else if past now token.overlapUntil then s.expire token "overlap_window_expired"
  else if requiredScope.any fun scope => decide (scope ≠ [] ∧ scope ∉ token.scopes.map BridgeScope.value)
  then (s, { ok := false, token := some token, rejectReason := "insufficient_scope" })
  else (s, { ok := true, token := some token, isOverlap := token.overlapUntil.any (· ≠ 0) })

def validateToken (now : ℚ) (value : PyStr) (requiredScope : Option PyStr) (s : BridgeTokenStore) :
    BridgeTokenStore × Except TokenError TokenValidationResult :=
  match resolveTokenForValue value s.tokens.rows with
  | .error e => (s, .error e)
  | .ok none => (s, .ok { ok := false, rejectReason := "unknown_token" })
  | .ok (some token) => (s.validateFound now requiredScope token).map id .ok

/-- The token is revoked, expired or past its overlap window. -/
def spent (now : ℚ) (token : DeviceToken) : Bool :=
  decide (token.status = .revoked) || past now token.expiresAt || past now token.overlapUntil

def cleanupExpired (now : ℚ) (saved : Bool) (s : BridgeTokenStore) : BridgeTokenStore × ℕ :=
  let toRemove := (s.tokens.rows.filter (spent now)).map DeviceToken.tokenId
  if toRemove = [] then (s, 0)
  else ({ s with tokens := toRemove.foldl Table.drop s.tokens }.save saved, toRemove.length)

def listTokens (deviceId : Option PyStr) (activeOnly : Bool) (s : BridgeTokenStore) :
    List DeviceToken :=
  s.tokens.rows.filter fun token =>
    (deviceId.all fun d => decide (d = [] ∨ token.deviceId = d)) &&
      (!activeOnly || decide (token.status = .active))

end BridgeTokenStore

/-! ## Calls -/

inductive Call where
  | issue (deviceId : PyStr) (scopes : List BridgeScope) (ttlSec : ℤ)
  | rotate (oldTokenId : PyStr) (overlapSec ttlSec : ℤ) (scopes : List BridgeScope)
  | revoke (tokenId : PyStr)
  | validate (value : PyStr) (requiredScope : Option PyStr)
  | cleanup
  | restart

inductive Answer where
  | issued (token : DeviceToken)
  | rotated (r : Except TokenError (DeviceToken × DeviceToken))
  | revoked (r : Except TokenError DeviceToken)
  | validated (r : Except TokenError TokenValidationResult)
  | cleaned (count : ℕ)
  | restarted
  deriving DecidableEq

/-- The two readings of the clock, the random token, whether the save goes through, and the call. -/
structure Input where
  now : ℚ
  later : ℚ
  draw : Draw
  saved : Bool := true
  call : Call

def step (s : BridgeTokenStore) (input : Input) : BridgeTokenStore × Answer :=
  match input.call with
  | .issue d scopes ttl =>
    (s.issueToken input.draw input.now input.saved d scopes ttl).map id .issued
  | .rotate i overlap ttl scopes =>
    (s.rotateToken input.draw input.now input.later input.saved i overlap ttl scopes).map id .rotated
  | .revoke i => (s.revokeToken input.saved i).map id .revoked
  | .validate value scope => (s.validateToken input.now value scope).map id .validated
  | .cleanup => (s.cleanupExpired input.now input.saved).map id .cleaned
  | .restart => (s.load, .restarted)

end OpenClaw.Bridge
