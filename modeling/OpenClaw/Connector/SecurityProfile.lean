import Mathlib.Algebra.Order.Ring.Rat
import Mathlib.Tactic.Linarith
import OpenClaw.Foundation.Base64
import OpenClaw.Foundation.CodePoints
import OpenClaw.Foundation.PyJson
import OpenClaw.Foundation.Table

/-!
# The security profile of connectors

`connector/security_profile.py`. `verify_hmac_signature`: the digest is written in hex or in
Base64, and the header may name the algorithm in front of it. `AllowlistPolicy`: who may send
commands, and from where.
-/

namespace OpenClaw.Connector

open Foundation
set_option autoImplicit false

structure AuthVerifyResult where
  ok : Bool := false
  scheme : String
  identity : String := ""
  error : String := ""
  deriving DecidableEq

inductive HashName where
  | sha256 | sha1
  deriving DecidableEq

/-- `algo_map`. -/
def algoMap (algorithm : String) : Option HashName :=
  if algorithm = "sha256" then some .sha256
  else if algorithm = "sha1" then some .sha1
  else none

/-- HMAC of a key and a message. -/
abbrev HmacDigest := HashName → List UInt8 → List UInt8 → List UInt8

/-- What a platform passes besides the body and the header. -/
structure SignatureProfile where
  secret : CodePoints
  algorithm : String := "sha256"
  digestEncoding : String := "hex"

def refuseSignature (error : String) : AuthVerifyResult := { scheme := "hmac_sha256", error }

/-- The header without white space and without the name of an algorithm. -/
def signatureText (algorithm : String) (signatureHeader : CodePoints) : CodePoints :=
  let sig := CodePoints.strip signatureHeader
  match [algorithm ++ "=", "sha256=", "sha1="].find? fun p =>
    decide (CodePoints.ofString p <+: CodePoints.lower sig) with
  | some p => sig.drop p.length
  | none => sig

def writeDigest (digestEncoding : String) (digest : List UInt8) : CodePoints :=
  if digestEncoding = "base64" then Base64.encode digest else CodePoints.ofChars (hex digest)

def verifyHmacSignature (hmac : HmacDigest) (profile : SignatureProfile) (body : List UInt8)
    (signatureHeader : CodePoints) : Except TextError AuthVerifyResult :=
  if profile.secret = [] then .ok (refuseSignature "missing_secret")
  else if signatureHeader = [] then .ok (refuseSignature "missing_signature_header")
  else
    match algoMap profile.algorithm with
    | none => .ok (refuseSignature ("unsupported_algorithm:" ++ profile.algorithm))
    | some hash =>
      match CodePoints.encode profile.secret with
      | .error e => .error e
      | .ok key =>
        let expected := writeDigest profile.digestEncoding (hmac hash key body)
        (CodePoints.compareDigest (signatureText profile.algorithm signatureHeader) expected).map
          fun same =>
            if same then { ok := true, scheme := "hmac_sha256", identity := "hmac" }
            else refuseSignature "signature_mismatch"

/-! ## Allowlists -/

inductive ScopeDecision where
  | allow | deny | skip
  deriving DecidableEq

structure ScopeResult where
  decision : ScopeDecision := .deny
  matchedEntry : PyStr := []
  reason : String := ""
  deriving DecidableEq

/-- The entries are normalized. -/
structure AllowlistPolicy where
  entries : List PyStr
  strict : Bool

section Allowlist
variable {φ : Type} (py : PyInterpreter φ)

/-- The default normalizer. -/
def normalizeEntry (x : PyStr) : PyStr := py.lower x.strip

def AllowlistPolicy.ofEntries (raw : List PyStr) (strict : Bool) : AllowlistPolicy :=
  ⟨(raw.filter fun e => e.strip ≠ []).map (normalizeEntry py), strict⟩

def AllowlistPolicy.evaluate (policy : AllowlistPolicy) (identifier : PyStr) : ScopeResult :=
  if policy.entries = [] then
    if policy.strict then { decision := .deny, reason := "empty_allowlist_strict" }
    else { decision := .skip, reason := "no_allowlist_configured" }
  else if normalizeEntry py identifier ∈ policy.entries then
    { decision := .allow, matchedEntry := normalizeEntry py identifier }
  else { decision := .deny, reason := "not_in_allowlist" }

/-- A list that is configured allows or denies. -/
theorem AllowlistPolicy.evaluate_configured {policy : AllowlistPolicy} (h : policy.entries ≠ [])
    (identifier : PyStr) : (policy.evaluate py identifier).decision ≠ .deny ↔
      (policy.evaluate py identifier).decision = .allow := by
  rw [AllowlistPolicy.evaluate, if_neg h]
  split <;> simp

end Allowlist

/-!
## The replay guard

`ReplayGuard` of `connector/security_profile.py`: keys with the time at which they were recorded.
`check_and_record` reads the clock twice, to evict and to compare; both readings are inputs.
-/

section Replays

abbrev SeenKeys := Table (Prod.fst : CodePoints × ℚ → CodePoints)

structure ReplayGuard where
  windowSec : ℕ
  maxEntries : ℕ
  seen : SeenKeys := Table.empty

namespace ReplayGuard

def size (guard : ReplayGuard) : ℕ := guard.seen.size

/-- The oldest entries beyond the cap go, in the order of their times. -/
def enforceCap (guard : ReplayGuard) : ReplayGuard :=
  if guard.maxEntries < guard.size then
    let sortedItems := sortedBy Prod.snd guard.seen.rows
    let excess := sortedItems.take (guard.size - guard.maxEntries)
    { guard with seen := (excess.map Prod.fst).foldl Table.drop guard.seen }
  else guard

def unexpired? (cutoff : ℚ) (e : CodePoints × ℚ) : Option (CodePoints × ℚ) :=
  if e.2 < cutoff then none else some e

theorem key_of_unexpired? {cutoff : ℚ} (e e' : CodePoints × ℚ) (h : unexpired? cutoff e = some e') :
    e'.1 = e.1 := by
  unfold unexpired? at h
  split at h
  · cases h
  · cases h
    rfl

/-- `_evict_expired` without the cap. -/
def dropExpired (guard : ReplayGuard) (now : ℚ) : ReplayGuard :=
  { guard with
    seen := guard.seen.filterMap (unexpired? (now - guard.windowSec)) key_of_unexpired? }

def evictExpired (guard : ReplayGuard) (now : ℚ) : ReplayGuard := (guard.dropExpired now).enforceCap

/-- The key gets the time; the cap is enforced after the insert. -/
def record (guard : ReplayGuard) (key : CodePoints) (now : ℚ) : ReplayGuard :=
  enforceCap { guard with seen := guard.seen.put (key, now) }

/-- `True` for a key that is new, `False` for a duplicate within the window. -/
def checkAndRecord (guard : ReplayGuard) (key : CodePoints) (evictNow now : ℚ) :
    ReplayGuard × Bool :=
  let guard := guard.evictExpired evictNow
  match guard.seen.get? key with
  | some e => if now - e.2 ≤ guard.windowSec then (guard, false) else (guard.record key now, true)
  | none => (guard.record key now, true)

/-! ## Below the cap -/

theorem enforceCap_eq {guard : ReplayGuard} (h : guard.size ≤ guard.maxEntries) :
    guard.enforceCap = guard := by
  unfold enforceCap
  rw [if_neg (by omega)]

@[simp] theorem enforceCap_windowSec (guard : ReplayGuard) :
    guard.enforceCap.windowSec = guard.windowSec := by
  unfold enforceCap
  split <;> rfl

@[simp] theorem enforceCap_maxEntries (guard : ReplayGuard) :
    guard.enforceCap.maxEntries = guard.maxEntries := by
  unfold enforceCap
  split <;> rfl

theorem checkAndRecord_windowSec (guard : ReplayGuard) (key : CodePoints) (evictNow now : ℚ) :
    (guard.checkAndRecord key evictNow now).1.windowSec = guard.windowSec ∧
      (guard.checkAndRecord key evictNow now).1.maxEntries = guard.maxEntries := by
  unfold checkAndRecord record
  dsimp only
  split
  · split <;> simp [evictExpired, dropExpired]
  · simp [evictExpired, dropExpired]

theorem get?_dropExpired (guard : ReplayGuard) (now : ℚ) (key : CodePoints) :
    (guard.dropExpired now).seen.get? key =
      (guard.seen.get? key).bind (unexpired? (now - guard.windowSec)) :=
  Table.get?_filterMap _ _ key_of_unexpired? _

theorem get?_dropExpired_eq_some {guard : ReplayGuard} {now : ℚ} {key : CodePoints}
    {e : CodePoints × ℚ} : (guard.dropExpired now).seen.get? key = some e ↔
      guard.seen.get? key = some e ∧ now - guard.windowSec ≤ e.2 := by
  rw [get?_dropExpired, Option.bind_eq_some_iff]
  constructor
  · rintro ⟨e', he', hsome⟩
    unfold unexpired? at hsome
    split at hsome
    · cases hsome
    · rename_i hin
      cases hsome
      exact ⟨he', not_lt.mp hin⟩
  · rintro ⟨he, hin⟩
    exact ⟨e, he, if_neg (not_lt.mpr hin)⟩

theorem size_dropExpired_le (guard : ReplayGuard) (now : ℚ) :
    (guard.dropExpired now).size ≤ guard.size := Table.size_filterMap_le _ _ key_of_unexpired?

section Roomy
variable {guard : ReplayGuard} (hroom : guard.size < guard.maxEntries)
include hroom

theorem evictExpired_eq (now : ℚ) : guard.evictExpired now = guard.dropExpired now :=
  enforceCap_eq ((size_dropExpired_le guard now).trans hroom.le)

theorem record_dropExpired_eq (key : CodePoints) (evictNow now : ℚ) :
    (guard.dropExpired evictNow).record key now =
      { guard.dropExpired evictNow with
        seen := (guard.dropExpired evictNow).seen.put (key, now) } := by
  apply enforceCap_eq
  have hle : ((guard.dropExpired evictNow).seen.put (key, now)).size ≤
      (guard.dropExpired evictNow).seen.size + 1 := by
    rw [Table.size_put]
    split <;> omega
  have hdrop : (guard.dropExpired evictNow).seen.size ≤ guard.size :=
    size_dropExpired_le guard evictNow
  change ((guard.dropExpired evictNow).seen.put (key, now)).size ≤ guard.maxEntries
  omega

/-- What a check does: a key within the window changes nothing but the expired entries. -/
theorem checkAndRecord_cases (key : CodePoints) (evictNow now : ℚ) :
    (∃ e, (guard.dropExpired evictNow).seen.get? key = some e ∧ now - e.2 ≤ guard.windowSec ∧
      guard.checkAndRecord key evictNow now = (guard.dropExpired evictNow, false)) ∨
    (∀ e, (guard.dropExpired evictNow).seen.get? key = some e → guard.windowSec < now - e.2) ∧
      guard.checkAndRecord key evictNow now =
        ({ guard.dropExpired evictNow with
          seen := (guard.dropExpired evictNow).seen.put (key, now) }, true) := by
  unfold checkAndRecord
  rw [evictExpired_eq hroom]
  dsimp only
  rw [record_dropExpired_eq hroom]
  cases hkey : (guard.dropExpired evictNow).seen.get? key with
  | none => exact .inr ⟨by simp, rfl⟩
  | some e =>
    by_cases hin : now - e.2 ≤ guard.windowSec
    · exact .inl ⟨e, rfl, hin, if_pos hin⟩
    · refine .inr ⟨?_, if_neg hin⟩
      intro e' he'
      cases he'
      exact not_le.mp hin

/-- A key is new when it is not held or has left the window. -/
theorem checkAndRecord_new_iff {key : CodePoints} {evictNow now : ℚ} (hle : evictNow ≤ now) :
    (guard.checkAndRecord key evictNow now).2 = true ↔
      ∀ e, guard.seen.get? key = some e → guard.windowSec < now - e.2 := by
  obtain ⟨e, hkey, hin, heq⟩ | ⟨hout, heq⟩ := checkAndRecord_cases hroom key evictNow now
  · rw [heq]
    obtain ⟨hheld, _⟩ := get?_dropExpired_eq_some.mp hkey
    constructor
    · intro h
      cases h
    · intro h
      exact absurd hin (not_le.mpr (h e hheld))
  · rw [heq]
    refine iff_of_true rfl ?_
    intro e hheld
    by_cases hold : e.2 < evictNow - guard.windowSec
    · linarith
    · exact hout e (get?_dropExpired_eq_some.mpr ⟨hheld, not_lt.mp hold⟩)

/-- After a check the key is held, with the new time when it was new. -/
theorem get?_checkAndRecord_self (key : CodePoints) (evictNow now : ℚ) :
    (guard.checkAndRecord key evictNow now).1.seen.get? key =
      if (guard.checkAndRecord key evictNow now).2 then some (key, now)
      else guard.seen.get? key := by
  obtain ⟨e, hkey, hin, heq⟩ | ⟨hout, heq⟩ := checkAndRecord_cases hroom key evictNow now
  · rw [heq, if_neg Bool.false_ne_true, (get?_dropExpired_eq_some.mp hkey).1]
    exact hkey
  · rw [heq, if_pos rfl]
    simp

/-- The other keys stay, unless they have left the window. -/
theorem get?_checkAndRecord_other {key key' : CodePoints} (hne : key' ≠ key) (evictNow now : ℚ) :
    (guard.checkAndRecord key evictNow now).1.seen.get? key' =
      (guard.dropExpired evictNow).seen.get? key' := by
  obtain ⟨e, hkey, hin, heq⟩ | ⟨hout, heq⟩ := checkAndRecord_cases hroom key evictNow now
  · rw [heq]
  · rw [heq]
    simp [hne.symm]

/-- A known key takes no further room. -/
theorem size_checkAndRecord_le {key : CodePoints} {evictNow now : ℚ}
    (hkey : (guard.seen.get? key).isSome = true) :
    (guard.checkAndRecord key evictNow now).1.size ≤ guard.size := by
  have hdrop := size_dropExpired_le guard evictNow
  obtain ⟨_, _, _, heq⟩ | ⟨_, heq⟩ := checkAndRecord_cases hroom key evictNow now
  · rw [heq]
    exact hdrop
  rw [heq]
  change ((guard.dropExpired evictNow).seen.put (key, now)).size ≤ guard.size
  rw [Table.size_put]
  split
  · exact hdrop
  rename_i hgone
  -- the key is among the keys that were there and not among those that are left
  by_contra hsize
  have hkeys : ((guard.dropExpired evictNow).seen.rows.map Prod.fst).Sublist
      (guard.seen.rows.map Prod.fst) := filterMap_keys_sublist key_of_unexpired? guard.seen.rows
  have hsame := hkeys.eq_of_length_le (by
    rw [List.length_map, List.length_map]
    change guard.size ≤ (guard.dropExpired evictNow).seen.size
    omega)
  obtain ⟨e, he⟩ := Option.isSome_iff_exists.mp hkey
  have hmem : key ∈ guard.seen.rows.map Prod.fst :=
    List.mem_map.mpr ⟨e, Table.mem_of_get? he, Table.key_of_get? he⟩
  rw [← hsame] at hmem
  obtain ⟨e', hrow, hown⟩ := List.mem_map.mp hmem
  have hnone : (guard.dropExpired evictNow).seen.get? key = none := by simpa using hgone
  exact Table.get?_eq_none_iff.mp hnone e' hrow hown

end Roomy

end ReplayGuard

end Replays

end OpenClaw.Connector
