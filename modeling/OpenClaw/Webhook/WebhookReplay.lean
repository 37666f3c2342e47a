import OpenClaw.Foundation.Run
import OpenClaw.Webhook.WebhookAuth

/-!
# Replays of signed webhooks

The signature covers the body only, so whoever has seen one accepted request chooses the timestamp
and the nonce of the next one. A replay is stopped by those two headers and the store alone.
-/

namespace OpenClaw.Webhook

open Foundation
set_option autoImplicit false

/-! ## One request -/

/-- What stands in the way of a request whose signature is right: a missing or unusable header, a
timestamp outside the window, a nonce on record, or a store that fails in strict mode. -/
def Blocked (store : IdempotencyStore) (req : RequestLike) (now storeNow : ℚ) (io : Backend) :
    Prop :=
  req.timestamp = [] ∨ req.nonce = [] ∨
    (∀ ts ∈ PyText.int? req.timestamp, driftSec < |truncate now - ts|) ∨
    (store.found? (nonceKey req.nonce) storeNow io).isSome = true ∨
    (store.strictMode = true ∧ (store.durable = none ∨ io.check = false))

theorem checkReplay_iff (secret : Option (List UInt8)) (store : IdempotencyStore)
    (req : RequestLike) (now storeNow : ℚ) (io : Backend) :
    (checkReplay ⟨secret, true⟩ store req now storeNow io).2 = .accepted ↔
      ¬ Blocked store req now storeNow io := by
  have hdup := duplicate_iff store (nonceKey req.nonce) none nonceTtl storeNow io
  have herr := check_error_iff store (nonceKey req.nonce) none nonceTtl storeNow io
  unfold Blocked
  rw [← hdup, ← herr]
  simp only [checkReplay, Bool.true_eq_false, and_false, if_false]
  split
  · rename_i ht
    simp [ht]
  rename_i ht
  split
  · rename_i hn
    simp [hn]
  rename_i hn
  split
  · rename_i hint
    simp [hint]
  rename_i ts hint
  split
  · rename_i hdrift
    simp [hint, hdrift]
  rename_i hdrift
  generalize store.checkAndRecord (nonceKey req.nonce) none nonceTtl storeNow io = r
  obtain ⟨store', answer⟩ := r
  rcases answer with e | ⟨isDup, existing⟩
  · simp
  · cases isDup <;> simp [ht, hn, hint, hdrift]

/-- Whether the signature is right depends on the body and the signature header. -/
theorem checkSignature_congr (hmacHex : HmacHex) (cfg : AuthConfig) {req req' : RequestLike}
    (hbody : req.rawBody = req'.rawBody) (hsig : req.sigHeader = req'.sigHeader) :
    checkSignature hmacHex cfg req = checkSignature hmacHex cfg req' := by
  unfold checkSignature RequestLike.providedSig
  rw [hbody, hsig]

theorem verifyHmac_iff (hmacHex : HmacHex) (secret : Option (List UInt8))
    (store : IdempotencyStore) (req : RequestLike) (now storeNow : ℚ) (io : Backend) :
    (verifyHmac hmacHex ⟨secret, true⟩ store req now storeNow io).2 = .accepted ↔
      checkSignature hmacHex ⟨secret, true⟩ req = none ∧ ¬ Blocked store req now storeNow io := by
  have hnever : checkSignature hmacHex ⟨secret, true⟩ req ≠ some .accepted := by
    unfold checkSignature
    repeat' split
    all_goals simp
  unfold verifyHmac
  split
  · rename_i refused hs
    simp only [hs, reduceCtorEq, false_and, iff_false]
    rintro rfl
    exact hnever hs
  · rename_i hs
    simp only [hs, true_and]
    exact checkReplay_iff secret store req now storeNow io

/-! ## Runs -/

/-- A signed webhook, or a call of somebody else who keeps keys in the same store. -/
inductive Arrival where
  | webhook (req : RequestLike) (now storeNow : ℚ) (io : Backend)
  | check (key : String) (promptId : Option String) (ttl : ℕ) (now : ℚ) (io : Backend)
  | update (key promptId : String) (io : Backend)

section Runs
variable (hmacHex : HmacHex) (secret : Option (List UInt8)) (s₀ : IdempotencyStore)
  (arrivals : ℕ → Arrival)

def receive (s : IdempotencyStore) : Arrival → IdempotencyStore × Option Verified
  | .webhook req now storeNow io =>
    let r := verifyHmac hmacHex ⟨secret, true⟩ s req now storeNow io
    (r.1, some r.2)
  | .check key promptId ttl now io => ((s.checkAndRecord key promptId ttl now io).1, none)
  | .update key promptId io => ((s.updatePromptId key promptId io).1, none)

def storeAt (k : ℕ) : IdempotencyStore := run (receive hmacHex secret) s₀ arrivals k

/-- The `k`-th arrival presents this body and signature. -/
def Presents (k : ℕ) (body : List UInt8) (sig : List Char) : Prop :=
  ∃ req now storeNow io, arrivals k = .webhook req now storeNow io ∧
    req.rawBody = body ∧ req.sigHeader = sig

def AcceptedAt (k : ℕ) (body : List UInt8) (sig : List Char) : Prop :=
  Presents arrivals k body sig ∧
    answer (receive hmacHex secret) s₀ arrivals k = some .accepted

def NoReplay : Prop :=
  ∀ j k body sig, j < k → AcceptedAt hmacHex secret s₀ arrivals j body sig →
    ¬ AcceptedAt hmacHex secret s₀ arrivals k body sig

/-- The headers or the store stop the `k`-th arrival. -/
def BlockedAt (k : ℕ) : Prop :=
  ∀ req now storeNow io, arrivals k = .webhook req now storeNow io →
    Blocked (storeAt hmacHex secret s₀ arrivals k) req now storeNow io

variable {hmacHex secret s₀ arrivals}

theorem acceptedAt_iff {k : ℕ} {req : RequestLike} {now storeNow : ℚ} {io : Backend}
    (hk : arrivals k = .webhook req now storeNow io) {body : List UInt8} {sig : List Char} :
    AcceptedAt hmacHex secret s₀ arrivals k body sig ↔
      (req.rawBody = body ∧ req.sigHeader = sig) ∧
        checkSignature hmacHex ⟨secret, true⟩ req = none ∧
        ¬ Blocked (storeAt hmacHex secret s₀ arrivals k) req now storeNow io := by
  have hanswer : answer (receive hmacHex secret) s₀ arrivals k = some
      (verifyHmac hmacHex ⟨secret, true⟩ (storeAt hmacHex secret s₀ arrivals k) req now storeNow
        io).2 := by
    rw [answer, hk]
    rfl
  rw [AcceptedAt, hanswer, Option.some.injEq, verifyHmac_iff]
  constructor
  · rintro ⟨⟨req', now', storeNow', io', hk', hb, hs⟩, hacc⟩
    cases hk.symm.trans hk'
    exact ⟨⟨hb, hs⟩, hacc⟩
  · rintro ⟨⟨hb, hs⟩, hacc⟩
    exact ⟨⟨req, now, storeNow, io, hk, hb, hs⟩, hacc⟩

end Runs

section FreshNonce

/-- HMAC-SHA256 of the body `{}` under the key `s3cret`. -/
def emptyBodyHmac : HmacHex := fun key message =>
  if key = "s3cret".toUTF8.toList ∧ message = "{}".toUTF8.toList then
    "adbde1ce40c89c14215687d5d762a47df6dfaefcfad61e2e86718ffc8498571b".toList
  else []

def emptyBodyRequest (timestamp nonce : String) : RequestLike where
  headers name :=
    if name = "X-OpenClaw-Signature" then
      some "sha256=adbde1ce40c89c14215687d5d762a47df6dfaefcfad61e2e86718ffc8498571b"
    else if name = "X-OpenClaw-Timestamp" then some timestamp
    else if name = "X-OpenClaw-Nonce" then some nonce
    else none
  rawBody := "{}".toUTF8.toList

/-- One signed request, and its body and signature a day later under new headers. -/
def resent : ℕ → Arrival
  | 0 => .webhook (emptyBodyRequest "1000" "n-1") 1000 1000 {}
  | _ => .webhook (emptyBodyRequest "87400" "n-2") 87400 87400 {}

end FreshNonce

end OpenClaw.Webhook
