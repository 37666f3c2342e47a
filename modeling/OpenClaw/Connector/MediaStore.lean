import OpenClaw.Foundation.Literals
import OpenClaw.Webhook.WebhookAuth

/-!
# The media store

`connector/media_store.py` without its previews. The random part of a name, the readings of the clock,
the modification time of a file, and how far a write or a cleanup gets, are inputs.
-/

namespace OpenClaw.Connector

open Foundation
open Webhook (truncate)
set_option autoImplicit false

/-- HMAC-SHA256 of a key and a message. -/
abbrev HmacSha256 := List UInt8 → List UInt8 → List UInt8

structure MediaFile where
  content : List UInt8
  mtime : ℚ

/-- The files of the media directory, by name. -/
abbrev MediaFiles := Table (Prod.fst : CodePoints × MediaFile → CodePoints)

structure MediaConfig where
  secret : List UInt8
  ttlSec : ℕ
  maxMb : ℕ
  /-- the parts of `media_dir` -/
  mediaDir : List CodePoints
  /-- the parts of `media_dir.resolve()` -/
  resolvedDir : List CodePoints

def colonPoint : CodePoint := 58
def dotPoint : CodePoint := 46
def slashPoint : CodePoint := 47

/-- How the file is written: a failure may leave some bytes behind. -/
inductive WriteOutcome where
  | written
  | failed (left : Option (List UInt8))

/-- A cleanup that stops at an error has reached some files only. -/
structure CleanupPass where
  now : ℚ
  reached : CodePoints → Bool

structure StoreCall where
  image : List UInt8
  ext : CodePoints
  channelId : CodePoints
  /-- the bytes of `token_hex(8)` -/
  random : List UInt8
  cleanup : Option CleanupPass
  write : WriteOutcome
  written : ℚ
  now : ℚ

inductive StoreError where
  | tooLarge
  | osError
  | encodeError
  | numeralTooLong
  deriving DecidableEq

/-- `secrets.token_hex(8) + ext`. -/
def StoreCall.filename (call : StoreCall) : CodePoints := CodePoints.ofChars (hex call.random) ++ call.ext

namespace MediaConfig
variable (hmac : HmacSha256) (cfg : MediaConfig)

/-! ## Tokens -/

/-- `f"{filename}:{channel_id}:{expiry}"`. -/
def payload? (filename channelId : CodePoints) (expiry : ℤ) : Option CodePoints :=
  (CodePoints.ofInt? expiry).map fun numeral =>
    filename ++ colonPoint :: (channelId ++ colonPoint :: numeral)

/-- The signature as hexadecimal digits. -/
def signature (bytes : List UInt8) : CodePoints := CodePoints.ofChars (hex (hmac cfg.secret bytes))

def generateToken (filename channelId : CodePoints) (expiry : ℤ) : Except StoreError CodePoints :=
  match payload? filename channelId expiry with
  | none => .error .numeralTooLong
  | some payload =>
    match payload.encode with
    | .error _ => .error .encodeError
    | .ok bytes => .ok (CodePoints.ofChars (hex bytes) ++ dotPoint :: cfg.signature hmac bytes)

/-- `filename, channel_id, expiry_str = payload_str.split(":", 2)` and `int(expiry_str)`. -/
def fields? (payload : CodePoints) : Option (CodePoints × CodePoints × ℤ) :=
  (CodePoints.splitFirst colonPoint payload).bind fun first =>
    (CodePoints.splitFirst colonPoint first.2).bind fun second =>
      (CodePoints.int? second.2).map fun expiry => (first.1, second.1, expiry)

/-- `_decode_token`; every exception ends in `None`. -/
def decodeToken (token : CodePoints) : Option (CodePoints × CodePoints × ℤ) :=
  match token.splitOn dotPoint with
  | [payloadHex, sig] =>
    match CodePoints.fromHex payloadHex with
    | none => none
    | some bytes =>
      match utf8Decode bytes with
      | none => none
      | some payload =>
        match CodePoints.compareDigest sig (cfg.signature hmac (utf8 payload)) with
        | .ok true => fields? (CodePoints.ofChars payload)
        | _ => none
  | _ => none

/-! ## Files -/

/-- `path.resolve().relative_to(media_dir)` goes through. -/
def inMediaDir (filename : CodePoints) : Bool := cfg.mediaDir <+: cfg.resolvedDir ++ [filename]

def getImagePath (files : MediaFiles) (token : CodePoints) (now : ℚ) : Option (List CodePoints) :=
  match cfg.decodeToken hmac token with
  | none => none
  | some (filename, _, expiry) =>
    if expiry < truncate now then none
    else if (files.get? filename).isNone then none
    else if cfg.inMediaDir filename then some (cfg.mediaDir ++ [filename])
    else none

/-- The file stays, unless it is older than the lifetime and a minute. -/
def keptFile? (pass : CleanupPass) (row : CodePoints × MediaFile) :
    Option (CodePoints × MediaFile) :=
  if row.2.mtime < pass.now - cfg.ttlSec - 60 ∧ pass.reached row.1 = true then none else some row

theorem key_of_keptFile? (pass : CleanupPass) (row row' : CodePoints × MediaFile)
    (h : cfg.keptFile? pass row = some row') : row'.1 = row.1 := by
  unfold keptFile? at h
  split at h
  · cases h
  · cases h
    rfl

def cleanup (files : MediaFiles) (pass : CleanupPass) : MediaFiles :=
  files.filterMap (cfg.keptFile? pass) (cfg.key_of_keptFile? pass)

/-- `int(time.time() + media_ttl_sec)`. -/
def expiryOf (call : StoreCall) : ℤ := truncate (call.now + cfg.ttlSec)

/-- The cleanup that one call in ten starts with. -/
def cleanedFor (files : MediaFiles) (call : StoreCall) : MediaFiles :=
  match call.cleanup with
  | some pass => cfg.cleanup files pass
  | none => files

/-- A name with a slash lies in a directory that does not exist. -/
def storeImage (files : MediaFiles) (call : StoreCall) : MediaFiles × Except StoreError CodePoints :=
  let files := cfg.cleanedFor files call
  if cfg.maxMb * 1024 * 1024 < call.image.length then (files, .error .tooLarge)
  else if slashPoint ∈ call.filename then (files, .error .osError)
  else
    match call.write with
    | .failed none => (files, .error .osError)
    | .failed (some left) => (files.put (call.filename, ⟨left, call.written⟩), .error .osError)
    | .written =>
      (files.put (call.filename, ⟨call.image, call.written⟩),
        cfg.generateToken hmac call.filename call.channelId (cfg.expiryOf call))

end MediaConfig

/-! ## Runs -/

inductive MediaAction where
  | store (call : StoreCall)
  | cleanup (pass : CleanupPass)

def StoreCall.readings (call : StoreCall) : List ℚ := (call.cleanup.map CleanupPass.now).toList ++ [call.now]

def MediaAction.readings : MediaAction → List ℚ
  | .store call => call.readings
  | .cleanup pass => [pass.now]

namespace MediaConfig
variable (hmac : HmacSha256) (cfg : MediaConfig)

def act (files : MediaFiles) : MediaAction → MediaFiles
  | .store call => (cfg.storeImage hmac files call).1
  | .cleanup pass => cfg.cleanup files pass

def filesAfter (actions : List MediaAction) : MediaFiles := actions.foldl (cfg.act hmac) Table.empty

/-- The file name, the channel and the expiry of a call that returns a token. -/
def issuedBy (files : MediaFiles) : MediaAction → Option (CodePoints × CodePoints × ℤ)
  | .cleanup _ => none
  | .store call =>
    match (cfg.storeImage hmac files call).2 with
    | .ok _ => some (call.filename, call.channelId, cfg.expiryOf call)
    | .error _ => none

/-- Some call of the run returned a token with these fields. -/
def Issued (actions : List MediaAction) (fields : CodePoints × CodePoints × ℤ) : Prop :=
  ∃ before a, before ++ [a] <+: actions ∧
    cfg.issuedBy hmac (cfg.filesAfter hmac before) a = some fields

/-- The clock starts no earlier than its epoch, does not go back, and reads `now` last. -/
def InOrder (actions : List MediaAction) (now : ℚ) : Prop :=
  (0 :: actions.flatMap MediaAction.readings ++ [now]).Pairwise (· ≤ ·)

instance (actions : List MediaAction) (now : ℚ) : Decidable (InOrder actions now) :=
  inferInstanceAs (Decidable (List.Pairwise _ _))

/-- The random name is not drawn a second time. -/
def NotRedrawn (filename : CodePoints) (actions : List MediaAction) : Prop :=
  ∀ call, MediaAction.store call ∈ actions → call.filename ≠ filename

/-- Whatever comes in between, the token leads to the image until its expiry and nowhere after. -/
def OpensStored (before : List MediaAction) (call : StoreCall) (token : CodePoints) : Prop :=
  ∀ between now, InOrder (before ++ [.store call] ++ between) now →
    NotRedrawn call.filename between →
    (truncate now ≤ cfg.expiryOf call →
      cfg.getImagePath hmac (cfg.filesAfter hmac (before ++ [.store call] ++ between)) token now =
          some (cfg.mediaDir ++ [call.filename]) ∧
        ((cfg.filesAfter hmac (before ++ [.store call] ++ between)).get? call.filename).map
          (fun row => row.2.content) = some call.image) ∧
    (cfg.expiryOf call < truncate now →
      cfg.getImagePath hmac (cfg.filesAfter hmac (before ++ [.store call] ++ between)) token now =
        none)

/-- Whoever presents the token has its signature from a call of the run. -/
def Unforged (actions : List MediaAction) (token : CodePoints) : Prop :=
  ∀ payloadHex bytes, token.splitOn dotPoint = [payloadHex, cfg.signature hmac bytes] →
    CodePoints.fromHex payloadHex = some bytes →
    ∃ fields payload, cfg.Issued hmac actions fields ∧
      payload? fields.1 fields.2.1 fields.2.2 = some payload ∧ payload.encode = .ok bytes

end MediaConfig

end OpenClaw.Connector
