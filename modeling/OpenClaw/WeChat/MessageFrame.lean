import Mathlib.Algebra.Group.Nat.Defs
import OpenClaw.Foundation.Base64

/-!
# Frames of encrypted messages

What the parser of the decrypted bytes takes for a frame, against the format: which inputs it accepts
although they are none, and which it stumbles over.
-/

namespace OpenClaw.WeChat

open Foundation
set_option autoImplicit false

/-!
## Encrypted messages

`decrypt_wechat_message` of `connector/platforms/wechat_webhook.py`. AES in CBC mode stands for any
bijection on the byte strings of whole blocks.
-/

section Decryption

/-- AES in CBC mode, by key and initialisation vector. -/
structure CbcCipher where
  encrypt : List UInt8 → List UInt8 → List UInt8 → List UInt8
  decrypt : List UInt8 → List UInt8 → List UInt8 → List UInt8
  length_encrypt : ∀ key iv data, (encrypt key iv data).length = data.length
  length_decrypt : ∀ key iv data, (decrypt key iv data).length = data.length
  decrypt_encrypt : ∀ key iv data, 16 ∣ data.length → decrypt key iv (encrypt key iv data) = data
  encrypt_decrypt : ∀ key iv data, 16 ∣ data.length → encrypt key iv (decrypt key iv data) = data

/-- What a `ValueError` is about. -/
inductive ValueErrorKind where
  | base64
  | keyLength (got : ℕ)
  | blockBoundary
  | padding
  | unicodeDecode
  | appIdMismatch (expected got : CodePoints)
  deriving DecidableEq

inductive DecryptError where
  | valueError (kind : ValueErrorKind)
  /-- `plaintext[-1]` of nothing -/
  | indexError
  /-- `unpack` of fewer than four bytes -/
  | structError
  deriving DecidableEq

/-- `struct.unpack("!I", data)`. -/
def unpackLength : List UInt8 → Option ℕ
  | [a, b, c, d] => some (((a.toNat * 256 + b.toNat) * 256 + c.toNat) * 256 + d.toNat)
  | _ => none

/-- `struct.pack("!I", n)`. -/
def packLength (n : ℕ) : List UInt8 :=
  [UInt8.ofNat (n / 16777216), UInt8.ofNat (n / 65536), UInt8.ofNat (n / 256), UInt8.ofNat n]

/-- `plaintext[:-pad_len]`. -/
def unpadded (plaintext : List UInt8) (padLen : ℕ) : List UInt8 :=
  plaintext.take (plaintext.length - padLen)

/-- The padding off, then 16 random bytes, the length, the message and the app id. -/
def parsePlaintext (appId : CodePoints) (plaintext : List UInt8) :
    Except DecryptError (List UInt8) :=
  match plaintext.getLast? with
  | none => .error .indexError
  | some padLen =>
    if ¬ (1 ≤ padLen.toNat ∧ padLen.toNat ≤ 32) then .error (.valueError .padding)
    else
      let content := (unpadded plaintext padLen.toNat).drop 16
      match unpackLength (content.take 4) with
      | none => .error .structError
      | some msgLen =>
        let msg := (content.drop 4).take msgLen
        match utf8Decode (content.drop (4 + msgLen)) with
        | none => .error (.valueError .unicodeDecode)
        | some fromAppId =>
          if CodePoints.ofChars fromAppId ≠ appId then
            .error (.valueError (.appIdMismatch appId (CodePoints.ofChars fromAppId)))
          else .ok msg

/-- `b64decode(encoding_aes_key + "=")`. -/
def aesKey (encodingAesKey : CodePoints) : Option (List UInt8) :=
  Base64.decode (encodingAesKey ++ [61])

/-- The decrypted bytes, or the `ValueError` on the way there. -/
def decryptedBytes (cipher : CbcCipher) (encodingAesKey ciphertextB64 : CodePoints) :
    Except ValueErrorKind (List UInt8) :=
  match aesKey encodingAesKey with
  | none => .error .base64
  | some key =>
    if key.length ≠ 32 then .error (.keyLength key.length)
    else
      match Base64.decode ciphertextB64 with
      | none => .error .base64
      | some ciphertext =>
        if ¬ 16 ∣ ciphertext.length then .error .blockBoundary
        else .ok (cipher.decrypt key (key.take 16) ciphertext)

def decryptWechatMessage (cipher : CbcCipher) (encodingAesKey appId ciphertextB64 : CodePoints) :
    Except DecryptError (List UInt8) :=
  match decryptedBytes cipher encodingAesKey ciphertextB64 with
  | .error kind => .error (.valueError kind)
  | .ok plaintext => parsePlaintext appId plaintext

/-! ## The format -/

/-- 16 random bytes, the length of the message, the message, the app id and the padding. -/
def frame (random msg appId : List UInt8) (padLen : ℕ) : List UInt8 :=
  random ++ packLength msg.length ++ msg ++ appId ++ List.replicate padLen (UInt8.ofNat padLen)

/-- The bytes are a frame around the message. -/
def Frames (appId : CodePoints) (plaintext msg : List UInt8) : Prop :=
  ∃ random id padLen, random.length = 16 ∧ msg.length < 2 ^ 32 ∧ appId.encode = .ok id ∧
    1 ≤ padLen ∧ padLen ≤ 32 ∧ plaintext = frame random msg id padLen

/-- A call raises a `ValueError`, or returns the message of the frame that was decrypted. -/
def FailClosed (cipher : CbcCipher) (encodingAesKey appId ciphertextB64 : CodePoints) : Prop :=
  match decryptWechatMessage cipher encodingAesKey appId ciphertextB64 with
  | .error (.valueError _) => True
  | .error _ => False
  | .ok msg => ∃ plaintext, decryptedBytes cipher encodingAesKey ciphertextB64 = .ok plaintext ∧
      Frames appId plaintext msg

/-- The bytes are not empty. A last byte `n` of 1 to 32 leaves 20 bytes in front of `n` more, and when
what follows the message is the app id, then these are all `n` and the length is not too long. -/
def Regular (appId : CodePoints) (plaintext : List UInt8) : Prop :=
  ∃ n, plaintext.getLast? = some n ∧ (1 ≤ n.toNat → n.toNat ≤ 32 →
    20 + n.toNat ≤ plaintext.length ∧
    ∀ msgLen, unpackLength ((plaintext.drop 16).take 4) = some msgLen →
      (utf8Decode ((unpadded plaintext n.toNat).drop (20 + msgLen))).map CodePoints.ofChars =
        some appId →
      plaintext.drop (plaintext.length - n.toNat) = List.replicate n.toNat n ∧
        20 + msgLen + n.toNat ≤ plaintext.length)

end Decryption

/-! ## The length field -/

theorem unpackLength_eq_some {bs : List UInt8} {n : ℕ} (h : unpackLength bs = some n) :
    bs = packLength n ∧ bs.length = 4 ∧ n < 2 ^ 32 := by
  unfold unpackLength at h
  split at h
  · rename_i a b c d
    have ha := a.toNat_lt
    have hb := b.toNat_lt
    have hc := c.toNat_lt
    have hd := d.toNat_lt
    have hbyte : ∀ (x : UInt8) (m : ℕ), m % 256 = x.toNat → UInt8.ofNat m = x := by
      intro x m hm
      apply UInt8.toNat_inj.mp
      rw [UInt8.toNat_ofNat']
      exact hm
    cases h
    refine ⟨?_, rfl, by omega⟩
    rw [packLength, hbyte a _ (by omega), hbyte b _ (by omega), hbyte c _ (by omega),
      hbyte d _ (by omega)]
  · cases h

theorem unpackLength_packLength {n : ℕ} (h : n < 2 ^ 32) : unpackLength (packLength n) = some n := by
  rw [packLength, unpackLength, Option.some.injEq]
  simp only [UInt8.toNat_ofNat']
  omega

theorem unpackLength_eq_none_iff {bs : List UInt8} : unpackLength bs = none ↔ bs.length ≠ 4 := by
  unfold unpackLength
  split
  · simp
  · rename_i hshape
    refine iff_of_true rfl ?_
    intro hlength
    obtain ⟨a, b, c, d, rfl⟩ := List.length_eq_four.mp hlength
    exact hshape a b c d rfl

theorem take_packLength (n : ℕ) (rest : List UInt8) :
    (packLength n ++ rest).take 4 = packLength n := List.take_left' rfl

theorem drop_packLength (n : ℕ) (rest : List UInt8) : (packLength n ++ rest).drop 4 = rest :=
  List.drop_left' rfl

/-! ## Frames -/

section Frame
variable {random msg id : List UInt8} {padLen : ℕ}

theorem length_frame : (frame random msg id padLen).length =
    random.length + 4 + msg.length + id.length + padLen := by
  simp [frame, packLength]
  omega

theorem getLast?_frame (h : 1 ≤ padLen) :
    (frame random msg id padLen).getLast? = some (UInt8.ofNat padLen) := by
  have hne : List.replicate padLen (UInt8.ofNat padLen) ≠ [] := by
    simp
    omega
  rw [frame, List.getLast?_append_of_ne_nil _ hne, List.getLast?_replicate, if_neg (by omega)]

theorem unpadded_frame : unpadded (frame random msg id padLen) padLen =
    random ++ packLength msg.length ++ msg ++ id := by
  unfold unpadded frame
  apply List.take_left'
  simp only [List.length_append, List.length_replicate]
  omega

theorem drop_frame : (frame random msg id padLen).drop
    ((frame random msg id padLen).length - padLen) =
      List.replicate padLen (UInt8.ofNat padLen) := by
  unfold frame
  apply List.drop_left'
  simp only [List.length_append, List.length_replicate]
  omega

theorem content_frame (h : random.length = 16) :
    (unpadded (frame random msg id padLen) padLen).drop 16 = packLength msg.length ++ (msg ++ id) := by
  rw [unpadded_frame, List.append_assoc, List.append_assoc]
  exact List.drop_left' h

end Frame

theorem toNat_padLen {padLen : ℕ} (h : padLen ≤ 32) : (UInt8.ofNat padLen).toNat = padLen := by
  rw [UInt8.toNat_ofNat']
  omega

/-- A frame is parsed as it was built. -/
theorem parsePlaintext_frame {appId : CodePoints} {random msg id : List UInt8} {padLen : ℕ}
    (hrandom : random.length = 16) (hmsg : msg.length < 2 ^ 32) (hid : appId.encode = .ok id)
    (hpos : 1 ≤ padLen) (hle : padLen ≤ 32) :
    parsePlaintext appId (frame random msg id padLen) = .ok msg := by
  obtain ⟨cs, hcs, rfl⟩ := CodePoints.encode_eq_ok hid
  have hn := toNat_padLen hle
  unfold parsePlaintext
  rw [getLast?_frame hpos]
  dsimp only
  rw [hn, if_neg (by simp [hpos, hle]), content_frame hrandom]
  rw [take_packLength, unpackLength_packLength hmsg]
  dsimp only
  rw [← List.drop_drop, drop_packLength, List.drop_left, utf8Decode_utf8]
  dsimp only
  rw [if_neg (not_not.mpr (CodePoints.ofChars_chars? hcs)), List.take_left]

/-! ## What is parsed -/

/-- `FailClosed` of the parser on given bytes. -/
def ParsesClosed (appId : CodePoints) (plaintext : List UInt8) : Prop :=
  match parsePlaintext appId plaintext with
  | .error (.valueError _) => True
  | .error _ => False
  | .ok msg => Frames appId plaintext msg

section Parse
variable {appId : CodePoints} {plaintext : List UInt8} {n : UInt8}

variable (plaintext) in
theorem length_unpadded (k : ℕ) : (unpadded plaintext k).length = plaintext.length - k := by
  rw [unpadded, List.length_take]
  omega

/-- With 20 bytes in front of the padding, the length field is not cut. -/
theorem lengthField_eq {k : ℕ} (h : 20 + k ≤ plaintext.length) :
    ((unpadded plaintext k).drop 16).take 4 = (plaintext.drop 16).take 4 := by
  rw [unpadded, List.drop_take, List.take_take, min_eq_left (by omega)]

theorem length_lengthField (h : 20 ≤ plaintext.length) :
    ((plaintext.drop 16).take 4).length = 4 := by
  rw [List.length_take, List.length_drop]
  omega

theorem unpadded_append (k : ℕ) :
    unpadded plaintext k ++ plaintext.drop (plaintext.length - k) = plaintext :=
  List.take_append_drop _ _

/-- Bytes that are accepted form a frame exactly when the padding is uniform and the length fits. -/
theorem frames_iff {msgLen : ℕ} {cs : List Char} {msg : List UInt8}
    (hlast : plaintext.getLast? = some n) (hpos : 1 ≤ n.toNat) (hle : n.toNat ≤ 32)
    (hroom : 20 + n.toNat ≤ plaintext.length)
    (hlen : unpackLength ((plaintext.drop 16).take 4) = some msgLen)
    (hid : utf8Decode ((unpadded plaintext n.toNat).drop (20 + msgLen)) = some cs)
    (hmsg : msg = ((unpadded plaintext n.toNat).drop 20).take msgLen) :
    Frames (CodePoints.ofChars cs) plaintext msg ↔
      plaintext.drop (plaintext.length - n.toNat) = List.replicate n.toNat n ∧
        20 + msgLen + n.toNat ≤ plaintext.length := by
  constructor
  · rintro ⟨random, id, padLen, hrandom, hbound, _, hpos', hle', rfl⟩
    rw [getLast?_frame hpos'] at hlast
    cases hlast
    rw [toNat_padLen hle'] at hroom ⊢
    rw [← lengthField_eq hroom, content_frame hrandom, take_packLength,
      unpackLength_packLength hbound] at hlen
    cases hlen
    refine ⟨drop_frame, ?_⟩
    rw [length_frame]
    omega
  · rintro ⟨hpad, hfits⟩
    obtain ⟨hfield, _, hbound⟩ := unpackLength_eq_some hlen
    have hunpadded := length_unpadded plaintext n.toNat
    have hlength : msg.length = msgLen := by
      rw [hmsg, List.length_take, List.length_drop, hunpadded]
      omega
    refine ⟨(unpadded plaintext n.toNat).take 16, utf8 cs, n.toNat, ?_, by omega,
      CodePoints.encode_ofChars cs, hpos, hle, ?_⟩
    · rw [List.length_take, hunpadded]
      omega
    · have hrest : (unpadded plaintext n.toNat).drop 20 = msg ++ utf8 cs := by
        rw [utf8_utf8Decode hid, hmsg, ← List.drop_drop, List.take_append_drop]
      have hcontent : (unpadded plaintext n.toNat).drop 16 =
          packLength msgLen ++ (msg ++ utf8 cs) := by
        rw [← hrest, ← hfield, ← lengthField_eq hroom]
        have hsplit : (unpadded plaintext n.toNat).drop 20 =
            ((unpadded plaintext n.toNat).drop 16).drop 4 := by rw [List.drop_drop]
        rw [hsplit, List.take_append_drop]
      calc plaintext = unpadded plaintext n.toNat ++
            plaintext.drop (plaintext.length - n.toNat) := (unpadded_append n.toNat).symm
        _ = (unpadded plaintext n.toNat).take 16 ++ (unpadded plaintext n.toNat).drop 16 ++
            List.replicate n.toNat n := by rw [List.take_append_drop, hpad]
        _ = frame ((unpadded plaintext n.toNat).take 16) msg (utf8 cs) n.toNat := by
            rw [hcontent, frame, hlength, UInt8.ofNat_toNat]
            simp only [List.append_assoc]

/-- The parser fails closed on exactly the regular inputs. -/
theorem parsesClosed_iff (appId : CodePoints) (plaintext : List UInt8) :
    ParsesClosed appId plaintext ↔ Regular appId plaintext := by
  unfold ParsesClosed parsePlaintext
  cases hlast : plaintext.getLast? with
  | none =>
    dsimp only
    refine iff_of_false id ?_
    rintro ⟨n, hn, _⟩
    rw [hlast] at hn
    cases hn
  | some n =>
    dsimp only
    have hregular : Regular appId plaintext ↔ (1 ≤ n.toNat → n.toNat ≤ 32 →
        20 + n.toNat ≤ plaintext.length ∧
        ∀ msgLen, unpackLength ((plaintext.drop 16).take 4) = some msgLen →
          (utf8Decode ((unpadded plaintext n.toNat).drop (20 + msgLen))).map CodePoints.ofChars =
            some appId →
          plaintext.drop (plaintext.length - n.toNat) = List.replicate n.toNat n ∧
            20 + msgLen + n.toNat ≤ plaintext.length) := by
      unfold Regular
      rw [hlast]
      simp only [Option.some.injEq, exists_eq_left']
    rw [hregular]
    by_cases hn : 1 ≤ n.toNat ∧ n.toNat ≤ 32
    · obtain ⟨hpos, hle⟩ := hn
      rw [if_neg (by simp [hpos, hle])]
      by_cases hroom : 20 + n.toNat ≤ plaintext.length
      · rw [lengthField_eq hroom]
        have hfour := length_lengthField (show 20 ≤ plaintext.length by omega)
        obtain ⟨msgLen, hlen⟩ := Option.ne_none_iff_exists'.mp
          (mt unpackLength_eq_none_iff.mp (not_not.mpr hfour))
        rw [hlen]
        dsimp only
        rw [List.drop_drop, List.drop_drop, show 16 + 4 = 20 from rfl,
          show 16 + (4 + msgLen) = 20 + msgLen by omega]
        cases hid : utf8Decode ((unpadded plaintext n.toNat).drop (20 + msgLen)) with
        | none => simp [hid, hroom]
        | some cs =>
          dsimp only
          by_cases happ : CodePoints.ofChars cs = appId
          · subst happ
            rw [if_neg (not_not.mpr rfl)]
            simp only [hroom, hpos, hle, hid, Option.some.injEq, forall_eq', Option.map_some,
              true_and, forall_const]
            exact frames_iff hlast hpos hle hroom hlen hid rfl
          · rw [if_pos happ]
            simp [hid, hroom, happ]
      · have hshort : unpackLength (((unpadded plaintext n.toNat).drop 16).take 4) = none := by
          rw [unpackLength_eq_none_iff, List.length_take, List.length_drop, length_unpadded]
          omega
        rw [hshort]
        simp [hroom, hpos, hle]
    · rw [if_pos hn]
      refine iff_of_true trivial ?_
      intro hpos hle
      exact absurd ⟨hpos, hle⟩ hn

end Parse

/-! ## Calls -/

/-- Every message that is framed, encrypted and encoded under the key is read back. -/
def Opens (cipher : CbcCipher) (encodingAesKey appId : CodePoints) : Prop :=
  ∀ key random msg id padLen, aesKey encodingAesKey = some key → key.length = 32 →
    random.length = 16 → msg.length < 2 ^ 32 → appId.encode = .ok id → 1 ≤ padLen → padLen ≤ 32 →
    16 ∣ (frame random msg id padLen).length →
    decryptWechatMessage cipher encodingAesKey appId
      (Base64.encode (cipher.encrypt key (key.take 16) (frame random msg id padLen))) = .ok msg

theorem opens (cipher : CbcCipher) (encodingAesKey appId : CodePoints) :
    Opens cipher encodingAesKey appId := by
  intro key random msg id padLen hkey hsize hrandom hmsg hid hpos hle hblocks
  unfold decryptWechatMessage decryptedBytes
  rw [hkey]
  dsimp only
  rw [if_neg (not_not.mpr hsize), Base64.decode_encode]
  dsimp only
  rw [cipher.length_encrypt, if_neg (not_not.mpr hblocks), cipher.decrypt_encrypt _ _ _ hblocks]
  exact parsePlaintext_frame hrandom hmsg hid hpos hle

theorem failClosed_iff (cipher : CbcCipher) (encodingAesKey appId ciphertextB64 : CodePoints) :
    FailClosed cipher encodingAesKey appId ciphertextB64 ↔
      ∀ plaintext, decryptedBytes cipher encodingAesKey ciphertextB64 = .ok plaintext →
        Regular appId plaintext := by
  unfold FailClosed decryptWechatMessage
  cases hbytes : decryptedBytes cipher encodingAesKey ciphertextB64 with
  | error kind => simp
  | ok plaintext =>
    simp only [Except.ok.injEq, forall_eq', exists_eq_left']
    rw [← parsesClosed_iff]
    rfl

/-- A call fails closed exactly when the decrypted bytes, if there are any, are regular; and every
message that is framed is read back. -/
theorem decrypt_failClosed_iff (cipher : CbcCipher) (encodingAesKey appId : CodePoints) :
    (∀ ciphertextB64, FailClosed cipher encodingAesKey appId ciphertextB64 ↔
      ∀ plaintext, decryptedBytes cipher encodingAesKey ciphertextB64 = .ok plaintext →
        Regular appId plaintext) ∧ Opens cipher encodingAesKey appId :=
  ⟨failClosed_iff cipher encodingAesKey appId, opens cipher encodingAesKey appId⟩

section NoBytes

/-- The identity, which is a bijection on the whole blocks as well. -/
def plainCipher : CbcCipher where
  encrypt _ _ data := data
  decrypt _ _ data := data
  length_encrypt _ _ _ := rfl
  length_decrypt _ _ _ := rfl
  decrypt_encrypt _ _ _ _ := rfl
  encrypt_decrypt _ _ _ _ := rfl

/-- 43 signs, 32 zero bytes. -/
def zeroAesKey : CodePoints := List.replicate 43 65

def wxApp : CodePoints := CodePoints.ofString "wx1"

/-- The message `hi` for the app, with seven bytes of padding. -/
theorem decrypt_hi : decryptWechatMessage plainCipher zeroAesKey wxApp
    (Base64.encode (frame (List.replicate 16 7) [104, 105] [119, 120, 49] 7)) = .ok [104, 105] :=
  (decrypt_failClosed_iff plainCipher zeroAesKey wxApp).2 (List.replicate 32 0)
    (List.replicate 16 7) [104, 105] [119, 120, 49] 7 (by decide +kernel) rfl rfl (by decide)
    (by decide +kernel) (by decide) (by decide) (by decide +kernel)

/-- A lone padding sign decodes to no bytes, of which there is no last one. -/
theorem decrypt_noBytes : ¬ ∀ (cipher : CbcCipher) (encodingAesKey appId ciphertextB64 : CodePoints),
    FailClosed cipher encodingAesKey appId ciphertextB64 := by
  intro h
  have hraises : decryptWechatMessage plainCipher zeroAesKey wxApp [61] = .error .indexError := by
    decide +kernel
  have hclosed := h plainCipher zeroAesKey wxApp [61]
  rw [FailClosed, hraises] at hclosed
  exact hclosed

end NoBytes

end OpenClaw.WeChat
