import OpenClaw.Foundation.CodePoints

/-!
# Base64

The encoder, and the decoder that is not strict: it skips what is not in the alphabet, starts a group
anew after data behind a padding sign, and stops at a complete padding.
-/

namespace Foundation.Base64

set_option autoImplicit false

/-- The code of the sign for six bits. -/
def signOf (v : ℕ) : ℕ :=
  if v < 26 then 65 + v else if v < 52 then 71 + v else if v < 62 then v - 4
  else if v = 62 then 43 else 47

def sextet? (c : ℕ) : Option ℕ :=
  if 65 ≤ c ∧ c ≤ 90 then some (c - 65) else if 97 ≤ c ∧ c ≤ 122 then some (c - 71)
  else if 48 ≤ c ∧ c ≤ 57 then some (c + 4) else if c = 43 then some 62
  else if c = 47 then some 63 else none

/-- `=`. -/
def padSign : ℕ := 61

def encodeBytes : List UInt8 → List ℕ
  | [] => []
  | [a] => [signOf (a.toNat / 4), signOf (a.toNat % 4 * 16), padSign, padSign]
  | [a, b] => [signOf (a.toNat / 4), signOf (a.toNat % 4 * 16 + b.toNat / 16),
      signOf (b.toNat % 16 * 4), padSign]
  | a :: b :: c :: rest =>
    signOf (a.toNat / 4) :: signOf (a.toNat % 4 * 16 + b.toNat / 16) ::
      signOf (b.toNat % 16 * 4 + c.toNat / 64) :: signOf (c.toNat % 64) :: encodeBytes rest

/-- `b64encode`, as text. -/
def encode (bs : List UInt8) : CodePoints := (encodeBytes bs).map (Fin.ofNat 0x110000)

/-- `a2b_base64`; `quad` signs of the group have been read, the bits in `left` are still to be used. -/
def decodeCodes (quad left pads : ℕ) : List ℕ → Option (List UInt8)
  | [] => if quad = 0 then some [] else none
  | c :: cs =>
    if c = padSign then
      if 2 ≤ quad then
        if 4 ≤ quad + (pads + 1) then some [] else decodeCodes quad left (pads + 1) cs
      else decodeCodes quad left pads cs
    else
      match sextet? c with
      | none => decodeCodes quad left pads cs
      | some v =>
        match quad with
        | 0 => decodeCodes 1 v 0 cs
        | 1 => (decodeCodes 2 (v % 16) 0 cs).map (UInt8.ofNat (left * 4 + v / 16) :: ·)
        | 2 => (decodeCodes 3 (v % 4) 0 cs).map (UInt8.ofNat (left * 16 + v / 4) :: ·)
        | _ => (decodeCodes 0 0 0 cs).map (UInt8.ofNat (left * 64 + v) :: ·)

/-- `b64decode` of a text; `none` is its `ValueError`. -/
def decode (t : CodePoints) : Option (List UInt8) :=
  if t.isAscii then decodeCodes 0 0 0 (t.map Fin.val) else none

/-! ## Round trip -/

theorem sextet?_signOf {v : ℕ} (h : v < 64) : sextet? (signOf v) = some v := by
  have hall : ∀ v < 64, sextet? (signOf v) = some v := by decide
  exact hall v h

theorem signOf_ne_padSign {v : ℕ} (h : v < 64) : signOf v ≠ padSign := by
  have hall : ∀ v < 64, signOf v ≠ padSign := by decide
  exact hall v h

theorem signOf_lt {v : ℕ} (h : v < 64) : signOf v < 128 := by
  have hall : ∀ v < 64, signOf v < 128 := by decide
  exact hall v h

section Signs
variable {v : ℕ} (h : v < 64) (left pads : ℕ) (cs : List ℕ)
include h

theorem decodeCodes_sign0 :
    decodeCodes 0 left pads (signOf v :: cs) = decodeCodes 1 v 0 cs := by
  refine (if_neg (signOf_ne_padSign h)).trans ?_
  rw [sextet?_signOf h]
  rfl

theorem decodeCodes_sign1 : decodeCodes 1 left pads (signOf v :: cs) =
    (decodeCodes 2 (v % 16) 0 cs).map (UInt8.ofNat (left * 4 + v / 16) :: ·) := by
  refine (if_neg (signOf_ne_padSign h)).trans ?_
  rw [sextet?_signOf h]
  rfl

theorem decodeCodes_sign2 : decodeCodes 2 left pads (signOf v :: cs) =
    (decodeCodes 3 (v % 4) 0 cs).map (UInt8.ofNat (left * 16 + v / 4) :: ·) := by
  refine (if_neg (signOf_ne_padSign h)).trans ?_
  rw [sextet?_signOf h]
  rfl

theorem decodeCodes_sign3 : decodeCodes 3 left pads (signOf v :: cs) =
    (decodeCodes 0 0 0 cs).map (UInt8.ofNat (left * 64 + v) :: ·) := by
  refine (if_neg (signOf_ne_padSign h)).trans ?_
  rw [sextet?_signOf h]
  rfl

end Signs

theorem ofNat_of_eq {n : ℕ} {b : UInt8} (h : n = b.toNat) : UInt8.ofNat n = b := by
  rw [h, UInt8.ofNat_toNat]

theorem decodeCodes_encodeBytes (bs : List UInt8) : decodeCodes 0 0 0 (encodeBytes bs) = some bs := by
  induction bs using encodeBytes.induct with
  | case1 => rfl
  | case2 a =>
    have ha := a.toNat_lt
    rw [encodeBytes, decodeCodes_sign0 (by omega), decodeCodes_sign1 (by omega),
      ofNat_of_eq (b := a) (by omega)]
    rfl
  | case3 a b =>
    have ha := a.toNat_lt
    have hb := b.toNat_lt
    rw [encodeBytes, decodeCodes_sign0 (by omega), decodeCodes_sign1 (by omega),
      ofNat_of_eq (b := a) (by omega), decodeCodes_sign2 (by omega),
      ofNat_of_eq (b := b) (by omega)]
    rfl
  | case4 a b c rest ih =>
    have ha := a.toNat_lt
    have hb := b.toNat_lt
    have hc := c.toNat_lt
    rw [encodeBytes, decodeCodes_sign0 (by omega), decodeCodes_sign1 (by omega),
      ofNat_of_eq (b := a) (by omega), decodeCodes_sign2 (by omega),
      ofNat_of_eq (b := b) (by omega), decodeCodes_sign3 (by omega),
      ofNat_of_eq (b := c) (by omega), ih]
    rfl

theorem encodeBytes_lt (bs : List UInt8) : ∀ c ∈ encodeBytes bs, c < 128 := by
  induction bs using encodeBytes.induct with
  | case1 => simp [encodeBytes]
  | case2 a =>
    have ha := a.toNat_lt
    intro c hc
    simp only [encodeBytes, List.mem_cons, List.not_mem_nil, or_false] at hc
    rcases hc with rfl | rfl | rfl | rfl
    · exact signOf_lt (by omega)
    · exact signOf_lt (by omega)
    · decide
    · decide
  | case3 a b =>
    have ha := a.toNat_lt
    have hb := b.toNat_lt
    intro c hc
    simp only [encodeBytes, List.mem_cons, List.not_mem_nil, or_false] at hc
    rcases hc with rfl | rfl | rfl | rfl
    · exact signOf_lt (by omega)
    · exact signOf_lt (by omega)
    · exact signOf_lt (by omega)
    · decide
  | case4 a b d rest ih =>
    have ha := a.toNat_lt
    have hb := b.toNat_lt
    have hd := d.toNat_lt
    intro c hc
    simp only [encodeBytes, List.mem_cons] at hc
    rcases hc with rfl | rfl | rfl | rfl | hc
    · exact signOf_lt (by omega)
    · exact signOf_lt (by omega)
    · exact signOf_lt (by omega)
    · exact signOf_lt (by omega)
    · exact ih c hc

theorem val_ofNat {n : ℕ} (h : n < 128) : (Fin.ofNat 0x110000 n).val = n :=
  Nat.mod_eq_of_lt (by omega)

theorem encode_isAscii (bs : List UInt8) : (encode bs).isAscii = true := by
  rw [CodePoints.isAscii, List.all_eq_true]
  intro c hc
  obtain ⟨n, hn, rfl⟩ := List.mem_map.mp hc
  have hlt := encodeBytes_lt bs n hn
  rw [val_ofNat hlt]
  exact decide_eq_true hlt

theorem decode_encode (bs : List UInt8) : decode (encode bs) = some bs := by
  have hvals : (encode bs).map Fin.val = encodeBytes bs := by
    rw [encode, List.map_map]
    conv_rhs => rw [← List.map_id (encodeBytes bs)]
    apply List.map_congr_left
    intro n hn
    exact val_ofNat (encodeBytes_lt bs n hn)
  rw [decode, encode_isAscii, if_pos rfl, hvals]
  exact decodeCodes_encodeBytes bs

end Foundation.Base64
