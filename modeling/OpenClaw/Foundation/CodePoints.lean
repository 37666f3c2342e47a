import OpenClaw.Foundation.PyValue
import OpenClaw.Foundation.TextBytes

/-!
# Strings as code points

A string of the source's language is a list of code points, lone surrogates among them. A lone
surrogate has no UTF-8 encoding, and `compare_digest` takes ASCII texts only.
-/

namespace Foundation

set_option autoImplicit false

abbrev CodePoints := List CodePoint

inductive TextError where
  /-- `UnicodeEncodeError` -/
  | encode
  /-- the `TypeError` of `compare_digest` -/
  | compare
  deriving DecidableEq

theorem utf8_utf8Decode {bs : List UInt8} {cs : List Char} (h : utf8Decode bs = some cs) :
    utf8 cs = bs := by
  obtain ⟨chars, hchars, rfl⟩ := Option.map_eq_some_iff.mp h
  have hsome : (bs.toByteArray.utf8Decode?).isSome := by rw [hchars]; rfl
  have hbytes := ByteArray.utf8Encode_get_utf8Decode? (b := bs.toByteArray) (h := hsome)
  have hget : bs.toByteArray.utf8Decode?.get hsome = chars := by
    rw [← Option.some.injEq, Option.some_get, hchars]
  rw [hget] at hbytes
  exact List.toByteArray_inj.mp hbytes

namespace CodePoints

def ofChars (cs : List Char) : CodePoints := cs.map fun c => Fin.ofNat 0x110000 c.toNat

def ofString (s : String) : CodePoints := ofChars s.toList

def chars? (t : CodePoints) : Option (List Char) := t.mapM fun c => charOf? c.val

/-- `t.encode("utf-8")`. -/
def encode (t : CodePoints) : Except TextError (List UInt8) :=
  match t.chars? with
  | some cs => .ok (utf8 cs)
  | none => .error .encode

def isAscii (t : CodePoints) : Bool := t.all fun c => c.val < 128

/-- `str.lower` as far as ASCII results go: besides the capital letters, the Kelvin sign. -/
def lowerPoint (c : CodePoint) : CodePoint :=
  if c.val = 0x212a then 0x6b else if 65 ≤ c.val ∧ c.val ≤ 90 then c + 32 else c

def lower (t : CodePoints) : CodePoints := t.map lowerPoint

/-- `int(t)`; `none` is its `ValueError`. -/
def int? (t : CodePoints) : Option ℤ := t.chars?.bind PyText.int?

def strip (t : CodePoints) : CodePoints := PyText.stripWhere (fun c => PyText.isSpaceCode c.val) t

/-- `t.rfind(c)`. -/
def rfind (c : CodePoint) : CodePoints → Option ℕ
  | [] => none
  | d :: t =>
    match rfind c t with
    | some i => some (i + 1)
    | none => if d = c then some 0 else none

theorem rfind_lt {c : CodePoint} {t : CodePoints} {i : ℕ} (h : rfind c t = some i) :
    i < t.length := by
  induction t generalizing i with
  | nil => cases h
  | cons d t ih =>
    rw [rfind] at h
    split at h
    · rename_i j hj
      cases h
      exact Nat.succ_lt_succ (ih hj)
    · split at h
      · cases h
        exact Nat.succ_pos _
      · cases h

/-- First and last code points of the digits that are no decimal digits. -/
def otherDigits : List (ℕ × ℕ) :=
  [(0xb2, 0xb3), (0xb9, 0xb9), (0x1369, 0x1371), (0x19da, 0x19da), (0x2070, 0x2070),
    (0x2074, 0x2079), (0x2080, 0x2089), (0x2460, 0x2468), (0x2474, 0x247c), (0x2488, 0x2490),
    (0x24ea, 0x24ea), (0x24f5, 0x24fd), (0x24ff, 0x24ff), (0x2776, 0x277e), (0x2780, 0x2788),
    (0x278a, 0x2792), (0x10a40, 0x10a43), (0x10e60, 0x10e68), (0x11052, 0x1105a),
    (0x1f100, 0x1f10a)]

def isDigitPoint (c : CodePoint) : Bool :=
  (PyText.decimalCode? c.val).isSome || otherDigits.any fun r => decide (r.1 ≤ c.val ∧ c.val ≤ r.2)

/-- `str.isdigit`. -/
def isDigit (t : CodePoints) : Bool := t ≠ [] ∧ t.all isDigitPoint

def compareDigest (a b : CodePoints) : Except TextError Bool :=
  if a.isAscii = false ∨ b.isAscii = false then .error .compare else .ok (decide (a = b))

theorem val_ofChars (c : Char) : (Fin.ofNat 0x110000 c.toNat).val = c.toNat := by
  have hvalid : c.toNat.isValidChar := c.valid
  have hlt : c.toNat < 0x110000 := by
    rcases hvalid with h | h <;> omega
  exact Nat.mod_eq_of_lt hlt

theorem chars?_ofChars (cs : List Char) : (ofChars cs).chars? = some cs := by
  unfold chars? ofChars
  induction cs with
  | nil => rfl
  | cons c cs ih =>
    rw [List.map_cons, List.mapM_cons, val_ofChars, charOf?_toNat, ih]
    rfl

theorem encode_ofChars (cs : List Char) : (ofChars cs).encode = .ok (utf8 cs) := by
  rw [encode, chars?_ofChars]

/-- A text with an encoding is made of characters. -/
theorem encode_eq_ok {t : CodePoints} {bs : List UInt8} (h : t.encode = .ok bs) :
    ∃ cs, t.chars? = some cs ∧ utf8 cs = bs := by
  unfold encode at h
  split at h
  · rename_i cs hcs
    exact ⟨cs, hcs, Except.ok.inj h⟩
  · cases h

theorem ofChars_chars? {t : CodePoints} {cs : List Char} (h : t.chars? = some cs) :
    ofChars cs = t := by
  unfold chars? at h
  induction t generalizing cs with
  | nil =>
    cases h
    rfl
  | cons u t ih =>
    rw [List.mapM_cons] at h
    obtain ⟨c, hc, h⟩ := Option.bind_eq_some_iff.mp h
    obtain ⟨rest, hrest, h⟩ := Option.bind_eq_some_iff.mp h
    cases h
    have hu : Fin.ofNat 0x110000 c.toNat = u := by
      apply Fin.ext
      rw [val_ofChars, toNat_charOf? hc]
    rw [ofChars, List.map_cons, hu]
    exact congrArg (u :: ·) (ih hrest)

theorem hex_isAscii (bytes : List UInt8) : (ofChars (hex bytes)).isAscii = true := by
  rw [isAscii, List.all_eq_true]
  intro c hc
  obtain ⟨d, hd, rfl⟩ := List.mem_map.mp hc
  obtain ⟨n, hn, rfl⟩ := hex_digits bytes d hd
  have hall : ∀ n < 16, decide ((Fin.ofNat 0x110000 (Json.hexDigit n).toNat).val < 128) = true := by
    decide
  exact hall n hn

theorem compareDigest_ok {a b : CodePoints} (ha : a.isAscii = true) (hb : b.isAscii = true) :
    compareDigest a b = .ok (decide (a = b)) := by
  unfold compareDigest
  rw [ha, hb, if_neg (by simp)]

theorem ofChars_injective : Function.Injective ofChars := by
  intro cs ds h
  have hchars := chars?_ofChars cs
  rw [h, chars?_ofChars] at hchars
  exact (Option.some.inj hchars).symm

theorem strip_ofChars (cs : List Char) : strip (ofChars cs) = ofChars (PyText.strip cs) := by
  have hcode : ((fun c : CodePoint => PyText.isSpaceCode c.val) ∘
      fun c : Char => Fin.ofNat 0x110000 c.toNat) = PyText.isSpace := by
    funext c
    exact congrArg PyText.isSpaceCode (val_ofChars c)
  unfold strip ofChars PyText.strip PyText.stripWhere
  rw [List.dropWhile_map, hcode, List.rdropWhile, ← List.map_reverse, List.dropWhile_map, hcode,
    ← List.map_reverse]
  rfl

theorem isAscii_ofChars (cs : List Char) : (ofChars cs).isAscii = cs.all fun c => c.toNat < 128 := by
  rw [isAscii, ofChars, List.all_map]
  congr 1
  funext c
  simp only [Function.comp, val_ofChars]

theorem toNat_toLower (c : Char) :
    c.toLower.toNat = if 65 ≤ c.toNat ∧ c.toNat ≤ 90 then c.toNat + 32 else c.toNat := by
  have hbounds : (c.val ≥ 'A'.val ∧ c.val ≤ 'Z'.val) ↔ (65 ≤ c.toNat ∧ c.toNat ≤ 90) := by
    rw [ge_iff_le, UInt32.le_iff_toNat_le, UInt32.le_iff_toNat_le]
    rfl
  unfold Char.toLower
  split
  · rename_i h
    have hlow := hbounds.mp h
    rw [if_pos hlow]
    have hsum : (c.val + ('a'.val - 'A'.val)).toNat = (c.val.toNat + 32) % 2 ^ 32 :=
      UInt32.toNat_add _ _
    have hval : c.val.toNat = c.toNat := rfl
    rw [hval, Nat.mod_eq_of_lt (by omega)] at hsum
    exact hsum
  · rename_i h
    rw [if_neg (mt hbounds.mpr h)]

theorem lower_ofChars (cs : List Char) : lower (ofChars cs) =
    ofChars (cs.map fun c => if c.toNat = 0x212a then 'k' else c.toLower) := by
  have hpoint : ∀ c : Char, lowerPoint (Fin.ofNat 0x110000 c.toNat) =
      Fin.ofNat 0x110000 (if c.toNat = 0x212a then 'k' else c.toLower).toNat := by
    intro c
    unfold lowerPoint
    rw [val_ofChars]
    split
    · rfl
    apply Fin.ext
    rw [val_ofChars, toNat_toLower]
    split
    · rename_i hcapital
      rw [Fin.val_add, val_ofChars]
      exact Nat.mod_eq_of_lt (by simp; omega)
    · exact val_ofChars c
  unfold lower ofChars
  rw [List.map_map, List.map_map]
  exact List.map_congr_left fun c _ => hpoint c

theorem lower_isAscii {t : CodePoints} (h : t.isAscii = true) :
    (CodePoints.lower t).isAscii = true := by
  rw [CodePoints.isAscii, List.all_eq_true] at h ⊢
  intro c hc
  obtain ⟨d, hd, rfl⟩ := List.mem_map.mp hc
  have hlow := of_decide_eq_true (h d hd)
  rw [decide_eq_true_eq]
  unfold CodePoints.lowerPoint
  split
  · decide
  split
  · rename_i hcapital
    have hadd : (d + 32).val = d.val + 32 := by
      rw [Fin.val_add]
      exact Nat.mod_eq_of_lt (by simp; omega)
    omega
  · exact hlow

theorem int?_ofChars (cs : List Char) : int? (ofChars cs) = PyText.int? cs := by
  rw [int?, chars?_ofChars, Option.bind_some]

end CodePoints

end Foundation
