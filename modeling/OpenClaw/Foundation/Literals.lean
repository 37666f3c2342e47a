import OpenClaw.Foundation.CodePoints
import OpenClaw.Foundation.JsonScan

/-!
# Numerals, hexadecimal digits and separated texts

`int` and `bytes.fromhex` read back what `str` and `bytes.hex` write, and a text is split at its first
separator into what stood on both sides.
-/

namespace Foundation

set_option autoImplicit false

/-! ## Numerals -/

namespace PyText

theorem decimal?_of_isDigit {c : Char} (h : c.isDigit = true) : decimal? c = some (c.toNat - 48) := by
  have hcode : 48 ≤ c.toNat ∧ c.toNat < 58 := by
    simp only [Char.isDigit, Bool.and_eq_true, decide_eq_true_eq] at h
    have hlow := UInt32.le_iff_toNat_le.mp h.1
    have hhigh := UInt32.le_iff_toNat_le.mp h.2
    have hzero : ('0' : Char).val.toNat = 48 := rfl
    have hnine : ('9' : Char).val.toNat = 57 := rfl
    have hval : c.val.toNat = c.toNat := rfl
    omega
  have hall : ∀ n < 58, 48 ≤ n → decimalCode? n = some (n - 48) := by decide
  exact hall c.toNat hcode.2 hcode.1

theorem digits?_of_isDigit {cs : List Char} (hne : cs ≠ []) (h : ∀ c ∈ cs, c.isDigit = true) :
    digits? cs = some (cs.map fun c => c.toNat - 48) := by
  induction cs with
  | nil => exact absurd rfl hne
  | cons c cs ih =>
    have hc := decimal?_of_isDigit (h c List.mem_cons_self)
    cases cs with
    | nil =>
      rw [digits?, hc]
      rfl
    | cons d ds =>
      have hd : d ≠ '_' := by
        rintro rfl
        have hdigit := h '_' (by simp)
        cases hdigit
      rw [digits?, hc, ih (by simp) fun e he => h e (List.mem_cons_of_mem c he)]
      · rfl
      · intro hnil
        cases hnil
      · intro rest hrest
        cases hrest
        exact hd rfl

theorem nat?_toDigits {n : ℕ} (h : (Nat.toDigits 10 n).length ≤ maxStrDigits) :
    nat? (Nat.toDigits 10 n) = some n := by
  have hdigits := digits?_of_isDigit Nat.toDigits_ne_nil fun c hc =>
    Json.toDigits_isDigit (n := n) hc
  have hvalue : (((Nat.toDigits 10 n).map fun c => c.toNat - 48).foldl (fun m d => 10 * m + d) 0) =
      n := by
    rw [List.foldl_map]
    exact Nat.ofDigitChars_toDigits (by decide) (by decide)
  rw [nat?, hdigits, Option.bind_some, List.length_map, if_neg (by omega), hvalue]

theorem strip_eq_self {cs : List Char} (h : ∀ c ∈ cs, isSpace c = false) : strip cs = cs :=
  stripWhere_eq_self h

theorem isSpace_of_isDigit {c : Char} (h : c.isDigit = true) : isSpace c = false := by
  have hcode : 48 ≤ c.toNat ∧ c.toNat < 58 := by
    simp only [Char.isDigit, Bool.and_eq_true, decide_eq_true_eq] at h
    have hlow := UInt32.le_iff_toNat_le.mp h.1
    have hhigh := UInt32.le_iff_toNat_le.mp h.2
    have hzero : ('0' : Char).val.toNat = 48 := rfl
    have hnine : ('9' : Char).val.toNat = 57 := rfl
    have hval : c.val.toNat = c.toNat := rfl
    omega
  have hall : ∀ n < 58, 48 ≤ n → isSpaceCode n = false := by decide
  exact hall c.toNat hcode.2 hcode.1

/-- `int(str(i))`, for a numeral that is not too long to be read. -/
theorem int?_showInt {i : ℤ} (h : (Nat.toDigits 10 i.natAbs).length ≤ maxStrDigits) :
    int? (Json.showInt i) = some i := by
  have hdigit : ∀ c ∈ Nat.toDigits 10 i.natAbs, c.isDigit = true := fun c hc =>
    Json.toDigits_isDigit hc
  have hnat := nat?_toDigits h
  unfold Json.showInt
  by_cases hneg : i < 0
  · have hstrip : strip ('-' :: Nat.toDigits 10 i.natAbs) = '-' :: Nat.toDigits 10 i.natAbs := by
      apply strip_eq_self
      intro c hc
      rcases List.mem_cons.mp hc with rfl | hc
      · decide
      · exact isSpace_of_isDigit (hdigit c hc)
    rw [if_pos hneg, int?, hstrip]
    split
    · rename_i heq
      cases heq
    · rename_i heq
      cases heq
      rw [hnat]
      change some (-(i.natAbs : ℤ)) = some i
      rw [Option.some.injEq]
      omega
    · rename_i hnone
      exact absurd rfl (hnone _)
  · have hstrip : strip (Nat.toDigits 10 i.natAbs) = Nat.toDigits 10 i.natAbs :=
      strip_eq_self fun c hc => isSpace_of_isDigit (hdigit c hc)
    rw [if_neg hneg, int?, hstrip]
    split
    · rename_i heq
      have hsign := hdigit '+' (heq ▸ List.mem_cons_self)
      cases hsign
    · rename_i heq
      have hsign := hdigit '-' (heq ▸ List.mem_cons_self)
      cases hsign
    · rw [hnat]
      change some (i.natAbs : ℤ) = some i
      rw [Option.some.injEq]
      omega

theorem mem_stripWhere {α : Type*} {p : α → Bool} {xs : List α} {x : α} (hx : x ∈ xs) :
    p x = true ∨ x ∈ stripWhere p xs := by
  rw [← List.takeWhile_append_dropWhile (p := p) (l := xs), List.mem_append] at hx
  rcases hx with hx | hx
  · exact .inl (List.mem_takeWhile_imp hx)
  · rw [← List.rdropWhile_append_rtakeWhile (p := p) (l := xs.dropWhile p), List.mem_append] at hx
    rcases hx with hx | hx
    · exact .inr hx
    · exact .inl (List.mem_rtakeWhile_imp hx)

/-- Only digits and underscores make a number. -/
theorem digits?_chars {cs : List Char} {ds : List ℕ} (h : digits? cs = some ds) :
    ∀ c ∈ cs, c = '_' ∨ (decimal? c).isSome = true := by
  induction cs using digits?.induct generalizing ds with
  | case1 => cases h
  | case2 c =>
    obtain ⟨d, hd, _⟩ := Option.map_eq_some_iff.mp h
    intro c' hc'
    rw [List.mem_singleton] at hc'
    rw [hc', hd]
    exact .inr rfl
  | case3 c cs ih =>
    obtain ⟨d, hd, h⟩ := Option.bind_eq_some_iff.mp h
    obtain ⟨rest, hrest, _⟩ := Option.map_eq_some_iff.mp h
    intro c' hc'
    rcases List.mem_cons.mp hc' with rfl | hc'
    · rw [hd]
      exact .inr rfl
    · rcases List.mem_cons.mp hc' with rfl | hc'
      · exact .inl rfl
      · exact ih hrest c' hc'
  | case4 c cs hne hunderscore ih =>
    rw [digits?.eq_4 c cs hne hunderscore] at h
    obtain ⟨d, hd, h⟩ := Option.bind_eq_some_iff.mp h
    obtain ⟨rest, hrest, _⟩ := Option.map_eq_some_iff.mp h
    intro c' hc'
    rcases List.mem_cons.mp hc' with rfl | hc'
    · rw [hd]
      exact .inr rfl
    · exact ih hrest c' hc'

theorem nat?_colon {cs : List Char} (h : ':' ∈ cs) : nat? cs = none := by
  unfold nat?
  cases hdigits : digits? cs with
  | none => rfl
  | some ds =>
    rcases digits?_chars hdigits ':' h with hu | hd
    · cases hu
    · cases hd

/-- No numeral has a colon in it. -/
theorem int?_colon {cs : List Char} (h : ':' ∈ cs) : int? cs = none := by
  have hstrip : ':' ∈ strip cs := by
    rcases mem_stripWhere (p := isSpace) h with hs | hs
    · cases hs
    · exact hs
  unfold int?
  split
  · rename_i ds heq
    rw [heq] at hstrip
    rcases List.mem_cons.mp hstrip with hc | hc
    · cases hc
    · rw [nat?_colon hc]
      rfl
  · rename_i ds heq
    rw [heq] at hstrip
    rcases List.mem_cons.mp hstrip with hc | hc
    · cases hc
    · rw [nat?_colon hc]
      rfl
  · rw [nat?_colon hstrip]
    rfl

end PyText

namespace CodePoints

/-- `str(i)`; `none` is the `ValueError` of a numeral that is too long. -/
def ofInt? (i : ℤ) : Option CodePoints :=
  if (Nat.toDigits 10 i.natAbs).length ≤ PyText.maxStrDigits then some (ofChars (Json.showInt i))
  else none

theorem int?_ofInt? {i : ℤ} {t : CodePoints} (h : ofInt? i = some t) : t.int? = some i := by
  unfold ofInt? at h
  split at h
  · rename_i hlength
    cases h
    rw [int?, chars?_ofChars, Option.bind_some, PyText.int?_showInt hlength]
  · cases h

theorem int?_colon {t : CodePoints} (h : (58 : CodePoint) ∈ t) : t.int? = none := by
  unfold int?
  cases hchars : t.chars? with
  | none => rfl
  | some cs =>
    rw [← ofChars_chars? hchars] at h
    obtain ⟨c, hc, heq⟩ := List.mem_map.mp h
    have hcode : c.toNat = 58 := by
      rw [← val_ofChars, heq]
      rfl
    have hcolon : c = ':' := Char.toNat_inj.mp hcode
    exact PyText.int?_colon (hcolon ▸ hc)

/-! ## Hexadecimal digits -/

def hexValue? (c : CodePoint) : Option ℕ :=
  if 48 ≤ c.val ∧ c.val ≤ 57 then some (c.val - 48)
  else if 65 ≤ c.val ∧ c.val ≤ 70 then some (c.val - 55)
  else if 97 ≤ c.val ∧ c.val ≤ 102 then some (c.val - 87) else none

/-- `bytes.fromhex`: two digits a byte, with white space between the bytes. -/
def fromHex : CodePoints → Option (List UInt8)
  | [] => some []
  | [c] => if c.val = 32 ∨ 9 ≤ c.val ∧ c.val ≤ 13 then some [] else none
  | c :: d :: rest =>
    if c.val = 32 ∨ 9 ≤ c.val ∧ c.val ≤ 13 then fromHex (d :: rest)
    else (hexValue? c).bind fun high => (hexValue? d).bind fun low =>
      (fromHex rest).map (UInt8.ofNat (16 * high + low) :: ·)

theorem hexValue?_hexDigit {n : ℕ} (h : n < 16) :
    hexValue? (Fin.ofNat 0x110000 (Json.hexDigit n).toNat) = some n := by
  have hall : ∀ n < 16, hexValue? (Fin.ofNat 0x110000 (Json.hexDigit n).toNat) = some n := by decide
  exact hall n h

theorem hexDigit_not_space {n : ℕ} (h : n < 16) :
    ¬ ((Fin.ofNat 0x110000 (Json.hexDigit n).toNat).val = 32 ∨
      9 ≤ (Fin.ofNat 0x110000 (Json.hexDigit n).toNat).val ∧
        (Fin.ofNat 0x110000 (Json.hexDigit n).toNat).val ≤ 13) := by
  have hall : ∀ n < 16, ¬ ((Fin.ofNat 0x110000 (Json.hexDigit n).toNat).val = 32 ∨
      9 ≤ (Fin.ofNat 0x110000 (Json.hexDigit n).toNat).val ∧
        (Fin.ofNat 0x110000 (Json.hexDigit n).toNat).val ≤ 13) := by decide
  exact hall n h

theorem fromHex_hex (bs : List UInt8) : fromHex (ofChars (hex bs)) = some bs := by
  induction bs with
  | nil => rfl
  | cons b bs ih =>
    have hb := b.toNat_lt
    have hcons : ofChars (hex (b :: bs)) =
        Fin.ofNat 0x110000 (Json.hexDigit (b.toNat / 16)).toNat ::
          Fin.ofNat 0x110000 (Json.hexDigit (b.toNat % 16)).toNat :: ofChars (hex bs) := rfl
    have hbyte : UInt8.ofNat (16 * (b.toNat / 16) + b.toNat % 16) = b := by
      rw [Nat.div_add_mod, UInt8.ofNat_toNat]
    rw [hcons, fromHex, if_neg (hexDigit_not_space (by omega)), hexValue?_hexDigit (by omega),
      Option.bind_some, hexValue?_hexDigit (by omega), Option.bind_some, ih, Option.map_some, hbyte]

theorem hex_not_mem {bs : List UInt8} {c : CodePoint}
    (hc : ∀ n < 16, Fin.ofNat 0x110000 (Json.hexDigit n).toNat ≠ c) : c ∉ ofChars (hex bs) := by
  intro hmem
  obtain ⟨d, hd, rfl⟩ := List.mem_map.mp hmem
  obtain ⟨n, hn, rfl⟩ := hex_digits bs d hd
  exact hc n hn rfl

/-! ## Separators -/

/-- The text on both sides of the first separator. -/
def splitFirst (sep : CodePoint) (t : CodePoints) : Option (CodePoints × CodePoints) :=
  if sep ∈ t then some (t.takeWhile (· ≠ sep), (t.dropWhile (· ≠ sep)).tail) else none

theorem splitFirst_append {sep : CodePoint} {x : CodePoints} (h : sep ∉ x) (y : CodePoints) :
    splitFirst sep (x ++ sep :: y) = some (x, y) := by
  have hx : ∀ c ∈ x, decide (c ≠ sep) = true := by
    intro c hc
    exact decide_eq_true fun heq => h (heq ▸ hc)
  unfold splitFirst
  rw [if_pos (by simp), List.takeWhile_append_of_pos hx, List.dropWhile_append_of_pos hx]
  simp

theorem splitFirst_eq_none_iff {sep : CodePoint} {t : CodePoints} :
    splitFirst sep t = none ↔ sep ∉ t := by
  unfold splitFirst
  split
  · rename_i h
    simp [h]
  · rename_i h
    simp [h]

end CodePoints

end Foundation
