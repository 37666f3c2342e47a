import Mathlib.Data.List.TakeWhile
import OpenClaw.Foundation.JsonParse

/-!
# Reading back literals

What the parser makes of the text of a string, a number or a word, whatever stands behind it.
-/

namespace Foundation

set_option autoImplicit false

namespace Json
variable {φ : Type}

/-! ## String literals -/

theorem hexValue_hexDigit {n : ℕ} (h : n < 16) : hexValue? (hexDigit n) = some n := by
  have hall : ∀ m : Fin 16, hexValue? (hexDigit m.val) = some m.val := by decide
  exact hall ⟨n, h⟩

/-- The four digits of an escape spell the code unit. -/
theorem hexUnit_hex4 (u : CodeUnit) :
    hexUnit? (hexDigit (u.val / 4096 % 16)) (hexDigit (u.val / 256 % 16))
      (hexDigit (u.val / 16 % 16)) (hexDigit (u.val % 16)) = some u := by
  have hlt (n : ℕ) : n % 16 < 16 := Nat.mod_lt n (by decide)
  simp only [hexUnit?, hexValue_hexDigit (hlt _)]
  congr 1
  apply Fin.ext
  have hu := u.isLt
  rw [Fin.val_ofNat]
  omega

theorem scanString_plain {c : Char} {cs : List Char} (hq : c ≠ '"') (hb : c ≠ '\\')
    (hc : 32 ≤ c.toNat) : scanString (c :: cs) = (scanString cs).map (prepend (utf16 c)) := by
  rw [scanString.eq_def]
  simp only [hq, hb, if_false]
  rw [if_neg (by omega)]

theorem scanString_escape {e : Char} {u : CodeUnit} {cs : List Char} (hu : escape? e = some u) :
    scanString ('\\' :: e :: cs) = (scanString cs).map (prepend [u]) := by
  have he : e ≠ 'u' := by
    rintro rfl
    cases hu
  rw [scanString.eq_def]
  simp only [Char.reduceEq, if_false, if_true]
  split
  · rename_i heq
    cases heq
    exact absurd rfl he
  · rename_i heq
    cases heq
    rw [hu]
  · rename_i heq
    cases heq

theorem scanString_hex (u : CodeUnit) (cs : List Char) :
    scanString ('\\' :: 'u' :: (hex4 u.val ++ cs)) = (scanString cs).map (prepend [u]) := by
  rw [scanString.eq_def]
  simp only [Char.reduceEq, if_false, if_true, hex4, List.cons_append, List.nil_append,
    hexUnit_hex4]

/-- Every escaped code unit is read back as itself. -/
theorem scanString_escapeUnit (u : CodeUnit) (cs : List Char) :
    scanString (escapeUnit u ++ cs) = (scanString cs).map (prepend [u]) := by
  unfold escapeUnit
  split
  · rename_i h
    exact scanString_escape (by simp [escape?, Fin.ext_iff, h])
  split
  · rename_i h
    exact scanString_escape (by simp [escape?, Fin.ext_iff, h])
  split
  · rename_i hq hb h
    have hv : u.val.isValidChar := Or.inl (by omega)
    have hn : (Char.ofNat u.val).toNat = u.val := by
      rw [Char.ofNat, dif_pos hv]
      rfl
    have hutf : utf16 (Char.ofNat u.val) = [u] := by
      rw [utf16, hn, if_pos u.isLt]
      simp
    rw [List.singleton_append, scanString_plain, hutf]
    · intro he
      exact hq (by rw [← hn, he]; rfl)
    · intro he
      exact hb (by rw [← hn, he]; rfl)
    · omega
  split
  · rename_i h
    exact scanString_escape (by simp [escape?, Fin.ext_iff, h])
  split
  · rename_i h
    exact scanString_escape (by simp [escape?, Fin.ext_iff, h])
  split
  · rename_i h
    exact scanString_escape (by simp [escape?, Fin.ext_iff, h])
  split
  · rename_i h
    exact scanString_escape (by simp [escape?, Fin.ext_iff, h])
  split
  · rename_i h
    exact scanString_escape (by simp [escape?, Fin.ext_iff, h])
  · exact scanString_hex u cs

theorem scanString_quoted (s : PyStr) (rest : List Char) :
    scanString (s.flatMap escapeUnit ++ '"' :: rest) = some (s, rest) := by
  induction s with
  | nil =>
    rw [List.flatMap_nil, List.nil_append, scanString.eq_def]
    simp
  | cons u s ih =>
    rw [List.flatMap_cons, List.append_assoc, scanString_escapeUnit, ih]
    rfl

/-! ## Numbers -/

/-- What follows a number does not go on with it. -/
def Follow (rest : List Char) : Prop :=
  ∀ c cs, rest = c :: cs → c.isDigit = false ∧ c ∉ ['.', 'e', 'E', '+', '-']

theorem follow_nil : Follow [] := by
  intro c cs h
  cases h

theorem follow_cons {c : Char} (h : c.isDigit = false ∧ c ∉ ['.', 'e', 'E', '+', '-'])
    (cs : List Char) : Follow (c :: cs) := by
  intro c' cs' he
  cases he
  exact h

section Follow
variable {rest : List Char} (hr : Follow rest)
include hr

theorem digits_append (x : List Char) : digits (x ++ rest) = digits x := by
  induction x with
  | nil =>
    cases rest with
    | nil => rfl
    | cons c cs => simp [digits, (hr c cs rfl).1]
  | cons c x ih =>
    simp only [digits, List.cons_append, List.takeWhile_cons] at ih ⊢
    rw [ih]

theorem afterDigits_append (x : List Char) :
    afterDigits (x ++ rest) = afterDigits x ++ rest := by
  induction x with
  | nil =>
    cases rest with
    | nil => rfl
    | cons c cs => simp [afterDigits, (hr c cs rfl).1]
  | cons c x ih =>
    simp only [afterDigits, List.cons_append, List.dropWhile_cons] at ih ⊢
    split
    · exact ih
    · rfl

theorem scanFrac_append (x : List Char) :
    scanFrac (x ++ rest) = ((scanFrac x).1, (scanFrac x).2 ++ rest) := by
  cases x with
  | nil =>
    cases rest with
    | nil => rfl
    | cons c cs =>
      have hc : c ≠ '.' := fun h => (hr c cs rfl).2 (by simp [h])
      simp [scanFrac, hc]
  | cons c x =>
    simp only [List.cons_append, scanFrac, digits_append hr, afterDigits_append hr]
    split <;> rfl

theorem scanExpSign_append (x : List Char) :
    scanExpSign (x ++ rest) = ((scanExpSign x).1, (scanExpSign x).2 ++ rest) := by
  cases x with
  | nil =>
    cases rest with
    | nil => rfl
    | cons c cs =>
      have hc : ¬ (c = '+' ∨ c = '-') := fun h => (hr c cs rfl).2 (by
        rcases h with h | h <;> simp [h])
      simp only [List.nil_append, scanExpSign, if_neg hc]
  | cons c x =>
    simp only [List.cons_append, scanExpSign]
    split <;> rfl

theorem scanExp_append (x : List Char) :
    scanExp (x ++ rest) = ((scanExp x).1, (scanExp x).2 ++ rest) := by
  cases x with
  | nil =>
    cases rest with
    | nil => rfl
    | cons c cs =>
      have hc : ¬ ((c = 'e' ∨ c = 'E') ∧ digits (scanExpSign cs).2 ≠ []) :=
        fun h => (hr c cs rfl).2 (by rcases h.1 with h | h <;> simp [h])
      simp only [List.nil_append, scanExp, if_neg hc]
  | cons c x =>
    simp only [List.cons_append, scanExp, scanExpSign_append hr, digits_append hr,
      afterDigits_append hr]
    split <;> rfl

theorem scanNat_append {x : List Char} {r : List Char × List Char} (h : scanNat x = some r) :
    scanNat (x ++ rest) = some (r.1, r.2 ++ rest) := by
  cases x with
  | nil => cases h
  | cons c x =>
    simp only [scanNat, List.cons_append, digits_append hr, afterDigits_append hr] at h ⊢
    split at h
    · rename_i hc
      cases h
      rw [if_pos hc]
    rename_i hc
    rw [if_neg hc]
    split at h
    · rename_i hd
      cases h
      rw [if_pos hd]
    · cases h

omit hr in
theorem scanSign_append {x : List Char} (hx : x ≠ []) :
    scanSign (x ++ rest) = ((scanSign x).1, (scanSign x).2 ++ rest) := by
  cases x with
  | nil => exact absurd rfl hx
  | cons c x =>
    unfold scanSign
    split
    · rename_i heq
      rw [List.cons_append] at heq
      cases heq
      rfl
    · rename_i hne
      split
      · rename_i heq
        cases heq
        exact absurd rfl (hne _)
      · rfl

/-- Number literals are maximal: what follows is left over. -/
theorem scanNumber_append {x int frac left : List Char}
    (h : scanNumber x = some (int, frac, left)) :
    scanNumber (x ++ rest) = some (int, frac, left ++ rest) := by
  have hx : x ≠ [] := by
    rintro rfl
    cases h
  unfold scanNumber at h ⊢
  obtain ⟨r, hnat, hr'⟩ := Option.map_eq_some_iff.mp h
  cases hr'
  rw [scanSign_append hx, scanNat_append hr hnat]
  simp only [Option.map_some, scanFrac_append hr, scanExp_append hr]

end Follow

theorem digits_split (x : List Char) : digits x ++ afterDigits x = x :=
  List.takeWhile_append_dropWhile

theorem scanSign_split (x : List Char) : (scanSign x).1 ++ (scanSign x).2 = x := by
  unfold scanSign
  split <;> rfl

theorem scanNat_split {x : List Char} {r : List Char × List Char} (h : scanNat x = some r) :
    r.1 ++ r.2 = x := by
  cases x with
  | nil => cases h
  | cons c x =>
    simp only [scanNat] at h
    split at h
    · rename_i hc
      cases h
      rw [hc]
      rfl
    split at h
    · cases h
      rw [List.cons_append, digits_split]
    · cases h

theorem scanFrac_split (x : List Char) : (scanFrac x).1 ++ (scanFrac x).2 = x := by
  cases x with
  | nil => rfl
  | cons c x =>
    simp only [scanFrac]
    split
    · rw [List.cons_append, digits_split]
    · rfl

theorem scanExpSign_split (x : List Char) : (scanExpSign x).1 ++ (scanExpSign x).2 = x := by
  cases x with
  | nil => rfl
  | cons c x =>
    simp only [scanExpSign]
    split <;> rfl

theorem scanExp_split (x : List Char) : (scanExp x).1 ++ (scanExp x).2 = x := by
  cases x with
  | nil => rfl
  | cons c x =>
    simp only [scanExp]
    split
    · rw [List.cons_append, List.append_assoc, digits_split, scanExpSign_split]
    · rfl

theorem scanNumber_split {x int frac left : List Char}
    (h : scanNumber x = some (int, frac, left)) : int ++ frac ++ left = x := by
  unfold scanNumber at h
  obtain ⟨r, hnat, hr⟩ := Option.map_eq_some_iff.mp h
  cases hr
  rw [List.append_assoc, List.append_assoc, List.append_assoc, scanExp_split, scanFrac_split,
    scanNat_split hnat, scanSign_split]

theorem toDigits_isDigit {n : ℕ} {c : Char} (h : c ∈ Nat.toDigits 10 n) : c.isDigit = true :=
  Nat.isDigit_of_mem_toDigits (by decide) (by decide) h

/-- Only zero is written with a leading zero. -/
theorem toDigits_head {n : ℕ} {cs : List Char} (h : Nat.toDigits 10 n = '0' :: cs) : cs = [] := by
  induction n using Nat.strong_induction_on generalizing cs with
  | _ n ih =>
    by_cases hn : n < 10
    · rw [Nat.toDigits_of_lt_base hn] at h
      exact (List.cons.inj h).2.symm
    · rw [Nat.toDigits_of_base_le (by decide) (by omega)] at h
      cases hd : Nat.toDigits 10 (n / 10) with
      | nil => exact absurd hd Nat.toDigits_ne_nil
      | cons c ds =>
        rw [hd, List.cons_append] at h
        obtain ⟨rfl, _⟩ := List.cons.inj h
        have hds := ih (n / 10) (by omega) hd
        have hval : Nat.ofDigitChars 10 (Nat.toDigits 10 (n / 10)) 0 = n / 10 :=
          Nat.ofDigitChars_toDigits (by decide) (by decide)
        rw [hd, hds] at hval
        have : Nat.ofDigitChars 10 ['0'] 0 = 0 := by decide
        omega

theorem scanNat_toDigits (n : ℕ) : scanNat (Nat.toDigits 10 n) = some (Nat.toDigits 10 n, []) := by
  cases hd : Nat.toDigits 10 n with
  | nil => exact absurd hd Nat.toDigits_ne_nil
  | cons c ds =>
    have hdig (c' : Char) (h : c' ∈ c :: ds) : c'.isDigit = true := toDigits_isDigit (hd ▸ h)
    rw [scanNat]
    split
    · rename_i hc
      rw [hc] at hd
      rw [toDigits_head hd, hc]
    · rw [if_pos (hdig c List.mem_cons_self)]
      have hall : ∀ c' ∈ ds, c'.isDigit = true := fun c' h => hdig c' (List.mem_cons_of_mem c h)
      rw [digits, afterDigits, List.takeWhile_eq_self_iff.mpr hall,
        List.dropWhile_eq_nil_iff.mpr hall]

theorem scanNumber_showInt (i : ℤ) : scanNumber (showInt i) = some (showInt i, [], []) := by
  unfold showInt
  split
  · rw [scanNumber, scanSign, scanNat_toDigits]
    rfl
  · have hs : scanSign (Nat.toDigits 10 i.natAbs) = ([], Nat.toDigits 10 i.natAbs) := by
      unfold scanSign
      split
      · rename_i heq
        have := toDigits_isDigit (heq ▸ List.mem_cons_self : '-' ∈ Nat.toDigits 10 i.natAbs)
        cases this
      · rfl
    rw [scanNumber, hs, scanNat_toDigits]
    rfl

theorem readInt_showInt (i : ℤ) : readInt (showInt i) = i := by
  have hval : Nat.ofDigitChars 10 (Nat.toDigits 10 i.natAbs) 0 = i.natAbs :=
    Nat.ofDigitChars_toDigits (by decide) (by decide)
  unfold showInt
  split
  · rw [readInt, hval]
    omega
  · unfold readInt
    split
    · rename_i heq
      have := toDigits_isDigit (heq ▸ List.mem_cons_self : '-' ∈ Nat.toDigits 10 i.natAbs)
      cases this
    · rw [hval]
      omega

/-! ## Scalars -/

/-- The first characters of JSON values. -/
def Starts (c : Char) : Prop :=
  c.isDigit = true ∨ c ∈ ['"', '[', '{', 'n', 't', 'f', 'N', 'I', '-']

theorem Starts.facts {c : Char} (h : Starts c) : isSpace c = false ∧ c ≠ ']' ∧ c ≠ '}' := by
  rcases h with h | h
  · refine ⟨?_, ?_, ?_⟩
    · by_contra hs
      simp only [isSpace, Bool.or_eq_true, decide_eq_true_eq, Bool.not_eq_false] at hs
      rcases hs with ((hs | hs) | hs) | hs <;> rw [hs] at h <;> cases h
    · rintro rfl
      cases h
    · rintro rfl
      cases h
  · simp only [List.mem_cons, List.not_mem_nil, or_false] at h
    rcases h with rfl | rfl | rfl | rfl | rfl | rfl | rfl | rfl | rfl <;> decide

theorem scanNumber_starts {x : List Char} {r : List Char × List Char × List Char}
    (h : scanNumber x = some r) : (∃ c cs, x = c :: cs ∧ c.isDigit = true) ∨
      ∃ c cs, x = '-' :: c :: cs ∧ c.isDigit = true := by
  have hnat {y : List Char} {r' : List Char × List Char} (hy : scanNat y = some r') :
      ∃ c cs, y = c :: cs ∧ c.isDigit = true := by
    cases y with
    | nil => cases hy
    | cons c cs =>
      refine ⟨c, cs, rfl, ?_⟩
      simp only [scanNat] at hy
      split at hy
      · rename_i hc
        rw [hc]
        rfl
      split at hy
      · assumption
      · cases hy
  unfold scanNumber at h
  obtain ⟨r', hr', _⟩ := Option.map_eq_some_iff.mp h
  unfold scanSign at hr'
  split at hr'
  · obtain ⟨c, cs, hcs, hd⟩ := hnat hr'
    exact Or.inr ⟨c, cs, by rw [← hcs], hd⟩
  · exact Or.inl (hnat hr')

section Words
variable (read : List Char → φ)

/-- No word is at the front of a number. -/
theorem words_number {x : List Char} {r : List Char × List Char × List Char}
    (h : scanNumber x = some r) : ((words read).findSome? fun w =>
      (stripPrefix w.1 x).map fun rest => (w.2, rest)) = none := by
  have hne {c : Char} (hd : c.isDigit = true) (w : Char) (hw : w.isDigit = false) : w ≠ c := by
    rintro rfl
    rw [hd] at hw
    cases hw
  rcases scanNumber_starts h with ⟨c, cs, rfl, hd⟩ | ⟨c, cs, rfl, hd⟩
  · simp [words, stripPrefix, nan, infinity, minusInfinity, hne hd 'n' rfl, hne hd 't' rfl,
      hne hd 'f' rfl, hne hd 'N' rfl, hne hd 'I' rfl, hne hd '-' rfl]
  · simp [words, stripPrefix, nan, infinity, minusInfinity, hne hd 'I' rfl]

theorem parseScalar_number {x : List Char} {r : List Char × List Char × List Char}
    (h : scanNumber x = some r) : parseScalar read x = parseNumber read x := by
  rw [parseScalar, words_number read h]

theorem parseScalar_word {w : List Char × Json φ} (hw : w ∈ words read) (rest : List Char) :
    parseScalar read (w.1 ++ rest) = some (w.2, rest) := by
  simp only [words, List.mem_cons, List.not_mem_nil, or_false] at hw
  rcases hw with rfl | rfl | rfl | rfl | rfl | rfl <;>
    simp [parseScalar, words, stripPrefix, nan, infinity, minusInfinity]

theorem parseScalar_null (rest : List Char) :
    parseScalar read ('n' :: 'u' :: 'l' :: 'l' :: rest) = some (.null, rest) :=
  parseScalar_word read List.mem_cons_self rest

theorem parseScalar_true (rest : List Char) :
    parseScalar read ('t' :: 'r' :: 'u' :: 'e' :: rest) = some (.bool true, rest) :=
  parseScalar_word read (List.mem_cons_of_mem _ List.mem_cons_self) rest

theorem parseScalar_false (rest : List Char) :
    parseScalar read ('f' :: 'a' :: 'l' :: 's' :: 'e' :: rest) = some (.bool false, rest) :=
  parseScalar_word read (List.mem_cons_of_mem _ (List.mem_cons_of_mem _ List.mem_cons_self)) rest

theorem parseScalar_special {w : List Char} (hw : w ∈ [nan, infinity, minusInfinity])
    (rest : List Char) : parseScalar read (w ++ rest) = some (.float (read w), rest) := by
  have hword : (w, Json.float (read w)) ∈ words read := by
    simp only [List.mem_cons, List.not_mem_nil, or_false] at hw
    rcases hw with rfl | rfl | rfl <;> simp [words]
  exact parseScalar_word read hword rest

end Words

section Format
variable (F : FloatFormat φ)

theorem parseScalar_float (x : φ) {rest : List Char} (hr : Follow rest) :
    parseScalar F.read (F.repr x ++ rest) = some (.float x, rest) := by
  rcases F.literal x with hw | ⟨int, frac, hs, hne⟩
  · rw [parseScalar_special F.read hw, F.read_repr]
  · have hs' := scanNumber_append hr hs
    have hx : int ++ frac = F.repr x := by simpa using scanNumber_split hs
    rw [parseScalar_number F.read hs', parseNumber, hs']
    simp only [Option.map_some, if_neg hne, hx, F.read_repr, List.nil_append]

theorem parseScalar_int (i : ℤ) {rest : List Char} (hr : Follow rest) :
    parseScalar F.read (showInt i ++ rest) = some (.int i, rest) := by
  have hs := scanNumber_append hr (scanNumber_showInt i)
  rw [parseScalar_number F.read hs, parseNumber, hs]
  simp only [Option.map_some, if_true, readInt_showInt, List.nil_append]

theorem scanNumber_head {x : List Char} {r : List Char × List Char × List Char}
    (h : scanNumber x = some r) : ∃ c cs, x = c :: cs ∧ Starts c := by
  rcases scanNumber_starts h with ⟨c, cs, rfl, hd⟩ | ⟨c, cs, rfl, _⟩
  · exact ⟨c, cs, rfl, Or.inl hd⟩
  · exact ⟨'-', _, rfl, Or.inr (by decide)⟩

theorem repr_head (x : φ) : ∃ c cs, F.repr x = c :: cs ∧ Starts c := by
  rcases F.literal x with hw | ⟨int, frac, hs, _⟩
  · simp only [List.mem_cons, List.not_mem_nil, or_false] at hw
    rcases hw with hw | hw | hw
    · exact ⟨'N', _, hw, Or.inr (by decide)⟩
    · exact ⟨'I', _, hw, Or.inr (by decide)⟩
    · exact ⟨'-', _, hw, Or.inr (by decide)⟩
  · exact scanNumber_head hs

end Format

end Json

end Foundation
