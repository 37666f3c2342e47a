import Mathlib.Data.List.DropRight
import OpenClaw.Foundation.Json

/-!
# Text as Python reads it

`str.strip()` and `int(str)`: white space and decimal digits in all scripts, a sign, and single
underscores between digits. The numeral limit is the interpreter's default. Lengths and prefixes
of strings count code points.
-/

namespace Foundation.PyText

set_option autoImplicit false

/-- The code points of `str.isspace()`. -/
def spaceCodes : List ℕ :=
  [0x9, 0xa, 0xb, 0xc, 0xd, 0x1c, 0x1d, 0x1e, 0x1f, 0x20, 0x85, 0xa0, 0x1680, 0x2000, 0x2001, 0x2002,
    0x2003, 0x2004, 0x2005, 0x2006, 0x2007, 0x2008, 0x2009, 0x200a, 0x2028, 0x2029, 0x202f, 0x205f,
    0x3000]

def isSpaceCode (n : ℕ) : Bool := spaceCodes.contains n

def isSpace (c : Char) : Bool := isSpaceCode c.toNat

def stripWhere {α : Type*} (p : α → Bool) (xs : List α) : List α := (xs.dropWhile p).rdropWhile p

def strip (cs : List Char) : List Char := stripWhere isSpace cs

theorem dropWhile_prefix {α : Type*} {p : α → Bool} {xs ys : List α} (h : ys <+: xs)
    (hx : xs.dropWhile p = xs) : ys.dropWhile p = ys := by
  obtain ⟨zs, rfl⟩ := h
  cases ys with
  | nil => rfl
  | cons y ys =>
    cases hp : p y with
    | false => simp [hp]
    | true =>
      rw [List.cons_append, List.dropWhile_cons_of_pos hp] at hx
      have hle := (List.dropWhile_suffix p (l := ys ++ zs)).length_le
      rw [hx, List.length_cons] at hle
      omega

theorem stripWhere_eq_self {α : Type*} {p : α → Bool} {xs : List α} (h : ∀ x ∈ xs, p x = false) :
    stripWhere p xs = xs := by
  have hdrop : xs.dropWhile p = xs := by
    rw [List.dropWhile_eq_self_iff]
    intro hl
    simp [h _ (List.getElem_mem hl)]
  rw [stripWhere, hdrop, List.rdropWhile_eq_self_iff]
  intro hl
  simp [h _ (List.getLast_mem hl)]

theorem stripWhere_stripWhere {α : Type*} (p : α → Bool) (xs : List α) :
    stripWhere p (stripWhere p xs) = stripWhere p xs := by
  have hfront : (stripWhere p xs).dropWhile p = stripWhere p xs :=
    dropWhile_prefix (List.rdropWhile_prefix p _) (List.dropWhile_idempotent p xs)
  unfold stripWhere at hfront ⊢
  rw [hfront]
  exact List.rdropWhile_idempotent p _

theorem stripWhere_rdropWhile {α : Type*} (p : α → Bool) (xs : List α) :
    stripWhere p (xs.rdropWhile p) = stripWhere p xs := by
  have hend : (xs.rtakeWhile p).rdropWhile p = [] := by
    rw [List.rdropWhile_eq_nil_iff]
    intro x hx
    exact List.mem_rtakeWhile_imp hx
  have hrdrop : ∀ ys : List α, (ys ++ xs.rtakeWhile p).rdropWhile p = ys.rdropWhile p := by
    intro ys
    unfold List.rdropWhile at hend ⊢
    rw [List.reverse_append, List.dropWhile_append, List.reverse_eq_nil_iff.mp hend]
    rfl
  unfold stripWhere
  have hxs := List.rdropWhile_append_rtakeWhile (p := p) (l := xs)
  conv_rhs => rw [← hxs, List.dropWhile_append]
  split
  · rename_i hnil
    have hsmall : (xs.rtakeWhile p).dropWhile p = [] := by
      rw [List.dropWhile_eq_nil_iff]
      intro x hx
      exact List.mem_rtakeWhile_imp hx
    rw [hsmall, List.isEmpty_iff.mp hnil]
  · rw [hrdrop]

/-- Behind a first and a delimiter that stay, only the end is stripped. -/
theorem stripWhere_delimited {α : Type*} {p : α → Bool} {a d : α} (ha : p a = false)
    (hd : p d = false) (ys xs : List α) :
    stripWhere p (a :: (ys ++ d :: xs)) = a :: (ys ++ d :: xs.rdropWhile p) := by
  rw [stripWhere, List.dropWhile_cons_of_neg (by simp [ha])]
  have hsplit : (a :: (ys ++ d :: xs)).reverse = xs.reverse ++ d :: (a :: ys).reverse := by simp
  rw [List.rdropWhile, hsplit, List.dropWhile_append]
  split
  · rename_i hnil
    rw [List.dropWhile_cons_of_neg (by simp [hd]), List.rdropWhile, List.isEmpty_iff.mp hnil]
    simp
  · simp [List.rdropWhile]

/-- The code points of the zeros; the nine digits after each one follow it. -/
def zeroCodes : List ℕ :=
  [0x30, 0x660, 0x6f0, 0x7c0, 0x966, 0x9e6, 0xa66, 0xae6, 0xb66, 0xbe6, 0xc66, 0xce6, 0xd66, 0xde6,
    0xe50, 0xed0, 0xf20, 0x1040, 0x1090, 0x17e0, 0x1810, 0x1946, 0x19d0, 0x1a80, 0x1a90, 0x1b50,
    0x1bb0, 0x1c40, 0x1c50, 0xa620, 0xa8d0, 0xa900, 0xa9d0, 0xa9f0, 0xaa50, 0xabf0, 0xff10, 0x104a0,
    0x10d30, 0x11066, 0x110f0, 0x11136, 0x111d0, 0x112f0, 0x11450, 0x114d0, 0x11650, 0x116c0,
    0x11730, 0x118e0, 0x11950, 0x11c50, 0x11d50, 0x11da0, 0x16a60, 0x16ac0, 0x16b50, 0x1d7ce,
    0x1d7d8, 0x1d7e2, 0x1d7ec, 0x1d7f6, 0x1e140, 0x1e2f0, 0x1e950, 0x1fbf0]

def decimalCode? (n : ℕ) : Option ℕ :=
  (zeroCodes.find? fun z => z ≤ n ∧ n < z + 10).map fun z => n - z

def decimal? (c : Char) : Option ℕ := decimalCode? c.toNat

/-- Digits with single underscores between them. -/
def digits? : List Char → Option (List ℕ)
  | [] => none
  | [c] => (decimal? c).map fun d => [d]
  | c :: '_' :: cs => (decimal? c).bind fun d => (digits? cs).map (d :: ·)
  | c :: cs => (decimal? c).bind fun d => (digits? cs).map (d :: ·)

def maxStrDigits : ℕ := 4300

def nat? (cs : List Char) : Option ℕ :=
  (digits? cs).bind fun ds =>
    if maxStrDigits < ds.length then none else some (ds.foldl (fun n d => 10 * n + d) 0)

/-- `int(text)`; `none` is its `ValueError`. -/
def int? (cs : List Char) : Option ℤ :=
  match strip cs with
  | '+' :: ds => (nat? ds).map fun n => (n : ℤ)
  | '-' :: ds => (nat? ds).map fun n => -(n : ℤ)
  | ds => (nat? ds).map fun n => (n : ℤ)

example : int? " -1_0٣ ".toList = some (-103) := by decide

end Foundation.PyText

namespace Foundation.PyStr

/-- No code unit of white space is half of a surrogate pair. -/
def strip (s : PyStr) : PyStr := PyText.stripWhere (fun u => PyText.isSpaceCode u.val) s

@[simp] theorem strip_strip (s : PyStr) : s.strip.strip = s.strip := PyText.stripWhere_stripWhere _ s

def isAscii (s : PyStr) : Bool := s.all fun u => u.val < 128

/-- `len(s)`. -/
def len (s : PyStr) : ℕ := s.codePoints.length

/-- `s[:n]`. -/
def takePoints : ℕ → PyStr → PyStr
  | 0, _ => []
  | _ + 1, [] => []
  | _ + 1, [u] => [u]
  | n + 1, u :: v :: rest =>
    if 0xD800 ≤ u.val ∧ u.val < 0xDC00 ∧ 0xDC00 ≤ v.val ∧ v.val < 0xE000 then
      u :: v :: takePoints n rest
    else
      u :: takePoints n (v :: rest)

theorem takePoints_one_cons (u : CodeUnit) (n : ℕ) (s : PyStr) :
    ∃ rest, takePoints (n + 1) (u :: s) = u :: rest := by
  cases s with
  | nil => exact ⟨[], rfl⟩
  | cons v s =>
    rw [takePoints]
    split
    · exact ⟨_, rfl⟩
    · exact ⟨_, rfl⟩

theorem takePoints_takePoints (n : ℕ) (s : PyStr) :
    takePoints n (takePoints n s) = takePoints n s := by
  induction n generalizing s with
  | zero => rfl
  | succ n ih =>
    rcases s with _ | ⟨u, _ | ⟨v, rest⟩⟩
    · rfl
    · rfl
    · rw [takePoints]
      split
      · rename_i hpair
        rw [takePoints, if_pos hpair, ih]
      · rename_i hsingle
        cases n with
        | zero => rfl
        | succ n =>
          obtain ⟨tail, htail⟩ := takePoints_one_cons v n rest
          rw [htail, takePoints, if_neg hsingle, ← htail, ih]

/-! ## Code points -/

theorem codePoints_single {u : CodeUnit} (h : u.val < 0xD800 ∨ 0xDFFF < u.val) (rest : PyStr) :
    codePoints (u :: rest) = u.val :: codePoints rest := by
  cases rest with
  | nil => rfl
  | cons v rest => rw [codePoints, if_neg (by omega)]

theorem codePoints_pair {u v : CodeUnit} (hu : 0xD800 ≤ u.val ∧ u.val < 0xDC00)
    (hv : 0xDC00 ≤ v.val ∧ v.val < 0xE000) (rest : PyStr) :
    codePoints (u :: v :: rest) =
      (0x10000 + (u.val - 0xD800) * 0x400 + (v.val - 0xDC00)) :: codePoints rest := by
  rw [codePoints, if_pos ⟨hu.1, hu.2, hv.1, hv.2⟩]

/-- Below the surrogates every unit is a code point. -/
theorem codePoints_plain {s : PyStr} (h : ∀ u ∈ s, u.val < 0xD800) :
    s.codePoints = s.map fun u => u.val := by
  induction s with
  | nil => rfl
  | cons u s ih =>
    rw [codePoints_single (.inl (h u List.mem_cons_self)), List.map_cons,
      ih fun v hv => h v (List.mem_cons_of_mem _ hv)]

theorem codePoints_utf16 (c : Char) (rest : PyStr) :
    codePoints (utf16 c ++ rest) = c.toNat :: codePoints rest := by
  have hvalid : c.toNat < 0xD800 ∨ (0xDFFF < c.toNat ∧ c.toNat < 0x110000) := c.valid
  unfold utf16
  split
  · rename_i hc
    have hval : (Fin.ofNat 65536 c.toNat).val = c.toNat := Nat.mod_eq_of_lt hc
    rw [List.singleton_append, codePoints_single (by omega), hval]
  · rename_i hc
    have hhigh : (Fin.ofNat 65536 (0xD800 + (c.toNat - 0x10000) / 0x400)).val =
        0xD800 + (c.toNat - 0x10000) / 0x400 := Nat.mod_eq_of_lt (by omega)
    have hlow : (Fin.ofNat 65536 (0xDC00 + (c.toNat - 0x10000) % 0x400)).val =
        0xDC00 + (c.toNat - 0x10000) % 0x400 := Nat.mod_eq_of_lt (by omega)
    have hsum : 0x10000 + (0xD800 + (c.toNat - 0x10000) / 0x400 - 0xD800) * 0x400 +
        (0xDC00 + (c.toNat - 0x10000) % 0x400 - 0xDC00) = c.toNat := by omega
    rw [List.cons_append, List.singleton_append,
      codePoints_pair (by omega) (by omega), hhigh, hlow, hsum]

theorem codePoints_ofList (cs : List Char) :
    codePoints (ofList cs) = cs.map Char.toNat := by
  induction cs with
  | nil => rfl
  | cons c cs ih =>
    have : ofList (c :: cs) = utf16 c ++ ofList cs := rfl
    rw [this, codePoints_utf16, ih, List.map_cons]

@[simp] theorem ofString_inj {s t : String} : ofString s = ofString t ↔ s = t := by
  constructor
  · intro h
    have hcodes : s.toList.map Char.toNat = t.toList.map Char.toNat := by
      rw [← codePoints_ofList, ← codePoints_ofList]
      exact congrArg codePoints h
    have hinj : Function.Injective Char.toNat := fun a b h => Char.ext (UInt32.toNat_inj.mp h)
    exact String.toList_injective (List.map_injective_iff.mpr hinj hcodes)
  · exact congrArg ofString

/-- The code units of a code point. -/
def units (n : ℕ) : PyStr :=
  if n < 0x10000 then [Fin.ofNat 65536 n]
  else [Fin.ofNat 65536 (0xD800 + (n - 0x10000) / 0x400),
    Fin.ofNat 65536 (0xDC00 + (n - 0x10000) % 0x400)]

theorem units_codePoints (s : PyStr) : s.codePoints.flatMap units = s := by
  have hsingle : ∀ u : CodeUnit, units u.val = [u] := by
    intro u
    rw [units, if_pos u.isLt]
    exact congrArg (fun v => [v]) (Fin.ext (Nat.mod_eq_of_lt u.isLt))
  induction s using codePoints.induct with
  | case1 => rfl
  | case2 u => simp [codePoints, hsingle]
  | case3 u v rest h ih =>
    obtain ⟨hu, hu', hv, hv'⟩ := h
    have hhigh : Fin.ofNat 65536 (0xD800 + (0x10000 + (u.val - 0xD800) * 0x400 +
        (v.val - 0xDC00) - 0x10000) / 0x400) = u := by
      apply Fin.ext
      simp only [Fin.val_ofNat]
      omega
    have hlow : Fin.ofNat 65536 (0xDC00 + (0x10000 + (u.val - 0xD800) * 0x400 +
        (v.val - 0xDC00) - 0x10000) % 0x400) = v := by
      apply Fin.ext
      simp only [Fin.val_ofNat]
      omega
    rw [codePoints, if_pos ⟨hu, hu', hv, hv'⟩, List.flatMap_cons, ih, units, if_neg (by omega),
      hhigh, hlow]
    rfl
  | case4 u v rest h ih =>
    rw [codePoints, if_neg h, List.flatMap_cons, ih, hsingle]
    rfl

theorem codePoints_injective : Function.Injective codePoints := by
  intro s t h
  rw [← units_codePoints s, ← units_codePoints t, h]

end Foundation.PyStr
