import OpenClaw.Foundation.PyText

/-!
# Text as bytes and as lines

UTF-8 and hexadecimal, which lose nothing, and the lines of a text.
-/

namespace Foundation

set_option autoImplicit false

/-! ## Encodings -/

def charOf? (n : ℕ) : Option Char := if n.isValidChar then some (Char.ofNat n) else none

/-- The characters of a string; a lone surrogate has none, and no encoding either. -/
def PyStr.chars? (s : PyStr) : Option (List Char) := s.codePoints.mapM charOf?

def utf8 (cs : List Char) : List UInt8 := cs.flatMap String.utf8EncodeChar

def byteSize (cs : List Char) : ℕ := (utf8 cs).length

/-- `bytes.hex()`. -/
def hex (bs : List UInt8) : List Char :=
  bs.flatMap fun b => [Json.hexDigit (b.toNat / 16), Json.hexDigit (b.toNat % 16)]

theorem utf8_injective : Function.Injective utf8 := by
  intro cs cs' h
  have hbytes : (String.ofList cs).toByteArray = (String.ofList cs').toByteArray := by
    rw [String.toByteArray_ofList, String.toByteArray_ofList]
    exact congrArg List.toByteArray h
  have hstring : String.ofList cs = String.ofList cs' := String.toByteArray_inj.mp hbytes
  rw [← String.toList_ofList (l := cs), hstring, String.toList_ofList]

/-- Only a character of ASCII has a byte of ASCII. -/
theorem toNat_of_mem_utf8 {cs : List Char} {b : UInt8} (hb : b < 128) (h : b ∈ utf8 cs) :
    ∃ c ∈ cs, c.toNat = b.toNat := by
  obtain ⟨c, hc, hmem⟩ := List.mem_flatMap.mp h
  refine ⟨c, hc, ?_⟩
  have hhigh : ∀ n : ℕ, 128 ≤ n → n < 256 → b ≠ UInt8.ofNat n := by
    intro n hlow hbyte heq
    rw [heq, UInt8.lt_iff_toNat_lt, UInt8.toNat_ofNat', Nat.mod_eq_of_lt hbyte] at hb
    exact absurd hb (Nat.not_lt_of_le hlow)
  simp only [String.utf8EncodeChar, Char.toNat_val] at hmem
  split at hmem
  · rename_i hsmall
    rw [List.mem_singleton.mp hmem]
    exact (Nat.mod_eq_of_lt (by omega)).symm
  split at hmem
  · simp only [List.mem_cons, List.not_mem_nil, or_false] at hmem
    rcases hmem with heq | heq
    · exact absurd heq (hhigh _ (by omega) (by omega))
    · exact absurd heq (hhigh _ (by omega) (by omega))
  split at hmem
  · simp only [List.mem_cons, List.not_mem_nil, or_false] at hmem
    rcases hmem with heq | heq | heq
    · exact absurd heq (hhigh _ (by omega) (by omega))
    · exact absurd heq (hhigh _ (by omega) (by omega))
    · exact absurd heq (hhigh _ (by omega) (by omega))
  · simp only [List.mem_cons, List.not_mem_nil, or_false] at hmem
    rcases hmem with heq | heq | heq | heq
    · exact absurd heq (hhigh _ (by omega) (by omega))
    · exact absurd heq (hhigh _ (by omega) (by omega))
    · exact absurd heq (hhigh _ (by omega) (by omega))
    · exact absurd heq (hhigh _ (by omega) (by omega))

def utf8Decode (bs : List UInt8) : Option (List Char) :=
  bs.toByteArray.utf8Decode?.map Array.toList

theorem utf8Decode_utf8 (cs : List Char) : utf8Decode (utf8 cs) = some cs := by
  have hencode : (utf8 cs).toByteArray = cs.utf8Encode := rfl
  rw [utf8Decode, hencode, List.utf8Decode?_utf8Encode]
  rfl

theorem hexDigit_injective {m n : ℕ} (hm : m < 16) (hn : n < 16)
    (h : Json.hexDigit m = Json.hexDigit n) : m = n := by
  have hall : ∀ m, m < 16 → ∀ n, n < 16 → Json.hexDigit m = Json.hexDigit n → m = n := by decide
  exact hall m hm n hn h

theorem hex_injective : Function.Injective hex := by
  intro bs
  induction bs with
  | nil =>
    intro cs h
    cases cs with
    | nil => rfl
    | cons c cs => cases h
  | cons b bs ih =>
    intro cs h
    cases cs with
    | nil => cases h
    | cons c cs =>
      have hb := b.toNat_lt
      have hc := c.toNat_lt
      obtain ⟨h1, h2, h3⟩ : Json.hexDigit (b.toNat / 16) = Json.hexDigit (c.toNat / 16) ∧
          Json.hexDigit (b.toNat % 16) = Json.hexDigit (c.toNat % 16) ∧ hex bs = hex cs := by
        have h' : Json.hexDigit (b.toNat / 16) :: Json.hexDigit (b.toNat % 16) :: hex bs =
          Json.hexDigit (c.toNat / 16) :: Json.hexDigit (c.toNat % 16) :: hex cs := h
        simpa using h'
      have hhigh := hexDigit_injective (by omega) (by omega) h1
      have hlow := hexDigit_injective (by omega) (by omega) h2
      have hbyte : b = c := by
        apply UInt8.toNat_inj.mp
        omega
      rw [hbyte, ih h3]

theorem hex_ne_nil {bs : List UInt8} (h : bs ≠ []) : hex bs ≠ [] := by
  cases bs with
  | nil => exact absurd rfl h
  | cons b bs => simp [hex]

theorem hex_digits (bs : List UInt8) : ∀ c ∈ hex bs, ∃ n < 16, c = Json.hexDigit n := by
  intro c hc
  obtain ⟨b, _, hb⟩ := List.mem_flatMap.mp hc
  have hlt := b.toNat_lt
  rcases List.mem_pair.mp hb with rfl | rfl
  · exact ⟨_, by omega, rfl⟩
  · exact ⟨_, by omega, rfl⟩

theorem charOf?_toNat (c : Char) : charOf? c.toNat = some c := by
  have hvalid : c.toNat.isValidChar := c.valid
  rw [charOf?, if_pos hvalid, Char.ofNat_toNat]

theorem toNat_charOf? {n : ℕ} {c : Char} (h : charOf? n = some c) : c.toNat = n := by
  unfold charOf? at h
  split at h
  · rename_i hvalid
    cases h
    rw [Char.ofNat, dif_pos hvalid]
    rfl
  · cases h

theorem PyStr.chars?_ofList (cs : List Char) : PyStr.chars? (PyStr.ofList cs) = some cs := by
  unfold PyStr.chars?
  rw [PyStr.codePoints_ofList]
  induction cs with
  | nil => rfl
  | cons c cs ih =>
    rw [List.map_cons, List.mapM_cons, charOf?_toNat, ih]
    rfl

theorem PyStr.ofList_injective : Function.Injective PyStr.ofList := by
  intro cs cs' h
  have hchars := PyStr.chars?_ofList cs
  rw [h, PyStr.chars?_ofList] at hchars
  exact (Option.some.inj hchars).symm

theorem PyStr.ofList_chars? {s : PyStr} {cs : List Char} (h : s.chars? = some cs) :
    PyStr.ofList cs = s := by
  have hcodes : ∀ (ns : List ℕ) (cs : List Char), ns.mapM charOf? = some cs →
      cs.map Char.toNat = ns := by
    intro ns
    induction ns with
    | nil =>
      intro cs h
      cases h
      rfl
    | cons n ns ih =>
      intro cs h
      rw [List.mapM_cons] at h
      obtain ⟨c, hc, h⟩ := Option.bind_eq_some_iff.mp h
      obtain ⟨rest, hrest, h⟩ := Option.bind_eq_some_iff.mp h
      cases h
      rw [List.map_cons, toNat_charOf? hc, ih rest hrest]
  rw [← PyStr.units_codePoints s, ← hcodes _ _ h, List.flatMap_map]
  rfl

/-! ## Lines -/

/-- Put a character before the first line. -/
def consHead (c : Char) : List (List Char) → List (List Char)
  | [] => [[c]]
  | line :: lines => (c :: line) :: lines

/-- The lines of a text without their ends. A carriage return and a line feed end one line. -/
def linesOf (isEnd : Char → Bool) : List Char → List (List Char)
  | [] => []
  | '\r' :: '\n' :: cs => [] :: linesOf isEnd cs
  | c :: cs => if isEnd c then [] :: linesOf isEnd cs else consHead c (linesOf isEnd cs)

/-- The line ends of a file in text mode. -/
def isNewline (c : Char) : Bool := c = '\n' || c = '\r'

/-- The line ends of `str.splitlines()`. -/
def isLineBreak (c : Char) : Bool :=
  [0xa, 0xb, 0xc, 0xd, 0x1c, 0x1d, 0x1e, 0x85, 0x2028, 0x2029].contains c.toNat

section Lines
variable {isEnd : Char → Bool}

theorem linesOf_cons {c : Char} {cs : List Char} (h : c = '\r' → cs.head? ≠ some '\n') :
    linesOf isEnd (c :: cs) =
      if isEnd c then [] :: linesOf isEnd cs else consHead c (linesOf isEnd cs) := by
  rw [linesOf]
  rintro rest rfl rfl
  exact h rfl rfl

theorem consHead_append (c : Char) {ls : List (List Char)} (h : ls ≠ []) (ls' : List (List Char)) :
    consHead c (ls ++ ls') = consHead c ls ++ ls' := by
  cases ls with
  | nil => exact absurd rfl h
  | cons l ls => rfl

theorem linesOf_ne_nil {cs : List Char} (h : cs ≠ []) : linesOf isEnd cs ≠ [] := by
  induction cs using linesOf.induct isEnd with
  | case1 => exact absurd rfl h
  | case2 cs ih => simp [linesOf]
  | case3 c cs hc hend ih =>
    rw [linesOf, if_pos hend]
    · simp
    · exact hc
  | case4 c cs hc hend ih =>
    rw [linesOf, if_neg hend]
    · cases linesOf isEnd cs <;> simp [consHead]
    · exact hc

/-- What stands behind a line feed begins a new line. -/
theorem linesOf_append_newline (hend : isEnd '\n' = true) (x y : List Char) :
    linesOf isEnd (x ++ '\n' :: y) = linesOf isEnd (x ++ ['\n']) ++ linesOf isEnd y := by
  have hfeed : ∀ y, linesOf isEnd ('\n' :: y) = [] :: linesOf isEnd y := by
    intro y
    rw [linesOf_cons (by simp), if_pos hend]
  have hstep : ∀ (c : Char) (cs : List Char),
      (∀ rest, c = '\r' → cs = '\n' :: rest → False) →
      linesOf isEnd (cs ++ '\n' :: y) = linesOf isEnd (cs ++ ['\n']) ++ linesOf isEnd y →
      linesOf isEnd (c :: cs ++ '\n' :: y) =
        linesOf isEnd (c :: cs ++ ['\n']) ++ linesOf isEnd y := by
    intro c cs hc ih
    by_cases hreturn : c = '\r' ∧ cs = []
    · obtain ⟨rfl, rfl⟩ := hreturn
      simp only [List.cons_append, List.nil_append, linesOf]
    have hhead : ∀ z, c = '\r' → (cs ++ '\n' :: z).head? ≠ some '\n' := by
      intro z hcr he
      cases cs with
      | nil => exact hreturn ⟨hcr, rfl⟩
      | cons d cs =>
        cases he
        exact hc cs hcr rfl
    rw [List.cons_append, List.cons_append, linesOf_cons (hhead y), linesOf_cons (hhead []), ih]
    split
    · rfl
    · exact consHead_append c (linesOf_ne_nil (by simp)) _
  induction x using linesOf.induct isEnd with
  | case1 =>
    rw [List.nil_append, List.nil_append, hfeed, hfeed]
    rfl
  | case2 cs ih => simp only [List.cons_append, linesOf, ih]
  | case3 c cs hc _ ih => exact hstep c cs hc ih
  | case4 c cs hc _ ih => exact hstep c cs hc ih

/-- A text without line ends is one line. -/
theorem linesOf_line {x : List Char} (hx : ∀ c ∈ x, isEnd c = false) (hend : isEnd '\n' = true)
    (hreturn : isEnd '\r' = true) : linesOf isEnd (x ++ ['\n']) = [x] := by
  induction x with
  | nil =>
    rw [List.nil_append, linesOf_cons (by simp), if_pos hend]
    rfl
  | cons c x ih =>
    have hhead : c = '\r' → (x ++ ['\n']).head? ≠ some '\n' := by
      rintro rfl
      rw [hx _ List.mem_cons_self] at hreturn
      cases hreturn
    rw [List.cons_append, linesOf_cons hhead, hx c List.mem_cons_self,
      ih fun d hd => hx d (List.mem_cons_of_mem c hd)]
    rfl

end Lines

end Foundation
