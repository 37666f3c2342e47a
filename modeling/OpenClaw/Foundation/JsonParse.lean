import OpenClaw.Foundation.Json

/-!
# Reading JSON text

`json.loads` as a function on character lists. Objects keep the last value of a repeated key,
in the place of the first. Reading what `dumps` wrote gives the value back.
-/

namespace Foundation

set_option autoImplicit false

namespace Json
variable {φ : Type}

def skipSpace (cs : List Char) : List Char := cs.dropWhile isSpace

def stripPrefix : List Char → List Char → Option (List Char)
  | [], cs => some cs
  | _ :: _, [] => none
  | w :: ws, c :: cs => if w = c then stripPrefix ws cs else none

/-! ## String literals -/

def hexValue? (c : Char) : Option ℕ :=
  if '0' ≤ c ∧ c ≤ '9' then some (c.toNat - 48)
  else if 'a' ≤ c ∧ c ≤ 'f' then some (c.toNat - 87)
  else if 'A' ≤ c ∧ c ≤ 'F' then some (c.toNat - 55)
  else none

def hexUnit? (a b c d : Char) : Option CodeUnit :=
  match hexValue? a, hexValue? b, hexValue? c, hexValue? d with
  | some a, some b, some c, some d => some (Fin.ofNat 65536 (a * 4096 + b * 256 + c * 16 + d))
  | _, _, _, _ => none

/-- The escapes of one letter. -/
def escape? : Char → Option CodeUnit
  | '"' => some 34
  | '\\' => some 92
  | '/' => some 47
  | 'b' => some 8
  | 'f' => some 12
  | 'n' => some 10
  | 'r' => some 13
  | 't' => some 9
  | _ => none

def prepend (us : PyStr) (r : PyStr × List Char) : PyStr × List Char := (us ++ r.1, r.2)

/-- The rest of a string literal after its opening quote. -/
def scanString : List Char → Option (PyStr × List Char)
  | [] => none
  | c :: rest =>
    if c = '"' then some ([], rest)
    else if c = '\\' then
      match rest with
      | 'u' :: a :: b :: c :: d :: rest =>
        match hexUnit? a b c d with
        | some u => (scanString rest).map (prepend [u])
        | none => none
      | e :: rest =>
        match escape? e with
        | some u => (scanString rest).map (prepend [u])
        | none => none
      | [] => none
    -- control characters must be escaped
    else if c.toNat < 32 then none
    else (scanString rest).map (prepend (utf16 c))

/-! ## Numbers -/

def digits (cs : List Char) : List Char := cs.takeWhile Char.isDigit

def afterDigits (cs : List Char) : List Char := cs.dropWhile Char.isDigit

def scanSign : List Char → List Char × List Char
  | '-' :: cs => (['-'], cs)
  | cs => ([], cs)

def scanNat : List Char → Option (List Char × List Char)
  | [] => none
  | c :: cs =>
    if c = '0' then some (['0'], cs)
    else if c.isDigit then some (c :: digits cs, afterDigits cs)
    else none

def scanFrac : List Char → List Char × List Char
  | [] => ([], [])
  | c :: cs =>
    if c = '.' ∧ digits cs ≠ [] then (c :: digits cs, afterDigits cs) else ([], c :: cs)

def scanExpSign : List Char → List Char × List Char
  | [] => ([], [])
  | c :: cs => if c = '+' ∨ c = '-' then ([c], cs) else ([], c :: cs)

def scanExp : List Char → List Char × List Char
  | [] => ([], [])
  | c :: cs =>
    if (c = 'e' ∨ c = 'E') ∧ digits (scanExpSign cs).2 ≠ [] then
      (c :: ((scanExpSign cs).1 ++ digits (scanExpSign cs).2), afterDigits (scanExpSign cs).2)
    else ([], c :: cs)

/-- A number literal: its integer part, its fraction with exponent, and what follows. -/
def scanNumber (cs : List Char) : Option (List Char × List Char × List Char) :=
  (scanNat (scanSign cs).2).map fun r =>
    let frac := scanFrac r.2
    let exp := scanExp frac.2
    ((scanSign cs).1 ++ r.1, frac.1 ++ exp.1, exp.2)

def readInt : List Char → ℤ
  | '-' :: ds => -(Nat.ofDigitChars 10 ds 0 : ℤ)
  | ds => Nat.ofDigitChars 10 ds 0

def nan : List Char := ['N', 'a', 'N']
def infinity : List Char := ['I', 'n', 'f', 'i', 'n', 'i', 't', 'y']
def minusInfinity : List Char := '-' :: infinity

/-- How floats are written and read. The text of a float is a literal with a fraction or an
exponent, or one of the three special words, and reading it gives the float back. -/
structure FloatFormat (φ : Type) where
  repr : φ → List Char
  read : List Char → φ
  literal : ∀ x, repr x ∈ [nan, infinity, minusInfinity] ∨
    ∃ int frac, scanNumber (repr x) = some (int, frac, []) ∧ frac ≠ []
  read_repr : ∀ x, read (repr x) = x

/-- The format of a runtime whose only float is NaN. -/
def nanOnly : FloatFormat Unit :=
  ⟨fun _ => nan, fun _ => (), fun _ => Or.inl (by simp), fun _ => rfl⟩

/-! ## Values -/

section Parse
variable (read : List Char → φ)

def words : List (List Char × Json φ) :=
  [(['n', 'u', 'l', 'l'], .null), (['t', 'r', 'u', 'e'], .bool true),
    (['f', 'a', 'l', 's', 'e'], .bool false), (nan, .float (read nan)),
    (infinity, .float (read infinity)), (minusInfinity, .float (read minusInfinity))]

def parseNumber (cs : List Char) : Option (Json φ × List Char) :=
  (scanNumber cs).map fun r =>
    if r.2.1 = [] then (.int (readInt r.1), r.2.2) else (.float (read (r.1 ++ r.2.1)), r.2.2)

def parseScalar (cs : List Char) : Option (Json φ × List Char) :=
  match (words read).findSome? fun w => (stripPrefix w.1 cs).map fun rest => (w.2, rest) with
  | some r => some r
  | none => parseNumber read cs

/-- A dictionary built from pairs: the last value of a key wins. -/
def dict (fields : List (PyStr × Json φ)) : List (PyStr × Json φ) :=
  (Table.ofRows fields : Table (Prod.fst : PyStr × Json φ → PyStr)).rows

mutual

/-- The value at the front of the text; the recursion is on the fuel. -/
def parseValue : ℕ → List Char → Option (Json φ × List Char)
  | 0, _ => none
  | _ + 1, [] => none
  | n + 1, c :: cs =>
    if c = '"' then
      (scanString cs).map fun r => (.str r.1, r.2)
    else if c = '[' then
      match stripPrefix [']'] (skipSpace cs) with
      | some rest => some (.arr [], rest)
      | none => (parseItems n (skipSpace cs)).map fun r => (.arr r.1, r.2)
    else if c = '{' then
      match stripPrefix ['}'] (skipSpace cs) with
      | some rest => some (.obj [], rest)
      | none => (parseFields n (skipSpace cs)).map fun r => (.obj (dict r.1), r.2)
    else parseScalar read (c :: cs)

def parseItems : ℕ → List Char → Option (List (Json φ) × List Char)
  | 0, _ => none
  | n + 1, cs =>
    match parseValue n cs with
    | none => none
    | some (j, rest) =>
      match skipSpace rest with
      | [] => none
      | c :: rest =>
        if c = ',' then (parseItems n (skipSpace rest)).map fun r => (j :: r.1, r.2)
        else if c = ']' then some ([j], rest)
        else none

def parseFields : ℕ → List Char → Option (List (PyStr × Json φ) × List Char)
  | 0, _ => none
  | n + 1, cs =>
    match (stripPrefix ['"'] cs).bind scanString with
    | none => none
    | some (k, rest) =>
      match (stripPrefix [':'] (skipSpace rest)).bind fun rest => parseValue n (skipSpace rest) with
      | none => none
      | some (j, rest) =>
        match skipSpace rest with
        | [] => none
        | c :: rest =>
          if c = ',' then (parseFields n (skipSpace rest)).map fun r => ((k, j) :: r.1, r.2)
          else if c = '}' then some ([(k, j)], rest)
          else none

end

/-- `json.loads`; `none` is a decoding error. -/
def loads (cs : List Char) : Option (Json φ) :=
  match parseValue read (2 * cs.length + 2) (skipSpace cs) with
  | some (j, rest) => if skipSpace rest = [] then some j else none
  | none => none

end Parse

end Json

end Foundation
