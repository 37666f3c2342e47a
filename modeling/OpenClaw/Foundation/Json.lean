import Mathlib.Algebra.GroupWithZero.Nat
import Mathlib.Data.List.Lex
import OpenClaw.Foundation.Table

/-!
# JSON values and their text

The values of Python's `json` module and the text `json.dumps` writes for them with
`ensure_ascii`. A Python string is kept as its UTF-16 code units, which is how JSON escapes
spell it. Numbers with a fraction or an exponent are of an arbitrary type `φ` with a
`FloatFormat`.
-/

namespace Foundation

set_option autoImplicit false

abbrev CodeUnit := Fin 65536

abbrev PyStr := List CodeUnit

instance codeUnitNeZero : NeZero 65536 := ⟨by decide⟩

instance codeUnitLawful : LawfulBEq CodeUnit := inferInstance

instance pyStrLawful : LawfulBEq PyStr := inferInstance

instance pyStrPairLawful : LawfulBEq (PyStr × PyStr) := inferInstance

/-- The code units of a character: one, or a surrogate pair. -/
def utf16 (c : Char) : PyStr :=
  if c.toNat < 65536 then
    [Fin.ofNat 65536 c.toNat]
  else
    [Fin.ofNat 65536 (0xD800 + (c.toNat - 0x10000) / 0x400),
      Fin.ofNat 65536 (0xDC00 + (c.toNat - 0x10000) % 0x400)]

namespace PyStr

def ofList (cs : List Char) : PyStr := cs.flatMap utf16

def ofString (s : String) : PyStr := ofList s.toList

/-- The code points of a string, surrogate pairs joined. -/
def codePoints : PyStr → List ℕ
  | [] => []
  | [u] => [u.val]
  | u :: v :: rest =>
    if 0xD800 ≤ u.val ∧ u.val < 0xDC00 ∧ 0xDC00 ≤ v.val ∧ v.val < 0xE000 then
      (0x10000 + (u.val - 0xD800) * 0x400 + (v.val - 0xDC00)) :: codePoints rest
    else
      u.val :: codePoints (v :: rest)

end PyStr

inductive Json (φ : Type) where
  | null
  | bool (b : Bool)
  | int (i : ℤ)
  | float (x : φ)
  | str (s : PyStr)
  | arr (items : List (Json φ))
  | obj (fields : List (PyStr × Json φ))

namespace Json
variable {φ : Type}

/-- Induction over values, with the hypothesis for every item and every field. -/
theorem induction {P : Json φ → Prop} (null : P .null) (bool : ∀ b, P (.bool b))
    (int : ∀ i, P (.int i)) (float : ∀ x, P (.float x)) (str : ∀ s, P (.str s))
    (arr : ∀ items, (∀ j ∈ items, P j) → P (.arr items))
    (obj : ∀ fields, (∀ f ∈ fields, P f.2) → P (.obj fields)) : ∀ j, P j
  | .null => null
  | .bool b => bool b
  | .int i => int i
  | .float x => float x
  | .str s => str s
  | .arr items => arr items fun j _ => induction null bool int float str arr obj j
  | .obj fields => obj fields fun f _ => induction null bool int float str arr obj f.2
termination_by j => sizeOf j
decreasing_by
  · have hj := List.sizeOf_lt_of_mem (by assumption : j ∈ items)
    simp only [Json.arr.sizeOf_spec]
    omega
  · have hf := List.sizeOf_lt_of_mem (by assumption : f ∈ fields)
    have hp : sizeOf f = 1 + sizeOf f.1 + sizeOf f.2 := rfl
    simp only [Json.obj.sizeOf_spec]
    omega

/-! ## Sorted keys -/

/-- The order of `sort_keys`: Python compares strings by code points. -/
def sortFields (fields : List (PyStr × Json φ)) : List (PyStr × Json φ) :=
  sortedBy (fun f => f.1.codePoints) fields

mutual

def sortKeys : Json φ → Json φ
  | .null => .null
  | .bool b => .bool b
  | .int i => .int i
  | .float x => .float x
  | .str s => .str s
  | .arr items => .arr (sortItems items)
  | .obj fields => .obj (sortFields (sortValues fields))

def sortItems : List (Json φ) → List (Json φ)
  | [] => []
  | j :: items => sortKeys j :: sortItems items

def sortValues : List (PyStr × Json φ) → List (PyStr × Json φ)
  | [] => []
  | (k, j) :: fields => (k, sortKeys j) :: sortValues fields

end

/-! ## Text -/

def hexDigit (n : ℕ) : Char := Nat.digitChar n

def hex4 (n : ℕ) : List Char :=
  [hexDigit (n / 4096 % 16), hexDigit (n / 256 % 16), hexDigit (n / 16 % 16), hexDigit (n % 16)]

/-- One code unit inside a string literal; everything outside printable ASCII is escaped. -/
def escapeUnit (u : CodeUnit) : List Char :=
  if u.val = 34 then ['\\', '"']
  else if u.val = 92 then ['\\', '\\']
  else if 32 ≤ u.val ∧ u.val ≤ 126 then [Char.ofNat u.val]
  else if u.val = 10 then ['\\', 'n']
  else if u.val = 13 then ['\\', 'r']
  else if u.val = 9 then ['\\', 't']
  else if u.val = 12 then ['\\', 'f']
  else if u.val = 8 then ['\\', 'b']
  else '\\' :: 'u' :: hex4 u.val

def quote (s : PyStr) : List Char := '"' :: s.flatMap escapeUnit ++ ['"']

def showInt (i : ℤ) : List Char :=
  if i < 0 then '-' :: Nat.toDigits 10 i.natAbs else Nat.toDigits 10 i.natAbs

def isSpace (c : Char) : Bool := c = ' ' || c = '\t' || c = '\n' || c = '\r'

/-- The blanks `json.dumps` puts after a comma and after a colon. -/
structure Separators where
  afterItem : List Char
  afterKey : List Char
  item_space : ∀ c ∈ afterItem, isSpace c = true
  key_space : ∀ c ∈ afterKey, isSpace c = true

namespace Separators

theorem blank_isSpace : ∀ c ∈ [' '], isSpace c = true := by simp [isSpace]

def standard : Separators := ⟨[' '], [' '], blank_isSpace, blank_isSpace⟩

def compact : Separators := ⟨[], [], by simp, by simp⟩

def item (sep : Separators) : List Char := ',' :: sep.afterItem

def key (sep : Separators) : List Char := ':' :: sep.afterKey

end Separators

section Render
variable (repr : φ → List Char) (sep : Separators)

mutual

def render : Json φ → List Char
  | .null => ['n', 'u', 'l', 'l']
  | .bool true => ['t', 'r', 'u', 'e']
  | .bool false => ['f', 'a', 'l', 's', 'e']
  | .int i => showInt i
  | .float x => repr x
  | .str s => quote s
  | .arr [] => ['[', ']']
  | .arr (j :: items) => '[' :: (render j ++ (renderItems items ++ [']']))
  | .obj [] => ['{', '}']
  | .obj ((k, j) :: fields) =>
    '{' :: (quote k ++ (sep.key ++ (render j ++ (renderFields fields ++ ['}']))))

def renderItems : List (Json φ) → List Char
  | [] => []
  | j :: items => sep.item ++ (render j ++ renderItems items)

def renderFields : List (PyStr × Json φ) → List Char
  | [] => []
  | (k, j) :: fields =>
    sep.item ++ (quote k ++ (sep.key ++ (render j ++ renderFields fields)))

end

/-- `json.dumps(j, separators=sep)`. -/
def dumps (j : Json φ) : List Char := render repr sep j

/-- `json.dumps(j, sort_keys=True, separators=sep)`. -/
def dumpsSorted (j : Json φ) : List Char := render repr sep j.sortKeys

end Render

end Json

end Foundation
