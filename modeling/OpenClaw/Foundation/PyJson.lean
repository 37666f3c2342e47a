import OpenClaw.Foundation.PyText

/-!
# What Python makes of JSON values

Truth, `str` and `dict` of the values of `json.loads`. Floats, the text of a list or a dictionary,
and lower case outside ASCII come from the interpreter.
-/

namespace Foundation

set_option autoImplicit false

structure PyInterpreter (φ : Type) where
  floatTruthy : φ → Bool
  floatStr : φ → PyStr
  containerStr : Json φ → PyStr
  lower : PyStr → PyStr

namespace Json
variable {φ : Type} (py : PyInterpreter φ)

/-- `bool(j)`. -/
def truthy : Json φ → Bool
  | .null => false
  | .bool b => b
  | .int i => decide (i ≠ 0)
  | .float x => py.floatTruthy x
  | .str s => decide (s ≠ [])
  | .arr items => !items.isEmpty
  | .obj fields => !fields.isEmpty

/-- `str(j)`. -/
def toStr : Json φ → PyStr
  | .null => PyStr.ofString "None"
  | .bool true => PyStr.ofString "True"
  | .bool false => PyStr.ofString "False"
  | .int i => PyStr.ofList (showInt i)
  | .float x => py.floatStr x
  | .str s => s
  | .arr items => py.containerStr (.arr items)
  | .obj fields => py.containerStr (.obj fields)

def isNull : Json φ → Bool
  | .null => true
  | _ => false

def str? : Json φ → Option PyStr
  | .str s => some s
  | _ => none

def hashable : Json φ → Bool
  | .arr _ => false
  | .obj _ => false
  | _ => true

/-- A key and its value, as `dict` takes them from an element of a list. -/
def pair? : Json φ → Option (Json φ × Json φ)
  | .arr [k, v] => some (k, v)
  | .obj [k, v] => some (.str k.1, .str v.1)
  | .str s =>
    match s.codePoints with
    | [a, b] => some (.str (PyStr.units a), .str (PyStr.units b))
    | _ => none
  | _ => none

/-- The items of `dict(j or {})` in the order in which they are stored; `none` is a `TypeError` or a
`ValueError`. -/
def dictItems? (j : Json φ) : Option (List (Json φ × Json φ)) :=
  if j.truthy py = false then some []
  else
    match j with
    | .obj fields => some (fields.map fun f => (.str f.1, f.2))
    | .arr items => items.mapM fun item => item.pair?.filter fun kv => kv.1.hashable
    | _ => none

/-- `get(key)` of the dictionary: the last value stored under the key. -/
def itemUnder? (key : PyStr) (items : List (Json φ × Json φ)) : Option (Json φ) :=
  (items.reverse.find? fun kv =>
    match kv.1 with
    | .str s => decide (s = key)
    | _ => false).map Prod.snd

/-- `len(j)`; `none` is a `TypeError`. -/
def len? : Json φ → Option ℕ
  | .str s => some s.len
  | .arr items => some items.length
  | .obj fields => some fields.length
  | _ => none

/-! ## `json.dumps` without `ensure_ascii` -/

def rawUnit (u : CodeUnit) : PyStr :=
  if u.val < 32 ∨ u.val = 34 ∨ u.val = 92 then PyStr.ofList (escapeUnit u) else [u]

def rawQuote (s : PyStr) : PyStr :=
  PyStr.ofList ['"'] ++ s.flatMap rawUnit ++ PyStr.ofList ['"']

section Raw
variable (repr : φ → List Char)

mutual

/-- The text with `ensure_ascii=False` and the separators `(",", ":")`. -/
def rawDumps : Json φ → PyStr
  | .str s => rawQuote s
  | .arr [] => PyStr.ofList ['[', ']']
  | .arr (j :: items) => PyStr.ofList ['['] ++ rawDumps j ++ rawItems items
  | .obj [] => PyStr.ofList ['{', '}']
  | .obj ((k, j) :: fields) =>
    PyStr.ofList ['{'] ++ rawQuote k ++ PyStr.ofList [':'] ++ rawDumps j ++ rawFields fields
  | .null => PyStr.ofList ['n', 'u', 'l', 'l']
  | .bool true => PyStr.ofList ['t', 'r', 'u', 'e']
  | .bool false => PyStr.ofList ['f', 'a', 'l', 's', 'e']
  | .int i => PyStr.ofList (showInt i)
  | .float x => PyStr.ofList (repr x)

def rawItems : List (Json φ) → PyStr
  | [] => PyStr.ofList [']']
  | j :: items => PyStr.ofList [','] ++ rawDumps j ++ rawItems items

def rawFields : List (PyStr × Json φ) → PyStr
  | [] => PyStr.ofList ['}']
  | (k, j) :: fields =>
    PyStr.ofList [','] ++ rawQuote k ++ PyStr.ofList [':'] ++ rawDumps j ++ rawFields fields

end

end Raw

end Json

end Foundation
