import Mathlib.Data.List.Basic
import Mathlib.Data.List.Infix

/-!
# The tree of an XML document

Line ends are normalized, the tokens are read, and a stack of open elements turns them into a tree.
An element keeps the text before its first child.
-/

namespace Foundation.Xml

set_option autoImplicit false

/-!
## Tokens of XML

The grammar of XML 1.0 without document type declarations: tags with attributes, references, CDATA
sections, comments, processing instructions and characters. Names are taken as they stand, without
namespaces.
-/

section Tokens

def isChar (c : Char) : Bool :=
  decide (c.toNat = 9 ∨ c.toNat = 10 ∨ c.toNat = 13 ∨ (0x20 ≤ c.toNat ∧ c.toNat ≤ 0xd7ff) ∨
    (0xe000 ≤ c.toNat ∧ c.toNat ≤ 0xfffd) ∨ 0x10000 ≤ c.toNat)

def isSpace (c : Char) : Bool := decide (c = ' ' ∨ c = '\t' ∨ c = '\n' ∨ c = '\r')

/-- First and last code points of the characters that may start a name. -/
def nameStartRanges : List (ℕ × ℕ) :=
  [(0x3a, 0x3a), (0x41, 0x5a), (0x5f, 0x5f), (0x61, 0x7a), (0xc0, 0xd6), (0xd8, 0xf6),
    (0xf8, 0x2ff), (0x370, 0x37d), (0x37f, 0x1fff), (0x200c, 0x200d), (0x2070, 0x218f),
    (0x2c00, 0x2fef), (0x3001, 0xd7ff), (0xf900, 0xfdcf), (0xfdf0, 0xfffd), (0x10000, 0xeffff)]

def nameRanges : List (ℕ × ℕ) :=
  [(0x2d, 0x2e), (0x30, 0x39), (0xb7, 0xb7), (0x300, 0x36f), (0x203f, 0x2040)]

def inRanges (ranges : List (ℕ × ℕ)) (c : Char) : Bool :=
  ranges.any fun r => decide (r.1 ≤ c.toNat ∧ c.toNat ≤ r.2)

def isNameStart (c : Char) : Bool := inRanges nameStartRanges c

def isNameChar (c : Char) : Bool := isNameStart c || inRanges nameRanges c

def cdataOpen : List Char := ['<', '!', '[', 'C', 'D', 'A', 'T', 'A', '[']
def cdataClose : List Char := [']', ']', '>']
def commentOpen : List Char := ['<', '!', '-', '-']
def instructionOpen : List Char := ['<', '?']
def instructionClose : List Char := ['?', '>']
def stopOpen : List Char := ['<', '/']
def emptyClose : List Char := ['/', '>']

/-! ## Pieces of a text -/

/-- What follows the given start. -/
def strip? (d : List Char) (cs : List Char) : Option (List Char) :=
  if d.isPrefixOf cs then some (cs.drop d.length) else none

/-- What comes before the first place where the delimiter stands, and what comes after it. -/
def breakOn (d : List Char) : List Char → Option (List Char × List Char)
  | [] => if d = [] then some ([], []) else none
  | c :: cs =>
    match strip? d (c :: cs) with
    | some rest => some ([], rest)
    | none => (breakOn d cs).map fun r => (c :: r.1, r.2)

def lexName (cs : List Char) : Option (List Char × List Char) :=
  let name := cs.takeWhile isNameChar
  if name.head?.any isNameStart then some (name, cs.dropWhile isNameChar) else none

def digit? (c : Char) : Option ℕ :=
  if '0' ≤ c ∧ c ≤ '9' then some (c.toNat - 48) else none

def hexDigit? (c : Char) : Option ℕ :=
  if 'a' ≤ c ∧ c ≤ 'f' then some (c.toNat - 87)
  else if 'A' ≤ c ∧ c ≤ 'F' then some (c.toNat - 55)
  else digit? c

/-- The character with the number that the digits write. -/
def charRef? (base : ℕ) (value : Char → Option ℕ) (digits : List Char) : Option Char := do
  let ds ← digits.mapM value
  let n := ds.foldl (fun n d => n * base + d) 0
  if digits ≠ [] ∧ n.isValidChar ∧ isChar (Char.ofNat n) then some (Char.ofNat n) else none

def entity? (body : List Char) : Option Char :=
  if body = "amp".toList then some '&'
  else if body = "lt".toList then some '<'
  else if body = "gt".toList then some '>'
  else if body = "apos".toList then some '\''
  else if body = "quot".toList then some '"'
  else
    match strip? "#x".toList body with
    | some digits => charRef? 16 hexDigit? digits
    | none => (strip? ['#'] body).bind (charRef? 10 digit?)

/-- A reference after its ampersand. -/
def lexReference (cs : List Char) : Option (Char × List Char) := do
  let (body, rest) ← breakOn [';'] cs
  let c ← entity? body
  return (c, rest)

/-- An attribute value has no `<`, and every ampersand in it starts a reference. -/
def attributeValueOk (value : List Char) : Bool :=
  value.all (· ≠ '<') && value.tails.all fun t =>
    match t with
    | '&' :: rest => (lexReference rest).isSome
    | _ => true

def quoted? : List Char → Option (Char × List Char)
  | [] => none
  | c :: cs => if c = '"' ∨ c = '\'' then some (c, cs) else none

def lexAttribute (cs : List Char) : Option ((List Char × List Char) × List Char) := do
  let (name, cs) ← lexName cs
  let cs ← strip? ['='] (cs.dropWhile isSpace)
  let (quote, cs) ← quoted? (cs.dropWhile isSpace)
  let (value, cs) ← breakOn [quote] cs
  if attributeValueOk value then some ((name, value), cs) else none

/-- The attributes of a tag, each after white space, up to the end of the tag. -/
def lexAttributes : ℕ → List Char → Option (List (List Char × List Char) × List Char)
  | 0, cs => some ([], cs)
  | fuel + 1, cs =>
    match cs.dropWhile isSpace with
    | [] => none
    | c :: rest =>
      if c = '>' ∨ c = '/' ∨ c = '?' then some ([], c :: rest)
      else if cs.head?.any isSpace = false then none
      else do
        let (attr, cs) ← lexAttribute (c :: rest)
        let (attributes, cs) ← lexAttributes fuel cs
        return (attr :: attributes, cs)

/-! ## Tokens -/

inductive Token where
  | start (tag : List Char)
  | stop (tag : List Char)
  | empty (tag : List Char)
  | literal (c : Char)
  | reference (c : Char)
  | cdata (text : List Char)
  /-- a comment or a processing instruction -/
  | other
  deriving DecidableEq

def lexTag (cs : List Char) : Option (Token × List Char) := do
  let (tag, cs) ← lexName cs
  let (attributes, cs) ← lexAttributes cs.length cs
  if (attributes.map Prod.fst).Nodup then
    match strip? ['>'] cs with
    | some rest => some (.start tag, rest)
    | none => (strip? emptyClose cs).map fun rest => (.empty tag, rest)
  else none

def lexStop (cs : List Char) : Option (Token × List Char) := do
  let (tag, cs) ← lexName cs
  let rest ← strip? ['>'] (cs.dropWhile isSpace)
  return (.stop tag, rest)

/-- A comment ends where its first two hyphens are followed by `>`. -/
def lexComment (cs : List Char) : Option (Token × List Char) := do
  let (_, cs) ← breakOn ['-', '-'] cs
  let rest ← strip? ['>'] cs
  return (.other, rest)

def lexInstruction (cs : List Char) : Option (Token × List Char) := do
  let (target, cs) ← lexName cs
  if target.map Char.toLower = "xml".toList then none
  else if cs.head?.any isSpace || (strip? instructionClose cs).isSome then do
    let (_, rest) ← breakOn instructionClose cs
    return (.other, rest)
  else none

def lexOne (cs : List Char) : Option (Token × List Char) :=
  match strip? cdataOpen cs with
  | some rest => (breakOn cdataClose rest).map fun r => (.cdata r.1, r.2)
  | none =>
    match strip? commentOpen cs with
    | some rest => lexComment rest
    | none =>
      match strip? instructionOpen cs with
      | some rest => lexInstruction rest
      | none =>
        match strip? stopOpen cs with
        | some rest => lexStop rest
        | none =>
          match cs with
          | [] => none
          | c :: rest =>
            if c = '<' then lexTag rest
            else if c = '&' then (lexReference rest).map fun r => (.reference r.1, r.2)
            else if (strip? cdataClose cs).isSome then none
            else some (.literal c, rest)

def lexAll : ℕ → List Char → Option (List Token)
  | _, [] => some []
  | 0, _ :: _ => none
  | fuel + 1, c :: cs => do
    let (token, rest) ← lexOne (c :: cs)
    let tokens ← lexAll fuel rest
    return token :: tokens

/-- A token is never empty, so the length of the text is fuel enough. -/
def lex (cs : List Char) : Option (List Token) := lexAll cs.length cs

end Tokens

inductive Element where
  | mk (tag text : List Char) (children : List Element)

namespace Element

def tag : Element → List Char
  | mk tag _ _ => tag

def text : Element → List Char
  | mk _ text _ => text

def children : Element → List Element
  | mk _ _ children => children

end Element

/-- An element that is open. -/
structure Frame where
  tag : List Char
  text : List Char := []
  children : List Element := []

namespace Frame

/-- Text after a child belongs to no element's text. -/
def addText (f : Frame) (cs : List Char) : Frame :=
  if f.children.isEmpty then { f with text := f.text ++ cs } else f

def addChild (f : Frame) (e : Element) : Frame := { f with children := f.children ++ [e] }

def close (f : Frame) : Element := .mk f.tag f.text f.children

end Frame

inductive Progress where
  | before
  | inside (top : Frame) (rest : List Frame)
  | after (root : Element)

/-- The text that a token stands for. -/
def Token.text : Token → List Char
  | .literal c => [c]
  | .reference c => [c]
  | .cdata text => text
  | _ => []

/-- The element is complete, as a child or as the root. -/
def complete (e : Element) : List Frame → Progress
  | [] => .after e
  | parent :: rest => .inside (parent.addChild e) rest

def feed : Progress → Token → Option Progress
  | .inside top rest, .start tag => some (.inside { tag } (top :: rest))
  | .inside top rest, .empty tag => some (complete (.mk tag [] []) (top :: rest))
  | .inside top rest, .stop tag => if tag = top.tag then some (complete top.close rest) else none
  | .inside top rest, .other => some (.inside top rest)
  | .inside top rest, token => some (.inside (top.addText token.text) rest)
  | .before, .start tag => some (.inside { tag } [])
  | .before, .empty tag => some (.after (.mk tag [] []))
  | outside, .other => some outside
  | outside, .literal c => if isSpace c then some outside else none
  | _, _ => none

def feedAll : Progress → List Token → Option Progress
  | p, [] => some p
  | p, token :: tokens => (feed p token).bind fun next => feedAll next tokens

theorem feedAll_cons (p : Progress) (token : Token) (tokens : List Token) :
    feedAll p (token :: tokens) = (feed p token).bind fun next => feedAll next tokens := rfl

def build (tokens : List Token) : Option Element :=
  match feedAll .before tokens with
  | some (.after root) => some root
  | _ => none

/-! ## Documents -/

/-- A carriage return, with the line feed after it if there is one, is one line feed. -/
def normalizeFrom : Bool → List Char → List Char
  | _, [] => []
  | afterCr, c :: cs =>
    if c = '\r' then '\n' :: normalizeFrom true cs
    else if afterCr ∧ c = '\n' then normalizeFrom false cs
    else c :: normalizeFrom false cs

theorem normalizeFrom_cons (afterCr : Bool) (c : Char) (cs : List Char) :
    normalizeFrom afterCr (c :: cs) =
      if c = '\r' then '\n' :: normalizeFrom true cs
      else if afterCr ∧ c = '\n' then normalizeFrom false cs
      else c :: normalizeFrom false cs := rfl

def normalizeNewlines (cs : List Char) : List Char := normalizeFrom false cs

def isVersion (value : List Char) : Bool :=
  match strip? "1.".toList value with
  | some digits => decide (digits ≠ []) && digits.all Char.isDigit
  | none => false

/-- `version`, then `encoding` and `standalone` if they are there. -/
def declarationOk (attributes : List (List Char × List Char)) : Bool :=
  match attributes with
  | [] => false
  | version :: rest =>
    let rest := if (rest.head?.map Prod.fst) = some "encoding".toList then rest.tail else rest
    decide (version.1 = "version".toList) && (isVersion version.2 &&
      (rest.isEmpty || decide (rest = [("standalone".toList, "yes".toList)] ∨
        rest = [("standalone".toList, "no".toList)])))

/-- The text after the XML declaration, which may be missing. -/
def dropDeclaration (cs : List Char) : Option (List Char) :=
  match strip? "<?xml".toList cs with
  | none => some cs
  | some rest =>
    if rest.head?.any isSpace then do
      let (attributes, rest) ← lexAttributes rest.length rest
      if declarationOk attributes then strip? instructionClose rest else none
    else some cs

def parse (cs : List Char) : Option Element := do
  let cs := normalizeNewlines cs
  let cs := if cs.head? = some '\ufeff' then cs.tail else cs
  if cs.all isChar then do
    let cs ← dropDeclaration cs
    let tokens ← lex cs
    build tokens
  else none

end Foundation.Xml
