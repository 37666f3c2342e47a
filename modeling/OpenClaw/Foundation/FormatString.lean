import OpenClaw.Foundation.PyText

/-!
# Format strings

`string.Formatter().parse` and `str.format`, read character by character. What a field stands for
is up to the caller.
-/

namespace Foundation.FormatString

set_option autoImplicit false

/-- A replacement field: its name, the conversion behind `!` and the specification behind `:`. -/
structure Field where
  name : PyStr
  conversion : Option CodeUnit
  spec : PyStr
  deriving DecidableEq

/-- Literal text and the field behind it. -/
structure Part where
  literal : PyStr
  field : Option Field
  deriving DecidableEq

inductive FormatError where
  | singleBrace
  | braceInName
  | endInName
  | endInConversion
  | colonExpected
  | unmatchedInSpec
  deriving DecidableEq

def openBrace : CodeUnit := 0x7b
def closeBrace : CodeUnit := 0x7d
def colon : CodeUnit := 0x3a
def bang : CodeUnit := 0x21
def openBracket : CodeUnit := 0x5b
def closeBracket : CodeUnit := 0x5d

/-- How far a part has been read. -/
inductive State where
  | literal (text : PyStr)
  | brace (text : PyStr) (c : CodeUnit)
  | name (text name : PyStr) (bracket : Bool)
  | conversion (text name : PyStr)
  | converted (text name : PyStr) (conv : CodeUnit)
  | spec (text name : PyStr) (conv : Option CodeUnit) (spec : PyStr) (depth : ℕ)

/-- Inside a field name. An index in brackets may contain every other character. -/
def stepName (text name : PyStr) (bracket : Bool) (c : CodeUnit) :
    Except FormatError (Option Part × State) :=
  if bracket then .ok (none, .name text (name ++ [c]) (c ≠ closeBracket))
  else if c = openBrace then .error .braceInName
  else if c = closeBrace then .ok (some ⟨text, some ⟨name, none, []⟩⟩, .literal [])
  else if c = colon then .ok (none, .spec text name none [] 0)
  else if c = bang then .ok (none, .conversion text name)
  else .ok (none, .name text (name ++ [c]) (c = openBracket))

def step : State → CodeUnit → Except FormatError (Option Part × State)
  | .literal text, c =>
    if c = openBrace ∨ c = closeBrace then .ok (none, .brace text c)
    else .ok (none, .literal (text ++ [c]))
  | .brace text b, c =>
    -- a doubled brace stands for itself and ends the literal
    if c = b then .ok (some ⟨text ++ [b], none⟩, .literal [])
    else if b = closeBrace then .error .singleBrace
    else stepName text [] false c
  | .name text name bracket, c => stepName text name bracket c
  | .conversion text name, c => .ok (none, .converted text name c)
  | .converted text name conv, c =>
    if c = closeBrace then .ok (some ⟨text, some ⟨name, some conv, []⟩⟩, .literal [])
    else if c = colon then .ok (none, .spec text name (some conv) [] 0)
    else .error .colonExpected
  | .spec text name conv spec depth, c =>
    if c = closeBrace then
      match depth with
      | 0 => .ok (some ⟨text, some ⟨name, conv, spec⟩⟩, .literal [])
      | depth + 1 => .ok (none, .spec text name conv (spec ++ [c]) depth)
    else .ok (none, .spec text name conv (spec ++ [c]) (if c = openBrace then depth + 1 else depth))

def finish : State → Except FormatError (List Part)
  | .literal [] => .ok []
  | .literal (c :: text) => .ok [⟨c :: text, none⟩]
  | .brace _ _ => .error .singleBrace
  | .name _ _ _ => .error .endInName
  | .conversion _ _ => .error .endInConversion
  | .converted _ _ _ => .error .unmatchedInSpec
  | .spec _ _ _ _ _ => .error .unmatchedInSpec

def parseFrom (state : State) : PyStr → Except FormatError (List Part)
  | [] => finish state
  | c :: cs =>
    match step state c with
    | .error e => .error e
    | .ok (none, state') => parseFrom state' cs
    | .ok (some part, state') => (parseFrom state' cs).map (part :: ·)

/-- `Formatter().parse(template)`, as a whole. -/
def parse (template : PyStr) : Except FormatError (List Part) := parseFrom (.literal []) template

section Render
variable (value : Field → Option PyStr)

def renderPart (part : Part) : Option PyStr :=
  match part.field with
  | none => some part.literal
  | some field => (value field).map (part.literal ++ ·)

/-- `template.format(...)`, where `value` is what a field stands for; `none` is an exception. -/
def format (template : PyStr) : Option PyStr :=
  match parse template with
  | .error _ => none
  | .ok parts => (parts.mapM (renderPart value)).map List.flatten

end Render

theorem parseFrom_plain {s : PyStr} (h : openBrace ∉ s ∧ closeBrace ∉ s) (text : PyStr) :
    parseFrom (.literal text) s = finish (.literal (text ++ s)) := by
  induction s generalizing text with
  | nil => rw [parseFrom, List.append_nil]
  | cons c s ih =>
    have hc : ¬(c = openBrace ∨ c = closeBrace) := by
      rintro (rfl | rfl)
      · exact h.1 List.mem_cons_self
      · exact h.2 List.mem_cons_self
    have hs : openBrace ∉ s ∧ closeBrace ∉ s :=
      ⟨fun hm => h.1 (List.mem_cons_of_mem c hm), fun hm => h.2 (List.mem_cons_of_mem c hm)⟩
    rw [parseFrom, step, if_neg hc]
    show parseFrom (.literal (text ++ [c])) s = _
    rw [ih hs, List.append_assoc, List.singleton_append]

/-- A template without braces stands for itself. -/
theorem format_plain {s : PyStr} (h : openBrace ∉ s ∧ closeBrace ∉ s)
    (value : Field → Option PyStr) : format value s = some s := by
  rw [format, parse, parseFrom_plain h, List.nil_append]
  cases s with
  | nil => rfl
  | cons c s => simp [finish, renderPart]

end Foundation.FormatString
