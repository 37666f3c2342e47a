import Mathlib.Data.List.Infix
import OpenClaw.Foundation.ObjectHeap
import OpenClaw.Foundation.PyJson
import OpenClaw.Foundation.TextBytes

/-!
# Webhook mapping

`services/webhook_mapping.py`: field mapping rules, mapping profiles, the two path utilities, the
coercion engine and `apply_mapping`. A payload lives in memory, since a value that is passed
through stays shared between the payload and the result, and a later rule may write into it.
-/

namespace OpenClaw.Webhook

open Foundation
set_option autoImplicit false

variable {φ : Type}

def privilegedFields : List PyStr :=
  ["template_id", "profile_id", "pack_id", "tool_path", "execution_target", "execution_mode",
    "admin_override"].map PyStr.ofString

inductive CoercionType where
  | string | int | float | bool | json | passthrough
  deriving DecidableEq

def CoercionType.value : CoercionType → String
  | .string => "string"
  | .int => "int"
  | .float => "float"
  | .bool => "bool"
  | .json => "json"
  | .passthrough => "passthrough"

structure FieldMapping (φ : Type) where
  sourcePath : PyStr
  targetPath : PyStr
  coercion : CoercionType := .passthrough
  default : Json φ := .null
  required : Bool := false

structure MappingProfile (φ : Type) where
  id : PyStr
  defaults : List (PyStr × Json φ) := []
  fieldMappings : List (FieldMapping φ) := []
  sourcePattern : Option PyStr := none

/-- An exception of a conversion: a `ValueError` or `TypeError` with its text, or another one. -/
inductive Raised where
  | caught (detail : PyStr)
  | other

/-- What the interpreter makes of values, besides truth and text: the text of a circular structure,
conversions from and to floats, `json.loads`. -/
structure Builtins (φ : Type) extends PyInterpreter φ where
  circularStr : Heap φ → ℕ → PyStr
  intOfFloat : φ → Except Raised ℤ
  intError : PyStr → PyStr
  floatOfInt : ℤ → Except Raised φ
  floatOfStr : PyStr → Except Raised φ
  loads : PyStr → Except Raised (Json φ)

inductive MappingError where
  | privileged (field profileId : PyStr)
  | missing (sourcePath : PyStr)
  | coercion (sourcePath targetPath : PyStr) (kind : CoercionType) (detail : PyStr)
  /-- `int` of a list index with too many digits -/
  | index (digits : ℕ)
  /-- an exception that is no `ValueError` -/
  | other

def MappingError.message : MappingError → Option PyStr
  | .privileged field profileId => some <|
    PyStr.ofString "S59: Mapping blocked — target field '" ++ field ++
      PyStr.ofString "' is privileged. Profile '" ++ profileId ++
      PyStr.ofString "' is not allowlisted for this override."
  | .missing sourcePath => some <|
    PyStr.ofString "Required source field '" ++ sourcePath ++ PyStr.ofString "' not found in payload"
  | .coercion sourcePath targetPath kind detail => some <|
    PyStr.ofString "Coercion failed for '" ++ sourcePath ++ PyStr.ofString "' → '" ++ targetPath ++
      PyStr.ofString ("' (" ++ kind.value ++ "): ") ++ detail
  | .index digits => some <| PyStr.ofString <|
    "Exceeds the limit (4300 digits) for integer string conversion: value has " ++
      toString digits ++ " digits; use sys.set_int_max_str_digits() to increase the limit"
  | .other => none

/-! ## Path utilities -/

def dot : CodeUnit := 46
def bracket : CodeUnit := 91

/-- `re.split` at every dot and before every opening bracket. -/
def splitSource : PyStr → List PyStr
  | [] => [[]]
  | u :: rest =>
    match splitSource rest with
    | [] => [[u]]
    | part :: parts =>
      if u = dot then [] :: part :: parts
      else if u = bracket then [] :: (u :: part) :: parts
      else (u :: part) :: parts

/-- The digits of an array index; a line break may follow the closing bracket. -/
def indexDigits? (part : PyStr) : Option (List ℕ) :=
  match part.codePoints with
  | 91 :: rest =>
    let body := if rest.getLast? = some 10 then rest.dropLast else rest
    if body.getLast? = some 93 ∧ body.dropLast ≠ [] then body.dropLast.mapM PyText.decimalCode?
    else none
  | _ => none

/-- The rest of `_resolve_path` at the current value. -/
def resolveParts (h : Heap φ) : List PyStr → Val φ → Except MappingError (Option (Val φ))
  | [], current => .ok (some current)
  | part :: parts, current =>
    if part = [] then resolveParts h parts current
    else
      match indexDigits? part with
      | some digits =>
        if PyText.maxStrDigits < digits.length then .error (.index digits.length)
        else
          match (h.list? current).bind (·[digits.foldl (fun n d => 10 * n + d) 0]?) with
          | some v => resolveParts h parts v
          | none => .ok none
      | none =>
        match (h.dict? current).bind (under? part) with
        | some v => resolveParts h parts v
        | none => .ok none

/-- `_resolve_path`; `ok none` is "not found". -/
def resolvePath (h : Heap φ) (obj : Val φ) (path : PyStr) : Except MappingError (Option (Val φ)) :=
  resolveParts h (splitSource path) obj

/-- `path.split(".")`. -/
def targetParts (path : PyStr) : List PyStr := path.splitOn dot

def targetRoot (path : PyStr) : PyStr := (targetParts path).headD []

/-- A new dictionary under the key. -/
def freshDict (h : Heap φ) (current : ℕ) (part : PyStr) : Heap φ × ℕ :=
  ((h.alloc (.dict [])).1.setItem current part (.ref h.size), h.size)

/-- One round of the loop of `_set_path`. -/
def descend (h : Heap φ) (current : ℕ) (part : PyStr) : Heap φ × ℕ :=
  match (h.dict? (.ref current)).bind (under? part) with
  | some (.ref a) => if (h.dict? (.ref a)).isSome then (h, a) else freshDict h current part
  | _ => freshDict h current part

def setParts (h : Heap φ) (current : ℕ) (v : Val φ) : List PyStr → Heap φ
  | [] => h
  | [last] => h.setItem current last v
  | part :: parts =>
    let r := descend h current part
    setParts r.1 r.2 v parts

def setPath (h : Heap φ) (obj : ℕ) (path : PyStr) (v : Val φ) : Heap φ :=
  setParts h obj v (targetParts path)

/-! ## Coercion engine -/

section Coercion
variable (py : Builtins φ) (h : Heap φ)

/-- `bool(value)`. -/
def truthy : Val φ → Bool
  | .null => false
  | .bool b => b
  | .int i => i ≠ 0
  | .float x => py.floatTruthy x
  | .str s => s ≠ []
  | .ref a => (h.get? a).any fun c => !c.values.isEmpty

/-- `str(value)`. -/
def strOf : Val φ → PyStr
  | .null => PyStr.ofString "None"
  | .bool b => PyStr.ofString (if b then "True" else "False")
  | .int i => PyStr.ofList (Json.showInt i)
  | .float x => py.floatStr x
  | .str s => s
  | .ref a =>
    match h.toJson? (.ref a) with
    | some j => py.containerStr j
    | none => py.circularStr h a

def typeName : Val φ → String
  | .null => "NoneType"
  | .bool _ => "bool"
  | .int _ => "int"
  | .float _ => "float"
  | .str _ => "str"
  | .ref a =>
    match h.get? a with
    | some (.list _) => "list"
    | _ => "dict"

/-- `int(value)`. -/
def intOf (v : Val φ) : Except Raised ℤ :=
  match v with
  | .bool b => .ok (if b then 1 else 0)
  | .int i => .ok i
  | .float x => py.intOfFloat x
  | .str s =>
    match s.chars?.bind PyText.int? with
    | some i => .ok i
    | none => .error (.caught (py.intError s))
  | v => .error <| .caught <| PyStr.ofString <|
    "int() argument must be a string, a bytes-like object or a real number, not '" ++
      typeName h v ++ "'"

/-- `float(value)`. -/
def floatOf (v : Val φ) : Except Raised φ :=
  match v with
  | .bool b => py.floatOfInt (if b then 1 else 0)
  | .int i => py.floatOfInt i
  | .float x => .ok x
  | .str s => py.floatOfStr s
  | v => .error <| .caught <| PyStr.ofString <|
    "float() argument must be a string or a real number, not '" ++ typeName h v ++ "'"

def trueWords : List PyStr := ["true", "1", "yes", "on"].map PyStr.ofString

def boolOf : Val φ → Bool
  | .bool b => b
  | .str s => trueWords.contains (py.lower s)
  | v => truthy py h v

/-- `_coerce_value`; only `json` makes new cells. -/
def coerceValue (v : Val φ) (coercion : CoercionType) : Except Raised (Heap φ × Val φ) :=
  if v.isNull then .ok (h, .null)
  else
    match coercion with
    | .passthrough => .ok (h, v)
    | .string => .ok (h, .str (strOf py h v))
    | .int => (intOf py h v).map fun i => (h, .int i)
    | .float => (floatOf py h v).map fun x => (h, .float x)
    | .bool => .ok (h, .bool (boolOf py h v))
    | .json =>
      match v.str? with
      | some s => (py.loads s).map fun j => h.build j
      | none => .ok (h, v)

end Coercion

/-! ## Applying a profile -/

/-- The heap and the warnings between two rules. -/
structure MapState (φ : Type) where
  heap : Heap φ
  warnings : List PyStr := []

structure Mapped (φ : Type) where
  heap : Heap φ
  root : ℕ
  warnings : List PyStr

def skippedWarning (sourcePath : PyStr) : PyStr :=
  PyStr.ofString "Optional source field '" ++ sourcePath ++ PyStr.ofString "' not found, skipped"

section Apply
variable (py : Builtins φ) (allowed : List (PyStr × PyStr))

/-- One rule of `apply_mapping`, on the dictionary at `root`. -/
def applyField (profileId : PyStr) (payload : Val φ) (root : ℕ) (s : MapState φ)
    (fm : FieldMapping φ) : Except MappingError (MapState φ) :=
  if targetRoot fm.targetPath ∈ privilegedFields ∧
      (profileId, targetRoot fm.targetPath) ∉ allowed then
    .error (.privileged (targetRoot fm.targetPath) profileId)
  else
    match resolvePath s.heap payload fm.sourcePath with
    | .error e => .error e
    | .ok none =>
      if fm.required then .error (.missing fm.sourcePath)
      else if fm.default.isNull then
        .ok { s with warnings := s.warnings ++ [skippedWarning fm.sourcePath] }
      else
        let r := s.heap.build fm.default
        .ok { s with heap := setPath r.1 root fm.targetPath r.2 }
    | .ok (some v) =>
      match coerceValue py s.heap v fm.coercion with
      | .error (.caught detail) =>
        .error (.coercion fm.sourcePath fm.targetPath fm.coercion detail)
      | .error .other => .error .other
      | .ok r => .ok { s with heap := setPath r.1 root fm.targetPath r.2 }

def applyFields (profileId : PyStr) (payload : Val φ) (root : ℕ) :
    List (FieldMapping φ) → MapState φ → Except MappingError (MapState φ)
  | [], s => .ok s
  | fm :: rest, s =>
    match applyField py allowed profileId payload root s fm with
    | .error e => .error e
    | .ok s => applyFields profileId payload root rest s

def applyMapping (profile : MappingProfile φ) (h : Heap φ) (payload : Val φ) :
    Except MappingError (Mapped φ) :=
  let r := h.buildFields profile.defaults
  let root := r.1.size
  let s : MapState φ := { heap := (r.1.alloc (.dict r.2)).1 }
  (applyFields py allowed profile.id payload root profile.fieldMappings s).map fun s =>
    { heap := s.heap, root, warnings := s.warnings }

end Apply

/-- `result.get(key)`. -/
def Mapped.field? (m : Mapped φ) (key : PyStr) : Option (Val φ) :=
  (m.heap.dict? (.ref m.root)).bind (under? key)

/-- The JSON value under a key of the result. -/
def Mapped.json? (m : Mapped φ) (key : PyStr) : Option (Option (Json φ)) :=
  (m.field? key).map m.heap.toJson?

/-! ## Built-in profiles -/

def field (source target : String) (coercion : CoercionType) (default : Json φ)
    (required : Bool) : FieldMapping φ :=
  { sourcePath := PyStr.ofString source, targetPath := PyStr.ofString target, coercion, default,
    required }

def text (s : String) : Json φ := .str (PyStr.ofString s)

def githubPush : MappingProfile φ where
  id := PyStr.ofString "github_push"
  sourcePattern := some (PyStr.ofString "github")
  defaults := [(PyStr.ofString "version", .int 1), (PyStr.ofString "profile_id", text "default")]
  fieldMappings := [
    field "repository.full_name" "inputs.repo_name" .string .null false,
    field "ref" "inputs.ref" .string .null false,
    field "head_commit.message" "inputs.commit_message" .string .null false,
    field "sender.login" "inputs.actor" .string (text "unknown") false]

def discordMessage : MappingProfile φ where
  id := PyStr.ofString "discord_message"
  sourcePattern := some (PyStr.ofString "discord")
  defaults := [(PyStr.ofString "version", .int 1), (PyStr.ofString "profile_id", text "default")]
  fieldMappings := [
    field "content" "inputs.requirements" .string .null true,
    field "author.username" "inputs.actor" .string (text "discord_user") false]

def generic : MappingProfile φ where
  id := PyStr.ofString "generic"
  defaults := [(PyStr.ofString "version", .int 1)]
  fieldMappings := [
    field "template_id" "template_id" .string .null true,
    field "profile_id" "profile_id" .string (text "default") false,
    field "inputs" "inputs" .passthrough (.obj []) false,
    field "job_id" "job_id" .string .null false,
    field "trace_id" "trace_id" .string .null false,
    field "callback" "callback" .passthrough .null false]

def builtinProfiles : List (MappingProfile φ) := [githubPush, discordMessage, generic]

def allowedPrivilegedOverrides : List (PyStr × PyStr) :=
  [(PyStr.ofString "generic", PyStr.ofString "template_id"),
    (PyStr.ofString "generic", PyStr.ofString "profile_id")]

/-- A header as the handlers read it. -/
def headerText (headers : String → Option String) (name : String) : PyStr :=
  (PyStr.ofString ((headers name).getD "")).strip

/-- `resolve_profile`, without a source hint. -/
def resolveProfile (py : Builtins φ) (headers : String → Option String) :
    Option (MappingProfile φ) :=
  let explicit := headerText headers "X-Webhook-Mapping-Profile"
  match builtinProfiles.find? fun p => explicit ≠ [] ∧ p.id = explicit with
  | some p => some p
  | none =>
    let source := py.lower (headerText headers "X-Webhook-Source")
    if source = [] then none
    else builtinProfiles.find? fun p => p.sourcePattern.any fun s => s ≠ [] ∧ s <:+: source

end OpenClaw.Webhook
