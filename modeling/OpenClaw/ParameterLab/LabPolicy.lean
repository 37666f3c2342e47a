import OpenClaw.Foundation.Checks
import OpenClaw.Foundation.RawLayout

/-!
# What a sweep may contain

The validators of the creation policy, one after the other in the order in which a request meets
them. A text without an encoding, and an integer too long to be spelled, leave a validator by
another exception than the declared one.
-/

namespace OpenClaw.ParameterLab

open Foundation

set_option autoImplicit false

def maxWorkflowUtf8Bytes : ℕ := 4 * 1024 * 1024
def maxSweepDimensions : ℕ := 8
def maxValuesPerDimension : ℕ := 50
def maxNodeIdUtf8Bytes : ℕ := 128
def maxWidgetNameUtf8Bytes : ℕ := 256
def maxScalarStringUtf8Bytes : ℕ := 16 * 1024
def maxPlanUtf8Bytes : ℕ := 8 * 1024 * 1024
def maxSweepCombinations : ℕ := 50

inductive Code where
  | workflowRequired
  | workflowTooLarge
  | paramsMustBeList
  | dimensionsRequired
  | tooManyDimensions
  | invalidDimension
  | nodeIdRequired
  | invalidNodeId
  | nodeIdTooLarge
  | widgetNameRequired
  | invalidWidgetName
  | widgetNameTooLarge
  | valuesRequired
  | tooManyValues
  | invalidScalarValue
  | scalarStringTooLarge
  | duplicateAmbiguousValue
  | duplicateDimension
  | invalidStrategy
  | sweepTooLarge
  | planTooLarge
  deriving DecidableEq

def Code.message : Code → String
  | .workflowRequired => "workflow_json is required"
  | .workflowTooLarge => "workflow_json exceeds the byte limit"
  | .paramsMustBeList => "params must be a list"
  | .dimensionsRequired => "At least one sweep dimension is required"
  | .tooManyDimensions => "Too many sweep dimensions"
  | .invalidDimension => "Each sweep dimension must be an object"
  | .nodeIdRequired => "node_id is required"
  | .invalidNodeId => "node_id is not a supported identifier"
  | .nodeIdTooLarge => "node_id exceeds the byte limit"
  | .widgetNameRequired => "widget_name is required"
  | .invalidWidgetName => "widget_name is not a supported identifier"
  | .widgetNameTooLarge => "widget_name exceeds the byte limit"
  | .valuesRequired => "values must be a non-empty list"
  | .tooManyValues => "Values per dimension exceeds limit 50"
  | .invalidScalarValue => "items must contain only scalar values"
  | .scalarStringTooLarge => "A scalar string exceeds the byte limit"
  | .duplicateAmbiguousValue => "Values contain a presentation-ambiguous duplicate"
  | .duplicateDimension => "Duplicate node/widget dimension"
  | .invalidStrategy => "Only grid sweep strategy is supported"
  | .sweepTooLarge => "Sweep size exceeds limit 50"
  | .planTooLarge => "Serialized Parameter Lab plan exceeds the byte limit"

/-- What leaves a validator: the declared `ParameterLabValidationError`, the `UnicodeEncodeError` of
`str.encode` or the `ValueError` of `str(int)`. -/
inductive Raised where
  | validation (code : Code) (status : ℕ) (message : String)
  | unicodeEncode
  | intDigits
  deriving DecidableEq

def Raised.Undeclared : Raised → Prop
  | .validation _ _ _ => False
  | _ => True

instance : DecidablePred Raised.Undeclared
  | .validation _ _ _ => isFalse id
  | .unicodeEncode => isTrue trivial
  | .intDigits => isTrue trivial

def refuse {α : Type} (code : Code) : Except Raised α := .error (.validation code 400 code.message)

def tooLarge {α : Type} (code : Code) : Except Raised α := .error (.validation code 413 code.message)

/-- The interpreter spells no integer of more digits. -/
def longInt (i : ℤ) : Bool := PyText.maxStrDigits < (Nat.toDigits 10 i.natAbs).length

/-- `str(i)`. -/
def strInt (i : ℤ) : Except Raised PyStr :=
  if longInt i then .error .intDigits else .ok (PyStr.ofList (Json.showInt i))

def utf8Size (value : PyStr) : Except Raised ℕ :=
  match value.chars? with
  | some cs => .ok (byteSize cs)
  | none => .error .unicodeEncode

def containsControl (value : PyStr) : Bool := value.any fun u => u.val < 32 || u.val = 127

def blank (value : PyStr) : Prop := value.strip = []

instance (value : PyStr) : Decidable (blank value) := inferInstanceAs (Decidable (_ = _))

/-- The code unit of the separator of override keys. -/
def dot : CodeUnit := 46

/-- What the interpreter knows about floats: `math.isfinite`, `value == 0`, the integer that a float
is, and its text. No float is an integer that is too long to be spelled. -/
structure Floats (φ : Type) where
  finite : φ → Bool
  isZero : φ → Bool
  integer? : φ → Option ℤ
  repr : φ → List Char
  integer_short : ∀ x i, integer? x = some i → longInt i = false

variable {φ : Type}

def validateWorkflow : Json φ → Except Raised PyStr
  | .str workflow =>
    if blank workflow then refuse .workflowRequired
    else do
      let size ← utf8Size workflow
      if maxWorkflowUtf8Bytes < size then tooLarge .workflowTooLarge else .ok workflow
  | _ => refuse .workflowRequired

def nodeIdText : Json φ → Except Raised PyStr
  | .null => refuse .nodeIdRequired
  | .int i => strInt i
  | .str s => .ok s
  | _ => refuse .invalidNodeId

def normalizeNodeId (nodeId : Json φ) : Except Raised PyStr := do
  let normalized ← nodeIdText nodeId
  if blank normalized then refuse .nodeIdRequired
  else if dot ∈ normalized ∨ containsControl normalized then refuse .invalidNodeId
  else do
    let size ← utf8Size normalized
    if maxNodeIdUtf8Bytes < size then refuse .nodeIdTooLarge else .ok normalized

def normalizeWidgetName : Json φ → Except Raised PyStr
  | .str widgetName =>
    if blank widgetName then refuse .widgetNameRequired
    else if containsControl widgetName then refuse .invalidWidgetName
    else do
      let size ← utf8Size widgetName
      if maxWidgetNameUtf8Bytes < size then refuse .widgetNameTooLarge else .ok widgetName
  | _ => refuse .widgetNameRequired

def normalizeScalar (floats : Floats φ) (allowEmptyString : Bool) : Json φ →
    Except Raised (Json φ)
  | .str value =>
    if allowEmptyString = false ∧ blank value then refuse .invalidScalarValue
    else do
      let size ← utf8Size value
      if maxScalarStringUtf8Bytes < size then refuse .scalarStringTooLarge else .ok (.str value)
  | .bool value => .ok (.bool value)
  | .int value => .ok (.int value)
  | .float value => if floats.finite value then .ok (.float value) else refuse .invalidScalarValue
  | _ => refuse .invalidScalarValue

/-- The text under which a scalar is shown. Only scalars are given to it. -/
def presentationKey (floats : Floats φ) : Json φ → Except Raised PyStr
  | .str value => .ok value
  | .bool value => .ok (PyStr.ofString (if value then "true" else "false"))
  | .int value => strInt value
  | .float value =>
    if floats.isZero value then .ok (PyStr.ofString "0")
    else
      match floats.integer? value with
      | some i => strInt i
      | none => .ok (PyStr.ofList (floats.repr value))
  | _ => refuse .invalidScalarValue

structure SeenValues (φ : Type) where
  normalized : List (Json φ)
  presentations : List PyStr

def scalarStep (floats : Floats φ) (allowEmptyString : Bool) (seen : SeenValues φ)
    (value : Json φ) : Except Raised (SeenValues φ) := do
  let scalar ← normalizeScalar floats allowEmptyString value
  let presentation ← presentationKey floats scalar
  if presentation ∈ seen.presentations then refuse .duplicateAmbiguousValue
  else .ok ⟨seen.normalized ++ [scalar], seen.presentations ++ [presentation]⟩

def scalarLoop (floats : Floats φ) (allowEmptyString : Bool) (values : List (Json φ)) :
    Except Raised (SeenValues φ) :=
  values.foldlM (scalarStep floats allowEmptyString) ⟨[], []⟩

def validateScalarValues (floats : Floats φ) (maxValues : ℕ) (allowEmptyString : Bool) :
    Json φ → Except Raised (List (Json φ))
  | .arr values =>
    if values = [] then refuse .valuesRequired
    else if maxValues < values.length then refuse .tooManyValues
    else do
      let seen ← scalarLoop floats allowEmptyString values
      .ok seen.normalized
  | _ => refuse .valuesRequired

structure SweepDimension (φ : Type) where
  nodeId : PyStr
  widgetName : PyStr
  values : List (Json φ)
  strategy : PyStr
  count : ℕ

def SweepDimension.key (d : SweepDimension φ) : PyStr × PyStr := (d.nodeId, d.widgetName)

/-- `raw.get(key)`. -/
def get (raw : List (PyStr × Json φ)) (key : String) : Json φ :=
  ((raw.find? fun f => f.1 = PyStr.ofString key).map Prod.snd).getD .null

/-- `raw.get("strategy", "grid") == "grid"`. -/
def isGrid (raw : List (PyStr × Json φ)) : Bool :=
  match (raw.find? fun f => f.1 = PyStr.ofString "strategy").map Prod.snd with
  | none => true
  | some (.str s) => s = PyStr.ofString "grid"
  | some _ => false

structure SeenDimensions (φ : Type) where
  normalized : List (SweepDimension φ)
  dimensions : List (PyStr × PyStr)
  combinations : ℕ

def dimensionStep (floats : Floats φ) (seen : SeenDimensions φ) :
    Json φ → Except Raised (SeenDimensions φ)
  | .obj raw => do
    let nodeId ← normalizeNodeId (get raw "node_id")
    let widgetName ← normalizeWidgetName (get raw "widget_name")
    if (nodeId, widgetName) ∈ seen.dimensions then refuse .duplicateDimension
    else if isGrid raw = false then refuse .invalidStrategy
    else do
      let values ← validateScalarValues floats maxValuesPerDimension true (get raw "values")
      if maxSweepCombinations < seen.combinations * values.length then refuse .sweepTooLarge
      else
        .ok ⟨seen.normalized ++ [⟨nodeId, widgetName, values, PyStr.ofString "grid", 0⟩],
          seen.dimensions ++ [(nodeId, widgetName)], seen.combinations * values.length⟩
  | _ => refuse .invalidDimension

def dimensionLoop (floats : Floats φ) (params : List (Json φ)) :
    Except Raised (SeenDimensions φ) :=
  params.foldlM (dimensionStep floats) ⟨[], [], 1⟩

def validateSweepDimensions (floats : Floats φ) :
    Json φ → Except Raised (List (SweepDimension φ))
  | .arr params =>
    if params = [] then refuse .dimensionsRequired
    else if maxSweepDimensions < params.length then refuse .tooManyDimensions
    else do
      let seen ← dimensionLoop floats params
      .ok seen.normalized
  | _ => refuse .paramsMustBeList

section Writable
variable (floats : Floats φ)

mutual

/-- Whether `json.dumps` with `allow_nan=False` writes the value. -/
def writable : Json φ → Bool
  | .int i => !longInt i
  | .float x => floats.finite x
  | .arr items => writableItems items
  | .obj fields => writableFields fields
  | _ => true

def writableItems : List (Json φ) → Bool
  | [] => true
  | j :: items => writable j && writableItems items

def writableFields : List (PyStr × Json φ) → Bool
  | [] => true
  | (_, j) :: fields => writable j && writableFields fields

end

end Writable

def serializePlanPayload (floats : Floats φ) (payload : Json φ) : Except Raised PyStr :=
  if writable floats payload = false then refuse .invalidScalarValue
  else do
    let serialized := Json.rawDumpsIndent floats.repr payload
    let size ← utf8Size serialized
    if maxPlanUtf8Bytes < size then tooLarge .planTooLarge else .ok serialized

end OpenClaw.ParameterLab
