import OpenClaw.Webhook.MappingTrees

/-!
# The webhook job request

`WebhookJobRequest` of `models/schemas.py` with its contract from `services/request_contracts.py`,
and `validate_canonical_schema` of `services/webhook_mapping.py`.
-/

namespace OpenClaw.Webhook

open Foundation
set_option autoImplicit false

variable {φ : Type}

/-- Besides the conversions: which floats equal 1, and how `json.dumps` writes floats. -/
structure WebhookLibs (φ : Type) extends Builtins φ where
  floatIsOne : φ → Bool
  repr : φ → List Char

def maxIdLength : ℕ := 64
def maxInputStringLength : ℕ := 2048

def requiredTopLevel : List PyStr := ["version", "template_id", "profile_id"].map PyStr.ofString

def allowedTopLevel : List PyStr :=
  ["version", "template_id", "profile_id", "inputs", "job_id", "trace_id",
    "callback"].map PyStr.ofString

def allowedInputKeys : List PyStr :=
  ["requirements", "goal", "seed", "positive_prompt", "negative_prompt"].map PyStr.ofString

def field? (key : String) (data : List (PyStr × Json φ)) : Option (Json φ) :=
  under? (PyStr.ofString key) data

/-- The fields as they come in; nothing checks their types. -/
structure JobRequest (φ : Type) where
  version : Json φ
  templateId : Json φ
  profileId : Json φ
  inputs : Json φ
  jobId : Json φ
  traceId : Json φ
  callback : Json φ

inductive RequestError where
  | unknownFields (fields : List PyStr)
  | missingFields (fields : List PyStr)
  | unsupportedVersion
  | tooLong (field : String) (max : ℕ)
  | traceCharacters
  | unknownInput (key : PyStr)
  | inputTooLong (key : PyStr)
  /-- an exception that is no `ValueError` -/
  | raised

/-- `[a-zA-Z0-9_-]`. -/
def traceUnit (u : CodeUnit) : Bool :=
  (48 ≤ u.val ∧ u.val ≤ 57) ∨ (65 ≤ u.val ∧ u.val ≤ 90) ∨ (97 ≤ u.val ∧ u.val ≤ 122) ∨
    u.val = 95 ∨ u.val = 45

/-- What `$` leaves of the text: a line break at its end may stand behind the match. -/
def beforeEnd (s : PyStr) : PyStr := if s.getLast? = some 10 then s.dropLast else s

/-- The match of `^[a-zA-Z0-9_-]+$`. -/
def traceText (s : PyStr) : Bool := beforeEnd s ≠ [] ∧ (beforeEnd s).all traceUnit

section Checks
variable (libs : WebhookLibs φ)

def isOne : Json φ → Bool
  | .bool b => b
  | .int i => i = 1
  | .float x => libs.floatIsOne x
  | _ => false

def checkLength (field : String) (max : ℕ) (j : Json φ) : Option RequestError :=
  match j.len? with
  | none => some .raised
  | some n => if max < n then some (.tooLong field max) else none

/-- A check that is made on true values only. -/
def whenTruthy (j : Json φ) (check : Json φ → Option RequestError) : Option RequestError :=
  if j.truthy libs.toPyInterpreter then check j else none

def checkTrace : Json φ → Option RequestError
  | .str s => if traceText s then none else some .traceCharacters
  | _ => some .raised

def checkInput (input : PyStr × Json φ) : Option RequestError :=
  if input.1 ∉ allowedInputKeys then some (.unknownInput input.1)
  else
    match input.2 with
    | .str s => if maxInputStringLength < s.len then some (.inputTooLong input.1) else none
    | _ => none

def checkInputs : Json φ → Option RequestError
  | .obj fields => fields.findSome? checkInput
  | _ => some .raised

/-- `__post_init__`: the first check that fails. -/
def JobRequest.postInit (r : JobRequest φ) : Option RequestError :=
  [if isOne libs r.version then none else some .unsupportedVersion,
    whenTruthy libs r.jobId (checkLength "job_id" maxIdLength),
    whenTruthy libs r.traceId (checkLength "trace_id" maxIdLength),
    whenTruthy libs r.traceId checkTrace,
    checkLength "template_id" maxIdLength r.templateId,
    checkLength "profile_id" maxIdLength r.profileId,
    checkInputs r.inputs].findSome? id

def JobRequest.ofFields (data : List (PyStr × Json φ)) : JobRequest φ where
  version := (field? "version" data).getD .null
  templateId := (field? "template_id" data).getD .null
  profileId := (field? "profile_id" data).getD .null
  inputs := (field? "inputs" data).getD (.obj [])
  jobId := (field? "job_id" data).getD .null
  traceId := (field? "trace_id" data).getD .null
  callback := (field? "callback" data).getD .null

def JobRequest.fromDict (data : List (PyStr × Json φ)) : Except RequestError (JobRequest φ) :=
  let unknown := (data.map Prod.fst).filter fun k => k ∉ allowedTopLevel
  let missing := requiredTopLevel.filter fun k => k ∉ data.map Prod.fst
  if unknown ≠ [] then .error (.unknownFields unknown)
  else if missing ≠ [] then .error (.missingFields missing)
  else
    match (JobRequest.ofFields data).postInit libs with
    | some e => .error e
    | none => .ok (JobRequest.ofFields data)

end Checks

/-! ## The canonical schema gate -/

inductive CanonicalType where
  | str | int | dict

def CanonicalType.name : CanonicalType → String
  | .str => "str"
  | .int => "int"
  | .dict => "dict"

/-- `isinstance(value, expected_type)`; a `bool` is an `int`. -/
def CanonicalType.isInstance : CanonicalType → Json φ → Bool
  | .str, .str _ => true
  | .int, .int _ => true
  | .int, .bool _ => true
  | .dict, .obj _ => true
  | _, _ => false

def canonicalAllowedTypes : List (String × CanonicalType) :=
  [("template_id", .str), ("profile_id", .str), ("version", .int), ("inputs", .dict),
    ("job_id", .str), ("trace_id", .str), ("callback", .dict)]

def maxPayloadSize : ℕ := 256 * 1024

section Gate
variable (libs : WebhookLibs φ) (data : List (PyStr × Json φ))

def requiredErrors : List String :=
  match field? "template_id" data with
  | some j =>
    if j.truthy libs.toPyInterpreter then [] else ["Missing required field: 'template_id'"]
  | none => ["Missing required field: 'template_id'"]

def typeError? (field : String × CanonicalType) : Option String :=
  match field? field.1 data with
  | none => none
  | some j =>
    if j.isNull ∨ field.2.isInstance j then none
    else some ("Type mismatch for '" ++ field.1 ++ "': expected " ++ field.2.name ++ ", got " ++
      treeType j)

/-- JSON values always have a text, so the size is known. -/
def sizeErrors : List String :=
  match field? "inputs" data with
  | some (.obj fields) =>
    let size := (Json.dumps libs.repr .standard (.obj fields)).length
    if maxPayloadSize < size then
      ["Payload 'inputs' exceeds max size (" ++ toString size ++ " > " ++
        toString maxPayloadSize ++ ")"]
    else []
  | _ => []

def canonicalErrors : List String :=
  requiredErrors libs data ++ canonicalAllowedTypes.filterMap (typeError? data) ++
    sizeErrors libs data

end Gate

end OpenClaw.Webhook
