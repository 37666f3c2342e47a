import OpenClaw.Webhook.TemplateService
import OpenClaw.Webhook.WebhookAuth

/-!
# What validate and submit do with a body

`webhook_validate_handler` of `api/webhook_validate.py` from the parsed body on, and
`webhook_submit_handler` of `api/webhook_submit.py` from there up to the submission, for a key that
the idempotency store does not know. Each handler draws a trace id of its own.
-/

namespace OpenClaw.Webhook

open Foundation
set_option autoImplicit false

variable {φ : Type}

abbrev Data (φ : Type) := List (PyStr × Json φ)

structure WebhookEnv (φ : Type) where
  libs : WebhookLibs φ
  templates : TemplateService φ
  maxRenderedWorkflowBytes : ℕ

/-- `uuid.uuid4().hex`. -/
structure TraceUuid where
  text : PyStr
  length_eq : text.length = 32
  hex : ∀ u ∈ text, (48 ≤ u.val ∧ u.val ≤ 57) ∨ (97 ≤ u.val ∧ u.val ≤ 102)

inductive Refusal where
  | mapping (e : MappingError)
  | canonical (errors : List String)
  | request (e : RequestError)
  | template (e : TemplateError)
  | notObject (kind : String)
  | renderSize (e : RenderBudgetError)
  /-- an exception that the handler does not expect -/
  | raised

/-- Status and error code of the response; validate answers 500 by itself or through the server. -/
def Refusal.reply : Refusal → ℕ × String
  | .mapping _ => (400, "mapping_error")
  | .canonical _ => (400, "validation_error")
  | .request _ => (400, "validation_error")
  | .template _ => (400, "template_error")
  | .notObject _ => (400, "template_error")
  | .renderSize _ => (413, "payload_too_large")
  | .raised => (500, "internal_error")

def Refusal.ofMapping : MappingError → Refusal
  | .other => .raised
  | e => .mapping e

def Refusal.ofRequest : RequestError → Refusal
  | .raised => .raised
  | e => .request e

def Refusal.ofTemplate : TemplateError → Refusal
  | .raised => .raised
  | e => .template e

/-! ## Normalization -/

/-- The object in a common envelope. -/
def unwrap (data : Data φ) : Data φ :=
  match field? "payload" data with
  | some (.obj inner) => inner
  | _ =>
    match field? "data" data with
    | some (.obj inner) => inner
    | _ => data

/-- `if alias in data: data[name] = data.pop(alias)`. -/
def rename (spelling name : String) (data : Data φ) : Data φ :=
  match field? spelling data with
  | some j =>
    replaceRow Prod.fst (PyStr.ofString name, j)
      (data.filter fun e => e.1 ≠ PyStr.ofString spelling)
  | none => data

def normalizeAliases (data : Data φ) : Data φ :=
  rename "traceId" "trace_id" <| rename "jobId" "job_id" <| rename "profileId" "profile_id" <|
    rename "templateId" "template_id" data

def traceIdHeaders : HeaderAlias := ⟨"X-OpenClaw-Trace-Id", "X-Moltbot-Trace-Id"⟩

/-- The match of `^[a-zA-Z0-9_-]{1,64}$` on the stripped id. -/
def validateTraceId (id : PyStr) : Bool := traceText id.strip ∧ (beforeEnd id.strip).length ≤ 64

def getOrCreateTraceId (fresh : TraceUuid) (id : PyStr) : PyStr :=
  if id ≠ [] ∧ validateTraceId id then id else fresh.text

/-- `get_effective_trace_id`; `none` is the exception for an id that is true and no string. -/
def getEffectiveTraceId (libs : WebhookLibs φ) (headers : String → Option String)
    (fresh : TraceUuid) (data : Data φ) : Option PyStr :=
  let header := PyStr.ofList (getHeaderAliasValue headers traceIdHeaders)
  if header ≠ [] then some (getOrCreateTraceId fresh header)
  else
    let snake := (field? "trace_id" data).getD .null
    let body := if snake.truthy libs.toPyInterpreter then snake
      else (field? "traceId" data).getD .null
    if body.truthy libs.toPyInterpreter then body.str?.map (getOrCreateTraceId fresh)
    else some fresh.text

def traceKey : PyStr := PyStr.ofString "trace_id"

def setTraceId (id : PyStr) (data : Data φ) : Data φ :=
  replaceRow Prod.fst (traceKey, .str id) data

section Handlers
variable (env : WebhookEnv φ) (headers : String → Option String) (fresh : TraceUuid)

/-- The trace id and the data. A body that is no object raises in one of these steps. -/
def normalizeBody (body : Json φ) : Except Refusal (PyStr × Data φ) :=
  match body with
  | .obj fields =>
    let data := normalizeAliases (unwrap fields)
    match getEffectiveTraceId env.libs headers fresh data with
    | some id => .ok (id, setTraceId id data)
    | none => .error .raised
  | _ => .error .raised

/-- The mapping of a resolved profile; no built-in profile makes a circular result. -/
def mapData (data : Data φ) : Except Refusal (Data φ) :=
  match resolveProfile env.libs.toBuiltins headers with
  | none => .ok data
  | some profile =>
    let payload := Object.ofJson (.obj data)
    match applyMapping env.libs.toBuiltins allowedPrivilegedOverrides profile payload.heap
        payload.value with
    | .error e => .error (.ofMapping e)
    | .ok m =>
      match m.tree? with
      | some data => .ok data
      | none => .error .raised

/-- `WebhookJobRequest.from_dict` and `render_template`; the inputs of a request are an object. -/
def renderRequest (data : Data φ) : Except Refusal (JobRequest φ × Json φ) :=
  match JobRequest.fromDict env.libs data with
  | .error e => .error (.ofRequest e)
  | .ok request =>
    let inputs := match request.inputs with
      | .obj fields => fields
      | _ => []
    match env.templates.renderTemplate request.templateId inputs with
    | .error e => .error (.ofTemplate e)
    | .ok workflow => .ok (request, workflow)

/-- An answer with `ok`, or a request that goes on to its submission. -/
structure Passed (φ : Type) where
  mapped : Bool
  traceId : PyStr
  request : JobRequest φ
  workflow : Json φ

def validateHandler (body : Json φ) : Except Refusal (Passed φ) :=
  match normalizeBody env headers fresh body with
  | .error e => .error e
  | .ok (traceId, data) =>
    match mapData env headers data with
    | .error e => .error e
    | .ok data =>
      match renderRequest env data with
      | .error e => .error e
      | .ok (request, workflow) =>
        match workflow with
        | .obj _ =>
          match checkRenderSize env.libs.repr env.maxRenderedWorkflowBytes workflow with
          | some e => .error (.renderSize e)
          | none =>
            .ok {
              mapped := (resolveProfile env.libs.toBuiltins headers).isSome
              traceId, request, workflow }
        | _ => .error (.notObject (treeType workflow))

def submitHandler (body : Json φ) : Except Refusal (Passed φ) :=
  match normalizeBody env headers fresh body with
  | .error e => .error e
  | .ok (traceId, data) =>
    match mapData env headers data with
    | .error e => .error e
    | .ok data =>
      let mapped := (resolveProfile env.libs.toBuiltins headers).isSome
      let data :=
        if mapped ∧ (field? "trace_id" data).isNone then setTraceId traceId data else data
      match canonicalErrors env.libs data with
      | [] =>
        match renderRequest env data with
        | .error e => .error e
        | .ok (request, workflow) => .ok { mapped, traceId, request, workflow }
      | errors => .error (.canonical errors)

end Handlers

end OpenClaw.Webhook
