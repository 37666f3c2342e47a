import OpenClaw.Webhook.JobRequest

/-!
# Rendering templates

`TemplateService` of `services/templates.py` after its manifest is loaded, and `check_render_size`
of `services/execution_budgets.py`. What the file system answers is part of the service.
-/

namespace OpenClaw.Webhook

open Foundation
set_option autoImplicit false

variable {φ : Type}

structure TemplateConfig (φ : Type) where
  path : PyStr
  defaults : Json φ
  tenants : List PyStr

structure TemplateService (φ : Type) where
  manifest : List (PyStr × TemplateConfig φ) := []
  multiTenant : Bool := false
  tenantId : PyStr := PyStr.ofString "default"
  /-- the path resolves under the root, to a file -/
  isTemplateFile : PyStr → Bool
  /-- `safe_read_json`; `none` is any exception -/
  readJson : PyStr → Option (Json φ)

inductive TemplateError where
  | unknown (id : PyStr)
  | loading
  /-- an exception that is no `ValueError` -/
  | raised

/-- `data.replace(old, "")`; the first argument counts what is left of the last occurrence. -/
def removeAll (old : PyStr) : ℕ → PyStr → PyStr
  | _, [] => []
  | n + 1, _ :: rest => removeAll old n rest
  | 0, u :: rest =>
    if old.isPrefixOf (u :: rest) then removeAll old (old.length - 1) rest
    else u :: removeAll old 0 rest

def templatesPrefix : PyStr := PyStr.ofString "data/templates/"

/-- The path below the templates root. -/
def relativePath (path : PyStr) : PyStr :=
  if templatesPrefix.isPrefixOf path then removeAll templatesPrefix 0 path else path

def placeholder (k : PyStr) : PyStr :=
  PyStr.ofString "\x7b\x7b" ++ k ++ PyStr.ofString "\x7d\x7d"

section Substitute
variable (replacements : List (PyStr × Json φ))

mutual

/-- `_recursive_substitute`: strings that are a placeholder as a whole. -/
def substitute : Json φ → Json φ
  | .str s =>
    match replacements.find? fun r => s = placeholder r.1 with
    | some r => r.2
    | none => .str s
  | .arr items => .arr (substituteItems items)
  | .obj fields => .obj (substituteFields fields)
  | .null => .null
  | .bool b => .bool b
  | .int i => .int i
  | .float x => .float x

def substituteItems : List (Json φ) → List (Json φ)
  | [] => []
  | j :: items => substitute j :: substituteItems items

def substituteFields : List (PyStr × Json φ) → List (PyStr × Json φ)
  | [] => []
  | (k, j) :: fields => (k, substitute j) :: substituteFields fields

end

end Substitute

/-- `d.update(other)`. -/
def update (d other : List (PyStr × Json φ)) : List (PyStr × Json φ) :=
  other.foldl (fun d e => replaceRow Prod.fst e d) d

namespace TemplateService
variable (t : TemplateService φ)

def getTemplateConfig (id : PyStr) : Option (TemplateConfig φ) :=
  match under? id t.manifest with
  | some cfg =>
    if t.multiTenant ∧ cfg.tenants ≠ [] ∧ t.tenantId ∉ cfg.tenants then none else some cfg
  | none =>
    let path := id ++ PyStr.ofString ".json"
    if t.multiTenant then none
    else if t.isTemplateFile path then some { path, defaults := .obj [], tenants := [] }
    else none

/-- A template id is a list or a dictionary where it is no string, and no key of the manifest. -/
def renderTemplate (templateId : Json φ) (inputs : List (PyStr × Json φ)) :
    Except TemplateError (Json φ) :=
  match templateId with
  | .str id =>
    match t.getTemplateConfig id with
    | none => .error (.unknown id)
    | some config =>
      match t.readJson (relativePath config.path) with
      | none => .error .loading
      | some workflow =>
        match config.defaults with
        | .obj defaults => .ok (substitute (update defaults inputs) workflow)
        | _ => .error .raised
  | _ => .error .raised

end TemplateService

/-! ## The render size budget -/

structure RenderBudgetError where
  budgetType : String
  limit : ℕ
  retryAfter : ℕ

/-- `check_render_size`; a lone surrogate has no UTF-8. -/
def checkRenderSize (repr : φ → List Char) (limit : ℕ) (workflow : Json φ) :
    Option RenderBudgetError :=
  match (workflow.rawDumps repr).chars?.map byteSize with
  | none => some { budgetType := "workflow_serialization", limit := 0, retryAfter := 0 }
  | some size =>
    if limit < size then
      some { budgetType := "rendered_workflow_size", limit, retryAfter := 5 }
    else none

end OpenClaw.Webhook
