import Mathlib.Data.List.Infix
import OpenClaw.Foundation.LinkSearch
import OpenClaw.Foundation.PyJson

/-!
# Metadata from prompt graphs

`_extract_prompt_text`, `_resolve_model_name` and `_resolve_image_size` of `services/pnginfo.py`:
three searches along the links of a graph of nodes, which differ in what a node supplies and in
which of its inputs are followed. The recursion limit of the interpreter is left out.
-/

namespace OpenClaw.Workflow.PngInfo

open Foundation
set_option autoImplicit false

abbrev Fields (φ : Type) := List (PyStr × Json φ)

/-- What the interpreter makes of floats besides their text. -/
structure PngInterpreter (φ : Type) extends PyInterpreter φ where
  /-- `int(x)`, of a float that is an integer. -/
  integer? : φ → Option ℤ

variable {φ : Type} (py : PngInterpreter φ)

def get? (fields : Fields φ) (key : String) : Option (Json φ) :=
  (fields.find? fun f => f.1 = PyStr.ofString key).map Prod.snd

/-! ## Nodes and links -/

/-- A node that is there and not empty. -/
def getPromptNode (promptGraph : Fields φ) (nodeId : PyStr) : Option (Fields φ) :=
  match promptGraph.find? fun f => f.1 = nodeId with
  | some (_, .obj node) => if node = [] then none else some node
  | _ => none

def nodeInputs (node : Fields φ) : Fields φ :=
  match get? node "inputs" with
  | some (.obj inputs) => inputs
  | _ => []

/-- The name of the node that a link refers to; an empty name refers to none. -/
def resolveNodeRef : Json φ → Option PyStr
  | .arr (first :: _) =>
    let nodeId := first.toStr py.toPyInterpreter
    if nodeId = [] then none else some nodeId
  | _ => none

theorem getPromptNode_listed (promptGraph : Fields φ) (nodeId : PyStr) (node : Fields φ)
    (h : getPromptNode promptGraph nodeId = some node) :
    nodeId ∈ promptGraph.map Prod.fst := by
  unfold getPromptNode at h
  split at h
  · rename_i key fields hfind
    have hkey := List.find?_some hfind
    rw [decide_eq_true_eq] at hkey
    exact List.mem_map.mpr ⟨_, List.mem_of_find?_eq_some hfind, hkey⟩
  · cases h

/-- The searches over one graph: what a node supplies, and which inputs are followed. -/
def searchGraph {β : Type} (promptGraph : Fields φ) (supply : Fields φ → Option β)
    (follows : Fields φ → PyStr → Bool) : LinkGraph PyStr (Fields φ) (Json φ) β where
  names := promptGraph.map Prod.fst
  node? := getPromptNode promptGraph
  listed := getPromptNode_listed promptGraph
  target := resolveNodeRef py
  supply := supply
  links := fun node => ((nodeInputs node).filter fun f => follows node (py.lower f.1)).map Prod.snd

def isOneOf (names : List String) (key : PyStr) : Bool :=
  (names.map PyStr.ofString).contains key

/-! ## Prompt texts -/

def normalizePromptText : Option (Json φ) → PyStr
  | none => []
  | some .null => []
  | some value => (value.toStr py.toPyInterpreter).strip

/-- The texts of the fields that have one, with their labels where they differ. -/
def joinLabeledPromptFields (fields : List (String × Option (Json φ))) : PyStr :=
  let normalizedFields := (fields.map fun f => (f.1, normalizePromptText py f.2)).filter
    fun f => f.2 ≠ []
  match normalizedFields with
  | [] => []
  | f :: rest =>
    if ∀ f' ∈ rest, f'.2 = f.2 then f.2
    else (PyStr.ofString "\n").intercalate
      (normalizedFields.map fun f => PyStr.ofString (f.1 ++ ": ") ++ f.2)

def classType (node : Fields φ) : PyStr :=
  ((get? node "class_type").getD (.str [])).toStr py.toPyInterpreter

def isEncoder (node : Fields φ) : Bool :=
  decide (PyStr.ofString "CLIPTextEncode" <+: classType py node)

def extractGenericClipText (inputs : Fields φ) : PyStr :=
  joinLabeledPromptFields py [("Text", get? inputs "text"), ("Global", get? inputs "text_g"),
    ("Local", get? inputs "text_l"), ("CLIP-L", get? inputs "clip_l"),
    ("T5XXL", get? inputs "t5xxl")]

/-- The text of an encoder. -/
def encoderText (node : Fields φ) : PyStr :=
  let inputs := nodeInputs node
  if classType py node = PyStr.ofString "CLIPTextEncode" then
    normalizePromptText py (get? inputs "text")
  else if classType py node = PyStr.ofString "CLIPTextEncodeSDXL" then
    joinLabeledPromptFields py [("Global", get? inputs "text_g"), ("Local", get? inputs "text_l")]
  else if classType py node = PyStr.ofString "CLIPTextEncodeSDXLRefiner" then
    normalizePromptText py (get? inputs "text")
  else if classType py node = PyStr.ofString "CLIPTextEncodeFlux" then
    joinLabeledPromptFields py [("CLIP-L", get? inputs "clip_l"), ("T5XXL", get? inputs "t5xxl")]
  else extractGenericClipText py inputs

def ifSome (s : PyStr) : Option PyStr := if s = [] then none else some s

/-- An encoder is not searched further, with or without a text. -/
def promptFollows (node : Fields φ) (key : PyStr) : Bool :=
  !isEncoder py node && (isOneOf ["positive", "negative", "base"] key ||
    decide (PyStr.ofString "conditioning" <:+: key))

def promptGraphOf (promptGraph : Fields φ) : LinkGraph PyStr (Fields φ) (Json φ) PyStr :=
  searchGraph py promptGraph
    (fun node => if isEncoder py node then ifSome (encoderText py node) else none)
    (promptFollows py)

def extractPromptText (promptGraph : Fields φ) (ref : Json φ) : PyStr :=
  ((promptGraphOf py promptGraph).search [] ref).getD []

/-! ## Model names -/

def modelFields : List String := ["ckpt_name", "model_name", "unet_name"]

/-- The first model field with a text. -/
def modelName (node : Fields φ) : PyStr :=
  ((modelFields.map fun key =>
    normalizePromptText py (get? (nodeInputs node) key)).find? fun value => value ≠ []).getD []

def modelFollows (_ : Fields φ) (key : PyStr) : Bool := isOneOf ["model", "clip", "base_model"] key

def modelGraphOf (promptGraph : Fields φ) : LinkGraph PyStr (Fields φ) (Json φ) PyStr :=
  searchGraph py promptGraph (fun node => ifSome (modelName py node)) modelFollows

def resolveModelName (promptGraph : Fields φ) (ref : Json φ) : PyStr :=
  ((modelGraphOf py promptGraph).search [] ref).getD []

/-! ## Image sizes -/

def coerceInt : Option (Json φ) → Option ℤ
  | some (.int i) => some i
  | some (.float x) => py.integer? x
  | _ => none

def imageSize (node : Fields φ) : Option (ℤ × ℤ) :=
  match coerceInt py (get? (nodeInputs node) "width"),
      coerceInt py (get? (nodeInputs node) "height") with
  | some width, some height => if width ≠ 0 ∧ height ≠ 0 then some (width, height) else none
  | _, _ => none

def sizeFollows (_ : Fields φ) (key : PyStr) : Bool :=
  isOneOf ["samples", "latent_image", "image", "pixels"] key ||
    decide (PyStr.ofString "latent" <:+: key)

def sizeGraphOf (promptGraph : Fields φ) : LinkGraph PyStr (Fields φ) (Json φ) (ℤ × ℤ) :=
  searchGraph py promptGraph (imageSize py) sizeFollows

def resolveImageSize (promptGraph : Fields φ) (ref : Json φ) : Option (ℤ × ℤ) :=
  (sizeGraphOf py promptGraph).search [] ref

/-! ## What can be found -/

/-- The link reaches the node through nodes that do not supply the value themselves. -/
inductive Reaches (promptGraph : Fields φ) (follows : Fields φ → PyStr → Bool)
    (supplies : Fields φ → Prop) : Json φ → Fields φ → Prop where
  | here {ref : Json φ} {nodeId : PyStr} {node : Fields φ} :
      resolveNodeRef py ref = some nodeId → getPromptNode promptGraph nodeId = some node →
        Reaches promptGraph follows supplies ref node
  | through {ref link : Json φ} {nodeId key : PyStr} {node found : Fields φ} :
      resolveNodeRef py ref = some nodeId → getPromptNode promptGraph nodeId = some node →
        ¬supplies node → (key, link) ∈ nodeInputs node → follows node (py.lower key) = true →
          Reaches promptGraph follows supplies link found →
            Reaches promptGraph follows supplies ref found

/-- An encoder with a text that is not blank. -/
def SuppliesPrompt (node : Fields φ) : Prop :=
  isEncoder py node = true ∧ encoderText py node ≠ []

def SuppliesModel (node : Fields φ) : Prop :=
  ∃ key ∈ modelFields, normalizePromptText py (get? (nodeInputs node) key) ≠ []

def SuppliesSize (node : Fields φ) : Prop :=
  ∃ width height, coerceInt py (get? (nodeInputs node) "width") = some width ∧
    coerceInt py (get? (nodeInputs node) "height") = some height ∧ width ≠ 0 ∧ height ≠ 0

section Found
variable {py} {β : Type} {promptGraph : Fields φ} {supply : Fields φ → Option β}
  {follows : Fields φ → PyStr → Bool} {supplies : Fields φ → Prop} {ref : Json φ}

theorem ifSome_isSome {s : PyStr} : (ifSome s).isSome = true ↔ s ≠ [] := by
  unfold ifSome
  split <;> simp [*]

theorem leads_iff_reaches (h : ∀ node, (supply node).isSome = true ↔ supplies node)
    {found : Fields φ} : (searchGraph py promptGraph supply follows).Leads ref found ↔
      Reaches py promptGraph follows supplies ref found := by
  have hnone : ∀ node, supply node = none ↔ ¬supplies node := by
    intro node
    rw [← h, Option.not_isSome_iff_eq_none]
  constructor
  · intro hleads
    induction hleads with
    | here htarget hnode => exact .here htarget hnode
    | step htarget hnode hsupply hlink _ ih =>
      obtain ⟨f, hf, rfl⟩ := List.mem_map.mp hlink
      obtain ⟨hmem, hfollows⟩ := List.mem_filter.mp hf
      exact .through htarget hnode ((hnone _).mp hsupply) hmem hfollows ih
  · intro hreaches
    induction hreaches with
    | here htarget hnode => exact .here htarget hnode
    | through htarget hnode hsupplies hmem hfollows _ ih =>
      refine .step htarget hnode ((hnone _).mpr hsupplies) ?_ ih
      exact List.mem_map.mpr ⟨_, List.mem_filter.mpr ⟨hmem, hfollows⟩, rfl⟩

theorem search_iff_reaches (h : ∀ node, (supply node).isSome = true ↔ supplies node) :
    ((searchGraph py promptGraph supply follows).search [] ref).isSome = true ↔
      ∃ node, Reaches py promptGraph follows supplies ref node ∧ supplies node := by
  rw [LinkGraph.search_isSome_iff]
  exact exists_congr fun node => and_congr (leads_iff_reaches h) (h node)

/-- A text that was searched for is not empty. -/
theorem getD_ne_nil {supply : Fields φ → Option PyStr}
    (h : ∀ node text, supply node = some text → text ≠ []) :
    ((searchGraph py promptGraph supply follows).search [] ref).getD [] ≠ [] ↔
      ((searchGraph py promptGraph supply follows).search [] ref).isSome = true := by
  cases hs : (searchGraph py promptGraph supply follows).search [] ref with
  | none => simp
  | some text =>
    obtain ⟨node, -, hnode⟩ := LinkGraph.leads_of_search hs
    simpa using h node text hnode

theorem ifSome_ne_nil {s t : PyStr} (h : ifSome s = some t) : t ≠ [] := by
  unfold ifSome at h
  split at h
  · cases h
  · cases h
    assumption

theorem promptSupply_isSome (node : Fields φ) :
    (if isEncoder py node then ifSome (encoderText py node) else none).isSome = true ↔
      SuppliesPrompt py node := by
  unfold SuppliesPrompt
  cases isEncoder py node with
  | false => simp
  | true => simp [ifSome_isSome]

theorem modelSupply_isSome (node : Fields φ) :
    (ifSome (modelName py node)).isSome = true ↔ SuppliesModel py node := by
  have hkeys : SuppliesModel py node ↔
      ∃ value ∈ modelFields.map fun key => normalizePromptText py (get? (nodeInputs node) key),
        value ≠ [] := by
    constructor
    · rintro ⟨key, hkey, hne⟩
      exact ⟨_, List.mem_map.mpr ⟨key, hkey, rfl⟩, hne⟩
    · rintro ⟨value, hvalue, hne⟩
      obtain ⟨key, hkey, rfl⟩ := List.mem_map.mp hvalue
      exact ⟨key, hkey, hne⟩
  rw [ifSome_isSome, hkeys, modelName]
  generalize modelFields.map (fun key => normalizePromptText py (get? (nodeInputs node) key)) =
    values
  cases hfind : values.find? fun value => value ≠ [] with
  | none =>
    rw [List.find?_eq_none] at hfind
    simpa using hfind
  | some value =>
    have hvalue := List.find?_some hfind
    rw [decide_eq_true_eq] at hvalue
    exact iff_of_true hvalue ⟨value, List.mem_of_find?_eq_some hfind, hvalue⟩

theorem imageSize_isSome (node : Fields φ) :
    (imageSize py node).isSome = true ↔ SuppliesSize py node := by
  unfold imageSize SuppliesSize
  cases coerceInt py (get? (nodeInputs node) "width") with
  | none => simp
  | some width =>
    cases coerceInt py (get? (nodeInputs node) "height") with
    | none => simp
    | some height =>
      by_cases h : width ≠ 0 ∧ height ≠ 0
      · simp [h]
      · simp [h]

end Found

/-- Each search returns something exactly if its link reaches a node that supplies it. -/
theorem metadata_found_iff (promptGraph : Fields φ) (ref : Json φ) :
    (extractPromptText py promptGraph ref ≠ [] ↔ ∃ node,
      Reaches py promptGraph (promptFollows py) (SuppliesPrompt py) ref node ∧
        SuppliesPrompt py node) ∧
    (resolveModelName py promptGraph ref ≠ [] ↔ ∃ node,
      Reaches py promptGraph modelFollows (SuppliesModel py) ref node ∧
        SuppliesModel py node) ∧
    ((resolveImageSize py promptGraph ref).isSome = true ↔ ∃ node,
      Reaches py promptGraph sizeFollows (SuppliesSize py) ref node ∧ SuppliesSize py node) := by
  refine ⟨?_, ?_, search_iff_reaches imageSize_isSome⟩
  · refine (getD_ne_nil fun node text h => ?_).trans (search_iff_reaches promptSupply_isSome)
    split at h
    · exact ifSome_ne_nil h
    · cases h
  · exact (getD_ne_nil fun node text h => ifSome_ne_nil h).trans
      (search_iff_reaches modelSupply_isSome)

end OpenClaw.Workflow.PngInfo
