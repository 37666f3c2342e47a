import OpenClaw.Foundation.JsonPrune
import OpenClaw.Foundation.PyJson
import OpenClaw.Tenants.TenantContext

/-!
# Payloads for operators

`services/internal_content.py` and `services/reasoning_redaction.py`: the two walks that remove
internal content and reasoning, one after the other. Both are prunings, and together they are one.
-/

namespace OpenClaw.Redaction

open Foundation

set_option autoImplicit false

/-- The text of a list begins with a bracket and the text of a dictionary with a brace. -/
structure Texts (φ : Type) extends PyInterpreter φ where
  list_text : ∀ items, ∃ rest, containerStr (.arr items) = 0x5b :: rest
  dict_text : ∀ fields, ∃ rest, containerStr (.obj fields) = 0x7b :: rest

variable {φ : Type} (py : Texts φ)

abbrev Fields (φ : Type) := List (PyStr × Json φ)

/-- `value.get(key)`. -/
def get (key : PyStr) (fields : Fields φ) : Json φ :=
  ((fields.find? fun f => f.1 = key).map Prod.snd).getD .null

/-- `str(value or "")`. -/
def textOrEmpty (value : Json φ) : PyStr :=
  if value.truthy py.toPyInterpreter then value.toStr py.toPyInterpreter else []

/-! ## Internal content -/

def internalContentFlag : PyStr := PyStr.ofString "openclaw_internal"

def internalContentOrigin : PyStr := PyStr.ofString "openclaw.internal_maintenance"

def originKey : PyStr := PyStr.ofString "origin"

def isTrue : Json φ → Bool
  | .bool b => b
  | _ => false

def isInternalContent (fields : Fields φ) : Bool :=
  isTrue (get internalContentFlag fields) ||
    textOrEmpty py (get originKey fields) = internalContentOrigin

section Sanitize

mutual

/-- `_sanitize`; `none` is `_DROP`. -/
def sanitize : Json φ → Option (Json φ)
  | .obj fields => if isInternalContent py fields then none else some (.obj (sanitizeFields fields))
  | .arr items => some (.arr (sanitizeItems items))
  | .null => some .null
  | .bool b => some (.bool b)
  | .int i => some (.int i)
  | .float x => some (.float x)
  | .str s => some (.str s)

def sanitizeItems : List (Json φ) → List (Json φ)
  | [] => []
  | item :: items =>
    match sanitize item with
    | none => sanitizeItems items
    | some child => child :: sanitizeItems items

def sanitizeFields : Fields φ → Fields φ
  | [] => []
  | (key, rawChild) :: fields =>
    match sanitize rawChild with
    | none => sanitizeFields fields
    | some child => (key, child) :: sanitizeFields fields

end

end Sanitize

def sanitizeInternalContent (value : Json φ) : Json φ := (sanitize py value).getD (.obj [])

/-! ## Reasoning -/

def reasoningKeys : List PyStr :=
  ["analysis", "analysis_text", "chain_of_thought", "cot", "internal_reasoning", "reasoning",
    "reasoning_content", "reasoning_text", "thinking", "thinking_text", "thought",
    "thoughts"].map PyStr.ofString

def reasoningBlockTypes : List PyStr :=
  ["analysis", "reasoning", "reasoning_content", "thinking", "thought"].map PyStr.ofString

/-- `.replace("-", "_").replace(" ", "_")`. -/
def underscored (u : CodeUnit) : CodeUnit := if u = 0x2d ∨ u = 0x20 then 0x5f else u

def normalizeKey (key : PyStr) : PyStr := (key.strip.map Tenants.lowerUnit).map underscored

def isReasoningKey (key : PyStr) : Bool :=
  normalizeKey key ∈ reasoningKeys || (PyStr.ofString "_reasoning").isSuffixOf (normalizeKey key) ||
    (PyStr.ofString "_thinking").isSuffixOf (normalizeKey key)

def typeKey : PyStr := PyStr.ofString "type"

def isReasoningBlock (fields : Fields φ) : Bool :=
  normalizeKey (textOrEmpty py (get typeKey fields)) ∈ reasoningBlockTypes

section Strip
variable (includeReasoning : Bool)

mutual

/-- `_strip_reasoning`; `none` is `_DROP`. -/
def stripReasoning : Json φ → Option (Json φ)
  | .obj fields =>
    if isReasoningBlock py fields then (if includeReasoning then some (.obj fields) else none)
    else some (.obj (stripFields fields))
  | .arr items => some (.arr (stripItems items))
  | .null => some .null
  | .bool b => some (.bool b)
  | .int i => some (.int i)
  | .float x => some (.float x)
  | .str s => some (.str s)

def stripItems : List (Json φ) → List (Json φ)
  | [] => []
  | item :: items =>
    match stripReasoning item with
    | none => stripItems items
    | some child => child :: stripItems items

def stripFields : Fields φ → Fields φ
  | [] => []
  | (key, rawChild) :: fields =>
    if isReasoningKey key then
      if includeReasoning then (key, rawChild) :: stripFields fields else stripFields fields
    else
      match stripReasoning rawChild with
      | none => stripFields fields
      | some child => (key, child) :: stripFields fields

end

end Strip

def sanitizeOperatorPayload (includeReasoning : Bool) (value : Json φ) : Json φ :=
  (stripReasoning py includeReasoning (sanitizeInternalContent py value)).getD (.obj [])

/-! ## The marks -/

theorem normalizeKey_cons {u : CodeUnit} (hspace : PyText.isSpaceCode u.val = false) (s : PyStr) :
    ∃ rest, normalizeKey (u :: s) = underscored (Tenants.lowerUnit u) :: rest := by
  have hstrip : ∃ rest, PyStr.strip (u :: s) = u :: rest := by
    unfold PyStr.strip PyText.stripWhere
    rw [List.dropWhile_cons_of_neg (by simp [hspace])]
    have hpre := List.rdropWhile_prefix (fun v : CodeUnit => PyText.isSpaceCode v.val) (l := u :: s)
    cases hdrop : (u :: s).rdropWhile fun v => PyText.isSpaceCode v.val with
    | nil =>
      have hall := List.rdropWhile_eq_nil_iff.mp hdrop u List.mem_cons_self
      rw [hspace] at hall
      cases hall
    | cons v rest =>
      rw [hdrop] at hpre
      rw [(List.cons_prefix_cons.mp hpre).1]
      exact ⟨rest, rfl⟩
  obtain ⟨rest, hrest⟩ := hstrip
  rw [normalizeKey, hrest]
  exact ⟨_, rfl⟩

/-- A text that is not empty and does not begin as a container's does is read from a scalar. -/
theorem textOrEmpty_get {p : PyStr → Bool} (hempty : p [] = false)
    (hlist : ∀ rest, p (0x5b :: rest) = false) (hdict : ∀ rest, p (0x7b :: rest) = false)
    (key : PyStr) (fields : Fields φ) : p (textOrEmpty py (get key fields)) =
      p (textOrEmpty py ((Json.scalarUnder key fields).getD .null)) := by
  have hnull : p (textOrEmpty py .null) = false := hempty
  unfold get Json.scalarUnder
  cases (fields.find? fun f => f.1 = key).map Prod.snd with
  | none => rfl
  | some j =>
    cases j with
    | arr items =>
      obtain ⟨rest, hrest⟩ := py.list_text items
      simp only [Option.getD_some, Option.filter_some, Json.isScalar, Bool.false_eq_true, if_false,
        Option.getD_none, hnull]
      rw [textOrEmpty]
      split
      · rw [Json.toStr, hrest, hlist]
      · exact hempty
    | obj fields =>
      obtain ⟨rest, hrest⟩ := py.dict_text fields
      simp only [Option.getD_some, Option.filter_some, Json.isScalar, Bool.false_eq_true, if_false,
        Option.getD_none, hnull]
      rw [textOrEmpty]
      split
      · rw [Json.toStr, hrest, hdict]
      · exact hempty
    | _ => rfl

theorem isTrue_get (key : PyStr) (fields : Fields φ) :
    isTrue (get key fields) = isTrue ((Json.scalarUnder key fields).getD .null) := by
  unfold get Json.scalarUnder
  cases (fields.find? fun f => f.1 = key).map Prod.snd with
  | none => rfl
  | some j => cases j <;> rfl

theorem cons_ne {u : CodeUnit} {t : PyStr} (h : t.head? ≠ some u) (rest : PyStr) :
    u :: rest ≠ t := by
  rintro rfl
  exact h rfl

def internalMarks : Json.Marks φ where
  key _ := false
  dict := isInternalContent py
  reads k := k = internalContentFlag ∨ k = originKey
  dict_congr := by
    intro fields fields' h
    have horigin : ∀ fields : Fields φ,
        decide (textOrEmpty py (get originKey fields) = internalContentOrigin) =
          decide (textOrEmpty py ((Json.scalarUnder originKey fields).getD .null) =
            internalContentOrigin) :=
      textOrEmpty_get py (p := fun s => s = internalContentOrigin) (by decide)
        (fun rest => decide_eq_false (cons_ne (by decide) rest))
        (fun rest => decide_eq_false (cons_ne (by decide) rest)) originKey
    unfold isInternalContent
    rw [isTrue_get, isTrue_get, h _ (.inl rfl), horigin, horigin, h _ (.inr rfl)]

theorem not_blockType {u : CodeUnit} (hspace : PyText.isSpaceCode u.val = false)
    (hu : ∀ t ∈ reasoningBlockTypes, t.head? ≠ some (underscored (Tenants.lowerUnit u)))
    (rest : PyStr) : decide (normalizeKey (u :: rest) ∈ reasoningBlockTypes) = false := by
  apply decide_eq_false
  intro hmem
  obtain ⟨more, hmore⟩ := normalizeKey_cons hspace rest
  rw [hmore] at hmem
  exact hu _ hmem rfl

def reasoningMarks : Json.Marks φ where
  key := isReasoningKey
  dict := isReasoningBlock py
  reads k := k = typeKey
  dict_congr := by
    intro fields fields' h
    have htype : ∀ fields : Fields φ, isReasoningBlock py fields =
        decide (normalizeKey (textOrEmpty py ((Json.scalarUnder typeKey fields).getD .null)) ∈
          reasoningBlockTypes) :=
      textOrEmpty_get py (p := fun s => normalizeKey s ∈ reasoningBlockTypes) (by decide)
        (not_blockType (by decide) (by decide)) (not_blockType (by decide) (by decide)) typeKey
    rw [htype, htype, h _ rfl]

theorem sanitize_eq (value : Json φ) : sanitize py value = (internalMarks py).prune value := by
  induction value using Json.induction with
  | arr items ih =>
    have hitems : sanitizeItems py items = items.filterMap (sanitize py) := by
      clear ih
      induction items with
      | nil => rfl
      | cons item items ih =>
        rw [sanitizeItems, ih, List.filterMap_cons]
        cases sanitize py item <;> rfl
    rw [sanitize, hitems, Json.Marks.prune_arr, List.filterMap_congr ih]
  | obj fields ih =>
    have hfields : sanitizeFields py fields =
        fields.filterMap fun f => (sanitize py f.2).map fun j => (f.1, j) := by
      clear ih
      induction fields with
      | nil => rfl
      | cons f fields ih =>
        obtain ⟨key, rawChild⟩ := f
        rw [sanitizeFields, ih, List.filterMap_cons]
        cases sanitize py rawChild <;> rfl
    rw [sanitize, hfields, Json.Marks.prune_obj]
    congr 3
    apply List.filterMap_congr
    intro f hf
    rw [ih f hf]
    rfl
  | _ => rfl

theorem stripReasoning_eq (value : Json φ) :
    stripReasoning py false value = (reasoningMarks py).prune value := by
  induction value using Json.induction with
  | arr items ih =>
    have hitems : stripItems py false items = items.filterMap (stripReasoning py false) := by
      clear ih
      induction items with
      | nil => rfl
      | cons item items ih =>
        rw [stripItems, ih, List.filterMap_cons]
        cases stripReasoning py false item <;> rfl
    rw [stripReasoning, hitems, Json.Marks.prune_arr, List.filterMap_congr ih]
  | obj fields ih =>
    have hfields : stripFields py false fields = fields.filterMap fun f =>
        if isReasoningKey f.1 then none
        else (stripReasoning py false f.2).map fun j => (f.1, j) := by
      clear ih
      induction fields with
      | nil => rfl
      | cons f fields ih =>
        obtain ⟨key, rawChild⟩ := f
        rw [stripFields, ih, List.filterMap_cons]
        cases hkey : isReasoningKey key with
        | true => simp
        | false => cases stripReasoning py false rawChild <;> simp
    rw [stripReasoning, hfields, Json.Marks.prune_obj]
    congr 3
    apply List.filterMap_congr
    intro f hf
    rw [ih f hf]
    rfl
  | _ => rfl

/-! ## What is returned -/

/-- What an operator is not shown: internal content, reasoning blocks and reasoning keys. -/
def hiddenMarks : Json.Marks φ := (internalMarks py).union (reasoningMarks py)

theorem isReasoningBlock_nil : isReasoningBlock py ([] : Fields φ) = false := by
  have hblock : isReasoningBlock py ([] : Fields φ) =
      decide (normalizeKey [] ∈ reasoningBlockTypes) := rfl
  rw [hblock]
  decide

/-- The two walks are one pruning. -/
theorem sanitizeOperatorPayload_eq {value : Json φ} (hvalue : value.Valid) :
    sanitizeOperatorPayload py false value = ((hiddenMarks py).prune value).getD (.obj []) := by
  rw [hiddenMarks, ← Json.Marks.prune_bind (fun k _ => rfl) hvalue, ← sanitize_eq,
    sanitizeOperatorPayload, sanitizeInternalContent]
  cases sanitize py value with
  | none =>
    rw [Option.getD_none, stripReasoning, isReasoningBlock_nil]
    rfl
  | some visible =>
    rw [Option.getD_some, stripReasoning_eq]
    rfl

theorem reads_visible (k : PyStr) (hk : (hiddenMarks py).reads k) :
    (hiddenMarks py).key k = false := by
  have hkey : (hiddenMarks py).key k = isReasoningKey k := rfl
  rw [hkey]
  rcases hk with (rfl | rfl) | rfl <;> decide

theorem unmarked_nil : (hiddenMarks py).Unmarked (.obj []) := by
  refine .obj ?_ nofun nofun
  have hinternal : isInternalContent py ([] : Fields φ) =
      decide ([] = internalContentOrigin) := rfl
  have hdict : (hiddenMarks py).dict [] =
      (isInternalContent py ([] : Fields φ) || isReasoningBlock py ([] : Fields φ)) := rfl
  rw [hdict, isReasoningBlock_nil, hinternal]
  decide

theorem sanitizeOperatorPayload_unmarked {value : Json φ} (h : (hiddenMarks py).Unmarked value) :
    sanitizeOperatorPayload py false value = value := by
  have hinternal : sanitizeInternalContent py value = value := by
    rw [sanitizeInternalContent, sanitize_eq, h.left.prune]
    rfl
  rw [sanitizeOperatorPayload, hinternal, stripReasoning_eq, h.right.prune]
  rfl

/-- Nothing hidden is left at any depth, nothing is left to remove, and what was removed has no
influence on the rest. -/
theorem sanitizeOperatorPayload_hides (value : Json φ) (hvalue : value.Valid) :
    (hiddenMarks py).Unmarked (sanitizeOperatorPayload py false value) ∧
    sanitizeOperatorPayload py false (sanitizeOperatorPayload py false value) =
      sanitizeOperatorPayload py false value ∧
    ∀ other : Json φ, other.Valid → (hiddenMarks py).Alike value other →
      sanitizeOperatorPayload py false value = sanitizeOperatorPayload py false other := by
  have hclean : (hiddenMarks py).Unmarked (sanitizeOperatorPayload py false value) := by
    rw [sanitizeOperatorPayload_eq py hvalue]
    cases hprune : (hiddenMarks py).prune value with
    | none => exact unmarked_nil py
    | some visible => exact Json.Marks.prune_unmarked (reads_visible py) hvalue hprune
  refine ⟨hclean, sanitizeOperatorPayload_unmarked py hclean, ?_⟩
  intro other hother halike
  rw [sanitizeOperatorPayload_eq py hvalue, sanitizeOperatorPayload_eq py hother, halike.prune_eq]

/-- An interpreter that spells every container empty. -/
def emptyTexts : Texts Unit where
  floatTruthy _ := false
  floatStr _ := PyStr.ofString "0.0"
  containerStr
    | .obj _ => [0x7b, 0x7d]
    | _ => [0x5b, 0x5d]
  lower s := s.map Tenants.lowerUnit
  list_text _ := ⟨_, rfl⟩
  dict_text _ := ⟨_, rfl⟩

def answerWith (thought : Json Unit) : Json Unit :=
  .obj [(PyStr.ofString "Chain-of-Thought", thought), (PyStr.ofString "answer", .int 4)]

theorem answerWith_valid {thought : Json Unit} (h : thought.Valid) :
    (answerWith thought).Valid := by
  refine .obj (by simp) fun f hf => ?_
  simp only [List.mem_cons, List.not_mem_nil, or_false] at hf
  rcases hf with rfl | rfl
  · exact h
  · exact .int 4

theorem answerWith_hides : sanitizeOperatorPayload emptyTexts false
    (sanitizeOperatorPayload emptyTexts false (answerWith (.bool true))) =
      sanitizeOperatorPayload emptyTexts false (answerWith (.bool true)) :=
  (sanitizeOperatorPayload_hides emptyTexts (answerWith (.bool true))
    (answerWith_valid (.bool true))).2.1

end OpenClaw.Redaction
