import OpenClaw.Foundation.Checks
import OpenClaw.Foundation.JsonPointer
import OpenClaw.Foundation.PyJson
import OpenClaw.Foundation.TextBytes
import OpenClaw.Tenants.TenantContext

/-!
# The operations of a recipe

`RewriteRecipe.validate` and the writes of `services/rewrite_recipes.py`. The paths of the
operations are told apart by their texts; the writes go by what the texts spell: keys of
dictionaries and, in lists, what `int` makes of a segment.
-/

namespace OpenClaw.Rewrite

open Foundation Tenants
set_option autoImplicit false

variable {φ : Type}

/-! ## Recipes -/

structure RecipeError where
  code : String
  detail : PyStr

inductive RecipeFailure where
  | recipe (e : RecipeError)
  | tenant (e : TenantBoundaryError)

def invalid {α : Type} (detail : PyStr) : Except RecipeFailure α :=
  .error (.recipe ⟨"validation_error", detail⟩)

structure RewriteOperation (φ : Type) where
  path : PyStr
  value : Json φ

def maxInputStringLength : ℤ := 2048

structure RewriteConstraints where
  requiredInputs : List PyStr := []
  allowedInputs : List PyStr := []
  maxStringLength : ℤ := maxInputStringLength

structure RewriteRecipe (φ : Type) where
  id : PyStr
  name : PyStr
  promptTemplate : PyStr := []
  description : PyStr := []
  tags : List PyStr := []
  operations : List (RewriteOperation φ) := []
  constraints : RewriteConstraints := {}
  tenantId : PyStr := defaultTenantId

def maxNameLength : ℕ := 120
def maxDescriptionLength : ℕ := 500
def maxTagCount : ℕ := 24
def maxTagLength : ℕ := 48
def maxOperations : ℕ := 128
def maxTemplateStringLength : ℕ := 8192

/-- `sorted({item.strip() for item in items})`. -/
def sortedInputs (items : List PyStr) : List PyStr :=
  sortedBy PyStr.codePoints (items.map PyStr.strip).dedup

def RewriteConstraints.fromDict (c : RewriteConstraints) :
    Except RecipeFailure RewriteConstraints :=
  if c.requiredInputs.any fun item => item.strip = [] then
    invalid (PyStr.ofString "constraints.required_inputs must be a string list")
  else if c.allowedInputs.any fun item => item.strip = [] then
    invalid (PyStr.ofString "constraints.allowed_inputs must be a string list")
  else if c.maxStringLength < 1 ∨ maxInputStringLength < c.maxStringLength then
    invalid (PyStr.ofString "constraints.max_string_length must be between 1 and 2048")
  else .ok ⟨sortedInputs c.requiredInputs, sortedInputs c.allowedInputs, c.maxStringLength⟩

section Validation
variable (py : PyInterpreter φ) (repr : PyStr → PyStr)

def normalizeTag (out : List PyStr) (tag : PyStr) : Except RecipeFailure (List PyStr) :=
  if py.lower tag.strip = [] then .ok out
  else if maxTagLength < (py.lower tag.strip).len then
    invalid (PyStr.ofString "tag exceeds 48 characters: " ++ py.lower tag.strip)
  else if py.lower tag.strip ∈ out then .ok out
  else .ok (out ++ [py.lower tag.strip])

def normalizeTags (tags : List PyStr) : Except RecipeFailure (List PyStr) := do
  let out ← tags.foldlM (normalizeTag py) []
  if maxTagCount < out.length then invalid (PyStr.ofString "tags exceeds limit (24)") else .ok out

def parseJsonPointer (path : PyStr) : Except RecipeFailure (List PyStr) :=
  match path with
  | [] =>
    invalid (PyStr.ofString "operation path must be RFC6901-style JSON pointer: " ++ repr path)
  | u :: rest =>
    if u ≠ slashUnit ∨ rest = [] then
      invalid (PyStr.ofString "operation path must be RFC6901-style JSON pointer: " ++ repr path)
    else if [] ∈ (rest.splitOn slashUnit).map unescapeToken then
      invalid (PyStr.ofString "operation path contains empty segment: " ++ repr path)
    else .ok ((rest.splitOn slashUnit).map unescapeToken)

/-- The operation joins the paths that were seen. A JSON value can always be serialized. -/
def checkOperation (seen : List PyStr) (op : RewriteOperation φ) :
    Except RecipeFailure (List PyStr) := do
  let _ ← parseJsonPointer repr op.path
  if op.path ∈ seen then invalid (PyStr.ofString "Duplicate operation path: " ++ op.path)
  else .ok (op.path :: seen)

def RewriteRecipe.validate (r : RewriteRecipe φ) : Except RecipeFailure (RewriteRecipe φ) := do
  if r.id = [] then invalid (PyStr.ofString "Recipe id must be a string")
  else if r.name.strip = [] then invalid (PyStr.ofString "Recipe name is required")
  else if maxNameLength < r.name.strip.len then
    invalid (PyStr.ofString "Recipe name exceeds 120 characters")
  else if maxDescriptionLength < r.description.len then
    invalid (PyStr.ofString "description exceeds 500 characters")
  else if maxTemplateStringLength < r.promptTemplate.len then
    invalid (PyStr.ofString "prompt_template exceeds 8192 characters")
  else
    let tags ← normalizeTags py r.tags
    if maxOperations < r.operations.length then
      invalid (PyStr.ofString "operations exceeds limit (128)")
    else if r.operations = [] ∧ r.promptTemplate.strip = [] then
      invalid (PyStr.ofString "Recipe requires at least one operation or a prompt_template")
    else
      let _ ← r.operations.foldlM (checkOperation repr) []
      let constraints ← r.constraints.fromDict
      match normalizeTenantId r.tenantId with
      | .error e => .error (.tenant e)
      | .ok tenantId => .ok { r with tags, constraints, tenantId }

/-! ## Writes -/

/-- `int(part)`. -/
def partInt? (part : PyStr) : Option ℤ := part.chars?.bind PyText.int?

def parseListIndex (part : PyStr) (length : ℕ) (path : PyStr) : Except RecipeFailure ℕ :=
  match partInt? part with
  | none => invalid (PyStr.ofString "List index must be integer at " ++ repr path)
  | some index =>
    if index < 0 ∨ (length : ℤ) ≤ index then
      invalid (PyStr.ofString "List index out of bounds (" ++ PyStr.ofList (Json.showInt index) ++
        PyStr.ofString ") at " ++ repr path)
    else .ok index.toNat

/-- `/` and the segments that were taken. -/
def traversedText (traversed : List PyStr) : PyStr := traversed.flatMap fun t => slashUnit :: t

/-- Write the value at the end of the parts; `traversed` are the ones taken before. -/
def setParts (path : PyStr) (value : Json φ) :
    List PyStr → List PyStr → Json φ → Except RecipeFailure (Json φ)
  | _, [], doc => .ok doc
  | _, [leaf], .obj fields =>
    match under? leaf fields with
    | some _ => .ok (.obj (replaceRow Prod.fst (leaf, value) fields))
    | none => invalid (PyStr.ofString "Path not found: " ++ path)
  | _, [leaf], .arr items => do
    let index ← parseListIndex repr leaf items.length path
    .ok (.arr (items.set index value))
  | _, [_], _ => invalid (PyStr.ofString "Path not writable: " ++ path)
  | traversed, part :: next :: parts, .obj fields =>
    match under? part fields with
    | some child => do
      let written ← setParts path value (traversed ++ [part]) (next :: parts) child
      .ok (.obj (replaceRow Prod.fst (part, written) fields))
    | none => invalid (PyStr.ofString "Path not found: " ++ traversedText (traversed ++ [part]))
  | traversed, part :: next :: parts, .arr items => do
    let index ← parseListIndex repr part items.length path
    let written ← setParts path value (traversed ++ [part]) (next :: parts)
      (items.getD index .null)
    .ok (.arr (items.set index written))
  | traversed, part :: _ :: _, _ =>
    invalid (PyStr.ofString "Path not traversable at " ++ traversedText (traversed ++ [part]))

def setJsonPointer (doc : Json φ) (path : PyStr) (value : Json φ) :
    Except RecipeFailure (Json φ) := do
  let parts ← parseJsonPointer repr path
  setParts repr path value [] parts doc

variable (render : Json φ → Except RecipeFailure (Json φ))

/-- One turn of the loop of `dry_run_recipe`. Rendering goes by the inputs alone. What a written
value shares with other values shows only when an operation writes inside it. -/
def applyOperation (doc : Json φ) (op : RewriteOperation φ) : Except RecipeFailure (Json φ) := do
  let value ← render op.value
  setJsonPointer repr doc op.path value

def applyOperations (doc : Json φ) (ops : List (RewriteOperation φ)) :
    Except RecipeFailure (Json φ) := ops.foldlM (applyOperation repr render) doc

end Validation

/-! ## Places -/

/-- The list index that a segment spells. -/
def listIndex? (part : PyStr) : Option ℕ :=
  (partInt? part).bind fun i => if 0 ≤ i then some i.toNat else none

/-- What a segment leads to in a document. -/
def childStep? : Json φ → PyStr → Option Step
  | .obj fields, t => if (under? t fields).isSome then some (.key t) else none
  | .arr items, t => (listIndex? t).bind fun i => if i < items.length then some (.index i) else none
  | _, _ => none

/-- The place that a path leads to. -/
def locate : Json φ → List PyStr → Option Location
  | _, [] => some []
  | j, t :: ts =>
    (childStep? j t).bind fun s => (j.child? s).bind fun c => (locate c ts).map (s :: ·)

theorem locate_step (j : Json φ) (t : PyStr) (ts : List PyStr) : locate j (t :: ts) =
    (childStep? j t).bind fun s => (j.child? s).bind fun c => (locate c ts).map (s :: ·) := rfl

/-- One of two places is the other or is inside it. -/
def Nested (l l' : Location) : Prop := l <+: l' ∨ l' <+: l

/-- Two segments that lead to the same child of some value. -/
def SameChild (t t' : PyStr) : Prop :=
  t = t' ∨ (listIndex? t).isSome ∧ listIndex? t = listIndex? t'

/-- Two paths of which one leads to the place of the other, or inside it, in some value. -/
def Meets : List PyStr → List PyStr → Prop
  | [], _ => True
  | _, [] => True
  | t :: ts, t' :: ts' => SameChild t t' ∧ Meets ts ts'

/-- The same in a workflow, which is a dictionary. -/
def Clash : List PyStr → List PyStr → Prop
  | t :: ts, t' :: ts' => t = t' ∧ Meets ts ts'
  | _, _ => True

instance (t t' : PyStr) : Decidable (SameChild t t') := by
  unfold SameChild
  infer_instance

instance decidableMeets : ∀ ts ts' : List PyStr, Decidable (Meets ts ts')
  | [], _ => .isTrue trivial
  | _ :: _, [] => .isTrue trivial
  | t :: ts, t' :: ts' =>
    have : Decidable (Meets ts ts') := decidableMeets ts ts'
    inferInstanceAs (Decidable (SameChild t t' ∧ Meets ts ts'))

instance (ts ts' : List PyStr) : Decidable (Clash ts ts') := by
  unfold Clash
  split <;> infer_instance

/-- The paths lead to the same place, or one inside the other, in some workflow. -/
def OperationsClash (repr : PyStr → PyStr) (a b : RewriteOperation φ) : Prop :=
  match parseJsonPointer repr a.path, parseJsonPointer repr b.path with
  | .ok ts, .ok ts' => Clash ts ts'
  | _, _ => False

instance (repr : PyStr → PyStr) (a b : RewriteOperation φ) :
    Decidable (OperationsClash repr a b) := by
  unfold OperationsClash
  split <;> infer_instance

theorem operationsClash_iff {repr : PyStr → PyStr} {a b : RewriteOperation φ} :
    OperationsClash repr a b ↔ ∃ ts ts', parseJsonPointer repr a.path = .ok ts ∧
      parseJsonPointer repr b.path = .ok ts' ∧ Clash ts ts' := by
  rw [OperationsClash]
  split
  · rename_i ts ts' hts hts'
    simp [hts, hts']
  · rename_i hnone
    exact ⟨False.elim, fun ⟨ts, ts', hts, hts', _⟩ => hnone ts ts' hts hts'⟩

def OperationsApart (repr : PyStr → PyStr) (ops : List (RewriteOperation φ)) : Prop :=
  ops.Pairwise fun a b => ¬OperationsClash repr a b

instance (repr : PyStr → PyStr) (ops : List (RewriteOperation φ)) :
    Decidable (OperationsApart repr ops) :=
  inferInstanceAs (Decidable (ops.Pairwise fun a b => ¬OperationsClash repr a b))

/-- The operation writes the place. -/
def Writes (repr : PyStr → PyStr) (workflow : Json φ) (op : RewriteOperation φ) (l : Location) :
    Prop :=
  ∃ ts, parseJsonPointer repr op.path = .ok ts ∧ locate workflow ts = some l

structure Independent (repr : PyStr → PyStr) (ops : List (RewriteOperation φ)) : Prop where
  places : ops.Pairwise fun a b => ∀ fields l l', Writes repr (.obj fields) a l →
    Writes repr (.obj fields) b l' → ¬Nested l l'
  order : ∀ render ops' fields result, ops.Perm ops' →
    applyOperations repr render (.obj fields) ops = .ok result →
    applyOperations repr render (.obj fields) ops' = .ok result

section Places
variable {j c : Json φ} {s : Step} {t t' : PyStr} {ts ts' : List PyStr} {l l' : Location}

theorem locate_cons :
    locate j (t :: ts) = some l ↔
      ∃ s c l', childStep? j t = some s ∧ j.child? s = some c ∧ locate c ts = some l' ∧
        l = s :: l' := by
  rw [locate_step]
  constructor
  · intro h
    obtain ⟨s, hs, h⟩ := Option.bind_eq_some_iff.mp h
    obtain ⟨c, hc, h⟩ := Option.bind_eq_some_iff.mp h
    obtain ⟨l', hl', rfl⟩ := Option.map_eq_some_iff.mp h
    exact ⟨s, c, l', hs, hc, hl', rfl⟩
  · rintro ⟨s, c, l', hs, hc, hl', rfl⟩
    simp [hs, hc, hl']

theorem childStep?_obj {fields : List (PyStr × Json φ)}
    (h : childStep? (.obj fields) t = some s) : s = .key t := by
  rw [childStep?] at h
  split at h
  · exact (Option.some.inj h).symm
  · cases h

theorem childStep?_arr {items : List (Json φ)} (h : childStep? (.arr items) t = some s) :
    ∃ i, listIndex? t = some i ∧ s = .index i := by
  obtain ⟨i, hi, h⟩ := Option.bind_eq_some_iff.mp h
  split at h
  · exact ⟨i, hi, (Option.some.inj h).symm⟩
  · cases h

/-- In a dictionary the segments are the keys. -/
theorem eq_of_childStep? {fields : List (PyStr × Json φ)}
    (h : childStep? (.obj fields) t = some s) (h' : childStep? (.obj fields) t' = some s) :
    t = t' := by
  have hkey := (childStep?_obj h).symm.trans (childStep?_obj h')
  exact Step.key.inj hkey

theorem sameChild_of_childStep? (h : childStep? j t = some s) (h' : childStep? j t' = some s) :
    SameChild t t' := by
  cases j with
  | arr items =>
    obtain ⟨i, hi, rfl⟩ := childStep?_arr h
    obtain ⟨i', hi', hindex⟩ := childStep?_arr h'
    cases hindex
    exact .inr ⟨by rw [hi]; rfl, hi.trans hi'.symm⟩
  | obj fields => exact .inl (eq_of_childStep? h h')
  | _ => cases h

theorem nested_cons {s' : Step} : Nested (s :: l) (s' :: l') ↔ s = s' ∧ Nested l l' := by
  rw [Nested, List.cons_prefix_cons, List.cons_prefix_cons, Nested]
  constructor
  · rintro (⟨rfl, h⟩ | ⟨rfl, h⟩)
    · exact ⟨rfl, .inl h⟩
    · exact ⟨rfl, .inr h⟩
  · rintro ⟨rfl, h | h⟩
    · exact .inl ⟨rfl, h⟩
    · exact .inr ⟨rfl, h⟩

theorem meets_of_nested (h : locate j ts = some l) (h' : locate j ts' = some l')
    (hn : Nested l l') : Meets ts ts' := by
  induction ts generalizing j l l' ts' with
  | nil => exact trivial
  | cons t ts ih =>
    cases ts' with
    | nil => exact trivial
    | cons t' ts' =>
      obtain ⟨s, c, l, hs, hc, hl, rfl⟩ := locate_cons.mp h
      obtain ⟨s', c', l', hs', hc', hl', rfl⟩ := locate_cons.mp h'
      obtain ⟨rfl, hrest⟩ := nested_cons.mp hn
      have hcc : c = c' := Option.some.inj (hc.symm.trans hc')
      exact ⟨sameChild_of_childStep? hs hs', ih hl (hcc ▸ hl') hrest⟩

theorem clash_of_nested {fields : List (PyStr × Json φ)}
    (h : locate (.obj fields) ts = some l) (h' : locate (.obj fields) ts' = some l')
    (hn : Nested l l') : Clash ts ts' := by
  cases ts with
  | nil => exact trivial
  | cons t ts =>
    cases ts' with
    | nil => exact trivial
    | cons t' ts' =>
      obtain ⟨s, c, l, hs, hc, hl, rfl⟩ := locate_cons.mp h
      obtain ⟨s', c', l', hs', hc', hl', rfl⟩ := locate_cons.mp h'
      obtain ⟨rfl, hrest⟩ := nested_cons.mp hn
      have hcc : c = c' := Option.some.inj (hc.symm.trans hc')
      exact ⟨eq_of_childStep? hs hs', meets_of_nested hl (hcc ▸ hl') hrest⟩

@[simp] theorem childStep?_setChild (hc : j.child? s = some c) (w : Json φ) (t : PyStr) :
    childStep? (j.setChild s w) t = childStep? j t := by
  cases j with
  | arr items =>
    cases s with
    | key k => cases hc
    | index i =>
      have hlt := (List.getElem?_eq_some_iff.mp hc).1
      simp [Json.setChild, hlt, childStep?]
  | obj fields =>
    cases s with
    | index i => cases hc
    | key k =>
      have hk : under? k fields = some c := hc
      by_cases ht : k = t
      · simp [Json.setChild, childStep?, under?_replaceRow, ← ht, hk]
      · simp [Json.setChild, childStep?, under?_replaceRow, ht]
  | _ => cases hc

theorem locate_setChild (hc : j.child? s = some c) (w : Json φ) (t : PyStr) (ts : List PyStr) :
    locate (j.setChild s w) (t :: ts) =
      if childStep? j t = some s then (locate w ts).map (s :: ·) else locate j (t :: ts) := by
  rw [locate_step, childStep?_setChild hc, locate_step]
  cases hs : childStep? j t with
  | none => rfl
  | some s' =>
    simp only [Option.bind_some, Option.some.injEq]
    by_cases h : s' = s
    · subst h
      rw [if_pos rfl, Json.child?_setChild hc, if_pos rfl, Option.bind_some]
    · rw [if_neg h, Json.child?_setChild hc, if_neg (Ne.symm h)]

/-- A write leaves every path that does not meet it where it was. -/
theorem locate_writeAt (h' : locate j ts' = some l') (hm : ¬Meets ts ts') (v : Json φ) :
    locate (Json.writeAt l' v j) ts = locate j ts := by
  induction ts' generalizing j l' ts with
  | nil => cases ts <;> exact absurd trivial hm
  | cons t' ts' ih =>
    cases ts with
    | nil => exact absurd trivial hm
    | cons t ts =>
      obtain ⟨s', c', l', hs', hc', hl', rfl⟩ := locate_cons.mp h'
      rw [Json.writeAt_cons hc', locate_setChild hc']
      split
      · rename_i hs
        have hrest : ¬Meets ts ts' := fun h => hm ⟨sameChild_of_childStep? hs hs', h⟩
        rw [ih hl' hrest, locate_step, hs, Option.bind_some, hc', Option.bind_some]
      · rfl

theorem locate_writeAt_obj {fields : List (PyStr × Json φ)}
    (h' : locate (.obj fields) ts' = some l') (hm : ¬Clash ts ts') (v : Json φ) :
    locate (Json.writeAt l' v (.obj fields)) ts = locate (.obj fields) ts := by
  cases ts' with
  | nil => cases ts <;> exact absurd trivial hm
  | cons t' ts' =>
    cases ts with
    | nil => exact absurd trivial hm
    | cons t ts =>
      obtain ⟨s', c', l', hs', hc', hl', rfl⟩ := locate_cons.mp h'
      rw [Json.writeAt_cons hc', locate_setChild hc']
      split
      · rename_i hs
        have hrest : ¬Meets ts ts' := fun h => hm ⟨eq_of_childStep? hs hs', h⟩
        rw [locate_writeAt hl' hrest, locate_step, hs, Option.bind_some, hc', Option.bind_some]
      · rfl

theorem locate_under (t : PyStr) (j : Json φ) (ts : List PyStr) :
    locate (.obj [(t, j)]) (t :: ts) = (locate j ts).map (.key t :: ·) := by
  simp [locate_step, childStep?, Json.child?, under?]

theorem locate_last {i : ℕ} (ht : listIndex? t = some i) (j : Json φ) (ts : List PyStr) :
    locate (.arr (List.replicate i .null ++ [j])) (t :: ts) =
      (locate j ts).map (.index i :: ·) := by
  simp [locate_step, childStep?, Json.child?, ht]

theorem exists_locate (ts : List PyStr) : ∃ (j : Json φ) (l : Location), locate j ts = some l := by
  induction ts with
  | nil => exact ⟨.null, [], rfl⟩
  | cons t ts ih =>
    obtain ⟨j, l, hl⟩ := ih
    exact ⟨.obj [(t, j)], .key t :: l, by rw [locate_under, hl]; rfl⟩

theorem exists_nested (h : Meets ts ts') :
    ∃ (j : Json φ) (l l' : Location),
      locate j ts = some l ∧ locate j ts' = some l' ∧ Nested l l' := by
  induction ts generalizing ts' with
  | nil =>
    obtain ⟨j, l', hl'⟩ := exists_locate (φ := φ) ts'
    exact ⟨j, [], l', rfl, hl', .inl List.nil_prefix⟩
  | cons t ts ih =>
    cases ts' with
    | nil =>
      obtain ⟨j, l, hl⟩ := exists_locate (φ := φ) (t :: ts)
      exact ⟨j, l, [], hl, rfl, .inr List.nil_prefix⟩
    | cons t' ts' =>
      obtain ⟨hsame, hrest⟩ := h
      obtain ⟨j, l, l', hl, hl', hn⟩ := ih hrest
      rcases hsame with rfl | ⟨hsome, heq⟩
      · refine ⟨.obj [(t, j)], .key t :: l, .key t :: l', ?_, ?_, nested_cons.mpr ⟨rfl, hn⟩⟩
        · rw [locate_under, hl]
          rfl
        · rw [locate_under, hl']
          rfl
      · obtain ⟨i, hi⟩ := Option.isSome_iff_exists.mp hsome
        refine ⟨.arr (List.replicate i .null ++ [j]), .index i :: l, .index i :: l', ?_, ?_,
          nested_cons.mpr ⟨rfl, hn⟩⟩
        · rw [locate_last hi, hl]
          rfl
        · rw [locate_last (heq.symm.trans hi), hl']
          rfl

end Places

/-! ## What is written -/

section Writes
variable {repr : PyStr → PyStr} {render : Json φ → Except RecipeFailure (Json φ)}
variable {j doc result : Json φ} {op a b : RewriteOperation φ} {ts ts' : List PyStr} {l : Location}

theorem parseListIndex_eq_ok {part path : PyStr} {n i : ℕ} :
    parseListIndex repr part n path = .ok i ↔ listIndex? part = some i ∧ i < n := by
  rw [parseListIndex, listIndex?]
  cases partInt? part with
  | none => simp [invalid]
  | some index =>
    simp only [Option.bind_some]
    by_cases hneg : index < 0
    · rw [if_pos (.inl hneg), if_neg (by omega)]
      simp [invalid]
    · by_cases hlen : (n : ℤ) ≤ index
      · rw [if_pos (.inr hlen), if_pos (by omega)]
        constructor
        · intro h
          cases h
        · rintro ⟨h, hi⟩
          have : index.toNat = i := Option.some.inj h
          omega
      · rw [if_neg (by omega), if_pos (by omega)]
        constructor
        · intro h
          have : index.toNat = i := Except.ok.inj h
          exact ⟨congrArg some this, by omega⟩
        · rintro ⟨h, -⟩
          exact congrArg Except.ok (Option.some.inj h)

theorem parseListIndex_cases (repr : PyStr → PyStr) (part : PyStr) (items : List (Json φ))
    (path : PyStr) :
    (∃ i c, parseListIndex repr part items.length path = .ok i ∧ items[i]? = some c ∧
      childStep? (.arr items) part = some (.index i)) ∨
    (∃ e, parseListIndex repr part items.length path = .error e) ∧
      childStep? (.arr items) part = none := by
  cases h : parseListIndex repr part items.length path with
  | ok i =>
    obtain ⟨hi, hlt⟩ := parseListIndex_eq_ok.mp h
    exact .inl ⟨i, items[i], rfl, List.getElem?_eq_getElem hlt, by simp [childStep?, hi, hlt]⟩
  | error e =>
    refine .inr ⟨⟨e, rfl⟩, ?_⟩
    rw [childStep?, Option.bind_eq_none_iff]
    intro i hi
    refine if_neg fun hlt => ?_
    have hok : parseListIndex repr part items.length path = .ok i :=
      parseListIndex_eq_ok.mpr ⟨hi, hlt⟩
    rw [h] at hok
    cases hok

theorem locate_child {t : PyStr} {s : Step} {c : Json φ} (hs : childStep? j t = some s)
    (hc : j.child? s = some c) : locate j (t :: ts) = (locate c ts).map (s :: ·) := by
  rw [locate_step, hs, Option.bind_some, hc, Option.bind_some]

theorem locate_missing {t : PyStr} (hs : childStep? j t = none) : locate j (t :: ts) = none := by
  rw [locate_step, hs, Option.bind_none]

/-- The last part of a path. -/
theorem setParts_leaf {path leaf : PyStr} {v : Json φ} {traversed : List PyStr} :
    setParts repr path v traversed [leaf] j = .ok result ↔
      ∃ l, locate j [leaf] = some l ∧ result = Json.writeAt l v j := by
  cases j with
  | obj fields =>
    cases hc : under? leaf fields with
    | none =>
      rw [locate_missing (by simp [childStep?, hc])]
      simp [setParts, hc, invalid]
    | some c =>
      have hchild : (Json.obj fields).child? (.key leaf) = some c := hc
      rw [locate_child (by simp [childStep?, hc]) hchild]
      simp [setParts, hc, locate, Json.writeAt, Json.child?, Json.setChild, eq_comm]
  | arr items =>
    rcases parseListIndex_cases repr leaf items path with ⟨i, c, hok, hc, hs⟩ | ⟨⟨e, herr⟩, hs⟩
    · have hlt := (List.getElem?_eq_some_iff.mp hc).1
      rw [locate_child hs hc]
      simp [setParts, hok, locate, Json.writeAt, Json.child?, Json.setChild, hlt, eq_comm,
        bind, Except.bind]
    · rw [locate_missing hs]
      simp [setParts, herr, bind, Except.bind]
  | _ => simp [setParts, locate_step, childStep?, invalid]

/-- The descent and the write at its end are a write at the place that the path leads to. -/
theorem setParts_eq_ok (hts : ts ≠ []) {path : PyStr} {v : Json φ} {traversed : List PyStr} :
    setParts repr path v traversed ts j = .ok result ↔
      ∃ l, locate j ts = some l ∧ result = Json.writeAt l v j := by
  induction ts generalizing traversed j result with
  | nil => exact absurd rfl hts
  | cons t ts ih =>
    cases ts with
    | nil => exact setParts_leaf
    | cons next ts =>
      have hrest (c : Json φ) (s : Step) (hs : childStep? j t = some s) (hc : j.child? s = some c) :
          (setParts repr path v (traversed ++ [t]) (next :: ts) c >>= fun written =>
            .ok (j.setChild s written)) = .ok result ↔
          ∃ l, locate j (t :: next :: ts) = some l ∧ result = Json.writeAt l v j := by
        rw [locate_child hs hc]
        constructor
        · intro h
          obtain ⟨written, hw, h⟩ := bind_eq_ok h
          obtain ⟨l, hl, rfl⟩ := (ih (by simp)).mp hw
          exact ⟨s :: l, by rw [hl]; rfl,
            (Except.ok.inj h).symm.trans (Json.writeAt_cons hc l v).symm⟩
        · rintro ⟨l', hl', rfl⟩
          obtain ⟨l, hl, rfl⟩ := Option.map_eq_some_iff.mp hl'
          have hw : setParts repr path v (traversed ++ [t]) (next :: ts) c =
              .ok (Json.writeAt l v c) := (ih (by simp)).mpr ⟨l, hl, rfl⟩
          rw [hw, Json.writeAt_cons hc]
          rfl
      cases j with
      | obj fields =>
        cases hc : under? t fields with
        | none =>
          rw [locate_missing (by simp [childStep?, hc])]
          simp [setParts, hc, invalid]
        | some c =>
          have h := hrest c (.key t) (by simp [childStep?, hc]) hc
          rw [← h, setParts]
          simp only [hc]
          rfl
      | arr items =>
        rcases parseListIndex_cases repr t items path with ⟨i, c, hok, hc, hs⟩ | ⟨⟨e, herr⟩, hs⟩
        · have hlt := (List.getElem?_eq_some_iff.mp hc).1
          have h := hrest c (.index i) hs hc
          have hget : items.getD i .null = c := by simp [hc]
          simp only [Json.setChild, if_pos hlt] at h
          rw [← h, setParts, hok, ← hget]
          rfl
        · rw [locate_missing hs, setParts, herr]
          simp [bind, Except.bind]
      | _ => simp [setParts, locate_step, childStep?, invalid]

theorem parseJsonPointer_ne_nil {path : PyStr} (h : parseJsonPointer repr path = .ok ts) :
    ts ≠ [] := by
  cases path with
  | nil => cases h
  | cons u rest =>
    rw [parseJsonPointer] at h
    split at h
    · cases h
    · split at h
      · cases h
      · rw [← Except.ok.inj h]
        simp [List.splitOn_ne_nil]

theorem applyOperation_eq_ok :
    applyOperation repr render doc op = .ok result ↔
      ∃ v l, render op.value = .ok v ∧ Writes repr doc op l ∧ result = Json.writeAt l v doc := by
  constructor
  · intro h
    obtain ⟨v, hv, h⟩ := bind_eq_ok h
    obtain ⟨ts, hts, h⟩ := bind_eq_ok h
    obtain ⟨l, hl, hresult⟩ := (setParts_eq_ok (parseJsonPointer_ne_nil hts)).mp h
    exact ⟨v, l, hv, ⟨ts, hts, hl⟩, hresult⟩
  · rintro ⟨v, l, hv, ⟨ts, hts, hl⟩, hresult⟩
    have hset : setParts repr op.path v [] ts doc = .ok result :=
      (setParts_eq_ok (parseJsonPointer_ne_nil hts)).mpr ⟨l, hl, hresult⟩
    rw [applyOperation, hv]
    show setJsonPointer repr doc op.path v = _
    rw [setJsonPointer, hts]
    exact hset

/-- A workflow stays a dictionary. -/
theorem applyOperation_obj {fields : List (PyStr × Json φ)}
    (h : applyOperation repr render (.obj fields) op = .ok result) :
    ∃ fields', result = .obj fields' := by
  obtain ⟨v, l, -, ⟨ts, hts, hl⟩, rfl⟩ := applyOperation_eq_ok.mp h
  cases ts with
  | nil => exact absurd rfl (parseJsonPointer_ne_nil hts)
  | cons t ts =>
    obtain ⟨s, c, l, hs, hc, -, rfl⟩ := locate_cons.mp hl
    rw [Json.writeAt_cons hc, childStep?_obj hs]
    exact ⟨_, rfl⟩

theorem SameChild.symm {t t' : PyStr} (h : SameChild t t') : SameChild t' t := by
  rcases h with rfl | ⟨hsome, heq⟩
  · exact .inl rfl
  · exact .inr ⟨heq ▸ hsome, heq.symm⟩

theorem Meets.symm (h : Meets ts ts') : Meets ts' ts := by
  induction ts generalizing ts' with
  | nil => cases ts' <;> trivial
  | cons t ts ih =>
    cases ts' with
    | nil => trivial
    | cons t' ts' => exact ⟨h.1.symm, ih h.2⟩

theorem Clash.symm (h : Clash ts ts') : Clash ts' ts := by
  cases ts with
  | nil => cases ts' <;> trivial
  | cons t ts =>
    cases ts' with
    | nil => trivial
    | cons t' ts' => exact ⟨Eq.symm h.1, h.2.symm⟩

theorem OperationsClash.symm (h : OperationsClash repr a b) : OperationsClash repr b a := by
  obtain ⟨ts, ts', hts, hts', hc⟩ := operationsClash_iff.mp h
  exact operationsClash_iff.mpr ⟨ts', ts, hts', hts, hc.symm⟩

/-- Two operations that do not clash can change places. -/
theorem applyOperation_swap {fields : List (PyStr × Json φ)} (hab : ¬OperationsClash repr a b)
    (ha : applyOperation repr render (.obj fields) a = .ok doc)
    (hb : applyOperation repr render doc b = .ok result) :
    ∃ doc', applyOperation repr render (.obj fields) b = .ok doc' ∧
      applyOperation repr render doc' a = .ok result := by
  obtain ⟨va, la, hva, ⟨ta, hta, hla⟩, rfl⟩ := applyOperation_eq_ok.mp ha
  obtain ⟨vb, lb, hvb, ⟨tb, htb, hlb⟩, rfl⟩ := applyOperation_eq_ok.mp hb
  have hclash : ¬Clash ta tb := fun h => hab (operationsClash_iff.mpr ⟨ta, tb, hta, htb, h⟩)
  have hplace : locate (.obj fields) tb = some lb := by
    rw [← locate_writeAt_obj hla (fun h => hclash h.symm) va, hlb]
  have hnested : ¬Nested la lb := fun h => hclash (clash_of_nested hla hplace h)
  refine ⟨Json.writeAt lb vb (.obj fields),
    applyOperation_eq_ok.mpr ⟨vb, lb, hvb, ⟨tb, htb, hplace⟩, rfl⟩,
    applyOperation_eq_ok.mpr ⟨va, la, hva, ⟨ta, hta, ?_⟩, ?_⟩⟩
  · rw [locate_writeAt_obj hplace hclash, hla]
  · exact Json.writeAt_comm (fun h => hnested (.inr h)) (fun h => hnested (.inl h)) vb va _

theorem applyOperations_perm {ops ops' : List (RewriteOperation φ)} (hp : ops.Perm ops')
    (hapart : OperationsApart repr ops) {fields : List (PyStr × Json φ)}
    (h : applyOperations repr render (.obj fields) ops = .ok result) :
    applyOperations repr render (.obj fields) ops' = .ok result := by
  induction hp generalizing fields with
  | nil => exact h
  | cons op hp ih =>
    obtain ⟨doc, hdoc, h⟩ := bind_eq_ok h
    obtain ⟨fields', rfl⟩ := applyOperation_obj hdoc
    have hrest := ih (List.pairwise_cons.mp hapart).2 h
    rw [applyOperations, List.foldlM_cons, hdoc]
    exact hrest
  | swap a b ops =>
    obtain ⟨doc, hdoc, h⟩ := bind_eq_ok h
    obtain ⟨doc', hdoc', h⟩ := bind_eq_ok h
    have hba := (List.pairwise_cons.mp hapart).1 a List.mem_cons_self
    obtain ⟨mid, hmid, hlast⟩ := applyOperation_swap hba hdoc hdoc'
    rw [applyOperations, List.foldlM_cons, hmid]
    show applyOperations repr render mid (b :: ops) = _
    rw [applyOperations, List.foldlM_cons, hlast]
    exact h
  | trans hp hp' ih ih' =>
    exact ih' (hp.pairwise hapart fun hab hba => hab hba.symm) (ih hapart h)

/-- Every path of an accepted recipe is one, and no two are the same text. -/
theorem checkOperation_foldlM {ops : List (RewriteOperation φ)} {seen seen' : List PyStr}
    (h : ops.foldlM (checkOperation repr) seen = .ok seen') :
    (∀ op ∈ ops, op.path ∉ seen ∧ ∃ ts, parseJsonPointer repr op.path = .ok ts) ∧
      (ops.map RewriteOperation.path).Nodup := by
  induction ops generalizing seen with
  | nil => exact ⟨nofun, List.nodup_nil⟩
  | cons op ops ih =>
    obtain ⟨mid, hmid, h⟩ := bind_eq_ok h
    obtain ⟨ts, hts, hnew⟩ := bind_eq_ok hmid
    split at hnew
    · cases hnew
    · rename_i hfresh
      obtain rfl : op.path :: seen = mid := Except.ok.inj hnew
      obtain ⟨hparsed, hnodup⟩ := ih h
      refine ⟨?_, List.nodup_cons.mpr ⟨?_, hnodup⟩⟩
      · intro op' hop'
        rcases List.mem_cons.mp hop' with rfl | hrest
        · exact ⟨hfresh, ts, hts⟩
        · obtain ⟨hnot, hpath⟩ := hparsed op' hrest
          exact ⟨fun hmem => hnot (List.mem_cons_of_mem _ hmem), hpath⟩
      · intro hmem
        obtain ⟨op', hop', hpath⟩ := List.mem_map.mp hmem
        exact (hparsed op' hop').1 (hpath ▸ List.mem_cons_self)

theorem checkOperation_of_validate {py : PyInterpreter φ} {recipe valid : RewriteRecipe φ}
    (h : recipe.validate py repr = .ok valid) :
    ∃ seen, recipe.operations.foldlM (checkOperation repr) [] = .ok seen := by
  unfold RewriteRecipe.validate at h
  iterate 5
    split at h
    · cases h
  obtain ⟨tags, -, h⟩ := bind_eq_ok h
  iterate 2
    split at h
    · cases h
  obtain ⟨seen, hseen, -⟩ := bind_eq_ok h
  exact ⟨seen, hseen⟩

/-- Two paths that clash lead to places of some workflow of which one is inside the other. -/
theorem OperationsClash.exists_nested (h : OperationsClash repr a b) :
    ∃ fields l l', Writes repr (.obj fields) a l ∧ Writes repr (.obj fields) b l' ∧
      Nested l l' := by
  obtain ⟨ts, ts', hts, hts', hclash⟩ := operationsClash_iff.mp h
  cases ts with
  | nil => exact absurd rfl (parseJsonPointer_ne_nil hts)
  | cons t ts =>
    cases ts' with
    | nil => exact absurd rfl (parseJsonPointer_ne_nil hts')
    | cons t' ts' =>
      obtain ⟨rfl, hmeets⟩ := hclash
      obtain ⟨j, l, l', hl, hl', hn⟩ := Rewrite.exists_nested (φ := φ) hmeets
      exact ⟨[(t, j)], .key t :: l, .key t :: l', ⟨_, hts, by rw [locate_under, hl]; rfl⟩,
        ⟨_, hts', by rw [locate_under, hl']; rfl⟩, nested_cons.mpr ⟨rfl, hn⟩⟩

theorem operations_independent_iff {py : PyInterpreter φ} {recipe valid : RewriteRecipe φ}
    (h : recipe.validate py repr = .ok valid) :
    (recipe.operations.map RewriteOperation.path).Nodup ∧
      (Independent repr recipe.operations ↔ OperationsApart repr recipe.operations) := by
  obtain ⟨seen, hseen⟩ := checkOperation_of_validate h
  refine ⟨(checkOperation_foldlM hseen).2, ?_, ?_⟩
  · intro hindependent
    refine hindependent.places.imp fun hplaces hclash => ?_
    obtain ⟨fields, l, l', hl, hl', hn⟩ := hclash.exists_nested
    exact hplaces fields l l' hl hl' hn
  · intro hapart
    refine ⟨?_, fun render ops' fields result hp => applyOperations_perm hp hapart⟩
    refine hapart.imp fun hclash fields l l' hl hl' hn => ?_
    obtain ⟨ts, hts, hloc⟩ := hl
    obtain ⟨ts', hts', hloc'⟩ := hl'
    exact hclash (operationsClash_iff.mpr ⟨ts, ts', hts, hts', clash_of_nested hloc hloc' hn⟩)

end Writes

/-! ## A recipe for a prompt node -/

def sampleInterpreter : PyInterpreter Unit where
  floatTruthy := fun _ => true
  floatStr := fun _ => []
  containerStr := fun _ => []
  lower := id

def sampleRecipe (paths : List (String × ℤ)) : RewriteRecipe Unit where
  id := PyStr.ofString "r1"
  name := PyStr.ofString "Rewrite"
  operations := paths.map fun p => ⟨PyStr.ofString p.1, .int p.2⟩

theorem sample_operations_independent :
    Independent id (sampleRecipe [("/1/seed", 5), ("/2/0", 20), ("/2/+1", 7)]).operations := by
  have hvalid : ∃ valid, (sampleRecipe [("/1/seed", 5), ("/2/0", 20), ("/2/+1", 7)]).validate
      sampleInterpreter id = .ok valid := ⟨_, rfl⟩
  obtain ⟨valid, hvalid⟩ := hvalid
  exact (operations_independent_iff hvalid).2.mpr (by decide)

/-- Two spellings of one index. -/
example : ¬OperationsApart id (sampleRecipe [("/2/0", 1), ("/2/00", 2)]).operations := by decide

/-- An operation writes inside the value that another writes. -/
theorem nested_operations_depend_on_order :
    ¬∀ (py : PyInterpreter Unit) (repr : PyStr → PyStr) (recipe valid : RewriteRecipe Unit),
      recipe.validate py repr = .ok valid → Independent repr recipe.operations := by
  intro hall
  have hindependent := hall sampleInterpreter id (sampleRecipe [("/1", 5), ("/1/seed", 7)]) _ rfl
  have hplaces := (List.pairwise_cons.mp hindependent.places).1 _ List.mem_cons_self
    [(PyStr.ofString "1", .obj [(PyStr.ofString "seed", .int 3)])]
    [.key (PyStr.ofString "1")] [.key (PyStr.ofString "1"), .key (PyStr.ofString "seed")]
    ⟨_, rfl, rfl⟩ ⟨_, rfl, rfl⟩
  exact hplaces (.inl (by decide))

end OpenClaw.Rewrite
