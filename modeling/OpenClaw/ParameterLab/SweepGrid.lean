import OpenClaw.Foundation.CartesianProduct
import OpenClaw.ParameterLab.LabPolicy

/-!
# The grid of a sweep

What the validators establish, dimension by dimension, and the texts at which they leave by another
exception. Apart from those a request is refused as declared or becomes the full grid.
-/

namespace OpenClaw.ParameterLab

open Foundation

set_option autoImplicit false

/-!
## Planning a sweep

The planner validates, multiplies the dimensions out and checks the size of the serialized plan
before it allocates an experiment id.
-/

section Planner

variable {φ : Type}

structure SweepPlan (φ : Type) where
  experimentId : PyStr
  workflowJson : PyStr
  dimensions : List (SweepDimension φ)
  runs : List (List (PyStr × Json φ))
  createdAt : φ
  schemaVersion : PyStr
  combinationCap : ℕ
  budgetCap : ℕ
  replayMetadata : List (PyStr × PyStr)

/-- The clock and `uuid4().hex[:8]`. -/
structure Surroundings (φ : Type) where
  floats : Floats φ
  now : φ
  hex8 : List Char

/-! ## `asdict` -/

def field (key : String) (value : Json φ) : PyStr × Json φ := (PyStr.ofString key, value)

def SweepDimension.asdict (d : SweepDimension φ) : Json φ :=
  .obj [field "node_id" (.str d.nodeId), field "widget_name" (.str d.widgetName),
    field "values" (.arr d.values), field "strategy" (.str d.strategy), field "count" (.int d.count)]

def SweepPlan.asdict (plan : SweepPlan φ) : Json φ :=
  .obj [field "experiment_id" (.str plan.experimentId),
    field "workflow_json" (.str plan.workflowJson),
    field "dimensions" (.arr (plan.dimensions.map SweepDimension.asdict)),
    field "runs" (.arr (plan.runs.map Json.obj)), field "created_at" (.float plan.createdAt),
    field "schema_version" (.str plan.schemaVersion),
    field "combination_cap" (.int plan.combinationCap), field "budget_cap" (.int plan.budgetCap),
    field "replay_metadata" (.obj (plan.replayMetadata.map fun f => (f.1, .str f.2)))]

/-! ## Combinations -/

def overrideKey (d : SweepDimension φ) : PyStr := d.nodeId ++ dot :: d.widgetName

/-- `override[keys[idx]] = val` for every value of the combination. -/
def overrideOf (keys : List PyStr) (combo : List (Json φ)) : List (PyStr × Json φ) :=
  Json.dict (keys.zip combo)

def generateCombinations (dimensions : List (SweepDimension φ)) : List (List (PyStr × Json φ)) :=
  let used := dimensions.filter fun d => !d.values.isEmpty
  if used.isEmpty then []
  else (product (used.map SweepDimension.values)).map (overrideOf (used.map overrideKey))

/-- The plan with a placeholder of the same length for the experiment id. -/
def candidate (env : Surroundings φ) (normalizedWorkflow : PyStr)
    (dimensions : List (SweepDimension φ)) : SweepPlan φ where
  experimentId := PyStr.ofString "exp_00000000"
  workflowJson := normalizedWorkflow
  dimensions := dimensions
  runs := generateCombinations dimensions
  createdAt := env.now
  schemaVersion := PyStr.ofString "1.0"
  combinationCap := maxSweepCombinations
  budgetCap := maxSweepCombinations
  replayMetadata := [(PyStr.ofString "replay_input_version", PyStr.ofString "1.0"),
    (PyStr.ofString "compat_state", PyStr.ofString "supported"),
    (PyStr.ofString "lock_reason", PyStr.ofString "f52_closeout")]

/-- `SweepPlanner.generate`. -/
def generate (env : Surroundings φ) (workflow params : Json φ) : Except Raised (SweepPlan φ) := do
  let normalizedWorkflow ← validateWorkflow workflow
  let dimensions ← validateSweepDimensions env.floats params
  let _ ← serializePlanPayload env.floats (candidate env normalizedWorkflow dimensions).asdict
  .ok { candidate env normalizedWorkflow dimensions with
    experimentId := PyStr.ofString "exp_" ++ PyStr.ofList env.hex8 }

/-! ## What a plan is -/

/-- The dimension is the one that was given: its values are all the given ones. -/
structure Describes (raw : Json φ) (d : SweepDimension φ) : Prop where
  given : ∃ fields, raw = .obj fields ∧ get fields "widget_name" = .str d.widgetName ∧
    get fields "values" = .arr d.values ∧
    (get fields "node_id" = .str d.nodeId ∨
      ∃ i, get fields "node_id" = .int i ∧ d.nodeId = PyStr.ofList (Json.showInt i))

/-- The texts before and behind the first dot. -/
def splitAtDot (key : PyStr) : PyStr × PyStr :=
  (key.takeWhile fun u => u ≠ dot, (key.dropWhile fun u => u ≠ dot).tail)

/-- The runs are the combinations of one value per dimension, each once and in lexicographic order,
and the keys lead back to the dimensions. -/
structure FullSweep (params : Json φ) (plan : SweepPlan φ) : Prop where
  dimensions : ∃ items, params = .arr items ∧ List.Forall₂ Describes items plan.dimensions
  combinations : ∃ choices : List (List (Json φ)),
    plan.runs = choices.map (fun c => (plan.dimensions.map overrideKey).zip c) ∧
    (∀ c, c ∈ choices ↔ List.Forall₂ (fun v d => v ∈ d.values) c plan.dimensions) ∧
    choices.Nodup ∧ choices.Pairwise (LexBefore (plan.dimensions.map SweepDimension.values))
  once : plan.runs.Nodup
  bounded : plan.runs.length ≤ maxSweepCombinations
  split : ∀ d ∈ plan.dimensions, splitAtDot (overrideKey d) = d.key
  distinct : (plan.dimensions.map overrideKey).Nodup

/-- Either the declared exception leaves the planner or a full sweep does. -/
def Planned (params : Json φ) : Except Raised (SweepPlan φ) → Prop
  | .ok plan => FullSweep params plan
  | .error e => ¬e.Undeclared

/-! ## Combinations of accepted dimensions -/

theorem splitAtDot_overrideKey {d : SweepDimension φ} (h : dot ∉ d.nodeId) :
    splitAtDot (overrideKey d) = d.key := by
  have hfree : ∀ u ∈ d.nodeId, decide (u ≠ dot) = true := by
    intro u hu
    apply decide_eq_true
    rintro rfl
    exact h hu
  rw [splitAtDot, overrideKey, List.takeWhile_append_of_pos hfree,
    List.dropWhile_append_of_pos hfree]
  simp [SweepDimension.key]

/-- Keys that are distinct are stored one behind the other. -/
theorem overrideOf_eq {keys : List PyStr} (hkeys : keys.Nodup) {combo : List (Json φ)}
    (hlen : combo.length = keys.length) : overrideOf keys combo = keys.zip combo := by
  apply Table.rows_ofRows
  rw [List.map_fst_zip hlen.ge]
  exact hkeys

end Planner

variable {φ : Type}

/-! ## Texts at which a validator fails otherwise -/

def OddWorkflow (workflow : Json φ) : Prop :=
  ∃ s, workflow = .str s ∧ ¬blank s ∧ ¬s.Encodable

def OddNodeId (nodeId : Json φ) : Prop :=
  (∃ i, nodeId = .int i ∧ longInt i) ∨
    ∃ s, nodeId = .str s ∧ ¬blank s ∧ dot ∉ s ∧ containsControl s = false ∧ ¬s.Encodable

def OddWidgetName (widgetName : Json φ) : Prop :=
  ∃ s, widgetName = .str s ∧ ¬blank s ∧ containsControl s = false ∧ ¬s.Encodable

def OddScalar (value : Json φ) : Prop :=
  (∃ s, value = .str s ∧ ¬s.Encodable) ∨ ∃ i, value = .int i ∧ longInt i

/-- The values before the odd one are accepted. -/
def OddValues (floats : Floats φ) (values : Json φ) : Prop :=
  ∃ front v back seen, values = .arr (front ++ v :: back) ∧
    (front ++ v :: back).length ≤ maxValuesPerDimension ∧
    scalarLoop floats true front = .ok seen ∧ OddScalar v

/-- The node id, the widget name or one of the values is odd, and what is read before it is
accepted. -/
def OddDimension (floats : Floats φ) (seen : SeenDimensions φ) (raw : Json φ) : Prop :=
  ∃ fields, raw = .obj fields ∧ (OddNodeId (get fields "node_id") ∨
    ∃ nodeId, normalizeNodeId (get fields "node_id") = .ok nodeId ∧
      (OddWidgetName (get fields "widget_name") ∨
        ∃ widgetName, normalizeWidgetName (get fields "widget_name") = .ok widgetName ∧
          (nodeId, widgetName) ∉ seen.dimensions ∧ isGrid fields = true ∧
          OddValues floats (get fields "values")))

/-- The dimensions before the odd one are accepted. -/
def OddParams (floats : Floats φ) (params : Json φ) : Prop :=
  ∃ front raw back seen, params = .arr (front ++ raw :: back) ∧
    (front ++ raw :: back).length ≤ maxSweepDimensions ∧
    dimensionLoop floats front = .ok seen ∧ OddDimension floats seen raw

def OddRequest (floats : Floats φ) (workflow params : Json φ) : Prop :=
  OddWorkflow workflow ∨
    (∃ w, validateWorkflow workflow = .ok w) ∧ OddParams floats params

section Odd
variable {α : Type}

@[simp] theorem not_fails_refuse (code : Code) :
    ¬Fails Raised.Undeclared (refuse code : Except Raised α) := by
  rw [refuse, fails_error]
  exact id

@[simp] theorem not_fails_tooLarge (code : Code) :
    ¬Fails Raised.Undeclared (tooLarge code : Except Raised α) := by
  rw [tooLarge, fails_error]
  exact id

@[simp] theorem fails_strInt {i : ℤ} : Fails Raised.Undeclared (strInt i) ↔ longInt i := by
  rw [strInt, fails_ite]
  simp [Raised.Undeclared]

theorem fails_utf8Size {s : PyStr} : Fails Raised.Undeclared (utf8Size s) ↔ ¬s.Encodable := by
  unfold utf8Size PyStr.Encodable
  cases s.chars? <;> simp [Raised.Undeclared]

/-- A text that is measured and then refused or passed on. -/
theorem fails_sized {s : PyStr} {limit : ℕ} {x y : Except Raised α}
    (hx : ¬Fails Raised.Undeclared x) (hy : ¬Fails Raised.Undeclared y) :
    Fails Raised.Undeclared (utf8Size s >>= fun size => if limit < size then x else y) ↔
      ¬s.Encodable := by
  rw [fails_bind, fails_utf8Size]
  simp [fails_ite, hx, hy]

theorem fails_validateWorkflow {workflow : Json φ} :
    Fails Raised.Undeclared (validateWorkflow workflow) ↔ OddWorkflow workflow := by
  cases workflow with
  | str s =>
    rw [validateWorkflow, fails_ite, fails_sized (not_fails_tooLarge _) fails_ok]
    simp [OddWorkflow]
  | _ => simp [validateWorkflow, OddWorkflow]

theorem fails_normalizeWidgetName {widgetName : Json φ} :
    Fails Raised.Undeclared (normalizeWidgetName widgetName) ↔ OddWidgetName widgetName := by
  cases widgetName with
  | str s =>
    rw [normalizeWidgetName, fails_ite, fails_ite, fails_sized (not_fails_refuse _) fails_ok]
    simp [OddWidgetName]
  | _ => simp [normalizeWidgetName, OddWidgetName]

/-- The digits of an integer have an encoding. -/
theorem fails_normalizeNodeId {nodeId : Json φ} :
    Fails Raised.Undeclared (normalizeNodeId nodeId) ↔ OddNodeId nodeId := by
  have hchecked : ∀ s : PyStr, Fails Raised.Undeclared
      (if blank s then refuse .nodeIdRequired
        else if dot ∈ s ∨ containsControl s then refuse .invalidNodeId
        else utf8Size s >>= fun size =>
          if maxNodeIdUtf8Bytes < size then refuse .nodeIdTooLarge else .ok s) ↔
        ¬blank s ∧ dot ∉ s ∧ containsControl s = false ∧ ¬s.Encodable := by
    intro s
    rw [fails_ite, fails_ite, fails_sized (not_fails_refuse _) fails_ok]
    simp [and_assoc]
  unfold normalizeNodeId
  rw [fails_bind]
  simp only [hchecked]
  cases nodeId with
  | int i =>
    simp only [nodeIdText, fails_strInt, OddNodeId]
    have hdigits : ∀ a, strInt i = .ok a → a.Encodable := by
      intro a ha
      unfold strInt at ha
      split at ha <;> cases ha
      exact PyStr.encodable_ofList _
    constructor
    · rintro (hlong | ⟨a, ha, -, -, -, hodd⟩)
      · exact .inl ⟨i, rfl, hlong⟩
      · exact absurd (hdigits a ha) hodd
    · rintro (⟨_, ⟨⟩, hlong⟩ | ⟨_, ⟨⟩, _⟩)
      exact .inl hlong
  | str s => simp [nodeIdText, OddNodeId]
  | _ => simp [nodeIdText, OddNodeId, refuse, Raised.Undeclared]

variable {floats : Floats φ}

/-- What is measured and passed on has an encoding. -/
theorem sized_eq_ok {s : PyStr} {limit : ℕ} {x : Except Raised α} {a b : α}
    (h : (utf8Size s >>= fun size => if limit < size then x else .ok a) = .ok b)
    (hx : x ≠ .ok b) : b = a ∧ s.Encodable := by
  obtain ⟨size, hsize, h⟩ := bind_eq_ok h
  split at h
  · exact absurd h hx
  · cases h
    refine ⟨rfl, ?_⟩
    by_contra hodd
    have hfails := fails_utf8Size.mpr hodd
    rw [hsize] at hfails
    exact fails_ok hfails

theorem normalizeScalar_ok {value scalar : Json φ}
    (h : normalizeScalar floats true value = .ok scalar) :
    scalar = value ∧ Json.AllEncodable value := by
  cases value with
  | null => cases h
  | bool b => exact ⟨(Except.ok.inj h).symm, .bool b⟩
  | int i => exact ⟨(Except.ok.inj h).symm, .int i⟩
  | float x =>
    rw [normalizeScalar] at h
    split at h
    · exact ⟨(Except.ok.inj h).symm, .float x⟩
    · cases h
  | str s =>
    rw [normalizeScalar, if_neg (by simp)] at h
    obtain ⟨rfl, hs⟩ := sized_eq_ok h nofun
    exact ⟨rfl, .str hs⟩
  | arr items => cases h
  | obj fields => cases h

theorem fails_presentationKey {value : Json φ} :
    Fails Raised.Undeclared (presentationKey floats value) ↔ ∃ i, value = .int i ∧ longInt i := by
  cases value with
  | int i => simp [presentationKey]
  | float x =>
    unfold presentationKey
    rw [fails_ite]
    cases hx : floats.integer? x with
    | none => simp
    | some i => simp [floats.integer_short x i hx]
  | _ => simp [presentationKey]

theorem fails_scalarStep {seen : SeenValues φ} {value : Json φ} :
    Fails Raised.Undeclared (scalarStep floats true seen value) ↔ OddScalar value := by
  have hscalar : Fails Raised.Undeclared (normalizeScalar floats true value) ↔
      ∃ s, value = .str s ∧ ¬s.Encodable := by
    cases value with
    | str s =>
      rw [normalizeScalar, if_neg (by simp), fails_sized (not_fails_refuse _) fails_ok]
      simp
    | float x => simp [normalizeScalar, fails_ite]
    | _ => simp [normalizeScalar]
  unfold scalarStep
  simp only [fails_bind, hscalar, fails_presentationKey, fails_ite, not_fails_refuse, fails_ok,
    and_false, or_false, exists_false]
  constructor
  · rintro (hstr | ⟨scalar, hvalue, hint⟩)
    · exact .inl hstr
    · rw [(normalizeScalar_ok hvalue).1] at hint
      exact .inr hint
  · rintro (hstr | ⟨i, rfl, hlong⟩)
    · exact .inl hstr
    · exact .inr ⟨.int i, rfl, i, rfl, hlong⟩

theorem fails_validateScalarValues {values : Json φ} :
    Fails Raised.Undeclared (validateScalarValues floats maxValuesPerDimension true values) ↔
      OddValues floats values := by
  cases values with
  | arr vs =>
    rw [validateScalarValues, fails_ite, fails_ite, fails_bind, scalarLoop, fails_foldlM]
    simp only [not_fails_refuse, fails_ok, and_false, exists_false, or_false, false_or,
      fails_scalarStep]
    constructor
    · rintro ⟨-, hlen, front, v, back, seen, rfl, hfront, hv⟩
      exact ⟨front, v, back, seen, rfl, Nat.le_of_not_lt hlen, hfront, hv⟩
    · rintro ⟨front, v, back, seen, ⟨⟩, hlen, hfront, hv⟩
      exact ⟨by simp, Nat.not_lt_of_le hlen, front, v, back, seen, rfl, hfront, hv⟩
  | _ => simp [validateScalarValues, OddValues]

theorem fails_dimensionStep {seen : SeenDimensions φ} {raw : Json φ} :
    Fails Raised.Undeclared (dimensionStep floats seen raw) ↔ OddDimension floats seen raw := by
  cases raw with
  | obj fields =>
    simp only [dimensionStep, fails_bind, fails_ite, fails_normalizeNodeId,
      fails_normalizeWidgetName, fails_validateScalarValues, not_fails_refuse, fails_ok, and_false,
      exists_false, or_false, false_or, Bool.not_eq_false, OddDimension]
    constructor
    · intro h
      exact ⟨fields, rfl, h⟩
    · rintro ⟨_, ⟨⟩, h⟩
      exact h
  | _ => simp [dimensionStep, OddDimension]

theorem fails_validateSweepDimensions {params : Json φ} :
    Fails Raised.Undeclared (validateSweepDimensions floats params) ↔ OddParams floats params := by
  cases params with
  | arr items =>
    rw [validateSweepDimensions, fails_ite, fails_ite, fails_bind, dimensionLoop, fails_foldlM]
    simp only [not_fails_refuse, fails_ok, and_false, exists_false, or_false, false_or,
      fails_dimensionStep]
    constructor
    · rintro ⟨-, hlen, front, raw, back, seen, rfl, hfront, hraw⟩
      exact ⟨front, raw, back, seen, rfl, Nat.le_of_not_lt hlen, hfront, hraw⟩
    · rintro ⟨front, raw, back, seen, ⟨⟩, hlen, hfront, hraw⟩
      exact ⟨by simp, Nat.not_lt_of_le hlen, front, raw, back, seen, rfl, hfront, hraw⟩
  | _ => simp [validateSweepDimensions, OddParams]

end Odd

/-! ## What the validators establish -/

theorem validateWorkflow_ok {workflow : Json φ} {w : PyStr}
    (h : validateWorkflow workflow = .ok w) : w.Encodable := by
  cases workflow with
  | str s =>
    rw [validateWorkflow] at h
    split at h
    · cases h
    · obtain ⟨rfl, hs⟩ := sized_eq_ok h nofun
      exact hs
  | _ => cases h

theorem normalizeWidgetName_ok {widgetName : Json φ} {s : PyStr}
    (h : normalizeWidgetName widgetName = .ok s) : widgetName = .str s ∧ s.Encodable := by
  cases widgetName with
  | str t =>
    rw [normalizeWidgetName] at h
    split at h
    · cases h
    split at h
    · cases h
    obtain ⟨rfl, hs⟩ := sized_eq_ok h nofun
    exact ⟨rfl, hs⟩
  | _ => cases h

theorem nodeIdText_ok {nodeId : Json φ} {s : PyStr} (h : nodeIdText nodeId = .ok s) :
    nodeId = .str s ∨ ∃ i, nodeId = .int i ∧ s = PyStr.ofList (Json.showInt i) := by
  cases nodeId with
  | int i =>
    rw [nodeIdText, strInt] at h
    split at h
    · cases h
    · exact .inr ⟨i, rfl, (Except.ok.inj h).symm⟩
  | str t =>
    cases h
    exact .inl rfl
  | _ => cases h

theorem normalizeNodeId_ok {nodeId : Json φ} {s : PyStr} (h : normalizeNodeId nodeId = .ok s) :
    (nodeId = .str s ∨ ∃ i, nodeId = .int i ∧ s = PyStr.ofList (Json.showInt i)) ∧
      dot ∉ s ∧ s.Encodable := by
  obtain ⟨t, ht, h⟩ := bind_eq_ok h
  split at h
  · cases h
  split at h
  · cases h
  rename_i hplain
  obtain ⟨rfl, hs⟩ := sized_eq_ok h nofun
  exact ⟨nodeIdText_ok ht, fun hdot => hplain (.inl hdot), hs⟩

/-- The values that were read, with presentations that are pairwise different. -/
structure ReadValues (floats : Floats φ) (values : List (Json φ)) (seen : SeenValues φ) : Prop where
  normalized : seen.normalized = values
  presentations : values.map (presentationKey floats) = seen.presentations.map .ok
  different : seen.presentations.Nodup
  encodable : ∀ v ∈ values, Json.AllEncodable v

variable {floats : Floats φ}

theorem ReadValues.step {front : List (Json φ)} {value : Json φ} {seen seen' : SeenValues φ}
    (hread : ReadValues floats front seen) (h : scalarStep floats true seen value = .ok seen') :
    ReadValues floats (front ++ [value]) seen' := by
  obtain ⟨scalar, hscalar, h⟩ := bind_eq_ok h
  obtain ⟨presentation, hpresentation, hseen⟩ := bind_eq_ok h
  obtain ⟨rfl, hencodable⟩ := normalizeScalar_ok hscalar
  split at hseen
  · cases hseen
  rename_i hnew
  cases hseen
  refine ⟨?_, ?_, ?_, ?_⟩
  · rw [hread.normalized]
  · rw [List.map_append, List.map_append, hread.presentations, List.map_singleton,
      List.map_singleton, hpresentation]
  · exact hread.different.append (List.nodup_singleton _) (List.disjoint_singleton.mpr hnew)
  · intro v hv
    rcases List.mem_append.mp hv with hv | hv
    · exact hread.encodable v hv
    · rw [List.mem_singleton.mp hv]
      exact hencodable

theorem scalarLoop_ok {values : List (Json φ)} {seen : SeenValues φ}
    (h : scalarLoop floats true values = .ok seen) : ReadValues floats values seen :=
  foldlM_invariant ⟨rfl, rfl, List.nodup_nil, nofun⟩
    (fun _ _ _ _ hread hstep => hread.step hstep) h

/-- Equal values would be shown alike. -/
theorem ReadValues.nodup {values : List (Json φ)} {seen : SeenValues φ}
    (h : ReadValues floats values seen) : values.Nodup := by
  apply List.Nodup.of_map (presentationKey floats)
  rw [h.presentations]
  exact h.different.map fun _ _ heq => Except.ok.inj heq

theorem validateScalarValues_ok {values : Json φ} {vs : List (Json φ)}
    (h : validateScalarValues floats maxValuesPerDimension true values = .ok vs) :
    values = .arr vs ∧ vs ≠ [] ∧ vs.Nodup ∧ ∀ v ∈ vs, Json.AllEncodable v := by
  cases values with
  | arr given =>
    rw [validateScalarValues] at h
    split at h
    · cases h
    rename_i hne
    split at h
    · cases h
    obtain ⟨seen, hseen, h⟩ := bind_eq_ok h
    cases h
    have hread := scalarLoop_ok hseen
    rw [hread.normalized]
    exact ⟨rfl, hne, hread.nodup, hread.encodable⟩
  | _ => cases h

/-- A dimension that the planner can use. -/
structure Usable (d : SweepDimension φ) : Prop where
  plain : dot ∉ d.nodeId
  nodeId : d.nodeId.Encodable
  widgetName : d.widgetName.Encodable
  grid : d.strategy = PyStr.ofString "grid"
  some : d.values ≠ []
  nodup : d.values.Nodup
  values : ∀ v ∈ d.values, Json.AllEncodable v

/-- The dimensions that were read, their keys, and the number of combinations of their values. -/
structure ReadDimensions (params : List (Json φ)) (seen : SeenDimensions φ) : Prop where
  given : List.Forall₂ Describes params seen.normalized
  keys : seen.dimensions = seen.normalized.map SweepDimension.key
  different : seen.dimensions.Nodup
  count : seen.combinations = (seen.normalized.map fun d => d.values.length).prod
  bounded : seen.combinations ≤ maxSweepCombinations
  usable : ∀ d ∈ seen.normalized, Usable d

theorem ReadDimensions.step {front : List (Json φ)} {raw : Json φ} {seen seen' : SeenDimensions φ}
    (hread : ReadDimensions front seen) (h : dimensionStep floats seen raw = .ok seen') :
    ReadDimensions (front ++ [raw]) seen' := by
  cases raw with
  | obj fields =>
    obtain ⟨nodeId, hnodeId, h⟩ := bind_eq_ok h
    obtain ⟨widgetName, hwidgetName, h⟩ := bind_eq_ok h
    split at h
    · cases h
    rename_i hnew
    split at h
    · cases h
    obtain ⟨vs, hvs, h⟩ := bind_eq_ok h
    split at h
    · cases h
    rename_i hcount
    cases h
    obtain ⟨hnode, hdot, hnodeText⟩ := normalizeNodeId_ok hnodeId
    obtain ⟨hwidget, hwidgetText⟩ := normalizeWidgetName_ok hwidgetName
    obtain ⟨hvalues, hne, hnodup, htexts⟩ := validateScalarValues_ok hvs
    refine ⟨?_, ?_, ?_, ?_, Nat.le_of_not_lt hcount, ?_⟩
    · exact List.rel_append hread.given (.cons ⟨fields, rfl, hwidget, hvalues, hnode⟩ .nil)
    · simp [hread.keys, SweepDimension.key]
    · exact hread.different.append (List.nodup_singleton _) (List.disjoint_singleton.mpr hnew)
    · simp [hread.count]
    · intro d hd
      rcases List.mem_append.mp hd with hd | hd
      · exact hread.usable d hd
      · rw [List.mem_singleton.mp hd]
        exact ⟨hdot, hnodeText, hwidgetText, rfl, hne, hnodup, htexts⟩
  | _ => cases h

theorem dimensionLoop_ok {params : List (Json φ)} {seen : SeenDimensions φ}
    (h : dimensionLoop floats params = .ok seen) : ReadDimensions params seen :=
  foldlM_invariant ⟨.nil, rfl, List.nodup_nil, rfl, Nat.le_of_ble_eq_true rfl, by simp⟩
    (fun _ _ _ _ hread hstep => hread.step hstep) h

theorem validateSweepDimensions_ok {params : Json φ} {dims : List (SweepDimension φ)}
    (h : validateSweepDimensions floats params = .ok dims) :
    ∃ items seen, params = .arr items ∧ items ≠ [] ∧ ReadDimensions items seen ∧
      dims = seen.normalized := by
  cases params with
  | arr items =>
    rw [validateSweepDimensions] at h
    split at h
    · cases h
    rename_i hne
    split at h
    · cases h
    obtain ⟨seen, hseen, h⟩ := bind_eq_ok h
    cases h
    exact ⟨items, seen, rfl, hne, dimensionLoop_ok hseen, rfl⟩
  | _ => cases h

/-! ## The grid -/

section Grid
variable {dims : List (SweepDimension φ)}

theorem overrideKeys_nodup (hkeys : (dims.map SweepDimension.key).Nodup)
    (husable : ∀ d ∈ dims, Usable d) : (dims.map overrideKey).Nodup := by
  apply List.Nodup.of_map splitAtDot
  have hsplit : (dims.map overrideKey).map splitAtDot = dims.map SweepDimension.key := by
    rw [List.map_map]
    exact List.map_congr_left fun d hd => splitAtDot_overrideKey (husable d hd).plain
  rwa [hsplit]

theorem generateCombinations_eq (hne : dims ≠ []) (hkeys : (dims.map SweepDimension.key).Nodup)
    (husable : ∀ d ∈ dims, Usable d) : generateCombinations dims =
      (product (dims.map SweepDimension.values)).map fun c => (dims.map overrideKey).zip c := by
  have hused : (dims.filter fun d => !d.values.isEmpty) = dims := by
    rw [List.filter_eq_self]
    intro d hd
    simpa using (husable d hd).some
  rw [generateCombinations, hused, if_neg (by simpa using hne)]
  apply List.map_congr_left
  intro c hc
  apply overrideOf_eq (overrideKeys_nodup hkeys husable)
  rw [(mem_product.mp hc).length_eq, List.length_map, List.length_map]

theorem choices_nodup (husable : ∀ d ∈ dims, Usable d) :
    (product (dims.map SweepDimension.values)).Nodup := by
  apply product_nodup
  intro vs hvs
  obtain ⟨d, hd, rfl⟩ := List.mem_map.mp hvs
  exact (husable d hd).nodup

theorem runs_nodup (husable : ∀ d ∈ dims, Usable d) :
    ((product (dims.map SweepDimension.values)).map
      fun c => (dims.map overrideKey).zip c).Nodup := by
  refine (choices_nodup husable).map_on fun c hc d hd heq => ?_
  have hsnd : ∀ c ∈ product (dims.map SweepDimension.values),
      ((dims.map overrideKey).zip c).map Prod.snd = c := by
    intro c hc
    apply List.map_snd_zip
    rw [(mem_product.mp hc).length_eq, List.length_map, List.length_map]
  rw [← hsnd c hc, heq, hsnd d hd]

/-- The plan of the dimensions that were read is the full grid. -/
theorem ReadDimensions.fullSweep {items : List (Json φ)} {seen : SeenDimensions φ}
    (hread : ReadDimensions items seen) (hne : items ≠ []) {plan : SweepPlan φ}
    (hdims : plan.dimensions = seen.normalized)
    (hruns : plan.runs = generateCombinations seen.normalized) : FullSweep (.arr items) plan := by
  have hkeys : (seen.normalized.map SweepDimension.key).Nodup := hread.keys ▸ hread.different
  have hsome : seen.normalized ≠ [] := by
    intro hnil
    have hlen := hread.given.length_eq
    rw [hnil] at hlen
    exact hne (List.length_eq_zero_iff.mp hlen)
  have heq := hruns.trans (generateCombinations_eq hsome hkeys hread.usable)
  refine ⟨⟨items, rfl, hdims ▸ hread.given⟩, ⟨_, by rw [heq, hdims], fun c => ?_, ?_, ?_⟩, ?_, ?_,
    ?_, ?_⟩
  · rw [hdims, mem_product, List.forall₂_map_right_iff]
  · exact choices_nodup hread.usable
  · rw [hdims]
    exact product_pairwise _
  · rw [heq]
    exact runs_nodup hread.usable
  · rw [heq, List.length_map, length_product, List.map_map]
    exact hread.count ▸ hread.bounded
  · rw [hdims]
    exact fun d hd => splitAtDot_overrideKey (hread.usable d hd).plain
  · rw [hdims]
    exact overrideKeys_nodup hkeys hread.usable

/-! ## The serialized plan -/

theorem encodable_field {key : String} {value : Json φ} (h : Json.AllEncodable value) :
    (field key value).1.Encodable ∧ Json.AllEncodable (field key value).2 :=
  ⟨PyStr.encodable_ofList _, h⟩

/-- An object with fields that all have encodings. -/
theorem encodable_obj {fields : List (PyStr × Json φ)}
    (h : ∀ f ∈ fields, f.1.Encodable ∧ Json.AllEncodable f.2) : Json.AllEncodable (.obj fields) :=
  .obj (fun f hf => (h f hf).1) fun f hf => (h f hf).2

theorem Usable.encodable {d : SweepDimension φ} (h : Usable d) : Json.AllEncodable d.asdict := by
  apply encodable_obj
  intro f hf
  simp only [List.mem_cons, List.not_mem_nil, or_false] at hf
  rcases hf with rfl | rfl | rfl | rfl | rfl
  · exact encodable_field (.str h.nodeId)
  · exact encodable_field (.str h.widgetName)
  · exact encodable_field (.arr h.values)
  · exact encodable_field (.str (h.grid ▸ PyStr.encodable_ofList _))
  · exact encodable_field (.int _)

theorem Usable.encodable_key {d : SweepDimension φ} (h : Usable d) : (overrideKey d).Encodable := by
  have hdot : PyStr.Encodable [dot] := PyStr.encodable_ofList ['.']
  exact h.nodeId.append (hdot.append h.widgetName)

theorem encodable_runs (husable : ∀ d ∈ dims, Usable d) {c : List (Json φ)}
    (hc : List.Forall₂ (fun v d => v ∈ d.values) c dims) :
    Json.AllEncodable (.obj ((dims.map overrideKey).zip c)) := by
  apply encodable_obj
  induction hc with
  | nil => exact nofun
  | @cons v d c dims hv hc ih =>
    intro f hf
    rcases List.mem_cons.mp hf with rfl | hf
    · have hd := husable d List.mem_cons_self
      exact ⟨hd.encodable_key, hd.values v hv⟩
    · exact ih (fun e he => husable e (List.mem_cons_of_mem d he)) f hf

theorem FullSweep.encodable {params : Json φ} {plan : SweepPlan φ} (h : FullSweep params plan)
    (husable : ∀ d ∈ plan.dimensions, Usable d) : Json.AllEncodable (.arr (plan.runs.map .obj)) := by
  obtain ⟨choices, hruns, hchoices, -, -⟩ := h.combinations
  refine .arr fun j hj => ?_
  obtain ⟨run, hrun, rfl⟩ := List.mem_map.mp hj
  rw [hruns] at hrun
  obtain ⟨c, hc, rfl⟩ := List.mem_map.mp hrun
  exact encodable_runs husable ((hchoices c).mp hc)

/-- Every text of the candidate has been checked, so the whole has an encoding. -/
theorem encodable_candidate {env : Surroundings φ} {params : Json φ} {w : PyStr}
    (h : FullSweep params (candidate env w dims)) (husable : ∀ d ∈ dims, Usable d)
    (hw : w.Encodable) : Json.AllEncodable (candidate env w dims).asdict := by
  have htext := PyStr.encodable_ofList
  apply encodable_obj
  intro f hf
  simp only [List.mem_cons, List.not_mem_nil, or_false] at hf
  rcases hf with rfl | rfl | rfl | rfl | rfl | rfl | rfl | rfl | rfl
  · exact encodable_field (.str (htext _))
  · exact encodable_field (.str hw)
  · refine encodable_field (.arr fun j hj => ?_)
    obtain ⟨d, hd, rfl⟩ := List.mem_map.mp hj
    exact (husable d hd).encodable
  · exact encodable_field (h.encodable husable)
  · exact encodable_field (.float _)
  · exact encodable_field (.str (htext _))
  · exact encodable_field (.int _)
  · exact encodable_field (.int _)
  · refine encodable_field (encodable_obj fun f hf => ?_)
    simp only [candidate, List.map_cons, List.map_nil, List.mem_cons, List.not_mem_nil,
      or_false] at hf
    rcases hf with rfl | rfl | rfl <;> exact ⟨htext _, .str (htext _)⟩

theorem not_fails_serializePlanPayload {payload : Json φ} (h : Json.AllEncodable payload) :
    ¬Fails Raised.Undeclared (serializePlanPayload floats payload) := by
  intro hfails
  rw [serializePlanPayload, fails_ite] at hfails
  rcases hfails with ⟨-, hfails⟩ | ⟨-, hfails⟩
  · exact not_fails_refuse _ hfails
  · exact (fails_sized (not_fails_tooLarge _) fails_ok).mp hfails (h.rawRenderAt 0)

end Grid

/-! ## The planner -/

theorem planned_iff {params : Json φ} {r : Except Raised (SweepPlan φ)} : Planned params r ↔
    ¬Fails Raised.Undeclared r ∧ ∀ plan, r = .ok plan → FullSweep params plan := by
  cases r with
  | error e => simp [Planned]
  | ok plan => simp [Planned]

theorem generate_ok {env : Surroundings φ} {workflow params : Json φ} {plan : SweepPlan φ}
    (h : generate env workflow params = .ok plan) : FullSweep params plan := by
  obtain ⟨w, -, h⟩ := bind_eq_ok h
  obtain ⟨dims, hdims, h⟩ := bind_eq_ok h
  obtain ⟨text, -, h⟩ := bind_eq_ok h
  cases h
  obtain ⟨items, seen, rfl, hne, hread, rfl⟩ := validateSweepDimensions_ok hdims
  exact hread.fullSweep hne rfl rfl

theorem fails_generate {env : Surroundings φ} {workflow params : Json φ} :
    Fails Raised.Undeclared (generate env workflow params) ↔
      OddRequest env.floats workflow params := by
  unfold generate
  simp only [fails_bind, fails_validateWorkflow, fails_validateSweepDimensions, fails_ok, and_false,
    exists_false, or_false, OddRequest]
  refine or_congr_right ?_
  constructor
  · rintro ⟨w, hw, hodd | ⟨dims, hdims, hfails⟩⟩
    · exact ⟨⟨w, hw⟩, hodd⟩
    -- what has been read can be written
    · obtain ⟨items, seen, rfl, hne, hread, rfl⟩ := validateSweepDimensions_ok hdims
      have hfull : FullSweep (.arr items) (candidate env w seen.normalized) :=
        hread.fullSweep hne rfl rfl
      have htexts := encodable_candidate hfull hread.usable (validateWorkflow_ok hw)
      exact absurd hfails (not_fails_serializePlanPayload htexts)
  · rintro ⟨⟨w, hw⟩, hodd⟩
    exact ⟨w, hw, .inl hodd⟩

theorem generate_full_iff (env : Surroundings φ) (workflow params : Json φ) :
    Planned params (generate env workflow params) ↔ ¬OddRequest env.floats workflow params := by
  rw [planned_iff, fails_generate]
  constructor
  · exact And.left
  · intro hodd
    exact ⟨hodd, fun plan hplan => generate_ok hplan⟩

/-- The float `0.0` alone. -/
def zeroFloats : Floats Unit where
  finite _ := true
  isZero _ := true
  integer? _ := some 0
  repr _ := ['0', '.', '0']
  integer_short := by
    rintro x i ⟨⟩
    decide

/-- A workflow with an unpaired surrogate leaves by `UnicodeEncodeError`, whatever the parameters
are. -/
theorem surrogate_workflow_escapes : ¬∀ (env : Surroundings Unit) (workflow params : Json Unit),
    Planned params (generate env workflow params) := by
  intro h
  have hplanned := planned_iff.mp (h ⟨zeroFloats, (), []⟩ (.str [0xD800]) (.arr []))
  exact hplanned.1 (fails_generate.mpr (.inl ⟨[0xD800], rfl, by decide, by decide⟩))

end OpenClaw.ParameterLab
