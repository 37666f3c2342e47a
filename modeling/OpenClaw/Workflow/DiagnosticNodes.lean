import Mathlib.Data.List.Sort
import OpenClaw.Foundation.Checks
import OpenClaw.Foundation.Literals
import OpenClaw.Foundation.PyCanonical
import OpenClaw.Foundation.PyJson

/-!
# Nodes of a workflow for diagnostics

`services/workflow_portability.py`: the nodes of a prompt in the order of its keys, or those of a
saved workflow with the nodes of the subgraphs below their containers. `frames` is how many calls of
`walk`, or of `collect`, may stand on the stack.
-/

namespace OpenClaw.Workflow

open Foundation
set_option autoImplicit false

variable {φ : Type}

abbrev Node (φ : Type) := List (PyStr × Json φ)

def Node.get? (node : Node φ) (key : String) : Option (Json φ) :=
  (node.find? fun f => f.1 = PyStr.ofString key).map Prod.snd

/-- `floatInt` is `int` of a float, without a result for an infinity and for what is no number. -/
structure Interpreter (φ : Type) extends PyInterpreter φ where
  floatInt : φ → Option ℤ

inductive InactiveReason where
  | selfInactive | ancestorInactive

inductive EntrySource where
  | apiPrompt | frontendWorkflow

structure Entry (φ : Type) where
  nodeId : PyStr
  nodeData : Node φ
  classType : Option PyStr
  inputs : Option (Json φ)
  active : Bool
  inactiveReason : Option InactiveReason
  isSubgraphContainer : Bool
  source : EntrySource

def inactiveLitegraphModes : List ℤ := [2, 4]

/-- `int(j)`; `none` is an exception of whichever kind. -/
def intOf (py : Interpreter φ) : Json φ → Option ℤ
  | .bool b => some (if b then 1 else 0)
  | .int i => some i
  | .float x => py.floatInt x
  | .str s => s.chars?.bind PyText.int?
  | _ => none

def nodeClassType (node : Node φ) : Option PyStr :=
  ((node.get? "class_type").bind Json.str?).orElse fun _ => (node.get? "type").bind Json.str?

def nodeIsInactive (py : Interpreter φ) (node : Node φ) : Bool :=
  ((node.get? "mode").bind (intOf py)).any (· ∈ inactiveLitegraphModes)

/-! ## Prompts -/

inductive SortKey where
  | number (n : ℤ)
  | text (points : List ℕ)

def SortKey.le : SortKey → SortKey → Bool
  | .number a, .number b => decide (a ≤ b)
  | .number _, .text _ => true
  | .text _, .number _ => false
  | .text a, .text b => decide (a ≤ b)

/-- A digit need not be a decimal one: `none` is the `ValueError` of `int`. -/
def sortKey (key : PyStr) : Option SortKey :=
  if CodePoints.isDigit key.points then (CodePoints.int? key.points).map .number
  else some (.text key.codePoints)

def iterSortedWorkflowNodes (workflow : Node φ) : Option (List (PyStr × Node φ)) :=
  (workflow.mapM fun item => (sortKey item.1).map fun key => (key, item)).map fun keyed =>
    (keyed.mergeSort fun a b => a.1.le b.1).filterMap fun item =>
      match item.2.2 with
      | .obj node => some (item.2.1, node)
      | _ => none

def apiEntry (py : Interpreter φ) (item : PyStr × Node φ) : Entry φ :=
  let inactive := nodeIsInactive py item.2
  { nodeId := item.1
    nodeData := item.2
    classType := nodeClassType item.2
    inputs := item.2.get? "inputs"
    active := !inactive
    inactiveReason := if inactive then some .selfInactive else none
    isSubgraphContainer := false
    source := .apiPrompt }

def iterApiWorkflowNodes (py : Interpreter φ) (workflow : Node φ) : Option (List (Entry φ)) :=
  (iterSortedWorkflowNodes workflow).map fun nodes => nodes.map (apiEntry py)

/-! ## Saved workflows -/

def definitionId? (definition : Node φ) : Option PyStr := (definition.get? "id").bind Json.str?

def definition? : Json φ → Option (PyStr × Node φ)
  | .obj definition => (definitionId? definition).map fun id => (id, definition)
  | _ => none

/-- One definition of the loop; `descend` is the call below. -/
def collectDef (descend : List (Node φ) → Json φ → Option (List (Node φ))) (result : List (Node φ))
    (rawDef : Json φ) : Option (List (Node φ)) :=
  match definition? rawDef with
  | none => some result
  | some (id, definition) =>
    if result.any fun d => decide (definitionId? d = some id) then some result
    else
      match definition.get? "definitions" with
      | some (.obj nested) =>
        descend (result ++ [definition]) ((Node.get? nested "subgraphs").getD .null)
      | _ => some (result ++ [definition])

/-- The definitions found so far, then those of the list, each with the ones nested in it; `none` is the
`RecursionError` of a call too many. -/
def collect : ℕ → List (Node φ) → Json φ → Option (List (Node φ))
  | 0, _, _ => none
  | frames + 1, result, .arr defs => defs.foldlM (collectDef (collect frames)) result
  | _ + 1, result, _ => some result

def rawSubgraphs (workflow : Node φ) : Json φ :=
  match workflow.get? "definitions" with
  | some (.obj definitions) => (Node.get? definitions "subgraphs").getD (.arr [])
  | _ => .arr []

def collectSubgraphDefs (frames : ℕ) (workflow : Node φ) : Option (List (Node φ)) :=
  collect frames [] (rawSubgraphs workflow)

/-- `subgraph_def_map.get(class_type)`. -/
def subgraphDef? (defs : List (Node φ)) (classType : PyStr) : Option (Node φ) :=
  defs.find? fun d => decide (definitionId? d = some classType)

def childId (parentId id : PyStr) : PyStr :=
  if parentId ≠ [] then parentId ++ PyStr.ofString ":" ++ id else id

/-- A dictionary with an id, and the id below its parent. -/
def identified? (py : Interpreter φ) (parentId : PyStr) : Json φ → Option (Node φ × PyStr)
  | .obj node =>
    match Node.get? node "id" with
    | none => none
    | some .null => none
    | some rawId => some (node, childId parentId (rawId.toStr py.toPyInterpreter))
  | _ => none

/-- The class of a container and the nodes of its definition. -/
def nested? (defs : List (Node φ)) (node : Node φ) : Option (PyStr × List (Json φ)) :=
  (nodeClassType node).bind fun classType =>
    match (subgraphDef? defs classType).bind fun d => d.get? "nodes" with
    | some (.arr nodes) => some (classType, nodes)
    | _ => none

def frontendEntry (py : Interpreter φ) (defs : List (Node φ)) (parentActive : Bool) (node : Node φ)
    (nodeId : PyStr) : Entry φ :=
  let active := parentActive && !nodeIsInactive py node
  { nodeId
    nodeData := node
    classType := nodeClassType node
    inputs := node.get? "inputs"
    active
    inactiveReason :=
      if active then none else if !parentActive then some .ancestorInactive else some .selfInactive
    isSubgraphContainer := ((nodeClassType node).bind (subgraphDef? defs)).isSome
    source := .frontendWorkflow }

/-- One node of the loop; `descend` is the call below. -/
def visit (py : Interpreter φ) (defs : List (Node φ))
    (descend : List (Json φ) → PyStr → Bool → List (PyStr × PyStr) → Option (List (Entry φ)))
    (parentId : PyStr) (parentActive : Bool) (visiting : List (PyStr × PyStr)) (rawNode : Json φ) :
    Option (List (Entry φ)) :=
  match identified? py parentId rawNode with
  | none => some []
  | some (node, nodeId) =>
    let entry := frontendEntry py defs parentActive node nodeId
    match nested? defs node with
    | none => some [entry]
    | some (classType, nodes) =>
      if (classType, nodeId) ∈ visiting then some [entry]
      else (descend nodes nodeId entry.active ((classType, nodeId) :: visiting)).map (entry :: ·)

/-- `none` is the `RecursionError` of a call too many. -/
def walk (py : Interpreter φ) (defs : List (Node φ)) :
    ℕ → List (Json φ) → PyStr → Bool → List (PyStr × PyStr) → Option (List (Entry φ))
  | 0, _, _, _, _ => none
  | frames + 1, nodes, parentId, parentActive, visiting =>
    (nodes.mapM (visit py defs (walk py defs frames) parentId parentActive visiting)).map List.flatten

def iterFrontendWorkflowNodes (py : Interpreter φ) (frames : ℕ) (workflow : Node φ)
    (nodes : List (Json φ)) : Option (List (Entry φ)) :=
  (collectSubgraphDefs frames workflow).bind fun defs => walk py defs frames nodes [] true []

def iterWorkflowDiagnosticNodes (py : Interpreter φ) (frames : ℕ) :
    Json φ → Option (List (Entry φ))
  | .obj workflow =>
    match Node.get? workflow "nodes" with
    | some (.arr nodes) => iterFrontendWorkflowNodes py frames workflow nodes
    | _ => iterApiWorkflowNodes py workflow
  | _ => some []

/-! ## The law -/

variable (py : Interpreter φ)

/-- A node of the list with an id, or one of a definition that a container among them refers to: the
containers it lies in, its id and its data. -/
inductive Occurs (defs : List (Node φ)) : PyStr → List (Json φ) → List (Node φ) → PyStr → Node φ →
    Prop
  | here {parentId nodes rawNode node nodeId} (hmem : rawNode ∈ nodes)
      (hid : identified? py parentId rawNode = some (node, nodeId)) :
      Occurs defs parentId nodes [] nodeId node
  | inside {parentId nodes rawNode container containerId classType inner containers nodeId node}
      (hmem : rawNode ∈ nodes)
      (hid : identified? py parentId rawNode = some (container, containerId))
      (hnested : nested? defs container = some (classType, inner))
      (hinner : Occurs defs containerId inner containers nodeId node) :
      Occurs defs parentId nodes (container :: containers) nodeId node

/-- The nodes of a workflow with the containers they lie in. -/
def NodeOf (frames : ℕ) (workflow : Json φ) (containers : List (Node φ)) (nodeId : PyStr)
    (node : Node φ) : Prop :=
  match workflow with
  | .obj fields =>
    match Node.get? fields "nodes" with
    | some (.arr nodes) => ∃ defs, collectSubgraphDefs frames fields = some defs ∧
        Occurs py defs [] nodes containers nodeId node
    | _ => containers = [] ∧ (nodeId, .obj node) ∈ fields
  | _ => False

/-- There is a list, every node of the workflow occurs in it, and what it marks active is so and lies
in active containers only. -/
structure WalkLaw (frames : ℕ) (workflow : Json φ) (entries : List (Entry φ)) : Prop where
  returned : iterWorkflowDiagnosticNodes py frames workflow = some entries
  covered : ∀ containers nodeId node, NodeOf py frames workflow containers nodeId node →
    ∃ e ∈ entries, e.nodeId = nodeId ∧ e.nodeData = node
  active : ∀ e ∈ entries, ∃ containers, NodeOf py frames workflow containers e.nodeId e.nodeData ∧
    (e.active = true → ∀ n ∈ e.nodeData :: containers, nodeIsInactive py n = false)

/-- The lists of nodes that containers open, one below the other: no class and id of a container comes
twice on the way. -/
inductive Opened (defs : List (Node φ)) (root : List (Json φ)) : List (PyStr × PyStr) → PyStr →
    List (Json φ) → Prop
  | root : Opened defs root [] [] root
  | inside {keys parentId nodes rawNode node nodeId classType inner}
      (houter : Opened defs root keys parentId nodes) (hmem : rawNode ∈ nodes)
      (hid : identified? py parentId rawNode = some (node, nodeId))
      (hnested : nested? defs node = some (classType, inner))
      (hfresh : (classType, nodeId) ∉ keys) :
      Opened defs root ((classType, nodeId) :: keys) nodeId inner

/-- The calls of `collect`, one below the other, with the definitions found when they are made. -/
inductive Entered (raw : Json φ) : ℕ → List (Node φ) → Json φ → Prop
  | root : Entered raw 0 [] raw
  | inside {depth result before rawDef after stack found id definition nested}
      (houter : Entered raw depth result (.arr (before ++ rawDef :: after)))
      (hbefore : collect stack result (.arr before) = some found)
      (hdef : definition? rawDef = some (id, definition))
      (hfresh : (found.any fun d => decide (definitionId? d = some id)) = false)
      (hnested : definition.get? "definitions" = some (.obj nested)) :
      Entered raw (depth + 1) (found ++ [definition]) ((Node.get? nested "subgraphs").getD .null)

/-- Definitions nest, and containers open each other, less deep than the stack goes; in a prompt, every
key of digits is a number. -/
def Fits (frames : ℕ) (workflow : Json φ) : Prop :=
  match workflow with
  | .obj fields =>
    match Node.get? fields "nodes" with
    | some (.arr nodes) =>
      (∀ depth result defs, Entered (rawSubgraphs fields) depth result defs → depth < frames) ∧
        ∀ stack defs, collectSubgraphDefs stack fields = some defs →
          ∀ keys parentId inner, Opened py defs nodes keys parentId inner → keys.length < frames
    | _ => ∀ item ∈ fields, CodePoints.isDigit item.1.points → (CodePoints.int? item.1.points).isSome
  | _ => True

section Collect
variable {raw defs : Json φ} {result found : List (Node φ)} {frames stack depth : ℕ}

theorem collectDef_mono {descend descend' : List (Node φ) → Json φ → Option (List (Node φ))}
    (hdescend : ∀ r d out, descend r d = some out → descend' r d = some out) {rawDef : Json φ}
    (h : collectDef descend result rawDef = some found) :
    collectDef descend' result rawDef = some found := by
  unfold collectDef at h ⊢
  split
  · rename_i hnone
    rw [hnone] at h
    exact h
  · rename_i id definition hdef
    rw [hdef] at h
    dsimp only at h
    split
    · rename_i hseen
      rw [if_pos hseen] at h
      exact h
    · rename_i hfresh
      rw [if_neg hfresh] at h
      split
      · rename_i nested hnested
        rw [hnested] at h
        exact hdescend _ _ _ h
      · rename_i hplain
        split at h
        · rename_i nested hnested
          exact absurd hnested (hplain nested)
        · exact h

/-- A deeper stack collects the same. -/
theorem collect_mono (h : collect frames result defs = some found) (hle : frames ≤ stack) :
    collect stack result defs = some found := by
  induction frames generalizing result defs found stack with
  | zero => cases h
  | succ frames ih =>
    obtain ⟨stack, rfl⟩ : ∃ n, stack = n + 1 := ⟨stack - 1, by omega⟩
    cases defs with
    | arr items =>
      exact foldlM_some_mono (fun r d out hout => collectDef_mono
        (fun r d out hout => ih hout (by omega)) hout) h
    | _ => exact h

/-- Two stacks that are deep enough collect the same. -/
theorem collect_eq {found' : List (Node φ)} (h : collect frames result defs = some found)
    (h' : collect stack result defs = some found') : found = found' := by
  have hmax := collect_mono h (le_max_left frames stack)
  rw [collect_mono h' (le_max_right frames stack)] at hmax
  exact (Option.some.inj hmax).symm

/-- The call that is entered was made: so many frames are left. -/
theorem collect_entered (h : (collect frames [] raw).isSome) (hentered : Entered raw depth result defs) :
    ∃ left, left + depth = frames ∧ (collect left result defs).isSome := by
  induction hentered with
  | root => exact ⟨frames, rfl, h⟩
  | @inside depth result before rawDef after stack found id definition nested _ hbefore hdef hfresh
      hnested ih =>
    obtain ⟨left, hleft, hsome⟩ := ih
    cases left with
    | zero => cases hsome
    | succ left =>
      refine ⟨left, by omega, ?_⟩
      obtain ⟨out, hout⟩ := Option.isSome_iff_exists.mp hsome
      rw [collect, List.foldlM_append] at hout
      obtain ⟨found', hfound, hrest⟩ := Option.bind_eq_some_iff.mp hout
      have hcollected : collect (left + 1) result (.arr before) = some found' := hfound
      have hsame : found' = found := collect_eq hcollected hbefore
      rw [hsame, List.foldlM_cons] at hrest
      obtain ⟨next, hnext, -⟩ := Option.bind_eq_some_iff.mp hrest
      unfold collectDef at hnext
      rw [hdef] at hnext
      dsimp only at hnext
      rw [if_neg (Bool.eq_false_iff.mp hfresh), hnested] at hnext
      exact Option.isSome_iff_exists.mpr ⟨next, hnext⟩

/-- A call returns when none lies as deep as the stack. -/
theorem collect_of_shallow
    (hshallow : ∀ depth result defs, Entered raw depth result defs → depth < frames) {left : ℕ}
    (hentered : Entered raw depth result defs) (hleft : left + depth = frames) :
    (collect left result defs).isSome := by
  induction left generalizing depth result defs with
  | zero =>
    have hlt := hshallow _ _ _ hentered
    omega
  | succ left ih =>
    cases defs with
    | arr items =>
      -- the loop, from what is found before the rest of the list
      have hloop : ∀ after before found, items = before ++ after →
          collect (left + 1) result (.arr before) = some found →
            (after.foldlM (collectDef (collect left)) found).isSome := by
        intro after
        induction after with
        | nil => exact fun _ _ _ _ => rfl
        | cons rawDef after ihafter =>
          intro before found hitems hfound
          have hstep : ∃ next, collectDef (collect left) found rawDef = some next := by
            unfold collectDef
            split
            · exact ⟨_, rfl⟩
            · rename_i id definition hdef
              split
              · exact ⟨_, rfl⟩
              · rename_i hfresh
                split
                · rename_i nested hnested
                  rw [hitems] at hentered
                  have hdeeper := hentered.inside hfound hdef (Bool.eq_false_iff.mpr hfresh) hnested
                  exact Option.isSome_iff_exists.mp (ih hdeeper (by omega))
                · exact ⟨_, rfl⟩
          obtain ⟨next, hnext⟩ := hstep
          rw [List.foldlM_cons, hnext]
          refine ihafter (before ++ [rawDef]) next (by rw [hitems]; simp) ?_
          rw [collect] at hfound ⊢
          rw [List.foldlM_append, hfound]
          change List.foldlM (collectDef (collect left)) found [rawDef] = some next
          rw [List.foldlM_cons, hnext]
          rfl
      exact hloop items [] result rfl rfl
    | _ => rfl

theorem collect_isSome_iff : (collect frames [] raw).isSome ↔
    ∀ depth result defs, Entered raw depth result defs → depth < frames := by
  constructor
  · intro h depth result defs hentered
    obtain ⟨left, hleft, hsome⟩ := collect_entered h hentered
    cases left with
    | zero => cases hsome
    | succ left => omega
  · intro hshallow
    exact collect_of_shallow hshallow .root rfl

end Collect

section Walk
variable {py : Interpreter φ} {defs : List (Node φ)} {parentId : PyStr} {parentActive : Bool}
  {visiting : List (PyStr × PyStr)} {rawNode : Json φ} {nodes root : List (Json φ)} {frames : ℕ}
  {entries total : List (Entry φ)}

theorem visit_cases
    {descend : List (Json φ) → PyStr → Bool → List (PyStr × PyStr) → Option (List (Entry φ))}
    (h : visit py defs descend parentId parentActive visiting rawNode = some entries) :
    identified? py parentId rawNode = none ∧ entries = [] ∨
      ∃ node nodeId, identified? py parentId rawNode = some (node, nodeId) ∧
        (entries = [frontendEntry py defs parentActive node nodeId] ∧
            (∀ classType inner, nested? defs node = some (classType, inner) →
              (classType, nodeId) ∈ visiting) ∨
          ∃ classType inner below, nested? defs node = some (classType, inner) ∧
            (classType, nodeId) ∉ visiting ∧
            descend inner nodeId (parentActive && !nodeIsInactive py node)
              ((classType, nodeId) :: visiting) = some below ∧
            entries = frontendEntry py defs parentActive node nodeId :: below) := by
  unfold visit at h
  cases hid : identified? py parentId rawNode with
  | none =>
    rw [hid] at h
    exact .inl ⟨rfl, (Option.some.inj h).symm⟩
  | some found =>
    obtain ⟨node, nodeId⟩ := found
    refine .inr ⟨node, nodeId, rfl, ?_⟩
    rw [hid] at h
    dsimp only at h
    cases hnested : nested? defs node with
    | none =>
      rw [hnested] at h
      exact .inl ⟨(Option.some.inj h).symm, fun _ _ hsome => by cases hsome⟩
    | some opened =>
      obtain ⟨classType, inner⟩ := opened
      rw [hnested] at h
      dsimp only at h
      split at h
      · rename_i hseen
        refine .inl ⟨(Option.some.inj h).symm, fun _ _ hsome => ?_⟩
        cases hsome
        exact hseen
      · rename_i hfresh
        obtain ⟨below, hbelow, rfl⟩ := Option.map_eq_some_iff.mp h
        exact .inr ⟨classType, inner, below, rfl, hfresh, hbelow, rfl⟩

/-- Each node of the list has its part in what the call returns. -/
theorem visit_of_mem
    (h : walk py defs (frames + 1) nodes parentId parentActive visiting = some entries)
    (hmem : rawNode ∈ nodes) :
    ∃ part ⊆ entries,
      visit py defs (walk py defs frames) parentId parentActive visiting rawNode = some part := by
  obtain ⟨parts, hparts, rfl⟩ := Option.map_eq_some_iff.mp h
  have heach := (mapM_some_iff.mp hparts).flip
  obtain ⟨part, hpart, hvisit⟩ := forall₂_exists_left heach hmem
  exact ⟨part, fun e he => List.mem_flatten.mpr ⟨part, hpart, he⟩, hvisit⟩

/-- What the call returns comes from the nodes of the list. -/
theorem mem_of_visit
    (h : walk py defs (frames + 1) nodes parentId parentActive visiting = some entries)
    {e : Entry φ} (he : e ∈ entries) :
    ∃ rawNode ∈ nodes, ∃ part,
      visit py defs (walk py defs frames) parentId parentActive visiting rawNode = some part ∧
        e ∈ part := by
  obtain ⟨parts, hparts, rfl⟩ := Option.map_eq_some_iff.mp h
  obtain ⟨part, hpart, hmem⟩ := List.mem_flatten.mp he
  obtain ⟨rawNode, hraw, hvisit⟩ :=
    forall₂_exists_left (mapM_some_iff.mp hparts) hpart
  exact ⟨rawNode, hraw, part, hvisit, hmem⟩

/-- What a call returns occurs below its list, and is active only with all that it lies in. -/
theorem walk_sound (h : walk py defs frames nodes parentId parentActive visiting = some entries)
    {e : Entry φ} (he : e ∈ entries) :
    ∃ containers, Occurs py defs parentId nodes containers e.nodeId e.nodeData ∧
      (e.active = true →
        parentActive = true ∧ ∀ n ∈ e.nodeData :: containers, nodeIsInactive py n = false) := by
  induction frames generalizing nodes parentId parentActive visiting entries with
  | zero => cases h
  | succ frames ih =>
    obtain ⟨rawNode, hraw, part, hvisit, hpart⟩ := mem_of_visit h he
    have hself : ∀ node nodeId, identified? py parentId rawNode = some (node, nodeId) →
        e = frontendEntry py defs parentActive node nodeId →
          ∃ containers, Occurs py defs parentId nodes containers e.nodeId e.nodeData ∧
            (e.active = true →
              parentActive = true ∧ ∀ n ∈ e.nodeData :: containers, nodeIsInactive py n = false) := by
      rintro node nodeId hid rfl
      refine ⟨[], .here hraw hid, fun hactive => ?_⟩
      obtain ⟨hparent, hnode⟩ := (Bool.and_eq_true _ _).mp hactive
      refine ⟨hparent, fun n hn => ?_⟩
      rw [List.mem_singleton.mp hn]
      exact (Bool.not_eq_true' _).mp hnode
    rcases visit_cases hvisit with
      ⟨-, rfl⟩ | ⟨node, nodeId, hid, ⟨rfl, -⟩ | ⟨classType, inner, below, hnested, -, hbelow, rfl⟩⟩
    · cases hpart
    · exact hself node nodeId hid (List.mem_singleton.mp hpart)
    · rcases List.mem_cons.mp hpart with heq | hmem
      · exact hself node nodeId hid heq
      · obtain ⟨containers, hoccurs, hactive⟩ := ih hbelow hmem
        refine ⟨node :: containers, .inside hraw hid hnested hoccurs, fun hon => ?_⟩
        obtain ⟨hboth, hall⟩ := hactive hon
        obtain ⟨hparent, hnode⟩ := (Bool.and_eq_true _ _).mp hboth
        refine ⟨hparent, fun n hn => ?_⟩
        rcases List.mem_cons.mp hn with rfl | hn
        · exact hall _ List.mem_cons_self
        · rcases List.mem_cons.mp hn with rfl | hn
          · exact (Bool.not_eq_true' _).mp hnode
          · exact hall n (List.mem_cons_of_mem _ hn)

/-- The call for an opened list was made: so many frames are left, and its part is in the result. -/
theorem walk_opened (h : walk py defs frames root [] true [] = some total)
    {keys : List (PyStr × PyStr)} (hopened : Opened py defs root keys parentId nodes) :
    ∃ left active part, left + keys.length = frames ∧
      walk py defs left nodes parentId active keys = some part ∧ part ⊆ total := by
  induction hopened with
  | root => exact ⟨frames, true, total, rfl, h, fun _ he => he⟩
  | inside houter hmem hid hnested hfresh ih =>
    obtain ⟨left, active, part, hleft, hwalk, hpart⟩ := ih
    cases left with
    | zero => cases hwalk
    | succ left =>
      obtain ⟨entries, hentries, hvisit⟩ := visit_of_mem hwalk hmem
      rcases visit_cases hvisit with
        ⟨hnone, -⟩ | ⟨_, _, hid', ⟨-, hseen⟩ | ⟨_, _, below, hnested', -, hbelow, rfl⟩⟩
      · rw [hid] at hnone
        cases hnone
      · rw [hid] at hid'
        cases hid'
        exact absurd (hseen _ _ hnested) hfresh
      · rw [hid] at hid'
        cases hid'
        rw [hnested] at hnested'
        cases hnested'
        refine ⟨left, _, below, ?_, hbelow, fun e he => ?_⟩
        · rw [List.length_cons]
          omega
        · exact hpart (hentries (List.mem_cons_of_mem _ he))

/-- A container on the way has opened the nodes of its definition. -/
theorem Opened.of_key {keys : List (PyStr × PyStr)} (h : Opened py defs root keys parentId nodes)
    {key : PyStr × PyStr} (hkey : key ∈ keys) :
    ∃ keys' node inner, nested? defs node = some (key.1, inner) ∧
      Opened py defs root keys' key.2 inner := by
  induction h with
  | root => cases hkey
  | inside houter hmem hid hnested hfresh ih =>
    rcases List.mem_cons.mp hkey with rfl | hkey
    · exact ⟨_, _, _, hnested, houter.inside hmem hid hnested hfresh⟩
    · exact ih hkey

theorem nested?_inner {node node' : Node φ} {classType : PyStr} {inner inner' : List (Json φ)}
    (h : nested? defs node = some (classType, inner))
    (h' : nested? defs node' = some (classType, inner')) : inner = inner' := by
  have hdef : ∀ {n : Node φ} {ns : List (Json φ)}, nested? defs n = some (classType, ns) →
      (subgraphDef? defs classType).bind (fun d => d.get? "nodes") = some (.arr ns) := by
    intro n ns hn
    obtain ⟨t, -, hmatch⟩ := Option.bind_eq_some_iff.mp hn
    split at hmatch
    · rename_i found hfound
      cases hmatch
      exact hfound
    · cases hmatch
  have hsame := (hdef h).symm.trans (hdef h')
  cases hsame
  rfl

/-- Every node below an opened list occurs in the result: a container whose class and id stand on the
way already has its nodes listed there. -/
theorem walk_covers (h : walk py defs frames root [] true [] = some total)
    {containers : List (Node φ)} {nodeId : PyStr} {node : Node φ}
    (hoccurs : Occurs py defs parentId nodes containers nodeId node)
    {keys : List (PyStr × PyStr)} (hopened : Opened py defs root keys parentId nodes) :
    ∃ e ∈ total, e.nodeId = nodeId ∧ e.nodeData = node := by
  induction hoccurs generalizing keys with
  | here hmem hid =>
    obtain ⟨left, active, part, -, hwalk, hpart⟩ := walk_opened h hopened
    cases left with
    | zero => cases hwalk
    | succ left =>
      obtain ⟨entries, hentries, hvisit⟩ := visit_of_mem hwalk hmem
      refine ⟨frontendEntry py defs active _ _, hpart (hentries ?_), rfl, rfl⟩
      rcases visit_cases hvisit with
        ⟨hnone, -⟩ | ⟨_, _, hid', ⟨rfl, -⟩ | ⟨_, _, _, -, -, -, rfl⟩⟩
      · rw [hid] at hnone
        cases hnone
      · rw [hid] at hid'
        cases hid'
        exact List.mem_cons_self
      · rw [hid] at hid'
        cases hid'
        exact List.mem_cons_self
  | @inside _ _ _ container containerId classType inner _ _ _ hmem hid hnested _ ih =>
    by_cases hseen : (classType, containerId) ∈ keys
    · obtain ⟨keys', node', inner', hnested', hopened'⟩ := hopened.of_key hseen
      rw [nested?_inner hnested' hnested] at hopened'
      exact ih hopened'
    · exact ih (hopened.inside hmem hid hnested hseen)

/-- A call returns when no list that is opened lies as deep as the stack. -/
theorem walk_isSome (parentActive : Bool)
    (hshallow : ∀ keys parentId inner, Opened py defs root keys parentId inner →
      keys.length < frames)
    {left : ℕ} {keys : List (PyStr × PyStr)} (hopened : Opened py defs root keys parentId nodes)
    (hleft : left + keys.length = frames) :
    ∃ entries, walk py defs left nodes parentId parentActive keys = some entries := by
  induction left generalizing nodes parentId parentActive keys with
  | zero =>
    have hlt := hshallow _ _ _ hopened
    omega
  | succ left ih =>
    have heach : ∀ rawNode ∈ nodes, ∃ part,
        visit py defs (walk py defs left) parentId parentActive keys rawNode = some part ∧ True := by
      intro rawNode hmem
      unfold visit
      cases hid : identified? py parentId rawNode with
      | none => exact ⟨_, rfl, trivial⟩
      | some found =>
        obtain ⟨node, nodeId⟩ := found
        dsimp only
        cases hnested : nested? defs node with
        | none => exact ⟨_, rfl, trivial⟩
        | some opened =>
          obtain ⟨classType, inner⟩ := opened
          dsimp only
          split
          · exact ⟨_, rfl, trivial⟩
          · rename_i hfresh
            have hdeeper := hopened.inside hmem hid hnested hfresh
            obtain ⟨below, hbelow⟩ := ih
              (frontendEntry py defs parentActive node nodeId).active hdeeper (by
                rw [List.length_cons]
                omega)
            exact ⟨_, by rw [hbelow]; rfl, trivial⟩
    obtain ⟨parts, hparts, -⟩ := mapM_some_of_forall heach
    exact ⟨parts.flatten, by rw [walk, hparts]; rfl⟩

end Walk

section Prompt
variable {py : Interpreter φ} {workflow : Node φ}

theorem sortKey_isSome_iff {key : PyStr} : (sortKey key).isSome ↔
    (CodePoints.isDigit key.points → (CodePoints.int? key.points).isSome) := by
  unfold sortKey
  split
  · rename_i h
    simp [h]
  · rename_i h
    simp [h]

theorem iterSortedWorkflowNodes_isSome_iff :
    (iterSortedWorkflowNodes workflow).isSome ↔
      ∀ item ∈ workflow, CodePoints.isDigit item.1.points → (CodePoints.int? item.1.points).isSome := by
  unfold iterSortedWorkflowNodes
  rw [Option.isSome_map]
  constructor
  · intro h item hitem
    obtain ⟨keyed, hkeyed⟩ := Option.isSome_iff_exists.mp h
    obtain ⟨pair, -, hpair⟩ := forall₂_exists_left (mapM_some_iff.mp hkeyed).flip hitem
    obtain ⟨key, hkey, -⟩ := Option.map_eq_some_iff.mp hpair
    exact sortKey_isSome_iff.mp (Option.isSome_iff_exists.mpr ⟨key, hkey⟩)
  · intro h
    have heach : ∀ item ∈ workflow, ∃ pair,
        (sortKey item.1).map (fun key => (key, item)) = some pair ∧ True := by
      intro item hitem
      obtain ⟨key, hkey⟩ := Option.isSome_iff_exists.mp (sortKey_isSome_iff.mpr (h item hitem))
      exact ⟨(key, item), by rw [hkey]; rfl, trivial⟩
    obtain ⟨keyed, hkeyed, -⟩ := mapM_some_of_forall heach
    exact Option.isSome_iff_exists.mpr ⟨keyed, hkeyed⟩

/-- The nodes are the dictionaries of the prompt under their keys. -/
theorem mem_iterSortedWorkflowNodes {nodes : List (PyStr × Node φ)}
    (h : iterSortedWorkflowNodes workflow = some nodes) {nodeId : PyStr} {node : Node φ} :
    (nodeId, node) ∈ nodes ↔ (nodeId, .obj node) ∈ workflow := by
  obtain ⟨keyed, hkeyed, rfl⟩ := Option.map_eq_some_iff.mp h
  have heach := mapM_some_iff.mp hkeyed
  rw [List.mem_filterMap]
  constructor
  · rintro ⟨pair, hpair, hnode⟩
    rw [List.mem_mergeSort] at hpair
    obtain ⟨item, hitem, hkey⟩ := forall₂_exists_left heach hpair
    obtain ⟨key, -, rfl⟩ := Option.map_eq_some_iff.mp hkey
    dsimp only at hnode
    split at hnode
    · rename_i found hfound
      cases hnode
      rw [← hfound]
      exact hitem
    · cases hnode
  · intro hitem
    obtain ⟨pair, hpair, hkey⟩ := forall₂_exists_left heach.flip hitem
    obtain ⟨key, -, rfl⟩ := Option.map_eq_some_iff.mp hkey
    exact ⟨_, List.mem_mergeSort.mpr hpair, rfl⟩

end Prompt

section Law
variable {py : Interpreter φ} {frames : ℕ} {workflow : Node φ} {nodes : List (Json φ)}

theorem frontend_law_iff (hnodes : workflow.get? "nodes" = some (.arr nodes)) :
    (∃ entries, WalkLaw py frames (.obj workflow) entries) ↔
      (∀ depth result defs, Entered (rawSubgraphs workflow) depth result defs → depth < frames) ∧
        ∀ stack defs, collectSubgraphDefs stack workflow = some defs →
          ∀ keys parentId inner, Opened py defs nodes keys parentId inner → keys.length < frames := by
  have hiter : iterWorkflowDiagnosticNodes py frames (.obj workflow) =
      (collectSubgraphDefs frames workflow).bind fun defs => walk py defs frames nodes [] true [] := by
    rw [iterWorkflowDiagnosticNodes, hnodes]
    rfl
  have hnode : ∀ containers nodeId node,
      NodeOf py frames (.obj workflow) containers nodeId node ↔
        ∃ defs, collectSubgraphDefs frames workflow = some defs ∧
          Occurs py defs [] nodes containers nodeId node := by
    intro containers nodeId node
    rw [NodeOf, hnodes]
  constructor
  · rintro ⟨entries, hlaw⟩
    have hreturned := hlaw.returned
    rw [hiter] at hreturned
    obtain ⟨defs, hdefs, hwalk⟩ := Option.bind_eq_some_iff.mp hreturned
    refine ⟨collect_isSome_iff.mp (Option.isSome_iff_exists.mpr ⟨defs, hdefs⟩),
      fun stack defs' hdefs' keys parentId inner hopened => ?_⟩
    rw [collect_eq hdefs' hdefs] at hopened
    obtain ⟨left, active, part, hleft, hpart, -⟩ := walk_opened hwalk hopened
    cases left with
    | zero => cases hpart
    | succ left => omega
  · rintro ⟨hcollect, hshallow⟩
    obtain ⟨defs, hdefs⟩ := Option.isSome_iff_exists.mp (collect_isSome_iff.mpr hcollect)
    obtain ⟨entries, hwalk⟩ := walk_isSome true (hshallow frames defs hdefs) .root rfl
    change collectSubgraphDefs frames workflow = some defs at hdefs
    refine ⟨entries, by rw [hiter, hdefs]; exact hwalk, ?_, ?_⟩
    · intro containers nodeId node h
      obtain ⟨defs', hdefs', hoccurs⟩ := (hnode _ _ _).mp h
      rw [hdefs] at hdefs'
      cases hdefs'
      exact walk_covers hwalk hoccurs .root
    · intro e he
      obtain ⟨containers, hoccurs, hactive⟩ := walk_sound hwalk he
      exact ⟨containers, (hnode _ _ _).mpr ⟨defs, hdefs, hoccurs⟩, fun h => (hactive h).2⟩

theorem prompt_law_iff (hnodes : ∀ nodes, workflow.get? "nodes" ≠ some (.arr nodes)) :
    (∃ entries, WalkLaw py frames (.obj workflow) entries) ↔
      ∀ item ∈ workflow, CodePoints.isDigit item.1.points →
        (CodePoints.int? item.1.points).isSome := by
  have hiter : iterWorkflowDiagnosticNodes py frames (.obj workflow) =
      iterApiWorkflowNodes py workflow := by
    rw [iterWorkflowDiagnosticNodes]
    split
    · rename_i hsome
      exact absurd hsome (hnodes _)
    · rfl
  have hnode : ∀ containers nodeId node,
      NodeOf py frames (.obj workflow) containers nodeId node ↔
        containers = [] ∧ (nodeId, .obj node) ∈ workflow := by
    intro containers nodeId node
    rw [NodeOf]
    split
    · rename_i hsome
      exact absurd hsome (hnodes _)
    · rfl
  rw [← iterSortedWorkflowNodes_isSome_iff]
  constructor
  · rintro ⟨entries, hlaw⟩
    have hreturned := hlaw.returned
    rw [hiter] at hreturned
    obtain ⟨nodes, hsorted, -⟩ := Option.map_eq_some_iff.mp hreturned
    rw [hsorted]
    rfl
  · intro h
    obtain ⟨sorted, hsorted⟩ := Option.isSome_iff_exists.mp h
    refine ⟨sorted.map (apiEntry py), by rw [hiter, iterApiWorkflowNodes, hsorted]; rfl, ?_, ?_⟩
    · intro containers nodeId node h
      obtain ⟨-, hmem⟩ := (hnode _ _ _).mp h
      exact ⟨apiEntry py (nodeId, node),
        List.mem_map_of_mem ((mem_iterSortedWorkflowNodes hsorted).mpr hmem), rfl, rfl⟩
    · intro e he
      obtain ⟨item, hitem, rfl⟩ := List.mem_map.mp he
      refine ⟨[], (hnode _ _ _).mpr ⟨rfl, (mem_iterSortedWorkflowNodes hsorted).mp hitem⟩, ?_⟩
      intro hactive n hn
      rw [List.mem_singleton.mp hn]
      exact (Bool.not_eq_true' _).mp hactive

end Law

/-- The nodes are all listed, and marked active rightly, exactly when nothing lies deeper than the
stack goes and every key of digits is a number. -/
theorem diagnostic_nodes_iff (py : Interpreter φ) (frames : ℕ) (workflow : Json φ) :
    (∃ entries, WalkLaw py frames workflow entries) ↔ Fits py frames workflow := by
  have hnone : (∃ entries, iterWorkflowDiagnosticNodes py frames workflow = some entries ∧
      entries = [] ∧ ∀ containers nodeId node,
        ¬ NodeOf py frames workflow containers nodeId node) →
      ∃ entries, WalkLaw py frames workflow entries := by
    rintro ⟨entries, hreturned, rfl, hno⟩
    exact ⟨[], hreturned, fun _ _ _ h => absurd h (hno _ _ _), fun e he => by cases he⟩
  cases workflow with
  | obj fields =>
    by_cases hnodes : ∃ nodes, Node.get? fields "nodes" = some (.arr nodes)
    · obtain ⟨nodes, hnodes⟩ := hnodes
      rw [frontend_law_iff hnodes, Fits, hnodes]
    · have hno : ∀ nodes, Node.get? fields "nodes" ≠ some (.arr nodes) := fun nodes h =>
        hnodes ⟨nodes, h⟩
      rw [prompt_law_iff hno, Fits]
      split
      · rename_i hsome
        exact absurd hsome (hno _)
      · rfl
  | _ => exact iff_of_true (hnone ⟨[], rfl, rfl, fun _ _ _ h => h⟩) trivial

/-! ## A definition inside itself -/

/-- A node `1` of the class `A`. -/
def selfNode : Node Empty :=
  [(PyStr.ofString "id", .int 1), (PyStr.ofString "type", .str (PyStr.ofString "A"))]

/-- The definition `A` has a node of the class `A`. -/
def selfDefinition : Node Empty :=
  [(PyStr.ofString "id", .str (PyStr.ofString "A")), (PyStr.ofString "nodes", .arr [.obj selfNode])]

def selfWorkflow : Json Empty :=
  .obj [(PyStr.ofString "nodes", .arr [.obj selfNode]),
    (PyStr.ofString "definitions", .obj [(PyStr.ofString "subgraphs", .arr [.obj selfDefinition])])]

def noFloats : Interpreter Empty where
  floatTruthy := Empty.elim
  floatStr := Empty.elim
  containerStr := fun _ => []
  lower := id
  floatInt := Empty.elim

/-- The id below each container is a longer one, so that no key comes twice. -/
theorem walk_selfNode (frames : ℕ) (parentId : PyStr) (active : Bool)
    (visiting : List (PyStr × PyStr)) (h : ∀ key ∈ visiting, key.2.length ≤ parentId.length) :
    walk noFloats [selfDefinition] frames [.obj selfNode] parentId active visiting = none := by
  induction frames generalizing parentId active visiting with
  | zero => rfl
  | succ frames ih =>
    have hid : identified? noFloats parentId (.obj selfNode) =
        some (selfNode, childId parentId (PyStr.ofString "1")) := rfl
    have hnested : nested? [selfDefinition] selfNode =
        some (PyStr.ofString "A", [.obj selfNode]) := rfl
    have hlonger : parentId.length < (childId parentId (PyStr.ofString "1")).length := by
      unfold childId
      split
      · rw [List.length_append, List.length_append]
        have hcolon : 0 < (PyStr.ofString ":").length := by decide
        omega
      · rename_i hempty
        rw [not_not.mp hempty]
        decide
    have hfresh : (PyStr.ofString "A", childId parentId (PyStr.ofString "1")) ∉ visiting := by
      intro hmem
      have hle : (childId parentId (PyStr.ofString "1")).length ≤ parentId.length := h _ hmem
      omega
    have hbelow := ih (childId parentId (PyStr.ofString "1"))
      (frontendEntry noFloats [selfDefinition] active selfNode
        (childId parentId (PyStr.ofString "1"))).active
      ((PyStr.ofString "A", childId parentId (PyStr.ofString "1")) :: visiting) (by
        intro key hkey
        rcases List.mem_cons.mp hkey with rfl | hkey
        · exact le_rfl
        · exact (h key hkey).trans hlonger.le)
    have hvisit : visit noFloats [selfDefinition] (walk noFloats [selfDefinition] frames) parentId
        active visiting (.obj selfNode) = none := by
      unfold visit
      rw [hid]
      dsimp only
      rw [hnested]
      dsimp only
      rw [if_neg hfresh, hbelow]
      rfl
    rw [walk, List.mapM_cons, hvisit]
    rfl

/-- However deep the stack goes, the walk does not come back. -/
theorem self_nested_never_ends :
    (¬ ∃ frames, iterWorkflowDiagnosticNodes noFloats frames selfWorkflow ≠ none) ∧
      ¬ ∃ frames entries, WalkLaw noFloats frames selfWorkflow entries := by
  have hnone (frames : ℕ) : iterWorkflowDiagnosticNodes noFloats frames selfWorkflow = none := by
    cases frames with
    | zero => rfl
    | succ frames =>
      have hdefs : collectSubgraphDefs (frames + 1)
          [(PyStr.ofString "nodes", .arr [.obj selfNode]),
            (PyStr.ofString "definitions",
              .obj [(PyStr.ofString "subgraphs", .arr [.obj selfDefinition])])] =
            some [selfDefinition] := rfl
      have hwalk := walk_selfNode (frames + 1) [] true [] fun key hkey => by cases hkey
      have hiter : iterWorkflowDiagnosticNodes noFloats (frames + 1) selfWorkflow =
          (collectSubgraphDefs (frames + 1)
            [(PyStr.ofString "nodes", .arr [.obj selfNode]),
              (PyStr.ofString "definitions",
                .obj [(PyStr.ofString "subgraphs", .arr [.obj selfDefinition])])]).bind
            fun defs => walk noFloats defs (frames + 1) [.obj selfNode] [] true [] := rfl
      rw [hiter, hdefs]
      exact hwalk
  refine ⟨fun ⟨frames, hsome⟩ => hsome (hnone frames), ?_⟩
  rintro ⟨frames, entries, hlaw⟩
  have hreturned := hlaw.returned
  rw [hnone] at hreturned
  cases hreturned

end OpenClaw.Workflow
