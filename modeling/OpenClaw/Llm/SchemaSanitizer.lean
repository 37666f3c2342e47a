import OpenClaw.Foundation.JsonSorted
import OpenClaw.Foundation.ObjectHeap
import OpenClaw.Foundation.PyJson
import OpenClaw.Foundation.TextBytes

/-!
# Tool schemas that are sanitised

`sanitize_json_schema` and `sanitize_tools` of `services/schema_sanitizer.py`. A schema is followed
through its positions: the values below `properties`, `items`, `additionalProperties` and the
combinators. What is sanitised is settled: each of its entries comes out of the sanitiser as it is,
but for an empty schema in the last position, which becomes a closed object when it is read again.
-/

namespace OpenClaw.Llm.Schema

open Foundation Foundation.Json
set_option autoImplicit false

variable {φ : Type}

def maxDepth : ℕ := 10
def maxProperties : ℕ := 200
def maxItems : ℕ := 200
def maxStringLength : ℕ := 10000
def maxSchemaBytes : ℕ := 256000

def stripKeywords : List PyStr :=
  ["patternProperties", "dependentSchemas", "unevaluatedProperties", "unevaluatedItems", "$id",
    "$schema", "$defs", "definitions"].map PyStr.ofString

/-- How a key is treated. -/
inductive Keyword where
  | type | properties | items | combinator | enum | required | additionalProperties | description
  | constraint
  deriving DecidableEq

def keywords : List (PyStr × Keyword) :=
  [("type", .type), ("properties", .properties), ("items", .items), ("anyOf", .combinator),
    ("oneOf", .combinator), ("allOf", .combinator), ("enum", .enum), ("required", .required),
    ("additionalProperties", .additionalProperties), ("description", .description),
    ("title", .constraint), ("default", .constraint), ("const", .constraint),
    ("format", .constraint), ("pattern", .constraint), ("minimum", .constraint),
    ("maximum", .constraint), ("minLength", .constraint), ("maxLength", .constraint),
    ("minItems", .constraint), ("maxItems", .constraint), ("minProperties", .constraint),
    ("maxProperties", .constraint), ("multipleOf", .constraint),
    ("exclusiveMinimum", .constraint), ("exclusiveMaximum", .constraint)].map
      fun k => (PyStr.ofString k.1, k.2)

def keyword? (key : PyStr) : Option Keyword := under? key keywords

def typeKey : PyStr := PyStr.ofString "type"
def additionalKey : PyStr := PyStr.ofString "additionalProperties"
def objectName : PyStr := PyStr.ofString "object"

/-! ## Values -/

mutual

/-- `_sanitize_primitive`. -/
def sanitizePrimitive : Json φ → Json φ
  | .str s => .str (s.takePoints maxStringLength)
  | .arr items => .arr ((primitiveItems items).take 100)
  | .obj fields => .obj ((sortFields (primitiveFields fields)).take 50)
  | j => j

def primitiveItems : List (Json φ) → List (Json φ)
  | [] => []
  | j :: items => sanitizePrimitive j :: primitiveItems items

def primitiveFields : List (PyStr × Json φ) → List (PyStr × Json φ)
  | [] => []
  | (k, j) :: fields => (k, sanitizePrimitive j) :: primitiveFields fields

end

def isStr : Json φ → Bool
  | .str _ => true
  | _ => false

/-- The code points of a string, by which strings are ordered. -/
def strPoints : Json φ → List ℕ
  | .str s => s.codePoints
  | _ => []

/-- What a key that is kept gets as its value; the schemas below go through `inner`. -/
def sanitizeValue (inner : Json φ → Json φ) : Keyword → Json φ → Option (Json φ)
  | .type, .str s => some (.str s)
  | .type, .arr items => some (.arr ((items.filter isStr).take 5))
  | .properties, .obj props =>
    some (.obj (((sortFields props).take maxProperties).map fun p => (p.1, inner p.2)))
  | .items, .obj fields => some (inner (.obj fields))
  | .items, .arr items => some (.arr ((items.take maxItems).map inner))
  | .combinator, .arr items => some (.arr ((items.take 10).map inner))
  | .enum, .arr items => some (.arr ((items.take 100).map sanitizePrimitive))
  | .required, .arr items =>
    some (.arr (sortedBy strPoints ((items.filter isStr).take maxProperties)))
  | .additionalProperties, .bool b => some (.bool b)
  | .additionalProperties, .obj fields => some (inner (.obj fields))
  | .description, .str s => some (.str (s.takePoints maxStringLength))
  | .constraint, value => some (sanitizePrimitive value)
  | _, _ => none

/-! ## Schemas -/

def closedObject : Json φ :=
  .obj [(typeKey, .str objectName), (additionalKey, .bool false)]

/-- What an entry puts into the result. Too deep down, the first alternative of a combinator is
merged into the schema instead. -/
def patch (inner : Json φ → Json φ) (shallow : Bool) (e : PyStr × Json φ) :
    List (PyStr × Json φ) :=
  if e.1 ∈ stripKeywords then []
  else
    match keyword? e.1 with
    | none => []
    | some kw =>
      if kw = .combinator ∧ shallow = false then
        match e.2 with
        | .arr (first :: _) =>
          match inner first with
          | .obj fields => fields
          | _ => []
        | _ => []
      else ((sanitizeValue inner kw e.2).map (e.1, ·)).toList

/-- `result.get("type") == "object"`. -/
def typeIsObject (fields : List (PyStr × Json φ)) : Bool :=
  match under? typeKey fields with
  | some (.str s) => decide (s = objectName)
  | _ => false

/-- `additionalProperties` is false by default. -/
def close (result : List (PyStr × Json φ)) : List (PyStr × Json φ) :=
  if typeIsObject result ∧ (under? additionalKey result).isNone then
    result ++ [(additionalKey, .bool false)]
  else result

def resultOf (rows : List (PyStr × Json φ)) : List (PyStr × Json φ) :=
  (Table.ofRows rows : Table (Prod.fst : PyStr × Json φ → PyStr)).rows

/-- `sanitize_json_schema` with so many levels left. A combinator is kept at
`current_depth <= MAX_DEPTH - 3`. -/
def sanitizeAt : ℕ → Json φ → Json φ
  | 0, .obj _ => closedObject
  | n + 1, .obj fields =>
    .obj (close (resultOf ((sortFields fields).flatMap
      (patch (sanitizeAt n) (decide (3 ≤ n + 1))))))
  | _, _ => .obj []

def sanitizeJsonSchema (schema : Json φ) : Json φ := sanitizeAt maxDepth schema

/-! ## Tools -/

section Tools
variable (py : PyInterpreter φ) (repr : φ → List Char)

/-- `str(fields[name])[:n]` under the same name. -/
def clipped (fields : List (PyStr × Json φ)) (name : String) (n : ℕ) : List (PyStr × Json φ) :=
  match under? (PyStr.ofString name) fields with
  | some value => [(PyStr.ofString name, .str ((value.toStr py).takePoints n))]
  | none => []

def sanitizeFunction (func : List (PyStr × Json φ)) : List (PyStr × Json φ) :=
  clipped py func "name" 100 ++ clipped py func "description" maxStringLength ++
    match under? (PyStr.ofString "parameters") func with
    | some (.obj schema) => [(PyStr.ofString "parameters", sanitizeJsonSchema (.obj schema))]
    | _ => []

def sanitizeTool (tool : List (PyStr × Json φ)) : List (PyStr × Json φ) :=
  clipped py tool "type" 50 ++
    match under? (PyStr.ofString "function") tool with
    | some (.obj func) => [(PyStr.ofString "function", .obj (sanitizeFunction py func))]
    | _ => []

/-- `len(json.dumps(result, ensure_ascii=False, ..).encode("utf-8"))`; `none` is the
`UnicodeEncodeError`. -/
def toolBytes (result : List (PyStr × Json φ)) : Option ℕ :=
  ((Json.obj result).rawDumps repr).chars?.map byteSize

/-- The description of the function cut to 500 characters, where it has one. -/
def shortenDescription (result : List (PyStr × Json φ)) : Option (List (PyStr × Json φ)) :=
  match under? (PyStr.ofString "function") result with
  | some (.obj func) =>
    match under? (PyStr.ofString "description") func with
    | some (.str s) =>
      some (replaceRow Prod.fst (PyStr.ofString "function", .obj (replaceRow Prod.fst
        (PyStr.ofString "description", .str (s.takePoints 500)) func)) result)
    | _ => none
  | _ => none

/-- The tools so far and their bytes. -/
structure Budget (φ : Type) where
  totalBytes : ℕ := 0
  sanitized : List (List (PyStr × Json φ)) := []

def Budget.add (b : Budget φ) (result : List (PyStr × Json φ)) (bytes : ℕ) : Budget φ :=
  ⟨b.totalBytes + bytes, b.sanitized ++ [result]⟩

/-- A tool that does not fit is tried again with a shorter description, and then left out. -/
def addTool (b : Budget φ) : Json φ → Option (Budget φ)
  | .obj tool => do
    let result := sanitizeTool py tool
    let bytes ← toolBytes repr result
    if b.totalBytes + bytes ≤ maxSchemaBytes then return b.add result bytes
    else
      match shortenDescription result with
      | none => return b
      | some shorter =>
        let bytes ← toolBytes repr shorter
        if b.totalBytes + bytes ≤ maxSchemaBytes then return b.add shorter bytes else return b
  | _ => some b

/-- `none` is the `UnicodeEncodeError` of a lone surrogate. -/
def sanitizeTools : Json φ → Option (List (List (PyStr × Json φ)))
  | .arr tools => ((tools.take 50).foldlM (addTool py repr) {}).map Budget.sanitized
  | _ => some []

end Tools

/-! ## Positions -/

/-- The schemas in the value of a key. -/
def subs : Keyword → Json φ → List (Json φ)
  | .properties, .obj props => props.map Prod.snd
  | .items, .obj fields => [.obj fields]
  | .items, .arr items => items
  | .combinator, .arr items => items
  | .additionalProperties, .obj fields => [.obj fields]
  | _, _ => []

def subsOf (e : PyStr × Json φ) : List (Json φ) :=
  match keyword? e.1 with
  | some kw => subs kw e.2
  | none => []

def below : Json φ → List (Json φ)
  | .obj fields => fields.flatMap subsOf
  | _ => []

/-- A schema that lies so many positions below another. -/
inductive Position : Json φ → ℕ → Json φ → Prop where
  | root (j : Json φ) : Position j 0 j
  | step {j s t : Json φ} {d : ℕ} : s ∈ below j → Position s d t → Position j (d + 1) t

/-- Only keywords that are handled, and an entry `additionalProperties` for an object. -/
def WellFormed (j : Json φ) : Prop :=
  ∃ fields, j = .obj fields ∧ (∀ e ∈ fields, (keyword? e.1).isSome = true) ∧
    (typeIsObject fields = true → (under? additionalKey fields).isSome = true)

/-! ## Values that are settled -/

theorem primitiveItems_eq (items : List (Json φ)) :
    primitiveItems items = items.map sanitizePrimitive := by
  induction items with
  | nil => rfl
  | cons j items ih => rw [primitiveItems, ih, List.map_cons]

theorem primitiveFields_eq (fields : List (PyStr × Json φ)) :
    primitiveFields fields = fields.map fun f => (f.1, sanitizePrimitive f.2) := by
  induction fields with
  | nil => rfl
  | cons f fields ih =>
    obtain ⟨k, j⟩ := f
    rw [primitiveFields, ih, List.map_cons]

/-- The front of what is sorted is sorted. -/
theorem sortFields_take (n : ℕ) (fields : List (PyStr × Json φ)) :
    sortFields ((sortFields fields).take n) = (sortFields fields).take n :=
  ((sortedBy_pairwise _ fields).sublist (List.take_sublist n _)).insertionSort_eq

theorem sortFields_map (f : Json φ → Json φ) (fields : List (PyStr × Json φ)) :
    sortFields (fields.map fun e => (e.1, f e.2)) =
      (sortFields fields).map fun e => (e.1, f e.2) :=
  (List.map_insertionSort _ _ (fun e : PyStr × Json φ => (e.1, f e.2)) fields
    fun _ _ _ _ => Iff.rfl).symm

theorem sanitizePrimitive_twice (j : Json φ) :
    sanitizePrimitive (sanitizePrimitive j) = sanitizePrimitive j := by
  induction j using Json.induction with
  | null => rfl
  | bool b => rfl
  | int i => rfl
  | float x => rfl
  | str s =>
    rw [sanitizePrimitive, sanitizePrimitive, PyStr.takePoints_takePoints]
  | arr items ih =>
    rw [sanitizePrimitive, sanitizePrimitive, primitiveItems_eq, primitiveItems_eq, List.map_take,
      List.map_map, List.take_take, min_self]
    exact congrArg (fun xs => Json.arr (List.take 100 xs)) (List.map_congr_left ih)
  | obj fields ih =>
    have hmap : (fields.map fun f => (f.1, sanitizePrimitive f.2)).map
        (fun f => (f.1, sanitizePrimitive f.2)) =
          fields.map fun f => (f.1, sanitizePrimitive f.2) := by
      rw [List.map_map]
      exact List.map_congr_left fun f hf => Prod.ext rfl (ih f hf)
    rw [sanitizePrimitive, sanitizePrimitive, primitiveFields_eq, primitiveFields_eq,
      List.map_take, ← sortFields_map, hmap, sortFields_take, List.take_take, min_self]

/-- The schemas in a value replaced. -/
def mapSubs (f : Json φ → Json φ) : Keyword → Json φ → Json φ
  | .properties, .obj props => .obj (props.map fun p => (p.1, f p.2))
  | .items, .obj fields => f (.obj fields)
  | .items, .arr items => .arr (items.map f)
  | .combinator, .arr items => .arr (items.map f)
  | .additionalProperties, .obj fields => f (.obj fields)
  | _, value => value

def IsObj (j : Json φ) : Prop := ∃ fields, j = .obj fields

section Values
variable {f : Json φ → Json φ} {kw : Keyword} {v w : Json φ}

/-- What comes out as it is when nothing below changes has just what is below changed. -/
theorem sanitizeValue_of_settled (h : sanitizeValue id kw v = some v) :
    sanitizeValue f kw v = some (mapSubs f kw v) := by
  cases kw <;> cases v <;> first | exact h | cases h | skip
  case properties.obj props =>
    have hprops : ((sortFields props).take maxProperties).map (fun p => (p.1, id p.2)) = props :=
      Json.obj.inj (Option.some.inj h)
    have hself : (sortFields props).take maxProperties = props := by
      rwa [show (fun p : PyStr × Json φ => (p.1, id p.2)) = id from rfl, List.map_id] at hprops
    rw [sanitizeValue, hself]
    rfl
  case items.arr items =>
    have hself : items.take maxItems = items := by
      have hitems := Json.arr.inj (Option.some.inj h)
      rwa [List.map_id] at hitems
    rw [sanitizeValue, hself]
    rfl
  case items.obj fields => rfl
  case combinator.arr items =>
    have hself : items.take 10 = items := by
      have hitems := Json.arr.inj (Option.some.inj h)
      rwa [List.map_id] at hitems
    rw [sanitizeValue, hself]
    rfl
  case additionalProperties.obj fields => rfl

theorem filter_take_again (p : Json φ → Bool) (n : ℕ) (items : List (Json φ)) :
    (((items.filter p).take n).filter p).take n = (items.filter p).take n := by
  rw [List.filter_eq_self.mpr fun j hj => (List.mem_filter.mp (List.mem_of_mem_take hj)).2,
    List.take_take, min_self]

/-- A value that was kept is kept as it is from then on. -/
theorem settled_of_sanitizeValue (hf : ∀ j, IsObj (f j)) (h : sanitizeValue f kw v = some w) :
    sanitizeValue id kw w = some w ∧ ∀ s ∈ subs kw w, ∃ t, s = f t := by
  have hnone {w : Json φ} (hsubs : subs kw w = []) : ∀ s ∈ subs kw w, ∃ t, s = f t := by
    rw [hsubs]
    exact fun s hs => absurd hs List.not_mem_nil
  cases kw <;> cases v <;> cases h
  case type.str s => exact ⟨rfl, hnone rfl⟩
  case type.arr items =>
    refine ⟨?_, hnone rfl⟩
    rw [sanitizeValue, filter_take_again]
  case properties.obj props =>
    constructor
    · rw [sanitizeValue, sortFields_map, sortFields_take, ← List.map_take, List.take_take, min_self,
        show (fun p : PyStr × Json φ => (p.1, id p.2)) = id from rfl, List.map_id]
    · intro s hs
      rw [subs, List.map_map] at hs
      obtain ⟨p, -, rfl⟩ := List.mem_map.mp hs
      exact ⟨p.2, rfl⟩
  case items.arr items =>
    constructor
    · rw [sanitizeValue, List.map_id, ← List.map_take, List.take_take, min_self]
    · intro s hs
      obtain ⟨j, -, rfl⟩ := List.mem_map.mp hs
      exact ⟨j, rfl⟩
  case items.obj fields =>
    obtain ⟨g, hg⟩ := hf (.obj fields)
    constructor
    · rw [hg]
      rfl
    · intro s hs
      rw [hg] at hs
      exact ⟨.obj fields, (List.mem_singleton.mp hs).trans hg.symm⟩
  case combinator.arr items =>
    constructor
    · rw [sanitizeValue, List.map_id, ← List.map_take, List.take_take, min_self]
    · intro s hs
      obtain ⟨j, -, rfl⟩ := List.mem_map.mp hs
      exact ⟨j, rfl⟩
  case enum.arr items =>
    refine ⟨?_, hnone rfl⟩
    rw [sanitizeValue, ← List.map_take, List.take_take, min_self, List.map_map]
    exact congrArg (some ∘ Json.arr) (List.map_congr_left fun j _ => sanitizePrimitive_twice j)
  case required.arr items =>
    refine ⟨?_, hnone rfl⟩
    have hstr : ∀ j ∈ sortedBy strPoints ((items.filter isStr).take maxProperties),
        isStr j = true :=
      fun j hj => (List.mem_filter.mp (List.mem_of_mem_take ((mem_sortedBy _ _ j).mp hj))).2
    have hlength : (sortedBy strPoints ((items.filter isStr).take maxProperties)).length ≤
        maxProperties := by
      rw [(sortedBy_perm _ _).length_eq]
      exact List.length_take_le _ _
    rw [sanitizeValue, List.filter_eq_self.mpr hstr, List.take_of_length_le hlength,
      sortedBy_sortedBy]
  case additionalProperties.bool b => exact ⟨rfl, hnone rfl⟩
  case additionalProperties.obj fields =>
    obtain ⟨g, hg⟩ := hf (.obj fields)
    constructor
    · rw [hg]
      rfl
    · intro s hs
      rw [hg] at hs
      exact ⟨.obj fields, (List.mem_singleton.mp hs).trans hg.symm⟩
  case description.str s =>
    refine ⟨?_, hnone rfl⟩
    rw [sanitizeValue, PyStr.takePoints_takePoints]
  all_goals
    refine ⟨?_, hnone ?_⟩
    · rw [sanitizeValue, sanitizePrimitive_twice]
    · rfl

theorem mem_subs_mapSubs (hf : ∀ j, IsObj (f j)) {s : Json φ} :
    s ∈ subs kw (mapSubs f kw v) ↔ ∃ t ∈ subs kw v, s = f t := by
  have hnone : (s ∈ ([] : List (Json φ)) ↔ ∃ t ∈ ([] : List (Json φ)), s = f t) := by simp
  cases kw <;> cases v <;> first | exact hnone | skip
  case properties.obj props =>
    rw [mapSubs, subs, subs, List.map_map]
    constructor
    · intro hs
      obtain ⟨p, hp, rfl⟩ := List.mem_map.mp hs
      exact ⟨p.2, List.mem_map_of_mem hp, rfl⟩
    · rintro ⟨t, ht, rfl⟩
      obtain ⟨p, hp, rfl⟩ := List.mem_map.mp ht
      exact List.mem_map.mpr ⟨p, hp, rfl⟩
  case items.arr items => simp [subs, mapSubs, eq_comm]
  case combinator.arr items => simp [subs, mapSubs, eq_comm]
  all_goals
    rename_i fields
    obtain ⟨g, hg⟩ := hf (.obj fields)
    simp [subs, mapSubs, hg]

theorem sortKeys_mapSubs (h : ∀ t ∈ subs kw v, (f t).sortKeys = t.sortKeys) :
    (mapSubs f kw v).sortKeys = v.sortKeys := by
  cases kw <;> cases v <;> first | rfl | skip
  case properties.obj props =>
    rw [mapSubs, sortKeys_obj, sortKeys_obj, List.map_map]
    refine congrArg (fun xs => Json.obj (sortFields xs)) (List.map_congr_left fun p hp => ?_)
    exact Prod.ext rfl (h p.2 (List.mem_map_of_mem hp))
  case items.arr items =>
    rw [mapSubs, sortKeys_arr, sortKeys_arr, List.map_map]
    exact congrArg Json.arr (List.map_congr_left h)
  case combinator.arr items =>
    rw [mapSubs, sortKeys_arr, sortKeys_arr, List.map_map]
    exact congrArg Json.arr (List.map_congr_left h)
  all_goals exact h _ List.mem_cons_self

theorem mem_subs_sortKeys {s : Json φ} :
    s ∈ subs kw v.sortKeys ↔ ∃ t ∈ subs kw v, s = t.sortKeys := by
  have hnone : (s ∈ ([] : List (Json φ)) ↔ ∃ t ∈ ([] : List (Json φ)), s = t.sortKeys) := by simp
  cases v with
  | arr items =>
    rw [sortKeys_arr]
    cases kw <;> first | exact hnone | simp [subs, eq_comm]
  | obj fields =>
    rw [sortKeys_obj]
    cases kw <;> first | exact hnone | skip
    · have hmem : ∀ p, p ∈ sortFields (fields.map sortField) ↔ p ∈ fields.map sortField :=
        mem_sortedBy _ _
      simp only [subs, List.mem_map, hmem, sortField]
      constructor
      · rintro ⟨p, ⟨q, hq, rfl⟩, rfl⟩
        exact ⟨q.2, ⟨q, hq, rfl⟩, rfl⟩
      · rintro ⟨t, ⟨q, hq, rfl⟩, rfl⟩
        exact ⟨_, ⟨q, hq, rfl⟩, rfl⟩
    all_goals simp [subs, sortKeys_obj]
  | _ => cases kw <;> exact hnone

end Values

/-! ## Schemas that are settled -/

/-- An entry that the sanitiser keeps as it is, with schemas below it that have a property. -/
structure Settled (P : Json φ → Prop) (shallow : Prop) (e : PyStr × Json φ) : Prop where
  kept : ∃ kw, keyword? e.1 = some kw ∧ (kw = .combinator → shallow) ∧
    sanitizeValue id kw e.2 = some e.2
  inner : ∀ s ∈ subsOf e, P s

/-- An object-typed schema says something about additional properties. -/
def Guarded (fields : List (PyStr × Json φ)) : Prop :=
  (typeKey, .str objectName) ∈ fields → ∃ v, (additionalKey, v) ∈ fields

/-- What the sanitiser makes of a schema with so many levels left. -/
def Clean : ℕ → Json φ → Prop
  | 0, j => j = closedObject ∨ j = .obj []
  | n + 1, j => ∃ fields, j = .obj fields ∧ (fields.map Prod.fst).Nodup ∧
      (∀ e ∈ fields, Settled (Clean n) (3 ≤ n + 1) e) ∧ Guarded fields

section Cleaning
variable {j s t : Json φ} {n d : ℕ} {fields : List (PyStr × Json φ)} {e : PyStr × Json φ}

theorem Settled.mono {P Q : Json φ → Prop} {p q : Prop} (h : Settled P p e)
    (hPQ : ∀ s, P s → Q s) (hpq : p → q) : Settled Q q e := by
  obtain ⟨kw, hkw, hdeep, hkept⟩ := h.kept
  exact ⟨⟨kw, hkw, fun hcomb => hpq (hdeep hcomb), hkept⟩, fun s hs => hPQ s (h.inner s hs)⟩

theorem keyword_type : keyword? typeKey = some .type := by decide

theorem keyword_additional : keyword? additionalKey = some .additionalProperties := by decide

theorem settled_closed (P : Json φ → Prop) (p : Prop) :
    ∀ e ∈ [(typeKey, Json.str objectName), (additionalKey, Json.bool (φ := φ) false)],
      Settled P p e := by
  intro e he
  rcases List.mem_cons.mp he with rfl | he
  · refine ⟨⟨.type, keyword_type, ?_, rfl⟩, fun s hs => absurd hs List.not_mem_nil⟩
    rintro ⟨⟩
  · rw [List.mem_singleton.mp he]
    refine ⟨⟨.additionalProperties, keyword_additional, ?_, rfl⟩,
      fun s hs => absurd hs List.not_mem_nil⟩
    rintro ⟨⟩

theorem clean_empty (n : ℕ) : Clean n (.obj [] : Json φ) := by
  cases n with
  | zero => exact .inr rfl
  | succ n =>
    exact ⟨[], rfl, List.nodup_nil, fun e he => absurd he List.not_mem_nil,
      fun h => absurd h List.not_mem_nil⟩

theorem Clean.mono (h : Clean n j) : Clean (n + 1) j := by
  induction n generalizing j with
  | zero =>
    rcases h with rfl | rfl
    · have hkeys : [typeKey, additionalKey].Nodup := by decide
      exact ⟨_, rfl, hkeys, settled_closed _ _,
        fun _ => ⟨.bool false, List.mem_cons_of_mem _ List.mem_cons_self⟩⟩
    · exact clean_empty 1
  | succ n ih =>
    obtain ⟨fields, rfl, hnodup, hsettled, hguarded⟩ := h
    exact ⟨fields, rfl, hnodup, fun e he => (hsettled e he).mono (fun s hs => ih hs) (by omega),
      hguarded⟩

theorem Clean.isObj (h : Clean n j) : IsObj j := by
  cases n with
  | zero =>
    rcases h with rfl | rfl
    · exact ⟨_, rfl⟩
    · exact ⟨[], rfl⟩
  | succ n =>
    obtain ⟨fields, rfl, -⟩ := h
    exact ⟨fields, rfl⟩

/-- The entries of a schema, one level up. -/
theorem Clean.settled (h : Clean n (.obj fields)) :
    ∀ e ∈ fields, Settled (Clean n) (3 ≤ n + 1) e := by
  obtain ⟨fields', heq, -, hsettled, -⟩ := h.mono
  cases heq
  exact hsettled

theorem sanitizeAt_isObj (n : ℕ) (j : Json φ) : IsObj (sanitizeAt n j) := by
  cases n <;> cases j <;> exact ⟨_, rfl⟩

theorem under?_of_mem {k : PyStr} {v : Json φ} (hnodup : (fields.map Prod.fst).Nodup)
    (h : (k, v) ∈ fields) : under? k fields = some v := by
  rw [under?, Table.find?_of_nodup hnodup h]
  rfl

theorem under?_isSome_of_mem {k : PyStr} {v : Json φ} (h : (k, v) ∈ fields) :
    (under? k fields).isSome = true := by
  rw [under?, Option.isSome_map, List.find?_isSome]
  exact ⟨(k, v), h, by simp⟩

theorem mem_of_typeIsObject (h : typeIsObject fields = true) :
    (typeKey, .str objectName) ∈ fields := by
  unfold typeIsObject at h
  split at h
  · rename_i s hs
    rw [← of_decide_eq_true h]
    exact mem_of_under? hs
  · cases h

/-- Every row that an entry puts into the result is settled. -/
theorem settled_patch {inner : Json φ → Json φ} (hinner : ∀ j, Clean n (inner j))
    {row : PyStr × Json φ} (h : row ∈ patch inner (decide (3 ≤ n + 1)) e) :
    Settled (Clean n) (3 ≤ n + 1) row := by
  unfold patch at h
  split at h
  · cases h
  split at h
  · cases h
  rename_i kw hkw
  split at h
  · split at h
    · rename_i first rest hlist
      split at h
      · rename_i fields hfirst
        exact (hfirst ▸ hinner first).settled row h
      · cases h
    · cases h
  · rename_i hkind
    obtain ⟨w, hw, rfl⟩ := Option.map_eq_some_iff.mp (Option.mem_toList.mp h)
    obtain ⟨hkept, hsubs⟩ := settled_of_sanitizeValue (fun j => (hinner j).isObj) hw
    refine ⟨⟨kw, hkw, fun hcomb => ?_, hkept⟩, fun s hs => ?_⟩
    · by_contra hdeep
      exact hkind ⟨hcomb, decide_eq_false hdeep⟩
    · simp only [subsOf, hkw] at hs
      obtain ⟨t, rfl⟩ := hsubs s hs
      exact hinner t

theorem nodup_resultOf (rows : List (PyStr × Json φ)) : ((resultOf rows).map Prod.fst).Nodup :=
  (Table.ofRows rows : Table (Prod.fst : PyStr × Json φ → PyStr)).nodup

/-- The result is a schema of the sanitiser's own. -/
theorem clean_close {P : Json φ → Prop} {p : Prop} (hnodup : (fields.map Prod.fst).Nodup)
    (h : ∀ e ∈ fields, Settled P p e) :
    ((close fields).map Prod.fst).Nodup ∧ (∀ e ∈ close fields, Settled P p e) ∧
      Guarded (close fields) := by
  unfold close
  split
  · rename_i hopen
    have hnone := Option.isNone_iff_eq_none.mp hopen.2
    refine ⟨?_, ?_, fun _ => ⟨.bool false, by simp⟩⟩
    · rw [List.map_append, List.nodup_append]
      refine ⟨hnodup, by simp, fun k hk k' hk' heq => ?_⟩
      obtain ⟨e, he, rfl⟩ := List.mem_map.mp hk
      have hkey : e.1 = additionalKey := heq.trans (List.mem_singleton.mp hk')
      have hmem : (additionalKey, e.2) ∈ fields := by
        rw [← hkey]
        exact he
      have hsome := under?_isSome_of_mem hmem
      rw [hnone] at hsome
      cases hsome
    · intro e he
      rcases List.mem_append.mp he with he | he
      · exact h e he
      · exact settled_closed P p e (List.mem_cons_of_mem _ he)
  · rename_i hclosed
    refine ⟨hnodup, h, fun hobject => ?_⟩
    by_contra hnone
    refine hclosed ⟨?_, ?_⟩
    · rw [typeIsObject, under?_of_mem hnodup hobject]
      exact decide_eq_true rfl
    · rw [Option.isNone_iff_eq_none]
      by_contra hsome
      obtain ⟨v, hv⟩ := Option.ne_none_iff_exists'.mp hsome
      exact hnone ⟨v, mem_of_under? hv⟩

theorem clean_sanitizeAt (n : ℕ) (j : Json φ) : Clean n (sanitizeAt n j) := by
  induction n generalizing j with
  | zero => cases j <;> first | exact .inr rfl | exact .inl rfl
  | succ n ih =>
    cases j with
    | obj fields =>
      obtain ⟨hnodup, hsettled, hguarded⟩ := clean_close (P := Clean n) (p := 3 ≤ n + 1)
        (nodup_resultOf ((sortFields fields).flatMap (patch (sanitizeAt n) (decide (3 ≤ n + 1)))))
        (fun e he => by
          obtain ⟨own, -, hrow⟩ := List.mem_flatMap.mp (Table.mem_ofRows he)
          exact settled_patch ih hrow)
      exact ⟨_, rfl, hnodup, hsettled, hguarded⟩
    | _ => exact clean_empty (n + 1)

/-! ## Positions of a schema that is settled -/

theorem mem_below {kw : Keyword} (he : e ∈ fields) (hkw : keyword? e.1 = some kw)
    (ht : t ∈ subs kw e.2) : t ∈ below (.obj fields) := by
  refine List.mem_flatMap.mpr ⟨e, he, ?_⟩
  rw [subsOf, hkw]
  exact ht

theorem of_mem_below (h : t ∈ below (.obj fields)) :
    ∃ e ∈ fields, ∃ kw, keyword? e.1 = some kw ∧ t ∈ subs kw e.2 := by
  obtain ⟨e, he, ht⟩ := List.mem_flatMap.mp h
  rw [subsOf] at ht
  cases hkw : keyword? e.1 with
  | none =>
    rw [hkw] at ht
    cases ht
  | some kw =>
    rw [hkw] at ht
    exact ⟨e, he, kw, hkw, ht⟩

theorem clean_below (h : Clean (n + 1) j) (hs : s ∈ below j) : Clean n s := by
  obtain ⟨fields, rfl, -, hsettled, -⟩ := h
  obtain ⟨e, he, hs⟩ := List.mem_flatMap.mp hs
  exact (hsettled e he).inner s hs

theorem below_of_clean_zero (h : Clean 0 j) : below j = [] := by
  rcases h with rfl | rfl <;> rfl

theorem clean_position (h : Clean n j) (hp : Position j d s) : d ≤ n ∧ Clean (n - d) s := by
  induction hp generalizing n with
  | root j => exact ⟨Nat.zero_le n, h⟩
  | @step j s t d hs _ ih =>
    cases n with
    | zero =>
      rw [below_of_clean_zero h] at hs
      cases hs
    | succ n =>
      obtain ⟨hle, hclean⟩ := ih (clean_below h hs)
      exact ⟨by omega, by rwa [Nat.add_sub_add_right]⟩

theorem wellFormed_of_clean (h : Clean n j) : WellFormed j := by
  obtain ⟨fields, rfl, hnodup, hsettled, hguarded⟩ := h.mono
  refine ⟨fields, rfl, fun e he => ?_, fun hobject => ?_⟩
  · obtain ⟨kw, hkw, -⟩ := (hsettled e he).kept
    rw [hkw]
    rfl
  · obtain ⟨v, hv⟩ := hguarded (mem_of_typeIsObject hobject)
    exact under?_isSome_of_mem hv

/-! ## The second time -/

def againField (f : Json φ → Json φ) (e : PyStr × Json φ) : PyStr × Json φ :=
  match keyword? e.1 with
  | some kw => (e.1, mapSubs f kw e.2)
  | none => e

theorem not_stripped {k : PyStr} {kw : Keyword} (h : keyword? k = some kw) : k ∉ stripKeywords := by
  have hapart : ∀ e ∈ keywords, e.1 ∉ stripKeywords := by decide +kernel
  exact hapart (k, kw) (mem_of_under? h)

theorem patch_of_settled {f : Json φ → Json φ} {P : Json φ → Prop}
    (h : Settled P (3 ≤ n + 1) e) :
    patch f (decide (3 ≤ n + 1)) e = [againField f e] := by
  obtain ⟨kw, hkw, hdeep, hkept⟩ := h.kept
  have hkind : ¬(kw = .combinator ∧ decide (3 ≤ n + 1) = false) :=
    fun hkind => of_decide_eq_false hkind.2 (hdeep hkind.1)
  rw [patch, if_neg (not_stripped hkw), againField, hkw]
  simp only
  rw [if_neg hkind, sanitizeValue_of_settled hkept]
  rfl

theorem fst_againField (f : Json φ → Json φ) (e : PyStr × Json φ) : (againField f e).1 = e.1 := by
  unfold againField
  split <;> rfl

theorem sortFields_againField (f : Json φ → Json φ) (fields : List (PyStr × Json φ)) :
    sortFields (fields.map (againField f)) = (sortFields fields).map (againField f) :=
  (List.map_insertionSort _ _ (againField f) fields fun _ _ _ _ => by
    simp only [fst_againField]).symm

/-- Of a schema that is settled, just the schemas below are sanitised, and its keys sorted. -/
theorem sanitizeAt_clean (h : Clean (n + 1) (.obj fields)) :
    sanitizeAt (n + 1) (.obj fields) =
      .obj (sortFields (fields.map (againField (sanitizeAt n)))) := by
  obtain ⟨fields', heq, hnodup, hsettled, hguarded⟩ := h
  cases heq
  have hrows : (sortFields fields).flatMap (patch (sanitizeAt n) (decide (3 ≤ n + 1))) =
      (sortFields fields).map (againField (sanitizeAt n)) := by
    rw [List.map_eq_flatMap]
    refine List.flatMap_congr fun e he => ?_
    exact patch_of_settled (hsettled e ((mem_sortedBy _ _ e).mp he))
  have hkeys : ((sortFields fields).map (againField (sanitizeAt n))).map Prod.fst =
      (sortFields fields).map Prod.fst := by
    rw [List.map_map]
    exact List.map_congr_left fun e _ => fst_againField _ e
  have hperm : ((sortFields fields).map Prod.fst).Perm (fields.map Prod.fst) :=
    (sortedBy_perm _ _).map Prod.fst
  have hsorted : resultOf ((sortFields fields).map (againField (sanitizeAt n))) =
      (sortFields fields).map (againField (sanitizeAt n)) :=
    Table.rows_ofRows (by rw [hkeys]; exact hperm.nodup_iff.mpr hnodup)
  rw [sanitizeAt, hrows, hsorted, sortFields_againField, close, if_neg]
  rintro ⟨hobject, hnone⟩
  obtain ⟨e, he, heq⟩ := List.mem_map.mp (mem_of_typeIsObject hobject)
  have hkey : e.1 = typeKey := (fst_againField _ e).symm.trans (congrArg Prod.fst heq)
  have hvalue : e.2 = .str objectName := by
    have hkw : keyword? e.1 = some .type := by
      rw [hkey]
      decide
    rw [againField, hkw] at heq
    exact congrArg Prod.snd heq
  have hmem : (typeKey, .str objectName) ∈ fields := by
    rw [← hkey, ← hvalue]
    exact (mem_sortedBy _ _ e).mp he
  obtain ⟨v, hv⟩ := hguarded hmem
  have hsome : (under? additionalKey ((sortFields fields).map (againField (sanitizeAt n)))).isSome =
      true := by
    have hagain : (additionalKey, (againField (sanitizeAt n) (additionalKey, v)).2) ∈
        (sortFields fields).map (againField (sanitizeAt n)) :=
      List.mem_map.mpr ⟨(additionalKey, v), (mem_sortedBy _ _ _).mpr hv,
        Prod.ext (fst_againField _ _) rfl⟩
    exact under?_isSome_of_mem hagain
  rw [Option.isNone_iff_eq_none] at hnone
  rw [hnone] at hsome
  cases hsome

/-- No schema in the last position is empty. -/
def Filled (n : ℕ) (j : Json φ) : Prop := ∀ s, Position j n s → s ≠ .obj []

theorem sortKeys_sanitizeAt (h : Clean n j) (hfilled : Filled n j) :
    (sanitizeAt n j).sortKeys = j.sortKeys := by
  induction n generalizing j with
  | zero =>
    rcases h with rfl | rfl
    · rfl
    · exact absurd rfl (hfilled _ (.root _))
  | succ n ih =>
    obtain ⟨fields, rfl, -⟩ := h.isObj
    have hagain : (fields.map (againField (sanitizeAt n))).map sortField =
        fields.map sortField := by
      rw [List.map_map]
      refine List.map_congr_left fun e he => Prod.ext (fst_againField _ e) ?_
      change (againField (sanitizeAt n) e).2.sortKeys = e.2.sortKeys
      obtain ⟨kw, hkw, -⟩ := (h.settled e he).kept
      rw [againField, hkw]
      refine sortKeys_mapSubs fun t ht => ih ?_ fun s hs => ?_
      · exact clean_below h (mem_below he hkw ht)
      · exact hfilled s (.step (mem_below he hkw ht) hs)
    rw [sanitizeAt_clean h, sortKeys_obj, sortKeys_obj, sortField_sortFields, hagain]
    exact congrArg Json.obj (sortedBy_sortedBy _ _)

theorem below_sortKeys (j : Json φ) : s ∈ below j.sortKeys ↔ ∃ t ∈ below j, s = t.sortKeys := by
  have hnone : (s ∈ ([] : List (Json φ)) ↔ ∃ t ∈ ([] : List (Json φ)), s = t.sortKeys) := by simp
  cases j with
  | obj fields =>
    have hmem : ∀ e, e ∈ sortFields (fields.map sortField) ↔ e ∈ fields.map sortField :=
      mem_sortedBy _ _
    rw [sortKeys_obj]
    constructor
    · intro hs
      obtain ⟨e, he, kw, hkw, hs⟩ := of_mem_below hs
      obtain ⟨own, hown, rfl⟩ := List.mem_map.mp ((hmem e).mp he)
      obtain ⟨t, ht, rfl⟩ := mem_subs_sortKeys.mp hs
      exact ⟨t, mem_below hown hkw ht, rfl⟩
    · rintro ⟨t, ht, rfl⟩
      obtain ⟨e, he, kw, hkw, ht⟩ := of_mem_below ht
      have hsorted : sortField e ∈ sortFields (fields.map sortField) :=
        (hmem _).mpr (List.mem_map_of_mem he)
      exact mem_below hsorted hkw (mem_subs_sortKeys.mpr ⟨t, ht, rfl⟩)
  | _ => exact hnone

theorem position_sortKeys (h : Position j d s) : Position j.sortKeys d s.sortKeys := by
  induction h with
  | root j => exact .root _
  | step hs _ ih => exact .step ((below_sortKeys _).mpr ⟨_, hs, rfl⟩) ih

theorem position_of_sortKeys (h : Position j.sortKeys d s) :
    ∃ t, Position j d t ∧ s = t.sortKeys := by
  generalize hj : j.sortKeys = j' at h
  induction h generalizing j with
  | root j' => exact ⟨j, .root j, hj.symm⟩
  | step hs _ ih =>
    subst hj
    obtain ⟨own, hown, rfl⟩ := (below_sortKeys j).mp hs
    obtain ⟨t, ht, rfl⟩ := ih rfl
    exact ⟨t, .step hown ht, rfl⟩

theorem sortKeys_eq_empty (h : s.sortKeys = .obj []) : s = .obj [] := by
  cases s with
  | obj fields =>
    rw [sortKeys_obj] at h
    have hlength := congrArg List.length (Json.obj.inj h)
    rw [sortFields, (sortedBy_perm _ _).length_eq, List.length_map] at hlength
    rw [List.length_eq_zero_iff.mp hlength]
  | _ => cases h

/-- Read again, a schema has nothing empty in its last position. -/
theorem filled_sanitizeAt (h : Clean n j) : Filled n (sanitizeAt n j) := by
  induction n generalizing j with
  | zero =>
    intro s hs
    obtain ⟨fields, rfl⟩ := h.isObj
    cases hs
    rintro ⟨⟩
  | succ n ih =>
    intro s hs
    obtain ⟨fields, rfl⟩ := h.isObj
    rw [sanitizeAt_clean h] at hs
    cases hs with
    | step hbelow hs =>
      obtain ⟨e, he, kw, hkw, hsub⟩ := of_mem_below hbelow
      obtain ⟨own, hown, rfl⟩ := List.mem_map.mp ((mem_sortedBy _ _ e).mp he)
      rw [fst_againField] at hkw
      rw [againField, hkw] at hsub
      obtain ⟨t, ht, rfl⟩ := (mem_subs_mapSubs (sanitizeAt_isObj n)).mp hsub
      exact ih (clean_below h (mem_below hown hkw ht)) s hs

/-- The order of keys apart, sanitising again changes nothing unless a last position is empty. -/
theorem sanitizeAt_twice_iff (h : Clean n j) :
    (sanitizeAt n j).sortKeys = j.sortKeys ↔ Filled n j := by
  refine ⟨fun heq s hs hempty => ?_, sortKeys_sanitizeAt h⟩
  have hpos := position_sortKeys hs
  rw [← heq] at hpos
  obtain ⟨t, ht, hsort⟩ := position_of_sortKeys hpos
  rw [hempty] at hsort
  exact filled_sanitizeAt h t ht (sortKeys_eq_empty hsort.symm)

end Cleaning

/-! ## The size of all tools -/

section Sizes
variable (py : PyInterpreter φ) (repr : φ → List Char)

def sizeOf (result : List (PyStr × Json φ)) : ℕ := (toolBytes repr result).getD 0

/-- Every tool has an encoding, and the bytes are counted and within the limit. -/
structure Counted (b : Budget φ) : Prop where
  encoded : ∀ result ∈ b.sanitized, (toolBytes repr result).isSome = true
  total : b.totalBytes = (b.sanitized.map (sizeOf repr)).sum
  fits : b.totalBytes ≤ maxSchemaBytes

variable {repr} {b b' : Budget φ} {tool : Json φ} {result : List (PyStr × Json φ)} {bytes : ℕ}

theorem Counted.add (h : Counted repr b) (hbytes : toolBytes repr result = some bytes)
    (hfit : b.totalBytes + bytes ≤ maxSchemaBytes) : Counted repr (b.add result bytes) := by
  refine ⟨fun r hr => ?_, ?_, hfit⟩
  · rcases List.mem_append.mp hr with hr | hr
    · exact h.encoded r hr
    · rw [List.mem_singleton.mp hr, hbytes]
      rfl
  · have hsize : sizeOf repr result = bytes := by
      rw [sizeOf, hbytes]
      rfl
    change b.totalBytes + bytes = ((b.sanitized ++ [result]).map (sizeOf repr)).sum
    rw [List.map_append, List.sum_append, ← h.total, List.map_singleton, List.sum_singleton, hsize]

theorem Counted.addTool (h : Counted repr b) (hadd : addTool py repr b tool = some b') :
    Counted repr b' := by
  cases tool with
  | obj fields =>
    rw [Schema.addTool] at hadd
    obtain ⟨bytes, hbytes, hadd⟩ := Option.bind_eq_some_iff.mp hadd
    split at hadd
    · rename_i hfit
      cases hadd
      exact h.add hbytes hfit
    split at hadd
    · cases hadd
      exact h
    obtain ⟨bytes', hbytes', hadd⟩ := Option.bind_eq_some_iff.mp hadd
    split at hadd
    · rename_i hfit
      cases hadd
      exact h.add hbytes' hfit
    · cases hadd
      exact h
  | _ =>
    cases hadd
    exact h

theorem Counted.foldlM {tools : List (Json φ)} (h : Counted repr b)
    (hrun : tools.foldlM (Schema.addTool py repr) b = some b') : Counted repr b' := by
  induction tools generalizing b with
  | nil =>
    cases hrun
    exact h
  | cons tool tools ih =>
    rw [List.foldlM_cons] at hrun
    obtain ⟨next, hnext, hrun⟩ := Option.bind_eq_some_iff.mp hrun
    exact ih (h.addTool py hnext) hrun

theorem sum_sizes_le {tools : Json φ} {results : List (List (PyStr × Json φ))}
    (h : sanitizeTools py repr tools = some results) :
    (∀ result ∈ results, (toolBytes repr result).isSome = true) ∧
      (results.map (sizeOf repr)).sum ≤ maxSchemaBytes := by
  have hstart : Counted repr ({} : Budget φ) :=
    ⟨fun r hr => absurd hr List.not_mem_nil, rfl, Nat.zero_le _⟩
  cases tools with
  | arr tools =>
    obtain ⟨b, hrun, rfl⟩ := Option.map_eq_some_iff.mp h
    have hb := hstart.foldlM py hrun
    exact ⟨hb.encoded, hb.total ▸ hb.fits⟩
  | _ =>
    cases h
    exact ⟨fun r hr => absurd hr List.not_mem_nil, Nat.zero_le _⟩

end Sizes

/-- A schema that is sanitised is settled, but for what is empty in its last positions; and no list
of tools goes beyond its budget. -/
theorem schema_sanitised (schema tools : Json φ) (py : PyInterpreter φ) (repr : φ → List Char) :
    ((sanitizeJsonSchema (sanitizeJsonSchema schema)).sortKeys =
        (sanitizeJsonSchema schema).sortKeys ↔
      ∀ s, Position (sanitizeJsonSchema schema) maxDepth s → s ≠ .obj []) ∧
    (∀ d s, Position (sanitizeJsonSchema schema) d s → d ≤ maxDepth ∧ WellFormed s) ∧
    ∀ results, sanitizeTools py repr tools = some results →
      (∀ result ∈ results, (toolBytes repr result).isSome = true) ∧
        (results.map (sizeOf repr)).sum ≤ maxSchemaBytes := by
  have hclean := clean_sanitizeAt maxDepth schema
  refine ⟨sanitizeAt_twice_iff hclean, fun d s hs => ?_, fun results h => sum_sizes_le py h⟩
  obtain ⟨hle, hinner⟩ := clean_position hclean hs
  exact ⟨hle, wellFormed_of_clean hinner⟩

/-! ## The last position -/

/-- Lists of items around a number, so that the number stands in the last position. -/
def nestedItems : ℕ → Json Unit
  | 0 => .int 1
  | n + 1 => .obj [(PyStr.ofString "items", .arr [nestedItems n])]

theorem last_position_changes :
    (sanitizeJsonSchema (sanitizeJsonSchema (nestedItems 10))).sortKeys ≠
      (sanitizeJsonSchema (nestedItems 10)).sortKeys := by
  intro h
  have hlength := congrArg (fun j => (j.rawDumps fun _ => []).length) h
  exact absurd hlength (by decide +kernel)

end OpenClaw.Llm.Schema
