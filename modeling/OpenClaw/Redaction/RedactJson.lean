import OpenClaw.Foundation.JsonPrune
import OpenClaw.Foundation.PyValue

/-!
# Redaction of values

`services/redaction.py`: the text patterns, the keys whose values are replaced whole, and the walk
with its depth guard. What the walk hides has no influence on what it returns, and the shape of the
rest stays.
-/

namespace OpenClaw.Redaction

open Foundation

set_option autoImplicit false

/-! ## Text -/

abbrev Text := List CodePoint

def text (s : String) : Text := s.toList.map fun c => Fin.ofNat 0x110000 c.toNat

def maxTextSize : ℕ := 500000

def maxJsonDepth : ℕ := 10

def redacted : Text := text "***REDACTED***"

structure Pattern where
  regex : String
  ignoreCase : Bool
  replacement : Text
  deriving DecidableEq

/-- `r"\1" + REDACTED`. -/
def keepGroup : Text := text "\\1" ++ redacted

def defaultPatterns : List Pattern := [
  ⟨"(Authorization:\\s*Bearer\\s+)[^\\s]+", true, keepGroup⟩,
  ⟨"(Authorization:\\s*Basic\\s+)[^\\s]+", true, keepGroup⟩,
  ⟨"(api[-_]?key:\\s*)[^\\s]+", true, keepGroup⟩,
  ⟨"(x-api-key:\\s*)[^\\s]+", true, keepGroup⟩,
  ⟨"\\bsk-[a-zA-Z0-9]\x7b20,\x7d", true, redacted⟩,
  ⟨"\\bsess-[a-zA-Z0-9]\x7b20,\x7d", true, redacted⟩,
  ⟨"\\borg-[a-zA-Z0-9]\x7b20,\x7d", true, redacted⟩,
  ⟨"\\bsk-ant-[a-zA-Z0-9_-]\x7b20,\x7d", true, redacted⟩,
  ⟨"(\\btoken[\"']?\\s*[:=]\\s*[\"'])[^\"']+", true, keepGroup ++ text "\""⟩,
  ⟨"(\\bsecret[\"']?\\s*[:=]\\s*[\"'])[^\"']+", true, keepGroup ++ text "\""⟩,
  ⟨"(\\bpassword[\"']?\\s*[:=]\\s*[\"'])[^\"']+", true, keepGroup ++ text "\""⟩,
  ⟨"-----BEGIN [A-Z ]+-----[\\s\\S]+?-----END [A-Z ]+-----", true, redacted⟩,
  ⟨"\\beyJ[A-Za-z0-9_-]+\\.[A-Za-z0-9_-]+\\.[A-Za-z0-9_-]+\\b", false, redacted⟩,
  ⟨"\\bxoxb-[a-zA-Z0-9-]+", true, redacted⟩,
  ⟨"\\bxapp-[a-zA-Z0-9-]+", true, redacted⟩,
  ⟨"\\bxoxp-[a-zA-Z0-9-]+", true, redacted⟩,
  ⟨"\\bxoxr-[a-zA-Z0-9-]+", true, redacted⟩]

/-- What the interpreter does: `pattern.sub(replacement, text)`, with `none` for an exception, and
the text of a float. -/
structure Interpreter (φ : Type) where
  sub : Pattern → Text → Option Text
  floatStr : φ → Text

variable {φ : Type} (py : Interpreter φ)

/-- `redact_text`; `none` is the `ValueError` of a text that is too long. A pattern that raises is
left out. -/
def redactText (value : Text) (patterns : Option (List Pattern)) : Option Text :=
  if value = [] then some value
  else if maxTextSize < value.length then none
  else
    let patterns :=
      match patterns with
      | none | some [] => defaultPatterns
      | some (p :: ps) => p :: ps
    some (patterns.foldl (fun result p => (py.sub p result).getD result) value)

/-! ## Keys -/

def sensitiveKeys : List Text :=
  ["api_key", "apikey", "api-key", "secret", "secret_key", "secretkey", "password", "passwd", "pwd",
    "token", "access_token", "refresh_token", "authorization", "auth", "private_key", "privatekey",
    "session_id", "sessionid", "cookie", "cookies"].map text

/-- `str.lower()` as far as the result is ASCII: the capital letters and the Kelvin sign. -/
def lowerPoint (c : CodePoint) : CodePoint :=
  if c.val = 0x212a then 107 else if 65 ≤ c.val ∧ c.val ≤ 90 then c + 32 else c

/-- The key, or `str(key)`. -/
def keyText : PyKey φ → Text
  | .none => text "None"
  | .bool true => text "True"
  | .bool false => text "False"
  | .int i => (Json.showInt i).map fun c => Fin.ofNat 0x110000 c.toNat
  | .float x => py.floatStr x
  | .str s => s

def isSensitive (key : PyKey φ) : Bool := (keyText py key).map lowerPoint ∈ sensitiveKeys

/-! ## The walk -/

section Walk
variable (patterns : Option (List Pattern)) (maxDepth : ℕ)

mutual

def redactJson (depth : ℕ) (value : PyValue φ) : PyValue φ :=
  if maxDepth < depth then .str redacted
  else
    match value with
    | .dict items => .dict (redactFields depth items)
    | .list items => .list (redactItems depth items)
    | .str s =>
      if maxTextSize < s.length then .str redacted
      else .str ((redactText py s patterns).getD redacted)
    | .none => .none
    | .bool b => .bool b
    | .int i => .int i
    | .float x => .float x

def redactItems (depth : ℕ) : List (PyValue φ) → List (PyValue φ)
  | [] => []
  | item :: items => redactJson (depth + 1) item :: redactItems depth items

def redactFields (depth : ℕ) : List (PyKey φ × PyValue φ) → List (PyKey φ × PyValue φ)
  | [] => []
  | (k, v) :: items =>
    (if isSensitive py k then (k, .str redacted) else (k, redactJson (depth + 1) v)) ::
      redactFields depth items

end

variable {py patterns maxDepth} {depth : ℕ}

theorem redactItems_eq (items : List (PyValue φ)) : redactItems py patterns maxDepth depth items =
    items.map (redactJson py patterns maxDepth (depth + 1)) := by
  induction items with
  | nil => rfl
  | cons item items ih => rw [redactItems, ih, List.map_cons]

/-- What becomes of a key and its value. -/
def redactField (py : Interpreter φ) (patterns : Option (List Pattern)) (maxDepth depth : ℕ)
    (f : PyKey φ × PyValue φ) : PyKey φ × PyValue φ :=
  if isSensitive py f.1 then (f.1, .str redacted)
  else (f.1, redactJson py patterns maxDepth (depth + 1) f.2)

theorem redactFields_eq (items : List (PyKey φ × PyValue φ)) :
    redactFields py patterns maxDepth depth items =
      items.map (redactField py patterns maxDepth depth) := by
  induction items with
  | nil => rfl
  | cons f items ih =>
    obtain ⟨k, v⟩ := f
    rw [redactFields, ih, List.map_cons]
    rfl

theorem redactJson_deep (h : maxDepth < depth) (v : PyValue φ) :
    redactJson py patterns maxDepth depth v = .str redacted := by
  cases v <;> rw [redactJson, if_pos h]

theorem redactJson_list (h : depth ≤ maxDepth) (items : List (PyValue φ)) :
    redactJson py patterns maxDepth depth (.list items) =
      .list (items.map (redactJson py patterns maxDepth (depth + 1))) := by
  rw [redactJson, if_neg (Nat.not_lt_of_le h), redactItems_eq]

theorem redactJson_dict (h : depth ≤ maxDepth) (items : List (PyKey φ × PyValue φ)) :
    redactJson py patterns maxDepth depth (.dict items) =
      .dict (items.map (redactField py patterns maxDepth depth)) := by
  rw [redactJson, if_neg (Nat.not_lt_of_le h), redactFields_eq]

end Walk

/-! ## Two runs -/

section TwoRuns
variable (hidden : PyKey φ → Bool) (maxDepth : ℕ)

/-- The values differ only under hidden keys and below the depth limit. -/
inductive Alike : ℕ → PyValue φ → PyValue φ → Prop where
  | deep {depth : ℕ} (h : maxDepth < depth) (v w : PyValue φ) : Alike depth v w
  | same (depth : ℕ) (v : PyValue φ) : Alike depth v v
  | list {depth : ℕ} {xs ys : List (PyValue φ)} (length : xs.length = ys.length)
    (items : ∀ p ∈ xs.zip ys, Alike (depth + 1) p.1 p.2) : Alike depth (.list xs) (.list ys)
  | dict {depth : ℕ} {xs ys : List (PyKey φ × PyValue φ)}
    (keys : xs.map Prod.fst = ys.map Prod.fst)
    (values : ∀ p ∈ xs.zip ys, hidden p.1.1 = false → Alike (depth + 1) p.1.2 p.2.2) :
    Alike depth (.dict xs) (.dict ys)

/-- The second value has the keys and the lengths of the first, down to the depth limit and but for
what stands under exempt keys. -/
inductive SameShape (exempt : PyKey φ → Bool) : ℕ → PyValue φ → PyValue φ → Prop where
  | deep {depth : ℕ} (h : maxDepth < depth) (v w : PyValue φ) : SameShape exempt depth v w
  | same (depth : ℕ) (v : PyValue φ) : SameShape exempt depth v v
  | str (depth : ℕ) (s t : Text) : SameShape exempt depth (.str s) (.str t)
  | list {depth : ℕ} {xs ys : List (PyValue φ)} (length : xs.length = ys.length)
    (items : ∀ p ∈ xs.zip ys, SameShape exempt (depth + 1) p.1 p.2) :
    SameShape exempt depth (.list xs) (.list ys)
  | dict {depth : ℕ} {xs ys : List (PyKey φ × PyValue φ)}
    (keys : xs.map Prod.fst = ys.map Prod.fst)
    (values : ∀ p ∈ xs.zip ys, exempt p.1.1 = false → SameShape exempt (depth + 1) p.1.2 p.2.2) :
    SameShape exempt depth (.dict xs) (.dict ys)

variable {hidden maxDepth}

variable {py : Interpreter φ} {patterns : Option (List Pattern)} {depth : ℕ}

theorem redactField_key (f : PyKey φ × PyValue φ) :
    (redactField py patterns maxDepth depth f).1 = f.1 := by
  unfold redactField
  split <;> rfl

theorem Alike.redactJson_eq {v w : PyValue φ} (h : Alike (isSensitive py) maxDepth depth v w) :
    redactJson py patterns maxDepth depth v = redactJson py patterns maxDepth depth w := by
  induction h with
  | deep h v w => rw [redactJson_deep h, redactJson_deep h]
  | same depth v => rfl
  | @list depth xs ys hlength _ ih =>
    by_cases hdeep : maxDepth < depth
    · rw [redactJson_deep hdeep, redactJson_deep hdeep]
    have hdepth := Nat.le_of_not_lt hdeep
    rw [redactJson_list hdepth, redactJson_list hdepth, map_eq_of_zip hlength ih]
  | @dict depth xs ys hkeys _ ih =>
    by_cases hdeep : maxDepth < depth
    · rw [redactJson_deep hdeep, redactJson_deep hdeep]
    have hdepth := Nat.le_of_not_lt hdeep
    obtain ⟨hlength, hpair⟩ := zip_of_map_eq hkeys
    have hfields : xs.map (redactField py patterns maxDepth depth) =
        ys.map (redactField py patterns maxDepth depth) := by
      refine map_eq_of_zip hlength fun p hp => ?_
      unfold redactField
      rw [← hpair p hp]
      split
      · rfl
      · rename_i hplain
        rw [ih p hp (Bool.eq_false_of_not_eq_true hplain)]
    rw [redactJson_dict hdepth, redactJson_dict hdepth, hfields]

/-- Only what stands under a sensitive key loses its shape above the depth limit. -/
theorem sameShape_redactJson (v : PyValue φ) : ∀ depth, SameShape maxDepth (isSensitive py) depth v
    (redactJson py patterns maxDepth depth v) := by
  have hscalar : ∀ (v : PyValue φ) depth, (depth ≤ maxDepth →
      redactJson py patterns maxDepth depth v = v) → SameShape maxDepth (isSensitive py) depth v
        (redactJson py patterns maxDepth depth v) := by
    intro v depth hv
    by_cases hdeep : maxDepth < depth
    · exact .deep hdeep _ _
    · rw [hv (Nat.le_of_not_lt hdeep)]
      exact .same depth v
  induction v using PyValue.induction with
  | list items ih =>
    intro depth
    by_cases hdeep : maxDepth < depth
    · exact .deep hdeep _ _
    rw [redactJson_list (Nat.le_of_not_lt hdeep)]
    refine .list (by simp) fun p hp => ?_
    obtain ⟨hmem, heq⟩ := mem_zip_map hp
    rw [heq]
    exact ih p.1 hmem (depth + 1)
  | dict items ih =>
    intro depth
    by_cases hdeep : maxDepth < depth
    · exact .deep hdeep _ _
    rw [redactJson_dict (Nat.le_of_not_lt hdeep)]
    refine .dict ?_ fun p hp hplain => ?_
    · rw [List.map_map]
      exact List.map_congr_left fun f _ => (redactField_key f).symm
    · obtain ⟨hmem, heq⟩ := mem_zip_map hp
      rw [heq, redactField, if_neg (by simp [hplain])]
      exact ih p.1 hmem (depth + 1)
  | str s =>
    intro depth
    rw [redactJson]
    split
    · exact .str depth _ _
    split <;> exact .str depth _ _
  | none => exact fun depth => hscalar _ depth fun h => by rw [redactJson, if_neg h.not_gt]
  | bool b => exact fun depth => hscalar _ depth fun h => by rw [redactJson, if_neg h.not_gt]
  | int i => exact fun depth => hscalar _ depth fun h => by rw [redactJson, if_neg h.not_gt]
  | float x => exact fun depth => hscalar _ depth fun h => by rw [redactJson, if_neg h.not_gt]

end TwoRuns

/-- Values that differ only in what is hidden are redacted alike, and what is not under a sensitive
key keeps its shape above the depth limit. -/
theorem redactJson_noninterference (py : Interpreter φ) (patterns : Option (List Pattern))
    (maxDepth depth : ℕ) :
    (∀ v w, Alike (isSensitive py) maxDepth depth v w →
      redactJson py patterns maxDepth depth v = redactJson py patterns maxDepth depth w) ∧
    ∀ v, SameShape maxDepth (isSensitive py) depth v (redactJson py patterns maxDepth depth v) :=
  ⟨fun _ _ h => h.redactJson_eq, fun v => sameShape_redactJson v depth⟩

/-- Texts in which no pattern is found. -/
def quiet : Interpreter Unit where
  sub _ t := some t
  floatStr _ := text "0.0"

def secretOf (v : PyValue Unit) : PyValue Unit := .dict [(.str (text "Secret"), v)]

theorem isSensitive_secret : isSensitive quiet (.str (text "Secret")) = true := by decide

theorem redactJson_noninterference_secret :
    redactJson quiet none maxJsonDepth 0 (secretOf (.int 1)) =
      redactJson quiet none maxJsonDepth 0 (secretOf (.list [])) := by
  apply (redactJson_noninterference quiet none maxJsonDepth 0).1
  refine .dict rfl fun p hp hplain => ?_
  rw [List.mem_singleton.mp hp, isSensitive_secret] at hplain
  cases hplain

/-- A dictionary under a sensitive key is above the depth limit and does not keep its keys. -/
theorem secret_loses_shape : ¬∀ v : PyValue Unit,
    SameShape maxJsonDepth (fun _ => false) 0 v (redactJson quiet none maxJsonDepth 0 v) := by
  intro h
  have hshape := h (secretOf (.dict [(.str (text "a"), .int 1)]))
  rw [secretOf, redactJson_dict (Nat.zero_le _), List.map_singleton, redactField,
    if_pos isSensitive_secret] at hshape
  cases hshape with
  | deep hdeep => cases hdeep
  | dict keys values =>
    cases values _ List.mem_cons_self rfl with
    | deep hdeep => exact absurd hdeep (by decide)

end OpenClaw.Redaction
