import OpenClaw.Foundation.JsonSpelling

/-!
# Objects in the output of a model

`services/llm_output.py`: `extract_json_object` looks into two kinds of fenced blocks and then into the
whole text, which is cut at a limit, for the first opening brace at which the decoder reads a
dictionary. `levels` is how deep the decoder's stack goes.
-/

namespace OpenClaw.Llm

open Foundation Foundation.JsonDecoder
set_option autoImplicit false

variable {φ : Type}

def maxOutputChars : ℕ := 100000

abbrev Fields (φ : Type) := List (PyStr × Json φ)

/-! ## Fences -/

/-- A pattern without repetition: a set of characters for each place. -/
abbrev Pattern := List (List Char)

def plainFence : Pattern := [['\x60'], ['\x60'], ['\x60']]

/-- Case is ignored, and the long s is an s then. -/
def jsonFence : Pattern := plainFence ++ [['j', 'J'], ['s', 'S', 'ſ'], ['o', 'O'], ['n', 'N']]

def matchFront? : Pattern → CodePoints → Option CodePoints
  | [], t => some t
  | _ :: _, [] => none
  | p :: ps, c :: t => if toChar c ∈ p then matchFront? ps t else none

/-- What follows the first match. -/
def after? (p : Pattern) : CodePoints → Option CodePoints
  | [] => none
  | c :: t => (matchFront? p (c :: t)).orElse fun _ => after? p t

/-- What stands before the first match. -/
def before? (p : Pattern) : CodePoints → Option CodePoints
  | [] => none
  | c :: t => if (matchFront? p (c :: t)).isSome then some [] else (before? p t).map (c :: ·)

theorem matchFront?_cons (q : List Char) (p : Pattern) (c : CodePoint) (t : CodePoints) :
    matchFront? (q :: p) (c :: t) = if toChar c ∈ q then matchFront? p t else none := rfl

theorem after?_cons (p : Pattern) (c : CodePoint) (t : CodePoints) :
    after? p (c :: t) = (matchFront? p (c :: t)).orElse fun _ => after? p t := rfl

theorem before?_cons (p : Pattern) (c : CodePoint) (t : CodePoints) :
    before? p (c :: t) =
      if (matchFront? p (c :: t)).isSome then some [] else (before? p t).map (c :: ·) := rfl

/-- The group of the pattern, stripped: an opening fence without a closing one behind it leaves none for
a later opening fence either, and the blanks that the pattern skips are those that `strip` takes. -/
def fenced? (opening : Pattern) (t : CodePoints) : Option CodePoints :=
  (after? opening t).bind fun rest => (before? plainFence rest).map CodePoints.strip

/-! ## Objects -/

section Extract
variable (read : List Char → φ) (levels : ℕ)

/-- `_extract_json_object_with_decoder`; the only error is the `RecursionError` of the decoder. -/
def findObject : CodePoints → Except DecodeError (Option (Fields φ))
  | [] => .ok none
  | c :: t =>
    if toChar c = '{' then
      match rawDecode read levels (c :: t) with
      | .ok (.obj fields, _) => .ok (some fields)
      | .error .recursion => .error .recursion
      | _ => findObject t
    else findObject t

/-- The first object in the candidates. -/
def findFirst : List CodePoints → Except DecodeError (Option (Fields φ))
  | [] => .ok none
  | t :: ts =>
    match findObject read levels t with
    | .ok none => findFirst ts
    | r => r

def candidates (t : CodePoints) : List CodePoints :=
  (fenced? jsonFence t).toList ++ (fenced? plainFence t).toList ++ [t]

def extractJsonObject (maxChars : ℕ) (text : CodePoints) : Except DecodeError (Option (Fields φ)) :=
  if text = [] then .ok none else findFirst read levels (candidates (text.take maxChars))

end Extract

/-! ## What is found -/

section Find
variable {read : List Char → φ} {levels : ℕ}

/-- At none of its braces does the decoder read a dictionary, or run out of stack. -/
def Barren (read : List Char → φ) (levels : ℕ) (t : CodePoints) : Prop :=
  ∀ before after, t = before ++ point '{' :: after →
    rawDecode read levels (point '{' :: after) = .error .value

/-- The decoder runs out of stack at a brace, and reads no dictionary at those before. -/
def TooDeep (read : List Char → φ) (levels : ℕ) (t : CodePoints) : Prop :=
  ∃ before after, t = before ++ point '{' :: after ∧
    rawDecode read levels (point '{' :: after) = .error .recursion ∧
      ∀ b a, before = b ++ point '{' :: a →
        rawDecode read levels (point '{' :: (a ++ point '{' :: after)) = .error .value

theorem rawDecode_brace {t rest : CodePoints} {j : Json φ}
    (h : rawDecode read levels (point '{' :: t) = .ok (j, rest)) : ∃ fields, j = .obj fields := by
  rw [rawDecode, List.length_cons, Nat.mul_add, decodeValue.eq_def] at h
  simp only [toChar_point, Char.reduceEq, if_false, if_true] at h
  split at h
  · cases h
  split at h
  · cases h
    exact ⟨[], rfl⟩
  · obtain ⟨r, -, heq⟩ := map_eq_ok.mp h
    cases heq
    exact ⟨_, rfl⟩

theorem findObject_skip {c : CodePoint} (hc : toChar c ≠ '{') (t : CodePoints) :
    findObject read levels (c :: t) = findObject read levels t :=
  if_neg hc

theorem barren_cons {c : CodePoint} {t : CodePoints} : Barren read levels (c :: t) ↔
    (toChar c = '{' → rawDecode read levels (c :: t) = .error .value) ∧ Barren read levels t := by
  constructor
  · intro h
    refine ⟨fun hc => ?_, fun before after hsplit => ?_⟩
    · rw [point_toChar hc (by decide)] at h ⊢
      exact h [] t rfl
    · exact h (c :: before) after (by rw [hsplit]; rfl)
  · rintro ⟨hfirst, hrest⟩ before after hsplit
    cases before with
    | nil =>
      cases hsplit
      exact hfirst (toChar_point _)
    | cons d before =>
      cases hsplit
      exact hrest before after rfl

/-- What happens at the first character. -/
theorem findObject_cons (read : List Char → φ) (levels : ℕ) (c : CodePoint) (t : CodePoints) :
    toChar c = '{' ∧ (∃ fields rest, rawDecode read levels (c :: t) = .ok (.obj fields, rest) ∧
        findObject read levels (c :: t) = .ok (some fields)) ∨
      toChar c = '{' ∧ rawDecode read levels (c :: t) = .error .recursion ∧
        findObject read levels (c :: t) = .error .recursion ∨
      (toChar c = '{' → rawDecode read levels (c :: t) = .error .value) ∧
        findObject read levels (c :: t) = findObject read levels t := by
  by_cases hc : toChar c = '{'
  · cases hdecode : rawDecode read levels (c :: t) with
    | ok r =>
      obtain ⟨j, rest⟩ := r
      rw [point_toChar hc (by decide)] at hdecode
      obtain ⟨fields, rfl⟩ := rawDecode_brace hdecode
      rw [← point_toChar hc (by decide)] at hdecode
      refine .inl ⟨hc, fields, rest, rfl, ?_⟩
      rw [findObject, if_pos hc, hdecode]
    | error e =>
      cases e with
      | recursion =>
        refine .inr (.inl ⟨hc, rfl, ?_⟩)
        rw [findObject, if_pos hc, hdecode]
      | value =>
        refine .inr (.inr ⟨fun _ => rfl, ?_⟩)
        rw [findObject, if_pos hc, hdecode]
  · refine .inr (.inr ⟨fun h => absurd h hc, ?_⟩)
    exact findObject_skip hc t

theorem findObject_none_iff {t : CodePoints} :
    findObject read levels t = .ok none ↔ Barren read levels t := by
  induction t with
  | nil =>
    refine iff_of_true rfl fun before after h => ?_
    simp at h
  | cons c t ih =>
    rw [barren_cons]
    rcases findObject_cons read levels c t with
      ⟨hc, fields, rest, hdecode, hfind⟩ | ⟨hc, hdecode, hfind⟩ | ⟨hvalue, hfind⟩
    · rw [hfind, hdecode]
      exact iff_of_false (by simp) fun h => by cases h.1 hc
    · rw [hfind, hdecode]
      exact iff_of_false (by simp) fun h => by cases h.1 hc
    · rw [hfind, ih]
      exact ⟨fun h => ⟨hvalue, h⟩, fun h => h.2⟩

theorem findObject_error_iff {t : CodePoints} :
    findObject read levels t = .error .recursion ↔ TooDeep read levels t := by
  induction t with
  | nil =>
    refine iff_of_false nofun ?_
    rintro ⟨before, after, h, -⟩
    simp at h
  | cons c t ih =>
    rcases findObject_cons read levels c t with
      ⟨hc, fields, rest, hdecode, hfind⟩ | ⟨hc, hdecode, hfind⟩ | ⟨hvalue, hfind⟩
    · rw [hfind]
      refine iff_of_false (by simp) ?_
      rintro ⟨before, after, hsplit, hdeep, hbefore⟩
      cases before with
      | nil =>
        cases hsplit
        rw [hdecode] at hdeep
        cases hdeep
      | cons d before =>
        cases hsplit
        have hfirst := hbefore [] before (by rw [point_toChar hc (by decide)]; rfl)
        rw [point_toChar hc (by decide)] at hdecode
        cases hfirst.symm.trans hdecode
    · refine iff_of_true hfind ⟨[], t, by rw [point_toChar hc (by decide)]; rfl, ?_, ?_⟩
      · rw [← point_toChar hc (by decide)]
        exact hdecode
      · intro b a h
        simp at h
    · rw [hfind, ih]
      constructor
      · rintro ⟨before, after, rfl, hdeep, hbefore⟩
        refine ⟨c :: before, after, rfl, hdeep, fun b a h => ?_⟩
        cases b with
        | nil =>
          cases h
          exact hvalue (toChar_point _)
        | cons d b =>
          cases h
          exact hbefore b a rfl
      · rintro ⟨before, after, hsplit, hdeep, hbefore⟩
        cases before with
        | nil =>
          cases hsplit
          rw [hvalue (toChar_point _)] at hdeep
          cases hdeep
        | cons d before =>
          cases hsplit
          exact ⟨before, after, rfl, hdeep, fun b a h => hbefore (c :: b) a (by rw [h]; rfl)⟩

theorem findObject_some {t : CodePoints} {fields : Fields φ}
    (h : findObject read levels t = .ok (some fields)) :
    ∃ front, front <:+: t ∧ Spelled read levels (.value (.obj fields)) front := by
  induction t with
  | nil => cases h
  | cons c t ih =>
    rcases findObject_cons read levels c t with
      ⟨hc, fields', rest, hdecode, hfind⟩ | ⟨hc, hdecode, hfind⟩ | ⟨hvalue, hfind⟩
    · rw [hfind] at h
      cases h
      obtain ⟨front, hsplit, hspelled⟩ := rawDecode_sound hdecode
      exact ⟨front, ⟨[], rest, by rw [hsplit]; rfl⟩, hspelled⟩
    · rw [hfind] at h
      cases h
    · rw [hfind] at h
      obtain ⟨front, hwithin, hspelled⟩ := ih h
      exact ⟨front, hwithin.trans (List.suffix_cons c t).isInfix, hspelled⟩

theorem findObject_value {t : CodePoints} : findObject read levels t ≠ .error .value := by
  induction t with
  | nil => exact nofun
  | cons c t ih =>
    rcases findObject_cons read levels c t with
      ⟨-, _, _, -, hfind⟩ | ⟨-, -, hfind⟩ | ⟨-, hfind⟩
    · simp [hfind]
    · simp [hfind]
    · rw [hfind]
      exact ih

theorem findObject_append {t : CodePoints} : ∀ {s : CodePoints}, (∀ c ∈ s, toChar c ≠ '{') →
    findObject read levels (s ++ t) = findObject read levels t
  | [], _ => rfl
  | c :: s, h => by
    rw [List.cons_append, findObject_skip (h c List.mem_cons_self)]
    exact findObject_append fun d hd => h d (List.mem_cons_of_mem c hd)

theorem findFirst_append {earlier later : List CodePoints}
    (h : ∀ x ∈ earlier, Barren read levels x) :
    findFirst read levels (earlier ++ later) = findFirst read levels later := by
  induction earlier with
  | nil => rfl
  | cons x earlier ih =>
    rw [List.cons_append, findFirst, findObject_none_iff.mpr (h x List.mem_cons_self)]
    exact ih fun y hy => h y (List.mem_cons_of_mem x hy)

/-- The candidate that decides: nothing is found in those before. -/
theorem findFirst_cases (read : List Char → φ) (levels : ℕ) (ts : List CodePoints) :
    (findFirst read levels ts = .ok none ∧ ∀ x ∈ ts, Barren read levels x) ∨
      ∃ earlier t later, ts = earlier ++ t :: later ∧ (∀ x ∈ earlier, Barren read levels x) ∧
        findFirst read levels ts = findObject read levels t ∧ ¬ Barren read levels t := by
  induction ts with
  | nil => exact .inl ⟨rfl, List.forall_mem_nil _⟩
  | cons t ts ih =>
    by_cases hbarren : Barren read levels t
    · have hskip : findFirst read levels (t :: ts) = findFirst read levels ts :=
        findFirst_append (List.forall_mem_singleton.mpr hbarren)
      rcases ih with ⟨hnone, hall⟩ | ⟨earlier, t', later, rfl, hearlier, hfind, hrich⟩
      · exact .inl ⟨hskip.trans hnone, List.forall_mem_cons.mpr ⟨hbarren, hall⟩⟩
      · exact .inr ⟨t :: earlier, t', later, rfl, List.forall_mem_cons.mpr ⟨hbarren, hearlier⟩,
          hskip.trans hfind, hrich⟩
    · refine .inr ⟨[], t, ts, rfl, List.forall_mem_nil _, ?_, hbarren⟩
      rw [findFirst]
      split
      · rename_i hnone
        exact absurd (findObject_none_iff.mp hnone) hbarren
      · rfl

end Find

/-! ## Candidates -/

section Candidates
variable {p : Pattern} {t u v rest x : CodePoints}

theorem matchFront?_suffix (h : matchFront? p t = some rest) : rest <:+ t := by
  induction p generalizing t with
  | nil =>
    cases t <;>
    · cases h
      exact List.suffix_refl _
  | cons q p ih =>
    cases t with
    | nil => cases h
    | cons c t =>
      rw [matchFront?_cons] at h
      split at h
      · exact (ih h).trans (List.suffix_cons c t)
      · cases h

theorem after?_suffix (h : after? p t = some rest) : rest <:+ t := by
  induction t with
  | nil => cases h
  | cons c t ih =>
    rw [after?_cons] at h
    cases hmatch : matchFront? p (c :: t) with
    | some rest' =>
      rw [hmatch] at h
      cases h
      exact matchFront?_suffix hmatch
    | none =>
      rw [hmatch] at h
      exact (ih h).trans (List.suffix_cons c t)

/-- What stands before a match that is there ends where the match begins. -/
theorem before?_split (h : before? p t = some x) :
    ∃ y, t = x ++ y ∧ (matchFront? p y).isSome := by
  induction t generalizing x with
  | nil => cases h
  | cons c t ih =>
    rw [before?_cons] at h
    split at h
    · rename_i hmatch
      cases h
      exact ⟨c :: t, rfl, hmatch⟩
    · obtain ⟨x', hx', rfl⟩ := Option.map_eq_some_iff.mp h
      obtain ⟨y, rfl, hmatch⟩ := ih hx'
      exact ⟨y, rfl, hmatch⟩

theorem strip_within (t : CodePoints) : CodePoints.strip t <:+: t :=
  (List.rdropWhile_prefix _ _).isInfix.trans (List.dropWhile_suffix _).isInfix

theorem fenced?_infix (h : fenced? p t = some x) : x <:+: t := by
  obtain ⟨rest, hrest, hx⟩ := Option.bind_eq_some_iff.mp h
  obtain ⟨inner, hinner, rfl⟩ := Option.map_eq_some_iff.mp hx
  obtain ⟨y, rfl, -⟩ := before?_split hinner
  exact (strip_within inner).trans
    ((List.prefix_append inner y).isInfix.trans (after?_suffix hrest).isInfix)

theorem candidates_within (h : x ∈ candidates t) : x <:+: t := by
  unfold candidates at h
  rcases List.mem_append.mp h with h | h
  · rcases List.mem_append.mp h with h | h
    · exact fenced?_infix (Option.mem_toList.mp h)
    · exact fenced?_infix (Option.mem_toList.mp h)
  · obtain rfl := List.mem_singleton.mp h
    exact List.infix_refl x

end Candidates

/-! ## Every text -/

section Sound
variable (read : List Char → φ) (levels maxChars : ℕ)

/-- There is an answer, and an object in it is one that `json.loads` accepts from a part of the text. -/
def SoundLaw (text : CodePoints) : Prop :=
  ∃ r, extractJsonObject read levels maxChars text = .ok r ∧
    ∀ fields, r = some fields → ∃ sub, sub <:+: text ∧ loads read levels sub = .ok (.obj fields)

/-- No candidate that is reached is nested too deep. -/
def NotTooDeep (text : CodePoints) : Prop :=
  ∀ earlier t later, candidates (text.take maxChars) = earlier ++ t :: later →
    (∀ x ∈ earlier, Barren read levels x) → ¬ TooDeep read levels t

variable {read levels maxChars}

theorem extractJsonObject_eq (text : CodePoints) :
    extractJsonObject read levels maxChars text =
      findFirst read levels (candidates (text.take maxChars)) := by
  unfold extractJsonObject
  split
  · rename_i h
    rw [h, List.take_nil]
    rfl
  · rfl

theorem soundLaw_iff (text : CodePoints) :
    SoundLaw read levels maxChars text ↔ NotTooDeep read levels maxChars text := by
  unfold SoundLaw NotTooDeep
  rw [extractJsonObject_eq]
  rcases findFirst_cases read levels (candidates (text.take maxChars)) with
    ⟨hnone, hbarren⟩ | ⟨earlier, t, later, hsplit, hearlier, hfind, hrich⟩
  · refine iff_of_true ⟨none, hnone, fun fields h => by cases h⟩ fun earlier t later hsplit _ hdeep => ?_
    have hmem : t ∈ candidates (text.take maxChars) := by
      rw [hsplit]
      simp
    have hok := findObject_none_iff.mpr (hbarren t hmem)
    rw [findObject_error_iff.mpr hdeep] at hok
    cases hok
  · rw [hfind]
    constructor
    · rintro ⟨r, hr, -⟩ earlier' t' later' hsplit' hearlier' hdeep
      -- nothing is found before either of the two, so that they are one
      have hfirst := @findFirst_append _ read levels _ (t' :: later') hearlier'
      rw [← hsplit', hfind, hr, findFirst, findObject_error_iff.mpr hdeep] at hfirst
      cases hfirst
    · intro hshallow
      have hnot := hshallow earlier t later hsplit hearlier
      cases hresult : findObject read levels t with
      | error e =>
        cases e with
        | value => exact absurd hresult findObject_value
        | recursion => exact absurd (findObject_error_iff.mp hresult) hnot
      | ok r =>
        refine ⟨r, rfl, fun fields hr => ?_⟩
        rw [hr] at hresult
        obtain ⟨front, hwithin, hspelled⟩ := findObject_some hresult
        have hmem : t ∈ candidates (text.take maxChars) := by
          rw [hsplit]
          simp
        exact ⟨front, hwithin.trans ((candidates_within hmem).trans
          (List.take_prefix maxChars text).isInfix), loads_spelled hspelled⟩

end Sound

/-! ## Texts with a dumped object -/

/-- Text without braces and backticks. -/
structure Prose where
  text : CodePoints
  plain : ∀ c ∈ text, toChar c ≠ '{' ∧ toChar c ≠ '}' ∧ toChar c ≠ '\x60'

structure DumpedObject (φ : Type) where
  fields : Fields φ
  dumpable : Dumpable (.obj fields)

def fenceOpen : CodePoints := CodePoints.ofString "```json\n"

def fenceClose : CodePoints := CodePoints.ofString "\n```"

def opening (inFence : Bool) : CodePoints := if inFence then fenceOpen else []

def closing (inFence : Bool) : CodePoints := if inFence then fenceClose else []

section Message
variable (F : Json.FloatFormat φ) (o : DumpedObject φ)

/-- `json.dumps(o)`. -/
def dumped : CodePoints := textOf F Json.Separators.standard o.fields

/-- The dump, in a fenced block or not, between prose. -/
def message (inFence : Bool) (before after : Prose) : CodePoints :=
  (before.text ++ opening inFence) ++ (dumped F o ++ (closing inFence ++ after.text))

/-- The pieces of the dump that are looked at before the text: in a fenced block, what stands before the
first fence within; otherwise what stands between two. -/
def pieces (inFence : Bool) : List CodePoints :=
  if inFence then ((before? plainFence (dumped F o)).map CodePoints.strip).toList
  else (fenced? jsonFence (dumped F o)).toList ++ (fenced? plainFence (dumped F o)).toList

/-- The dump is not cut, its dictionaries nest within the stack, and nothing is found in its pieces. -/
structure Extracts (levels maxChars : ℕ) (inFence : Bool) (before : Prose) : Prop where
  room : (before.text ++ opening inFence).length + (dumped F o).length ≤ maxChars
  nests : NestsWithin levels (.obj o.fields)
  barren : ∀ x ∈ pieces F o inFence, Barren F.read levels x

end Message

/-! ### Fences before a last brace -/

section Fences
variable {p : Pattern} {v w : CodePoints}

def NoFence (t : CodePoints) : Prop := ∀ c ∈ t, toChar c ≠ '\x60'

/-- The pattern begins with a backtick and does not match a brace. -/
structure IsFence (p : Pattern) : Prop where
  head : ∃ q, p = ['\x60'] :: q
  brace : ∀ q ∈ p, '}' ∉ q

theorem isFence_json : IsFence jsonFence := ⟨⟨_, rfl⟩, by decide⟩

theorem isFence_plain : IsFence plainFence := ⟨⟨_, rfl⟩, by decide⟩

theorem matchFront?_append (hp : ∀ q ∈ p, '}' ∉ q) :
    matchFront? p (w ++ point '}' :: v) = (matchFront? p (w ++ [point '}'])).map (· ++ v) := by
  induction w generalizing p with
  | nil =>
    cases p with
    | nil => rfl
    | cons q p =>
      have hq := hp q List.mem_cons_self
      rw [List.nil_append, List.nil_append, matchFront?_cons, matchFront?_cons, toChar_point, if_neg hq, if_neg hq]
      rfl
  | cons c w ih =>
    cases p with
    | nil => exact congrArg some (by simp)
    | cons q p =>
      rw [List.cons_append, List.cons_append, matchFront?_cons, matchFront?_cons]
      split
      · exact ih fun q' hq' => hp q' (List.mem_cons_of_mem q hq')
      · rfl

theorem matchFront?_none (hp : IsFence p) {c : CodePoint} (hc : toChar c ≠ '\x60') (t : CodePoints) :
    matchFront? p (c :: t) = none := by
  obtain ⟨q, rfl⟩ := hp.head
  rw [matchFront?_cons, if_neg (by simpa using hc)]

theorem after?_skip (hp : IsFence p) (hv : NoFence v) (t : CodePoints) :
    after? p (v ++ t) = after? p t := by
  induction v with
  | nil => rfl
  | cons c v ih =>
    rw [List.cons_append, after?_cons, matchFront?_none hp (hv c List.mem_cons_self)]
    exact ih fun d hd => hv d (List.mem_cons_of_mem c hd)

theorem before?_skip (hp : IsFence p) (hv : NoFence v) (t : CodePoints) :
    before? p (v ++ t) = (before? p t).map (v ++ ·) := by
  induction v with
  | nil =>
    rw [List.nil_append]
    cases before? p t <;> rfl
  | cons c v ih =>
    rw [List.cons_append, before?_cons, matchFront?_none hp (hv c List.mem_cons_self),
      ih fun d hd => hv d (List.mem_cons_of_mem c hd)]
    cases before? p t <;> rfl

theorem after?_append (hp : IsFence p) (hv : NoFence v) :
    after? p (w ++ point '}' :: v) = (after? p (w ++ [point '}'])).map (· ++ v) := by
  have hnone : after? p v = none := by
    have hskip := after?_skip hp hv []
    rwa [List.append_nil] at hskip
  induction w with
  | nil =>
    have hbrace : toChar (point '}') ≠ '\x60' := by
      rw [toChar_point]
      decide
    rw [List.nil_append, List.nil_append, after?_cons, after?_cons, matchFront?_none hp hbrace,
      matchFront?_none hp hbrace]
    exact hnone
  | cons c w ih =>
    have hmatch := matchFront?_append (v := v) (w := c :: w) hp.brace
    rw [List.cons_append, List.cons_append] at hmatch
    rw [List.cons_append, List.cons_append, after?_cons, after?_cons, hmatch]
    cases matchFront? p (c :: (w ++ [point '}'])) with
    | some rest => rfl
    | none => exact ih

theorem before?_append (hp : IsFence p) : before? p (w ++ point '}' :: v) =
    (before? p (w ++ [point '}'])).orElse fun _ =>
      (before? p v).map (w ++ point '}' :: ·) := by
  induction w with
  | nil =>
    have hbrace : toChar (point '}') ≠ '\x60' := by
      rw [toChar_point]
      decide
    rw [List.nil_append, List.nil_append, before?_cons, before?_cons, matchFront?_none hp hbrace,
      matchFront?_none hp hbrace]
    rfl
  | cons c w ih =>
    have hmatch := matchFront?_append (v := v) (w := c :: w) hp.brace
    rw [List.cons_append, List.cons_append] at hmatch
    rw [List.cons_append, List.cons_append, before?_cons, before?_cons, hmatch, Option.isSome_map]
    split
    · rfl
    · rw [ih]
      cases before? p (w ++ [point '}']) with
      | some x => rfl
      | none => cases before? p v <;> rfl

/-- Text behind the last brace adds nothing between fences. -/
theorem fenced?_append (hp : IsFence p) (hv : NoFence v) :
    fenced? p (w ++ point '}' :: v) = fenced? p (w ++ [point '}']) := by
  unfold fenced?
  rw [after?_append hp hv]
  cases hafter : after? p (w ++ [point '}']) with
  | none => rfl
  | some rest =>
    have hnone : before? plainFence v = none := by
      have hskip := before?_skip isFence_plain hv []
      rwa [List.append_nil] at hskip
    have hsame : before? plainFence (rest ++ v) = before? plainFence rest := by
      obtain ⟨front, hfront⟩ := after?_suffix hafter
      rcases List.eq_nil_or_concat rest with rfl | ⟨rest', b, rfl⟩
      · exact hnone
      · rw [List.concat_eq_append, ← List.append_assoc] at hfront
        have hlast : b = point '}' := List.singleton_inj.mp (List.append_inj' hfront rfl).2
        rw [List.concat_eq_append, hlast, List.append_assoc, List.singleton_append, before?_append isFence_plain, hnone]
        cases before? plainFence (rest' ++ [point '}']) <;> rfl
    rw [Option.map_some, Option.bind_some, Option.bind_some, hsame]

theorem matchFront?_length {t rest : CodePoints} (h : matchFront? p t = some rest) :
    t.length = p.length + rest.length := by
  induction p generalizing t with
  | nil =>
    cases t <;>
    · cases h
      simp
  | cons q p ih =>
    cases t with
    | nil => cases h
    | cons c t =>
      rw [matchFront?_cons] at h
      split at h
      · rw [List.length_cons, List.length_cons, ih h]
        omega
      · cases h

theorem after?_length {t rest : CodePoints} (h : after? p t = some rest) :
    p.length + rest.length ≤ t.length := by
  induction t with
  | nil => cases h
  | cons c t ih =>
    rw [after?_cons] at h
    cases hmatch : matchFront? p (c :: t) with
    | some rest' =>
      rw [hmatch] at h
      cases h
      exact (matchFront?_length hmatch).symm.le
    | none =>
      rw [hmatch] at h
      have hle := ih h
      rw [List.length_cons]
      omega

theorem length_strip_le (t : CodePoints) : (CodePoints.strip t).length ≤ t.length :=
  (strip_within t).length_le

theorem fenced?_length (hp : IsFence p) {t x : CodePoints} (h : fenced? p t = some x) :
    x.length < t.length := by
  obtain ⟨rest, hrest, hx⟩ := Option.bind_eq_some_iff.mp h
  obtain ⟨inner, hinner, rfl⟩ := Option.map_eq_some_iff.mp hx
  obtain ⟨y, rfl, -⟩ := before?_split hinner
  obtain ⟨q, rfl⟩ := hp.head
  have hle := after?_length hrest
  have hstrip := length_strip_le inner
  rw [List.length_cons, List.length_append] at hle
  omega

end Fences

/-! ### The candidates of a message -/

section Candidates
variable {F : Json.FloatFormat φ} {o : DumpedObject φ} {v rest : CodePoints}

theorem dumped_spelled {levels : ℕ} (h : NestsWithin levels (.obj o.fields)) :
    Spelled F.read levels (.value (.obj o.fields)) (dumped F o) :=
  spelled_render o.dumpable h

theorem dumped_marks (F : Json.FloatFormat φ) (o : DumpedObject φ) :
    ∃ inner, dumped F o = point '{' :: (inner ++ [point '}']) := by
  obtain ⟨levels, h⟩ := exists_nestsWithin (Json.obj o.fields)
  exact spelled_object_marks (dumped_spelled h)

theorem isSpace_brace {c : Char} (hc : c = '{' ∨ c = '}') :
    PyText.isSpaceCode (point c).val = false := by
  rcases hc with rfl | rfl <;> decide

theorem strip_newline (t : CodePoints) :
    CodePoints.strip (point '\n' :: t) = CodePoints.strip t := by
  unfold CodePoints.strip PyText.stripWhere
  rw [List.dropWhile_cons_of_pos (by decide)]

/-- A text that begins with a brace is stripped at its end only. -/
theorem strip_brace (t : CodePoints) : CodePoints.strip (point '{' :: t) =
    point '{' :: t.rdropWhile fun c => PyText.isSpaceCode c.val := by
  have hbrace := isSpace_brace (.inl rfl : ('{' : Char) = '{' ∨ '{' = '}')
  unfold CodePoints.strip PyText.stripWhere
  rw [List.dropWhile_cons_of_neg (by rw [hbrace]; decide), List.rdropWhile, List.rdropWhile,
    List.reverse_cons, List.dropWhile_append]
  split
  · rename_i hnil
    rw [List.isEmpty_iff.mp hnil, List.dropWhile_cons_of_neg (by rw [hbrace]; decide)]
    rfl
  · simp

theorem strip_json (t : CodePoints) : CodePoints.strip (CodePoints.ofString "json\n" ++ point '{' :: t) =
    CodePoints.ofString "json\n" ++ CodePoints.strip (point '{' :: t) := by
  rw [strip_brace]
  exact PyText.stripWhere_delimited (a := point 'j') (by decide) (isSpace_brace (.inl rfl))
    (CodePoints.ofString "son\n") t

theorem strip_dumped (y : CodePoints) : CodePoints.strip (dumped F o ++ y) =
    dumped F o ++ y.rdropWhile fun c => PyText.isSpaceCode c.val := by
  obtain ⟨inner, hmarks⟩ := dumped_marks F o
  rw [hmarks]
  simp only [List.cons_append, List.append_assoc, List.nil_append]
  exact PyText.stripWhere_delimited (p := fun c : CodePoint => PyText.isSpaceCode c.val)
    (isSpace_brace (.inl rfl)) (isSpace_brace (.inr rfl)) inner y

theorem fenced?_plain {p : Pattern} (hp : IsFence p) (hv : NoFence v) (hrest : NoFence rest) :
    fenced? p (v ++ (dumped F o ++ rest)) = fenced? p (dumped F o) := by
  obtain ⟨inner, hmarks⟩ := dumped_marks F o
  have hsplit : dumped F o = (point '{' :: inner) ++ [point '}'] := hmarks
  have hskip : fenced? p (v ++ (dumped F o ++ rest)) = fenced? p (dumped F o ++ rest) := by
    unfold fenced?
    rw [after?_skip hp hv]
  rw [hskip, hsplit, List.append_assoc, List.singleton_append]
  exact fenced?_append hp hrest

theorem candidates_plain (hv : NoFence v) (hrest : NoFence rest) :
    candidates (v ++ (dumped F o ++ rest)) =
      pieces F o false ++ [v ++ (dumped F o ++ rest)] := by
  unfold candidates pieces
  rw [fenced?_plain isFence_json hv hrest, fenced?_plain isFence_plain hv hrest]
  rfl

/-- What the two patterns find behind the opening fence. -/
theorem candidates_fenced (hv : NoFence v) (t : CodePoints) :
    candidates ((v ++ fenceOpen) ++ t) =
      ((before? plainFence t).map fun x => CodePoints.strip x).toList ++
        ((before? plainFence t).map fun x =>
          CodePoints.strip (CodePoints.ofString "json\n" ++ x)).toList ++ [(v ++ fenceOpen) ++ t] := by
  have hjson : after? jsonFence ((v ++ fenceOpen) ++ t) = some (point '\n' :: t) := by
    rw [List.append_assoc, after?_skip isFence_json hv]
    rfl
  have hplain : after? plainFence ((v ++ fenceOpen) ++ t) =
      some (CodePoints.ofString "json\n" ++ t) := by
    rw [List.append_assoc, after?_skip isFence_plain hv]
    rfl
  have hnewline : before? plainFence (point '\n' :: t) =
      (before? plainFence t).map ([point '\n'] ++ ·) :=
    before?_skip isFence_plain (v := [point '\n']) (fun c hc => by
      rw [List.mem_singleton.mp hc, toChar_point]
      decide) t
  have hword : before? plainFence (CodePoints.ofString "json\n" ++ t) =
      (before? plainFence t).map (CodePoints.ofString "json\n" ++ ·) := by
    refine before?_skip isFence_plain (fun c hc => ?_) t
    have hall : (CodePoints.ofString "json\n").all (fun c => toChar c ≠ '\x60') = true := by decide
    exact of_decide_eq_true (List.all_eq_true.mp hall c hc)
  unfold candidates fenced?
  rw [hjson, hplain, Option.bind_some, Option.bind_some, hnewline, hword]
  cases before? plainFence t with
  | none => rfl
  | some x => simp [strip_newline]

theorem before?_dumped : before? plainFence (dumped F o ++ rest) =
    (before? plainFence (dumped F o)).orElse fun _ =>
      (before? plainFence rest).map (dumped F o ++ ·) := by
  obtain ⟨inner, hmarks⟩ := dumped_marks F o
  have hsplit : dumped F o = (point '{' :: inner) ++ [point '}'] := hmarks
  rw [hsplit, List.append_assoc, List.singleton_append, before?_append isFence_plain]
  simp

/-- What stands before a fence in the dump begins with its brace, and is shorter. -/
theorem before?_dumped_some {x : CodePoints} (h : before? plainFence (dumped F o) = some x) :
    ∃ x', x = point '{' :: x' ∧ x.length < (dumped F o).length := by
  obtain ⟨inner, hmarks⟩ := dumped_marks F o
  obtain ⟨y, hy, hmatch⟩ := before?_split h
  obtain ⟨rest, hrest⟩ := Option.isSome_iff_exists.mp hmatch
  have hlength := matchFront?_length hrest
  have hthree : plainFence.length = 3 := rfl
  have htotal : (dumped F o).length = x.length + y.length := by rw [hy, List.length_append]
  cases x with
  | nil =>
    rw [List.nil_append, hmarks] at hy
    rw [← hy, matchFront?_none isFence_plain (by rw [toChar_point]; decide)] at hrest
    cases hrest
  | cons c x' =>
    rw [hmarks] at hy
    have hc := (List.cons.inj hy).1
    exact ⟨x', by rw [hc], by omega⟩

end Candidates

/-! ### The dump comes back -/

section RoundTrip
variable {F : Json.FloatFormat φ} {o : DumpedObject φ} {levels maxChars : ℕ} {inFence : Bool}
  {before after : Prose}

theorem opening_noBrace (inFence : Bool) : ∀ c ∈ opening inFence, toChar c ≠ '{' := by
  intro c hc
  have hall : (opening inFence).all (fun c => toChar c ≠ '{') = true := by
    cases inFence <;> decide
  exact of_decide_eq_true (List.all_eq_true.mp hall c hc)

theorem closing_noBrace (inFence : Bool) : ∀ c ∈ closing inFence, toChar c ≠ '}' := by
  intro c hc
  have hall : (closing inFence).all (fun c => toChar c ≠ '}') = true := by
    cases inFence <;> decide
  exact of_decide_eq_true (List.all_eq_true.mp hall c hc)

theorem front_noBrace : ∀ c ∈ before.text ++ opening inFence, toChar c ≠ '{' :=
  List.forall_mem_append.mpr ⟨fun c hc => (before.plain c hc).1, opening_noBrace inFence⟩

theorem rest_noBrace : ∀ c ∈ closing inFence ++ after.text, toChar c ≠ '}' :=
  List.forall_mem_append.mpr ⟨closing_noBrace inFence, fun c hc => (after.plain c hc).2.1⟩

/-- The message, cut behind the dump. -/
theorem take_message (hroom : (before.text ++ opening inFence).length + (dumped F o).length ≤ maxChars) :
    ∃ n, (message F o inFence before after).take maxChars =
      (before.text ++ opening inFence) ++
        (dumped F o ++ (closing inFence ++ after.text).take n) := by
  have hcut : ∀ front middle rest : CodePoints, front.length + middle.length ≤ maxChars →
      (front ++ (middle ++ rest)).take maxChars =
        front ++ (middle ++ rest.take (maxChars - front.length - middle.length)) := by
    intro front middle rest hle
    rw [List.take_append, List.take_append, List.take_of_length_le (by omega),
      List.take_of_length_le (by omega)]
  exact ⟨_, hcut _ _ _ hroom⟩

theorem findObject_dumped (h : NestsWithin levels (.obj o.fields)) (rest : CodePoints) :
    findObject F.read levels (dumped F o ++ rest) = .ok (some o.fields) := by
  obtain ⟨inner, hmarks⟩ := dumped_marks F o
  have hdecode := @rawDecode_append _ F.read levels _ _ rest (dumped_spelled h) trivial
  rw [hmarks, List.cons_append] at hdecode ⊢
  rw [findObject, if_pos (toChar_point '{'), hdecode]

theorem extracts_returns (h : Extracts F o levels maxChars inFence before) :
    extractJsonObject F.read levels maxChars (message F o inFence before after) =
      .ok (some o.fields) := by
  obtain ⟨n, htake⟩ := @take_message _ F o maxChars inFence before after h.room
  have hwhole : findObject F.read levels ((before.text ++ opening inFence) ++
      (dumped F o ++ (closing inFence ++ after.text).take n)) = .ok (some o.fields) := by
    rw [findObject_append front_noBrace]
    exact findObject_dumped h.nests _
  have hlast : ∀ t : CodePoints, findObject F.read levels t = .ok (some o.fields) →
      ∀ ts, findFirst F.read levels (t :: ts) = .ok (some o.fields) := by
    intro t ht ts
    rw [findFirst, ht]
  have hprose : NoFence before.text := fun c hc => (before.plain c hc).2.2
  rw [extractJsonObject_eq, htake]
  cases inFence with
  | false =>
    have hrest : NoFence ((closing false ++ after.text).take n) := fun c hc =>
      (after.plain c (List.mem_of_mem_take hc)).2.2
    rw [show before.text ++ opening false = before.text from List.append_nil _] at hwhole ⊢
    rw [candidates_plain hprose hrest, findFirst_append h.barren]
    exact hlast _ hwhole []
  | true =>
    have hopening : before.text ++ opening true = before.text ++ fenceOpen := rfl
    rw [hopening] at hwhole ⊢
    rw [candidates_fenced hprose, before?_dumped]
    cases hinner : before? plainFence (dumped F o) with
    | some x =>
      -- the fence within the dump closes the block
      obtain ⟨x', rfl, -⟩ := before?_dumped_some hinner
      have hone : Barren F.read levels (CodePoints.strip (point '{' :: x')) :=
        h.barren _ (by simp [pieces, hinner])
      have htwo : Barren F.read levels
          (CodePoints.strip (CodePoints.ofString "json\n" ++ point '{' :: x')) := by
        rw [strip_json]
        apply findObject_none_iff.mp
        rw [findObject_append]
        · exact findObject_none_iff.mpr hone
        · intro c hc
          have hall : (CodePoints.ofString "json\n").all (fun c => toChar c ≠ '{') = true := by decide
          exact of_decide_eq_true (List.all_eq_true.mp hall c hc)
      have hboth : ∀ x ∈ [CodePoints.strip (point '{' :: x'),
          CodePoints.strip (CodePoints.ofString "json\n" ++ point '{' :: x')],
            Barren F.read levels x :=
        List.forall_mem_cons.mpr ⟨hone, List.forall_mem_singleton.mpr htwo⟩
      exact (findFirst_append hboth).trans (hlast _ hwhole [])
    | none =>
      cases before? plainFence ((closing true ++ after.text).take n) with
      | none => exact hlast _ hwhole []
      | some y =>
        refine hlast _ ?_ _
        dsimp only
        rw [strip_dumped]
        exact findObject_dumped h.nests _

/-- A dictionary of a message stands within its dump. -/
theorem infix_dumped {read : List Char → φ} {fields : Fields φ} {front : CodePoints}
    (h : Spelled read levels (.value (.obj fields)) front)
    (hwithin : front <:+: message F o inFence before after) : front <:+: dumped F o := by
  obtain ⟨inner, hmarks⟩ := spelled_object_marks h
  obtain ⟨s, e, hsplit⟩ := hwithin
  rw [message, List.append_assoc] at hsplit
  -- the front of the message has no opening brace
  have hfront : ∃ s', s' ++ (front ++ e) = dumped F o ++ (closing inFence ++ after.text) := by
    rcases List.append_eq_append_iff.mp hsplit with ⟨a, ha, hrest⟩ | ⟨c, -, hrest⟩
    · cases a with
      | nil => exact ⟨[], hrest⟩
      | cons b a =>
        rw [hmarks] at hrest
        have hb := (List.cons.inj hrest).1
        have hmem : b ∈ before.text ++ opening inFence := by
          rw [ha]
          simp
        rw [← hb] at hmem
        exact absurd (toChar_point '{') (front_noBrace _ hmem)
    · exact ⟨c, hrest.symm⟩
  obtain ⟨s', hs'⟩ := hfront
  rw [← List.append_assoc] at hs'
  -- what follows the dump has no closing brace
  rcases List.append_eq_append_iff.mp hs' with ⟨a, ha, -⟩ | ⟨c, hc, hrest⟩
  · exact ⟨s', a, by rw [ha]⟩
  · rcases List.eq_nil_or_concat c with rfl | ⟨c', b, rfl⟩
    · exact ⟨s', [], by rw [List.append_nil, hc, List.append_nil]⟩
    · rw [hmarks, List.concat_eq_append, ← List.append_assoc, ← List.cons_append,
        ← List.append_assoc] at hc
      have hb : point '}' = b := List.singleton_inj.mp (List.append_inj' hc rfl).2
      have hmem : b ∈ closing inFence ++ after.text := by
        rw [hrest]
        simp
      rw [← hb] at hmem
      exact absurd (toChar_point '}') (rest_noBrace _ hmem)

/-- A candidate in which the whole object is found holds the dump. -/
theorem dumped_of_found {t : CodePoints} (hcandidate : t <:+: message F o inFence before after)
    (h : findObject F.read levels t = .ok (some o.fields)) :
    dumped F o <:+: t ∧ NestsWithin levels (.obj o.fields) := by
  obtain ⟨front, hfront, hspelled⟩ := findObject_some h
  have hpart := infix_dumped hspelled (hfront.trans hcandidate)
  rcases part_of_text o.dumpable hpart hspelled with ⟨heq, -⟩ | hfewer
  · have hwhole : front = dumped F o := heq
    rw [hwhole] at hfront
    exact ⟨hfront, hspelled.nestsWithin⟩
  · exact absurd hfewer (lt_irrefl _)

theorem room_of_infix (h : dumped F o <:+: (message F o inFence before after).take maxChars) :
    (before.text ++ opening inFence).length + (dumped F o).length ≤ maxChars := by
  obtain ⟨s, e, hsplit⟩ := h
  obtain ⟨inner, hmarks⟩ := dumped_marks F o
  have hle : (s ++ dumped F o ++ e).length ≤ maxChars := by
    rw [hsplit]
    exact List.length_take_le _ _
  have hmessage : s ++ (dumped F o ++ (e ++ (message F o inFence before after).drop maxChars)) =
      message F o inFence before after := by
    conv_rhs => rw [← List.take_append_drop maxChars (message F o inFence before after), ← hsplit]
    simp
  have hs : (before.text ++ opening inFence).length ≤ s.length := by
    conv_rhs at hmessage => rw [message]
    rcases List.append_eq_append_iff.mp hmessage with ⟨a, ha, hrest⟩ | ⟨c, hc, -⟩
    · cases a with
      | nil => rw [ha, List.append_nil]
      | cons b a =>
        rw [hmarks] at hrest
        have hb := (List.cons.inj hrest).1
        have hmem : b ∈ before.text ++ opening inFence := by
          rw [ha]
          simp
        rw [← hb] at hmem
        exact absurd (toChar_point '{') (front_noBrace _ hmem)
    · rw [hc]
      exact (List.prefix_append _ c).length_le
  calc (before.text ++ opening inFence).length + (dumped F o).length
      ≤ s.length + (dumped F o).length := Nat.add_le_add_right hs _
    _ = (s ++ dumped F o).length := List.length_append.symm
    _ ≤ (s ++ dumped F o ++ e).length := by
        rw [@List.length_append _ (s ++ dumped F o)]
        exact Nat.le_add_right _ _
    _ ≤ maxChars := hle

theorem returns_extracts (h : extractJsonObject F.read levels maxChars
    (message F o inFence before after) = .ok (some o.fields)) :
    Extracts F o levels maxChars inFence before := by
  rw [extractJsonObject_eq] at h
  rcases findFirst_cases F.read levels
      (candidates ((message F o inFence before after).take maxChars)) with
    ⟨hnone, -⟩ | ⟨earlier, t, later, hsplit, hearlier, hfind, -⟩
  · rw [hnone] at h
    cases h
  rw [hfind] at h
  have hmem : t ∈ candidates ((message F o inFence before after).take maxChars) := by
    rw [hsplit]
    simp
  have hcut := candidates_within hmem
  obtain ⟨hwhole, hnests⟩ := dumped_of_found (hcut.trans (List.take_prefix _ _).isInfix) h
  have hroom := room_of_infix (hwhole.trans hcut)
  refine ⟨hroom, hnests, ?_⟩
  obtain ⟨n, htake⟩ := @take_message _ F o maxChars inFence before after hroom
  rw [htake] at hsplit
  have hprose : NoFence before.text := fun c hc => (before.plain c hc).2.2
  -- the candidate that decides is at least as long as the dump, so that it is no piece
  have hlength := hwhole.length_le
  cases inFence with
  | false =>
    have hrest : NoFence ((closing false ++ after.text).take n) := fun c hc =>
      (after.plain c (List.mem_of_mem_take hc)).2.2
    rw [show before.text ++ opening false = before.text from List.append_nil _,
      candidates_plain hprose hrest] at hsplit
    have hpieces : ∀ x ∈ pieces F o false, x.length < (dumped F o).length := by
      intro x hx
      rcases List.mem_append.mp hx with hx | hx
      · exact fenced?_length isFence_json (Option.mem_toList.mp hx)
      · exact fenced?_length isFence_plain (Option.mem_toList.mp hx)
    intro x hx
    rcases List.append_eq_append_iff.mp hsplit with ⟨a, ha, hlast⟩ | ⟨c, hc, hlast⟩
    · exact hearlier x (by rw [ha]; exact List.mem_append_left a hx)
    · cases c with
      | nil =>
        rw [List.append_nil] at hc
        exact hearlier x (hc ▸ hx)
      | cons d c =>
        have ht := (List.cons.inj hlast).1
        have hlt := hpieces t (by rw [hc, ht]; simp)
        omega
  | true =>
    have hopening : before.text ++ opening true = before.text ++ fenceOpen := rfl
    rw [hopening, candidates_fenced hprose, before?_dumped] at hsplit
    intro x hx
    cases hinner : before? plainFence (dumped F o) with
    | none =>
      simp [pieces, hinner] at hx
    | some y =>
      have hpiece : x = CodePoints.strip y := by simpa [pieces, hinner] using hx
      obtain ⟨y', -, hshort⟩ := before?_dumped_some hinner
      rw [hinner] at hsplit
      cases earlier with
      | nil =>
        have ht : CodePoints.strip y = t := (List.cons.inj hsplit).1
        have hle := length_strip_le y
        rw [ht] at hle
        omega
      | cons first earlier =>
        have hfirst : CodePoints.strip y = first := (List.cons.inj hsplit).1
        rw [hpiece, hfirst]
        exact hearlier first List.mem_cons_self

end RoundTrip

/-- An object comes back from a message exactly when its dump is whole, nests within the stack and has
nothing to find between its fences; and every text has a sound answer unless a candidate is nested too
deep. -/
theorem extract_json_object_iff (F : Json.FloatFormat φ) (levels maxChars : ℕ) :
    (∀ (o : DumpedObject φ) (inFence : Bool) (before after : Prose),
      extractJsonObject F.read levels maxChars (message F o inFence before after) =
          .ok (some o.fields) ↔ Extracts F o levels maxChars inFence before) ∧
      ∀ text, SoundLaw F.read levels maxChars text ↔ NotTooDeep F.read levels maxChars text :=
  ⟨fun _ _ _ _ => ⟨returns_extracts, extracts_returns⟩, soundLaw_iff⟩

/-! ## A dictionary with a block of its own -/

/-- For values without floats. -/
def noFloats : Json.FloatFormat Unit := Json.nanOnly

/-- Its string holds a fenced block with an empty dictionary in it. -/
def blockInString : DumpedObject Unit where
  fields := [(PyStr.ofString "a", .str (PyStr.ofString "```\x7b\x7d```"))]
  dumpable := .obj (by decide) (List.forall_mem_singleton.mpr (.str _))

def noProse : Prose := ⟨[], List.forall_mem_nil _⟩

/-- The empty dictionary comes back in its place. -/
theorem blockInString_replaced :
    ¬ (∀ o : DumpedObject Unit, (dumped noFloats o).length ≤ maxOutputChars →
      extractJsonObject noFloats.read 1000 maxOutputChars (message noFloats o false noProse noProse) =
        .ok (some o.fields)) := by
  intro h
  have hlength : (dumped noFloats blockInString).length ≤ maxOutputChars := by decide +kernel
  have hempty : ((extractJsonObject noFloats.read 1000 maxOutputChars
      (message noFloats blockInString false noProse noProse)).toOption.join.map List.length) =
        some 0 := by
    decide +kernel
  rw [h blockInString hlength] at hempty
  cases hempty

end OpenClaw.Llm
