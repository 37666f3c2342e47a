import OpenClaw.Foundation.CodePoints
import OpenClaw.Foundation.JsonQuotes
import OpenClaw.Foundation.JsonRoundTrip
import OpenClaw.Foundation.Literals

/-!
# The JSON decoder

`raw_decode` of `json.JSONDecoder` on a text of code points: the value at its front and the rest. Each
list and each dictionary takes one level of the stack; without a level left, the decoder raises a
`RecursionError`, and at any text that is no value a `ValueError`. `Spelled` is the grammar of what it
reads.
-/

namespace Foundation.JsonDecoder

open Json
set_option autoImplicit false

variable {φ : Type}

/-! ## Code points as characters -/

/-- A lone surrogate is nothing that JSON knows outside a string. -/
def toChar (c : CodePoint) : Char := Char.ofNat c.val

def point (c : Char) : CodePoint := Fin.ofNat 0x110000 c.toNat

def chars (t : CodePoints) : List Char := t.map toChar

@[simp] theorem toChar_point (c : Char) : toChar (point c) = c := by
  rw [toChar, point, CodePoints.val_ofChars, Char.ofNat_toNat]

theorem point_toChar {c : CodePoint} {d : Char} (h : toChar c = d) (hd : d ≠ '\x00') :
    c = point d := by
  rw [toChar] at h
  by_cases hvalid : c.val.isValidChar
  · apply Fin.ext
    rw [point, CodePoints.val_ofChars, ← h, Char.ofNat, dif_pos hvalid]
    rfl
  · rw [Char.ofNat, dif_neg hvalid] at h
    exact absurd h.symm hd

@[simp] theorem chars_ofChars (cs : List Char) : chars (CodePoints.ofChars cs) = cs := by
  unfold chars CodePoints.ofChars
  rw [List.map_map]
  conv_rhs => rw [← List.map_id cs]
  exact List.map_congr_left fun c _ => toChar_point c

@[simp] theorem chars_append (s t : CodePoints) : chars (s ++ t) = chars s ++ chars t :=
  List.map_append

@[simp] theorem chars_cons (c : CodePoint) (t : CodePoints) : chars (c :: t) = toChar c :: chars t :=
  rfl

@[simp] theorem length_chars (t : CodePoints) : (chars t).length = t.length := List.length_map _

theorem ofChars_chars {t : CodePoints} {cs : List Char} (h : chars t = cs)
    (hcs : ∀ c ∈ cs, c ≠ '\x00') : t = CodePoints.ofChars cs := by
  subst h
  unfold chars CodePoints.ofChars
  rw [List.map_map]
  conv_lhs => rw [← List.map_id t]
  exact List.map_congr_left fun c hc =>
    point_toChar rfl (hcs _ (List.mem_map_of_mem hc))

/-! ## The decoder -/

inductive DecodeError where
  | value | recursion
  deriving DecidableEq

def isBlank (c : CodePoint) : Bool := isSpace (toChar c)

def skipBlank (t : CodePoints) : CodePoints := t.dropWhile isBlank

def expect? (c : Char) : CodePoints → Option CodePoints
  | [] => none
  | d :: t => if toChar d = c then some t else none

def prependUnits (us : PyStr) (r : PyStr × CodePoints) : PyStr × CodePoints := (us ++ r.1, r.2)

/-- The rest of a string literal after its opening quote. -/
def scanText : CodePoints → Option (PyStr × CodePoints)
  | [] => none
  | c :: rest =>
    if toChar c = '"' then some ([], rest)
    else if toChar c = '\\' then
      match rest with
      | [] => none
      | e :: rest =>
        if toChar e = 'u' then
          match rest with
          | h₁ :: h₂ :: h₃ :: h₄ :: rest =>
            match hexUnit? (toChar h₁) (toChar h₂) (toChar h₃) (toChar h₄) with
            | some u => (scanText rest).map (prependUnits [u])
            | none => none
          | _ => none
        else
          match escape? (toChar e) with
          | some u => (scanText rest).map (prependUnits [u])
          | none => none
    -- control characters must be escaped
    else if c.val < 32 then none
    else (scanText rest).map (prependUnits (PyStr.units c.val))

section Decode
variable (read : List Char → φ)

def readWord? (cs : List Char) : Option (Json φ × List Char) :=
  (words read).findSome? fun w => (stripPrefix w.1 cs).map fun rest => (w.2, rest)

/-- An integer of too many digits is a `ValueError`. -/
def numberValue? (int frac : List Char) : Option (Json φ) :=
  if frac ≠ [] then some (.float (read (int ++ frac)))
  else if PyText.maxStrDigits < (int.filter Char.isDigit).length then none
  else some (.int (readInt int))

def readNumber? (cs : List Char) : Option (Json φ × List Char) :=
  (scanNumber cs).bind fun r => (numberValue? read r.1 r.2.1).map fun j => (j, r.2.2)

def readScalar? (cs : List Char) : Option (Json φ × List Char) :=
  (readWord? read cs).orElse fun _ => readNumber? read cs

mutual

/-- The value at the front of the text; the recursion is on the fuel. -/
def decodeValue : ℕ → ℕ → CodePoints → Except DecodeError (Json φ × CodePoints)
  | _, 0, _ => .error .value
  | _, _ + 1, [] => .error .value
  | levels, n + 1, c :: t =>
    if toChar c = '"' then
      match scanText t with
      | some r => .ok (.str r.1, r.2)
      | none => .error .value
    else if toChar c = '[' then
      match levels with
      | 0 => .error .recursion
      | levels + 1 =>
        match expect? ']' (skipBlank t) with
        | some rest => .ok (.arr [], rest)
        | none => (decodeItems levels n (skipBlank t)).map fun r => (.arr r.1, r.2)
    else if toChar c = '{' then
      match levels with
      | 0 => .error .recursion
      | levels + 1 =>
        match expect? '}' (skipBlank t) with
        | some rest => .ok (.obj [], rest)
        | none => (decodeFields levels n (skipBlank t)).map fun r => (.obj (dict r.1), r.2)
    else
      match readScalar? read (chars (c :: t)) with
      | some r => .ok (r.1, (c :: t).drop ((c :: t).length - r.2.length))
      | none => .error .value

def decodeItems : ℕ → ℕ → CodePoints → Except DecodeError (List (Json φ) × CodePoints)
  | _, 0, _ => .error .value
  | levels, n + 1, t =>
    match decodeValue levels n t with
    | .error e => .error e
    | .ok (j, rest) =>
      match skipBlank rest with
      | [] => .error .value
      | c :: rest =>
        if toChar c = ',' then
          (decodeItems levels n (skipBlank rest)).map fun r => (j :: r.1, r.2)
        else if toChar c = ']' then .ok ([j], rest)
        else .error .value

def decodeFields : ℕ → ℕ → CodePoints → Except DecodeError (List (PyStr × Json φ) × CodePoints)
  | _, 0, _ => .error .value
  | levels, n + 1, t =>
    match (expect? '"' t).bind scanText with
    | none => .error .value
    | some (k, rest) =>
      match expect? ':' (skipBlank rest) with
      | none => .error .value
      | some rest =>
        match decodeValue levels n (skipBlank rest) with
        | .error e => .error e
        | .ok (j, rest) =>
          match skipBlank rest with
          | [] => .error .value
          | c :: rest =>
            if toChar c = ',' then
              (decodeFields levels n (skipBlank rest)).map fun r => ((k, j) :: r.1, r.2)
            else if toChar c = '}' then .ok ([(k, j)], rest)
            else .error .value

end

def rawDecode (levels : ℕ) (t : CodePoints) : Except DecodeError (Json φ × CodePoints) :=
  decodeValue read levels (2 * t.length) t

/-- `json.loads`. -/
def loads (levels : ℕ) (t : CodePoints) : Except DecodeError (Json φ) :=
  match rawDecode read levels (skipBlank t) with
  | .error e => .error e
  | .ok (j, rest) => if skipBlank rest = [] then .ok j else .error .value

end Decode

/-! ## The grammar -/

def Blank (t : CodePoints) : Prop := ∀ c ∈ t, isBlank c = true

/-- A value, or what stands behind the bracket of a list or of a dictionary. -/
inductive Part (φ : Type) where
  | value (j : Json φ)
  | items (js : List (Json φ))
  | fields (fs : List (PyStr × Json φ))

/-- The text spells the part within the levels. -/
inductive Spelled (read : List Char → φ) : ℕ → Part φ → CodePoints → Prop
  | str {levels body s} (hbody : scanText body = some (s, [])) :
      Spelled read levels (.value (.str s)) (point '"' :: body)
  | word {levels w j} (hw : (w, j) ∈ words read) :
      Spelled read levels (.value j) (CodePoints.ofChars w)
  | number {levels x j} (hx : readNumber? read x = some (j, [])) :
      Spelled read levels (.value j) (CodePoints.ofChars x)
  | emptyList {levels sp} (hsp : Blank sp) :
      Spelled read (levels + 1) (.value (.arr [])) (point '[' :: (sp ++ [point ']']))
  | list {levels sp js t} (hsp : Blank sp) (ht : Spelled read levels (.items js) t) :
      Spelled read (levels + 1) (.value (.arr js)) (point '[' :: (sp ++ t))
  | emptyDict {levels sp} (hsp : Blank sp) :
      Spelled read (levels + 1) (.value (.obj [])) (point '{' :: (sp ++ [point '}']))
  | dict {levels sp fs t} (hsp : Blank sp) (ht : Spelled read levels (.fields fs) t) :
      Spelled read (levels + 1) (.value (.obj (Json.dict fs))) (point '{' :: (sp ++ t))
  | lastItem {levels j t sp} (ht : Spelled read levels (.value j) t) (hsp : Blank sp) :
      Spelled read levels (.items [j]) (t ++ (sp ++ [point ']']))
  | item {levels j js t sp sp' t'} (ht : Spelled read levels (.value j) t) (hsp : Blank sp)
      (hsp' : Blank sp') (ht' : Spelled read levels (.items js) t') :
      Spelled read levels (.items (j :: js)) (t ++ (sp ++ point ',' :: (sp' ++ t')))
  | lastField {levels k j body sp sp' t sp''} (hbody : scanText body = some (k, []))
      (hsp : Blank sp) (hsp' : Blank sp') (ht : Spelled read levels (.value j) t)
      (hsp'' : Blank sp'') :
      Spelled read levels (.fields [(k, j)])
        (point '"' :: (body ++ (sp ++ point ':' :: (sp' ++ (t ++ (sp'' ++ [point '}']))))))
  | field {levels k j fs body sp sp' t sp'' sp₃ t'} (hbody : scanText body = some (k, []))
      (hsp : Blank sp) (hsp' : Blank sp') (ht : Spelled read levels (.value j) t)
      (hsp'' : Blank sp'') (hsp₃ : Blank sp₃) (ht' : Spelled read levels (.fields fs) t') :
      Spelled read levels (.fields ((k, j) :: fs))
        (point '"' :: (body ++ (sp ++ point ':' :: (sp' ++ (t ++ (sp'' ++ point ',' ::
          (sp₃ ++ t')))))))

/-! ## Number literals alone -/

def NoDigit (y : List Char) : Prop := ∀ c cs, y = c :: cs → c.isDigit = false

theorem digits_append_of {ds y : List Char} (hds : ∀ c ∈ ds, c.isDigit = true) (hy : NoDigit y) :
    digits (ds ++ y) = ds ∧ afterDigits (ds ++ y) = y := by
  unfold digits afterDigits
  rw [List.takeWhile_append_of_pos hds, List.dropWhile_append_of_pos hds]
  cases y with
  | nil => simp
  | cons c cs => simp [hy c cs rfl]

theorem isDigit_of_mem_digits {x : List Char} : ∀ c ∈ digits x, c.isDigit = true := fun _ hc =>
  List.mem_takeWhile_imp hc

theorem scanExpSign_alone {x : List Char} (h : digits (scanExpSign x).2 ≠ []) :
    scanExpSign ((scanExpSign x).1 ++ digits (scanExpSign x).2) =
      ((scanExpSign x).1, digits (scanExpSign x).2) := by
  obtain ⟨d, ds, hds⟩ := List.exists_cons_of_ne_nil h
  have hd : d.isDigit = true := isDigit_of_mem_digits d (by rw [hds]; exact List.mem_cons_self)
  rw [hds]
  cases x with
  | nil => exact absurd rfl h
  | cons c x =>
    unfold scanExpSign
    by_cases hc : c = '+' ∨ c = '-'
    · simp only [if_pos hc, List.cons_append, List.nil_append]
    · have hne : ¬ (d = '+' ∨ d = '-') := by
        rintro (rfl | rfl) <;> cases hd
      simp only [if_neg hc, List.nil_append, if_neg hne]

theorem scanExp_alone (x : List Char) : scanExp (scanExp x).1 = ((scanExp x).1, []) ∧
    ∀ c cs, (scanExp x).1 = c :: cs → c = 'e' ∨ c = 'E' := by
  cases x with
  | nil => exact ⟨rfl, fun c cs h => by cases h⟩
  | cons c x =>
    by_cases hc : (c = 'e' ∨ c = 'E') ∧ digits (scanExpSign x).2 ≠ []
    · have hfirst : (scanExp (c :: x)).1 = c :: ((scanExpSign x).1 ++ digits (scanExpSign x).2) := by
        rw [scanExp, if_pos hc]
      have hdigits := digits_append_of (y := [])
        (isDigit_of_mem_digits (x := (scanExpSign x).2)) (fun c cs h => by cases h)
      rw [List.append_nil] at hdigits
      rw [hfirst]
      refine ⟨?_, fun d ds h => by cases h; exact hc.1⟩
      rw [scanExp, scanExpSign_alone hc.2]
      dsimp only
      rw [hdigits.1, hdigits.2, if_pos hc]
    · rw [scanExp, if_neg hc]
      exact ⟨rfl, fun d ds h => by cases h⟩

theorem scanFrac_alone (x : List Char) {y : List Char}
    (hy : ∀ c cs, y = c :: cs → c = 'e' ∨ c = 'E') :
    scanFrac ((scanFrac x).1 ++ y) = ((scanFrac x).1, y) ∧
      ∀ c cs, (scanFrac x).1 = c :: cs → c = '.' := by
  have hnodigit : NoDigit y := by
    intro c cs h
    rcases hy c cs h with rfl | rfl <;> rfl
  have hnone : scanFrac ([] ++ y) = ([], y) := by
    cases y with
    | nil => rfl
    | cons c cs =>
      have hc : ¬ (c = '.' ∧ digits cs ≠ []) := by
        rintro ⟨rfl, -⟩
        rcases hy _ _ rfl with h | h <;> cases h
      rw [List.nil_append, scanFrac, if_neg hc]
  cases x with
  | nil => exact ⟨hnone, fun c cs h => by cases h⟩
  | cons c x =>
    by_cases hc : c = '.' ∧ digits x ≠ []
    · have hfirst : (scanFrac (c :: x)).1 = c :: digits x := by rw [scanFrac, if_pos hc]
      obtain ⟨hdigits, hafter⟩ := digits_append_of (isDigit_of_mem_digits (x := x)) hnodigit
      rw [hfirst]
      refine ⟨?_, fun d ds h => by cases h; exact hc.1⟩
      rw [List.cons_append, scanFrac, hdigits, hafter, if_pos hc]
    · rw [scanFrac, if_neg hc]
      exact ⟨hnone, fun d ds h => by cases h⟩

theorem scanNat_alone {x : List Char} {r : List Char × List Char} (h : scanNat x = some r)
    {y : List Char} (hy : NoDigit y) : scanNat (r.1 ++ y) = some (r.1, y) ∧
      ∃ c cs, r.1 = c :: cs ∧ c.isDigit = true := by
  cases x with
  | nil => cases h
  | cons c x =>
    rw [scanNat] at h
    split at h
    · cases h
      exact ⟨rfl, '0', [], rfl, rfl⟩
    · rename_i hzero
      split at h
      · rename_i hdigit
        cases h
        obtain ⟨hdigits, hafter⟩ := digits_append_of (isDigit_of_mem_digits (x := x)) hy
        refine ⟨?_, c, digits x, rfl, hdigit⟩
        rw [List.cons_append, scanNat, if_neg hzero, if_pos hdigit, hdigits, hafter]
      · cases h

/-- A number literal is read alone as it was read before what follows it. -/
theorem scanNumber_alone {x int frac left : List Char} (h : scanNumber x = some (int, frac, left)) :
    scanNumber (int ++ frac) = some (int, frac, []) := by
  unfold scanNumber at h
  obtain ⟨r, hnat, hr⟩ := Option.map_eq_some_iff.mp h
  cases hr
  obtain ⟨hexp, hexphead⟩ := scanExp_alone (scanFrac r.2).2
  obtain ⟨hfrac, hfrachead⟩ := scanFrac_alone r.2 hexphead
  have hnodigit : NoDigit ((scanFrac r.2).1 ++ (scanExp (scanFrac r.2).2).1) := by
    intro c cs hcons
    cases hf : (scanFrac r.2).1 with
    | nil =>
      rw [hf, List.nil_append] at hcons
      rcases hexphead c cs hcons with rfl | rfl <;> rfl
    | cons d ds =>
      rw [hf, List.cons_append] at hcons
      cases hcons
      rw [hfrachead _ _ hf]
      rfl
  obtain ⟨hnat', d, ds, hr, hd⟩ := scanNat_alone hnat hnodigit
  have hsign : scanSign ((scanSign x).1 ++ (r.1 ++
      ((scanFrac r.2).1 ++ (scanExp (scanFrac r.2).2).1))) =
        ((scanSign x).1, r.1 ++ ((scanFrac r.2).1 ++ (scanExp (scanFrac r.2).2).1)) := by
    have hcase : (scanSign x).1 = ['-'] ∨ (scanSign x).1 = [] := by
      unfold scanSign
      split
      · exact .inl rfl
      · exact .inr rfl
    rcases hcase with hminus | hplain
    · rw [hminus]
      rfl
    · rw [hplain, hr, List.nil_append, List.cons_append, scanSign]
      intro cs hcons
      cases hcons
      cases hd
  rw [scanNumber, List.append_assoc, hsign]
  dsimp only
  rw [hnat', Option.map_some]
  dsimp only
  rw [hfrac]
  dsimp only
  rw [hexp]

/-! ## Scalars -/

theorem map_prependUnits {us s : PyStr} {o : Option (PyStr × CodePoints)} {rest : CodePoints} :
    o.map (prependUnits us) = some (s, rest) ↔ ∃ s', o = some (s', rest) ∧ s = us ++ s' := by
  cases o with
  | none => simp
  | some r =>
    obtain ⟨s', rest'⟩ := r
    simp only [Option.map_some, prependUnits, Option.some.injEq, Prod.mk.injEq]
    constructor
    · rintro ⟨rfl, rfl⟩
      exact ⟨s', ⟨rfl, rfl⟩, rfl⟩
    · rintro ⟨s'', ⟨rfl, rfl⟩, rfl⟩
      exact ⟨rfl, rfl⟩

/-- The marks that one step of the scanner takes, and the units they are for: no mark is a quote of its
own. -/
structure Step (marks : CodePoints) (us : PyStr) : Prop where
  scan : ∀ y, scanText (marks ++ y) = (scanText y).map (prependUnits us)
  tally : Tally (chars marks) 0

theorem hexValue?_plain {c : Char} {n : ℕ} (h : hexValue? c = some n) : c ≠ '"' ∧ c ≠ '\\' := by
  constructor <;> rintro rfl <;> cases h

theorem hexUnit?_plain {a b c d : Char} {u : CodeUnit} (h : hexUnit? a b c d = some u) :
    ∀ x ∈ [a, b, c, d], x ≠ '"' ∧ x ≠ '\\' := by
  unfold hexUnit? at h
  split at h
  · rename_i ha hb hc hd
    intro x hx
    simp only [List.mem_cons, List.not_mem_nil, or_false] at hx
    rcases hx with rfl | rfl | rfl | rfl
    · exact hexValue?_plain ha
    · exact hexValue?_plain hb
    · exact hexValue?_plain hc
    · exact hexValue?_plain hd
  · cases h

theorem tally_escape (e : Char) : Tally ['\\', e] 0 := by
  unfold Tally
  rw [countQuotes, if_pos rfl, countQuotes]
  split
  · rfl
  · rw [if_neg (by simp)]
    rfl

theorem scanText_cases {c : CodePoint} {t : CodePoints} {s : PyStr} {rest : CodePoints}
    (h : scanText (c :: t) = some (s, rest)) :
    toChar c = '"' ∧ s = [] ∧ rest = t ∨
      ∃ marks us t' s', c :: t = marks ++ t' ∧ t'.length < (c :: t).length ∧ Step marks us ∧
        scanText t' = some (s', rest) ∧ s = us ++ s' := by
  rw [scanText.eq_def] at h
  dsimp only at h
  split at h
  · rename_i hc
    cases h
    exact .inl ⟨hc, rfl, rfl⟩
  rename_i hquote
  split at h
  · rename_i hslash
    split at h
    · cases h
    rename_i e t'
    split at h
    · rename_i hu
      split at h
      · rename_i h₁ h₂ h₃ h₄ t'
        split at h
        · rename_i u hunit
          obtain ⟨s', hs', rfl⟩ := map_prependUnits.mp h
          refine .inr ⟨[c, e, h₁, h₂, h₃, h₄], [u], t', s', rfl, ?_, ⟨fun y => ?_, ?_⟩, hs', rfl⟩
          · simp only [List.length_cons]
            omega
          · rw [List.cons_append, scanText.eq_def]
            simp [hslash, hu, hunit]
          · rw [chars_cons, hslash]
            exact (tally_escape (toChar e)).append (tally_plain (hexUnit?_plain hunit))
        · cases h
      · cases h
    · rename_i hu
      split at h
      · rename_i u hunit
        obtain ⟨s', hs', rfl⟩ := map_prependUnits.mp h
        refine .inr ⟨[c, e], [u], t', s', rfl, ?_, ⟨fun y => ?_, ?_⟩, hs', rfl⟩
        · simp only [List.length_cons]
          omega
        · rw [List.cons_append, scanText.eq_def]
          simp [hslash, hu, hunit]
        · rw [chars_cons, hslash]
          exact tally_escape (toChar e)
      · cases h
  · rename_i hslash
    split at h
    · cases h
    · rename_i hcontrol
      obtain ⟨s', hs', rfl⟩ := map_prependUnits.mp h
      refine .inr ⟨[c], PyStr.units c.val, t, s', rfl, ?_, ⟨fun y => ?_, ?_⟩, hs', rfl⟩
      · simp only [List.length_cons]
        omega
      · rw [List.cons_append, scanText.eq_def]
        simp only [hquote, hslash, hcontrol, List.nil_append, if_false]
      · exact tally_plain fun d hd => by rw [List.mem_singleton.mp hd]; exact ⟨hquote, hslash⟩

/-- A string literal is read whatever follows it, and has one quote behind its opening one. -/
theorem scanText_split {t : CodePoints} {s : PyStr} {rest : CodePoints}
    (h : scanText t = some (s, rest)) :
    ∃ body, t = body ++ rest ∧ (∀ rest', scanText (body ++ rest') = some (s, rest')) ∧
      Tally (chars body) 1 := by
  induction hn : t.length using Nat.strong_induction_on generalizing t s with
  | _ n ih =>
    cases t with
    | nil => cases h
    | cons c t =>
      rcases scanText_cases h with
        ⟨hc, rfl, rfl⟩ | ⟨marks, us, t', s', hsplit, hlt, hstep, hs', rfl⟩
      · refine ⟨[c], rfl, fun rest' => ?_, ?_⟩
        · rw [List.singleton_append, scanText.eq_def]
          simp only [hc, if_true]
        · rw [chars_cons, hc]
          rfl
      · obtain ⟨body, rfl, hbody, htally⟩ := ih t'.length (hn ▸ hlt) hs' rfl
        refine ⟨marks ++ body, by rw [hsplit, List.append_assoc], fun rest' => ?_, ?_⟩
        · rw [List.append_assoc, hstep.scan, hbody]
          rfl
        · rw [chars_append]
          exact hstep.tally.append htally

theorem scanText_append {body : CodePoints} {s : PyStr} (h : scanText body = some (s, []))
    (rest : CodePoints) : scanText (body ++ rest) = some (s, rest) := by
  obtain ⟨body', hsplit, hbody, -⟩ := scanText_split h
  rw [List.append_nil] at hsplit
  rw [hsplit]
  exact hbody rest

section Scalars
variable {read : List Char → φ}

theorem readWord?_eq_some {x left : List Char} {j : Json φ} (h : readWord? read x = some (j, left)) :
    ∃ w, (w, j) ∈ words read ∧ x = w ++ left := by
  obtain ⟨w, hw, hstrip⟩ := List.exists_of_findSome?_eq_some h
  obtain ⟨rest, hrest, heq⟩ := Option.map_eq_some_iff.mp hstrip
  cases heq
  refine ⟨w.1, hw, ?_⟩
  have hsplit : ∀ (w x rest : List Char), stripPrefix w x = some rest → x = w ++ rest := by
    intro w
    induction w with
    | nil =>
      intro x rest h
      cases h
      rfl
    | cons c w ih =>
      intro x rest h
      cases x with
      | nil => cases h
      | cons d x =>
        rw [stripPrefix] at h
        split at h
        · rename_i hc
          rw [hc, ih x rest h]
          rfl
        · cases h
  exact hsplit _ _ _ hrest

theorem readWord?_append {w : List Char} {j : Json φ} (hw : (w, j) ∈ words read) (y : List Char) :
    readWord? read (w ++ y) = some (j, y) := by
  simp only [words, List.mem_cons, Prod.mk.injEq, List.not_mem_nil, or_false] at hw
  rcases hw with ⟨rfl, rfl⟩ | ⟨rfl, rfl⟩ | ⟨rfl, rfl⟩ | ⟨rfl, rfl⟩ | ⟨rfl, rfl⟩ | ⟨rfl, rfl⟩ <;>
    simp [readWord?, words, stripPrefix, nan, infinity, minusInfinity]

theorem readNumber?_eq_some {x left : List Char} {j : Json φ} :
    readNumber? read x = some (j, left) ↔ ∃ int frac, scanNumber x = some (int, frac, left) ∧
      numberValue? read int frac = some j := by
  unfold readNumber?
  constructor
  · intro h
    obtain ⟨⟨int, frac, left'⟩, hscan, hr⟩ := Option.bind_eq_some_iff.mp h
    obtain ⟨j', hj', heq⟩ := Option.map_eq_some_iff.mp hr
    cases heq
    exact ⟨int, frac, hscan, hj'⟩
  · rintro ⟨int, frac, hscan, hj⟩
    rw [hscan, Option.bind_some, hj]
    rfl

/-- A number is read alone as it was read before what follows it. -/
theorem readNumber?_alone {x left : List Char} {j : Json φ} (h : readNumber? read x = some (j, left)) :
    ∃ z, x = z ++ left ∧ readNumber? read z = some (j, []) := by
  obtain ⟨int, frac, hscan, hj⟩ := readNumber?_eq_some.mp h
  exact ⟨int ++ frac, (scanNumber_split hscan).symm,
    readNumber?_eq_some.mpr ⟨int, frac, scanNumber_alone hscan, hj⟩⟩

theorem readNumber?_append {x y : List Char} {j : Json φ} (h : readNumber? read x = some (j, []))
    (hy : Follow y) : readNumber? read (x ++ y) = some (j, y) := by
  obtain ⟨int, frac, hscan, hj⟩ := readNumber?_eq_some.mp h
  exact readNumber?_eq_some.mpr ⟨int, frac, scanNumber_append hy hscan, hj⟩

/-- A scalar: a word or a number, and what is read of it before what follows. -/
theorem readScalar?_cases {x left : List Char} {j : Json φ} (h : readScalar? read x = some (j, left)) :
    ∃ z, x = z ++ left ∧ ((z, j) ∈ words read ∨ readNumber? read z = some (j, [])) := by
  unfold readScalar? at h
  cases hword : readWord? read x with
  | some r =>
    rw [hword] at h
    cases h
    obtain ⟨w, hw, hx⟩ := readWord?_eq_some hword
    exact ⟨w, hx, .inl hw⟩
  | none =>
    rw [hword] at h
    obtain ⟨z, hz, hnumber⟩ := readNumber?_alone h
    exact ⟨z, hz, .inr hnumber⟩

theorem readScalar?_append {z y : List Char} {j : Json φ}
    (h : (z, j) ∈ words read ∨ readNumber? read z = some (j, [])) (hy : Follow y) :
    readScalar? read (z ++ y) = some (j, y) := by
  unfold readScalar?
  rcases h with hw | hnumber
  · rw [readWord?_append hw]
    rfl
  · have happend := readNumber?_append hnumber hy
    obtain ⟨int, frac, hscan, -⟩ := readNumber?_eq_some.mp happend
    have hword : readWord? read (z ++ y) = none := words_number read hscan
    rw [hword, happend]
    rfl

/-- The first character of a scalar. -/
theorem scalar_head {z : List Char} {j : Json φ}
    (h : (z, j) ∈ words read ∨ readNumber? read z = some (j, [])) :
    ∃ c cs, z = c :: cs ∧ Starts c ∧ c ≠ '"' ∧ c ≠ '[' ∧ c ≠ '{' := by
  rcases h with hw | hnumber
  · simp only [words, nan, infinity, minusInfinity, List.mem_cons, Prod.mk.injEq, List.not_mem_nil,
      or_false] at hw
    rcases hw with ⟨rfl, -⟩ | ⟨rfl, -⟩ | ⟨rfl, -⟩ | ⟨rfl, -⟩ | ⟨rfl, -⟩ | ⟨rfl, -⟩ <;>
      exact ⟨_, _, rfl, .inr (by decide), by decide, by decide, by decide⟩
  · obtain ⟨int, frac, hscan, -⟩ := readNumber?_eq_some.mp hnumber
    obtain ⟨c, cs, rfl, hstart⟩ := scanNumber_head hscan
    exact ⟨c, cs, rfl, hstart, number_head hscan rfl⟩

theorem plain_of_all {z : List Char}
    (h : (z.all fun c => c ≠ '"' ∧ c ≠ '\\' ∧ c ≠ '\x00') = true) :
    ∀ c ∈ z, c ≠ '"' ∧ c ≠ '\\' ∧ c ≠ '\x00' :=
  fun c hc => of_decide_eq_true (List.all_eq_true.mp h c hc)

/-- The characters of a scalar are neither quotes nor backslashes, and none is a lone surrogate. -/
theorem scalar_chars {z : List Char} {j : Json φ}
    (h : (z, j) ∈ words read ∨ readNumber? read z = some (j, [])) :
    ∀ c ∈ z, c ≠ '"' ∧ c ≠ '\\' ∧ c ≠ '\x00' := by
  rcases h with hw | hnumber
  · simp only [words, nan, infinity, minusInfinity, List.mem_cons, Prod.mk.injEq, List.not_mem_nil,
      or_false] at hw
    rcases hw with ⟨rfl, -⟩ | ⟨rfl, -⟩ | ⟨rfl, -⟩ | ⟨rfl, -⟩ | ⟨rfl, -⟩ | ⟨rfl, -⟩ <;>
      exact plain_of_all (by decide)
  · obtain ⟨int, frac, hscan, -⟩ := readNumber?_eq_some.mp hnumber
    have hplain : NumberChars fun c => c ≠ '"' ∧ c ≠ '\\' ∧ c ≠ '\x00' := by
      constructor
      · intro c hc
        refine ⟨?_, ?_, ?_⟩ <;> rintro rfl <;> cases hc
      · exact plain_of_all (by decide)
    exact number_chars hplain hscan

end Scalars

/-! ## What is read is spelled -/

theorem map_eq_ok {α β : Type*} {x : Except DecodeError α} {g : α → β} {b : β} :
    x.map g = .ok b ↔ ∃ a, x = .ok a ∧ g a = b := by
  cases x <;> simp [Except.map]

theorem expect?_eq_some {c : Char} (hc : c ≠ '\x00') {t rest : CodePoints} :
    expect? c t = some rest ↔ t = point c :: rest := by
  cases t with
  | nil => simp [expect?]
  | cons d t =>
    rw [expect?]
    split
    · rename_i hd
      rw [point_toChar hd hc]
      simp
    · rename_i hd
      refine iff_of_false (by simp) fun h => hd ?_
      cases h
      exact toChar_point c

theorem skipBlank_split (t : CodePoints) : ∃ sp, Blank sp ∧ t = sp ++ skipBlank t :=
  ⟨t.takeWhile isBlank, fun _ hc => List.mem_takeWhile_imp hc, List.takeWhile_append_dropWhile.symm⟩

theorem skipBlank_blanks {sp : CodePoints} (hsp : Blank sp) (t : CodePoints) :
    skipBlank (sp ++ t) = skipBlank t :=
  List.dropWhile_append_of_pos hsp

theorem skipBlank_of_head {c : CodePoint} {t : CodePoints} (h : isBlank c = false) :
    skipBlank (c :: t) = c :: t := by
  rw [skipBlank, List.dropWhile_cons_of_neg]
  simp [h]

section Read
variable {read : List Char → φ} {levels n : ℕ}

theorem decodeScalar_sound {c : CodePoint} {t : CodePoints} {r : Json φ × List Char}
    (h : readScalar? read (chars (c :: t)) = some r) :
    ∃ z, c :: t = CodePoints.ofChars z ++ (c :: t).drop ((c :: t).length - r.2.length) ∧
      Spelled read levels (.value r.1) (CodePoints.ofChars z) := by
  obtain ⟨j, left⟩ := r
  obtain ⟨z, hz, hscalar⟩ := readScalar?_cases h
  have hlength : (c :: t).length - left.length = z.length := by
    have hsum := congrArg List.length hz
    rw [length_chars, List.length_append] at hsum
    omega
  have htake : (c :: t).take z.length = CodePoints.ofChars z := by
    apply ofChars_chars
    · unfold chars
      rw [List.map_take]
      exact (congrArg (List.take z.length) hz).trans (List.take_left ..)
    · intro d hd
      exact (scalar_chars hscalar d hd).2.2
  refine ⟨z, ?_, ?_⟩
  · dsimp only
    rw [hlength, ← htake, List.take_append_drop]
  · rcases hscalar with hw | hnumber
    · exact .word hw
    · exact .number hnumber

/-- What the decoder reads is spelled at the front of the text. -/
theorem decode_sound (read : List Char → φ) (n : ℕ) :
    (∀ levels t j rest, decodeValue read levels n t = .ok (j, rest) →
      ∃ front, t = front ++ rest ∧ Spelled read levels (.value j) front) ∧
    (∀ levels t js rest, decodeItems read levels n t = .ok (js, rest) →
      ∃ front, t = front ++ rest ∧ Spelled read levels (.items js) front) ∧
    ∀ levels t fs rest, decodeFields read levels n t = .ok (fs, rest) →
      ∃ front, t = front ++ rest ∧ Spelled read levels (.fields fs) front := by
  induction n with
  | zero =>
    refine ⟨?_, ?_, ?_⟩
    · intro levels t j rest h
      rw [decodeValue] at h
      cases h
    · intro levels t js rest h
      rw [decodeItems] at h
      cases h
    · intro levels t fs rest h
      rw [decodeFields] at h
      cases h
  | succ n ih =>
    obtain ⟨ihvalue, ihitems, ihfields⟩ := ih
    refine ⟨?_, ?_, ?_⟩
    · intro levels t j rest h
      cases t with
      | nil =>
        rw [decodeValue] at h
        cases h
      | cons c t =>
        rw [decodeValue.eq_def] at h
        dsimp only at h
        split at h
        · rename_i hc
          split at h
          · rename_i r hr
            cases h
            obtain ⟨body, rfl, hbody, -⟩ := scanText_split hr
            refine ⟨c :: body, rfl, ?_⟩
            rw [point_toChar hc (by decide)]
            exact .str (by simpa using hbody [])
          · cases h
        split at h
        · rename_i hc
          rw [point_toChar hc (by decide)]
          obtain ⟨sp, hsp, ht⟩ := skipBlank_split t
          split at h
          · cases h
          split at h
          · rename_i tail htail
            cases h
            rw [expect?_eq_some (by decide)] at htail
            rw [htail] at ht
            exact ⟨_, by rw [ht]; simp, .emptyList hsp⟩
          · obtain ⟨⟨js, tail⟩, hr, heq⟩ := map_eq_ok.mp h
            cases heq
            obtain ⟨front, hfront, hspelled⟩ := ihitems _ _ _ _ hr
            rw [hfront] at ht
            exact ⟨_, by rw [ht]; simp, .list hsp hspelled⟩
        split at h
        · rename_i hc
          rw [point_toChar hc (by decide)]
          obtain ⟨sp, hsp, ht⟩ := skipBlank_split t
          split at h
          · cases h
          split at h
          · rename_i tail htail
            cases h
            rw [expect?_eq_some (by decide)] at htail
            rw [htail] at ht
            exact ⟨_, by rw [ht]; simp, .emptyDict hsp⟩
          · obtain ⟨⟨fs, tail⟩, hr, heq⟩ := map_eq_ok.mp h
            cases heq
            obtain ⟨front, hfront, hspelled⟩ := ihfields _ _ _ _ hr
            rw [hfront] at ht
            exact ⟨_, by rw [ht]; simp, .dict hsp hspelled⟩
        · split at h
          · rename_i r hr
            cases h
            obtain ⟨z, hz, hspelled⟩ := decodeScalar_sound hr
            exact ⟨_, hz, hspelled⟩
          · cases h
    · intro levels t js rest h
      rw [decodeItems] at h
      split at h
      · cases h
      rename_i j tail hvalue
      obtain ⟨front, rfl, hspelled⟩ := ihvalue _ _ _ _ hvalue
      obtain ⟨sp, hsp, htail⟩ := skipBlank_split tail
      split at h
      · cases h
      rename_i c after hskip
      rw [hskip] at htail
      split at h
      · rename_i hc
        obtain ⟨⟨js', tail'⟩, hr, heq⟩ := map_eq_ok.mp h
        cases heq
        obtain ⟨front', hfront', hspelled'⟩ := ihitems _ _ _ _ hr
        obtain ⟨sp', hsp', hafter⟩ := skipBlank_split after
        rw [hfront'] at hafter
        rw [hafter, point_toChar hc (by decide)] at htail
        exact ⟨_, by rw [htail]; simp, .item hspelled hsp hsp' hspelled'⟩
      split at h
      · rename_i hc
        cases h
        rw [point_toChar hc (by decide)] at htail
        exact ⟨_, by rw [htail]; simp, .lastItem hspelled hsp⟩
      · cases h
    · intro levels t fs rest h
      rw [decodeFields] at h
      split at h
      · cases h
      rename_i k tail hkey
      obtain ⟨literal, hliteral, hscan⟩ := Option.bind_eq_some_iff.mp hkey
      rw [expect?_eq_some (by decide)] at hliteral
      obtain ⟨body, rfl, hbody, -⟩ := scanText_split hscan
      have hbody' : scanText body = some (k, []) := by simpa using hbody []
      obtain ⟨sp, hsp, htail⟩ := skipBlank_split tail
      split at h
      · cases h
      rename_i colon hcolon
      rw [expect?_eq_some (by decide)] at hcolon
      rw [hcolon] at htail
      obtain ⟨sp', hsp', hcolon'⟩ := skipBlank_split colon
      split at h
      · cases h
      rename_i j after hvalue
      obtain ⟨front, hfront, hspelled⟩ := ihvalue _ _ _ _ hvalue
      obtain ⟨sp'', hsp'', hafter⟩ := skipBlank_split after
      rw [hfront] at hcolon'
      split at h
      · cases h
      rename_i c last hskip
      rw [hskip] at hafter
      split at h
      · rename_i hc
        obtain ⟨⟨fs', tail'⟩, hr, heq⟩ := map_eq_ok.mp h
        cases heq
        obtain ⟨front', hfront', hspelled'⟩ := ihfields _ _ _ _ hr
        obtain ⟨sp₃, hsp₃, hlast⟩ := skipBlank_split last
        rw [hfront'] at hlast
        rw [hlast, point_toChar hc (by decide)] at hafter
        exact ⟨_, by rw [hliteral, htail, hcolon', hafter]; simp,
          .field hbody' hsp hsp' hspelled hsp'' hsp₃ hspelled'⟩
      split at h
      · rename_i hc
        cases h
        rw [point_toChar hc (by decide)] at hafter
        exact ⟨_, by rw [hliteral, htail, hcolon', hafter]; simp,
          .lastField hbody' hsp hsp' hspelled hsp''⟩
      · cases h

/-! ## What is spelled is read -/

theorem spelled_head {part : Part φ} {t : CodePoints} (h : Spelled read levels part t) :
    ∃ c cs, t = c :: cs ∧ Starts (toChar c) := by
  have hscalar : ∀ {z : List Char} {j : Json φ},
      ((z, j) ∈ words read ∨ readNumber? read z = some (j, [])) →
        ∃ c cs, CodePoints.ofChars z = c :: cs ∧ Starts (toChar c) := by
    intro z j hz
    obtain ⟨c, cs, rfl, hstarts, -⟩ := scalar_head hz
    exact ⟨point c, CodePoints.ofChars cs, rfl, by rwa [toChar_point]⟩
  have hmark : ∀ {c : Char} {t : CodePoints}, Starts c →
      ∃ d cs, point c :: t = d :: cs ∧ Starts (toChar d) :=
    fun {c t} hc => ⟨point c, t, rfl, by rwa [toChar_point]⟩
  induction h with
  | str _ => exact hmark (.inr (by decide))
  | word hw => exact hscalar (.inl hw)
  | number hx => exact hscalar (.inr hx)
  | emptyList _ => exact hmark (.inr (by decide))
  | list _ _ _ => exact hmark (.inr (by decide))
  | emptyDict _ => exact hmark (.inr (by decide))
  | dict _ _ _ => exact hmark (.inr (by decide))
  | lastItem _ _ ih =>
    obtain ⟨c, cs, rfl, hc⟩ := ih
    exact ⟨c, _, rfl, hc⟩
  | item _ _ _ _ ih _ =>
    obtain ⟨c, cs, rfl, hc⟩ := ih
    exact ⟨c, _, rfl, hc⟩
  | lastField _ _ _ _ _ _ => exact hmark (.inr (by decide))
  | field _ _ _ _ _ _ _ _ _ => exact hmark (.inr (by decide))

theorem skipBlank_spelled {part : Part φ} {sp t : CodePoints} (hsp : Blank sp)
    (h : Spelled read levels part t) (rest : CodePoints) :
    skipBlank (sp ++ (t ++ rest)) = t ++ rest := by
  obtain ⟨c, cs, rfl, hc⟩ := spelled_head h
  rw [skipBlank_blanks hsp, List.cons_append, skipBlank_of_head hc.facts.1]

theorem skipBlank_point {sp : CodePoints} (hsp : Blank sp) {c : Char} (hc : isSpace c = false)
    (rest : CodePoints) : skipBlank (sp ++ point c :: rest) = point c :: rest := by
  rw [skipBlank_blanks hsp, skipBlank_of_head]
  rw [isBlank, toChar_point]
  exact hc

theorem expect?_point (c : Char) (rest : CodePoints) : expect? c (point c :: rest) = some rest := by
  rw [expect?, if_pos (toChar_point c)]

theorem expect?_spelled {part : Part φ} {t : CodePoints} (h : Spelled read levels part t) {c : Char}
    (hc : ¬ Starts c) (rest : CodePoints) : expect? c (t ++ rest) = none := by
  obtain ⟨d, cs, rfl, hd⟩ := spelled_head h
  rw [List.cons_append, expect?, if_neg]
  rintro rfl
  exact hc hd

/-- What must follow a value, that it ends there: nothing in particular behind a mark of its own. -/
def Delimited (j : Json φ) (rest : CodePoints) : Prop :=
  match j with
  | .str _ => True
  | .arr _ => True
  | .obj _ => True
  | _ => Follow (chars rest)

theorem Delimited.of_follow {j : Json φ} {rest : CodePoints} (h : Follow (chars rest)) :
    Delimited j rest := by
  cases j with
  | str _ => trivial
  | arr _ => trivial
  | obj _ => trivial
  | _ => exact h

theorem follow_mark {sp : CodePoints} (hsp : Blank sp) {c : Char}
    (hc : c.isDigit = false ∧ c ∉ ['.', 'e', 'E', '+', '-']) (rest : CodePoints) :
    Follow (chars (sp ++ point c :: rest)) := by
  rw [chars_append, chars_cons, toChar_point]
  refine follow_blanks (fun d hd => ?_) (follow_cons hc _)
  obtain ⟨b, hb, rfl⟩ := List.mem_map.mp hd
  exact hsp b hb

/-- The part is read whatever follows that may. -/
def Reads (read : List Char → φ) (levels : ℕ) : Part φ → CodePoints → Prop
  | .value j, t => ∀ n rest, 2 * t.length ≤ n → Delimited j rest →
      decodeValue read levels n (t ++ rest) = .ok (j, rest)
  | .items js, t => ∀ n rest, 2 * t.length + 1 ≤ n →
      decodeItems read levels n (t ++ rest) = .ok (js, rest)
  | .fields fs, t => ∀ n rest, 2 * t.length + 1 ≤ n →
      decodeFields read levels n (t ++ rest) = .ok (fs, rest)

theorem Delimited.follow {z : List Char} {j : Json φ} {rest : CodePoints}
    (hz : (z, j) ∈ words read ∨ readNumber? read z = some (j, [])) (h : Delimited j rest) :
    Follow (chars rest) := by
  rcases hz with hw | hnumber
  · simp only [words, List.mem_cons, Prod.mk.injEq, List.not_mem_nil, or_false] at hw
    rcases hw with ⟨-, rfl⟩ | ⟨-, rfl⟩ | ⟨-, rfl⟩ | ⟨-, rfl⟩ | ⟨-, rfl⟩ | ⟨-, rfl⟩ <;> exact h
  · obtain ⟨int, frac, -, hvalue⟩ := readNumber?_eq_some.mp hnumber
    unfold numberValue? at hvalue
    split at hvalue
    · cases hvalue
      exact h
    · split at hvalue
      · cases hvalue
      · cases hvalue
        exact h

theorem reads_scalar_text {z : List Char} {j : Json φ}
    (hz : (z, j) ∈ words read ∨ readNumber? read z = some (j, [])) :
    Reads read levels (.value j) (CodePoints.ofChars z) := by
  intro n rest hn hrest
  have happend := readScalar?_append hz (hrest.follow hz)
  obtain ⟨c, cs, rfl, -, hquote, hbracket, hbrace⟩ := scalar_head hz
  have hlength : (CodePoints.ofChars (c :: cs)).length = (c :: cs).length := List.length_map _
  obtain ⟨n, rfl⟩ : ∃ m, n = m + 1 := ⟨n - 1, by rw [hlength, List.length_cons] at hn; omega⟩
  have hcons : CodePoints.ofChars (c :: cs) ++ rest = point c :: (CodePoints.ofChars cs ++ rest) := rfl
  have hread : readScalar? read (chars (point c :: (CodePoints.ofChars cs ++ rest))) =
      some (j, chars rest) := by
    rw [← hcons, chars_append, chars_ofChars]
    exact happend
  rw [hcons, decodeValue.eq_def]
  simp only [toChar_point, if_neg hquote, if_neg hbracket, if_neg hbrace, hread]
  have hdrop : (point c :: (CodePoints.ofChars cs ++ rest)).length - (chars rest).length =
      (CodePoints.ofChars (c :: cs)).length := by
    rw [← hcons, List.length_append, length_chars]
    omega
  rw [hdrop, ← hcons, List.drop_left]

/-- What is spelled is read, as soon as the fuel is twice its length. -/
theorem decode_complete {part : Part φ} {t : CodePoints} (h : Spelled read levels part t) :
    Reads read levels part t := by
  induction h with
  | @str levels body s hbody =>
    intro n rest hn _
    obtain ⟨n, rfl⟩ : ∃ m, n = m + 1 := ⟨n - 1, by rw [List.length_cons] at hn; omega⟩
    rw [List.cons_append, decodeValue.eq_def]
    simp only [toChar_point, if_true, scanText_append hbody]
  | word hw => exact reads_scalar_text (.inl hw)
  | number hx => exact reads_scalar_text (.inr hx)
  | @emptyList levels sp hsp =>
    intro n rest hn _
    obtain ⟨n, rfl⟩ : ∃ m, n = m + 1 := ⟨n - 1, by rw [List.length_cons] at hn; omega⟩
    rw [List.cons_append, List.append_assoc, decodeValue.eq_def]
    simp only [toChar_point, Char.reduceEq, if_false, if_true, List.singleton_append,
      skipBlank_point hsp (c := ']') rfl, expect?_point]
  | @list levels sp js t hsp ht ih =>
    intro n rest hn _
    rw [List.length_cons, List.length_append] at hn
    obtain ⟨n, rfl⟩ : ∃ m, n = m + 1 := ⟨n - 1, by omega⟩
    rw [List.cons_append, List.append_assoc, decodeValue.eq_def]
    simp only [toChar_point, Char.reduceEq, if_false, if_true, skipBlank_spelled hsp ht,
      expect?_spelled ht fun h : Starts ']' => h.facts.2.1 rfl, ih n rest (by omega)]
    rfl
  | @emptyDict levels sp hsp =>
    intro n rest hn _
    obtain ⟨n, rfl⟩ : ∃ m, n = m + 1 := ⟨n - 1, by rw [List.length_cons] at hn; omega⟩
    rw [List.cons_append, List.append_assoc, decodeValue.eq_def]
    simp only [toChar_point, Char.reduceEq, if_false, if_true, List.singleton_append,
      skipBlank_point hsp (c := '}') rfl, expect?_point]
  | @dict levels sp fs t hsp ht ih =>
    intro n rest hn _
    rw [List.length_cons, List.length_append] at hn
    obtain ⟨n, rfl⟩ : ∃ m, n = m + 1 := ⟨n - 1, by omega⟩
    rw [List.cons_append, List.append_assoc, decodeValue.eq_def]
    simp only [toChar_point, Char.reduceEq, if_false, if_true, skipBlank_spelled hsp ht,
      expect?_spelled ht fun h : Starts '}' => h.facts.2.2 rfl, ih n rest (by omega)]
    rfl
  | @lastItem levels j t sp ht hsp ih =>
    intro n rest hn
    simp only [List.length_append] at hn
    obtain ⟨n, rfl⟩ : ∃ m, n = m + 1 := ⟨n - 1, by omega⟩
    have hvalue := ih n (sp ++ point ']' :: rest) (by omega)
      (.of_follow (follow_mark hsp (by decide) rest))
    rw [List.append_assoc, List.append_assoc, List.singleton_append, decodeItems, hvalue]
    simp only [skipBlank_point hsp (c := ']') rfl, toChar_point, Char.reduceEq, if_false, if_true]
  | @item levels j js t sp sp' t' ht hsp hsp' ht' ih ih' =>
    intro n rest hn
    simp only [List.length_append, List.length_cons] at hn
    obtain ⟨n, rfl⟩ : ∃ m, n = m + 1 := ⟨n - 1, by omega⟩
    have hvalue := ih n (sp ++ point ',' :: (sp' ++ (t' ++ rest))) (by omega)
      (.of_follow (follow_mark hsp (by decide) _))
    simp only [List.append_assoc, List.cons_append]
    rw [decodeItems, hvalue]
    simp only [skipBlank_point hsp (c := ',') rfl, toChar_point, if_true, skipBlank_spelled hsp' ht',
      ih' n rest (by omega)]
    rfl
  | @lastField levels k j body sp sp' t sp'' hbody hsp hsp' ht hsp'' ih =>
    intro n rest hn
    simp only [List.length_append, List.length_cons] at hn
    obtain ⟨n, rfl⟩ : ∃ m, n = m + 1 := ⟨n - 1, by omega⟩
    have hvalue := ih n (sp'' ++ point '}' :: rest) (by omega)
      (.of_follow (follow_mark hsp'' (by decide) rest))
    simp only [List.append_assoc, List.cons_append, List.nil_append]
    rw [decodeFields]
    simp only [expect?_point, Option.bind_some, scanText_append hbody,
      skipBlank_point hsp (c := ':') rfl, skipBlank_spelled hsp' ht, hvalue,
      skipBlank_point hsp'' (c := '}') rfl, toChar_point, Char.reduceEq, if_false, if_true]
  | @field levels k j fs body sp sp' t sp'' sp₃ t' hbody hsp hsp' ht hsp'' hsp₃ ht' ih ih' =>
    intro n rest hn
    simp only [List.length_append, List.length_cons] at hn
    obtain ⟨n, rfl⟩ : ∃ m, n = m + 1 := ⟨n - 1, by omega⟩
    have hvalue := ih n (sp'' ++ point ',' :: (sp₃ ++ (t' ++ rest))) (by omega)
      (.of_follow (follow_mark hsp'' (by decide) _))
    simp only [List.append_assoc, List.cons_append]
    rw [decodeFields]
    simp only [expect?_point, Option.bind_some, scanText_append hbody,
      skipBlank_point hsp (c := ':') rfl, skipBlank_spelled hsp' ht, hvalue,
      skipBlank_point hsp'' (c := ',') rfl, toChar_point, if_true, skipBlank_spelled hsp₃ ht',
      ih' n rest (by omega)]
    rfl

/-! ## Consequences -/

theorem rawDecode_append {j : Json φ} {t rest : CodePoints} (h : Spelled read levels (.value j) t)
    (hrest : Delimited j rest) : rawDecode read levels (t ++ rest) = .ok (j, rest) :=
  decode_complete h _ rest (by rw [List.length_append]; omega) hrest

theorem rawDecode_sound {j : Json φ} {t rest : CodePoints}
    (h : rawDecode read levels t = .ok (j, rest)) :
    ∃ front, t = front ++ rest ∧ Spelled read levels (.value j) front :=
  (decode_sound read _).1 levels t j rest h

/-- `json.loads` accepts what is spelled. -/
theorem loads_spelled {j : Json φ} {t : CodePoints} (h : Spelled read levels (.value j) t) :
    loads read levels t = .ok j := by
  have hdecode : rawDecode read levels (t ++ []) = .ok (j, []) :=
    rawDecode_append h (.of_follow follow_nil)
  have hskip : skipBlank t = t := by
    simpa using skipBlank_spelled (List.forall_mem_nil _) h []
  rw [List.append_nil] at hdecode
  rw [loads, hskip, hdecode]
  rfl

theorem Spelled.mono {part : Part φ} {t : CodePoints} {more : ℕ} (h : Spelled read levels part t)
    (hle : levels ≤ more) : Spelled read more part t := by
  induction h generalizing more with
  | str hbody => exact .str hbody
  | word hw => exact .word hw
  | number hx => exact .number hx
  | emptyList hsp =>
    obtain ⟨more, rfl⟩ : ∃ m, more = m + 1 := ⟨more - 1, by omega⟩
    exact .emptyList hsp
  | list hsp _ ih =>
    obtain ⟨more, rfl⟩ : ∃ m, more = m + 1 := ⟨more - 1, by omega⟩
    exact .list hsp (ih (by omega))
  | emptyDict hsp =>
    obtain ⟨more, rfl⟩ : ∃ m, more = m + 1 := ⟨more - 1, by omega⟩
    exact .emptyDict hsp
  | dict hsp _ ih =>
    obtain ⟨more, rfl⟩ : ∃ m, more = m + 1 := ⟨more - 1, by omega⟩
    exact .dict hsp (ih (by omega))
  | lastItem _ hsp ih => exact .lastItem (ih hle) hsp
  | item _ hsp hsp' _ ih ih' => exact .item (ih hle) hsp hsp' (ih' hle)
  | lastField hbody hsp hsp' _ hsp'' ih => exact .lastField hbody hsp hsp' (ih hle) hsp''
  | field hbody hsp hsp' _ hsp'' hsp₃ _ ih ih' =>
    exact .field hbody hsp hsp' (ih hle) hsp'' hsp₃ (ih' hle)

/-- A dictionary ends where its text does: nothing longer spells a value, too. -/
theorem Spelled.unique {fields : List (PyStr × Json φ)} {j : Json φ} {t y : CodePoints} {levels' : ℕ}
    (h : Spelled read levels (.value (.obj fields)) t)
    (h' : Spelled read levels' (.value j) (t ++ y)) : y = [] ∧ j = .obj fields := by
  have hone : rawDecode read (max levels levels') (t ++ y) = .ok (.obj fields, y) :=
    rawDecode_append (h.mono (le_max_left levels levels')) trivial
  have htwo : rawDecode read (max levels levels') (t ++ y ++ []) = .ok (j, []) :=
    rawDecode_append (h'.mono (le_max_right levels levels')) (.of_follow follow_nil)
  rw [List.append_nil, hone] at htwo
  cases htwo
  exact ⟨rfl, rfl⟩

end Read

end Foundation.JsonDecoder
