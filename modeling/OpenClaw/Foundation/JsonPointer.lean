import OpenClaw.Foundation.HeapPaths
import OpenClaw.Foundation.PyText

/-!
# Pointers into JSON documents

A pointer is a text of reference tokens, each behind a slash and with `~` and `/` escaped
(RFC 6901). In a dictionary a token is a key, in a list the digits of an index. What a pointer leads
to can be replaced or removed, and a value can be put where only the last step is missing.
-/

namespace Foundation

set_option autoImplicit false

variable {φ : Type}

/-! ## The text -/

def slashUnit : CodeUnit := 0x2f

def tildeUnit : CodeUnit := 0x7e

/-- `.replace("ab", "c")`. -/
def replacePair (a b c : CodeUnit) : PyStr → PyStr
  | [] => []
  | [x] => [x]
  | x :: y :: rest =>
    if x = a ∧ y = b then c :: replacePair a b c rest else x :: replacePair a b c (y :: rest)

/-- `~0` for a tilde, `~1` for a slash. -/
def escapeToken (t : PyStr) : PyStr :=
  t.flatMap fun u =>
    if u = tildeUnit then [tildeUnit, 0x30]
    else if u = slashUnit then [tildeUnit, 0x31]
    else [u]

def unescapeToken (t : PyStr) : PyStr :=
  replacePair tildeUnit 0x30 tildeUnit (replacePair tildeUnit 0x31 slashUnit t)

def pointerText (ts : List PyStr) : PyStr := ts.flatMap fun t => slashUnit :: escapeToken t

/-- The tokens of a pointer; `none` is a text that is not one. -/
def pointer? : PyStr → Option (List PyStr)
  | [] => some []
  | u :: rest =>
    if u = slashUnit then some ((rest.splitOn slashUnit).map unescapeToken) else none

section Text
variable {a b c u : CodeUnit}

theorem replacePair_cons (h : u ≠ a) (t : PyStr) :
    replacePair a b c (u :: t) = u :: replacePair a b c t := by
  cases t with
  | nil => rfl
  | cons v t => rw [replacePair, if_neg fun hu => h hu.1]

theorem replacePair_pair (t : PyStr) :
    replacePair a b c (a :: b :: t) = c :: replacePair a b c t := by
  rw [replacePair, if_pos ⟨rfl, rfl⟩]

/-- With the slashes put back, only the tildes are escaped. -/
theorem replacePair_escapeToken (t : PyStr) :
    replacePair tildeUnit 0x31 slashUnit (escapeToken t) =
      t.flatMap fun u => if u = tildeUnit then [tildeUnit, 0x30] else [u] := by
  induction t with
  | nil => rfl
  | cons u t ih =>
    rw [escapeToken, List.flatMap_cons, List.flatMap_cons, ← ih, ← escapeToken]
    by_cases htilde : u = tildeUnit
    · rw [if_pos htilde, if_pos htilde]
      show replacePair tildeUnit 0x31 slashUnit (tildeUnit :: 0x30 :: escapeToken t) = _
      rw [replacePair, if_neg (by decide), replacePair_cons (by decide)]
      rfl
    · rw [if_neg htilde, if_neg htilde]
      by_cases hslash : u = slashUnit
      · rw [if_pos hslash, hslash]
        exact replacePair_pair _
      · rw [if_neg hslash]
        exact replacePair_cons htilde _

@[simp] theorem unescape_escapeToken (t : PyStr) : unescapeToken (escapeToken t) = t := by
  rw [unescapeToken, replacePair_escapeToken]
  induction t with
  | nil => rfl
  | cons u t ih =>
    rw [List.flatMap_cons]
    by_cases htilde : u = tildeUnit
    · rw [if_pos htilde, htilde]
      exact (replacePair_pair _).trans (congrArg _ ih)
    · rw [if_neg htilde]
      exact (replacePair_cons htilde _).trans (congrArg _ ih)

theorem slash_not_mem_escapeToken (t : PyStr) : slashUnit ∉ escapeToken t := by
  intro hmem
  obtain ⟨u, -, hu⟩ := List.mem_flatMap.mp hmem
  split at hu
  · revert hu
    decide
  · split at hu
    · revert hu
      decide
    · rename_i hslash
      exact hslash (List.mem_singleton.mp hu).symm

theorem pointerText_cons (t : PyStr) (ts : List PyStr) :
    pointerText (t :: ts) =
      slashUnit :: [slashUnit].intercalate ((t :: ts).map escapeToken) := by
  induction ts generalizing t with
  | nil => simp [pointerText]
  | cons t' ts ih =>
    rw [pointerText, List.flatMap_cons, ← pointerText, ih]
    simp

/-- A pointer is read back. -/
theorem pointer?_pointerText (ts : List PyStr) : pointer? (pointerText ts) = some ts := by
  cases ts with
  | nil => rfl
  | cons t ts =>
    rw [pointerText_cons, pointer?, if_pos rfl, List.splitOn_intercalate slashUnit ?_ (by simp)]
    · simp [List.map_map, Function.comp_def]
    · intro l hl
      obtain ⟨t', -, rfl⟩ := List.mem_map.mp hl
      exact slash_not_mem_escapeToken t'

end Text

/-! ## Tokens and steps -/

def indexToken (i : ℕ) : PyStr := PyStr.ofString (toString i)

def tokenNumber (t : PyStr) : ℕ := t.foldl (fun n u => 10 * n + (u.val - 48)) 0

/-- The index that the token spells, without leading zeros. -/
def index? (t : PyStr) : Option ℕ :=
  if indexToken (tokenNumber t) = t then some (tokenNumber t) else none

theorem utf16_digit {c : Char} (h : c.isDigit = true) :
    utf16 c = [Fin.ofNat 65536 c.toNat] ∧ 48 ≤ c.toNat ∧ c.toNat ≤ 57 := by
  simp only [Char.isDigit, Bool.and_eq_true, decide_eq_true_eq] at h
  have hzero : '0'.toNat = 48 := by decide
  have hnine : '9'.toNat = 57 := by decide
  have hge : '0'.toNat ≤ c.toNat := h.1
  have hle : c.toNat ≤ '9'.toNat := h.2
  exact ⟨if_pos (by omega), by omega, by omega⟩

theorem tokenNumber_ofList {cs : List Char} (h : ∀ c ∈ cs, c.isDigit = true) (n : ℕ) :
    (PyStr.ofList cs).foldl (fun n u => 10 * n + (u.val - 48)) n = Nat.ofDigitChars 10 cs n := by
  induction cs generalizing n with
  | nil => rfl
  | cons c cs ih =>
    obtain ⟨hunits, -, hle⟩ := utf16_digit (h c List.mem_cons_self)
    rw [PyStr.ofList, List.flatMap_cons, ← PyStr.ofList, hunits, List.singleton_append,
      List.foldl_cons, ih fun d hd => h d (List.mem_cons_of_mem c hd), Nat.ofDigitChars_cons]
    congr 2
    show c.toNat % 65536 - 48 = _
    rw [Nat.mod_eq_of_lt (by omega)]
    rfl

theorem escapeToken_indexToken (i : ℕ) : escapeToken (indexToken i) = indexToken i := by
  have hdigits : (toString i).toList = Nat.toDigits 10 i := Nat.toList_repr
  rw [indexToken, PyStr.ofString, hdigits, escapeToken, PyStr.ofList, List.flatMap_assoc]
  refine List.flatMap_congr fun c hc => ?_
  have hdigit : c.isDigit = true := Nat.isDigit_of_mem_toDigits (by decide) (by decide) hc
  obtain ⟨hunits, hle⟩ := utf16_digit hdigit
  have hval : (Fin.ofNat 65536 c.toNat).val = c.toNat := Nat.mod_eq_of_lt (by omega)
  have htilde : Fin.ofNat 65536 c.toNat ≠ tildeUnit := by
    intro h
    have := congrArg Fin.val h
    rw [hval] at this
    have htildeVal : tildeUnit.val = 126 := rfl
    omega
  have hslash : Fin.ofNat 65536 c.toNat ≠ slashUnit := by
    intro h
    have := congrArg Fin.val h
    rw [hval] at this
    have hslashVal : slashUnit.val = 47 := rfl
    omega
  rw [hunits, List.flatMap_singleton, if_neg htilde, if_neg hslash]

@[simp] theorem index?_indexToken (i : ℕ) : index? (indexToken i) = some i := by
  have hnumber : tokenNumber (indexToken i) = i := by
    have hdigits : (toString i).toList = Nat.toDigits 10 i := Nat.toList_repr
    rw [tokenNumber, indexToken, PyStr.ofString, hdigits, tokenNumber_ofList]
    · exact Nat.ofDigitChars_toDigits (by decide) (by decide)
    · exact fun c hc => Nat.isDigit_of_mem_toDigits (by decide) (by decide) hc
  rw [index?, hnumber, if_pos rfl]

theorem indexToken_injective {i j : ℕ} (h : indexToken i = indexToken j) : i = j := by
  have hindex := congrArg index? h
  rw [index?_indexToken, index?_indexToken] at hindex
  exact Option.some.inj hindex

def Step.token : Step → PyStr
  | .key k => k
  | .index i => indexToken i

section Rows
variable {α : Type} {k k' : PyStr} {fields : List (PyStr × α)}

theorem replaceRow_replaceRow (k : PyStr) (v w : α) (fields : List (PyStr × α)) :
    replaceRow Prod.fst (k, w) (replaceRow Prod.fst (k, v) fields) =
      replaceRow Prod.fst (k, w) fields := by
  induction fields with
  | nil => simp [replaceRow]
  | cons f fields ih =>
    by_cases hk : f.1 = k
    · simp [replaceRow, hk]
    · simp [replaceRow, hk, ih]

theorem replaceRow_comm {x y : α} (h : under? k fields = some x) (h' : under? k' fields = some y)
    (hne : k ≠ k') (v w : α) :
    replaceRow Prod.fst (k', w) (replaceRow Prod.fst (k, v) fields) =
      replaceRow Prod.fst (k, v) (replaceRow Prod.fst (k', w) fields) := by
  induction fields with
  | nil => cases h
  | cons f fields ih =>
    by_cases hk : f.1 = k
    · simp [replaceRow, hk, hne]
    · by_cases hk' : f.1 = k'
      · simp [replaceRow, hk', Ne.symm hne]
      · have hrest : under? k fields = some x := by simpa [under?, List.find?_cons, hk] using h
        have hrest' : under? k' fields = some y := by
          simpa [under?, List.find?_cons, hk'] using h'
        simp [replaceRow, hk, hk', ih hrest hrest']

end Rows

namespace Json

/-- The value is of the kind in which the step is taken. -/
def holds : Json φ → Step → Bool
  | .arr _, .index _ => true
  | .obj _, .key _ => true
  | _, _ => false

/-- The step that a token stands for. -/
def step? : Json φ → PyStr → Option Step
  | .arr _, t => (index? t).map .index
  | .obj _, t => some (.key t)
  | _, _ => none

/-- The value that a pointer leads to. -/
def resolve (j : Json φ) : List PyStr → Option (Json φ)
  | [] => some j
  | t :: ts => (j.step? t).bind fun s => (j.child? s).bind fun c => c.resolve ts

section Holds
variable {j c : Json φ} {s s' : Step}

theorem step?_token (h : j.holds s = true) : j.step? s.token = some s := by
  cases j with
  | arr items =>
    cases s with
    | key k => cases h
    | index i => exact congrArg (Option.map Step.index) (index?_indexToken i)
  | obj fields =>
    cases s with
    | key k => rfl
    | index i => cases h
  | _ => cases h

theorem holds_of_child? (h : j.child? s = some c) : j.holds s = true := by
  cases j <;> cases s <;> first | cases h | rfl

theorem resolve_token (h : j.holds s = true) (ts : List PyStr) :
    j.resolve (s.token :: ts) = (j.child? s).bind fun c => c.resolve ts := by
  rw [resolve, step?_token h, Option.bind_some]

theorem token_injective (h : j.holds s = true) (h' : j.holds s' = true)
    (htoken : s.token = s'.token) : s = s' := by
  have hstep := step?_token h
  rw [htoken, step?_token h'] at hstep
  exact (Option.some.inj hstep).symm

end Holds

/-! ## Editing -/

/-- Write over a child, or add one: in a list at its end. -/
def setChild : Json φ → Step → Json φ → Json φ
  | .arr items, .index i, v =>
    if i < items.length then .arr (items.set i v) else .arr (items ++ [v])
  | .obj fields, .key k, v => .obj (replaceRow Prod.fst (k, v) fields)
  | j, _, _ => j

def dropChild : Json φ → Step → Json φ
  | .arr items, .index i => .arr (items.eraseIdx i)
  | .obj fields, .key k => .obj (fields.filter fun f => f.1 ≠ k)
  | j, _ => j

/-- Put the value where the pointer leads; the last step may be new. -/
def put : Json φ → List PyStr → Json φ → Json φ
  | _, [], v => v
  | j, t :: ts, v =>
    match j.step? t with
    | none => j
    | some s =>
      match j.child? s with
      | some c => j.setChild s (c.put ts v)
      | none => if ts = [] then j.setChild s v else j

def remove : Json φ → List PyStr → Json φ
  | j, [] => j
  | j, t :: ts =>
    match j.step? t with
    | none => j
    | some s =>
      if ts = [] then j.dropChild s
      else
        match j.child? s with
        | some c => j.setChild s (c.remove ts)
        | none => j

/-- Another value at a location. -/
def writeAt : Location → Json φ → Json φ → Json φ
  | [], v, _ => v
  | s :: l, v, j =>
    match j.child? s with
    | some c => j.setChild s (writeAt l v c)
    | none => j

section Edits
variable {j c : Json φ} {s : Step} {t : PyStr} {ts : List PyStr}

@[simp] theorem holds_setChild (j : Json φ) (s : Step) (v : Json φ) (s' : Step) :
    (j.setChild s v).holds s' = j.holds s' := by
  cases j with
  | arr items =>
    cases s with
    | key k => rfl
    | index i =>
      rw [setChild]
      split <;> cases s' <;> rfl
  | obj fields => cases s <;> cases s' <;> rfl
  | _ => rfl

@[simp] theorem holds_dropChild (j : Json φ) (s s' : Step) :
    (j.dropChild s).holds s' = j.holds s' := by
  cases j with
  | arr items => cases s <;> cases s' <;> rfl
  | obj fields => cases s <;> cases s' <;> rfl
  | _ => rfl

theorem child?_setChild (h : j.child? s = some c) (v : Json φ) (s' : Step) :
    (j.setChild s v).child? s' = if s = s' then some v else j.child? s' := by
  cases j with
  | arr items =>
    cases s with
    | key k => cases h
    | index i =>
      have hlt := (List.getElem?_eq_some_iff.mp h).1
      rw [setChild, if_pos hlt]
      cases s' with
      | key k => rfl
      | index i' =>
        by_cases hi : i = i'
        · simp [child?, hi ▸ hlt, hi]
        · simp [child?, hi]
  | obj fields =>
    cases s with
    | index i => cases h
    | key k =>
      cases s' with
      | index i => rfl
      | key k' => simp [setChild, child?, under?_replaceRow]
  | _ => cases h

/-- A new child; in a list the places before it are taken. -/
theorem child?_setChild_new (hh : j.holds s = true) (hnone : j.child? s = none)
    (hfront : ∀ i, s = .index i → ∀ i' < i, (j.child? (.index i')).isSome = true) (v : Json φ)
    (s' : Step) : (j.setChild s v).child? s' = if s = s' then some v else j.child? s' := by
  cases j with
  | arr items =>
    cases s with
    | key k => cases hh
    | index i =>
      have hle : items.length ≤ i := List.getElem?_eq_none_iff.mp hnone
      have hlen : i = items.length := by
        rcases Nat.lt_or_ge items.length i with hlt | hge
        · have hlast := hfront i rfl items.length hlt
          simp [child?] at hlast
        · omega
      subst hlen
      rw [setChild, if_neg (Nat.lt_irrefl _)]
      cases s' with
      | key k => rfl
      | index i' =>
        rcases Nat.lt_trichotomy i' items.length with hlt | rfl | hgt
        · simp [child?, List.getElem?_append_left hlt, hlt.ne']
        · simp [child?]
        · have hnone : items[i']? = none := List.getElem?_eq_none hgt.le
          simp [child?, hnone, hgt.ne, List.getElem?_append_right hgt.le,
            Nat.sub_ne_zero_of_lt hgt]
  | obj fields =>
    cases s with
    | index i => cases hh
    | key k =>
      cases s' with
      | index i => rfl
      | key k' => simp [setChild, child?, under?_replaceRow]
  | _ => cases hh

/-- In a list only the last place can go without moving others. -/
theorem child?_dropChild (hh : j.holds s = true)
    (hback : ∀ i, s = .index i → ∀ i', i < i' → j.child? (.index i') = none) (s' : Step) :
    (j.dropChild s).child? s' = if s = s' then none else j.child? s' := by
  cases j with
  | arr items =>
    cases s with
    | key k => cases hh
    | index i =>
      have hlen : items.length ≤ i + 1 :=
        List.getElem?_eq_none_iff.mp (hback i rfl (i + 1) (Nat.lt_succ_self i))
      cases s' with
      | key k => rfl
      | index i' =>
        show (items.eraseIdx i)[i']? = if Step.index i = .index i' then none else items[i']?
        rw [List.getElem?_eraseIdx]
        rcases Nat.lt_trichotomy i' i with hlt | rfl | hgt
        · simp [hlt, hlt.ne']
        · simp [hlen]
        · have hnone : items[i']? = none := List.getElem?_eq_none (by omega)
          have hnone' : items[i' + 1]? = none := List.getElem?_eq_none (by omega)
          rw [if_neg (by omega), hnone, hnone', ite_self]
  | obj fields =>
    cases s with
    | index i => cases hh
    | key k =>
      cases s' with
      | index i => rfl
      | key k' =>
        show under? k' (fields.filter fun f => f.1 ≠ k) =
          if Step.key k = .key k' then none else under? k' fields
        induction fields with
        | nil => simp [under?]
        | cons f fields ih =>
          have ih := ih hh fun i hi => by cases hi
          by_cases hk : f.1 = k
          · rw [List.filter_cons_of_neg (by simpa using hk), ih]
            by_cases hkk : k = k'
            · simp [hkk]
            · simp [under?, hkk, hk]
          · rw [List.filter_cons_of_pos (by simpa using hk)]
            by_cases hf : f.1 = k'
            · have hkk : k ≠ k' := fun heq => hk (hf.trans heq.symm)
              simp [under?, hf, hkk]
            · simpa [under?, hf] using ih
  | _ => cases hh

theorem setChild_setChild (h : j.child? s = some c) (v w : Json φ) :
    (j.setChild s v).setChild s w = j.setChild s w := by
  cases j with
  | arr items =>
    cases s with
    | key k => cases h
    | index i =>
      have hlt := (List.getElem?_eq_some_iff.mp h).1
      simp [setChild, hlt]
  | obj fields =>
    cases s with
    | index i => cases h
    | key k => exact congrArg Json.obj (replaceRow_replaceRow k v w fields)
  | _ => cases h

theorem setChild_comm {c' : Json φ} {s' : Step} (h : j.child? s = some c)
    (h' : j.child? s' = some c') (hne : s ≠ s') (v w : Json φ) :
    (j.setChild s v).setChild s' w = (j.setChild s' w).setChild s v := by
  cases j with
  | arr items =>
    cases s with
    | key k => cases h
    | index i =>
      cases s' with
      | key k' => cases h'
      | index i' =>
        have hlt := (List.getElem?_eq_some_iff.mp h).1
        have hlt' := (List.getElem?_eq_some_iff.mp h').1
        have hi : i ≠ i' := fun heq => hne (congrArg Step.index heq)
        simp [setChild, hlt, hlt', List.set_comm _ _ hi]
  | obj fields =>
    cases s with
    | index i => cases h
    | key k =>
      cases s' with
      | index i' => cases h'
      | key k' =>
        have hk : k ≠ k' := fun heq => hne (congrArg Step.key heq)
        exact congrArg Json.obj (replaceRow_comm h h' hk v w)
  | _ => cases h

theorem writeAt_cons (h : j.child? s = some c) (l : Location) (v : Json φ) :
    writeAt (s :: l) v j = j.setChild s (writeAt l v c) := by
  rw [writeAt, h]

theorem writeAt_none (h : j.child? s = none) (l : Location) (v : Json φ) :
    writeAt (s :: l) v j = j := by
  rw [writeAt, h]

/-- Neither write is at the place of the other or inside it. -/
theorem writeAt_comm {l l' : Location} (hl : ¬l <+: l') (hl' : ¬l' <+: l) (v w : Json φ)
    (j : Json φ) : writeAt l v (writeAt l' w j) = writeAt l' w (writeAt l v j) := by
  induction l generalizing j l' with
  | nil => exact absurd List.nil_prefix hl
  | cons s l ih =>
    cases l' with
    | nil => exact absurd List.nil_prefix hl'
    | cons s' l' =>
      cases hc : j.child? s with
      | none =>
        rw [writeAt_none hc]
        cases hc' : j.child? s' with
        | none => rw [writeAt_none hc', writeAt_none hc]
        | some c' =>
          have hs : s' ≠ s := fun heq => by simp [← heq, hc'] at hc
          rw [writeAt_cons hc', writeAt_none]
          rw [child?_setChild hc', if_neg hs, hc]
      | some c =>
        cases hc' : j.child? s' with
        | none =>
          have hs : s ≠ s' := fun heq => by simp [← heq, hc] at hc'
          rw [writeAt_none hc', writeAt_cons hc, writeAt_none]
          rw [child?_setChild hc, if_neg hs, hc']
        | some c' =>
          rw [writeAt_cons hc, writeAt_cons hc']
          by_cases hs : s = s'
          · subst hs
            have hcc : c = c' := Option.some.inj (hc.symm.trans hc')
            subst hcc
            have hcomm := ih (fun h => hl (by simpa using h)) (fun h => hl' (by simpa using h)) c
            rw [writeAt_cons (by rw [child?_setChild hc, if_pos rfl]), setChild_setChild hc, hcomm,
              writeAt_cons (by rw [child?_setChild hc, if_pos rfl]), setChild_setChild hc]
          · rw [writeAt_cons (by rw [child?_setChild hc', if_neg (Ne.symm hs), hc]),
              writeAt_cons (by rw [child?_setChild hc, if_neg hs, hc']), setChild_comm hc' hc]
            exact Ne.symm hs

theorem put_token (hc : j.child? s = some c) (ts : List PyStr) (v : Json φ) :
    j.put (s.token :: ts) v = j.setChild s (c.put ts v) := by
  simp only [put, step?_token (holds_of_child? hc), hc]

theorem put_new (hh : j.holds s = true) (hnone : j.child? s = none) (v : Json φ) :
    j.put [s.token] v = j.setChild s v := by
  simp only [put, step?_token hh, hnone, if_pos]

theorem remove_last (hh : j.holds s = true) : j.remove [s.token] = j.dropChild s := by
  simp only [remove, step?_token hh, if_pos]

theorem remove_token (hc : j.child? s = some c) (hts : ts ≠ []) :
    j.remove (s.token :: ts) = j.setChild s (c.remove ts) := by
  simp only [remove, step?_token (holds_of_child? hc), if_neg hts, hc]

end Edits

end Json

end Foundation
