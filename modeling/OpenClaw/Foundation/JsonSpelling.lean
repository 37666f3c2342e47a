import Mathlib.Algebra.Order.BigOperators.Group.List
import Mathlib.Algebra.Order.Group.Nat
import OpenClaw.Foundation.JsonDecoder

/-!
# Texts of values

What `dumps` writes spells its value, and each string literal of a text that is read has its two quotes:
a dictionary that is read from a part of a text has fewer literals than the whole.
-/

namespace Foundation.JsonDecoder

open Json
set_option autoImplicit false

variable {φ : Type}

section Tally
variable {read : List Char → φ} {levels : ℕ}

/-! ## Quotes -/

def Part.strings : Part φ → ℕ
  | .value j => Json.strings j
  | .items js => stringsItems js
  | .fields fs => stringsFields fs

theorem strings_dict (fs : List (PyStr × Json φ)) : stringsFields (Json.dict fs) ≤ stringsFields fs := by
  obtain ⟨kept, hperm, hsub⟩ :=
    @Table.ofRows_subperm _ _ (Prod.fst : PyStr × Json φ → PyStr) _ fs
  rw [stringsFields_eq, stringsFields_eq]
  have hsame := (hperm.map fun f : PyStr × Json φ => 1 + Json.strings f.2).sum_nat
  exact hsame.symm.le.trans ((hsub.map _).sum_le_sum fun _ _ => Nat.zero_le _)

theorem tally_point {c : Char} (hc : c ≠ '"' ∧ c ≠ '\\') : Tally (chars [point c]) 0 := by
  rw [chars_cons, toChar_point]
  exact tally_plain fun d hd => by rw [List.mem_singleton.mp hd]; exact hc

theorem tally_blank {sp : CodePoints} (hsp : Blank sp) : Tally (chars sp) 0 := by
  apply tally_plain
  intro c hc
  obtain ⟨d, hd, rfl⟩ := List.mem_map.mp hc
  exact ⟨(plain_space (hsp d hd)).1, (plain_space (hsp d hd)).2.1⟩

theorem tally_literal {body : CodePoints} {s : PyStr} (h : scanText body = some (s, [])) :
    Tally (chars (point '"' :: body)) 2 := by
  obtain ⟨body', hsplit, -, htally⟩ := scanText_split h
  rw [List.append_nil] at hsplit
  have hmark : Tally (chars [point '"']) 1 := by
    rw [chars_cons, toChar_point]
    rfl
  rw [hsplit, ← List.singleton_append, chars_append]
  exact hmark.append htally

/-- Each string literal that is read has its two quotes. -/
theorem spelled_tally {part : Part φ} {t : CodePoints} (h : Spelled read levels part t) :
    ∃ k, Tally (chars t) k ∧ 2 * part.strings ≤ k := by
  have hscalar : ∀ {z : List Char} {j : Json φ},
      ((z, j) ∈ words read ∨ readNumber? read z = some (j, [])) →
        ∃ k, Tally (chars (CodePoints.ofChars z)) k ∧ 2 * (Part.value j).strings ≤ k := by
    intro z j hz
    refine ⟨0, ?_, ?_⟩
    · rw [chars_ofChars]
      exact tally_plain fun c hc => ⟨(scalar_chars hz c hc).1, (scalar_chars hz c hc).2.1⟩
    · rcases hz with hw | hnumber
      · simp only [words, List.mem_cons, Prod.mk.injEq, List.not_mem_nil, or_false] at hw
        rcases hw with ⟨-, rfl⟩ | ⟨-, rfl⟩ | ⟨-, rfl⟩ | ⟨-, rfl⟩ | ⟨-, rfl⟩ | ⟨-, rfl⟩ <;>
          simp [Part.strings, Json.strings]
      · obtain ⟨int, frac, -, hvalue⟩ := readNumber?_eq_some.mp hnumber
        unfold numberValue? at hvalue
        split at hvalue
        · cases hvalue
          simp [Part.strings, Json.strings]
        · split at hvalue
          · cases hvalue
          · cases hvalue
            simp [Part.strings, Json.strings]
  induction h with
  | str hbody => exact ⟨2, tally_literal hbody, by simp [Part.strings, Json.strings]⟩
  | word hw => exact hscalar (.inl hw)
  | number hx => exact hscalar (.inr hx)
  | emptyList hsp =>
    have hall := (tally_point (c := '[') (by decide)).append
      ((tally_blank hsp).append (tally_point (c := ']') (by decide)))
    rw [← chars_append, ← chars_append] at hall
    exact ⟨_, hall, by simp [Part.strings, Json.strings, stringsItems]⟩
  | list hsp _ ih =>
    obtain ⟨k, hk, hle⟩ := ih
    have hall := (tally_point (c := '[') (by decide)).append ((tally_blank hsp).append hk)
    rw [← chars_append, ← chars_append] at hall
    refine ⟨_, hall, ?_⟩
    simp only [Part.strings, Json.strings] at hle ⊢
    omega
  | emptyDict hsp =>
    have hall := (tally_point (c := '{') (by decide)).append
      ((tally_blank hsp).append (tally_point (c := '}') (by decide)))
    rw [← chars_append, ← chars_append] at hall
    exact ⟨_, hall, by simp [Part.strings, Json.strings, stringsFields]⟩
  | @dict _ _ fs _ hsp _ ih =>
    obtain ⟨k, hk, hle⟩ := ih
    have hall := (tally_point (c := '{') (by decide)).append ((tally_blank hsp).append hk)
    rw [← chars_append, ← chars_append] at hall
    refine ⟨_, hall, ?_⟩
    have hdict := strings_dict fs
    simp only [Part.strings, Json.strings] at hle ⊢
    omega
  | lastItem _ hsp ih =>
    obtain ⟨k, hk, hle⟩ := ih
    have hall := hk.append ((tally_blank hsp).append (tally_point (c := ']') (by decide)))
    rw [← chars_append, ← chars_append] at hall
    refine ⟨_, hall, ?_⟩
    simp only [Part.strings, stringsItems] at hle ⊢
    omega
  | item _ hsp hsp' _ ih ih' =>
    obtain ⟨k, hk, hle⟩ := ih
    obtain ⟨k', hk', hle'⟩ := ih'
    have hall := hk.append ((tally_blank hsp).append
      ((tally_point (c := ',') (by decide)).append ((tally_blank hsp').append hk')))
    rw [← chars_append, ← chars_append, ← chars_append, ← chars_append] at hall
    refine ⟨_, hall, ?_⟩
    simp only [Part.strings, stringsItems] at hle hle' ⊢
    omega
  | lastField hbody hsp hsp' _ hsp'' ih =>
    obtain ⟨k, hk, hle⟩ := ih
    have hall := (tally_literal hbody).append ((tally_blank hsp).append
      ((tally_point (c := ':') (by decide)).append ((tally_blank hsp').append
        (hk.append ((tally_blank hsp'').append (tally_point (c := '}') (by decide)))))))
    simp only [← chars_append, List.cons_append, List.nil_append] at hall
    refine ⟨_, hall, ?_⟩
    simp only [Part.strings, stringsFields] at hle ⊢
    omega
  | field hbody hsp hsp' _ hsp'' hsp₃ _ ih ih' =>
    obtain ⟨k, hk, hle⟩ := ih
    obtain ⟨k', hk', hle'⟩ := ih'
    have hall := (tally_literal hbody).append ((tally_blank hsp).append
      ((tally_point (c := ':') (by decide)).append ((tally_blank hsp').append
        (hk.append ((tally_blank hsp'').append ((tally_point (c := ',') (by decide)).append
          ((tally_blank hsp₃).append hk')))))))
    simp only [← chars_append, List.cons_append, List.nil_append] at hall
    refine ⟨_, hall, ?_⟩
    simp only [Part.strings, stringsFields] at hle hle' ⊢
    omega

end Tally

/-! ## What `dumps` writes is spelled -/

theorem scanText_ofChars {x : List Char} {s : PyStr} {rest : List Char}
    (h : scanString x = some (s, rest)) :
    scanText (CodePoints.ofChars x) = some (s, CodePoints.ofChars rest) := by
  have hcons : ∀ (c : Char) (y : List Char),
      CodePoints.ofChars (c :: y) = point c :: CodePoints.ofChars y := fun _ _ => rfl
  have hmap : ∀ {o : Option (PyStr × List Char)} {us : PyStr} {s : PyStr},
      o.map (prepend us) = some (s, rest) → ∃ s', o = some (s', rest) ∧ s = us ++ s' := by
    intro o us s h
    obtain ⟨⟨s', rest'⟩, ho, heq⟩ := Option.map_eq_some_iff.mp h
    cases heq
    exact ⟨s', ho, rfl⟩
  induction x using scanString.induct generalizing s with
  | case1 => cases h
  | case2 y =>
    rw [scanString.eq_def] at h
    cases h
    rw [hcons, scanText.eq_def]
    simp
  | case3 a b c d y u hunit _ ih =>
    rw [scanString.eq_def] at h
    simp only [Char.reduceEq, if_false, if_true, hunit] at h
    obtain ⟨s', hs', rfl⟩ := hmap h
    simp only [hcons]
    rw [scanText.eq_def]
    simp [hunit, ih hs', prependUnits]
  | case4 a b c d y hunit _ =>
    rw [scanString.eq_def] at h
    simp [hunit] at h
  | case5 e y hlong u hescape _ ih =>
    have hu : e ≠ 'u' := by
      rintro rfl
      cases hescape
    rw [scanString_escape hescape] at h
    obtain ⟨s', hs', rfl⟩ := hmap h
    simp only [hcons]
    rw [scanText.eq_def]
    simp [hu, hescape, ih hs', prependUnits]
  | case6 e y hlong hescape _ =>
    rw [scanString.eq_def] at h
    simp only [Char.reduceEq, if_false, if_true] at h
    split at h
    · rename_i hsome
      rw [hescape] at hsome
      cases hsome
    · cases h
  | case7 _ =>
    rw [scanString.eq_def] at h
    simp at h
  | case8 c y hquote hslash hcontrol =>
    rw [scanString.eq_def] at h
    simp [hquote, hslash, hcontrol] at h
  | case9 c y hquote hslash hcontrol ih =>
    rw [scanString_plain hquote hslash (not_lt.mp hcontrol)] at h
    obtain ⟨s', hs', rfl⟩ := hmap h
    have hunits : PyStr.units (point c).val = utf16 c := by
      rw [point, CodePoints.val_ofChars]
      rfl
    have hval : ¬ (point c).val < 32 := by
      rw [point, CodePoints.val_ofChars]
      exact hcontrol
    rw [hcons, scanText.eq_def]
    simp [hquote, hslash, hval, ih hs', prependUnits, hunits]

/-- A value that `dumps` writes: the keys of a dictionary are distinct, and no integer is too long for
its text. -/
inductive Dumpable : Json φ → Prop
  | null : Dumpable .null
  | bool (b : Bool) : Dumpable (.bool b)
  | int {i : ℤ} (h : ((showInt i).filter Char.isDigit).length ≤ PyText.maxStrDigits) :
      Dumpable (.int i)
  | float (x : φ) : Dumpable (.float x)
  | str (s : PyStr) : Dumpable (.str s)
  | arr {items : List (Json φ)} (h : ∀ j ∈ items, Dumpable j) : Dumpable (.arr items)
  | obj {fields : List (PyStr × Json φ)} (hkeys : (fields.map Prod.fst).Nodup)
      (h : ∀ f ∈ fields, Dumpable f.2) : Dumpable (.obj fields)

/-- Lists and dictionaries lie in each other within the levels. -/
inductive NestsWithin : ℕ → Json φ → Prop
  | null {levels} : NestsWithin levels .null
  | bool {levels} (b : Bool) : NestsWithin levels (.bool b)
  | int {levels} (i : ℤ) : NestsWithin levels (.int i)
  | float {levels} (x : φ) : NestsWithin levels (.float x)
  | str {levels} (s : PyStr) : NestsWithin levels (.str s)
  | arr {levels} {items : List (Json φ)} (h : ∀ j ∈ items, NestsWithin levels j) :
      NestsWithin (levels + 1) (.arr items)
  | obj {levels} {fields : List (PyStr × Json φ)} (h : ∀ f ∈ fields, NestsWithin levels f.2) :
      NestsWithin (levels + 1) (.obj fields)

def Part.NestsWithin (levels : ℕ) : Part φ → Prop
  | .value j => JsonDecoder.NestsWithin levels j
  | .items js => ∀ j ∈ js, JsonDecoder.NestsWithin levels j
  | .fields fs => ∀ f ∈ fs, JsonDecoder.NestsWithin levels f.2

theorem Spelled.nestsWithin {read : List Char → φ} {levels : ℕ} {part : Part φ} {t : CodePoints}
    (h : Spelled read levels part t) : part.NestsWithin levels := by
  induction h with
  | str _ => exact .str _
  | word hw =>
    simp only [words, List.mem_cons, Prod.mk.injEq, List.not_mem_nil, or_false] at hw
    rcases hw with ⟨-, rfl⟩ | ⟨-, rfl⟩ | ⟨-, rfl⟩ | ⟨-, rfl⟩ | ⟨-, rfl⟩ | ⟨-, rfl⟩
    · exact .null
    · exact .bool true
    · exact .bool false
    all_goals exact .float _
  | number hx =>
    obtain ⟨int, frac, -, hvalue⟩ := readNumber?_eq_some.mp hx
    unfold numberValue? at hvalue
    split at hvalue
    · cases hvalue
      exact .float _
    · split at hvalue
      · cases hvalue
      · cases hvalue
        exact .int _
  | emptyList _ => exact .arr fun j hj => by cases hj
  | list _ _ ih => exact .arr ih
  | emptyDict _ => exact .obj fun f hf => by cases hf
  | dict _ _ ih => exact .obj fun f hf => ih f (Table.mem_ofRows hf)
  | lastItem _ _ ih => exact List.forall_mem_singleton.mpr ih
  | item _ _ _ _ ih ih' => exact List.forall_mem_cons.mpr ⟨ih, ih'⟩
  | lastField _ _ _ _ _ ih => exact List.forall_mem_singleton.mpr ih
  | field _ _ _ _ _ _ _ ih ih' => exact List.forall_mem_cons.mpr ⟨ih, ih'⟩

section Render
variable (F : FloatFormat φ) (sep : Separators) {levels : ℕ}

theorem ofChars_append (x y : List Char) :
    CodePoints.ofChars (x ++ y) = CodePoints.ofChars x ++ CodePoints.ofChars y :=
  List.map_append

theorem ofChars_cons (c : Char) (x : List Char) :
    CodePoints.ofChars (c :: x) = point c :: CodePoints.ofChars x := rfl

theorem blank_ofChars {x : List Char} (h : ∀ c ∈ x, isSpace c = true) :
    Blank (CodePoints.ofChars x) := by
  intro c hc
  obtain ⟨d, hd, rfl⟩ := List.mem_map.mp hc
  exact (congrArg isSpace (toChar_point d)).trans (h d hd)

theorem blank_nil : Blank [] := fun _ hc => by cases hc

/-- A literal of `dumps` behind its opening quote. -/
theorem scanText_body (s : PyStr) :
    scanText (CodePoints.ofChars (s.flatMap escapeUnit ++ ['"'])) = some (s, []) := by
  have hscan := scanText_ofChars (scanString_quoted s [])
  exact hscan

variable {F sep}

theorem spelled_items {j : Json φ} {items : List (Json φ)}
    (hj : Spelled F.read levels (.value j) (CodePoints.ofChars (render F.repr sep j)))
    (h : ∀ i ∈ items,
      Spelled F.read levels (.value i) (CodePoints.ofChars (render F.repr sep i))) :
    Spelled F.read levels (.items (j :: items))
      (CodePoints.ofChars (render F.repr sep j ++ (renderItems F.repr sep items ++ [']']))) := by
  induction items generalizing j with
  | nil =>
    rw [renderItems, List.nil_append, ofChars_append]
    exact .lastItem hj blank_nil
  | cons i items ih =>
    have hrest := ih (h i List.mem_cons_self) fun k hk => h k (List.mem_cons_of_mem i hk)
    have hall := Spelled.item hj blank_nil (blank_ofChars sep.item_space) hrest
    rw [renderItems, Separators.item]
    simp only [ofChars_append, ofChars_cons, List.append_assoc, List.cons_append,
      List.nil_append] at hall ⊢
    exact hall

theorem spelled_fields {k : PyStr} {j : Json φ} {fields : List (PyStr × Json φ)}
    (hj : Spelled F.read levels (.value j) (CodePoints.ofChars (render F.repr sep j)))
    (h : ∀ f ∈ fields,
      Spelled F.read levels (.value f.2) (CodePoints.ofChars (render F.repr sep f.2))) :
    Spelled F.read levels (.fields ((k, j) :: fields)) (CodePoints.ofChars
      (quote k ++ (sep.key ++ (render F.repr sep j ++ (renderFields F.repr sep fields ++ ['}']))))) := by
  induction fields generalizing k j with
  | nil =>
    have hall := Spelled.lastField (scanText_body k) blank_nil (blank_ofChars sep.key_space) hj blank_nil
    rw [renderFields, quote, Separators.key]
    simp only [ofChars_append, ofChars_cons, List.append_assoc, List.cons_append,
      List.nil_append] at hall ⊢
    exact hall
  | cons f fields ih =>
    obtain ⟨k', j'⟩ := f
    have hrest := ih (k := k') (h (k', j') List.mem_cons_self) fun g hg =>
      h g (List.mem_cons_of_mem _ hg)
    have hall := Spelled.field (scanText_body k) blank_nil (blank_ofChars sep.key_space) hj blank_nil
      (blank_ofChars sep.item_space) hrest
    rw [renderFields, quote, Separators.key, Separators.item]
    simp only [ofChars_append, ofChars_cons, List.append_assoc, List.cons_append,
      List.nil_append, Separators.key] at hall ⊢
    exact hall

/-- What `dumps` writes spells the value. -/
theorem spelled_render {j : Json φ} (hdump : Dumpable j) (hnest : NestsWithin levels j) :
    Spelled F.read levels (.value j) (CodePoints.ofChars (render F.repr sep j)) := by
  induction hdump generalizing levels with
  | null =>
    rw [render]
    exact .word (by simp [words])
  | bool b =>
    cases b <;> rw [render] <;> exact .word (by simp [words])
  | @int i hshort =>
    rw [render]
    refine .number (readNumber?_eq_some.mpr ⟨_, _, scanNumber_showInt i, ?_⟩)
    rw [numberValue?, if_neg (by simp), if_neg (not_lt.mpr hshort), readInt_showInt]
  | float x =>
    rw [render]
    rcases F.literal x with hw | ⟨int, frac, hs, hne⟩
    · have hword : (F.repr x, Json.float x) ∈ words F.read := by
        have hread : Json.float x = .float (F.read (F.repr x)) := by rw [F.read_repr]
        rw [hread]
        simp only [List.mem_cons, List.not_mem_nil, or_false] at hw
        rcases hw with hw | hw | hw <;> rw [hw] <;> simp [words]
      exact .word hword
    · refine .number (readNumber?_eq_some.mpr ⟨_, _, hs, ?_⟩)
      have hx : int ++ frac = F.repr x := by simpa using scanNumber_split hs
      rw [numberValue?, if_pos hne, hx, F.read_repr]
  | str s =>
    rw [render]
    exact .str (scanText_body s)
  | @arr items _ ih =>
    cases hnest with
    | arr hitems =>
      cases items with
      | nil =>
        rw [render]
        exact .emptyList blank_nil
      | cons j items =>
        have hspelled := spelled_items (ih j List.mem_cons_self (hitems j List.mem_cons_self))
          fun i hi => ih i (List.mem_cons_of_mem j hi) (hitems i (List.mem_cons_of_mem j hi))
        rw [render]
        exact .list blank_nil hspelled
  | @obj fields hkeys _ ih =>
    cases hnest with
    | obj hfields =>
      cases fields with
      | nil =>
        rw [render]
        exact .emptyDict blank_nil
      | cons f fields =>
        obtain ⟨k, j⟩ := f
        have hspelled := spelled_fields (k := k)
          (ih (k, j) List.mem_cons_self (hfields (k, j) List.mem_cons_self)) fun g hg =>
            ih g (List.mem_cons_of_mem _ hg) (hfields g (List.mem_cons_of_mem _ hg))
        have hdict : Json.dict ((k, j) :: fields) = (k, j) :: fields := Table.rows_ofRows hkeys
        have hall := Spelled.dict blank_nil hspelled
        rw [hdict] at hall
        rw [render]
        exact hall

end Render

/-! ## Parts of a text -/

theorem NestsWithin.mono {levels more : ℕ} {j : Json φ} (h : NestsWithin levels j)
    (hle : levels ≤ more) : NestsWithin more j := by
  induction h generalizing more with
  | null => exact .null
  | bool b => exact .bool b
  | int i => exact .int i
  | float x => exact .float x
  | str s => exact .str s
  | arr _ ih =>
    obtain ⟨more, rfl⟩ : ∃ m, more = m + 1 := ⟨more - 1, by omega⟩
    exact .arr fun j hj => ih j hj (by omega)
  | obj _ ih =>
    obtain ⟨more, rfl⟩ : ∃ m, more = m + 1 := ⟨more - 1, by omega⟩
    exact .obj fun f hf => ih f hf (by omega)

theorem exists_nestsWithin (j : Json φ) : ∃ levels, NestsWithin levels j := by
  have hall : ∀ {js : List (Json φ)}, (∀ j ∈ js, ∃ levels, NestsWithin levels j) →
      ∃ levels, ∀ j ∈ js, NestsWithin levels j := by
    intro js
    induction js with
    | nil => exact fun _ => ⟨0, fun j hj => by cases hj⟩
    | cons j js ih =>
      intro h
      obtain ⟨one, hone⟩ := h j List.mem_cons_self
      obtain ⟨rest, hrest⟩ := ih fun i hi => h i (List.mem_cons_of_mem j hi)
      exact ⟨max one rest, List.forall_mem_cons.mpr ⟨hone.mono (le_max_left _ _),
        fun i hi => (hrest i hi).mono (le_max_right _ _)⟩⟩
  induction j using Json.induction with
  | null => exact ⟨0, .null⟩
  | bool b => exact ⟨0, .bool b⟩
  | int i => exact ⟨0, .int i⟩
  | float x => exact ⟨0, .float x⟩
  | str s => exact ⟨0, .str s⟩
  | arr items ih =>
    obtain ⟨levels, h⟩ := hall ih
    exact ⟨levels + 1, .arr h⟩
  | obj fields ih =>
    obtain ⟨levels, h⟩ := @hall (fields.map Prod.snd) fun j hj => by
      obtain ⟨f, hf, rfl⟩ := List.mem_map.mp hj
      exact ih f hf
    exact ⟨levels + 1, .obj fun f hf => h f.2 (List.mem_map_of_mem hf)⟩

section Parts
variable {F : FloatFormat φ} {sep : Separators} {levels : ℕ} {fields : List (PyStr × Json φ)}

/-- The text of a dictionary. -/
def textOf (F : FloatFormat φ) (sep : Separators) (fields : List (PyStr × Json φ)) : CodePoints :=
  CodePoints.ofChars (render F.repr sep (.obj fields))

theorem spelled_object_marks {read : List Char → φ} {fs : List (PyStr × Json φ)} {t : CodePoints}
    (h : Spelled read levels (.value (.obj fs)) t) :
    ∃ inner, t = point '{' :: (inner ++ [point '}']) := by
  have hfields : ∀ {levels fs t}, Spelled read levels (.fields fs) t →
      ∃ inner, t = inner ++ [point '}'] := by
    intro levels fs t h
    generalize hpart : Part.fields fs = part at h
    induction h generalizing fs with
    | @lastField _ _ _ body sp sp' t sp'' =>
      exact ⟨point '"' :: (body ++ (sp ++ point ':' :: (sp' ++ (t ++ sp'')))), by simp⟩
    | @field _ _ _ _ body sp sp' t sp'' sp₃ _ _ _ _ _ _ _ _ _ ih =>
      obtain ⟨inner, rfl⟩ := ih rfl
      exact ⟨point '"' :: (body ++ (sp ++ point ':' :: (sp' ++ (t ++ (sp'' ++ point ',' ::
        (sp₃ ++ inner)))))), by simp⟩
    | _ => cases hpart
  generalize hpart : Part.value (Json.obj fs) = part at h
  cases h with
  | @word _ w j hw =>
    cases hpart
    simp [words] at hw
  | number hx =>
    cases hpart
    obtain ⟨int, frac, -, hvalue⟩ := readNumber?_eq_some.mp hx
    unfold numberValue? at hvalue
    split at hvalue
    · cases hvalue
    · split at hvalue <;> cases hvalue
  | @emptyDict _ sp hsp => exact ⟨sp, rfl⟩
  | @dict _ sp _ t hsp ht =>
    obtain ⟨inner, rfl⟩ := hfields ht
    exact ⟨sp ++ inner, by simp⟩
  | _ => cases hpart

/-- A dictionary that is read from a part of the text is the whole, or it has fewer literals. -/
theorem part_of_text (hdump : Dumpable (.obj fields)) {fs : List (PyStr × Json φ)} {front : CodePoints}
    (hpart : front <:+: textOf F sep fields)
    (h : Spelled F.read levels (.value (.obj fs)) front) :
    front = textOf F sep fields ∧ fs = fields ∨
      Json.strings (.obj fs) < Json.strings (.obj fields) := by
  obtain ⟨before, after, hsplit⟩ := hpart
  obtain ⟨enough, henough⟩ := exists_nestsWithin (Json.obj fields)
  have hwhole := @spelled_render _ F sep _ _ hdump henough
  have htally := tally_render F sep (.obj fields)
  obtain ⟨inner, hfront⟩ := spelled_object_marks h
  obtain ⟨k, hk, hle⟩ := spelled_tally h
  cases before with
  | nil =>
    rw [List.nil_append] at hsplit
    rw [textOf] at hsplit ⊢
    rw [← hsplit] at hwhole
    obtain ⟨rfl, heq⟩ := h.unique hwhole
    cases heq
    exact .inl ⟨by rw [← hsplit, List.append_nil], rfl⟩
  | cons c before =>
    refine .inr ?_
    have hchars : render F.repr sep (.obj fields) =
        toChar c :: (chars before ++ (chars front ++ chars after)) := by
      rw [← chars_ofChars (render F.repr sep (.obj fields)), ← textOf, ← hsplit]
      simp
    cases fields with
    | nil =>
      -- behind the first brace of the empty dictionary there is none
      exfalso
      rw [render, hfront] at hchars
      have htail := (List.cons.inj hchars).2
      have hmem : '{' ∈ ['}'] := by
        rw [htail]
        simp
      simp at hmem
    | cons f rest =>
      obtain ⟨key, j⟩ := f
      -- the first quote of the text stands before the part
      have hfirst : ∃ before', toChar c :: chars before = '{' :: '"' :: before' := by
        rw [render, quote] at hchars
        cases before with
        | nil =>
          rw [hfront] at hchars
          have hhead := (List.cons.inj (List.cons.inj hchars).2).1
          exact absurd (hhead.trans (toChar_point '{')) (by decide)
        | cons d before =>
          have hc := (List.cons.inj hchars).1
          have hd := (List.cons.inj (List.cons.inj hchars).2).1
          exact ⟨chars before, by rw [← hc, chars_cons, ← hd]⟩
      obtain ⟨before', hbefore⟩ := hfirst
      have hone : 1 ≤ (countQuotes false ('{' :: '"' :: before')).2 := by
        simp [countQuotes]
      have hreset : ∀ odd, countQuotes odd (chars front ++ chars after) =
          countQuotes false (chars front ++ chars after) := by
        intro odd
        rw [hfront, chars_cons, toChar_point, List.cons_append]
        simp [countQuotes]
      have hsum := congrArg Prod.snd htally
      rw [hchars, ← List.cons_append, hbefore, countQuotes_append] at hsum
      dsimp only at hsum
      rw [hreset, countQuotes_append, hk] at hsum
      dsimp only at hsum
      rw [Part.strings] at hle
      omega

end Parts

end Foundation.JsonDecoder
