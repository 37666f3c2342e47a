import OpenClaw.Foundation.XmlRead

/-!
# The end of a section splits a reading

A text goes on with `]]>` and a tag, and behind that no comment or instruction can end. Then only a
CDATA section can be open there: every other token either ends before or is no token.
-/

namespace Foundation.Xml

set_option autoImplicit false

/-- No `>` of the text could end a comment or an instruction that was begun before. -/
def Sealed (z : List Char) : Prop :=
  ∀ p q, z = p ++ '>' :: q → ∃ p' c, p = p' ++ [c] ∧ c ≠ '-' ∧ c ≠ '?'

/-- The end of a section and a tag after it. -/
def sectionEnd (z : List Char) : List Char := cdataClose ++ '<' :: z

theorem sectionEnd_eq (z : List Char) : sectionEnd z = ']' :: ']' :: '>' :: '<' :: z := rfl

/-! ## Pieces before the split -/

theorem prefix_before {d x z : List Char} (hd : ']' ∉ d) (h : d <+: x ++ sectionEnd z) :
    ∃ y, x = d ++ y := by
  rcases Nat.le_total d.length x.length with hle | hle
  · obtain ⟨y, hy⟩ := List.prefix_of_prefix_length_le h (List.prefix_append x _) hle
    exact ⟨y, hy.symm⟩
  · obtain ⟨y, hy⟩ := List.prefix_of_prefix_length_le (List.prefix_append x _) h hle
    cases y with
    | nil => exact ⟨[], by rw [← hy, List.append_nil, List.append_nil]⟩
    | cons c y =>
      obtain ⟨w, hw⟩ := h
      rw [← hy, List.append_assoc, List.append_cancel_left_eq, sectionEnd_eq] at hw
      have hc : c = ']' := (List.cons.inj hw).1
      rw [← hy, hc] at hd
      simp at hd

theorem strip?_before {d x z rest : List Char} (hd : ']' ∉ d)
    (h : strip? d (x ++ sectionEnd z) = some rest) : ∃ y, x = d ++ y ∧ rest = y ++ sectionEnd z := by
  have heq := strip?_eq_some.mp h
  obtain ⟨y, rfl⟩ := prefix_before hd ⟨rest, heq.symm⟩
  rw [List.append_assoc, List.append_cancel_left_eq] at heq
  exact ⟨y, rfl, heq.symm⟩

theorem dropWhile_before {p : Char → Bool} (hp : p ']' = false) (x z : List Char) :
    (x ++ sectionEnd z).dropWhile p = x.dropWhile p ++ sectionEnd z := by
  induction x with
  | nil =>
    rw [List.nil_append, sectionEnd_eq, List.dropWhile_cons_of_neg (by simp [hp])]
    rfl
  | cons c x ih =>
    rw [List.cons_append, List.dropWhile_cons, List.dropWhile_cons]
    split
    · exact ih
    · rfl

theorem lexName_before {x z name rest : List Char}
    (h : lexName (x ++ sectionEnd z) = some (name, rest)) :
    ∃ y, y <:+ x ∧ rest = y ++ sectionEnd z := by
  unfold lexName at h
  dsimp only at h
  split at h
  · cases h
    exact ⟨_, List.dropWhile_suffix isNameChar, dropWhile_before (by decide) x z⟩
  · cases h

/-- A break in the front part is the break of the whole. -/
theorem breakOn_mono {d : List Char} (x w : List Char) {a b : List Char}
    (h : breakOn d x = some (a, b)) (hd : d ≠ []) : breakOn d (x ++ w) = some (a, b ++ w) := by
  induction x generalizing a with
  | nil =>
    rw [breakOn, if_neg hd] at h
    cases h
  | cons c x ih =>
    rw [List.cons_append, breakOn]
    rw [breakOn] at h
    split at h
    · rename_i rest hstrip
      cases h
      have hfull : strip? d (c :: (x ++ w)) = some (b ++ w) := by
        rw [strip?_eq_some, ← List.cons_append, strip?_eq_some.mp hstrip, List.append_assoc]
      rw [hfull]
    · rename_i hstrip
      obtain ⟨⟨a', b'⟩, hbreak, heq⟩ := Option.map_eq_some_iff.mp h
      cases heq
      have hlong : d.length ≤ (c :: x).length := by
        rw [(breakOn_spec _ hbreak).1]
        simp only [List.length_cons, List.length_append]
        omega
      have hnone : strip? d (c :: (x ++ w)) = none := by
        rw [strip?_eq_none] at hstrip ⊢
        intro hprefix
        exact hstrip (List.prefix_of_prefix_length_le hprefix (List.prefix_append (c :: x) w) hlong)
      rw [hnone, ih hbreak]
      rfl

theorem infix_of_mem {α : Type*} {a : α} {xs : List α} (h : a ∈ xs) : [a] <:+: xs := by
  obtain ⟨front, after, rfl⟩ := List.append_of_mem h
  exact ⟨front, after, by simp⟩

theorem breakOn_of_infix {d x : List Char} (h : d <:+: x) : ∃ a b, breakOn d x = some (a, b) := by
  induction x with
  | nil =>
    rw [List.infix_nil.mp h]
    exact ⟨[], [], rfl⟩
  | cons c x ih =>
    rw [breakOn]
    cases hstrip : strip? d (c :: x) with
    | some rest => exact ⟨[], rest, rfl⟩
    | none =>
      rcases List.infix_cons_iff.mp h with hprefix | hin
      · exact absurd hprefix (strip?_eq_none.mp hstrip)
      · obtain ⟨a, b, hbreak⟩ := ih hin
        exact ⟨c :: a, b, by simp [hbreak]⟩

/-- What ends with a hyphen or a question mark and `>` ends before the split. -/
theorem ends_before {x z w rest : List Char} {a : Char} (hz : Sealed (sectionEnd z))
    (ha : a = '-' ∨ a = '?') (h : x ++ sectionEnd z = w ++ a :: '>' :: rest) :
    ∃ y, y <:+ x ∧ rest = y ++ sectionEnd z := by
  have hsplit : x ++ sectionEnd z = (w ++ [a, '>']) ++ rest := by rw [h]; simp
  rcases List.append_eq_append_iff.mp hsplit with ⟨as, has, hrest⟩ | ⟨bs, hbs, hrest⟩
  · rcases List.eq_nil_or_concat as with rfl | ⟨p, last, rfl⟩
    · exact ⟨[], List.nil_suffix, hrest.symm⟩
    · -- the last character would be a `>` behind the split, after `a`
      rw [List.concat_eq_append] at has hrest
      have hends : (w ++ [a]) ++ ['>'] = (x ++ p) ++ [last] := by
        rw [List.append_assoc, List.append_assoc]
        exact has
      obtain ⟨hfront, hlast⟩ := List.append_inj' hends rfl
      cases hlast
      obtain ⟨p', c, rfl, hminus, hquestion⟩ := hz p rest (by rw [hrest]; simp)
      have hc : w ++ [a] = (x ++ p') ++ [c] := by rw [hfront, List.append_assoc]
      have hac : a = c := by
        have hinj := (List.append_inj' hc rfl).2
        exact (List.cons.inj hinj).1
      rcases ha with rfl | rfl
      · exact absurd hac.symm hminus
      · exact absurd hac.symm hquestion
  · exact ⟨bs, ⟨w ++ [a, '>'], hbs.symm⟩, hrest⟩

/-- What is cut off at a character that stands neither in the front nor in the end of a section
holds the whole end of the section. -/
theorem cut_behind {x z value rest : List Char} {q : Char}
    (hq : q ≠ ']' ∧ q ≠ '>' ∧ q ≠ '<') (hx : q ∉ x)
    (h : x ++ sectionEnd z = value ++ [q] ++ rest) : ']' ∈ value ∧ '<' ∈ value := by
  rw [List.append_assoc] at h
  rcases List.append_eq_append_iff.mp h with ⟨as, rfl, has⟩ | ⟨bs, rfl, hbs⟩
  · rw [sectionEnd_eq] at has
    match as with
    | [] => exact absurd (List.cons.inj has).1 hq.1.symm
    | [a] => exact absurd (List.cons.inj (List.cons.inj has).2).1 hq.1.symm
    | [a, b] => exact absurd (List.cons.inj (List.cons.inj (List.cons.inj has).2).2).1 hq.2.1.symm
    | [a, b, c] =>
      exact absurd (List.cons.inj (List.cons.inj (List.cons.inj (List.cons.inj has).2).2).2).1
        hq.2.2.symm
    | a :: b :: c :: d :: as =>
      simp only [List.cons_append, List.cons.injEq] at has
      obtain ⟨rfl, rfl, rfl, rfl, -⟩ := has
      simp
  · cases bs with
    | nil => exact absurd (List.cons.inj hbs).1 hq.1
    | cons b bs =>
      have hb : q = b := (List.cons.inj hbs).1
      exact absurd (by simp [hb]) hx

/-! ## Tokens before the split -/

theorem strip_close_before {x z rest : List Char}
    (h : strip? ['>'] (x ++ sectionEnd z) = some rest) :
    ∃ y, y <:+ x ∧ rest = y ++ sectionEnd z := by
  obtain ⟨y, rfl, hrest⟩ := strip?_before (by decide) h
  exact ⟨y, List.suffix_append _ _, hrest⟩

theorem lexAttribute_before {x z rest : List Char} {attr : List Char × List Char}
    (h : lexAttribute (x ++ sectionEnd z) = some (attr, rest)) :
    ∃ y, y <:+ x ∧ rest = y ++ sectionEnd z := by
  obtain ⟨⟨name, cs₁⟩, hname, h⟩ := Option.bind_eq_some_iff.mp h
  obtain ⟨cs₂, heq, h⟩ := Option.bind_eq_some_iff.mp h
  obtain ⟨⟨quote, cs₃⟩, hquote, h⟩ := Option.bind_eq_some_iff.mp h
  obtain ⟨⟨value, cs₄⟩, hvalue, h⟩ := Option.bind_eq_some_iff.mp h
  dsimp only at h heq hquote hvalue
  split at h
  · rename_i hok
    cases h
    obtain ⟨x₁, hx₁, rfl⟩ := lexName_before hname
    rw [dropWhile_before (by decide)] at heq
    obtain ⟨x₂, hx₂, rfl⟩ := strip?_before (by decide) heq
    rw [dropWhile_before (by decide)] at hquote
    obtain ⟨hcs₃, hmark⟩ := quoted?_eq_some hquote
    have hx₂x : x₂ <:+ x := ((List.suffix_append ['='] x₂).trans
      (hx₂ ▸ List.dropWhile_suffix isSpace)).trans hx₁
    cases hx₃ : x₂.dropWhile isSpace with
    | nil =>
      rw [hx₃] at hcs₃
      have hbracket : ']' = quote := (List.cons.inj hcs₃).1
      rcases hmark with rfl | rfl
      · cases hbracket
      · cases hbracket
    | cons q x₃ =>
      rw [hx₃] at hcs₃
      obtain ⟨rfl, htail⟩ := List.cons.inj hcs₃
      have hx₃x : x₃ <:+ x := ((List.suffix_cons q x₃).trans
        (hx₃ ▸ List.dropWhile_suffix isSpace)).trans hx₂x
      have hshape : x₃ ++ sectionEnd z = cs₃ := htail
      rw [← hshape] at hvalue
      by_cases hin : q ∈ x₃
      · obtain ⟨a, b, hbreak⟩ := breakOn_of_infix (d := [q]) (infix_of_mem hin)
        rw [breakOn_mono x₃ _ hbreak (by simp)] at hvalue
        cases hvalue
        have hb : b <:+ x₃ := ⟨_, (breakOn_spec _ hbreak).1.symm⟩
        exact ⟨b, hb.trans hx₃x, rfl⟩
      · -- the value would go on behind the split and hold a `<`
        have hq : q ≠ ']' ∧ q ≠ '>' ∧ q ≠ '<' := by
          rcases hmark with rfl | rfl
          · decide
          · decide
        have hlt := (cut_behind hq hin (breakOn_spec _ hvalue).1).2
        have hall := List.all_eq_true.mp (Bool.and_eq_true_iff.mp hok).1 '<' hlt
        simp at hall
  · cases h

theorem lexAttributes_before (n : ℕ) {x z rest : List Char}
    {attributes : List (List Char × List Char)}
    (h : lexAttributes n (x ++ sectionEnd z) = some (attributes, rest)) :
    ∃ y, y <:+ x ∧ rest = y ++ sectionEnd z := by
  induction n generalizing x attributes with
  | zero =>
    cases h
    exact ⟨x, List.suffix_refl x, rfl⟩
  | succ n ih =>
    rw [lexAttributes, dropWhile_before (by decide)] at h
    have hdrop := List.dropWhile_suffix isSpace (l := x)
    generalize x.dropWhile isSpace = x₁ at h hdrop
    split at h
    · cases h
    rename_i c tail hcs
    split at h
    · cases h
      exact ⟨x₁, hdrop, hcs.symm⟩
    split at h
    · cases h
    rw [← hcs] at h
    obtain ⟨⟨attr, cs₁⟩, hattr, h⟩ := Option.bind_eq_some_iff.mp h
    obtain ⟨⟨others, cs₂⟩, hothers, h⟩ := Option.bind_eq_some_iff.mp h
    cases h
    obtain ⟨x₂, hx₂, rfl⟩ := lexAttribute_before hattr
    obtain ⟨y, hy, hrest⟩ := ih hothers
    exact ⟨y, hy.trans (hx₂.trans hdrop), hrest⟩

theorem lexTag_before {x z rest : List Char} {token : Token}
    (h : lexTag (x ++ sectionEnd z) = some (token, rest)) :
    ∃ y, y <:+ x ∧ rest = y ++ sectionEnd z := by
  obtain ⟨⟨tag, cs₁⟩, hname, h⟩ := Option.bind_eq_some_iff.mp h
  obtain ⟨⟨attributes, cs₂⟩, hattributes, h⟩ := Option.bind_eq_some_iff.mp h
  dsimp only at h hattributes
  obtain ⟨x₁, hx₁, rfl⟩ := lexName_before hname
  obtain ⟨x₂, hx₂, rfl⟩ := lexAttributes_before _ hattributes
  split at h
  · split at h
    · rename_i hclose
      cases h
      obtain ⟨y, hy, hrest⟩ := strip_close_before hclose
      exact ⟨y, hy.trans (hx₂.trans hx₁), hrest⟩
    · obtain ⟨rest', hclose, heq⟩ := Option.map_eq_some_iff.mp h
      cases heq
      obtain ⟨y, hy, hrest⟩ := strip?_before (by decide) hclose
      exact ⟨y, (hy ▸ List.suffix_append emptyClose y).trans (hx₂.trans hx₁), hrest⟩
  · cases h

theorem lexStop_before {x z rest : List Char} {token : Token}
    (h : lexStop (x ++ sectionEnd z) = some (token, rest)) :
    ∃ y, y <:+ x ∧ rest = y ++ sectionEnd z := by
  obtain ⟨⟨tag, cs₁⟩, hname, h⟩ := Option.bind_eq_some_iff.mp h
  obtain ⟨rest', hclose, h⟩ := Option.bind_eq_some_iff.mp h
  cases h
  obtain ⟨x₁, hx₁, rfl⟩ := lexName_before hname
  rw [dropWhile_before (by decide)] at hclose
  obtain ⟨y, hy, hrest⟩ := strip_close_before hclose
  exact ⟨y, hy.trans ((List.dropWhile_suffix isSpace).trans hx₁), hrest⟩

theorem mem_of_mapM {α β : Type*} {f : α → Option β} {xs : List α} {ys : List β}
    (h : xs.mapM f = some ys) : ∀ x ∈ xs, ∃ y, f x = some y := by
  induction xs generalizing ys with
  | nil => simp
  | cons x xs ih =>
    rw [List.mapM_cons] at h
    obtain ⟨y, hy, h⟩ := Option.bind_eq_some_iff.mp h
    obtain ⟨ys', hys', -⟩ := Option.bind_eq_some_iff.mp h
    intro x' hx'
    rcases List.mem_cons.mp hx' with rfl | hx'
    · exact ⟨y, hy⟩
    · exact ih hys' x' hx'

theorem charRef?_no_bracket {base : ℕ} {value : Char → Option ℕ} {digits : List Char} {c : Char}
    (hvalue : value ']' = none) (h : charRef? base value digits = some c) : ']' ∉ digits := by
  obtain ⟨ds, hds, -⟩ := Option.bind_eq_some_iff.mp h
  intro hin
  obtain ⟨n, hn⟩ := mem_of_mapM hds ']' hin
  rw [hvalue] at hn
  cases hn

theorem entity?_no_bracket {body : List Char} {c : Char} (h : entity? body = some c) :
    ']' ∉ body := by
  unfold entity? at h
  split at h
  · rename_i heq
    rw [heq]
    decide
  split at h
  · rename_i heq
    rw [heq]
    decide
  split at h
  · rename_i heq
    rw [heq]
    decide
  split at h
  · rename_i heq
    rw [heq]
    decide
  split at h
  · rename_i heq
    rw [heq]
    decide
  split at h
  · rename_i digits hopen
    have hdigits := charRef?_no_bracket (by decide) h
    rw [strip?_eq_some.mp hopen]
    simp [hdigits]
  · obtain ⟨digits, hopen, h⟩ := Option.bind_eq_some_iff.mp h
    have hdigits := charRef?_no_bracket (by decide) h
    rw [strip?_eq_some.mp hopen]
    simp [hdigits]

theorem lexReference_before {x z rest : List Char} {c : Char}
    (h : lexReference (x ++ sectionEnd z) = some (c, rest)) :
    ∃ y, y <:+ x ∧ rest = y ++ sectionEnd z := by
  obtain ⟨⟨body, cs₁⟩, hbreak, h⟩ := Option.bind_eq_some_iff.mp h
  obtain ⟨c', hentity, h⟩ := Option.bind_eq_some_iff.mp h
  cases h
  by_cases hin : ';' ∈ x
  · obtain ⟨a, b, hfront⟩ := breakOn_of_infix (d := [';']) (infix_of_mem hin)
    rw [breakOn_mono x _ hfront (by simp)] at hbreak
    cases hbreak
    exact ⟨b, ⟨_, (breakOn_spec _ hfront).1.symm⟩, rfl⟩
  · have hbracket := (cut_behind (by decide) hin (breakOn_spec _ hbreak).1).1
    exact absurd hbracket (entity?_no_bracket hentity)

/-- A token of the front part ends in it, or it is a section that ends with the end of a section. -/
theorem lexOne_before {x z rest : List Char} {token : Token} (hz : Sealed (sectionEnd z))
    (hx : x ≠ []) (h : lexOne (x ++ sectionEnd z) = some (token, rest)) :
    (∃ y, y <:+ x ∧ rest = y ++ sectionEnd z) ∨
      ∃ y, x = cdataOpen ++ y ∧ token = .cdata y ∧ rest = '<' :: z ∧ ¬ cdataClose <:+: y := by
  unfold lexOne at h
  split at h
  · rename_i cs hopen
    obtain ⟨x₁, rfl, rfl⟩ := strip?_before (by decide) hopen
    obtain ⟨⟨text, rest'⟩, hbreak, heq⟩ := Option.map_eq_some_iff.mp h
    cases heq
    by_cases hin : cdataClose <:+: x₁
    · left
      obtain ⟨a, b, hfront⟩ := breakOn_of_infix hin
      rw [breakOn_mono x₁ _ hfront (by decide)] at hbreak
      cases hbreak
      have hb := (breakOn_spec _ hfront).1
      exact ⟨b, List.IsSuffix.trans ⟨_, hb.symm⟩ (List.suffix_append _ _), rfl⟩
    · right
      have hwhole := lexOne_cdata ('<' :: z) hin
      unfold lexOne at hwhole
      rw [strip?_append] at hwhole
      obtain ⟨⟨text', rest'⟩, hbreak', heq⟩ := Option.map_eq_some_iff.mp hwhole
      cases heq
      rw [sectionEnd, ← List.append_assoc, hbreak'] at hbreak
      cases hbreak
      exact ⟨_, rfl, rfl, rfl, hin⟩
  left
  split at h
  · rename_i cs hopen
    obtain ⟨x₁, rfl, rfl⟩ := strip?_before (by decide) hopen
    obtain ⟨⟨body, cs₁⟩, hbreak, h⟩ := Option.bind_eq_some_iff.mp h
    obtain ⟨rest', hclose, h⟩ := Option.bind_eq_some_iff.mp h
    cases h
    have hends : x₁ ++ sectionEnd z = (body ++ ['-']) ++ '-' :: '>' :: rest := by
      rw [(breakOn_spec _ hbreak).1, strip?_eq_some.mp hclose]
      simp
    obtain ⟨y, hy, hrest⟩ := ends_before hz (.inl rfl) hends
    exact ⟨y, hy.trans (List.suffix_append _ _), hrest⟩
  split at h
  · rename_i cs hopen
    obtain ⟨x₁, rfl, rfl⟩ := strip?_before (by decide) hopen
    obtain ⟨-, front, hfront⟩ := lexInstruction_spec h
    have hends : x₁ ++ sectionEnd z = front ++ '?' :: '>' :: rest := by
      rw [hfront, List.append_assoc]
      rfl
    obtain ⟨y, hy, hrest⟩ := ends_before hz (.inr rfl) hends
    exact ⟨y, hy.trans (List.suffix_append _ _), hrest⟩
  split at h
  · rename_i cs hopen
    obtain ⟨x₁, rfl, rfl⟩ := strip?_before (by decide) hopen
    obtain ⟨y, hy, hrest⟩ := lexStop_before h
    exact ⟨y, hy.trans (List.suffix_append _ _), hrest⟩
  cases x with
  | nil => exact absurd rfl hx
  | cons c x =>
    rw [List.cons_append] at h
    dsimp only at h
    split at h
    · obtain ⟨y, hy, hrest⟩ := lexTag_before h
      exact ⟨y, hy.trans (List.suffix_cons _ _), hrest⟩
    split at h
    · obtain ⟨⟨d, rest'⟩, href, heq⟩ := Option.map_eq_some_iff.mp h
      cases heq
      obtain ⟨y, hy, hrest⟩ := lexReference_before href
      exact ⟨y, hy.trans (List.suffix_cons _ _), hrest⟩
    split at h
    · cases h
    · cases h
      exact ⟨x, List.suffix_cons _ _, rfl⟩

theorem lexOne_sectionEnd (z : List Char) : lexOne (sectionEnd z) = none := by
  have hclose : strip? [']', ']', '>'] (']' :: ']' :: '>' :: '<' :: z) = some ('<' :: z) :=
    strip?_append [']', ']', '>'] _
  rw [sectionEnd_eq]
  unfold lexOne cdataOpen commentOpen instructionOpen stopOpen cdataClose
  rw [strip?_mismatch (by decide), strip?_mismatch (by decide), strip?_mismatch (by decide),
    strip?_mismatch (by decide)]
  simp only [hclose]
  rw [if_neg (by decide), if_neg (by decide)]
  rfl

/-- A reading over the end of a section has a section that ends there. -/
theorem Lexes.at_sectionEnd {x z : List Char} {tokens : List Token} (hz : Sealed (sectionEnd z))
    (h : Lexes (x ++ sectionEnd z) tokens []) :
    ∃ front y after, tokens = front ++ .cdata y :: after ∧ ¬ cdataClose <:+: y ∧
      Lexes (x ++ sectionEnd z) front (cdataOpen ++ (y ++ sectionEnd z)) ∧
        Lexes ('<' :: z) after [] := by
  generalize hcs : x ++ sectionEnd z = cs at h
  generalize hend : ([] : List Char) = last at h
  induction h generalizing x with
  | nil cs =>
    rw [← hend, sectionEnd_eq] at hcs
    simp at hcs
  | @cons cs mid rest token tokens hone htail ih =>
    subst hcs
    by_cases hx : x = []
    · rw [hx, List.nil_append, lexOne_sectionEnd] at hone
      cases hone
    rcases lexOne_before hz hx hone with ⟨y, -, rfl⟩ | ⟨y, rfl, rfl, rfl, hclose⟩
    · obtain ⟨front, y', after, rfl, hclose, hfront, hafter⟩ := ih rfl hend
      exact ⟨token :: front, y', after, rfl, hclose, .cons hone hfront, hafter⟩
    · subst hend
      refine ⟨[], y, tokens, rfl, hclose, ?_, htail⟩
      rw [List.append_assoc]
      exact .nil _

end Foundation.Xml
