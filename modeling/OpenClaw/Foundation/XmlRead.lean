import Mathlib.Algebra.GroupWithZero.Nat
import OpenClaw.Foundation.XmlTree

/-!
# Reading XML

What the single tokens read, and what a whole reading of a text spends: every token has as many
characters as its markup costs beside its text.
-/

namespace Foundation.Xml

set_option autoImplicit false

/-! ## Pieces -/

theorem strip?_append (d cs : List Char) : strip? d (d ++ cs) = some cs := by
  unfold strip?
  rw [if_pos (List.isPrefixOf_iff_prefix.mpr (List.prefix_append _ _)), List.drop_left]

theorem strip?_eq_some {d cs rest : List Char} : strip? d cs = some rest ↔ cs = d ++ rest := by
  constructor
  · intro h
    unfold strip? at h
    split at h
    · rename_i hprefix
      obtain ⟨tail, rfl⟩ := List.isPrefixOf_iff_prefix.mp hprefix
      rw [List.drop_left] at h
      rw [Option.some.inj h]
    · cases h
  · rintro rfl
    exact strip?_append d rest

theorem strip?_eq_none {d cs : List Char} : strip? d cs = none ↔ ¬ d <+: cs := by
  unfold strip?
  rw [← List.isPrefixOf_iff_prefix]
  split
  · rename_i h
    simp [h]
  · rename_i h
    simp [h]

/-- A start that differs in its first characters is not there. -/
theorem strip?_mismatch {x y : Char} (h : x ≠ y) (d cs : List Char) :
    strip? (x :: d) (y :: cs) = none := by
  rw [strip?_eq_none]
  exact fun hprefix => h (List.cons_prefix_cons.mp hprefix).1

theorem strip?_mismatch_second {x y : Char} (h : x ≠ y) (c : Char) (d cs : List Char) :
    strip? (c :: x :: d) (c :: y :: cs) = none := by
  rw [strip?_eq_none]
  exact fun hprefix => h (List.cons_prefix_cons.mp (List.cons_prefix_cons.mp hprefix).2).1

/-- A break is at the first place of the delimiter. -/
theorem breakOn_spec {d : List Char} (cs : List Char) {a rest : List Char}
    (h : breakOn d cs = some (a, rest)) : cs = a ++ d ++ rest ∧ (d ≠ [] → ¬ d <:+: a) := by
  induction cs generalizing a with
  | nil =>
    unfold breakOn at h
    split at h
    · rename_i hd
      cases h
      exact ⟨by simp [hd], fun hne => absurd hd hne⟩
    · cases h
  | cons c cs ih =>
    unfold breakOn at h
    split at h
    · rename_i rest' hstrip
      cases h
      rw [strip?_eq_some.mp hstrip]
      exact ⟨rfl, fun hne hin => hne (List.infix_nil.mp hin)⟩
    · rename_i hstrip
      obtain ⟨⟨b, rest'⟩, hbreak, heq⟩ := Option.map_eq_some_iff.mp h
      cases heq
      obtain ⟨hcs, hfirst⟩ := ih hbreak
      refine ⟨by rw [hcs]; rfl, ?_⟩
      intro hne hin
      rcases List.infix_cons_iff.mp hin with hprefix | hin
      · apply strip?_eq_none.mp hstrip
        rw [hcs]
        exact hprefix.trans ⟨d ++ rest', by simp⟩
      · exact hfirst hne hin

/-- Where the delimiter starts at no place before, the break is there. -/
theorem breakOn_append {d : List Char} (a rest : List Char)
    (h : ∀ b c, a = b ++ c → c ≠ [] → ¬ d <+: c ++ d) (hd : d ≠ []) :
    breakOn d (a ++ d ++ rest) = some (a, rest) := by
  induction a with
  | nil =>
    cases d with
    | nil => exact absurd rfl hd
    | cons x d =>
      have hstrip : strip? (x :: d) (x :: (d ++ rest)) = some rest := strip?_append (x :: d) rest
      rw [List.nil_append, List.cons_append, breakOn, hstrip]
  | cons c a ih =>
    have hnone : strip? d (c :: (a ++ d ++ rest)) = none := by
      rw [strip?_eq_none]
      intro hprefix
      apply h [] (c :: a) rfl (List.cons_ne_nil _ _)
      have hshort : c :: a ++ d <+: c :: (a ++ d ++ rest) := ⟨rest, by simp⟩
      exact List.prefix_of_prefix_length_le hprefix hshort (by simp; omega)
    rw [List.cons_append, List.cons_append, breakOn, hnone, ih fun b e heq hne =>
      h (c :: b) e (by rw [heq]; rfl) hne]
    rfl

/-! ## Names and tags -/

/-- A name: it starts as one and goes on as one. -/
def isName (tag : List Char) : Bool := tag.head?.any isNameStart && tag.all isNameChar

theorem lexName_append {tag rest : List Char} (htag : isName tag = true)
    (hrest : ∀ c ∈ rest.head?, isNameChar c = false) :
    lexName (tag ++ rest) = some (tag, rest) := by
  obtain ⟨hstart, hall⟩ := Bool.and_eq_true_iff.mp htag
  have hin : ∀ c ∈ tag, isNameChar c = true := List.all_eq_true.mp hall
  have hstop : rest.takeWhile isNameChar = [] ∧ rest.dropWhile isNameChar = rest := by
    cases rest with
    | nil => exact ⟨rfl, rfl⟩
    | cons c rest => simp [hrest c rfl]
  unfold lexName
  rw [List.takeWhile_append_of_pos hin, List.dropWhile_append_of_pos hin, hstop.1, hstop.2,
    List.append_nil]
  simp [hstart]

theorem lexAttributes_close (n : ℕ) (rest : List Char) :
    lexAttributes n ('>' :: rest) = some ([], '>' :: rest) := by
  cases n with
  | zero => rfl
  | succ n =>
    unfold lexAttributes
    rw [List.dropWhile_cons_of_neg (by decide)]
    rfl

theorem not_name_close : isNameChar '>' = false := by decide

theorem lexOne_start {tag : List Char} (htag : isName tag = true) (rest : List Char) :
    lexOne ('<' :: (tag ++ '>' :: rest)) = some (.start tag, rest) := by
  obtain ⟨c, tag, rfl⟩ : ∃ c cs, tag = c :: cs := by
    cases tag with
    | nil => cases htag
    | cons c cs => exact ⟨c, cs, rfl⟩
  have hc : isNameStart c = true := (Bool.and_eq_true_iff.mp htag).1
  have hmark : c ≠ '!' ∧ c ≠ '?' ∧ c ≠ '/' := by
    refine ⟨?_, ?_, ?_⟩ <;> (rintro rfl; revert hc; decide)
  have hlex : lexTag (c :: tag ++ '>' :: rest) = some (.start (c :: tag), rest) := by
    unfold lexTag
    rw [lexName_append htag fun d hd => by cases hd; exact not_name_close]
    simp only [Option.bind_eq_bind, Option.bind_some, lexAttributes_close, List.map_nil,
      List.nodup_nil, if_true]
    rw [show strip? ['>'] ('>' :: rest) = some rest from strip?_append ['>'] rest]
  unfold lexOne cdataOpen commentOpen instructionOpen stopOpen
  rw [List.cons_append, strip?_mismatch_second hmark.1.symm, strip?_mismatch_second hmark.1.symm,
    strip?_mismatch_second hmark.2.1.symm, strip?_mismatch_second hmark.2.2.symm]
  exact hlex

theorem lexOne_stop {tag : List Char} (htag : isName tag = true) (rest : List Char) :
    lexOne ('<' :: '/' :: (tag ++ '>' :: rest)) = some (.stop tag, rest) := by
  have hlex : lexStop (tag ++ '>' :: rest) = some (.stop tag, rest) := by
    unfold lexStop
    rw [lexName_append htag fun d hd => by cases hd; exact not_name_close]
    simp only [Option.bind_eq_bind, Option.bind_some]
    rw [List.dropWhile_cons_of_neg (by decide),
      show strip? ['>'] ('>' :: rest) = some rest from strip?_append ['>'] rest]
    rfl
  have hopen : strip? ['<', '/'] ('<' :: '/' :: (tag ++ '>' :: rest)) = some (tag ++ '>' :: rest) :=
    strip?_append ['<', '/'] _
  unfold lexOne cdataOpen commentOpen instructionOpen stopOpen
  rw [strip?_mismatch_second (by decide), strip?_mismatch_second (by decide),
    strip?_mismatch_second (by decide), hopen]
  exact hlex

/-- A close that starts before another one ends before it. -/
theorem cdataClose_starts {c rest : List Char} (hne : c ≠ [])
    (h : cdataClose <+: c ++ cdataClose ++ rest) : cdataClose <+: c := by
  match c, hne with
  | [x], _ => exact absurd h (by simp [cdataClose])
  | [x, y], _ => exact absurd h (by simp [cdataClose])
  | x :: y :: z :: c, _ =>
    have hshort : x :: y :: z :: c <+: x :: y :: z :: c ++ cdataClose ++ rest :=
      ⟨cdataClose ++ rest, by simp⟩
    exact List.prefix_of_prefix_length_le h hshort (by simp [cdataClose])

theorem lexOne_cdata {text : List Char} (rest : List Char) (h : ¬ cdataClose <:+: text) :
    lexOne (cdataOpen ++ (text ++ cdataClose ++ rest)) = some (.cdata text, rest) := by
  have hfirst : ∀ b c, text = b ++ c → c ≠ [] → ¬ cdataClose <+: c ++ cdataClose := by
    intro b c heq hne hprefix
    rw [← List.append_nil (c ++ cdataClose)] at hprefix
    apply h
    rw [heq]
    exact (cdataClose_starts hne hprefix).isInfix.trans ⟨b, [], by simp⟩
  unfold lexOne
  rw [strip?_append]
  simp only
  rw [breakOn_append text rest hfirst (by decide)]
  rfl

theorem lexOne_literal {c : Char} {rest : List Char} (h : c ≠ '<' ∧ c ≠ '&' ∧ c ≠ ']') :
    lexOne (c :: rest) = some (.literal c, rest) := by
  unfold lexOne cdataOpen commentOpen instructionOpen stopOpen cdataClose
  rw [strip?_mismatch h.1.symm, strip?_mismatch h.1.symm, strip?_mismatch h.1.symm,
    strip?_mismatch h.1.symm]
  simp only [h.1, h.2.1, if_false]
  rw [strip?_mismatch h.2.2.symm]
  rfl

/-! ## What a token spends -/

/-- How many characters a token has at least beside its text. -/
def Token.cost : Token → ℕ
  | .start tag => tag.length + 2
  | .stop tag => tag.length + 3
  | .empty tag => tag.length + 3
  | .literal _ => 0
  | .reference _ => 1
  | .cdata _ => 12
  | .other => 1

theorem lexName_spec {cs name rest : List Char} (h : lexName cs = some (name, rest)) :
    cs = name ++ rest ∧ name ≠ [] := by
  unfold lexName at h
  dsimp only at h
  split at h
  · rename_i hstart
    cases h
    refine ⟨List.takeWhile_append_dropWhile.symm, ?_⟩
    intro hnil
    rw [hnil] at hstart
    cases hstart
  · cases h

theorem quoted?_eq_some {cs rest : List Char} {quote : Char} (h : quoted? cs = some (quote, rest)) :
    cs = quote :: rest ∧ (quote = '"' ∨ quote = '\'') := by
  cases cs with
  | nil => cases h
  | cons c cs =>
    rw [quoted?] at h
    split at h
    · rename_i hquote
      cases h
      exact ⟨rfl, hquote⟩
    · cases h

theorem lexAttribute_suffix {cs rest : List Char} {attr : List Char × List Char}
    (h : lexAttribute cs = some (attr, rest)) : rest <:+ cs := by
  obtain ⟨⟨name, cs₁⟩, hname, h⟩ := Option.bind_eq_some_iff.mp h
  obtain ⟨cs₂, heq, h⟩ := Option.bind_eq_some_iff.mp h
  obtain ⟨⟨quote, cs₃⟩, hquote, h⟩ := Option.bind_eq_some_iff.mp h
  obtain ⟨⟨value, cs₄⟩, hvalue, h⟩ := Option.bind_eq_some_iff.mp h
  dsimp only at h
  split at h
  · cases h
    have h₁ : cs₁ <:+ cs := ⟨name, (lexName_spec hname).1.symm⟩
    have h₂ : cs₂ <:+ cs₁ := by
      have hsome := strip?_eq_some.mp heq
      exact (List.suffix_append ['='] cs₂).trans (hsome ▸ List.dropWhile_suffix _)
    have h₃ : cs₃ <:+ cs₂ := by
      have hsome := (quoted?_eq_some hquote).1
      exact (List.suffix_cons quote cs₃).trans (hsome ▸ List.dropWhile_suffix _)
    have h₄ : rest <:+ cs₃ := ⟨value ++ [quote], (breakOn_spec _ hvalue).1.symm⟩
    exact h₄.trans (h₃.trans (h₂.trans h₁))
  · cases h

theorem lexAttributes_suffix (n : ℕ) {cs rest : List Char}
    {attributes : List (List Char × List Char)}
    (h : lexAttributes n cs = some (attributes, rest)) : rest <:+ cs := by
  induction n generalizing cs attributes with
  | zero =>
    cases h
    exact List.suffix_refl _
  | succ n ih =>
    unfold lexAttributes at h
    have hdrop := List.dropWhile_suffix isSpace (l := cs)
    split at h
    · cases h
    rename_i c tail hcs
    rw [hcs] at hdrop
    split at h
    · cases h
      exact hdrop
    split at h
    · cases h
    obtain ⟨⟨attr, cs₁⟩, hattr, h⟩ := Option.bind_eq_some_iff.mp h
    obtain ⟨⟨others, cs₂⟩, hothers, h⟩ := Option.bind_eq_some_iff.mp h
    cases h
    exact (ih hothers).trans ((lexAttribute_suffix hattr).trans hdrop)

theorem lexTag_spends {cs rest : List Char} {token : Token}
    (h : lexTag cs = some (token, rest)) :
    rest <:+ cs ∧ rest.length + token.cost + token.text.length ≤ cs.length + 1 := by
  obtain ⟨⟨tag, cs₁⟩, hname, h⟩ := Option.bind_eq_some_iff.mp h
  obtain ⟨⟨attributes, cs₂⟩, hattributes, h⟩ := Option.bind_eq_some_iff.mp h
  obtain ⟨hcs, -⟩ := lexName_spec hname
  have hsuffix := lexAttributes_suffix _ hattributes
  have hlength : cs.length = tag.length + cs₁.length := by rw [hcs, List.length_append]
  have hshort := hsuffix.length_le
  have hcs₁ : cs₁ <:+ cs := ⟨tag, hcs.symm⟩
  dsimp only at h
  split at h
  · split at h
    · rename_i rest' hclose
      cases h
      have heq := strip?_eq_some.mp hclose
      refine ⟨((List.suffix_append ['>'] rest).trans (heq ▸ hsuffix)).trans hcs₁, ?_⟩
      rw [heq] at hshort
      simp only [Token.cost, Token.text, List.length_append, List.length_cons,
        List.length_nil] at hshort ⊢
      omega
    · obtain ⟨rest', hclose, heq'⟩ := Option.map_eq_some_iff.mp h
      cases heq'
      have heq := strip?_eq_some.mp hclose
      refine ⟨((List.suffix_append emptyClose rest).trans (heq ▸ hsuffix)).trans hcs₁, ?_⟩
      rw [heq] at hshort
      simp only [emptyClose, Token.cost, Token.text, List.length_append, List.length_cons,
        List.length_nil] at hshort ⊢
      omega
  · cases h

theorem lexStop_spends {cs rest : List Char} {token : Token}
    (h : lexStop cs = some (token, rest)) :
    rest <:+ cs ∧ rest.length + token.cost + token.text.length ≤ cs.length + 2 := by
  obtain ⟨⟨tag, cs₁⟩, hname, h⟩ := Option.bind_eq_some_iff.mp h
  obtain ⟨rest', hclose, h⟩ := Option.bind_eq_some_iff.mp h
  cases h
  obtain ⟨hcs, -⟩ := lexName_spec hname
  have heq := strip?_eq_some.mp hclose
  have hspace : '>' :: rest <:+ cs₁ := by
    rw [show '>' :: rest = ['>'] ++ rest from rfl, ← heq]
    exact List.dropWhile_suffix _
  have hshort := hspace.length_le
  refine ⟨((List.suffix_cons '>' rest).trans hspace).trans ⟨tag, hcs.symm⟩, ?_⟩
  rw [hcs]
  simp only [Token.cost, Token.text, List.length_append, List.length_cons,
    List.length_nil] at hshort ⊢
  omega

theorem lexReference_spends {cs rest : List Char} {c : Char}
    (h : lexReference cs = some (c, rest)) : rest <:+ cs ∧ rest.length + 1 ≤ cs.length := by
  obtain ⟨⟨body, cs₁⟩, hbreak, h⟩ := Option.bind_eq_some_iff.mp h
  obtain ⟨c', -, h⟩ := Option.bind_eq_some_iff.mp h
  cases h
  have hcs := (breakOn_spec _ hbreak).1
  refine ⟨⟨body ++ [';'], hcs.symm⟩, ?_⟩
  rw [hcs]
  simp only [List.length_append, List.length_singleton]
  omega

theorem lexComment_suffix {cs rest : List Char} {token : Token}
    (h : lexComment cs = some (token, rest)) : token = .other ∧ rest <:+ cs := by
  obtain ⟨⟨body, cs₁⟩, hbreak, h⟩ := Option.bind_eq_some_iff.mp h
  obtain ⟨rest', hclose, h⟩ := Option.bind_eq_some_iff.mp h
  cases h
  refine ⟨rfl, ⟨body ++ ['-', '-'] ++ ['>'], ?_⟩⟩
  rw [(breakOn_spec _ hbreak).1, strip?_eq_some.mp hclose, List.append_assoc _ ['>']]

theorem lexInstruction_spec {cs rest : List Char} {token : Token}
    (h : lexInstruction cs = some (token, rest)) :
    token = .other ∧ ∃ front, cs = front ++ instructionClose ++ rest := by
  obtain ⟨⟨target, cs₁⟩, hname, h⟩ := Option.bind_eq_some_iff.mp h
  dsimp only at h
  split at h
  · cases h
  split at h
  · obtain ⟨⟨body, rest'⟩, hbreak, h⟩ := Option.bind_eq_some_iff.mp h
    cases h
    refine ⟨rfl, target ++ body, ?_⟩
    rw [(lexName_spec hname).1, (breakOn_spec _ hbreak).1]
    simp
  · cases h

/-- What starts with markup spends it before the rest is read. -/
theorem lexOne_spends {cs rest : List Char} {token : Token}
    (h : lexOne cs = some (token, rest)) :
    rest <:+ cs ∧ rest.length + token.cost + token.text.length ≤ cs.length := by
  unfold lexOne at h
  split at h
  · rename_i rest' hopen
    obtain ⟨⟨text, rest₁⟩, hbreak, heq⟩ := Option.map_eq_some_iff.mp h
    cases heq
    rw [strip?_eq_some.mp hopen, (breakOn_spec _ hbreak).1]
    refine ⟨⟨cdataOpen ++ (text ++ cdataClose), by simp⟩, ?_⟩
    simp only [cdataOpen, cdataClose, Token.cost, Token.text, List.length_append,
      List.length_cons, List.length_nil]
    omega
  split at h
  · rename_i rest' hopen
    obtain ⟨rfl, hsuffix⟩ := lexComment_suffix h
    rw [strip?_eq_some.mp hopen]
    have hle := hsuffix.length_le
    refine ⟨hsuffix.trans (List.suffix_append _ _), ?_⟩
    simp only [commentOpen, Token.cost, Token.text, List.length_append, List.length_cons,
      List.length_nil]
    omega
  split at h
  · rename_i rest' hopen
    obtain ⟨rfl, front, hfront⟩ := lexInstruction_spec h
    rw [strip?_eq_some.mp hopen, hfront]
    refine ⟨⟨instructionOpen ++ (front ++ instructionClose), by simp⟩, ?_⟩
    simp only [instructionOpen, instructionClose, Token.cost, Token.text, List.length_append,
      List.length_cons, List.length_nil]
    omega
  split at h
  · rename_i rest' hopen
    obtain ⟨hsuffix, hle⟩ := lexStop_spends h
    rw [strip?_eq_some.mp hopen]
    refine ⟨hsuffix.trans (List.suffix_append _ _), ?_⟩
    simp only [stopOpen, List.length_append, List.length_cons, List.length_nil]
    omega
  split at h
  · cases h
  rename_i c tail _ _ _ _
  split at h
  · obtain ⟨hsuffix, hle⟩ := lexTag_spends h
    exact ⟨hsuffix.trans (List.suffix_cons _ _), hle⟩
  split at h
  · obtain ⟨⟨d, rest₁⟩, href, heq⟩ := Option.map_eq_some_iff.mp h
    cases heq
    obtain ⟨hsuffix, hle⟩ := lexReference_spends href
    refine ⟨hsuffix.trans (List.suffix_cons _ _), ?_⟩
    simp only [Token.cost, Token.text, List.length_cons, List.length_nil]
    omega
  split at h
  · cases h
  · cases h
    exact ⟨List.suffix_cons _ _, by simp [Token.cost, Token.text]⟩

/-- Only a character is read as one. -/
theorem lexOne_literal_inv {cs rest : List Char} {c : Char}
    (h : lexOne cs = some (.literal c, rest)) : cs = c :: rest := by
  unfold lexOne at h
  split at h
  · obtain ⟨_, -, heq⟩ := Option.map_eq_some_iff.mp h
    cases heq
  split at h
  · cases (lexComment_suffix h).1
  split at h
  · cases (lexInstruction_spec h).1
  split at h
  · obtain ⟨_, -, h⟩ := Option.bind_eq_some_iff.mp h
    obtain ⟨_, -, h⟩ := Option.bind_eq_some_iff.mp h
    cases h
  split at h
  · cases h
  split at h
  · obtain ⟨_, -, h⟩ := Option.bind_eq_some_iff.mp h
    obtain ⟨_, -, h⟩ := Option.bind_eq_some_iff.mp h
    dsimp only at h
    split at h
    · split at h
      · cases h
      · obtain ⟨_, -, heq⟩ := Option.map_eq_some_iff.mp h
        cases heq
    · cases h
  split at h
  · obtain ⟨_, -, heq⟩ := Option.map_eq_some_iff.mp h
    cases heq
  split at h
  · cases h
  · cases h
    rfl

/-- What begins with the start of a section is a section. -/
theorem lexOne_section_inv {cs rest : List Char} {token : Token}
    (h : lexOne (cdataOpen ++ cs) = some (token, rest)) :
    ∃ text, token = .cdata text ∧ cs = text ++ cdataClose ++ rest ∧ ¬ cdataClose <:+: text := by
  unfold lexOne at h
  rw [strip?_append] at h
  obtain ⟨⟨text, rest'⟩, hbreak, heq⟩ := Option.map_eq_some_iff.mp h
  cases heq
  obtain ⟨hcs, hfirst⟩ := breakOn_spec _ hbreak
  exact ⟨text, rfl, hcs, hfirst (by decide)⟩

/-! ## Whole readings -/

/-- The tokens are read one after the other from the first text up to the second. -/
inductive Lexes : List Char → List Token → List Char → Prop where
  | nil (cs : List Char) : Lexes cs [] cs
  | cons {cs mid rest : List Char} {token : Token} {tokens : List Token} :
      lexOne cs = some (token, mid) → Lexes mid tokens rest → Lexes cs (token :: tokens) rest

namespace Lexes
variable {cs mid rest : List Char} {tokens more : List Token}

theorem append (h : Lexes cs tokens mid) (h' : Lexes mid more rest) :
    Lexes cs (tokens ++ more) rest := by
  induction h with
  | nil => exact h'
  | cons hone _ ih => exact .cons hone (ih h')

theorem inv (h : Lexes cs tokens rest) : (tokens = [] ∧ cs = rest) ∨
    ∃ token mid tail, tokens = token :: tail ∧ lexOne cs = some (token, mid) ∧
      Lexes mid tail rest := by
  cases h with
  | nil => exact .inl ⟨rfl, rfl⟩
  | cons hone htail => exact .inr ⟨_, _, _, rfl, hone, htail⟩

/-- The first token is known. -/
theorem first {token : Token} (h : Lexes cs tokens rest) (hone : lexOne cs = some (token, mid))
    (hlong : rest.length < cs.length) : ∃ tail, tokens = token :: tail ∧ Lexes mid tail rest := by
  rcases h.inv with ⟨-, rfl⟩ | ⟨token', mid', tail, rfl, hone', htail⟩
  · omega
  · rw [hone] at hone'
    cases hone'
    exact ⟨tail, rfl, htail⟩

theorem split (h : Lexes cs (tokens ++ more) rest) :
    ∃ mid, Lexes cs tokens mid ∧ Lexes mid more rest := by
  induction tokens generalizing cs with
  | nil => exact ⟨cs, .nil cs, h⟩
  | cons token tokens ih =>
    cases h with
    | cons hone htail =>
      obtain ⟨mid, hfirst, hsecond⟩ := ih htail
      exact ⟨mid, .cons hone hfirst, hsecond⟩

end Lexes

def textLength (tokens : List Token) : ℕ := (tokens.map fun t => t.text.length).sum

def costOf (tokens : List Token) : ℕ := (tokens.map Token.cost).sum

theorem Lexes.spends {cs rest : List Char} {tokens : List Token} (h : Lexes cs tokens rest) :
    rest <:+ cs ∧ rest.length + costOf tokens + textLength tokens ≤ cs.length := by
  induction h with
  | nil cs => exact ⟨List.suffix_refl _, by simp [costOf, textLength]⟩
  | @cons cs mid rest token tokens hone _ ih =>
    obtain ⟨hsuffix, hle⟩ := lexOne_spends hone
    refine ⟨ih.1.trans hsuffix, ?_⟩
    have hrest := ih.2
    simp only [costOf, textLength, List.map_cons, List.sum_cons] at hrest ⊢
    omega

theorem token_pos {cs rest : List Char} {token : Token} (h : lexOne cs = some (token, rest)) :
    rest.length < cs.length := by
  have hle := (lexOne_spends h).2
  cases token with
  | literal c => simp only [Token.cost, Token.text, List.length_singleton] at hle; omega
  | reference c => simp only [Token.cost] at hle; omega
  | start tag => simp only [Token.cost] at hle; omega
  | stop tag => simp only [Token.cost] at hle; omega
  | empty tag => simp only [Token.cost] at hle; omega
  | cdata text => simp only [Token.cost] at hle; omega
  | other => simp only [Token.cost] at hle; omega

theorem lexAll_iff {fuel : ℕ} {cs : List Char} {tokens : List Token} (h : cs.length ≤ fuel) :
    lexAll fuel cs = some tokens ↔ Lexes cs tokens [] := by
  induction fuel generalizing cs tokens with
  | zero =>
    have hnil : cs = [] := List.length_eq_zero_iff.mp (Nat.le_zero.mp h)
    subst hnil
    constructor
    · intro hlex
      cases hlex
      exact .nil []
    · intro hlex
      cases hlex with
      | nil => rfl
      | cons hone _ => cases hone
  | succ fuel ih =>
    cases cs with
    | nil =>
      constructor
      · intro hlex
        cases hlex
        exact .nil []
      · intro hlex
        cases hlex with
        | nil => rfl
        | cons hone _ => cases hone
    | cons c cs =>
      constructor
      · intro hlex
        obtain ⟨⟨token, rest⟩, hone, hlex⟩ := Option.bind_eq_some_iff.mp hlex
        obtain ⟨others, hothers, heq⟩ := Option.bind_eq_some_iff.mp hlex
        cases heq
        have hshort := token_pos hone
        exact .cons hone ((ih (by simp only [List.length_cons] at h hshort; omega)).mp hothers)
      · intro hlex
        cases hlex with
        | cons hone htail =>
          have hshort := token_pos hone
          have hothers := (ih (by simp only [List.length_cons] at h hshort; omega)).mpr htail
          rw [lexAll, hone]
          simp only [Option.bind_eq_bind, Option.bind_some, hothers]
          rfl

/-- The fuel never runs out. -/
theorem lex_iff {cs : List Char} {tokens : List Token} :
    lex cs = some tokens ↔ Lexes cs tokens [] := lexAll_iff (Nat.le_refl _)

theorem feedAll_append (p : Progress) (tokens more : List Token) :
    feedAll p (tokens ++ more) = (feedAll p tokens).bind fun q => feedAll q more := by
  induction tokens generalizing p with
  | nil => rfl
  | cons token tokens ih =>
    rw [List.cons_append, feedAll, feedAll]
    cases feed p token with
    | none => rfl
    | some q => exact ih q

end Foundation.Xml
