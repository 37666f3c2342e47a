import OpenClaw.WeChat.ReplyRoundTrip

/-!
# Declarations in a reply

The parser looks for declarations in the bytes of a document, wherever they stand. The markup of a
reply holds none and joins none together, so that only a user name can bring one in.
-/

namespace OpenClaw.WeChat

open Foundation
set_option autoImplicit false

/-! ## Parts of a list -/

section Infix
variable {α : Type*} {d front rest : List α} {a : α}

/-- An element that is not in the pattern separates its places. -/
theorem infix_middle (ha : a ∉ d) : d <:+: front ++ a :: rest ↔ d <:+: front ∨ d <:+: rest := by
  constructor
  · rintro ⟨p, q, h⟩
    rcases List.append_eq_append_iff.mp h with ⟨as, has, -⟩ | ⟨bs, hbs, hq⟩
    · exact .inl ⟨p, as, has.symm⟩
    · cases bs with
      | nil =>
        rw [List.append_nil] at hbs
        exact .inl ⟨p, [], by rw [hbs, List.append_nil]⟩
      | cons b bs =>
        obtain ⟨rfl, hrest⟩ := List.cons.inj hq
        -- the element stands behind the part before the pattern
        rcases List.append_eq_append_iff.mp hbs with ⟨as, -, has⟩ | ⟨cs, hcs, hbehind⟩
        · exact absurd (by rw [has]; simp) ha
        · cases cs with
          | nil => exact absurd (by rw [← List.nil_append d, ← hbehind]; simp) ha
          | cons c cs =>
            have htail : bs = cs ++ d := (List.cons.inj hbehind).2
            have hsplit : rest = bs ++ q := hrest
            exact .inr ⟨cs, q, by rw [hsplit, htail]⟩
  · rintro (h | h)
    · exact h.trans (List.prefix_append _ _).isInfix
    · exact h.trans ((List.suffix_cons a rest).trans (List.suffix_append _ _)).isInfix

/-- The pattern stands nowhere in a part without its first element. -/
theorem infix_behind (ha : a ∉ front) : a :: d <:+: front ++ rest ↔ a :: d <:+: rest := by
  induction front with
  | nil => rfl
  | cons b front ih =>
    obtain ⟨hb, hfront⟩ := not_or.mp fun h => ha (List.mem_cons.mpr h)
    rw [List.cons_append, List.infix_cons_iff, List.cons_prefix_cons, ih hfront]
    simp [hb]

end Infix

/-! ## The bytes of a document -/

def lowerBytes (cs : List Char) : List UInt8 := (utf8 cs).map lowerByte

theorem lowerBytes_append (xs ys : List Char) :
    lowerBytes (xs ++ ys) = lowerBytes xs ++ lowerBytes ys := by
  simp [lowerBytes, utf8]

theorem containsBytes_iff {d bs : List UInt8} : containsBytes d bs = true ↔ d <:+: bs := by
  rw [containsBytes, List.any_eq_true]
  constructor
  · rintro ⟨t, ht, hprefix⟩
    exact (List.isPrefixOf_iff_prefix.mp hprefix).isInfix.trans ((List.mem_tails _ _).mp ht).isInfix
  · intro h
    obtain ⟨t, hprefix, hsuffix⟩ := List.infix_iff_prefix_suffix.mp h
    exact ⟨t, (List.mem_tails _ _).mpr hsuffix, List.isPrefixOf_iff_prefix.mpr hprefix⟩

/-- What the parser looks for, in small letters. -/
def declarationMarks : List (List UInt8) := [utf8 "<!doctype".toList, utf8 "<!entity".toList]

theorem hasDeclaration_eq_false {cs : List Char} :
    hasDeclaration (utf8 cs) = false ↔ ∀ d ∈ declarationMarks, ¬ d <:+: lowerBytes cs := by
  simp only [hasDeclaration, Bool.or_eq_false_iff, declarationMarks, List.forall_mem_cons,
    List.not_mem_nil, false_implies, implies_true, and_true, ← containsBytes_iff, lowerBytes,
    Bool.not_eq_true]

theorem mark_shape : ∀ d ∈ declarationMarks, (∃ rest, d = 60 :: rest) ∧ 62 ∉ d ∧ 91 ∉ d ∧ 93 ∉ d := by
  have hshape : ∀ d ∈ declarationMarks, d.head? = some 60 ∧ 62 ∉ d ∧ 91 ∉ d ∧ 93 ∉ d := by
    decide +kernel
  intro d hd
  obtain ⟨hhead, hrest⟩ := hshape d hd
  exact ⟨⟨d.tail, List.eq_cons_of_mem_head? hhead⟩, hrest⟩

theorem lowerBytes_no_lt {cs : List Char} (h : '<' ∉ cs) : (60 : UInt8) ∉ lowerBytes cs := by
  intro hin
  obtain ⟨b, hb, heq⟩ := List.mem_map.mp hin
  have hb60 : b = 60 := by
    unfold lowerByte at heq
    split at heq
    · rename_i hcapital
      exfalso
      obtain ⟨hlow, hhigh⟩ := hcapital
      rw [UInt8.le_iff_toNat_le] at hlow hhigh
      have hsum := congrArg UInt8.toNat heq
      rw [UInt8.toNat_add] at hsum
      simp only [UInt8.reduceToNat] at hlow hhigh hsum
      omega
    · exact heq
  obtain ⟨c, hc, hnat⟩ := toNat_of_mem_utf8 (by rw [hb60]; decide) hb
  rw [hb60] at hnat
  have hlt : c = '<' := Char.toNat_inj.mp hnat
  exact h (hlt ▸ hc)

/-! ## Texts without declarations -/

section Parts
variable {xs ys tag value rest : List Char}

theorem undeclared_middle {c : Char} (hc : c = '[' ∨ c = ']' ∨ c = '>') :
    hasDeclaration (utf8 (xs ++ c :: ys)) = false ↔
      hasDeclaration (utf8 xs) = false ∧ hasDeclaration (utf8 ys) = false := by
  simp only [hasDeclaration_eq_false, ← forall₂_and, ← not_or]
  refine forall₂_congr fun d hd => not_congr ?_
  obtain ⟨-, hgt, hopen, hclose⟩ := mark_shape d hd
  rw [lowerBytes_append]
  rcases hc with rfl | rfl | rfl
  · exact infix_middle hopen
  · exact infix_middle hclose
  · exact infix_middle hgt

theorem undeclared_behind (h : '<' ∉ xs) :
    hasDeclaration (utf8 (xs ++ ys)) = false ↔ hasDeclaration (utf8 ys) = false := by
  simp only [hasDeclaration_eq_false]
  refine forall₂_congr fun d hd => not_congr ?_
  obtain ⟨⟨rest, rfl⟩, -⟩ := mark_shape d hd
  rw [lowerBytes_append]
  exact infix_behind (lowerBytes_no_lt h)

theorem undeclared_section (hopen : hasDeclaration (utf8 ('<' :: tag)) = false)
    (hclose : hasDeclaration (utf8 ('>' :: '<' :: '/' :: tag)) = false) :
    hasDeclaration (utf8 (tagged tag (cdataSection value) ++ rest)) = false ↔
      hasDeclaration (utf8 value) = false ∧ hasDeclaration (utf8 rest) = false := by
  have hcdata : hasDeclaration (utf8 ['<', '!', '[', 'C', 'D', 'A', 'T', 'A']) = false := by
    decide +kernel
  have hshape : tagged tag (cdataSection value) ++ rest = ('<' :: tag) ++ '>' ::
      (['<', '!', '[', 'C', 'D', 'A', 'T', 'A'] ++ '[' :: (value ++ ']' :: ([] ++ ']' ::
        (('>' :: '<' :: '/' :: tag) ++ '>' :: rest)))) := by
    simp [tagged, cdataSection, Xml.cdataOpen, Xml.cdataClose]
  have hnil : hasDeclaration (utf8 []) = false := by decide
  rw [hshape, undeclared_middle (by simp), undeclared_middle (by simp), undeclared_middle (by simp),
    undeclared_middle (by simp), undeclared_middle (by simp)]
  simp only [hopen, hcdata, hnil, hclose, true_and]

theorem undeclared_plain (hopen : hasDeclaration (utf8 ('<' :: tag)) = false)
    (hclose : hasDeclaration (utf8 ('<' :: '/' :: tag)) = false) (hvalue : '<' ∉ value) :
    hasDeclaration (utf8 (tagged tag value ++ rest)) = false ↔
      hasDeclaration (utf8 rest) = false := by
  have hshape : tagged tag value ++ rest =
      ('<' :: tag) ++ '>' :: (value ++ (('<' :: '/' :: tag) ++ '>' :: rest)) := by
    simp [tagged]
  rw [hshape, undeclared_middle (by simp), undeclared_behind hvalue, undeclared_middle (by simp)]
  simp only [hopen, hclose, true_and]

end Parts

/-- A document of a reply declares what its user names declare. -/
theorem undeclared_document {ts toUser fromUser escaped : List Char} (hts : '<' ∉ ts)
    (hescaped : '<' ∉ escaped) :
    hasDeclaration (utf8 (replyDocument ts toUser fromUser escaped)) = false ↔
      hasDeclaration (utf8 toUser) = false ∧ hasDeclaration (utf8 fromUser) = false := by
  have hcontent : hasDeclaration (utf8 escaped) = false := by
    rw [← List.append_nil escaped]
    exact (undeclared_behind hescaped).mpr (by decide)
  have htext : hasDeclaration (utf8 "text".toList) = false := by decide +kernel
  have hend : hasDeclaration (utf8 ('<' :: '/' :: ("xml".toList ++ ['>']))) = false := by
    decide +kernel
  have hroot : hasDeclaration (utf8 ('<' :: "xml".toList)) = false := by decide +kernel
  have hshape : replyDocument ts toUser fromUser escaped = ('<' :: "xml".toList) ++ '>' ::
      (tagged toUserName (cdataSection toUser) ++ (tagged fromUserName (cdataSection fromUser) ++
        replyTail ts escaped)) := replyDocument_eq _ _ _ _
  rw [hshape, undeclared_middle (by simp), undeclared_section (by decide +kernel) (by decide +kernel),
    undeclared_section (by decide +kernel) (by decide +kernel), replyTail,
    undeclared_plain (by decide +kernel) (by decide +kernel) hts,
    undeclared_section (by decide +kernel) (by decide +kernel),
    undeclared_section (by decide +kernel) (by decide +kernel)]
  simp only [hroot, hcontent, htext, hend, true_and, and_true]

end OpenClaw.WeChat
