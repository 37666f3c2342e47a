import OpenClaw.Foundation.XmlFrames
import OpenClaw.Foundation.XmlSplit
import OpenClaw.WeChat.ReplyRoundTrip

/-!
# User names that end their section

If the reader gets two user names that are as long as the ones put in, then neither ends its section:
the markup around them costs all the other characters, so that a second end of a section would leave
too few for the text.
-/

namespace OpenClaw.WeChat

open Foundation
open Foundation.Xml (Token Lexes Frame Progress Element feedAll_append)
set_option autoImplicit false

/-! ## The text around the user names -/

/-- No `>` at the start, and none after a hyphen or a question mark. -/
def sealedCheck (z : List Char) : Bool :=
  decide (z.head? ≠ some '>') && (z.zip z.tail).all fun r =>
    decide (r.2 = '>' → r.1 ≠ '-' ∧ r.1 ≠ '?')

theorem sealed_of_check {z : List Char} (h : sealedCheck z = true) : Xml.Sealed z := by
  obtain ⟨hhead, hpairs⟩ := Bool.and_eq_true_iff.mp h
  intro p q hz
  rcases List.eq_nil_or_concat p with rfl | ⟨p', c, rfl⟩
  · rw [hz] at hhead
    simp at hhead
  · rw [List.concat_eq_append] at hz ⊢
    have hpair : ∀ xs : List Char,
        (c, '>') ∈ (xs ++ c :: '>' :: q).zip (xs ++ c :: '>' :: q).tail := by
      intro xs
      induction xs with
      | nil => simp
      | cons x xs ih =>
        cases xs with
        | nil => simp
        | cons y xs => exact List.mem_cons_of_mem _ ih
    have hmem := hpair p'
    rw [← List.singleton_append, ← List.append_assoc, ← hz] at hmem
    have hgood := of_decide_eq_true (List.all_eq_true.mp hpairs _ hmem) rfl
    exact ⟨p', c, rfl, hgood⟩

theorem sealed_append {xs ys : List Char} (hx : Xml.Sealed xs) (hy : Xml.Sealed ys) :
    Xml.Sealed (xs ++ ys) := by
  intro p q h
  rcases List.append_eq_append_iff.mp h with ⟨as, rfl, has⟩ | ⟨bs, hbs, hq⟩
  · obtain ⟨p', c, rfl, hc⟩ := hy as q has
    exact ⟨xs ++ p', c, by simp, hc⟩
  · cases bs with
    | nil =>
      obtain ⟨p', c, hp', -⟩ := hy [] q hq.symm
      simp at hp'
    | cons b bs =>
      obtain ⟨rfl, -⟩ := List.cons.inj hq
      exact hx p bs hbs

theorem sealed_of_no_gt {xs : List Char} (h : '>' ∉ xs) : Xml.Sealed xs := by
  intro p q hxs
  rw [hxs] at h
  simp at h

/-- What stands between the section of the second user name and the end. -/
def afterFromUser (ts escaped : List Char) : List Char :=
  '/' :: (fromUserName ++ '>' :: replyTail ts escaped)

theorem sealed_after {ts escaped : List Char} (hts : '>' ∉ ts) (hescaped : '>' ∉ escaped) :
    Xml.Sealed (Xml.sectionEnd (afterFromUser ts escaped)) := by
  have hshape : Xml.sectionEnd (afterFromUser ts escaped) =
      "]]></FromUserName><CreateTime>".toList ++ (ts ++
        ("</CreateTime><MsgType><![CDATA[text]]></MsgType><Content><![CDATA[".toList ++
          (escaped ++ "]]></Content></xml>".toList))) := by
    simp only [Xml.sectionEnd, afterFromUser, replyTail, tagged, cdataSection, List.append_assoc,
      List.cons_append]
    rfl
  rw [hshape]
  exact sealed_append (sealed_of_check (by decide)) (sealed_append (sealed_of_no_gt hts)
    (sealed_append (sealed_of_check (by decide)) (sealed_append (sealed_of_no_gt hescaped)
      (sealed_of_check (by decide)))))

/-- What follows the section of the first user name. -/
def behindToUser (fromUser z : List Char) : List Char :=
  '<' :: '/' :: (toUserName ++ '>' :: '<' :: (fromUserName ++ '>' ::
    (Xml.cdataOpen ++ (fromUser ++ Xml.sectionEnd z))))

/-- The text between the first tag of a user name and the end of the second section. -/
def userNames (toUser fromUser : List Char) : List Char :=
  Xml.cdataOpen ++ (toUser ++ (Xml.cdataClose ++ ('<' :: '/' :: (toUserName ++ '>' ::
    '<' :: (fromUserName ++ '>' :: (Xml.cdataOpen ++ fromUser))))))

theorem replyDocument_split (ts toUser fromUser escaped : List Char) :
    replyDocument ts toUser fromUser escaped =
      '<' :: ("xml".toList ++ '>' :: '<' :: (toUserName ++ '>' ::
        (userNames toUser fromUser ++ Xml.sectionEnd (afterFromUser ts escaped)))) := by
  rw [replyDocument_eq]
  simp only [tagged, cdataSection, userNames, Xml.sectionEnd, afterFromUser, List.append_assoc,
    List.cons_append, List.nil_append]

/-! ## Readings without markup -/

/-- Tokens that cost nothing are characters, and no section ends in front of one of them. -/
theorem literal_reading {cs mid : List Char} {tokens : List Token} (h : Lexes cs tokens mid)
    (hcost : Xml.costOf tokens = 0) :
    ∃ lits, cs = lits ++ mid ∧ lits.length = Xml.textLength tokens ∧
      ∀ a b, lits = a ++ b → b ≠ [] → ∃ c rest,
        Xml.lexOne (b ++ mid) = some (.literal c, rest) := by
  induction h with
  | nil cs => exact ⟨[], rfl, rfl, fun a b hab hb => absurd (List.append_eq_nil_iff.mp hab.symm).2 hb⟩
  | @cons cs next mid token tokens hone htail ih =>
    rw [Xml.costOf_cons] at hcost
    obtain ⟨lits, rfl, hlength, hall⟩ := ih (by omega)
    cases token with
    | literal c =>
      have hcs := Xml.lexOne_literal_inv hone
      subst hcs
      refine ⟨c :: lits, rfl, ?_, ?_⟩
      · rw [Xml.textLength_cons, List.length_cons, hlength]
        exact Nat.add_comm _ _
      · intro a b hab hb
        cases a with
        | nil =>
          rw [List.nil_append] at hab
          exact ⟨c, _, by rw [← hab]; exact hone⟩
        | cons x a =>
          exact hall a b (List.cons.inj hab).2 hb
    | start _ => simp [Token.cost] at hcost
    | stop _ => simp [Token.cost] at hcost
    | empty _ => simp [Token.cost] at hcost
    | reference _ => simp [Token.cost] at hcost
    | cdata _ => simp [Token.cost] at hcost
    | other => simp [Token.cost] at hcost

theorem spent_pos (token : Token) : 0 < token.cost + token.text.length := by
  cases token <;> simp only [Token.cost, Token.text, List.length_singleton] <;> omega

theorem no_tokens_of_zero {tokens : List Token}
    (h : Xml.costOf tokens + Xml.textLength tokens = 0) : tokens = [] := by
  cases tokens with
  | nil => rfl
  | cons token tokens =>
    have hpos := spent_pos token
    rw [Xml.costOf_cons, Xml.textLength_cons] at h
    omega

/-- If characters follow the first end of a section up to the last one, that was the last one. -/
theorem section_unique {x t lits mid : List Char}
    (heq : x ++ Xml.cdataClose = t ++ Xml.cdataClose ++ lits)
    (hlits : ∀ a b, lits = a ++ b → b ≠ [] → ∃ c rest,
      Xml.lexOne (b ++ '<' :: mid) = some (.literal c, rest)) : x = t := by
  have hno : ∀ a, lits ≠ a ++ Xml.cdataClose := by
    intro a ha
    obtain ⟨c, rest, hone⟩ := hlits a Xml.cdataClose ha (by decide)
    have hnone := Xml.lexOne_sectionEnd mid
    rw [Xml.sectionEnd] at hnone
    rw [hnone] at hone
    cases hone
  rcases List.append_eq_append_iff.mp heq with ⟨as, has, hclose⟩ | ⟨bs, hbs, hclose⟩
  · -- the two ends overlap
    rcases as with _ | ⟨a, _ | ⟨b, _ | ⟨c, as⟩⟩⟩
    · exact absurd hclose.symm (hno [])
    · have ha : ']' = a := (List.cons.inj hclose).1
      have hlast := congrArg List.getLast? has
      rw [← ha] at hlast
      simp [Xml.cdataClose] at hlast
    · have hb : ']' = b := (List.cons.inj (List.cons.inj hclose).2).1
      have hlast := congrArg List.getLast? has
      rw [← hb] at hlast
      simp [Xml.cdataClose] at hlast
    · simp only [Xml.cdataClose, List.cons_append, List.cons.injEq] at hclose
      obtain ⟨rfl, rfl, rfl, htail⟩ := hclose
      obtain ⟨rfl, -⟩ := List.append_eq_nil_iff.mp htail.symm
      exact (List.append_cancel_right has).symm
  · exact absurd hclose (hno bs)

/-! ## Counting -/

section Count
variable {toUser fromUser z : List Char}

theorem userNames_length (toUser fromUser : List Char) :
    (userNames toUser fromUser).length = toUser.length + fromUser.length + 48 := by
  have hto : toUserName.length = 10 := by decide
  have hfrom : fromUserName.length = 12 := by decide
  have hopen : Xml.cdataOpen.length = 9 := by decide
  have hclose : Xml.cdataClose.length = 3 := by decide
  simp only [userNames, List.length_append, List.length_cons, hto, hfrom, hopen, hclose]
  omega

/-- With texts that are long enough, each section holds the whole user name. -/
theorem sections_whole {front u v w : List Token} {y : List Char}
    (hread : Lexes (userNames toUser fromUser ++ Xml.sectionEnd z) front
      (Xml.cdataOpen ++ (y ++ Xml.sectionEnd z)))
    (hsplit : front ++ [.cdata y] =
      u ++ .stop toUserName :: (v ++ .start fromUserName :: w))
    (hto : toUser.length ≤ Xml.textLength u) (hfrom : fromUser.length ≤ Xml.textLength w) :
    ¬ Xml.cdataClose <:+: toUser ∧ fromUser = y := by
  -- the reading starts with the first section and ends with the second one
  rcases hread.inv with ⟨rfl, -⟩ | ⟨token, mid₀, front, rfl, hone, htail⟩
  · have hlength := congrArg List.length hsplit
    simp at hlength
    omega
  rw [userNames, List.append_assoc] at hone
  obtain ⟨first, rfl, hfirst, hopen⟩ := Xml.lexOne_section_inv hone
  obtain ⟨u', rfl⟩ : ∃ u', u = .cdata first :: u' := by
    cases u with
    | nil => cases (List.cons.inj hsplit).1
    | cons _ u' => exact ⟨u', by rw [(List.cons.inj hsplit).1]⟩
  obtain ⟨w', rfl⟩ : ∃ w', w = w' ++ [.cdata y] := by
    rcases List.eq_nil_or_concat w with rfl | ⟨w', last, rfl⟩
    · have hends : (Token.cdata first :: front) ++ [Token.cdata y] =
          (.cdata first :: (u' ++ .stop toUserName :: v)) ++ [.start fromUserName] := by
        rw [hsplit]
        simp
      cases (List.append_inj' hends rfl).2
    · rw [List.concat_eq_append] at hsplit ⊢
      have hends : (Token.cdata first :: front) ++ [Token.cdata y] =
          (.cdata first :: (u' ++ .stop toUserName :: (v ++ .start fromUserName :: w'))) ++
            [last] := by
        rw [hsplit]
        simp
      exact ⟨w', by rw [(List.append_inj' hends rfl).2]⟩
  have hfront : front = u' ++ .stop toUserName :: (v ++ .start fromUserName :: w') := by
    have hcons : (Token.cdata first :: front) ++ [Token.cdata y] =
        (.cdata first :: (u' ++ .stop toUserName :: (v ++ .start fromUserName :: w'))) ++
          [.cdata y] := by
      rw [hsplit]
      simp
    exact (List.cons.inj (List.append_cancel_right hcons)).2
  subst hfront
  obtain ⟨mid₁, hlits, hrest⟩ := htail.split
  -- all that the tokens may cost is spent
  have hopenLength : Xml.cdataOpen.length = 9 := by decide
  have hcloseLength : Xml.cdataClose.length = 3 := by decide
  have htags : toUserName.length = 10 ∧ fromUserName.length = 12 := by decide
  have hspent := hlits.spends.2
  have hspentRest := hrest.spends.2
  have hwhole := congrArg List.length hfirst
  simp only [List.length_append, List.length_cons, hopenLength, hcloseLength, htags.1, htags.2,
    Xml.costOf_append, Xml.costOf_cons, Xml.textLength_append, Xml.textLength_cons, Token.cost,
    Token.text, List.length_nil] at hspent hspentRest hwhole hto hfrom
  have hnil : Xml.textLength [] = 0 ∧ Xml.costOf [] = 0 := ⟨rfl, rfl⟩
  have hv : v = [] := no_tokens_of_zero (by omega)
  subst hv
  obtain ⟨lits, rfl, hlitsLength, hliteral⟩ := literal_reading hlits (by omega)
  -- so what is left over of the first section stands before the tag behind the user name
  have hparts : (toUser ++ Xml.cdataClose) ++ behindToUser fromUser z =
      (first ++ Xml.cdataClose ++ lits) ++ mid₁ := by
    rw [behindToUser]
    simpa only [List.append_assoc, List.cons_append] using hfirst
  obtain ⟨hclose, hbehind⟩ := List.append_inj' hparts (by
    simp only [behindToUser, List.length_append, List.length_cons, hopenLength, htags.1, htags.2]
    omega)
  subst hbehind
  obtain rfl := section_unique hclose hliteral
  refine ⟨hopen, ?_⟩
  -- the two tags are read, and there is nothing to spend on more than one section
  rw [behindToUser] at hrest
  obtain ⟨_, heq, hrest⟩ := hrest.first (Xml.lexOne_stop (by decide) _) (by
    simp only [List.length_append, List.length_cons]
    omega)
  cases heq
  obtain ⟨_, heq, hrest⟩ := hrest.first (Xml.lexOne_start (by decide) _) (by
    simp only [List.length_append, List.length_cons]
    omega)
  cases heq
  rcases hrest.inv with ⟨-, hsame⟩ | ⟨token, mid₃, w'', rfl, hone, -⟩
  · exact List.append_cancel_right (List.append_cancel_left hsame)
  · obtain ⟨text, rfl, -⟩ := Xml.lexOne_section_inv hone
    simp only [Xml.costOf_cons, Token.cost] at hspentRest
    omega

end Count

/-! ## The whole document -/

section Document
variable {ts toUser fromUser escaped : List Char}

/-- Behind the second section, a reading of the document goes on as it should. -/
theorem reading_of_document {tokens : List Token} (hts : ∀ c ∈ ts, c ≠ '<' ∧ c ≠ '&' ∧ c ≠ ']')
    (htime : '>' ∉ ts) (hescaped : '>' ∉ escaped)
    (h : Lexes (replyDocument ts toUser fromUser escaped) tokens []) :
    ∃ front y, tokens = .start "xml".toList :: .start toUserName :: (front ++
        .cdata y :: .stop fromUserName :: tailTokens ts escaped) ∧ ¬ Xml.cdataClose <:+: y ∧
      Lexes (userNames toUser fromUser ++ Xml.sectionEnd (afterFromUser ts escaped)) front
        (Xml.cdataOpen ++ (y ++ Xml.sectionEnd (afterFromUser ts escaped))) := by
  rw [replyDocument_split] at h
  obtain ⟨inner, rfl, hinner⟩ := h.first (Xml.lexOne_start (by decide) _) (by simp)
  obtain ⟨rest, rfl, hrest⟩ := hinner.first (Xml.lexOne_start (by decide) _) (by simp)
  obtain ⟨front, y, after, rfl, hclose, hfront, hafter⟩ :=
    hrest.at_sectionEnd (sealed_after htime hescaped)
  obtain ⟨last, rfl, hlast⟩ := hafter.first (Xml.lexOne_stop (by decide) _) (by simp)
  have htail := lexes_tail hts (not_close_of_no_gt hescaped)
  have hsame : some last = some (tailTokens ts escaped) := by
    rw [← Xml.lex_iff.mpr hlast, ← Xml.lex_iff.mpr htail]
  cases hsame
  exact ⟨front, y, rfl, hclose, hfront⟩

/-- The element of the second user name is on the root when the last three elements come. -/
theorem build_of_document {front : List Token} {y : List Char} {root : Element}
    (h : Xml.build (.start "xml".toList :: .start toUserName :: (front ++
      .cdata y :: .stop fromUserName :: tailTokens ts escaped)) = some root) :
    ∃ q g : Frame, Xml.feedAll (.inside { tag := toUserName } [{ tag := "xml".toList }])
        (front ++ [.cdata y]) = some (.inside q [g]) ∧ q.tag = fromUserName ∧
      root.children = g.children ++ [q.close, .mk createTime ts [], .mk msgType "text".toList [],
        .mk contentTag escaped []] := by
  have hshape : front ++ .cdata y :: .stop fromUserName :: tailTokens ts escaped =
      (front ++ [.cdata y]) ++ .stop fromUserName :: tailTokens ts escaped := by simp
  have hroot : Xml.feed .before (.start "xml".toList) =
      some (.inside { tag := "xml".toList } []) := rfl
  have hfirst : Xml.feed (.inside { tag := "xml".toList } []) (.start toUserName) =
      some (.inside { tag := toUserName } [{ tag := "xml".toList }]) := rfl
  rw [Xml.build, Xml.feedAll, hroot, Option.bind_some, Xml.feedAll, hfirst, Option.bind_some, hshape,
    feedAll_append] at h
  cases hrun : Xml.feedAll (.inside { tag := toUserName } [{ tag := "xml".toList }])
      (front ++ [.cdata y]) with
  | none =>
    rw [hrun] at h
    cases h
  | some p =>
    rw [hrun, Option.bind_some, Xml.feedAll] at h
    cases p with
    | before => cases h
    | after _ => cases h
    | inside q rest =>
      by_cases htag : fromUserName = q.tag
      · rw [Xml.feed, if_pos htag, Option.bind_some] at h
        cases rest with
        | nil => cases h
        | cons g rest =>
          rw [Xml.complete, feedAll_tail] at h
          by_cases hxml : "xml".toList = (g.addChild q.close).tag
          · rw [if_pos hxml] at h
            cases rest with
            | nil =>
              cases h
              refine ⟨q, g, rfl, htag.symm, ?_⟩
              simp [Frame.close, Frame.addChild, Element.children]
            | cons _ _ => cases h
          · rw [if_neg hxml] at h
            cases h
      · rw [Xml.feed, if_neg htag] at h
        cases h

theorem onlyField_text {root e : Element} {tag text : List Char} (h : OnlyField root tag text)
    (he : e ∈ root.children) (htag : e.tag = tag) : e.text = text := by
  obtain ⟨e', hfilter, htext⟩ := h
  have hmem : e ∈ root.children.filter fun child => child.tag = tag :=
    List.mem_filter.mpr ⟨he, decide_eq_true htag⟩
  rw [hfilter] at hmem
  rw [List.mem_singleton.mp hmem]
  exact htext

/-- With two elements of the right lengths, no user name ends its section. -/
theorem userNames_closed {tokens : List Token} {root : Element} {readTo readFrom : List Char}
    (hts : ∀ c ∈ ts, c ≠ '<' ∧ c ≠ '&' ∧ c ≠ ']') (htime : '>' ∉ ts) (hescaped : '>' ∉ escaped)
    (hread : Lexes (replyDocument ts toUser fromUser escaped) tokens [])
    (hbuild : Xml.build tokens = some root) (hto : OnlyField root toUserName readTo)
    (hfrom : OnlyField root fromUserName readFrom) (htoLength : toUser.length ≤ readTo.length)
    (hfromLength : fromUser.length ≤ readFrom.length) :
    ¬ Xml.cdataClose <:+: toUser ∧ ¬ Xml.cdataClose <:+: fromUser := by
  obtain ⟨front, y, rfl, hclose, hfront⟩ := reading_of_document hts htime hescaped hread
  obtain ⟨q, g, hrun, hq, hchildren⟩ := build_of_document hbuild
  rcases Xml.run_close [] rfl hrun with
    ⟨pre, a, hstack, htag⟩ | ⟨u, v, a, hu, htag, htext, hv⟩
  · -- the first element would still be the one on top
    have hsame : q = a := by
      cases pre with
      | nil => exact (List.cons.inj hstack).1
      | cons _ pre =>
        have hlength := congrArg List.length hstack
        simp at hlength
    rw [← hsame, hq] at htag
    exact absurd htag (by decide)
  · obtain ⟨v, w, rfl, hw⟩ := Xml.run_open [] hv rfl
    obtain ⟨pre, g', hstack, -, hkept⟩ := Xml.run_bottom [] rfl hv
    have hg : g = g' := by
      have hends : [q] ++ [g] = pre ++ [g'] := hstack
      exact (List.cons.inj (List.append_inj' hends rfl).2).1
    have hfirst : a.close ∈ root.children := by
      rw [hchildren, hg]
      exact List.mem_append_left _ (hkept.subset (by simp [Frame.addChild]))
    have hsecond : q.close ∈ root.children := by
      rw [hchildren]
      simp
    have htoText : a.text = readTo := onlyField_text hto hfirst htag
    have hfromText : q.text = readFrom := onlyField_text hfrom hsecond hq
    rw [← htoText] at htoLength
    rw [← hfromText] at hfromLength
    rw [hq] at hu
    obtain ⟨hopen, rfl⟩ := sections_whole hfront hu
      (htoLength.trans (by simpa using htext)) (hfromLength.trans hw)
    exact ⟨hopen, hclose⟩

end Document

end OpenClaw.WeChat
