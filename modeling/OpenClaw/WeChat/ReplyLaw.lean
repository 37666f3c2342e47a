import OpenClaw.WeChat.ReplyDeclarations
import OpenClaw.WeChat.ReplyInjection

/-!
# When a reply comes back

A reply that keeps the parser's budgets is read as it was written exactly if its values are plain.
-/

namespace OpenClaw.WeChat

open Foundation
open Foundation.Xml (Element Lexes)
set_option autoImplicit false

/-! ## The time -/

theorem timeText_digit {now : ℕ} {c : Char} (h : c ∈ timeText now) : 48 ≤ c.toNat ∧ c.toNat ≤ 57 := by
  have hdigit := Nat.isDigit_of_mem_toDigits (by decide) (by decide) h
  simp only [Char.isDigit, Bool.and_eq_true, decide_eq_true_eq] at hdigit
  exact ⟨hdigit.1, hdigit.2⟩

theorem timeText_ne {now : ℕ} {c d : Char} (hd : d.toNat < 48 ∨ 57 < d.toNat)
    (h : c ∈ timeText now) : c ≠ d := by
  rintro rfl
  have hdigit := timeText_digit h
  omega

theorem timeText_clean {now : ℕ} : ∀ c ∈ timeText now, c ≠ '<' ∧ c ≠ '&' ∧ c ≠ ']' ∧ c ≠ '\r' :=
  fun _ hc => ⟨timeText_ne (by decide) hc, timeText_ne (by decide) hc, timeText_ne (by decide) hc,
    timeText_ne (by decide) hc⟩

theorem timeText_legal (now : ℕ) : (timeText now).all Xml.isChar = true := by
  rw [List.all_eq_true]
  intro c hc
  have hdigit := timeText_digit hc
  rw [Xml.isChar, decide_eq_true_eq]
  omega

/-! ## Reading what was written -/

theorem onlyField_unique {root : Element} {tag text text' : List Char}
    (h : OnlyField root tag text) (h' : OnlyField root tag text') : text = text' := by
  obtain ⟨e, hfilter, rfl⟩ := h
  obtain ⟨e', hfilter', rfl⟩ := h'
  rw [hfilter] at hfilter'
  rw [(List.cons.inj hfilter').1]

section Tree
variable (ts toUser fromUser escaped : List Char)

theorem onlyField_toUser : OnlyField (replyTree ts toUser fromUser escaped) toUserName toUser :=
  ⟨.mk toUserName toUser [], rfl, rfl⟩

theorem onlyField_fromUser :
    OnlyField (replyTree ts toUser fromUser escaped) fromUserName fromUser :=
  ⟨.mk fromUserName fromUser [], rfl, rfl⟩

theorem onlyField_content : OnlyField (replyTree ts toUser fromUser escaped) contentTag escaped :=
  ⟨.mk contentTag escaped [], rfl, rfl⟩

/-- The parser's dictionary of a reply whose values are short enough. -/
theorem collectFields_replyTree
    (h : ∀ value ∈ [toUser, fromUser, ts, escaped],
      (PyText.strip value).length ≤ xmlMaxFieldValueLen) :
    ∃ fields, collectFields 0 (fun _ => none)
        (replyTree ts toUser fromUser escaped).children = .ok fields ∧
      fields toUserName = some (PyText.strip toUser) ∧
      fields fromUserName = some (PyText.strip fromUser) ∧
      fields contentTag = some (PyText.strip escaped) := by
  have htext : (PyText.strip "text".toList).length ≤ xmlMaxFieldValueLen := by decide
  have hstep : ∀ (n : ℕ) (result : XmlFields) (tag value : List Char) (rest : List Element),
      n < xmlMaxFields → (PyText.strip value).length ≤ xmlMaxFieldValueLen →
      collectFields n result (.mk tag value [] :: rest) =
        collectFields (n + 1) (result.set tag (PyText.strip value)) rest := by
    intro n result tag value rest hn hvalue
    rw [collectFields, if_neg (Nat.not_lt_of_le hn)]
    simp only [Element.text, Element.tag]
    exact if_neg (Nat.not_lt_of_le hvalue)
  simp only [List.forall_mem_cons, List.not_mem_nil, false_implies, implies_true, and_true] at h
  obtain ⟨hto, hfrom, hts, hescaped⟩ := h
  rw [replyTree, Element.children, hstep _ _ _ _ _ (by decide) hto,
    hstep _ _ _ _ _ (by decide) hfrom, hstep _ _ _ _ _ (by decide) hts,
    hstep _ _ _ _ _ (by decide) htext, hstep _ _ _ _ _ (by decide) hescaped, collectFields]
  exact ⟨_, rfl, rfl, rfl, rfl⟩

end Tree

section Law
variable {now : ℕ} {toUser fromUser content : List Char}

/-- Reading plain values gives them back. -/
theorem roundTrip_of_plain (hbudget : WithinBudgets now toUser fromUser content)
    (h : Plain toUser fromUser content) : ReplyRoundTrip now toUser fromUser content := by
  have hreturns : ('\r' ∉ toUser ∧ '\r' ∉ fromUser) ∧ '\r' ∉ content := by
    have hall := h.noReturn
    rw [List.mem_append, List.mem_append, not_or, not_or] at hall
    exact hall
  obtain ⟨⟨hto, hfrom⟩, hcontent⟩ := hreturns
  have hescape := escapeContent_id h.unescaped
  have hclosed : ¬ Xml.cdataClose <:+: content :=
    not_close_of_no_gt fun hin => (h.unescaped _ hin).2.2 rfl
  have hlegal : (toUser.all Xml.isChar = true ∧ fromUser.all Xml.isChar = true) ∧
      content.all Xml.isChar = true := by
    have hall := List.all_eq_true.mpr hbudget.legal
    rw [List.all_append, List.all_append, Bool.and_eq_true, Bool.and_eq_true] at hall
    exact hall
  have hparse : Xml.parse (buildTextReplyXml now toUser fromUser content) =
      some (replyTree (timeText now) toUser fromUser content) := by
    have hreadTo := normalizeNewlines_id hto
    have hreadFrom := normalizeNewlines_id hfrom
    have hreadContent := normalizeNewlines_id hcontent
    have hclean : Xml.parse (replyDocument (timeText now) toUser fromUser content) =
        some (replyTree (timeText now) (Xml.normalizeNewlines toUser)
          (Xml.normalizeNewlines fromUser) (Xml.normalizeNewlines content)) := by
      apply parse_clean timeText_clean
      · rw [hreadTo]
        exact h.toUserOpen
      · rw [hreadFrom]
        exact h.fromUserOpen
      · rw [hreadContent]
        exact hclosed
      · rw [hreadTo, hreadFrom, hreadContent]
        exact legal_document (timeText_legal now) hlegal.1.1 hlegal.1.2 hlegal.2
    rw [buildTextReplyXml, hescape, hclean, hreadTo, hreadFrom, hreadContent]
  have hundeclared : hasDeclaration (utf8 (buildTextReplyXml now toUser fromUser content)) = false :=
    (undeclared_document (fun hin => (timeText_clean _ hin).1 rfl)
      (fun hin => (mem_escapeContent hin).1.1 rfl)).mpr
        ⟨h.toUserUndeclared, h.fromUserUndeclared⟩
  refine ⟨⟨_, hparse, onlyField_toUser _ _ _ _, onlyField_fromUser _ _ _ _,
    onlyField_content _ _ _ _⟩, ?_⟩
  have hdepth : withinDepth xmlMaxDepth (replyTree (timeText now) toUser fromUser content) = true :=
    rfl
  obtain ⟨fields, hfields, hread⟩ :=
    collectFields_replyTree (timeText now) toUser fromUser content hbudget.values
  refine ⟨fields, ?_, hread⟩
  have hpayload := hbudget.payload
  rw [byteSize] at hpayload
  rw [parseWechatXml, if_neg (Nat.not_lt_of_le hpayload), hundeclared, utf8Decode_utf8,
    Option.bind_some, hparse]
  simpa [hdepth] using hfields

/-- A reading of the values as they were written comes from plain ones. -/
theorem plain_of_roundTrip (h : ReplyRoundTrip now toUser fromUser content) :
    Plain toUser fromUser content := by
  obtain ⟨⟨root, hparse, hto, hfrom, hcontent⟩, fields, hfields, -⟩ := h
  have hreturn : '\r' ∉ timeText now := fun hin => (timeText_clean _ hin).2.2.2 rfl
  have hclean : ∀ c ∈ timeText now, c ≠ '<' ∧ c ≠ '&' ∧ c ≠ ']' :=
    fun c hc => ⟨(timeText_clean c hc).1, (timeText_clean c hc).2.1, (timeText_clean c hc).2.2.1⟩
  have htime : '>' ∉ timeText now := fun hin => timeText_ne (by decide) hin rfl
  have hnoGt : '>' ∉ Xml.normalizeNewlines (escapeContent content) := by
    intro hin
    rcases (mem_normalizeFrom hin).2 with heq | hin
    · cases heq
    · exact (mem_escapeContent hin).1.2 rfl
  -- the names that are read end no section, and so the names that are written end none
  rw [buildTextReplyXml] at hparse
  obtain ⟨hlegal, tokens, hread, hbuild⟩ := (parse_document hreturn).mp hparse
  obtain ⟨htoOpen, hfromOpen⟩ := userNames_closed hclean htime hnoGt hread hbuild hto hfrom
    (normalizeNewlines_length toUser) (normalizeNewlines_length fromUser)
  have htree := parse_clean timeText_clean htoOpen hfromOpen (not_close_of_no_gt hnoGt) hlegal
  rw [hparse] at htree
  cases htree
  have htoSame := onlyField_unique hto (onlyField_toUser _ _ _ _)
  have hfromSame := onlyField_unique hfrom (onlyField_fromUser _ _ _ _)
  have hcontentSame := onlyField_unique hcontent (onlyField_content _ _ _ _)
  have hno : ∀ cs cs' : List Char, cs = Xml.normalizeNewlines cs' → '\r' ∉ cs := by
    intro cs cs' heq hin
    rw [heq] at hin
    exact (mem_normalizeFrom hin).1 rfl
  have hcontentReturn : '\r' ∉ escapeContent content := by
    intro hin
    rcases (mem_escapeContent hin).2 with hentity | hin
    · exact absurd hentity (by decide)
    · exact hno _ _ hcontentSame hin
  have hunescaped : ∀ c ∈ content, c ≠ '&' ∧ c ≠ '<' ∧ c ≠ '>' := by
    rw [normalizeNewlines_id hcontentReturn] at hcontentSame
    exact unescaped_of_length (Nat.le_of_eq (congrArg List.length hcontentSame.symm))
  have hundeclared :
      hasDeclaration (utf8 (buildTextReplyXml now toUser fromUser content)) = false := by
    cases hdeclares : hasDeclaration (utf8 (buildTextReplyXml now toUser fromUser content)) with
    | false => rfl
    | true =>
      rw [parseWechatXml, hdeclares] at hfields
      split at hfields
      · cases hfields
      · cases hfields
  obtain ⟨htoUndeclared, hfromUndeclared⟩ :=
    (undeclared_document (fun hin => (timeText_clean _ hin).1 rfl)
      (fun hin => (mem_escapeContent hin).1.1 rfl)).mp hundeclared
  exact {
    toUserOpen := by rw [htoSame]; exact htoOpen
    fromUserOpen := by rw [hfromSame]; exact hfromOpen
    toUserUndeclared := htoUndeclared
    fromUserUndeclared := hfromUndeclared
    unescaped := hunescaped
    noReturn := by
      rw [List.mem_append, List.mem_append, not_or, not_or]
      exact ⟨⟨hno _ _ htoSame, hno _ _ hfromSame⟩, hno _ _ hcontentSame⟩
  }

/-- The reply is read as it was written if and only if its values are plain. -/
theorem reply_comes_back_iff (hbudget : WithinBudgets now toUser fromUser content) :
    ReplyRoundTrip now toUser fromUser content ↔ Plain toUser fromUser content :=
  ⟨plain_of_roundTrip, roundTrip_of_plain hbudget⟩

end Law

theorem reply_comes_back_short :
    WithinBudgets 1700000000 "user".toList "bot".toList "done [1]".toList ∧
      ReplyRoundTrip 1700000000 "user".toList "bot".toList "done [1]".toList := by
  have hbudget : WithinBudgets 1700000000 "user".toList "bot".toList "done [1]".toList := {
    legal := List.all_eq_true.mp (by decide +kernel)
    payload := by decide +kernel
    values := by decide +kernel
  }
  refine ⟨hbudget, (reply_comes_back_iff hbudget).mpr ?_⟩
  exact {
    toUserOpen := by decide +kernel
    fromUserOpen := by decide +kernel
    toUserUndeclared := by decide +kernel
    fromUserUndeclared := by decide +kernel
    unescaped := by simp
    noReturn := by decide +kernel
  }

/-- The user reads the escape of an ampersand where an ampersand was sent. -/
theorem reply_shows_escape :
    WithinBudgets 1700000000 "user".toList "bot".toList "a & b".toList ∧
      (∃ root, Xml.parse (buildTextReplyXml 1700000000 "user".toList "bot".toList
          "a & b".toList) = some root ∧ OnlyField root contentTag "a &amp; b".toList) ∧
      ¬ ReplyRoundTrip 1700000000 "user".toList "bot".toList "a & b".toList := by
  have hbudget : WithinBudgets 1700000000 "user".toList "bot".toList "a & b".toList := {
    legal := List.all_eq_true.mp (by decide +kernel)
    payload := by decide +kernel
    values := by decide +kernel
  }
  have hparse : Xml.parse (buildTextReplyXml 1700000000 "user".toList "bot".toList
      "a & b".toList) = some (replyTree (timeText 1700000000) "user".toList "bot".toList
        "a &amp; b".toList) := by
    rw [buildTextReplyXml, show escapeContent "a & b".toList = "a &amp; b".toList by decide +kernel]
    exact parse_clean timeText_clean (by decide +kernel) (by decide +kernel) (by decide +kernel)
      (by decide +kernel)
  refine ⟨hbudget, ⟨_, hparse, onlyField_content _ _ _ _⟩, ?_⟩
  intro h
  obtain ⟨⟨root, hroot, -, -, hcontent⟩, -⟩ := h
  rw [hparse] at hroot
  cases hroot
  have hsame := onlyField_unique hcontent (onlyField_content _ _ _ _)
  exact absurd hsame (by decide)

end OpenClaw.WeChat
