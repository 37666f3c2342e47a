import OpenClaw.Foundation.PyText
import OpenClaw.Foundation.TextBytes
import OpenClaw.Foundation.XmlRead

/-!
# What a reader gets of a reply

As long as the user names end no section, the document of a reply is read as its five elements, each
with the text that was put in, line ends normalized.
-/

namespace OpenClaw.WeChat

open Foundation
open Foundation.Xml (Token Lexes Frame Progress Element feedAll_append)
set_option autoImplicit false

/-!
## The passive reply

`build_text_reply_xml` and `parse_wechat_xml` of `connector/platforms/wechat_webhook.py`. The reply
puts its values into CDATA sections; the content is escaped before, the two user names are not.
-/

section Documents

/-! ## Writing -/

def replaceChar (c : Char) (text cs : List Char) : List Char :=
  cs.flatMap fun d => if d = c then text else [d]

/-- `content.replace("&", "&amp;").replace("<", "&lt;").replace(">", "&gt;")`. -/
def escapeContent (content : List Char) : List Char :=
  replaceChar '>' "&gt;".toList (replaceChar '<' "&lt;".toList
    (replaceChar '&' "&amp;".toList content))

def tagged (tag inner : List Char) : List Char :=
  '<' :: (tag ++ '>' :: (inner ++ '<' :: '/' :: (tag ++ ['>'])))

def cdataSection (value : List Char) : List Char := Xml.cdataOpen ++ (value ++ Xml.cdataClose)

def toUserName : List Char := "ToUserName".toList
def fromUserName : List Char := "FromUserName".toList
def createTime : List Char := "CreateTime".toList
def msgType : List Char := "MsgType".toList
def contentTag : List Char := "Content".toList

/-- The document around the time, the user names and the escaped content. -/
def replyDocument (ts toUser fromUser escaped : List Char) : List Char :=
  tagged "xml".toList (tagged toUserName (cdataSection toUser) ++
    (tagged fromUserName (cdataSection fromUser) ++ (tagged createTime ts ++
      (tagged msgType (cdataSection "text".toList) ++
        tagged contentTag (cdataSection escaped)))))

/-- `str(int(time.time()))`. -/
def timeText (now : ℕ) : List Char := Nat.toDigits 10 now

def buildTextReplyXml (now : ℕ) (toUser fromUser content : List Char) : List Char :=
  replyDocument (timeText now) toUser fromUser (escapeContent content)

/-! ## Reading -/

def xmlMaxPayloadBytes : ℕ := 64 * 1024
def xmlMaxDepth : ℕ := 3
def xmlMaxFields : ℕ := 30
def xmlMaxFieldValueLen : ℕ := 10000

inductive XmlBudgetExceeded where
  | payloadSize (size : ℕ)
  | declarations
  | parseError
  | depth
  | fieldCount
  | valueLength (tag : List Char) (length : ℕ)

/-- `bytes.lower`. -/
def lowerByte (b : UInt8) : UInt8 := if 65 ≤ b ∧ b ≤ 90 then b + 32 else b

def containsBytes (d bs : List UInt8) : Bool := bs.tails.any fun t => d.isPrefixOf t

/-- A document type or an entity is declared, in capital or small letters. -/
def hasDeclaration (raw : List UInt8) : Bool :=
  let lowered := raw.map lowerByte
  containsBytes (utf8 "<!doctype".toList) lowered || containsBytes (utf8 "<!entity".toList) lowered

/-- The element has at most so many levels. -/
def withinDepth : ℕ → Xml.Element → Bool
  | 0, _ => false
  | n + 1, e => e.children.all (withinDepth n)

abbrev XmlFields := List Char → Option (List Char)

def XmlFields.set (fields : XmlFields) (tag value : List Char) : XmlFields :=
  fun t => if t = tag then some value else fields t

def collectFields : ℕ → XmlFields → List Xml.Element → Except XmlBudgetExceeded XmlFields
  | _, result, [] => .ok result
  | fieldCount, result, child :: rest =>
    if xmlMaxFields < fieldCount + 1 then .error .fieldCount
    else
      let value := PyText.strip child.text
      if xmlMaxFieldValueLen < value.length then .error (.valueLength child.tag value.length)
      else collectFields (fieldCount + 1) (result.set child.tag value) rest

def parseWechatXml (raw : List UInt8) : Except XmlBudgetExceeded XmlFields :=
  if xmlMaxPayloadBytes < raw.length then .error (.payloadSize raw.length)
  else if hasDeclaration raw then .error .declarations
  else
    match (utf8Decode raw).bind Xml.parse with
    | none => .error .parseError
    | some root =>
      if withinDepth xmlMaxDepth root then collectFields 0 (fun _ => none) root.children
      else .error .depth

/-! ## The round trip -/

/-- The document has exactly one element with the tag under its root, with this text. -/
def OnlyField (root : Xml.Element) (tag text : List Char) : Prop :=
  ∃ e, root.children.filter (fun child => child.tag = tag) = [e] ∧ e.text = text

structure ReplyRoundTrip (now : ℕ) (toUser fromUser content : List Char) : Prop where
  document : ∃ root, Xml.parse (buildTextReplyXml now toUser fromUser content) = some root ∧
    OnlyField root toUserName toUser ∧ OnlyField root fromUserName fromUser ∧
    OnlyField root contentTag content
  fields : ∃ fields,
    parseWechatXml (utf8 (buildTextReplyXml now toUser fromUser content)) = .ok fields ∧
    fields toUserName = some (PyText.strip toUser) ∧
    fields fromUserName = some (PyText.strip fromUser) ∧
    fields contentTag = some (PyText.strip content)

/-- The values are made of XML characters, and the reply keeps the parser's budgets. -/
structure WithinBudgets (now : ℕ) (toUser fromUser content : List Char) : Prop where
  legal : ∀ c ∈ toUser ++ fromUser ++ content, Xml.isChar c = true
  payload : byteSize (buildTextReplyXml now toUser fromUser content) ≤ xmlMaxPayloadBytes
  values : ∀ value ∈ [toUser, fromUser, timeText now, content],
    (PyText.strip value).length ≤ xmlMaxFieldValueLen

/-- The user names end no section and hold no declaration, the content needs no escape, and no line
ends in a carriage return. -/
structure Plain (toUser fromUser content : List Char) : Prop where
  toUserOpen : ¬ Xml.cdataClose <:+: toUser
  fromUserOpen : ¬ Xml.cdataClose <:+: fromUser
  toUserUndeclared : hasDeclaration (utf8 toUser) = false
  fromUserUndeclared : hasDeclaration (utf8 fromUser) = false
  unescaped : ∀ c ∈ content, c ≠ '&' ∧ c ≠ '<' ∧ c ≠ '>'
  noReturn : '\r' ∉ toUser ++ fromUser ++ content

end Documents

/-! ## Tokens -/

theorem lexes_section {tag value : List Char} (htag : Xml.isName tag = true)
    (hvalue : ¬ Xml.cdataClose <:+: value) (rest : List Char) :
    Lexes (tagged tag (cdataSection value) ++ rest) [.start tag, .cdata value, .stop tag] rest := by
  have hshape : tagged tag (cdataSection value) ++ rest = '<' :: (tag ++ '>' ::
      (Xml.cdataOpen ++ (value ++ Xml.cdataClose ++ ('<' :: '/' :: (tag ++ '>' :: rest))))) := by
    simp [tagged, cdataSection]
  rw [hshape]
  exact .cons (Xml.lexOne_start htag _) (.cons (Xml.lexOne_cdata _ hvalue)
    (.cons (Xml.lexOne_stop htag _) (.nil rest)))

theorem lexes_literals {cs : List Char} (h : ∀ c ∈ cs, c ≠ '<' ∧ c ≠ '&' ∧ c ≠ ']')
    (rest : List Char) : Lexes (cs ++ rest) (cs.map Token.literal) rest := by
  induction cs with
  | nil => exact .nil rest
  | cons c cs ih =>
    exact .cons (Xml.lexOne_literal (h c List.mem_cons_self))
      (ih fun d hd => h d (List.mem_cons_of_mem _ hd))

theorem lexes_plain {tag cs : List Char} (htag : Xml.isName tag = true)
    (h : ∀ c ∈ cs, c ≠ '<' ∧ c ≠ '&' ∧ c ≠ ']') (rest : List Char) :
    Lexes (tagged tag cs ++ rest) (.start tag :: (cs.map Token.literal ++ [.stop tag])) rest := by
  have hshape : tagged tag cs ++ rest =
      '<' :: (tag ++ '>' :: (cs ++ ('<' :: '/' :: (tag ++ '>' :: rest)))) := by
    simp [tagged]
  rw [hshape]
  exact .cons (Xml.lexOne_start htag _) ((lexes_literals h _).append
    (.cons (Xml.lexOne_stop htag _) (.nil rest)))

/-! ## Elements -/

theorem feedAll_section (top : Frame) (rest : List Frame) (tag value : List Char) :
    Xml.feedAll (.inside top rest) [.start tag, .cdata value, .stop tag] =
      some (.inside (top.addChild (.mk tag value [])) rest) := by
  simp [Xml.feedAll, Xml.feed, Xml.complete, Frame.addText, Frame.close, Token.text]

theorem feedAll_literals (top : Frame) (rest : List Frame) (cs : List Char)
    (h : top.children = []) :
    Xml.feedAll (.inside top rest) (cs.map Token.literal) =
      some (.inside { top with text := top.text ++ cs } rest) := by
  induction cs generalizing top with
  | nil => simp [Xml.feedAll]
  | cons c cs ih =>
    have hone : Xml.feed (.inside top rest) (.literal c) =
        some (.inside { top with text := top.text ++ [c] } rest) := by
      simp [Xml.feed, Frame.addText, Token.text, h]
    rw [List.map_cons, Xml.feedAll_cons, hone, Option.bind_some,
      ih { top with text := top.text ++ [c] } h]
    simp

theorem feedAll_plain (top : Frame) (rest : List Frame) (tag cs : List Char) :
    Xml.feedAll (.inside top rest) (.start tag :: (cs.map Token.literal ++ [.stop tag])) =
      some (.inside (top.addChild (.mk tag cs [])) rest) := by
  have hstart : Xml.feed (.inside top rest) (.start tag) =
      some (.inside { tag } (top :: rest)) := rfl
  rw [Xml.feedAll_cons, hstart, Option.bind_some, feedAll_append, feedAll_literals _ _ _ rfl]
  simp [Xml.feedAll, Xml.feed, Xml.complete, Frame.close]

/-! ## The document -/

/-- The tokens of a document behind the user names. -/
def tailTokens (ts escaped : List Char) : List Token :=
  .start createTime :: (ts.map Token.literal ++ [.stop createTime]) ++
    ([.start msgType, .cdata "text".toList, .stop msgType] ++
      ([.start contentTag, .cdata escaped, .stop contentTag] ++ [.stop "xml".toList]))

/-- The text of a document behind the user names. -/
def replyTail (ts escaped : List Char) : List Char :=
  tagged createTime ts ++ (tagged msgType (cdataSection "text".toList) ++
    (tagged contentTag (cdataSection escaped) ++ '<' :: '/' :: ("xml".toList ++ ['>'])))

def replyTree (ts toUser fromUser escaped : List Char) : Element :=
  .mk "xml".toList [] [.mk toUserName toUser [], .mk fromUserName fromUser [], .mk createTime ts [],
    .mk msgType "text".toList [], .mk contentTag escaped []]

theorem replyDocument_eq (ts toUser fromUser escaped : List Char) :
    replyDocument ts toUser fromUser escaped =
      '<' :: ("xml".toList ++ '>' :: (tagged toUserName (cdataSection toUser) ++
        (tagged fromUserName (cdataSection fromUser) ++ replyTail ts escaped))) := by
  rw [replyDocument, replyTail]
  conv_lhs => rw [tagged]
  simp only [List.append_assoc]

section Read
variable {ts toUser fromUser escaped : List Char}

theorem lexes_tail (hts : ∀ c ∈ ts, c ≠ '<' ∧ c ≠ '&' ∧ c ≠ ']')
    (hescaped : ¬ Xml.cdataClose <:+: escaped) :
    Lexes (replyTail ts escaped) (tailTokens ts escaped) [] := by
  refine (lexes_plain (by decide) hts _).append ((lexes_section (by decide) (by decide) _).append
    ((lexes_section (by decide) hescaped _).append ?_))
  exact .cons (Xml.lexOne_stop (by decide) []) (.nil [])

theorem lexes_document (hts : ∀ c ∈ ts, c ≠ '<' ∧ c ≠ '&' ∧ c ≠ ']')
    (hto : ¬ Xml.cdataClose <:+: toUser) (hfrom : ¬ Xml.cdataClose <:+: fromUser)
    (hescaped : ¬ Xml.cdataClose <:+: escaped) :
    Lexes (replyDocument ts toUser fromUser escaped)
      (.start "xml".toList :: ([.start toUserName, .cdata toUser, .stop toUserName] ++
        ([.start fromUserName, .cdata fromUser, .stop fromUserName] ++ tailTokens ts escaped)))
      [] := by
  rw [replyDocument_eq]
  exact .cons (Xml.lexOne_start (by decide) _) ((lexes_section (by decide) hto _).append
    ((lexes_section (by decide) hfrom _).append (lexes_tail hts hescaped)))

/-- The rest of the document adds its three elements and ends the root. -/
theorem feedAll_tail (top : Frame) (rest : List Frame) (ts escaped : List Char) :
    Xml.feedAll (.inside top rest) (tailTokens ts escaped) =
      if "xml".toList = top.tag then
        some (Xml.complete (((top.addChild (.mk createTime ts [])).addChild
          (.mk msgType "text".toList [])).addChild (.mk contentTag escaped [])).close rest)
      else none := by
  have hstop : ∀ f : Frame, Xml.feedAll (.inside f rest) [.stop "xml".toList] =
      if "xml".toList = f.tag then some (Xml.complete f.close rest) else none := by
    intro f
    rw [Xml.feedAll_cons, Xml.feed]
    split
    · rfl
    · rfl
  rw [tailTokens, feedAll_append, feedAll_plain, Option.bind_some, feedAll_append, feedAll_section,
    Option.bind_some, feedAll_append, feedAll_section, Option.bind_some, hstop]
  rfl

theorem build_document :
    Xml.build (.start "xml".toList :: ([.start toUserName, .cdata toUser, .stop toUserName] ++
        ([.start fromUserName, .cdata fromUser, .stop fromUserName] ++ tailTokens ts escaped))) =
      some (replyTree ts toUser fromUser escaped) := by
  have hstart : Xml.feed .before (.start "xml".toList) =
      some (.inside { tag := "xml".toList } []) := rfl
  rw [Xml.build, Xml.feedAll_cons, hstart, Option.bind_some, feedAll_append, feedAll_section,
    Option.bind_some, feedAll_append, feedAll_section, Option.bind_some, feedAll_tail]
  rfl

end Read

/-! ## Line ends -/

theorem mem_normalizeFrom {cs : List Char} {afterCr : Bool} {c : Char}
    (h : c ∈ Xml.normalizeFrom afterCr cs) : c ≠ '\r' ∧ (c = '\n' ∨ c ∈ cs) := by
  induction cs generalizing afterCr with
  | nil => cases h
  | cons d cs ih =>
    rw [Xml.normalizeFrom_cons] at h
    split at h
    · rcases List.mem_cons.mp h with rfl | h
      · exact ⟨by decide, .inl rfl⟩
      · exact (ih h).imp_right fun h => h.imp_right (List.mem_cons_of_mem _)
    split at h
    · exact (ih h).imp_right fun h => h.imp_right (List.mem_cons_of_mem _)
    · rename_i hcr _
      rcases List.mem_cons.mp h with rfl | h
      · exact ⟨hcr, .inr List.mem_cons_self⟩
      · exact (ih h).imp_right fun h => h.imp_right (List.mem_cons_of_mem _)

theorem normalizeFrom_other {afterCr : Bool} {cs : List Char} (h : cs.head? ≠ some '\n') :
    Xml.normalizeFrom afterCr cs = Xml.normalizeFrom false cs := by
  cases cs with
  | nil => rfl
  | cons c cs =>
    have hc : c ≠ '\n' := fun heq => h (by rw [heq]; rfl)
    simp [Xml.normalizeFrom_cons, hc]

/-- A text is normalized on its own before one that starts with no line feed. -/
theorem normalizeFrom_append {afterCr : Bool} {xs ys : List Char} (h : ys.head? ≠ some '\n') :
    Xml.normalizeFrom afterCr (xs ++ ys) =
      Xml.normalizeFrom afterCr xs ++ Xml.normalizeFrom false ys := by
  induction xs generalizing afterCr with
  | nil => exact normalizeFrom_other h
  | cons x xs ih =>
    rw [List.cons_append, Xml.normalizeFrom_cons, Xml.normalizeFrom_cons]
    split
    · rw [ih, List.cons_append]
    split
    · exact ih
    · rw [ih, List.cons_append]

theorem normalizeNewlines_id {cs : List Char} (h : '\r' ∉ cs) : Xml.normalizeNewlines cs = cs := by
  unfold Xml.normalizeNewlines
  induction cs with
  | nil => rfl
  | cons c cs ih =>
    obtain ⟨hc, hcs⟩ := not_or.mp (fun h' => h (List.mem_cons.mpr h'))
    rw [Xml.normalizeFrom_cons, if_neg (Ne.symm hc), if_neg (by simp), ih hcs]

theorem normalizeNewlines_append {xs ys : List Char} (h : ys.head? ≠ some '\n') :
    Xml.normalizeNewlines (xs ++ ys) = Xml.normalizeNewlines xs ++ Xml.normalizeNewlines ys :=
  normalizeFrom_append h

theorem normalizeNewlines_cons {c : Char} {ys : List Char} (hc : c ≠ '\r') :
    Xml.normalizeNewlines (c :: ys) = c :: Xml.normalizeNewlines ys := by
  unfold Xml.normalizeNewlines
  rw [Xml.normalizeFrom_cons, if_neg hc, if_neg (by simp)]

theorem normalizeNewlines_before {xs ys : List Char} (h : '\r' ∉ xs) :
    Xml.normalizeNewlines (xs ++ ys) = xs ++ Xml.normalizeNewlines ys := by
  induction xs with
  | nil => rfl
  | cons x xs ih =>
    obtain ⟨hx, hxs⟩ := not_or.mp (fun h' => h (List.mem_cons.mpr h'))
    rw [List.cons_append, normalizeNewlines_cons (Ne.symm hx), ih hxs, List.cons_append]

theorem normalizeNewlines_length (cs : List Char) :
    (Xml.normalizeNewlines cs).length ≤ cs.length := by
  have hfrom : ∀ (afterCr : Bool) (cs : List Char),
      (Xml.normalizeFrom afterCr cs).length ≤ cs.length := by
    intro afterCr cs
    induction cs generalizing afterCr with
    | nil => exact Nat.le_refl _
    | cons c cs ih =>
      rw [Xml.normalizeFrom_cons]
      split
      · exact Nat.succ_le_succ (ih true)
      split
      · exact (ih false).trans (Nat.le_succ _)
      · exact Nat.succ_le_succ (ih false)
  exact hfrom false cs

/-- Only the values of a section are changed. -/
theorem normalizeNewlines_section {tag value rest : List Char} (htag : '\r' ∉ tag) :
    Xml.normalizeNewlines (tagged tag (cdataSection value) ++ rest) =
      tagged tag (cdataSection (Xml.normalizeNewlines value)) ++ Xml.normalizeNewlines rest := by
  have hshape : ∀ v r, tagged tag (cdataSection v) ++ r = ('<' :: (tag ++ '>' :: Xml.cdataOpen)) ++
      (v ++ ((Xml.cdataClose ++ '<' :: '/' :: (tag ++ ['>'])) ++ r)) := by
    intro v r
    simp [tagged, cdataSection]
  rw [hshape, hshape, normalizeNewlines_before, normalizeNewlines_append, normalizeNewlines_before]
  · simp [Xml.cdataClose, htag]
  · simp [Xml.cdataClose]
  · simp [Xml.cdataOpen, htag]

theorem normalizeNewlines_document {ts : List Char} (hts : '\r' ∉ ts)
    (toUser fromUser escaped : List Char) :
    Xml.normalizeNewlines (replyDocument ts toUser fromUser escaped) =
      replyDocument ts (Xml.normalizeNewlines toUser) (Xml.normalizeNewlines fromUser)
        (Xml.normalizeNewlines escaped) := by
  have hopen : '\r' ∉ '<' :: ("xml".toList ++ ['>']) := by decide
  have htime : '\r' ∉ tagged createTime ts := by
    have htag : '\r' ∉ createTime := by decide
    simp [tagged, htag, hts]
  have htext : '\r' ∉ tagged msgType (cdataSection "text".toList) := by decide
  have hclose : '\r' ∉ '<' :: '/' :: ("xml".toList ++ ['>']) := by decide
  have hshape : ∀ t f e, replyDocument ts t f e = ('<' :: ("xml".toList ++ ['>'])) ++
      (tagged toUserName (cdataSection t) ++ (tagged fromUserName (cdataSection f) ++
        (tagged createTime ts ++ (tagged msgType (cdataSection "text".toList) ++
          (tagged contentTag (cdataSection e) ++ '<' :: '/' :: ("xml".toList ++ ['>'])))))) := by
    intro t f e
    rw [replyDocument_eq, replyTail]
    rfl
  rw [hshape, hshape, normalizeNewlines_before hopen, normalizeNewlines_section (by decide),
    normalizeNewlines_section (by decide), normalizeNewlines_before htime,
    normalizeNewlines_before htext, normalizeNewlines_section (by decide),
    normalizeNewlines_id hclose]

/-! ## Parsing -/

theorem legal_document {ts toUser fromUser escaped : List Char} (hts : ts.all Xml.isChar = true)
    (hto : toUser.all Xml.isChar = true) (hfrom : fromUser.all Xml.isChar = true)
    (hescaped : escaped.all Xml.isChar = true) :
    (replyDocument ts toUser fromUser escaped).all Xml.isChar = true := by
  have htags : toUserName.all Xml.isChar = true ∧ fromUserName.all Xml.isChar = true ∧
      createTime.all Xml.isChar = true ∧ msgType.all Xml.isChar = true ∧
      contentTag.all Xml.isChar = true ∧ "xml".toList.all Xml.isChar = true ∧
      "text".toList.all Xml.isChar = true ∧ Xml.cdataOpen.all Xml.isChar = true ∧
      Xml.cdataClose.all Xml.isChar = true ∧ Xml.isChar '<' = true ∧ Xml.isChar '>' = true ∧
      Xml.isChar '/' = true := by decide
  obtain ⟨h₁, h₂, h₃, h₄, h₅, h₆, h₇, h₈, h₉, h₁₀, h₁₁, h₁₂⟩ := htags
  simp only [replyDocument, tagged, cdataSection, List.all_append, List.all_cons, List.all_nil, hts,
    hto, hfrom, hescaped, h₁, h₂, h₃, h₄, h₅, h₆, h₇, h₈, h₉, h₁₀, h₁₁, h₁₂, Bool.and_true]

/-- Parsing a document reads the one with its line ends normalized. -/
theorem parse_document {ts : List Char} (hts : '\r' ∉ ts) {toUser fromUser escaped : List Char}
    {root : Element} :
    Xml.parse (replyDocument ts toUser fromUser escaped) = some root ↔
      (replyDocument ts (Xml.normalizeNewlines toUser) (Xml.normalizeNewlines fromUser)
        (Xml.normalizeNewlines escaped)).all Xml.isChar = true ∧
      ∃ tokens, Lexes (replyDocument ts (Xml.normalizeNewlines toUser)
        (Xml.normalizeNewlines fromUser) (Xml.normalizeNewlines escaped)) tokens [] ∧
          Xml.build tokens = some root := by
  have hdoc := normalizeNewlines_document hts toUser fromUser escaped
  generalize hread : replyDocument ts (Xml.normalizeNewlines toUser)
    (Xml.normalizeNewlines fromUser) (Xml.normalizeNewlines escaped) = read at hdoc ⊢
  obtain ⟨rest, hfront⟩ : ∃ rest, read = '<' :: 'x' :: rest := by
    rw [← hread, replyDocument_eq]
    exact ⟨_, rfl⟩
  have hbom : read.head? ≠ some '\ufeff' := by
    rw [hfront, List.head?_cons, ne_eq, Option.some.injEq]
    decide
  have hdeclaration : Xml.dropDeclaration read = some read := by
    have hnone : Xml.strip? "<?xml".toList read = none := by
      rw [hfront]
      exact Xml.strip?_mismatch_second (by decide) '<' _ _
    rw [Xml.dropDeclaration, hnone]
  rw [Xml.parse, hdoc]
  simp only [if_neg hbom, hdeclaration, Option.bind_eq_bind, Option.bind_some]
  split
  · rename_i hlegal
    simp only [hlegal, true_and, Option.bind_eq_some_iff, Xml.lex_iff]
  · rename_i hlegal
    simp [hlegal]

theorem parse_clean {ts toUser fromUser escaped : List Char}
    (hts : ∀ c ∈ ts, c ≠ '<' ∧ c ≠ '&' ∧ c ≠ ']' ∧ c ≠ '\r')
    (hto : ¬ Xml.cdataClose <:+: Xml.normalizeNewlines toUser)
    (hfrom : ¬ Xml.cdataClose <:+: Xml.normalizeNewlines fromUser)
    (hescaped : ¬ Xml.cdataClose <:+: Xml.normalizeNewlines escaped)
    (hlegal : (replyDocument ts (Xml.normalizeNewlines toUser) (Xml.normalizeNewlines fromUser)
      (Xml.normalizeNewlines escaped)).all Xml.isChar = true) :
    Xml.parse (replyDocument ts toUser fromUser escaped) =
      some (replyTree ts (Xml.normalizeNewlines toUser) (Xml.normalizeNewlines fromUser)
        (Xml.normalizeNewlines escaped)) := by
  rw [parse_document fun h => (hts _ h).2.2.2 rfl]
  exact ⟨hlegal, _, lexes_document (fun c hc => ⟨(hts c hc).1, (hts c hc).2.1, (hts c hc).2.2.1⟩)
    hto hfrom hescaped, build_document⟩

/-! ## Escapes -/

def escapeChar (c : Char) : List Char :=
  if c = '&' then "&amp;".toList
  else if c = '<' then "&lt;".toList
  else if c = '>' then "&gt;".toList
  else [c]

theorem escapeContent_eq (content : List Char) :
    escapeContent content = content.flatMap escapeChar := by
  simp only [escapeContent, replaceChar, List.flatMap_assoc]
  congr 1
  funext c
  by_cases hamp : c = '&'
  · subst hamp
    decide
  by_cases hlt : c = '<'
  · subst hlt
    decide
  by_cases hgt : c = '>'
  · subst hgt
    decide
  · simp [escapeChar, hamp, hlt, hgt]

theorem mem_escapeContent {content : List Char} {c : Char} (h : c ∈ escapeContent content) :
    (c ≠ '<' ∧ c ≠ '>') ∧ (c ∈ "&amp;lt;gt;".toList ∨ c ∈ content) := by
  have hentity : ∀ entity ∈ ["&amp;".toList, "&lt;".toList, "&gt;".toList], ∀ x ∈ entity,
      (x ≠ '<' ∧ x ≠ '>') ∧ x ∈ "&amp;lt;gt;".toList := by simp
  rw [escapeContent_eq] at h
  obtain ⟨d, hd, hc⟩ := List.mem_flatMap.mp h
  unfold escapeChar at hc
  split at hc
  · exact (hentity _ (by simp) c hc).imp_right .inl
  split at hc
  · exact (hentity _ (by simp) c hc).imp_right .inl
  split at hc
  · exact (hentity _ (by simp) c hc).imp_right .inl
  · rename_i hamp hlt hgt
    rw [List.mem_singleton.mp hc]
    exact ⟨⟨hlt, hgt⟩, .inr hd⟩

/-- An escape is longer than its character. -/
theorem escapeChar_length (c : Char) : 1 ≤ (escapeChar c).length ∧
    (c = '&' ∨ c = '<' ∨ c = '>' → 2 ≤ (escapeChar c).length) := by
  have hentity : ∀ entity ∈ ["&amp;".toList, "&lt;".toList, "&gt;".toList],
      2 ≤ entity.length := by decide
  by_cases hspecial : c = '&' ∨ c = '<' ∨ c = '>'
  · have hlong : 2 ≤ (escapeChar c).length := by
      rcases hspecial with rfl | rfl | rfl
      · exact hentity _ (by decide)
      · exact hentity _ (by decide)
      · exact hentity _ (by decide)
    exact ⟨by omega, fun _ => hlong⟩
  · obtain ⟨hamp, hlt, hgt⟩ : c ≠ '&' ∧ c ≠ '<' ∧ c ≠ '>' := by
      refine ⟨?_, ?_, ?_⟩ <;> (intro heq; exact hspecial (by simp [heq]))
    refine ⟨?_, fun h => absurd h hspecial⟩
    rw [escapeChar, if_neg hamp, if_neg hlt, if_neg hgt, List.length_singleton]

theorem escapeContent_length (content : List Char) :
    content.length ≤ (escapeContent content).length := by
  rw [escapeContent_eq]
  induction content with
  | nil => exact Nat.le_refl _
  | cons c cs ih =>
    have hone := (escapeChar_length c).1
    rw [List.flatMap_cons, List.length_append, List.length_cons]
    omega

/-- A content that its escape does not make longer needs none. -/
theorem unescaped_of_length {content : List Char}
    (h : (escapeContent content).length ≤ content.length) :
    ∀ c ∈ content, c ≠ '&' ∧ c ≠ '<' ∧ c ≠ '>' := by
  induction content with
  | nil => simp
  | cons c cs ih =>
    obtain ⟨hone, htwo⟩ := escapeChar_length c
    have hrest := escapeContent_length cs
    rw [escapeContent_eq] at h hrest ih
    rw [List.flatMap_cons, List.length_append, List.length_cons] at h
    intro d hd
    rcases List.mem_cons.mp hd with rfl | hd
    · have hshort : ¬ 2 ≤ (escapeChar d).length := by omega
      refine ⟨?_, ?_, ?_⟩ <;> (intro heq; exact hshort (htwo (by simp [heq])))
    · exact ih (by omega) d hd

theorem escapeContent_id {content : List Char}
    (h : ∀ c ∈ content, c ≠ '&' ∧ c ≠ '<' ∧ c ≠ '>') : escapeContent content = content := by
  rw [escapeContent_eq]
  induction content with
  | nil => rfl
  | cons c cs ih =>
    obtain ⟨hamp, hlt, hgt⟩ := h c List.mem_cons_self
    rw [List.flatMap_cons, ih fun d hd => h d (List.mem_cons_of_mem _ hd), escapeChar, if_neg hamp,
      if_neg hlt, if_neg hgt]
    rfl

theorem not_close_of_no_gt {cs : List Char} (h : '>' ∉ cs) : ¬ Xml.cdataClose <:+: cs := by
  intro hin
  exact h (hin.subset (by decide))

end OpenClaw.WeChat
