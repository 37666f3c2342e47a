import Mathlib.Data.List.Infix
import OpenClaw.Foundation.IpAddress
import OpenClaw.Foundation.UrlSplit

/-!
# The responses of KakaoTalk

`KakaoTalkChannel` of `connector/channels/kakaotalk.py`: a text is freed of its markup, gets the
prefix and is cut into bubbles, of which as many are kept as there are slots. The marker of a text
that goes on is put behind the last bubble after the cutting.
-/

namespace OpenClaw.Connector.Kakao

open Foundation
set_option autoImplicit false

def maxTextLength : ℕ := 1000
def maxOutputs : ℕ := 3
def maxQuickReplies : ℕ := 10

def replyPrefix : CodePoints := CodePoints.ofString "[OpenClaw] "

def moreMarker : CodePoints := CodePoints.ofString "\n...(more)"

inductive Output where
  | simpleImage (imageUrl altText : CodePoints)
  | simpleText (text : CodePoints)

structure QuickReply where
  label : CodePoints
  messageText : CodePoints

structure SkillResponse where
  outputs : List Output
  /-- `none` where the template has no such entry. -/
  quickReplies : Option (List QuickReply)

/-! ## Markup -/

def newline : CodePoint := 10
def blank : CodePoint := 32

/-- `(.*?)` and what has to follow: the group and the rest behind the match. -/
def lazyGroup (close : CodePoints → Option CodePoints) :
    CodePoints → Option (CodePoints × CodePoints)
  | [] => (close []).map fun rest => ([], rest)
  | c :: t =>
    match close (c :: t) with
    | some rest => some ([], rest)
    | none =>
      if c = newline then none
      else (lazyGroup close t).map fun found => (c :: found.1, found.2)

/-- A literal at the front of a text. -/
def literal (s : String) (t : CodePoints) : Option CodePoints :=
  if CodePoints.ofString s <+: t then some (t.drop s.length) else none

/-- `re.sub` of an opening literal, a lazy group and what closes it by the group. -/
def subGroups (opening : String) (close : CodePoints → Option CodePoints) :
    ℕ → CodePoints → CodePoints
  | 0, t => t
  | _ + 1, [] => []
  | n + 1, c :: t =>
    match (literal opening (c :: t)).bind (lazyGroup close) with
    | some found => found.1 ++ subGroups opening close n found.2
    | none => c :: subGroups opening close n t

def subAll (opening : String) (close : CodePoints → Option CodePoints) (t : CodePoints) :
    CodePoints :=
  subGroups opening close t.length t

/-- `\]\(.*?\)`. -/
def closeLink (t : CodePoints) : Option CodePoints :=
  (literal "](" t).bind fun rest => (lazyGroup (literal ")") rest).map Prod.snd

/-- Bold, italic, code and links, one after the other. -/
def stripMarkdown (t : CodePoints) : CodePoints :=
  subAll "[" closeLink (subAll "`" (literal "`") (subAll "*" (literal "*")
    (subAll "**" (literal "**") t)))

def sanitizeText (t : CodePoints) : CodePoints :=
  let text := stripMarkdown t
  if replyPrefix <+: text then text else replyPrefix ++ text

/-! ## Bubbles -/

/-- Behind the last line break of the window, else behind its last blank, else at its end. -/
def splitAt (t : CodePoints) : ℕ :=
  match CodePoints.rfind newline (t.take maxTextLength) with
  | some i => i + 1
  | none =>
    match CodePoints.rfind blank (t.take maxTextLength) with
    | some i => i + 1
    | none => maxTextLength

def chunkFrom : ℕ → CodePoints → List CodePoints
  | 0, _ => []
  | n + 1, t =>
    if t = [] then []
    else if t.length ≤ maxTextLength then [t]
    else t.take (splitAt t) :: chunkFrom n (t.drop (splitAt t))

/-- No chunk is empty, so there are no more of them than characters. -/
def chunkText (t : CodePoints) : List CodePoints := chunkFrom t.length t

/-! ## The response -/

def linkLocal : List IpNetwork := [.v4Net 169 254 0 0 16, .v6Net 0xfe80 0 10]

def isSafeUrl (tables : UnicodeTables) (url : CodePoints) : Bool :=
  match urlsplit tables url with
  | none => false
  | some parsed =>
    if parsed.scheme ≠ CodePoints.ofString "https" then false
    else
      match parsed.hostname tables with
      | none => false
      | some hostname =>
        match ipAddress hostname with
        | none => true
        | some addr =>
          !(addr.isPrivate || addr.isLoopback || addr.within linkLocal || addr.isReserved)

/-- The image, or the text that names it. -/
def imageStep (tables : UnicodeTables) (text : CodePoints) (imageUrl : Option CodePoints) :
    List Output × CodePoints :=
  let imageUrl := imageUrl.getD []
  if imageUrl = [] then ([], text)
  else if isSafeUrl tables imageUrl then
    ([.simpleImage imageUrl
      (if text ≠ [] then text.take 100 else CodePoints.ofString "Image")], text)
  else
    ([], (if text ≠ [] then text ++ CodePoints.ofString "\n(Image: "
      else CodePoints.ofString "(Image: ") ++ imageUrl ++ CodePoints.ofString ")")

/-- The marker goes to the last output if that is a text. -/
def markLast : List Output → List Output
  | [] => []
  | [.simpleText t] => [.simpleText (t ++ moreMarker)]
  | [.simpleImage url alt] => [.simpleImage url alt]
  | output :: next :: outputs => output :: markLast (next :: outputs)

def textStep (outputs : List Output) (text : CodePoints) : List Output :=
  if text = [] then outputs
  else
    let chunks := chunkText (sanitizeText text)
    let remainingSlots := maxOutputs - outputs.length
    let outputs := outputs ++ (chunks.take remainingSlots).map .simpleText
    if remainingSlots < chunks.length then markLast outputs else outputs

def emptyResponse : Output := .simpleText (replyPrefix ++ CodePoints.ofString "(empty response)")

section Replies
variable {φ : Type} (str : PyValue φ → CodePoints)

/-- `str(value)`; a string is its own. -/
def strOf : PyValue φ → CodePoints
  | .str s => s
  | value => str value

def isKey (name : String) : PyKey φ → Bool
  | .str s => decide (s = CodePoints.ofString name)
  | _ => false

/-- `fields.get(name, other)`. -/
def getOr (fields : List (PyKey φ × PyValue φ)) (name : String) (other : PyValue φ) : PyValue φ :=
  ((fields.find? fun f => isKey name f.1).map Prod.snd).getD other

def quickReply? : PyValue φ → Option QuickReply
  | .dict fields =>
    let label := (strOf str (getOr fields "label" (.str []))).strip
    if label = [] then none
    else
      let value := (strOf str (getOr fields "value" (.str label))).strip
      some ⟨label.take 14, if value = [] then label else value⟩
  | _ => none

/-- No entry without a reply in it. -/
def quickRepliesOf (quickReplies : Option (List (PyValue φ))) : Option (List QuickReply) :=
  let payloads := (quickReplies.getD []).filterMap (quickReply? str)
  if payloads = [] then none else some (payloads.take maxQuickReplies)

def formatResponse (tables : UnicodeTables) (text : CodePoints) (imageUrl : Option CodePoints)
    (quickReplies : Option (List (PyValue φ))) : SkillResponse :=
  let image := imageStep tables text imageUrl
  let outputs := textStep image.1 image.2
  { outputs := if outputs.isEmpty then [emptyResponse] else outputs
    quickReplies := quickRepliesOf str quickReplies }

end Replies

/-! ## What the chunks are -/

section Chunks
variable {t : CodePoints} {n : ℕ}

theorem splitAt_bounds (t : CodePoints) : 1 ≤ splitAt t ∧ splitAt t ≤ maxTextLength := by
  have hwindow {c : CodePoint} {i : ℕ} (h : CodePoints.rfind c (t.take maxTextLength) = some i) :
      1 ≤ i + 1 ∧ i + 1 ≤ maxTextLength :=
    ⟨Nat.succ_pos i, (CodePoints.rfind_lt h).trans_le (List.length_take_le _ _)⟩
  unfold splitAt
  split
  · rename_i i hi
    exact hwindow hi
  · split
    · rename_i i hi
      exact hwindow hi
    · exact ⟨by decide, le_rfl⟩

theorem length_drop_splitAt (ht : t ≠ []) : (t.drop (splitAt t)).length < t.length := by
  have hpos := List.length_pos_iff.mpr ht
  have hsplit := (splitAt_bounds t).1
  rw [List.length_drop]
  omega

theorem chunkFrom_fuel {m : ℕ} (hn : t.length ≤ n) (hm : t.length ≤ m) :
    chunkFrom n t = chunkFrom m t := by
  induction n generalizing m t with
  | zero =>
    obtain rfl := List.length_eq_zero_iff.mp (Nat.le_zero.mp hn)
    cases m <;> rfl
  | succ n ih =>
    by_cases ht : t = []
    · subst ht
      cases m <;> rfl
    have hpos := List.length_pos_iff.mpr ht
    have hdrop := length_drop_splitAt ht
    cases m with
    | zero => omega
    | succ m =>
      rw [chunkFrom, chunkFrom, ih (m := m) (by omega) (by omega)]

theorem chunkText_nil : chunkText [] = [] := rfl

theorem chunkText_short (ht : t ≠ []) (hlen : t.length ≤ maxTextLength) : chunkText t = [t] := by
  have hpos := List.length_pos_iff.mpr ht
  obtain ⟨n, hn⟩ := Nat.exists_eq_succ_of_ne_zero hpos.ne'
  rw [chunkText, hn, chunkFrom, if_neg ht, if_pos hlen]

theorem chunkText_long (hlen : maxTextLength < t.length) :
    chunkText t = t.take (splitAt t) :: chunkText (t.drop (splitAt t)) := by
  have ht : t ≠ [] := by
    rintro rfl
    cases hlen
  obtain ⟨n, hn⟩ := Nat.exists_eq_succ_of_ne_zero (List.length_pos_iff.mpr ht).ne'
  have hdrop := length_drop_splitAt ht
  rw [chunkText, hn, chunkFrom, if_neg ht, if_neg (by omega), chunkText,
    chunkFrom_fuel (by omega) le_rfl]

/-- Induction along the chunks. -/
theorem chunk_induction {P : CodePoints → Prop} (nil : P [])
    (short : ∀ t, t ≠ [] → t.length ≤ maxTextLength → P t)
    (long : ∀ t, maxTextLength < t.length → P (t.drop (splitAt t)) → P t) (t : CodePoints) :
    P t := by
  induction hn : t.length using Nat.strong_induction_on generalizing t with
  | _ n ih =>
    by_cases ht : t = []
    · exact ht ▸ nil
    by_cases hlen : t.length ≤ maxTextLength
    · exact short t ht hlen
    · exact long t (not_le.mp hlen) (ih _ (hn ▸ length_drop_splitAt ht) _ rfl)

theorem flatten_chunkText (t : CodePoints) : (chunkText t).flatten = t := by
  induction t using chunk_induction with
  | nil => rfl
  | short t ht hlen => rw [chunkText_short ht hlen, List.flatten_singleton]
  | long t hlen ih => rw [chunkText_long hlen, List.flatten_cons, ih, List.take_append_drop]

theorem chunk_bounds (t : CodePoints) :
    ∀ chunk ∈ chunkText t, chunk ≠ [] ∧ chunk.length ≤ maxTextLength := by
  induction t using chunk_induction with
  | nil => exact fun chunk h => absurd h List.not_mem_nil
  | short t ht hlen =>
    intro chunk h
    rw [chunkText_short ht hlen] at h
    rw [List.mem_singleton.mp h]
    exact ⟨ht, hlen⟩
  | long t hlen ih =>
    intro chunk h
    rw [chunkText_long hlen] at h
    rcases List.mem_cons.mp h with rfl | h
    · obtain ⟨hpos, hmax⟩ := splitAt_bounds t
      have hlength : (t.take (splitAt t)).length = splitAt t :=
        List.length_take_of_le (hmax.trans hlen.le)
      exact ⟨List.ne_nil_of_length_pos (by omega), by omega⟩
    · exact ih chunk h

theorem chunkText_ne_nil (ht : t ≠ []) : chunkText t ≠ [] := by
  intro h
  have hflat := flatten_chunkText t
  rw [h] at hflat
  exact ht hflat.symm

theorem take_chunks_prefix (t : CodePoints) (slots : ℕ) :
    ((chunkText t).take slots).flatten <+: t := by
  have hflat := congrArg List.flatten (List.take_append_drop slots (chunkText t))
  rw [List.flatten_append, flatten_chunkText] at hflat
  exact ⟨_, hflat⟩

/-- A chunk that is left out leaves something of the text out. -/
theorem take_chunks_whole_iff (t : CodePoints) (slots : ℕ) :
    ((chunkText t).take slots).flatten = t ↔ (chunkText t).length ≤ slots := by
  have hflat := congrArg List.flatten (List.take_append_drop slots (chunkText t))
  rw [List.flatten_append, flatten_chunkText] at hflat
  rw [← List.drop_eq_nil_iff]
  constructor
  · intro h
    rw [h, List.append_right_eq_self] at hflat
    refine List.eq_nil_iff_forall_not_mem.mpr fun chunk hchunk => ?_
    exact (chunk_bounds t chunk (List.mem_of_mem_drop hchunk)).1
      (List.flatten_eq_nil_iff.mp hflat chunk hchunk)
  · intro h
    rw [h, List.flatten_nil, List.append_nil] at hflat
    exact hflat

/-- What is left of a text after some bubbles. -/
def restAfter : ℕ → CodePoints → CodePoints
  | 0, t => t
  | n + 1, t => if t.length ≤ maxTextLength then [] else restAfter n (t.drop (splitAt t))

/-- The text goes on behind its last slot, and the bubble there breaks off late. -/
def BreaksLate (slots : ℕ) (t : CodePoints) : Prop :=
  maxTextLength < (restAfter (slots - 1) t).length ∧
    maxTextLength - moreMarker.length < splitAt (restAfter (slots - 1) t)

theorem lt_length_chunkText_iff (n : ℕ) (t : CodePoints) :
    n + 1 < (chunkText t).length ↔ maxTextLength < (restAfter n t).length := by
  induction n generalizing t with
  | zero =>
    rw [restAfter]
    by_cases ht : t = []
    · subst ht
      decide
    by_cases hlen : t.length ≤ maxTextLength
    · rw [chunkText_short ht hlen, List.length_singleton]
      omega
    · rw [not_le] at hlen
      have hmax := (splitAt_bounds t).2
      have hrest : t.drop (splitAt t) ≠ [] := by
        rw [Ne, List.drop_eq_nil_iff]
        omega
      have hpos := List.length_pos_iff.mpr (chunkText_ne_nil hrest)
      rw [chunkText_long hlen, List.length_cons]
      omega
  | succ n ih =>
    rw [restAfter]
    by_cases hlen : t.length ≤ maxTextLength
    · rw [if_pos hlen]
      by_cases ht : t = []
      · subst ht
        simp [chunkText_nil]
      · rw [chunkText_short ht hlen, List.length_singleton]
        simp
    · rw [if_neg hlen, ← ih, chunkText_long (not_le.mp hlen), List.length_cons]
      omega

/-- The last bubble of a text that goes on behind it. -/
theorem getLast?_take_chunks {n : ℕ} {t : CodePoints}
    (h : maxTextLength < (restAfter n t).length) :
    ((chunkText t).take (n + 1)).getLast? =
      some ((restAfter n t).take (splitAt (restAfter n t))) := by
  induction n generalizing t with
  | zero =>
    rw [restAfter] at h ⊢
    rw [chunkText_long h]
    rfl
  | succ n ih =>
    have hlen : ¬t.length ≤ maxTextLength := by
      intro hlen
      rw [restAfter, if_pos hlen] at h
      cases h
    rw [restAfter, if_neg hlen] at h ⊢
    rw [chunkText_long (not_le.mp hlen), List.take_succ_cons, List.getLast?_cons, ih h]
    rfl

end Chunks

/-! ## The limits of the platform -/

section Limits
variable {φ : Type} (str : PyValue φ → CodePoints) (tables : UnicodeTables) (text : CodePoints)
  (imageUrl : Option CodePoints) (quickReplies : Option (List (PyValue φ)))

def textOf : Output → Option CodePoints
  | .simpleText t => some t
  | .simpleImage _ _ => none

/-- The texts of a response. -/
def texts (response : SkillResponse) : List CodePoints := response.outputs.filterMap textOf

/-- The sanitised text, empty where there is no text to send. -/
def sanitised : CodePoints :=
  if (imageStep tables text imageUrl).2 = [] then []
  else sanitizeText (imageStep tables text imageUrl).2

def freeSlots : ℕ := maxOutputs - (imageStep tables text imageUrl).1.length

def markLastText : List CodePoints → List CodePoints
  | [] => []
  | [t] => [t ++ moreMarker]
  | t :: next :: ts => t :: markLastText (next :: ts)

/-- The texts are the front of the sanitised text, and the marker says whether it goes on. -/
structure LosesNothing (response : SkillResponse) (t : CodePoints) : Prop where
  shown : ∃ kept : List CodePoints, ∃ marked : Bool,
    texts response = (if marked then markLastText kept else kept) ∧ kept.flatten <+: t ∧
      (kept.flatten = t ↔ marked = false)

structure RepliesFit (replies : List QuickReply) : Prop where
  count : replies.length ≤ maxQuickReplies
  labels : ∀ reply ∈ replies, reply.label ≠ [] ∧ reply.label.length ≤ 14

/-- What the platform takes of a response. Without a text it is an image or the empty response. -/
structure FitsPlatform (response : SkillResponse) (t : CodePoints) : Prop where
  some_output : 1 ≤ response.outputs.length
  few_outputs : response.outputs.length ≤ maxOutputs
  short_texts : ∀ s ∈ texts response, s.length ≤ maxTextLength
  whole_text : t ≠ [] → LosesNothing response t
  no_text : t = [] →
    ∀ output ∈ response.outputs, ∀ s, textOf output = some s → output = emptyResponse
  replies : ∀ replies, response.quickReplies = some replies → RepliesFit replies

/-! ## The outputs -/

theorem markLast_append (outputs : List Output) {kept : List CodePoints} (h : kept ≠ []) :
    markLast (outputs ++ kept.map .simpleText) =
      outputs ++ (markLastText kept).map .simpleText := by
  induction outputs with
  | nil =>
    induction kept with
    | nil => exact absurd rfl h
    | cons t ts ih =>
      cases ts with
      | nil => rfl
      | cons next ts => exact congrArg (Output.simpleText t :: ·) (ih (List.cons_ne_nil _ _))
  | cons output outputs ih =>
    cases hrest : outputs ++ kept.map .simpleText with
    | nil => exact absurd (List.map_eq_nil_iff.mp (List.append_eq_nil_iff.mp hrest).2) h
    | cons next rest =>
      rw [List.cons_append, List.cons_append, hrest, markLast, ← hrest, ih]

theorem texts_map (kept : List CodePoints) :
    (kept.map Output.simpleText).filterMap textOf = kept := by
  induction kept with
  | nil => rfl
  | cons t ts ih => exact congrArg (t :: ·) ih

theorem length_markLastText (kept : List CodePoints) :
    (markLastText kept).length = kept.length := by
  induction kept with
  | nil => rfl
  | cons t ts ih =>
    cases ts with
    | nil => rfl
    | cons next ts => exact congrArg Nat.succ ih

/-- Only the last text grows. -/
theorem short_markLastText_iff {kept : List CodePoints}
    (h : ∀ s ∈ kept, s.length ≤ maxTextLength) :
    (∀ s ∈ markLastText kept, s.length ≤ maxTextLength) ↔
      ∀ last, kept.getLast? = some last → last.length + moreMarker.length ≤ maxTextLength := by
  induction kept with
  | nil => simp [markLastText]
  | cons t ts ih =>
    cases ts with
    | nil => simp [markLastText]
    | cons next ts =>
      rw [markLastText, List.forall_mem_cons, List.getLast?_cons_cons,
        ih fun s hs => h s (List.mem_cons_of_mem _ hs)]
      exact and_iff_right (h t List.mem_cons_self)

theorem sanitizeText_ne_nil (t : CodePoints) : sanitizeText t ≠ [] := by
  have hne : replyPrefix ≠ [] := by decide
  unfold sanitizeText
  dsimp only
  split
  · rename_i hpre
    rintro hnil
    rw [hnil] at hpre
    exact hne (List.prefix_nil.mp hpre)
  · exact List.append_ne_nil_of_left_ne_nil hne _

theorem imageStep_cases : (imageStep tables text imageUrl).1 = [] ∨
    ∃ url alt, (imageStep tables text imageUrl).1 = [.simpleImage url alt] := by
  unfold imageStep
  dsimp only
  split
  · exact .inl rfl
  · split
    · exact .inr ⟨_, _, rfl⟩
    · exact .inl rfl

theorem image_texts : (imageStep tables text imageUrl).1.filterMap textOf = [] := by
  obtain h | ⟨url, alt, h⟩ := imageStep_cases tables text imageUrl <;> rw [h] <;> rfl

theorem freeSlots_bounds : 2 ≤ freeSlots tables text imageUrl ∧
    (imageStep tables text imageUrl).1.length + freeSlots tables text imageUrl = maxOutputs := by
  unfold freeSlots
  obtain h | ⟨url, alt, h⟩ := imageStep_cases tables text imageUrl
  · rw [h]
    decide
  · rw [h, List.length_singleton]
    decide

/-- The bubbles that there is room for. -/
def keptChunks : List CodePoints :=
  (chunkText (sanitised tables text imageUrl)).take (freeSlots tables text imageUrl)

def goesOn : Bool :=
  decide (freeSlots tables text imageUrl < (chunkText (sanitised tables text imageUrl)).length)

section Said
variable {tables text imageUrl} (htext : (imageStep tables text imageUrl).2 ≠ [])
include htext

theorem sanitised_eq : sanitised tables text imageUrl =
    sanitizeText (imageStep tables text imageUrl).2 := if_neg htext

theorem sanitised_ne_nil : sanitised tables text imageUrl ≠ [] := by
  rw [sanitised_eq htext]
  exact sanitizeText_ne_nil _

theorem keptChunks_ne_nil : keptChunks tables text imageUrl ≠ [] := by
  have hchunks := chunkText_ne_nil (sanitised_ne_nil htext)
  have hslots := (freeSlots_bounds tables text imageUrl).1
  rw [keptChunks, Ne, List.take_eq_nil_iff, not_or]
  exact ⟨by omega, hchunks⟩

theorem outputs_eq : (formatResponse str tables text imageUrl quickReplies).outputs =
    (imageStep tables text imageUrl).1 ++
      (if goesOn tables text imageUrl then markLastText (keptChunks tables text imageUrl)
        else keptChunks tables text imageUrl).map .simpleText := by
  have hstep : textStep (imageStep tables text imageUrl).1 (imageStep tables text imageUrl).2 =
      (imageStep tables text imageUrl).1 ++
        (if goesOn tables text imageUrl then markLastText (keptChunks tables text imageUrl)
          else keptChunks tables text imageUrl).map .simpleText := by
    rw [textStep, if_neg htext, ← sanitised_eq htext]
    by_cases hmore : freeSlots tables text imageUrl <
        (chunkText (sanitised tables text imageUrl)).length
    · rw [goesOn, decide_eq_true hmore, if_pos rfl, ← markLast_append _ (keptChunks_ne_nil htext)]
      exact if_pos hmore
    · rw [goesOn, decide_eq_false hmore, if_neg Bool.false_ne_true]
      exact if_neg hmore
  have hne : (if goesOn tables text imageUrl then markLastText (keptChunks tables text imageUrl)
      else keptChunks tables text imageUrl) ≠ [] := by
    refine List.ne_nil_of_length_pos ?_
    have hpos := List.length_pos_iff.mpr (keptChunks_ne_nil htext)
    split
    · rwa [length_markLastText]
    · exact hpos
  unfold formatResponse
  dsimp only
  rw [hstep, if_neg]
  rw [List.isEmpty_iff, List.append_eq_nil_iff, not_and, List.map_eq_nil_iff]
  exact fun _ => hne

theorem texts_eq : texts (formatResponse str tables text imageUrl quickReplies) =
    if goesOn tables text imageUrl then markLastText (keptChunks tables text imageUrl)
    else keptChunks tables text imageUrl := by
  rw [texts, outputs_eq str quickReplies htext, List.filterMap_append, image_texts, texts_map]
  rfl

theorem losesNothing : LosesNothing (formatResponse str tables text imageUrl quickReplies)
    (sanitised tables text imageUrl) := by
  refine ⟨keptChunks tables text imageUrl, goesOn tables text imageUrl,
    texts_eq str quickReplies htext, take_chunks_prefix _ _, ?_⟩
  rw [goesOn, decide_eq_false_iff_not, not_lt]
  exact take_chunks_whole_iff _ _

theorem short_texts_iff :
    (∀ s ∈ texts (formatResponse str tables text imageUrl quickReplies), s.length ≤ maxTextLength) ↔
      ¬BreaksLate (freeSlots tables text imageUrl) (sanitised tables text imageUrl) := by
  obtain ⟨n, hn⟩ : ∃ n, freeSlots tables text imageUrl = n + 1 :=
    ⟨freeSlots tables text imageUrl - 1, by
      have hslots := (freeSlots_bounds tables text imageUrl).1
      omega⟩
  have hshort : ∀ s ∈ keptChunks tables text imageUrl, s.length ≤ maxTextLength :=
    fun s hs => (chunk_bounds _ s (List.mem_of_mem_take hs)).2
  rw [texts_eq str quickReplies htext, BreaksLate, hn, Nat.add_sub_cancel,
    ← lt_length_chunkText_iff, ← hn]
  by_cases hmore : freeSlots tables text imageUrl <
      (chunkText (sanitised tables text imageUrl)).length
  · have hrest : maxTextLength < (restAfter n (sanitised tables text imageUrl)).length := by
      rw [← lt_length_chunkText_iff, ← hn]
      exact hmore
    have hlast : (keptChunks tables text imageUrl).getLast? = _ :=
      (congrArg (fun k => (List.take k _).getLast?) hn).trans (getLast?_take_chunks hrest)
    have hmax := (splitAt_bounds (restAfter n (sanitised tables text imageUrl))).2
    rw [goesOn, decide_eq_true hmore, if_pos rfl, short_markLastText_iff hshort, hlast]
    simp only [Option.some.injEq, forall_eq', hmore, true_and, not_lt]
    rw [List.length_take_of_le (hmax.trans hrest.le)]
    have hmarker : moreMarker.length ≤ maxTextLength := by decide
    omega
  · rw [goesOn, decide_eq_false hmore, if_neg Bool.false_ne_true]
    exact iff_of_true hshort fun h => hmore h.1

end Said

theorem quickReply?_fits {entry : PyValue φ} {reply : QuickReply}
    (h : quickReply? str entry = some reply) : reply.label ≠ [] ∧ reply.label.length ≤ 14 := by
  unfold quickReply? at h
  split at h
  · dsimp only at h
    split at h
    · cases h
    · rename_i hlabel
      cases h
      refine ⟨?_, List.length_take_le _ _⟩
      rw [Ne, List.take_eq_nil_iff, not_or]
      exact ⟨by decide, hlabel⟩
  · cases h

theorem repliesFit {replies : List QuickReply}
    (h : (formatResponse str tables text imageUrl quickReplies).quickReplies = some replies) :
    RepliesFit replies := by
  change quickRepliesOf str quickReplies = some replies at h
  unfold quickRepliesOf at h
  dsimp only at h
  split at h
  · cases h
  · cases h
    refine ⟨List.length_take_le _ _, fun reply hreply => ?_⟩
    obtain ⟨entry, -, hentry⟩ := List.mem_filterMap.mp (List.mem_of_mem_take hreply)
    exact quickReply?_fits str hentry

/-- Everything holds of a response unless the marker makes its last bubble too long. -/
theorem response_fits_iff : FitsPlatform (formatResponse str tables text imageUrl quickReplies)
      (sanitised tables text imageUrl) ↔
    ¬BreaksLate (freeSlots tables text imageUrl) (sanitised tables text imageUrl) := by
  by_cases htext : (imageStep tables text imageUrl).2 = []
  · have hnone : sanitised tables text imageUrl = [] := if_pos htext
    have hcalm : ¬BreaksLate (freeSlots tables text imageUrl) (sanitised tables text imageUrl) := by
      have hrest : ∀ n, restAfter n [] = [] := by
        intro n
        cases n <;> rfl
      rw [hnone, BreaksLate, hrest]
      decide
    refine iff_of_true ?_ hcalm
    have hout : (formatResponse str tables text imageUrl quickReplies).outputs = [emptyResponse] ∨
        ∃ url alt, (formatResponse str tables text imageUrl quickReplies).outputs =
          [.simpleImage url alt] := by
      unfold formatResponse textStep
      dsimp only
      rw [if_pos htext]
      obtain h | ⟨url, alt, h⟩ := imageStep_cases tables text imageUrl
      · rw [h]
        exact .inl rfl
      · rw [h]
        exact .inr ⟨url, alt, rfl⟩
    have hreplies : ∀ replies, (formatResponse str tables text imageUrl quickReplies).quickReplies =
        some replies → RepliesFit replies :=
      fun replies => repliesFit str tables text imageUrl quickReplies
    obtain h | ⟨url, alt, h⟩ := hout
    · refine ⟨by rw [h]; decide, by rw [h]; decide, ?_, fun hne => absurd hnone hne, ?_, hreplies⟩
      · rw [texts, h]
        decide
      · rw [h]
        exact fun _ output hin _ _ => List.mem_singleton.mp hin
    · refine ⟨by rw [h, List.length_singleton], by rw [h, List.length_singleton]; decide, ?_,
        fun hne => absurd hnone hne, ?_, hreplies⟩
      · rw [texts, h]
        exact fun s hs => absurd hs List.not_mem_nil
      · rw [h]
        intro _ output hin s hs
        rw [List.mem_singleton.mp hin] at hs
        cases hs
  · rw [← short_texts_iff str quickReplies htext]
    constructor
    · exact fun h => h.short_texts
    · intro hshort
      have hlength : (formatResponse str tables text imageUrl quickReplies).outputs.length =
          (imageStep tables text imageUrl).1.length + (keptChunks tables text imageUrl).length := by
        rw [outputs_eq str quickReplies htext, List.length_append, List.length_map]
        split
        · rw [length_markLastText]
        · rfl
      have hpos := List.length_pos_iff.mpr (keptChunks_ne_nil htext)
      have hslots := (freeSlots_bounds tables text imageUrl).2
      have hkept : (keptChunks tables text imageUrl).length ≤ freeSlots tables text imageUrl :=
        List.length_take_le _ _
      exact ⟨by omega, by omega, hshort, fun _ => losesNothing str quickReplies htext,
        fun hnone => absurd hnone (sanitised_ne_nil htext),
        fun replies => repliesFit str tables text imageUrl quickReplies⟩

end Limits

/-! ## A long word -/

def plainTables : UnicodeTables := ⟨id, id, some⟩

/-- The prefix is a bubble of its own, for its blank is the last one of the first window. -/
def longWord : CodePoints := List.replicate 2001 97

theorem longWord_overflows :
    (∃ s ∈ texts (formatResponse (fun _ : PyValue Unit => []) plainTables longWord none none),
      s.length = 1010) ∧
    ¬FitsPlatform (formatResponse (fun _ : PyValue Unit => []) plainTables longWord none none)
      (sanitised plainTables longWord none) := by
  have hlong : ∃ s ∈ texts
      (formatResponse (fun _ : PyValue Unit => []) plainTables longWord none none),
      s.length = 1010 := by
    decide +kernel
  refine ⟨hlong, fun h => ?_⟩
  obtain ⟨s, hs, hlen⟩ := hlong
  have hmax := h.short_texts s hs
  rw [hlen] at hmax
  exact absurd hmax (by decide)

end OpenClaw.Connector.Kakao
