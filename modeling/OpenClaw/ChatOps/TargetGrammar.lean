import Mathlib.Data.List.Infix
import OpenClaw.Foundation.Checks
import OpenClaw.Foundation.CodePoints
import OpenClaw.Foundation.Delimited
import OpenClaw.Scheduler.DeliveryContract

/-!
# The language of delivery targets

Which strings `parse_target_string` accepts: those of the documented form, and besides them what the
patterns let through. Writing an accepted target back and parsing it gives the target.
-/

namespace OpenClaw.ChatOps

open Foundation
open DeliveryContract (TransportType repeated wordClass isUpperOrDigit isDecimal isAlnum)
set_option autoImplicit false

/-!
## Delivery targets as strings

`services/chatops/targets.py`: the patterns of `TARGET_PATTERNS` and `THREAD_PATTERNS`, and
`parse_target_string` on any string, beside the documented form. A `$` lets one line end follow and
`\d` takes the digits of every script.
-/

section Strings

/-! ## Patterns -/

/-- A scheme and then letters, digits, underscores, dots, dashes and slashes. -/
def urlPattern (cs : List ℕ) : Bool :=
  ["http://", "https://"].any fun scheme =>
    (scheme.toList.map Char.toNat).isPrefixOf cs &&
      decide (cs.drop scheme.length ≠ []) &&
      (cs.drop scheme.length).all (wordClass ['_', '.', '/', '-'])

/-- The pattern of a target between its anchors, for one reading of `\d`. -/
def targetPattern (digit : ℕ → Bool) : TransportType → List ℕ → Bool
  | .discord, cs => repeated digit 17 20 cs
  | .slack, cs => repeated isUpperOrDigit 9 12 cs
  | .telegram, 45 :: cs => repeated digit 1 15 cs
  | .telegram, cs => repeated digit 1 15 cs
  | .webhook, cs => urlPattern cs || repeated (wordClass ['_', '-']) 1 64 cs
  | .custom, cs => repeated (wordClass ['_', '.', '-']) 1 128 cs

def threadPattern (digit : ℕ → Bool) : TransportType → List ℕ → Bool
  | .discord, cs => repeated digit 17 20 cs
  | .slack, cs =>
    repeated digit 10 13 (cs.takeWhile digit) &&
      match cs.dropWhile digit with
      | 46 :: rest => repeated digit 6 6 rest
      | _ => false
  | .telegram, cs => repeated digit 1 10 cs
  | .webhook, cs => repeated (wordClass ['_', '-']) 1 64 cs
  | .custom, cs => repeated (wordClass ['_', '.', '-']) 1 128 cs

def points (t : CodePoints) : List ℕ := t.map Fin.val

def lineEnd : CodePoint := 10

/-- `re.match` of a pattern between `^` and `$`. -/
def reMatch (pattern : List ℕ → Bool) (t : CodePoints) : Bool :=
  pattern (points t) || (decide (t.getLast? = some lineEnd) && pattern (points t.dropLast))

/-! ## Parsing -/

structure DeliveryTarget where
  transport : TransportType
  targetId : CodePoints
  threadId : Option CodePoints
  mode : CodePoints
  deriving DecidableEq

def validModes : List CodePoints :=
  ["reply", "new_thread", "dm", "broadcast"].map CodePoints.ofString

/-- The messages are those of `TargetValidationError`. -/
def validateTargetId (transport : TransportType) (targetId : CodePoints) :
    Except CodePoints Unit :=
  if targetId = [] then .error (CodePoints.ofString "Target ID cannot be empty")
  else if reMatch (targetPattern isDecimal transport) targetId then .ok ()
  else .error (CodePoints.ofString s!"Invalid target ID format for {transport.value}: " ++
    targetId.take 20 ++ CodePoints.ofString "...")

def validateThreadId (transport : TransportType) (threadId : CodePoints) :
    Except CodePoints Unit :=
  if threadId = [] then .error (CodePoints.ofString "Thread ID cannot be empty")
  else if reMatch (threadPattern isDecimal transport) threadId then .ok ()
  else .error (CodePoints.ofString s!"Invalid thread ID format for {transport.value}: " ++
    threadId.take 20 ++ CodePoints.ofString "...")

/-- An empty thread is not looked at. -/
def validateOptionalThread (transport : TransportType) : Option CodePoints → Except CodePoints Unit
  | none => .ok ()
  | some t => if t = [] then .ok () else validateThreadId transport t

def parseTarget (transport : TransportType) (targetId : CodePoints)
    (threadId : Option CodePoints) (mode : CodePoints) : Except CodePoints DeliveryTarget := do
  validateTargetId transport targetId
  validateOptionalThread transport threadId
  if mode ∈ validModes then return { transport, targetId, threadId, mode }
  else .error (CodePoints.ofString "Invalid delivery mode: " ++ mode)

def transportOf? (t : CodePoints) : Option TransportType :=
  [TransportType.webhook, .discord, .slack, .telegram, .custom].find? fun transport =>
    CodePoints.ofString transport.value = t

def colon : CodePoint := 58
def atSign : CodePoint := 64
def slash : CodePoint := 47

/-- `"://" in rest`. -/
def hasScheme (rest : CodePoints) : Bool := decide ([colon, slash, slash] <:+: rest)

/-- The string without its mode, and the mode. -/
def splitMode (s : CodePoints) : CodePoints × CodePoints :=
  (splitLast? atSign s).getD (s, CodePoints.ofString "reply")

def parseTargetString (targetStr : CodePoints) : Except CodePoints DeliveryTarget :=
  if targetStr = [] then .error (CodePoints.ofString "Empty target string")
  else
    match splitFirst? colon (splitMode targetStr).1 with
    | none => .error (CodePoints.ofString "Invalid target format: " ++ (splitMode targetStr).1)
    | some (transportStr, rest) =>
      match transportOf? transportStr with
      | none => .error (CodePoints.ofString "Unknown transport: " ++ transportStr)
      | some transport =>
        -- the URL of a webhook is all of the rest
        if transport = .webhook ∧ hasScheme rest then
          parseTarget transport rest none (splitMode targetStr).2
        else
          match splitFirst? colon rest with
          | none => parseTarget transport rest none (splitMode targetStr).2
          | some (targetId, threadId) =>
            parseTarget transport targetId (some threadId) (splitMode targetStr).2

/-! ## The documented form -/

def isAsciiDigit (n : ℕ) : Bool := decide (48 ≤ n ∧ n ≤ 57)

/-- An optional part behind its separator. -/
def part (sep : CodePoint) : Option CodePoints → CodePoints
  | none => []
  | some t => sep :: t

/-- `transport:target_id[:thread_id][@mode]`. -/
def written (transport : TransportType) (targetId : CodePoints)
    (threadId mode : Option CodePoints) : CodePoints :=
  CodePoints.ofString transport.value ++ colon :: (targetId ++ part colon threadId) ++
    part atSign mode

def DeliveryTarget.write (d : DeliveryTarget) : CodePoints :=
  written d.transport d.targetId d.threadId (some d.mode)

/-- Which target and thread identifiers a transport has. -/
structure IdGrammar where
  target : TransportType → CodePoints → Prop
  thread : TransportType → CodePoints → Prop

/-- The strings of the documented form; the URL of a webhook takes no thread. -/
def Conforms (ids : IdGrammar) (s : CodePoints) : Prop :=
  ∃ transport targetId threadId mode, s = written transport targetId threadId mode ∧
    (∀ m ∈ mode, m ∈ validModes) ∧ ids.target transport targetId ∧
    (∀ t ∈ threadId, ids.thread transport t) ∧
    (transport = .webhook → hasScheme targetId = true → threadId = none)

/-- The identifiers as whole strings, with the digits of ASCII. -/
def documented : IdGrammar where
  target := fun transport t => targetPattern isAsciiDigit transport (points t) = true
  thread := fun transport t => threadPattern isAsciiDigit transport (points t) = true

/-- The identifiers as the pattern matching of `re` reads them, and the empty thread. -/
def matching : IdGrammar where
  target := fun transport t => reMatch (targetPattern isDecimal transport) t = true
  thread := fun transport t => t = [] ∨ reMatch (threadPattern isDecimal transport) t = true

/-- ASCII throughout, on one line, with something behind the colon of a thread. -/
structure Plain (s : CodePoints) : Prop where
  ascii : s.isAscii = true
  oneLine : lineEnd ∉ s
  threaded : (splitMode s).1.getLast? ≠ some colon

end Strings

/-! ## The characters of identifiers -/

section Characters
variable {digit digit' : ℕ → Bool} {transport : TransportType} {cs : List ℕ}

/-- What identifiers other than URLs are made of. -/
def idChar (digit : ℕ → Bool) (n : ℕ) : Bool := digit n || wordClass ['_', '.', '-'] n

def urlChar (n : ℕ) : Bool := wordClass ['_', '.', '/', '-', ':'] n

theorem repeated_all {p : ℕ → Bool} {lo hi : ℕ} (h : repeated p lo hi cs = true) :
    ∀ c ∈ cs, p c = true := by
  rw [repeated, Bool.and_eq_true] at h
  exact List.all_eq_true.mp h.2

theorem repeated_ne_nil {p : ℕ → Bool} {lo hi : ℕ} (h : repeated p (lo + 1) hi cs = true) :
    cs ≠ [] := by
  rw [repeated, Bool.and_eq_true, decide_eq_true_eq] at h
  rintro rfl
  simp at h

theorem wordClass_mono {extra extra' : List Char} (h : extra ⊆ extra') {n : ℕ}
    (hn : wordClass extra n = true) : wordClass extra' n = true := by
  rw [wordClass, Bool.or_eq_true] at hn ⊢
  refine hn.imp id fun hmem => ?_
  rw [List.contains_iff_mem, List.mem_map] at hmem ⊢
  obtain ⟨c, hc, hcn⟩ := hmem
  exact ⟨c, h hc, hcn⟩

theorem idChar_digit {n : ℕ} (h : digit n = true) : idChar digit n = true := by
  rw [idChar, h, Bool.true_or]

theorem idChar_word {n : ℕ} (h : wordClass ['_', '.', '-'] n = true) : idChar digit n = true := by
  rw [idChar, h, Bool.or_true]

theorem urlPattern_iff : urlPattern cs = true ↔ ∃ scheme ∈ ["http://", "https://"], ∃ rest,
    cs = scheme.toList.map Char.toNat ++ rest ∧ rest ≠ [] ∧
      ∀ c ∈ rest, wordClass ['_', '.', '/', '-'] c = true := by
  have hlen : ∀ scheme : String, scheme.length = (scheme.toList.map Char.toNat).length :=
    fun scheme => by rw [List.length_map, String.length_toList]
  unfold urlPattern
  rw [List.any_eq_true]
  constructor
  · rintro ⟨scheme, hscheme, h⟩
    rw [Bool.and_eq_true, Bool.and_eq_true, decide_eq_true_eq, List.isPrefixOf_iff_prefix] at h
    obtain ⟨⟨⟨rest, rfl⟩, hne⟩, hall⟩ := h
    rw [hlen, List.drop_left] at hne hall
    exact ⟨scheme, hscheme, rest, rfl, hne, List.all_eq_true.mp hall⟩
  · rintro ⟨scheme, hscheme, rest, rfl, hne, hall⟩
    refine ⟨scheme, hscheme, ?_⟩
    rw [Bool.and_eq_true, Bool.and_eq_true, decide_eq_true_eq, List.isPrefixOf_iff_prefix, hlen,
      List.drop_left]
    exact ⟨⟨⟨rest, rfl⟩, hne⟩, List.all_eq_true.mpr hall⟩

theorem urlPattern_chars (h : urlPattern cs = true) : ∀ c ∈ cs, urlChar c = true := by
  obtain ⟨scheme, hscheme, rest, rfl, -, hrest⟩ := urlPattern_iff.mp h
  have hschemes : ∀ scheme ∈ ["http://", "https://"],
      ∀ c ∈ scheme.toList.map Char.toNat, urlChar c = true := by decide
  intro c hc
  rcases List.mem_append.mp hc with hc | hc
  · exact hschemes scheme hscheme c hc
  · exact wordClass_mono (by decide) (hrest c hc)

theorem telegram_cases : targetPattern digit .telegram cs = true →
    ∃ ds, (cs = ds ∨ cs = 45 :: ds) ∧ repeated digit 1 15 ds = true := by
  intro h
  unfold targetPattern at h
  split at h <;> try contradiction
  · rename_i ds _
    exact ⟨ds, .inr rfl, h⟩
  · exact ⟨_, .inl rfl, h⟩

/-- Only the URLs of webhooks have colons and slashes. -/
theorem targetPattern_chars (h : targetPattern digit transport cs = true) :
    (∀ c ∈ cs, idChar digit c = true) ∨ (transport = .webhook ∧ urlPattern cs = true) := by
  cases transport with
  | discord => exact .inl fun c hc => idChar_digit (repeated_all h c hc)
  | slack =>
    refine .inl fun c hc => idChar_word ?_
    have hupper := repeated_all h c hc
    rw [wordClass, isAlnum, hupper]
    rfl
  | telegram =>
    obtain ⟨ds, hds, hrep⟩ := telegram_cases h
    have hall : ∀ c ∈ ds, idChar digit c = true := fun c hc => idChar_digit (repeated_all hrep c hc)
    rcases hds with rfl | rfl
    · exact .inl hall
    · refine .inl fun c hc => ?_
      rcases List.mem_cons.mp hc with rfl | hc
      · exact idChar_word (by decide)
      · exact hall c hc
  | webhook =>
    rcases Bool.or_eq_true_iff.mp h with hurl | hid
    · exact .inr ⟨rfl, hurl⟩
    · exact .inl fun c hc => idChar_word (wordClass_mono (by decide) (repeated_all hid c hc))
  | custom => exact .inl fun c hc => idChar_word (repeated_all h c hc)

theorem targetPattern_ne_nil (h : targetPattern digit transport cs = true) : cs ≠ [] := by
  cases transport with
  | discord => exact repeated_ne_nil h
  | slack => exact repeated_ne_nil h
  | telegram =>
    obtain ⟨ds, rfl | rfl, hrep⟩ := telegram_cases h
    · exact repeated_ne_nil hrep
    · exact List.cons_ne_nil _ _
  | webhook =>
    rcases Bool.or_eq_true_iff.mp h with hurl | hid
    · obtain ⟨scheme, -, rest, rfl, hne, -⟩ := urlPattern_iff.mp hurl
      exact List.append_ne_nil_of_right_ne_nil _ hne
    · exact repeated_ne_nil hid
  | custom => exact repeated_ne_nil h

/-- A Slack thread: two runs of digits with a dot between them. -/
theorem slack_thread (h : threadPattern digit .slack cs = true) :
    ∃ ds fs, cs = ds ++ 46 :: fs ∧ repeated digit 10 13 ds = true ∧
      repeated digit 6 6 fs = true := by
  unfold threadPattern at h
  rw [Bool.and_eq_true] at h
  obtain ⟨hds, h⟩ := h
  split at h
  · rename_i fs hfs
    refine ⟨cs.takeWhile digit, fs, ?_, hds, h⟩
    rw [← hfs, List.takeWhile_append_dropWhile]
  · cases h

theorem threadPattern_chars (h : threadPattern digit transport cs = true) :
    ∀ c ∈ cs, idChar digit c = true := by
  cases transport with
  | discord => exact fun c hc => idChar_digit (repeated_all h c hc)
  | slack =>
    obtain ⟨ds, fs, rfl, hds, hfs⟩ := slack_thread h
    intro c hc
    rw [List.mem_append, List.mem_cons] at hc
    rcases hc with hc | rfl | hc
    · exact idChar_digit (repeated_all hds c hc)
    · exact idChar_word (by decide)
    · exact idChar_digit (repeated_all hfs c hc)
  | telegram => exact fun c hc => idChar_digit (repeated_all h c hc)
  | webhook => exact fun c hc => idChar_word (wordClass_mono (by decide) (repeated_all h c hc))
  | custom => exact fun c hc => idChar_word (repeated_all h c hc)

theorem threadPattern_ne_nil (h : threadPattern digit transport cs = true) : cs ≠ [] := by
  cases transport with
  | discord => exact repeated_ne_nil h
  | slack =>
    obtain ⟨ds, fs, rfl, -, -⟩ := slack_thread h
    exact List.append_ne_nil_of_right_ne_nil _ (List.cons_ne_nil _ _)
  | telegram => exact repeated_ne_nil h
  | webhook => exact repeated_ne_nil h
  | custom => exact repeated_ne_nil h

/-! ### The digits in use -/

theorem repeated_congr {lo hi : ℕ} (h : ∀ c ∈ cs, digit c = digit' c) :
    repeated digit lo hi cs = repeated digit' lo hi cs := by
  have hall : cs.all digit = cs.all digit' := by
    rw [Bool.eq_iff_iff, List.all_eq_true, List.all_eq_true]
    exact forall₂_congr fun c hc => by rw [h c hc]
  rw [repeated, repeated, hall]

theorem targetPattern_congr (h : ∀ c ∈ cs, digit c = digit' c) :
    targetPattern digit transport cs = targetPattern digit' transport cs := by
  cases transport with
  | discord => exact repeated_congr h
  | slack => rfl
  | telegram =>
    unfold targetPattern
    split <;> try contradiction
    · exact repeated_congr fun c hc => h c (List.mem_cons_of_mem _ hc)
    · exact repeated_congr h
  | webhook => rfl
  | custom => rfl

theorem takeWhile_congr {p q : ℕ → Bool} : ∀ {cs : List ℕ}, (∀ c ∈ cs, p c = q c) →
    cs.takeWhile p = cs.takeWhile q ∧ cs.dropWhile p = cs.dropWhile q
  | [], _ => ⟨rfl, rfl⟩
  | c :: cs, h => by
    have ih := takeWhile_congr fun d hd => h d (List.mem_cons_of_mem c hd)
    rw [List.takeWhile_cons, List.takeWhile_cons, List.dropWhile_cons, List.dropWhile_cons,
      h c List.mem_cons_self, ih.1, ih.2]
    exact ⟨rfl, rfl⟩

theorem threadPattern_congr (h : ∀ c ∈ cs, digit c = digit' c) :
    threadPattern digit transport cs = threadPattern digit' transport cs := by
  cases transport with
  | discord => exact repeated_congr h
  | slack =>
    simp only [threadPattern]
    rw [repeated_congr fun c hc => h c ((List.takeWhile_sublist digit).subset hc),
      (takeWhile_congr h).1, (takeWhile_congr h).2]
    congr 1
    split
    · rename_i fs hfs
      refine repeated_congr fun c hc => h c ?_
      exact (List.dropWhile_sublist digit').subset (hfs ▸ List.mem_cons_of_mem 46 hc)
    · rfl
  | telegram => exact repeated_congr h
  | webhook => rfl
  | custom => rfl

theorem isDecimal_ascii {n : ℕ} (h : n < 128) : isDecimal n = isAsciiDigit n := by
  have hall : ∀ n < 128, isDecimal n = isAsciiDigit n := by decide
  exact hall n h

theorem idChar_ascii {n : ℕ} (h : idChar isAsciiDigit n = true) : n < 128 ∧ n ≠ 10 := by
  simp [idChar, isAsciiDigit, wordClass, isAlnum, isUpperOrDigit] at h
  omega

theorem urlChar_ascii {n : ℕ} (h : urlChar n = true) : n < 128 ∧ n ≠ 10 ∧ n ≠ 64 := by
  simp [urlChar, wordClass, isAlnum, isUpperOrDigit] at h
  omega

theorem idChar_separator {n : ℕ} (h : idChar isDecimal n = true) : n ≠ 64 ∧ n ≠ 58 ∧ n ≠ 47 := by
  refine ⟨?_, ?_, ?_⟩
  all_goals
    rintro rfl
    revert h
    decide

end Characters

/-! ## Identifiers as `re` matches them -/

section Matching
variable {transport : TransportType} {t : CodePoints} {pattern : List ℕ → Bool}

theorem reMatch_iff : reMatch pattern t = true ↔
    ∃ body, (t = body ∨ t = body ++ [lineEnd]) ∧ pattern (points body) = true := by
  rw [reMatch, Bool.or_eq_true, Bool.and_eq_true, decide_eq_true_eq]
  constructor
  · rintro (h | ⟨hlast, h⟩)
    · exact ⟨t, .inl rfl, h⟩
    · exact ⟨t.dropLast, .inr (List.dropLast_append_getLast? _ hlast).symm, h⟩
  · rintro ⟨body, rfl | rfl, h⟩
    · exact .inl h
    · refine .inr ⟨by simp, ?_⟩
      rwa [List.dropLast_concat]

theorem reMatch_ne_nil (hne : ∀ cs, pattern cs = true → cs ≠ []) (h : reMatch pattern t = true) :
    t ≠ [] := by
  obtain ⟨body, rfl | rfl, hbody⟩ := reMatch_iff.mp h
  · rintro rfl
    exact hne _ hbody rfl
  · simp

/-- On one line there is nothing behind what the pattern matches. -/
theorem reMatch_oneLine (h : lineEnd ∉ t) : reMatch pattern t = true ↔
    pattern (points t) = true := by
  rw [reMatch_iff]
  constructor
  · rintro ⟨body, rfl | rfl, hbody⟩
    · exact hbody
    · simp at h
  · exact fun hbody => ⟨t, .inl rfl, hbody⟩

theorem chars_of_body {p : ℕ → Prop} {body : CodePoints} (hbody : t = body ∨ t = body ++ [lineEnd])
    (hp : ∀ c ∈ points body, p c) (hend : p 10) : ∀ c ∈ t, p c.val := by
  have hall : ∀ c ∈ body, p c.val := fun c hc => hp c.val (List.mem_map_of_mem hc)
  intro c hc
  rcases hbody with rfl | rfl
  · exact hall c hc
  · rcases List.mem_append.mp hc with hc | hc
    · exact hall c hc
    · rw [List.mem_singleton.mp hc]
      exact hend

/-- What the text of an identifier keeps free for the separators. -/
structure Separable (t : CodePoints) : Prop where
  atFree : atSign ∉ t
  colonFree : colon ∉ t
  slashFree : slash ∉ t

theorem separable_of_chars (h : ∀ c ∈ t, c.val ≠ 64 ∧ c.val ≠ 58 ∧ c.val ≠ 47) : Separable t :=
  ⟨fun hmem => (h _ hmem).1 rfl, fun hmem => (h _ hmem).2.1 rfl, fun hmem => (h _ hmem).2.2 rfl⟩

theorem Separable.noScheme (h : Separable t) : hasScheme t = false := by
  rw [hasScheme, decide_eq_false_iff_not]
  intro hinside
  exact h.slashFree (hinside.subset (by simp))

theorem urlPattern_scheme (h : urlPattern (points t) = true) : hasScheme t = true := by
  obtain ⟨scheme, hscheme, rest, hcs, -, -⟩ := urlPattern_iff.mp h
  have hmid : ∃ pre post, scheme.toList.map Char.toNat = pre ++ [58, 47, 47] ++ post := by
    rcases List.mem_cons.mp hscheme with rfl | hscheme
    · exact ⟨[104, 116, 116, 112], [], by decide⟩
    · rw [List.mem_singleton.mp hscheme]
      exact ⟨[104, 116, 116, 112, 115], [], by decide⟩
  obtain ⟨pre, post, hmid⟩ := hmid
  have hinside : [58, 47, 47] <:+: points t := by
    rw [hcs, hmid]
    exact ⟨pre, post ++ rest, by simp⟩
  obtain ⟨l, hl, heq⟩ := List.infix_map_iff.mp hinside
  have hsep : l = [colon, slash, slash] :=
    List.map_injective_iff.mpr Fin.val_injective (heq.symm.trans rfl)
  rw [hasScheme, decide_eq_true_eq, ← hsep]
  exact hl

/-- A target holds separators only if it is the URL of a webhook. -/
theorem target_separable (h : matching.target transport t) :
    atSign ∉ t ∧ (Separable t ∨ (transport = .webhook ∧ hasScheme t = true)) := by
  obtain ⟨body, hbody, hpattern⟩ := reMatch_iff.mp h
  rcases targetPattern_chars hpattern with hid | ⟨rfl, hurl⟩
  · have hsep : Separable t := separable_of_chars
      (chars_of_body hbody (fun c hc => idChar_separator (hid c hc)) (by decide))
    exact ⟨hsep.atFree, .inl hsep⟩
  · have hat : ∀ c ∈ t, c.val ≠ 64 := chars_of_body hbody
      (fun c hc => (urlChar_ascii (urlPattern_chars hurl c hc)).2.2) (by decide)
    have hscheme := urlPattern_scheme hurl
    refine ⟨fun hmem => hat _ hmem rfl, .inr ⟨rfl, ?_⟩⟩
    rcases hbody with rfl | rfl
    · exact hscheme
    · rw [hasScheme, decide_eq_true_eq] at hscheme ⊢
      exact hscheme.trans (List.prefix_append body [lineEnd]).isInfix

theorem thread_separable (h : matching.thread transport t) : Separable t := by
  rcases h with rfl | h
  · exact separable_of_chars fun c hc => by cases hc
  · obtain ⟨body, hbody, hpattern⟩ := reMatch_iff.mp h
    exact separable_of_chars (chars_of_body hbody
      (fun c hc => idChar_separator (threadPattern_chars hpattern c hc)) (by decide))

end Matching

/-! ## What is accepted -/

section Parsing
variable {transport : TransportType} {targetId : CodePoints} {threadId : Option CodePoints}
  {mode : CodePoints} {d : DeliveryTarget}

theorem validateTargetId_ok : validateTargetId transport targetId = .ok () ↔
    matching.target transport targetId := by
  unfold validateTargetId
  constructor
  · intro h
    split at h
    · cases h
    · split at h
      · assumption
      · cases h
  · intro h
    rw [if_neg (reMatch_ne_nil (fun cs => targetPattern_ne_nil) h)]
    exact if_pos h

theorem validateOptionalThread_ok : validateOptionalThread transport threadId = .ok () ↔
    ∀ t ∈ threadId, matching.thread transport t := by
  cases threadId with
  | none => simp [validateOptionalThread]
  | some t =>
    by_cases ht : t = []
    · simp [validateOptionalThread, ht, matching]
    · simp only [validateOptionalThread, ht, if_false, validateThreadId, Option.mem_some_iff,
        forall_eq', matching, false_or]
      cases reMatch (threadPattern isDecimal transport) t <;> simp

theorem parseTarget_ok : parseTarget transport targetId threadId mode = .ok d ↔
    d = ⟨transport, targetId, threadId, mode⟩ ∧ matching.target transport targetId ∧
      (∀ t ∈ threadId, matching.thread transport t) ∧ mode ∈ validModes := by
  rw [← validateTargetId_ok, ← validateOptionalThread_ok]
  unfold parseTarget
  constructor
  · intro h
    obtain ⟨_, htarget, h⟩ := bind_eq_ok h
    obtain ⟨_, hthread, h⟩ := bind_eq_ok h
    split at h
    · rename_i hmode
      cases h
      exact ⟨rfl, htarget, hthread, hmode⟩
    · cases h
  · rintro ⟨rfl, htarget, hthread, hmode⟩
    rw [htarget, hthread, if_pos hmode]
    rfl

/-! ### Splitting what was written -/

theorem transport_value (transport : TransportType) :
    transportOf? (CodePoints.ofString transport.value) = some transport ∧
      colon ∉ CodePoints.ofString transport.value ∧
      atSign ∉ CodePoints.ofString transport.value := by
  cases transport <;> decide

theorem transportOf?_eq_some {t : CodePoints} (h : transportOf? t = some transport) :
    t = CodePoints.ofString transport.value := by
  unfold transportOf? at h
  have := List.find?_some h
  exact (of_decide_eq_true this).symm

theorem validMode_at (h : mode ∈ validModes) : atSign ∉ mode := by
  have hall : ∀ m ∈ validModes, atSign ∉ m := by decide
  exact hall mode h

theorem splitMode_part {front : CodePoints} {m : Option CodePoints} (hfront : atSign ∉ front)
    (hm : ∀ t ∈ m, atSign ∉ t) :
    splitMode (front ++ part atSign m) = (front, m.getD (CodePoints.ofString "reply")) := by
  cases m with
  | none =>
    rw [part, List.append_nil, splitMode, splitLast?_eq_none.mpr hfront]
    rfl
  | some t =>
    rw [part, splitMode, splitLast?_eq_some.mpr ⟨rfl, hm t rfl⟩]
    rfl

theorem splitMode_eq (s : CodePoints) : ∃ m, s = (splitMode s).1 ++ part atSign m ∧
    (splitMode s).2 = m.getD (CodePoints.ofString "reply") := by
  unfold splitMode
  cases h : splitLast? atSign s with
  | none => exact ⟨none, by simp [part], rfl⟩
  | some p => exact ⟨some p.2, (splitLast?_eq_some.mp h).1, rfl⟩

theorem getD_validMode {m : Option CodePoints} :
    m.getD (CodePoints.ofString "reply") ∈ validModes ↔ ∀ t ∈ m, t ∈ validModes := by
  cases m with
  | none => exact iff_of_true (by decide) (by simp)
  | some t => simp

/-- The parts of an accepted string. -/
theorem parts_of_parsed {s : CodePoints} (h : parseTargetString s = .ok d) :
    ∃ m, s = written d.transport d.targetId d.threadId m ∧
      d.mode = m.getD (CodePoints.ofString "reply") ∧ d.mode ∈ validModes ∧
      matching.target d.transport d.targetId ∧
      (∀ t ∈ d.threadId, matching.thread d.transport t) ∧
      (d.transport = .webhook → hasScheme d.targetId = true → d.threadId = none) := by
  obtain ⟨m, hs, hmode⟩ := splitMode_eq s
  unfold parseTargetString at h
  split at h
  · cases h
  split at h
  · cases h
  rename_i transportStr rest hfirst
  obtain ⟨hbody, -⟩ := splitFirst?_eq_some.mp hfirst
  split at h
  · cases h
  rename_i transport htransport
  have hvalue := transportOf?_eq_some htransport
  have hwritten : ∀ targetId threadId, rest = targetId ++ part colon threadId →
      s = written transport targetId threadId m := by
    intro targetId threadId hrest
    rw [hs, hbody, hvalue, hrest, written]
  split at h
  · obtain ⟨rfl, htarget, hthread, hvalid⟩ := parseTarget_ok.mp h
    exact ⟨m, hwritten _ none (by simp [part]), hmode, hvalid, htarget, hthread, fun _ _ => rfl⟩
  · rename_i hurl
    split at h
    · obtain ⟨rfl, htarget, hthread, hvalid⟩ := parseTarget_ok.mp h
      exact ⟨m, hwritten _ none (by simp [part]), hmode, hvalid, htarget, hthread, fun _ _ => rfl⟩
    · rename_i targetId threadId hsplit
      obtain ⟨hrest, hcolon⟩ := splitFirst?_eq_some.mp hsplit
      obtain ⟨rfl, htarget, hthread, hvalid⟩ := parseTarget_ok.mp h
      refine ⟨m, hwritten _ (some threadId) hrest, hmode, hvalid, htarget, hthread, ?_⟩
      intro hweb hscheme
      rw [hasScheme, decide_eq_true_eq] at hscheme
      exact absurd (hscheme.subset (by simp)) hcolon

theorem front_at (htarget : matching.target transport targetId)
    (hthread : ∀ t ∈ threadId, matching.thread transport t) :
    atSign ∉ CodePoints.ofString transport.value ++ colon :: (targetId ++ part colon threadId) := by
  rw [List.mem_append, List.mem_cons, List.mem_append, not_or, not_or, not_or]
  refine ⟨(transport_value transport).2.2, by decide, (target_separable htarget).1, ?_⟩
  cases threadId with
  | none => simp [part]
  | some t =>
    rw [part, List.mem_cons, not_or]
    exact ⟨by decide, (thread_separable (hthread t rfl)).atFree⟩

/-- A string of the form that the patterns let through is read part by part. -/
theorem parse_written {m : Option CodePoints} (hm : ∀ t ∈ m, t ∈ validModes)
    (htarget : matching.target transport targetId)
    (hthread : ∀ t ∈ threadId, matching.thread transport t)
    (hurl : transport = .webhook → hasScheme targetId = true → threadId = none) :
    parseTargetString (written transport targetId threadId m) =
      .ok ⟨transport, targetId, threadId, m.getD (CodePoints.ofString "reply")⟩ := by
  obtain ⟨hof, hcolon, -⟩ := transport_value transport
  have hseparable := (target_separable htarget).2
  have hmode := splitMode_part (front_at htarget hthread) fun t ht => validMode_at (hm t ht)
  have hparse : ∀ threadId', (∀ t ∈ threadId', matching.thread transport t) →
      parseTarget transport targetId threadId' (m.getD (CodePoints.ofString "reply")) =
        .ok ⟨transport, targetId, threadId', m.getD (CodePoints.ofString "reply")⟩ :=
    fun threadId' hthread' =>
      parseTarget_ok.mpr ⟨rfl, htarget, hthread', getD_validMode.mpr hm⟩
  unfold written parseTargetString
  rw [hmode, if_neg (by simp)]
  simp only [splitFirst?_append hcolon, hof]
  cases threadId with
  | none =>
    simp only [part, List.append_nil]
    split
    · exact hparse none hthread
    · rename_i hno
      rcases hseparable with hsep | hweb
      · rw [splitFirst?_eq_none.mpr hsep.colonFree]
        exact hparse none hthread
      · exact absurd hweb hno
  | some t =>
    have hsep : Separable targetId := by
      rcases hseparable with hsep | ⟨hweb, hscheme⟩
      · exact hsep
      · cases hurl hweb hscheme
    have hno : hasScheme (targetId ++ part colon (some t)) = false := by
      rw [hasScheme, decide_eq_false_iff_not]
      intro hinside
      have hslash : slash ∈ targetId ++ colon :: t := hinside.subset (by simp)
      rw [List.mem_append, List.mem_cons] at hslash
      rcases hslash with hslash | hslash | hslash
      · exact hsep.slashFree hslash
      · exact absurd hslash (by decide)
      · exact (thread_separable (hthread t rfl)).slashFree hslash
    rw [if_neg (by simp [hno]), part, splitFirst?_append hsep.colonFree]
    exact hparse (some t) hthread

def Accepted (s : CodePoints) : Prop := ∃ d, parseTargetString s = .ok d

theorem accepted_iff {s : CodePoints} : Accepted s ↔ Conforms matching s := by
  constructor
  · rintro ⟨d, h⟩
    obtain ⟨m, hs, hmode, hvalid, htarget, hthread, hurl⟩ := parts_of_parsed h
    rw [hmode] at hvalid
    exact ⟨_, _, _, m, hs, getD_validMode.mp hvalid, htarget, hthread, hurl⟩
  · rintro ⟨transport, targetId, threadId, m, rfl, hm, htarget, hthread, hurl⟩
    exact ⟨_, parse_written hm htarget hthread hurl⟩

/-- What is written back is read again. -/
theorem parse_write {s : CodePoints} (h : parseTargetString s = .ok d) :
    parseTargetString d.write = .ok d := by
  obtain ⟨m, -, -, hvalid, htarget, hthread, hurl⟩ := parts_of_parsed h
  refine parse_written (fun t ht => ?_) htarget hthread hurl
  cases ht
  exact hvalid

end Parsing

/-! ## The documented form among the accepted strings -/

section Documented
variable {transport : TransportType} {t targetId : CodePoints} {threadId m : Option CodePoints}

theorem isDecimal_points (h : ∀ c ∈ t, c.val < 128) :
    ∀ n ∈ points t, isDecimal n = isAsciiDigit n := by
  intro n hn
  obtain ⟨c, hc, rfl⟩ := List.mem_map.mp hn
  exact isDecimal_ascii (h c hc)

theorem documented_target_ascii (h : documented.target transport t) :
    ∀ c ∈ t, c.val < 128 ∧ c ≠ lineEnd := by
  intro c hc
  have hmem : c.val ∈ points t := List.mem_map_of_mem hc
  have hval : c.val < 128 ∧ c.val ≠ 10 := by
    rcases targetPattern_chars h with hid | ⟨-, hurl⟩
    · exact idChar_ascii (hid _ hmem)
    · exact ⟨(urlChar_ascii (urlPattern_chars hurl _ hmem)).1,
        (urlChar_ascii (urlPattern_chars hurl _ hmem)).2.1⟩
  exact ⟨hval.1, fun heq => hval.2 (congrArg Fin.val heq)⟩

theorem documented_thread_ascii (h : documented.thread transport t) :
    ∀ c ∈ t, c.val < 128 ∧ c ≠ lineEnd := by
  intro c hc
  have hval := idChar_ascii (threadPattern_chars h _ (List.mem_map_of_mem hc))
  exact ⟨hval.1, fun heq => hval.2 (congrArg Fin.val heq)⟩

/-- On one line of ASCII the patterns match whole strings. -/
theorem matching_target_iff (h : ∀ c ∈ t, c.val < 128 ∧ c ≠ lineEnd) :
    matching.target transport t ↔ documented.target transport t := by
  have hline : lineEnd ∉ t := fun hmem => (h _ hmem).2 rfl
  have hdigits := isDecimal_points fun c hc => (h c hc).1
  exact (reMatch_oneLine hline).trans (by rw [targetPattern_congr hdigits]; rfl)

theorem matching_thread_iff (h : ∀ c ∈ t, c.val < 128 ∧ c ≠ lineEnd) :
    matching.thread transport t ↔ t = [] ∨ documented.thread transport t := by
  have hline : lineEnd ∉ t := fun hmem => (h _ hmem).2 rfl
  have hdigits := isDecimal_points fun c hc => (h c hc).1
  refine or_congr Iff.rfl ((reMatch_oneLine hline).trans ?_)
  rw [threadPattern_congr hdigits]
  rfl

theorem documented_target_last (h : documented.target transport t) : t.getLast? ≠ some colon := by
  intro hlast
  have hmem : (58 : ℕ) ∈ points t := List.mem_map_of_mem (List.mem_of_getLast? hlast)
  rcases targetPattern_chars h with hid | ⟨-, hurl⟩
  · exact absurd (hid _ hmem) (by decide)
  · obtain ⟨scheme, -, rest, hcs, hne, hrest⟩ := urlPattern_iff.mp hurl
    have hlast' : (points t).getLast? = some 58 := by
      rw [points, List.getLast?_map, hlast]
      rfl
    rw [hcs, List.getLast?_append_of_ne_nil _ hne] at hlast'
    exact absurd (hrest _ (List.mem_of_getLast? hlast')) (by decide)

/-- The last character before the mode. -/
theorem front_last (hne : targetId ≠ []) :
    (CodePoints.ofString transport.value ++ colon :: (targetId ++ part colon threadId)).getLast? =
      match threadId with
      | none => targetId.getLast?
      | some t => some (t.getLast?.getD colon) := by
  cases threadId with
  | none =>
    rw [part, List.append_nil, List.getLast?_append_of_ne_nil _ (List.cons_ne_nil _ _),
      List.getLast?_cons_of_ne_nil hne]
  | some t =>
    rw [part, List.getLast?_append_of_ne_nil _ (List.cons_ne_nil _ _), ← List.cons_append,
      List.getLast?_append_of_ne_nil _ (List.cons_ne_nil _ _), List.getLast?_cons]

theorem mem_written {c : CodePoint} : c ∈ written transport targetId threadId m ↔
    c ∈ CodePoints.ofString transport.value ∨ c = colon ∨ c ∈ targetId ∨
      (∃ t ∈ threadId, c = colon ∨ c ∈ t) ∨ ∃ t ∈ m, c = atSign ∨ c ∈ t := by
  have hpart : ∀ (sep : CodePoint) (o : Option CodePoints),
      c ∈ part sep o ↔ ∃ t ∈ o, c = sep ∨ c ∈ t := by
    intro sep o
    cases o <;> simp [part]
  unfold written
  rw [List.mem_append, List.mem_append, List.mem_cons, List.mem_append, hpart, hpart]
  simp only [or_assoc]

theorem splitMode_written (hm : ∀ t ∈ m, t ∈ validModes)
    (htarget : matching.target transport targetId)
    (hthread : ∀ t ∈ threadId, matching.thread transport t) :
    (splitMode (written transport targetId threadId m)).1 =
      CodePoints.ofString transport.value ++ colon :: (targetId ++ part colon threadId) := by
  rw [written, splitMode_part (front_at htarget hthread) fun t ht => validMode_at (hm t ht)]

theorem plain_of_documented {s : CodePoints} (h : Conforms documented s) : Plain s := by
  obtain ⟨transport, targetId, threadId, m, rfl, hm, htarget, hthread, -⟩ := h
  have htargetAscii := documented_target_ascii htarget
  have hthreadAscii : ∀ t ∈ threadId, ∀ c ∈ t, c.val < 128 ∧ c ≠ lineEnd :=
    fun t ht => documented_thread_ascii (hthread t ht)
  have hvalue : ∀ c ∈ CodePoints.ofString transport.value, c.val < 128 ∧ c ≠ lineEnd := by
    have hall : (CodePoints.ofString transport.value).all
        (fun c => decide (c.val < 128 ∧ c ≠ lineEnd)) = true := by
      cases transport <;> decide
    exact fun c hc => of_decide_eq_true (List.all_eq_true.mp hall c hc)
  have hmode : ∀ t ∈ m, ∀ c ∈ t, c.val < 128 ∧ c ≠ lineEnd := by
    have hall : (validModes.all fun t => t.all
        fun c => decide (c.val < 128 ∧ c ≠ lineEnd)) = true := by decide
    intro t ht c hc
    exact of_decide_eq_true (List.all_eq_true.mp (List.all_eq_true.mp hall t (hm t ht)) c hc)
  have hascii : ∀ c ∈ written transport targetId threadId m, c.val < 128 ∧ c ≠ lineEnd := by
    intro c hc
    rcases mem_written.mp hc with hc | rfl | hc | ⟨t, ht, rfl | hc⟩ | ⟨t, ht, rfl | hc⟩
    · exact hvalue c hc
    · decide
    · exact htargetAscii c hc
    · decide
    · exact hthreadAscii t ht c hc
    · decide
    · exact hmode t ht c hc
  have hmatching : ∀ t ∈ threadId, matching.thread transport t := fun t ht =>
    (matching_thread_iff (hthreadAscii t ht)).mpr (.inr (hthread t ht))
  have htarget' := (matching_target_iff htargetAscii).mpr htarget
  refine ⟨?_, fun hmem => (hascii _ hmem).2 rfl, ?_⟩
  · exact List.all_eq_true.mpr fun c hc => decide_eq_true (hascii c hc).1
  · have hne : targetId ≠ [] := reMatch_ne_nil (fun cs => targetPattern_ne_nil) htarget'
    rw [splitMode_written hm htarget' hmatching, front_last hne]
    cases threadId with
    | none => exact documented_target_last htarget
    | some t =>
      have hthread' := hthread t rfl
      simp only [ne_eq, Option.some.injEq]
      intro hlast
      cases hget : t.getLast? with
      | none =>
        rw [List.getLast?_eq_none_iff] at hget
        exact threadPattern_ne_nil hthread' (by rw [hget]; rfl)
      | some c =>
        rw [hget] at hlast
        have hchar := threadPattern_chars hthread' _
          (List.mem_map_of_mem (List.mem_of_getLast? hget))
        rw [Option.getD_some] at hlast
        rw [hlast] at hchar
        exact absurd hchar (by decide)

/-- Among the strings the patterns let through, the plain ones have the documented form. -/
theorem documented_iff_plain {s : CodePoints} (h : Conforms matching s) :
    Conforms documented s ↔ Plain s := by
  refine ⟨plain_of_documented, fun hplain => ?_⟩
  obtain ⟨transport, targetId, threadId, m, rfl, hm, htarget, hthread, hurl⟩ := h
  have hchars : ∀ c ∈ written transport targetId threadId m, c.val < 128 ∧ c ≠ lineEnd := by
    intro c hc
    refine ⟨of_decide_eq_true (List.all_eq_true.mp hplain.ascii c hc), ?_⟩
    rintro rfl
    exact hplain.oneLine hc
  have htarget' : documented.target transport targetId :=
    (matching_target_iff fun c hc => hchars c (mem_written.mpr (.inr (.inr (.inl hc))))).mp htarget
  refine ⟨transport, targetId, threadId, m, rfl, hm, htarget', fun t ht => ?_, hurl⟩
  have hascii : ∀ c ∈ t, c.val < 128 ∧ c ≠ lineEnd := fun c hc =>
    hchars c (mem_written.mpr (.inr (.inr (.inr (.inl ⟨t, ht, .inr hc⟩)))))
  rcases (matching_thread_iff hascii).mp (hthread t ht) with rfl | hdocumented
  · have hne : targetId ≠ [] := reMatch_ne_nil (fun cs => targetPattern_ne_nil) htarget
    have hlast := hplain.threaded
    rw [splitMode_written hm htarget hthread, front_last hne, Option.mem_def.mp ht] at hlast
    exact absurd rfl hlast
  · exact hdocumented

theorem matching_of_documented {s : CodePoints} (h : Conforms documented s) :
    Conforms matching s := by
  obtain ⟨transport, targetId, threadId, m, hs, hm, htarget, hthread, hurl⟩ := h
  exact ⟨transport, targetId, threadId, m, hs, hm,
    (matching_target_iff (documented_target_ascii htarget)).mpr htarget,
    fun t ht => (matching_thread_iff (documented_thread_ascii (hthread t ht))).mpr
      (.inr (hthread t ht)), hurl⟩

end Documented

/-- The accepted strings are those of the documented form, but for line ends, digits of other
scripts and empty threads that the patterns let through; and what was read is read again when
it is written back. -/
theorem parseTargetString_documented (s : CodePoints) :
    ((Accepted s ↔ Conforms documented s) ∧
      ∀ d, parseTargetString s = .ok d → parseTargetString d.write = .ok d) ↔
    (Conforms matching s → Plain s) := by
  rw [accepted_iff]
  constructor
  · intro h hmatching
    exact (documented_iff_plain hmatching).mp (h.1.mp hmatching)
  · intro h
    refine ⟨⟨fun hmatching => ?_, matching_of_documented⟩, fun d hd => parse_write hd⟩
    exact (documented_iff_plain hmatching).mpr (h hmatching)

/-- `telegram:5` and a line end is accepted. -/
theorem line_end_accepted : Accepted (CodePoints.ofString "telegram:5\n") ∧
    ¬Conforms documented (CodePoints.ofString "telegram:5\n") :=
  ⟨⟨⟨.telegram, CodePoints.ofString "5\n", none, CodePoints.ofString "reply"⟩, by decide⟩,
    fun h => (plain_of_documented h).oneLine (by decide)⟩

end OpenClaw.ChatOps
