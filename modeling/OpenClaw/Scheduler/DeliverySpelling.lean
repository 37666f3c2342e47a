import OpenClaw.Api.RejectedUpdate

/-!
# Spellings of one delivery

What a loose delivery says, whichever aliases, cases and surrounding spaces it is written with, and
that the canonical form depends on nothing else. Only the two names of the platform are compared
before their case is settled, so the same platform written twice in two cases is a conflict.
-/

namespace OpenClaw.DeliveryContract

open Foundation
open Api (asciiInterpreter)
set_option autoImplicit false

variable {φ : Type} (py : Interpreter φ)

/-! ## What an input says -/

/-- The text under one key, if there is any. -/
def carried? (raw : Fields φ) (key : String) : Option PyStr :=
  match get? raw key with
  | none => none
  | some .null => none
  | some (.bool _) => none
  | some value =>
    let text := (strOf py value).strip
    if text = [] then none else some text

/-- No boolean stands where a text belongs. -/
def Texts (raw : Fields φ) (keys : List String) : Prop :=
  ∀ key ∈ keys, ∀ b, get? raw key ≠ some (.bool b)

/-- Read through `canon`, the aliases carry the text `said` and no other. -/
structure Names (canon : PyStr → PyStr) (raw : Fields φ) (keys : List String)
    (said : Option PyStr) : Prop where
  texts : Texts raw keys
  said : ∀ t, t ∈ said ↔ ∃ key ∈ keys, ∃ s ∈ carried? py raw key, canon s = t

def platformAliases : List String := ["platform", "transport"]

def canonicalPlatform (s : PyStr) : PyStr :=
  let platform := py.lower s
  if platform = PyStr.ofString "lark" then PyStr.ofString "feishu" else platform

/-- A delivery with a `url` and no platform is for a webhook. -/
def platformSaid (raw : Fields φ) (said : Option PyStr) : Option PyStr :=
  said.or (if (get? raw "url").isSome then some (PyStr.ofString "webhook") else none)

/-- A missing or blank mode is `reply`; other than a text, a mode says nothing. -/
def modeSaid (raw : Fields φ) : Option PyStr :=
  match get? raw "mode" with
  | none => some (PyStr.ofString "reply")
  | some .null => some (PyStr.ofString "reply")
  | some (.str s) =>
    let mode := py.lower s.strip
    if mode = [] then some (PyStr.ofString "reply") else some mode
  | some _ => none

def alertSaid (raw : Fields φ) : Option Bool :=
  match get? raw "failure_alert" with
  | none => some true
  | some (.bool b) => some b
  | some (.str s) =>
    let text := py.lower s.strip
    if text ∈ trueTexts then some true
    else if text ∈ falseTexts then some false
    else none
  | some _ => none

/-- The values of a delivery, with no trace of how they were written. -/
structure Said where
  disabled : Bool
  platform : Option PyStr
  targetId : Option PyStr
  threadId : Option PyStr
  workspaceId : Option PyStr
  accountId : Option PyStr
  mode : Option PyStr
  failureAlert : Option Bool

structure Says (raw : Fields φ) (v : Said) : Prop where
  disabled : v.disabled = true ↔ get? raw "enabled" = some (.bool false)
  platform : ∃ said, Names py (canonicalPlatform py) raw platformAliases said ∧
    v.platform = platformSaid raw said
  targetId : Names py id raw targetAliases v.targetId
  threadId : Names py id raw threadAliases v.threadId
  workspaceId : Names py id raw ["workspace_id", "team_id"] v.workspaceId
  accountId : Names py id raw ["account_id"] v.accountId
  mode : v.mode = modeSaid py raw
  failureAlert : v.failureAlert = alertSaid py raw

/-- Two aliases that both carry a text carry the same one, letter for letter. -/
def Alike (raw : Fields φ) (keys : List String) : Prop :=
  ∀ k ∈ keys, ∀ k' ∈ keys, ∀ s ∈ carried? py raw k, ∀ t ∈ carried? py raw k', s = t

/-! ## Reading the aliases -/

section Readers
variable {py} {raw : Fields φ} {keys : List String}

def carriedValues (py : Interpreter φ) (raw : Fields φ) (keys : List String) :
    List (String × PyStr) :=
  keys.filterMap fun key => (carried? py raw key).map (Prod.mk key)

theorem mem_carriedValues {v : String × PyStr} :
    v ∈ carriedValues py raw keys ↔ v.1 ∈ keys ∧ v.2 ∈ carried? py raw v.1 := by
  unfold carriedValues
  rw [List.mem_filterMap]
  constructor
  · rintro ⟨key, hk, hv⟩
    obtain ⟨t, ht, rfl⟩ := Option.map_eq_some_iff.mp hv
    exact ⟨hk, ht⟩
  · intro ⟨hk, ht⟩
    exact ⟨v.1, hk, Option.map_eq_some_iff.mpr ⟨v.2, ht, rfl⟩⟩

theorem aliasValues_eq (h : Texts raw keys) :
    aliasValues py raw keys = .ok (carriedValues py raw keys) := by
  induction keys with
  | nil => rfl
  | cons key keys ih =>
    have hrest := ih fun k hk => h k (List.mem_cons_of_mem key hk)
    have hkey := h key List.mem_cons_self
    have hstep : carriedValues py raw (key :: keys) =
        ((carried? py raw key).map (Prod.mk key)).toList ++ carriedValues py raw keys := by
      unfold carriedValues
      rw [List.filterMap_cons]
      cases carried? py raw key <;> rfl
    have hput : ∀ text : PyStr, (if text = [] then aliasValues py raw keys
        else (aliasValues py raw keys).map ((key, text) :: ·)) =
        .ok (((if text = [] then none else some text).map (Prod.mk key)).toList ++
          carriedValues py raw keys) := by
      intro text
      rw [hrest]
      split <;> rfl
    rw [hstep, aliasValues]
    unfold carried?
    revert hkey
    generalize get? raw key = found
    intro hkey
    cases found with
    | none => exact hrest
    | some value =>
      cases value with
      | null => exact hrest
      | bool b => exact absurd rfl (hkey b)
      | int i => exact hput _
      | float x => exact hput _
      | str s => exact hput _
      | arr items => exact hput _
      | obj fields => exact hput _

/-- Aliases spelled alike are resolved to the text they carry. -/
theorem resolveAlias_alike (h : Texts raw keys) (ha : Alike py raw keys) :
    ∃ found, resolveAlias py raw keys = .ok found ∧
      ∀ t, t ∈ found ↔ ∃ key ∈ keys, t ∈ carried? py raw key := by
  rw [resolveAlias, aliasValues_eq h]
  cases hvs : carriedValues py raw keys with
  | nil =>
    refine ⟨none, rfl, fun t => ⟨fun ht => (Option.not_mem_none t ht).elim, ?_⟩⟩
    rintro ⟨key, hk, ht⟩
    have hmem : (key, t) ∈ carriedValues py raw keys := mem_carriedValues.mpr ⟨hk, ht⟩
    rw [hvs] at hmem
    cases hmem
  | cons v rest =>
    have hall : ∀ w ∈ carriedValues py raw keys, w.1 ∈ keys ∧ w.2 ∈ carried? py raw w.1 :=
      fun w hw => mem_carriedValues.mp hw
    rw [hvs] at hall
    have hv := hall v List.mem_cons_self
    have hsame : ∀ w ∈ rest, w.2 = v.2 := by
      intro w hw
      have hw := hall w (List.mem_cons_of_mem v hw)
      exact ha _ hw.1 _ hv.1 _ hw.2 _ hv.2
    refine ⟨some v.2, if_pos hsame, fun t => ⟨?_, ?_⟩⟩
    · intro ht
      cases ht
      exact ⟨v.1, hv.1, hv.2⟩
    · rintro ⟨key, hk, ht⟩
      rw [ha _ hk _ hv.1 _ ht _ hv.2]
      rfl

/-- Any two spellings are a conflict. -/
theorem resolveAlias_conflict (h : Texts raw keys) (ha : ¬Alike py raw keys) :
    resolveAlias py raw keys = .error ⟨"delivery_ambiguous", PyStr.ofString
      ("delivery fields conflict: " ++
        ", ".intercalate ((carriedValues py raw keys).map Prod.fst))⟩ := by
  rw [resolveAlias, aliasValues_eq h]
  have hmem : ∀ k ∈ keys, ∀ t ∈ carried? py raw k, (k, t) ∈ carriedValues py raw keys :=
    fun k hk t ht => mem_carriedValues.mpr ⟨hk, ht⟩
  cases hvs : carriedValues py raw keys with
  | nil =>
    refine absurd (fun k hk _ _ s hs => ?_) ha
    have := hmem k hk s hs
    rw [hvs] at this
    cases this
  | cons v rest =>
    refine if_neg fun hsame => ha ?_
    have hfirst : ∀ w ∈ v :: rest, w.2 = v.2 := by
      intro w hw
      rcases List.mem_cons.mp hw with rfl | hw
      · rfl
      · exact hsame w hw
    intro k hk k' hk' s hs t ht
    have h1 := hmem k hk s hs
    have h2 := hmem k' hk' t ht
    rw [hvs] at h1 h2
    exact (hfirst _ h1).trans (hfirst _ h2).symm

theorem resolveAlias_names {said : Option PyStr} (h : Names py id raw keys said) :
    resolveAlias py raw keys = .ok said := by
  have hsaid : ∀ k ∈ keys, ∀ s ∈ carried? py raw k, s ∈ said :=
    fun k hk s hs => (h.said s).mpr ⟨k, hk, s, hs, rfl⟩
  have ha : Alike py raw keys := by
    intro k hk k' hk' s hs t ht
    exact Option.mem_unique (hsaid k hk s hs) (hsaid k' hk' t ht)
  obtain ⟨found, hfound, hmem⟩ := resolveAlias_alike h.texts ha
  have heq : found = said := by
    apply Option.ext
    intro t
    change t ∈ found ↔ t ∈ said
    rw [hmem, h.said]
    simp
  rw [hfound, heq]

theorem names_none {canon : PyStr → PyStr}
    (h : Texts raw keys) (hvs : carriedValues py raw keys = []) : Names py canon raw keys none := by
  refine ⟨h, fun t => ⟨fun ht => (Option.not_mem_none t ht).elim, ?_⟩⟩
  rintro ⟨key, hk, s, hs, -⟩
  have hmem : (key, s) ∈ carriedValues py raw keys := mem_carriedValues.mpr ⟨hk, hs⟩
  rw [hvs] at hmem
  cases hmem

theorem names_some {canon : PyStr → PyStr} {n : ℕ} {u : PyStr}
    (h : Texts raw keys)
    (hvs : (carriedValues py raw keys).map (fun v => canon v.2) = List.replicate (n + 1) u) :
    Names py canon raw keys (some u) := by
  have hmem : ∀ t, t ∈ (carriedValues py raw keys).map (fun v => canon v.2) ↔ u = t := by
    intro t
    rw [hvs, List.mem_replicate]
    exact ⟨fun ht => ht.2.symm, fun ht => ⟨Nat.succ_ne_zero n, ht.symm⟩⟩
  refine ⟨h, fun t => ?_⟩
  rw [Option.mem_some_iff, ← hmem, List.mem_map]
  constructor
  · rintro ⟨v, hv, rfl⟩
    exact ⟨v.1, (mem_carriedValues.mp hv).1, v.2, (mem_carriedValues.mp hv).2, rfl⟩
  · rintro ⟨key, hk, s, hs, rfl⟩
    exact ⟨(key, s), mem_carriedValues.mpr ⟨hk, hs⟩, rfl⟩

/-! ## Platform, mode and alert -/

theorem canonicalPlatform_webhook :
    canonicalPlatform py (PyStr.ofString "webhook") = PyStr.ofString "webhook" := by
  have hlower : py.lower (PyStr.ofString "webhook") = PyStr.ofString "webhook" :=
    lower_of_ascii (by decide) (by decide)
  rw [canonicalPlatform, hlower]
  exact if_neg (by decide)

/-- The check of a platform whose name is settled. -/
def checkPlatform : Option PyStr → Except DeliveryContractError PyStr
  | none => .error (malformed (PyStr.ofString "delivery.platform is required"))
  | some p =>
    if p ∉ supportedPlatforms then
      .error ⟨"delivery_unsupported", PyStr.ofString "unsupported delivery platform: " ++ p⟩
    else .ok p

theorem checkPlatform_canonical (s : PyStr) :
    checkPlatform (some (canonicalPlatform py s)) =
      if py.lower s ∉ supportedPlatforms then
        .error ⟨"delivery_unsupported",
          PyStr.ofString "unsupported delivery platform: " ++ py.lower s⟩
      else if py.lower s = PyStr.ofString "lark" then .ok (PyStr.ofString "feishu")
      else .ok (py.lower s) := by
  unfold canonicalPlatform checkPlatform
  by_cases hlark : py.lower s = PyStr.ofString "lark"
  · have hfeishu : PyStr.ofString "feishu" ∈ supportedPlatforms := by decide
    have hsup : PyStr.ofString "lark" ∈ supportedPlatforms := by decide
    simp only [hlark, if_true, hfeishu, hsup, not_true, if_false]
  · simp only [hlark, if_false]

/-- A platform that is spelled alike is settled from what it says. -/
theorem resolvePlatform_alike {said : Option PyStr}
    (h : Names py (canonicalPlatform py) raw platformAliases said)
    (ha : Alike py raw platformAliases) :
    resolvePlatform py raw = checkPlatform (platformSaid raw said) := by
  obtain ⟨found, hfound, hmem⟩ := resolveAlias_alike h.texts ha
  have hsaid : found.map (canonicalPlatform py) = said := by
    apply Option.ext
    intro t
    change t ∈ found.map (canonicalPlatform py) ↔ t ∈ said
    rw [Option.mem_map, h.said]
    constructor
    · rintro ⟨s, hs, rfl⟩
      obtain ⟨key, hk, hkey⟩ := (hmem s).mp hs
      exact ⟨key, hk, s, hkey, rfl⟩
    · rintro ⟨key, hk, s, hs, rfl⟩
      exact ⟨s, (hmem s).mpr ⟨key, hk, hs⟩, rfl⟩
  have hweb : canonicalPlatform py (PyStr.ofString "webhook") = PyStr.ofString "webhook" :=
    canonicalPlatform_webhook
  unfold platformAliases at hfound
  rw [resolvePlatform, hfound, platformSaid, ← hsaid]
  cases found with
  | some s => exact (checkPlatform_canonical s).symm
  | none =>
    cases (get? raw "url").isSome with
    | false => rfl
    | true =>
      have hcheck : checkPlatform (some (canonicalPlatform py (PyStr.ofString "webhook"))) = _ :=
        checkPlatform_canonical _
      rw [hweb] at hcheck
      exact hcheck.symm

theorem alike_platform : Alike py raw platformAliases ↔
    ∀ p ∈ carried? py raw "platform", ∀ t ∈ carried? py raw "transport", p = t := by
  have hp : "platform" ∈ platformAliases := by decide
  have ht : "transport" ∈ platformAliases := by decide
  constructor
  · intro h
    exact h _ hp _ ht
  · intro h k hk k' hk' s hs t ht
    simp only [platformAliases, List.mem_cons, List.not_mem_nil, or_false] at hk hk'
    rcases hk with rfl | rfl <;> rcases hk' with rfl | rfl
    · exact Option.mem_unique hs ht
    · exact h s hs t ht
    · exact (h t ht s hs).symm
    · exact Option.mem_unique hs ht

/-- Both names in two spellings. -/
theorem resolvePlatform_conflict (h : Texts raw platformAliases)
    (ha : ¬Alike py raw platformAliases) :
    resolvePlatform py raw = .error ⟨"delivery_ambiguous",
      PyStr.ofString "delivery fields conflict: platform, transport"⟩ := by
  have hboth : carriedValues py raw platformAliases =
      ((carried? py raw "platform").map (Prod.mk "platform")).toList ++
        ((carried? py raw "transport").map (Prod.mk "transport")).toList := by
    unfold carriedValues platformAliases
    rw [List.filterMap_cons, List.filterMap_cons, List.filterMap_nil]
    cases carried? py raw "platform" <;> cases carried? py raw "transport" <;> rfl
  have hconflict := resolveAlias_conflict h ha
  rw [hboth] at hconflict
  unfold resolvePlatform
  unfold platformAliases at hconflict
  rw [hconflict]
  rw [alike_platform] at ha
  push Not at ha
  obtain ⟨p, hp, t, ht, -⟩ := ha
  rw [Option.mem_def.mp hp, Option.mem_def.mp ht]
  rfl

/-- The mode is settled from what it says. -/
def checkMode : Option PyStr → Except DeliveryContractError PyStr
  | none => .error (malformed (PyStr.ofString "delivery.mode must be a string"))
  | some mode =>
    if mode = PyStr.ofString "none" then
      .error (malformed (PyStr.ofString
        "delivery.mode=none must be represented as explicit no-delivery"))
    else .ok mode

theorem normalizeMode_said :
    normalizeMode py ((get? raw "mode").getD (.str (PyStr.ofString "reply"))) =
      checkMode (modeSaid py raw) := by
  have hstrip : (PyStr.ofString "reply").strip = PyStr.ofString "reply" := by decide
  have hreply : py.lower (PyStr.ofString "reply") = PyStr.ofString "reply" :=
    lower_of_ascii (by decide) (by decide)
  have hsome : PyStr.ofString "reply" ≠ PyStr.ofString "none" := by decide
  have hnil : PyStr.ofString "reply" ≠ [] := by decide
  have hnone : ([] : PyStr) ≠ PyStr.ofString "none" := by decide
  unfold modeSaid
  cases get? raw "mode" with
  | none => simp only [Option.getD, normalizeMode, checkMode, hstrip, hreply, hsome, hnil, if_false]
  | some value =>
    cases value with
    | str s =>
      simp only [Option.getD, normalizeMode]
      by_cases hempty : py.lower s.strip = []
      · simp only [hempty, hnone, if_true, if_false, checkMode, hsome]
      · simp only [hempty, if_false, checkMode]
    | null => simp only [Option.getD, normalizeMode, checkMode, hsome, if_false]
    | bool b => rfl
    | int i => rfl
    | float x => rfl
    | arr items => rfl
    | obj fields => rfl

def checkAlert : Option Bool → Except DeliveryContractError Bool
  | none => .error (malformed (PyStr.ofString "delivery.failure_alert must be boolean"))
  | some alert => .ok alert

theorem normalizeBool_said :
    normalizeBool py ((get? raw "failure_alert").getD (.bool true)) "failure_alert" =
      checkAlert (alertSaid py raw) := by
  unfold alertSaid
  cases get? raw "failure_alert" with
  | none => rfl
  | some value =>
    cases value with
    | str s =>
      simp only [Option.getD, normalizeBool]
      split
      · rfl
      · split <;> rfl
    | null => rfl
    | bool b => rfl
    | int i => rfl
    | float x => rfl
    | arr items => rfl
    | obj fields => rfl

theorem isExplicitNoDelivery_said {v : Said} (h : Says py raw v) :
    isExplicitNoDelivery py raw =
      (v.disabled || decide (v.mode = some (PyStr.ofString "none"))) := by
  refine congrArg₂ (· || ·) ?_ ?_
  · have hd := h.disabled
    split
    · rename_i hget
      exact (hd.mpr hget).symm
    · rename_i hne
      exact (Bool.eq_false_iff.mpr fun hv => hne (hd.mp hv)).symm
  · have hsome : PyStr.ofString "reply" ≠ PyStr.ofString "none" := by decide
    have hnone : ([] : PyStr) ≠ PyStr.ofString "none" := by decide
    rw [h.mode, modeSaid]
    cases get? raw "mode" with
    | none => simp [hsome]
    | some value =>
      cases value with
      | str s =>
        by_cases hempty : py.lower s.strip = []
        · simp [hempty, hnone, hsome]
        · simp [hempty]
      | null => simp [hsome]
      | bool b => simp
      | int i => simp
      | float x => simp
      | arr items => simp
      | obj fields => simp

/-! ## Spellings -/

/-- The contract of what a delivery says. -/
def contractSaid (v : Said) : Except DeliveryContractError Contract := do
  let platform ← checkPlatform v.platform
  let mode ← checkMode v.mode
  let failureAlert ← checkAlert v.failureAlert
  match v.targetId with
  | none => .error (malformed (PyStr.ofString "delivery.target_id is required"))
  | some targetId =>
    validatePlatformTarget platform targetId v.threadId mode
    validateOptionalSafeId v.workspaceId "workspace_id"
    validateOptionalSafeId v.accountId "account_id"
    return { platform, targetId, threadId := v.threadId, workspaceId := v.workspaceId,
             accountId := v.accountId, mode, failureAlert }

theorem readContract_said {v : Said} (h : Says py raw v) (ha : Alike py raw platformAliases) :
    readContract py raw = contractSaid v := by
  obtain ⟨said, hnames, hplatform⟩ := h.platform
  unfold readContract contractSaid
  rw [resolvePlatform_alike hnames ha, ← hplatform, resolveAlias_names h.targetId,
    resolveAlias_names h.threadId, resolveAlias_names h.workspaceId,
    resolveAlias_names h.accountId, normalizeMode_said, ← h.mode, normalizeBool_said,
    ← h.failureAlert]
  rfl

theorem readContract_conflict {v : Said} (h : Says py raw v)
    (ha : ¬Alike py raw platformAliases) :
    readContract py raw = .error ⟨"delivery_ambiguous",
      PyStr.ofString "delivery fields conflict: platform, transport"⟩ := by
  obtain ⟨said, hnames, -⟩ := h.platform
  unfold readContract
  rw [resolvePlatform_conflict hnames.texts ha]
  rfl

/-! ### Conflicts come from the aliases only -/

def NoConflict {α : Type} (x : Except DeliveryContractError α) : Prop :=
  ∀ e, x = .error e → e.code ≠ "delivery_ambiguous"

theorem NoConflict.ok {α : Type} (a : α) : NoConflict (.ok a) := by
  intro e h
  cases h

theorem NoConflict.malformed {α : Type} (message : PyStr) :
    NoConflict (α := α) (.error (malformed message)) := by
  intro e h
  cases h
  exact (by decide : "delivery_malformed" ≠ "delivery_ambiguous")

theorem NoConflict.bind {α β : Type} {x : Except DeliveryContractError α}
    {f : α → Except DeliveryContractError β} (hx : NoConflict x) (hf : ∀ a, NoConflict (f a)) :
    NoConflict (x >>= f) := by
  cases x with
  | error e =>
    intro e' h
    cases h
    exact hx e rfl
  | ok a => exact hf a

theorem checkPlatform_noConflict (p : Option PyStr) : NoConflict (checkPlatform p) := by
  cases p with
  | none => exact .malformed _
  | some p =>
    rw [checkPlatform]
    split
    · intro e h
      cases h
      exact (by decide : "delivery_unsupported" ≠ "delivery_ambiguous")
    · exact .ok _

theorem checkMode_noConflict (mode : Option PyStr) : NoConflict (checkMode mode) := by
  cases mode with
  | none => exact .malformed _
  | some mode =>
    rw [checkMode]
    split
    · exact .malformed _
    · exact .ok _

theorem checkAlert_noConflict (alert : Option Bool) : NoConflict (checkAlert alert) := by
  cases alert with
  | none => exact .malformed _
  | some alert => exact .ok _

theorem validateMode_noConflict (mode : PyStr) : NoConflict (validateModeForScheduler mode) := by
  unfold validateModeForScheduler
  split
  · exact .ok _
  · exact .malformed _

theorem validatePlatformTarget_noConflict (platform targetId : PyStr) (threadId : Option PyStr)
    (mode : PyStr) : NoConflict (validatePlatformTarget platform targetId threadId mode) := by
  unfold validatePlatformTarget
  split
  · split
    · exact .malformed _
    · split
      · exact .malformed _
      · exact validateMode_noConflict mode
  · split
    · split
      · exact .ok _
      · split
        · exact .malformed _
        · exact validateMode_noConflict mode
    · cases transportOf? platform with
      | none => exact .malformed _
      | some transport =>
        simp only
        cases parseTarget transport targetId threadId mode with
        | error message => exact .malformed _
        | ok u => exact .ok _

theorem validateOptionalSafeId_noConflict (value : Option PyStr) (fieldName : String) :
    NoConflict (validateOptionalSafeId value fieldName) := by
  unfold validateOptionalSafeId
  split
  · exact .malformed _
  · exact .ok _

theorem contractSaid_noConflict (v : Said) : NoConflict (contractSaid v) := by
  unfold contractSaid
  refine .bind (checkPlatform_noConflict _) fun platform => ?_
  refine .bind (checkMode_noConflict _) fun mode => ?_
  refine .bind (checkAlert_noConflict _) fun alert => ?_
  cases v.targetId with
  | none => exact .malformed _
  | some targetId =>
    refine .bind (validatePlatformTarget_noConflict _ _ _ _) fun _ => ?_
    refine .bind (validateOptionalSafeId_noConflict _ _) fun _ => ?_
    exact .bind (validateOptionalSafeId_noConflict _ _) fun _ => .ok _

end Readers

section Spelling
variable {py} {raw raw' : Fields φ} {v : Said}

/-- Two spellings of one delivery normalize alike, unless just one of them spells its platform in
two ways. -/
theorem normalize_spellings (h : Says py raw v) (h' : Says py raw' v) :
    normalizeScheduleDelivery py (.obj raw) = normalizeScheduleDelivery py (.obj raw') ↔
      isExplicitNoDelivery py raw = true ∨
        (Alike py raw platformAliases ↔ Alike py raw' platformAliases) := by
  have hsame : isExplicitNoDelivery py raw' = isExplicitNoDelivery py raw := by
    rw [isExplicitNoDelivery_said h, isExplicitNoDelivery_said h']
  unfold normalizeScheduleDelivery
  simp only [hsame]
  cases isExplicitNoDelivery py raw with
  | true => simp
  | false =>
    have hdiffer : ∀ e : DeliveryContractError, e.code = "delivery_ambiguous" →
        ((contractSaid v).map fun c => Json.obj (φ := φ) c.fields) ≠
          (Except.error e).map fun c : Contract => Json.obj c.fields := by
      intro e he heq
      have hno := contractSaid_noConflict v
      cases hs : contractSaid v with
      | ok c =>
        rw [hs] at heq
        cases heq
      | error e' =>
        rw [hs] at heq
        cases heq
        exact hno e hs he
    simp only [Bool.false_eq_true, if_false, false_or]
    by_cases ha : Alike py raw platformAliases <;> by_cases ha' : Alike py raw' platformAliases
    · rw [readContract_said h ha, readContract_said h' ha']
      simp only [ha, ha']
    · rw [readContract_said h ha, readContract_conflict h' ha']
      simp only [ha, ha', iff_false, not_true]
      exact hdiffer ⟨"delivery_ambiguous", _⟩ rfl
    · rw [readContract_conflict h ha, readContract_said h' ha']
      simp only [ha, ha', iff_true]
      exact iff_of_false (Ne.symm (hdiffer ⟨"delivery_ambiguous", _⟩ rfl)) id
    · rw [readContract_conflict h ha, readContract_conflict h' ha']
      simp only [ha, ha']

end Spelling

/-- Normalizing is a projection, and it forgets how a delivery was spelled. -/
theorem delivery_projection :
    (∀ value d : Json φ, normalizeScheduleDelivery py value = .ok d →
      normalizeScheduleDelivery py d = .ok d) ∧
    ∀ (raw raw' : Fields φ) (v : Said), Says py raw v → Says py raw' v →
      (normalizeScheduleDelivery py (.obj raw) = normalizeScheduleDelivery py (.obj raw') ↔
        isExplicitNoDelivery py raw = true ∨
          (Alike py raw platformAliases ↔ Alike py raw' platformAliases)) :=
  ⟨fun _ _ h => normalize_normalized h, fun _ _ _ h h' => normalize_spellings h h'⟩

/-! ## One platform in two cases -/

/-- `{"platform": "slack", "target_id": "C0123ABCD"}`. -/
def slackOnce : Fields Empty :=
  [field "platform" (.str (PyStr.ofString "slack")),
    field "target_id" (.str (PyStr.ofString "C0123ABCD"))]

/-- `{"transport": " Slack", "channel_id": "C0123ABCD ", "mode": "Reply"}`. -/
def slackLoose : Fields Empty :=
  [field "transport" (.str (PyStr.ofString " Slack")),
    field "channel_id" (.str (PyStr.ofString "C0123ABCD ")),
    field "mode" (.str (PyStr.ofString "Reply"))]

/-- `{"platform": "slack", "transport": "Slack", "target_id": "C0123ABCD"}`. -/
def slackTwice : Fields Empty :=
  field "transport" (.str (PyStr.ofString "Slack")) :: slackOnce

def slackSaid : Said where
  disabled := false
  platform := some (PyStr.ofString "slack")
  targetId := some (PyStr.ofString "C0123ABCD")
  threadId := none
  workspaceId := none
  accountId := none
  mode := some (PyStr.ofString "reply")
  failureAlert := some true

theorem texts_of_strings {raw : Fields φ} {keys : List String}
    (h : ∀ f ∈ raw, ∃ s, f.2 = .str s) : Texts raw keys := by
  intro key _ b hget
  unfold get? at hget
  obtain ⟨f, hf, hbool⟩ := Option.map_eq_some_iff.mp hget
  obtain ⟨s, hs⟩ := h f (List.mem_of_find?_eq_some hf)
  rw [hs] at hbool
  cases hbool

/-- A delivery to Slack that only writes texts. -/
theorem says_slack {raw : Fields Empty} {n m : ℕ} (h : ∀ f ∈ raw, ∃ s, f.2 = .str s)
    (hp : (carriedValues asciiInterpreter raw platformAliases).map
      (fun v => canonicalPlatform asciiInterpreter v.2) =
        List.replicate (n + 1) (PyStr.ofString "slack"))
    (ht : (carriedValues asciiInterpreter raw targetAliases).map (fun v => id v.2) =
      List.replicate (m + 1) (PyStr.ofString "C0123ABCD"))
    (hrest : ∀ keys ∈ [threadAliases, ["workspace_id", "team_id"], ["account_id"]],
      carriedValues asciiInterpreter raw keys = [])
    (henabled : get? raw "enabled" = none)
    (hmode : modeSaid asciiInterpreter raw = some (PyStr.ofString "reply"))
    (halert : alertSaid asciiInterpreter raw = some true) :
    Says asciiInterpreter raw slackSaid where
  disabled := by simp [slackSaid, henabled]
  platform := ⟨some (PyStr.ofString "slack"), names_some (texts_of_strings h) hp, rfl⟩
  targetId := names_some (texts_of_strings h) ht
  threadId := names_none (texts_of_strings h) (hrest _ (by simp))
  workspaceId := names_none (texts_of_strings h) (hrest _ (by simp))
  accountId := names_none (texts_of_strings h) (hrest _ (by simp))
  mode := hmode.symm
  failureAlert := halert.symm

theorem slackOnce_said : Says asciiInterpreter slackOnce slackSaid :=
  says_slack (n := 0) (m := 0) (by simp [slackOnce, field]) (by decide) (by decide) (by decide) rfl
    (by decide) (by decide)

theorem slackLoose_said : Says asciiInterpreter slackLoose slackSaid :=
  says_slack (n := 0) (m := 0) (by simp [slackLoose, field]) (by decide) (by decide) (by decide) rfl
    (by decide) (by decide)

theorem slackTwice_said : Says asciiInterpreter slackTwice slackSaid :=
  says_slack (n := 1) (m := 0) (by simp [slackTwice, slackOnce, field]) (by decide) (by decide)
    (by decide) rfl (by decide) (by decide)

theorem slackOnce_alike : Alike asciiInterpreter slackOnce platformAliases := by
  rw [alike_platform]
  decide

theorem slackLoose_alike : Alike asciiInterpreter slackLoose platformAliases := by
  rw [alike_platform]
  decide

/-- The same platform in two cases is refused as a conflict. -/
theorem slack_in_two_cases :
    Says asciiInterpreter slackOnce slackSaid ∧ Says asciiInterpreter slackTwice slackSaid ∧
      normalizeScheduleDelivery asciiInterpreter (.obj slackOnce) ≠
        normalizeScheduleDelivery asciiInterpreter (.obj slackTwice) := by
  refine ⟨slackOnce_said, slackTwice_said, fun h => ?_⟩
  rcases (normalize_spellings slackOnce_said slackTwice_said).mp h with hnone | halike
  · exact absurd hnone (by decide)
  · have htwice := halike.mp slackOnce_alike
    rw [alike_platform] at htwice
    exact absurd htwice (by decide)

def slackContract : Contract where
  platform := PyStr.ofString "slack"
  targetId := PyStr.ofString "C0123ABCD"
  threadId := none
  workspaceId := none
  accountId := none
  mode := PyStr.ofString "reply"
  failureAlert := true

theorem slack_spellings :
    normalizeScheduleDelivery asciiInterpreter (.obj slackContract.fields) =
        .ok (.obj slackContract.fields) ∧
      normalizeScheduleDelivery asciiInterpreter (.obj slackOnce) =
        normalizeScheduleDelivery asciiInterpreter (.obj slackLoose) :=
  ⟨(delivery_projection asciiInterpreter).1 (.obj slackOnce) _ rfl,
    ((delivery_projection asciiInterpreter).2 _ _ _ slackOnce_said slackLoose_said).mpr
      (.inr (iff_of_true slackOnce_alike slackLoose_alike))⟩

end OpenClaw.DeliveryContract
