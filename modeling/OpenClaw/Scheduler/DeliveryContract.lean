import OpenClaw.Foundation.PyText

/-!
# The schedule delivery contract

`normalize_schedule_delivery` of `services/scheduler/delivery_contract.py` with the target
patterns of `services/chatops/targets.py`. All texts are stripped before a pattern sees them, so
the line end that `$` tolerates cannot occur.
-/

namespace OpenClaw.DeliveryContract

open Foundation
set_option autoImplicit false

/-- The ASCII part of `str.lower`. -/
def lowerUnit (u : CodeUnit) : CodeUnit := if 65 ≤ u.val ∧ u.val ≤ 90 then u + 32 else u

/-- What the interpreter decides by its float format and its Unicode tables: float texts and
comparisons, the text of a list or a dictionary, and lower case. -/
structure Interpreter (φ : Type) where
  floatRepr : φ → List Char
  floatStr : φ → PyStr
  floatTruthy : φ → Bool
  floatLess : φ → ℤ → Bool
  floatGreater : φ → ℤ → Bool
  containerStr : Json φ → PyStr
  lower : PyStr → PyStr
  lower_ascii : ∀ s : PyStr, (∀ u ∈ s, u.val < 128) → lower s = s.map lowerUnit
  lower_settled : ∀ s : PyStr, lower (lower s.strip).strip = lower s.strip

structure DeliveryContractError where
  code : String
  message : PyStr
  deriving DecidableEq

def malformed (message : PyStr) : DeliveryContractError := ⟨"delivery_malformed", message⟩

def supportedPlatforms : List PyStr :=
  ["custom", "discord", "feishu", "lark", "slack", "telegram", "webhook"].map PyStr.ofString

def schedulerModes : List PyStr := ["reply", "new_thread", "dm", "broadcast"].map PyStr.ofString

variable {φ : Type} (py : Interpreter φ)

abbrev Fields (φ : Type) := List (PyStr × Json φ)

/-- `raw.get(key)`. -/
def get? (raw : Fields φ) (key : String) : Option (Json φ) :=
  (raw.find? fun f => f.1 = PyStr.ofString key).map Prod.snd

/-- `str(value)`, of a value other than `None` and the booleans. -/
def strOf : Json φ → PyStr
  | .str s => s
  | .int i => PyStr.ofList (Json.showInt i)
  | .float x => py.floatStr x
  | j => py.containerStr j

def isExplicitNoDelivery (raw : Fields φ) : Bool :=
  (match get? raw "enabled" with
    | some (.bool false) => true
    | _ => false) ||
  match get? raw "mode" with
    | some (.str mode) => decide (py.lower mode.strip = PyStr.ofString "none")
    | _ => false

/-- The aliases that carry a text, in order. -/
def aliasValues (raw : Fields φ) :
    List String → Except DeliveryContractError (List (String × PyStr))
  | [] => .ok []
  | key :: keys =>
    match get? raw key with
    | none => aliasValues raw keys
    | some .null => aliasValues raw keys
    | some (.bool _) => .error (malformed (PyStr.ofString s!"delivery.{key} must be a string"))
    | some value =>
      let text := (strOf py value).strip
      if text = [] then aliasValues raw keys
      else (aliasValues raw keys).map ((key, text) :: ·)

def resolveAlias (raw : Fields φ) (aliases : List String) :
    Except DeliveryContractError (Option PyStr) :=
  match aliasValues py raw aliases with
  | .error e => .error e
  | .ok [] => .ok none
  | .ok ((key, text) :: rest) =>
    if ∀ v ∈ rest, v.2 = text then .ok (some text)
    else .error ⟨"delivery_ambiguous", PyStr.ofString
      ("delivery fields conflict: " ++ ", ".intercalate (key :: rest.map Prod.fst))⟩

def resolvePlatform (raw : Fields φ) : Except DeliveryContractError PyStr :=
  match resolveAlias py raw ["platform", "transport"] with
  | .error e => .error e
  | .ok found =>
    let platform := match found with
      | some p => some p
      | none => if (get? raw "url").isSome then some (PyStr.ofString "webhook") else none
    match platform with
    | none => .error (malformed (PyStr.ofString "delivery.platform is required"))
    | some p =>
      let p := py.lower p
      if p ∉ supportedPlatforms then
        .error ⟨"delivery_unsupported", PyStr.ofString "unsupported delivery platform: " ++ p⟩
      else if p = PyStr.ofString "lark" then .ok (PyStr.ofString "feishu")
      else .ok p

def normalizeMode : Json φ → Except DeliveryContractError PyStr
  | .null => .ok (PyStr.ofString "reply")
  | .str value =>
    let mode := py.lower value.strip
    if mode = PyStr.ofString "none" then
      .error (malformed (PyStr.ofString
        "delivery.mode=none must be represented as explicit no-delivery"))
    else if mode = [] then .ok (PyStr.ofString "reply")
    else .ok mode
  | _ => .error (malformed (PyStr.ofString "delivery.mode must be a string"))

def trueTexts : List PyStr := ["1", "true", "yes", "on"].map PyStr.ofString
def falseTexts : List PyStr := ["0", "false", "no", "off"].map PyStr.ofString

def normalizeBool (value : Json φ) (fieldName : String) : Except DeliveryContractError Bool :=
  let wrong := malformed (PyStr.ofString s!"delivery.{fieldName} must be boolean")
  match value with
  | .bool b => .ok b
  | .str s =>
    let text := py.lower s.strip
    if text ∈ trueTexts then .ok true
    else if text ∈ falseTexts then .ok false
    else .error wrong
  | _ => .error wrong

/-! ## Patterns -/

/-- A class of code points repeated `lo` to `hi` times. -/
def repeated (p : ℕ → Bool) (lo hi : ℕ) (cs : List ℕ) : Bool :=
  decide (lo ≤ cs.length ∧ cs.length ≤ hi) && cs.all p

def isUpperOrDigit (n : ℕ) : Bool := decide ((65 ≤ n ∧ n ≤ 90) ∨ (48 ≤ n ∧ n ≤ 57))

def isAlnum (n : ℕ) : Bool := isUpperOrDigit n || decide (97 ≤ n ∧ n ≤ 122)

/-- Letters, digits and the given punctuation. -/
def wordClass (extra : List Char) (n : ℕ) : Bool := isAlnum n || (extra.map Char.toNat).contains n

def isDecimal (n : ℕ) : Bool := (PyText.decimalCode? n).isSome

def safeIdPattern : List ℕ → Bool := repeated (wordClass ['_', '.', ':', '@', '/', '-']) 1 200
def feishuTargetPattern : List ℕ → Bool := repeated (wordClass ['_', '-']) 1 128
def feishuThreadPattern : List ℕ → Bool := repeated (wordClass ['_', '.', '-']) 1 128
def webhookSafeTargetPattern : List ℕ → Bool := repeated (wordClass ['_', '.', '-']) 1 128
def customPattern : List ℕ → Bool := repeated (wordClass ['_', '.', '-']) 1 128
def snowflakePattern : List ℕ → Bool := repeated isDecimal 17 20
def slackTargetPattern : List ℕ → Bool := repeated isUpperOrDigit 9 12

def telegramTargetPattern : List ℕ → Bool
  | 45 :: cs => repeated isDecimal 1 15 cs
  | cs => repeated isDecimal 1 15 cs

def telegramThreadPattern : List ℕ → Bool := repeated isDecimal 1 10

def slackThreadPattern (cs : List ℕ) : Bool :=
  repeated isDecimal 10 13 (cs.takeWhile isDecimal) &&
    match cs.dropWhile isDecimal with
    | 46 :: rest => repeated isDecimal 6 6 rest
    | _ => false

inductive TransportType where
  | webhook | discord | slack | telegram | custom
  deriving DecidableEq

def TransportType.value : TransportType → String
  | .webhook => "webhook"
  | .discord => "discord"
  | .slack => "slack"
  | .telegram => "telegram"
  | .custom => "custom"

/-- `TransportType(platform)`, which the contract only asks for these four. -/
def transportOf? (platform : PyStr) : Option TransportType :=
  [TransportType.discord, .slack, .telegram, .custom].find? fun t =>
    PyStr.ofString t.value = platform

def targetPattern : TransportType → List ℕ → Bool
  | .discord => snowflakePattern
  | .slack => slackTargetPattern
  | .telegram => telegramTargetPattern
  | .custom => customPattern
  | .webhook => fun _ => false

def threadPattern : TransportType → List ℕ → Bool
  | .discord => snowflakePattern
  | .slack => slackThreadPattern
  | .telegram => telegramThreadPattern
  | .custom => customPattern
  | .webhook => fun _ => false

/-- `parse_target`, as far as it refuses; the messages are those of `TargetValidationError`. -/
def parseTarget (transport : TransportType) (targetId : PyStr) (threadId : Option PyStr)
    (mode : PyStr) : Except PyStr Unit :=
  if targetPattern transport targetId.codePoints = false then
    .error (PyStr.ofString s!"Invalid target ID format for {transport.value}: " ++
      targetId.takePoints 20 ++ PyStr.ofString "...")
  else if ∃ t ∈ threadId, threadPattern transport t.codePoints = false then
    .error (PyStr.ofString s!"Invalid thread ID format for {transport.value}: " ++
      (threadId.getD []).takePoints 20 ++ PyStr.ofString "...")
  else if mode ∉ schedulerModes then .error (PyStr.ofString "Invalid delivery mode: " ++ mode)
  else .ok ()

def validateModeForScheduler (mode : PyStr) : Except DeliveryContractError Unit :=
  if mode ∈ schedulerModes then .ok ()
  else .error (malformed (PyStr.ofString "invalid delivery.mode: " ++ mode))

def validatePlatformTarget (platform targetId : PyStr) (threadId : Option PyStr) (mode : PyStr) :
    Except DeliveryContractError Unit :=
  if platform = PyStr.ofString "feishu" then
    if feishuTargetPattern targetId.codePoints = false then
      .error (malformed (PyStr.ofString "invalid delivery.target_id for feishu"))
    else if ∃ t ∈ threadId, feishuThreadPattern t.codePoints = false then
      .error (malformed (PyStr.ofString "invalid delivery.thread_id for feishu"))
    else validateModeForScheduler mode
  else if platform = PyStr.ofString "webhook" then
    -- a URL returns before the mode and the thread are looked at
    if PyStr.ofString "http://" <+: targetId ∨ PyStr.ofString "https://" <+: targetId then .ok ()
    else if webhookSafeTargetPattern targetId.codePoints = false then
      .error (malformed (PyStr.ofString "invalid delivery.target_id for webhook"))
    else validateModeForScheduler mode
  else
    match transportOf? platform with
    | none => .error (malformed (PyStr.ofString "'" ++ platform ++
        PyStr.ofString "' is not a valid TransportType"))
    | some transport =>
      match parseTarget transport targetId threadId mode with
      | .error message => .error (malformed message)
      | .ok () => .ok ()

def validateOptionalSafeId (value : Option PyStr) (fieldName : String) :
    Except DeliveryContractError Unit :=
  if ∃ v ∈ value, safeIdPattern v.codePoints = false then
    .error (malformed (PyStr.ofString s!"invalid delivery.{fieldName}"))
  else .ok ()

/-! ## The contract -/

/-- A delivery that names its target. -/
structure Contract where
  platform : PyStr
  targetId : PyStr
  threadId : Option PyStr
  workspaceId : Option PyStr
  accountId : Option PyStr
  mode : PyStr
  failureAlert : Bool
  deriving DecidableEq

def field (key : String) (value : Json φ) : PyStr × Json φ := (PyStr.ofString key, value)

def optionalField (key : String) (value : Option PyStr) : Fields φ :=
  value.toList.map fun v => field key (.str v)

/-- The canonical persisted form. -/
def Contract.fields (c : Contract) : Fields φ :=
  [field "enabled" (.bool true), field "platform" (.str c.platform),
      field "target_id" (.str c.targetId)] ++
    optionalField "thread_id" c.threadId ++ optionalField "workspace_id" c.workspaceId ++
    optionalField "account_id" c.accountId ++
    [field "mode" (.str c.mode), field "failure_alert" (.bool c.failureAlert)]

def noDelivery : Fields φ :=
  [field "enabled" (.bool false), field "mode" (.str (PyStr.ofString "none"))]

def targetAliases : List String :=
  ["target_id", "channel_id", "chat_id", "room_id", "callback_url", "url"]

def threadAliases : List String := ["thread_id", "thread_ts", "message_thread_id", "topic_id"]

/-- The checks of `normalize_schedule_delivery` once the delivery is not an explicit none. -/
def readContract (raw : Fields φ) : Except DeliveryContractError Contract := do
  let platform ← resolvePlatform py raw
  let targetId ← resolveAlias py raw targetAliases
  let threadId ← resolveAlias py raw threadAliases
  let workspaceId ← resolveAlias py raw ["workspace_id", "team_id"]
  let accountId ← resolveAlias py raw ["account_id"]
  let mode ← normalizeMode py ((get? raw "mode").getD (.str (PyStr.ofString "reply")))
  let failureAlert ← normalizeBool py ((get? raw "failure_alert").getD (.bool true))
    "failure_alert"
  match targetId with
  | none => .error (malformed (PyStr.ofString "delivery.target_id is required"))
  | some targetId =>
    validatePlatformTarget platform targetId threadId mode
    validateOptionalSafeId workspaceId "workspace_id"
    validateOptionalSafeId accountId "account_id"
    return { platform, targetId, threadId, workspaceId, accountId, mode, failureAlert }

/-- `None` is `null`. -/
def normalizeScheduleDelivery : Json φ → Except DeliveryContractError (Json φ)
  | .null => .ok .null
  | .obj raw =>
    if isExplicitNoDelivery py raw then .ok (.obj noDelivery)
    else (readContract py raw).map fun c => .obj c.fields
  | _ => .error (malformed (PyStr.ofString "delivery must be an object"))

end OpenClaw.DeliveryContract
