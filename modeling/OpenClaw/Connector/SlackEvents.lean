import Mathlib.Data.List.Infix
import OpenClaw.Connector.SecurityProfile
import OpenClaw.Foundation.Checks
import OpenClaw.Foundation.Table

/-!
# Slack events

`process_event_payload` of `connector/platforms/slack_ingress_handlers.py` up to the call of the
router, with `_get_bot_user_id` and `extract_workspace_id`. What the replay guard, the installation
registry and `float` answer is an input. The mention that a group channel requires is only asked for
when the bot's own id is known.
-/

namespace OpenClaw.Connector.Slack

open Foundation
set_option autoImplicit false

abbrev Fields (φ : Type) := List (PyStr × Json φ)

inductive Raised where
  | attributeError
  | typeError
  | valueError (message : String)
  deriving DecidableEq

/-- What the server asks of others. -/
structure SlackHost (φ : Type) where
  py : PyInterpreter φ
  /-- `_replay_guard.check_and_record(event_id)`. -/
  checkAndRecord : Json φ → Except Raised Bool
  /-- The bot of the installation that a workspace resolves to, or the empty string. -/
  installedBot : PyStr → Except Raised PyStr
  /-- `float(message_ts)`. -/
  floatOf : Json φ → Except Raised φ
  now : φ

structure SlackServer where
  slackRequireMention : Bool := true
  slackReplyInThread : Bool := true
  userAllowlist : AllowlistPolicy
  channelAllowlist : AllowlistPolicy

/-- What is known of the bot's own ids. -/
structure BotIdentity where
  botUserId : Option PyStr
  botUserIds : List (PyStr × PyStr)

structure CommandRequest (φ : Type) where
  senderId : Json φ
  channelId : PyStr
  messageId : Json φ
  text : PyStr
  timestamp : φ
  workspaceId : PyStr
  threadId : Json φ

inductive Outcome (φ : Type) where
  | ignored
  | lifecycle (workspaceId : PyStr) (eventType : Json φ)
  | routed (request : CommandRequest φ)

variable {φ : Type}

/-- `fields.get(key, other)`. -/
def getOr (fields : Fields φ) (key : String) (other : Json φ) : Json φ :=
  ((fields.find? fun f => f.1 = PyStr.ofString key).map Prod.snd).getD other

def text (s : String) : Json φ := .str (PyStr.ofString s)

/-- `value == s`. -/
def isText (s : PyStr) : Json φ → Bool
  | .str t => decide (t = s)
  | _ => false

def isOneOf (names : List String) (j : Json φ) : Bool :=
  names.any fun name => isText (PyStr.ofString name) j

/-- A string method of a value that has to be a string. -/
def asStr : Json φ → Except Raised PyStr
  | .str s => .ok s
  | _ => .error .attributeError

def asDict : Json φ → Except Raised (Fields φ)
  | .obj fields => .ok fields
  | _ => .error .attributeError

section Process
variable (host : SlackHost φ)

/-- `(value or {}).get(key, "")`. -/
def getOfFirst (value : Json φ) (key : String) : Except Raised (Json φ) :=
  if value.truthy host.py then (asDict value).map fun fields => getOr fields key (text "")
  else .ok (text "")

/-- A field of the first authorization of a payload. -/
def authorizationField (payload : Fields φ) (key : String) : Except Raised (Json φ) :=
  match getOr payload "authorizations" .null with
  | .arr (first :: _) => getOfFirst host first key
  | _ => .ok (text "")

/-- `str(value or "").strip()`. -/
def strOrEmpty (value : Json φ) : PyStr :=
  if value.truthy host.py then (value.toStr host.py).strip else []

def teamWorkspace? (payload : Fields φ) : Option PyStr :=
  match getOr payload "team_id" .null with
  | .str s =>
    if s ≠ [] then some s.strip
    else none
  | _ => none

def teamObject? (payload : Fields φ) : Option PyStr :=
  match getOr payload "team" .null with
  | .obj team =>
    let id := getOr team "id" .null
    if id.truthy host.py then some (id.toStr host.py).strip else none
  | _ => none

def extractWorkspaceId (payload event : Fields φ) : Except Raised PyStr :=
  match teamWorkspace? payload with
  | some s => .ok s
  | none =>
    match teamObject? host payload with
    | some s => .ok s
    | none => do
      let teamId ← authorizationField host payload "team_id"
      let found := (teamId.toStr host.py).strip
      if found ≠ [] then return found
      else return strOrEmpty host (getOr event "team" (text ""))

/-- What is found out about the bot goes into the caches. -/
def getBotUserId (known : BotIdentity) (payload : Fields φ) (workspaceId : PyStr) :
    Except Raised (PyStr × BotIdentity) :=
  match known.botUserIds.find? fun e => workspaceId ≠ [] ∧ e.1 = workspaceId with
  | some e => .ok (e.2, known)
  | none =>
    if known.botUserId.getD [] ≠ [] then .ok (known.botUserId.getD [], known)
    else do
      let candidate := strOrEmpty host (← authorizationField host payload "user_id")
      if candidate ≠ [] then
        return (candidate, {
          botUserId := some candidate
          botUserIds :=
            if workspaceId = [] then known.botUserIds
            else replaceRow Prod.fst (workspaceId, candidate) known.botUserIds })
      else if workspaceId = [] then return ([], known)
      else
        let installed ← host.installedBot workspaceId
        if installed = [] then return ([], known)
        else return (installed, {
          botUserId := some (known.botUserId.getD installed)
          botUserIds := replaceRow Prod.fst (workspaceId, installed) known.botUserIds })

/-- `<@id>`. -/
def mention (botUserId : PyStr) : PyStr :=
  PyStr.ofString "<@" ++ botUserId ++ PyStr.ofString ">"

/-- `s.replace(needle, "")`; the first number counts what is left of an occurrence. -/
def removeAll (needle : PyStr) : ℕ → PyStr → PyStr
  | _, [] => []
  | skip + 1, _ :: s => removeAll needle skip s
  | 0, u :: s =>
    if needle <+: u :: s then removeAll needle (needle.length - 1) s
    else u :: removeAll needle 0 s

/-- Whether an allowlist that is configured stands in the way. -/
def denies (policy : AllowlistPolicy) (identifier : Json φ) : Except Raised Bool :=
  if policy.entries = [] then .ok false
  else (asStr identifier).map fun s => decide ((policy.evaluate host.py s).decision = .deny)

/-- An empty channel id is not looked up. -/
def deniesChannel (policy : AllowlistPolicy) (channelId : PyStr) : Except Raised Bool :=
  if channelId = [] then .ok false else denies host policy (.str channelId)

def timestampOf (messageTs : Json φ) : Except Raised φ :=
  if messageTs.truthy host.py then host.floatOf messageTs else .ok host.now

/-- Steps 6 to 9, for an event that is new. -/
def routeEvent (server : SlackServer) (event : Fields φ) (eventId : Json φ) (workspaceId : PyStr)
    (botUserId : PyStr) : Except Raised (Outcome φ) := do
  let eventType := getOr event "type" (text "")
  let senderId := getOr event "user" (text "")
  if senderId.truthy host.py ∧ botUserId ≠ [] ∧ isText botUserId senderId then return .ignored
  if (getOr event "bot_id" .null).truthy host.py then return .ignored
  let subtype := getOr event "subtype" (text "")
  if subtype.truthy host.py ∧ isOneOf ["", "file_share"] subtype = false then return .ignored
  let stripped := (← asStr (getOr event "text" (text ""))).strip
  if isOneOf ["message", "app_mention"] eventType = false then return .ignored
  if stripped = [] ∨ senderId.truthy host.py = false then return .ignored
  let channelId ← asStr (getOr event "channel" (text ""))
  let isDm := PyStr.ofString "D" <+: channelId
  if ¬isDm ∧ server.slackRequireMention ∧ isOneOf ["app_mention"] eventType = false ∧
      botUserId ≠ [] ∧ ¬mention botUserId <:+: stripped then
    return .ignored
  let command :=
    if botUserId ≠ [] then (removeAll (mention botUserId) 0 stripped).strip else stripped
  if ← denies host server.userAllowlist senderId then return .ignored
  if ← deniesChannel host server.channelAllowlist channelId then return .ignored
  let messageTs := getOr event "ts" (text "")
  let threadTs := getOr event "thread_ts" (text "")
  let timestamp ← timestampOf host messageTs
  return .routed {
    senderId, channelId
    messageId := eventId
    text := command
    timestamp, workspaceId
    threadId :=
      if threadTs.truthy host.py then threadTs
      else if server.slackReplyInThread then messageTs else text "" }

def lifecycleEvents : List String := ["app_uninstalled", "tokens_revoked", "app_rate_limited"]

/-- The outcome, and what is known of the bot from then on. -/
def processEventPayload (server : SlackServer) (known : BotIdentity) (payload : Fields φ) :
    Except Raised (Outcome φ) × BotIdentity :=
  if isOneOf ["event_callback"] (getOr payload "type" .null) = false then (.ok .ignored, known)
  else
    let prepared : Except Raised (Fields φ × PyStr) := do
      let event ← asDict (getOr payload "event" (.obj []))
      let workspaceId ← extractWorkspaceId host payload event
      return (event, workspaceId)
    match prepared with
    | .error e => (.error e, known)
    | .ok (event, workspaceId) =>
      let eventType := getOr event "type" (text "")
      let eventId := getOr payload "event_id" (text "")
      if isOneOf lifecycleEvents eventType then
        (.ok (if workspaceId = [] then .ignored else .lifecycle workspaceId eventType), known)
      else if eventId.truthy host.py = false then (.error (.valueError "Missing event_id"), known)
      else
        match host.checkAndRecord eventId with
        | .error e => (.error e, known)
        | .ok false => (.ok .ignored, known)
        | .ok true =>
          match getBotUserId host known payload workspaceId with
          | .error e => (.error e, known)
          | .ok (botUserId, known) =>
            (routeEvent host server event eventId workspaceId botUserId, known)

end Process

/-! ## What the router is given -/

section Routing
variable (host : SlackHost φ) (server : SlackServer)

/-- An event that every check but that of the mention lets through. -/
structure Routable (event : Fields φ) (botUserId : PyStr) : Prop where
  typed : isOneOf ["message", "app_mention"] (getOr event "type" (text "")) = true
  sender : (getOr event "user" (text "")).truthy host.py = true
  notItself : ¬(botUserId ≠ [] ∧ isText botUserId (getOr event "user" (text "")) = true)
  notBot : (getOr event "bot_id" .null).truthy host.py = false
  plain : (getOr event "subtype" (text "")).truthy host.py = true →
    isOneOf ["", "file_share"] (getOr event "subtype" (text "")) = true
  said : ∃ s, getOr event "text" (text "") = .str s ∧ s.strip ≠ []
  userAllowed : denies host server.userAllowlist (getOr event "user" (text "")) = .ok false
  channelAllowed : ∃ c, getOr event "channel" (text "") = .str c ∧
    deniesChannel host server.channelAllowlist c = .ok false
  timed : ∃ t, timestampOf host (getOr event "ts" (text "")) = .ok t

/-- From a channel other than a direct message. -/
def FromChannel (event : Fields φ) : Prop :=
  ∀ c, getOr event "channel" (text "") = .str c → ¬PyStr.ofString "D" <+: c

def IsAppMention (event : Fields φ) : Prop :=
  isOneOf ["app_mention"] (getOr event "type" (text "")) = true

/-- The text names the bot, whose id is known. -/
def NamesBot (event : Fields φ) (botUserId : PyStr) : Prop :=
  botUserId ≠ [] ∧ ∃ s, getOr event "text" (text "") = .str s ∧ mention botUserId <:+: s.strip

variable {host server} {event : Fields φ} {eventId : Json φ} {workspaceId botUserId : PyStr}

theorem asStr_ok {j : Json φ} {s : PyStr} (h : asStr j = .ok s) : j = .str s := by
  cases j <;> cases h
  rfl

/-- The mention check does not stop the event. -/
def MentionPasses (server : SlackServer) (event : Fields φ) (botUserId : PyStr) : Prop :=
  FromChannel event → server.slackRequireMention = true →
    IsAppMention event ∨ botUserId = [] ∨ NamesBot event botUserId

theorem routable_of_routed {request : CommandRequest φ}
    (h : routeEvent host server event eventId workspaceId botUserId = .ok (.routed request)) :
    Routable host server event botUserId ∧ MentionPasses server event botUserId := by
  unfold routeEvent at h
  simp only at h
  split at h
  · cases h
  rename_i hself
  split at h
  · cases h
  rename_i hbot
  split at h
  · cases h
  rename_i hsubtype
  obtain ⟨said, hsaid, h⟩ := bind_eq_ok h
  split at h
  · cases h
  rename_i htyped
  split at h
  · cases h
  rename_i hnone
  obtain ⟨channel, hchannel, h⟩ := bind_eq_ok h
  split at h
  · cases h
  rename_i hmention
  obtain ⟨deniedUser, huser, h⟩ := bind_eq_ok h
  split at h
  · cases h
  rename_i hdenied
  obtain ⟨deniedChannel, hchan, h⟩ := bind_eq_ok h
  split at h
  · cases h
  rename_i hdenied'
  obtain ⟨timestamp, htime, -⟩ := bind_eq_ok h
  rw [Bool.not_eq_true] at hdenied hdenied' hbot
  rw [not_or, Bool.not_eq_false] at hnone
  subst hdenied hdenied'
  refine ⟨⟨?_, hnone.2, ?_, hbot, ?_, ⟨said, asStr_ok hsaid, hnone.1⟩, huser,
    ⟨channel, asStr_ok hchannel, hchan⟩, ⟨timestamp, htime⟩⟩, ?_⟩
  · rwa [Bool.not_eq_false] at htyped
  · exact fun hitself => hself ⟨hnone.2, hitself⟩
  · intro htruthy
    by_contra hplain
    exact hsubtype ⟨htruthy, Bool.eq_false_iff.mpr hplain⟩
  · intro hfrom hrequire
    by_contra hno
    rw [not_or, not_or] at hno
    refine hmention ⟨hfrom channel (asStr_ok hchannel), hrequire, ?_, hno.2.1, fun hinfix => ?_⟩
    · exact Bool.eq_false_iff.mpr hno.1
    · exact hno.2.2 ⟨hno.2.1, said, asStr_ok hsaid, hinfix⟩

theorem routed_of_routable (h : Routable host server event botUserId)
    (hmention : MentionPasses server event botUserId) :
    ∃ request, routeEvent host server event eventId workspaceId botUserId =
      .ok (.routed request) := by
  obtain ⟨said, hsaid, hne⟩ := h.said
  obtain ⟨channel, hchannel, hallowed⟩ := h.channelAllowed
  obtain ⟨timestamp, htime⟩ := h.timed
  unfold routeEvent
  simp only
  rw [if_neg fun hself => h.notItself hself.2, if_neg (by rw [h.notBot]; simp),
    if_neg fun hsub => by rw [h.plain hsub.1] at hsub; exact Bool.noConfusion hsub.2, hsaid]
  simp only [asStr, bind, Except.bind]
  rw [if_neg (by rw [h.typed]; simp), if_neg (by rw [h.sender]; simp [hne]), hchannel]
  simp only
  rw [if_neg ?_, h.userAllowed]
  · simp only [Bool.false_eq_true, if_false, hallowed, htime]
    exact ⟨_, rfl⟩
  · rintro ⟨hdm, hrequire, happ, hid, hinfix⟩
    have hfrom : FromChannel event := by
      intro c hc
      rw [hchannel] at hc
      cases hc
      exact hdm
    rcases hmention hfrom hrequire with happ' | hnil | ⟨_, s, hs, hnames⟩
    · rw [IsAppMention, happ] at happ'
      cases happ'
    · exact hid hnil
    · rw [hsaid] at hs
      cases hs
      exact hinfix hnames

/-- A payload with a new event, and what is known of its workspace and of the bot. -/
structure Arrives (host : SlackHost φ) (known : BotIdentity) (payload event : Fields φ)
    (workspaceId botUserId : PyStr) : Prop where
  callback : isOneOf ["event_callback"] (getOr payload "type" .null) = true
  carried : getOr payload "event" (.obj []) = .obj event
  workspace : extractWorkspaceId host payload event = .ok workspaceId
  living : isOneOf lifecycleEvents (getOr event "type" (text "")) = false
  named : (getOr payload "event_id" (text "")).truthy host.py = true
  new : host.checkAndRecord (getOr payload "event_id" (text "")) = .ok true
  identity : ∃ known', getBotUserId host known payload workspaceId = .ok (botUserId, known')

variable {known : BotIdentity} {payload : Fields φ}

theorem asDict_ok {j : Json φ} {fields : Fields φ} (h : asDict j = .ok fields) :
    j = .obj fields := by
  cases j <;> cases h
  rfl

theorem arrives_of_routed {request : CommandRequest φ}
    (h : (processEventPayload host server known payload).1 = .ok (.routed request)) :
    ∃ event workspaceId botUserId, Arrives host known payload event workspaceId botUserId ∧
      routeEvent host server event (getOr payload "event_id" (text "")) workspaceId botUserId =
        .ok (.routed request) := by
  unfold processEventPayload at h
  split at h
  · cases h
  rename_i hcallback
  simp only at h
  split at h
  · cases h
  rename_i event workspaceId hprepared
  obtain ⟨event', hevent, hprepared⟩ := bind_eq_ok hprepared
  obtain ⟨workspaceId', hworkspace, hprepared⟩ := bind_eq_ok hprepared
  cases hprepared
  split at h
  · split at h <;> cases h
  rename_i hliving
  split at h
  · cases h
  rename_i hnamed
  split at h
  · cases h
  · cases h
  rename_i hnew
  split at h
  · cases h
  rename_i botUserId known' hidentity
  rw [Bool.not_eq_false] at hcallback hnamed
  exact ⟨event, workspaceId, botUserId, ⟨hcallback, asDict_ok hevent, hworkspace,
    Bool.eq_false_iff.mpr hliving, hnamed, hnew, ⟨known', hidentity⟩⟩, h⟩

theorem Arrives.process {event : Fields φ} {workspaceId botUserId : PyStr}
    (h : Arrives host known payload event workspaceId botUserId) :
    (processEventPayload host server known payload).1 =
      routeEvent host server event (getOr payload "event_id" (text "")) workspaceId botUserId := by
  obtain ⟨known', hidentity⟩ := h.identity
  unfold processEventPayload
  rw [if_neg (by rw [h.callback]; simp)]
  simp only [h.carried, asDict, h.workspace, bind, Except.bind, pure, Except.pure, h.living, h.named,
    h.new, hidentity, Bool.false_eq_true, Bool.true_eq_false, if_false]

/-- What an event of a group channel has to come with. -/
structure Gated (host : SlackHost φ) (server : SlackServer) (event : Fields φ)
    (botUserId : PyStr) : Prop where
  mentioned : IsAppMention event ∨ NamesBot event botUserId
  notBot : (getOr event "bot_id" .null).truthy host.py = false
  notItself : ¬(botUserId ≠ [] ∧ isText botUserId (getOr event "user" (text "")) = true)
  userListed : server.userAllowlist.entries ≠ [] →
    ∃ s, getOr event "user" (text "") = .str s ∧
      (server.userAllowlist.evaluate host.py s).decision = .allow
  channelListed : server.channelAllowlist.entries ≠ [] →
    ∃ c, getOr event "channel" (text "") = .str c ∧
      (server.channelAllowlist.evaluate host.py c).decision = .allow

/-- No event of a group channel gets to the router otherwise. -/
def FailClosed (host : SlackHost φ) (server : SlackServer) (known : BotIdentity)
    (payload : Fields φ) : Prop :=
  ∀ event workspaceId botUserId request,
    Arrives host known payload event workspaceId botUserId → FromChannel event →
      (processEventPayload host server known payload).1 = .ok (.routed request) →
        Gated host server event botUserId

/-- A plain message comes with the bot's id at hand, and a mention with a channel id where the
channels are listed. -/
structure Answerable (host : SlackHost φ) (server : SlackServer) (event : Fields φ)
    (botUserId : PyStr) : Prop where
  identity : IsAppMention event ∨ botUserId ≠ []
  channel : IsAppMention event ∨ NamesBot event botUserId →
    getOr event "channel" (text "") = text "" → server.channelAllowlist.entries ≠ [] →
      (server.channelAllowlist.evaluate host.py []).decision = .allow

theorem listed_of_allowed {policy : AllowlistPolicy} {j : Json φ}
    (h : denies host policy j = .ok false) (hne : policy.entries ≠ []) :
    ∃ s, j = .str s ∧ (policy.evaluate host.py s).decision = .allow := by
  rw [denies, if_neg hne] at h
  cases j with
  | str s =>
    refine ⟨s, rfl, (AllowlistPolicy.evaluate_configured host.py hne s).mp ?_⟩
    simpa [asStr, Except.map] using h
  | _ => cases h

/-- With the mention required, just the two ways past the gate have to be closed. -/
theorem slackFailClosed_iff (hrequire : server.slackRequireMention = true) :
    FailClosed host server known payload ↔
      ∀ event workspaceId botUserId, Arrives host known payload event workspaceId botUserId →
        Routable host server event botUserId → FromChannel event →
          Answerable host server event botUserId := by
  constructor
  · intro h event workspaceId botUserId harrives hroutable hfrom
    have hgated : MentionPasses server event botUserId → Gated host server event botUserId := by
      intro hpasses
      obtain ⟨request, hroute⟩ := routed_of_routable hroutable hpasses
      exact h event workspaceId botUserId request harrives hfrom (harrives.process.trans hroute)
    refine ⟨?_, fun hmentioned => ?_⟩
    · by_contra hno
      rw [not_or, not_not] at hno
      rcases (hgated fun _ _ => .inr (.inl hno.2)).mentioned with happ | hnames
      · exact hno.1 happ
      · exact hnames.1 hno.2
    · intro hempty hlisted
      obtain ⟨c, hc, hallow⟩ := (hgated fun _ _ => hmentioned.imp_right .inr).channelListed hlisted
      rw [hempty] at hc
      cases hc
      exact hallow
  · intro h event workspaceId botUserId request harrives hfrom hrouted
    rw [harrives.process] at hrouted
    obtain ⟨hroutable, hpasses⟩ := routable_of_routed hrouted
    have hanswerable := h event workspaceId botUserId harrives hroutable hfrom
    have hmentioned : IsAppMention event ∨ NamesBot event botUserId := by
      rcases hpasses hfrom hrequire with happ | hnil | hnames
      · exact .inl happ
      · exact hanswerable.identity.imp_right fun hne => absurd hnil hne
      · exact .inr hnames
    refine ⟨hmentioned, hroutable.notBot, hroutable.notItself,
      listed_of_allowed hroutable.userAllowed, fun hne => ?_⟩
    obtain ⟨c, hc, hallowed⟩ := hroutable.channelAllowed
    by_cases hempty : c = []
    · subst hempty
      exact ⟨[], hc, hanswerable.channel hmentioned hc hne⟩
    · rw [deniesChannel, if_neg hempty] at hallowed
      obtain ⟨s, hs, hallow⟩ := listed_of_allowed hallowed hne
      exact ⟨s, hc.trans hs, hallow⟩

end Routing

/-! ## A bot that does not know itself -/

def plainHost : SlackHost Unit where
  py := {
    floatTruthy := fun _ => true
    floatStr := fun _ => []
    containerStr := fun _ => []
    lower := id }
  checkAndRecord := fun _ => .ok true
  installedBot := fun _ => .ok []
  floatOf := fun _ => .ok ()
  now := ()

def openServer : SlackServer where
  userAllowlist := ⟨[], false⟩
  channelAllowlist := ⟨[], false⟩

def stringField (key value : String) : PyStr × Json Unit := (PyStr.ofString key, text value)

/-- `/run x`, said in a channel to nobody in particular. -/
def channelMessage : Fields Unit :=
  [stringField "type" "message", stringField "user" "U1", stringField "text" "/run x",
    stringField "channel" "C1"]

def channelPayload : Fields Unit :=
  [stringField "type" "event_callback", stringField "event_id" "Ev1",
    (PyStr.ofString "event", .obj channelMessage)]

theorem channelPayload_arrives {known : BotIdentity} {botUserId : PyStr}
    (h : getBotUserId plainHost known channelPayload [] = .ok (botUserId, known)) :
    Arrives plainHost known channelPayload channelMessage [] botUserId :=
  ⟨rfl, rfl, rfl, rfl, rfl, rfl, ⟨known, h⟩⟩

/-- As long as the bot's id is unknown, every message of a channel is routed. -/
theorem unknown_bot_routes : openServer.slackRequireMention = true ∧
    ¬FailClosed plainHost openServer ⟨none, []⟩ channelPayload := by
  refine ⟨rfl, fun h => ?_⟩
  have hfrom : FromChannel channelMessage := by
    intro c hc
    cases hc
    decide
  have hgated := h channelMessage [] [] _ (channelPayload_arrives rfl) hfrom rfl
  rcases hgated.mentioned with happ | hnames
  · exact absurd happ (by unfold IsAppMention; decide)
  · exact hnames.1 rfl

theorem known_bot_closes :
    FailClosed plainHost openServer ⟨some (PyStr.ofString "UBOT"), []⟩ channelPayload := by
  refine (slackFailClosed_iff rfl).mpr ?_
  intro event workspaceId botUserId harrives _ _
  obtain ⟨known', hidentity⟩ := harrives.identity
  cases hidentity
  exact ⟨.inr (by decide), fun _ _ hlisted => absurd rfl hlisted⟩

end OpenClaw.Connector.Slack
