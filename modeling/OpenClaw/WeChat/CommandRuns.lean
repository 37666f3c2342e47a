import OpenClaw.Foundation.CodePoints
import OpenClaw.WeChat.NonceWindow

/-!
# Commands of the WeChat webhook

The second half of `handle_webhook` and `_deferred_reply`, from the parsed fields on: the dedup check,
the router under its limit of 4.5 seconds, the deferred run after it. A run of the router has its
effect at most once, at a moment of its own; whether it answers, fails or is cancelled at the limit is
an input, and so is whether a message that is sent gets out.
-/

namespace OpenClaw.WeChat

open Foundation Connector
set_option autoImplicit false

/-!
## Inbound events

`normalize_wechat_event` of `connector/platforms/wechat_webhook.py` and the value under which an
event is deduplicated. The fields are those of the parsed XML, by tag.
-/

section Events

abbrev WeChatFields := CodePoints → Option CodePoints

/-- `fields.get(tag, other)`. -/
def WeChatFields.getOr (fields : WeChatFields) (tag other : String) : CodePoints :=
  (fields (CodePoints.ofString tag)).getD (CodePoints.ofString other)

def WeChatFields.get (fields : WeChatFields) (tag : String) : CodePoints := fields.getOr tag ""

structure WeChatEvent where
  msgType : CodePoints
  eventType : CodePoints
  senderId : CodePoints
  toUser : CodePoints
  text : CodePoints
  messageId : CodePoints
  timestamp : ℤ
  createTime : CodePoints
  dedupeKey : CodePoints
  logOnly : Bool := false
  url : CodePoints := []
  deriving DecidableEq

/-- The `ValueError` of `int` on digits that are not decimal, or on too many of them. -/
inductive CreateTimeError where
  | valueError
  deriving DecidableEq

/-- `int(create_time) if create_time.isdigit() else 0`. -/
def createTimeValue (createTime : CodePoints) : Except CreateTimeError ℤ :=
  if createTime.isDigit then
    match CodePoints.int? createTime with
    | some n => .ok n
    | none => .error .valueError
  else .ok 0

/-- The event with the fields that every message has. -/
def baseEvent (fields : WeChatFields) (timestamp : ℤ) : WeChatEvent where
  msgType := (fields.get "MsgType").lower
  eventType := (fields.get "Event").lower
  senderId := fields.get "FromUserName"
  toUser := fields.get "ToUserName"
  text := []
  messageId := fields.get "MsgId"
  timestamp := timestamp
  createTime := fields.getOr "CreateTime" "0"
  dedupeKey := []

def colon : CodePoints := CodePoints.ofString ":"

/-- `f"/qr {event_key}"`. -/
def qrText (eventKey : CodePoints) : CodePoints := CodePoints.ofString "/qr " ++ eventKey

/-- The routed text of an event by its kind; `none` for a kind that is not supported. -/
def routeEvent (event : WeChatEvent) (eventKey : CodePoints) : Option WeChatEvent :=
  if event.eventType = CodePoints.ofString "subscribe" then
    some { event with
      text := if eventKey ≠ [] then qrText eventKey else CodePoints.ofString "/help" }
  else if event.eventType = CodePoints.ofString "unsubscribe" then
    some { event with text := [], logOnly := true }
  else if event.eventType = CodePoints.ofString "click" then some { event with text := eventKey }
  else if event.eventType = CodePoints.ofString "view" then
    some { event with text := [], logOnly := true, url := eventKey }
  else if event.eventType = CodePoints.ofString "scan" then
    some { event with text := if eventKey ≠ [] then qrText eventKey else [] }
  else none

/-- `f"{sender_id}:{create_time}:{sub_event}:{event_key}"` for an event without `MsgId`. -/
def withDedupeKey (event : WeChatEvent) (eventKey : CodePoints) : WeChatEvent :=
  if event.messageId = [] then
    { event with dedupeKey := event.senderId ++ colon ++ event.createTime ++ colon ++
        event.eventType ++ colon ++ eventKey }
  else event

/-- A message or event of a kind that is routed or logged. -/
def routed? (fields : WeChatFields) (event : WeChatEvent) : Option WeChatEvent :=
  if event.msgType = CodePoints.ofString "text" then
    some { event with text := (fields.get "Content").strip }
  else if event.msgType = CodePoints.ofString "event" then
    (routeEvent event (fields.get "EventKey")).map fun e => withDedupeKey e (fields.get "EventKey")
  else none

def normalizeWechatEvent (fields : WeChatFields) :
    Except CreateTimeError (Option WeChatEvent) :=
  if fields.get "FromUserName" = [] then .ok none
  else
    match createTimeValue (fields.getOr "CreateTime" "0") with
    | .error e => .error e
    | .ok timestamp =>
      .ok ((routed? fields (baseEvent fields timestamp)).filter fun event =>
        event.logOnly || decide (event.text ≠ []))

/-- `f"msg:{message_id}" if message_id else f"evt:{dedupe_key}"`. -/
def WeChatEvent.dedupValue (event : WeChatEvent) : CodePoints :=
  if event.messageId ≠ [] then CodePoints.ofString "msg:" ++ event.messageId
  else CodePoints.ofString "evt:" ++ event.dedupeKey

/-- The value that the guard is asked about, if the event has one. -/
def WeChatEvent.dedupKey? (event : WeChatEvent) : Option CodePoints :=
  if event.dedupValue = CodePoints.ofString "msg:" ∨ event.dedupValue = CodePoints.ofString "evt:"
  then none
  else some event.dedupValue

end Events

/-- `effected`: the run of the router has had its effect. -/
inductive RouterPhase where
  /-- `wait_for(router.handle(req))` -/
  | handling (effected : Bool)
  /-- `_deferred_reply` -/
  | deferred (effected : Bool)
  | ended
  deriving DecidableEq

/-- A delivery that was let through, with the key and the time the guard has for it. -/
structure RouterTask where
  event : WeChatEvent
  key : Option CodePoints
  since : ℚ
  phase : RouterPhase := .handling false

/-- The effects and the replies so far, each with its task. -/
structure CommandServer where
  guard : ReplayGuard := newGuard
  tasks : List RouterTask := []
  effects : List ℕ := []
  replies : List ℕ := []

inductive RouterOutcome where
  | response (text : CodePoints)
  /-- the limit is over and the run is cancelled, or the router raises a `TimeoutError` itself -/
  | timeoutError
  | otherError

inductive ServerAction where
  /-- the nonce check of a request -/
  | nonce (nonce : CodePoints) (evict check : ℚ)
  /-- a request is through the gate with these fields -/
  | deliver (fields : WeChatFields) (evict check : ℚ)
  | effect (task : ℕ)
  /-- `sent`: a message to the customer service gets out -/
  | finish (task : ℕ) (outcome : RouterOutcome) (sent : Bool)

def ServerAction.readings : ServerAction → List ℚ
  | .nonce _ evict check => [evict, check]
  | .deliver _ evict check => [evict, check]
  | .effect _ => []
  | .finish .. => []

namespace CommandServer

def addTask (s : CommandServer) (event : WeChatEvent) (key : Option CodePoints) (since : ℚ) :
    CommandServer := { s with tasks := s.tasks ++ [{ event, key, since }] }

def phaseOf (s : CommandServer) (i : ℕ) : Option RouterPhase := (s.tasks[i]?).map RouterTask.phase

def setPhase (s : CommandServer) (i : ℕ) (phase : RouterPhase) : CommandServer :=
  { s with tasks := s.tasks.modify i fun t => { t with phase } }

/-- The dedup check, and the router for a delivery that is no duplicate. -/
def deliver (s : CommandServer) (fields : WeChatFields) (evict check : ℚ) : CommandServer :=
  match normalizeWechatEvent fields with
  | .error _ => s
  | .ok none => s
  | .ok (some event) =>
    if event.logOnly then s
    else
      match event.dedupKey? with
      | none => s.addTask event none check
      | some key =>
        let r := s.guard.checkAndRecord key evict check
        if r.2 then { s with guard := r.1 }.addTask event (some key) check
        else { s with guard := r.1 }

def reply (s : CommandServer) (i : ℕ) (text : CodePoints) (sent : Bool) : CommandServer :=
  if text ≠ [] ∧ sent = true then { s with replies := s.replies ++ [i] } else s

/-- How the handler and the deferred task go on when their run of the router ends. -/
def finish (s : CommandServer) (i : ℕ) (outcome : RouterOutcome) (sent : Bool) : CommandServer :=
  match s.phaseOf i with
  | some (.handling _) =>
    match outcome with
    | .response text => (s.setPhase i .ended).reply i text true
    | .timeoutError => s.setPhase i (.deferred false)
    | .otherError => s.setPhase i .ended
  | some (.deferred _) =>
    match outcome with
    | .response text => (s.setPhase i .ended).reply i text sent
    | .timeoutError => s.setPhase i .ended
    | .otherError => s.setPhase i .ended
  | _ => s

def effect (s : CommandServer) (i : ℕ) : CommandServer :=
  match s.phaseOf i with
  | some (.handling false) =>
    { s.setPhase i (.handling true) with effects := s.effects ++ [i] }
  | some (.deferred false) =>
    { s.setPhase i (.deferred true) with effects := s.effects ++ [i] }
  | _ => s

def step (s : CommandServer) : ServerAction → CommandServer
  | .nonce nonce evict check => { s with guard := (s.guard.checkAndRecord nonce evict check).1 }
  | .deliver fields evict check => s.deliver fields evict check
  | .effect i => s.effect i
  | .finish i outcome sent => s.finish i outcome sent

def after (actions : List ServerAction) : CommandServer := actions.foldl step {}

/-! ## Commands -/

/-- All deliveries under one key within a replay window, or one delivery. -/
inductive Command where
  | keyed (key : CodePoints) (since : ℚ)
  | single (task : ℕ)

def covers (s : CommandServer) : Command → ℕ → Bool
  | .single j, i => i = j
  | .keyed key since, i => (s.tasks[i]?).any fun t =>
      decide (t.key = some key ∧ since ≤ t.since ∧ t.since ≤ since + replayWindowSec)

def AtMostOnce (s : CommandServer) : Prop :=
  ∀ c, (s.effects.filter (s.covers c)).length ≤ 1 ∧ (s.replies.filter (s.covers c)).length ≤ 1

/-- A run of the router that ends in a `TimeoutError` has not had its effect, and a check finds room
in the guard. -/
def Careful (s : CommandServer) : ServerAction → Prop
  | .finish i .timeoutError _ => s.phaseOf i ≠ some (.handling true)
  | .nonce .. => s.guard.size < nonceCacheSize
  | .deliver .. => s.guard.size < nonceCacheSize
  | _ => True

instance (s : CommandServer) : (a : ServerAction) → Decidable (s.Careful a)
  | .finish _ .timeoutError _ => inferInstanceAs (Decidable (_ ≠ _))
  | .finish _ (.response _) _ => .isTrue trivial
  | .finish _ .otherError _ => .isTrue trivial
  | .nonce .. => inferInstanceAs (Decidable (_ < _))
  | .deliver .. => inferInstanceAs (Decidable (_ < _))
  | .effect _ => .isTrue trivial

end CommandServer

/-- The clock of the guard does not go back. -/
def InOrder (actions : List ServerAction) : Prop :=
  (actions.flatMap ServerAction.readings).Pairwise (· ≤ ·)

instance (actions : List ServerAction) : Decidable (InOrder actions) :=
  inferInstanceAs (Decidable (List.Pairwise _ _))

/-- Every step of the run is careful. -/
def CarefulRun (actions : List ServerAction) : Prop :=
  ∀ before a, before ++ [a] <+: actions → (CommandServer.after before).Careful a

end OpenClaw.WeChat
