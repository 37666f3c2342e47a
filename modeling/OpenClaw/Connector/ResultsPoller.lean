import Mathlib.Data.List.Infix
import OpenClaw.Connector.ScheduleDelivery
import OpenClaw.Foundation.ObjectHeap
import OpenClaw.Foundation.PyJson
import OpenClaw.Foundation.PyText

/-!
# Sending the results of a job

`connector/reply_visibility.py`, the sending half of `connector/results_poller.py`, and `_deliver`
and `_run` of `connector/schedule_delivery.py` on whatever item and job they are given. How every
download and every platform call goes is an input.
-/

namespace OpenClaw.Connector

open Foundation
set_option autoImplicit false

abbrev Fields (φ : Type) := List (PyStr × Json φ)

section Visibility
variable {φ : Type} (py : PyInterpreter φ)

def entry (key : String) (d : Fields φ) : Option (Json φ) := under? (PyStr.ofString key) d

/-- `str(value or "")`. -/
def textOf (value : Option (Json φ)) : PyStr :=
  match value with
  | none => []
  | some j => if j.truthy py then j.toStr py else []

/-- `str(value or "").strip().lower()`. -/
def wordOf (value : Option (Json φ)) : PyStr := py.lower (textOf py value).strip

def words (ws : List String) : List PyStr := ws.map PyStr.ofString

inductive VisibilityMode where
  | visible | suppressText | toolOnly | internal
  deriving DecidableEq

def visibleValues : List PyStr := words ["", "auto", "visible", "public", "reply", "send"]
def suppressValues : List PyStr := words ["suppress_text", "suppress", "silent", "no_text", "none"]
def toolOnlyValues : List PyStr :=
  words ["tool_only", "tool-only", "tool", "action_only", "action-only"]
def internalValues : List PyStr := words ["internal", "internal_only", "internal-only", "private"]
def truthyValues : List PyStr := words ["1", "true", "yes", "y", "on"]

def normalizeReplyVisibilityMode (value : Json φ) : VisibilityMode :=
  let text := wordOf py (some value)
  if text ∈ visibleValues then .visible
  else if text ∈ suppressValues then .suppressText
  else if text ∈ toolOnlyValues then .toolOnly
  else if text ∈ internalValues then .internal
  else .visible

def modeKeys : List String := ["reply_visibility", "visibility", "reply_visibility_mode"]

def extractMode (ctx : Fields φ) : Json φ :=
  match modeKeys.findSome? fun key => entry key ctx with
  | some value => value
  | none =>
    match entry "delivery_policy" ctx with
    | some (.obj policy) =>
      (modeKeys.findSome? fun key => entry key policy).getD (.str (PyStr.ofString "auto"))
    | _ => .str (PyStr.ofString "auto")

/-- `_truthy(ctx.get(key))`. -/
def flagged (key : String) (ctx : Fields φ) : Bool :=
  match entry key ctx with
  | some (.bool b) => b
  | value => decide (wordOf py value ∈ truthyValues)

/-- `a or b or ""` as a word. -/
def kindOf (ctx : Fields φ) : PyStr :=
  if ((entry "channel_kind" ctx).map fun j => j.truthy py) = some true then
    wordOf py (entry "channel_kind" ctx)
  else
    wordOf py (entry "chat_type" ctx)

/-- `mentioned` as the context has it. -/
def mentionedIn (ctx : Fields φ) : Option Bool :=
  if (entry "mentioned" ctx).isSome then some (flagged py "mentioned" ctx)
  else if (entry "mentioned_bot" ctx).isSome then some (flagged py "mentioned_bot" ctx)
  else none

/-- The answer of `decide_reply_visibility` for a reply without buttons and files: whether it is
suppressed, and why. -/
def decideReplyVisibility (ctx : Fields φ) : Bool × String :=
  let mode := normalizeReplyVisibilityMode py (extractMode ctx)
  let threaded := decide ((textOf py (entry "thread_id" ctx)).strip ≠ [])
  if mode = .internal || flagged py "internal_delivery" ctx then
    (true, "internal_delivery")
  else if mode = .suppressText || mode = .toolOnly || flagged py "tool_only" ctx ||
      flagged py "silent" ctx then
    (true, "text_reply_suppressed")
  else if kindOf py ctx ∈ words ["group", "supergroup", "channel"] ∧
      mentionedIn py ctx = some false ∧ threaded = false then
    (true, "group_no_mention")
  else
    (false, "visible")

end Visibility

/-! ## The results poller -/

structure PollerConfig where
  deliveryMaxImages : ℤ
  deliveryMaxBytes : ℤ

/-- What `get_view` comes back with. -/
inductive Fetch where
  | content (bytes : ℕ)
  | nothing
  | raised
  deriving DecidableEq

/-- How the calls about image `n` of a delivery go: its download, whether its image send completes,
and whether the text about it does. The notice of a job without images is text `0`. -/
structure PlatformCalls where
  fetch : ℕ → Fetch
  image : ℕ → Bool
  text : ℕ → Bool

inductive PlatformSend (φ : Type) where
  | image (filename : Json φ) (completed : Bool)
  | text (text : PyStr) (completed : Bool)
  | suppressed (text : PyStr) (reason : String)

/-- A platform call that completed, or a text that the visibility policy suppressed. -/
def PlatformSend.done {φ : Type} : PlatformSend φ → Bool
  | .image _ completed => completed
  | .text _ completed => completed
  | .suppressed _ _ => true

section Images
variable {φ : Type}

/-- `"images" in node_output`; `none` is its `TypeError`. -/
def hasImages : Json φ → Option Bool
  | .obj fields => some (entry "images" fields).isSome
  | .arr items => some (items.any fun j => j.str? == some (PyStr.ofString "images"))
  | .str s => some (decide (PyStr.ofString "images" <:+: s))
  | _ => none

/-- The elements that `extend` takes from a value. -/
def elements : Json φ → Option (List (Json φ))
  | .arr items => some items
  | .str s => some (s.codePoints.map fun n => .str (PyStr.units n))
  | .obj fields => some (fields.map fun f => .str f.1)
  | _ => none

def nodeImages (node : Json φ) : Option (List (Json φ)) :=
  match hasImages node with
  | none => none
  | some false => some []
  | some true =>
    match node with
    | .obj fields => (entry "images" fields).bind elements
    | _ => none

/-- The images of the outputs; `none` where reading them raises. -/
def imagesOf : Json φ → Option (List (Json φ))
  | .obj nodes => (nodes.mapM fun f => nodeImages f.2).map List.flatten
  | _ => none

/-- `xs[:n]`. -/
def sliceTo (n : ℤ) (xs : List (Json φ)) : List (Json φ) :=
  if 0 ≤ n then xs.take n.toNat else xs.take (xs.length + n).toNat

end Images

section Poller
variable {φ : Type} (py : PyInterpreter φ) (cfg : PollerConfig) (calls : PlatformCalls)
variable (loaded : Bool) (context : Fields φ)

def sendText (text : PyStr) (n : ℕ) : List (PlatformSend φ) :=
  match decideReplyVisibility py context with
  | (true, reason) => [.suppressed text reason]
  | (false, _) => if loaded then [.text text (calls.text n)] else []

/-- The turn of the loop for image `n`; `none` where it raises. -/
def deliverImage (n : ℕ) (image : Json φ) : Option (List (PlatformSend φ)) :=
  match image with
  | .obj info =>
    let filename := (entry "filename" info).getD .null
    match calls.fetch n with
    | .raised => none
    | .nothing => some []
    | .content bytes =>
      if bytes = 0 then
        some []
      else if cfg.deliveryMaxBytes < bytes then
        some (sendText py calls loaded context (PyStr.ofString "⚠️ Image " ++ filename.toStr py ++
          PyStr.ofString " skipped (too large).") n)
      else if calls.image n then
        some [.image filename true]
      else
        some (.image filename false :: sendText py calls loaded context
          (PyStr.ofString "⚠️ Failed to send image: " ++ filename.toStr py) n)
  | _ => none

/-- The loop over the images from number `n` on: what was sent, and whether it raised. -/
def deliverImages : ℕ → List (Json φ) → List (PlatformSend φ) × Bool
  | _, [] => ([], false)
  | n, image :: rest =>
    match deliverImage py cfg calls loaded context n image with
    | none => ([], true)
    | some sends =>
      let r := deliverImages (n + 1) rest
      (sends ++ r.1, r.2)

/-- `_deliver_results`: what was sent, and whether it raised. -/
def deliverResults (promptId : PyStr) (job : Fields φ) : List (PlatformSend φ) × Bool :=
  let outputs := (entry "outputs" job).getD (.obj [])
  let notice := fun (what : String) => sendText py calls loaded context
    (PyStr.ofString "✅ Job " ++ promptId ++ PyStr.ofString (" finished (" ++ what ++ ").")) 0
  if outputs.truthy py then
    match imagesOf outputs with
    | none => ([], true)
    | some [] => (notice "No images", false)
    | some images =>
      if loaded then
        deliverImages py cfg calls loaded context 0 (sliceTo cfg.deliveryMaxImages images)
      else
        ([], false)
  else
    (notice "No output images", false)

end Poller

/-! ## The worker -/

/-- The platforms that the worker and the poller know, and the allowlists as `str` spells them. -/
structure WorkerConfig extends PollerConfig where
  platforms : List PyStr
  pollerPlatforms : List PyStr
  telegramAllowedChats : List PyStr := []
  discordAllowedChannels : List PyStr := []
  slackAllowedChannels : List PyStr := []
  feishuAllowedChats : List PyStr := []

def WorkerConfig.allowed? (cfg : WorkerConfig) (platformName : PyStr) : Option (List PyStr) :=
  if platformName = PyStr.ofString "telegram" then some cfg.telegramAllowedChats
  else if platformName = PyStr.ofString "discord" then some cfg.discordAllowedChannels
  else if platformName = PyStr.ofString "slack" then some cfg.slackAllowedChannels
  else if platformName = PyStr.ofString "feishu" then some cfg.feishuAllowedChats
  else none

def WorkerConfig.targetAllowed (cfg : WorkerConfig) (platformName targetId : PyStr) : Bool :=
  match cfg.allowed? platformName with
  | none => false
  | some allowed => allowed.isEmpty || allowed.contains targetId

section Worker
variable {φ : Type} (py : PyInterpreter φ) (cfg : WorkerConfig) (calls : PlatformCalls)

def contextFields : List String := ["thread_id", "workspace_id", "account_id", "mode"]

/-- The context of the platform calls. -/
def contextOf (delivery : Fields φ) : Fields φ :=
  contextFields.filterMap fun key =>
    match entry key delivery with
    | none | some .null | some (.str []) => none
    | some value => some (PyStr.ofString key, value)

def jobHasFailed (job : Fields φ) : Bool :=
  match entry "status" job with
  | some (.obj status) => (entry "status_str" status).bind Json.str? == some (PyStr.ofString "error")
  | _ => false

/-- What `_deliver` reads of an item. -/
structure Target (φ : Type) where
  delivery : Fields φ
  platformName : PyStr
  targetId : PyStr
  promptId : PyStr
  runId : PyStr

def targetOf (item : Fields φ) : Target φ :=
  let delivery := match entry "delivery" item with
    | some (.obj delivery) => delivery
    | _ => []
  { delivery := delivery
    platformName := textOf py (entry "platform" delivery)
    targetId := textOf py (entry "target_id" delivery)
    promptId := textOf py (entry "prompt_id" item)
    runId := textOf py (entry "run_id" item) }

/-- `_deliver` on an item and the job that waiting for it ended with: what was sent, and the outcome
with its reason, or nothing where it raised. -/
def deliverItem (item : Fields φ) (job : Option (Fields φ)) :
    List (PlatformSend φ) × Option (String × Option String) :=
  let t := targetOf py item
  if t.platformName ∉ cfg.platforms ∨ t.targetId = [] ∨ t.promptId = [] then
    ([], some (outcomeUndeliverable, some reasonPlatformUnavailable))
  else if cfg.targetAllowed t.platformName t.targetId = false then
    ([], some (outcomeUndeliverable, some reasonTargetNotAllowed))
  else
    let loaded := decide (t.platformName ∈ cfg.pollerPlatforms)
    let context := contextOf t.delivery
    let alert := fun (what : String) => sendText py calls loaded context
      (PyStr.ofString "⚠️ Scheduled run " ++ t.runId ++ PyStr.ofString what) 0
    match job with
    | none =>
      (alert " timed out waiting for results.", some (outcomeTimedOut, some reasonResultTimeout))
    | some job =>
      if jobHasFailed job then
        (match entry "failure_alert" t.delivery with
          | some (.bool true) => alert " failed."
          | _ => [], some (outcomeJobFailed, some reasonJobError))
      else
        let r := deliverResults py cfg.toPollerConfig calls loaded context t.promptId job
        (r.1, if r.2 then none else some (outcomeSent, none))

/-- `_run`: what was sent, and what is acknowledged. -/
def runItem (item : Fields φ) (job : Option (Fields φ)) :
    List (PlatformSend φ) × String × Option String :=
  let r := deliverItem py cfg calls item job
  (r.1, r.2.getD (outcomeUndeliverable, some reasonConnectorError))

end Worker

end OpenClaw.Connector
