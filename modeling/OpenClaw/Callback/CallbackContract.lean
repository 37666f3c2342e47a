import OpenClaw.Callback.TransportContract
import OpenClaw.Callback.ReplayLifecycle
import OpenClaw.Callback.SignedEnvelope
import OpenClaw.Webhook.WebhookAuth

/-!
# The connector callback contract

`ConnectorCallbackContract` of `services/connector_callback_contract.py`: the checks of `evaluate` in
their order, the claim in the replay lifecycle, and the callback record of an accepted request. What
the installation registry resolves, the readings of the clock during a call and the id that `uuid4`
draws are inputs.
-/

namespace OpenClaw.Callback

open Foundation
set_option autoImplicit false

inductive CallbackDecisionCode where
  | acceptPublic | acceptRun | acceptAdmin | requireApproval | rejectSignature | rejectTimestamp
  | rejectPayloadHash | rejectReplay | rejectUnknownAction | rejectMissingInstallation
  | rejectAmbiguousInstallation | rejectInactiveInstallation | rejectStaleTokenRef
  | rejectTenantMismatch | rejectPolicyDenied | rejectInvalidEnvelope
  deriving DecidableEq

def CallbackDecisionCode.value : CallbackDecisionCode → String
  | acceptPublic => "cb_accept_public"
  | acceptRun => "cb_accept_run"
  | acceptAdmin => "cb_accept_admin"
  | requireApproval => "cb_require_approval"
  | rejectSignature => "cb_reject_signature"
  | rejectTimestamp => "cb_reject_timestamp"
  | rejectPayloadHash => "cb_reject_payload_hash"
  | rejectReplay => "cb_reject_replay"
  | rejectUnknownAction => "cb_reject_unknown_action"
  | rejectMissingInstallation => "cb_reject_missing_installation"
  | rejectAmbiguousInstallation => "cb_reject_ambiguous_installation"
  | rejectInactiveInstallation => "cb_reject_inactive_installation"
  | rejectStaleTokenRef => "cb_reject_stale_token_ref"
  | rejectTenantMismatch => "cb_reject_tenant_mismatch"
  | rejectPolicyDenied => "cb_reject_policy_denied"
  | rejectInvalidEnvelope => "cb_reject_invalid_envelope"

structure CallbackDecision where
  ok : Bool
  decisionCode : CallbackDecisionCode
  commandClass : String := ""
  requiresApproval : Bool := false
  callbackId : String := ""
  installationId : PyStr := []
  message : String := ""
  deriving DecidableEq

structure CallbackActorContext where
  isAdmin : Bool := false
  isTrusted : Bool := false

structure Config (φ : Type) where
  rt : Runtime φ
  signingSecret : PyStr
  /-- The entries of the policy map in their order. -/
  actionPolicyMap : List (PyStr × String)
  timestampDriftSec : ℤ
  drift_pos : 1 ≤ timestampDriftSec
  lifecycle : LifecycleConfig
  callbacks : ContractConfig

/-- The successive readings of the clock in one call, and the id it would draw. -/
structure Readings where
  time : ℕ → ℚ
  mono : Monotone time
  uuid : String

structure EvaluateArgs (φ : Type) where
  platform : PyStr
  envelopeDict : Fields φ
  payload : Fields φ
  actor : CallbackActorContext
  /-- The installation that is resolved, or the reason why none is. -/
  resolution : Except String PyStr

structure ContractState where
  lifecycle : ReplayLifecycle := Table.empty
  callbacks : CallbackContract Metadata := {}

inductive Answer where
  | decided (d : CallbackDecision)
  | record (r : CallbackRecord Metadata)
  | found (r : Option (CallbackRecord Metadata))
  | done
  | callbackError (e : CallbackError)
  /-- A `TypeError` of `compare_digest` or a `UnicodeEncodeError`. -/
  | raised

section Checks
variable {φ : Type} (cfg : Config φ)

/-- `compare_digest` on texts takes ASCII only. -/
def ascii (s : PyStr) : Bool := s.all fun u => u.val < 128

inductive Checked where
  | passed (e : InteractiveCallbackEnvelope)
  | refused (d : CallbackDecision)
  | raised

/-- The checks of `evaluate` in front of the replay lifecycle. -/
def checkEnvelope (now : ℚ) (args : EvaluateArgs φ) : Checked :=
  match fromDict cfg.rt args.envelopeDict with
  | .error message =>
    .refused { ok := false, decisionCode := .rejectInvalidEnvelope, message := message }
  | .ok e =>
    if |Webhook.truncate now - e.timestamp| > cfg.timestampDriftSec then
      .refused {
        ok := false, decisionCode := .rejectTimestamp, message := "timestamp_out_of_window" }
    else if ascii e.payloadHash = false then .raised
    else if computePayloadHash cfg.rt args.payload ≠ e.payloadHash then
      .refused {
        ok := false, decisionCode := .rejectPayloadHash, message := "payload_hash_mismatch" }
    else
      match computeSignature cfg.rt cfg.signingSecret e with
      | none => .raised
      | some expected =>
        if cfg.signingSecret ≠ [] ∧ ascii e.signature = false then .raised
        else if cfg.signingSecret = [] ∨ expected ≠ e.signature then
          .refused {
            ok := false, decisionCode := .rejectSignature, message := "signature_mismatch" }
        else .passed e

def mapInstallationReject (reason : String) : CallbackDecision where
  ok := false
  decisionCode :=
    if reason = "missing_binding" then .rejectMissingInstallation
    else if reason = "ambiguous_binding" then .rejectAmbiguousInstallation
    else if reason = "inactive_binding" then .rejectInactiveInstallation
    else if "stale_token_ref".toList <+: reason.toList then .rejectStaleTokenRef
    else if reason = "tenant_mismatch" then .rejectTenantMismatch
    else .rejectInvalidEnvelope
  message := reason

def star : CodeUnit := 42

def resolveActionPolicy (actionType : PyStr) : Option String :=
  match cfg.actionPolicyMap.find? fun p => p.1 = actionType with
  | some p => some p.2
  | none => (cfg.actionPolicyMap.find? fun p =>
      decide (p.1.getLast? = some star ∧ p.1.dropLast <+: actionType)).map Prod.snd

/-- The decision over a resolved command class; the second part says that the lifecycle fails. -/
def classDecision (actor : CallbackActorContext) (callbackId : String) (installationId : PyStr)
    (commandClass : String) : CallbackDecision × Bool :=
  if commandClass = "public" then
    ({ ok := true, decisionCode := .acceptPublic, commandClass, callbackId, installationId }, false)
  else if commandClass = "run" then
    if actor.isAdmin || actor.isTrusted then
      ({ ok := true, decisionCode := .acceptRun, commandClass, callbackId, installationId }, false)
    else
      ({ ok := false, decisionCode := .requireApproval, commandClass, requiresApproval := true,
         callbackId, installationId }, false)
  else if commandClass = "admin" then
    if actor.isAdmin then
      ({ ok := true, decisionCode := .acceptAdmin, commandClass, callbackId, installationId }, false)
    else
      ({ ok := false, decisionCode := .rejectPolicyDenied, commandClass, callbackId, installationId,
         message := "admin_required" }, true)
  else
    ({ ok := false, decisionCode := .rejectUnknownAction, installationId,
       message := "unsupported_command_class" }, true)

end Checks

def lifecycleKey (workspaceId actionType requestId : PyStr) : PyStr :=
  PyStr.ofString "interactive:" ++ (workspaceId ++ colon :: (actionType ++ colon :: requestId))

def requestLifecycleKey (e : InteractiveCallbackEnvelope) : PyStr :=
  lifecycleKey e.workspaceId e.actionType e.requestId

def claimMetadata (e : InteractiveCallbackEnvelope) : Metadata :=
  [("workspace_id", e.workspaceId), ("action_type", e.actionType)]

def recordMetadata (platform installationId : PyStr) (e : InteractiveCallbackEnvelope) : Metadata :=
  [("platform", platform), ("workspace_id", e.workspaceId), ("action_type", e.actionType),
    ("installation_id", installationId)]

section Contract
variable {φ : Type} (cfg : Config φ)

/-- `_hash_payload` of a payload that is not empty. -/
def hashPayload (payload : Fields φ) : String :=
  if payload = [] then "" else String.ofList ((hex (cfg.rt.sha256
    (utf8 (Json.dumpsSorted cfg.rt.floats.repr Json.Separators.standard (.obj payload))))).take 16)

def failTerminal (key : PyStr) (reason : String) (now : ℚ) (s : ContractState) : ContractState :=
  { s with lifecycle := ReplayLifecycle.failTerminal cfg.lifecycle key reason now s.lifecycle }

/-- `evaluate` behind the claim. -/
def authorize (r : Readings) (args : EvaluateArgs φ) (e : InteractiveCallbackEnvelope)
    (s : ContractState) : ContractState × Answer :=
  let key := requestLifecycleKey e
  match args.resolution with
  | .error reason =>
    let d := mapInstallationReject reason
    (failTerminal cfg key d.decisionCode.value (r.time 2) s, .decided d)
  | .ok installationId =>
    match resolveActionPolicy cfg e.actionType with
    | none =>
      let d : CallbackDecision := {
        ok := false
        decisionCode := .rejectUnknownAction
        installationId
        message := "unknown_action_type" }
      (failTerminal cfg key d.decisionCode.value (r.time 2) s, .decided d)
    | some commandClass =>
      let created := s.callbacks.create cfg.callbacks ⟨r.time 2, r.uuid⟩ {
        idempotencyKey := e.requestId
        payloadHash := hashPayload cfg args.payload
        metadata := recordMetadata args.platform installationId e }
      let s := { s with callbacks := created.1 }
      match created.2 with
      | .error error => (s, .callbackError error)
      | .ok record =>
        let (d, fails) := classDecision args.actor record.callbackId installationId commandClass
        (if fails then failTerminal cfg key d.decisionCode.value (r.time 3) s else s, .decided d)

def evaluate (r : Readings) (args : EvaluateArgs φ) (s : ContractState) : ContractState × Answer :=
  match checkEnvelope cfg (r.time 0) args with
  | .raised => (s, .raised)
  | .refused d => (s, .decided d)
  | .passed e =>
    let claim := ReplayLifecycle.claim cfg.lifecycle (requestLifecycleKey e) (claimMetadata e)
      (r.time 1) s.lifecycle
    let s := { s with lifecycle := claim.1 }
    if claim.2.accepted then authorize cfg r args e s
    else (s, .decided {
      ok := false, decisionCode := .rejectReplay, message := claim.2.code.value })

def getRecord (now : ℚ) (requestId : PyStr) (s : ContractState) :
    ContractState × Option (CallbackRecord Metadata) :=
  let found := s.callbacks.getByIdempotencyKey cfg.callbacks now requestId.strip
  ({ s with callbacks := found.1 }, found.2)

def acknowledgeRequest (r : Readings) (requestId : PyStr) (s : ContractState) :
    ContractState × Answer :=
  let (s, record) := getRecord cfg (r.time 0) requestId s
  match record with
  | none => (s, .callbackError (.notFoundForRequest requestId))
  | some record =>
    let (callbacks, result) := s.callbacks.acknowledge cfg.callbacks (r.time 1) record.callbackId
    ({ s with callbacks }, match result with
      | .ok record => .record record
      | .error e => .callbackError e)

/-- The workspace and the action in the metadata of a record, and the key that they give. -/
def recordLifecycleKey (record : CallbackRecord Metadata) (requestId : PyStr) : Option PyStr :=
  let workspaceId := (record.metadata.get? "workspace_id").getD []
  let actionType := (record.metadata.get? "action_type").getD []
  if workspaceId ≠ [] ∧ actionType ≠ [] then some (lifecycleKey workspaceId actionType requestId)
  else none

def completeRequest (r : Readings) (requestId : PyStr) (s : ContractState) :
    ContractState × Answer :=
  let (s, record) := getRecord cfg (r.time 0) requestId s
  match record with
  | none => (s, .callbackError (.notFoundForRequest requestId))
  | some record =>
    let (callbacks, result) := s.callbacks.deliver cfg.callbacks (r.time 1) record.callbackId
    let s := { s with callbacks }
    match result with
    | .error e => (s, .callbackError e)
    | .ok delivered =>
      match recordLifecycleKey delivered requestId with
      | none => (s, .record delivered)
      | some key =>
        let lifecycle :=
          ReplayLifecycle.commitSuccess cfg.lifecycle key "completed" (r.time 2) s.lifecycle
        ({ s with lifecycle }, .record delivered)

/-- A record that is not delivered fails, on the object itself. -/
def failRecord (record : CallbackRecord Metadata) (s : ContractState) : ContractState :=
  if record.state = .delivered then s
  else { s with callbacks := s.callbacks.store { record with state := .failed } }

def releaseRequestRetryable (r : Readings) (requestId : PyStr) (reason : String)
    (s : ContractState) : ContractState × Answer :=
  let (s, record) := getRecord cfg (r.time 0) requestId s
  match record with
  | none => (s, .done)
  | some record =>
    let s := failRecord record s
    match recordLifecycleKey record requestId with
    | none => (s, .done)
    | some key =>
      let lifecycle :=
        ReplayLifecycle.releaseRetryable cfg.lifecycle key reason (r.time 1) s.lifecycle
      ({ s with lifecycle }, .done)

def failRequestTerminal (r : Readings) (requestId : PyStr) (reason : String)
    (s : ContractState) : ContractState × Answer :=
  let (s, record) := getRecord cfg (r.time 0) requestId s
  match record with
  | none => (s, .done)
  | some record =>
    let s := failRecord record s
    match recordLifecycleKey record requestId with
    | none => (s, .done)
    | some key => (failTerminal cfg key reason (r.time 1) s, .done)

/-! ## One call -/

inductive Call (φ : Type) where
  | evaluate (args : EvaluateArgs φ)
  | getRecord (requestId : PyStr)
  | acknowledgeRequest (requestId : PyStr)
  | completeRequest (requestId : PyStr)
  | releaseRequestRetryable (requestId : PyStr) (reason : String)
  | failRequestTerminal (requestId : PyStr) (reason : String)

def step (s : ContractState) (input : Readings × Call φ) : ContractState × Answer :=
  let (r, call) := input
  match call with
  | .evaluate args => evaluate cfg r args s
  | .getRecord requestId => (getRecord cfg (r.time 0) requestId s).map id .found
  | .acknowledgeRequest requestId => acknowledgeRequest cfg r requestId s
  | .completeRequest requestId => completeRequest cfg r requestId s
  | .releaseRequestRetryable requestId reason => releaseRequestRetryable cfg r requestId reason s
  | .failRequestTerminal requestId reason => failRequestTerminal cfg r requestId reason s

/-- The call accepts the envelope and hands out the callback id. -/
def Accepts (input : Readings × Call φ) (a : Answer) (e : InteractiveCallbackEnvelope)
    (callbackId : String) : Prop :=
  ∃ args d, input.2 = .evaluate args ∧ fromDict cfg.rt args.envelopeDict = .ok e ∧
    a = .decided d ∧ d.ok = true ∧ d.callbackId = callbackId

end Contract

end OpenClaw.Callback
