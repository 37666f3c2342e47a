import OpenClaw.Foundation.Run
import OpenClaw.Scheduler.DeliveryOutbox

/-!
# The schedule delivery worker

`ScheduleDeliveryWorker` of `connector/schedule_delivery.py` next to the outbox it talks to. The
worker has one poll and any number of delivery tasks under way; each waits for one answer at a
time. A request is handled by the outbox at some moment after it was sent, and its answer is heard
at some moment after that or not at all.
-/

namespace OpenClaw.Connector

open Foundation DeliveryOutbox
set_option autoImplicit false

def outcomeSent : String := "sent"
def outcomeJobFailed : String := "job_failed"
def outcomeTimedOut : String := "timed_out"
def outcomeUndeliverable : String := "undeliverable"

def reasonJobError : String := "job_error"
def reasonResultTimeout : String := "result_timeout"
def reasonTargetNotAllowed : String := "target_not_allowed"
def reasonPlatformUnavailable : String := "platform_unavailable"
def reasonConnectorError : String := "connector_error"

def scheduleDeliveryPlatforms : List String := ["discord", "feishu", "slack", "telegram"]

def leaseGraceSec : ℤ := 120
def claimBatchLimit : ℕ := 10
def maxActiveDeliveries : ℕ := 20
def ackAttempts : ℕ := 5

structure ConnectorConfig where
  tenantId : String := defaultTenantId
  platforms : List String
  deliveryTimeoutSec : ℤ
  telegramAllowedChats : List String := []
  discordAllowedChannels : List String := []
  slackAllowedChannels : List String := []
  feishuAllowedChats : List String := []

namespace ConnectorConfig

def enabledPlatforms (cfg : ConnectorConfig) : List String :=
  scheduleDeliveryPlatforms.filter (· ∈ cfg.platforms)

def leaseSec (cfg : ConnectorConfig) : ℤ := cfg.deliveryTimeoutSec + leaseGraceSec

def allowlist? (cfg : ConnectorConfig) : String → Option (List String)
  | "telegram" => some cfg.telegramAllowedChats
  | "discord" => some cfg.discordAllowedChannels
  | "slack" => some cfg.slackAllowedChannels
  | "feishu" => some cfg.feishuAllowedChats
  | _ => none

/-- An empty allowlist means the platform has no target restriction. -/
def targetAllowed (cfg : ConnectorConfig) (platformName targetId : String) : Bool :=
  match cfg.allowlist? platformName with
  | none => false
  | some allowed => allowed.isEmpty || allowed.contains targetId

end ConnectorConfig

/-- How waiting for the job of a delivery ends. -/
inductive Job where
  | missing | failed | done | raised
  deriving DecidableEq

/-- What a task does about its item: acknowledge at once, or hand it to a platform send first. -/
inductive Plan where
  | answer (outcome : String) (reason : Option String)
  | send (outcome : String) (reason : Option String)
  deriving DecidableEq

/-- `_deliver` up to the platform send. -/
def deliver (cfg : ConnectorConfig) (item : DeliveryIntent) (job : Job) : Plan :=
  let platformName := item.delivery.platform.getD ""
  let targetId := item.delivery.targetId.getD ""
  if platformName ∉ cfg.platforms ∨ targetId = "" ∨ item.promptId = "" then
    .answer outcomeUndeliverable (some reasonPlatformUnavailable)
  else if cfg.targetAllowed platformName targetId = false then
    .answer outcomeUndeliverable (some reasonTargetNotAllowed)
  else match job with
    | .missing => .send outcomeTimedOut (some reasonResultTimeout)
    | .failed =>
      if item.delivery.failureAlert = some true then .send outcomeJobFailed (some reasonJobError)
      else .answer outcomeJobFailed (some reasonJobError)
    | .done => .send outcomeSent none
    | .raised => .answer outcomeUndeliverable (some reasonConnectorError)

/-! ## The worker -/

/-- One acknowledgement attempt: not sent yet, sent with a lease token, or answered by the core
with a status that the task has not heard. -/
inductive Attempt where
  | ready
  | requested (leaseToken : String)
  | answered (status : ℕ)
  deriving DecidableEq

inductive Phase where
  | waiting (item : DeliveryIntent)
  | sending (outcome : String) (reason : Option String)
  | acking (outcome : String) (reason : Option String) (number : ℕ) (attempt : Attempt)
  | finished
  deriving DecidableEq

structure Task where
  deliveryId : String
  phase : Phase
  deriving DecidableEq

inductive Poll where
  | idle
  | requested (limit : ℕ)
  | answered (deliveries : List ClaimedIntent)

/-- The claimed items on their way to the worker. -/
def Poll.deliveries : Poll → List ClaimedIntent
  | .answered deliveries => deliveries
  | _ => []

/-- `_active`, `_lease_tokens`, the poll under way, and the deliveries handed to a platform send. -/
structure Worker where
  active : Table Task.deliveryId := Table.empty
  leaseTokens : Table (Prod.fst : String × String → String) := Table.empty
  poll : Poll := .idle
  sends : List String := []

namespace Worker

def leaseToken? (w : Worker) (d : String) : Option String := (w.leaseTokens.get? d).map Prod.snd

def setPhase (w : Worker) (d : String) (phase : Phase) : Worker :=
  { w with active := w.active.put ⟨d, phase⟩ }

/-- The first half of `poll_once`, up to the claim request. -/
def pollBegins (cfg : ConnectorConfig) (w : Worker) : Worker :=
  match w.poll with
  | .idle =>
    if cfg.enabledPlatforms = [] ∨ maxActiveDeliveries ≤ w.active.size then w
    else { w with poll := .requested (min claimBatchLimit (maxActiveDeliveries - w.active.size)) }
  | _ => w

/-- One turn of the loop of `poll_once`. A re-offered delivery that is still running keeps its
task and gets the newest lease token. -/
def adopt (w : Worker) (c : ClaimedIntent) : Worker :=
  let d := c.intent.deliveryId
  let w := { w with leaseTokens := w.leaseTokens.put (d, c.leaseToken) }
  match w.active.get? d with
  | some _ => w
  | none => w.setPhase d (.waiting c.intent)

/-- The second half of `poll_once`: the answer of the core, or a failure. -/
def pollEnds (w : Worker) (heard : Bool) : Worker :=
  let deliveries := if heard then w.poll.deliveries else []
  { deliveries.foldl adopt w with poll := .idle }

/-- `_forget`, once the task is done. -/
def forget (w : Worker) (d : String) : Worker :=
  match w.active.get? d with
  | some ⟨_, .finished⟩ =>
    { w with active := w.active.drop d, leaseTokens := w.leaseTokens.drop d }
  | _ => w

/-- The job is there, or will not be: the delivery is handed to a platform send, or the task goes
straight to its acknowledgement. -/
def jobReady (cfg : ConnectorConfig) (w : Worker) (d : String) (job : Job) : Worker :=
  match w.active.get? d with
  | some ⟨_, .waiting item⟩ =>
    match deliver cfg item job with
    | .answer outcome reason => w.setPhase d (.acking outcome reason 1 .ready)
    | .send outcome reason =>
      { w.setPhase d (.sending outcome reason) with sends := w.sends ++ [d] }
  | _ => w

def sendEnds (w : Worker) (d : String) (raised : Bool) : Worker :=
  match w.active.get? d with
  | some ⟨_, .sending outcome reason⟩ =>
    if raised then
      w.setPhase d (.acking outcomeUndeliverable (some reasonConnectorError) 1 .ready)
    else w.setPhase d (.acking outcome reason 1 .ready)
  | _ => w

/-- One turn of the loop of `_ack`, up to the request. -/
def ackBegins (w : Worker) (d : String) : Worker :=
  match w.active.get? d with
  | some ⟨_, .acking outcome reason number .ready⟩ =>
    match w.leaseToken? d with
    | none => w.setPhase d .finished
    | some token => w.setPhase d (.acking outcome reason number (.requested token))
  | _ => w

end Worker

def okStatuses : List ℕ := [200, 201, 202]

/-- A failed attempt is final when the core refused it or when it was the last one; `none` is a
transport failure. -/
def finalFailure (status : Option ℕ) (number : ℕ) : Bool :=
  (match status with
    | some n => decide (n < 500 ∧ n ≠ 429)
    | none => false) ||
  decide (ackAttempts ≤ number)

namespace Worker

/-- The rest of the turn of `_ack` after a failed attempt. -/
def ackFailed (w : Worker) (d : String) (status : Option ℕ) : Worker :=
  match w.active.get? d with
  | some ⟨_, .acking outcome reason number attempt⟩ =>
    if attempt = .ready then w
    else if finalFailure status number then w.setPhase d .finished
    else w.setPhase d (.acking outcome reason (number + 1) .ready)
  | _ => w

def ackHeard (w : Worker) (d : String) : Worker :=
  match w.active.get? d with
  | some ⟨_, .acking _ _ _ (.answered status)⟩ =>
    if status ∈ okStatuses then w.setPhase d .finished else w.ackFailed d (some status)
  | _ => w

end Worker

/-! ## The worker and the core -/

def outboxErrorStatus : String → ℕ
  | "not_found" => 404
  | "lease_mismatch" => 409
  | "already_finalized" => 409
  | _ => 400

def ackStatus : Reply → ℕ
  | .acked _ => 200
  | .raised (.outboxError code _) => outboxErrorStatus code
  | _ => 500

structure System where
  outbox : Outbox
  worker : Worker := {}

namespace System

def call (env : Env) (s : System) (c : Call) : System :=
  { s with outbox := (s.outbox.exec env c true).1 }

def claimArgs (cfg : ConnectorConfig) (limit : ℕ) : ClaimArgs where
  tenantId := cfg.tenantId
  platforms := cfg.enabledPlatforms
  limit := limit
  leaseSec := cfg.leaseSec

def ackArgs (cfg : ConnectorConfig) (d token outcome : String) (reason : Option String) :
    AckArgs where
  tenantId := cfg.tenantId
  deliveryId := d
  leaseToken := token
  outcome := outcome
  reason := reason

/-- The core handles the claim request of the poll under way. -/
def claimHandled (env : Env) (cfg : ConnectorConfig) (s : System) (now : ℚ) : System :=
  match s.worker.poll with
  | .requested limit =>
    let c := Call.claim (claimArgs cfg limit) now
    match (s.outbox.exec env c true).2 with
    | .claimed items =>
      { s.call env c with worker := { s.worker with poll := .answered items } }
    | _ => s.call env c
  | _ => s

/-- The core handles the acknowledgement that the task of `d` has sent. -/
def ackHandled (env : Env) (cfg : ConnectorConfig) (s : System) (d : String) (now : ℚ) : System :=
  match s.worker.active.get? d with
  | some ⟨_, .acking outcome reason number (.requested token)⟩ =>
    let c := Call.ack (ackArgs cfg d token outcome reason) now
    let status := ackStatus (s.outbox.exec env c true).2
    { s.call env c with
      worker := s.worker.setPhase d (.acking outcome reason number (.answered status)) }
  | _ => s

end System

inductive Event where
  | record (args : RecordArgs) (now : ℚ)
  | list (args : ListArgs) (now : ℚ)
  | pollBegins
  | claimHandled (now : ℚ)
  | pollEnds (heard : Bool)
  | jobReady (d : String) (job : Job)
  | sendEnds (d : String) (raised : Bool)
  | ackBegins (d : String)
  | ackHandled (d : String) (now : ℚ)
  | ackHeard (d : String)
  /-- The answer is lost, or comes from in front of the outbox (authentication, rate limit). -/
  | ackLost (d : String) (status : Option ℕ) (failed : ∀ n ∈ status, n ∉ okStatuses)
  | forget (d : String)
  /-- The core handles a request that the worker has given up. -/
  | lateClaim (limit : ℕ) (now : ℚ)
  | lateAck (d token outcome : String) (reason : Option String) (now : ℚ)

def System.step (env : Env) (cfg : ConnectorConfig) (s : System) : Event → System
  | .record args now => s.call env (.record args now)
  | .list args now => s.call env (.list args now)
  | .pollBegins => { s with worker := s.worker.pollBegins cfg }
  | .claimHandled now => s.claimHandled env cfg now
  | .pollEnds heard => { s with worker := s.worker.pollEnds heard }
  | .jobReady d job => { s with worker := s.worker.jobReady cfg d job }
  | .sendEnds d raised => { s with worker := s.worker.sendEnds d raised }
  | .ackBegins d => { s with worker := s.worker.ackBegins d }
  | .ackHandled d now => s.ackHandled env cfg d now
  | .ackHeard d => { s with worker := s.worker.ackHeard d }
  | .ackLost d status _ => { s with worker := s.worker.ackFailed d status }
  | .forget d => { s with worker := s.worker.forget d }
  | .lateClaim limit now => s.call env (.claim (System.claimArgs cfg limit) now)
  | .lateAck d token outcome reason now =>
    s.call env (.ack (System.ackArgs cfg d token outcome reason) now)

end OpenClaw.Connector
