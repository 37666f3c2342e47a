import Mathlib.Data.Rat.Defs
import Mathlib.Algebra.Order.Ring.Rat
import OpenClaw.Foundation.Json
import OpenClaw.Foundation.Table

/-!
# The callback contract of the transport

`CallbackContract` of `connector/transport_contract.py`. Records live under their id, and an index
leads from an idempotency key to the record that was created last for it. Times are rational
seconds; the clock reading of a call and the id that `uuid4` draws are inputs.
-/

namespace OpenClaw.Callback

open Foundation
set_option autoImplicit false

inductive CallbackState where
  | pending | acknowledged | delivered | expired | failed
  deriving DecidableEq

def CallbackState.terminal (s : CallbackState) : Bool :=
  decide (s ∈ [delivered, expired, failed])

structure CallbackRecord (μ : Type) where
  callbackId : String
  idempotencyKey : PyStr
  state : CallbackState := .pending
  createdAt : ℚ
  acknowledgedAt : Option ℚ := none
  deliveredAt : Option ℚ := none
  expiredAt : Option ℚ := none
  ttlSec : ℤ
  attempts : ℕ := 0
  maxAttempts : ℤ
  requireAck : Bool := true
  allowDirectDelivery : Bool := false
  payloadHash : String := ""
  metadata : μ

inductive CallbackError where
  | policyConflict
  | notFound (callbackId : String)
  | ackWindowExpired (elapsed : ℚ) (window : ℤ)
  | cannotAck (state : CallbackState)
  | mustAcknowledgeFirst
  | cannotDeliver (state : CallbackState)
  | notFoundForRequest (requestId : PyStr)

structure ContractConfig where
  ackWindowSec : ℤ := 3
  callbackTtlSec : ℤ := 300
  maxAttempts : ℤ := 3

structure CreateArgs (μ : Type) where
  idempotencyKey : PyStr := []
  /-- What `_hash_payload` gives; empty without a payload. -/
  payloadHash : String := ""
  ttlSec : Option ℤ := none
  requireAck : Option Bool := none
  allowDirectDelivery : Bool := false
  metadata : μ

abbrev Records (μ : Type) := Table (CallbackRecord.callbackId : CallbackRecord μ → String)

structure CallbackContract (μ : Type) where
  records : Records μ := Table.empty
  idempotencyIndex : Table (Prod.fst : PyStr × String → PyStr) := Table.empty

/-- The clock and the id that a call would draw. -/
structure Moment where
  now : ℚ
  uuid : String

def resolveAckPolicy : Option Bool → Bool → Except CallbackError (Bool × Bool)
  | none, allowDirect => .ok (!allowDirect, allowDirect)
  | some true, true => .error .policyConflict
  | some false, _ => .ok (false, true)
  | some true, false => .ok (true, false)

variable {μ : Type}

def CallbackRecord.expireIfNeeded (cfg : ContractConfig) (now : ℚ) (r : CallbackRecord μ) :
    CallbackRecord μ :=
  if r.state.terminal then r
  else if r.requireAck = true ∧ r.state = .pending ∧ cfg.ackWindowSec < now - r.createdAt then
    { r with state := .expired, expiredAt := some now }
  else if r.ttlSec < now - r.createdAt then { r with state := .expired, expiredAt := some now }
  else r

/-- `record_attempt` on its record: the new count fails it once it reaches the limit, whatever its
state is. -/
def CallbackRecord.attempted (r : CallbackRecord μ) : CallbackRecord μ :=
  { r with
    attempts := r.attempts + 1
    state := if r.maxAttempts ≤ (r.attempts + 1 : ℕ) then .failed else r.state }

namespace CallbackContract
variable (cfg : ContractConfig)

/-- `_idempotency_index.get(key)` of a record that is stored. -/
def indexed (c : CallbackContract μ) (key : PyStr) : Option (CallbackRecord μ) :=
  match c.idempotencyIndex.get? key with
  | none => none
  | some (_, callbackId) => if callbackId = "" then none else c.records.get? callbackId

/-- The record that `create` hands out again. -/
def existing (c : CallbackContract μ) (key : PyStr) : Option (CallbackRecord μ) :=
  if key = [] then none
  else (c.indexed key).filter fun r => decide (r.state ≠ .expired ∧ r.state ≠ .failed)

def create (m : Moment) (args : CreateArgs μ) (c : CallbackContract μ) :
    CallbackContract μ × Except CallbackError (CallbackRecord μ) :=
  match resolveAckPolicy args.requireAck args.allowDirectDelivery with
  | .error e => (c, .error e)
  | .ok (requireAck, allowDirect) =>
    match c.existing args.idempotencyKey with
    | some r => (c, .ok r)
    | none =>
      let ttl := args.ttlSec.getD 0
      let record : CallbackRecord μ := {
        callbackId := m.uuid
        idempotencyKey := args.idempotencyKey
        createdAt := m.now
        ttlSec := if ttl = 0 then cfg.callbackTtlSec else ttl
        maxAttempts := cfg.maxAttempts
        requireAck := requireAck
        allowDirectDelivery := allowDirect
        payloadHash := args.payloadHash
        metadata := args.metadata }
      ({ records := c.records.put record
         idempotencyIndex :=
          if args.idempotencyKey = [] then c.idempotencyIndex
          else c.idempotencyIndex.put (args.idempotencyKey, m.uuid) }, .ok record)

/-- The records share the objects that the methods change. -/
def store (c : CallbackContract μ) (r : CallbackRecord μ) : CallbackContract μ :=
  { c with records := c.records.put r }

def acknowledge (now : ℚ) (callbackId : String) (c : CallbackContract μ) :
    CallbackContract μ × Except CallbackError (CallbackRecord μ) :=
  match c.records.get? callbackId with
  | none => (c, .error (.notFound callbackId))
  | some r =>
    if r.state = .pending ∧ cfg.ackWindowSec < now - r.createdAt then
      (c.store { r with state := .expired, expiredAt := some now },
        .error (.ackWindowExpired (now - r.createdAt) cfg.ackWindowSec))
    else
      let r := r.expireIfNeeded cfg now
      if r.state = .pending then
        let r := { r with state := .acknowledged, acknowledgedAt := some now }
        (c.store r, .ok r)
      else (c.store r, .error (.cannotAck r.state))

def deliver (now : ℚ) (callbackId : String) (c : CallbackContract μ) :
    CallbackContract μ × Except CallbackError (CallbackRecord μ) :=
  match c.records.get? callbackId with
  | none => (c, .error (.notFound callbackId))
  | some r =>
    let r := r.expireIfNeeded cfg now
    if r.requireAck = true ∧ r.state = .pending then (c.store r, .error .mustAcknowledgeFirst)
    else if r.state = .pending ∨ r.state = .acknowledged then
      let r := { r with
        state := .delivered, deliveredAt := some now, attempts := r.attempts + 1 }
      (c.store r, .ok r)
    else (c.store r, .error (.cannotDeliver r.state))

def recordAttempt (callbackId : String) (c : CallbackContract μ) :
    CallbackContract μ × Except CallbackError (CallbackRecord μ) :=
  match c.records.get? callbackId with
  | none => (c, .error (.notFound callbackId))
  | some r => (c.store r.attempted, .ok r.attempted)

def get (now : ℚ) (callbackId : String) (c : CallbackContract μ) :
    CallbackContract μ × Option (CallbackRecord μ) :=
  match c.records.get? callbackId with
  | none => (c, none)
  | some r => (c.store (r.expireIfNeeded cfg now), some (r.expireIfNeeded cfg now))

def getByIdempotencyKey (now : ℚ) (key : PyStr) (c : CallbackContract μ) :
    CallbackContract μ × Option (CallbackRecord μ) :=
  match c.idempotencyIndex.get? key with
  | none => (c, none)
  | some (_, callbackId) => if callbackId = "" then (c, none) else c.get cfg now callbackId

end CallbackContract

/-! ## One call -/

inductive TransportCall (μ : Type) where
  | create (args : CreateArgs μ)
  | acknowledge (callbackId : String)
  | deliver (callbackId : String)
  | recordAttempt (callbackId : String)
  | get (callbackId : String)
  | getByIdempotencyKey (key : PyStr)

inductive TransportAnswer (μ : Type) where
  | record (r : CallbackRecord μ)
  | found (r : Option (CallbackRecord μ))
  | raised (e : CallbackError)

def TransportAnswer.of : Except CallbackError (CallbackRecord μ) → TransportAnswer μ
  | .ok r => .record r
  | .error e => .raised e

def transport (cfg : ContractConfig) (c : CallbackContract μ) (input : Moment × TransportCall μ) :
    CallbackContract μ × TransportAnswer μ :=
  let (m, call) := input
  match call with
  | .create args => (c.create cfg m args).map id .of
  | .acknowledge callbackId => (c.acknowledge cfg m.now callbackId).map id .of
  | .deliver callbackId => (c.deliver cfg m.now callbackId).map id .of
  | .recordAttempt callbackId => (c.recordAttempt callbackId).map id .of
  | .get callbackId => (c.get cfg m.now callbackId).map id .found
  | .getByIdempotencyKey key => (c.getByIdempotencyKey cfg m.now key).map id .found

end OpenClaw.Callback
