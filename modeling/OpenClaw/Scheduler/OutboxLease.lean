import Mathlib.Logic.Equiv.Basic
import OpenClaw.Foundation.Lease
import OpenClaw.Foundation.Run
import OpenClaw.Scheduler.OutboxSteps

/-!
# Leases of the delivery outbox

Every stored intent is a time-boxed lease in the sense of `Foundation.Lease`: the abstract
token is the hash on record. The outbox simulates it call by call, and the lease rules give
the safety of a whole run.
-/

namespace OpenClaw.DeliveryOutbox

open Foundation Outbox
set_option autoImplicit false

/-- The lease an intent stands for. -/
def leaseOf (i : DeliveryIntent) : Lease String ℚ :=
  match i.state with
  | .pending => .idle
  | .claimed => .held (i.leaseTokenHash.getD "") (i.leaseExpiresAt.getD 0)
  | _ => .closed i.leaseTokenHash

/-- A pending intent was never leased and a claimed one has its token on record. Intents that
`record` creates are sound, and every call keeps them so. -/
structure Sound (i : DeliveryIntent) : Prop where
  pending : i.state = .pending → i.leaseTokenHash = none
  claimed : i.state = .claimed → i.leaseTokenHash.isSome = true

theorem leaseOf_terminal {i : DeliveryIntent} (h : i.state.terminal = true) :
    leaseOf i = .closed i.leaseTokenHash := by
  unfold leaseOf
  cases hs : i.state <;> rw [hs] at h <;> first | rfl | cases h

theorem token_leaseOf {i : DeliveryIntent} (h : Sound i) : (leaseOf i).token = i.leaseTokenHash := by
  cases hs : i.state with
  | pending => simp [leaseOf, hs, Lease.token, h.pending hs]
  | claimed =>
    obtain ⟨t, ht⟩ := Option.isSome_iff_exists.mp (h.claimed hs)
    simp [leaseOf, hs, Lease.token, ht]
  | _ => simp [leaseOf, hs, Lease.token]

theorem sound_of_terminal {i : DeliveryIntent} (h : i.state.terminal = true) : Sound i :=
  ⟨fun hp => absurd hp (terminal_ne_pending h), fun hc => absurd hc (terminal_ne_claimed h)⟩

/-- What a call means for the lease of `d`. -/
def leaseEvent (env : Env) (d : String) (c : Call) (r : Reply) : LeaseEvent String ℚ :=
  match r.claimOf? d, ackOf? d c r with
  | some item, _ =>
    .grant (env.hashToken item.leaseToken) c.now (item.intent.leaseExpiresAt.getD 0)
  | none, some (token, false) => .finish (env.hashToken token)
  | none, some (token, true) => .again (env.hashToken token)
  | none, none => .quiet

theorem maintained_lease {now : ℚ} {i j : DeliveryIntent} (h : Maintained now i (some j))
    (hi : Sound i) : Sound j ∧ Lease.Step (leaseOf i) .quiet (leaseOf j) := by
  cases h with
  | kept => exact ⟨hi, .stay _⟩
  | expired reason hlive =>
    refine ⟨sound_of_terminal expired_terminal, ?_⟩
    rw [leaseOf_terminal (i := { i with state := _, reason := _, updatedAt := _ }) expired_terminal]
    rcases eq_pending_or_claimed hlive with hp | hc
    · simp only [leaseOf, hp, hi.pending hp]
      exact .discard
    · obtain ⟨t, ht⟩ := Option.isSome_iff_exists.mp (hi.claimed hc)
      simp only [leaseOf, hc, ht, Option.getD_some]
      exact .abandon t _

/-- The simulation: a call that leaves the intent stored is a step of its lease. -/
theorem step_lease {env : Env} {d : String} {i j : DeliveryIntent} {c : Call} {r : Reply}
    (h : IntentStep env d i c r (some j)) (hi : Sound i) :
    Sound j ∧ Lease.Step (leaseOf i) (leaseEvent env d c r) (leaseOf j) := by
  cases h with
  | maintained hcl hack hm =>
    simp only [leaseEvent, hcl, hack]
    exact maintained_lease hm hi
  | @leased args now _ n hc hcl =>
    simp only [leaseEvent, hcl]
    refine ⟨⟨fun hp => (by cases hp), fun _ => rfl⟩, ?_⟩
    rcases claimable_cases hc with hp | ⟨hs, he⟩
    · rw [show leaseOf i = .idle by simp only [leaseOf, hp]]
      exact .first _ now _
    · rw [show leaseOf i = .held _ _ by simp only [leaseOf, hs]; rfl]
      exact .regrant _ _ he
  | @finalized args now outcome reason _ hd hh hs ht hf =>
    subst hf
    have hev : leaseEvent env d (.ack args now)
        (.acked ⟨{ i with state := outcome, reason, updatedAt := now }, false⟩) =
        .finish (env.hashToken args.leaseToken) := by simp [leaseEvent, Reply.claimOf?, ackOf?, hd]
    rw [hev, leaseOf_terminal (i := { i with state := outcome, reason, updatedAt := now }) ht]
    refine ⟨sound_of_terminal ht, ?_⟩
    simp only [leaseOf, hs, hh, Option.getD_some]
    exact .finish _ _
  | @repeated args now hd hh ht =>
    have hev : leaseEvent env d (.ack args now) (.acked ⟨i, true⟩) =
        .again (env.hashToken args.leaseToken) := by simp [leaseEvent, Reply.claimOf?, ackOf?, hd]
    rw [hev, leaseOf_terminal ht, hh]
    exact ⟨hi, .again _⟩

/-! ## Runs with every save going through -/

section Runs
variable (env : Env) (s₀ : Outbox) (calls : ℕ → Call)

def stateAt (k : ℕ) : Outbox := run (fun s c => s.exec env c true) s₀ calls k

def replyAt (k : ℕ) : Reply := answer (fun s c => s.exec env c true) s₀ calls k

/-- Call `k` is a claim whose answer hands out `d` under `token`. -/
def Hands (d : String) (k : ℕ) (token : String) : Prop :=
  ∃ items, replyAt env s₀ calls k = .claimed items ∧
    ∃ item ∈ items, item.intent.deliveryId = d ∧ item.leaseToken = token

/-- Call `k` is an acknowledgement of `d` under `token` that returned normally. -/
def AcksOk (d : String) (k : ℕ) (token : String) (repeated : Bool) : Prop :=
  ∃ args now res, calls k = .ack args now ∧ args.deliveryId = d ∧ args.leaseToken = token ∧
    replyAt env s₀ calls k = .acked res ∧ res.repeated = repeated

/-- Call `i` is the `record` that stores `d`, and `d` then stays stored until state `n`. -/
structure StoredFrom (d : String) (i n : ℕ) : Prop where
  recorded : ∃ args now, calls i = .record args now ∧ env.deliveryIdFor args.idempotencyKey = d
  absent : (stateAt env s₀ calls i).held d = none
  stored : ∀ k, i < k → k ≤ n → (stateAt env s₀ calls k).held d ≠ none

/-- The lease a claim call asks for, after clamping. -/
def leaseLength : Call → ℚ
  | .claim args _ => claimLease args.leaseSec
  | _ => 0

/-- Lease safety of `d` between its `record` (call `i`) and state `n`. -/
structure LeaseSafe (d : String) (i n : ℕ) : Prop where
  exclusive : ∀ j k t t', i < j → j < k → k < n → Hands env s₀ calls d j t →
    (calls k).now < (calls j).now + leaseLength (calls j) → ¬ Hands env s₀ calls d k t'
  ack_once : ∀ j k t t', i < j → j < k → k < n →
    AcksOk env s₀ calls d j t false → ¬ AcksOk env s₀ calls d k t' false
  ack_holder : ∀ k t repeated, i < k → k < n → AcksOk env s₀ calls d k t repeated →
    ∃ j, i < j ∧ j < k ∧ Hands env s₀ calls d j t ∧
      ∀ m t', j < m → m < k → ¬ Hands env s₀ calls d m t'
  terminal : ∀ j k x y, i < j → j ≤ k → k ≤ n → (stateAt env s₀ calls j).held d = some x →
    x.state.terminal = true → (stateAt env s₀ calls k).held d = some y →
      y.state = x.state ∧ y.reason = x.reason ∧ (k < n → ∀ t, ¬ Hands env s₀ calls d k t)

variable {env s₀ calls}

theorem exec_claimed_nodup {s : Outbox} {c : Call} {items : List ClaimedIntent}
    (h : (s.exec env c true).2 = .claimed items) :
    (items.map fun item => item.intent.deliveryId).Nodup := by
  cases c with
  | record args now =>
    simp only [exec] at h
    generalize (s.record env args now true).2 = r at h
    cases r <;> cases h
  | list args now =>
    simp only [exec] at h
    generalize (s.listIntents args now true).2 = r at h
    cases r <;> cases h
  | ack args now =>
    simp only [exec] at h
    generalize (s.ack env args now true).2 = r at h
    cases r <;> cases h
  | claim args now =>
    simp only [exec, claim] at h
    split at h <;>
    · cases h
      exact claimed_nodup env args now _ _

theorem hands_iff {d : String} {k : ℕ} {t : String} : Hands env s₀ calls d k t ↔
    ∃ item, (replyAt env s₀ calls k).claimOf? d = some item ∧ item.leaseToken = t := by
  constructor
  · rintro ⟨items, hr, item, hm, hd, ht⟩
    refine ⟨item, ?_, ht⟩
    have hn := exec_claimed_nodup hr
    simp only [hr, Reply.claimOf?, ← hd]
    exact Table.find?_of_nodup hn hm
  · rintro ⟨item, hf, ht⟩
    cases hr : replyAt env s₀ calls k with
    | claimed items =>
      rw [hr] at hf
      exact ⟨items, hr, item, List.mem_of_find?_eq_some hf,
        Table.own_of_find? (fun c : ClaimedIntent => c.intent.deliveryId) hf, ht⟩
    | _ => rw [hr] at hf; cases hf

theorem ackOf?_of_acksOk {d : String} {k : ℕ} {t : String} {b : Bool}
    (h : AcksOk env s₀ calls d k t b) :
    ackOf? d (calls k) (replyAt env s₀ calls k) = some (t, b) := by
  obtain ⟨args, now, res, hc, hd, ht, hr, hb⟩ := h
  simp [hc, hr, ackOf?, hd, ht, hb]

theorem state_step {d : String} {k : ℕ} {x : DeliveryIntent}
    (h : (stateAt env s₀ calls k).held d = some x) :
    IntentStep env d x (calls k) (replyAt env s₀ calls k) ((stateAt env s₀ calls (k + 1)).held d) :=
  exec_step (calls k) h

/-- The state of the lease of `d`, and what happens to it. -/
def leaseAt (env : Env) (s₀ : Outbox) (calls : ℕ → Call) (d : String) (k : ℕ) : Lease String ℚ :=
  ((stateAt env s₀ calls k).held d).elim .idle leaseOf

def eventAt (env : Env) (s₀ : Outbox) (calls : ℕ → Call) (d : String) (k : ℕ) :
    LeaseEvent String ℚ :=
  leaseEvent env d (calls k) (replyAt env s₀ calls k)

theorem event_of_hands {d : String} {k : ℕ} {t : String} (h : Hands env s₀ calls d k t) :
    ∃ item, (replyAt env s₀ calls k).claimOf? d = some item ∧
      eventAt env s₀ calls d k = .grant (env.hashToken t) (calls k).now
        (item.intent.leaseExpiresAt.getD 0) := by
  obtain ⟨item, hf, rfl⟩ := hands_iff.mp h
  exact ⟨item, hf, by simp only [eventAt, leaseEvent, hf]⟩

theorem hands_of_event {d : String} {k : ℕ} {h : String} {now e : ℚ}
    (he : eventAt env s₀ calls d k = .grant h now e) :
    now = (calls k).now ∧ ∃ t, Hands env s₀ calls d k t ∧ env.hashToken t = h := by
  unfold eventAt leaseEvent at he
  split at he
  · rename_i item hf
    cases he
    exact ⟨rfl, _, hands_iff.mpr ⟨item, hf, rfl⟩, rfl⟩
  all_goals cases he

theorem event_of_acksOk {d : String} {k : ℕ} {t : String} {b : Bool}
    (h : AcksOk env s₀ calls d k t b) : eventAt env s₀ calls d k =
      if b then .again (env.hashToken t) else .finish (env.hashToken t) := by
  have hnone : (replyAt env s₀ calls k).claimOf? d = none := by
    obtain ⟨_, _, res, _, _, _, hr, _⟩ := h
    rw [hr]
    rfl
  simp only [eventAt, leaseEvent, hnone, ackOf?_of_acksOk h]
  cases b <;> rfl

namespace StoredFrom
variable {d : String} {i n : ℕ}

/-- The intent that `record` stores has no token yet. -/
theorem start (h : StoredFrom env s₀ calls d i n) (hin : i < n) :
    ∃ x, (stateAt env s₀ calls (i + 1)).held d = some x ∧ Sound x ∧ (leaseOf x).token = none := by
  obtain ⟨args, now, hc, rfl⟩ := h.recorded
  obtain ⟨x, hx⟩ := Option.ne_none_iff_exists'.mp (h.stored (i + 1) (Nat.lt_succ_self i) hin)
  refine ⟨x, hx, ?_⟩
  have hnew : (newIntent env args now).deliveryId = env.deliveryIdFor args.idempotencyKey := rfl
  have hm : Maintained now (newIntent env args now) (some x) := by
    have hstep := (record_new args now h.absent (env.deliveryIdFor args.idempotencyKey)).2
    rw [← hc] at hstep
    rw [← hx, show stateAt env s₀ calls (i + 1) = ((stateAt env s₀ calls i).exec env (calls i) true).1
      from rfl, hstep]
    exact maintain_get (by rw [Table.get?_put, if_pos hnew])
  have hs : Sound (newIntent env args now) := by
    refine ⟨fun _ => rfl, fun hcl => ?_⟩
    simp only [newIntent] at hcl
    split at hcl <;> cases hcl
  obtain ⟨hsx, hlx⟩ := maintained_lease hm hs
  refine ⟨hsx, ?_⟩
  rw [hlx.token_eq (fun _ _ _ => by simp), token_leaseOf hs]
  rfl

theorem sound (h : StoredFrom env s₀ calls d i n) {k : ℕ} (hik : i < k) (hk : k ≤ n) :
    ∃ x, (stateAt env s₀ calls k).held d = some x ∧ Sound x := by
  induction k, hik using Nat.le_induction with
  | base =>
    obtain ⟨x, hx, hs, _⟩ := h.start hk
    exact ⟨x, hx, hs⟩
  | succ k hik ih =>
    obtain ⟨x, hx, hs⟩ := ih (Nat.le_of_succ_le hk)
    obtain ⟨y, hy⟩ := Option.ne_none_iff_exists'.mp (h.stored (k + 1) (by omega) hk)
    have hstep := state_step hx
    rw [hy] at hstep
    exact ⟨y, hy, (step_lease hstep hs).1⟩

theorem trace (h : StoredFrom env s₀ calls d i n) :
    LeaseTrace (leaseAt env s₀ calls d) (eventAt env s₀ calls d) (i + 1) n := by
  intro k hik hk
  obtain ⟨x, hx, hs⟩ := h.sound hik (Nat.le_of_lt hk)
  obtain ⟨y, hy⟩ := Option.ne_none_iff_exists'.mp (h.stored (k + 1) (by omega) hk)
  have hstep := state_step hx
  rw [hy] at hstep
  simpa only [leaseAt, eventAt, hx, hy, Option.elim_some] using (step_lease hstep hs).2

theorem start_token (h : StoredFrom env s₀ calls d i n) (hin : i < n) :
    (leaseAt env s₀ calls d (i + 1)).token = none := by
  obtain ⟨x, hx, _, ht⟩ := h.start hin
  simpa only [leaseAt, hx, Option.elim_some] using ht

/-- A claim's expiry is the clock plus the clamped lease. -/
theorem expiry_of_hands (h : StoredFrom env s₀ calls d i n) {k : ℕ} (hik : i < k) (hk : k < n)
    {t : String} (hh : Hands env s₀ calls d k t) :
    eventAt env s₀ calls d k = .grant (env.hashToken t) (calls k).now
      ((calls k).now + leaseLength (calls k)) := by
  obtain ⟨item, hf, he⟩ := event_of_hands hh
  obtain ⟨x, hx, _⟩ := h.sound hik (Nat.le_of_lt hk)
  have hstep := state_step hx
  rw [he]
  generalize calls k = c at hstep
  generalize replyAt env s₀ calls k = r at hf hstep
  generalize (stateAt env s₀ calls (k + 1)).held d = o at hstep
  cases hstep with
  | maintained hcl => rw [hf] at hcl; cases hcl
  | leased m _ hcl =>
    rw [hf] at hcl
    cases hcl
    rfl
  | finalized => cases hf
  | repeated => cases hf

theorem terminal_step (h : StoredFrom env s₀ calls d i n) {j k : ℕ} (hij : i < j) (hjk : j ≤ k)
    (hk : k ≤ n) {x : DeliveryIntent} (hx : (stateAt env s₀ calls j).held d = some x)
    (ht : x.state.terminal = true) :
    ∃ y, (stateAt env s₀ calls k).held d = some y ∧ y.state = x.state ∧ y.reason = x.reason := by
  induction k, hjk using Nat.le_induction with
  | base => exact ⟨x, hx, rfl, rfl⟩
  | succ k hjk ih =>
    obtain ⟨y, hy, hst, hre⟩ := ih (Nat.le_of_succ_le hk)
    obtain ⟨z, hz⟩ := Option.ne_none_iff_exists'.mp (h.stored (k + 1) (by omega) hk)
    have hstep := state_step hy
    rw [hz] at hstep
    obtain ⟨h1, h2⟩ := step_terminal hstep (hst ▸ ht)
    exact ⟨z, hz, h1.trans hst, h2.trans hre⟩

end StoredFrom

end Runs

/-- Leases are exclusive, one acknowledgement finalizes an intent, it comes from the last
lease holder, and terminal intents never change. -/
theorem outbox_lease_safety {env : Env} (hash : Function.Injective env.sha256) {s₀ : Outbox}
    {calls : ℕ → Call} (clock : Monotone fun k => (calls k).now) {d : String} {i n : ℕ}
    (h : StoredFrom env s₀ calls d i n) : LeaseSafe env s₀ calls d i n := by
  have htrace := h.trace
  refine ⟨?_, ?_, ?_, ?_⟩
  · intro j k t t' hij hjk hk hj hlt hh
    have hle := htrace.grants_apart clock (fun k _ _ _ he => (hands_of_event he).1) hij hjk hk
      (h.expiry_of_hands hij (by omega) hj) (h.expiry_of_hands (by omega) hk hh)
    exact absurd hlt (not_lt.mpr hle)
  · intro j k t t' hij hjk hk hj hk'
    exact htrace.finish_unique hij hjk hk (event_of_acksOk hj) (event_of_acksOk hk')
  · intro k t repeated hik hk hack
    have hev : eventAt env s₀ calls d k = .finish (env.hashToken t) ∨
        eventAt env s₀ calls d k = .again (env.hashToken t) := by
      cases repeated with
      | false => exact Or.inl (event_of_acksOk hack)
      | true => exact Or.inr (event_of_acksOk hack)
    obtain ⟨j, hij, hjk, ⟨now, e, hg⟩, hlast⟩ := htrace.last_grant (h.start_token (by omega)) hik
      (Nat.le_of_lt hk) (htrace.token_of_finish hik hk hev)
    obtain ⟨_, t₀, hh, ht₀⟩ := hands_of_event hg
    obtain rfl : t₀ = t := hash ht₀
    refine ⟨j, hij, hjk, hh, fun m t' hjm hmk hm => ?_⟩
    obtain ⟨_, _, he⟩ := event_of_hands hm
    exact hlast m hjm hmk _ _ _ he
  · intro j k x y hij hjk hk hx ht hy
    obtain ⟨z, hz, hst, hre⟩ := h.terminal_step hij hjk hk hx ht
    rw [hy] at hz
    cases hz
    refine ⟨hst, hre, fun hkn t hh => ?_⟩
    obtain ⟨item, hf, _⟩ := hands_iff.mp hh
    rw [step_unclaimed (state_step hy) (hst ▸ ht)] at hf
    cases hf

/-- SHA-256 on one idempotency key and one token; elsewhere any injective function will do. -/
def dailyEnv : Env where
  sha256 :=
    (Equiv.swap "daily-report:600"
      "a8750125e7a96ac4a236448a7a42bb2184a44f0b8b78e8ca20c6126d35350fa7").trans
    (Equiv.swap "Qm9vdHN0cmFwTGVhc2VUb2tlbkFsaWNl"
      "2886375f884e9d9f6bf8b20c051df771f7d7fceb53f8b7747d487d9b04c382f0")
  tokenUrlsafe n := if n = 0 then "Qm9vdHN0cmFwTGVhc2VUb2tlbkFsaWNl" else toString n

def dailyDelivery : String := "dlv_a8750125e7a96ac4a236448a"

def dailyRecord : RecordArgs where
  idempotencyKey := "daily-report:600"
  runId := "run_1"
  scheduleId := "sched_1"
  promptId := "prompt_1"
  delivery := { platform := some "slack", targetId := some "C012" }

def dailyClaim : ClaimArgs where
  tenantId := defaultTenantId
  platforms := ["slack"]
  limit := 5
  leaseSec := 420

def dailyAck : AckArgs where
  tenantId := defaultTenantId
  deliveryId := dailyDelivery
  leaseToken := "Qm9vdHN0cmFwTGVhc2VUb2tlbkFsaWNl"
  outcome := "sent"

/-- Recorded, claimed, claimed again too early, acknowledged, then only listed. -/
def dailyCalls : ℕ → Call
  | 0 => .record dailyRecord 600
  | 1 => .claim dailyClaim 615
  | 2 => .claim dailyClaim 630
  | 3 => .ack dailyAck 640
  | _ => .list { tenantId := defaultTenantId } 700

theorem outbox_lease_safety_daily : LeaseSafe dailyEnv {} dailyCalls dailyDelivery 0 5 := by
  refine outbox_lease_safety (Equiv.injective _) ?_ ⟨⟨dailyRecord, 600, rfl, ?_⟩, ?_, ?_⟩
  · refine monotone_nat_of_le_succ fun k => ?_
    match k with
    | 0 | 1 | 2 | 3 => decide +kernel
    | k + 4 => exact le_refl _
  · decide +kernel
  · decide +kernel
  · intro k h0 h5
    have : k = 1 ∨ k = 2 ∨ k = 3 ∨ k = 4 ∨ k = 5 := by omega
    rcases this with rfl | rfl | rfl | rfl | rfl <;> decide +kernel

/-- In that run the first claim does hand the intent out. -/
example : ((replyAt dailyEnv {} dailyCalls 1).claimOf? dailyDelivery).map (·.leaseToken) =
    some "Qm9vdHN0cmFwTGVhc2VUb2tlbkFsaWNl" := by decide +kernel

end OpenClaw.DeliveryOutbox
