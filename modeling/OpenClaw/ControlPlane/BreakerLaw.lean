import OpenClaw.ControlPlane.ControlPlaneAdapter
import OpenClaw.Foundation.Run
import OpenClaw.Retry.LaneIsolation

/-!
# The law of the circuit breaker

What a log of one adapter may contain, and when `_dispatch` keeps to it. The breaker is asked once,
at the start of a dispatch; the retries of that dispatch are sent whatever it has become since.
-/

namespace OpenClaw.ControlPlane

open Foundation
open Retry (PyError RetryPartition Budgets failureLane)
set_option autoImplicit false

/-! ## The law -/

/-- Whether an event is the end of a request, and with success. -/
def Event.outcome? : Event → Option Bool
  | .answered => some true
  | .failed => some false
  | _ => none

/-- How many of the last requests failed in a row. -/
def streak (log : List Moment) : ℕ :=
  log.foldl (fun n m => match m.event.outcome? with
    | some true => 0
    | some false => n + 1
    | none => n) 0

/-- Whether the last request that was sent still has no outcome. -/
def inFlight (log : List Moment) : Bool :=
  log.foldl (fun flying m => match m.event.outcome? with
    | some _ => false
    | none => flying || m.event == .sent) false

/-- What the law says of one moment and the ones before it. -/
structure Lawful (past : List Moment) (m : Moment) : Prop where
  /-- a breaker that is not closed lets nothing through before the timeout -/
  quiet : m.event = .sent → m.before.state ≠ .closed →
    m.before.lastFailureTime + m.before.resetTimeoutSeconds ≤ m.clock
  /-- no request is sent before the outcome of the last one is known -/
  single : m.event = .sent → inFlight past = false
  closes : m.before.state ≠ .closed → m.after.state = .closed → m.event = .answered
  opens : m.after.failureThreshold ≤ streak (past ++ [m]) →
    m.clock < m.after.lastFailureTime + m.after.resetTimeoutSeconds → m.after.state = .opened

/-- A breaker of a state that its counter bears out, with a threshold. -/
structure Sound (cb : CircuitBreakerState) : Prop where
  threshold : 0 < cb.failureThreshold
  closed_iff : cb.state = .closed ↔ cb.failureCount < cb.failureThreshold

theorem sound_recordSuccess {cb : CircuitBreakerState} (h : Sound cb) : Sound cb.recordSuccess :=
  ⟨h.threshold, ⟨fun _ => h.threshold, fun _ => rfl⟩⟩

theorem sound_recordFailure {cb : CircuitBreakerState} (h : Sound cb) (now : ℚ) :
    Sound (cb.recordFailure now) := by
  refine ⟨h.threshold, ?_⟩
  simp only [CircuitBreakerState.recordFailure]
  by_cases ht : cb.failureThreshold ≤ cb.failureCount + 1
  · rw [if_pos ht]
    exact ⟨nofun, fun hlt => absurd hlt (Nat.not_lt.mpr ht)⟩
  · rw [if_neg ht, h.closed_iff]
    omega

theorem not_halfOpen_recordFailure {cb : CircuitBreakerState} (h : Sound cb) (now : ℚ) :
    (cb.recordFailure now).state ≠ .halfOpen := by
  by_cases ht : cb.failureThreshold ≤ cb.failureCount + 1
  · simp [CircuitBreakerState.recordFailure, ht]
  · have hclosed : cb.state = .closed := h.closed_iff.mpr (by omega)
    simp [CircuitBreakerState.recordFailure, ht, hclosed]

/-- The breaker counts at least the failures in a row, and no request is in flight. -/
structure Tracks (log : List Moment) (cb : CircuitBreakerState) : Prop where
  sound : Sound cb
  counted : streak log ≤ cb.failureCount
  landed : inFlight log = false

section Streak
variable {log : List Moment} {m : Moment}

theorem streak_append : streak (log ++ [m]) =
    match m.event.outcome? with
    | some true => 0
    | some false => streak log + 1
    | none => streak log := by
  rw [streak, List.foldl_append]
  rfl

theorem inFlight_append : inFlight (log ++ [m]) =
    match m.event.outcome? with
    | some _ => false
    | none => inFlight log || m.event == .sent := by
  rw [inFlight, List.foldl_append]
  rfl

end Streak

/-- A request may be sent now. -/
def Quiet (cb : CircuitBreakerState) (now : ℚ) : Prop :=
  cb.state ≠ .closed → cb.lastFailureTime + cb.resetTimeoutSeconds ≤ now

section Requests
variable {past : List Moment} {cb : CircuitBreakerState} {sentAt endedAt : ℚ}

theorem lawful_sent_iff (h : Tracks past cb) :
    Lawful past ⟨.sent, sentAt, cb, cb⟩ ↔ Quiet cb sentAt := by
  constructor
  · exact fun hlaw => hlaw.quiet rfl
  · intro hquiet
    refine ⟨fun _ => hquiet, fun _ => h.landed, fun hopen hclosed => absurd hclosed hopen, ?_⟩
    intro hstreak hclock
    rw [streak_append] at hstreak
    have hopen : cb.state ≠ .closed := by
      rw [ne_eq, h.sound.closed_iff]
      have := h.counted
      simp only [Event.outcome?] at hstreak
      omega
    exact absurd (hquiet hopen) (not_le.mpr hclock)

variable (sentAt endedAt) in
theorem tracks_failed (h : Tracks past cb) :
    Tracks (past ++ failedMoments cb sentAt endedAt) (cb.recordFailure endedAt) := by
  have hsplit : past ++ failedMoments cb sentAt endedAt =
      past ++ [⟨.sent, sentAt, cb, cb⟩] ++ [⟨.failed, endedAt, cb, cb.recordFailure endedAt⟩] := by
    simp [failedMoments]
  refine ⟨sound_recordFailure h.sound endedAt, ?_, ?_⟩
  · rw [hsplit, streak_append, streak_append]
    exact Nat.succ_le_succ h.counted
  · rw [hsplit, inFlight_append]
    rfl

theorem lawful_failed (h : Tracks past cb) :
    Lawful (past ++ [⟨.sent, sentAt, cb, cb⟩])
      ⟨.failed, endedAt, cb, cb.recordFailure endedAt⟩ := by
  refine ⟨nofun, nofun, ?_, ?_⟩
  · intro hopen hclosed
    have hcount := (sound_recordFailure h.sound endedAt).closed_iff.mp hclosed
    refine absurd (h.sound.closed_iff.mpr ?_) hopen
    exact (Nat.le_succ _).trans_lt hcount
  · intro hstreak _
    rw [streak_append, streak_append] at hstreak
    have hcount : cb.failureThreshold ≤ cb.failureCount + 1 :=
      le_trans hstreak (Nat.succ_le_succ h.counted)
    simp [CircuitBreakerState.recordFailure, hcount]

theorem obeys_failed_iff (h : Tracks past cb) :
    EventLog.Obeys Lawful past (failedMoments cb sentAt endedAt) ↔ Quiet cb sentAt := by
  simp only [failedMoments, EventLog.Obeys, lawful_sent_iff h, lawful_failed h, and_true]

theorem obeys_answered_iff (h : Tracks past cb) :
    EventLog.Obeys Lawful past (answeredMoments cb sentAt endedAt) ↔ Quiet cb sentAt := by
  have hlaw : Lawful (past ++ [⟨.sent, sentAt, cb, cb⟩])
      ⟨.answered, endedAt, cb, cb.recordSuccess⟩ := by
    refine ⟨nofun, nofun, fun _ _ => rfl, fun hstreak => ?_⟩
    rw [streak_append] at hstreak
    exact absurd h.sound.threshold (Nat.not_lt.mpr hstreak)
  simp only [answeredMoments, EventLog.Obeys, lawful_sent_iff h, hlaw, and_true]

variable (sentAt endedAt) in
theorem tracks_answered (h : Tracks past cb) :
    Tracks (past ++ answeredMoments cb sentAt endedAt) cb.recordSuccess := by
  have hsplit : past ++ answeredMoments cb sentAt endedAt =
      past ++ [⟨.sent, sentAt, cb, cb⟩] ++ [⟨.answered, endedAt, cb, cb.recordSuccess⟩] := by
    simp [answeredMoments]
  refine ⟨sound_recordSuccess h.sound, ?_, ?_⟩
  · rw [hsplit, streak_append]
    exact Nat.le_refl 0
  · rw [hsplit, inFlight_append]
    rfl

theorem streak_answered : streak (past ++ answeredMoments cb sentAt endedAt) = 0 := by
  have hsplit : past ++ answeredMoments cb sentAt endedAt =
      past ++ [⟨.sent, sentAt, cb, cb⟩] ++ [⟨.answered, endedAt, cb, cb.recordSuccess⟩] := by
    simp [answeredMoments]
  rw [hsplit, streak_append]
  rfl

theorem lawful_rejected (h : Tracks past cb) :
    Lawful (past ++ answeredMoments cb sentAt endedAt) (rejectedMoment cb endedAt) := by
  refine ⟨nofun, nofun, fun hopen => absurd rfl hopen, fun hstreak => ?_⟩
  rw [streak_append, streak_answered] at hstreak
  exact absurd h.sound.threshold (Nat.not_lt.mpr hstreak)

theorem tracks_rejected (h : Tracks past cb) :
    Tracks (past ++ (answeredMoments cb sentAt endedAt ++ [rejectedMoment cb endedAt]))
      (cb.recordSuccess.recordFailure endedAt) := by
  have hans := tracks_answered sentAt endedAt h
  refine ⟨sound_recordFailure hans.sound endedAt, ?_, ?_⟩
  · rw [← List.append_assoc, streak_append, streak_answered]
    exact Nat.zero_le _
  · rw [← List.append_assoc, inFlight_append, hans.landed]
    rfl

end Requests

/-! ## One dispatch -/

section Dispatching
variable {φ : Type} (attempts : ℕ → Attempt φ)

/-- The attempts from number `k` on failed with these errors. -/
def FailedWith : ℕ → List PyError → Prop
  | _, [] => True
  | k, exc :: rest => (attempts k).reply = .error exc ∧ FailedWith (k + 1) rest

/-- A retry that follows these failures comes before the breaker opens, or after its timeout. -/
def RetryInTime (k : ℕ) (cb : CircuitBreakerState) (failures : List PyError) : Prop :=
  cb.failureCount + failures.length < cb.failureThreshold ∨
    (attempts (k + failures.length - 1)).endedAt + cb.resetTimeoutSeconds ≤
      (attempts (k + failures.length - 1)).resumesAt

/-- Whenever the partition grants a retry after attempts `k` and on, it is in time. -/
def RestrainedFrom (k : ℕ) (earlier : List PyError) (cb : CircuitBreakerState) : Prop :=
  ∀ failures, failures ≠ [] → FailedWith attempts k failures →
    RetryLanes.AllGranted failureLane budgets.of earlier failures →
      RetryInTime attempts k cb failures

variable {attempts} {k : ℕ} {earlier : List PyError} {cb : CircuitBreakerState}

theorem restrainedFrom_of_answer {reply : Json φ} (h : (attempts k).reply = .ok reply) :
    RestrainedFrom attempts k earlier cb := by
  intro failures hne hfailed
  cases failures with
  | nil => exact absurd rfl hne
  | cons exc rest =>
    have := hfailed.1
    rw [h] at this
    cases this

theorem restrainedFrom_of_stop {exc : PyError} (h : (attempts k).reply = .error exc)
    (hstop : RetryLanes.granted failureLane budgets.of earlier exc = false) :
    RestrainedFrom attempts k earlier cb := by
  intro failures hne hfailed hgranted
  cases failures with
  | nil => exact absurd rfl hne
  | cons exc' rest =>
    have hexc := hfailed.1
    rw [h] at hexc
    cases hexc
    rw [RetryLanes.AllGranted, hstop] at hgranted
    cases hgranted.1

theorem restrainedFrom_iff {exc : PyError} (h : (attempts k).reply = .error exc)
    (hgranted : RetryLanes.granted failureLane budgets.of earlier exc = true) :
    RestrainedFrom attempts k earlier cb ↔
      (cb.failureCount + 1 < cb.failureThreshold ∨
        (attempts k).endedAt + cb.resetTimeoutSeconds ≤ (attempts k).resumesAt) ∧
      RestrainedFrom attempts (k + 1) (earlier ++ [exc])
        (cb.recordFailure (attempts k).endedAt) := by
  constructor
  · intro hres
    refine ⟨hres [exc] (List.cons_ne_nil _ _) ⟨h, trivial⟩ ⟨hgranted, trivial⟩, ?_⟩
    intro failures hne hfailed hall
    have := hres (exc :: failures) (List.cons_ne_nil _ _) ⟨h, hfailed⟩ ⟨hgranted, hall⟩
    have hidx : k + (failures.length + 1) - 1 = k + 1 + failures.length - 1 := by omega
    simp only [RetryInTime, List.length_cons, hidx] at this
    simp only [RetryInTime, CircuitBreakerState.recordFailure]
    rwa [Nat.add_right_comm, Nat.add_assoc]
  · rintro ⟨hfirst, hrest⟩ failures hne hfailed hall
    cases failures with
    | nil => exact absurd rfl hne
    | cons exc' rest =>
      have hexc := hfailed.1
      rw [h] at hexc
      cases hexc
      cases rest with
      | nil => exact hfirst
      | cons exc'' rest =>
        have := hrest (exc'' :: rest) (List.cons_ne_nil _ _) hfailed.2 hall.2
        have hidx : k + (rest.length + 1 + 1) - 1 = k + 1 + (rest.length + 1) - 1 := by omega
        simp only [RetryInTime, CircuitBreakerState.recordFailure, List.length_cons] at this
        simp only [RetryInTime, List.length_cons, hidx]
        rwa [Nat.add_right_comm, Nat.add_assoc] at this

theorem quiet_recordFailure_iff (h : Sound cb) (endedAt now : ℚ) :
    Quiet (cb.recordFailure endedAt) now ↔
      cb.failureCount + 1 < cb.failureThreshold ∨ endedAt + cb.resetTimeoutSeconds ≤ now := by
  have hclosed : (cb.recordFailure endedAt).state = .closed ↔
      cb.failureCount + 1 < cb.failureThreshold := (sound_recordFailure h endedAt).closed_iff
  rw [Quiet, ne_eq, hclosed, ← or_iff_not_imp_left]
  rfl

end Dispatching

section Loop
variable {φ : Type} (py : PyInterpreter φ) (action : PyStr) (attempts : ℕ → Attempt φ)

/-- A loop obeys the law exactly when its first request may be sent and its retries are in time. -/
theorem attemptLoop_obeys_iff (remaining k : ℕ) (sentAt : ℚ) (earlier : List PyError)
    (cb : CircuitBreakerState) (lastError : PyStr) (past : List Moment) (h : Tracks past cb)
    (hleft : Retry.allLeft budgets earlier < remaining) :
    ∃ r, attemptLoop py action attempts remaining k sentAt (budgets.partition.recordAll earlier) cb
        lastError = r ∧
      (EventLog.Obeys Lawful past r.moments ↔
        Quiet cb sentAt ∧ RestrainedFrom attempts k earlier cb) ∧
      Tracks (past ++ r.moments) r.breaker ∧ r.breaker.state ≠ .halfOpen := by
  induction remaining generalizing k sentAt earlier cb lastError past with
  | zero => exact absurd hleft (Nat.not_lt_zero _)
  | succ remaining ih =>
    cases hreply : (attempts k).reply with
    | ok reply =>
      obtain ⟨r, hr, hend⟩ := attemptLoop_of_answer hreply
      refine ⟨r, hr, ?_⟩
      have hres : RestrainedFrom attempts k earlier cb := restrainedFrom_of_answer hreply
      rcases hend with ⟨-, hb, hm⟩ | ⟨-, hb, hm⟩
      · rw [hb, hm, obeys_answered_iff h]
        exact ⟨⟨fun hq => ⟨hq, hres⟩, And.left⟩, tracks_answered _ _ h, nofun⟩
      · rw [hb, hm, EventLog.obeys_append, obeys_answered_iff h]
        refine ⟨⟨fun hq => ⟨hq.1, hres⟩, fun hq => ⟨hq.1, lawful_rejected h, trivial⟩⟩,
          tracks_rejected h, ?_⟩
        exact not_halfOpen_recordFailure (sound_recordSuccess h.sound) _
    | error exc =>
      cases hgranted : RetryLanes.granted failureLane budgets.of earlier exc with
      | false =>
        have hres : RestrainedFrom attempts k earlier cb := restrainedFrom_of_stop hreply hgranted
        obtain ⟨r, hr, -, hb, hm⟩ := attemptLoop_of_stop hreply
          fun _ _ hrec => Retry.stops_of_not_granted hgranted hrec
        refine ⟨r, hr, ?_⟩
        rw [hb, hm, obeys_failed_iff h]
        exact ⟨⟨fun hq => ⟨hq, hres⟩, And.left⟩, tracks_failed _ _ h,
          not_halfOpen_recordFailure h.sound _⟩
      | true =>
        obtain ⟨evidence, hretry, hrec⟩ := Retry.retried_of_granted hgranted
        rw [attemptLoop_of_retry hreply hrec hretry]
        have hsum := RetryLanes.sum_left_of_granted hgranted
        have hnext := tracks_failed sentAt (attempts k).endedAt h
        obtain ⟨r, hr, hobeys, htracks, hhalf⟩ := ih (k + 1) (attempts k).resumesAt
          (earlier ++ [exc]) (cb.recordFailure (attempts k).endedAt) exc.text _ hnext
          (by unfold Retry.allLeft at hleft ⊢; omega)
        rw [hr]
        refine ⟨_, rfl, ?_, ?_, hhalf⟩
        · change EventLog.Obeys Lawful past (failedMoments _ _ _ ++ r.moments) ↔ _
          rw [EventLog.obeys_append, obeys_failed_iff h, hobeys, restrainedFrom_iff hreply hgranted,
            quiet_recordFailure_iff h.sound]
        · change Tracks (past ++ (failedMoments _ _ _ ++ r.moments)) r.breaker
          rw [← List.append_assoc]
          exact htracks

/-- From a breaker that lets the dispatch in, no retry is granted between the moment that the
breaker opens and the end of its timeout. -/
def Restrained (baseUrl : PyStr) (cb : CircuitBreakerState) (d : Dispatch φ) : Prop :=
  baseUrl ≠ [] → (cb.canAttempt d.now).1 = true → RestrainedFrom d.attempts 0 [] cb

/-- What holds between two dispatches. -/
structure Idle (log : List Moment) (cb : CircuitBreakerState) : Prop where
  tracks : Tracks log cb
  settled : cb.state ≠ .halfOpen

variable {cb : CircuitBreakerState} {past : List Moment}

theorem canAttempt_cases (h : cb.state ≠ .halfOpen) (now : ℚ) :
    (cb.canAttempt now = (true, cb) ∧ cb.state = .closed) ∨
      (cb.canAttempt now = (true, { cb with state := .halfOpen }) ∧ cb.state = .opened ∧
        cb.lastFailureTime + cb.resetTimeoutSeconds ≤ now) ∨
      (cb.canAttempt now = (false, cb) ∧ cb.state = .opened) := by
  cases hs : cb.state with
  | closed =>
    refine .inl ⟨?_, rfl⟩
    simp only [CircuitBreakerState.canAttempt, hs]
  | halfOpen => exact absurd hs h
  | opened =>
    by_cases ht : cb.resetTimeoutSeconds ≤ now - cb.lastFailureTime
    · refine .inr (.inl ⟨?_, rfl, ?_⟩)
      · simp only [CircuitBreakerState.canAttempt, hs, if_pos ht]
      · rw [add_comm]
        exact le_sub_iff_add_le.mp ht
    · refine .inr (.inr ⟨?_, rfl⟩)
      simp only [CircuitBreakerState.canAttempt, hs, if_neg ht]

theorem tracks_consulted {m : Moment} {allowed : Bool} {cb' : CircuitBreakerState}
    (h : Tracks past cb) (hm : m.event = .consulted allowed) (hsound : Sound cb')
    (hcount : cb'.failureCount = cb.failureCount) : Tracks (past ++ [m]) cb' := by
  refine ⟨hsound, ?_, ?_⟩
  · rw [streak_append, hm, hcount]
    exact h.counted
  · rw [inFlight_append, hm, h.landed]
    rfl

/-- A dispatch that the breaker lets in obeys the law exactly when its retries are in time. -/
theorem admitted_obeys_iff {cb' : CircuitBreakerState} (d : Dispatch φ)
    (hlaw : Lawful past ⟨.consulted true, d.now, cb, cb'⟩)
    (h : Tracks (past ++ [⟨.consulted true, d.now, cb, cb'⟩]) cb') (hquiet : Quiet cb' d.now) :
    ∃ r, attemptLoop py d.action d.attempts maxTotalAttempts 0 d.now budgets.partition cb' [] = r ∧
      (EventLog.Obeys Lawful past (⟨.consulted true, d.now, cb, cb'⟩ :: r.moments) ↔
        RestrainedFrom d.attempts 0 [] cb') ∧
      Idle (past ++ (⟨.consulted true, d.now, cb, cb'⟩ :: r.moments)) r.breaker := by
  have hleft : Retry.allLeft budgets [] < maxTotalAttempts := by
    rw [Retry.allLeft_nil]
    decide
  obtain ⟨r, hr, hobeys, htracks, hhalf⟩ := attemptLoop_obeys_iff py d.action d.attempts
    maxTotalAttempts 0 d.now [] cb' [] _ h hleft
  refine ⟨r, hr, ?_, ?_, hhalf⟩
  · rw [EventLog.Obeys, hobeys]
    exact ⟨fun hall => hall.2.2, fun hres => ⟨hlaw, hquiet, hres⟩⟩
  · rw [List.append_cons]
    exact htracks

/-- A dispatch obeys the law exactly when its retries are in time. -/
theorem dispatch_obeys_iff (baseUrl : PyStr) (d : Dispatch φ) (h : Idle past cb) :
    (EventLog.Obeys Lawful past (dispatch py baseUrl cb d).moments ↔ Restrained baseUrl cb d) ∧
      Idle (past ++ (dispatch py baseUrl cb d).moments) (dispatch py baseUrl cb d).breaker := by
  unfold dispatch Restrained
  by_cases hurl : baseUrl = []
  · rw [if_pos hurl, List.append_nil]
    exact ⟨⟨fun _ hne => absurd hurl hne, fun _ => trivial⟩, h⟩
  · rw [if_neg hurl]
    have hcounted := h.tracks.counted
    have hclosed := h.tracks.sound.closed_iff
    rcases canAttempt_cases h.settled d.now with ⟨hcan, hs⟩ | ⟨hcan, hs, ht⟩ | ⟨hcan, hs⟩
    · have hlaw : Lawful past ⟨.consulted true, d.now, cb, cb⟩ := by
        refine ⟨nofun, nofun, fun hopen => absurd hs hopen, fun hstreak => ?_⟩
        rw [streak_append] at hstreak
        exact absurd (hstreak.trans hcounted) (Nat.not_le.mpr (hclosed.mp hs))
      obtain ⟨r, hr, hobeys, hidle⟩ := admitted_obeys_iff py d hlaw
        (tracks_consulted h.tracks rfl h.tracks.sound rfl) fun hopen => absurd hs hopen
      simp only [hcan, hr]
      exact ⟨hobeys.trans ⟨fun hres _ _ => hres, fun hres => hres hurl trivial⟩, hidle⟩
    · have hsound : Sound { cb with state := .halfOpen } := by
        refine ⟨h.tracks.sound.threshold, nofun, fun hlt => ?_⟩
        rw [hclosed.mpr hlt] at hs
        cases hs
      have hlaw : Lawful past ⟨.consulted true, d.now, cb, { cb with state := .halfOpen }⟩ :=
        ⟨nofun, nofun, fun _ => nofun, fun _ hclock => absurd ht (not_le.mpr hclock)⟩
      obtain ⟨r, hr, hobeys, hidle⟩ := admitted_obeys_iff py d hlaw
        (tracks_consulted h.tracks rfl hsound rfl) fun _ => ht
      simp only [hcan, hr]
      exact ⟨hobeys.trans ⟨fun hres _ _ => hres, fun hres => hres hurl trivial⟩, hidle⟩
    · have hlaw : Lawful past ⟨.consulted false, d.now, cb, cb⟩ := by
        refine ⟨nofun, nofun, fun hopen hcl => absurd hcl hopen, fun _ _ => hs⟩
      simp only [hcan]
      refine ⟨⟨fun _ _ => nofun, fun _ => ⟨hlaw, trivial⟩⟩, ?_, h.settled⟩
      exact tracks_consulted h.tracks rfl h.tracks.sound rfl

end Loop

section Runs
variable {φ : Type} (py : PyInterpreter φ) (baseUrl : PyStr)

theorem run_append (cb : CircuitBreakerState) (ds ds' : List (Dispatch φ)) :
    (run py baseUrl cb (ds ++ ds')).1 = (run py baseUrl (run py baseUrl cb ds).1 ds').1 := by
  induction ds generalizing cb with
  | nil => rfl
  | cons d ds ih => exact ih _

theorem run_obeys_iff (cb : CircuitBreakerState) (earlier ds : List (Dispatch φ))
    (past : List Moment) (h : Idle past (run py baseUrl cb earlier).1) :
    EventLog.Obeys Lawful past (run py baseUrl (run py baseUrl cb earlier).1 ds).2 ↔
      EventLog.Obeys (fun before d => Restrained baseUrl (run py baseUrl cb before).1 d)
        earlier ds := by
  induction ds generalizing earlier past with
  | nil => exact Iff.rfl
  | cons d ds ih =>
    obtain ⟨hobeys, hidle⟩ := dispatch_obeys_iff py baseUrl d h
    have hnext : (dispatch py baseUrl (run py baseUrl cb earlier).1 d).breaker =
        (run py baseUrl cb (earlier ++ [d])).1 := by
      rw [run_append]
      rfl
    rw [hnext] at hidle
    have hrest := ih (earlier ++ [d]) _ hidle
    rw [run, EventLog.obeys_append, hobeys, hnext, hrest, EventLog.Obeys]

/-- The dispatches of a new adapter obey the law exactly when each of them is restrained: whenever
the partition grants it a retry, the breaker is still closed or its timeout has passed. -/
theorem breaker_law_iff (ds : List (Dispatch φ)) :
    EventLog.Obeys Lawful [] (run py baseUrl {} ds).2 ↔
      EventLog.Obeys (fun before d => Restrained baseUrl (run py baseUrl {} before).1 d) [] ds := by
  have hnew : Idle [] ({} : CircuitBreakerState) :=
    ⟨⟨⟨by decide, by decide⟩, Nat.zero_le _, rfl⟩, nofun⟩
  exact run_obeys_iff py baseUrl {} [] ds [] hnew

end Runs

/-! ## Two dispatches to a server that is down -/

def timedOut : PyError where
  text := PyStr.ofString "timed out"
  osError := true

def downServer (now : ℚ) : Dispatch Unit where
  action := PyStr.ofString "status"
  now := now
  attempts k := ⟨.error timedOut, now + 20 * k + 10, now + 20 * k + 12⟩

def plainInterpreter : PyInterpreter Unit := ⟨fun _ => true, fun _ => [], fun _ => [], id⟩

def host : PyStr := PyStr.ofString "https://cp.example"

def downLog : List Moment :=
  (run plainInterpreter host {} [downServer 0, downServer 100]).2

/-- The second dispatch sends its third request two seconds after its second failure, which is the
fifth in a row and opened the breaker. -/
theorem retried_while_open : ¬EventLog.Obeys Lawful [] downLog := by
  intro h
  have hearly : ∃ m ∈ downLog, m.event = .sent ∧ m.before.state = .opened ∧
      m.clock < m.before.lastFailureTime + m.before.resetTimeoutSeconds := by decide +kernel
  obtain ⟨m, hm, hsent, hopen, hclock⟩ := hearly
  obtain ⟨pre, post, hlog⟩ := List.append_of_mem hm
  have hlaw := EventLog.obeys_iff.mp h pre m post hlog
  refine absurd (hlaw.quiet hsent ?_) (not_le.mpr hclock)
  rw [hopen]
  nofun

end OpenClaw.ControlPlane
