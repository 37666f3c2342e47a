import OpenClaw.Connector.ScheduleDelivery
import OpenClaw.Scheduler.OutboxSteps

/-!
# Platform sends of one delivery

A delivery that was handed to a platform send stays with its task until the outbox has finalized
it, except when the task ends on a refused or exhausted acknowledgement while the delivery can
still be handed out: claimed again on the server, or in a claim answer on its way.
-/

namespace OpenClaw.Connector

open Foundation DeliveryOutbox
set_option autoImplicit false

variable {env : Env} {cfg : ConnectorConfig} {s : System}

/-- Neither the outbox nor a claim answer on its way can bring `d` to the worker again. -/
def System.Over (s : System) (d : String) : Prop :=
  Closed s.outbox d ∧ ∀ c ∈ s.worker.poll.deliveries, c.intent.deliveryId ≠ d

/-- The task of `d` ends when its attempt fails with this status. -/
def Worker.givesUp (w : Worker) (d : String) (status : Option ℕ) : Prop :=
  ∃ outcome reason number attempt,
    w.active.get? d = some ⟨d, .acking outcome reason number attempt⟩ ∧ attempt ≠ .ready ∧
      finalFailure status number = true

/-- No task ends on a failed acknowledgement while its delivery, handed to a platform send, can
come again; and no id that was sent and dropped is recorded again. -/
def System.Careful (env : Env) (s : System) : Event → Prop
  | .record args now => ∀ d ∈ s.worker.sends, ¬ (Call.record args now).records env s.outbox d
  | .ackHeard d => ∀ outcome reason number n, n ∉ okStatuses →
      s.worker.active.get? d = some ⟨d, .acking outcome reason number (.answered n)⟩ →
        s.worker.givesUp d (some n) → d ∈ s.worker.sends → s.Over d
  | .ackLost d status _ => s.worker.givesUp d status → d ∈ s.worker.sends → s.Over d
  | _ => True

/-! ## Tokens -/

/-- The tokens the worker holds or has sent for `d`. -/
def Worker.Knows (w : Worker) (d token : String) : Prop :=
  w.leaseToken? d = some token ∨ ∃ outcome reason number,
    w.active.get? d = some ⟨d, .acking outcome reason number (.requested token)⟩

/-- Known tokens were drawn; an item on its way carries a token drawn later than those known for
its delivery, and not later than the one on record. -/
structure Tokens (env : Env) (s : System) : Prop where
  known : ∀ d t, s.worker.Knows d t → ∃ n < s.outbox.drawn, t = env.tokenUrlsafe n
  coming : ∀ c ∈ s.worker.poll.deliveries, ∃ n < s.outbox.drawn,
    c.leaseToken = env.tokenUrlsafe n ∧
      (∀ t, s.worker.Knows c.intent.deliveryId t → ∃ m < n, t = env.tokenUrlsafe m) ∧
        ∀ i ∈ s.outbox.held c.intent.deliveryId, ∀ m,
          i.leaseTokenHash = some (env.hashToken (env.tokenUrlsafe m)) → n ≤ m

/-- Every two drawn tokens have different hashes. -/
def TokensDistinct (env : Env) : Prop :=
  Function.Injective fun n => env.hashToken (env.tokenUrlsafe n)

/-- The worker may forget tokens and items. -/
theorem Tokens.mono (h : Tokens env s) {w : Worker}
    (hitems : ∀ c ∈ w.poll.deliveries, c ∈ s.worker.poll.deliveries)
    (hknows : ∀ d t, w.Knows d t → s.worker.Knows d t) : Tokens env { s with worker := w } := by
  refine ⟨fun d t ht => h.known d t (hknows d t ht), fun c hc => ?_⟩
  obtain ⟨n, hn, ht, hold, hrec⟩ := h.coming c (hitems c hc)
  exact ⟨n, hn, ht, fun t hk => hold t (hknows _ t hk), hrec⟩

theorem Tokens.call (h : Tokens env s) (distinct : TokensDistinct env) (c : Call) :
    Tokens env (s.call env c) := by
  have hdrawn : s.outbox.drawn ≤ (s.call env c).outbox.drawn := drawn_mono c
  constructor
  · intro d t ht
    obtain ⟨n, hn, he⟩ := h.known d t ht
    exact ⟨n, hn.trans_le hdrawn, he⟩
  · intro x hx
    obtain ⟨n, hn, ht, hold, hrec⟩ := h.coming x hx
    refine ⟨n, hn.trans_le hdrawn, ht, hold, fun j hj m hm => ?_⟩
    rcases hash_step (Option.mem_def.mp hj) with hnone | ⟨i, hi, hsame⟩ | ⟨k, hk, hdraw⟩
    · rw [hnone] at hm
      cases hm
    · exact hrec i hi m (hsame.symm.trans hm)
    · have hmk : m = k := distinct (Option.some.inj (hm.symm.trans hdraw))
      omega

/-! ## The invariant -/

def Phase.busy : Phase → Bool
  | .sending _ _ => true
  | .acking _ _ _ _ => true
  | _ => false

/-- A delivery that was sent is with its busy task or over; an acknowledged one is over. -/
structure Inv (env : Env) (s : System) : Prop where
  tokens : Tokens env s
  once : s.worker.sends.Nodup
  token : ∀ d, s.worker.active.get? d ≠ none → s.worker.leaseToken? d ≠ none
  fresh : ∀ d item, s.worker.active.get? d = some ⟨d, .waiting item⟩ → d ∉ s.worker.sends
  out : ∀ d ∈ s.worker.sends, s.Over d ∨
    ∃ p, s.worker.active.get? d = some ⟨d, p⟩ ∧ p.busy = true
  acked : ∀ d outcome reason number n,
    s.worker.active.get? d = some ⟨d, .acking outcome reason number (.answered n)⟩ →
      n ∈ okStatuses → d ∈ s.worker.sends → s.Over d

theorem over_call {d : String} (h : s.Over d) {c : Call} (hc : ¬ c.records env s.outbox d) :
    (s.call env c).Over d :=
  ⟨(closed_step h.1 hc).1, h.2⟩

theorem Inv.call (h : Inv env s) (distinct : TokensDistinct env) {c : Call}
    (hc : ∀ d ∈ s.worker.sends, ¬ c.records env s.outbox d) : Inv env (s.call env c) where
  tokens := h.tokens.call distinct c
  once := h.once
  token := h.token
  fresh := h.fresh
  out := by
    intro d hd
    rcases h.out d hd with hover | hbusy
    · exact Or.inl (over_call hover (hc d hd))
    · exact Or.inr hbusy
  acked := by
    intro d outcome reason number n hget hn hd
    exact over_call (h.acked d outcome reason number n hget hn hd) (hc d hd)

@[simp] theorem get?_setPhase (w : Worker) (d d' : String) (p : Phase) :
    (w.setPhase d p).active.get? d' = if d = d' then some ⟨d, p⟩ else w.active.get? d' := by
  simp [Worker.setPhase]

/-- A task goes on to its next phase. -/
theorem Inv.phase (h : Inv env s) {d : String} {q p : Phase}
    (hq : s.worker.active.get? d = some ⟨d, q⟩) (hwait : ∀ item, p ≠ .waiting item)
    (hout : d ∈ s.worker.sends → p.busy = true ∨ s.Over d)
    (hack : ∀ outcome reason number n, p = .acking outcome reason number (.answered n) →
      n ∈ okStatuses → d ∈ s.worker.sends → s.Over d)
    (hreq : ∀ outcome reason number t, p = .acking outcome reason number (.requested t) →
      s.worker.Knows d t) : Inv env { s with worker := s.worker.setPhase d p } where
  tokens := by
    refine h.tokens.mono (fun c hc => hc) fun d' t hk => ?_
    rcases hk with hk | ⟨outcome, reason, number, hk⟩
    · exact Or.inl hk
    · rw [get?_setPhase] at hk
      split at hk
      · rename_i he
        subst he
        simp only [Option.some.injEq, Task.mk.injEq, true_and] at hk
        exact hreq outcome reason number t hk
      · exact Or.inr ⟨outcome, reason, number, hk⟩
  once := h.once
  token := by
    intro d' hd'
    rw [get?_setPhase] at hd'
    split at hd'
    · rename_i he
      subst he
      exact h.token d (by rw [hq]; exact Option.some_ne_none _)
    · exact h.token d' hd'
  fresh := by
    intro d' item hget
    rw [get?_setPhase] at hget
    split at hget
    · simp only [Option.some.injEq, Task.mk.injEq] at hget
      exact absurd hget.2 (hwait item)
    · exact h.fresh d' item hget
  out := by
    intro d' hd'
    rw [get?_setPhase]
    split
    · rename_i he
      subst he
      rcases hout hd' with hb | hover
      · exact Or.inr ⟨p, rfl, hb⟩
      · exact Or.inl hover
    · exact h.out d' hd'
  acked := by
    intro d' outcome reason number n hget hn hd'
    rw [get?_setPhase] at hget
    split at hget
    · rename_i he
      subst he
      simp only [Option.some.injEq, Task.mk.injEq, true_and] at hget
      exact hack outcome reason number n hget hn hd'
    · exact h.acked d' outcome reason number n hget hn hd'

/-! ## The poll -/

/-- The poll may drop its items. -/
theorem Inv.quiet (h : Inv env s) {p : Poll} (hp : p.deliveries = []) :
    Inv env { s with worker := { s.worker with poll := p } } := by
  have hover : ∀ d, s.Over d →
      System.Over { s with worker := { s.worker with poll := p } } d := by
    intro d hd
    refine ⟨hd.1, fun c hc => ?_⟩
    have hc : c ∈ p.deliveries := hc
    rw [hp] at hc
    cases hc
  refine ⟨h.tokens.mono ?_ fun d t hk => hk, h.once, h.token, h.fresh, ?_, ?_⟩
  · intro c hc
    have hc : c ∈ p.deliveries := hc
    rw [hp] at hc
    cases hc
  · intro d hd
    exact (h.out d hd).imp_left (hover d)
  · intro d outcome reason number n hget hn hd
    exact hover d (h.acked d outcome reason number n hget hn hd)

theorem inv_pollBegins (h : Inv env s) :
    Inv env { s with worker := s.worker.pollBegins cfg } := by
  unfold Worker.pollBegins
  split
  · split
    · exact h
    · exact h.quiet rfl
  · exact h

theorem inv_claimHandled (h : Inv env s) (distinct : TokensDistinct env) (now : ℚ) :
    Inv env (s.claimHandled env cfg now) := by
  unfold System.claimHandled
  split
  swap
  · exact h
  rename_i limit hpoll
  have hrec : ∀ d, ¬ (Call.claim (System.claimArgs cfg limit) now).records env s.outbox d :=
    fun d hd => hd
  simp only
  split
  swap
  · exact h.call distinct fun d _ => hrec d
  rename_i items hr
  have hcall : Inv env (s.call env (.claim (System.claimArgs cfg limit) now)) :=
    h.call distinct fun d _ => hrec d
  have hover : ∀ d, s.Over d → System.Over { s.call env
      (.claim (System.claimArgs cfg limit) now) with
        worker := { s.worker with poll := .answered items } } d := by
    intro d hd
    obtain ⟨hclosed, hclaim⟩ := closed_step hd.1 (hrec d)
    refine ⟨hclosed, fun c hc => ?_⟩
    rw [hr] at hclaim
    simpa using List.find?_eq_none.mp hclaim c hc
  refine ⟨⟨hcall.tokens.known, ?_⟩, h.once, h.token, h.fresh, ?_, ?_⟩
  · intro c hc
    obtain ⟨n, hlo, hhi, htok, hheld, hhash⟩ := claim_tokens hr hc
    refine ⟨n, hhi, htok, fun t hk => ?_, fun i hi m hm => ?_⟩
    · obtain ⟨m, hm, he⟩ := h.tokens.known _ t hk
      exact ⟨m, by omega, he⟩
    · have hi : (s.outbox.exec env (.claim (System.claimArgs cfg limit) now) true).1.held
          c.intent.deliveryId = some i := hi
      rw [hheld] at hi
      cases hi
      have : n = m := distinct (Option.some.inj (hhash.symm.trans hm))
      omega
  · intro d hd
    exact (h.out d hd).imp_left (hover d)
  · intro d outcome reason number n hget hn hd
    exact hover d (h.acked d outcome reason number n hget hn hd)

theorem leaseToken?_put (w : Worker) (d d' t : String) (a : Table Task.deliveryId) :
    ({ w with active := a, leaseTokens := w.leaseTokens.put (d, t) } : Worker).leaseToken? d' =
      if d = d' then some t else w.leaseToken? d' := by
  simp only [Worker.leaseToken?, Table.get?_put]
  split <;> rfl

/-- What one turn of the poll's loop leaves. -/
theorem adopt_cases (w : Worker) (c : ClaimedIntent) :
    ((w.adopt c).sends = w.sends ∧ (w.adopt c).poll = w.poll) ∧
      (∀ d, (w.adopt c).leaseToken? d =
        if c.intent.deliveryId = d then some c.leaseToken else w.leaseToken? d) ∧
      ∀ d, (w.adopt c).active.get? d = w.active.get? d ∨ (w.active.get? d = none ∧
        c.intent.deliveryId = d ∧ (w.adopt c).active.get? d = some ⟨d, .waiting c.intent⟩) := by
  unfold Worker.adopt
  simp only
  split
  · exact ⟨⟨rfl, rfl⟩, fun d => leaseToken?_put w _ d _ _, fun d => Or.inl rfl⟩
  · rename_i hnone
    refine ⟨⟨rfl, rfl⟩, fun d => leaseToken?_put w _ d _ _, fun d => ?_⟩
    rw [get?_setPhase]
    split
    · rename_i he
      subst he
      exact Or.inr ⟨hnone, rfl, rfl⟩
    · exact Or.inl rfl

theorem inv_adopt (h : Inv env s) (hquiet : s.worker.poll.deliveries = []) {c : ClaimedIntent}
    (htok : ∃ n < s.outbox.drawn, c.leaseToken = env.tokenUrlsafe n)
    (hsent : c.intent.deliveryId ∈ s.worker.sends →
      s.worker.active.get? c.intent.deliveryId ≠ none) :
    Inv env { s with worker := s.worker.adopt c } := by
  obtain ⟨⟨hsends, hpoll⟩, htokens, hactive⟩ := adopt_cases s.worker c
  have hover : ∀ d, s.Over d → System.Over { s with worker := s.worker.adopt c } d := by
    intro d hd
    refine ⟨hd.1, fun x hx => ?_⟩
    rw [hpoll, hquiet] at hx
    cases hx
  have hkept : ∀ d p, s.worker.active.get? d = some ⟨d, p⟩ →
      (s.worker.adopt c).active.get? d = some ⟨d, p⟩ := by
    intro d p hp
    rcases hactive d with he | ⟨hnone, _⟩
    · rw [he, hp]
    · rw [hp] at hnone
      cases hnone
  have hacking : ∀ d outcome reason number a,
      (s.worker.adopt c).active.get? d = some ⟨d, .acking outcome reason number a⟩ →
        s.worker.active.get? d = some ⟨d, .acking outcome reason number a⟩ := by
    intro d outcome reason number a hget
    rcases hactive d with he | ⟨_, _, hnew⟩
    · rw [← he, hget]
    · rw [hget] at hnew
      cases hnew
  refine ⟨⟨?_, ?_⟩, ?_, ?_, ?_, ?_, ?_⟩
  · intro d t hk
    rcases hk with hk | ⟨outcome, reason, number, hk⟩
    · rw [htokens] at hk
      split at hk
      · cases hk
        exact htok
      · exact h.tokens.known d t (Or.inl hk)
    · exact h.tokens.known d t (Or.inr ⟨outcome, reason, number, hacking _ _ _ _ _ hk⟩)
  · intro x hx
    rw [hpoll, hquiet] at hx
    cases hx
  · rw [hsends]
    exact h.once
  · intro d hd
    rw [htokens]
    split
    · exact Option.some_ne_none _
    · rename_i hne
      rcases hactive d with he | ⟨_, he, _⟩
      · exact h.token d (he ▸ hd)
      · exact absurd he hne
  · intro d item hget
    rw [hsends]
    rcases hactive d with he | ⟨hnone, he, _⟩
    · exact h.fresh d item (he ▸ hget)
    · exact fun hd => hsent (he ▸ hd) (he ▸ hnone)
  · intro d hd
    rw [hsends] at hd
    rcases h.out d hd with ho | ⟨p, hp, hb⟩
    · exact Or.inl (hover d ho)
    · exact Or.inr ⟨p, hkept d p hp, hb⟩
  · intro d outcome reason number n hget hn hd
    rw [hsends] at hd
    exact hover d (h.acked d outcome reason number n (hacking _ _ _ _ _ hget) hn hd)

theorem inv_adoptAll (items : List ClaimedIntent) : ∀ {s : System}, Inv env s →
    s.worker.poll.deliveries = [] →
    (∀ c ∈ items, (∃ n < s.outbox.drawn, c.leaseToken = env.tokenUrlsafe n) ∧
      (c.intent.deliveryId ∈ s.worker.sends →
        s.worker.active.get? c.intent.deliveryId ≠ none)) →
    Inv env { s with worker := items.foldl Worker.adopt s.worker } := by
  induction items with
  | nil => exact fun h _ _ => h
  | cons c items ih =>
    intro s h hquiet hitems
    obtain ⟨htok, hsent⟩ := hitems c List.mem_cons_self
    obtain ⟨⟨hsends, hpoll⟩, _, hactive⟩ := adopt_cases s.worker c
    refine ih (inv_adopt h hquiet htok hsent) ?_ ?_
    · rw [hpoll]
      exact hquiet
    · intro x hx
      obtain ⟨htok, hsent⟩ := hitems x (List.mem_cons_of_mem c hx)
      refine ⟨htok, fun hx => ?_⟩
      rw [hsends] at hx
      rcases hactive x.intent.deliveryId with he | ⟨hnone, _⟩
      · rw [he]
        exact hsent hx
      · exact absurd hnone (hsent hx)

theorem adopt_poll (p : Poll) (items : List ClaimedIntent) : ∀ w : Worker,
    { items.foldl Worker.adopt w with poll := p } =
      items.foldl Worker.adopt { w with poll := p } := by
  induction items with
  | nil => exact fun w => rfl
  | cons c items ih =>
    intro w
    rw [List.foldl_cons, List.foldl_cons, ih]
    congr 1
    unfold Worker.adopt
    simp only
    split <;> rfl

theorem inv_pollEnds (h : Inv env s) (heard : Bool) :
    Inv env { s with worker := s.worker.pollEnds heard } := by
  cases heard with
  | false => exact h.quiet rfl
  | true =>
    simp only [Worker.pollEnds, if_true, adopt_poll]
    have hidle : Inv env { s with worker := { s.worker with poll := .idle } } := h.quiet rfl
    apply inv_adoptAll s.worker.poll.deliveries hidle rfl
    intro c hc
    obtain ⟨n, hn, htok, _⟩ := h.tokens.coming c hc
    refine ⟨⟨n, hn, htok⟩, fun hd => ?_⟩
    rcases h.out _ hd with hover | ⟨p, hp, _⟩
    · exact absurd rfl (hover.2 c hc)
    · rw [hp]
      exact Option.some_ne_none _

/-! ## The tasks -/

theorem inv_jobReady (h : Inv env s) (d : String) (job : Job) :
    Inv env { s with worker := s.worker.jobReady cfg d job } := by
  unfold Worker.jobReady
  split
  swap
  · exact h
  rename_i d' item hget
  obtain rfl : d' = d := Table.key_of_get? hget
  have hfresh := h.fresh d' item hget
  split
  · rename_i outcome reason _
    apply h.phase hget
    · intro item he
      cases he
    · exact fun hd => absurd hd hfresh
    · intro _ _ _ n he
      cases he
    · intro _ _ _ t he
      cases he
  · rename_i outcome reason _
    have hphase : Inv env { s with worker := s.worker.setPhase d' (.sending outcome reason) } := by
      apply h.phase hget
      · intro item he
        cases he
      · exact fun _ => Or.inl rfl
      · intro _ _ _ n he
        cases he
      · intro _ _ _ t he
        cases he
    have hnow : (s.worker.setPhase d' (.sending outcome reason)).active.get? d' =
        some ⟨d', .sending outcome reason⟩ := by rw [get?_setPhase, if_pos rfl]
    refine ⟨⟨hphase.tokens.known, hphase.tokens.coming⟩, ?_, hphase.token, ?_, ?_, ?_⟩
    · exact List.nodup_append.mpr ⟨h.once, List.nodup_singleton d', fun a ha b hb he =>
        hfresh (by rw [← List.mem_singleton.mp hb, ← he]; exact ha)⟩
    · intro d item hw hd
      rcases List.mem_append.mp hd with hd | hd
      · exact hphase.fresh d item hw hd
      · rw [List.mem_singleton.mp hd] at hw
        rw [hnow] at hw
        cases hw
    · intro d hd
      rcases List.mem_append.mp hd with hd | hd
      · exact hphase.out d hd
      · rw [List.mem_singleton.mp hd]
        exact Or.inr ⟨_, hnow, rfl⟩
    · intro d outcome reason number n ha hn hd
      rcases List.mem_append.mp hd with hd | hd
      · exact hphase.acked d outcome reason number n ha hn hd
      · rw [List.mem_singleton.mp hd] at ha
        rw [hnow] at ha
        cases ha

/-- A busy task goes on to an attempt that the core has not answered. -/
theorem Inv.attempt (h : Inv env s) {d : String} {q : Phase}
    (hq : s.worker.active.get? d = some ⟨d, q⟩) (outcome : String) (reason : Option String)
    (number : ℕ) {a : Attempt} (ha : ∀ n, a ≠ .answered n)
    (hreq : ∀ t, a = .requested t → s.worker.Knows d t) :
    Inv env { s with worker := s.worker.setPhase d (.acking outcome reason number a) } := by
  apply h.phase hq
  · intro item he
    cases he
  · exact fun _ => Or.inl rfl
  · intro _ _ _ n he
    cases he
    exact absurd rfl (ha n)
  · intro _ _ _ t he
    cases he
    exact hreq t rfl

theorem inv_sendEnds (h : Inv env s) (d : String) (raised : Bool) :
    Inv env { s with worker := s.worker.sendEnds d raised } := by
  unfold Worker.sendEnds
  split
  swap
  · exact h
  rename_i d' outcome reason hget
  obtain rfl : d' = d := Table.key_of_get? hget
  split
  · exact h.attempt hget _ _ 1 (fun n he => by cases he) fun t he => by cases he
  · exact h.attempt hget _ _ 1 (fun n he => by cases he) fun t he => by cases he

theorem inv_ackBegins (h : Inv env s) (d : String) :
    Inv env { s with worker := s.worker.ackBegins d } := by
  unfold Worker.ackBegins
  split
  swap
  · exact h
  rename_i d' outcome reason number hget
  obtain rfl : d' = d := Table.key_of_get? hget
  split
  · rename_i hnone
    exact absurd hnone (h.token d' (by rw [hget]; exact Option.some_ne_none _))
  · rename_i token htok
    apply h.attempt hget outcome reason number
    · intro n he
      cases he
    · intro t he
      cases he
      exact Or.inl htok

theorem Inv.finish (h : Inv env s) {d : String} {q : Phase}
    (hq : s.worker.active.get? d = some ⟨d, q⟩) (hover : d ∈ s.worker.sends → s.Over d) :
    Inv env { s with worker := s.worker.setPhase d .finished } := by
  apply h.phase hq
  · intro item he
    cases he
  · exact fun hd => Or.inr (hover hd)
  · intro _ _ _ n he
    cases he
  · intro _ _ _ t he
    cases he

theorem inv_ackFailed (h : Inv env s) (d : String) (status : Option ℕ)
    (hover : s.worker.givesUp d status → d ∈ s.worker.sends → s.Over d) :
    Inv env { s with worker := s.worker.ackFailed d status } := by
  unfold Worker.ackFailed
  split
  swap
  · exact h
  rename_i d' outcome reason number attempt hget
  obtain rfl : d' = d := Table.key_of_get? hget
  split
  · exact h
  rename_i hready
  split
  · rename_i hfinal
    exact h.finish hget (hover ⟨outcome, reason, number, attempt, hget, hready, hfinal⟩)
  · exact h.attempt hget _ _ _ (fun n he => by cases he) fun t he => by cases he

theorem inv_ackHeard (h : Inv env s) (d : String) (hcare : s.Careful env (.ackHeard d)) :
    Inv env { s with worker := s.worker.ackHeard d } := by
  unfold Worker.ackHeard
  split
  swap
  · exact h
  rename_i d' outcome reason number status hget
  obtain rfl : d' = d := Table.key_of_get? hget
  split
  · rename_i hok
    exact h.finish hget (h.acked d' outcome reason number status hget hok)
  · rename_i hok
    exact inv_ackFailed h d' (some status) (hcare outcome reason number status hok hget)

/-- An accepted acknowledgement carries the token on record, so no newer one is on its way. -/
theorem over_of_acked (h : Inv env s) {d token : String}
    (hknows : s.worker.Knows d token) {outcome : String} {reason : Option String} {now : ℚ}
    {res : AckResult}
    (hr : (s.outbox.exec env (.ack (System.ackArgs cfg d token outcome reason) now) true).2 =
      .acked res) :
    System.Over (s.call env (.ack (System.ackArgs cfg d token outcome reason) now)) d := by
  obtain ⟨i, hi, hhash, hclosed⟩ := acked_step hr
  refine ⟨hclosed, fun c hc he => ?_⟩
  obtain ⟨n, _, _, hold, hrec⟩ := h.tokens.coming c hc
  obtain ⟨m, hm, rfl⟩ := hold token (he ▸ hknows)
  have := hrec i (he ▸ hi) m hhash
  omega

theorem acked_of_ok {r : Reply} (h : ackStatus r ∈ okStatuses) : ∃ res, r = .acked res := by
  unfold ackStatus outboxErrorStatus okStatuses at h
  split at h
  · exact ⟨_, rfl⟩
  · split at h <;> simp at h
  · simp at h

theorem inv_ackHandled (h : Inv env s) (distinct : TokensDistinct env) (d : String) (now : ℚ) :
    Inv env (s.ackHandled env cfg d now) := by
  unfold System.ackHandled
  split
  swap
  · exact h
  rename_i d' outcome reason number token hget
  obtain rfl : d' = d := Table.key_of_get? hget
  have hknows : s.worker.Knows d' token := Or.inr ⟨outcome, reason, number, hget⟩
  have hcall : Inv env (s.call env (.ack (System.ackArgs cfg d' token outcome reason) now)) :=
    h.call distinct fun d _ hd => hd
  apply hcall.phase hget
  · intro item he
    cases he
  · exact fun _ => Or.inl rfl
  · intro _ _ _ n he hok _
    cases he
    obtain ⟨res, hr⟩ := acked_of_ok hok
    exact over_of_acked h hknows hr
  · intro _ _ _ t he
    cases he

theorem inv_forget (h : Inv env s) (d : String) :
    Inv env { s with worker := s.worker.forget d } := by
  unfold Worker.forget
  split
  swap
  · exact h
  rename_i d' hget
  obtain rfl : d' = d := Table.key_of_get? hget
  have hgone : ∀ x, ({ s.worker with
      active := s.worker.active.drop d', leaseTokens := s.worker.leaseTokens.drop d' } :
        Worker).leaseToken? x = if d' = x then none else s.worker.leaseToken? x := by
    intro x
    simp only [Worker.leaseToken?, Table.get?_drop]
    split <;> rfl
  have hstay : ∀ x t, (s.worker.active.drop d').get? x = some t →
      d' ≠ x ∧ s.worker.active.get? x = some t := by
    intro x t hx
    rw [Table.get?_drop] at hx
    split at hx
    · cases hx
    · rename_i hne
      exact ⟨hne, hx⟩
  have htokens : Tokens env { s with worker := { s.worker with
      active := s.worker.active.drop d', leaseTokens := s.worker.leaseTokens.drop d' } } := by
    refine h.tokens.mono (fun c hc => hc) fun x t hk => ?_
    rcases hk with hk | ⟨outcome, reason, number, hk⟩
    · rw [hgone] at hk
      split at hk
      · cases hk
      · exact Or.inl hk
    · exact Or.inr ⟨outcome, reason, number, (hstay x _ hk).2⟩
  refine ⟨htokens, h.once, ?_, ?_, ?_, ?_⟩
  · intro x hx
    obtain ⟨t, ht⟩ := Option.ne_none_iff_exists'.mp hx
    obtain ⟨hne, hget'⟩ := hstay x t ht
    rw [hgone, if_neg hne]
    exact h.token x (by rw [hget']; exact Option.some_ne_none t)
  · intro x item hx
    exact h.fresh x item (hstay x _ hx).2
  · intro x hx
    rcases h.out x hx with hover | ⟨p, hp, hb⟩
    · exact Or.inl hover
    · right
      refine ⟨p, ?_, hb⟩
      have hne : d' ≠ x := by
        intro he
        rw [← he, hget] at hp
        cases hp
        cases hb
      exact (Table.get?_drop _ _ _).trans ((if_neg hne).trans hp)
  · intro x outcome reason number n hx hn hd
    exact h.acked x outcome reason number n (hstay x _ hx).2 hn hd

/-! ## Runs -/

theorem inv_step (h : Inv env s) (distinct : TokensDistinct env) (e : Event)
    (hcare : s.Careful env e) : Inv env (s.step env cfg e) := by
  cases e with
  | record args now => exact h.call distinct hcare
  | list args now => exact h.call distinct fun d _ hd => hd
  | pollBegins => exact inv_pollBegins h
  | claimHandled now => exact inv_claimHandled h distinct now
  | pollEnds heard => exact inv_pollEnds h heard
  | jobReady d job => exact inv_jobReady h d job
  | sendEnds d raised => exact inv_sendEnds h d raised
  | ackBegins d => exact inv_ackBegins h d
  | ackHandled d now => exact inv_ackHandled h distinct d now
  | ackHeard d => exact inv_ackHeard h d hcare
  | ackLost d status _ => exact inv_ackFailed h d status hcare
  | forget d => exact inv_forget h d
  | lateClaim limit now => exact h.call distinct fun d _ hd => hd
  | lateAck d token outcome reason now => exact h.call distinct fun d _ hd => hd

/-- The worker has just started; the outbox may hold anything. -/
theorem inv_start (outbox : Outbox) : Inv env { outbox } where
  tokens :=
    { known := by
        intro d t hk
        rcases hk with hk | ⟨_, _, _, hk⟩
        · cases hk
        · cases hk
      coming := fun c hc => by cases hc }
  once := List.nodup_nil
  token := fun d hd => absurd rfl hd
  fresh := fun d item hget => by cases hget
  out := fun d hd => by cases hd
  acked := fun d outcome reason number n hget => by cases hget

/-- The system before the `k`-th event of a run with a freshly started worker. -/
def System.state (env : Env) (cfg : ConnectorConfig) (outbox : Outbox) (events : ℕ → Event)
    (k : ℕ) : System :=
  run (fun s e => (System.step env cfg s e, ())) { outbox } events k

/-- In a careful run no delivery is handed to a platform send twice. -/
theorem sends_at_most_once (distinct : TokensDistinct env) (cfg : ConnectorConfig) (outbox : Outbox)
    (events : ℕ → Event)
    (hcare : ∀ k, (System.state env cfg outbox events k).Careful env (events k)) :
    ∀ k, (System.state env cfg outbox events k).worker.sends.Nodup := by
  have hinv : ∀ k, 0 ≤ k → Inv env (System.state env cfg outbox events k) :=
    run_invariant (inv_start outbox) fun k _ h => inv_step h distinct (events k) (hcare k)
  exact fun k => (hinv k (Nat.zero_le k)).once

section Daily

/-- The daily report's environment with a second token. -/
def reportEnv : Env where
  sha256 := (Equiv.swap "Qm9vdHN0cmFwTGVhc2VUb2tlbkJvYjEy"
    "bbb6351efb8d0e8a602d4c82f8397dcdffaab2894002b677af209aacb8ab320e").trans
      ((Equiv.swap "daily-report:600"
        "a8750125e7a96ac4a236448a7a42bb2184a44f0b8b78e8ca20c6126d35350fa7").trans
        (Equiv.swap "Qm9vdHN0cmFwTGVhc2VUb2tlbkFsaWNl"
          "2886375f884e9d9f6bf8b20c051df771f7d7fceb53f8b7747d487d9b04c382f0"))
  tokenUrlsafe n :=
    if n = 0 then "Qm9vdHN0cmFwTGVhc2VUb2tlbkFsaWNl"
    else if n = 1 then "Qm9vdHN0cmFwTGVhc2VUb2tlbkJvYjEy"
    else String.ofList (List.replicate n 'A')

theorem ne_replicate {t : String} (h : 'Q' ∈ t.toList) (n : ℕ) :
    t ≠ String.ofList (List.replicate n 'A') := by
  rintro rfl
  rw [String.toList_ofList] at h
  exact absurd (List.eq_of_mem_replicate h) (by decide)

theorem reportEnv_distinct : TokensDistinct reportEnv := by
  intro m n h
  have htok : reportEnv.tokenUrlsafe m = reportEnv.tokenUrlsafe n := Equiv.injective _ h
  have hfirst : 'Q' ∈ (reportEnv.tokenUrlsafe 0).toList := by decide
  have hsecond : 'Q' ∈ (reportEnv.tokenUrlsafe 1).toList := by decide
  have hlater : ∀ k, reportEnv.tokenUrlsafe (k + 2) = String.ofList (List.replicate (k + 2) 'A') :=
    fun k => rfl
  rcases m with _ | _ | m <;> rcases n with _ | _ | n
  · rfl
  · exact absurd htok (by decide)
  · exact absurd htok (ne_replicate hfirst _)
  · exact absurd htok (by decide)
  · rfl
  · exact absurd htok (ne_replicate hsecond _)
  · exact absurd htok.symm (ne_replicate hfirst _)
  · exact absurd htok.symm (ne_replicate hsecond _)
  · rw [hlater, hlater] at htok
    have := congrArg List.length (String.ofList_injective htok)
    simpa using this

def reportDelivery : String := "dlv_a8750125e7a96ac4a236448a"

def reportRecord : RecordArgs where
  idempotencyKey := "daily-report:600"
  runId := "run_1"
  scheduleId := "sched_1"
  promptId := "prompt_1"
  delivery := { platform := some "slack", targetId := some "C012" }

def reportConfig : ConnectorConfig where
  platforms := ["slack"]
  deliveryTimeoutSec := 300

/-- The lease runs out during the send; the delivery is claimed again, and acknowledged with the
newest token. -/
def reportEvents : ℕ → Event
  | 0 => .record reportRecord 600
  | 1 => .pollBegins
  | 2 => .claimHandled 615
  | 3 => .pollEnds true
  | 4 => .jobReady reportDelivery .done
  | 5 => .pollBegins
  | 6 => .claimHandled 1040
  | 7 => .pollEnds true
  | 8 => .sendEnds reportDelivery false
  | 9 => .ackBegins reportDelivery
  | 10 => .ackHandled reportDelivery 1045
  | 11 => .ackHeard reportDelivery
  | _ => .forget reportDelivery

theorem sends_at_most_once_report :
    (System.state reportEnv reportConfig {} reportEvents 13).worker.sends.Nodup := by
  refine sends_at_most_once reportEnv_distinct reportConfig {} reportEvents ?_ 13
  intro k
  match k with
  | 0 =>
    intro d hd
    cases hd
  | 11 =>
    intro outcome reason number n hn hget
    have hstatus : (System.state reportEnv reportConfig {} reportEvents 11).worker.active.get?
        reportDelivery = some ⟨reportDelivery, .acking "sent" none 1 (.answered 200)⟩ := by
      decide +kernel
    cases hstatus.symm.trans hget
    exact absurd (by decide) hn
  | 1 | 2 | 3 | 4 | 5 | 6 | 7 | 8 | 9 | 10 => trivial
  | _ + 12 => trivial

/-- The acknowledgement is under way with the first token when the delivery is claimed again; the
claim answer is heard after the task has ended on the refusal. -/
def staleAckEvents : ℕ → Event
  | 0 => .record reportRecord 600
  | 1 => .pollBegins
  | 2 => .claimHandled 615
  | 3 => .pollEnds true
  | 4 => .jobReady reportDelivery .done
  | 5 => .sendEnds reportDelivery false
  | 6 => .ackBegins reportDelivery
  | 7 => .pollBegins
  | 8 => .claimHandled 1040
  | 9 => .ackHandled reportDelivery 1041
  | 10 => .ackHeard reportDelivery
  | 11 => .forget reportDelivery
  | 12 => .pollEnds true
  | _ => .jobReady reportDelivery .done

theorem sends_at_most_once_stale_ack :
    ¬ (System.state reportEnv reportConfig {} staleAckEvents 14).worker.sends.Nodup := by
  decide +kernel

end Daily

end OpenClaw.Connector
