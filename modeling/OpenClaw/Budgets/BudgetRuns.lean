import OpenClaw.Budgets.HeldSlots

/-!
# Runs of the limiter

Every interleaving of calls and exits keeps semaphores and counters in agreement with the contexts
that are held.
-/

namespace OpenClaw.Budgets

open Foundation Foundation.Asyncio Tenants EventLoop
set_option autoImplicit false

/-- Semaphores and counters agree with the contexts that are held, and nobody waits. -/
structure Balanced (config : BudgetConfig) (loop : EventLoop) : Prop where
  slots : Slots config loop loop.live.length (fun s => loop.live.countP (Context.ofSource (some s)))
    (fun t => loop.live.countP (Context.slotOf t))
  total : loop.limiter.inflightTotal = loop.live.length
  bySource : ∀ source,
    loop.limiter.inflightBySource source = loop.live.countP (Context.ofSource source)
  byTenant : ∀ t, loop.limiter.inflightByTenant.get? t =
    if loop.live.countP (Context.ofTenant t) = 0 then none
    else some (t, (loop.live.countP (Context.ofTenant t) : ℤ))
  ids : (loop.live.map Context.id).Nodup
  fresh : ∀ ctx ∈ loop.live, ctx.id < loop.nextId

section Steps
variable {config : BudgetConfig} {loop loop' : EventLoop} {ctx : Context}

theorem inflight_elim (h : Balanced config loop) (t : PyStr) :
    (loop.limiter.inflightByTenant.get? t).elim 0 Prod.snd =
      (loop.live.countP (Context.ofTenant t) : ℤ) := by
  rw [h.byTenant]
  split
  · rename_i hzero
    rw [hzero]
    rfl
  · rfl

theorem enter_balanced (h : Balanced config loop) (hid : ctx.id = loop.nextId)
    (hsame : SameTracking { loop with nextId := loop.nextId + 1 } loop')
    (hslots : Slots config loop' (loop.live.length + 1)
      (fun s => loop.live.countP (Context.ofSource (some s)) +
        if ctx.ofSource (some s) then 1 else 0)
      (fun t => loop.live.countP (Context.slotOf t) + if ctx.slotOf t then 1 else 0)) :
    Balanced config (loop'.enter ctx).1 := by
  have hlive : loop'.live = loop.live := hsame.live
  have hcons : (loop'.enter ctx).1.live = ctx :: loop.live := congrArg (ctx :: ·) hlive
  constructor
  · rw [hcons]
    simp only [List.countP_cons, List.length_cons]
    exact ⟨hslots.configured, hslots.lock, hslots.waiting, hslots.global, hslots.source,
      hslots.tenant⟩
  · rw [hcons]
    have htotal : loop'.limiter.inflightTotal = loop.live.length := hsame.total.trans h.total
    simp [EventLoop.enter, htotal]
  · intro source
    rw [hcons, List.countP_cons]
    have hbySource : ∀ source, loop'.limiter.inflightBySource source =
        loop.live.countP (Context.ofSource source) := by
      intro source
      rw [hsame.bySource]
      exact h.bySource source
    unfold EventLoop.enter
    dsimp only
    by_cases heq : source = ctx.source
    · subst heq
      simp [hbySource, Context.ofSource]
    · rw [Function.update_of_ne heq, hbySource]
      simp [Context.ofSource, Ne.symm heq]
  · intro t
    rw [hcons, List.countP_cons]
    have hbyTenant : loop'.limiter.inflightByTenant = loop.limiter.inflightByTenant := hsame.byTenant
    unfold EventLoop.enter
    dsimp only
    rw [hbyTenant, Table.get?_put, inflight_elim h]
    by_cases heq : ctx.tenant = t
    · subst heq
      simp [Context.ofTenant]
    · rw [if_neg heq, h.byTenant]
      simp [Context.ofTenant, heq]
  · rw [hcons, List.map_cons, List.nodup_cons]
    refine ⟨fun hmem => ?_, h.ids⟩
    obtain ⟨other, hother, heq⟩ := List.mem_map.mp hmem
    have hlt := h.fresh other hother
    omega
  · rw [hcons]
    have hnext : (loop'.enter ctx).1.nextId = loop.nextId + 1 := hsame.nextId
    rw [hnext]
    intro other hother
    rcases List.mem_cons.mp hother with rfl | hother
    · omega
    · have hlt := h.fresh other hother
      omega

def Answer.refuses : Answer → Bool
  | .denied _ => true
  | .invalidTenant _ => true
  | _ => false

/-- A call of `acquire` enters, or it is refused and leaves everything as it was. -/
inductive Settled (env : Settings) (source tenantId : PyStr) (loop : EventLoop) :
    EventLoop × Answer → Prop where
  | entered {loop' : EventLoop} {ctx : Context} : loop'.live = ctx :: loop.live →
      ctx.source = normalizeSource source → tenantOf env tenantId = .ok ctx.tenant →
      ctx.multiTenant = env.multiTenant → Settled env source tenantId loop (loop', .entered ctx.id)
  | refused {loop' : EventLoop} {answer : Answer} : answer.refuses = true →
      loop'.limiter = loop.limiter → loop'.live = loop.live → loop'.waiting = loop.waiting →
      Settled env source tenantId loop (loop', answer)

theorem Balanced.started (h : Balanced config loop) :
    Balanced config { loop with nextId := loop.nextId + 1 } where
  slots := ⟨h.slots.configured, h.slots.lock, h.slots.waiting, h.slots.global, h.slots.source,
    h.slots.tenant⟩
  total := h.total
  bySource := h.bySource
  byTenant := h.byTenant
  ids := h.ids
  fresh ctx hctx := (h.fresh ctx hctx).trans (Nat.lt_succ_self _)

theorem acquire_settled (h : Balanced config loop) (env : Settings) (source tenantId : PyStr) :
    Settled env source tenantId loop (loop.acquire env source tenantId) ∧
      Balanced config (loop.acquire env source tenantId).1 := by
  unfold EventLoop.acquire
  dsimp only
  cases htenant : tenantOf env tenantId with
  | error e => exact ⟨.refused rfl rfl rfl rfl, h⟩
  | ok tenant =>
    have henters : ∀ {ctx : Context} {r : EventLoop × Answer},
        ctx = ⟨loop.nextId, normalizeSource source, tenant, env.multiTenant⟩ →
        (∃ loop', r = loop'.enter ctx ∧
          SameTracking { loop with nextId := loop.nextId + 1 } loop' ∧
          Slots config loop' (loop.live.length + 1)
            (fun s => loop.live.countP (Context.ofSource (some s)) +
              if ctx.ofSource (some s) then 1 else 0)
            (fun t => loop.live.countP (Context.slotOf t) + if ctx.slotOf t then 1 else 0)) →
        Settled env source tenantId loop r ∧ Balanced config r.1 := by
      rintro ctx r rfl ⟨loop', rfl, hsame, hslots⟩
      exact ⟨.entered (congrArg (_ :: ·) hsame.live) rfl htenant rfl,
        enter_balanced h rfl hsame hslots⟩
    dsimp only
    split
    · exact ⟨.refused rfl rfl rfl rfl, h⟩
    · rename_i hglobal
      split
      · exact ⟨.refused rfl rfl rfl rfl, h⟩
      · rename_i hsource
        rw [Bool.not_eq_true] at hglobal hsource
        have hsource : loop.sourceLocked (Context.mk loop.nextId (normalizeSource source) tenant
          env.multiTenant).source = false := hsource
        split
        · rcases lockTenants_cases h.started.slots hglobal hsource with ⟨e, hdenied⟩ | hgranted
          · rw [hdenied]
            exact ⟨.refused rfl rfl rfl rfl, h.started⟩
          · exact henters rfl hgranted
        · rename_i hsingle
          exact henters rfl (acquireGlobal_enters _ h.started.slots hglobal hsource
            fun hmulti => absurd hmulti hsingle)

/-! ### Leaving -/

theorem mem_of_find {id : ℕ} (hfind : loop.live.find? (fun ctx => ctx.id = id) = some ctx) :
    ctx ∈ loop.live ∧ ctx.id = id :=
  ⟨List.mem_of_find?_eq_some hfind, by simpa using List.find?_some hfind⟩

/-- The contexts that remain, and the one that leaves. -/
theorem count_leaving (h : (loop.live.map Context.id).Nodup) (hctx : ctx ∈ loop.live)
    (p : Context → Bool) : loop.live.countP p =
      (loop.live.filter fun other => other.id ≠ ctx.id).countP p + if p ctx then 1 else 0 := by
  rw [(Table.perm_cons_filter h hctx).countP_eq, List.countP_cons]

theorem tenantSemaphore_released {other : EventLoop} {live : List Context} {t : PyStr}
    (h : (release ctx loop.limiter).tenantSemaphores = other.limiter.tenantSemaphores)
    (hconfig : loop.limiter.config = other.limiter.config) :
    { loop with limiter := release ctx loop.limiter, live }.tenantSemaphore t =
      other.tenantSemaphore t := by
  unfold tenantSemaphore
  dsimp only
  rw [h, ← hconfig]
  rfl

/-- A held slot is one of a semaphore that was created. -/
theorem released_tenants {held : ℕ} (hconfig : loop.limiter.config = config)
    (hmulti : ctx.multiTenant = true)
    (hown : (loop.tenantSemaphore ctx.tenant).Guards config.tenantCap (held + 1)) :
    (release ctx loop.limiter).tenantSemaphores =
      (loop.setTenant ctx.tenant (loop.tenantSemaphore ctx.tenant).release).limiter.tenantSemaphores := by
  cases hget : loop.limiter.tenantSemaphores.get? ctx.tenant with
  | none =>
    have hvalue := hown.value
    unfold tenantSemaphore at hvalue
    rw [hget, Option.elim_none, hconfig] at hvalue
    push_cast at hvalue
    omega
  | some row =>
    unfold EventLoop.release EventLoop.setTenant tenantSemaphore
    dsimp only
    rw [hget, hmulti]
    rfl

theorem release_slots (h : Balanced config loop) {live : List Context}
    (hcount : ∀ p : Context → Bool, loop.live.countP p = live.countP p + if p ctx then 1 else 0) :
    Slots config { loop with limiter := release ctx loop.limiter, live } live.length
      (fun s => live.countP (Context.ofSource (some s))) (fun t => live.countP (Context.slotOf t)) := by
  have hslots := h.slots
  have hlength : loop.live.length = live.length + 1 := by
    simpa using hcount fun _ => true
  constructor
  · exact hslots.configured
  · exact hslots.lock
  · exact hslots.waiting
  · have hglobal := hslots.global
    rw [hlength] at hglobal
    exact hglobal.release
  · intro s
    have hsource := hslots.source s
    rw [hcount] at hsource
    unfold EventLoop.release
    dsimp only
    cases hctx : ctx.source with
    | none => simpa [Context.ofSource, hctx] using hsource
    | some s' =>
      dsimp only
      by_cases heq : s = s'
      · subst heq
        rw [Function.update_self]
        apply Semaphore.Guards.release
        simpa [Context.ofSource, hctx] using hsource
      · rw [Function.update_of_ne heq]
        simpa [Context.ofSource, hctx, Ne.symm heq] using hsource
  · intro t
    have htenant := hslots.tenant t
    rw [hcount] at htenant
    cases hmulti : ctx.multiTenant with
    | false =>
      have hsame : (release ctx loop.limiter).tenantSemaphores = loop.limiter.tenantSemaphores := by
        unfold EventLoop.release
        rw [hmulti]
        dsimp only
        split <;> rfl
      rw [tenantSemaphore_released hsame rfl]
      simpa [Context.slotOf, hmulti] using htenant
    | true =>
      have hown := hslots.tenant ctx.tenant
      rw [hcount] at hown
      have hslot : ctx.slotOf ctx.tenant = true := by simp [Context.slotOf, Context.ofTenant, hmulti]
      rw [if_pos hslot] at hown
      rw [tenantSemaphore_released (released_tenants hslots.configured hmulti hown) rfl,
        tenantSemaphore_setTenant]
      by_cases heq : ctx.tenant = t
      · subst heq
        rw [if_pos rfl]
        exact hown.release
      · rw [if_neg heq]
        simpa [Context.slotOf, Context.ofTenant, heq] using htenant

theorem exit_balanced (h : Balanced config loop) (id : ℕ) (raised : Bool) :
    Balanced config (loop.exit id raised).1 := by
  unfold EventLoop.exit
  cases hfind : loop.live.find? fun ctx => ctx.id = id with
  | none => exact h
  | some ctx =>
    obtain ⟨hctx, rfl⟩ := mem_of_find hfind
    have hcount := count_leaving h.ids hctx
    have hsub : (loop.live.filter fun other => other.id ≠ ctx.id).Sublist loop.live :=
      List.filter_sublist
    constructor
    · exact release_slots h hcount
    · have htotal := h.total
      have hlength := hcount fun _ => true
      simp only [List.countP_true, if_true] at hlength
      simp only [release]
      omega
    · intro source
      simp only [release]
      by_cases heq : source = ctx.source
      · subst heq
        rw [Function.update_self, h.bySource, hcount]
        simp [Context.ofSource]
      · rw [Function.update_of_ne heq, h.bySource, hcount]
        simp [Context.ofSource, Ne.symm heq]
    · intro t
      simp only [release]
      have hown : ctx.ofTenant ctx.tenant = true := decide_eq_true rfl
      have hleft : max 0 ((loop.live.countP (Context.ofTenant ctx.tenant) : ℤ) - 1) =
          (loop.live.filter fun other => other.id ≠ ctx.id).countP (Context.ofTenant ctx.tenant) := by
        rw [hcount, if_pos hown]
        omega
      rw [inflight_elim h, hleft]
      by_cases heq : ctx.tenant = t
      · subst heq
        split
        · rename_i hzero
          rw [Table.get?_drop, if_pos rfl, if_pos (Int.ofNat_eq_zero.mp hzero)]
        · rename_i hzero
          rw [Table.get?_put, if_pos rfl, if_neg (fun h => hzero (congrArg Int.ofNat h))]
      · have hother : ctx.ofTenant t = false := decide_eq_false heq
        have hbyTenant := h.byTenant t
        rw [hcount, hother] at hbyTenant
        split
        · rw [Table.get?_drop, if_neg heq, Table.get?_put, if_neg heq]
          exact hbyTenant
        · rw [Table.get?_put, if_neg heq]
          exact hbyTenant
    · exact (hsub.map _).nodup h.ids
    · exact fun other hother => h.fresh other (hsub.subset hother)

theorem step_idle (h : Balanced config loop) (id : ℕ) :
    step loop (.resume id) = (loop, .ignored) ∧ step loop (.cancel id) = (loop, .ignored) := by
  have hfind : loop.waiting.find? (fun call => call.1.id = id) = none := by
    rw [h.slots.waiting]
    rfl
  unfold step EventLoop.resume EventLoop.cancelWaiting
  dsimp only
  rw [hfind]
  exact ⟨rfl, rfl⟩

theorem step_balanced (h : Balanced config loop) (event : Event) :
    Balanced config (step loop event).1 := by
  cases event with
  | acquire env source tenantId => exact (acquire_settled h env source tenantId).2
  | exit id raised => exact exit_balanced h id raised
  | resume id =>
    rw [(step_idle h id).1]
    exact h
  | cancel id =>
    rw [(step_idle h id).2]
    exact h

/-- A context that is held was held before, or the call has just entered. -/
theorem step_live (h : Balanced config loop) (event : Event) :
    ∀ ctx ∈ (step loop event).1.live, ctx ∈ loop.live ∨ ∃ env source tenantId,
      event = .acquire env source tenantId ∧ ctx.multiTenant = env.multiTenant := by
  intro ctx hctx
  cases event with
  | acquire env source tenantId =>
    have hsettled := (acquire_settled h env source tenantId).1
    have hstep : (loop.acquire env source tenantId).1 = (step loop (.acquire env source tenantId)).1 :=
      rfl
    rw [← hstep] at hctx
    generalize loop.acquire env source tenantId = r at hsettled hctx
    cases hsettled with
    | entered hlive hsource htenant hmulti =>
      rw [hlive] at hctx
      rcases List.mem_cons.mp hctx with rfl | hctx
      · exact .inr ⟨env, source, tenantId, rfl, hmulti⟩
      · exact .inl hctx
    | refused hanswer hlimiter hlive hwaiting =>
      rw [hlive] at hctx
      exact .inl hctx
  | exit id raised =>
    unfold step EventLoop.exit at hctx
    dsimp only at hctx
    split at hctx
    · exact .inl hctx
    · exact .inl (List.mem_of_mem_filter hctx)
  | resume id =>
    rw [(step_idle h id).1] at hctx
    exact .inl hctx
  | cancel id =>
    rw [(step_idle h id).2] at hctx
    exact .inl hctx

end Steps

/-! ## Runs -/

section Runs
variable {config : BudgetConfig} {limiter : ExecutionBudgetLimiter} {events : ℕ → Event}

theorem new_balanced (hnew : ExecutionBudgetLimiter.new config = some limiter) :
    Balanced config { limiter } := by
  unfold ExecutionBudgetLimiter.new at hnew
  split at hnew
  · cases hnew
  · rename_i hcaps
    cases hnew
    have hsource : ∀ s, 0 ≤ config.sourceCap s := by
      intro s
      cases s <;> simp only [BudgetConfig.sourceCap] <;> omega
    have htenant : 0 ≤ config.tenantCap := by
      have hcap : (1 : ℤ) ≤ config.tenantCap := le_max_left _ _
      omega
    refine ⟨⟨rfl, ⟨rfl, rfl⟩, rfl, ?_, ?_, ?_⟩, rfl, fun _ => rfl, fun _ => rfl, List.nodup_nil, ?_⟩
    · exact Semaphore.guards_new (by omega)
    · exact fun s => Semaphore.guards_new (hsource s)
    · exact fun t => Semaphore.guards_new htenant
    · exact fun ctx hctx => nomatch hctx

/-- Every slot is free and every counter is back at zero. -/
structure Restored (config : BudgetConfig) (loop : EventLoop) : Prop where
  global : loop.limiter.globalSemaphore = { value := config.maxInflightTotal }
  source : ∀ s, loop.limiter.sourceSemaphores s = { value := config.sourceCap s }
  tenant : ∀ t, loop.tenantSemaphore t = { value := config.tenantCap }
  total : loop.limiter.inflightTotal = 0
  bySource : ∀ source, loop.limiter.inflightBySource source = 0
  byTenant : loop.limiter.inflightByTenant = .empty

theorem Balanced.restored {loop : EventLoop} (h : Balanced config loop) (hlive : loop.live = []) :
    Restored config loop := by
  obtain ⟨hslots, htotal, hbySource, hbyTenant, -, -⟩ := h
  rw [hlive] at hslots htotal hbySource hbyTenant
  have hfull : ∀ {s : Semaphore ℕ} {cap : ℤ}, s.Guards cap 0 → s = { value := cap } := by
    intro s cap hs
    have hvalue := hs.value
    rw [Nat.cast_zero, sub_zero] at hvalue
    rw [← hvalue, ← hs.idle]
  refine ⟨hfull hslots.global, fun s => hfull (hslots.source s), fun t => hfull (hslots.tenant t),
    htotal, hbySource, ?_⟩
  apply Table.ext
  apply List.eq_nil_iff_forall_not_mem.mpr
  intro row hrow
  have hget := hbyTenant row.1
  rw [Table.get?_key hrow] at hget
  cases hget

variable (limiter events)

abbrev loopAt (k : ℕ) : EventLoop := run step { limiter } events k

/-- Every call before the `k`-th event was made with multi-tenancy. -/
def MultiTenant (k : ℕ) : Prop :=
  ∀ j, j < k → ∀ env source tenantId, events j = .acquire env source tenantId →
    env.multiTenant = true

structure KeepsBudgets (config : BudgetConfig) : Prop where
  balanced : ∀ k, Balanced config (loopAt limiter events k)
  perTenant : ∀ k, MultiTenant events k → ∀ t,
    ((loopAt limiter events k).tenantSemaphore t).Guards config.tenantCap
      ((loopAt limiter events k).live.countP (Context.ofTenant t))
  restored : ∀ k, (loopAt limiter events k).live = [] → Restored config (loopAt limiter events k)
  settled : ∀ k env source tenantId, events k = .acquire env source tenantId →
    Settled env source tenantId (loopAt limiter events k)
      (loopAt limiter events (k + 1), answer step { limiter } events k)

variable {limiter events}

theorem live_multiTenant (hbalanced : ∀ k, Balanced config (loopAt limiter events k)) {k : ℕ}
    (hmulti : MultiTenant events k) :
    ∀ ctx ∈ (loopAt limiter events k).live, ctx.multiTenant = true := by
  induction k with
  | zero => exact fun ctx hctx => nomatch hctx
  | succ k ih =>
    intro ctx hctx
    rcases step_live (hbalanced k) (events k) ctx hctx with hctx | ⟨env, source, t, hevent, heq⟩
    · exact ih (fun j hj => hmulti j (by omega)) ctx hctx
    · rw [heq]
      exact hmulti k (by omega) env source t hevent

/-- In every run of a limiter the budgets are kept. -/
theorem budgets_kept (hnew : ExecutionBudgetLimiter.new config = some limiter)
    (events : ℕ → Event) : KeepsBudgets limiter events config := by
  have hbalanced : ∀ k, Balanced config (loopAt limiter events k) := by
    intro k
    induction k with
    | zero => exact new_balanced hnew
    | succ k ih => exact step_balanced ih (events k)
  refine ⟨hbalanced, fun k hmulti t => ?_, fun k => (hbalanced k).restored, ?_⟩
  · have hslot : (loopAt limiter events k).live.countP (Context.ofTenant t) =
        (loopAt limiter events k).live.countP (Context.slotOf t) := by
      apply List.countP_congr
      intro ctx hctx
      rw [Context.slotOf, live_multiTenant hbalanced hmulti ctx hctx, Bool.and_true]
    rw [hslot]
    exact (hbalanced k).slots.tenant t
  · intro k env source tenantId hevent
    have hsettled := (acquire_settled (hbalanced k) env source tenantId).1
    have hstep : (loopAt limiter events (k + 1), answer step { limiter } events k) =
        (loopAt limiter events k).acquire env source tenantId := by
      unfold answer
      rw [loopAt, run_succ, hevent]
      rfl
    rw [hstep]
    exact hsettled

/-- Two contexts of two tenants; a second one of a tenant and a third one are denied. -/
def busyRun (k : ℕ) : Event :=
  let call (source tenant : String) : Event :=
    .acquire ⟨true, defaultTenantId, false⟩ (PyStr.ofString source) (PyStr.ofString tenant)
  [call "webhook" "alpha", call "trigger" "alpha", call "trigger" "beta", call "cli" "gamma",
    .exit 0 true].getD k (.exit 0 false)

theorem budgets_kept_busy :
    KeepsBudgets ((ExecutionBudgetLimiter.new {}).get rfl) busyRun {} ∧
      answer step { limiter := (ExecutionBudgetLimiter.new {}).get rfl } busyRun 1 =
        .denied ⟨"tenant_concurrency", 1, PyStr.ofString "trigger", 1⟩ ∧
      answer step { limiter := (ExecutionBudgetLimiter.new {}).get rfl } busyRun 3 =
        .denied ⟨"global_concurrency", 2, PyStr.ofString "unknown", 1⟩ :=
  ⟨budgets_kept rfl busyRun, by decide +kernel, by decide +kernel⟩

end Runs

end OpenClaw.Budgets
