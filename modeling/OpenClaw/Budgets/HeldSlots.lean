import OpenClaw.Budgets.ExecutionBudgets
import OpenClaw.Foundation.Run

/-!
# Slots and the contexts that hold them

Between two events every semaphore and every counter agrees with the contexts that are held, and
nobody waits. Hence a call that passes the checks finds all its slots and runs on to its body, and
the next event finds the same agreement.
-/

namespace OpenClaw.Budgets

open Foundation Foundation.Asyncio Tenants EventLoop
set_option autoImplicit false

/-- The semaphores when `total` slots are taken, of each source and of each tenant as many as given. -/
structure Slots (config : BudgetConfig) (loop : EventLoop) (total : ℕ) (ofSource : Source → ℕ)
    (ofTenant : PyStr → ℕ) : Prop where
  configured : loop.limiter.config = config
  lock : loop.limiter.tenantLock.Free
  waiting : loop.waiting = []
  global : loop.limiter.globalSemaphore.Guards config.maxInflightTotal total
  source : ∀ s, (loop.limiter.sourceSemaphores s).Guards (config.sourceCap s) (ofSource s)
  tenant : ∀ t, (loop.tenantSemaphore t).Guards config.tenantCap (ofTenant t)

/-- What a call does not change before its body. -/
structure SameTracking (loop loop' : EventLoop) : Prop where
  live : loop'.live = loop.live
  nextId : loop'.nextId = loop.nextId
  total : loop'.limiter.inflightTotal = loop.limiter.inflightTotal
  bySource : loop'.limiter.inflightBySource = loop.limiter.inflightBySource
  byTenant : loop'.limiter.inflightByTenant = loop.limiter.inflightByTenant

theorem SameTracking.trans {a b c : EventLoop} (hab : SameTracking a b) (hbc : SameTracking b c) :
    SameTracking a c where
  live := hbc.live.trans hab.live
  nextId := hbc.nextId.trans hab.nextId
  total := hbc.total.trans hab.total
  bySource := hbc.bySource.trans hab.bySource
  byTenant := hbc.byTenant.trans hab.byTenant

def Context.ofSource (source : Option Source) (ctx : Context) : Bool := decide (ctx.source = source)
def Context.ofTenant (tenant : PyStr) (ctx : Context) : Bool := decide (ctx.tenant = tenant)

/-- The context holds a slot of the tenant. -/
def Context.slotOf (tenant : PyStr) (ctx : Context) : Bool :=
  ctx.ofTenant tenant && ctx.multiTenant

section Taking
variable {config : BudgetConfig} {loop : EventLoop} {total : ℕ} {ofSource : Source → ℕ}
  {ofTenant : PyStr → ℕ} {ctx : Context}

theorem tenantSemaphore_setTenant (t t' : PyStr) (semaphore : Semaphore ℕ) :
    (loop.setTenant t semaphore).tenantSemaphore t' =
      if t = t' then semaphore else loop.tenantSemaphore t' := by
  have hget : (loop.limiter.tenantSemaphores.put (t, semaphore)).get? t' =
      if t = t' then some (t, semaphore) else loop.limiter.tenantSemaphores.get? t' :=
    Table.get?_put _ _ _
  unfold tenantSemaphore setTenant
  dsimp only
  rw [hget]
  split <;> rfl

theorem Slots.setTenant (h : Slots config loop total ofSource ofTenant) {t : PyStr}
    {semaphore : Semaphore ℕ} {held : PyStr → ℕ} (hsame : ∀ t', t' ≠ t → held t' = ofTenant t')
    (hguards : semaphore.Guards config.tenantCap (held t)) :
    Slots config (loop.setTenant t semaphore) total ofSource held where
  configured := h.configured
  lock := h.lock
  waiting := h.waiting
  global := h.global
  source := h.source
  tenant t' := by
    rw [tenantSemaphore_setTenant]
    split
    · rename_i heq
      exact heq ▸ hguards
    · rename_i hne
      rw [hsame t' (Ne.symm hne)]
      exact h.tenant t'

theorem Slots.setSource (h : Slots config loop total ofSource ofTenant) {s : Source}
    {semaphore : Semaphore ℕ} {held : Source → ℕ} (hsame : ∀ s', s' ≠ s → held s' = ofSource s')
    (hguards : semaphore.Guards (config.sourceCap s) (held s)) :
    Slots config (loop.setSource s semaphore) total held ofTenant where
  configured := h.configured
  lock := h.lock
  waiting := h.waiting
  global := h.global
  source s' := by
    unfold EventLoop.setSource
    dsimp only
    by_cases heq : s' = s
    · subst heq
      rw [Function.update_self]
      exact hguards
    · rw [Function.update_of_ne heq, hsame s' heq]
      exact h.source s'
  tenant := h.tenant

/-- A call whose source has a slot left goes on to its body. -/
theorem acquireSource_enters (ctx : Context) (h : Slots config loop total ofSource ofTenant)
    (hsource : loop.sourceLocked ctx.source = false) :
    ∃ loop', loop.acquireSource ctx = loop'.enter ctx ∧ SameTracking loop loop' ∧
      Slots config loop' total (fun s => ofSource s + if ctx.ofSource (some s) then 1 else 0)
        ofTenant := by
  unfold acquireSource
  cases hctx : ctx.source with
  | none =>
    refine ⟨loop, rfl, ⟨rfl, rfl, rfl, rfl, rfl⟩, ?_⟩
    simpa [Context.ofSource, hctx] using h
  | some s =>
    have hfree : (loop.limiter.sourceSemaphores s).locked = false := by
      rw [hctx] at hsource
      exact hsource
    obtain ⟨taken, htake, hguards⟩ := (h.source s).take hfree
    dsimp only
    rw [htake]
    refine ⟨_, rfl, ⟨rfl, rfl, rfl, rfl, rfl⟩, h.setSource (fun s' hs' => ?_) ?_⟩
    · simp [Context.ofSource, hctx, Ne.symm hs']
    · simpa [Context.ofSource, hctx] using hguards

theorem acquireTenant_enters (ctx : Context) (h : Slots config loop total ofSource ofTenant)
    (hsource : loop.sourceLocked ctx.source = false)
    (htenant : ctx.multiTenant = true → (loop.tenantSemaphore ctx.tenant).locked = false) :
    ∃ loop', loop.acquireTenant ctx = loop'.enter ctx ∧ SameTracking loop loop' ∧
      Slots config loop' total (fun s => ofSource s + if ctx.ofSource (some s) then 1 else 0)
        (fun t => ofTenant t + if ctx.slotOf t then 1 else 0) := by
  unfold acquireTenant
  cases hmulti : ctx.multiTenant with
  | false =>
    obtain ⟨loop', henter, hsame, hslots⟩ := acquireSource_enters ctx h hsource
    refine ⟨loop', henter, hsame, ?_⟩
    simpa [Context.slotOf, hmulti] using hslots
  | true =>
    obtain ⟨taken, htake, hguards⟩ := (h.tenant ctx.tenant).take (htenant hmulti)
    have hslots : Slots config (loop.setTenant ctx.tenant taken) total ofSource
        (fun t => ofTenant t + if ctx.slotOf t then 1 else 0) := by
      apply h.setTenant
      · intro t ht
        simp [Context.slotOf, Context.ofTenant, Ne.symm ht]
      · simpa [Context.slotOf, Context.ofTenant, hmulti] using hguards
    obtain ⟨loop', henter, hsame, hslots'⟩ := acquireSource_enters ctx hslots hsource
    rw [if_neg (by decide)]
    dsimp only
    rw [htake]
    have hset : SameTracking loop (loop.setTenant ctx.tenant taken) := ⟨rfl, rfl, rfl, rfl, rfl⟩
    exact ⟨loop', henter, hset.trans hsame, hslots'⟩

theorem acquireGlobal_enters (ctx : Context) (h : Slots config loop total ofSource ofTenant)
    (hglobal : loop.limiter.globalSemaphore.locked = false)
    (hsource : loop.sourceLocked ctx.source = false)
    (htenant : ctx.multiTenant = true → (loop.tenantSemaphore ctx.tenant).locked = false) :
    ∃ loop', loop.acquireGlobal ctx = loop'.enter ctx ∧ SameTracking loop loop' ∧
      Slots config loop' (total + 1) (fun s => ofSource s + if ctx.ofSource (some s) then 1 else 0)
        (fun t => ofTenant t + if ctx.slotOf t then 1 else 0) := by
  obtain ⟨taken, htake, hguards⟩ := h.global.take hglobal
  have hslots : Slots config (loop.setGlobal taken) (total + 1) ofSource ofTenant :=
    ⟨h.configured, h.lock, h.waiting, hguards, h.source, h.tenant⟩
  obtain ⟨loop', henter, hsame, hslots'⟩ := acquireTenant_enters ctx hslots hsource htenant
  unfold acquireGlobal
  dsimp only
  rw [htake]
  have hset : SameTracking loop (loop.setGlobal taken) := ⟨rfl, rfl, rfl, rfl, rfl⟩
  exact ⟨loop', henter, hset.trans hsame, hslots'⟩

/-- A tenant without a semaphore is not denied. -/
theorem stored_of_locked {t : PyStr}
    (hlocked : (loop.tenantSemaphore t).locked = true) :
    loop.setTenant t (loop.tenantSemaphore t) = loop := by
  have hrow : loop.limiter.tenantSemaphores.get? t = some (t, loop.tenantSemaphore t) := by
    cases hget : loop.limiter.tenantSemaphores.get? t with
    | none =>
      have hcap : (1 : ℤ) ≤ loop.limiter.config.tenantCap := le_max_left _ _
      unfold tenantSemaphore at hlocked
      rw [hget] at hlocked
      have hzero : loop.limiter.config.tenantCap = 0 := by
        rw [Option.elim_none, Semaphore.locked, List.any_nil, Bool.or_false] at hlocked
        exact of_decide_eq_true hlocked
      omega
    | some row =>
      unfold tenantSemaphore
      rw [hget]
      have hkey : row.1 = t := Table.key_of_get? hget
      exact congrArg some (Prod.ext hkey rfl)
  unfold EventLoop.setTenant
  rw [Table.put_of_get? hrow]

/-- The check of the tenant's budget, with the lock taken and given back. -/
theorem lockTenants_cases (h : Slots config loop total ofSource ofTenant)
    (hglobal : loop.limiter.globalSemaphore.locked = false)
    (hsource : loop.sourceLocked ctx.source = false) :
    (∃ e, loop.lockTenants ctx = (loop, .denied e)) ∨
      ∃ loop', loop.lockTenants ctx = loop'.enter ctx ∧ SameTracking loop loop' ∧
        Slots config loop' (total + 1)
          (fun s => ofSource s + if ctx.ofSource (some s) then 1 else 0)
          (fun t => ofTenant t + if ctx.slotOf t then 1 else 0) := by
  have hcreated : Slots config (loop.setTenant ctx.tenant (loop.tenantSemaphore ctx.tenant)) total
      ofSource ofTenant := h.setTenant (fun _ _ => rfl) (h.tenant ctx.tenant)
  have hlock : loop.lockTenants ctx =
      if (loop.tenantSemaphore ctx.tenant).locked then
        (loop.setTenant ctx.tenant (loop.tenantSemaphore ctx.tenant),
          .denied ⟨"tenant_concurrency", loop.limiter.config.tenantCap, sourceName ctx.source, 1⟩)
      else (loop.setTenant ctx.tenant (loop.tenantSemaphore ctx.tenant)).acquireGlobal ctx := by
    unfold lockTenants
    rw [h.lock.take]
    unfold checkTenant EventLoop.setLock EventLoop.setTenant
    dsimp only
    rw [h.lock.release]
    rfl
  rw [hlock]
  split
  · rename_i hlocked
    rw [stored_of_locked hlocked]
    exact .inl ⟨_, rfl⟩
  · rename_i hfree
    rw [Bool.not_eq_true] at hfree
    have htenant : ctx.multiTenant = true →
        ((loop.setTenant ctx.tenant (loop.tenantSemaphore ctx.tenant)).tenantSemaphore
          ctx.tenant).locked = false := by
      intro _
      rw [tenantSemaphore_setTenant, if_pos rfl]
      exact hfree
    obtain ⟨loop', henter, hsame, hslots⟩ := acquireGlobal_enters ctx hcreated hglobal hsource htenant
    have hset : SameTracking loop (loop.setTenant ctx.tenant (loop.tenantSemaphore ctx.tenant)) :=
      ⟨rfl, rfl, rfl, rfl, rfl⟩
    exact .inr ⟨loop', henter, hset.trans hsame, hslots⟩

end Taking

end OpenClaw.Budgets
