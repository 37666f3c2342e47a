import OpenClaw.Foundation.Asyncio
import OpenClaw.Foundation.Table
import OpenClaw.Tenants.TenantContext

/-!
# Execution budgets

`ExecutionBudgetLimiter` of `services/execution_budgets.py` on one event loop. A call of `acquire` runs
until its body or until it has to wait at one of its four `await` points; the waiting calls are part
of the loop's state. Metrics and log lines are left out.
-/

namespace OpenClaw.Budgets

open Foundation Foundation.Asyncio Tenants
set_option autoImplicit false

/-- The sources with a semaphore of their own. -/
inductive Source where
  | webhook | trigger | scheduler | bridge
  deriving DecidableEq

def Source.name : Source → PyStr
  | webhook => PyStr.ofString "webhook"
  | trigger => PyStr.ofString "trigger"
  | scheduler => PyStr.ofString "scheduler"
  | bridge => PyStr.ofString "bridge"

/-- `none` is the source `unknown`. -/
def sourceName : Option Source → PyStr
  | some source => source.name
  | none => PyStr.ofString "unknown"

/-- An empty source and one without a semaphore are `unknown`. -/
def normalizeSource (source : PyStr) : Option Source :=
  [Source.webhook, .trigger, .scheduler, .bridge].find? fun s => s.name = source.map lowerUnit

structure BudgetConfig where
  maxInflightTotal : ℤ := 2
  maxInflightWebhook : ℤ := 1
  maxInflightTrigger : ℤ := 1
  maxInflightScheduler : ℤ := 1
  maxInflightBridge : ℤ := 1
  maxInflightPerTenant : ℤ := 1

def BudgetConfig.sourceCap (config : BudgetConfig) : Source → ℤ
  | .webhook => config.maxInflightWebhook
  | .trigger => config.maxInflightTrigger
  | .scheduler => config.maxInflightScheduler
  | .bridge => config.maxInflightBridge

def BudgetConfig.tenantCap (config : BudgetConfig) : ℤ := max 1 config.maxInflightPerTenant

/-- One call of `acquire`; with multi-tenancy it takes a slot of its tenant. -/
structure Context where
  id : ℕ
  source : Option Source
  tenant : PyStr
  multiTenant : Bool

structure ExecutionBudgetLimiter where
  config : BudgetConfig
  globalSemaphore : Semaphore ℕ
  sourceSemaphores : Source → Semaphore ℕ
  tenantSemaphores : Table (ν := PyStr × Semaphore ℕ) Prod.fst := .empty
  tenantLock : Lock ℕ := {}
  inflightTotal : ℤ := 0
  inflightBySource : Option Source → ℤ := fun _ => 0
  inflightByTenant : Table (ν := PyStr × ℤ) Prod.fst := .empty

/-- `__init__`; a semaphore with a negative value is a `ValueError`. -/
def ExecutionBudgetLimiter.new (config : BudgetConfig) : Option ExecutionBudgetLimiter :=
  if config.maxInflightTotal < 0 ∨ config.maxInflightWebhook < 0 ∨ config.maxInflightTrigger < 0 ∨
      config.maxInflightScheduler < 0 ∨ config.maxInflightBridge < 0 then none
  else
    some {
      config
      globalSemaphore := { value := config.maxInflightTotal }
      sourceSemaphores := fun source => { value := config.sourceCap source } }

structure BudgetExceededError where
  budgetType : String
  limit : ℤ
  source : PyStr
  retryAfter : ℤ
  deriving DecidableEq

/-- Where a call waits. -/
inductive Point where
  | tenantLock | globalSlot | tenantSlot | sourceSlot

structure EventLoop where
  limiter : ExecutionBudgetLimiter
  /-- the contexts that are held -/
  live : List Context := []
  waiting : List (Context × Point) := []
  nextId : ℕ := 0

inductive Answer where
  | entered (id : ℕ)
  | denied (error : BudgetExceededError)
  | invalidTenant (error : TenantBoundaryError)
  | waits (id : ℕ)
  | cancelled
  | exited (raised : Bool)
  | ignored
  deriving DecidableEq

namespace EventLoop

/-! ### Entering -/

/-- The call is inside its body. -/
def enter (ctx : Context) (loop : EventLoop) : EventLoop × Answer :=
  let limiter := loop.limiter
  let limiter := {
    limiter with
    inflightTotal := limiter.inflightTotal + 1
    inflightBySource := Function.update limiter.inflightBySource ctx.source
      (limiter.inflightBySource ctx.source + 1)
    inflightByTenant := limiter.inflightByTenant.put
      (ctx.tenant, ((limiter.inflightByTenant.get? ctx.tenant).elim 0 Prod.snd) + 1) }
  ({ loop with limiter, live := ctx :: loop.live }, .entered ctx.id)

def wait (ctx : Context) (point : Point) (loop : EventLoop) : EventLoop × Answer :=
  ({ loop with waiting := loop.waiting ++ [(ctx, point)] }, .waits ctx.id)

def setGlobal (semaphore : Semaphore ℕ) (loop : EventLoop) : EventLoop :=
  { loop with limiter := { loop.limiter with globalSemaphore := semaphore } }

def setSource (source : Source) (semaphore : Semaphore ℕ) (loop : EventLoop) : EventLoop :=
  { loop with
    limiter := { loop.limiter with
      sourceSemaphores := Function.update loop.limiter.sourceSemaphores source semaphore } }

def setTenant (tenant : PyStr) (semaphore : Semaphore ℕ) (loop : EventLoop) : EventLoop :=
  { loop with
    limiter := { loop.limiter with
      tenantSemaphores := loop.limiter.tenantSemaphores.put (tenant, semaphore) } }

def setLock (tenantLock : Lock ℕ) (loop : EventLoop) : EventLoop :=
  { loop with limiter := { loop.limiter with tenantLock } }

/-- The tenant's semaphore, or the one that would be created for it. -/
def tenantSemaphore (tenant : PyStr) (loop : EventLoop) : Semaphore ℕ :=
  (loop.limiter.tenantSemaphores.get? tenant).elim
    { value := loop.limiter.config.tenantCap } Prod.snd

/-- `await source_semaphore.acquire()`. -/
def acquireSource (ctx : Context) (loop : EventLoop) : EventLoop × Answer :=
  match ctx.source with
  | none => loop.enter ctx
  | some source =>
    let semaphore := loop.limiter.sourceSemaphores source
    match semaphore.take with
    | some taken => (loop.setSource source taken).enter ctx
    | none => (loop.setSource source (semaphore.park ctx.id)).wait ctx .sourceSlot

/-- `await tenant_semaphore.acquire()`. -/
def acquireTenant (ctx : Context) (loop : EventLoop) : EventLoop × Answer :=
  if ctx.multiTenant = false then loop.acquireSource ctx
  else
    let semaphore := loop.tenantSemaphore ctx.tenant
    match semaphore.take with
    | some taken => (loop.setTenant ctx.tenant taken).acquireSource ctx
    | none => (loop.setTenant ctx.tenant (semaphore.park ctx.id)).wait ctx .tenantSlot

/-- `await self._global_semaphore.acquire()`. -/
def acquireGlobal (ctx : Context) (loop : EventLoop) : EventLoop × Answer :=
  let semaphore := loop.limiter.globalSemaphore
  match semaphore.take with
  | some taken => (loop.setGlobal taken).acquireTenant ctx
  | none => (loop.setGlobal (semaphore.park ctx.id)).wait ctx .globalSlot

/-- The rest of `_get_tenant_semaphore` under the lock, and the check of the tenant's budget. -/
def checkTenant (ctx : Context) (loop : EventLoop) : EventLoop × Answer :=
  let semaphore := loop.tenantSemaphore ctx.tenant
  let loop := (loop.setTenant ctx.tenant semaphore).setLock loop.limiter.tenantLock.release
  if semaphore.locked then
    (loop, .denied ⟨"tenant_concurrency", loop.limiter.config.tenantCap, sourceName ctx.source, 1⟩)
  else loop.acquireGlobal ctx

/-- `async with self._tenant_lock`. -/
def lockTenants (ctx : Context) (loop : EventLoop) : EventLoop × Answer :=
  match loop.limiter.tenantLock.take with
  | some taken => (loop.setLock taken).checkTenant ctx
  | none => (loop.setLock (loop.limiter.tenantLock.park ctx.id)).wait ctx .tenantLock

def sourceLocked (loop : EventLoop) : Option Source → Bool
  | some source => (loop.limiter.sourceSemaphores source).locked
  | none => false

def tenantOf (env : Settings) (tenantId : PyStr) : Except TenantBoundaryError PyStr :=
  if env.multiTenant = false then .ok defaultTenantId
  else normalizeTenantId (if tenantId = [] then env.getCurrentTenantId else tenantId)

/-- `acquire` up to its first `await`; no tenant id is an empty one. -/
def acquire (env : Settings) (source tenantId : PyStr) (loop : EventLoop) : EventLoop × Answer :=
  let config := loop.limiter.config
  match tenantOf env tenantId with
  | .error e => (loop, .invalidTenant e)
  | .ok tenant =>
    let ctx : Context := ⟨loop.nextId, normalizeSource source, tenant, env.multiTenant⟩
    if loop.limiter.globalSemaphore.locked then
      (loop, .denied ⟨"global_concurrency", config.maxInflightTotal, sourceName ctx.source, 1⟩)
    else if loop.sourceLocked ctx.source then
      (loop, .denied ⟨"source_concurrency", (ctx.source.map config.sourceCap).getD 1,
        sourceName ctx.source, 1⟩)
    else
      let started := { loop with nextId := loop.nextId + 1 }
      if env.multiTenant then started.lockTenants ctx else started.acquireGlobal ctx

/-! ### Leaving -/

/-- The `finally` block. -/
def release (ctx : Context) (limiter : ExecutionBudgetLimiter) : ExecutionBudgetLimiter :=
  let inflight := max 0 ((limiter.inflightByTenant.get? ctx.tenant).elim 0 Prod.snd - 1)
  let inflightByTenant := limiter.inflightByTenant.put (ctx.tenant, inflight)
  { limiter with
    inflightTotal := limiter.inflightTotal - 1
    inflightBySource := Function.update limiter.inflightBySource ctx.source
      (limiter.inflightBySource ctx.source - 1)
    inflightByTenant :=
      if inflight = 0 then inflightByTenant.drop ctx.tenant else inflightByTenant
    sourceSemaphores :=
      match ctx.source with
      | none => limiter.sourceSemaphores
      | some source => Function.update limiter.sourceSemaphores source
          (limiter.sourceSemaphores source).release
    tenantSemaphores :=
      match limiter.tenantSemaphores.get? ctx.tenant with
      | some (_, semaphore) =>
        if ctx.multiTenant then limiter.tenantSemaphores.put (ctx.tenant, semaphore.release)
        else limiter.tenantSemaphores
      | none => limiter.tenantSemaphores
    globalSemaphore := limiter.globalSemaphore.release }

/-- The body returns or raises. -/
def exit (id : ℕ) (raised : Bool) (loop : EventLoop) : EventLoop × Answer :=
  match loop.live.find? fun ctx => ctx.id = id with
  | none => (loop, .ignored)
  | some ctx =>
    ({ loop with
       limiter := release ctx loop.limiter
       live := loop.live.filter fun ctx => ctx.id ≠ id }, .exited raised)

/-! ### Waiting -/

/-- The futures that calls wait for at a point. -/
def waitersAt (ctx : Context) (point : Point) (loop : EventLoop) : List (Waiter ℕ) :=
  match point with
  | .tenantLock => loop.limiter.tenantLock.waiters
  | .globalSlot => loop.limiter.globalSemaphore.waiters
  | .tenantSlot => (loop.tenantSemaphore ctx.tenant).waiters
  | .sourceSlot => ctx.source.elim [] fun source => (loop.limiter.sourceSemaphores source).waiters

/-- The loop resumes a waiting call. A `CancelledError` is no `Exception`: the slots that the call
took before stay taken. -/
def resumeAt (ctx : Context) (point : Point) (w : Waiter ℕ) (others : List (Waiter ℕ))
    (loop : EventLoop) : EventLoop × Answer :=
  match point with
  | .tenantLock =>
    let loop := loop.setLock (loop.limiter.tenantLock.resume w others)
    if w.fails then (loop, .cancelled) else loop.checkTenant ctx
  | .globalSlot =>
    let loop := loop.setGlobal (loop.limiter.globalSemaphore.resume w others)
    if w.fails then (loop, .cancelled) else loop.acquireTenant ctx
  | .tenantSlot =>
    let loop := loop.setTenant ctx.tenant ((loop.tenantSemaphore ctx.tenant).resume w others)
    if w.fails then (loop, .cancelled) else loop.acquireSource ctx
  | .sourceSlot =>
    match ctx.source with
    | none => (loop, .ignored)
    | some source =>
      let loop := loop.setSource source ((loop.limiter.sourceSemaphores source).resume w others)
      if w.fails then (loop, .cancelled) else loop.enter ctx

def resume (id : ℕ) (loop : EventLoop) : EventLoop × Answer :=
  match loop.waiting.find? fun call => call.1.id = id with
  | none => (loop, .ignored)
  | some (ctx, point) =>
    match ready? id (loop.waitersAt ctx point) with
    | none => (loop, .ignored)
    | some (w, others) =>
      { loop with waiting := loop.waiting.filter fun call => call.1.id ≠ id }.resumeAt
        ctx point w others

/-- A waiting call is cancelled; the loop resumes it later. -/
def cancelAt (ctx : Context) (point : Point) (loop : EventLoop) : EventLoop :=
  let waiters := cancel ctx.id (loop.waitersAt ctx point)
  match point with
  | .tenantLock => loop.setLock { loop.limiter.tenantLock with waiters }
  | .globalSlot => loop.setGlobal { loop.limiter.globalSemaphore with waiters }
  | .tenantSlot => loop.setTenant ctx.tenant { loop.tenantSemaphore ctx.tenant with waiters }
  | .sourceSlot =>
    match ctx.source with
    | none => loop
    | some source => loop.setSource source { loop.limiter.sourceSemaphores source with waiters }

def cancelWaiting (id : ℕ) (loop : EventLoop) : EventLoop × Answer :=
  match loop.waiting.find? fun call => call.1.id = id with
  | none => (loop, .ignored)
  | some (ctx, point) => (loop.cancelAt ctx point, .ignored)

end EventLoop

/-! ### Events -/

inductive Event where
  /-- the settings are read when the call starts -/
  | acquire (env : Settings) (source tenantId : PyStr)
  | exit (id : ℕ) (raised : Bool)
  | resume (id : ℕ)
  | cancel (id : ℕ)

def step (loop : EventLoop) : Event → EventLoop × Answer
  | .acquire env source tenantId => loop.acquire env source tenantId
  | .exit id raised => loop.exit id raised
  | .resume id => loop.resume id
  | .cancel id => loop.cancelWaiting id

end OpenClaw.Budgets
