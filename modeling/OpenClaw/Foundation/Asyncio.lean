import Mathlib.Data.List.Basic
import Mathlib.Algebra.Order.Ring.Int

/-!
# Semaphores and locks of one event loop

The counting semaphore and the lock of Python's `asyncio`. A task that cannot take a slot at once
leaves a waiter behind and is suspended; whoever gives a slot back wakes a waiter. `Guards` says that
nobody waits and that the value is the capacity without the slots that are held.
-/

namespace Foundation.Asyncio

set_option autoImplicit false

universe u
variable {τ : Type u}

/-- The future of a waiter. -/
inductive Future where
  | pending | set | cancelled
  deriving DecidableEq

structure Waiter (τ : Type u) where
  task : τ
  future : Future := .pending
  /-- the task was cancelled after its future was set -/
  interrupted : Bool := false

def Waiter.cancel (w : Waiter τ) : Waiter τ :=
  if w.future = .pending then { w with future := .cancelled } else { w with interrupted := true }

/-- The task is resumed with a `CancelledError`. -/
def Waiter.fails (w : Waiter τ) : Bool := decide (w.future = .cancelled) || w.interrupted

/-- Set the first future that is still pending. -/
def wake : List (Waiter τ) → Option (List (Waiter τ))
  | [] => none
  | w :: ws =>
    if w.future = .pending then some ({ w with future := .set } :: ws)
    else (wake ws).map (w :: ·)

section
variable [DecidableEq τ]

def cancel (task : τ) (ws : List (Waiter τ)) : List (Waiter τ) :=
  ws.map fun w => if w.task = task then w.cancel else w

/-- The waiter of a task that the loop may resume, and the others. -/
def ready? (task : τ) (ws : List (Waiter τ)) : Option (Waiter τ × List (Waiter τ)) :=
  (ws.find? fun w => decide (w.task = task ∧ w.future ≠ .pending)).map fun w =>
    (w, ws.filter fun w => w.task ≠ task)

end

structure Semaphore (τ : Type u) where
  value : ℤ
  waiters : List (Waiter τ) := []

namespace Semaphore

def locked (s : Semaphore τ) : Bool :=
  decide (s.value = 0) || s.waiters.any fun w => w.future ≠ .cancelled

/-- `acquire` without a suspension. -/
def take (s : Semaphore τ) : Option (Semaphore τ) :=
  if s.locked then none else some { s with value := s.value - 1 }

def park (task : τ) (s : Semaphore τ) : Semaphore τ :=
  { s with waiters := s.waiters ++ [{ task }] }

/-- A slot goes to the next waiter, if there is one. -/
def wakeUpNext (s : Semaphore τ) : Option (Semaphore τ) :=
  (wake s.waiters).map fun waiters => { value := s.value - 1, waiters }

def release (s : Semaphore τ) : Semaphore τ :=
  let s := { s with value := s.value + 1 }
  s.wakeUpNext.getD s

/-- The loop at the end of `acquire`, with at most `fuel` rounds. -/
def wakeAll : ℕ → Semaphore τ → Semaphore τ
  | 0, s => s
  | fuel + 1, s => if 0 < s.value then (s.wakeUpNext.map (wakeAll fuel)).getD s else s

/-- The rest of `acquire` when the waiter is resumed. -/
def resume (w : Waiter τ) (others : List (Waiter τ)) (s : Semaphore τ) : Semaphore τ :=
  let value := if w.fails ∧ w.future = .set then s.value + 1 else s.value
  wakeAll others.length { value, waiters := others }

/-- Nobody waits, and of `cap` slots `held` are taken. -/
structure Guards (s : Semaphore τ) (cap : ℤ) (held : ℕ) : Prop where
  idle : s.waiters = []
  value : s.value = cap - held
  bound : held ≤ cap

variable {s : Semaphore τ} {cap : ℤ} {held : ℕ}

theorem guards_new (h : 0 ≤ cap) : Guards ({ value := cap } : Semaphore τ) cap 0 :=
  ⟨rfl, by simp, by simpa using h⟩

/-- A slot that is there is taken at once. -/
theorem Guards.take (h : Guards s cap held) (hfree : s.locked = false) :
    ∃ s', s.take = some s' ∧ Guards s' cap (held + 1) := by
  have hvalue : s.value ≠ 0 := by
    rw [locked, Bool.or_eq_false_iff] at hfree
    exact of_decide_eq_false hfree.1
  refine ⟨{ s with value := s.value - 1 }, ?_, h.idle, ?_, ?_⟩
  · rw [Semaphore.take, hfree]
    rfl
  · have hold := h.value
    push_cast
    omega
  · have hold := h.value
    have hbound := h.bound
    push_cast
    omega

theorem Guards.release (h : Guards s cap (held + 1)) : Guards s.release cap held := by
  have hvalue := h.value
  have hbound := h.bound
  have hrelease : s.release = { s with value := s.value + 1 } := by
    unfold Semaphore.release wakeUpNext
    simp only [h.idle, wake, Option.map_none, Option.getD_none]
  rw [hrelease]
  push_cast at hvalue hbound
  exact ⟨h.idle, by simp only; omega, by omega⟩

end Semaphore

structure Lock (τ : Type u) where
  locked : Bool := false
  waiters : List (Waiter τ) := []

namespace Lock

def take (l : Lock τ) : Option (Lock τ) :=
  if l.locked = false ∧ (l.waiters.all fun w => w.future = .cancelled) = true then
    some { l with locked := true }
  else none

def park (task : τ) (l : Lock τ) : Lock τ := { l with waiters := l.waiters ++ [{ task }] }

/-- Only the first waiter is woken. -/
def wakeUpFirst (l : Lock τ) : Lock τ :=
  match l.waiters with
  | [] => l
  | w :: ws =>
    if w.future = .pending then { l with waiters := { w with future := .set } :: ws } else l

def release (l : Lock τ) : Lock τ := { l with locked := false }.wakeUpFirst

def resume (w : Waiter τ) (others : List (Waiter τ)) (l : Lock τ) : Lock τ :=
  if w.fails = false then { locked := true, waiters := others }
  else if l.locked then { l with waiters := others }
  else { l with waiters := others }.wakeUpFirst

/-- Nobody holds the lock or waits for it. -/
structure Free (l : Lock τ) : Prop where
  unlocked : l.locked = false
  idle : l.waiters = []

theorem Free.take {l : Lock τ} (h : Free l) : l.take = some { l with locked := true } := by
  unfold Lock.take
  rw [h.unlocked, h.idle]
  rfl

theorem Free.release {l : Lock τ} (h : Free l) : ({ l with locked := true } : Lock τ).release = l := by
  obtain ⟨hunlocked, hidle⟩ := h
  cases l with
  | mk locked waiters =>
    obtain rfl : locked = false := hunlocked
    obtain rfl : waiters = [] := hidle
    rfl

end Lock

end Foundation.Asyncio
