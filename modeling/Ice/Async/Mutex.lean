import Ice.Lib.Machine
import Ice.Lib.Chain

/-!
# `ice::async_mutex` — a lock that suspends coroutines

`async.hpp`. The word `m_state` is `not_locked`, or it is the newest of the coroutines that
pushed themselves since the lock was last handed over (null where there is none); the older
ones wait in `m_waiters`, which only the holder touches. Any number of coroutines lock, try to
lock and unlock, on any threads.

A coroutine has one lock operation at a time, so the coroutine names it. A waiter that `unlock`
resumes runs inside of that call; as elsewhere, `resume()` leaves both sides free to go on. Each
label is one atomic access of the source:

| label          | access                                                              |
|----------------|---------------------------------------------------------------------|
| `try_lock c`   | the compare-exchange of `try_lock`                                  |
| `lock c`       | `c` enters `await_suspend` of its operation                         |
| `unlock c`     | `c`, which holds the lock, enters `unlock`                          |
| `move c d`     | the `async_mutex_lock` of `c` is moved to `d`                       |
| `step c fail`  | the next access of `c`; `fail`: `compare_exchange_weak` is spurious |
-/

namespace Ice

open Lib

/-- `m_state`: 1, or a pointer that may be null (0, `locked_no_waiters`). -/
inductive AsyncMutex.State (C : Type*)
  | not_locked
  | locked (waiter : Option C)
  deriving DecidableEq

/-- Where a coroutine stands with respect to the mutex. -/
inductive AsyncMutex.Operation (C : Type*)
  | idle
  /-- `oldState = m_mutex.m_state.load(std::memory_order_acquire);` -/
  | load
  /-- `m_state.compare_exchange_weak(oldState, locked_no_waiters, ...)` -/
  | take
  /-- `m_next = reinterpret_cast<async_mutex_lock_operation*>(oldState);` -/
  | store (oldState : Option C)
  /-- `m_state.compare_exchange_weak(oldState, this, ...)` -/
  | push (oldState : Option C)
  /-- `await_suspend` returned true. -/
  | waiting
  | holding
  /-- `waitersHead = m_waiters;` -/
  | unlock
  /-- `m_state.compare_exchange_strong(oldState, not_locked, ...)` -/
  | release
  /-- `oldState = m_state.exchange(locked_no_waiters, ...)` -/
  | exchange
  /-- The `do` loop that turns the list around. -/
  | reverse (next : C) (waitersHead : Option C)
  /-- `m_waiters = waitersHead->m_next;` -/
  | pop (waitersHead : C)
  /-- `waitersHead->m_awaiter.resume();` -/
  | resume (waitersHead : C)
  /-- An `assert` of `unlock` failed. -/
  | failed
  deriving DecidableEq

/-- From the acquisition to the end of `unlock`. -/
def AsyncMutex.Operation.owns {C : Type*} : AsyncMutex.Operation C → Bool
  | .holding | .unlock | .release | .exchange | .reverse .. | .pop _ | .resume _ => true
  | _ => false

/-- Inside `unlock`. -/
def AsyncMutex.Operation.unlocking {C : Type*} : AsyncMutex.Operation C → Bool
  | .unlock | .release | .exchange | .reverse .. | .pop _ | .resume _ => true
  | _ => false

structure AsyncMutex (C : Type*) where
  /-- `m_state` -/
  state : AsyncMutex.State C
  /-- `m_waiters` -/
  waiters : Option C
  /-- `m_next`, by the operation. -/
  next : C → Option C
  op : C → AsyncMutex.Operation C
  /-- The coroutines whose compare-exchange in `await_suspend` or `try_lock` succeeded, in
      that order. -/
  arrived : List C
  /-- The coroutines that got the lock, in that order. -/
  granted : List C
  /-- How many calls of `unlock` have returned or resumed a waiter. -/
  unlocked : ℕ

namespace AsyncMutex

variable {C : Type*}

inductive Label (C : Type*)
  | try_lock (c : C)
  | lock (c : C)
  | unlock (c : C)
  | move (c d : C)
  | step (c : C) (fail : Bool)
  deriving DecidableEq

/-- An access of `c` inside `await_suspend` or `unlock`. -/
def Label.isStepOf [DecidableEq C] (c : C) : Label C → Bool
  | .step d _ => decide (d = c)
  | _ => false

/-- `async_mutex() noexcept = default;` -/
def init : AsyncMutex C where
  state := .not_locked
  waiters := none
  next _ := none
  op _ := .idle
  arrived := []
  granted := []
  unlocked := 0

/-- What `~async_mutex` asserts. -/
def destructible (s : AsyncMutex C) : Bool :=
  s.waiters.isNone &&
    match s.state with
    | .not_locked | .locked none => true
    | .locked (some _) => false

variable [DecidableEq C]

def goto (s : AsyncMutex C) (c : C) (op : Operation C) : AsyncMutex C :=
  { s with op := Function.update s.op c op }

/-- A compare-exchange from `not_locked` to `locked_no_waiters` succeeds. -/
def take (s : AsyncMutex C) (c : C) : AsyncMutex C :=
  { s with
    state := .locked none
    op := Function.update s.op c .holding
    arrived := s.arrived ++ [c]
    granted := s.granted ++ [c] }

/-- The head of the loop in `await_suspend`, with what `oldState` is. -/
def loop (s : AsyncMutex C) (c : C) : State C → AsyncMutex C
  | .not_locked => s.goto c .take
  | .locked waiter => s.goto c (.store waiter)

def stepOf (s : AsyncMutex C) (c : C) (fail : Bool) : Option (AsyncMutex C) :=
  match s.op c with
  | .load => some (s.loop c s.state)
  | .take =>
    if s.state = .not_locked ∧ fail = false then some (s.take c) else some (s.loop c s.state)
  | .store waiter =>
    some { s with
      next := Function.update s.next c waiter
      op := Function.update s.op c (.push waiter) }
  | .push waiter =>
    if s.state = .locked waiter ∧ fail = false then
      some { s with
        state := .locked (some c)
        op := Function.update s.op c .waiting
        arrived := s.arrived ++ [c] }
    else some (s.loop c s.state)
  | .unlock =>
    -- `assert(m_state.load(std::memory_order_relaxed) != not_locked);`
    if s.state = .not_locked then some (s.goto c .failed)
    else
      match s.waiters with
      | none => some (s.goto c .release)
      | some waitersHead => some (s.goto c (.pop waitersHead))
  | .release =>
    if s.state = .locked none then
      some { s with
        state := .not_locked
        op := Function.update s.op c .idle
        unlocked := s.unlocked + 1 }
    else some (s.goto c .exchange)
  | .exchange =>
    match s.state with
    | .locked (some next) => some { s with
        state := .locked none
        op := Function.update s.op c (.reverse next none) }
    -- `assert(oldState != locked_no_waiters && oldState != not_locked);`
    | .locked none | .not_locked => some (s.goto c .failed)
  | .reverse next waitersHead =>
    some { s with
      next := Function.update s.next next waitersHead
      op := Function.update s.op c
        (match s.next next with
        | some temp => .reverse temp (some next)
        | none => .pop next) }
  | .pop waitersHead =>
    some { s with
      waiters := s.next waitersHead
      op := Function.update s.op c (.resume waitersHead) }
  | .resume waitersHead =>
    some { s with
      op := Function.update (Function.update s.op c .idle) waitersHead .holding
      granted := s.granted ++ [waitersHead]
      unlocked := s.unlocked + 1 }
  | .idle | .waiting | .holding | .failed => none

def step (s : AsyncMutex C) : Label C → Option (AsyncMutex C)
  | .try_lock c =>
    if s.op c = .idle then
      if s.state = .not_locked then some (s.take c) else some s
    else none
  | .lock c => if s.op c = .idle then some (s.goto c .load) else none
  | .unlock c => if s.op c = .holding then some (s.goto c .unlock) else none
  | .move c d =>
    if s.op c = .holding ∧ s.op d = .idle then
      some { s with op := Function.update (Function.update s.op c .idle) d .holding }
    else none
  | .step c fail => s.stepOf c fail

/-- Coroutines that lock and unlock, interleaved by atomic access. -/
def machine : Machine (AsyncMutex C) (Label C) := ⟨step⟩

end AsyncMutex

end Ice
