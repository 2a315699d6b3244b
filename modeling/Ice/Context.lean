import Ice.Lib.Machine
import Ice.Lib.Mailbox

/-!
# `ice::context` — one thread in `run`, any number of threads in `post` and `stop`

`context.hpp`, access by access. The queue is the abstract `Fifo` (`Proof/Scheduler/Queue.lean`
proves that the intrusive list is one): `scheduler::post` is one push and `acquire` takes all
that is waiting, a null pointer being the empty batch.

The condition variable is the standard's: `cv_.wait(lock, pred)` is
`while (!pred()) wait(lock);`, blocking releases the mutex in the same step, a notification
reaches only a thread that is blocked at that moment, and a blocked thread may wake
spuriously. Only `run` ever takes `mutex_`.

A coroutine resumed by the loop may itself call `post` and `stop`: those calls are steps of
one of the calling threads, taken while the loop stands at `resume`.
-/

namespace Ice

open Lib

namespace Context

/-- Where the runner stands in `context::run`. -/
inductive Run (N : Type*)
  -- `std::unique_lock lock{ mutex_ };`
  | enter
  -- `lock.unlock();` before the loop.
  | release
  -- `lock.lock();`
  | lock
  -- `auto head = acquire();`
  | acquire
  -- `if (stop_.load(std::memory_order_acquire))`, the head being null.
  | testStop
  -- `head = acquire();` in the predicate.
  | waitAcquire
  -- `return head || stop_.load(std::memory_order_acquire);`, the head being null.
  | waitStop
  -- The predicate was false: about to release the mutex and block.
  | block
  | blocked
  -- Woken, about to take the mutex again.
  | wake
  -- `lock.unlock();` with a batch in hand.
  | unlock (batch : List (Nat × N))
  -- `while (head)`
  | drain (batch : List (Nat × N))
  -- Inside `head->resume()`; `next` was read before.
  | resume (batch : List (Nat × N))
  -- `lock.unlock(); return;`
  | leave
  | returned
  deriving DecidableEq

/-- The entries the loop has taken and not resumed. -/
def Run.batch {N : Type*} : Run N → List (Nat × N)
  | .unlock batch | .drain batch | .resume batch => batch
  | _ => []

/-- Blocked in `cv_.wait`. -/
def Run.isBlocked {N : Type*} : Run N → Bool
  | .blocked => true
  | _ => false

end Context

structure Context (N T : Type*) where
  -- `head_` and `stop_`, and where the calling threads stand.
  box : Mailbox N T
  -- `mutex_` is held.
  locked : Bool
  -- A notification was delivered to the blocked runner.
  notified : Bool
  run : Context.Run N

namespace Context

variable {N T : Type*}

inductive Label (N T : Type*)
  -- Thread `t` calls `post(schedule)`.
  | post (t : T) (schedule : N)
  -- Thread `t` calls `stop(stop)`.
  | stop (t : T) (stop : Bool)
  -- The next access of thread `t` inside its call.
  | call (t : T)
  -- The next access of the runner.
  | run
  -- A spurious wakeup.
  | spurious
  deriving DecidableEq

def init : Context N T where
  box := Mailbox.init
  locked := false
  notified := false
  run := .enter

/-- `cv_.notify_one()` and `cv_.notify_all()`: there is one waiter, if any. -/
def notify (s : Context N T) : Context N T :=
  { s with notified := s.notified || s.run.isBlocked }

/-- `acquire()`: the loop goes on with the batch, or to `empty` for a null head. -/
def acquire (s : Context N T) (empty : Run N) : Context N T :=
  { s with
    box := s.box.take
    run := if s.box.queue.waiting.isEmpty then empty else .unlock s.box.queue.waiting }

/-- One access of the runner. -/
def runStep (s : Context N T) : Option (Context N T) :=
  match s.run with
  | .enter => if s.locked then none else some { s with locked := true, run := .release }
  | .release => some { s with locked := false, run := .lock }
  | .lock => if s.locked then none else some { s with locked := true, run := .acquire }
  | .acquire => some (s.acquire .testStop)
  | .testStop => some { s with run := if s.box.stop then .leave else .waitAcquire }
  | .waitAcquire => some (s.acquire .waitStop)
  -- A true predicate with a null head returns from `wait` into `while (!head)`.
  | .waitStop => some { s with run := if s.box.stop then .testStop else .block }
  | .block => some { s with locked := false, notified := false, run := .blocked }
  | .blocked => if s.notified then some { s with notified := false, run := .wake } else none
  | .wake => if s.locked then none else some { s with locked := true, run := .waitAcquire }
  | .unlock batch => some { s with locked := false, run := .drain batch }
  | .drain [] => some { s with run := .lock }
  | .drain (head :: next) => some { s with box := s.box.handle head.1, run := .resume next }
  | .resume next => some { s with run := .drain next }
  | .leave => some { s with locked := false, run := .returned }
  | .returned => none

variable [DecidableEq T]

/-- One access of thread `t` inside `post` or `stop`. -/
def callStep (s : Context N T) (t : T) : Option (Context N T) :=
  match s.box.caller t with
  | .idle => none
  -- `scheduler::post(schedule);`
  | .push schedule => some { s with box := s.box.push t schedule }
  -- `cv_.notify_one();`
  | .posted number => some { s.notify with box := s.box.postReturns t number }
  -- `stop_.store(stop, std::memory_order_release);`
  | .store stop => some { s with box := s.box.store t stop }
  -- `cv_.notify_all();`
  | .stopped => some { s.notify with box := s.box.stopReturns t }

/-- What an access of `t` can be, and what it does. -/
theorem callStep_cases {s s' : Context N T} {t : T} (hs : s.callStep t = some s') :
    (∃ n, s.box.caller t = .push n ∧ s' = { s with box := s.box.push t n }) ∨
    (∃ number, s.box.caller t = .posted number ∧
      s' = { s.notify with box := s.box.postReturns t number }) ∨
    (∃ stop, s.box.caller t = .store stop ∧ s' = { s with box := s.box.store t stop }) ∨
    s.box.caller t = .stopped ∧ s' = { s.notify with box := s.box.stopReturns t } := by
  unfold callStep at hs
  cases ht : s.box.caller t with
  | idle => rw [ht] at hs; cases hs
  | push n =>
    rw [ht] at hs
    exact Or.inl ⟨n, rfl, (Option.some.inj hs).symm⟩
  | posted number =>
    rw [ht] at hs
    exact Or.inr (Or.inl ⟨number, rfl, (Option.some.inj hs).symm⟩)
  | store stop =>
    rw [ht] at hs
    exact Or.inr (Or.inr (Or.inl ⟨stop, rfl, (Option.some.inj hs).symm⟩))
  | stopped =>
    rw [ht] at hs
    exact Or.inr (Or.inr (Or.inr ⟨rfl, (Option.some.inj hs).symm⟩))

def step (s : Context N T) : Label N T → Option (Context N T)
  | .post t n => (s.box.callPost t n).map fun box => { s with box := box }
  | .stop t stop => (s.box.callStop t stop).map fun box => { s with box := box }
  | .call t => s.callStep t
  | .run => s.runStep
  | .spurious =>
    match s.run with
    | .blocked => some { s with notified := false, run := .wake }
    | _ => none

/-- One runner and any number of callers, interleaved by atomic access. -/
def machine : Machine (Context N T) (Label N T) := ⟨step⟩

end Context

end Ice
