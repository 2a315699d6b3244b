import Ice.Error
import Ice.Lib.Machine
import Ice.Lib.Mailbox

/-!
# `ice::net::service` — one thread in `run`, any number of threads in `post` and `stop`

`service.hpp` and the POSIX branches of `service.cpp`, access by access. As for
`ice::context`, a `post` is one push and `acquire` takes all that is waiting.

`interrupt()` is one call into the kernel. On Linux it re-arms the one-shot registration of
an eventfd that is always writable; on FreeBSD it triggers a user event that is cleared when
it is reported. Either way it leaves *armed* what one report disarms. How many entries a
wait reports, and whether the interrupt is among them, is the kernel's choice.

An event coroutine resumed by the loop may itself call `post` and `stop`: those calls are
steps of one of the calling threads, taken while the loop stands at `event`.
-/

namespace Ice
namespace Net

open Lib

/-- How `epoll_wait` or `kevent` returns. -/
inductive Wait (E : Type*)
  -- The entries it filled in; the interrupt's is the one without user data.
  | ready (entries : List (Option E))
  | timeout
  | failed (errno : Errno)
  deriving DecidableEq

namespace Service

/-- Where the runner stands in `service::run`. -/
inductive Run (E N : Type*)
  -- `auto stop = stop_.load(std::memory_order_acquire);`
  | enter
  -- Inside `epoll_wait` or `kevent`.
  | wait
  -- `if (stop_.load(std::memory_order_acquire))`, `count` being less than 1.
  | test (count : Int)
  -- `for (size_type i = 0; i < count; i++)`, these entries being left.
  | entries (rest : List (Option E)) (interrupted : Bool)
  -- Inside `ev->resume()`.
  | event (ev : E) (rest : List (Option E)) (interrupted : Bool)
  -- `auto head = acquire();` in `process()`.
  | process
  -- `while (head)`
  | drain (batch : List (ℕ × N))
  -- Inside `head->resume()`; `next` was read before.
  | resume (batch : List (ℕ × N))
  | returned (ec : ErrorCode)
  deriving DecidableEq

/-- The entries of the queue that the loop has taken and not resumed. -/
def Run.batch {E N : Type*} : Run E N → List (ℕ × N)
  | .drain batch | .resume batch => batch
  | _ => []

/-- An interrupt was reported and the loop has not come to its entry. -/
def Run.unread {E N : Type*} : Run E N → Bool
  | .entries rest _ | .event _ rest _ => rest.any Option.isNone
  | _ => false

/-- An interrupt was reported and the loop has not acquired the queue since. -/
def Run.taken {E N : Type*} : Run E N → Bool
  | .entries rest interrupted | .event _ rest interrupted =>
    rest.any Option.isNone || interrupted
  | .process => true
  | _ => false

end Service

structure Service (E N T : Type*) where
  -- `head_` and `stop_`, and where the calling threads stand.
  box : Mailbox N T
  -- The next wait can report the interrupt.
  armed : Bool
  -- The local `stop` of `run`.
  stop : Bool
  run : Service.Run E N

namespace Service

variable {E N T : Type*}

inductive Label (E N T : Type*)
  -- Thread `t` calls `post(schedule)`.
  | post (t : T) (schedule : N)
  -- Thread `t` calls `stop(stop)`.
  | stop (t : T) (stop : Bool)
  -- The next access of thread `t` inside its call.
  | call (t : T)
  -- The next access of the runner outside the wait.
  | run
  -- The runner's wait returns.
  | wait (w : Wait E)
  deriving DecidableEq

def interrupt (s : Service E N T) : Service E N T := { s with armed := true }

/-- `create()` adds the registration disarmed and interrupts. -/
def create : Service E N T :=
  interrupt { box := Mailbox.init, armed := false, stop := false, run := .enter }

/-- `static_cast<int>(events.size())`. -/
def eventsSize (event_buffer_size : ℕ) : Int := Int.bmod event_buffer_size UInt32.size

/-- `timeout`, in milliseconds; `none` waits for as long as it takes. -/
def timeout (stop : Bool) : Os → Option ℕ
  -- `stop ? 1 : -1`
  | .linux => if stop then some 1 else none
  -- `stop ? &ts : nullptr`, `ts` being a million nanoseconds.
  | .freebsd => if stop then some (1000000 / 1000000) else none

/-- `run` after `count = epoll_wait(..)` or `count = kevent(..)`. -/
def waitStep (s : Service E N T) (os : Os) (event_buffer_size : ℕ) :
    Wait E → Option (Service E N T)
  | .ready entries =>
    if entries ≠ [] ∧ (entries.length : Int) ≤ eventsSize event_buffer_size ∧
        entries.countP Option.isNone ≤ (if s.armed then 1 else 0) then
      some { s with
        armed := s.armed && !entries.any Option.isNone
        run := .entries entries false }
    else none
  | .timeout => if (timeout s.stop os).isSome then some { s with run := .test 0 } else none
  | .failed errno =>
    if errno ≠ EINTR then some { s with run := .returned (make_error_code errno.value) }
    else some { s with run := .test (-1) }

/-- One access of the runner outside the wait. -/
def runStep (s : Service E N T) : Option (Service E N T) :=
  match s.run with
  | .enter => some { s with stop := s.box.stop, run := .wait }
  | .wait => none
  -- With `count` less than 1 the `for` loop has nothing to do.
  | .test _ =>
    some { s with run := if s.box.stop then .returned .clear else .entries [] false }
  | .entries (some ev :: rest) interrupted => some { s with run := .event ev rest interrupted }
  | .entries (none :: rest) _ => some { s with stop := s.box.stop, run := .entries rest true }
  | .entries [] interrupted => some { s with run := if interrupted then .process else .wait }
  | .event _ rest interrupted => some { s with run := .entries rest interrupted }
  | .process => some { s with box := s.box.take, run := .drain s.box.queue.waiting }
  | .drain [] => some { s with run := .wait }
  | .drain (head :: next) => some { s with box := s.box.handle head.1, run := .resume next }
  | .resume next => some { s with run := .drain next }
  | .returned _ => none

variable [DecidableEq T]

/-- One access of thread `t` inside `post` or `stop`. -/
def callStep (s : Service E N T) (t : T) : Option (Service E N T) :=
  match s.box.caller t with
  | .idle => none
  -- `scheduler::post(schedule);`
  | .push schedule => some { s with box := s.box.push t schedule }
  -- `return interrupt();`
  | .posted number => some { s.interrupt with box := s.box.postReturns t number }
  -- `stop_.store(stop, std::memory_order_release);`
  | .store stop => some { s with box := s.box.store t stop }
  -- `return interrupt();`
  | .stopped => some { s.interrupt with box := s.box.stopReturns t }

/-- What an access of `t` can be, and what it does. -/
theorem callStep_cases {s s' : Service E N T} {t : T} (hs : s.callStep t = some s') :
    (∃ n, s.box.caller t = .push n ∧ s' = { s with box := s.box.push t n }) ∨
    (∃ number, s.box.caller t = .posted number ∧
      s' = { s.interrupt with box := s.box.postReturns t number }) ∨
    (∃ stop, s.box.caller t = .store stop ∧ s' = { s with box := s.box.store t stop }) ∨
    s.box.caller t = .stopped ∧ s' = { s.interrupt with box := s.box.stopReturns t } := by
  unfold callStep at hs
  cases ht : s.box.caller t with
  | idle => rw [ht] at hs; cases hs
  | push n =>
    rw [ht] at hs
    exact Or.inl ⟨n, rfl, (Option.some.inj hs).symm⟩
  | posted number =>
    rw [ht] at hs
    exact Or.inr (Or.inl ⟨number, rfl, (Option.some.inj hs).symm⟩)
  | store stop =>
    rw [ht] at hs
    exact Or.inr (Or.inr (Or.inl ⟨stop, rfl, (Option.some.inj hs).symm⟩))
  | stopped =>
    rw [ht] at hs
    exact Or.inr (Or.inr (Or.inr ⟨rfl, (Option.some.inj hs).symm⟩))

def step (os : Os) (event_buffer_size : ℕ) (s : Service E N T) :
    Label E N T → Option (Service E N T)
  | .post t n => (s.box.callPost t n).map fun box => { s with box := box }
  | .stop t stop => (s.box.callStop t stop).map fun box => { s with box := box }
  | .call t => s.callStep t
  | .run => s.runStep
  | .wait w =>
    match s.run with
    | .wait => s.waitStep os event_buffer_size w
    | _ => none

/-- One runner and any number of callers, interleaved by atomic access. -/
def machine (os : Os) (event_buffer_size : ℕ) : Machine (Service E N T) (Label E N T) :=
  ⟨step os event_buffer_size⟩

end Service

end Net
end Ice
