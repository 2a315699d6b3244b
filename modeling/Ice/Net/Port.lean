import Ice.Net.Service

/-!
# `ice::net::service` on Windows

`service.cpp`. The loop over the entries is the one of `Ice/Net/Service.lean`, and so are the calls
of `post` and `stop`. What the loop waits for is an I/O completion port, which is a queue of
packets: `interrupt()` puts in a packet without an event, every call its own, and the system one for
each request that is complete. `GetQueuedCompletionStatusEx` takes packets from its front. If that
times out, which it only does with a true `stop`, `run` returns without looking at `stop_` again.
-/

set_option autoImplicit false

namespace Ice
namespace Net

open Lib

def WAIT_TIMEOUT : Errno := ⟨258, by decide⟩

def ERROR_ABANDONED_WAIT_0 : Errno := ⟨735, by decide⟩

structure Port (E N T : Type*) where
  -- the thread in `run` and its callers; `armed` says that a packet without an event is queued
  service : Service E N T
  packets : List (Option E)

namespace Port

/-- How `GetQueuedCompletionStatusEx` ends. -/
inductive Wait
  | ready (count : ℕ)
  -- and `::GetLastError()` gives `rc`
  | failed (rc : Errno)
  deriving DecidableEq

inductive Label (E N T : Type*)
  | post (t : T) (schedule : N)
  | stop (t : T) (stop : Bool)
  -- the next access of thread `t` inside its call
  | call (t : T)
  -- the next access of the runner outside the wait
  | run
  | wait (w : Wait)
  -- the request of an event is complete
  | complete (ev : E)
  deriving DecidableEq

variable {E N T : Type*}

/-- `create()` interrupts. -/
def create : Port E N T := ⟨Service.create, [none]⟩

/-- `static_cast<ULONG>(events.size())` -/
def eventsSize (event_buffer_size : ℕ) : ℕ := event_buffer_size % UInt32.size

/-- The runner moves on. -/
def goto (s : Port E N T) (run : Service.Run E N) : Port E N T :=
  { s with service := { s.service with run := run } }

/-- `run` after `GetQueuedCompletionStatusEx`. -/
def waitStep (s : Port E N T) (event_buffer_size : ℕ) : Wait → Option (Port E N T)
  | .ready count =>
    if count ≤ s.packets.length ∧ count ≤ eventsSize event_buffer_size then
      if count < 1 then some (s.goto (.returned .clear))
      else
        some
          { service :=
              { s.service with
                armed := (s.packets.drop count).any Option.isNone
                run := .entries (s.packets.take count) false }
            packets := s.packets.drop count }
    else none
  | .failed rc =>
    -- `const DWORD timeout = stop ? 1 : INFINITE;`
    if rc = WAIT_TIMEOUT → s.service.stop = true then
      if rc ≠ ERROR_ABANDONED_WAIT_0 ∧ rc ≠ WAIT_TIMEOUT then
        some (s.goto (.returned (make_error_code rc.value)))
      else some (s.goto (.returned .clear))
    else none

variable [DecidableEq T]

def step (event_buffer_size : ℕ) (s : Port E N T) : Label E N T → Option (Port E N T)
  | .post t n =>
    (s.service.box.callPost t n).map fun box => { s with service := { s.service with box := box } }
  | .stop t stop =>
    (s.service.box.callStop t stop).map fun box =>
      { s with service := { s.service with box := box } }
  | .call t =>
    (s.service.callStep t).map fun service =>
      { service := service
        packets :=
          -- `interrupt()`: `PostQueuedCompletionStatus(handle, 0, 0, nullptr)`
          if (s.service.box.caller t).pending then s.packets ++ [none] else s.packets }
  | .run => s.service.runStep.map fun service => { s with service := service }
  | .wait w =>
    match s.service.run with
    | .wait => s.waitStep event_buffer_size w
    | _ => none
  | .complete ev => some { s with packets := s.packets ++ [some ev] }

def machine (event_buffer_size : ℕ) : Machine (Port E N T) (Label E N T) :=
  ⟨step event_buffer_size⟩

end Port

end Net
end Ice
