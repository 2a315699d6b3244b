import Ice.Lib.Request
import Mathlib.Data.Nat.Notation

/-!
# `net::event` and `service::run` on Windows

`net/event.hpp` and `net/service.cpp`. A coroutine makes a request that the system completes
later: `if (rc == ERROR_IO_PENDING) { co_await ev; ... }`. The `event` is a local variable of the
coroutine. The completion is queued on the port of the service, whose thread takes a batch and
calls `resume` on every event in it; a request that is complete at once queues nothing
(`FILE_SKIP_COMPLETION_PORT_ON_SUCCESS`). Both `await_suspend`, on the coroutine's own thread, and
`resume` exchange `ready_`, and the one that comes second resumes the coroutine. A label is one
access to what the two share.

The packets of `interrupt()` have no event and are not followed, nor is the end of the loop.
-/

set_option autoImplicit false

namespace Ice
namespace Net
namespace Completion

open Lib

/-- Where a coroutine is. -/
inductive At
  -- in its own code
  | running
  -- `co_await ev`, before `awaiter_ = awaiter;`
  | awaiting
  -- before `ready_.exchange(true)` in `await_suspend`
  | stored
  | suspended
  | ended
  deriving DecidableEq

structure World (C : Type*) where
  coroutine : C → At
  -- `ready_` and `awaiter_` of the event that the coroutine has made last
  ready_ : C → Bool
  awaiter_ : C → Bool
  -- the system has the coroutine's request
  pending : C → Bool
  -- the packets on the port
  port : List C
  -- the entries that `service::run` has not come to
  batch : List C
  -- the coroutine that runs inside of `ev->resume()`
  host : Option C
  -- an access to an event that no longer exists, a coroutine resumed that is not suspended or
  -- with an `awaiter_` that was not stored, `GetOverlappedResult` before the request is complete
  fault : Bool
  events : List (Request C)

namespace World

variable {C : Type*}

inductive Label (C : Type*)
  -- `event ev;` and a request that is pending
  | request (c : C)
  | store (c : C)
  -- the exchange in `await_suspend`
  | suspend (c : C)
  -- the system completes the request
  | complete (c : C)
  -- `GetQueuedCompletionStatusEx` gives up to `count` packets
  | take (count : ℕ)
  -- `ev->resume()` for the next entry
  | resume
  | end_ (c : C)
  deriving DecidableEq

def init : World C := ⟨fun _ => .running, fun _ => false, fun _ => false, fun _ => false, [], [],
  none, false, []⟩

/-- The coroutine still has its event. -/
def alive : At → Bool
  | .awaiting | .stored | .suspended => true
  | .running | .ended => false

variable [DecidableEq C]

/-- `awaiter_.resume();`, for a coroutine that should be at `place`. It goes on with
    `GetOverlappedResult`. -/
def continue_ (s : World C) (c : C) (place : At) : World C :=
  { s with
    coroutine := Function.update s.coroutine c .running
    fault := s.fault || s.coroutine c ≠ place || !s.awaiter_ c || s.pending c
    events := s.events ++ [.continued c] }

/-- The thread of the service is back from the coroutine that it has resumed. -/
def leave (s : World C) (c : C) : World C :=
  { s with host := if s.host = some c then none else s.host }

def step (s : World C) : Label C → Option (World C)
  | .request c =>
    if s.coroutine c = .running then
      some { s with
        coroutine := Function.update s.coroutine c .awaiting
        ready_ := Function.update s.ready_ c false
        awaiter_ := Function.update s.awaiter_ c false
        pending := Function.update s.pending c true
        events := s.events ++ [.issued c] }
    else none
  | .store c =>
    if s.coroutine c = .awaiting then
      some { s with
        coroutine := Function.update s.coroutine c .stored
        awaiter_ := Function.update s.awaiter_ c true }
    else none
  | .suspend c =>
    if s.coroutine c = .stored then
      if s.ready_ c then some (s.continue_ c .stored)
      else
        some (leave
          { s with
            coroutine := Function.update s.coroutine c .suspended
            ready_ := Function.update s.ready_ c true } c)
    else none
  | .complete c =>
    if s.pending c then
      some { s with
        pending := Function.update s.pending c false
        port := s.port ++ [c]
        events := s.events ++ [.completed c] }
    else none
  | .take count =>
    if s.host = none ∧ s.batch = [] ∧ s.port ≠ [] ∧ 0 < count then
      some { s with batch := s.port.take count, port := s.port.drop count }
    else none
  | .resume =>
    match s.host, s.batch with
    | none, c :: rest =>
      let s := { s with batch := rest, fault := s.fault || !alive (s.coroutine c) }
      if s.ready_ c then some { s.continue_ c .suspended with host := some c }
      else some { s with ready_ := Function.update s.ready_ c true }
    | _, _ => none
  | .end_ c =>
    if s.coroutine c = .running then
      some (leave { s with coroutine := Function.update s.coroutine c .ended } c)
    else none

def machine : Machine (World C) (Label C) := ⟨step⟩

end World

end Completion
end Net
end Ice
