import Ice.Lib.OneShot
import Ice.Net.Service
import Mathlib.Tactic.Simps.Basic

/-!
# `ice::net::event` on Linux, and the sockets whose waits one `service::run` serves

`event.hpp`, `socket::create` and `socket::close`, and the batch loop of `service.cpp` as
`Net.Service` has it. The kernel keeps two tables. A descriptor number names an open file,
and a number that was closed is free for the next socket; files are told apart by the order
in which they were opened. The epoll set holds at most one registration under each number:
`EPOLL_CTL_ADD` under a number that is taken fails with `EEXIST`, `EPOLL_CTL_DEL` removes
whatever is registered under its number, and closing a descriptor removes its registration.

A wait is one `event` object and the coroutine that awaits it. Its stage is what the history
did to it; the program reads `handle_`, `events_` and `ec_` alone.
-/

namespace Ice
namespace Net

open Lib

def EEXIST : Errno := ⟨17, by decide⟩

def ENOENT : Errno := ⟨2, by decide⟩

def EBADF : Errno := ⟨9, by decide⟩

/-- `ICE_EVENT_RECV` and `ICE_EVENT_SEND`. -/
inductive Direction
  | recv
  | send
  deriving DecidableEq

/-- The `epoll_event` a registration carries: `nev.events` and `nev.data.ptr`. -/
structure Nev (E : Type*) where
  events : Direction
  ptr : E
  deriving DecidableEq

/-- The epoll set of one service, by descriptor number. -/
abbrev Epoll (E : Type*) := OneShot ℕ (Nev E)

/-- `epoll_ctl(service_, EPOLL_CTL_ADD, handle_, &nev)`, where `failure` is the kernel's own
    (no memory, a full set). -/
def ctlAdd {E : Type*} (q : Epoll E) (handle : ℕ) (nev : Nev E) :
    Option Errno → Except Errno (Epoll E)
  | some errno => .error errno
  | none =>
    match q.add handle nev with
    | some q' => .ok q'
    | none => .error EEXIST

/-- `epoll_ctl(service_, EPOLL_CTL_DEL, handle_, &nev)`. -/
def ctlDel {E : Type*} (q : Epoll E) (handle : ℕ) : Except Errno (Epoll E) :=
  match q.entry handle with
  | some _ => .ok (q.erase handle)
  | none => .error ENOENT

theorem ctlAdd_ok {E : Type*} {q q' : Epoll E} {handle : ℕ} {nev : Nev E}
    {failure : Option Errno} (h : ctlAdd q handle nev failure = .ok q') :
    q.add handle nev = some q' := by
  unfold ctlAdd at h
  split at h
  · cases h
  · split at h
    · rename_i hq
      cases h
      exact hq
    · cases h

/-- A free number can be registered. -/
theorem ctlAdd_free {E : Type*} {q : Epoll E} {handle : ℕ} {nev : Nev E}
    (h : q.entry handle = none) :
    ctlAdd q handle nev none = .ok ⟨Function.update q.entry handle (some ⟨nev, true⟩)⟩ := by
  unfold ctlAdd
  rw [OneShot.add_eq_some.mpr ⟨h, rfl⟩]

theorem ctlDel_some {E : Type*} {q : Epoll E} {handle : ℕ} {i : Interest (Nev E)}
    (h : q.entry handle = some i) : ctlDel q handle = .ok (q.erase handle) := by
  unfold ctlDel
  rw [h]

/-- What became of a wait. -/
inductive Stage
  | fresh
  -- `await_suspend` returned false.
  | refused
  | suspended
  -- Reported to `run` in a batch.
  | delivered
  | resumed
  deriving DecidableEq

structure Event where
  handle : Option ℕ
  events : Direction
  ec : ErrorCode
  stage : Stage
  -- The file that `handle` named when the wait began.
  file : Option ℕ
  -- How often `awaiter_.resume()` was called.
  resumes : ℕ

/-- The wait is in a batch. -/
@[simps]
def Event.deliver (e : Event) : Event := { e with stage := .delivered }

/-- `ec_` is `ec` and `awaiter_.resume()` is called. -/
@[simps]
def Event.resumeWith (e : Event) (ec : ErrorCode) : Event :=
  { e with ec := ec, stage := .resumed, resumes := e.resumes + 1 }

structure Sockets (S E N T : Type*) where
  service : Service E N T
  -- `handle_` of each socket.
  handle : S → Option ℕ
  -- The files opened so far, and the one each number names.
  opened : ℕ
  file : ℕ → Option ℕ
  epoll : Epoll E
  event : E → Event

/-- The entry the batch loop of `run` comes to next, where that is an event. -/
def Service.next {E N T : Type*} (s : Service E N T) : Option E :=
  match s.run with
  | .entries (some ev :: _) _ => some ev
  | _ => none

namespace Sockets

variable {S E N T : Type*}

inductive Label (S E N T : Type*)
  -- `create`, the kernel choosing the number.
  | create (socket : S) (handle : ℕ)
  | close (socket : S)
  -- `co_await event{ service(), handle(), events }`
  | await (ev : E) (socket : S) (events : Direction) (failure : Option Errno)
  -- `epoll_wait` reports these numbers, the interrupt's entry being `none`.
  | report (handles : List (Option ℕ))
  -- Everything else in the service.
  | service (l : Service.Label E N T)

def init : Sockets S E N T where
  service := Service.create
  handle _ := none
  opened := 0
  file _ := none
  epoll := OneShot.empty
  event _ := ⟨none, .recv, .clear, .fresh, none, 0⟩

variable [DecidableEq S] [DecidableEq E] [DecidableEq T]

/-- `::close(handle)`. -/
@[simps]
def closeHandle (s : Sockets S E N T) (handle : ℕ) : Sockets S E N T :=
  { s with file := Function.update s.file handle none, epoll := s.epoll.erase handle }

/-- `::socket(..)` as it opens a file under a free number. -/
@[simps]
def openHandle (s : Sockets S E N T) (handle : ℕ) : Sockets S E N T :=
  { s with opened := s.opened + 1, file := Function.update s.file handle (some s.opened) }

@[simps]
def setHandle (s : Sockets S E N T) (socket : S) (handle : Option ℕ) : Sockets S E N T :=
  { s with handle := Function.update s.handle socket handle }

/-- The wait `ev` is now `e`. -/
@[simps]
def setEvent (s : Sockets S E N T) (ev : E) (e : Event) : Sockets S E N T :=
  { s with event := Function.update s.event ev e }

@[simps]
def setEpoll (s : Sockets S E N T) (epoll : Epoll E) : Sockets S E N T :=
  { s with epoll := epoll }

@[simps]
def setService (s : Sockets S E N T) (service : Service E N T) : Sockets S E N T :=
  { s with service := service }

/-- `handle_.reset()`. -/
def close (s : Sockets S E N T) (socket : S) : Sockets S E N T :=
  match s.handle socket with
  | some handle => (s.closeHandle handle).setHandle socket none
  | none => s

/-- The new descriptor is open before `handle_ = std::move(handle)` closes the old one. -/
def create (s : Sockets S E N T) (socket : S) (handle : ℕ) : Option (Sockets S E N T) :=
  if s.file handle = none then
    some (((s.openHandle handle).close socket).setHandle socket (some handle))
  else none

/-- `await_suspend`, `handle_` being -1 where the socket is closed. -/
def await_suspend (s : Sockets S E N T) (ev : E) (socket : S) (events : Direction)
    (failure : Option Errno) : Sockets S E N T :=
  match s.handle socket with
  | none => s.setEvent ev ⟨none, events, make_error_code EBADF.value, .refused, none, 0⟩
  | some handle =>
    match ctlAdd s.epoll handle ⟨events, ev⟩ failure with
    | .error errno =>
      s.setEvent ev
        ⟨some handle, events, make_error_code errno.value, .refused, s.file handle, 0⟩
    | .ok epoll =>
      (s.setEpoll epoll).setEvent ev
        ⟨some handle, events, .clear, .suspended, s.file handle, 0⟩

/-- `ev->resume()`, up to and with `awaiter_.resume()`. -/
def resume (s : Sockets S E N T) (ev : E) : Sockets S E N T :=
  match (s.event ev).handle with
  | none => s.setEvent ev ((s.event ev).resumeWith (make_error_code EBADF.value))
  | some handle =>
    match ctlDel s.epoll handle with
    | .error errno => s.setEvent ev ((s.event ev).resumeWith (make_error_code errno.value))
    | .ok epoll => (s.setEpoll epoll).setEvent ev ((s.event ev).resumeWith (s.event ev).ec)

/-- The kernel reports what is armed under `handle`. -/
def reportOne (s : Sockets S E N T) (handle : ℕ) : Option (E × Sockets S E N T) :=
  match s.epoll.report handle with
  | some (nev, epoll) =>
    some (nev.ptr, (s.setEpoll epoll).setEvent nev.ptr (s.event nev.ptr).deliver)
  | none => none

/-- The entries that one `epoll_wait` fills in. -/
def reportAll (s : Sockets S E N T) :
    List (Option ℕ) → Option (List (Option E) × Sockets S E N T)
  | [] => some ([], s)
  | none :: handles => (s.reportAll handles).map fun r => (none :: r.1, r.2)
  | some handle :: handles =>
    (s.reportOne handle).bind fun d => (d.2.reportAll handles).map fun r => (some d.1 :: r.1, r.2)

/-- The service takes a step. -/
def serve (s : Sockets S E N T) (event_buffer_size : ℕ) (l : Service.Label E N T) :
    Option (Sockets S E N T) :=
  (s.service.step .linux event_buffer_size l).map s.setService

def step (event_buffer_size : ℕ) (s : Sockets S E N T) :
    Label S E N T → Option (Sockets S E N T)
  | .create socket handle => s.create socket handle
  | .close socket => some (s.close socket)
  | .await ev socket events failure =>
    if (s.event ev).stage = .fresh then some (s.await_suspend ev socket events failure) else none
  | .report handles =>
    (s.reportAll handles).bind fun r => r.2.serve event_buffer_size (.wait (.ready r.1))
  | .service (.wait (.ready _)) => none
  | .service .run =>
    match s.service.next with
    | some ev => (s.resume ev).serve event_buffer_size .run
    | none => s.serve event_buffer_size .run
  | .service l => s.serve event_buffer_size l

/-- Sockets and waits of any number of coroutines, and one `run`. -/
def machine (event_buffer_size : ℕ) : Machine (Sockets S E N T) (Label S E N T) :=
  ⟨step event_buffer_size⟩

end Sockets

end Net
end Ice
