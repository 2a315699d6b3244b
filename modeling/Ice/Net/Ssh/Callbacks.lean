import Ice.Net.Event
import Ice.Net.Ssh.Bridge

/-!
# `ice::net::ssh::session` — the callbacks and the wait on POSIX

`on_recv`, `on_send` and `io` of `session.cpp`. A callback makes its system call until that is
not interrupted; if the call failed, it notes its direction in `operation_` and returns the
negated `errno`, which is how libssh2 learns of `EAGAIN`. During one libssh2 call any number of
callbacks are made in both directions. `io`, after it, has `operation_` alone to go by.
-/

namespace Ice
namespace Net
namespace Ssh

/-- What `::recv` or `::send` returned. -/
inductive Sys
  | count (rc : ℕ)
  -- -1, with this in `errno`
  | failed (errno : Errno)
  deriving DecidableEq

/-- What a session of the POSIX build has beside the socket, the session and the channel. -/
structure Posix where
  operation : Operation
  deriving DecidableEq

/-- What `io()` does. -/
inductive Wait
  -- `co_await event{ service(), socket_.handle(), events }`
  | event (events : Direction)
  -- an error code at once
  | error (ec : ErrorCode)
  deriving DecidableEq

/-- `std::errc::invalid_argument` -/
def invalid_argument : ErrorCode := ⟨22, .system⟩

namespace Posix

/-- The body of a callback, for these answers to its system calls; `none` where the loop makes
    one more call than there are answers. -/
def callback (operation : Operation) (s : Posix) : List Sys → Option (Posix × Int)
  | [] => none
  | .count rc :: _ => some (s, rc)
  | .failed errno :: rest =>
    if errno = EINTR then callback operation s rest
    else some ({ s with operation := operation }, -errno.value)

def on_recv (s : Posix) (answers : List Sys) : Option (Posix × Int) := s.callback .recv answers

def on_send (s : Posix) (answers : List Sys) : Option (Posix × Int) := s.callback .send answers

def io (s : Posix) : Wait :=
  match s.operation with
  | .recv => .event .recv
  | .send => .event .recv
  | .none => .error invalid_argument

end Posix

/-- A callback that libssh2 makes, and what its system calls answer. -/
inductive Callback
  | on_recv (answers : List Sys)
  | on_send (answers : List Sys)
  deriving DecidableEq

namespace Callback

def direction : Callback → Direction
  | .on_recv _ => .recv
  | .on_send _ => .send

def run (s : Posix) : Callback → Option (Posix × Int)
  | .on_recv answers => s.on_recv answers
  | .on_send answers => s.on_send answers

/-- The callbacks of one libssh2 call, and what each of them returned. -/
def runAll (s : Posix) : List Callback → Option (Posix × List Int)
  | [] => some (s, [])
  | c :: cs => (c.run s).bind fun r => (runAll r.1 cs).map fun t => (t.1, r.2 :: t.2)

end Callback

end Ssh
end Net
end Ice
