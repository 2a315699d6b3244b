import Ice.Error
import Ice.Lib.Machine

/-!
# `ice::net::tcp::socket::connect` on POSIX

`socket.cpp`, with the connection that the system keeps for the socket. Labels are the answers of
the system, and what happens to the connection. A call of `::connect` that fails with `EINPROGRESS`
or `EINTR` has begun a connection, which goes on by itself. `SO_ERROR` gives the error of one that
has failed, once.

To a call any answer is possible here. What POSIX says of them, given how far the connection is, is
the condition `Posix` on steps: another call of `::connect` fails with `EALREADY` while the
connection is being made, for one that is made it succeeds or fails with `EISCONN`, and for one that
has failed with its error, and any call may be interrupted before that; the socket is writable when
the connection is made or has failed.
-/

set_option autoImplicit false

namespace Ice
namespace Net
namespace Tcp

open Lib

def EINPROGRESS : Os → Errno
  | .linux => ⟨115, by decide⟩
  | .freebsd => ⟨36, by decide⟩

def EALREADY : Os → Errno
  | .linux => ⟨114, by decide⟩
  | .freebsd => ⟨37, by decide⟩

def EISCONN : Os → Errno
  | .linux => ⟨106, by decide⟩
  | .freebsd => ⟨56, by decide⟩

/-- The connection of a socket. -/
inductive Kernel
  | unconnected
  | connecting
  | established
  -- and the error was not reported yet
  | failed (error : Errno)
  deriving DecidableEq

/-- What is left by a call of `::connect` that returns 0, or -1 with this `errno`. -/
def Kernel.connect (os : Os) : Kernel → Option Errno → Kernel
  | _, none => .established
  | .unconnected, some errno =>
    if errno = EINTR ∨ errno = EINPROGRESS os then .connecting else .unconnected
  -- an error is reported once
  | .failed error, some errno => if errno = error then .unconnected else .failed error
  | kernel, some _ => kernel

/-- What the call may answer. -/
def Kernel.Answers (os : Os) : Kernel → Option Errno → Prop
  | .unconnected, _ => True
  | .connecting, answer => answer = some EINTR ∨ answer = some (EALREADY os)
  | .established, answer => answer = none ∨ answer = some EINTR ∨ answer = some (EISCONN os)
  | .failed error, answer => answer = some EINTR ∨ answer = some error

/-- The connection is made, or it fails. -/
def Kernel.settled : Option Errno → Kernel
  | none => .established
  | some error => .failed error

/-- `getsockopt` of `SO_ERROR`: `code`, and what is left. -/
def Kernel.error : Kernel → ℕ × Kernel
  | .failed error => (error.value, .unconnected)
  | kernel => (0, kernel)

/-- Where the coroutine stands. -/
inductive Connect.At
  | connect
  | wait
  | get
  | returned (ec : ErrorCode)
  deriving DecidableEq

structure Connect where
  kernel : Kernel
  at_ : Connect.At
  deriving DecidableEq

namespace Connect

inductive Label
  -- `::connect`, with `errno` if it fails
  | connect (errno : Option Errno)
  -- `co_await event{ service(), handle(), ICE_EVENT_SEND }`
  | waited (ec : ErrorCode)
  -- `get(SOL_SOCKET, SO_ERROR, &code, size)`, with `errno` if it fails
  | get (errno : Option Errno)
  -- what becomes of the connection
  | settle (error : Option Errno)
  deriving DecidableEq

def init : Connect := ⟨.unconnected, .connect⟩

/-- The tests of `errno` after `::connect`. -/
def test (os : Os) (errno : Errno) : At :=
  match os with
  | .linux =>
    if errno = EINTR then .connect
    else if errno ≠ EINPROGRESS .linux then .returned (make_error_code errno.value)
    else .wait
  | .freebsd =>
    if errno ≠ EINPROGRESS .freebsd ∧ errno ≠ EINTR then .returned (make_error_code errno.value)
    else .wait

/-- After `::connect`. -/
def called (os : Os) : Option Errno → At
  | none => .returned .clear
  | some errno => test os errno

def step (os : Os) (s : Connect) : Label → Option Connect
  | .connect answer =>
    if s.at_ = .connect then some ⟨s.kernel.connect os answer, called os answer⟩ else none
  | .waited ec =>
    if s.at_ = .wait then some { s with at_ := if ec.isSet then .returned ec else .get } else none
  | .get (some errno) =>
    if s.at_ = .get then some { s with at_ := .returned (make_error_code errno.value) } else none
  | .get none =>
    if s.at_ = .get then
      let (code, kernel) := s.kernel.error
      some ⟨kernel, .returned (if code ≠ 0 then make_error_code code else .clear)⟩
    else none
  | .settle error =>
    if s.kernel = .connecting then some { s with kernel := .settled error } else none

def machine (os : Os) : Machine Connect Label := ⟨step os⟩

/-- The system does what POSIX says. -/
def Posix (os : Os) (s : Connect) : Label → Prop
  | .connect answer => s.kernel.Answers os answer
  | .waited ec => ec.isSet = false → s.kernel ≠ .connecting
  | .settle error => error ≠ some EINTR ∧ error ≠ some (EINPROGRESS os)
  | .get _ => True

end Connect

end Tcp
end Net
end Ice
