import Ice.Error
import Ice.Lib.Machine

/-!
# `ice::net::tcp::socket::send` and `recv` on POSIX

`socket.cpp`, one kernel outcome per step: what a `write` or `read` returned, or what the wait
for readiness gave. A successful call leaves `errno` at the value it had, so the two tests of
`errno` after a successful `write` read what was there before. During a wait other code runs, and
the coroutine may go on in another thread: what it finds in `errno` then may be any value. Labels
are the outcomes, and a label is not enabled where the loop does not make that call, or where the
kernel could not have answered so.
-/

namespace Ice
namespace Net
namespace Tcp

open Lib

/-- One answer of the kernel to `send`. -/
inductive Outcome
  -- `write` accepted `k` bytes.
  | accepted (k : ℕ)
  -- `write` returned 0.
  | zero
  -- `write` returned -1.
  | failed (errno : Errno)
  -- `co_await event{ service(), handle(), ICE_EVENT_SEND }`, and `errno` when the coroutine goes on
  | waited (ec : ErrorCode) (errno : ℕ)
  deriving DecidableEq

/-- Where the coroutine stands. -/
inductive Send.At
  | write
  | wait
  | returned
  deriving DecidableEq

structure Send where
  -- The bytes from `data` on.
  data : List UInt8
  data_size : ℕ
  size : ℕ
  ec : ErrorCode
  errno : ℕ
  at_ : Send.At
  -- The bytes the kernel accepted, in order.
  accepted : List UInt8
  deriving DecidableEq

namespace Send

/-- Entering `send(data, size, ec)` with the thread's `errno`. -/
def init (buffer : List UInt8) (errno : ℕ) : Send where
  data := buffer
  data_size := buffer.length
  size := buffer.length
  ec := .clear
  errno := errno
  at_ := .write
  accepted := []

/-- `co_return data_size - size;` -/
def count (s : Send) : ℕ := s.data_size - s.size

/-- `while (size > 0);` -/
def while_ (s : Send) : Send := { s with at_ := if 0 < s.size then .write else .returned }

/-- The tests of `errno` in the loop's body. -/
def testErrno (s : Send) (os : Os) : Send :=
  if s.errno = EINTR.value then s.while_
  else if s.errno ≠ (EAGAIN os).value then
    { s with ec := make_error_code s.errno, at_ := .returned }
  else { s with at_ := .wait }

/-- `data += rc; size -= rc;` after `write` accepted `k` bytes. -/
def accept (s : Send) (k : ℕ) : Send :=
  { s with
    accepted := s.accepted ++ s.data.take k
    data := s.data.drop k
    size := s.size - k }

def step (os : Os) (s : Send) : Outcome → Option Send
  | .accepted k =>
    if s.at_ = .write ∧ 0 < k ∧ k ≤ s.size then some ((s.accept k).testErrno os) else none
  | .zero => if s.at_ = .write then some { s with at_ := .returned } else none
  | .failed errno =>
    if s.at_ = .write then some (testErrno { s with errno := errno.value } os) else none
  | .waited ec errno =>
    if s.at_ = .wait then
      let s := { s with errno := errno }
      some (if ec.isSet then { s with ec := ec, at_ := .returned } else s.while_)
    else none

def machine (os : Os) : Machine Send Outcome := ⟨step os⟩

end Send

/-- One answer of the kernel to `recv`. -/
inductive Recv.Answer
  -- `read` stored these bytes.
  | read (bytes : List UInt8)
  -- `read` returned -1.
  | failed (errno : Errno)
  -- `co_await event{ service(), handle(), ICE_EVENT_RECV }`
  | waited (ec : ErrorCode)
  deriving DecidableEq

/-- Where the coroutine stands. -/
inductive Recv.At
  | read
  | wait
  | returned
  deriving DecidableEq

structure Recv where
  size : ℕ
  ec : ErrorCode
  at_ : Recv.At
  -- What `data` holds.
  data : List UInt8
  deriving DecidableEq

namespace Recv

/-- Entering `recv(data, size, ec)`. -/
def init (size : ℕ) : Recv where
  size := size
  ec := .clear
  at_ := .read
  data := []

/-- `co_return static_cast<std::size_t>(rc);`, or `co_return{};` after an error. -/
def count (r : Recv) : ℕ := r.data.length

def step (os : Os) (r : Recv) : Answer → Option Recv
  | .read bytes =>
    if r.at_ = .read ∧ bytes.length ≤ r.size then some { r with data := bytes, at_ := .returned }
    else none
  | .failed errno =>
    if r.at_ = .read then
      some (if errno = EINTR then r
        else if errno ≠ EAGAIN os then
          { r with ec := make_error_code errno.value, at_ := .returned }
        else { r with at_ := .wait })
    else none
  | .waited ec =>
    if r.at_ = .wait then
      some (if ec.isSet then { r with ec := ec, at_ := .returned } else { r with at_ := .read })
    else none

def machine (os : Os) : Machine Recv Answer := ⟨step os⟩

end Recv

end Tcp
end Net
end Ice
