import Ice.Error
import Ice.Lib.Machine

/-!
# `ice::net::ssh::session` — the retry loops

`loop`, `recv`, `send`, `authenticate` and `disconnect` of `session.cpp`. Each makes a libssh2
call until it answers something other than `LIBSSH2_ERROR_EAGAIN`, with a `co_await io()` after
every such answer. A label is what libssh2 returned or what `io()` completed with; both are
free, but a count is never more than was asked for.
-/

namespace Ice
namespace Net
namespace Ssh
namespace Retry

open Lib

def LIBSSH2_ERROR_NONE : Int := 0

def LIBSSH2_ERROR_EAGAIN : Int := -37

/-- `make_error_code(rc, domain_category())` -/
def domain_error_code (rc : Int) : ErrorCode := ⟨rc, .ssh⟩

/-- `make_error_code(rc)` of a result that is neither an `errc` nor an `std::errc`. -/
def native_error_code (rc : Int) : ErrorCode := ⟨rc, .native⟩

inductive Label
  -- the call that comes next returned `rc`
  | rc (rc : Int)
  -- `libssh2_channel_open_session` returned a channel; where it returned none,
  -- `rc` is the session's last error
  | channel
  -- `io()` completed with `ec`
  | io (ec : ErrorCode)
  deriving DecidableEq

/-- Where a coroutine stands. -/
inductive At
  | call
  | io
  | returned
  deriving DecidableEq

/-! ## `loop` -/

structure Loop where
  at_ : At
  -- What is delivered.
  ec : ErrorCode
  deriving DecidableEq

namespace Loop

def start : Loop := ⟨.call, .clear⟩

def step (s : Loop) : Label → Option Loop
  | .rc rc =>
    if s.at_ = .call then
      if rc = LIBSSH2_ERROR_NONE then some ⟨.returned, .clear⟩
      else if rc ≠ LIBSSH2_ERROR_EAGAIN then some ⟨.returned, domain_error_code rc⟩
      else some ⟨.io, s.ec⟩
    else none
  | .io _ => if s.at_ = .io then some ⟨.call, s.ec⟩ else none
  | .channel => none

def machine : Machine Loop Label := ⟨step⟩

end Loop

/-! ## `recv` -/

structure Recv where
  size : ℕ
  -- the caller's
  ec : ErrorCode
  at_ : At
  -- What is delivered.
  count : ℕ
  deriving DecidableEq

namespace Recv

def start (size : ℕ) (ec : ErrorCode) : Recv := ⟨size, ec, .call, 0⟩

def step (s : Recv) : Label → Option Recv
  | .rc rc =>
    if s.at_ = .call ∧ rc ≤ s.size then
      if 0 ≤ rc then some { s with at_ := .returned, count := rc.toNat }
      else if rc ≠ LIBSSH2_ERROR_EAGAIN then
        some { s with
          at_ := .returned
          ec := if rc ≠ LIBSSH2_ERROR_NONE then native_error_code rc else s.ec }
      else some { s with at_ := .io }
    else none
  | .io _ => if s.at_ = .io then some { s with at_ := .call } else none
  | .channel => none

def machine : Machine Recv Label := ⟨step⟩

end Recv

/-! ## `send` -/

structure Send where
  -- The bytes from `data` on.
  data : List UInt8
  data_size : ℕ
  size : ℕ
  -- the caller's
  ec : ErrorCode
  at_ : At
  -- The bytes libssh2 accepted, in order.
  accepted : List UInt8
  deriving DecidableEq

namespace Send

def start (buffer : List UInt8) (ec : ErrorCode) : Send where
  data := buffer
  data_size := buffer.length
  size := buffer.length
  ec := ec
  at_ := .call
  accepted := []

/-- `co_return data_size - size;` -/
def count (s : Send) : ℕ := s.data_size - s.size

/-- `while (size > 0);` -/
def while_ (s : Send) : Send := { s with at_ := if 0 < s.size then .call else .returned }

/-- `data += rc; size -= rc;` -/
def accept (s : Send) (k : ℕ) : Send :=
  { s with
    data := s.data.drop k
    size := s.size - k
    accepted := s.accepted ++ s.data.take k }

def step (s : Send) : Label → Option Send
  | .rc rc =>
    if s.at_ = .call ∧ rc ≤ s.size then
      if 0 < rc then some (s.accept rc.toNat).while_
      else if rc ≠ LIBSSH2_ERROR_EAGAIN then
        some { s with
          at_ := .returned
          ec := if rc ≠ LIBSSH2_ERROR_NONE then native_error_code rc else s.ec }
      else some { s with at_ := .io }
    else none
  | .io _ => if s.at_ = .io then some s.while_ else none
  | .channel => none

def machine : Machine Send Label := ⟨step⟩

end Send

/-! ## `authenticate` -/

inductive Authenticate
  -- `co_await loop(..)` over `libssh2_userauth_password_ex`
  | userauth (l : Loop)
  -- `while (!ec)`
  | open_ (at_ : At) (ec : ErrorCode)
  deriving DecidableEq

namespace Authenticate

def start : Authenticate := .userauth .start

/-- `auto ec = co_await loop(..); while (!ec)`. -/
def resume (l : Loop) : Authenticate :=
  if l.at_ = .returned then .open_ (if l.ec.isSet then .returned else .call) l.ec else .userauth l

def step : Authenticate → Label → Option Authenticate
  | .userauth l, a => (l.step a).map resume
  | .open_ .call ec, .channel => some (.open_ .returned ec)
  | .open_ .call ec, .rc rc =>
    if rc ≠ LIBSSH2_ERROR_EAGAIN then some (.open_ .returned (domain_error_code rc))
    else some (.open_ .io ec)
  | .open_ .io ec, .io _ => some (.open_ (if ec.isSet then .returned else .call) ec)
  | .open_ .., _ => none

def machine : Machine Authenticate Label := ⟨step⟩

end Authenticate

/-! ## `disconnect` -/

/-- What the calls of `disconnect` answer. -/
inductive Closing
  | channel_close (rc : Int)
  | session_disconnect (rc : Int)
  | io (ec : ErrorCode)
  deriving DecidableEq

inductive Disconnect.At
  -- `co_await loop(..)` over `libssh2_channel_close`
  | channel_close (l : Loop)
  -- `co_await loop(..)` over `libssh2_session_disconnect`
  | session_disconnect (l : Loop)
  -- The coroutine is over; it delivers what was given to a `co_return`, if it came to one.
  | returned (delivers : Option ErrorCode)
  deriving DecidableEq

/-- `disconnect`, with what the object holds. -/
structure Disconnect where
  channel : Bool
  session : Bool
  socket : Bool
  at_ : Disconnect.At
  deriving DecidableEq

namespace Disconnect

/-- `if (socket_)`, and the end of the function. -/
def closeSocket (s : Disconnect) : Disconnect := { s with socket := false, at_ := .returned none }

/-- `if (session_)` -/
def closeSession (s : Disconnect) : Disconnect :=
  if s.session then { s with at_ := .session_disconnect .start } else s.closeSocket

/-- `if (channel_)` -/
def start (channel session socket : Bool) : Disconnect :=
  if channel then ⟨channel, session, socket, .channel_close .start⟩
  else closeSession ⟨channel, session, socket, .returned none⟩

def resumeChannel (s : Disconnect) (l : Loop) : Disconnect :=
  if l.at_ = .returned then
    if l.ec.isSet then { s with at_ := .returned (some l.ec) }
    else closeSession { s with channel := false }
  else { s with at_ := .channel_close l }

def resumeSession (s : Disconnect) (l : Loop) : Disconnect :=
  if l.at_ = .returned then
    if l.ec.isSet then { s with at_ := .returned (some l.ec) }
    else closeSocket { s with session := false }
  else { s with at_ := .session_disconnect l }

def step (s : Disconnect) (a : Closing) : Option Disconnect :=
  match s.at_, a with
  | .channel_close l, .channel_close rc => (l.step (.rc rc)).map s.resumeChannel
  | .channel_close l, .io ec => (l.step (.io ec)).map s.resumeChannel
  | .session_disconnect l, .session_disconnect rc => (l.step (.rc rc)).map s.resumeSession
  | .session_disconnect l, .io ec => (l.step (.io ec)).map s.resumeSession
  | _, _ => none

def machine : Machine Disconnect Closing := ⟨step⟩

end Disconnect

end Retry
end Ssh
end Net
end Ice
