import Ice.Error
import Ice.Lib.Machine
import Mathlib.Algebra.Ring.Nat

/-!
# Windows: `tcp::socket::send` and `serial::send`

`net/tcp/socket.cpp` and `net/serial.cpp`. Both loop over overlapped writes whose length is a
32-bit number (`ULONG`, `DWORD`). The socket converts `size` once and counts the `WSABUF`
down; the serial port converts what is left of `size` for every request. A label is how a
write ended: `WSASend` or `WriteFile` at once, or `GetOverlappedResult` after `co_await ev`.
-/

namespace Ice
namespace Net
namespace Overlapped

open Lib

/-- `static_cast<DWORD>(size)`, `static_cast<ULONG>(size)` -/
def dword (size : ℕ) : ℕ := size % 2 ^ 32

/-- How an overlapped write ended. -/
inductive Write
  -- the system accepted `bytes` bytes
  | accepted (bytes : ℕ)
  -- `GetLastError` after a failure that is not `ERROR_IO_PENDING`
  | failed (error : Errno)
  deriving DecidableEq

/-- `DWORD bytes` -/
def Write.bytes : Write → ℕ
  | .accepted bytes => bytes
  | .failed _ => 0

/-- What the two loops have in common. -/
structure Sending where
  -- The bytes from `data` (`buffer.buf`) on.
  data : List UInt8
  ec : ErrorCode
  returned : Bool
  -- The bytes the system accepted, in order.
  accepted : List UInt8
  -- The length of the last request, and how it ended.
  last : Option (ℕ × Write)
  deriving DecidableEq

namespace Sending

/-- `ec.clear();` -/
def init (buffer : List UInt8) : Sending := ⟨buffer, .clear, false, [], none⟩

/-- A request for the next `length` bytes, up to `if (bytes == 0) break;`, and the pointer. -/
def write (s : Sending) (length : ℕ) : Write → Sending
  | .failed error =>
    { s with
      ec := make_error_code error.value
      returned := true
      last := some (length, .failed error) }
  | .accepted bytes =>
    { s with
      data := s.data.drop bytes
      returned := bytes = 0
      accepted := s.accepted ++ s.data.take bytes
      last := some (length, .accepted bytes) }

/-- `while (left > 0);` -/
def while_ (s : Sending) (left : ℕ) : Sending := { s with returned := s.returned || left = 0 }

end Sending

/-- `tcp::socket::send` -/
structure Tcp where
  size : ℕ
  -- `buffer.len`
  len : ℕ
  sending : Sending
  deriving DecidableEq

namespace Tcp

def init (buffer : List UInt8) : Tcp := ⟨buffer.length, dword buffer.length, .init buffer⟩

def step (s : Tcp) (w : Write) : Option Tcp :=
  if s.sending.returned = false ∧ w.bytes ≤ s.len then
    some { s with
      len := s.len - w.bytes
      sending := (s.sending.write s.len w).while_ (s.len - w.bytes) }
  else none

/-- `co_return static_cast<std::size_t>(size - buffer.len);` -/
def count (s : Tcp) : ℕ := s.size - s.len

def machine : Machine Tcp Write := ⟨step⟩

end Tcp

/-- `serial::send` -/
structure Serial where
  size : ℕ
  written : ℕ
  sending : Sending
  deriving DecidableEq

namespace Serial

def init (buffer : List UInt8) : Serial := ⟨buffer.length, 0, .init buffer⟩

def step (s : Serial) (w : Write) : Option Serial :=
  if s.sending.returned = false ∧ w.bytes ≤ dword s.size then
    some
      { size := s.size - w.bytes
        written := s.written + w.bytes
        sending := (s.sending.write (dword s.size) w).while_ (s.size - w.bytes) }
  else none

def machine : Machine Serial Write := ⟨step⟩

end Serial

end Overlapped
end Net
end Ice
