import Ice.Net.Overlapped
import Ice.Terminal.Output

/-!
# `ice::net::serial::default_device`

`net/serial.cpp`. `QueryDosDevice` stores the names of all devices, each with a NUL behind it and
one more NUL at the end, and fails with `ERROR_INSUFFICIENT_BUFFER` if the buffer is too small for
them. The buffer grows until it is not, and is searched for the first name of a serial port. A
label is how a call of `QueryDosDevice` ended.
-/

set_option autoImplicit false

namespace Ice
namespace Net
namespace Serial

open Lib Overlapped

def MAX_PATH : ℕ := 260

def ERROR_INSUFFICIENT_BUFFER : ℕ := 122

/-- `std::regex_match` with `COM\d+`. -/
def regex_match (str : List UInt8) : Bool :=
  str.take 3 = ascii "COM" && 3 < str.length && (str.drop 3).all fun c => 48 ≤ c && c ≤ 57

/-- What is left of the buffer from `pos` on. -/
def search : List UInt8 → Option (List UInt8)
  | [] => none
  | c :: buffer =>
    -- `std::strlen(buffer.data() + pos)`
    let str := (c :: buffer).takeWhile fun d => decide (d ≠ 0)
    if regex_match str then some str else search (buffer.drop str.length)
  termination_by buffer => buffer.length
  decreasing_by simp only [List.length_drop, List.length_cons]; omega

/-- How `QueryDosDevice` ended: it stored these bytes, or `GetLastError` after it returned 0. -/
inductive Query
  | stored (bytes : List UInt8)
  | failed (code : ℕ)
  deriving DecidableEq

inductive DefaultDevice
  -- with a buffer of this size
  | query (size : ℕ)
  | returned (device : List UInt8)
  deriving DecidableEq

namespace DefaultDevice

def init : DefaultDevice := .query MAX_PATH

/-- `return "COM1";` -/
def com1 : List UInt8 := ascii "COM1"

def step : DefaultDevice → Query → Option DefaultDevice
  | .query size, .stored bytes =>
    if bytes ≠ [] ∧ bytes.length ≤ dword size then
      some (.returned ((search bytes).getD com1))
    else none
  | .query size, .failed code =>
    some (if code = ERROR_INSUFFICIENT_BUFFER then .query (size + MAX_PATH) else .returned com1)
  | .returned _, _ => none

def machine : Machine DefaultDevice Query := ⟨step⟩

end DefaultDevice

/-- What is stored for these names. -/
def multi (names : List (List UInt8)) : List UInt8 := names.flatMap (· ++ [0]) ++ [0]

/-- The answer to a call with a buffer of this size, while these are the devices. -/
def answer (names : List (List UInt8)) (size : ℕ) : Query :=
  if (multi names).length ≤ dword size then .stored (multi names)
  else .failed ERROR_INSUFFICIENT_BUFFER

end Serial
end Net
end Ice
