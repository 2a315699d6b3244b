import Ice.Lib.IntType

/-!
# `ice::net::option` — socket options

`option.hpp` and `option.cpp`. An option is a value that the system reads and writes as bytes,
and beside it `size_`, how many of them `socket::set` and `socket::get` hand over. Every class
writes `size_` for itself. An on-off option and a size are an `int`; a timeout is a
`::linger`, whose count of seconds has the type of the platform.

The classes with an `int` are copied by the members that the compiler declares, `linger` by
two of its own.
-/

namespace Ice
namespace Net

open Lib

inductive Platform
  | posix
  | windows
  deriving DecidableEq

def int : IntType := ⟨-2147483648, 4294967296, by decide⟩

def u_short : IntType := ⟨0, 65536, by decide⟩

namespace Platform

/-- `decltype(data.l_linger)` -/
def l_linger : Platform → IntType
  | posix => int
  | windows => u_short

/-- `sizeof(::linger)` -/
def linger_size : Platform → ℕ
  | posix => 8
  | windows => 4

end Platform

/-- The object that `data()` points at. -/
inductive Data
  | int (value_ : ℤ)
  | linger (l_onoff l_linger : ℤ)
  deriving DecidableEq

def Data.sizeof (platform : Platform) : Data → ℕ
  | .int _ => 4
  | .linger .. => platform.linger_size

/-- `option_value<bool>` and `option_value<std::size_t>` -/
structure OptionValue where
  value_ : ℤ
  size_ : ℕ
  deriving DecidableEq

namespace OptionValue

def capacity : ℕ := 4

/-- `option_value<bool>(value)` -/
def ofBool (value : Bool) : OptionValue where
  value_ := if value then 1 else 0
  size_ := capacity

/-- `option_value<bool>::get` -/
def getBool (o : OptionValue) : Bool := o.value_ ≠ 0

/-- `option_value<std::size_t>(value)` -/
def ofSize (value : UInt64) : OptionValue where
  value_ := if value.toNat > int.max then int.max else int.cast value.toNat
  size_ := capacity

/-- `option_value<std::size_t>::get` -/
def getSize (o : OptionValue) : UInt64 :=
  if o.value_ > 0 then UInt64.ofNat o.value_.toNat else 0

end OptionValue

/-- `option::linger` -/
structure Linger where
  l_onoff : ℤ
  l_linger : ℤ
  size_ : ℕ
  deriving DecidableEq

namespace Linger

/-- `linger(timeout)`, in seconds. It does not write `size_`, and the third assignment to
    `l_linger` is not under an `else`. -/
def make (platform : Platform) (timeout : Option ℤ) : Linger :=
  let data : Linger := ⟨0, 0, 0⟩
  match timeout with
  | none => data
  | some count =>
    let data := { data with l_onoff := 1 }
    let data := if count < platform.l_linger.min then { data with l_linger := 0 } else data
    let data := if count > platform.l_linger.max then
      { data with l_linger := platform.l_linger.max } else data
    { data with l_linger := platform.l_linger.cast count }

/-- `linger(const linger& other)`: `option` is constructed anew. -/
def copy (other : Linger) : Linger where
  l_onoff := other.l_onoff
  l_linger := other.l_linger
  size_ := 0

/-- `operator=(const linger& other)` -/
def assign (o other : Linger) : Linger :=
  { o with l_onoff := other.l_onoff, l_linger := other.l_linger }

def get (o : Linger) : Option ℤ := if o.l_onoff ≠ 0 then some o.l_linger else none

end Linger

/-- The classes derived from `option_value<bool>`. -/
inductive FlagOption
  | broadcast
  | do_not_route
  | keep_alive
  | no_delay
  | reuse_address
  deriving DecidableEq

/-- The classes derived from `option_value<std::size_t>`. -/
inductive SizeOption
  | recv_buffer_size
  | send_buffer_size
  | recv_low_watermark
  | send_low_watermark
  deriving DecidableEq

inductive OptionLevel
  | SOL_SOCKET
  | IPPROTO_TCP
  deriving DecidableEq

inductive OptionName
  | SO_BROADCAST
  | SO_DONTROUTE
  | SO_KEEPALIVE
  | SO_LINGER
  | TCP_NODELAY
  | SO_RCVBUF
  | SO_SNDBUF
  | SO_RCVLOWAT
  | SO_SNDLOWAT
  | SO_REUSEADDR
  deriving DecidableEq

/-- An object of one of the classes. -/
inductive AnyOption
  | flag (cls : FlagOption) (o : OptionValue)
  | size (cls : SizeOption) (o : OptionValue)
  | linger (o : Linger)
  deriving DecidableEq

/-- What `socket::set` hands to `setsockopt`, and `socket::get` to `getsockopt`. -/
structure Passed where
  level : OptionLevel
  name : OptionName
  data : Data
  size : ℕ
  deriving DecidableEq

namespace AnyOption

def level (platform : Platform) : AnyOption → OptionLevel
  | flag .no_delay _ => match platform with
    | .windows => .IPPROTO_TCP
    | .posix => .SOL_SOCKET
  | _ => .SOL_SOCKET

def name : AnyOption → OptionName
  | flag .broadcast _ => .SO_BROADCAST
  | flag .do_not_route _ => .SO_DONTROUTE
  | flag .keep_alive _ => .SO_KEEPALIVE
  | flag .no_delay _ => .TCP_NODELAY
  | flag .reuse_address _ => .SO_REUSEADDR
  | size .recv_buffer_size _ => .SO_RCVBUF
  | size .send_buffer_size _ => .SO_SNDBUF
  | size .recv_low_watermark _ => .SO_RCVLOWAT
  | size .send_low_watermark _ => .SO_SNDLOWAT
  | linger _ => .SO_LINGER

def data : AnyOption → Data
  | flag _ o => .int o.value_
  | size _ o => .int o.value_
  | linger o => .linger o.l_onoff o.l_linger

def capacity (platform : Platform) : AnyOption → ℕ
  | flag .. => OptionValue.capacity
  | size .. => OptionValue.capacity
  | linger _ => platform.linger_size

def size_ : AnyOption → ℕ
  | flag _ o => o.size_
  | size _ o => o.size_
  | linger o => o.size_

/-- `socket::set(option)` and `socket::get(option)` -/
def passed (platform : Platform) (o : AnyOption) : Passed :=
  ⟨o.level platform, o.name, o.data, o.size_⟩

/-- Copy construction. -/
def copy : AnyOption → AnyOption
  | flag cls o => flag cls o
  | size cls o => size cls o
  | linger o => linger o.copy

/-- Copy assignment, which takes an object of the same class. -/
def assign : AnyOption → AnyOption → Option AnyOption
  | flag cls _, flag cls' o' => if cls = cls' then some (flag cls o') else none
  | size cls _, size cls' o' => if cls = cls' then some (size cls o') else none
  | linger o, linger o' => some (linger (o.assign o'))
  | _, _ => none

end AnyOption

/-- The objects that were constructed, or copied from such objects. -/
inductive Made (platform : Platform) : AnyOption → Prop
  | flag (cls : FlagOption) (value : Bool) : Made platform (.flag cls (.ofBool value))
  | size (cls : SizeOption) (value : UInt64) : Made platform (.size cls (.ofSize value))
  | linger (timeout : Option ℤ) : Made platform (.linger (.make platform timeout))
  | copy {o : AnyOption} (h : Made platform o) : Made platform o.copy
  | assign {o other o' : AnyOption} (h : Made platform o) (hother : Made platform other)
      (hs : o.assign other = some o') : Made platform o'

end Net
end Ice
