import Ice.Error
import Ice.Lib.Bytes

/-!
# `ice::net::endpoint`

`endpoint.cpp`. The storage is overlaid by `sockaddr_in` and by `sockaddr_in6`; `size_`
alone says which of them it holds, and 0 that it holds neither. `inet_pton` and `inet_ntop`
are the platform's and stay parameters.

`create` looks for the text with `host.find(":", 0, 5)`. The last argument is the length of
the text to look for, not a limit on where to look: five bytes are read from a literal that
has two, a colon and its terminator. The three bytes that follow the literal in memory are a
parameter too.
-/

namespace Ice
namespace Net

open Lib

/-- The address family a call names. -/
inductive Af
  | inet
  | inet6
  deriving DecidableEq

namespace Af

/-- `AF_INET` and `AF_INET6`. -/
def value (os : Os) : Af → Int
  | .inet => 2
  | .inet6 => match os with
    | .linux => 10
    | .freebsd => 28

/-- `INET_ADDRSTRLEN` and `INET6_ADDRSTRLEN`. -/
def addrstrlen : Af → ℕ
  | .inet => 16
  | .inet6 => 46

/-- `sizeof(::sockaddr_in)` and `sizeof(::sockaddr_in6)`. -/
def sockaddrSize : Af → ℕ
  | .inet => 16
  | .inet6 => 28

/-- Where `sin_addr` and `sin6_addr` lie. -/
def addrOffset : Af → ℕ
  | .inet => 4
  | .inet6 => 8

/-- How many bytes `sin_addr` and `sin6_addr` have. -/
def addrSize : Af → ℕ
  | .inet => 4
  | .inet6 => 16

end Af

/-- What `inet_pton` returned: 1 and the address, 0, or -1 with `errno` set. -/
inductive Pton
  | valid (addr : List UInt8)
  | invalid
  | failed (errno : Errno)
  deriving DecidableEq

/-- The platform's conversions of an address, on texts without their terminator. -/
structure Inet where
  pton : Af → List UInt8 → Pton
  ntop : Af → List UInt8 → List UInt8

/-- The C string a buffer starts with: `strnlen` bytes of it. -/
def cstr (buffer : List UInt8) : List UInt8 := buffer.takeWhile (· ≠ 0)

/-- Byte order of the network. -/
def htons (port : UInt16) : List UInt8 :=
  [UInt8.ofNat (port.toNat / 256), UInt8.ofNat (port.toNat % 256)]

def ntohs : List UInt8 → UInt16
  | [hi, lo] => UInt16.ofNat (hi.toNat * 256 + lo.toNat)
  | _ => 0

/-- `std::string::find(s, 0, n)` for the `n` bytes `pattern` at `s`. -/
def find : List UInt8 → List UInt8 → Option ℕ
  | [], pattern => if pattern = [] then some 0 else none
  | c :: host, pattern =>
    if pattern <+: c :: host then some 0 else (find host pattern).map (· + 1)

/-- The five bytes from the literal `":"` on, `after` being what follows it in memory. -/
def colon (after : Vector UInt8 3) : List UInt8 := 58 :: 0 :: after.toList

structure Endpoint where
  storage : ℕ → UInt8
  size : ℕ

namespace Endpoint

/-- `sin_family` and `sin6_family`: on FreeBSD the first byte is the length. -/
def storeFamily (os : Os) (af : Af) (storage : ℕ → UInt8) : ℕ → UInt8 :=
  match os with
  | .linux => store storage 0 [UInt8.ofNat (af.value os).toNat, 0]
  | .freebsd => store storage 1 [UInt8.ofNat (af.value os).toNat]

/-- One of the two branches of `create`, up to `error`. -/
def convert (os : Os) (inet : Inet) (af : Af) (host : List UInt8) (port : UInt16)
    (ep : Endpoint) : Pton × Endpoint :=
  let storage := store (storeFamily os af ep.storage) 2 (htons port)
  let error := inet.pton af (cstr host)
  let storage := match error with
    | .valid addr => store storage af.addrOffset addr
    | _ => storage
  (error, { storage := storage, size := af.sockaddrSize })

/-- The end of `create`, from `error` on. -/
def report : Pton × Endpoint → ErrorCode × Endpoint
  | (.valid _, ep) => (.clear, ep)
  | (.failed errno, ep) => (make_error_code errno.value, { ep with size := 0 })
  | (.invalid, ep) => (errc.invalid_address.make_error_code, { ep with size := 0 })

/-- `create(host, port)`: what it returns and the endpoint it leaves. -/
def create (os : Os) (inet : Inet) (after : Vector UInt8 3) (host : List UInt8)
    (port : UInt16) (ep : Endpoint) : ErrorCode × Endpoint :=
  if find host (colon after) = none then report (convert os inet .inet host port ep)
  else report (convert os inet .inet6 host port ep)

/-- The layout `switch (size_)` selects. -/
def af? (ep : Endpoint) : Option Af :=
  if ep.size = Af.inet.sockaddrSize then some .inet
  else if ep.size = Af.inet6.sockaddrSize then some .inet6
  else none

/-- The bytes of the address. -/
def address (ep : Endpoint) : List UInt8 :=
  match ep.af? with
  | some af => load ep.storage af.addrOffset af.addrSize
  | none => []

/-- `host()`: `inet_ntop` into a buffer of zeros, which fails where the text and its
    terminator do not fit. -/
def host (inet : Inet) (ep : Endpoint) : List UInt8 :=
  match ep.af? with
  | some af =>
    let text := inet.ntop af (load ep.storage af.addrOffset af.addrSize)
    if text.length + 1 ≤ af.addrstrlen then
      cstr (text ++ List.replicate (af.addrstrlen - text.length) 0)
    else []
  | none => []

def port (ep : Endpoint) : UInt16 :=
  match ep.af? with
  | some _ => ntohs (load ep.storage 2 2)
  | none => 0

def family (os : Os) (ep : Endpoint) : Int :=
  match ep.af? with
  | some af => af.value os
  | none => 0

end Endpoint

end Net
end Ice
