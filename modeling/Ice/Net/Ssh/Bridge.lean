import Ice.Lib.Machine
import Mathlib.Data.Nat.Notation
import Mathlib.Tactic.Simps.Basic

/-!
# `ice::net::ssh::session` — the transport bridge on Windows

`on_recv`, `on_send` and `io` of `session.cpp`: libssh2 asks for bytes through callbacks that
cannot wait, so a callback notes what is wanted and answers `EAGAIN`, the coroutine that made
the call does it in `io`, and the next callback collects the result. There is one `storage_`,
one `size_`, one `operation_` and one `ready_` for both directions and all coroutines.

What libssh2 does is free: any coroutine that is not in `io` makes any callback with any size,
and goes into `io` when it likes. One thing is promised: after `on_send` answered `EAGAIN`, the
next buffer it is offered begins with the bytes it has copied.

A `WSARecv` stores into `storage_` when it likes, before `socket_.recv` returns, and a
`WSASend` takes its bytes from there as it gets to them; a failed operation is one that returns
with what it has. Below the members stand what the history did: which bytes went where.
-/

namespace Ice
namespace Net
namespace Ssh

open Lib

/-- `session::operation` -/
inductive Operation
  | none
  | recv
  | send
  deriving DecidableEq

/-- A `socket_.recv` or `socket_.send` in progress: of this size, with this many bytes stored
    that it has yet to return, or of this size and sent so far. -/
inductive Io
  | recv (size : ℕ)
  | received (size : ℕ)
  | send (size : ℕ) (sent : ℕ)
  deriving DecidableEq

/-- `storage_.size()` -/
def storageSize : ℕ := 4096

structure Bridge (C : Type*) where
  storage : List UInt8
  size : ℕ
  ready : Bool
  operation : Operation
  flight : C → Option Io
  -- The operation that returned last.
  completed : Operation
  -- A callback answered `EAGAIN`, and no operation began, stored or returned since.
  asked : Bool
  promised : List UInt8
  received : List UInt8
  handed : List UInt8
  sent : List UInt8
  reported : List UInt8
  -- The size that `on_recv` was given, and the size that it copied.
  copies : List (ℕ × ℕ)
  -- The size that `on_send` was given, and the size that it reported.
  reports : List (ℕ × ℕ)

namespace Bridge

variable {C : Type*}

inductive Label (C : Type*)
  | onRecv (c : C) (size : ℕ)
  | onSend (c : C) (data : List UInt8)
  -- `co_await io()` begins.
  | io (c : C)
  -- A `WSARecv` stored these bytes.
  | received (c : C) (bytes : List UInt8)
  -- A `WSASend` took `k` bytes.
  | transmitted (c : C) (k : ℕ)
  -- `socket_.recv` or `socket_.send` returns.
  | returned (c : C)

def init : Bridge C where
  storage := List.replicate storageSize 0
  size := 0
  ready := false
  operation := .none
  flight _ := none
  completed := .none
  asked := false
  promised := []
  received := []
  handed := []
  sent := []
  reported := []
  copies := []
  reports := []

/-- `std::memcpy(storage_.data(), bytes, ..)` -/
def overwrite (storage bytes : List UInt8) : List UInt8 := bytes ++ storage.drop bytes.length

/-- What a callback sets before it answers `EAGAIN`. -/
@[simps]
def ask (s : Bridge C) (operation : Operation) (size : ℕ) : Bridge C :=
  { s with operation := operation, size := min size storageSize, asked := true }

/-- `on_recv` with `ready_` set. -/
@[simps]
def hand (s : Bridge C) (size : ℕ) : Bridge C :=
  { s with
    ready := false
    handed := s.handed ++ s.storage.take s.size
    copies := s.copies ++ [(size, s.size)] }

/-- `on_send` with `ready_` set. -/
@[simps]
def report (s : Bridge C) (data : List UInt8) : Bridge C :=
  { s with
    ready := false
    promised := []
    reported := s.reported ++ data.take s.size
    reports := s.reports ++ [(data.length, s.size)] }

/-- `on_send` copies what is to be sent. -/
@[simps]
def store (s : Bridge C) (data : List UInt8) : Bridge C :=
  { s with
    storage := overwrite s.storage (data.take storageSize)
    promised := data.take storageSize }

def on_recv (s : Bridge C) (size : ℕ) : Bridge C :=
  if s.ready then s.hand size else s.ask .recv size

def on_send (s : Bridge C) (data : List UInt8) : Bridge C :=
  if s.ready then s.report data else (s.ask .send data.length).store data

/-- `size_ = ..; ready_ = true;` after an operation. -/
@[simps]
def complete (s : Bridge C) (operation : Operation) (size : ℕ) : Bridge C :=
  { s with size := size, ready := true, completed := operation, asked := false }

variable [DecidableEq C]

@[simps]
def setFlight (s : Bridge C) (c : C) (io : Option Io) : Bridge C :=
  { s with flight := Function.update s.flight c io, asked := false }

/-- `io()`, up to where it waits for the socket. -/
def io (s : Bridge C) (c : C) : Bridge C :=
  match s.operation with
  | .recv => s.setFlight c (some (.recv s.size))
  | .send => s.setFlight c (some (.send s.size 0))
  | .none => s.complete .none s.size

/-- The kernel stores what a receive is to return. -/
@[simps!]
def receive (s : Bridge C) (c : C) (bytes : List UInt8) : Bridge C :=
  { s.setFlight c (some (.received bytes.length)) with
    storage := overwrite s.storage bytes
    received := s.received ++ bytes }

/-- The kernel takes `k` more bytes of a send that has got as far as `done`. -/
@[simps!]
def transmit (s : Bridge C) (c : C) (size done k : ℕ) : Bridge C :=
  { s with
    flight := Function.update s.flight c (some (.send size (done + k)))
    sent := s.sent ++ (s.storage.drop done).take k }

def step (s : Bridge C) : Label C → Option (Bridge C)
  | .onRecv c size => if s.flight c = none then some (s.on_recv size) else none
  | .onSend c data =>
    if s.flight c = none ∧ s.promised <+: data then some (s.on_send data) else none
  | .io c => if s.flight c = none then some (s.io c) else none
  | .received c bytes =>
    match s.flight c with
    | some (.recv size) => if bytes.length ≤ size then some (s.receive c bytes) else none
    | _ => none
  | .transmitted c k =>
    match s.flight c with
    | some (.send size done) =>
      if 0 < k ∧ done + k ≤ size then some (s.transmit c size done k) else none
    | _ => none
  | .returned c =>
    match s.flight c with
    | some (.received size) => some ((s.setFlight c none).complete .recv size)
    | some (.send _ done) => some ((s.setFlight c none).complete .send done)
    | _ => none

/-- Any number of coroutines on one session. -/
def machine : Machine (Bridge C) (Label C) := ⟨step⟩

end Bridge

end Ssh
end Net
end Ice
