import Ice.Handle

/-!
# `async<T>` — who destroys a coroutine, and its result with it

`async.hpp`. An `async` object owns the frame of a coroutine, as a handle owns its value, and the
invalid value is `nullptr`. The promise in the frame has storage for a `T`, which `return_value`
constructs there. `~async_promise` destroys it when `completed()` says so and no exception was
stored: that is `m_state`, which both the final suspend point and `try_set_continuation` set.

The steps are those of the objects' operations and of the coroutines between two suspend points;
the accesses inside of them are in `Ice/Async/Await.lean`. A frame that is called anew is a frame
of its own, wherever it is allocated.
-/

set_option autoImplicit false

namespace Ice

open Lib

namespace Frames

/-- Where a coroutine is suspended. -/
inductive Point
  | initial
  -- at a `co_await` of its body
  | suspended
  | final
  deriving DecidableEq

/-- A frame before it exists, while it does, and after it was destroyed at a suspend point. -/
inductive Place
  | absent
  | live (point : Point)
  | destroyed (point : Point)
  deriving DecidableEq

def Place.isLive : Place → Bool
  | .live _ => true
  | .absent | .destroyed _ => false

def Place.destroy : Place → Place
  | .live point => .destroyed point
  | place => place

/-- How the body leaves the coroutine when it was resumed. -/
inductive Outcome
  | suspend
  | return_value
  | unhandled_exception
  deriving DecidableEq

end Frames

open Frames

structure Frames (O F : Type*) where
  -- `m_coroutine` of the objects, and which frames were created and destroyed
  owners : Handles O (Option F)
  place : F → Place
  m_state : F → Bool
  -- `m_exception != nullptr`
  m_exception : F → Bool
  -- of which frames the `T` in `m_valueStorage` was constructed and destroyed
  values : List (Custody F)

namespace Frames

variable {O F : Type*} [DecidableEq O] [DecidableEq F]

def init : Frames O F :=
  ⟨⟨fun _ => none, []⟩, fun _ => .absent, fun _ => false, fun _ => false, []⟩

/-- `m_coroutine.destroy()`, with `~async_promise`. -/
def destroy (s : Frames O F) (f : F) : Frames O F :=
  { s with
    owners := s.owners.note none (some f) (.closed (some f))
    place := Function.update s.place f (s.place f).destroy
    values := if s.m_state f && !s.m_exception f then s.values ++ [.closed f] else s.values }

/-- `if (m_coroutine) { m_coroutine.destroy(); }` -/
def destroyCoroutine (s : Frames O F) (o : O) : Frames O F :=
  match s.owners.value none o with
  | some f => s.destroy f
  | none => s

/-- A coroutine is resumed. At its end it sets `m_state` (`final_awaitable`). -/
def resume (s : Frames O F) (f : F) : Outcome → Frames O F
  | .suspend => { s with place := Function.update s.place f (.live .suspended) }
  | .return_value =>
    { s with
      place := Function.update s.place f (.live .final)
      m_state := Function.update s.m_state f true
      values := s.values ++ [.acquired f] }
  | .unhandled_exception =>
    { s with
      place := Function.update s.place f (.live .final)
      m_state := Function.update s.m_state f true
      m_exception := Function.update s.m_exception f true }

inductive Label (O F : Type*)
  -- a coroutine function is called
  | call (o : O) (f : F)
  | construct (o : O)
  | moveConstruct (o other : O)
  | moveAssign (o other : O)
  | destroy (o : O)
  -- `co_await` of an object whose coroutine has not begun: `resume`, `try_set_continuation`
  | co_await (o : O) (outcome : Outcome)
  -- what the body waits for resumes it
  | wake (f : F) (outcome : Outcome)
  deriving DecidableEq

/-- The object exists. -/
def exists_ (s : Frames O F) (o : O) : Bool := (s.owners.value_ o).isSome

def step (s : Frames O F) : Label O F → Option (Frames O F)
  | .call o f =>
    if s.exists_ o = false ∧ s.place f = .absent then
      some { s with
        owners := s.owners.construct none o (some f)
        place := Function.update s.place f (.live .initial)
        m_state := Function.update s.m_state f false
        m_exception := Function.update s.m_exception f false }
    else none
  | .construct o =>
    if s.exists_ o = false then some { s with owners := s.owners.construct none o none } else none
  | .moveConstruct o other =>
    if s.exists_ o = false ∧ s.exists_ other = true then
      some { s with owners := s.owners.moveConstruct none o other }
    else none
  | .moveAssign o other =>
    if s.exists_ o = true ∧ s.exists_ other = true then
      if other ≠ o then
        let s := s.destroyCoroutine o
        some { s with owners := s.owners.moveConstruct none o other }
      else some s
    else none
  | .destroy o =>
    if s.exists_ o then
      let s := s.destroyCoroutine o
      some { s with owners := s.owners.set o none }
    else none
  | .co_await o outcome =>
    match s.owners.value none o with
    | some f =>
      if s.place f = .live .initial then
        let s := s.resume f outcome
        some { s with m_state := Function.update s.m_state f true }
      else none
    | none => none
  | .wake f outcome =>
    if s.place f = .live .suspended then some (s.resume f outcome) else none

def machine : Machine (Frames O F) (Label O F) := ⟨step⟩

end Frames

end Ice
