import Ice.Handle
import Ice.Lib.Demand

/-!
# `ice::generator` — bodies, objects and iterators

`async.hpp`. A `generator` object owns the frame of a body as a handle owns its value, with
`nullptr` for the invalid one: its constructors, its destructor, `swap` and the assignment (by
value, then `swap`) are those of `Ice/Handle.lean`, with `destroy()` for what closes. Iterators
point to the frame and own nothing.

`begin()` and `++it` resume the body. It runs to its next `co_yield`, returns, or throws; an
exception leaves it suspended at its end and goes on to whoever resumed it, so that no iterator is
made or changed. Undefined are: resuming a coroutine that is at its end or destroyed, `++` of
`end()`, and reading where the coroutine is not at a `co_yield`. The model stops there. A frame that
is called anew is a frame of its own, wherever it is allocated.
-/

set_option autoImplicit false

namespace Ice

open Lib

namespace Generators

/-- Where a body is suspended. -/
inductive Point (E : Type*)
  | initial
  | yielded
  -- at its end: `done()`
  | returned
  | threw (e : E)
  deriving DecidableEq

def Point.done {E : Type*} : Point E → Bool
  | .initial | .yielded => false
  | .returned | .threw _ => true

/-- At a `co_yield`. -/
def Point.hasValue {E : Type*} : Point E → Bool
  | .yielded => true
  | .initial | .returned | .threw _ => false

/-- What a body does when it is resumed. -/
inductive Outcome (V E : Type*)
  | yield_value (v : V)
  | return_void
  | unhandled_exception (e : E)
  deriving DecidableEq

end Generators

open Generators

structure Generators (O I F V E : Type*) where
  -- `m_coroutine` of the objects, and which frames were created and destroyed
  owners : Handles (Option O) (Option F)
  point : F → Point E
  -- what `m_value` points to
  m_value : F → Option V
  -- `m_coroutine` of the iterators
  m_coroutine : I → Option F
  fault : Bool
  -- what the body was asked for and gave, and how much of it an iterator was told
  shown : F → List (Demand.Label V E)
  told : I → ℕ

namespace Generators

variable {O I F V E : Type*} [DecidableEq O] [DecidableEq I] [DecidableEq F] [DecidableEq V]

def init : Generators O I F V E :=
  ⟨Handles.init, fun _ => .initial, fun _ => none, fun _ => none, false, fun _ => [], fun _ => 0⟩

inductive Label (O I F V E : Type*)
  -- a generator function is called
  | call (o : O) (f : F)
  | construct (o : O)
  | moveConstruct (o other : O)
  -- `o = std::move(other)`
  | assign (o other : O)
  | swap (o other : O)
  | destroy (o : O)
  -- `i = o.begin()`, and what the body does if there is one
  | begin (o : O) (i : I) (outcome : Option (Outcome V E))
  -- `++i`
  | increment (i : I) (outcome : Outcome V E)
  -- `*i`, which gives `v`
  | deref (i : I) (v : V)
  -- `i = j`
  | copy (i j : I)
  deriving DecidableEq

/-- An operation on the objects. -/
def own (s : Generators O I F V E) (l : Handles.Label O (Option F)) :
    Option (Generators O I F V E) :=
  (s.owners.step none l).map fun owners => { s with owners }

/-- The frame was created, and it was not destroyed. -/
def exists_ (s : Generators O I F V E) (f : F) : Bool :=
  (Custody.custody (some f)).exec false s.owners.events = some true

/-- The next part of a body. -/
def resume (s : Generators O I F V E) (f : F) : Outcome V E → Generators O I F V E
  | .yield_value v =>
    { s with
      point := Function.update s.point f .yielded
      m_value := Function.update s.m_value f (some v)
      shown := Function.update s.shown f (s.shown f ++ [.ask, .produce v, .take]) }
  | .return_void =>
    { s with
      point := Function.update s.point f .returned
      shown := Function.update s.shown f (s.shown f ++ [.ask, .finish none, .take]) }
  | .unhandled_exception e =>
    { s with
      point := Function.update s.point f (.threw e)
      shown := Function.update s.shown f (s.shown f ++ [.ask, .finish (some e), .take]) }

/-- The iterator that `begin()` returns, or that `++` leaves. -/
def setIterator (s : Generators O I F V E) (i : I) (f : Option F) : Generators O I F V E :=
  { s with
    m_coroutine := Function.update s.m_coroutine i f
    told := Function.update s.told i (match f with
      | some f => (s.shown f).length
      | none => 0) }

/-- `m_coroutine.resume()`, and the test of `m_coroutine.done()` behind it. -/
def advance (s : Generators O I F V E) (i : I) (f : F) (outcome : Outcome V E) :
    Generators O I F V E :=
  if s.exists_ f = true ∧ (s.point f).done = false then
    match outcome with
    | .yield_value v => (s.resume f (.yield_value v)).setIterator i (some f)
    | .return_void => (s.resume f .return_void).setIterator i none
    | .unhandled_exception e => s.resume f (.unhandled_exception e)
  else { s with fault := true }

def stepOf (s : Generators O I F V E) : Label O I F V E → Option (Generators O I F V E)
  | .call o f =>
    if ∀ e ∈ s.owners.events, e.value ≠ some f then s.own (.constructFrom o (some f)) else none
  | .construct o => s.own (.construct o)
  | .moveConstruct o other => s.own (.moveConstruct o other)
  | .assign o other => s.own (.moveAssign o other)
  | .swap o other => s.own (.swap o other)
  | .destroy o => s.own (.destroy o)
  | .begin o i outcome =>
    if s.owners.exists_ o then
      match s.owners.value none (some o), outcome with
      | some f, some outcome => some (s.advance i f outcome)
      | none, none => some (s.setIterator i none)
      | _, _ => none
    else none
  | .increment i outcome =>
    match s.m_coroutine i with
    | some f => some (s.advance i f outcome)
    | none => some { s with fault := true }
  | .deref i v =>
    match s.m_coroutine i with
    | some f =>
      if s.exists_ f = true ∧ (s.point f).hasValue = true then
        if s.m_value f = some v then some s else none
      else some { s with fault := true }
    | none => some { s with fault := true }
  | .copy i j =>
    some { s with
      m_coroutine := Function.update s.m_coroutine i (s.m_coroutine j)
      told := Function.update s.told i (s.told j) }

def step (s : Generators O I F V E) (l : Label O I F V E) : Option (Generators O I F V E) :=
  if s.fault then none else s.stepOf l

def machine : Machine (Generators O I F V E) (Label O I F V E) := ⟨step⟩

end Generators

end Ice
