import Ice.Lib.Machine
import Mathlib.Data.Nat.Notation

/-!
# `ice::async_generator` — one producer, one consumer, one word

`async.hpp`. The body of an asynchronous generator yields values; the coroutine that iterates
over it asks for the next one with `co_await begin()` and `co_await ++it`. Either side may be
suspended on something else and be resumed on another thread, so the two meet at the atomic
word `m_state` of the promise. Whoever is too early suspends, and is resumed by the other.

A call of `resume()` comes back when the coroutine it resumed is suspended again, for whatever
reason. It is modelled by leaving both sides free to go on, which allows every such return and
more.

| label          | access                                                                |
|----------------|-----------------------------------------------------------------------|
| `advance`      | the consumer awaits `begin()` or `++it`; the load of the constructor  |
| `consumer`     | the next access of the consumer inside that operation                 |
| `await_resume` | its last one, which gives the consumer its value or the end           |
| `destroy`      | the consumer destroys the generator: `request_cancellation`           |
| `yield v`      | the body yields `v`                                                   |
| `finish e`     | the body returns, or throws `e`                                       |
| `block`        | the body suspends on something else                                   |
| `unblock`      | and is resumed                                                        |
| `producer`     | the next access of the producer inside a yield operation              |

The consumer keeps to the interface: it does not go past the end, and it destroys the generator
only outside of an advance operation.
-/

namespace Ice

open Lib

namespace AsyncGenerator

/-- `async_generator_promise_base::state` -/
inductive State
  | value_not_ready_consumer_active
  | value_not_ready_consumer_suspended
  | value_ready_producer_active
  | value_ready_producer_suspended
  | cancelled
  deriving DecidableEq

/-- Where the producer stands. -/
inductive Producer
  /-- At its initial suspend point, at a `co_yield`, or at its final suspend point. -/
  | suspended
  /-- In the code of the body. -/
  | running
  /-- Suspended on something else than the generator. -/
  | blocked
  -- `internal_yield_value`
  /-- `currentState = m_state.load(std::memory_order_acquire);` -/
  | load
  /-- `m_state.store(state::value_ready_producer_active, ...);` -/
  | store
  /-- `m_consumerCoroutine.resume();` -/
  | resume
  /-- `currentState = m_state.load(std::memory_order_acquire);` -/
  | reload
  -- `async_generator_yield_operation::await_suspend`
  /-- The compare-exchange from `value_not_ready_consumer_active`. -/
  | exchange_not_ready
  | suspend_store
  | suspend_resume
  | suspend_reload
  /-- The compare-exchange from `value_ready_producer_active`. -/
  | exchange_ready
  /-- `producer.destroy();` -/
  | destroy
  /-- The frame is gone. -/
  | destroyed
  /-- An `assert` failed. -/
  | failed
  deriving DecidableEq

/-- Where the consumer stands. -/
inductive Consumer
  /-- In its own code, with the generator alive. -/
  | active
  -- `async_generator_advance_operation`, the constructor
  /-- `promise.m_state.store(state::value_not_ready_consumer_active, ...);` -/
  | store
  /-- `producerCoroutine.resume();` -/
  | resume
  /-- `initialState = promise.m_state.load(std::memory_order_acquire);` -/
  | reload
  -- `await_suspend`
  /-- The compare-exchange from `value_ready_producer_active`. -/
  | exchange_ready
  | suspend_store
  | suspend_resume
  | suspend_reload
  /-- The compare-exchange from `value_not_ready_consumer_active`. -/
  | exchange_not_ready
  | suspended
  /-- `await_resume` -/
  | await_resume
  -- `~async_generator`
  /-- `m_coroutine.destroy();` -/
  | destroy
  /-- The generator is gone. -/
  | gone
  | failed
  deriving DecidableEq

end AsyncGenerator

/-- An `async_generator` of values `V` whose body may throw an `E`. -/
structure AsyncGenerator (V E : Type*) where
  /-- `m_state` -/
  state : AsyncGenerator.State
  /-- `m_currentValue`; null is `none`. -/
  currentValue : Option V
  /-- `m_exception` -/
  exception : Option E
  producer : AsyncGenerator.Producer
  consumer : AsyncGenerator.Consumer
  /-- The body has returned or thrown. -/
  returned : Bool
  /-- The iterator was compared equal to `end()`. -/
  ended : Bool
  /-- What the consumer was given at the end: an exception, or nothing. -/
  thrown : Option E
  /-- The values yielded by the body, and those the consumer was given. -/
  yielded : List V
  received : List V
  /-- How often the frame was destroyed. -/
  destroyed : ℕ

namespace AsyncGenerator

variable {V E : Type*}

inductive Label (V E : Type*)
  | advance
  | consumer
  | await_resume
  | destroy
  | yield (v : V)
  | finish (e : Option E)
  | block
  | unblock
  | producer
  deriving DecidableEq

/-- A generator right after the call of the coroutine. `m_currentValue` is uninitialised. -/
def init (junk : Option V) : AsyncGenerator V E where
  state := .value_ready_producer_suspended
  currentValue := junk
  exception := none
  producer := .suspended
  consumer := .active
  returned := false
  ended := false
  thrown := none
  yielded := []
  received := []
  destroyed := 0

/-! ## The producer -/

/-- The yield operation does not suspend: the body goes on, or the coroutine runs off its end,
    which destroys the frame. -/
def proceed (s : AsyncGenerator V E) : AsyncGenerator V E :=
  if s.returned then { s with producer := .destroyed, destroyed := s.destroyed + 1 }
  else { s with producer := .running }

/-- The end of `await_suspend`: `assert(currentState == state::cancelled); ...` -/
def yieldCancelled (s : AsyncGenerator V E) (currentState : State) : AsyncGenerator V E :=
  if currentState = .cancelled then { s with producer := .destroy }
  else { s with producer := .failed }

/-- `if (currentState == state::value_ready_producer_active)` and what follows it. -/
def yieldReady (s : AsyncGenerator V E) (currentState : State) : AsyncGenerator V E :=
  if currentState = .value_ready_producer_active then { s with producer := .exchange_ready }
  else s.yieldCancelled currentState

/-- `await_ready` and the head of `await_suspend` of a yield operation. -/
def yieldAwait (s : AsyncGenerator V E) (initialState : State) : AsyncGenerator V E :=
  if initialState = .value_not_ready_consumer_suspended then s.proceed
  else if initialState = .value_not_ready_consumer_active then
    { s with producer := .exchange_not_ready }
  else s.yieldReady initialState

/-- `m_consumerCoroutine.resume();` -/
def resumeConsumer (s : AsyncGenerator V E) (producer : Producer) : AsyncGenerator V E :=
  if s.consumer = .suspended then { s with consumer := .await_resume, producer := producer }
  else { s with producer := .failed }

def producerStep (s : AsyncGenerator V E) : Option (AsyncGenerator V E) :=
  match s.producer with
  | .load =>
    match s.state with
    | .value_ready_producer_active | .value_ready_producer_suspended =>
      some { s with producer := .failed }
    | .value_not_ready_consumer_suspended => some { s with producer := .store }
    | .value_not_ready_consumer_active | .cancelled => some (s.yieldAwait s.state)
  | .store => some { s with state := .value_ready_producer_active, producer := .resume }
  | .resume => some (s.resumeConsumer .reload)
  | .reload => some (s.yieldAwait s.state)
  | .exchange_not_ready =>
    if s.state = .value_not_ready_consumer_active then
      some { s with state := .value_ready_producer_suspended, producer := .suspended }
    else if s.state = .value_not_ready_consumer_suspended then
      some { s with producer := .suspend_store }
    else some (s.yieldReady s.state)
  | .suspend_store =>
    some { s with state := .value_ready_producer_active, producer := .suspend_resume }
  | .suspend_resume => some (s.resumeConsumer .suspend_reload)
  | .suspend_reload =>
    if s.state = .value_not_ready_consumer_suspended then some s.proceed
    else some (s.yieldReady s.state)
  | .exchange_ready =>
    if s.state = .value_ready_producer_active then
      some { s with state := .value_ready_producer_suspended, producer := .suspended }
    else if s.state = .value_not_ready_consumer_suspended then some s.proceed
    else some (s.yieldCancelled s.state)
  | .destroy => some { s with producer := .destroyed, destroyed := s.destroyed + 1 }
  | .suspended | .running | .blocked | .destroyed | .failed => none

/-! ## The consumer -/

/-- `assert(currentState == state::value_not_ready_consumer_active); ...` -/
def advanceNotReady (s : AsyncGenerator V E) (currentState : State) : AsyncGenerator V E :=
  if currentState = .value_not_ready_consumer_active then
    { s with consumer := .exchange_not_ready }
  else { s with consumer := .failed }

/-- `await_ready` and the head of `await_suspend` of an advance operation. -/
def advanceAwait (s : AsyncGenerator V E) (initialState : State) : AsyncGenerator V E :=
  if initialState = .value_ready_producer_suspended then { s with consumer := .await_resume }
  else if initialState = .value_ready_producer_active then { s with consumer := .exchange_ready }
  else s.advanceNotReady initialState

/-- `m_producerCoroutine.resume();` — at its final suspend point it must not be resumed. -/
def resumeProducer (s : AsyncGenerator V E) (consumer : Consumer) : AsyncGenerator V E :=
  if s.producer = .suspended ∧ s.returned = false then
    { s with producer := .running, consumer := consumer }
  else { s with consumer := .failed }

def consumerStep (s : AsyncGenerator V E) : Option (AsyncGenerator V E) :=
  match s.consumer with
  | .store => some { s with state := .value_not_ready_consumer_active, consumer := .resume }
  | .resume => some (s.resumeProducer .reload)
  | .reload => some (s.advanceAwait s.state)
  | .exchange_ready =>
    if s.state = .value_ready_producer_active then
      some { s with state := .value_not_ready_consumer_suspended, consumer := .suspended }
    else if s.state = .value_ready_producer_suspended then
      some { s with consumer := .suspend_store }
    else some { s with consumer := .failed }
  | .suspend_store =>
    some { s with state := .value_not_ready_consumer_active, consumer := .suspend_resume }
  | .suspend_resume => some (s.resumeProducer .suspend_reload)
  | .suspend_reload =>
    if s.state = .value_ready_producer_suspended then some { s with consumer := .await_resume }
    else some (s.advanceNotReady s.state)
  | .exchange_not_ready =>
    if s.state = .value_not_ready_consumer_active then
      some { s with state := .value_not_ready_consumer_suspended, consumer := .suspended }
    else some { s with consumer := .await_resume }
  | .destroy =>
    some { s with consumer := .gone, producer := .destroyed, destroyed := s.destroyed + 1 }
  | .active | .suspended | .await_resume | .gone | .failed => none

/-- `await_resume`: an iterator, or `end()` and then `rethrow_if_unhandled_exception`. -/
def awaitResume (s : AsyncGenerator V E) : AsyncGenerator V E :=
  match s.currentValue with
  | some v => { s with consumer := .active, received := s.received ++ [v] }
  | none => { s with consumer := .active, ended := true, thrown := s.exception }

def step (s : AsyncGenerator V E) : Label V E → Option (AsyncGenerator V E)
  | .advance =>
    -- The consumer does not go past the end.
    if s.consumer = .active ∧ s.ended = false then
      if s.state = .value_ready_producer_suspended then some { s with consumer := .store }
      else some (s.advanceAwait s.state)
    else none
  | .consumer => s.consumerStep
  | .await_resume => if s.consumer = .await_resume then some s.awaitResume else none
  | .destroy =>
    if s.consumer = .active then
      match s.state with
      -- `assert(previousState != ...);`
      | .value_not_ready_consumer_suspended | .cancelled => some { s with consumer := .failed }
      | .value_ready_producer_suspended =>
        some { s with state := .cancelled, consumer := .destroy }
      | .value_ready_producer_active | .value_not_ready_consumer_active =>
        some { s with state := .cancelled, consumer := .gone }
    else none
  | .yield v =>
    if s.producer = .running then
      some { s with producer := .load, currentValue := some v, yielded := s.yielded ++ [v] }
    else none
  | .finish e =>
    if s.producer = .running then
      some { s with
        producer := .load
        currentValue := none
        exception := if s.state = .cancelled then s.exception else e
        returned := true }
    else none
  | .block => if s.producer = .running then some { s with producer := .blocked } else none
  | .unblock => if s.producer = .blocked then some { s with producer := .running } else none
  | .producer => s.producerStep

/-- The body and its consumer, interleaved by atomic access. -/
def machine : Machine (AsyncGenerator V E) (Label V E) := ⟨step⟩

end AsyncGenerator

end Ice
