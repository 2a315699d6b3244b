import Ice.Lib.Machine
import Ice.Lib.Direct

/-!
# `co_await` of an `ice::async` — who resumes whom

`async.hpp`. A coroutine that returns `async<T>` is created suspended. Awaiting it resumes it
at once, on the thread of the awaiter, and then leaves a continuation in its promise; when it
ends, `final_awaitable` resumes that continuation. A coroutine that suspends may be resumed on
another thread, so the end of the callee and the registration of the awaiter race, and
`m_state` decides: whoever exchanges it last finds `true` and makes the awaiter go on.

The bodies are those of a program of `Lib.Direct`; the machine gives each call a frame. Roots
are coroutines that return a `task`: they start at once, nobody awaits them, and they are
destroyed at their end. An awaited `async` is the temporary of its full expression: it is
destroyed after `await_resume`. As with the generator, a call of `resume()` leaves both sides
free to go on.

| label        | access                                                             |
|--------------|--------------------------------------------------------------------|
| `start k b`  | somebody calls the coroutine `b`, a `task`, which gets the frame `k` |
| `step k c`   | the next access of `k`; a coroutine it calls gets the frame `c`      |
| `answer k a` | what `k` waits for outside of the library arrives, and resumes it  |
-/

set_option autoImplicit false

namespace Ice

open Lib

/-- Where a coroutine stands. -/
inductive Coroutine.Point (K : Type*)
  /-- At `initial_suspend`. -/
  | created
  | running
  /-- Suspended on something that is not an `async`. -/
  | blocked
  -- `awaitable_base::await_suspend`
  /-- `m_coroutine.resume();` -/
  | resume (callee : K)
  /-- `m_continuation = c;` -/
  | store (callee : K)
  /-- `return !m_state.exchange(true, std::memory_order_acq_rel);` -/
  | exchange (callee : K)
  | suspended (callee : K)
  /-- `await_resume`, and the end of the full expression. -/
  | await_resume (callee : K)
  -- `final_awaitable::await_suspend`
  /-- `promise.m_state.exchange(true, std::memory_order_acq_rel)` -/
  | final
  /-- `promise.m_continuation.resume();` -/
  | resuming
  /-- Suspended at its end. -/
  | done
  deriving DecidableEq

/-- The coroutine whose call is under way. -/
def Coroutine.Point.callee {K : Type*} : Coroutine.Point K → Option K
  | .resume c | .store c | .exchange c | .suspended c | .await_resume c => some c
  | _ => none

/-- The body has begun, and the coroutine has not passed its last exchange. -/
def Coroutine.Point.active {K : Type*} : Coroutine.Point K → Bool
  | .created | .resuming | .done => false
  | _ => true

/-- The frame of a coroutine, with its promise. -/
structure Coroutine (K B A R : Type*) where
  point : Coroutine.Point K
  /-- What is left of the body. -/
  body : B
  /-- It returns a `task`, not an `async`. -/
  task : Bool
  /-- `m_state` -/
  state : Bool
  /-- `m_continuation` -/
  continuation : Option K
  /-- What was stored by `return_value` or `unhandled_exception`. -/
  result : Option R
  /-- The body it was called with, and the answers that it and the calls it has completed have
      used up since. -/
  start : B
  answers : List A
  /-- How many coroutines were called before it. -/
  born : ℕ

structure Coroutines (K B A R : Type*) where
  frame : K → Option (Coroutine K B A R)
  /-- The tasks that have ended: their body, their answers, their result. -/
  finished : List (B × List A × R)
  born : ℕ
  /-- A coroutine that is not suspended was resumed, a frame that is gone was accessed, or a
      result was read that is not there. -/
  failed : Bool

namespace Coroutines

variable {K B A R : Type*}

inductive Label (K B A : Type*)
  | start (k : K) (b : B)
  | step (k c : K)
  | answer (k : K) (a : A)

def init : Coroutines K B A R := ⟨fun _ => none, [], 0, false⟩

/-- A coroutine is called. -/
def call (b : B) (task : Bool) (point : Coroutine.Point K) (born : ℕ) : Coroutine K B A R where
  point := point
  body := b
  task := task
  state := false
  continuation := none
  result := none
  start := b
  answers := []
  born := born

def fail (s : Coroutines K B A R) : Coroutines K B A R := { s with failed := true }

variable [DecidableEq K]

def set (s : Coroutines K B A R) (k : K) (f : Coroutine K B A R) : Coroutines K B A R :=
  { s with frame := Function.update s.frame k (some f) }

/-- The body of `k`, whose frame is `f`, goes on up to its next suspension point. -/
def bodyStep (P : Program B A R) (s : Coroutines K B A R) (k : K) (f : Coroutine K B A R)
    (c : K) : Option (Coroutines K B A R) :=
  match P.next f.body with
  | .co_return r =>
    if f.task then
      some { s with
        frame := Function.update s.frame k none
        finished := s.finished ++ [(f.start, f.answers, r)] }
    else some (s.set k { f with point := .final, result := some r })
  | .co_await b _ =>
    match s.frame c with
    | none =>
      some { s.set k { f with point := .resume c } with
        frame := Function.update (s.set k { f with point := .resume c }).frame c
          (some (call b false .created s.born))
        born := s.born + 1 }
    | some _ => none
  | .wait _ => some (s.set k { f with point := .blocked })

/-- `await_resume` reads the result of `c`, and the temporary is destroyed. -/
def awaitResume (P : Program B A R) (s : Coroutines K B A R) (k : K) (f : Coroutine K B A R)
    (c : K) : Coroutines K B A R :=
  match s.frame c with
  | none => s.fail
  | some g =>
    match g.result, P.next f.body with
    | some r, .co_await _ rest =>
      { s.set k { f with
          point := .running
          body := rest r
          answers := f.answers ++ g.answers } with
        frame := Function.update (s.set k { f with
          point := .running
          body := rest r
          answers := f.answers ++ g.answers }).frame c none }
    | _, _ => s.fail

def stepOf (P : Program B A R) (s : Coroutines K B A R) (k : K) (f : Coroutine K B A R)
    (c : K) : Option (Coroutines K B A R) :=
  match f.point with
  | .running => s.bodyStep P k f c
  | .resume callee =>
    match s.frame callee with
    | none => some s.fail
    | some g =>
      if g.point = .created then
        some ((s.set k { f with point := .store callee }).set callee { g with point := .running })
      else some s.fail
  | .store callee =>
    match s.frame callee with
    | none => some s.fail
    | some g =>
      some ((s.set k { f with point := .exchange callee }).set callee
        { g with continuation := some k })
  | .exchange callee =>
    match s.frame callee with
    | none => some s.fail
    | some g =>
      some ((s.set k { f with
        point := if g.state then .await_resume callee else .suspended callee }).set callee
          { g with state := true })
  | .await_resume callee => some (s.awaitResume P k f callee)
  | .final =>
    some (s.set k { f with
      state := true
      point := if f.state then .resuming else .done })
  | .resuming =>
    match f.continuation with
    | none => some s.fail
    | some j =>
      match s.frame j with
      | none => some s.fail
      | some g =>
        if g.point = .suspended k then
          some ((s.set k { f with point := .done }).set j { g with point := .await_resume k })
        else some s.fail
  | .created | .blocked | .suspended _ | .done => none

def answer (P : Program B A R) (s : Coroutines K B A R) (k : K) (f : Coroutine K B A R)
    (a : A) : Option (Coroutines K B A R) :=
  match f.point, P.next f.body with
  | .blocked, .wait rest =>
    some (s.set k { f with point := .running, body := rest a, answers := f.answers ++ [a] })
  | _, _ => none

def step (P : Program B A R) (s : Coroutines K B A R) :
    Label K B A → Option (Coroutines K B A R)
  | .start k b =>
    match s.frame k with
    | none => some { s.set k (call b true .running s.born) with born := s.born + 1 }
    | some _ => none
  | .step k c => (s.frame k).bind fun f => s.stepOf P k f c
  | .answer k a => (s.frame k).bind fun f => s.answer P k f a

/-- Coroutines on any number of threads, interleaved by atomic access. -/
def machine (P : Program B A R) : Machine (Coroutines K B A R) (Label K B A) := ⟨step P⟩

end Coroutines

end Ice
