import Ice.Scheduler

/-!
# The drain loops, over the heap

```
auto head = acquire();
while (head) { auto next = head->next.load(); head->resume(); head = next; }
```

`scheduler::process` is this text, and so is the inner loop of `context::run` (whose
`acquire` stands before it, under the mutex). One thread runs it over and over; `none` is
that thread as a poster, the other threads are `some t`.

`head->resume()` runs arbitrary code of the resumed coroutine. Its `schedule` is a temporary
of the `co_await`, so it ends when the coroutine goes on: while the loop stands inside
`resume`, the node it has just resumed may be destroyed, its memory reused, a node made
there again and posted again, next to any number of other nodes. All of these are labels of
their own, so every behaviour of a coroutine is a run of labels:

| label              | step                                                                |
|--------------------|---------------------------------------------------------------------|
| `acquire`          | the loop's next access inside `acquire`                               |
| `next`             | `while (head)`, and `head->next.load` where it is not null              |
| `resume`           | `head->resume()` is entered                                           |
| `suspend`          | it returns, and `head = next`                                         |
| `call t n`, `post t fail` | `Scheduler`'s; the runner posts inside `resume` only             |
| `create n`, `destroy n`, `reuse n p` | a node is made, ends, its memory takes the value `p`  |

The callers' side of the contract: a node that was posted is neither posted again nor
destroyed before it is resumed.
-/

namespace Ice

open Lib

/-- Where the loop stands. -/
inductive Drain.At (N : Type*)
  -- Before or inside `acquire` (`Acquire` says where).
  | acquire
  -- `while (head)`
  | next (head : Option N)
  -- `head->resume()`, `next` having been read.
  | resume (head : N) (next : Option N)
  -- Inside `head->resume()`.
  | inside (next : Option N)
  deriving DecidableEq

/-- A coroutine runs on the loop's thread. -/
def Drain.At.isInside {N : Type*} : Drain.At N → Bool
  | .inside _ => true
  | _ => false

/-- What the loop does with a node. -/
inductive Drain.Access (N : Type*)
  | read (n : N)
  | resume (n : N)
  deriving DecidableEq

structure Drain (N T : Type*) where
  heap : Scheduler N (Option T)
  at_ : Drain.At N
  -- The node exists.
  alive : N → Bool
  -- The node was posted and not resumed since.
  queued : N → Bool
  -- The resumes, and all that the loop did with nodes, in order.
  resumed : List N
  log : List (Drain.Access N)
  -- A node was read or written that does not exist, or that the loop had no right to.
  fault : Bool

namespace Drain

variable {N T : Type*}

inductive Label (N T : Type*)
  | acquire
  | next
  | resume
  | suspend
  | call (t : Option T) (schedule : N)
  | post (t : Option T) (fail : Bool)
  | create (n : N)
  | destroy (n : N)
  | reuse (n : N) (p : Option N)
  deriving DecidableEq

def init : Drain N T where
  heap := Scheduler.init
  at_ := .acquire
  alive _ := false
  queued _ := false
  resumed := []
  log := []
  fault := false

/-- A node is accessed. -/
def touch (s : Drain N T) (n : Option N) : Drain N T :=
  match n with
  | some n => { s with fault := s.fault || !(s.alive n && s.queued n) }
  | none => s

/-- The node the next access of `acquire` reads or writes. -/
def acquireTouches (heap : Scheduler N (Option T)) : Option N :=
  match heap.acquire with
  | .test head => head
  | .loop head _ => head
  | .idle => none

/-- The node the next access of a poster writes. -/
def postTouches (heap : Scheduler N (Option T)) (t : Option T) : Option N :=
  match heap.post t with
  | .store n _ => some n
  | _ => none

variable [DecidableEq N] [DecidableEq T]

/-- Where `acquire` returns, the loop goes on with the pointer it returned. -/
def acquireStep (s : Drain N T) : Drain N T :=
  { s.touch (acquireTouches s.heap) with
    heap := s.heap.acquireStep
    at_ := match s.heap.returning with
      | some head => .next head
      | none => .acquire }

/-- `auto next = head->next.load(std::memory_order_relaxed);` -/
def nextStep (s : Drain N T) (head : Option N) : Drain N T :=
  match head with
  | none => { s with at_ := .acquire }
  | some head =>
    { s.touch (some head) with
      at_ := .resume head (s.heap.next head)
      log := s.log ++ [.read head] }

/-- `head->resume();` -/
def resumeStep (s : Drain N T) (head : N) (next : Option N) : Drain N T :=
  { s.touch (some head) with
    at_ := .inside next
    queued := Function.update s.queued head false
    resumed := s.resumed ++ [head]
    log := s.log ++ [.resume head] }

def step (s : Drain N T) : Label N T → Option (Drain N T)
  | .acquire =>
    match s.at_ with
    | .acquire => some s.acquireStep
    | _ => none
  | .next =>
    match s.at_ with
    | .next head => some (s.nextStep head)
    | _ => none
  | .resume =>
    match s.at_ with
    | .resume head next => some (s.resumeStep head next)
    | _ => none
  | .suspend =>
    match s.at_ with
    | .inside next => if s.heap.post none = .idle then some { s with at_ := .next next } else none
    | _ => none
  | .call t n =>
    if s.alive n = true ∧ s.queued n = false ∧ (t = none → s.at_.isInside = true) then
      (s.heap.step (.call t n)).map fun heap =>
        { s with heap := heap, queued := Function.update s.queued n true }
    else none
  | .post t fail =>
    (s.heap.step (.post t fail)).map fun heap =>
      { s.touch (postTouches s.heap t) with heap := heap }
  -- `std::atomic<schedule*> next{ nullptr };`
  | .create n =>
    if s.alive n then none
    else
      some { s with
        heap := { s.heap with next := Function.update s.heap.next n none }
        alive := Function.update s.alive n true }
  | .destroy n =>
    if s.alive n = true ∧ s.queued n = false then
      some { s with alive := Function.update s.alive n false }
    else none
  | .reuse n p =>
    if s.alive n then none
    else some { s with heap := { s.heap with next := Function.update s.heap.next n p } }

/-- One loop, the coroutines it resumes, and the posters, interleaved by atomic access. -/
def machine : Machine (Drain N T) (Label N T) := ⟨step⟩

end Drain

end Ice
