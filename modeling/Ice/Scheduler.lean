import Ice.Lib.Machine
import Ice.Lib.Chain

/-!
# `ice::scheduler` — the intrusive list of posted coroutines

`scheduler.hpp`: `post` pushes a `schedule` node onto `head_` with a compare-exchange loop,
`acquire` takes the whole list with one exchange and reverses it in place. Any number of
threads are inside `post`; one consumer calls `acquire` over and over.

A node is a `schedule` object, known by its address, so a node that is posted again puts the
*same* address back into `head_`. Each label below is one atomic access of the source:

| label            | access                                                            |
|------------------|-------------------------------------------------------------------|
| `call t n`       | thread `t` enters `post(n)`                                         |
| `post t fail`    | `t`'s next access: `head_.load`, `next.store`, `compare_exchange_weak` |
| `acquire`        | the consumer's next access: `head_.exchange`, `next.load`, `next.exchange` |

`fail` lets the weak compare-exchange fail although `head_` holds the expected address.
-/

namespace Ice

open Lib

/-- Where a thread stands in `scheduler::post`. -/
inductive Post (N : Type*)
  /-- Not inside `post`. -/
  | idle
  /-- `auto head = head_.load(std::memory_order_acquire);` -/
  | load (schedule : N)
  /-- `schedule->next.store(head, std::memory_order_relaxed);` -/
  | store (schedule : N) (head : Option N)
  /-- `head_.compare_exchange_weak(head, schedule, ...)` -/
  | exchange (schedule : N) (head : Option N)
  deriving DecidableEq

/-- The node a thread is posting: it is not in the list yet. -/
def Post.schedule {N : Type*} : Post N → Option N
  | .idle => none
  | .load n | .store n _ | .exchange n _ => some n

/-- Where the consumer stands in `scheduler::acquire`. -/
inductive Acquire (N : Type*)
  /-- Between two calls. -/
  | idle
  /-- `if (!head || !head->next.load(std::memory_order_relaxed))` -/
  | test (head : Option N)
  /-- `while (head) { next = head->next.exchange(prev, ...); prev = head; head = next; }` -/
  | loop (head prev : Option N)
  deriving DecidableEq

structure Scheduler (N T : Type*) where
  /-- `schedule::next`, by the address of the node. -/
  next : N → Option N
  /-- `head_`. -/
  head : Option N
  post : T → Post N
  acquire : Acquire N
  /-- Nodes given to `post` and not handed out since: the callers' side of the contract is
      that `post` is not called with one of these. -/
  busy : N → Bool
  /-- The posts whose compare-exchange succeeded, in that order. -/
  posted : List N
  /-- The chains `acquire` returned, in that order. -/
  handed : List (List N)

namespace Scheduler

variable {N T : Type*}

inductive Label (N T : Type*)
  | call (t : T) (schedule : N)
  | post (t : T) (fail : Bool)
  | acquire
  deriving DecidableEq

/-- The label of a step of the consumer. -/
def Label.isAcquire : Label N T → Bool
  | .acquire => true
  | _ => false

/-- `scheduler() = default;` — no node has been posted. -/
def init : Scheduler N T where
  next _ := none
  head := none
  post _ := .idle
  acquire := .idle
  busy _ := false
  posted := []
  handed := []

/-- The pointer `acquire` is about to return, when its next step is a return. -/
def returning (s : Scheduler N T) : Option (Option N) :=
  match s.acquire with
  | .idle => none
  | .test none => some none
  | .test (some head) => if (s.next head).isNone then some (some head) else none
  | .loop none prev => some prev
  | .loop (some _) _ => none

variable [DecidableEq N] [DecidableEq T]

/-- `acquire` returns `head`: the nodes on its chain are the caller's from here on. -/
def hand (s : Scheduler N T) (head : Option N) : Scheduler N T :=
  let chain := walk s.next s.posted.length head
  { s with
    acquire := .idle
    busy := fun n => s.busy n && !chain.contains n
    handed := s.handed ++ [chain] }

/-- One atomic access of thread `t` inside `post`. -/
def postStep (s : Scheduler N T) (t : T) (fail : Bool) : Option (Scheduler N T) :=
  match s.post t with
  | .idle => none
  | .load n => some { s with post := Function.update s.post t (.store n s.head) }
  | .store n head =>
    some { s with
      next := Function.update s.next n head
      post := Function.update s.post t (.exchange n head) }
  | .exchange n head =>
    if s.head = head ∧ fail = false then
      some { s with
        head := some n
        post := Function.update s.post t .idle
        posted := s.posted ++ [n] }
    else
      -- A failed exchange loads the head it found, and the loop stores `next` again.
      some { s with post := Function.update s.post t (.store n s.head) }

/-- One atomic access of the consumer inside `acquire`. -/
def acquireStep (s : Scheduler N T) : Scheduler N T :=
  match s.acquire with
  | .idle => { s with head := none, acquire := .test s.head }
  | .test none => s.hand none
  | .test (some head) =>
    if (s.next head).isNone then s.hand (some head)
    else { s with acquire := .loop (some head) none }
  | .loop (some head) prev =>
    { s with
      next := Function.update s.next head prev
      acquire := .loop (s.next head) (some head) }
  | .loop none prev => s.hand prev

def step (s : Scheduler N T) : Label N T → Option (Scheduler N T)
  | .call t n =>
    if s.post t = .idle ∧ s.busy n = false then
      some { s with
        post := Function.update s.post t (.load n)
        busy := Function.update s.busy n true }
    else none
  | .post t fail => s.postStep t fail
  | .acquire => some s.acquireStep

/-- Threads posting and one consumer, interleaved by atomic access. -/
def machine : Machine (Scheduler N T) (Label N T) := ⟨step⟩

/-- What the `acquire` in progress has taken off `head_` and not yet returned, oldest post
    first. In the reversal loop the nodes not visited yet still hang off `head`, newest
    first, and those already turned around hang off `prev`. -/
def Detached (s : Scheduler N T) (detached : List N) : Prop :=
  match s.acquire with
  | .idle => detached = []
  | .test head => Chain s.next head detached.reverse
  | .loop head prev =>
    ∃ rest turned, Chain s.next head rest ∧ Chain s.next prev turned ∧
      detached = rest.reverse ++ turned

end Scheduler

end Ice
