import Ice.Context
import Ice.Net.Service

/-!
# `co_await c.schedule(post)` — coroutines that hop between threads

Any number of contexts and services, each run by a thread of its own, any number of other
threads, and coroutines that these threads start and that await schedules. Every scheduler is
the model of `Context.lean` or `Net/Service.lean`, unchanged: a coroutine's node is the
coroutine, `await_suspend` is a call of `post`, and a loop that stands at the head of a batch
resumes that coroutine.

A thread is inside the coroutines of its *stack*, the innermost first: a coroutine starts
another one as a call. Publishing the node takes a coroutine off the stack, for from then on
it is suspended and another thread may resume it, although this thread has yet to notify and
to return (`calling`).
-/

namespace Ice

open Lib

/-- The threads: one runs each scheduler, the others run none. -/
inductive Thread (C X : Type*)
  | runner (c : C)
  | other (x : X)
  deriving DecidableEq

/-- A scheduler of either kind. -/
inductive Loop (E K T : Type*)
  | context (s : Context K T)
  | service (os : Os) (event_buffer_size : ℕ) (s : Net.Service E K T)

namespace Loop

variable {E K T : Type*}

/-- What a runner's step may be told from outside. -/
inductive Turn (E : Type*)
  | run
  -- A spurious wakeup from `cv_.wait`.
  | spurious
  -- The kernel wait returns.
  | wait (w : Net.Wait E)
  deriving DecidableEq

def box : Loop E K T → Mailbox K T
  | context s => s.box
  | service _ _ s => s.box

/-- The coroutine that the loop resumes next: it stands at `head->resume()`. -/
def head : Loop E K T → Option K
  | context s =>
    match s.run with
    | .drain (head :: _) => some head.2
    | _ => none
  | service _ _ s =>
    match s.run with
    | .drain (head :: _) => some head.2
    | _ => none

/-- Inside `ev->resume()`. -/
def inEvent : Loop E K T → Bool
  | context _ => false
  | service _ _ s =>
    match s.run with
    | .event .. => true
    | _ => false

def returned : Loop E K T → Bool
  | context s =>
    match s.run with
    | .returned => true
    | _ => false
  | service _ _ s =>
    match s.run with
    | .returned _ => true
    | _ => false

variable [DecidableEq T]

/-- The runner's next access. -/
def turn : Loop E K T → Turn E → Option (Loop E K T)
  | context s, .run => (s.step .run).map context
  | context s, .spurious => (s.step .spurious).map context
  | context _, .wait _ => none
  | service os n s, .run => (s.step os n .run).map (service os n)
  | service _ _ _, .spurious => none
  | service os n s, .wait w => (s.step os n (.wait w)).map (service os n)

def post (t : T) (k : K) : Loop E K T → Option (Loop E K T)
  | context s => (s.step (.post t k)).map context
  | service os n s => (s.step os n (.post t k)).map (service os n)

def stop (t : T) (stop : Bool) : Loop E K T → Option (Loop E K T)
  | context s => (s.step (.stop t stop)).map context
  | service os n s => (s.step os n (.stop t stop)).map (service os n)

/-- The next access of thread `t` inside its call. -/
def call (t : T) : Loop E K T → Option (Loop E K T)
  | context s => (s.step (.call t)).map context
  | service os n s => (s.step os n (.call t)).map (service os n)

end Loop

/-- Where a coroutine stands. -/
inductive Co (C : Type*)
  | fresh
  -- Started, before its first schedule.
  | running
  -- `c.schedule(post)` was evaluated, with this `ready_`.
  | created (c : C) (ready : Bool)
  -- In `await_suspend`, its node not published.
  | suspending (c : C)
  -- Its node is published.
  | waiting (c : C)
  -- After `co_await c.schedule(post)`, up to the next schedule.
  | continued (c : C)
  | finished
  deriving DecidableEq

/-- The coroutine executes its own code. -/
def Co.executing {C : Type*} : Co C → Bool
  | .running | .continued _ => true
  | _ => false

/-- The thread of a scheduler, and `run`. -/
inductive Phase
  | before
  | inside
  | left
  deriving DecidableEq

structure Schedule (C E K X : Type*) where
  loop : C → Loop E K (Thread C X)
  phase : C → Phase
  -- `index_` of each scheduler, as each thread sees it.
  index : Thread C X → C → Bool
  -- The coroutines a thread is inside of, the innermost first.
  stack : Thread C X → List K
  -- The scheduler whose `post` or `stop` a thread is inside of.
  calling : Thread C X → Option C
  co : K → Co C

namespace Schedule

variable {C E K X : Type*}

inductive Label (C E K X : Type*)
  -- Thread `t` starts the coroutine `k`.
  | start (t : Thread C X) (k : K)
  -- The innermost coroutine of `t` evaluates `c.schedule(post)`.
  | schedule (t : Thread C X) (c : C) (post : Bool)
  -- It awaits the schedule it has just created.
  | await (t : Thread C X)
  | finish (t : Thread C X)
  -- `t` calls `c.stop(stop)`.
  | stop (t : Thread C X) (c : C) (stop : Bool)
  -- The next access of `t` inside `post` or `stop`.
  | call (t : Thread C X)
  -- The next access of the runner of `c`.
  | turn (c : C) (turn : Loop.Turn E)
  deriving DecidableEq

/-- Which scheduler is a context and which a service. -/
inductive Kind
  | context
  | service (os : Os) (event_buffer_size : ℕ)

def Kind.loop : Kind → Loop E K (Thread C X)
  | .context => .context Context.init
  | .service os n => .service os n Net.Service.create

def init (kind : C → Kind) : Schedule C E K X where
  loop c := (kind c).loop
  phase _ := .before
  index _ _ := false
  stack _ := []
  calling _ := none
  co _ := .fresh

/-- `is_current()` of `c`, on thread `t`. -/
def isCurrent (s : Schedule C E K X) (t : Thread C X) (c : C) : Bool := s.index t c

/-- `t` executes code of its own: not the loop of a scheduler, nor a call into one. -/
def userCode (s : Schedule C E K X) (t : Thread C X) : Bool :=
  (s.calling t).isNone &&
    match s.stack t, t with
    | k :: _, _ => (s.co k).executing
    | [], .other _ => true
    | [], .runner c => s.phase c != .inside || (s.loop c).inEvent

variable [DecidableEq C] [DecidableEq K] [DecidableEq X]

/-- The coroutine `k` on top of the stack of `t` awaits its schedule. -/
def awaitStep (s : Schedule C E K X) (t : Thread C X) (k : K) : Option (Schedule C E K X) :=
  match s.co k with
  -- `await_ready`
  | .created c true => some { s with co := Function.update s.co k (.continued c) }
  -- `await_suspend`
  | .created c false =>
    ((s.loop c).post t k).map fun loop =>
      { s with
        loop := Function.update s.loop c loop
        co := Function.update s.co k (.suspending c)
        calling := Function.update s.calling t (some c) }
  | _ => none

/-- The next access of `t` inside `post` or `stop` of `c`. -/
def callStep (s : Schedule C E K X) (t : Thread C X) (c : C) : Option (Schedule C E K X) :=
  ((s.loop c).call t).map fun loop =>
    match (s.loop c).box.caller t with
    -- The node is published: the coroutine is suspended.
    | .push k =>
      { s with
        loop := Function.update s.loop c loop
        stack := Function.update s.stack t (s.stack t).tail
        co := Function.update s.co k (.waiting c) }
    | .idle | .store _ => { s with loop := Function.update s.loop c loop }
    -- The call returns.
    | .posted _ | .stopped =>
      { s with
        loop := Function.update s.loop c loop
        calling := Function.update s.calling t none }

/-- The next access of the runner of `c`, outside the coroutines that it resumed. -/
def turnStep (s : Schedule C E K X) (c : C) (turn : Loop.Turn E) : Option (Schedule C E K X) :=
  match s.phase c, turn with
  -- `const auto index = index_.set(this);`
  | .before, .run => some { s with
      phase := Function.update s.phase c .inside
      index := Function.update s.index (.runner c)
        (Function.update (s.index (.runner c)) c true) }
  | .inside, turn =>
    if (s.loop c).returned then
      -- `index` is destroyed.
      some { s with
        phase := Function.update s.phase c .left
        index := Function.update s.index (.runner c)
          (Function.update (s.index (.runner c)) c false) }
    else
      ((s.loop c).turn turn).map fun loop =>
        match (s.loop c).head with
        -- `head->resume();`
        | some k =>
          { s with
            loop := Function.update s.loop c loop
            stack := Function.update s.stack (.runner c) [k]
            co := Function.update s.co k (.continued c) }
        | none => { s with loop := Function.update s.loop c loop }
  | _, _ => none

def step (s : Schedule C E K X) : Label C E K X → Option (Schedule C E K X)
  | .start t k =>
    if s.userCode t ∧ s.co k = .fresh then
      some { s with
        stack := Function.update s.stack t (k :: s.stack t)
        co := Function.update s.co k .running }
    else none
  | .schedule t c post =>
    match s.stack t with
    | k :: _ =>
      if s.userCode t then
        some { s with
          co := Function.update s.co k (.created c (!post && s.isCurrent t c)) }
      else none
    | [] => none
  | .await t =>
    match s.stack t with
    | k :: _ => if s.calling t = none then s.awaitStep t k else none
    | [] => none
  | .finish t =>
    match s.stack t with
    | k :: rest =>
      if s.userCode t then
        some { s with
          stack := Function.update s.stack t rest
          co := Function.update s.co k .finished }
      else none
    | [] => none
  | .stop t c stop =>
    if s.userCode t then
      ((s.loop c).stop t stop).map fun loop =>
        { s with
          loop := Function.update s.loop c loop
          calling := Function.update s.calling t (some c) }
    else none
  | .call t =>
    match s.calling t with
    | some c => s.callStep t c
    | none => none
  | .turn c turn =>
    if s.stack (.runner c) = [] ∧ s.calling (.runner c) = none then s.turnStep c turn else none

/-- Threads, schedulers and coroutines, interleaved by atomic access. -/
def machine : Machine (Schedule C E K X) (Label C E K X) := ⟨step⟩

end Schedule

end Ice
