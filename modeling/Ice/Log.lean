import Ice.Schedule
import Mathlib.Tactic.Simps.Basic

/-!
# `ice::log` — callers of `log::queue` and the logger's thread

`log.cpp`. Any number of threads call `log::queue`, `log::limit` and `log::stop`; the logger's
thread runs a context (`Context.lean`, unchanged) and is the only one that resumes the
coroutines `logger::queue`, for `context_.schedule(true)` always posts. A sink's `print` may
call `log::queue` again: that is the logger's thread as a caller, while it stands inside the
coroutine that prints. It may not call `log::stop`, where a thread would join itself.

A call is known by its thread and its number there, and so is its entry. The asynchronous
coroutine owns its entry. The synchronous one borrows: the entry is a temporary of the full
expression `g_logger.queue({...}, completed, cv);`, and `completed` and `cv` are locals of
the caller's block. The caller's mutex is its own: nobody else ever locks it, so that to lock
it is no step.

| label               | step                                                                  |
|---------------------|-----------------------------------------------------------------------|
| `queue t`           | `t` calls `log::queue`                                                  |
| `count t`, `limit t` | `t` loads one side of `g_count.load() < g_limit.load()`, in either order |
| `call t`            | `t`'s next step inside `log::queue` or `log::stop`                        |
| `wake t`            | `t`, blocked in `cv.wait`, wakes spuriously                             |
| `setLimit n`        | `log::limit(n)`                                                       |
| `stop t`            | `t` calls `log::stop`                                                   |
| `run`               | the logger's next access in `context::run`                              |
| `spurious`          | a spurious wakeup there                                               |
| `read`              | the sink reads the entry                                              |
| `handle`            | the next step of the coroutine that the logger has resumed              |
-/

namespace Ice

open Lib

namespace Log

/-- Where a thread stands. -/
inductive At
  | idle
  -- `g_count.load() < g_limit.load()`, with neither, the left or the right side loaded.
  | compare
  | counted (count : UInt64)
  | limited (limit : UInt64)
  -- `g_count.fetch_add(1, std::memory_order_release);`
  | add
  -- `std::unique_lock lock{ mutex };`, the locals and the entry.
  | lock
  -- Inside `context::post`.
  | post
  -- The end of the full expression of the synchronous call.
  | ended
  -- `completed.load(std::memory_order_acquire)` in the predicate.
  | check
  -- The predicate was false: about to release the mutex and block.
  | block
  | blocked
  -- The predicate was true: about to leave the block.
  | leave
  -- Inside `context_.stop()`.
  | stop
  -- `if (thread_.joinable()) { thread_.join(); }`
  | join
  deriving DecidableEq

/-- Where the coroutine `logger::queue` of a call stands. -/
inductive Stage
  | fresh
  -- Its node is published.
  | queued
  -- Resumed: inside `print`.
  | printing
  | printed
  -- `completed` is stored, `cv` not yet notified.
  | stored
  | finished
  deriving DecidableEq

/-- What a call of `log::queue` lends or hands over. -/
structure Call where
  sync : Bool
  stage : Stage
  completed : Bool
  -- A notification was delivered to the blocked caller.
  notified : Bool
  -- The temporary that the synchronous coroutine reads exists.
  entry : Bool
  -- `completed`, `cv` and `mutex` exist.
  frame : Bool
  deriving DecidableEq

/-- What the synchronous coroutine refers to. -/
inductive Object
  | entry
  | completed
  | cv
  deriving DecidableEq

/-- A call of `log::queue`: the thread, and the number of the call there. -/
abbrev Id (X : Type*) := Thread Unit X × ℕ

end Log

structure Log (X : Type*) where
  -- `context_` of the logger.
  ctx : Context (Log.Id X) (Thread Unit X)
  -- `g_count` and `g_limit`.
  count : UInt64
  limit : UInt64
  at_ : Thread Unit X → Log.At
  -- How many calls of `log::queue` a thread has made.
  calls : Thread Unit X → ℕ
  call : Log.Id X → Log.Call
  -- The coroutine that the logger's thread is inside of.
  handling : Option (Log.Id X)
  -- The entries that were handed to a sink, in that order.
  handed : List (Log.Id X)
  -- The accesses to objects that do not exist any more.
  dangling : List (Log.Id X × Log.Object)

namespace Log

variable {X : Type*}

/-- The logger's thread. -/
abbrev logger : Thread Unit X := .runner ()

inductive Label (X : Type*)
  | queue (t : Thread Unit X)
  | count (t : Thread Unit X)
  | limit (t : Thread Unit X)
  | call (t : Thread Unit X)
  | wake (t : Thread Unit X)
  | setLimit (limit : UInt64)
  | stop (t : Thread Unit X)
  | run
  | spurious
  | read
  | handle
  deriving DecidableEq

def Call.init : Call where
  sync := false
  stage := .fresh
  completed := false
  notified := false
  entry := false
  frame := false

/-- The globals of `log.cpp`: the logger's thread runs, and the limit is the largest number. -/
def init : Log X where
  ctx := Context.init
  count := 0
  limit := 18446744073709551615
  at_ _ := .idle
  calls _ := 0
  call _ := .init
  handling := none
  handed := []
  dangling := []

/-- The last call of `t`, and the one it is inside of, if any. -/
def id (s : Log X) (t : Thread Unit X) : Id X := (t, s.calls t)

/-- The logger's thread executes a sink's `print`. -/
def printing (s : Log X) : Bool :=
  match s.handling with
  | some k => (s.call k).stage = .printing
  | none => false

section Updates

variable (s : Log X)

@[simps] def context (ctx : Context (Id X) (Thread Unit X)) : Log X := { s with ctx := ctx }

@[simps] def counting (count : UInt64) : Log X := { s with count := count }

/-- The logger's thread is inside of the coroutine, or of none. -/
@[simps] def inside (handling : Option (Id X)) : Log X := { s with handling := handling }

/-- The entry is handed to a sink. -/
@[simps] def print (k : Id X) : Log X := { s with handed := s.handed ++ [k] }

/-- The logger refers to an object of the call. -/
@[simps] def touch (k : Id X) (o : Object) (exists_ : Bool) : Log X :=
  { s with dangling := if exists_ then s.dangling else s.dangling ++ [(k, o)] }

variable [DecidableEq X]

/-- `t` goes on to `p`. -/
@[simps] def move (t : Thread Unit X) (p : At) : Log X :=
  { s with at_ := Function.update s.at_ t p }

@[simps] def begin_ (t : Thread Unit X) : Log X :=
  { s with calls := Function.update s.calls t (s.calls t + 1) }

@[simps] def set (k : Id X) (c : Call) : Log X :=
  { s with call := Function.update s.call k c }

end Updates

variable [DecidableEq X]

/-- `if (g_count.load() < g_limit.load())`. -/
def branch (s : Log X) (t : Thread Unit X) (count limit : UInt64) : Log X :=
  s.move t (if count < limit then .add else .lock)

def countStep (s : Log X) (t : Thread Unit X) : Option (Log X) :=
  match s.at_ t with
  | .compare => some (s.move t (.counted s.count))
  | .limited limit => some (s.branch t s.count limit)
  | _ => none

def limitStep (s : Log X) (t : Thread Unit X) : Option (Log X) :=
  match s.at_ t with
  | .compare => some (s.move t (.limited s.limit))
  | .counted count => some (s.branch t count s.limit)
  | _ => none

/-- The next access of `t` inside `context::post`. -/
def postStep (s : Log X) (t : Thread Unit X) : Option (Log X) :=
  let c := s.call (s.id t)
  (s.ctx.step (.call t)).map fun ctx =>
    match s.ctx.box.caller t with
    -- `scheduler::post(schedule);`
    | .push _ => (s.set (s.id t) { c with stage := .queued }).context ctx
    -- `cv_.notify_one();`, and `queue` returns to its caller.
    | _ => (s.move t (if c.sync then .ended else .idle)).context ctx

/-- The next step of `t` inside `log::queue`, past the comparison, or `log::stop`. -/
def callStep (s : Log X) (t : Thread Unit X) : Option (Log X) :=
  let c := s.call (s.id t)
  match s.at_ t with
  | .add =>
    (s.ctx.step (.post t (s.id t))).map fun ctx =>
      ((s.move t .post).context ctx).counting (s.count + 1)
  | .lock =>
    (s.ctx.step (.post t (s.id t))).map fun ctx =>
      ((s.move t .post).context ctx).set (s.id t)
        { c with sync := true, completed := false, entry := true, frame := true }
  | .post => s.postStep t
  | .ended => some ((s.move t .check).set (s.id t) { c with entry := false })
  | .check => some (s.move t (if c.completed then .leave else .block))
  | .block => some ((s.move t .blocked).set (s.id t) { c with notified := false })
  | .blocked => if c.notified then some (s.move t .check) else none
  | .leave => some ((s.move t .idle).set (s.id t) { c with frame := false })
  | .stop =>
    (s.ctx.step (.call t)).map fun ctx =>
      match s.ctx.box.caller t with
      -- `stop_.store(stop, std::memory_order_release);`
      | .store _ => s.context ctx
      -- `cv_.notify_all();`
      | _ => (s.move t .join).context ctx
  | .join => if s.ctx.run = .returned then some (s.move t .idle) else none
  | .idle | .compare | .counted _ | .limited _ => none

/-- The logger's next access in `context::run`; a coroutine that is resumed calls `print`. -/
def runStep (s : Log X) : Option (Log X) :=
  match s.handling with
  | some _ => none
  | none =>
    (s.ctx.step .run).map fun ctx =>
      match s.ctx.run with
      | .drain (head :: _) =>
        let c := s.call head.2
        (((s.set head.2 { c with stage := .printing }).context ctx).inside head.2).print head.2
      | _ => s.context ctx

/-- The next step of the coroutine of `k`, from its return from `print` on. -/
def handleStep (s : Log X) (k : Id X) : Option (Log X) :=
  let c := s.call k
  match c.stage, c.sync with
  | .printing, _ => some (s.set k { c with stage := .printed })
  -- `g_count.fetch_sub(1, std::memory_order_release);`
  | .printed, false =>
    some (((s.set k { c with stage := .finished }).inside none).counting (s.count - 1))
  -- `completed.store(true, std::memory_order_release);`
  | .printed, true =>
    some ((s.set k { c with stage := .stored, completed := true }).touch k .completed c.frame)
  -- `cv.notify_one();`, which reaches a caller that is blocked now.
  | .stored, true =>
    let notified := c.notified || decide (s.at_ k.1 = .blocked ∧ s.id k.1 = k)
    some (((s.set k { c with stage := .finished, notified := notified }).inside none).touch k .cv
      c.frame)
  | _, _ => none

def step (s : Log X) : Label X → Option (Log X)
  | .queue t =>
    if s.at_ t = .idle ∧ (t = logger → s.printing = true) then
      some ((s.move t .compare).begin_ t)
    else none
  | .count t => s.countStep t
  | .limit t => s.limitStep t
  | .call t => s.callStep t
  | .wake t => if s.at_ t = .blocked then some (s.move t .check) else none
  | .setLimit limit => some { s with limit := limit }
  | .stop t =>
    if s.at_ t = .idle ∧ t ≠ logger then
      (s.ctx.step (.stop t true)).map fun ctx => (s.move t .stop).context ctx
    else none
  | .run => s.runStep
  | .spurious => (s.ctx.step .spurious).map s.context
  | .read =>
    match s.handling with
    | some k =>
      if s.printing = true ∧ s.at_ logger = .idle then
        some (s.touch k .entry ((s.call k).entry || !(s.call k).sync))
      else none
    | none => none
  | .handle =>
    match s.handling with
    | some k => if s.at_ logger = .idle then s.handleStep k else none
    | none => none

/-- Callers and the logger's thread, interleaved by atomic access. -/
def machine : Machine (Log X) (Label X) := ⟨step⟩

end Log

end Ice
