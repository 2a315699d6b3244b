import Ice.Net.Event
import Ice.Net.Tcp.Socket

/-!
# One coroutine in `recv`, another in `send`, on one socket (Linux)

`socket.cpp` and `event.hpp` together: the two calls of one descriptor, as the thread that
runs `service::run` sees them. Both coroutines run on that thread, so one of them runs until
it suspends or returns, and both read and write its one `errno`. The descriptor has one place
in the epoll set, and so one entry at most in a batch; other descriptors are seen only as
failed calls that leave something in `errno`.

`own` is not in the program: for each call it is what `errno` would hold if the other call
had made no system call.
-/

namespace Ice
namespace Net
namespace Tcp

open Lib

/-- A call of `recv` or `send`. Between its steps a `Send` holds no `errno` of its own. -/
inductive Call
  | recv (r : Recv)
  | send (s : Send)
  deriving DecidableEq

/-- The answer of the kernel to a `read` or a `write`. -/
inductive Answer
  | recv (a : Recv.Answer)
  | send (o : Outcome)
  deriving DecidableEq

namespace Call

/-- In `co_await event{ .. }`. -/
def waiting : Call → Bool
  | .recv r => r.at_ = .wait
  | .send s => s.at_ = .wait

def returned : Call → Bool
  | .recv r => r.at_ = .returned
  | .send s => s.at_ = .returned

/-- The call goes on with what its `read` or `write` answered, `errno` being what the thread
    has. -/
def answer (os : Os) (errno : ℕ) : Call → Answer → Option Call
  | .recv _, .recv (.waited _) | .send _, .send (.waited _ _) => none
  | .recv r, .recv a => (r.step os a).map .recv
  | .send s, .send o =>
    (Send.step os { s with errno := errno } o).map fun s' => .send { s' with errno := 0 }
  | _, _ => none

/-- The call goes on with what its wait gave. -/
def waited (os : Os) (ec : ErrorCode) : Call → Option Call
  | .recv r => (r.step os (.waited ec)).map .recv
  | .send s => (s.step os (.waited ec 0)).map .send

end Call

/-- What the answer leaves in `errno`. -/
def Answer.errno : Answer → ℕ → ℕ
  | .recv (.failed errno), _ | .send (.failed errno), _ => errno.value
  | _, errno => errno

structure Duplex where
  errno : ℕ
  call : Direction → Option Call
  epoll : Epoll Direction
  -- The entry of this descriptor that `run` has not come to.
  batch : Option Direction
  -- The coroutine that has the thread.
  running : Option Direction
  own : Direction → ℕ

namespace Duplex

inductive Label
  | recv (size : ℕ)
  | send (data : List UInt8)
  -- A `read` or `write` of the call returns.
  | answer (d : Direction) (a : Answer)
  -- `await_suspend` of the call's event.
  | await (d : Direction) (failure : Option Errno)
  -- The kernel finds the descriptor ready for `events`.
  | report (events : Direction)
  -- `run` comes to the entry, and `resume()` of the event is called.
  | resume (d : Direction)
  -- Another system call on the thread fails.
  | errno (errno : Errno)
  deriving DecidableEq

def init (errno : ℕ) : Duplex where
  errno := errno
  call _ := none
  epoll := OneShot.empty
  batch := none
  running := none
  own _ := errno

/-- Nobody is in a call of `d`. -/
def free (s : Duplex) (d : Direction) : Bool := (s.call d).all Call.returned

/-- The call of `d` is now `c`, and keeps the thread unless it has returned. -/
@[simps]
def setCall (s : Duplex) (d : Direction) (c : Call) : Duplex :=
  { s with
    call := Function.update s.call d (some c)
    running := if c.returned then none else some d }

/-- A call of `d` left this in `errno`. -/
@[simps]
def setErrno (s : Duplex) (d : Direction) (errno : ℕ → ℕ) : Duplex :=
  { s with errno := errno s.errno, own := Function.update s.own d (errno (s.own d)) }

/-- Something else on the thread left this in `errno`. -/
@[simps]
def leave (s : Duplex) (errno : ℕ) : Duplex := { s with errno := errno, own := fun _ => errno }

/-- The epoll set is now `epoll`, with `batch` for `run` and `running` on the thread. -/
@[simps]
def setEpoll (s : Duplex) (epoll : Epoll Direction) (batch running : Option Direction) : Duplex :=
  { s with epoll := epoll, batch := batch, running := running }

def start (s : Duplex) (d : Direction) (c : Call) : Option Duplex :=
  if s.running = none ∧ s.free d then some (s.setCall d c) else none

def answer (s : Duplex) (os : Os) (d : Direction) (c : Call) (a : Answer) : Option Duplex :=
  (c.answer os s.errno a).map fun c' => (s.setErrno d a.errno).setCall d c'

/-- `await_suspend`, and what follows where it returns false. -/
def await (s : Duplex) (os : Os) (handle : ℕ) (d : Direction) (c : Call)
    (failure : Option Errno) : Option Duplex :=
  if c.waiting then
    match ctlAdd s.epoll handle ⟨d, d⟩ failure with
    | .ok epoll => some (s.setEpoll epoll s.batch none)
    | .error errno =>
      (c.waited os (make_error_code errno.value)).map fun c' =>
        (s.setErrno d fun _ => errno.value).setCall d c'
  else none

/-- `ev->resume()`, until the coroutine makes its next system call. -/
def resume (s : Duplex) (os : Os) (handle : ℕ) (d : Direction) (c : Call) : Option Duplex :=
  match ctlDel s.epoll handle with
  | .ok epoll =>
    (c.waited os .clear).map fun c' => (s.setEpoll epoll none none).setCall d c'
  | .error errno =>
    (c.waited os (make_error_code errno.value)).map fun c' =>
      ((s.setEpoll s.epoll none none).setErrno d fun _ => errno.value).setCall d c'

/-- The descriptor is reported where a registration for `events` is armed. -/
def report (s : Duplex) (handle : ℕ) (events : Direction) : Option Duplex :=
  (s.epoll.report handle).bind fun r =>
    if r.1.events = events then some (s.setEpoll r.2 (some r.1.ptr) s.running) else none

def step (os : Os) (handle : ℕ) (s : Duplex) : Label → Option Duplex
  | .recv size => s.start .recv (.recv (Recv.init size))
  | .send data => s.start .send (.send (Send.init data 0))
  | .answer d a =>
    if s.running = some d then (s.call d).bind fun c => s.answer os d c a else none
  | .await d failure =>
    if s.running = some d then (s.call d).bind fun c => s.await os handle d c failure else none
  | .report events =>
    if s.running = none ∧ s.batch = none then s.report handle events else none
  | .resume d =>
    if s.running = none ∧ s.batch = some d then
      (s.call d).bind fun c => s.resume os handle d c
    else none
  | .errno errno =>
    if s.running = none then some (s.leave errno.value) else none

/-- The two calls on the descriptor `handle`, round after round. -/
def machine (handle : ℕ) : Machine Duplex Label := ⟨step .linux handle⟩

end Duplex

end Tcp
end Net
end Ice
