import Ice.Lib.Machine
import Mathlib.Data.Nat.Notation
import Mathlib.Tactic.Simps.Basic

/-!
# `ice::net::ssh::session` — what a session object owns

`session.hpp`, the destructors, the move operations, `connect`, `authenticate`, `disconnect`
and `close` of `session.cpp`, and the three owning members as `handle.hpp` moves, resets and
destroys them. Every call into libssh2 or the socket is one step, and its answer is free; the
coroutine of an operation stands before the call that comes next, and other objects are used
in between. A loop that is answered `EAGAIN` makes its call again.

The socket and the libssh2 session that one `connect` creates have one number. The log is
what is seen from outside: the calls that use and give up these resources, the newest first. An
order in it is an order of calls: closing a channel is logged whatever it answers, and the call that
the destructor makes has no answer.

`libssh2_session_abstract` of a null session is not a place that can be written; where an
object without a session is moved, that write is left out.
-/

namespace Ice
namespace Net
namespace Ssh

open Lib

/-- A channel and the libssh2 session it was opened on. -/
structure Channel where
  session : ℕ
  number : ℕ
  deriving DecidableEq

inductive Event
  | handshake (session : ℕ)
  | channelOpen (channel : Channel)
  | channelClose (channel : Channel)
  -- The socket is the one that the object named by the abstract pointer holds.
  | sessionFree (session : ℕ) (socket : Option ℕ)
  | socketClose (socket : ℕ)
  deriving DecidableEq

/-- What a call answers. -/
inductive Answer
  | ok
  | again
  | failed
  deriving DecidableEq

/-- The call that a coroutine makes next; its own socket, and its own session from `flag` on,
    have the number it carries. -/
inductive Task
  | library
  | create
  | init (k : ℕ)
  | flag (k : ℕ)
  | connect (k : ℕ)
  | handshake (k : ℕ)
  | channelClose
  | sessionDisconnect
  | userauth
  | channelOpen
  deriving DecidableEq

structure Session where
  socket : Option ℕ
  session : Option ℕ
  channel : Option Channel
  -- The operation in progress.
  task : Option Task
  alive : Bool
  deriving DecidableEq

structure World (O : Type*) where
  object : O → Session
  -- `*libssh2_session_abstract(k)`
  abstract : ℕ → Option O
  connections : ℕ
  channels : ℕ
  log : List Event

namespace World

variable {O : Type*}

inductive Label (O : Type*)
  | construct (o : O)
  | moveConstruct (o other : O)
  | moveAssign (o other : O)
  | destroy (o : O)
  | connect (o : O)
  | authenticate (o : O)
  | disconnect (o : O)
  | close (o : O)
  -- The call that the operation of `o` has come to returns.
  | answer (o : O) (a : Answer)
  deriving DecidableEq

def init : World O where
  object _ := ⟨none, none, none, none, false⟩
  abstract _ := none
  connections := 0
  channels := 0
  log := []

@[simps]
def note (w : World O) (e : Event) : World O := { w with log := e :: w.log }

/-- What the object that the abstract pointer of `k` names has in `socket_`. -/
def holds (w : World O) (k : ℕ) : Option ℕ := (w.abstract k).bind fun o => (w.object o).socket

/-- `session_destructor`. -/
def free (w : World O) (k : ℕ) : World O := w.note (.sessionFree k (w.holds k))

variable [DecidableEq O]

@[simps]
def setObject (w : World O) (o : O) (s : Session) : World O :=
  { w with object := Function.update w.object o s }

def setSocket (w : World O) (o : O) (socket : Option ℕ) : World O :=
  w.setObject o { w.object o with socket := socket }

def setSession (w : World O) (o : O) (session : Option ℕ) : World O :=
  w.setObject o { w.object o with session := session }

def setChannel (w : World O) (o : O) (channel : Option Channel) : World O :=
  w.setObject o { w.object o with channel := channel }

def setTask (w : World O) (o : O) (task : Option Task) : World O :=
  w.setObject o { w.object o with task := task }

/-- `*libssh2_session_abstract(session) = o`, where there is a session. -/
@[simps]
def name (w : World O) (session : Option ℕ) (o : O) : World O :=
  { w with abstract := session.elim w.abstract fun k => Function.update w.abstract k (some o) }

/-- `socket_.close()`, and `~socket()`. -/
def closeSocket (w : World O) (o : O) : World O :=
  match (w.object o).socket with
  | some k => (w.note (.socketClose k)).setSocket o none
  | none => w

/-- `session_.reset()`, and the destructor of `session_`. -/
def resetSession (w : World O) (o : O) : World O :=
  match (w.object o).session with
  | some k => (w.free k).setSession o none
  | none => w

/-- `channel_.reset(channel)`, and with `none` the destructor of `channel_`. -/
def resetChannel (w : World O) (o : O) (channel : Option Channel) : World O :=
  match (w.object o).channel with
  | some c => (w.note (.channelClose c)).setChannel o channel
  | none => w.setChannel o channel

/-- `handle::operator=` on `socket_`: the values are swapped, and the temporary closes what
    `o` held. -/
def assignSocket (w : World O) (o : O) (socket : Option ℕ) : World O :=
  match (w.object o).socket with
  | some k => (w.setSocket o socket).note (.socketClose k)
  | none => w.setSocket o socket

def assignSession (w : World O) (o : O) (session : Option ℕ) : World O :=
  match (w.object o).session with
  | some k => (w.setSession o session).free k
  | none => w.setSession o session

def assignChannel (w : World O) (o : O) (channel : Option Channel) : World O :=
  match (w.object o).channel with
  | some c => (w.setChannel o channel).note (.channelClose c)
  | none => w.setChannel o channel

/-- `socket_ = std::move(other.socket_)` -/
def moveSocket (w : World O) (o other : O) : World O :=
  (w.setSocket other none).assignSocket o (w.object other).socket

/-- `session_ = std::move(other.session_)` -/
def moveSession (w : World O) (o other : O) : World O :=
  (w.setSession other none).assignSession o (w.object other).session

/-- `channel_ = std::move(other.channel_)` -/
def moveChannel (w : World O) (o other : O) : World O :=
  (w.setChannel other none).assignChannel o (w.object other).channel

/-- `close()`, and the destructors of the members, the last one first. -/
def close (w : World O) (o : O) : World O :=
  ((w.resetChannel o none).resetSession o).closeSocket o

/-- The members of `session(session&& other)`. -/
def moveFrom (w : World O) (o other : O) : World O :=
  (w.setObject other ⟨none, none, none, (w.object other).task, true⟩).setObject o
    ⟨(w.object other).socket, (w.object other).session, (w.object other).channel, none, true⟩

/-- `session(session&& other)` -/
def moveConstruct (w : World O) (o other : O) : World O :=
  (w.moveFrom o other).name (w.object other).session o

/-- The members of `operator=(session&& other)`. -/
def moveMembers (w : World O) (o other : O) : World O :=
  ((w.moveSocket o other).moveSession o other).moveChannel o other

/-- `operator=(session&& other)` -/
def moveAssign (w : World O) (o other : O) : World O :=
  (w.moveMembers o other).name ((w.moveMembers o other).object o).session o

/-- An early return of `connect`: its own session and socket are destroyed. -/
def abandon (w : World O) (o : O) (k : ℕ) : World O :=
  ((w.free k).note (.socketClose k)).setTask o none

/-- `session_ = std::move(session); socket_ = std::move(socket);` -/
def attach (w : World O) (o : O) (k : ℕ) : World O :=
  (w.assignSession o (some k)).assignSocket o (some k)

/-- `socket.create(endpoint.family())` -/
@[simps]
def socketCreate (w : World O) : World O := { w with connections := w.connections + 1 }

/-- `libssh2_channel_open_session(k)` -/
@[simps]
def openChannel (w : World O) (k : ℕ) : World O :=
  { w with channels := w.channels + 1, log := .channelOpen ⟨k, w.channels⟩ :: w.log }

/-- `disconnect` from where the channel is gone. -/
def disconnectSession (w : World O) (o : O) : World O :=
  match (w.object o).session with
  | some _ => w.setTask o (some .sessionDisconnect)
  | none => (w.closeSocket o).setTask o none

/-- The call that `t` stands for answers `a`. -/
def answer (w : World O) (o : O) : Task → Answer → Option (World O)
  | .library, .ok => some ((w.close o).setTask o (some .create))
  | .create, .ok => some (w.socketCreate.setTask o (some (.init w.connections)))
  | .init k, .ok => some ((w.name (some k) o).setTask o (some (.flag k)))
  | .init k, .failed => some ((w.note (.socketClose k)).setTask o none)
  | .flag k, .ok => some (w.setTask o (some (.connect k)))
  | .flag k, .failed | .connect k, .failed => some (w.abandon o k)
  | .connect k, .ok => some ((w.attach o k).setTask o (some (.handshake k)))
  | .handshake k, .ok => some ((w.note (.handshake k)).setTask o none)
  | .handshake k, .again => some (w.note (.handshake k))
  | .handshake k, .failed =>
    some ((((w.note (.handshake k)).resetSession o).closeSocket o).setTask o none)
  | .channelClose, a =>
    (w.object o).channel.map fun c =>
      match a with
      | .ok => ((w.note (.channelClose c)).resetChannel o none).disconnectSession o
      | .again => w.note (.channelClose c)
      | .failed => (w.note (.channelClose c)).setTask o none
  | .sessionDisconnect, .ok => some (((w.resetSession o).closeSocket o).setTask o none)
  | .sessionDisconnect, .again | .userauth, .again => some w
  | .userauth, .ok => some (w.setTask o (some .channelOpen))
  | .channelOpen, .ok =>
    (w.object o).session.map fun k =>
      ((w.openChannel k).resetChannel o (some ⟨k, w.channels⟩)).setTask o none
  | .channelOpen, .again => some (w.resetChannel o none)
  | .channelOpen, .failed => some ((w.resetChannel o none).setTask o none)
  | .library, .failed | .create, .failed | .sessionDisconnect, .failed | .userauth, .failed =>
    some (w.setTask o none)
  | .library, .again | .create, .again | .init _, .again | .flag _, .again | .connect _, .again =>
    none

/-- No operation of `o` is in progress. -/
def idle (w : World O) (o : O) : Bool := (w.object o).alive && (w.object o).task.isNone

def step (w : World O) : Label O → Option (World O)
  | .construct o =>
    if (w.object o).alive then none
    else some (w.setObject o ⟨none, none, none, none, true⟩)
  | .moveConstruct o other =>
    if (w.object o).alive = false ∧ w.idle other then some (w.moveConstruct o other) else none
  | .moveAssign o other =>
    if w.idle o ∧ w.idle other then some (w.moveAssign o other) else none
  | .destroy o =>
    if w.idle o then some ((w.close o).setObject o ⟨none, none, none, none, false⟩) else none
  | .connect o => if w.idle o then some (w.setTask o (some .library)) else none
  | .authenticate o => if w.idle o then some (w.setTask o (some .userauth)) else none
  | .disconnect o =>
    if w.idle o then
      some (match (w.object o).channel with
        | some _ => w.setTask o (some .channelClose)
        | none => w.disconnectSession o)
    else none
  | .close o => if w.idle o then some (w.close o) else none
  | .answer o a => (w.object o).task.bind fun t => w.answer o t a

def machine : Machine (World O) (Label O) := ⟨step⟩

end World

end Ssh
end Net
end Ice
