import Ice.Error
import Ice.Lib.Lifetime

/-!
# `ice::detail::result_storage` — the objects in the union

`result.hpp`, statement by statement: a special member destroys the member of the union that
`has_value` names, copies `has_value`, and constructs the member that it names now. Which
member is alive only the events say; the bytes of the union can be read at any time, and what
they hold after a destruction is indeterminate.

The operations of `T` itself do what they are for: a copy is equal to what was copied, and so
is what was moved, which leaves `moved` behind. The move of an error code is a copy.
-/

namespace Ice
namespace Detail

open Lib

/-- A member of the union: the object last constructed as it, and what the bytes hold if that
    is determinate. -/
structure Slot (α : Type*) where
  object : ℕ
  contents : Option α
  deriving DecidableEq

namespace Slot

variable {α : Type*}

/-- Nothing was ever constructed. -/
def raw : Slot α := ⟨0, none⟩

/-- The object was destroyed, or the other member was constructed in its bytes. -/
def clobber (slot : Slot α) : Slot α := { slot with contents := none }

end Slot

/-- `result_storage<T>` -/
structure Storage (T : Type*) where
  value : Slot T
  error : Slot ErrorCode
  has_value : Bool
  deriving DecidableEq

namespace Storage

variable {T : Type*}

/-- The storage before a member of the union is constructed. -/
def raw (has_value : Bool) : Storage T := ⟨.raw, .raw, has_value⟩

/-- The object in the member that `has_value` names. -/
def member (s : Storage T) : ℕ := if s.has_value then s.value.object else s.error.object

/-- `new (&value) value_type(...)`, of an object with this number. -/
def newValue (s : Storage T) (k : ℕ) (contents : Option T) : Storage T :=
  { s with value := ⟨k, contents⟩, error := s.error.clobber }

/-- `new (&error) error_type(...)` -/
def newError (s : Storage T) (k : ℕ) (contents : Option ErrorCode) : Storage T :=
  { s with value := s.value.clobber, error := ⟨k, contents⟩ }

end Storage

/-- The objects of the class, and what happened to the objects in them. -/
structure World (O T : Type*) where
  object : O → Option (Storage T)
  next : ℕ
  events : List Lifetime

/-- One operation, on the object `o`. -/
inductive Label (O T : Type*)
  | value (o : O) (v : T)
  | error (o : O) (e : ErrorCode)
  | copyConstruct (o other : O)
  | moveConstruct (o other : O)
  | copyAssign (o other : O)
  | moveAssign (o other : O)
  | destroy (o : O)
  deriving DecidableEq

namespace World

variable {O T : Type*} [DecidableEq O]

/-- No object exists. -/
def init : World O T := ⟨fun _ => none, 1, []⟩

def put (w : World O T) (o : O) (s : Storage T) : World O T :=
  { w with object := Function.update w.object o (some s) }

def log (w : World O T) (e : Lifetime) : World O T := { w with events := w.events ++ [e] }

/-- An object of `T` is constructed in the storage `s`, which is that of `o`. -/
def newValue (w : World O T) (o : O) (s : Storage T) (contents : Option T) : World O T :=
  { w.put o (s.newValue w.next contents) with
    next := w.next + 1
    events := w.events ++ [.constructed w.next] }

def newError (w : World O T) (o : O) (s : Storage T) (contents : Option ErrorCode) :
    World O T :=
  { w.put o (s.newError w.next contents) with
    next := w.next + 1
    events := w.events ++ [.constructed w.next] }

/-- `if (has_value) value.~value_type(); else error.~error_type();` -/
def destroyMember (w : World O T) (o : O) : Option (World O T) :=
  (w.object o).map fun s =>
    if s.has_value then
      (w.log (.destroyed s.value.object)).put o { s with value := s.value.clobber }
    else
      (w.log (.destroyed s.error.object)).put o { s with error := s.error.clobber }

/-- `has_value = other.has_value;` -/
def copyTag (w : World O T) (o other : O) : Option (World O T) :=
  (w.object o).bind fun s =>
    (w.object other).map fun r => w.put o { s with has_value := r.has_value }

/-- `if (has_value) new (&value) value_type(other.value);`
    `else new (&error) error_type(other.error);` -/
def copyMember (w : World O T) (o other : O) : Option (World O T) :=
  (w.object o).bind fun s =>
    (w.object other).map fun r =>
      if s.has_value then
        (w.log (.read r.value.object)).newValue o s r.value.contents
      else
        (w.log (.read r.error.object)).newError o s r.error.contents

/-- The same with `std::move(other.value)` and `std::move(other.error)`. -/
def moveMember (moved : T → T) (w : World O T) (o other : O) : Option (World O T) :=
  (w.object o).bind fun s =>
    (w.object other).map fun r =>
      if s.has_value then
        let left := { r with value := { r.value with contents := r.value.contents.map moved } }
        ((w.log (.read r.value.object)).put other left).newValue o s r.value.contents
      else
        (w.log (.read r.error.object)).newError o s r.error.contents

/-- A constructor is called for an object that does not exist. -/
def create (w : World O T) (o : O) (w' : Option (World O T)) : Option (World O T) :=
  if (w.object o).isSome then none else w'

/-- `result_storage(Args&&... args)` of the arguments that make `v`. -/
def value (w : World O T) (o : O) (v : T) : Option (World O T) :=
  w.create o (some (w.newValue o (.raw true) (some v)))

/-- `result_storage(error_type error)` -/
def error (w : World O T) (o : O) (e : ErrorCode) : Option (World O T) :=
  w.create o (some (w.newError o (.raw false) (some e)))

/-- `result_storage(const result_storage& other)` -/
def copyConstruct (w : World O T) (o other : O) : Option (World O T) :=
  w.create o ((w.object other).bind fun r => (w.put o (.raw r.has_value)).copyMember o other)

/-- `result_storage(result_storage&& other)` -/
def moveConstruct (moved : T → T) (w : World O T) (o other : O) : Option (World O T) :=
  w.create o
    ((w.object other).bind fun r => (w.put o (.raw r.has_value)).moveMember moved o other)

/-- `operator=(const result_storage& other)` -/
def copyAssign (w : World O T) (o other : O) : Option (World O T) :=
  (w.destroyMember o).bind fun w => (w.copyTag o other).bind fun w => w.copyMember o other

/-- `operator=(result_storage&& other)` -/
def moveAssign (moved : T → T) (w : World O T) (o other : O) : Option (World O T) :=
  (w.destroyMember o).bind fun w => (w.copyTag o other).bind fun w => w.moveMember moved o other

/-- `~result_storage()` -/
def destroy (w : World O T) (o : O) : Option (World O T) :=
  (w.destroyMember o).map fun w => { w with object := Function.update w.object o none }

def step (moved : T → T) (w : World O T) : Label O T → Option (World O T)
  | .value o v => w.value o v
  | .error o e => w.error o e
  | .copyConstruct o other => w.copyConstruct o other
  | .moveConstruct o other => w.moveConstruct moved o other
  | .copyAssign o other => w.copyAssign o other
  | .moveAssign o other => w.moveAssign moved o other
  | .destroy o => w.destroy o

def machine (moved : T → T) : Machine (World O T) (Label O T) := ⟨step moved⟩

end World

end Detail
end Ice
