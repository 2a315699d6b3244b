import Ice.Lib.Custody

/-!
# `ice::handle` — a value, an invalid value, and what closes the others

`handle.hpp`. A handle holds a value of any type, and one value of the type is the invalid one.
The operations are written over *slots*: an object, or the temporary that the move assignment
makes. A slot without a value is an object that does not exist. The events say which raw values
were taken over, which `release` gave out, and which `C` was invoked on.
-/

namespace Ice

open Lib

structure Handles (S V : Type*) where
  -- `value_`
  value_ : S → Option V
  events : List (Custody V)

namespace Handles

variable {S O V : Type*}

/-- What happens to a raw value, unless it is the invalid one. -/
def note [DecidableEq V] (s : Handles S V) (invalid v : V) (e : Custody V) : Handles S V :=
  if v ≠ invalid then { s with events := s.events ++ [e] } else s

section Slots

variable [DecidableEq S] [DecidableEq V] (invalid : V) (s : Handles S V)

def set (a : S) (v : Option V) : Handles S V :=
  { s with value_ := Function.update s.value_ a v }

/-- `value()` -/
def value (a : S) : V := (s.value_ a).getD invalid

/-- `handle(V value)`, and `handle()` with the invalid value. -/
def construct (a : S) (v : V) : Handles S V := (s.note invalid v (.acquired v)).set a (some v)

/-- `release()`, which returns `value()`. -/
def release (a : S) : Handles S V := s.set a (some invalid)

/-- `handle(handle&& other)` -/
def moveConstruct (a other : S) : Handles S V :=
  (s.release invalid other).set a (some (s.value invalid other))

def swap (a other : S) : Handles S V :=
  (s.set other (some (s.value invalid a))).set a (some (s.value invalid other))

/-- `if (valid()) { C{}(*this); }`, and the new value. -/
def reset (a : S) (v : V) : Handles S V :=
  ((s.note invalid (s.value invalid a) (.closed (s.value invalid a))).note invalid v
    (.acquired v)).set a (some v)

/-- `~handle()` -/
def destroy (a : S) : Handles S V := (s.reset invalid a invalid).set a none

end Slots

section Objects

variable [DecidableEq O] [DecidableEq V] (invalid : V)

/-- `handle(std::move(other)).swap(*this);` where `none` is the temporary. -/
def moveAssign (s : Handles (Option O) V) (o other : O) : Handles (Option O) V :=
  ((s.moveConstruct invalid none (some other)).swap invalid none (some o)).destroy invalid none

inductive Label (O V : Type*)
  | construct (o : O)
  | constructFrom (o : O) (v : V)
  | moveConstruct (o other : O)
  | moveAssign (o other : O)
  | swap (o other : O)
  | release (o : O)
  | reset (o : O)
  | resetTo (o : O) (v : V)
  | destroy (o : O)
  deriving DecidableEq

def init : Handles (Option O) V := ⟨fun _ => none, []⟩

/-- The object exists. -/
def exists_ (s : Handles (Option O) V) (o : O) : Bool := (s.value_ (some o)).isSome

def step (s : Handles (Option O) V) : Label O V → Option (Handles (Option O) V)
  | .construct o => if s.exists_ o then none else some (s.construct invalid (some o) invalid)
  | .constructFrom o v => if s.exists_ o then none else some (s.construct invalid (some o) v)
  | .moveConstruct o other =>
    if s.exists_ o = false ∧ s.exists_ other = true then
      some (s.moveConstruct invalid (some o) (some other))
    else none
  | .moveAssign o other =>
    if s.exists_ o = true ∧ s.exists_ other = true then some (s.moveAssign invalid o other)
    else none
  | .swap o other =>
    if s.exists_ o = true ∧ s.exists_ other = true then
      some (s.swap invalid (some o) (some other))
    else none
  | .release o =>
    if s.exists_ o then
      let v := s.value invalid (some o)
      some ((s.note invalid v (.released v)).release invalid (some o))
    else none
  | .reset o => if s.exists_ o then some (s.reset invalid (some o) invalid) else none
  | .resetTo o v => if s.exists_ o then some (s.reset invalid (some o) v) else none
  | .destroy o => if s.exists_ o then some (s.destroy invalid (some o)) else none

def machine : Machine (Handles (Option O) V) (Label O V) := ⟨step invalid⟩

end Objects

end Handles

end Ice
