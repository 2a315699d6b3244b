import Ice.Error
import Ice.Lib.Machine

/-!
# `ice::result` — a value or an error code

`result.hpp`. There are two implementations: `result<T>` over `detail::result_storage`, and
`result<void>`, a flag and an error code. Each is written as the operations of a result class
(`Result.Class`), as overload resolution picks them: the copy of a non-const lvalue is not always
the copy constructor, because the forwarding constructor of `result<T>` takes it where `T` can be
made from a `result<T>&`. The operations of `T` itself do what they are for: a copy is equal to
what was copied, and so is what was moved, which leaves `moved` behind.
-/

namespace Ice

open Lib

/-! ## 1. `detail::result_storage` -/

/-- The live member of the union, which `has_value` names. -/
inductive ResultStorage (T : Type*)
  | value (value : T)
  | error (error : ErrorCode)
  deriving DecidableEq

namespace ResultStorage

variable {T : Type*}

def has_value : ResultStorage T → Bool
  | .value _ => true
  | .error _ => false

/-- `result_storage(const result_storage& other)` -/
def copy : ResultStorage T → ResultStorage T
  | .value v => .value v
  | .error e => .error e

/-- `result_storage(result_storage&& other)`, and what is left in `other`. -/
def move (moved : T → T) : ResultStorage T → ResultStorage T × ResultStorage T
  | .value v => (.value v, .value (moved v))
  | .error e => (.error e, .error e)

/-- `operator=(const result_storage& other)` of another object: the old member is destroyed. -/
def copyAssign (_this other : ResultStorage T) : ResultStorage T := other.copy

/-- `operator=(result_storage&& other)` of another object. -/
def moveAssign (moved : T → T) (_this other : ResultStorage T) :
    ResultStorage T × ResultStorage T := other.move moved

end ResultStorage

/-! ## 2. `result<T>` -/

structure Result (T : Type*) where
  storage_ : ResultStorage T
  deriving DecidableEq

namespace Result

/-- What the overloads of `result<T>` depend on. -/
structure Traits (T : Type*) where
  -- `std::is_constructible_v<T, result<T>&>`, and what is constructed
  fromResult : Option (Result T → T)
  -- `T` is `std::error_code`
  isErrorType : Option (T → ErrorCode)
  moved : T → T

/-- `bool`: from a result by its `explicit operator bool`. -/
def Traits.bool : Traits Bool := ⟨some fun other => other.storage_.has_value, none, id⟩

/-- A class without a constructor that takes a result, such as `std::string`. -/
def Traits.plain {T : Type*} (moved : T → T) : Traits T := ⟨none, none, moved⟩

variable {T : Type*} (t : Traits T)

/-- `result(Args&&... args)` of the arguments that make `v`. -/
def emplace (v : T) : Result T := ⟨.value v⟩

/-- `result(error_type error)` -/
def fromError (error : ErrorCode) : Result T := ⟨.error error⟩

/-- `result(v)`. An error code is as good an argument for `result(error_type)`, which is no
    template and is preferred. -/
def construct (v : T) : Result T :=
  match t.isErrorType with
  | some f => fromError (f v)
  | none => emplace v

/-- `result(const result& other)` -/
def copyConst (other : Result T) : Result T := ⟨other.storage_.copy⟩

/-- `result(other)` of a non-const lvalue: `Args&&` is `result&`, a better match than
    `const result&`. -/
def copyLvalue (other : Result T) : Result T :=
  match t.fromResult with
  | some f => emplace (f other)
  | none => other.copyConst

/-- `result(result&& other)`, and what is left in `other`. -/
def moveConstruct (other : Result T) : Result T × Result T :=
  let (storage_, left) := other.storage_.move t.moved
  (⟨storage_⟩, ⟨left⟩)

def copyAssign (this other : Result T) : Result T := ⟨this.storage_.copyAssign other.storage_⟩

def moveAssign (this other : Result T) : Result T × Result T :=
  let (storage_, left) := this.storage_.moveAssign t.moved other.storage_
  (⟨storage_⟩, ⟨left⟩)

def has_value (r : Result T) : Bool := r.storage_.has_value

/-- `operator*`, where its assertion holds. -/
def value : Result T → Option T
  | ⟨.value v⟩ => some v
  | ⟨.error _⟩ => none

/-- `has_value() ? std::error_code{} : storage_.error` -/
def error : Result T → ErrorCode
  | ⟨.value _⟩ => .clear
  | ⟨.error e⟩ => e

end Result

/-! ## 3. `result<void>` -/

structure ResultVoid where
  has_value_ : Bool := true
  error_ : ErrorCode := .clear
  deriving DecidableEq

namespace ResultVoid

/-- `result()` -/
def construct : ResultVoid := {}

/-- `result(error_type error) noexcept : error_(error) {}` -/
def fromError (error : ErrorCode) : ResultVoid := { error_ := error }

def has_value (r : ResultVoid) : Bool := r.has_value_

/-- `operator*`, where its assertion holds. -/
def value (r : ResultVoid) : Option Unit := if r.has_value_ then some () else none

def error (r : ResultVoid) : ErrorCode := r.error_

end ResultVoid

/-! ## 4. Objects of a result class -/

namespace Result

/-- The operations of a result class `R` of values `T`. A move says what it leaves as well. -/
structure Class (R T : Type*) where
  construct : T → R
  emplace : T → R
  fromError : ErrorCode → R
  copyConst : R → R
  copyLvalue : R → R
  moveConstruct : R → R × R
  copyAssign : R → R → R
  moveAssign : R → R → R × R
  has_value : R → Bool
  value : R → Option T
  error : R → ErrorCode

/-- `result<T>` -/
def result {T : Type*} (t : Traits T) : Class (Result T) T where
  construct := construct t
  emplace := emplace
  fromError := fromError
  copyConst := copyConst
  copyLvalue := copyLvalue t
  moveConstruct := moveConstruct t
  copyAssign := copyAssign
  moveAssign := moveAssign t
  has_value := has_value
  value := value
  error := error

/-- `result<void>`, whose copies and moves are memberwise. -/
def void : Class ResultVoid Unit where
  construct _ := ResultVoid.construct
  emplace _ := ResultVoid.construct
  fromError := ResultVoid.fromError
  copyConst := id
  copyLvalue := id
  moveConstruct other := (other, other)
  copyAssign _ other := other
  moveAssign _ other := (other, other)
  has_value := ResultVoid.has_value
  value := ResultVoid.value
  error := ResultVoid.error

/-- One operation, on the object `o`. An assignment is between two objects. -/
inductive Label (O T : Type*)
  | construct (o : O) (v : T)
  | emplace (o : O) (v : T)
  | fromError (o : O) (e : ErrorCode)
  | copyConst (o other : O)
  | copyLvalue (o other : O)
  | moveConstruct (o other : O)
  | copyAssign (o other : O)
  | moveAssign (o other : O)
  deriving DecidableEq

section Objects

variable {O R T : Type*} [DecidableEq O] (M : Class R T)

/-- No object exists. -/
def init : O → Option R := fun _ => none

/-- A new object. -/
def create (s : O → Option R) (o : O) (r : R) : Option (O → Option R) :=
  if (s o).isSome then none else some (Function.update s o (some r))

def step (s : O → Option R) : Label O T → Option (O → Option R)
  | .construct o v => create s o (M.construct v)
  | .emplace o v => create s o (M.emplace v)
  | .fromError o e => create s o (M.fromError e)
  | .copyConst o other => (s other).bind fun r => create s o (M.copyConst r)
  | .copyLvalue o other => (s other).bind fun r => create s o (M.copyLvalue r)
  | .moveConstruct o other =>
    (s other).bind fun r =>
      create (Function.update s other (some (M.moveConstruct r).2)) o (M.moveConstruct r).1
  | .copyAssign o other =>
    (s o).bind fun this =>
      (s other).bind fun r =>
        if o = other then none else some (Function.update s o (some (M.copyAssign this r)))
  | .moveAssign o other =>
    (s o).bind fun this =>
      (s other).bind fun r =>
        if o = other then none
        else some (Function.update (Function.update s other (some (M.moveAssign this r).2)) o
          (some (M.moveAssign this r).1))

def machine : Machine (O → Option R) (Label O T) := ⟨step M⟩

end Objects

end Result

end Ice
