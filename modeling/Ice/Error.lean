import Mathlib.Data.Nat.Notation

/-!
# `ice::errc`, `std::error_code` and `make_error_code`

`error.hpp`. An error code is a value and a category, and it is *set* when the value is not
zero; the category plays no part in that. `errno` is left at its old value by a call that
succeeds, and holds a positive number after a call that failed: `Errno` is what a failed
call leaves there.
-/

namespace Ice

/-- The systems whose branches the models follow. -/
inductive Os
  | linux
  | freebsd
  deriving DecidableEq

/-- What a failed call stores in `errno`. -/
structure Errno where
  value : ℕ
  pos : 0 < value
  deriving DecidableEq

def EINTR : Errno := ⟨4, by decide⟩

def EAGAIN : Os → Errno
  | .linux => ⟨11, by decide⟩
  | .freebsd => ⟨35, by decide⟩

inductive errc
  | eof
  | invalid_address
  | version_mismatch
  deriving DecidableEq

/-- The underlying value of the enumerator. -/
def errc.value : errc → Int
  | .eof => 1
  | .invalid_address => 2
  | .version_mismatch => 3

inductive Category
  -- `std::system_category()`
  | std
  | native
  | system
  | domain
  -- `ice::net::ssh::domain_category()`
  | ssh
  deriving DecidableEq

structure ErrorCode where
  value : Int
  category : Category
  deriving DecidableEq

namespace ErrorCode

/-- `std::error_code{}`, and what `ec.clear()` leaves. -/
def clear : ErrorCode := ⟨0, .std⟩

/-- `explicit operator bool`. -/
def isSet (ec : ErrorCode) : Bool := ec.value != 0

@[simp] theorem isSet_clear : clear.isSet = false := rfl

end ErrorCode

/-- `make_error_code` of an `ice::errc`. -/
def errc.make_error_code (ev : errc) : ErrorCode := ⟨ev.value, .domain⟩

/-- `make_error_code(errno)`. -/
def make_error_code (errno : ℕ) : ErrorCode := ⟨errno, .native⟩

@[simp] theorem isSet_make_error_code (errno : ℕ) :
    (make_error_code errno).isSet = decide (0 < errno) := by
  cases errno <;> rfl

@[simp] theorem errc.isSet_make_error_code (ev : errc) : ev.make_error_code.isSet = true := by
  cases ev <;> rfl

end Ice
