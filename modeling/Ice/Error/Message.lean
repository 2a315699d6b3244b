import Mathlib.Data.List.Basic

/-!
# `native_category::format`

`error.cpp`. A message of the system becomes a phrase that fits into a sentence: what stands before
the first full stop, without blanks around it, in lower case as far as it is printable ASCII. Where
nothing is found the position is `npos`, and nothing is erased.
-/

set_option autoImplicit false

namespace Ice
namespace NativeCategory

/-- A character of `"\r\n "`. -/
def blank (c : UInt8) : Bool := c = 13 || c = 10 || c = 32

/-- `if (const auto pos = str.find_first_not_of("\r\n "); ...) { str.erase(0, pos); }` -/
def eraseFront (str : List UInt8) : List UInt8 :=
  match str.findIdx? fun c => !blank c with
  | some pos => str.drop pos
  | none => str

/-- `if (const auto pos = str.find('.'); ...) { str.erase(pos); }` -/
def eraseStop (str : List UInt8) : List UInt8 :=
  match str.findIdx? fun c => c = 46 with
  | some pos => str.take pos
  | none => str

/-- `str.find_last_not_of("\r\n ")` -/
def find_last_not_of (str : List UInt8) : Option ℕ :=
  (str.reverse.findIdx? fun c => !blank c).map fun i => str.length - 1 - i

/-- `if (const auto pos = ...; ...) { str.erase(pos + 1); }` -/
def eraseBack (str : List UInt8) : List UInt8 :=
  match find_last_not_of str with
  | some pos => str.take (pos + 1)
  | none => str

/-- `std::tolower` of the "C" locale. -/
def tolower (c : UInt8) : UInt8 := if 65 ≤ c ∧ c ≤ 90 then c + 32 else c

/-- `std::transform`, with the flag of its function. -/
def transform : Bool → List UInt8 → List UInt8
  | _, [] => []
  | ascii, c :: str =>
    if ascii = true ∧ 32 ≤ c ∧ c ≤ 126 then tolower c :: transform ascii str
    else c :: transform false str

def format (str : List UInt8) : List UInt8 :=
  transform true (eraseBack (eraseStop (eraseFront str)))

end NativeCategory
end Ice
