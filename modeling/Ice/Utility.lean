import Mathlib.Data.Fin.Tuple.Basic
import Mathlib.Data.Nat.Notation
import Mathlib.Logic.Function.Basic

/-!
# `xorstr` — texts that are not stored as they are

`utility.hpp`. A text is stored with every character combined with a key, and `decrypt` turns it
back in place. The key is drawn by a generator whose seed is the time of the build; the counter
says how often it is stepped.
-/

set_option autoImplicit false

namespace Ice
namespace XorstrImpl

/-- What `__TIME__` says: hours, minutes, seconds. -/
structure Time where
  hour : Fin 24
  minute : Fin 60
  second : Fin 60
  deriving DecidableEq

/-- A character of `__TIME__`, `hh:mm:ss`. -/
def Time.char (time : Time) : Fin 8 → ℕ
  | 0 => 48 + time.hour / 10
  | 1 => 48 + time.hour % 10
  | 3 => 48 + time.minute / 10
  | 4 => 48 + time.minute % 10
  | 6 => 48 + time.second / 10
  | 7 => 48 + time.second % 10
  | _ => 58

def seed (time : Time) : ℕ :=
  time.char 7 + time.char 6 * 10 + time.char 4 * 60 + time.char 3 * 600 + time.char 1 * 3600 +
    time.char 0 * 36000

def a : UInt32 := 16807
def m : UInt32 := 2147483647

section

-- `random_generator<N - 1>::value`
variable (s : UInt32)

def lo : UInt32 := a * (s &&& 0xFFFF)

def hi : UInt32 := a * (s >>> 16)

def lo2 : UInt32 := lo s + ((hi s &&& 0x7FFF) <<< 16)

/-- Nothing reads it. -/
def hi2 : UInt32 := hi s >>> 15

def lo3 : UInt32 := lo2 s + hi s

/-- `random_generator<N>::value` -/
def value : UInt32 := if lo3 s > m then lo3 s - m else lo3 s

end

def random_generator (time : Time) : ℕ → UInt32
  | 0 => UInt32.ofNat (seed time)
  | N + 1 => value (random_generator time N)

def random_int (time : Time) (N : ℕ) (M : UInt32) : UInt32 := random_generator time (N + 1) % M

def random_char (time : Time) (N : ℕ) : UInt8 := (1 + random_int time N (0x7F - 1)).toUInt8

/-- `string<N, K>` -/
structure Str (N : ℕ) where
  key_ : UInt8
  encrypted_ : Fin (N + 1) → UInt8

variable {N : ℕ}

/-- `enc` and `dec`. -/
def Str.enc (s : Str N) (c : UInt8) : UInt8 := c ^^^ s.key_

/-- `string(const char* str, std::index_sequence<Is...>)`; the last element has no initializer. -/
def Str.construct (time : Time) (K : ℕ) (str : Fin N → UInt8) : Str N :=
  let key_ := random_char time K
  ⟨key_, Fin.snoc (α := fun _ => UInt8) (fun i => str i ^^^ key_) 0⟩

/-- One turn of the loop in `decrypt`. -/
def Str.decryptAt (s : Str N) (i : Fin N) : Str N :=
  { s with encrypted_ := Function.update s.encrypted_ i.castSucc (s.enc (s.encrypted_ i.castSucc)) }

/-- `decrypt` -/
def Str.decrypt (s : Str N) : Str N :=
  let s := (List.finRange N).foldl Str.decryptAt s
  { s with encrypted_ := Function.update s.encrypted_ (Fin.last N) 0 }

end XorstrImpl
end Ice
