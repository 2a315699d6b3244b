import Mathlib.Data.Int.Notation
import Mathlib.Tactic.Common

/-!
# Integer types of a fixed width

An integer type is a range of integers, and a cast to it takes an integer to the one of the
range that differs from it by a multiple of the range's length. So a value of the range is
what a cast gives if and only if it differs by such a multiple (`cast_eq_iff`), and in
particular a cast changes nothing in the range.
-/

set_option autoImplicit false

namespace Ice
namespace Lib

/-- The integers from `min` on, `count` of them. -/
structure IntType where
  min : ℤ
  count : ℕ
  pos : 0 < count

namespace IntType

variable {t : IntType} {x y : ℤ}

def max (t : IntType) : ℤ := t.min + t.count - 1

def InRange (t : IntType) (x : ℤ) : Prop := t.min ≤ x ∧ x ≤ t.max

/-- `static_cast` to the type. -/
def cast (t : IntType) (x : ℤ) : ℤ := t.min + (x - t.min) % t.count

theorem cast_inRange (t : IntType) (x : ℤ) : t.InRange (t.cast x) := by
  have hpos : (0 : ℤ) < t.count := Int.natCast_pos.mpr t.pos
  have hle := Int.emod_nonneg (x - t.min) (Int.ne_of_gt hpos)
  have hlt := Int.emod_lt_of_pos (x - t.min) hpos
  unfold InRange cast max
  omega

theorem dvd_sub_cast (t : IntType) (x : ℤ) : (t.count : ℤ) ∣ x - t.cast x := by
  have heq : x - t.cast x = x - t.min - (x - t.min) % t.count := by
    unfold cast
    omega
  rw [heq]
  exact Int.dvd_self_sub_emod

theorem eq_of_dvd_sub (hx : t.InRange x) (hy : t.InRange y) (h : (t.count : ℤ) ∣ x - y) :
    x = y := by
  unfold InRange max at hx hy
  have hlt : (x - y).natAbs < (t.count : ℤ).natAbs := by omega
  exact Int.sub_eq_zero.mp (Int.eq_zero_of_dvd_of_natAbs_lt_natAbs h hlt)

/-- A value of the type is what a cast gives if it differs by whole lengths of the range. -/
theorem cast_eq_iff (hy : t.InRange y) : t.cast x = y ↔ (t.count : ℤ) ∣ x - y := by
  constructor
  · rintro rfl
    exact t.dvd_sub_cast x
  · intro h
    refine eq_of_dvd_sub (t.cast_inRange x) hy ?_
    have hsum : t.cast x - y = (x - y) - (x - t.cast x) := by omega
    rw [hsum]
    exact Int.dvd_sub h (t.dvd_sub_cast x)

theorem cast_of_inRange (hx : t.InRange x) : t.cast x = x := by
  rw [cast_eq_iff hx, Int.sub_self]
  exact Int.dvd_zero _

end IntType

end Lib
end Ice
