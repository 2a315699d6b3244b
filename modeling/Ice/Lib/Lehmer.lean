import Mathlib.Data.Nat.ModEq
import Mathlib.Tactic.Ring

/-!
# Multiplicative generators modulo `2 ^ k - 1`

A generator multiplies its state and takes the product modulo `m = 2 ^ k - 1`. That needs no
division, since `2 ^ k` counts as `1`: what is above the low `k` bits is added to them. The
product need not fit a word either. The multiplier is applied to the two halves of the state, and
the upper product is cut where its bits reach `2 ^ k` (`halves_modEq`).
-/

set_option autoImplicit false

namespace Ice
namespace Lib
namespace Lehmer

/-- The step of the generator. -/
def next (a m s : ℕ) : ℕ := a * s % m

theorem two_pow_modEq_one (k : ℕ) : 2 ^ k ≡ 1 [MOD 2 ^ k - 1] := by
  have hpow : 2 ^ k - 1 + 1 = 2 ^ k := Nat.sub_add_cancel Nat.one_le_two_pow
  have h : 2 ^ k - 1 + 1 ≡ 0 + 1 [MOD 2 ^ k - 1] :=
    Nat.ModEq.add_right 1 (Nat.modEq_zero_iff_dvd.mpr dvd_rfl)
  rwa [hpow, Nat.zero_add] at h

/-- The low and the high half of the state are `j` bits apart, and the high product is cut above
    its low `i` bits. -/
theorem halves_modEq (a s i j : ℕ) :
    a * (s % 2 ^ j) + a * (s / 2 ^ j) % 2 ^ i * 2 ^ j + a * (s / 2 ^ j) / 2 ^ i ≡
      a * s [MOD 2 ^ (i + j) - 1] := by
  have hcut : a * (s / 2 ^ j) % 2 ^ i * 2 ^ j + a * (s / 2 ^ j) / 2 ^ i ≡
      a * (s / 2 ^ j) * 2 ^ j [MOD 2 ^ (i + j) - 1] := by
    generalize a * (s / 2 ^ j) = high
    calc high % 2 ^ i * 2 ^ j + high / 2 ^ i
        = high % 2 ^ i * 2 ^ j + 1 * (high / 2 ^ i) := by rw [Nat.one_mul]
      _ ≡ high % 2 ^ i * 2 ^ j + 2 ^ (i + j) * (high / 2 ^ i) [MOD 2 ^ (i + j) - 1] :=
          Nat.ModEq.add_left _ (Nat.ModEq.mul_right _ (two_pow_modEq_one _).symm)
      _ = (high % 2 ^ i + 2 ^ i * (high / 2 ^ i)) * 2 ^ j := by
          rw [Nat.pow_add]
          ring
      _ = high * 2 ^ j := by rw [Nat.mod_add_div]
  calc a * (s % 2 ^ j) + a * (s / 2 ^ j) % 2 ^ i * 2 ^ j + a * (s / 2 ^ j) / 2 ^ i
      = a * (s % 2 ^ j) + (a * (s / 2 ^ j) % 2 ^ i * 2 ^ j + a * (s / 2 ^ j) / 2 ^ i) :=
        Nat.add_assoc _ _ _
    _ ≡ a * (s % 2 ^ j) + a * (s / 2 ^ j) * 2 ^ j [MOD 2 ^ (i + j) - 1] :=
        Nat.ModEq.add_left _ hcut
    _ = a * (s % 2 ^ j + 2 ^ j * (s / 2 ^ j)) := by ring
    _ = a * s := by rw [Nat.mod_add_div]

end Lehmer
end Lib
end Ice
