import Ice.Utility
import Ice.Lib.Lehmer
import Mathlib.Tactic.Common

/-!
# The generator and the texts of `xorstr`

The generator is meant to be the "minimal standard" one, `16807 * s` modulo `2 ^ 31 - 1`, in 32-bit
arithmetic without a division. The product is cut as it should be, but what is added to its low
part is `hi` and not `hi2`. So a step is the standard one exactly if the upper half of the state is
zero, which it is not for any seed. What `xorstr` needs is true all the same: no sum wraps, the
state is never zero, and the key changes every character.
-/

set_option autoImplicit false

namespace Ice
namespace XorstrImpl

open Lib

/-! ## 1. One step, in numbers -/

theorem toNat_lo (s : UInt32) : (lo s).toNat = 16807 * (s.toNat % 2 ^ 16) := by
  rw [lo, UInt32.toNat_mul, UInt32.toNat_and]
  have hmask : s.toNat &&& (0xFFFF : UInt32).toNat = s.toNat % 2 ^ 16 :=
    Nat.and_two_pow_sub_one_eq_mod s.toNat 16
  rw [hmask]
  have hlt := Nat.mod_lt s.toNat (Nat.two_pow_pos 16)
  exact Nat.mod_eq_of_lt (by rw [show a.toNat = 16807 from rfl]; omega)

theorem toNat_hi {s : UInt32} (hs : s.toNat < 2 ^ 31) :
    (hi s).toNat = 16807 * (s.toNat / 2 ^ 16) := by
  rw [hi, UInt32.toNat_mul, UInt32.toNat_shiftRight]
  have hshift : s.toNat >>> ((16 : UInt32).toNat % 32) = s.toNat / 2 ^ 16 :=
    Nat.shiftRight_eq_div_pow s.toNat 16
  rw [hshift]
  exact Nat.mod_eq_of_lt (by rw [show a.toNat = 16807 from rfl]; omega)

theorem toNat_hi2 (s : UInt32) : (hi2 s).toNat = (hi s).toNat / 2 ^ 15 := by
  rw [hi2, UInt32.toNat_shiftRight]
  exact Nat.shiftRight_eq_div_pow (hi s).toNat 15

theorem toNat_lo2 (s : UInt32) :
    (lo2 s).toNat = (lo s).toNat + (hi s).toNat % 2 ^ 15 * 2 ^ 16 := by
  have hmask : (hi s).toNat &&& (0x7FFF : UInt32).toNat = (hi s).toNat % 2 ^ 15 :=
    Nat.and_two_pow_sub_one_eq_mod (hi s).toNat 15
  have hshift : ((hi s &&& 0x7FFF) <<< 16).toNat = (hi s).toNat % 2 ^ 15 * 2 ^ 16 := by
    rw [UInt32.toNat_shiftLeft, UInt32.toNat_and, hmask]
    have hleft : ((hi s).toNat % 2 ^ 15) <<< ((16 : UInt32).toNat % 32) =
        (hi s).toNat % 2 ^ 15 * 2 ^ 16 := Nat.shiftLeft_eq _ 16
    rw [hleft]
    exact Nat.mod_eq_of_lt (by omega)
  rw [lo2, UInt32.toNat_add, hshift, toNat_lo]
  exact Nat.mod_eq_of_lt (by omega)

theorem toNat_lo3 {s : UInt32} (hs : s.toNat < 2 ^ 31) :
    (lo3 s).toNat = (lo2 s).toNat + (hi s).toNat := by
  rw [lo3, UInt32.toNat_add]
  refine Nat.mod_eq_of_lt ?_
  rw [toNat_lo2, toNat_lo, toNat_hi hs]
  omega

/-- The end of a step, which takes `m` off at most once. -/
def reduce (sum : UInt32) : UInt32 := if sum > m then sum - m else sum

theorem toNat_reduce (sum : UInt32) :
    (reduce sum).toNat = if m.toNat < sum.toNat then sum.toNat - m.toNat else sum.toNat := by
  by_cases h : m < sum
  · rw [reduce, if_pos h, if_pos (UInt32.lt_iff_toNat_lt.mp h),
      UInt32.toNat_sub_of_le _ _ (UInt32.le_of_lt h)]
  · rw [reduce, if_neg h, if_neg (mt UInt32.lt_iff_toNat_lt.mpr h)]

theorem value_eq (s : UInt32) : value s = reduce (lo3 s) := rfl

theorem reduce_modEq (sum : UInt32) : (reduce sum).toNat ≡ sum.toNat [MOD m.toNat] := by
  rw [toNat_reduce]
  split
  · rename_i h
    exact (Nat.mod_eq_sub_mod (Nat.le_of_lt h)).symm
  · rfl

/-- What the step was meant to be. -/
theorem lo2_add_hi2_modEq {s : UInt32} (hs : s.toNat < 2 ^ 31) :
    (lo2 s).toNat + (hi2 s).toNat ≡ a.toNat * s.toNat [MOD m.toNat] := by
  have h := Lehmer.halves_modEq 16807 s.toNat 15 16
  rw [toNat_lo2, toNat_hi2, toNat_lo, toNat_hi hs]
  exact h

/-- With `hi2` the end of the step gives the standard one. -/
theorem reduce_hi2 {s : UInt32} (hpos : 0 < s.toNat) (hs : s.toNat < m.toNat) :
    (reduce (lo2 s + hi2 s)).toNat = Lehmer.next a.toNat m.toNat s.toNat := by
  have hm : m.toNat = 2147483647 := rfl
  have hs' : s.toNat < 2 ^ 31 := by omega
  have hsum : (lo2 s + hi2 s).toNat = (lo2 s).toNat + (hi2 s).toNat := by
    rw [UInt32.toNat_add]
    refine Nat.mod_eq_of_lt ?_
    rw [toNat_lo2, toNat_hi2, toNat_lo, toNat_hi hs']
    omega
  have hmod : (reduce (lo2 s + hi2 s)).toNat ≡ a.toNat * s.toNat [MOD m.toNat] :=
    (reduce_modEq _).trans (hsum ▸ lo2_add_hi2_modEq hs')
  have hle : (reduce (lo2 s + hi2 s)).toNat ≤ m.toNat := by
    rw [toNat_reduce, hsum, toNat_lo2, toNat_hi2, toNat_lo, toNat_hi hs', hm]
    split <;> omega
  -- `m` itself stands for zero, which no product is congruent to.
  have hne : (reduce (lo2 s + hi2 s)).toNat ≠ m.toNat := by
    intro h
    rw [h] at hmod
    have hdvd : m.toNat ∣ a.toNat * s.toNat :=
      Nat.modEq_zero_iff_dvd.mp (hmod.symm.trans (Nat.modEq_zero_iff_dvd.mpr dvd_rfl))
    have hcoprime : Nat.Coprime m.toNat a.toNat := by decide
    have hfits := Nat.le_of_dvd hpos (hcoprime.dvd_of_dvd_mul_left hdvd)
    omega
  rw [Lehmer.next, ← hmod, Nat.mod_eq_of_lt (Nat.lt_of_le_of_ne hle hne)]

theorem value_range {s : UInt32} (hpos : 0 < s.toNat) (hs : s.toNat < 2 ^ 31) :
    0 < (value s).toNat ∧ (value s).toNat < 2 ^ 31 := by
  have hm : m.toNat = 2147483647 := rfl
  rw [value_eq, toNat_reduce, toNat_lo3 hs, toNat_lo2, toNat_lo, toNat_hi hs, hm]
  split <;> omega

/-- The high product is its own upper part only if it is zero. -/
theorem hi_modEq_hi2_iff {s : UInt32} (hs : s.toNat < 2 ^ 31) :
    (hi s).toNat ≡ (hi2 s).toNat [MOD m.toNat] ↔ s.toNat < 2 ^ 16 := by
  have hm : m.toNat = 2147483647 := rfl
  have hhi := toNat_hi hs
  have hhi2 := toNat_hi2 s
  constructor
  · intro h
    have heq := Nat.ModEq.eq_of_lt_of_lt h (by omega) (by omega)
    omega
  · intro h
    have heq : (hi s).toNat = (hi2 s).toNat := by omega
    rw [heq]

theorem value_modEq_iff {s : UInt32} (hs : s.toNat < 2 ^ 31) :
    (value s).toNat ≡ a.toNat * s.toNat [MOD m.toNat] ↔ s.toNat < 2 ^ 16 := by
  rw [← hi_modEq_hi2_iff hs]
  have hvalue : (value s).toNat ≡ (lo2 s).toNat + (hi s).toNat [MOD m.toNat] := by
    rw [← toNat_lo3 hs]
    exact reduce_modEq (lo3 s)
  constructor
  · intro h
    have hsum := hvalue.symm.trans (h.trans (lo2_add_hi2_modEq hs).symm)
    exact Nat.ModEq.add_left_cancel' _ hsum
  · intro h
    exact hvalue.trans ((Nat.ModEq.add_left _ h).trans (lo2_add_hi2_modEq hs))

/-- A step is the standard one exactly if the upper half of the state is zero. -/
theorem value_eq_next_iff {s : UInt32} (hpos : 0 < s.toNat) (hs : s.toNat < 2 ^ 31) :
    (value s).toNat = Lehmer.next a.toNat m.toNat s.toNat ↔ s.toNat < 2 ^ 16 := by
  have ha : a.toNat = 16807 := rfl
  have hm : m.toNat = 2147483647 := rfl
  constructor
  · intro h
    refine (value_modEq_iff hs).mp ?_
    rw [h]
    exact Nat.mod_modEq _ _
  · intro h
    have hlt : a.toNat * s.toNat < m.toNat := by
      rw [ha, hm]
      omega
    have hzero : s.toNat / 2 ^ 16 = 0 := Nat.div_eq_of_lt h
    rw [Lehmer.next, Nat.mod_eq_of_lt hlt, value_eq, toNat_reduce, toNat_lo3 hs, toNat_lo2,
      toNat_lo, toNat_hi hs, hzero, Nat.mod_eq_of_lt h, ha, hm]
    split <;> omega

/-! ## 2. All steps -/

/-- The seed is the second of the day, above the character codes. -/
theorem seed_eq (time : Time) :
    seed time = 48 * 40271 + (time.hour * 3600 + time.minute * 60 + time.second) := by
  simp only [seed, Time.char]
  omega

theorem seed_injective {time time' : Time} (h : seed time = seed time') : time = time' := by
  rw [seed_eq, seed_eq] at h
  obtain ⟨hour, minute, second⟩ := time
  obtain ⟨hour', minute', second'⟩ := time'
  dsimp only at h
  have hhour : hour = hour' := by omega
  have hminute : minute = minute' := by omega
  have hsecond : second = second' := by omega
  rw [hhour, hminute, hsecond]

theorem toNat_random_generator_zero (time : Time) :
    (random_generator time 0).toNat = seed time := by
  have hseed := seed_eq time
  exact Nat.mod_eq_of_lt (by omega)

theorem random_generator_range (time : Time) (N : ℕ) :
    0 < (random_generator time N).toNat ∧ (random_generator time N).toNat < 2 ^ 31 := by
  induction N with
  | zero =>
    have hseed := seed_eq time
    rw [toNat_random_generator_zero]
    omega
  | succ N ih => exact value_range ih.1 ih.2

/-- **The generator is not the one it is said to be.** From every build time and at every step its
    state is a positive number below `2 ^ 31` and neither sum wraps; with `hi2`, which is computed
    and not used, the step would be the standard one (of a state of the standard generator, which is
    below `m`); with `hi` it is that exactly for a state below `2 ^ 16`, and so never for the first
    step. Different times of the day start differently. -/
theorem random_generator_departs (time : Time) (N : ℕ) :
    let s := random_generator time N
    (0 < s.toNat ∧ s.toNat < 2 ^ 31) ∧
    (lo2 s).toNat = (lo s).toNat + (hi s).toNat % 2 ^ 15 * 2 ^ 16 ∧
    (lo3 s).toNat = (lo2 s).toNat + (hi s).toNat ∧
    (s.toNat < m.toNat →
      (reduce (lo2 s + hi2 s)).toNat = Lehmer.next a.toNat m.toNat s.toNat) ∧
    ((random_generator time (N + 1)).toNat = Lehmer.next a.toNat m.toNat s.toNat ↔
      s.toNat < 2 ^ 16) ∧
    (random_generator time 1).toNat ≠ Lehmer.next a.toNat m.toNat (random_generator time 0).toNat ∧
    ∀ time', random_generator time 0 = random_generator time' 0 ↔ time = time' := by
  intro s
  obtain ⟨hpos, hs⟩ := random_generator_range time N
  obtain ⟨hpos0, hs0⟩ := random_generator_range time 0
  have hseed := seed_eq time
  refine ⟨⟨hpos, hs⟩, toNat_lo2 s, toNat_lo3 hs, reduce_hi2 hpos, value_eq_next_iff hpos hs,
    fun h => ?_, fun time' => ⟨fun h => ?_, fun h => by rw [h]⟩⟩
  · have hlow := (value_eq_next_iff hpos0 hs0).mp h
    rw [toNat_random_generator_zero] at hlow
    omega
  · have hsame := congrArg UInt32.toNat h
    rw [toNat_random_generator_zero, toNat_random_generator_zero] at hsame
    exact seed_injective hsame

/-! ## 3. Texts -/

theorem random_char_range (time : Time) (K : ℕ) :
    0 < (random_char time K).toNat ∧ (random_char time K).toNat < 127 := by
  have hint : (random_int time K (0x7F - 1)).toNat = (random_generator time (K + 1)).toNat % 126 :=
    UInt32.toNat_mod _ _
  have hlt := Nat.mod_lt (random_generator time (K + 1)).toNat (show 0 < 126 by decide)
  have hsum : (1 + random_int time K (0x7F - 1)).toNat =
      1 + (random_generator time (K + 1)).toNat % 126 := by
    rw [UInt32.toNat_add, hint]
    exact Nat.mod_eq_of_lt (by rw [show (1 : UInt32).toNat = 1 from rfl]; omega)
  have hchar : (random_char time K).toNat = 1 + (random_generator time (K + 1)).toNat % 126 := by
    rw [random_char, UInt32.toNat_toUInt8, hsum]
    omega
  omega

namespace Str

variable {N : ℕ} {s : Str N}

/-- The loop of `decrypt` treats each element once. -/
theorem foldl_decryptAt {is : List (Fin N)} (hnodup : is.Nodup) (s : Str N) :
    (is.foldl decryptAt s).key_ = s.key_ ∧
      ∀ i, (is.foldl decryptAt s).encrypted_ i.castSucc =
        if i ∈ is then s.enc (s.encrypted_ i.castSucc) else s.encrypted_ i.castSucc := by
  induction is generalizing s with
  | nil => exact ⟨rfl, fun i => (if_neg List.not_mem_nil).symm⟩
  | cons j rest ih =>
    obtain ⟨hj, hrest⟩ := List.nodup_cons.mp hnodup
    obtain ⟨hkey, hall⟩ := ih hrest (s.decryptAt j)
    refine ⟨hkey, fun i => ?_⟩
    rw [List.foldl_cons, hall i]
    by_cases hij : i = j
    · subst hij
      rw [if_neg hj, if_pos List.mem_cons_self]
      exact Function.update_self _ _ _
    · have hsame : (s.decryptAt j).encrypted_ i.castSucc = s.encrypted_ i.castSucc :=
        Function.update_of_ne (fun h => hij (Fin.castSucc_injective N h)) _ _
      simp only [hsame, List.mem_cons, hij, false_or]
      rfl

/-- `decrypt` combines every character with the key once more, and ends the text. -/
theorem decrypt_eq (s : Str N) :
    s.decrypt = ⟨s.key_, Fin.snoc (α := fun _ => UInt8)
      (fun i => s.enc (s.encrypted_ i.castSucc)) 0⟩ := by
  obtain ⟨hkey, hall⟩ := foldl_decryptAt (List.nodup_finRange N) s
  unfold decrypt
  dsimp only
  rw [hkey]
  congr 1
  funext i
  induction i using Fin.lastCases with
  | last => simp
  | cast i =>
    rw [Function.update_of_ne (Fin.castSucc_ne_last i), hall i, Fin.snoc_castSucc,
      if_pos (List.mem_finRange i)]

end Str

theorem xor_xor_self (c key : UInt8) : c ^^^ key ^^^ key = c := by
  rw [UInt8.xor_assoc, UInt8.xor_self, UInt8.xor_zero]

theorem xor_ne_self {key : UInt8} (hkey : 0 < key.toNat) (c : UInt8) : c ^^^ key ≠ c := by
  intro h
  have hzero : key = 0 := by
    calc key = c ^^^ c ^^^ key := by rw [UInt8.xor_self, UInt8.zero_xor]
      _ = c ^^^ (c ^^^ key) := UInt8.xor_assoc c c key
      _ = 0 := by rw [h, UInt8.xor_self]
  rw [hzero] at hkey
  exact absurd hkey (Nat.lt_irrefl 0)

/-- **`xorstr` gives the text back.** For every build time, counter and text: no stored character is
    the one of the text, and the call of `decrypt` gives the text with a NUL behind it. Every second
    call in place hides it again. -/
theorem xorstr_text {N : ℕ} (time : Time) (K : ℕ) (str : Fin N → UInt8) :
    let s := Str.construct time K str
    (∀ i, s.encrypted_ i.castSucc ≠ str i) ∧
    s.decrypt.encrypted_ = Fin.snoc (α := fun _ => UInt8) str 0 ∧
    ∀ n, Str.decrypt^[n] s = if n % 2 = 0 then s else s.decrypt := by
  intro s
  have hstored : ∀ i, s.encrypted_ i.castSucc = str i ^^^ s.key_ :=
    fun i => Fin.snoc_castSucc (α := fun _ => UInt8) 0 (fun i => str i ^^^ s.key_) i
  have htext : s.decrypt = ⟨s.key_, Fin.snoc (α := fun _ => UInt8) str 0⟩ := by
    rw [Str.decrypt_eq]
    simp only [hstored, Str.enc, xor_xor_self]
  have hback : s.decrypt.decrypt = s := by
    rw [htext, Str.decrypt_eq]
    simp only [Fin.snoc_castSucc]
    rfl
  refine ⟨fun i => ?_, by rw [htext], fun n => ?_⟩
  · rw [hstored i]
    exact xor_ne_self (random_char_range time K).1 (str i)
  · induction n with
    | zero => rfl
    | succ n ih =>
      rw [Function.iterate_succ_apply', ih]
      by_cases heven : n % 2 = 0
      · rw [if_pos heven, if_neg (by omega)]
      · rw [if_neg heven, if_pos (by omega), hback]

end XorstrImpl
end Ice
