import Ice.Net.Option

/-!
# What a socket option hands over

A size saturates at the greatest `int` and is handed over whole. A timeout does neither. Its
count is cast whatever the two comparisons before have stored, so that a count outside the
range of `l_linger` comes out saturated only where the cast happens to give that
(`Representable`). And no constructor of `linger` writes `size_`, nor does its assignment
copy it, so that it hands over no bytes at all.
-/

set_option autoImplicit false

namespace Ice
namespace Net

open Lib

variable {platform : Platform} {t : IntType} {count : ℤ}

/-! ## 1. Sizes -/

theorem int_max : int.max = 2147483647 := by decide

theorem getBool_ofBool (value : Bool) : (OptionValue.ofBool value).getBool = value := by
  cases value <;> rfl

theorem getSize_ofSize (value : UInt64) :
    (OptionValue.ofSize value).getSize.toNat = min value.toNat 2147483647 := by
  unfold OptionValue.getSize OptionValue.ofSize
  dsimp only
  rw [int_max]
  by_cases hover : (value.toNat : ℤ) > 2147483647
  · have hmin : min value.toNat 2147483647 = 2147483647 := by omega
    rw [if_pos hover, hmin]
    rfl
  · have hcast : int.cast value.toNat = value.toNat := by
      apply IntType.cast_of_inRange
      have hlow : int.min = -2147483648 := rfl
      unfold IntType.InRange
      rw [hlow, int_max]
      omega
    rw [if_neg hover, hcast]
    by_cases hpos : (value.toNat : ℤ) > 0
    · rw [if_pos hpos, Int.toNat_natCast, UInt64.ofNat_toNat]
      omega
    · have hzero : value.toNat = 0 := by omega
      rw [if_neg hpos, hzero]
      rfl

/-! ## 2. Timeouts -/

/-- The count if the type has it, 0 below the range and the greatest value above it. -/
def saturate (t : IntType) (count : ℤ) : ℤ :=
  if count < t.min then 0 else if count > t.max then t.max else count

/-- The type has the count, or the cast happens to saturate it. -/
def Representable (t : IntType) (count : ℤ) : Prop :=
  t.InRange count ∨ count < t.min ∧ (t.count : ℤ) ∣ count ∨
    count > t.max ∧ (t.count : ℤ) ∣ count - t.max

theorem cast_eq_saturate_iff (hzero : t.InRange 0) :
    t.cast count = saturate t count ↔ Representable t count := by
  obtain ⟨hmin, hmax⟩ := hzero
  by_cases hlow : count < t.min
  · rw [saturate, if_pos hlow, IntType.cast_eq_iff ⟨hmin, hmax⟩, Int.sub_zero]
    constructor
    · intro hdvd
      exact Or.inr (Or.inl ⟨hlow, hdvd⟩)
    · rintro (hin | hbelow | habove)
      · exact absurd hin.1 (Int.not_le.mpr hlow)
      · exact hbelow.2
      · exact absurd habove.1 (by omega)
  · by_cases hhigh : count > t.max
    · have hgreatest : t.InRange t.max := ⟨Int.le_trans hmin hmax, Int.le_refl _⟩
      rw [saturate, if_neg hlow, if_pos hhigh, IntType.cast_eq_iff hgreatest]
      constructor
      · intro hdvd
        exact Or.inr (Or.inr ⟨hhigh, hdvd⟩)
      · rintro (hin | hbelow | habove)
        · exact absurd hin.2 (Int.not_le.mpr hhigh)
        · exact absurd hbelow.1 hlow
        · exact habove.2
    · have hin : t.InRange count := ⟨Int.not_lt.mp hlow, Int.not_lt.mp hhigh⟩
      rw [saturate, if_neg hlow, if_neg hhigh]
      exact iff_of_true (IntType.cast_of_inRange hin) (Or.inl hin)

theorem zero_inRange (platform : Platform) : platform.l_linger.InRange 0 := by
  cases platform <;> exact ⟨by decide, by decide⟩

/-- Whatever the comparisons store, the cast of the count is what `get` returns. -/
theorem get_make (timeout : Option ℤ) :
    (Linger.make platform timeout).get = timeout.map platform.l_linger.cast := by
  cases timeout with
  | none => rfl
  | some count =>
    unfold Linger.make Linger.get
    dsimp only
    split <;> split <;> rfl

theorem get_make_iff (timeout : Option ℤ) :
    (Linger.make platform timeout).get = timeout.map (saturate platform.l_linger) ↔
      ∀ count ∈ timeout, Representable platform.l_linger count := by
  rw [get_make]
  cases timeout with
  | none => simp
  | some count => simp [cast_eq_saturate_iff (zero_inRange platform)]

/-! ## 3. The length -/

theorem size_make (timeout : Option ℤ) : (Linger.make platform timeout).size_ = 0 := by
  cases timeout with
  | none => rfl
  | some count =>
    unfold Linger.make
    dsimp only
    split <;> split <;> rfl

/-- The length of the value, or of a timeout 0. -/
def length (platform : Platform) : AnyOption → ℕ
  | .linger _ => 0
  | o => o.capacity platform

/-- An assignment copies everything, except that of a timeout `size_` stays. -/
theorem assign_cases {o other o' : AnyOption} (hs : o.assign other = some o') :
    o' = other ∨ ∃ l l', o = .linger l ∧ other = .linger l' ∧ o' = .linger (l.assign l') := by
  cases o with
  | flag cls v =>
    cases other with
    | flag cls' v' =>
      obtain ⟨hcls, heq⟩ := Option.ite_none_right_eq_some.mp hs
      rw [hcls] at heq
      exact Or.inl (Option.some.inj heq).symm
    | size cls' v' => cases hs
    | linger l' => cases hs
  | size cls v =>
    cases other with
    | flag cls' v' => cases hs
    | size cls' v' =>
      obtain ⟨hcls, heq⟩ := Option.ite_none_right_eq_some.mp hs
      rw [hcls] at heq
      exact Or.inl (Option.some.inj heq).symm
    | linger l' => cases hs
  | linger l =>
    cases other with
    | flag cls' v' => cases hs
    | size cls' v' => cases hs
    | linger l' => exact Or.inr ⟨l, l', rfl, rfl, (Option.some.inj hs).symm⟩

/-- What `size_` is, and stays when the object is copied. -/
theorem size_of_made {o : AnyOption} (h : Made platform o) : o.size_ = length platform o := by
  induction h with
  | flag cls value => rfl
  | size cls value => rfl
  | linger timeout => exact size_make timeout
  | @copy o _ ih =>
    cases o with
    | flag cls v => exact ih
    | size cls v => exact ih
    | linger l => rfl
  | assign _ _ hs ih ihother =>
    rcases assign_cases hs with rfl | ⟨l, l', rfl, rfl, rfl⟩
    · exact ihother
    · exact ih

theorem sizeof_data (o : AnyOption) : o.data.sizeof platform = o.capacity platform := by
  cases o <;> rfl

/-- `socket::set` and `socket::get` hand over the whole value, unless it is a timeout. -/
theorem whole_iff {o : AnyOption} (h : Made platform o) :
    o.size_ = o.capacity platform ↔ ∀ l, o ≠ .linger l := by
  rw [size_of_made h]
  cases o with
  | flag cls v => simp [length]
  | size cls v => simp [length]
  | linger l =>
    have hpos : platform.linger_size ≠ 0 := by cases platform <;> decide
    simp [length, AnyOption.capacity, hpos.symm]

/-- **Which options saturate and are handed over whole.** Flags and sizes do and are. A timeout
    comes back saturated if and only if its count is one that the cast saturates, and an object
    that holds a timeout is never handed over whole. -/
theorem options_transfer_iff (platform : Platform) :
    (∀ value, (OptionValue.ofBool value).getBool = value) ∧
      (∀ value, (OptionValue.ofSize value).getSize.toNat = min value.toNat 2147483647) ∧
      (∀ timeout,
        (Linger.make platform timeout).get = timeout.map (saturate platform.l_linger) ↔
          ∀ count ∈ timeout, Representable platform.l_linger count) ∧
      ∀ o, Made platform o →
        (o.size_ = o.capacity platform ↔ ∀ l, o ≠ .linger l) ∧
          ((o.passed platform).size = (o.passed platform).data.sizeof platform ↔
            ∀ l, o ≠ .linger l) := by
  refine ⟨getBool_ofBool, getSize_ofSize, get_make_iff, fun o h => ⟨whole_iff h, ?_⟩⟩
  have hsizeof : (o.passed platform).data.sizeof platform = o.capacity platform := sizeof_data o
  rw [hsizeof]
  exact whole_iff h

/-- A size that is too large, copied. -/
theorem options_transfer_iff_size :
    ∃ o, Made .windows o ∧ o = .size .recv_buffer_size ⟨2147483647, 4⟩ ∧
      (o.passed .windows).size = (o.passed .windows).data.sizeof .windows := by
  have h : Made .windows (AnyOption.size .recv_buffer_size (.ofSize 4294967296)).copy :=
    (Made.size .recv_buffer_size 4294967296).copy
  refine ⟨_, h, by decide, ((options_transfer_iff .windows).2.2.2 _ h).2.mpr ?_⟩
  intro l heq
  cases heq

/-- One second more than `l_linger` can hold, and no second at all. -/
theorem linger_wraps :
    (Linger.make .posix (some 2147483648)).get = some (-2147483648) ∧
      ¬ (Linger.make .posix (some 2147483648)).get =
        (some 2147483648).map (saturate Platform.posix.l_linger) ∧
      (AnyOption.linger (.make .posix none)).size_ = 0 ∧
      ¬ (AnyOption.linger (.make .posix none)).size_ =
        (AnyOption.linger (.make .posix none)).capacity .posix := by
  decide

end Net
end Ice
