import Mathlib.Data.List.Range

/-!
# Byte storage addressed by offset

Raw storage that several record layouts overlay is a function from offsets to bytes. A
field is an offset and a length: `store` writes one, `load` reads one, and two fields that
do not overlap do not see each other's writes.
-/

set_option autoImplicit false

namespace Ice
namespace Lib

variable {β : Type*}

/-- `bytes` written at `offset`. -/
def store (s : ℕ → β) (offset : ℕ) (bytes : List β) : ℕ → β := fun i =>
  if offset ≤ i then bytes[i - offset]?.getD (s i) else s i

/-- The `n` bytes at `offset`. -/
def load (s : ℕ → β) (offset n : ℕ) : List β := (List.range n).map fun i => s (offset + i)

@[simp] theorem length_load {s : ℕ → β} {offset n : ℕ} : (load s offset n).length = n := by
  rw [load, List.length_map, List.length_range]

/-- What was stored is loaded. -/
theorem load_store {s : ℕ → β} {offset : ℕ} {bytes : List β} :
    load (store s offset bytes) offset bytes.length = bytes := by
  apply List.ext_getElem length_load
  intro i hi hb
  simp [load, store, hb]

/-- A load sees no store to other offsets. -/
theorem load_store_of_disjoint {s : ℕ → β} {offset at_ n : ℕ} {bytes : List β}
    (h : at_ + n ≤ offset ∨ offset + bytes.length ≤ at_) :
    load (store s offset bytes) at_ n = load s at_ n := by
  apply List.map_congr_left
  intro i hi
  have hi := List.mem_range.mp hi
  unfold store
  split
  · rw [List.getElem?_eq_none (by omega), Option.getD_none]
  · rfl

end Lib
end Ice
