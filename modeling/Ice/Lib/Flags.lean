import Mathlib.Tactic.Common

/-!
# Flags in a word

A mask names some bits of a word, and a flag is raised when one of them is set. `or` raises,
`and` with a mask clears. A word that has no bits outside a union of masks is known once what
it has under each of the masks is (`eq_of_cover`); and under a mask of one bit that is
whether the flag is raised.
-/

set_option autoImplicit false

namespace Ice
namespace Lib
namespace Flags

variable {w : ℕ} {x y mask : BitVec w} {masks : List (BitVec w)}

/-- Some bit of the mask is set. -/
def raised (x mask : BitVec w) : Bool := x &&& mask != 0#w

theorem raised_or (x y mask : BitVec w) :
    raised (x ||| y) mask = (raised x mask || raised y mask) := by
  rw [Bool.eq_iff_iff, Bool.or_eq_true]
  simp only [raised, bne_iff_ne, BitVec.and_or_distrib_right, ne_eq, BitVec.or_eq_zero_iff]
  exact Classical.not_and_iff_not_or_not

/-- What is left of a word has the flags that the rest of the mask has. -/
theorem raised_and (x kept mask : BitVec w) :
    raised (x &&& kept) mask = raised x (kept &&& mask) := by
  rw [raised, raised, BitVec.and_assoc]

theorem raised_zero (x : BitVec w) : raised x 0#w = false := by
  simp [raised]

/-- One bit is set or it is not. -/
theorem and_twoPow_congr (i : ℕ)
    (h : raised x (BitVec.twoPow w i) = raised y (BitVec.twoPow w i)) :
    x &&& BitVec.twoPow w i = y &&& BitVec.twoPow w i := by
  simp only [raised, BitVec.and_twoPow] at h ⊢
  cases hx : x.getLsbD i <;> cases hy : y.getLsbD i <;> simp_all

/-- No bit of the word is outside the mask. -/
def Within (mask x : BitVec w) : Prop := x &&& mask = x

theorem Within.or (hx : Within mask x) (hy : Within mask y) : Within mask (x ||| y) := by
  rw [Within, BitVec.and_or_distrib_right, hx, hy]

theorem Within.and (hx : Within mask x) (kept : BitVec w) : Within mask (x &&& kept) := by
  rw [Within, BitVec.and_assoc, BitVec.and_comm kept, ← BitVec.and_assoc, hx]

/-- All bits of these masks. -/
def union (masks : List (BitVec w)) : BitVec w := masks.foldr (· ||| ·) 0#w

theorem and_union_congr (h : ∀ mask ∈ masks, x &&& mask = y &&& mask) :
    x &&& union masks = y &&& union masks := by
  induction masks with
  | nil => simp [union]
  | cons mask rest ih =>
    have hrest := ih fun m hm => h m (List.mem_cons_of_mem mask hm)
    rw [union, List.foldr_cons, BitVec.and_or_distrib_left, BitVec.and_or_distrib_left,
      h mask List.mem_cons_self]
    exact congrArg _ hrest

/-- Two words within a union of masks are equal if they are under each of them. -/
theorem eq_of_cover (hx : Within (union masks) x) (hy : Within (union masks) y)
    (h : ∀ mask ∈ masks, x &&& mask = y &&& mask) : x = y := by
  rw [← hx, ← hy]
  exact and_union_congr h

end Flags
end Lib
end Ice
