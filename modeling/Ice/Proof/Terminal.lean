import Ice.Terminal
import Ice.Lib.Flags
import Ice.Lib.Lines
import Mathlib.Data.List.Induction
import Mathlib.Tactic.Common

/-!
# A format does not depend on the order of its operands

A format should have the styles that were named, in any order, and the last color. What each
`operator|` does is one equation for `is` and one for `color`; the rest is a run over the
operands.

The member that takes a color keeps the bits in the mask `0xF0`, and two of the six styles are
above it: `reverse` and `conceal`. So a color that comes third or later takes them away, unless
they are named again after it (`Keeps`). The free functions for the first two operands have no
mask.
-/

set_option autoImplicit false

namespace Ice
namespace Format

open Lib Operand

variable {format : Format} {ops : List Operand}

/-- The styles above the mask `0xF0`. -/
def high : Style → Bool
  | .reverse | .conceal => true
  | _ => false

/-! ## 1. One operand -/

theorem raised_word (s t : Style) : Flags.raised t.word s.word = (t == s && s != .none) := by
  cases s <;> cases t <;> decide

theorem raised_color (s : Style) (c : Color) : Flags.raised c.word s.word = false := by
  cases s <;> cases c <;> decide

theorem is_orStyle (s t : Style) :
    (format.orStyle t).is s = (format.is s || (t == s && s != .none)) := by
  rw [← raised_word]
  exact Flags.raised_or format.value_ t.word s.word

theorem is_orColor (s : Style) (c : Color) :
    (format.orColor c).is s = (format.is s && !high s) := by
  have hor : (format.orColor c).is s =
      (Flags.raised (format.value_ &&& 0xF0) s.word || Flags.raised c.word s.word) :=
    Flags.raised_or _ _ _
  have hmask : (0xF0 : BitVec 16) &&& s.word = if high s then 0 else s.word := by
    cases s <;> decide
  rw [hor, raised_color, Bool.or_false, Flags.raised_and, hmask]
  cases high s with
  | true => exact (Flags.raised_zero _).trans (Bool.and_false _).symm
  | false => exact (Bool.and_true _).symm

theorem color_orStyle (t : Style) : (format.orStyle t).color = format.color := by
  have ht : t.word &&& 0x0F = 0 := by cases t <;> decide
  unfold color orStyle
  rw [BitVec.and_or_distrib_right, ht]
  exact congrArg _ BitVec.or_zero

theorem color_orColor (c : Color) : (format.orColor c).color = c.value := by
  have hmask : (0xF0 : BitVec 16) &&& 0x0F = 0 := by decide
  unfold color orColor
  rw [BitVec.and_or_distrib_right, BitVec.and_assoc, hmask]
  have hc : (c.word &&& 0x0F).setWidth 8 = c.value := by cases c <;> decide
  exact (congrArg _ (by simp)).trans hc

/-! ## 2. The operands after the first two -/

section Rest

variable {s t : Style} {c : Color} {present : Prop} {rest : List Operand}

/-- A style in the mask stays. -/
theorem is_foldl_low (hs : s ≠ .none) (hlow : high s = false) :
    (rest.foldl or format).is s = true ↔ format.is s = true ∨ .style s ∈ rest := by
  induction rest generalizing format with
  | nil => simp
  | cons op rest ih =>
    rw [List.foldl_cons, ih]
    cases op with
    | color c => simp [or, is_orColor, hlow]
    | style t =>
      have ht : (.style s = Operand.style t) ↔ t = s := by
        rw [Operand.style.injEq]
        exact eq_comm
      rw [or, is_orStyle, List.mem_cons, ht]
      simp [hs, or_assoc]

/-- No color takes the style away: if it was there, it is named again after the color. -/
def KeptAfter (s : Style) (present : Prop) (rest : List Operand) : Prop :=
  ∀ before c after, rest = before ++ .color c :: after → present ∨ .style s ∈ before →
    .style s ∈ after

theorem keptAfter_concat_color :
    KeptAfter s present (rest ++ [.color c]) ↔ ¬ (present ∨ .style s ∈ rest) := by
  constructor
  · intro h hpresent
    exact absurd (h rest c [] rfl hpresent) List.not_mem_nil
  · intro hnot before c' after hsplit hpresent
    rcases concat_eq_split.mp hsplit with ⟨-, -, rfl⟩ | ⟨mid, -, rfl⟩
    · exact absurd hpresent hnot
    · exact absurd (hpresent.imp_right (List.mem_append_left _)) hnot

theorem keptAfter_concat_self : KeptAfter s present (rest ++ [.style s]) := by
  intro before c after hsplit _
  rcases concat_eq_split.mp hsplit with ⟨-, heq, -⟩ | ⟨mid, rfl, -⟩
  · cases heq
  · simp

theorem keptAfter_concat_style (ht : t ≠ s) :
    KeptAfter s present (rest ++ [.style t]) ↔ KeptAfter s present rest := by
  constructor
  · intro h before c after hsplit hpresent
    have hin := h before c (after ++ [.style t]) (by simp [hsplit]) hpresent
    simpa [ht.symm] using hin
  · intro h before c after hsplit hpresent
    rcases concat_eq_split.mp hsplit with ⟨-, heq, -⟩ | ⟨mid, rfl, hrest⟩
    · cases heq
    · exact List.mem_append_left _ (h before c mid hrest hpresent)

/-- A style above the mask is as it should be if and only if no color takes it away. -/
theorem is_foldl_high (hs : s ≠ .none) (hhigh : high s = true) :
    ((rest.foldl or format).is s = true ↔ format.is s = true ∨ .style s ∈ rest) ↔
      KeptAfter s (format.is s = true) rest := by
  induction rest using List.reverseRecOn with
  | nil => simp [KeptAfter]
  | append_singleton rest op ih =>
    rw [List.foldl_append, List.foldl_cons, List.foldl_nil]
    cases op with
    | color c =>
      rw [keptAfter_concat_color, or, is_orColor, hhigh]
      simp
    | style t =>
      rw [or, is_orStyle]
      by_cases ht : t = s
      · subst ht
        simp [keptAfter_concat_self, hs]
      · have hne : s ≠ t := Ne.symm ht
        rw [keptAfter_concat_style ht, ← ih]
        simp [ht, hne]

/-- The last color stays. -/
theorem color_foldl (ops : List Operand) (hcolor : format.color = (lastColor ops).value) :
    (rest.foldl or format).color = (lastColor (ops ++ rest)).value := by
  induction rest generalizing format ops with
  | nil => simpa using hcolor
  | cons op rest ih =>
    rw [List.foldl_cons, ← List.singleton_append, ← List.append_assoc]
    apply ih
    cases op with
    | color c =>
      rw [or, color_orColor]
      simp [lastColor, colors]
    | style t =>
      rw [or, color_orStyle, hcolor]
      simp [lastColor, colors]

end Rest

/-! ## 3. A format is its styles and its color -/

/-- The color and the six styles. -/
def masks : List (BitVec 16) :=
  0x0F :: [Style.bold, .dark, .underline, .blink, .reverse, .conceal].map Style.word

theorem within_style (s : Style) : Flags.Within (Flags.union masks) s.word := by
  cases s <;> rfl

theorem within_color (c : Color) : Flags.Within (Flags.union masks) c.word := by
  cases c <;> rfl

theorem within_or (h : Flags.Within (Flags.union masks) format.value_) (op : Operand) :
    Flags.Within (Flags.union masks) (format.or op).value_ := by
  cases op with
  | color c => exact (h.and 0xF0).or (within_color c)
  | style s => exact h.or (within_style s)

theorem within_foldl (h : Flags.Within (Flags.union masks) format.value_) (rest : List Operand) :
    Flags.Within (Flags.union masks) (rest.foldl or format).value_ := by
  induction rest generalizing format with
  | nil => exact h
  | cons op rest ih => exact ih (within_or h op)

/-- The color is less than a byte. -/
theorem color_word (format : Format) : format.color.setWidth 16 = format.value_ &&& 0x0F := by
  apply BitVec.eq_of_toNat_eq
  have hle : (format.value_ &&& 0x0F).toNat ≤ 15 := by
    rw [BitVec.toNat_and]
    exact Nat.and_le_right
  unfold color
  rw [BitVec.toNat_setWidth, BitVec.toNat_setWidth]
  omega

theorem eq_of_is_color {other : Format} (hformat : Flags.Within (Flags.union masks) format.value_)
    (hother : Flags.Within (Flags.union masks) other.value_)
    (his : ∀ s, format.is s = other.is s) (hcolor : format.color = other.color) :
    format = other := by
  obtain ⟨value⟩ := format
  obtain ⟨value'⟩ := other
  rw [Format.mk.injEq]
  have hstyle (s : Style) (i : ℕ) (hs : s.word = BitVec.twoPow 16 i) :
      value &&& s.word = value' &&& s.word := by
    have hraised : Flags.raised value s.word = Flags.raised value' s.word := his s
    rw [hs] at hraised ⊢
    exact Flags.and_twoPow_congr i hraised
  apply Flags.eq_of_cover hformat hother
  intro mask hmask
  rcases List.mem_cons.mp hmask with rfl | hmask
  · rw [← color_word ⟨value⟩, hcolor, color_word]
  · obtain ⟨s, hs, rfl⟩ := List.mem_map.mp hmask
    cases s with
    | none => simp at hs
    | bold => exact hstyle .bold 4 (by decide)
    | dark => exact hstyle .dark 5 (by decide)
    | underline => exact hstyle .underline 6 (by decide)
    | blink => exact hstyle .blink 7 (by decide)
    | reverse => exact hstyle .reverse 8 (by decide)
    | conceal => exact hstyle .conceal 9 (by decide)

/-! ## 4. What the operands say -/

/-- The format has the styles that were named, and the color that was named last. -/
structure Means (ops : List Operand) (format : Format) : Prop where
  is : ∀ s, format.is s = true ↔ .style s ∈ ops
  color : format.color = (lastColor ops).value

/-- `reverse` or `conceal` before a color that comes third or later is named again after it. -/
def Keeps (ops : List Operand) : Prop :=
  ∀ before c after, ops = before ++ .color c :: after → 2 ≤ before.length →
    ∀ s, high s = true → .style s ∈ before → .style s ∈ after

theorem is_none : format.is .none = false := Flags.raised_zero format.value_

/-! ## 5. The first two operands -/

/-- `static_cast<std::uint16_t>` of an operand. -/
def operandWord : Operand → BitVec 16
  | .color c => c.word
  | .style s => s.word

theorem raised_operand {op : Operand} (hop : op ≠ .style .none) (s : Style) :
    Flags.raised (operandWord op) s.word = true ↔ .style s = op := by
  cases op with
  | color c => simp [operandWord, raised_color]
  | style t =>
    have ht : t ≠ .none := fun htnone => hop (congrArg Operand.style htnone)
    rw [operandWord, raised_word, Bool.and_eq_true, beq_iff_eq, bne_iff_ne, Operand.style.injEq]
    constructor
    · intro h
      exact h.1.symm
    · intro h
      subst h
      exact ⟨rfl, ht⟩

theorem means_pair {a b : Operand} (ha : a ≠ .style .none) (hb : b ≠ .style .none)
    (hcolor : (⟨operandWord a ||| operandWord b⟩ : Format).color = (lastColor [a, b]).value) :
    Means [a, b] ⟨operandWord a ||| operandWord b⟩ := by
  refine ⟨fun s => ?_, hcolor⟩
  have his : (⟨operandWord a ||| operandWord b⟩ : Format).is s =
      (Flags.raised (operandWord a) s.word || Flags.raised (operandWord b) s.word) :=
    Flags.raised_or _ _ _
  rw [his, Bool.or_eq_true, raised_operand ha, raised_operand hb]
  simp

/-- What `join` makes of the operands: the first two mean what they say, and the members of
    `format` take the rest. -/
theorem join_eq (hnone : .style .none ∉ ops) (h : join ops = some format) :
    ∃ a b rest first, ops = a :: b :: rest ∧ format = rest.foldl or first ∧
      Means [a, b] first ∧ Flags.Within (Flags.union masks) first.value_ := by
  unfold join at h
  split at h
  · rename_i lhs rhs rest
    have hcolor : (ofColorStyle lhs rhs).color = lhs.value := by cases lhs <;> cases rhs <;> rfl
    refine ⟨_, _, rest, ofColorStyle lhs rhs, rfl, (Option.some.inj h).symm, ?_, ?_⟩
    · exact means_pair (by simp) (fun heq => hnone (by simp [heq])) hcolor
    · exact (within_color lhs).or (within_style rhs)
  · rename_i lhs rhs rest
    have hcolor : (ofStyleColor lhs rhs).color = rhs.value := by cases lhs <;> cases rhs <;> rfl
    refine ⟨_, _, rest, ofStyleColor lhs rhs, rfl, (Option.some.inj h).symm, ?_, ?_⟩
    · exact means_pair (fun heq => hnone (by simp [heq])) (by simp) hcolor
    · exact (within_style lhs).or (within_color rhs)
  · rename_i lhs rhs rest
    have hcolor : (ofStyleStyle lhs rhs).color = Color.none.value := by
      cases lhs <;> cases rhs <;> rfl
    refine ⟨_, _, rest, ofStyleStyle lhs rhs, rfl, (Option.some.inj h).symm, ?_, ?_⟩
    · exact means_pair (fun heq => hnone (by simp [heq])) (fun heq => hnone (by simp [heq]))
        hcolor
    · exact (within_style lhs).or (within_style rhs)
  · cases h

/-- Every sequence of two or more operands has a format, unless it begins with two colors. -/
theorem join_ne_none (hlen : 2 ≤ ops.length)
    (hcolors : ∀ c d rest, ops ≠ .color c :: .color d :: rest) :
    ∃ format, join ops = some format := by
  unfold join
  split
  · exact ⟨_, rfl⟩
  · exact ⟨_, rfl⟩
  · exact ⟨_, rfl⟩
  · rename_i hcs hsc hss
    match ops, hlen with
    | .color c :: .color d :: rest, _ => exact absurd rfl (hcolors c d rest)
    | .color c :: .style s :: rest, _ => exact absurd rfl (hcs c s rest)
    | .style s :: .color c :: rest, _ => exact absurd rfl (hsc s c rest)
    | .style s :: .style t :: rest, _ => exact absurd rfl (hss s t rest)

/-! ## 6. All operands -/

theorem keeps_iff {a b : Operand} {rest : List Operand} :
    Keeps (a :: b :: rest) ↔ ∀ s, high s = true → KeptAfter s (.style s ∈ [a, b]) rest := by
  constructor
  · intro h s hs before c after hsplit hin
    refine h (a :: b :: before) c after (by rw [hsplit]; rfl) (by simp) s hs ?_
    exact List.mem_append.mpr hin
  · intro h before c after hsplit hlen s hs hin
    match before, hlen with
    | x :: y :: before, _ =>
      simp only [List.cons_append, List.cons.injEq] at hsplit
      obtain ⟨rfl, rfl, hrest⟩ := hsplit
      exact h s hs before c after hrest (List.mem_append.mp hin)

theorem means_iff_keeps (hnone : .style .none ∉ ops) (h : join ops = some format) :
    Means ops format ↔ Keeps ops := by
  obtain ⟨a, b, rest, first, rfl, rfl, hfirst, -⟩ := join_eq hnone h
  have hpresent (s : Style) :
      (Operand.style s ∈ a :: b :: rest) ↔ first.is s = true ∨ .style s ∈ rest := by
    rw [hfirst.is]
    exact List.mem_append (s := [a, b])
  rw [keeps_iff]
  constructor
  · intro hmeans s hs
    have hs' : s ≠ .none := by
      rintro rfl
      cases hs
    have his := hmeans.is s
    rw [hpresent, is_foldl_high hs' hs, hfirst.is] at his
    exact his
  · intro hkept
    refine ⟨fun s => ?_, color_foldl [a, b] hfirst.color⟩
    by_cases hs : s = .none
    · subst hs
      simp [is_none, hnone]
    · rw [hpresent]
      cases hhigh : high s with
      | false => exact is_foldl_low hs hhigh
      | true =>
        rw [is_foldl_high hs hhigh, hfirst.is]
        exact hkept s hhigh

theorem lastColor_of_perm {ops' : List Operand} (hperm : ops'.Perm ops)
    (hone : (colors ops).length ≤ 1) : lastColor ops' = lastColor ops := by
  have hcolors : (colors ops').Perm (colors ops) := hperm.filterMap _
  have heq : colors ops' = colors ops := by
    match hc : colors ops, hone with
    | [], _ =>
      rw [hc] at hcolors
      exact hcolors.eq_nil
    | [c], _ =>
      rw [hc] at hcolors
      exact List.perm_singleton.mp hcolors
  rw [lastColor, heq, lastColor]

theorem within_join (hnone : .style .none ∉ ops) (h : join ops = some format) :
    Flags.Within (Flags.union masks) format.value_ := by
  obtain ⟨a, b, rest, first, -, rfl, -, hwithin⟩ := join_eq hnone h
  exact within_foldl hwithin rest

/-- **A format means what its operands say if and only if no color takes a style away**: the
    styles named are the styles it has, and its color is the last one. So an order that keeps
    its styles gives the same format as another with one color if and only if the other keeps
    them too. -/
theorem format_means_iff (ops : List Operand) (hlen : 2 ≤ ops.length)
    (hcolors : ∀ c d rest, ops ≠ .color c :: .color d :: rest) (hnone : .style .none ∉ ops) :
    ∃ format, join ops = some format ∧ (Means ops format ↔ Keeps ops) ∧
      ∀ ops' format', ops'.Perm ops → (colors ops).length ≤ 1 → join ops' = some format' →
        Keeps ops → (format' = format ↔ Keeps ops') := by
  obtain ⟨format, h⟩ := join_ne_none hlen hcolors
  refine ⟨format, h, means_iff_keeps hnone h, ?_⟩
  intro ops' format' hperm hone h' hkeeps
  have hmeans : Means ops format := (means_iff_keeps hnone h).mpr hkeeps
  have hnone' : .style .none ∉ ops' := fun hin => hnone (hperm.mem_iff.mp hin)
  have hlast := lastColor_of_perm hperm hone
  rw [← means_iff_keeps hnone' h']
  constructor
  · rintro rfl
    refine ⟨fun s => (hmeans.is s).trans hperm.mem_iff.symm, ?_⟩
    rw [hlast]
    exact hmeans.color
  · intro hmeans'
    refine eq_of_is_color (within_join hnone' h') (within_join hnone h) (fun s => ?_) ?_
    · rw [Bool.eq_iff_iff, hmeans'.is, hmeans.is]
      exact hperm.mem_iff
    · rw [hmeans'.color, hmeans.color, hlast]

/-- Two orders with the color in the first two places. -/
theorem format_means_iff_reverse :
    join [.style .reverse, .color .red, .style .bold] =
      join [.color .red, .style .bold, .style .reverse] := by
  obtain ⟨format, h, -, hsame⟩ := format_means_iff
    [.color .red, .style .bold, .style .reverse] (by decide) (by simp) (by decide)
  have hperm : [.style .reverse, .color .red, .style .bold].Perm
      [Operand.color .red, .style .bold, .style .reverse] := by decide
  rw [h]
  refine congrArg some ((hsame _ _ hperm (by decide) rfl ?_).mpr ?_)
  · intro before c after hsplit hlen
    rcases before with _ | ⟨a, _ | ⟨b, _ | ⟨d, before⟩⟩⟩ <;> simp at hsplit hlen
  · intro before c after hsplit hlen
    rcases before with _ | ⟨a, _ | ⟨b, _ | ⟨d, before⟩⟩⟩ <;> simp at hsplit hlen

/-- The color comes third, and takes `reverse` away. -/
theorem reverse_lost :
    (∃ format, join [.style .reverse, .style .bold, .color .red] = some format ∧
        ¬ Means [.style .reverse, .style .bold, .color .red] format) ∧
      join [.style .reverse, .style .bold, .color .red] ≠
        join [.color .red, .style .reverse, .style .bold] := by
  refine ⟨⟨_, rfl, ?_⟩, by decide⟩
  intro hmeans
  have hreverse := (hmeans.is .reverse).mpr (by decide)
  revert hreverse
  decide

end Format
end Ice
