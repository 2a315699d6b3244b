import Mathlib.Data.List.Basic

/-!
# `ice::format` — a color and styles in one word

`terminal.hpp`. The low four bits of the word are the color, and each style is a bit above
them. Formats are written `color::red | style::bold | ...`: the first two operands meet in
one of three free functions, which give a `format`, and every further one in a member of
`format`.
-/

namespace Ice

inductive Color
  | none
  | grey
  | red
  | green
  | yellow
  | blue
  | magenta
  | cyan
  | white
  deriving DecidableEq

namespace Color

/-- `enum class color : std::uint8_t` -/
def value : Color → BitVec 8
  | none => 0
  | grey => 1
  | red => 2
  | green => 3
  | yellow => 4
  | blue => 5
  | magenta => 6
  | cyan => 7
  | white => 8

/-- `static_cast<std::uint16_t>(color)` -/
def word (color : Color) : BitVec 16 := color.value.setWidth 16

end Color

inductive Style
  | none
  | bold
  | dark
  | underline
  | blink
  | reverse
  | conceal
  deriving DecidableEq

/-- `enum class style : std::uint16_t` -/
def Style.word : Style → BitVec 16
  | none => 0x0
  | bold => 0x1 <<< 4
  | dark => 0x2 <<< 4
  | underline => 0x4 <<< 4
  | blink => 0x8 <<< 4
  | reverse => 0x10 <<< 4
  | conceal => 0x20 <<< 4

structure Format where
  value_ : BitVec 16
  deriving DecidableEq

/-- An operand of `operator|`. -/
inductive Operand
  | color (color : Color)
  | style (style : Style)
  deriving DecidableEq

namespace Operand

/-- The colors among the operands. -/
def colors (ops : List Operand) : List Color :=
  ops.filterMap fun
    | .color c => some c
    | .style _ => none

/-- The color that was named last, or `color::none`. -/
def lastColor (ops : List Operand) : Color := (colors ops).getLast?.getD .none

end Operand

namespace Format

/-- `format& operator|(color color)` -/
def orColor (format : Format) (color : Color) : Format := ⟨(format.value_ &&& 0xF0) ||| color.word⟩

/-- `format& operator|(style style)` -/
def orStyle (format : Format) (style : Style) : Format := ⟨format.value_ ||| style.word⟩

/-- The member of `format` for the next operand. -/
def or (format : Format) : Operand → Format
  | .color c => format.orColor c
  | .style s => format.orStyle s

/-- `static_cast<ice::color>(value_ & 0x0F)`, which need not be an enumerator. -/
def color (format : Format) : BitVec 8 := (format.value_ &&& 0x0F).setWidth 8

def is (format : Format) (style : Style) : Bool := format.value_ &&& style.word != 0

/-- `format operator|(color lhs, style rhs)` -/
def ofColorStyle (lhs : Color) (rhs : Style) : Format := ⟨lhs.word ||| rhs.word⟩

/-- `format operator|(style lhs, color rhs)` -/
def ofStyleColor (lhs : Style) (rhs : Color) : Format := ⟨lhs.word ||| rhs.word⟩

/-- `format operator|(style lhs, style rhs)` -/
def ofStyleStyle (lhs rhs : Style) : Format := ⟨lhs.word ||| rhs.word⟩

/-- The operands joined with `operator|` from left to right. A single operand is joined with
    nothing, and there is no `operator|` for two colors. -/
def join : List Operand → Option Format
  | .color lhs :: .style rhs :: rest => some (rest.foldl or (ofColorStyle lhs rhs))
  | .style lhs :: .color rhs :: rest => some (rest.foldl or (ofStyleColor lhs rhs))
  | .style lhs :: .style rhs :: rest => some (rest.foldl or (ofStyleStyle lhs rhs))
  | _ => none

end Format

end Ice
