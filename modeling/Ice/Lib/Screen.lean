import Mathlib.Data.List.Basic
import Mathlib.Tactic.Common

/-!
# What a terminal shows

A terminal reads bytes. Those of a control sequence change the pen, and every other byte is
shown with the pen of that moment. Of the sequences only "select graphic rendition" is read
(`ESC [ p ; p ; ... m`); any other one is swallowed.

A program that writes colored text is right when the cells it leaves are the ones it meant:
`feed_append` goes through a stream piece by piece, and `feed_plain` is a piece of text.
-/

set_option autoImplicit false

namespace Ice
namespace Lib

/-- A foreground other than the default. -/
inductive Ink
  | indexed (i : ℕ)
  | rgb (r g b : ℕ)
  deriving DecidableEq

/-- What graphic rendition a byte is shown with. -/
structure Pen where
  foreground : Option Ink
  bold : Bool
  faint : Bool
  underline : Bool
  blink : Bool
  reverse : Bool
  conceal : Bool
  deriving DecidableEq

namespace Pen

def default : Pen := ⟨none, false, false, false, false, false, false⟩

/-- The parameters of one sequence, from left to right. -/
def select (pen : Pen) : List ℕ → Pen
  | [] => pen
  | 38 :: 2 :: r :: g :: b :: rest => select { pen with foreground := some (.rgb r g b) } rest
  | 0 :: rest => select default rest
  | 1 :: rest => select { pen with bold := true } rest
  | 2 :: rest => select { pen with faint := true } rest
  | 4 :: rest => select { pen with underline := true } rest
  | 5 :: rest => select { pen with blink := true } rest
  | 7 :: rest => select { pen with reverse := true } rest
  | 8 :: rest => select { pen with conceal := true } rest
  | n :: rest =>
    if 30 ≤ n ∧ n ≤ 37 then select { pen with foreground := some (.indexed (n - 30)) } rest
    else select pen rest

end Pen

/-- How far into a control sequence the terminal is. -/
inductive Mode
  | ground
  | escape
  -- the parameters that are complete, and the one that is being read
  | csi (done : List ℕ) (param : ℕ)
  deriving DecidableEq

structure Screen where
  mode : Mode
  pen : Pen
  cells : List (UInt8 × Pen)
  deriving DecidableEq

namespace Screen

/-- The byte that begins a control sequence. -/
def esc : UInt8 := 27

def blank : Screen := ⟨.ground, .default, []⟩

def put (s : Screen) (byte : UInt8) : Screen :=
  if byte = esc then { s with mode := .escape }
  else
    match s.mode with
    | .ground => { s with cells := s.cells ++ [(byte, s.pen)] }
    | .escape => { s with mode := if byte = 91 then .csi [] 0 else .ground }
    | .csi done param =>
      if 48 ≤ byte ∧ byte ≤ 57 then
        { s with mode := .csi done (10 * param + (byte.toNat - 48)) }
      else if byte = 59 then { s with mode := .csi (done ++ [param]) 0 }
      else if byte = 109 then { s with mode := .ground, pen := s.pen.select (done ++ [param]) }
      else { s with mode := .ground }

def feed (s : Screen) (bytes : List UInt8) : Screen := bytes.foldl put s

@[simp] theorem feed_nil (s : Screen) : s.feed [] = s := rfl

theorem feed_append (s : Screen) (bytes bytes' : List UInt8) :
    s.feed (bytes ++ bytes') = (s.feed bytes).feed bytes' :=
  List.foldl_append

/-- Text with the pen it is shown with. -/
def inked (pen : Pen) (bytes : List UInt8) : List (UInt8 × Pen) := bytes.map fun b => (b, pen)

theorem put_plain {byte : UInt8} (hbyte : byte ≠ esc) (pen : Pen) (cells : List (UInt8 × Pen)) :
    put ⟨.ground, pen, cells⟩ byte = ⟨.ground, pen, cells ++ [(byte, pen)]⟩ := by
  rw [put, if_neg hbyte]

theorem feed_plain {bytes : List UInt8} (hbytes : esc ∉ bytes) (pen : Pen)
    (cells : List (UInt8 × Pen)) :
    feed ⟨.ground, pen, cells⟩ bytes = ⟨.ground, pen, cells ++ inked pen bytes⟩ := by
  induction bytes generalizing cells with
  | nil => simp [inked]
  | cons byte rest ih =>
    rw [List.mem_cons, not_or] at hbytes
    obtain ⟨hbyte, hrest⟩ := hbytes
    calc feed ⟨.ground, pen, cells⟩ (byte :: rest)
        = feed (put ⟨.ground, pen, cells⟩ byte) rest := rfl
      _ = feed ⟨.ground, pen, cells ++ [(byte, pen)]⟩ rest := by rw [put_plain (Ne.symm hbyte)]
      _ = ⟨.ground, pen, cells ++ [(byte, pen)] ++ inked pen rest⟩ := ih hrest _
      _ = ⟨.ground, pen, cells ++ inked pen (byte :: rest)⟩ := by simp [inked]

@[simp] theorem map_fst_inked (pen : Pen) (bytes : List UInt8) :
    (inked pen bytes).map Prod.fst = bytes := by
  simp [inked, Function.comp_def]

end Screen

end Lib
end Ice
