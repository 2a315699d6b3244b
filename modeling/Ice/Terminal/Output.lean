import Ice.Terminal
import Ice.Lib.Screen

/-!
# `ice::terminal` — what is written for a format (POSIX)

`terminal.cpp` and `terminal::manager` of `terminal.hpp`. Whether `stdout` and `stderr` are
terminals is asked once, when the program starts. What is written is the sequence of the bytes
with the stream that each was put on, in the order of the program.

stdio's buffers are not modelled. On one stream the bytes arrive in this order, wherever it leads.
On two streams that lead to one terminal they do so from line to line, for there each newline hands
over what was buffered. Elsewhere `stdout` is handed over when its buffer is full or the program
ends, and `stderr` at once: of two streams that lead to one file `written` is not the contents.
-/

set_option autoImplicit false

namespace Ice

/-- A `FILE*`: the two that the library knows, or any other pointer. -/
inductive FILE
  | stdout
  | stderr
  | other (n : ℕ)
  deriving DecidableEq

/-- The bytes of a literal. -/
def ascii (text : String) : List UInt8 := text.toList.map fun c => UInt8.ofNat c.toNat

/-- `terminal_manager` -/
structure Tty where
  stdout_is_tty_ : Bool
  stderr_is_tty_ : Bool

def Tty.is_tty (tty : Tty) : FILE → Bool
  | .stdout => tty.stdout_is_tty_
  | .stderr => tty.stderr_is_tty_
  | .other _ => false

structure Console where
  tty : Tty
  written : List (FILE × UInt8)

namespace Console

/-- Bytes that are put on a stream as they are. -/
def write (c : Console) (stream : FILE) (bytes : List UInt8) : Console :=
  { c with written := c.written ++ bytes.map fun b => (stream, b) }

/-- `std::fputs` of a pointer to these bytes and a NUL. -/
def fputs (c : Console) (bytes : List UInt8) (stream : FILE) : Console :=
  c.write stream (bytes.takeWhile (· ≠ 0))

/-- What was put on one stream. -/
def on (c : Console) (stream : FILE) : List UInt8 :=
  (c.written.filter fun w => w.1 = stream).map Prod.snd

end Console

namespace Format

/-- `explicit operator bool` -/
def isSet (format : Format) : Bool := format.value_ != 0

/-- `format(color)` -/
def ofColor (color : Color) : Format := ⟨color.word⟩

/-- `format{}` -/
def empty : Format := ⟨0⟩

/-- The sequence of each color that has one. -/
def colorText (color : BitVec 8) : Option (List UInt8) :=
  if color = Color.grey.value then some (ascii "\x1b[38;2;130;130;130m")
  else if color = Color.red.value then some (ascii "\x1b[31m")
  else if color = Color.green.value then some (ascii "\x1b[32m")
  else if color = Color.yellow.value then some (ascii "\x1b[33m")
  else if color = Color.blue.value then some (ascii "\x1b[34m")
  else if color = Color.magenta.value then some (ascii "\x1b[35m")
  else if color = Color.cyan.value then some (ascii "\x1b[36m")
  else if color = Color.white.value then some (ascii "\x1b[37m")
  else none

end Format

namespace Console

/-- One `if (format.is(style))` of `terminal_manager::set`. -/
def setStyle (c : Console) (stream : FILE) (format : Format) (style : Style)
    (text : List UInt8) : Console :=
  if format.is style then c.fputs text stream else c

/-- `terminal_manager::set` -/
def set (c : Console) (stream : FILE) (format : Format) : Console :=
  if !format.isSet || !c.tty.is_tty stream then c
  else
    let c := match Format.colorText format.color with
      | some text => c.fputs text stream
      | none => c
    let c := c.setStyle stream format .bold (ascii "\x1b[1m")
    let c := c.setStyle stream format .dark (ascii "\x1b[2m")
    let c := c.setStyle stream format .underline (ascii "\x1b[4m")
    let c := c.setStyle stream format .blink (ascii "\x1b[5m")
    let c := c.setStyle stream format .reverse (ascii "\x1b[7m")
    c.setStyle stream format .conceal (ascii "\x1b[8m")

/-- `terminal_manager::reset` -/
def reset (c : Console) (stream : FILE) : Console :=
  if !c.tty.is_tty stream then c else c.fputs (ascii "\x1b[00m") stream

end Console

/-- `terminal::manager`, with the console it writes to. -/
structure Manager where
  stream_ : FILE
  reset_ : Bool
  console : Console

namespace Manager

def reset (m : Manager) : Manager :=
  if m.reset_ then { m with console := m.console.reset m.stream_, reset_ := false } else m

def set (m : Manager) (format : Format) : Manager :=
  let m := m.reset
  if format.isSet then { m with console := m.console.set m.stream_ format, reset_ := true } else m

/-- `manager(FILE* stream, format format)` -/
def construct (c : Console) (stream : FILE) (format : Format) : Manager :=
  set ⟨stream, false, c⟩ format

/-- `~manager()`, which leaves the console. -/
def destroy (m : Manager) : Console := m.reset.console

/-- The program writes to the manager's stream itself. -/
def fputs (m : Manager) (bytes : List UInt8) : Manager :=
  { m with console := m.console.fputs bytes m.stream_ }

end Manager

end Ice
