import Ice.Terminal.Output

/-!
# `log::print` — how an entry is written

`log.cpp`. An entry goes to `stdout` if its level is above `error` and to `stderr` otherwise. On
a terminal the level and the message are written in colors, through C strings; elsewhere the
whole line is written by `fmt::print`.

The text of the time is the formatting library's: `stamp` is what it makes of
`{:%Y-%m-%d %H:%M:%S}.{:#03d}`.
-/

set_option autoImplicit false

namespace Ice
namespace Log

/-- `enum class level : std::uint16_t`, which may hold a value that is no enumerator. -/
inductive Level
  | emergency
  | alert
  | critical
  | error
  | warning
  | notice
  | info
  | debug
  | custom
  | other (value : ℕ) (h : 8 < value ∧ value < 65536)
  deriving DecidableEq

/-- `static_cast<int>(level)` -/
def Level.value : Level → ℕ
  | emergency => 0
  | alert => 1
  | critical => 2
  | error => 3
  | warning => 4
  | notice => 5
  | info => 6
  | debug => 7
  | custom => 8
  | other value _ => value

def get_level_format : Level → Format
  | .emergency => .ofColor .cyan
  | .alert => .ofColor .blue
  | .critical => .ofColor .magenta
  | .error => .ofColor .red
  | .warning => .ofColor .yellow
  | .notice => .ofColor .green
  | .info => .empty
  | .debug => .ofColor .grey
  | .custom => .empty
  | .other _ _ => .empty

def get_level_string (level : Level) (padding : Bool) : List UInt8 :=
  match level with
  | .emergency => ascii "emergency"
  | .alert => if padding then ascii "alert    " else ascii "alert"
  | .critical => if padding then ascii "critical " else ascii "critical"
  | .error => if padding then ascii "error    " else ascii "error"
  | .warning => if padding then ascii "warning  " else ascii "warning"
  | .notice => if padding then ascii "notice   " else ascii "notice"
  | .info => if padding then ascii "info     " else ascii "info"
  | .debug => if padding then ascii "debug    " else ascii "debug"
  | .custom => if padding then ascii "custom   " else ascii "custom"
  | .other _ _ => if padding then ascii "unknown  " else ascii "unknown"

structure Entry (τ : Type*) where
  tm : τ
  ms : Int
  level : Level
  format : Format
  message : List UInt8

variable {τ : Type*}

/-- The stream of an entry. -/
def Entry.stream (entry : Entry τ) : FILE :=
  if entry.level.value > Level.error.value then .stdout else .stderr

/-- `log::print` -/
def Entry.print (stamp : τ → Int → List UInt8) (c : Console) (entry : Entry τ) : Console :=
  let stream := entry.stream
  let level_format := get_level_format entry.level
  let level_string := get_level_string entry.level true
  let c := c.write stream (stamp entry.tm entry.ms ++ ascii " [")
  if c.tty.is_tty stream then
    let manager := Manager.construct c stream level_format
    let manager := manager.fputs level_string
    let manager := manager.reset
    let manager := manager.fputs (ascii "] ")
    let manager :=
      if entry.format.isSet then manager.set entry.format
      else if entry.level = .debug then manager.set level_format
      else manager
    let manager := manager.fputs entry.message
    let manager := manager.reset
    let manager := manager.fputs (ascii "\n")
    manager.destroy
  else
    c.write stream (level_string ++ ascii "] " ++ entry.message ++ ascii "\n")

end Log
end Ice
