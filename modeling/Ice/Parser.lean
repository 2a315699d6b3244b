import Ice.Error
import Ice.Lib.Machine
import Mathlib.Data.List.Basic

/-!
# `ice::parser` — lines out of a byte stream, one byte at a time

`parser.hpp`. `parse` takes one byte; what it does to the parser is followed statement by
statement. A handler is a function of the match, the error code it is passed by reference,
and a host state of its own; the regular expression is any function of the text and the
`eol` flag.

The parser compares bytes and moves them around, and nothing else. So the model is written
over any type that *carries* a byte: `UInt8` itself, or a byte together with its position in
the stream, which tells two equal bytes apart and is invisible to the matchers (`text`).
-/

namespace Ice

/-- What carries a byte. -/
class Byte (β : Type*) where
  byte : β → UInt8

instance : Byte UInt8 := ⟨id⟩

/-- A byte and its position in the stream. -/
instance : Byte (UInt8 × ℕ) := ⟨Prod.fst⟩

export Byte (byte)

/-- `ice::state` -/
inductive State
  -- not handled
  | none
  -- handled, continue matching
  | more
  -- handled, skip to end of line
  | skip
  -- handled
  | next
  -- stop parser
  | done
  deriving DecidableEq

/-- How a handler returned, with what it left in `ec`. -/
structure Reply (σ : Type*) where
  state : State
  ec : ErrorCode
  host : σ

structure Matcher (μ σ : Type*) where
  -- `match(string, sm, eol)`
  matches_ : List UInt8 → Bool → Option μ
  -- `handle(sm, ec)`
  handler : μ → ErrorCode → σ → Reply σ

/-- A handler was invoked, and what it answered. -/
structure Answer where
  matcher : ℕ
  state : State
  ec : ErrorCode
  deriving DecidableEq

/-- A call of `handle(line, eol, ec)`, the handlers it invoked, and how it returned. -/
structure Call (β : Type*) where
  line : List β
  eol : Bool
  answers : List Answer
  state : State
  ec : ErrorCode
  deriving DecidableEq

/-- The call of `handle` makes `parse` return `done`. -/
def Call.ends {β : Type*} (call : Call β) : Bool := call.state = .done || call.ec.isSet

/-- How `handle` returned: with the reply of the last handler it invoked. -/
structure Handled (σ : Type*) extends Reply σ where
  answers : List Answer

structure Parser (β : Type*) where
  cr : Bool
  skip : Bool
  line : List β
  lines : List (List β)
  deriving DecidableEq

/-- A parser between two calls of `parse`, and the state its handlers act on. -/
structure Feed (β σ : Type*) where
  parser : Parser β
  host : σ
  deriving DecidableEq

/-- How a call of `parse` returned. -/
structure Parsed (β σ : Type*) where
  state : State
  ec : ErrorCode
  next : Feed β σ
  calls : List (Call β)
  deriving DecidableEq

namespace Parser

variable {β μ σ : Type*} [Byte β]

def init : Parser β where
  cr := false
  skip := false
  line := []
  lines := []

def lf : UInt8 := 10

def cr_ : UInt8 := 13

def bs : UInt8 := 8

/-- `" \t\v\b\f\a"` -/
def blanks : List UInt8 := [32, 9, 11, 8, 12, 7]

/-- What a matcher sees of a line. -/
def text (line : List β) : List UInt8 := line.map byte

/-- `line_.find_first_not_of(" \t\v\b\f\a") == std::string::npos` -/
def blank (line : List β) : Bool := line.all fun c => byte c ∈ blanks

/-- The loop of `handle`, from the matcher with this index on. -/
def handleFrom (line : List UInt8) (eol : Bool) :
    ℕ → List (Matcher μ σ) → State → ErrorCode → σ → Handled σ
  | _, [], state, ec, host => { state := state, ec := ec, host := host, answers := [] }
  | i, matcher :: rest, state, ec, host =>
    match matcher.matches_ line eol with
    | none => handleFrom line eol (i + 1) rest state ec host
    | some sm =>
      let reply := matcher.handler sm ec host
      let answer := ⟨i, reply.state, reply.ec⟩
      if reply.state ≠ .more then { reply with answers := [answer] }
      else
        let r := handleFrom line eol (i + 1) rest reply.state reply.ec reply.host
        { r with answers := answer :: r.answers }

def handle (matchers : List (Matcher μ σ)) (line : List UInt8) (eol : Bool) (ec : ErrorCode)
    (host : σ) : Handled σ := handleFrom line eol 0 matchers .none ec host

/-- The lines left, and whether the loop returned. -/
structure Flushed (β σ : Type*) where
  lines : List (List β)
  done : Bool
  ec : ErrorCode
  host : σ
  calls : List (Call β)

/-- "Try to handle complete lines." -/
def flush (matchers : List (Matcher μ σ)) : List (List β) → ErrorCode → σ → Flushed β σ
  | [], ec, host => ⟨[], false, ec, host, []⟩
  | line :: rest, ec, host =>
    let r := handle matchers (text line) true ec host
    let call := ⟨line, true, r.answers, r.state, r.ec⟩
    if r.state = .done ∨ r.ec.isSet = true then ⟨rest, true, r.ec, r.host, [call]⟩
    else
      let f := flush matchers rest r.ec r.host
      { f with calls := call :: f.calls }

/-- "Try to handle a partial line", unless it is blank. -/
def partialLine (matchers : List (Matcher μ σ)) (p : Parser β) (ec : ErrorCode) (host : σ) :
    Parsed β σ :=
  if blank p.line then ⟨.none, ec, ⟨p, host⟩, []⟩
  else
    let r := handle matchers (text p.line) false ec host
    let calls := [⟨p.line, false, r.answers, r.state, r.ec⟩]
    if r.state = .done ∨ r.ec.isSet = true then ⟨.done, r.ec, ⟨p, r.host⟩, calls⟩
    else
      match r.state with
      | .more | .done | .skip =>
        ⟨r.state, r.ec, ⟨{ p with skip := true, line := [] }, r.host⟩, calls⟩
      | .next => ⟨r.state, r.ec, ⟨{ p with line := [] }, r.host⟩, calls⟩
      | .none => ⟨r.state, r.ec, ⟨p, r.host⟩, calls⟩

/-- `parse` from `line_.push_back(c)` on. -/
def pushByte (matchers : List (Matcher μ σ)) (p : Parser β) (host : σ) (c : β) : Parsed β σ :=
  let line := p.line ++ [c]
  let f := flush matchers p.lines .clear host
  if f.done then ⟨.done, f.ec, ⟨{ p with line := line, lines := f.lines }, f.host⟩, f.calls⟩
  else
    let r := partialLine matchers { p with line := line, lines := [] } f.ec f.host
    { r with calls := f.calls ++ r.calls }

/-- `line_` ends here: it is stored unless it is blank. -/
def endLine (p : Parser β) : Parser β :=
  { p with
    lines := if blank p.line then p.lines else p.lines ++ [p.line]
    line := []
    cr := false }

/-- "Handle previously detected '\r' that is not followed by a '\n'." -/
def resolve (p : Parser β) : Parser β := if p.cr then p.endLine else p

def parse (matchers : List (Matcher μ σ)) (w : Feed β σ) (c : β) : Parsed β σ :=
  let p := w.parser
  if p.skip then
    ⟨.none, .clear, ⟨if byte c = lf then { p with skip := false } else p, w.host⟩, []⟩
  else if byte c = lf then ⟨.none, .clear, ⟨p.endLine, w.host⟩, []⟩
  else if byte c = cr_ then ⟨.none, .clear, ⟨{ p.resolve with cr := true }, w.host⟩, []⟩
  else if byte c = bs then ⟨.none, .clear, ⟨p.resolve, w.host⟩, []⟩
  else pushByte matchers p.resolve w.host c

/-- The parser after a stream was fed to it, the caller continuing after `done`. -/
def feed (matchers : List (Matcher μ σ)) : Feed β σ → List β → Feed β σ
  | w, [] => w
  | w, c :: rest => feed matchers (parse matchers w c).next rest

/-- How the calls of `parse` returned, one for each byte of the stream. -/
def outputs (matchers : List (Matcher μ σ)) : Feed β σ → List β → List (Parsed β σ)
  | _, [] => []
  | w, c :: rest => parse matchers w c :: outputs matchers (parse matchers w c).next rest

section Append

variable (matchers : List (Matcher μ σ)) (w : Feed β σ) (before after : List β)

theorem feed_append :
    feed matchers w (before ++ after) = feed matchers (feed matchers w before) after := by
  induction before generalizing w with
  | nil => rfl
  | cons c before ih => exact ih (parse matchers w c).next

theorem outputs_append : outputs matchers w (before ++ after) =
    outputs matchers w before ++ outputs matchers (feed matchers w before) after := by
  induction before generalizing w with
  | nil => rfl
  | cons c before ih => exact congrArg (_ :: ·) (ih (parse matchers w c).next)

end Append

/-- How `stream.recv(&c, 1, ec)` returned: with a byte or with none, and what is in `ec`. -/
structure Received (β : Type*) where
  byte : Option β
  ec : ErrorCode

/-- `run(stream)` between two calls of `stream.recv`. -/
structure Run (β σ : Type*) where
  feed : Feed β σ
  ec : ErrorCode
  returned : Bool

namespace Run

/-- `run` is entered. -/
def start (w : Feed β σ) : Run β σ := ⟨w, .clear, false⟩

/-- A call of `stream.recv` returns; then `break`, or `while (!ec)`. -/
def step (matchers : List (Matcher μ σ)) (s : Run β σ) (r : Received β) : Option (Run β σ) :=
  if s.returned then none
  else
    match r.byte with
    | some c =>
      let p := parse matchers s.feed c
      some ⟨p.next, p.ec, p.state = .done || p.ec.isSet⟩
    | none => some ⟨s.feed, r.ec, r.ec.isSet⟩

def machine (matchers : List (Matcher μ σ)) : Lib.Machine (Run β σ) (Received β) :=
  ⟨step matchers⟩

/-- A stream that delivers these bytes and from then on returns 0 with a clear `ec`. -/
def stream (bytes : List β) (i : ℕ) : Received β := ⟨bytes[i]?, .clear⟩

/-- `run` after `n` calls of `stream.recv`. -/
def after (matchers : List (Matcher μ σ)) (w : Feed β σ) (bytes : List β) (n : ℕ) :
    Option (Run β σ) :=
  (machine matchers).exec (start w) ((List.range n).map (stream bytes))

end Run

end Parser

end Ice
