import Ice.Proof.Parser.Resolve

/-!
# `"\n"`, `"\r\n"` and `'\r'`

A stream and a respelling of its line feeds keep two parsers apart: where one has stored the
line, the other still holds it in `line_` with `cr_` set. `resolve` takes them to the same
parser, and that is all the simulation needs (`parse_congr`): what `parse` does next depends
on the parser through `resolve` only.

While `skip_` is set a carriage return is an ordinary skipped byte, and only a line feed ends
the line. So there a line feed may not be respelled as a bare carriage return.
-/

set_option autoImplicit false

namespace Ice
namespace Parser

variable {μ σ : Type*} {matchers : List (Matcher μ σ)} {s t : List UInt8}

/-- `t` is the stream `s`, which has no carriage return, with the ends of line respelled as
    the parser `w` reads it. -/
inductive Respells (matchers : List (Matcher μ σ)) : Feed UInt8 σ → List UInt8 → List UInt8 → Prop
  | nil {w : Feed UInt8 σ} : Respells matchers w [] []
  | byte {w : Feed UInt8 σ} {c : UInt8} {s t : List UInt8} (hlf : c ≠ lf) (hcr : c ≠ cr_)
      (h : Respells matchers (parse matchers w c).next s t) :
      Respells matchers w (c :: s) (c :: t)
  | lf {w : Feed UInt8 σ} {s t : List UInt8}
      (h : Respells matchers (parse matchers w lf).next s t) :
      Respells matchers w (lf :: s) (lf :: t)
  | crlf {w : Feed UInt8 σ} {s t : List UInt8}
      (h : Respells matchers (parse matchers w Parser.lf).next s t) :
      Respells matchers w (Parser.lf :: s) (cr_ :: Parser.lf :: t)
  | cr {w : Feed UInt8 σ} {s t : List UInt8} (hskip : w.parser.skip = false)
      (h : Respells matchers (parse matchers w Parser.lf).next s t) :
      Respells matchers w (Parser.lf :: s) (cr_ :: t)

/-- The parsers differ at most in a carriage return that is pending. -/
structure Same (v w : Feed UInt8 σ) : Prop where
  parser : v.parser.resolve = w.parser.resolve
  host : v.host = w.host

namespace Same

variable {v w : Feed UInt8 σ}

theorem skip (h : Same v w) : v.parser.skip = w.parser.skip := by
  rw [← resolve_skip, h.parser, resolve_skip]

theorem endLine (h : Same v w) : v.parser.endLine = w.parser.endLine := by
  rw [← endLine_resolve, h.parser, endLine_resolve]

/-- **The simulation.** On the same byte, such parsers make the same calls and stay so. -/
theorem parse (matchers : List (Matcher μ σ)) (h : Same v w) (c : UInt8) :
    (Parser.parse matchers v c).calls = (Parser.parse matchers w c).calls ∧
      Same (Parser.parse matchers v c).next (Parser.parse matchers w c).next := by
  cases hskip : w.parser.skip with
  | true =>
    obtain ⟨hcalls, hhost, hnext⟩ := parse_skip matchers c hskip
    obtain ⟨hcalls', hhost', hnext'⟩ :=
      parse_skip matchers c (h.skip.trans hskip)
    rw [hcalls, hcalls']
    exact ⟨rfl, by rw [hnext, hnext', h.parser], by rw [hhost, hhost', h.host]⟩
  | false =>
    have hskip' := h.skip.trans hskip
    rcases kinds c with heol | hbs | hord
    · obtain ⟨hcalls, hhost, hnext⟩ := parse_eol matchers c hskip heol
      obtain ⟨hcalls', hhost', hnext'⟩ := parse_eol matchers c hskip' heol
      rw [hcalls, hcalls']
      exact ⟨rfl, by rw [hnext, hnext', h.endLine], by rw [hhost, hhost', h.host]⟩
    · rw [parse_backspace hskip hbs, parse_backspace hskip' hbs]
      exact ⟨rfl, by simpa using h.parser, h.host⟩
    · rw [parse_ordinary hskip hord, parse_ordinary hskip' hord, h.parser, h.host]
      exact ⟨rfl, rfl, rfl⟩

/-- A bare carriage return stands for a line feed. -/
theorem cr (matchers : List (Matcher μ σ)) (h : Same v w) (hskip : w.parser.skip = false) :
    (Parser.parse matchers v cr_).calls = [] ∧ (Parser.parse matchers w lf).calls = [] ∧
      Same (Parser.parse matchers v cr_).next (Parser.parse matchers w lf).next := by
  obtain ⟨hcalls, hhost, hnext⟩ := parse_eol matchers lf hskip rfl
  obtain ⟨hcalls', hhost', hnext'⟩ :=
    parse_eol matchers cr_ (h.skip.trans hskip) rfl
  exact ⟨hcalls', hcalls, by rw [hnext, hnext', h.endLine], by rw [hhost, hhost', h.host]⟩

/-- A line feed finds nothing left to do after another end of line. -/
theorem lf_lf (matchers : List (Matcher μ σ)) (hskip : w.parser.skip = false) :
    (Parser.parse matchers (Parser.parse matchers w lf).next lf).calls = [] ∧
      Same (Parser.parse matchers (Parser.parse matchers w lf).next lf).next
        (Parser.parse matchers w lf).next := by
  obtain ⟨-, hhost, hnext⟩ := parse_eol matchers lf hskip rfl
  have hskip' : (Parser.parse matchers w lf).next.parser.skip = false := by
    rw [← resolve_skip, hnext, endLine_skip, hskip]
  obtain ⟨hcalls', hhost', hnext'⟩ := parse_eol matchers lf hskip' rfl
  refine ⟨hcalls', ?_, hhost'⟩
  rw [hnext', ← endLine_resolve, hnext, endLine_endLine]

/-- A carriage return and a line feed stand for a line feed. -/
theorem crlf (matchers : List (Matcher μ σ)) (h : Same v w) :
    (Parser.parse matchers v cr_).calls = [] ∧
      (Parser.parse matchers (Parser.parse matchers v cr_).next lf).calls =
        (Parser.parse matchers w lf).calls ∧
      Same (Parser.parse matchers (Parser.parse matchers v cr_).next lf).next
        (Parser.parse matchers w lf).next := by
  cases hskip : w.parser.skip with
  | true =>
    -- The carriage return is skipped.
    have hskip' := h.skip.trans hskip
    obtain ⟨hcalls, hhost, hnext⟩ := parse_skip matchers cr_ hskip'
    have hsame : Same (Parser.parse matchers v cr_).next w := by
      refine ⟨hnext.trans ?_, hhost.trans h.host⟩
      rw [← h.parser, show (Byte.byte cr_ != lf) = true from rfl, ← hskip', ← resolve_skip]
    exact ⟨hcalls, hsame.parse matchers lf⟩
  | false =>
    obtain ⟨hcalls, hcalls', hsame⟩ := h.cr matchers hskip
    obtain ⟨hagain, hsame'⟩ := hsame.parse matchers lf
    obtain ⟨hnone, hsame''⟩ := lf_lf matchers hskip
    exact ⟨hcalls, by rw [hagain, hnone, hcalls'],
      hsame'.parser.trans hsame''.parser, hsame'.host.trans hsame''.host⟩

end Same

/-- All calls of `handle`, in order. -/
def allCalls {β : Type*} (outs : List (Parsed β σ)) : List (Call β) := outs.flatMap (·.calls)

theorem allCalls_of_respells {v w : Feed UInt8 σ} (hr : Respells matchers w s t)
    (h : Same v w) : allCalls (outputs matchers v t) = allCalls (outputs matchers w s) := by
  induction hr generalizing v with
  | nil => rfl
  | @byte w c s t hlf hcr _ ih =>
    obtain ⟨hcalls, hnext⟩ := h.parse matchers c
    simp only [allCalls, outputs, List.flatMap_cons] at ih ⊢
    rw [hcalls, ih hnext]
  | @lf w s t _ ih =>
    obtain ⟨hcalls, hnext⟩ := h.parse matchers Parser.lf
    simp only [allCalls, outputs, List.flatMap_cons] at ih ⊢
    rw [hcalls, ih hnext]
  | @crlf w s t _ ih =>
    obtain ⟨hcr, hcalls, hnext⟩ := h.crlf matchers
    simp only [allCalls, outputs, List.flatMap_cons] at ih ⊢
    rw [hcr, hcalls, ih hnext, List.nil_append]
  | @cr w s t hskip _ ih =>
    obtain ⟨hcr, hlf, hnext⟩ := h.cr matchers hskip
    simp only [allCalls, outputs, List.flatMap_cons] at ih ⊢
    rw [hcr, hlf, ih hnext]

/-- The handlers that were invoked, with the text and the `eol` flag they were matched on. -/
def invocations {β : Type*} (outs : List (Parsed β σ)) : List (ℕ × List β × Bool) :=
  (allCalls outs).flatMap fun call => call.answers.map fun a => (a.matcher, call.line, call.eol)

/-- **The line-ending convention does not matter**: feeding a respelling of the stream makes
    the same handler invocations as feeding the stream. -/
theorem endings_do_not_matter (matchers : List (Matcher μ σ)) (host : σ) {s t : List UInt8}
    (h : Respells matchers ⟨init, host⟩ s t) :
    invocations (outputs matchers ⟨init, host⟩ t) =
      invocations (outputs matchers ⟨init, host⟩ s) := by
  rw [invocations, invocations, allCalls_of_respells h ⟨rfl, rfl⟩]

/-- A matcher that handles the text `"a"` and skips the rest of its line. -/
def skipA : Matcher Unit Unit :=
  ⟨fun text _ => if text = [97] then some () else none, fun _ ec host => ⟨.skip, ec, host⟩⟩

/-- The hypothesis is met by a line that a matcher skips to the end of, and one that it does
    not: the second line feed may become a bare carriage return. -/
theorem endings_do_not_matter_skip :
    invocations (outputs [skipA] ⟨init, ()⟩ ([97, 120, 13, 10, 98, 13, 97] : List UInt8)) =
        invocations (outputs [skipA] ⟨init, ()⟩ ([97, 120, 10, 98, 10, 97] : List UInt8)) ∧
      invocations (outputs [skipA] ⟨init, ()⟩ ([97, 120, 10, 98, 10, 97] : List UInt8)) =
        [(0, [97], false), (0, [97], false)] := by
  have h : Respells [skipA] ⟨init, ()⟩ [97, 120, 10, 98, 10, 97] [97, 120, 13, 10, 98, 13, 97] := by
    refine .byte (by decide) (by decide) (.byte (by decide) (by decide) (.crlf ?_))
    refine .byte (by decide) (by decide) (.cr rfl (.byte (by decide) (by decide) .nil))
  exact ⟨endings_do_not_matter [skipA] () h, by decide⟩

end Parser
end Ice
