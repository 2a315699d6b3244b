import Ice.Proof.Parser.Lines

/-!
# The four fields of the parser

`lines_` is a vector that `parse` loops over and erases a front of, and it never holds more
than one line: a line is stored when it ends, and the next byte that becomes part of a line
empties the store before `parse` returns. What carries this is a joint invariant of `cr_`,
`skip_`, `line_` and `lines_` (`RepInv`), kept by each of the early returns.

It is about every parser that calls of `parse` lead to (`Reached`). Between two calls matchers
may be added and the state of the handlers may change.
-/

set_option autoImplicit false

namespace Ice
namespace Parser

variable {β μ σ : Type*} [Byte β] {matchers : List (Matcher μ σ)} {p : Parser β} {w : Feed β σ}
  {c : β}

/-- A parser between two calls of `parse`. -/
inductive Reached (μ σ : Type*) : Parser β → Prop
  | init : Reached μ σ Parser.init
  | parse {p : Parser β} (h : Reached μ σ p) (matchers : List (Matcher μ σ)) (host : σ) (c : β) :
      Reached μ σ (Parser.parse matchers ⟨p, host⟩ c).next.parser

theorem Reached.feed {stream : List β} (h : Reached μ σ w.parser) :
    Reached μ σ (Parser.feed matchers w stream).parser := by
  induction stream generalizing w with
  | nil => exact h
  | cons c rest ih => exact ih (h.parse matchers w.host c)

/-- **The representation invariant.** -/
structure RepInv (p : Parser β) : Prop where
  one : p.lines.length ≤ 1
  stored : ∀ line ∈ p.lines, blank line = false
  empty : p.lines ≠ [] → p.line = []
  skip : p.skip = true → p.line = [] ∧ p.lines = [] ∧ p.cr = false
  typed : ∀ c ∈ p.line, byte c ≠ lf ∧ byte c ≠ cr_ ∧ byte c ≠ bs

/-! ## 1. What the paths through `parse` do to it -/

theorem repInv_init : RepInv (init : Parser β) where
  one := Nat.zero_le 1
  stored := by simp [init]
  empty := by simp [init]
  skip := by simp [init]
  typed := by simp [init]

theorem typed_of_ordinary (hc : ordinary c = true) :
    byte c ≠ lf ∧ byte c ≠ cr_ ∧ byte c ≠ bs := by
  obtain ⟨heol, hbs⟩ := ordinary_iff.mp hc
  simp only [isEol, Bool.or_eq_false_iff, beq_eq_false_iff_ne] at heol
  exact ⟨heol.1, heol.2, hbs⟩

namespace RepInv

/-- A store that is not empty takes blank lines only, and they are not stored. -/
theorem endLine (h : RepInv p) (hskip : p.skip = false) : RepInv p.endLine := by
  have hlines : p.endLine.lines.length ≤ 1 ∧ ∀ line ∈ p.endLine.lines, blank line = false := by
    cases hb : blank p.line with
    | true => simpa [Parser.endLine, hb] using ⟨h.one, h.stored⟩
    | false => simp [Parser.endLine, hb, lines_nil_of_not_blank h.empty hb]
  refine ⟨hlines.1, hlines.2, fun _ => endLine_line, ?_, ?_⟩
  · intro htrue
    rw [endLine_skip, hskip] at htrue
    cases htrue
  · simp

theorem resolve (h : RepInv p) (hskip : p.skip = false) : RepInv p.resolve := by
  cases hcr : p.cr with
  | true =>
    rw [resolve_of_cr hcr]
    exact h.endLine hskip
  | false =>
    rw [resolve_of_not_cr hcr]
    exact h

/-- `cr_` is free while no line is skipped. -/
theorem withCr (h : RepInv p) (hskip : p.skip = false) : RepInv { p with cr := true } := by
  refine ⟨h.one, h.stored, h.empty, ?_, h.typed⟩
  intro htrue
  rw [hskip] at htrue
  cases htrue

/-- The line that was skipped has ended. -/
theorem unskip (h : RepInv p) : RepInv { p with skip := false } :=
  ⟨h.one, h.stored, h.empty, fun htrue => absurd htrue Bool.false_ne_true, h.typed⟩

/-- An ordinary byte becomes part of `line_`, the store having been emptied. -/
theorem push (h : RepInv p) (hskip : p.skip = false) (hc : ordinary c = true) :
    RepInv { p with line := p.line ++ [c], lines := [] } := by
  refine ⟨Nat.zero_le 1, by simp, fun hne => absurd rfl hne, ?_, ?_⟩
  · intro htrue
    rw [hskip] at htrue
    cases htrue
  · intro b hb
    rcases List.mem_append.mp hb with hb | hb
    · exact h.typed b hb
    · rw [List.mem_singleton.mp hb]
      exact typed_of_ordinary hc

/-- `line_` is consumed, and with `skip` the rest of the line will be. -/
theorem consume (hlines : p.lines = []) (hcr : p.cr = false) (skip : Bool) :
    RepInv { p with skip := skip, line := [] } where
  one := by simp [hlines]
  stored := by simp [hlines]
  empty := fun _ => rfl
  skip := fun _ => ⟨rfl, hlines, hcr⟩
  typed := by simp

theorem partialLine {ec : ErrorCode} {host : σ} (h : RepInv p) (hlines : p.lines = [])
    (hcr : p.cr = false) :
    RepInv (Parser.partialLine matchers p ec host).next.parser := by
  rcases partialLine_leaves matchers p ec host with hnext | hnext | hnext
  · rw [hnext]
    exact h
  · rw [hnext]
    exact consume hlines hcr p.skip
  · rw [hnext]
    exact consume hlines hcr true

theorem pushByte {host : σ} (h : RepInv p) (hskip : p.skip = false) (hcr : p.cr = false)
    (hc : ordinary c = true) : RepInv (Parser.pushByte matchers p host c).next.parser := by
  have hspec := flush_spec matchers p.lines host .clear rfl
  cases hdone : (flush matchers p.lines .clear host).done with
  | true =>
    rw [(pushByte_of_done hdone).1, hspec.lines_of_le_one hdone h.one]
    exact h.push hskip hc
  | false =>
    rw [(pushByte_of_not_done hdone).1]
    exact (h.push hskip hc).partialLine rfl hcr

/-- **`parse` keeps the representation invariant.** -/
theorem parse (matchers : List (Matcher μ σ)) (h : RepInv w.parser) (c : β) :
    RepInv (Parser.parse matchers w c).next.parser := by
  cases hskip : w.parser.skip with
  | true =>
    unfold Parser.parse
    simp only [hskip, if_true]
    split
    · exact h.unskip
    · exact h
  | false =>
    rcases kinds c with heol | hbs | hord
    · unfold Parser.parse
      simp only [hskip, Bool.false_eq_true, if_false]
      split
      · exact h.endLine hskip
      · rw [if_pos (by simpa [isEol, *] using heol)]
        exact (h.resolve hskip).withCr (resolve_skip.trans hskip)
    · rw [parse_backspace hskip hbs]
      exact h.resolve hskip
    · rw [parse_ordinary hskip hord]
      exact (h.resolve hskip).pushByte (resolve_skip.trans hskip) resolve_cr hord

end RepInv

theorem Reached.repInv (h : Reached μ σ p) : RepInv p := by
  induction h with
  | init => exact repInv_init
  | parse _ matchers host c ih => exact ih.parse (w := ⟨_, host⟩) matchers c

/-! ## 2. What follows for the lines that are handed over -/

/-- A call of `parse` with these lines stored when it got there. If a complete line ends the
    call early, that was the last one stored. If a partial line is handed over, every stored
    line was handed over before it. -/
structure InOrder (stored : List (List β)) (out : Parsed β σ) : Prop where
  early : brokenOff out.calls = true →
    out.calls.map (·.line) = stored ∧ out.next.parser.lines = []
  last : ∀ before call after, out.calls = before ++ call :: after → call.eol = false →
    before.map (·.line) = stored ∧ (∀ earlier ∈ before, earlier.eol = true) ∧ after = [] ∧
      out.next.parser.lines = []

omit [Byte β] in
theorem inOrder_of_no_calls {stored : List (List β)} {out : Parsed β σ} (h : out.calls = []) :
    InOrder stored out := by
  refine ⟨?_, ?_⟩
  · rw [h]
    intro hbroken
    cases hbroken
  · intro before call after hcalls
    rw [h] at hcalls
    exact absurd hcalls.symm (List.append_ne_nil_of_right_ne_nil before (List.cons_ne_nil _ _))

omit [Byte β] in
/-- The only partial line of a call is its last line. -/
theorem partial_is_last {calls before after : List (Call β)} {line call : Call β}
    (heol : ∀ earlier ∈ calls, earlier.eol = true)
    (hsplit : calls ++ [line] = before ++ call :: after) (hcall : call.eol = false) :
    before = calls ∧ after = [] := by
  rcases Lib.concat_eq_split.mp hsplit with ⟨rfl, -, rfl⟩ | ⟨mid, -, rfl⟩
  · exact ⟨rfl, rfl⟩
  · rw [heol call (by simp)] at hcall
    cases hcall

theorem inOrder_pushByte {host : σ} (hone : p.lines.length ≤ 1) :
    InOrder p.lines (pushByte matchers p host c) := by
  have hspec := flush_spec matchers p.lines host .clear rfl
  have hhanded := hspec.handed
  have hbroken := hspec.calls.2.2
  cases hdone : (flush matchers p.lines .clear host).done with
  | true =>
    obtain ⟨hnext, hcalls⟩ := pushByte_of_done (c := c) hdone
    have hnil := hspec.lines_of_le_one hdone hone
    rw [hnil, List.append_nil] at hhanded
    refine ⟨fun _ => ⟨by rw [hcalls, hhanded], by rw [hnext, hnil]⟩, ?_⟩
    intro before call after hsplit hcall
    have hin : call ∈ (flush matchers p.lines .clear host).calls := by
      rw [← hcalls, hsplit]
      simp
    rw [hspec.eol call hin] at hcall
    cases hcall
  | false =>
    obtain ⟨hnext, hcalls⟩ := pushByte_of_not_done (c := c) hdone
    have hnil := (hspec.all hdone).1
    rw [hnil, List.append_nil] at hhanded
    have hlines : (lastPart matchers p host c).next.parser.lines = [] := partialLine_lines
    refine ⟨?_, ?_⟩
    · intro htrue
      have hpartial : brokenOff (lastPart matchers p host c).calls = false :=
        partialLine_handed.2.1
      rw [hcalls, brokenOff_append, hbroken, hpartial, hdone] at htrue
      cases htrue
    · intro before call after hsplit hcall
      rw [hcalls, lastPart, partialLine_calls] at hsplit
      split at hsplit
      · have hin : call ∈ (flush matchers p.lines .clear host).calls := by
          rw [List.append_nil] at hsplit
          rw [hsplit]
          simp
        rw [hspec.eol call hin] at hcall
        cases hcall
      · obtain ⟨rfl, hafter⟩ := partial_is_last hspec.eol hsplit hcall
        exact ⟨hhanded, hspec.eol, hafter, by rw [hnext, hlines]⟩

theorem RepInv.inOrder (h : RepInv w.parser) (matchers : List (Matcher μ σ)) (c : β) :
    InOrder w.parser.resolve.lines (Parser.parse matchers w c) := by
  cases hskip : w.parser.skip with
  | true => exact inOrder_of_no_calls (parse_skip matchers c hskip).1
  | false =>
    rcases kinds c with heol | hbs | hord
    · exact inOrder_of_no_calls (parse_eol matchers c hskip heol).1
    · rw [parse_backspace hskip hbs]
      exact inOrder_of_no_calls rfl
    · rw [parse_ordinary hskip hord]
      exact inOrder_pushByte (h.resolve hskip).one

/-- **The representation invariant holds of every parser between two calls of `parse`**; so
    the next byte, whatever it is and whatever the handlers make of it, leaves no complete
    line behind, and hands no partial line over before a complete one. -/
theorem representation_invariant (h : Reached μ σ p) :
    RepInv p ∧ ∀ (matchers : List (Matcher μ σ)) (host : σ) (c : β),
      InOrder p.resolve.lines (parse matchers ⟨p, host⟩ c) :=
  ⟨h.repInv, fun matchers host c => h.repInv.inOrder (w := ⟨p, host⟩) matchers c⟩

/-- A parser that has a line stored. -/
theorem representation_invariant_stored :
    ∃ p : Parser UInt8, p.lines = [[97]] ∧ RepInv p ∧
      InOrder [[97]] (parse [watch] ⟨p, ()⟩ 98) := by
  have h : Reached Unit Unit (feed [watch] ⟨init, ()⟩ ([97, 10] : List UInt8)).parser :=
    Reached.init.feed (w := ⟨init, ()⟩)
  exact ⟨_, rfl, (representation_invariant h).1, (representation_invariant h).2 [watch] () 98⟩

end Parser
end Ice
