import Ice.Parser
import Mathlib.Tactic.Common

/-!
# `cr_` is a delay

A carriage return is remembered and takes effect on the next byte, unless that byte is a line
feed, which ends the same line. `resolve` is the parser with the delay taken out: it has
stored the line that a pending carriage return ends. Seen through `resolve`, `parse` has
three kinds of byte — an end of line, a backspace, and an ordinary byte — and no memory of
which of the two ends of line it was (`parse_eol`).
-/

set_option autoImplicit false

namespace Ice
namespace Parser

variable {β μ σ : Type*} [Byte β] {matchers : List (Matcher μ σ)} {p : Parser β}
  {w : Feed β σ} {c : β}

/-- A line feed or a carriage return. -/
def isEol (c : β) : Bool := byte c == lf || byte c == cr_

/-- A byte that becomes part of a line. -/
def ordinary (c : β) : Bool := !isEol c && byte c != bs

/-! ## 1. `endLine` and `resolve` -/

@[simp] theorem blank_nil : blank ([] : List β) = true := rfl

@[simp] theorem endLine_line : p.endLine.line = [] := rfl

@[simp] theorem endLine_cr : p.endLine.cr = false := rfl

@[simp] theorem endLine_skip : p.endLine.skip = p.skip := rfl

theorem resolve_of_cr (h : p.cr = true) : p.resolve = p.endLine := by
  rw [resolve, h, if_pos rfl]

theorem resolve_of_not_cr (h : p.cr = false) : p.resolve = p := by
  rw [resolve, h, if_neg Bool.false_ne_true]

@[simp] theorem resolve_cr : p.resolve.cr = false := by
  cases h : p.cr with
  | true => rw [resolve_of_cr h, endLine_cr]
  | false => rw [resolve_of_not_cr h, h]

@[simp] theorem resolve_skip : p.resolve.skip = p.skip := by
  cases h : p.cr with
  | true => rw [resolve_of_cr h, endLine_skip]
  | false => rw [resolve_of_not_cr h]

@[simp] theorem resolve_resolve : p.resolve.resolve = p.resolve := resolve_of_not_cr resolve_cr

@[simp] theorem resolve_endLine : p.endLine.resolve = p.endLine := resolve_of_not_cr endLine_cr

/-- A line that is not blank is stored alone, where nothing is typed while a line is stored. -/
theorem lines_nil_of_not_blank (hempty : p.lines ≠ [] → p.line = []) (hb : blank p.line = false) :
    p.lines = [] := by
  by_contra hne
  rw [hempty hne, blank_nil] at hb
  cases hb

/-- A second end of line finds nothing to store. -/
theorem endLine_endLine : p.endLine.endLine = p.endLine := by
  simp [endLine]

/-- Ending the line takes a pending carriage return along. -/
@[simp] theorem endLine_resolve : p.resolve.endLine = p.endLine := by
  cases h : p.cr with
  | true => rw [resolve_of_cr h, endLine_endLine]
  | false => rw [resolve_of_not_cr h]

/-- A carriage return just read ends the line once it is resolved. -/
theorem resolve_with_cr : ({ p with cr := true } : Parser β).resolve = p.endLine := by
  rw [resolve_of_cr rfl]
  rfl

theorem resolve_with_skip (skip : Bool) :
    ({ p with skip := skip } : Parser β).resolve = { p.resolve with skip := skip } := by
  obtain ⟨cr, _, line, lines⟩ := p
  cases cr <;> rfl

/-! ## 2. `parse`, by kind of byte -/

theorem parse_skip (matchers : List (Matcher μ σ)) (c : β) (hskip : w.parser.skip = true) :
    (parse matchers w c).calls = [] ∧ (parse matchers w c).next.host = w.host ∧
      (parse matchers w c).next.parser.resolve =
        { w.parser.resolve with skip := byte c != lf } := by
  unfold parse
  simp only [hskip, if_true, true_and]
  by_cases hc : byte c = lf
  · rw [if_pos hc, resolve_with_skip, hc]
    rfl
  · rw [if_neg hc, (bne_iff_ne).mpr hc, ← hskip, ← resolve_skip]

theorem parse_eol (matchers : List (Matcher μ σ)) (c : β) (hskip : w.parser.skip = false)
    (hc : isEol c = true) :
    (parse matchers w c).calls = [] ∧ (parse matchers w c).next.host = w.host ∧
      (parse matchers w c).next.parser.resolve = w.parser.endLine := by
  have hne : cr_ ≠ lf := by decide
  unfold parse
  simp only [hskip, Bool.false_eq_true, if_false]
  rcases Bool.or_eq_true _ _ |>.mp hc with hlf | hcr
  · rw [if_pos (beq_iff_eq.mp hlf)]
    exact ⟨rfl, rfl, resolve_endLine⟩
  · rw [beq_iff_eq.mp hcr, if_neg hne, if_pos rfl]
    exact ⟨rfl, rfl, resolve_with_cr.trans endLine_resolve⟩

theorem parse_backspace (hskip : w.parser.skip = false) (hc : byte c = bs) :
    parse matchers w c = ⟨.none, .clear, ⟨w.parser.resolve, w.host⟩, []⟩ := by
  have hlf : bs ≠ lf := by decide
  have hcr : bs ≠ cr_ := by decide
  simp [parse, hskip, hc, hlf, hcr]

theorem parse_ordinary (hskip : w.parser.skip = false) (hc : ordinary c = true) :
    parse matchers w c = pushByte matchers w.parser.resolve w.host c := by
  simp only [ordinary, isEol, Bool.and_eq_true, Bool.not_eq_true', Bool.or_eq_false_iff,
    beq_eq_false_iff_ne, bne_iff_ne] at hc
  simp [parse, hskip, hc.1.1, hc.1.2, hc.2]

/-- The three kinds of byte. -/
theorem kinds (c : β) : isEol c = true ∨ byte c = bs ∨ ordinary c = true := by
  by_cases heol : isEol c = true
  · exact Or.inl heol
  · by_cases hbs : byte c = bs
    · exact Or.inr (Or.inl hbs)
    · exact Or.inr (Or.inr (by simp [ordinary, heol, hbs]))

theorem not_backspace_of_isEol (hc : isEol c = true) : byte c ≠ bs := by
  intro hbs
  simp only [isEol, hbs] at hc
  exact absurd hc (by decide)

theorem ordinary_iff : ordinary c = true ↔ isEol c = false ∧ byte c ≠ bs := by
  simp [ordinary]

/-! ## 3. What `handle` returns -/

theorem handleFrom_last (line : List UInt8) (eol : Bool) (i : ℕ)
    (matchers : List (Matcher μ σ)) (state : State) (ec : ErrorCode) (host : σ) :
    (handleFrom line eol i matchers state ec host).answers = [] ∧
        (handleFrom line eol i matchers state ec host).state = state ∧
        (handleFrom line eol i matchers state ec host).ec = ec ∨
      ∃ a, (handleFrom line eol i matchers state ec host).answers.getLast? = some a ∧
        (handleFrom line eol i matchers state ec host).state = a.state ∧
        (handleFrom line eol i matchers state ec host).ec = a.ec := by
  induction matchers generalizing i state ec host with
  | nil => exact Or.inl ⟨rfl, rfl, rfl⟩
  | cons matcher rest ih =>
    rw [handleFrom]
    cases matcher.matches_ line eol with
    | none => exact ih (i + 1) state ec host
    | some sm =>
      dsimp only
      generalize matcher.handler sm ec host = reply
      split
      · exact Or.inr ⟨_, rfl, rfl, rfl⟩
      · rcases ih (i + 1) reply.state reply.ec reply.host with
          ⟨hnil, hstate, hec⟩ | ⟨a, ha, hstate, hec⟩
        · exact Or.inr ⟨_, by rw [hnil]; rfl, hstate, hec⟩
        · refine Or.inr ⟨a, ?_, hstate, hec⟩
          rw [List.getLast?_cons, ha]
          rfl

/-- `handle` returns what the last handler it invoked answered. -/
theorem handle_last (matchers : List (Matcher μ σ)) (line : List UInt8) (eol : Bool)
    (ec : ErrorCode) (host : σ) :
    (handle matchers line eol ec host).answers = [] ∧
        (handle matchers line eol ec host).state = .none ∧
        (handle matchers line eol ec host).ec = ec ∨
      ∃ a, (handle matchers line eol ec host).answers.getLast? = some a ∧
        (handle matchers line eol ec host).state = a.state ∧
        (handle matchers line eol ec host).ec = a.ec :=
  handleFrom_last line eol 0 matchers .none ec host

/-- At most the current line is given to `handle` as a partial one. -/
theorem partialLine_calls {ec : ErrorCode} {host : σ} :
    (partialLine matchers p ec host).calls =
      if blank p.line then []
      else [⟨p.line, false, (handle matchers (text p.line) false ec host).answers,
        (handle matchers (text p.line) false ec host).state,
        (handle matchers (text p.line) false ec host).ec⟩] := by
  unfold partialLine
  split
  · rfl
  · dsimp only
    split
    · rfl
    · split <;> rfl

/-! ## 4. What `flush` returns -/

/-- The loop over the stored lines hands them over in order, up to the one that ends it. -/
structure FlushSpec (lines : List (List β)) (f : Flushed β σ) : Prop where
  handed : f.calls.map (·.line) ++ f.lines = lines
  eol : ∀ call ∈ f.calls, call.eol = true
  ends : f.done = f.calls.any Call.ends
  all : f.done = false → f.lines = [] ∧ f.ec.isSet = false

theorem flush_spec (matchers : List (Matcher μ σ)) (lines : List (List β)) (host : σ)
    (ec : ErrorCode) (hec : ec.isSet = false) : FlushSpec lines (flush matchers lines ec host) := by
  induction lines generalizing ec host with
  | nil => exact ⟨rfl, by simp [flush], rfl, fun _ => ⟨rfl, hec⟩⟩
  | cons line rest ih =>
    rw [flush]
    dsimp only
    generalize handle matchers (text line) true ec host = r
    by_cases hends : r.state = .done ∨ r.ec.isSet = true
    · rw [if_pos hends]
      exact ⟨rfl, by simp, by simpa [Call.ends] using hends, by simp⟩
    · rw [if_neg hends]
      obtain ⟨hstate, hset⟩ := not_or.mp hends
      have hspec := ih r.host r.ec (by simpa using hset)
      refine ⟨?_, ?_, ?_, hspec.all⟩
      · exact congrArg (line :: ·) hspec.handed
      · intro call hcall
        rcases List.mem_cons.mp hcall with rfl | hcall
        · rfl
        · exact hspec.eol call hcall
      · rw [List.any_cons, ← hspec.ends]
        simp [Call.ends, hstate, hset]

omit [Byte β] in
/-- A loop that was broken off has handed over at least one line. -/
theorem FlushSpec.lines_of_le_one {lines : List (List β)} {f : Flushed β σ}
    (h : FlushSpec lines f) (hdone : f.done = true) (hone : lines.length ≤ 1) : f.lines = [] := by
  have hlen := congrArg List.length h.handed
  rw [List.length_append, List.length_map] at hlen
  have hcalls : f.calls ≠ [] := by
    intro hnil
    have hends := h.ends
    rw [hdone, hnil] at hends
    cases hends
  have hpos := List.length_pos_iff.mpr hcalls
  exact List.eq_nil_of_length_eq_zero (by omega)

/-! ## 5. What `pushByte` leaves -/

theorem pushByte_of_done {host : σ} (h : (flush matchers p.lines .clear host).done = true) :
    (pushByte matchers p host c).next.parser =
        { p with
          line := p.line ++ [c]
          lines := (flush matchers p.lines .clear host).lines } ∧
      (pushByte matchers p host c).calls = (flush matchers p.lines .clear host).calls := by
  rw [pushByte, if_pos h]
  exact ⟨rfl, rfl⟩

/-- The rest of `pushByte`, all stored lines having been handled. -/
def lastPart (matchers : List (Matcher μ σ)) (p : Parser β) (host : σ) (c : β) : Parsed β σ :=
  partialLine matchers { p with line := p.line ++ [c], lines := [] }
    (flush matchers p.lines .clear host).ec (flush matchers p.lines .clear host).host

theorem pushByte_of_not_done {host : σ}
    (h : (flush matchers p.lines .clear host).done = false) :
    (pushByte matchers p host c).next = (lastPart matchers p host c).next ∧
      (pushByte matchers p host c).calls =
        (flush matchers p.lines .clear host).calls ++ (lastPart matchers p host c).calls := by
  rw [pushByte, if_neg (Bool.not_eq_true _ ▸ h)]
  exact ⟨rfl, rfl⟩

/-- What the answer to a partial line makes of the parser. -/
theorem partialLine_leaves (matchers : List (Matcher μ σ)) (p : Parser β) (ec : ErrorCode)
    (host : σ) :
    (partialLine matchers p ec host).next.parser = p ∨
      (partialLine matchers p ec host).next.parser = { p with line := [] } ∨
      (partialLine matchers p ec host).next.parser = { p with skip := true, line := [] } := by
  unfold partialLine
  split
  · exact Or.inl rfl
  · dsimp only
    split
    · exact Or.inl rfl
    · split
      · exact Or.inr (Or.inr rfl)
      · exact Or.inr (Or.inr rfl)
      · exact Or.inr (Or.inr rfl)
      · exact Or.inr (Or.inl rfl)
      · exact Or.inl rfl

/-- `cr_` is read and written by the ends of line only. -/
theorem partialLine_cr {ec : ErrorCode} {host : σ} :
    (partialLine matchers p ec host).next.parser.cr = p.cr := by
  rcases partialLine_leaves matchers p ec host with h | h | h <;> rw [h]

theorem partialLine_lines {ec : ErrorCode} {host : σ} :
    (partialLine matchers p ec host).next.parser.lines = p.lines := by
  rcases partialLine_leaves matchers p ec host with h | h | h <;> rw [h]

theorem pushByte_cr {host : σ} : (pushByte matchers p host c).next.parser.cr = p.cr := by
  unfold pushByte
  dsimp only
  split
  · rfl
  · exact partialLine_cr

/-- The parser after an ordinary byte has nothing pending. -/
theorem resolve_pushByte {host : σ} :
    (pushByte matchers p.resolve host c).next.parser.resolve =
      (pushByte matchers p.resolve host c).next.parser :=
  resolve_of_not_cr (pushByte_cr.trans resolve_cr)

end Parser
end Ice
