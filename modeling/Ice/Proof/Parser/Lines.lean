import Ice.Lib.Lines
import Ice.Proof.Parser.Resolve
import Mathlib.Data.List.Induction

/-!
# The lines of the stream, in one pass and in one split

`parse` hands a complete line to `handle` some time after the byte that ended it: a carriage
return waits for the next byte, and every stored line waits for the next ordinary one. The
batch view is a single split of the whole stream (`batchLines`). The two agree as long as no
handler consumes a partial line, and the reason is `LineInv`: at any time the lines handed
over, followed by the stored ones, are the non-blank lines that have ended, and the rest of
the split is `line_`.

At most one line is ever stored, because a line is stored only after an ordinary byte, and
that byte has emptied the store. So it does no harm that `done` or an error breaks off the
loop over the stored lines.
-/

set_option autoImplicit false

namespace Ice

namespace Parser

open Lib

variable {β μ σ : Type*} [Byte β] {matchers : List (Matcher μ σ)} {p : Parser β} {w : Feed β σ}
  {c : β} {stream : List β}

/-! ## 1. The batch view -/

/-- The stream without its backspaces. -/
def typed (stream : List β) : List β := stream.filter fun c => byte c != bs

/-- The non-blank lines that were ended, and that an ordinary byte came after. -/
def batchLines (stream : List β) : List (List β) :=
  followed (fun line => !blank line) ((typed stream).splitOnP isEol)

/-- What follows the last end of line. -/
def currentLine (stream : List β) : List β := current isEol (typed stream)

theorem typed_concat (hc : byte c ≠ bs) : typed (stream ++ [c]) = typed stream ++ [c] := by
  simp [typed, hc]

theorem typed_concat_backspace (hc : byte c = bs) : typed (stream ++ [c]) = typed stream := by
  simp [typed, hc]

theorem batchLines_eq : batchLines stream =
    followed (fun line => !blank line) (ended isEol (typed stream) ++ [currentLine stream]) := by
  rw [batchLines, splitOnP_eq]
  rfl

/-- A line that ends now is not followed by anything yet. -/
theorem batchLines_concat_eol (hc : isEol c = true) :
    batchLines (stream ++ [c]) = batchLines stream := by
  rw [batchLines_eq, batchLines_eq, currentLine, typed_concat (not_backspace_of_isEol hc),
    ended_concat_sep _ hc, current_concat_sep _ hc, followed_append_nil]
  rfl

/-- An ordinary byte follows every line that has ended. -/
theorem batchLines_concat_ordinary (hc : ordinary c = true) :
    batchLines (stream ++ [c]) = (ended isEol (typed stream)).filter fun line => !blank line := by
  obtain ⟨heol, hbs⟩ := ordinary_iff.mp hc
  rw [batchLines_eq, currentLine, typed_concat hbs, ended_concat _ heol, current_concat _ heol,
    followed_append _ (by simp)]

/-! ## 2. The invariant -/

/-- How the parser stands to the stream it has seen, a pending carriage return resolved. -/
structure LineInv (stream : List β) (p : Parser β) : Prop where
  skip : p.skip = false
  line : p.line = currentLine stream
  lines : batchLines stream ++ p.lines =
    (ended isEol (typed stream)).filter fun line => !blank line
  one : p.lines.length ≤ 1
  -- A line is stored by an end of line only, and nothing was typed since.
  empty : p.lines ≠ [] → p.line = []

theorem lineInv_init : LineInv [] (init : Parser β) where
  skip := rfl
  line := rfl
  lines := rfl
  one := Nat.zero_le 1
  empty := by simp [init]

theorem LineInv.endLine (h : LineInv stream p) (hc : isEol c = true) :
    LineInv (stream ++ [c]) p.endLine := by
  have hbs := not_backspace_of_isEol hc
  refine ⟨h.skip, ?_, ?_, ?_, fun _ => rfl⟩
  · rw [endLine_line, currentLine, typed_concat hbs, current_concat_sep _ hc]
  · rw [batchLines_concat_eol hc, typed_concat hbs, ended_concat_sep _ hc, List.filter_append,
      ← h.lines, List.append_assoc]
    have hline : current isEol (typed stream) = p.line := h.line.symm
    rw [hline]
    cases hb : blank p.line <;> simp [Parser.endLine, hb]
  · cases hb : blank p.line with
    | true => simpa [Parser.endLine, hb] using h.one
    | false =>
      have hlines : p.lines = [] := lines_nil_of_not_blank h.empty hb
      simp [Parser.endLine, hb, hlines]

theorem LineInv.backspace (h : LineInv stream p) (hc : byte c = bs) :
    LineInv (stream ++ [c]) p := by
  have htyped : typed (stream ++ [c]) = typed stream := typed_concat_backspace hc
  refine ⟨h.skip, ?_, ?_, h.one, h.empty⟩
  · rw [currentLine, htyped]
    exact h.line
  · rw [batchLines, htyped]
    exact h.lines

/-- An ordinary byte takes what is stored out of the store, and stays in `line_`. -/
theorem LineInv.ordinary (h : LineInv stream p) (hc : Parser.ordinary c = true) :
    LineInv (stream ++ [c]) { p with line := p.line ++ [c], lines := [] } ∧
      batchLines (stream ++ [c]) = batchLines stream ++ p.lines := by
  obtain ⟨heol, hbs⟩ := ordinary_iff.mp hc
  refine ⟨⟨h.skip, ?_, ?_, Nat.zero_le 1, fun hne => absurd rfl hne⟩, ?_⟩
  · rw [currentLine, typed_concat hbs, current_concat _ heol]
    exact congrArg (· ++ [c]) h.line
  · rw [List.append_nil, batchLines_concat_ordinary hc, typed_concat hbs, ended_concat _ heol]
  · rw [batchLines_concat_ordinary hc, h.lines]

/-! ## 3. One byte -/

/-- Handlers that answer `none` without an error make `handle` return so. -/
theorem handle_ignored {line : List UInt8} {eol : Bool} {ec : ErrorCode} {host : σ}
    (hec : ec.isSet = false)
    (h : ∀ a ∈ (handle matchers line eol ec host).answers, a.state = .none ∧ a.ec.isSet = false) :
    (handle matchers line eol ec host).state = .none ∧
      (handle matchers line eol ec host).ec.isSet = false := by
  rcases handle_last matchers line eol ec host with ⟨-, hstate, hec'⟩ | ⟨a, ha, hstate, hec'⟩
  · rw [hstate, hec']
    exact ⟨rfl, hec⟩
  · rw [hstate, hec']
    exact h a (List.mem_of_getLast? ha)

section Calls

variable {β : Type*} (calls more : List (Call β))

/-- The lines given to `handle` as complete ones. -/
def completes : List (List β) := (calls.filter (·.eol)).map (·.line)

/-- The lines given to `handle` as partial ones. -/
def partials : List (List β) := (calls.filter (!·.eol)).map (·.line)

/-- A handler of a complete line ended the call of `parse` with `done` or an error. -/
def brokenOff : Bool := calls.any fun call => call.eol && call.ends

/-- Every handler that was invoked on a partial line returned `none` without setting `ec`. -/
def PartialsIgnored : Prop :=
  ∀ call ∈ calls, call.eol = false → ∀ a ∈ call.answers, a.state = .none ∧ a.ec.isSet = false

theorem completes_append : completes (calls ++ more) = completes calls ++ completes more := by
  simp [completes]

theorem partials_append : partials (calls ++ more) = partials calls ++ partials more := by
  simp [partials]

theorem brokenOff_append : brokenOff (calls ++ more) = (brokenOff calls || brokenOff more) := by
  simp [brokenOff]

end Calls

omit [Byte β] in
/-- The loop over the stored lines hands over complete lines only. -/
theorem FlushSpec.calls {lines : List (List β)} {f : Flushed β σ} (h : FlushSpec lines f) :
    completes f.calls = f.calls.map (·.line) ∧ partials f.calls = [] ∧
      brokenOff f.calls = f.done := by
  refine ⟨?_, ?_, ?_⟩
  · rw [completes, List.filter_eq_self.mpr h.eol]
  · rw [partials, List.map_eq_nil_iff, List.filter_eq_nil_iff]
    intro call hcall
    simp [h.eol call hcall]
  · rw [h.ends, brokenOff, Bool.eq_iff_iff, List.any_eq_true, List.any_eq_true]
    constructor
    · intro hany
      obtain ⟨call, hcall, hends⟩ := hany
      exact ⟨call, hcall, (Bool.and_eq_true _ _ |>.mp hends).2⟩
    · intro hany
      obtain ⟨call, hcall, hends⟩ := hany
      exact ⟨call, hcall, by rw [h.eol call hcall, hends]; rfl⟩

/-- The end of `parse` hands over the current line, unless it is blank. -/
theorem partialLine_handed {ec : ErrorCode} {host : σ} :
    completes (partialLine matchers p ec host).calls = [] ∧
      brokenOff (partialLine matchers p ec host).calls = false ∧
      partials (partialLine matchers p ec host).calls =
        if blank p.line = true then [] else [p.line] := by
  rw [partialLine_calls]
  cases blank p.line <;> exact ⟨rfl, rfl, rfl⟩

/-- A partial line that is ignored stays. -/
theorem partialLine_ignored {ec : ErrorCode} {host : σ} (hec : ec.isSet = false)
    (h : PartialsIgnored (partialLine matchers p ec host).calls) :
    (partialLine matchers p ec host).next.parser = p := by
  rw [PartialsIgnored, partialLine_calls] at h
  cases hb : blank p.line with
  | true => simp [partialLine, hb]
  | false =>
    rw [hb, if_neg Bool.false_ne_true] at h
    obtain ⟨hstate, hset⟩ := handle_ignored hec (h _ (List.mem_singleton.mpr rfl) rfl)
    simp [partialLine, hb, hstate, hset]

/-- After an ordinary byte, its partial line being ignored, the stored line is gone and the
    byte is in `line_`; what was handed over is the stored line, then the current one. -/
theorem pushByte_ignored {host : σ} (hone : p.lines.length ≤ 1)
    (h : PartialsIgnored (pushByte matchers p host c).calls) :
    (pushByte matchers p host c).next.parser = { p with line := p.line ++ [c], lines := [] } ∧
      completes (pushByte matchers p host c).calls = p.lines ∧
      partials (pushByte matchers p host c).calls =
        if blank (p.line ++ [c]) = true ∨ brokenOff (pushByte matchers p host c).calls = true
        then [] else [p.line ++ [c]] := by
  have hspec := flush_spec matchers p.lines host .clear rfl
  have hhanded := hspec.handed
  obtain ⟨hcompletes, hpartials, hbroken⟩ := hspec.calls
  cases hdone : (flush matchers p.lines .clear host).done with
  | true =>
    obtain ⟨hnext, hcalls⟩ := pushByte_of_done (c := c) hdone
    have hnil := hspec.lines_of_le_one hdone hone
    rw [hnil, List.append_nil] at hhanded
    rw [hcalls, hnext, hnil, hcompletes, hpartials, hbroken, hdone]
    exact ⟨rfl, hhanded, by simp⟩
  | false =>
    obtain ⟨hnext, hcalls⟩ := pushByte_of_not_done (c := c) hdone
    obtain ⟨hnil, hset⟩ := hspec.all hdone
    rw [hnil, List.append_nil] at hhanded
    obtain ⟨hcompletes', hbroken', hpartials'⟩ :
        completes (lastPart matchers p host c).calls = [] ∧
          brokenOff (lastPart matchers p host c).calls = false ∧
          partials (lastPart matchers p host c).calls =
            if blank (p.line ++ [c]) = true then [] else [p.line ++ [c]] := partialLine_handed
    rw [hcalls] at h
    have hstays : (lastPart matchers p host c).next.parser = _ :=
      partialLine_ignored hset fun call hcall => h call (List.mem_append_right _ hcall)
    rw [hcalls, hnext, hstays, completes_append, partials_append, brokenOff_append, hcompletes,
      hcompletes', hpartials, hpartials', hbroken, hbroken', hdone]
    exact ⟨rfl, by simpa using hhanded, by simp⟩

/-- The current line is given to `handle` as a partial one by this call of `parse`. -/
def handsPartial (stream : List β) (c : β) (calls : List (Call β)) : Bool :=
  ordinary c && !blank (currentLine (stream ++ [c])) && !brokenOff calls

theorem LineInv.step (h : LineInv stream w.parser.resolve)
    (hignored : PartialsIgnored (parse matchers w c).calls) :
    LineInv (stream ++ [c]) (parse matchers w c).next.parser.resolve ∧
      batchLines (stream ++ [c]) = batchLines stream ++ completes (parse matchers w c).calls ∧
      partials (parse matchers w c).calls =
        if handsPartial stream c (parse matchers w c).calls then [currentLine (stream ++ [c])]
        else [] := by
  have hskip : w.parser.skip = false := resolve_skip.symm.trans h.skip
  rcases kinds c with heol | hbs | hord
  · obtain ⟨hcalls, -, hnext⟩ := parse_eol matchers c hskip heol
    have hnot : Parser.ordinary c = false := by simp [Parser.ordinary, heol]
    rw [hcalls, hnext, ← endLine_resolve]
    refine ⟨h.endLine heol, ?_, by simp [handsPartial, hnot, partials]⟩
    rw [batchLines_concat_eol heol]
    simp [completes]
  · have hnot : Parser.ordinary c = false := by simp [Parser.ordinary, hbs]
    rw [parse_backspace hskip hbs, resolve_resolve]
    refine ⟨h.backspace hbs, ?_, by simp [handsPartial, hnot, partials]⟩
    rw [batchLines, typed_concat_backspace hbs, batchLines]
    simp [completes]
  · rw [parse_ordinary hskip hord] at hignored ⊢
    obtain ⟨hnext, hcompletes, hpartials⟩ := pushByte_ignored h.one hignored
    obtain ⟨hinv, hbatch⟩ := h.ordinary hord
    have hline : currentLine (stream ++ [c]) = w.parser.resolve.line ++ [c] := hinv.line.symm
    rw [resolve_pushByte, hnext, hcompletes, hpartials, handsPartial, hline, hord]
    refine ⟨hinv, hbatch, ?_⟩
    cases blank (w.parser.resolve.line ++ [c]) <;>
      cases brokenOff (pushByte matchers w.parser.resolve w.host c).calls <;> rfl

/-! ## 4. The stream -/

theorem lineInv_feed {host : σ}
    (h : ∀ out ∈ outputs matchers ⟨init, host⟩ stream, PartialsIgnored out.calls) :
    LineInv stream (feed matchers ⟨init, host⟩ stream).parser.resolve ∧
      (outputs matchers ⟨init, host⟩ stream).flatMap (fun out => completes out.calls) =
        batchLines stream := by
  induction stream using List.reverseRecOn with
  | nil => exact ⟨lineInv_init, rfl⟩
  | append_singleton before c ih =>
    rw [outputs_append] at h ⊢
    obtain ⟨hinv, hlines⟩ := ih fun out hout => h out (List.mem_append_left _ hout)
    obtain ⟨hinv', hbatch, -⟩ := hinv.step (h _ (List.mem_append_right _ List.mem_cons_self))
    rw [feed_append]
    refine ⟨hinv', ?_⟩
    rw [List.flatMap_append, hlines, hbatch]
    simp [outputs]

/-- **`parse` extracts the lines of the batch split.** While the handlers ignore partial
    lines, the complete lines handed over are the non-blank lines of the split that an
    ordinary byte came after; and the current line, unless it is blank, is handed over as a
    partial one once after every ordinary byte, unless a complete line broke the call off. -/
theorem parse_extracts_lines (matchers : List (Matcher μ σ)) (host : σ) (stream : List β)
    (h : ∀ out ∈ outputs matchers ⟨init, host⟩ stream, PartialsIgnored out.calls) :
    (outputs matchers ⟨init, host⟩ stream).flatMap (fun out => completes out.calls) =
        batchLines stream ∧
      ∀ before c after, stream = before ++ c :: after →
        partials (parse matchers (feed matchers ⟨init, host⟩ before) c).calls =
          if handsPartial before c (parse matchers (feed matchers ⟨init, host⟩ before) c).calls
          then [currentLine (before ++ [c])] else [] := by
  refine ⟨(lineInv_feed h).2, ?_⟩
  intro before c after hstream
  subst hstream
  rw [outputs_append] at h
  have hbefore := lineInv_feed fun out hout => h out (List.mem_append_left _ hout)
  exact (hbefore.1.step (h _ (List.mem_append_right _ List.mem_cons_self))).2.2

instance decidablePartialsIgnored (calls : List (Call β)) : Decidable (PartialsIgnored calls) :=
  inferInstanceAs (Decidable (∀ call ∈ calls, call.eol = false →
    ∀ a ∈ call.answers, a.state = .none ∧ a.ec.isSet = false))

/-- A matcher that lets every line pass by. -/
def watch : Matcher Unit Unit := ⟨fun _ _ => some (), fun _ ec host => ⟨.none, ec, host⟩⟩

/-- The hypothesis is met by a stream of two lines, the first ended by `"\r\n"`. -/
theorem parse_extracts_lines_watch :
    (outputs [watch] ⟨init, ()⟩ ([97, 13, 10, 98] : List UInt8)).flatMap
        (fun out => completes out.calls) = [[97]] ∧
      partials (parse [watch] (feed [watch] ⟨init, ()⟩ ([97, 13, 10] : List UInt8)) 98).calls =
        [[98]] := by
  have h := parse_extracts_lines [watch] () ([97, 13, 10, 98] : List UInt8) (by decide)
  refine ⟨h.1.trans (by decide), (h.2 [97, 13, 10] 98 [] rfl).trans (by decide)⟩

end Parser
end Ice
