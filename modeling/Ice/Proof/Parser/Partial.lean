import Ice.Proof.Parser.Positions
import Mathlib.Data.List.Sigma

/-!
# Partial text that was handled

A handler that answers `more`, `skip`, `next` or `done` has handled the partial line, and
`parse` is to consume it. It does so by the answer that `handle` *returns*, the last one, and
only if that is `more`, `skip` or `next`: an earlier answer does not count, and after `done`
`parse` returns before the `switch` that lists `done` among the answers to consume the line
on. In those two cases the text stays, in `line_` (`Kept`) or stored by an end of line
(`Stored`), and the bytes that follow offer it to the matchers again (`offered`).
-/

set_option autoImplicit false

namespace Ice
namespace Parser

variable {β μ σ : Type*} [Byte β] {matchers : List (Matcher μ σ)} {p : Parser β} {w : Feed β σ}
  {c : β}

/-! ## 1. What becomes of the partial line -/

/-- The partial line that a call of `parse` hands over stays or is consumed: that depends on
    the answer that `handle` returns, the last one. -/
theorem partialLine_next {ec : ErrorCode} {host : σ} {call : Call β}
    (hcall : call ∈ (partialLine matchers p ec host).calls) (hset : call.ec.isSet = false) :
    blank p.line = false ∧ call.line = p.line ∧
      (call.answers = [] ∧ call.state = .none ∨
        ∃ a, call.answers.getLast? = some a ∧ call.state = a.state) ∧
      (partialLine matchers p ec host).next.parser =
        if call.state = .none ∨ call.state = .done then p
        else { p with skip := p.skip || call.state != .next, line := [] } := by
  rw [partialLine_calls] at hcall
  unfold partialLine
  split at hcall
  · cases hcall
  · rename_i hblank
    rw [if_neg hblank]
    obtain rfl := List.mem_singleton.mp hcall
    have hlast := handle_last matchers (text p.line) false ec host
    dsimp only at hset ⊢
    generalize handle matchers (text p.line) false ec host = r at hset hlast ⊢
    refine ⟨by simpa using hblank, rfl, ?_, ?_⟩
    · rcases hlast with ⟨hnil, hstate, -⟩ | ⟨a, ha, hstate, -⟩
      · exact Or.inl ⟨hnil, hstate⟩
      · exact Or.inr ⟨a, ha, hstate⟩
    · cases hstate : r.state <;> simp [hset]

/-- A partial line is handed over by the last part of `parse` only. -/
theorem parse_partial {call : Call β} (hcall : call ∈ (parse matchers w c).calls)
    (heol : call.eol = false) :
    call ∈ (lastPart matchers w.parser.resolve w.host c).calls ∧
      (parse matchers w c).next = (lastPart matchers w.parser.resolve w.host c).next ∧
      w.parser.skip = false := by
  cases hskip : w.parser.skip with
  | true =>
    rw [(parse_skip matchers c hskip).1] at hcall
    cases hcall
  | false =>
    rcases kinds c with hc | hc | hc
    · rw [(parse_eol matchers c hskip hc).1] at hcall
      cases hcall
    · rw [parse_backspace hskip hc] at hcall
      cases hcall
    · have hspec := flush_spec matchers w.parser.resolve.lines w.host .clear rfl
      -- A line that was stored is complete.
      have hflush : call ∉ (flush matchers w.parser.resolve.lines .clear w.host).calls := by
        intro hin
        rw [hspec.eol call hin] at heol
        cases heol
      rw [parse_ordinary hskip hc] at hcall ⊢
      cases hdone : (flush matchers w.parser.resolve.lines .clear w.host).done with
      | true =>
        rw [(pushByte_of_done hdone).2] at hcall
        exact absurd hcall hflush
      | false =>
        obtain ⟨hnext, heq⟩ := pushByte_of_not_done (c := c) hdone
        rw [heq] at hcall
        exact ⟨(List.mem_append.mp hcall).resolve_left hflush, hnext, rfl⟩

/-! ## 2. What is offered again -/

/-- Some matcher matches the text. -/
def matched (matchers : List (Matcher μ σ)) (line : List UInt8) (eol : Bool) : Bool :=
  matchers.any fun matcher => (matcher.matches_ line eol).isSome

/-- With the line in `line_`, the stream makes some matcher match it once more: grown by one
    ordinary byte after another, or complete and followed by an ordinary byte. -/
def offered (matchers : List (Matcher μ σ)) : List β → List β → Bool
  | _, [] => false
  | line, c :: rest =>
    if isEol c then matched matchers (text line) true && rest.any ordinary
    else if ordinary c then
      matched matchers (text (line ++ [c])) false || offered matchers (line ++ [c]) rest
    else offered matchers line rest

theorem handleFrom_answers (line : List UInt8) (eol : Bool) (i : ℕ)
    (matchers : List (Matcher μ σ)) (state : State) (ec : ErrorCode) (host : σ) :
    (handleFrom line eol i matchers state ec host).answers = [] ↔
      matched matchers line eol = false := by
  induction matchers generalizing i with
  | nil => simp [handleFrom, matched]
  | cons matcher rest ih =>
    rw [handleFrom]
    cases hm : matcher.matches_ line eol with
    | none =>
      rw [ih (i + 1)]
      simp [matched, hm]
    | some sm =>
      have hmatched : matched (matcher :: rest) line eol = true := by simp [matched, hm]
      rw [hmatched]
      dsimp only
      split <;> simp

/-- Handlers are invoked on the texts that match. -/
theorem handle_answers (line : List UInt8) (eol : Bool) (ec : ErrorCode) (host : σ) :
    (handle matchers line eol ec host).answers = [] ↔ matched matchers line eol = false :=
  handleFrom_answers line eol 0 matchers .none ec host

/-- Some handler is invoked on a text with one of these bytes in it. -/
def Again (bytes : List β) (outs : List (Parsed β σ)) : Prop :=
  ∃ out ∈ outs, ∃ later ∈ out.calls, later.answers ≠ [] ∧ ∃ b ∈ bytes, b ∈ later.line

variable {bytes line stream : List β}

omit [Byte β] in
theorem again_nil : ¬ Again bytes ([] : List (Parsed β σ)) := by
  simp [Again]

omit [Byte β] in
theorem again_cons {out : Parsed β σ} {outs : List (Parsed β σ)} :
    Again bytes (out :: outs) ↔
      (∃ later ∈ out.calls, later.answers ≠ [] ∧ ∃ b ∈ bytes, b ∈ later.line) ∨
        Again bytes outs := by
  simp [Again]

/-- A call of `parse` without a call of `handle`. -/
theorem again_of_no_calls {c : β} (h : (parse matchers w c).calls = []) :
    Again bytes (outputs matchers w (c :: stream)) ↔
      Again bytes (outputs matchers (parse matchers w c).next stream) := by
  rw [outputs, again_cons, h]
  simp

/-- A parser that holds nothing but bytes of the stream hands over nothing else. -/
theorem not_again (h : ∀ b ∈ held w.parser, b ∉ bytes) (hdisj : ∀ b ∈ bytes, b ∉ stream) :
    ¬ Again bytes (outputs matchers w stream) := by
  intro hagain
  obtain ⟨out, hout, later, hin, -, b, hb, hb'⟩ := hagain
  have hwithin := within_outputs (S := (· ∉ bytes)) matchers h
    (fun x hx hx' => hdisj x hx' hx) out hout
  exact hwithin.handed later hin b hb' hb

/-- What `flush` does to a single line. -/
theorem flush_single (matchers : List (Matcher μ σ)) (line : List β) (ec : ErrorCode)
    (host : σ) :
    (flush matchers [line] ec host).lines = [] ∧
      ∃ call, (flush matchers [line] ec host).calls = [call] ∧ call.line = line ∧
        (call.answers = [] ↔ matched matchers (text line) true = false) := by
  rw [flush]
  dsimp only
  split
  · exact ⟨rfl, _, rfl, rfl, handle_answers ..⟩
  · exact ⟨rfl, _, rfl, rfl, handle_answers ..⟩

/-- The line has been stored, and nothing has come since. -/
structure Stored (line : List β) (p : Parser β) : Prop where
  skip : p.skip = false
  lines : p.resolve.lines = [line]
  line : p.resolve.line = []

/-- The line is in `line_`. -/
structure Kept (line : List β) (p : Parser β) : Prop where
  blank : blank line = false
  skip : p.skip = false
  lines : p.resolve.lines = []
  line : p.resolve.line = line

namespace Stored

theorem eol (h : Stored line w.parser) (hc : isEol c = true) :
    (parse matchers w c).calls = [] ∧ Stored line (parse matchers w c).next.parser := by
  obtain ⟨hcalls, -, hnext⟩ := parse_eol matchers c h.skip hc
  refine ⟨hcalls, ?_, ?_, ?_⟩
  · rw [← resolve_skip, hnext, endLine_skip, h.skip]
  · rw [hnext, ← endLine_resolve]
    simp [endLine, h.lines, h.line]
  · rw [hnext, endLine_line]

theorem backspace (h : Stored line w.parser) (hc : byte c = bs) :
    (parse matchers w c).calls = [] ∧ Stored line (parse matchers w c).next.parser := by
  rw [parse_backspace h.skip hc]
  refine ⟨rfl, resolve_skip.trans h.skip, ?_, ?_⟩
  · rw [resolve_resolve]
    exact h.lines
  · rw [resolve_resolve]
    exact h.line

/-- An ordinary byte hands the stored line over, and nothing of it is left behind. -/
theorem ordinary (h : Stored line w.parser) (hc : Parser.ordinary c = true) :
    (∃ call more, (parse matchers w c).calls = call :: more ∧ call.line = line ∧
        (call.answers = [] ↔ matched matchers (text line) true = false) ∧
        ∀ later ∈ more, ∀ b ∈ later.line, b = c) ∧
      ∀ b ∈ held (parse matchers w c).next.parser, b = c := by
  rw [parse_ordinary h.skip hc]
  obtain ⟨hnil, call, hcalls, hline, hanswers⟩ :=
    flush_single matchers line .clear w.host
  rw [← h.lines] at hnil hcalls
  cases hdone : (flush matchers w.parser.resolve.lines .clear w.host).done with
  | true =>
    obtain ⟨hnext, heq⟩ := pushByte_of_done (c := c) hdone
    refine ⟨⟨call, [], heq.trans hcalls, hline, hanswers, by simp⟩, ?_⟩
    rw [hnext, hnil, h.line]
    simp [held]
  | false =>
    obtain ⟨hnext, heq⟩ := pushByte_of_not_done (c := c) hdone
    have hlast : Within (· = c) (lastPart matchers w.parser.resolve w.host c) := by
      apply within_partialLine
      simp [held, h.line]
    refine ⟨⟨call, _, by rw [heq, hcalls]; rfl, hline, hanswers, hlast.handed⟩, ?_⟩
    rw [hnext]
    exact hlast.held

/-- A stored line is offered to the matchers by the next ordinary byte, and by no other. -/
theorem again_iff (h : Stored line w.parser) (hbytes : bytes ≠ [])
    (hsub : ∀ b ∈ bytes, b ∈ line) (hdisj : ∀ b ∈ bytes, b ∉ stream) :
    Again bytes (outputs matchers w stream) ↔
      (matched matchers (text line) true && stream.any Parser.ordinary) = true := by
  induction stream generalizing w with
  | nil => simp [outputs, again_nil]
  | cons c rest ih =>
    have hrest : ∀ b ∈ bytes, b ∉ rest := fun b hb hin => hdisj b hb (List.mem_cons_of_mem c hin)
    have hc : ∀ b ∈ bytes, b ≠ c := fun b hb hbc => hdisj b hb (hbc ▸ List.mem_cons_self)
    rcases kinds c with heol | hbs | hord
    · obtain ⟨hcalls, hnext⟩ := h.eol heol
      rw [again_of_no_calls hcalls, ih hnext hrest]
      simp [Parser.ordinary, heol]
    · obtain ⟨hcalls, hnext⟩ := h.backspace hbs
      rw [again_of_no_calls hcalls, ih hnext hrest]
      simp [Parser.ordinary, hbs]
    · obtain ⟨⟨call, more, hcalls, hline, hanswers, hmore⟩, hheld⟩ := h.ordinary hord
      have hlater : ¬ Again bytes (outputs matchers (parse matchers w c).next rest) :=
        not_again (fun b hb hin => hc b hin (hheld b hb)) hrest
      rw [outputs, again_cons, or_iff_left hlater, hcalls, List.any_cons, hord, Bool.true_or,
        Bool.and_true]
      constructor
      · intro hagain
        obtain ⟨later, hin, hinvoked, b, hb, hb'⟩ := hagain
        rcases List.mem_cons.mp hin with rfl | hin
        · by_contra hnot
          exact hinvoked (hanswers.mpr (by simpa using hnot))
        · exact absurd (hmore later hin b hb') (hc b hb)
      · intro hmatched
        obtain ⟨b, hb⟩ := List.exists_mem_of_ne_nil bytes hbytes
        refine ⟨call, List.mem_cons_self, ?_, b, hb, hline ▸ hsub b hb⟩
        intro hnil
        rw [hanswers.mp hnil] at hmatched
        cases hmatched

end Stored

namespace Kept

/-- An end of line stores the line. -/
theorem eol (h : Kept line w.parser) (hc : isEol c = true) :
    (parse matchers w c).calls = [] ∧ Stored line (parse matchers w c).next.parser := by
  obtain ⟨hcalls, -, hnext⟩ := parse_eol matchers c h.skip hc
  refine ⟨hcalls, ?_, ?_, ?_⟩
  · rw [← resolve_skip, hnext, endLine_skip, h.skip]
  · rw [hnext, ← endLine_resolve]
    simp [endLine, h.lines, h.line, h.blank]
  · rw [hnext, endLine_line]

theorem backspace (h : Kept line w.parser) (hc : byte c = bs) :
    (parse matchers w c).calls = [] ∧ Kept line (parse matchers w c).next.parser := by
  rw [parse_backspace h.skip hc]
  refine ⟨rfl, h.blank, resolve_skip.trans h.skip, ?_, ?_⟩
  · rw [resolve_resolve]
    exact h.lines
  · rw [resolve_resolve]
    exact h.line

/-- An ordinary byte hands the line over, grown by it; if no matcher matches, it stays. -/
theorem ordinary (h : Kept line w.parser) (hc : Parser.ordinary c = true) :
    (∃ call, (parse matchers w c).calls = [call] ∧ call.line = line ++ [c] ∧
        (call.answers = [] ↔ matched matchers (text (line ++ [c])) false = false)) ∧
      (matched matchers (text (line ++ [c])) false = false →
        Kept (line ++ [c]) (parse matchers w c).next.parser) := by
  have hblank : Parser.blank (line ++ [c]) = false := by
    rw [Parser.blank, List.all_append, Bool.and_eq_false_iff]
    exact Or.inl h.blank
  have hflush : flush matchers w.parser.resolve.lines .clear w.host =
      ⟨[], false, .clear, w.host, []⟩ := by
    rw [h.lines]
    rfl
  obtain ⟨hnext, hcalls⟩ := pushByte_of_not_done (c := c) (congrArg Flushed.done hflush)
  have hlast : lastPart matchers w.parser.resolve w.host c = partialLine matchers
      { w.parser.resolve with line := line ++ [c], lines := [] } .clear w.host := by
    rw [lastPart, hflush, h.line]
  rw [parse_ordinary h.skip hc, hnext, hcalls, hlast, hflush, partialLine_calls, hblank,
    if_neg Bool.false_ne_true]
  refine ⟨⟨_, rfl, rfl, handle_answers ..⟩, fun hmatched => ?_⟩
  -- No handler was invoked, so `handle` returned `none`.
  have hnil := (handle_answers (text (line ++ [c])) false .clear w.host).mpr hmatched
  have hlast' := handle_last matchers (text (line ++ [c])) false .clear w.host
  rw [hnil] at hlast'
  obtain ⟨-, hstate, hec⟩ := hlast'.resolve_right (by simp)
  have hres := resolve_of_not_cr (p := { w.parser.resolve with
    line := line ++ [c], lines := [] }) resolve_cr
  have hparser : (partialLine matchers { w.parser.resolve with line := line ++ [c], lines := [] }
      .clear w.host).next.parser =
        { w.parser.resolve with line := line ++ [c], lines := [] } := by
    simp [partialLine, hblank, hstate, hec]
  rw [hparser]
  refine ⟨hblank, resolve_skip.trans h.skip, ?_, ?_⟩
  · rw [hres]
  · rw [hres]

/-- Which bytes offer the line to the matchers again. -/
theorem again_iff (h : Kept line w.parser) (hbytes : bytes ≠ [])
    (hsub : ∀ b ∈ bytes, b ∈ line) (hdisj : ∀ b ∈ bytes, b ∉ stream) :
    Again bytes (outputs matchers w stream) ↔ offered matchers line stream = true := by
  induction stream generalizing w line with
  | nil => simp [outputs, again_nil, offered]
  | cons c rest ih =>
    have hrest : ∀ b ∈ bytes, b ∉ rest := fun b hb hin => hdisj b hb (List.mem_cons_of_mem c hin)
    rw [offered]
    rcases kinds c with heol | hbs | hord
    · obtain ⟨hcalls, hnext⟩ := h.eol heol
      rw [again_of_no_calls hcalls, hnext.again_iff hbytes hsub hrest, if_pos heol]
    · obtain ⟨hcalls, hnext⟩ := h.backspace hbs
      have heol : isEol c = false :=
        Bool.eq_false_iff.mpr fun heol => not_backspace_of_isEol heol hbs
      rw [again_of_no_calls hcalls, ih hnext hsub hrest]
      simp [Parser.ordinary, hbs, heol]
    · obtain ⟨⟨call, hcalls, hline, hanswers⟩, hkept⟩ := h.ordinary hord
      have heol := (ordinary_iff.mp hord).1
      have hsub' : ∀ b ∈ bytes, b ∈ line ++ [c] := fun b hb => List.mem_append_left _ (hsub b hb)
      rw [outputs, again_cons, hcalls, heol, if_neg Bool.false_ne_true, if_pos hord]
      cases hmatched : matched matchers (text (line ++ [c])) false with
      | true =>
        obtain ⟨b, hb⟩ := List.exists_mem_of_ne_nil bytes hbytes
        refine iff_of_true (Or.inl ⟨call, List.mem_singleton_self _, ?_, b, hb, ?_⟩) rfl
        · intro hnil
          rw [hanswers.mp hnil] at hmatched
          cases hmatched
        · rw [hline]
          exact hsub' b hb
      | false =>
        rw [Bool.false_or, ← ih (hkept hmatched) hsub' hrest]
        apply or_iff_right
        intro hagain
        obtain ⟨later, hin, hinvoked, -⟩ := hagain
        rw [List.mem_singleton.mp hin] at hinvoked
        exact hinvoked (hanswers.mpr hmatched)

end Kept

/-! ## 3. Every run -/

section Handled

variable {call : Call β} (hcall : call ∈ (parse matchers w c).calls) (heol : call.eol = false)
  (hset : call.ec.isSet = false)

include hcall heol hset

/-- An answer other than `none` and `done` leaves nothing behind. -/
theorem held_consumed {a : Answer} (ha : call.answers.getLast? = some a)
    (hnone : a.state ≠ .none) (hdone : a.state ≠ .done) :
    held (parse matchers w c).next.parser = [] := by
  obtain ⟨hlast, hnext, -⟩ := parse_partial hcall heol
  obtain ⟨-, -, hstate, hparser⟩ := partialLine_next hlast hset
  have heq : call.state = a.state := by
    rcases hstate with ⟨hnil, -⟩ | ⟨a', ha', heq⟩
    · rw [hnil] at ha
      cases ha
    · rw [heq, Option.some.inj (ha'.symm.trans ha)]
  rw [heq, if_neg (not_or.mpr ⟨hnone, hdone⟩)] at hparser
  rw [hnext, lastPart, hparser]
  rfl

/-- After any other answer the line stays. -/
theorem kept_of_answer
    (ha : ∀ a, call.answers.getLast? = some a → a.state = .none ∨ a.state = .done) :
    Kept call.line (parse matchers w c).next.parser := by
  obtain ⟨hlast, hnext, hskip⟩ := parse_partial hcall heol
  obtain ⟨hblank, hline, hstate, hparser⟩ := partialLine_next hlast hset
  have hkept : call.state = .none ∨ call.state = .done := by
    rcases hstate with ⟨-, heq⟩ | ⟨a, hget, heq⟩
    · exact Or.inl heq
    · rw [heq]
      exact ha a hget
  rw [if_pos hkept] at hparser
  rw [hnext, hline, lastPart, hparser]
  have hres := resolve_of_not_cr (p := { w.parser.resolve with
    line := w.parser.resolve.line ++ [c], lines := [] }) resolve_cr
  refine ⟨hblank, resolve_skip.trans hskip, ?_, ?_⟩
  · rw [hres]
  · rw [hres]

end Handled

/-- What is handed over comes from the stream so far, so none of it comes once more. -/
theorem line_avoids_rest {host : σ} {bytes : List UInt8} {before : List (UInt8 × ℕ)}
    {c : UInt8 × ℕ} {after : List (UInt8 × ℕ)} {call : Call (UInt8 × ℕ)}
    (hstream : bytes.zipIdx = before ++ c :: after)
    (hcall : call ∈ (parse matchers (feed matchers ⟨init, host⟩ before) c).calls) :
    ∀ b ∈ call.line, b ∉ after := by
  have hbefore : ∀ b ∈ held (feed matchers ⟨init, host⟩ before).parser, b ∈ before ++ [c] :=
    held_feed (by simp [held, init]) fun b hb => List.mem_append_left _ hb
  have hnow := within_parse (c := c) matchers hbefore (by simp)
  have hnodup : (before ++ [c] ++ after).Nodup := by
    rw [List.append_assoc, List.singleton_append, ← hstream]
    exact (List.nodup_zipIdx_map_snd bytes).of_map
  intro b hb hb'
  exact List.disjoint_of_nodup_append hnodup (hnow.handed call hcall b hb) hb'

/-- **When handled partial text is consumed.** No byte of it, told apart by its position, is
    part of a text on which a handler is invoked in a later call of `parse` if and only if the
    last handler that was invoked on it answered neither `none` nor `done`, or the bytes that
    follow do not offer it to a matcher that matches. -/
theorem partial_consumed_iff (matchers : List (Matcher μ σ)) (host : σ) (bytes : List UInt8)
    (before : List (UInt8 × ℕ)) (c : UInt8 × ℕ) (after : List (UInt8 × ℕ))
    {call : Call (UInt8 × ℕ)} (hstream : bytes.zipIdx = before ++ c :: after)
    (hcall : call ∈ (parse matchers (feed matchers ⟨init, host⟩ before) c).calls)
    (heol : call.eol = false) (hset : call.ec.isSet = false)
    (hhandled : ∃ a ∈ call.answers, a.state ≠ .none) :
    (∀ out ∈ outputs matchers (parse matchers (feed matchers ⟨init, host⟩ before) c).next after,
        ∀ later ∈ out.calls, later.answers ≠ [] → ∀ b ∈ call.line, b ∉ later.line) ↔
      (∀ a, call.answers.getLast? = some a → a.state ≠ .none ∧ a.state ≠ .done) ∨
        offered matchers call.line after = false := by
  obtain ⟨a, ha, -⟩ := hhandled
  obtain ⟨a, ha⟩ : ∃ a, call.answers.getLast? = some a :=
    ⟨_, List.getLast?_eq_some_getLast (List.ne_nil_of_mem ha)⟩
  have hrest := line_avoids_rest hstream hcall
  have hleft : ∀ outs : List (Parsed (UInt8 × ℕ) σ),
      (∀ out ∈ outs, ∀ later ∈ out.calls, later.answers ≠ [] → ∀ b ∈ call.line, b ∉ later.line) ↔
        ¬ Again call.line outs := by
    intro outs
    simp [Again]
  rw [hleft]
  by_cases hlast : a.state ≠ .none ∧ a.state ≠ .done
  · refine iff_of_true (not_again ?_ hrest) (Or.inl fun a' ha' => ?_)
    · rw [held_consumed hcall heol hset ha hlast.1 hlast.2]
      simp
    · obtain rfl := Option.some.inj (ha.symm.trans ha')
      exact hlast
  · have hkept : Kept call.line _ := kept_of_answer hcall heol hset fun a' ha' => by
      obtain rfl := Option.some.inj (ha.symm.trans ha')
      by_contra hstate
      exact hlast (not_or.mp hstate)
    have hne : call.line ≠ [] := by
      intro hnil
      have hblank := hkept.blank
      rw [hnil, blank_nil] at hblank
      cases hblank
    rw [hkept.again_iff hne (fun b hb => hb) hrest, Bool.not_eq_true,
      or_iff_right fun h => hlast (h a ha)]

/-- A matcher that answers every text with `state`. -/
def always (state : State) : Matcher Unit Unit :=
  ⟨fun _ _ => some (), fun _ ec host => ⟨state, ec, host⟩⟩

/-- The hypotheses are met by a first byte that is answered with `more`, then with `next`. -/
theorem partial_consumed_iff_next :
    ∃ call ∈ (parse [always .more, always .next] ⟨init, ()⟩ ((97, 0) : UInt8 × ℕ)).calls,
      call.line = [(97, 0)] ∧
      ∀ out ∈ outputs [always .more, always .next]
          (parse [always .more, always .next] ⟨init, ()⟩ ((97, 0) : UInt8 × ℕ)).next [(98, 1)],
        ∀ later ∈ out.calls, later.answers ≠ [] → ∀ b ∈ call.line, b ∉ later.line := by
  refine ⟨⟨[(97, 0)], false, [⟨0, .more, .clear⟩, ⟨1, .next, .clear⟩], .next, .clear⟩,
    by decide, rfl, ?_⟩
  refine (partial_consumed_iff [always .more, always .next] () [97, 98] [] (97, 0) [(98, 1)] rfl
    (by decide) rfl rfl ⟨⟨1, .next, .clear⟩, by decide, by decide⟩).mpr (Or.inl ?_)
  intro a ha
  obtain rfl := Option.some.inj ha
  decide

/-- A call for a first byte `'a'` has a handler that handled it, and a call for the `'b'` that
    comes next hands it to a handler again. -/
def HandledTwice (matchers : List (Matcher Unit Unit)) : Prop :=
  ∃ call ∈ (parse matchers ⟨init, ()⟩ ((97, 0) : UInt8 × ℕ)).calls,
    call.eol = false ∧ call.ec.isSet = false ∧
      (∃ a ∈ call.answers, a.state = .done ∨ a.state = .more) ∧
      ∃ later ∈ (parse matchers (parse matchers ⟨init, ()⟩ ((97, 0) : UInt8 × ℕ)).next
          (98, 1)).calls,
        later.answers ≠ [] ∧ ((97, 0) : UInt8 × ℕ) ∈ call.line ∧ (97, 0) ∈ later.line

/-- **Handled text that is handed over again**: after `done`, and after a `more` that another
    matcher answers with `none`. -/
theorem handled_text_handed_again :
    HandledTwice [always .done] ∧ HandledTwice [always .more, always .none] := by
  unfold HandledTwice
  constructor
  · decide
  · decide

end Parser
end Ice
