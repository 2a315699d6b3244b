import Ice.Proof.Parser.Resolve

/-!
# Bytes and their positions

Whether a *byte* is handed over twice can be asked only of bytes that can be told apart. A
stream is therefore fed with its positions, which the matchers do not see: erased, the run
with positions is the run (`outputs_erase`).

What `parse` hands over, and what it keeps, it has been fed: `Within` says so for any property
of bytes.
-/

set_option autoImplicit false

namespace Ice
namespace Parser

variable {β μ σ : Type*} [Byte β] {matchers : List (Matcher μ σ)} {p : Parser β} {w : Feed β σ}
  {c : β}

/-! ## 1. The positions are invisible -/

section Erase

/-- The parser with its bytes only. -/
def erase (p : Parser β) : Parser UInt8 where
  cr := p.cr
  skip := p.skip
  line := text p.line
  lines := p.lines.map text

def eraseCall (call : Call β) : Call UInt8 :=
  ⟨text call.line, call.eol, call.answers, call.state, call.ec⟩

def eraseFeed (w : Feed β σ) : Feed UInt8 σ := ⟨w.parser.erase, w.host⟩

def eraseParsed (out : Parsed β σ) : Parsed UInt8 σ :=
  ⟨out.state, out.ec, eraseFeed out.next, out.calls.map eraseCall⟩

def eraseFlushed (f : Flushed β σ) : Flushed UInt8 σ :=
  ⟨f.lines.map text, f.done, f.ec, f.host, f.calls.map eraseCall⟩

@[simp] theorem byte_byte (c : β) : byte (byte c) = byte c := rfl

@[simp] theorem text_text (line : List β) : text (text line) = text line := by
  simp [text]

@[simp] theorem blank_text (line : List β) : blank (text line) = blank line := by
  simp [blank, text, List.all_map, Function.comp_def]

theorem flush_erase (lines : List (List β)) (ec : ErrorCode) (host : σ) :
    flush matchers (lines.map text) ec host = eraseFlushed (flush matchers lines ec host) := by
  induction lines generalizing ec host with
  | nil => rfl
  | cons line rest ih =>
    rw [List.map_cons, flush, flush, text_text]
    dsimp only
    split
    · rfl
    · rw [ih]
      rfl

theorem partialLine_erase (matchers : List (Matcher μ σ)) (p : Parser β) (ec : ErrorCode)
    (host : σ) :
    partialLine matchers p.erase ec host = eraseParsed (partialLine matchers p ec host) := by
  unfold partialLine
  simp only [erase, blank_text, text_text]
  split
  · rfl
  · split
    · rfl
    · split <;> rfl

theorem pushByte_erase (p : Parser β) (host : σ) (c : β) :
    pushByte matchers p.erase host (byte c) = eraseParsed (pushByte matchers p host c) := by
  have hline : text p.line ++ [byte c] = text (p.line ++ [c]) := by simp [text]
  have hlast := partialLine_erase matchers
    { p with line := p.line ++ [c], lines := [] }
  unfold pushByte
  simp only [erase, flush_erase, hline, List.map_nil] at hlast ⊢
  cases hdone : (flush matchers p.lines .clear host).done with
  | true => simp [eraseFlushed, hdone, eraseParsed, eraseFeed, erase]
  | false => simp [eraseFlushed, hdone, eraseParsed, eraseFeed, erase, hlast]

theorem endLine_erase (p : Parser β) : p.erase.endLine = p.endLine.erase := by
  unfold endLine
  simp only [erase, blank_text]
  cases blank p.line <;> simp [text]

theorem resolve_erase (p : Parser β) : p.erase.resolve = p.resolve.erase := by
  unfold resolve
  rw [show p.erase.cr = p.cr from rfl, endLine_erase]
  cases p.cr <;> rfl

theorem parse_erase (w : Feed β σ) (c : β) :
    parse matchers (eraseFeed w) (byte c) = eraseParsed (parse matchers w c) := by
  unfold parse
  simp only [eraseFeed, resolve_erase, endLine_erase, pushByte_erase, byte_byte]
  rw [show w.parser.erase.skip = w.parser.skip from rfl]
  split
  · split <;> rfl
  · split
    · rfl
    · split
      · rfl
      · split <;> rfl

/-- A run with positions, erased, is the run. -/
theorem outputs_erase (w : Feed β σ) (stream : List β) :
    outputs matchers (eraseFeed w) (text stream) =
      (outputs matchers w stream).map eraseParsed := by
  induction stream generalizing w with
  | nil => rfl
  | cons c rest ih =>
    have hnext : (parse matchers (eraseFeed w) (byte c)).next =
        eraseFeed (parse matchers w c).next := by rw [parse_erase]; rfl
    rw [text, List.map_cons, outputs, outputs, List.map_cons, parse_erase, ← ih, ← hnext]
    rw [parse_erase]
    rfl

end Erase

/-! ## 2. Where the bytes are -/

/-- The bytes that the parser holds. -/
def held (p : Parser β) : List β := p.lines.flatten ++ p.line

/-- Everything that a call of `parse` handed over, and that the parser then holds, meets `S`. -/
structure Within (S : β → Prop) (out : Parsed β σ) : Prop where
  handed : ∀ call ∈ out.calls, ∀ b ∈ call.line, S b
  held : ∀ b ∈ held out.next.parser, S b

variable {S : β → Prop}

theorem held_endLine (h : ∀ b ∈ held p, S b) : ∀ b ∈ held p.endLine, S b := by
  intro b hb
  refine h b ?_
  unfold endLine at hb
  cases hblank : blank p.line with
  | true => simp [held, hblank] at hb ⊢; exact Or.inl hb
  | false => simpa [held, hblank] using hb

theorem held_resolve (h : ∀ b ∈ held p, S b) : ∀ b ∈ held p.resolve, S b := by
  cases hcr : p.cr with
  | true =>
    rw [resolve_of_cr hcr]
    exact held_endLine h
  | false =>
    rw [resolve_of_not_cr hcr]
    exact h

theorem within_partialLine {ec : ErrorCode} {host : σ} (h : ∀ b ∈ held p, S b) :
    Within S (partialLine matchers p ec host) := by
  have hline : ∀ b ∈ p.line, S b := fun b hb => h b (List.mem_append_right _ hb)
  refine ⟨?_, ?_⟩
  · intro call hcall
    rw [partialLine_calls] at hcall
    split at hcall
    · cases hcall
    · rw [List.mem_singleton.mp hcall]
      exact hline
  · -- `line_` stays or is cleared, and the store is not touched.
    have hstored : ∀ b ∈ p.lines.flatten ++ [], S b := by
      rw [List.append_nil]
      exact fun b hb => h b (List.mem_append_left _ hb)
    rcases partialLine_leaves matchers p ec host with hnext | hnext | hnext
    · rw [hnext]
      exact h
    · rw [hnext]
      exact hstored
    · rw [hnext]
      exact hstored

theorem within_pushByte {host : σ} (h : ∀ b ∈ held p, S b) (hc : S c) :
    Within S (pushByte matchers p host c) := by
  have hhanded := (flush_spec matchers p.lines host .clear rfl).handed
  have hstored : ∀ line ∈ p.lines, ∀ b ∈ line, S b := fun line hline b hb =>
    h b (List.mem_append_left _ (List.mem_flatten.mpr ⟨line, hline, hb⟩))
  have hline : ∀ b ∈ p.line ++ [c], S b := by
    intro b hb
    rcases List.mem_append.mp hb with hb | hb
    · exact h b (List.mem_append_right _ hb)
    · exact List.mem_singleton.mp hb ▸ hc
  have hcalls : ∀ call ∈ (flush matchers p.lines .clear host).calls, ∀ b ∈ call.line, S b := by
    intro call hcall
    refine hstored call.line ?_
    rw [← hhanded]
    exact List.mem_append_left _ (List.mem_map_of_mem hcall)
  cases hdone : (flush matchers p.lines .clear host).done with
  | true =>
    obtain ⟨hnext, heq⟩ := pushByte_of_done (c := c) hdone
    refine ⟨by rw [heq]; exact hcalls, ?_⟩
    intro b hb
    rw [hnext] at hb
    rcases List.mem_append.mp hb with hb | hb
    · obtain ⟨line, hrest, hb⟩ := List.mem_flatten.mp hb
      refine hstored line ?_ b hb
      rw [← hhanded]
      exact List.mem_append_right _ hrest
    · exact hline b hb
  | false =>
    obtain ⟨hnext, heq⟩ := pushByte_of_not_done (c := c) hdone
    have hlast : Within S (lastPart matchers p host c) := within_partialLine hline
    refine ⟨?_, by rw [hnext]; exact hlast.held⟩
    intro call hcall
    rw [heq] at hcall
    rcases List.mem_append.mp hcall with hcall | hcall
    · exact hcalls call hcall
    · exact hlast.handed call hcall

theorem within_parse (matchers : List (Matcher μ σ)) (h : ∀ b ∈ held w.parser, S b)
    (hc : S c) : Within S (parse matchers w c) := by
  have hresolve := held_resolve h
  unfold parse
  dsimp only
  split
  · refine ⟨by simp, ?_⟩
    split <;> exact h
  · split
    · exact ⟨by simp, held_endLine h⟩
    · split
      · exact ⟨by simp, hresolve⟩
      · split
        · exact ⟨by simp, hresolve⟩
        · exact within_pushByte hresolve hc

/-- What is handed over during a stream was held before or is part of the stream. -/
theorem within_outputs (matchers : List (Matcher μ σ)) {stream : List β}
    (h : ∀ b ∈ held w.parser, S b) (hs : ∀ b ∈ stream, S b) :
    ∀ out ∈ outputs matchers w stream, Within S out := by
  induction stream generalizing w with
  | nil => simp [outputs]
  | cons c rest ih =>
    have hparse := within_parse matchers h (hs c List.mem_cons_self)
    intro out hout
    rcases List.mem_cons.mp hout with rfl | hout
    · exact hparse
    · exact ih hparse.held (fun b hb => hs b (List.mem_cons_of_mem c hb)) out hout

/-- What is held after a stream was held before or is part of the stream. -/
theorem held_feed {stream : List β} (h : ∀ b ∈ held w.parser, S b)
    (hs : ∀ b ∈ stream, S b) : ∀ b ∈ held (feed matchers w stream).parser, S b := by
  induction stream generalizing w with
  | nil => exact h
  | cons c rest ih =>
    exact ih (within_parse matchers h (hs c List.mem_cons_self)).held
      fun b hb => hs b (List.mem_cons_of_mem c hb)

end Parser
end Ice
