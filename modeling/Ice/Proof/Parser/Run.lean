import Ice.Proof.Parser.Resolve

/-!
# `run` and the end of the stream

`run` has two ways out: `stream.recv` leaves an error, or `parse` returns `done`. A peer that
closed gives neither: `recv` returns 0 with a clear `ec`, and `run` calls it again. So `run`
returns on a finite stream exactly where a handler ends it on one of the bytes
(`run_returns_iff`), and calls `recv` for ever on any other, as on the empty stream
(`run_spins`).
-/

set_option autoImplicit false

namespace Ice

variable {β μ σ : Type*} [Byte β]

/-! ## 1. How `parse` returns -/

omit [Byte β] in
/-- `parse` returns `done` where one of its calls of `handle` makes it, and otherwise leaves
    no error. -/
structure Parsed.Tells (r : Parsed β σ) : Prop where
  done : r.state = .done ↔ ∃ call ∈ r.calls, call.ends = true
  clear : r.state ≠ .done → r.ec.isSet = false

namespace Parser

variable {matchers : List (Matcher μ σ)} {p : Parser β} {w : Feed β σ} {c : β}

theorem partialLine_tells {ec : ErrorCode} {host : σ} (hec : ec.isSet = false) :
    (partialLine matchers p ec host).Tells := by
  unfold partialLine
  split
  · exact ⟨by simp, fun _ => hec⟩
  · dsimp only
    generalize handle matchers (text p.line) false ec host = r
    by_cases hends : r.state = .done ∨ r.ec.isSet = true
    · rw [if_pos hends]
      exact ⟨by simpa [Call.ends] using hends, fun hne => absurd rfl hne⟩
    · rw [if_neg hends]
      obtain ⟨hstate, hset⟩ := not_or.mp hends
      rw [Bool.not_eq_true] at hset
      split <;> exact ⟨by simp [Call.ends, hset], fun _ => hset⟩

theorem pushByte_tells {host : σ} : (pushByte matchers p host c).Tells := by
  have hspec := flush_spec matchers p.lines host .clear rfl
  unfold pushByte
  dsimp only
  cases hdone : (flush matchers p.lines .clear host).done with
  | true =>
    rw [if_pos rfl]
    refine ⟨⟨fun _ => ?_, fun _ => rfl⟩, fun hne => absurd rfl hne⟩
    rw [hspec.ends, List.any_eq_true] at hdone
    exact hdone
  | false =>
    rw [if_neg Bool.false_ne_true]
    generalize hp : ({ p with line := p.line ++ [c], lines := [] } : Parser β) = p'
    have hrest : (partialLine matchers p' _ (flush matchers p.lines .clear host).host).Tells :=
      partialLine_tells (hspec.all hdone).2
    refine ⟨?_, hrest.clear⟩
    have hcalls : ¬ ∃ call ∈ (flush matchers p.lines .clear host).calls, call.ends = true := by
      rw [← List.any_eq_true, ← hspec.ends, hdone]
      exact Bool.false_ne_true
    simp only [List.mem_append, or_and_right, exists_or, hcalls, false_or]
    exact hrest.done

theorem parse_tells : (parse matchers w c).Tells := by
  unfold parse
  dsimp only
  split
  · exact ⟨by simp, fun _ => rfl⟩
  · split
    · exact ⟨by simp, fun _ => rfl⟩
    · split
      · exact ⟨by simp, fun _ => rfl⟩
      · split
        · exact ⟨by simp, fun _ => rfl⟩
        · exact pushByte_tells

/-! ## 2. What `run` does with the stream -/

namespace Run

variable {bytes : List β} {n : ℕ}

theorem after_succ {s : Run β σ} (h : after matchers w bytes n = some s) :
    after matchers w bytes (n + 1) = s.step matchers (stream bytes n) := by
  unfold after at h ⊢
  rw [List.range_succ, List.map_append, Lib.Machine.exec_append, h]
  exact Option.bind_fun_some _

/-- A run that is not over has fed what it was given to `parse`, which never returned
    `done`. -/
theorem after_cases (matchers : List (Matcher μ σ)) (w : Feed β σ) (bytes : List β) (n : ℕ) :
    ((∃ m s, after matchers w bytes m = some s ∧ s.returned = true) ∧
        ∃ r ∈ outputs matchers w bytes, r.state = .done) ∨
      (∃ ec, after matchers w bytes n =
          some ⟨Parser.feed matchers w (bytes.take n), ec, false⟩) ∧
        ∀ r ∈ outputs matchers w (bytes.take n), r.state ≠ .done := by
  induction n with
  | zero => exact Or.inr ⟨⟨.clear, rfl⟩, by simp [outputs]⟩
  | succ n ih =>
    rcases ih with hdone | ⟨⟨ec, hn⟩, hnot⟩
    · exact Or.inl hdone
    · have hstep := after_succ hn
      cases hc : bytes[n]? with
      | none =>
        -- the stream has ended, and nothing happens
        have htake : bytes.take (n + 1) = bytes.take n := by
          have hlen := List.getElem?_eq_none_iff.mp hc
          rw [List.take_of_length_le hlen, List.take_of_length_le (Nat.le_succ_of_le hlen)]
        rw [htake]
        refine Or.inr ⟨⟨.clear, ?_⟩, hnot⟩
        rw [hstep, step, stream, hc]
        rfl
      | some c =>
        have htake : bytes.take (n + 1) = bytes.take n ++ [c] := by
          rw [List.take_add_one, hc]
          rfl
        have hfeed : Parser.feed matchers w (bytes.take (n + 1)) =
            (parse matchers (Parser.feed matchers w (bytes.take n)) c).next := by
          rw [htake, feed_append]
          rfl
        have houtputs : outputs matchers w (bytes.take (n + 1)) =
            outputs matchers w (bytes.take n) ++
              [parse matchers (Parser.feed matchers w (bytes.take n)) c] := by
          rw [htake, outputs_append]
          rfl
        have htells : (parse matchers (Parser.feed matchers w (bytes.take n)) c).Tells :=
          parse_tells
        rw [step, stream, hc] at hstep
        dsimp only at hstep
        rw [if_neg Bool.false_ne_true, ← hfeed] at hstep
        by_cases hstate :
            (parse matchers (Parser.feed matchers w (bytes.take n)) c).state = .done
        · refine Or.inl ⟨⟨n + 1, _, hstep, by simp [hstate]⟩, _, ?_, hstate⟩
          have hbytes : bytes = bytes.take (n + 1) ++ bytes.drop (n + 1) :=
            (List.take_append_drop ..).symm
          rw [hbytes, outputs_append, houtputs]
          simp
        · refine Or.inr ⟨⟨(parse matchers (Parser.feed matchers w (bytes.take n)) c).ec, ?_⟩, ?_⟩
          · rw [hstep, htells.clear hstate]
            simp [hstate]
          · rw [houtputs]
            intro r hr
            rcases List.mem_append.mp hr with hr | hr
            · exact hnot r hr
            · rw [List.mem_singleton.mp hr]
              exact hstate

theorem outputs_tells : ∀ r ∈ outputs matchers w bytes, r.Tells := by
  induction bytes generalizing w with
  | nil =>
    intro r hr
    cases hr
  | cons c bytes ih =>
    intro r hr
    rcases List.mem_cons.mp hr with rfl | hr
    · exact parse_tells
    · exact ih r hr

/-- **`run` returns on a finite stream if and only if a handler ends it**: on one of the
    bytes, a call of `handle` returns `done` or leaves an error. -/
theorem run_returns_iff (matchers : List (Matcher μ σ)) (w : Feed β σ) (bytes : List β) :
    (∃ n s, after matchers w bytes n = some s ∧ s.returned = true) ↔
      ∃ r ∈ outputs matchers w bytes, ∃ call ∈ r.calls, call.ends = true := by
  have hends : (∃ r ∈ outputs matchers w bytes, r.state = .done) ↔
      ∃ r ∈ outputs matchers w bytes, ∃ call ∈ r.calls, call.ends = true :=
    exists_congr fun r => and_congr_right fun hr => (outputs_tells r hr).done
  rw [← hends]
  constructor
  · intro hreturned
    obtain ⟨n, s, hn, hs⟩ := hreturned
    rcases after_cases matchers w bytes n with hdone | ⟨⟨ec, hrun⟩, -⟩
    · exact hdone.2
    · rw [hn, Option.some.injEq] at hrun
      rw [hrun] at hs
      cases hs
  · intro hdone
    rcases after_cases matchers w bytes bytes.length with hreturned | ⟨-, hnot⟩
    · exact hreturned.1
    · obtain ⟨r, hr, hstate⟩ := hdone
      rw [List.take_length] at hnot
      exact absurd hstate (hnot r hr)

/-- `run` with no matchers, on a peer that sends `a` and closes. -/
theorem run_spins : ¬ ∃ n s, after (β := UInt8) (μ := Unit) [] ⟨.init, ()⟩ [97] n = some s ∧
    s.returned = true := by
  rintro ⟨n, s, hn, hs⟩
  rcases after_cases (β := UInt8) (μ := Unit) [] ⟨.init, ()⟩ [97] n with ⟨-, hdone⟩ | ⟨hrun, -⟩
  · revert hdone
    decide
  · obtain ⟨ec, hrun⟩ := hrun
    rw [hn, Option.some.injEq] at hrun
    rw [hrun] at hs
    cases hs

end Run

end Parser
end Ice
