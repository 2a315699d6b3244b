import Ice.Lib.Machine
import Mathlib.Data.List.Basic

/-!
# Values handed over one at a time, on demand

A source and a sink that take turns. The sink asks, the source answers with a value or with
the end (and a reason for it), the sink takes the answer; it asks again only after that, and
not after the end. Between two demands it may close the source. Nothing is buffered but the
one answer under way, which is what `handed_over` says.
-/

set_option autoImplicit false

namespace Ice
namespace Lib

/-- The answer to one demand. -/
inductive Item (V E : Type*)
  | value (v : V)
  | finished (e : Option E)
  deriving DecidableEq

namespace Demand

inductive Phase (V E : Type*)
  | idle
  | wanted
  | ready (item : Item V E)
  | closed
  deriving DecidableEq

inductive Label (V E : Type*)
  | ask
  | produce (v : V)
  | finish (e : Option E)
  | take
  | close
  deriving DecidableEq

end Demand

structure Demand (V E : Type*) where
  phase : Demand.Phase V E
  /-- The values the source produced, and those the sink took. -/
  yielded : List V
  received : List V
  /-- The end, once the sink was told. -/
  outcome : Option (Option E)

namespace Demand

variable {V E : Type*}

def init : Demand V E := ⟨.idle, [], [], none⟩

/-- The value under way. -/
def pending (s : Demand V E) : List V :=
  match s.phase with
  | .ready (.value v) => [v]
  | _ => []

def step (s : Demand V E) : Label V E → Option (Demand V E)
  | .ask =>
    match s.phase, s.outcome with
    | .idle, none => some { s with phase := .wanted }
    | _, _ => none
  | .produce v =>
    match s.phase with
    | .wanted => some { s with phase := .ready (.value v), yielded := s.yielded ++ [v] }
    | _ => none
  | .finish e =>
    match s.phase with
    | .wanted => some { s with phase := .ready (.finished e) }
    | _ => none
  | .take =>
    match s.phase with
    | .ready (.value v) => some { s with phase := .idle, received := s.received ++ [v] }
    | .ready (.finished e) => some { s with phase := .idle, outcome := some e }
    | _ => none
  | .close =>
    match s.phase with
    | .idle => some { s with phase := .closed }
    | _ => none

def machine : Machine (Demand V E) (Label V E) := ⟨step⟩

/-- What the sink took and what is under way are what was produced, and nothing is under way
    to a sink that was told of the end. -/
structure HandedOver (s : Demand V E) : Prop where
  values : s.received ++ s.pending = s.yielded
  told : s.outcome ≠ none → s.phase = .idle ∨ s.phase = .closed

theorem HandedOver.step {s s' : Demand V E} {l : Label V E} (h : s.HandedOver)
    (hs : s.step l = some s') : s'.HandedOver := by
  obtain ⟨hvalues, htold⟩ := h
  cases l with
  | ask =>
    simp only [Demand.step] at hs
    split at hs
    · rename_i hphase houtcome
      cases hs
      refine ⟨?_, fun hne => absurd houtcome hne⟩
      simpa [pending, hphase] using hvalues
    · cases hs
  | produce v =>
    simp only [Demand.step] at hs
    split at hs
    · rename_i hphase
      cases hs
      refine ⟨?_, fun hne => ?_⟩
      · simpa [pending, hphase] using hvalues
      · simpa [hphase] using htold hne
    · cases hs
  | finish e =>
    simp only [Demand.step] at hs
    split at hs
    · rename_i hphase
      cases hs
      refine ⟨?_, fun hne => ?_⟩
      · simpa [pending, hphase] using hvalues
      · simpa [hphase] using htold hne
    · cases hs
  | take =>
    simp only [Demand.step] at hs
    split at hs
    · rename_i v hphase
      cases hs
      exact ⟨by simpa [pending, hphase] using hvalues, fun _ => Or.inl rfl⟩
    · rename_i e hphase
      cases hs
      exact ⟨by simpa [pending, hphase] using hvalues, fun _ => Or.inl rfl⟩
    · cases hs
  | close =>
    simp only [Demand.step] at hs
    split at hs
    · rename_i hphase
      cases hs
      exact ⟨by simpa [pending, hphase] using hvalues, fun _ => Or.inr rfl⟩
    · cases hs

/-- **Nothing is lost, repeated or reordered.** -/
theorem handed_over {ls : List (Label V E)} {s : Demand V E}
    (h : machine.exec init ls = some s) : s.HandedOver :=
  Machine.exec_preserves (M := machine) (I := HandedOver) HandedOver.step
    ⟨rfl, fun hne => absurd rfl hne⟩ h

end Demand

end Lib
end Ice
