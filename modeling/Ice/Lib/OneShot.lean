import Mathlib.Logic.Function.Basic
import Mathlib.Tactic.Common

/-!
# One-shot registrations

An interest set: under each key at most one registration, which carries the user's datum. A
registration is *armed* until it is reported; reporting it disarms it and leaves it in the
set, under its key, until somebody erases that key. Nothing ties an erasure to the party
that registered: the key decides. That is why erasing is safe exactly when the key's
registration is still one's own, and it is the whole subject of what is proved over this
structure.
-/

set_option autoImplicit false

namespace Ice
namespace Lib

/-- One registration. -/
structure Interest (P : Type*) where
  data : P
  armed : Bool
  deriving DecidableEq

structure OneShot (K P : Type*) where
  entry : K → Option (Interest P)

namespace OneShot

variable {K P : Type*}

def empty : OneShot K P := ⟨fun _ => none⟩

/-- `p` is registered under `k` and was not reported yet. -/
def Armed (q : OneShot K P) (k : K) (p : P) : Prop := q.entry k = some ⟨p, true⟩

variable [DecidableEq K]

/-- Register `p` under `k`; `none` where the key is taken. -/
def add (q : OneShot K P) (k : K) (p : P) : Option (OneShot K P) :=
  match q.entry k with
  | none => some ⟨Function.update q.entry k (some ⟨p, true⟩)⟩
  | some _ => none

/-- Take away whatever is registered under `k`. -/
def erase (q : OneShot K P) (k : K) : OneShot K P := ⟨Function.update q.entry k none⟩

/-- Report the registration under `k`; `none` where there is nothing to report. -/
def report (q : OneShot K P) (k : K) : Option (P × OneShot K P) :=
  match q.entry k with
  | some ⟨p, true⟩ => some (p, ⟨Function.update q.entry k (some ⟨p, false⟩)⟩)
  | _ => none

variable {q q' : OneShot K P} {k k' : K} {p p' : P}

omit [DecidableEq K] in
@[simp] theorem entry_empty : (empty : OneShot K P).entry k = none := rfl

/-- What was just written under `k`. -/
theorem entry_mk_self {f : K → Option (Interest P)} {i : Option (Interest P)} :
    (⟨Function.update f k i⟩ : OneShot K P).entry k = i := Function.update_self ..

@[simp] theorem entry_erase_self : (q.erase k).entry k = none := Function.update_self ..

@[simp] theorem entry_erase_of_ne (h : k' ≠ k) : (q.erase k).entry k' = q.entry k' :=
  Function.update_of_ne h ..

/-- What is left after an erasure was there before, under another key. -/
theorem entry_erase_eq_some {i : Interest P} :
    (q.erase k).entry k' = some i ↔ k' ≠ k ∧ q.entry k' = some i := by
  by_cases h : k' = k
  · subst h
    simp
  · simp [h]

/-- Registering succeeds at a free key, and puts an armed registration there. -/
theorem add_eq_some : q.add k p = some q' ↔
    q.entry k = none ∧ q' = ⟨Function.update q.entry k (some ⟨p, true⟩)⟩ := by
  unfold add
  cases q.entry k with
  | none => simp [eq_comm]
  | some i => simp

theorem add_eq_none : q.add k p = none ↔ q.entry k ≠ none := by
  unfold add
  cases q.entry k <;> simp

/-- A report finds an armed registration and leaves it disarmed. -/
theorem report_eq_some : q.report k = some (p, q') ↔
    q.Armed k p ∧ q' = ⟨Function.update q.entry k (some ⟨p, false⟩)⟩ := by
  unfold report Armed
  rcases hk : q.entry k with _ | ⟨p', b⟩
  · simp
  · cases b with
    | false => simp
    | true =>
      constructor
      · intro h
        cases Option.some.inj h
        exact ⟨rfl, rfl⟩
      · rintro ⟨h, rfl⟩
        cases Option.some.inj h
        rfl

end OneShot

end Lib
end Ice
