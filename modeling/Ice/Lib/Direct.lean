import Mathlib.Data.List.Basic
import Mathlib.Tactic.Common

/-!
# Bodies in direct style

A body returns, calls another body and goes on with its result, or waits for an answer from
outside and goes on with that. `Eval` is what it means when a call is just a call: the body
`b`, given the answers `as` in order, returns `r`. It does not say where a body is kept while
it waits, or who calls whom back; an implementation that suspends and resumes is correct when
what it returns is what `Eval` says.
-/

set_option autoImplicit false

namespace Ice
namespace Lib

/-- What a body does next. -/
inductive Action (B A R : Type*)
  | co_return (r : R)
  | co_await (callee : B) (rest : R → B)
  | wait (rest : A → B)

/-- A program: its bodies, by what each does next. -/
structure Program (B A R : Type*) where
  next : B → Action B A R

namespace Program

variable {B A R : Type*} {P : Program B A R}

/-- `b` returns `r` after the answers `as`. -/
inductive Eval (P : Program B A R) : B → List A → R → Prop
  | ret {b : B} {r : R} (hb : P.next b = .co_return r) : Eval P b [] r
  | call {b c : B} {rest : R → B} {as as' : List A} {r r' : R}
      (hb : P.next b = .co_await c rest) (hc : Eval P c as r) (hrest : Eval P (rest r) as' r') :
      Eval P b (as ++ as') r'
  | wait {b : B} {rest : A → B} {a : A} {as : List A} {r : R}
      (hb : P.next b = .wait rest) (hrest : Eval P (rest a) as r) : Eval P b (a :: as) r

/-- `b` has become `b'` after the answers `as`, every call on the way completed. -/
inductive Path (P : Program B A R) : B → List A → B → Prop
  | refl (b : B) : Path P b [] b
  | call {b b' c : B} {rest : R → B} {as as' : List A} {r : R} (hpath : Path P b as b')
      (hb : P.next b' = .co_await c rest) (hc : Eval P c as' r) : Path P b (as ++ as') (rest r)
  | wait {b b' : B} {rest : A → B} {as : List A} (hpath : Path P b as b')
      (hb : P.next b' = .wait rest) (a : A) : Path P b (as ++ [a]) (rest a)

/-- What a body has become decides what it returns. -/
theorem Path.eval {b b' : B} {as as' : List A} {r : R} (hpath : P.Path b as b')
    (h : P.Eval b' as' r) : P.Eval b (as ++ as') r := by
  induction hpath generalizing as' with
  | refl => exact h
  | call hpath hb hc ih =>
    rw [List.append_assoc]
    exact ih (.call hb hc h)
  | wait hpath hb a ih =>
    rw [List.append_assoc]
    exact ih (.wait hb h)

/-- A body reads its answers in order and no further than it needs: of two sequences that
    agree as far as both go, it uses up the same answers, and returns the same. -/
theorem Eval.unique {b : B} {as as' rest rest' : List A} {r r' : R} (h : P.Eval b as r)
    (h' : P.Eval b as' r') (heq : as ++ rest = as' ++ rest') : as = as' ∧ r = r' := by
  induction h generalizing as' r' rest rest' with
  | ret hb =>
    cases h' with
    | ret hb' => exact ⟨rfl, Action.co_return.inj (hb.symm.trans hb')⟩
    | call hb' _ _ => cases hb.symm.trans hb'
    | wait hb' _ => cases hb.symm.trans hb'
  | call hb _ _ ihc ihrest =>
    cases h' with
    | ret hb' => cases hb.symm.trans hb'
    | wait hb' _ => cases hb.symm.trans hb'
    | call hb' hc' hrest' =>
      obtain ⟨rfl, rfl⟩ := Action.co_await.inj (hb.symm.trans hb')
      rw [List.append_assoc, List.append_assoc] at heq
      obtain ⟨rfl, rfl⟩ := ihc hc' heq
      obtain ⟨rfl, rfl⟩ := ihrest hrest' (List.append_cancel_left heq)
      exact ⟨rfl, rfl⟩
  | wait hb _ ih =>
    cases h' with
    | ret hb' => cases hb.symm.trans hb'
    | call hb' _ _ => cases hb.symm.trans hb'
    | wait hb' hrest' =>
      obtain rfl := Action.wait.inj (hb.symm.trans hb')
      rw [List.cons_append, List.cons_append] at heq
      obtain ⟨rfl, htail⟩ := List.cons.inj heq
      obtain ⟨rfl, rfl⟩ := ih hrest' htail
      exact ⟨rfl, rfl⟩

end Program

end Lib
end Ice
