import Ice.Result

/-!
# Where a result keeps its value or its error

The abstract result is a value or an error (`meaning`), and the same operations on objects are
run over it. Every operation but three hands the state on, whatever the class (`Faithful`), so
that a step keeps the objects in correspondence exactly when the object it makes by one of the
three shows what it is to show (`step_iff`). `result<T>` has the forwarding constructor to fear,
in the copy of a non-const lvalue; `result<void>` loses every error as it is constructed.
-/

set_option autoImplicit false

namespace Ice
namespace Result

open Lib

/-! ## 1. What a result is -/

/-- A value or an error, which every copy has as well. -/
def meaning {T : Type*} (moved : T → T) : Class (Except ErrorCode T) T where
  construct := .ok
  emplace := .ok
  fromError := .error
  copyConst := id
  copyLvalue := id
  moveConstruct other := (other, other.map moved)
  copyAssign _ other := other
  moveAssign _ other := (other, other.map moved)
  has_value := Except.isOk
  value := Except.toOption
  error
    | .ok _ => .clear
    | .error e => e

section Objects

variable {O R T : Type*} {M : Class R T} {moved : T → T}

/-- An object shows a value by `has_value()`, the value and a clear `error()`; it shows an error
    by no `has_value()` and the error. -/
def Shows (M : Class R T) (r : R) : Except ErrorCode T → Prop
  | .ok v => M.has_value r = true ∧ M.value r = some v ∧ M.error r = .clear
  | .error e => M.has_value r = false ∧ M.error r = e

/-- The same objects exist, and each shows what it is. -/
def Corresponds (M : Class R T) (s : O → Option R) (g : O → Option (Except ErrorCode T)) : Prop :=
  ∀ o, Option.Rel (Shows M) (s o) (g o)

/-- The operations that hand the state on. -/
structure Faithful (M : Class R T) (moved : T → T) : Prop where
  emplace : ∀ v, Shows M (M.emplace v) (.ok v)
  copyConst : ∀ r x, Shows M r x → Shows M (M.copyConst r) x
  moveConstruct : ∀ r x, Shows M r x →
    Shows M (M.moveConstruct r).1 x ∧ Shows M (M.moveConstruct r).2 (x.map moved)
  copyAssign : ∀ this r x, Shows M r x → Shows M (M.copyAssign this r) x
  moveAssign : ∀ this r x, Shows M r x →
    Shows M (M.moveAssign this r).1 x ∧ Shows M (M.moveAssign this r).2 (x.map moved)

/-- The object that a step makes by one of the other operations shows what it is to show. -/
def Made (M : Class R T) (s : O → Option R) (g : O → Option (Except ErrorCode T)) :
    Label O T → Prop
  | .construct _ v => Shows M (M.construct v) (.ok v)
  | .fromError _ e => Shows M (M.fromError e) (.error e)
  | .copyLvalue _ other => ∀ r x, s other = some r → g other = some x → Shows M (M.copyLvalue r) x
  | .emplace .. | .copyConst .. | .moveConstruct .. | .copyAssign .. | .moveAssign .. => True

variable {s s' : O → Option R} {g : O → Option (Except ErrorCode T)} {o other : O} {r : R}
  {x : Except ErrorCode T}

theorem Corresponds.of_some (h : Corresponds M s g) (hr : s o = some r) :
    ∃ x, g o = some x ∧ Shows M r x := rel_of_some (h o) hr

variable [DecidableEq O]

/-- Objects correspond after one was written if they did, and if it shows what it is to show. -/
theorem Corresponds.update (h : Corresponds M s g) :
    Corresponds M (Function.update s o (some r)) (Function.update g o (some x)) ↔ Shows M r x := by
  constructor
  · intro hall
    have ho := hall o
    rw [Function.update_self, Function.update_self] at ho
    exact Option.rel_some_some.mp ho
  · intro hshows
    exact update_rel h (Option.rel_some_some.mpr hshows)

theorem Corresponds.create (h : Corresponds M s g) (hs : create s o r = some s') :
    ∃ g', Result.create g o x = some g' ∧ (Corresponds M s' g' ↔ Shows M r x) := by
  obtain ⟨hnew, hs⟩ := Option.ite_none_left_eq_some.mp hs
  cases hs
  have hg : g o = none := rel_of_none (h o) (Option.not_isSome_iff_eq_none.mp hnew)
  exact ⟨_, if_neg (by simp [hg]), h.update⟩

/-- **One step.** The same label is enabled in the abstract run, and the objects correspond
    again exactly when the one that was made shows what it is to show. -/
theorem step_iff {l : Label O T} (hM : Faithful M moved) (h : Corresponds M s g)
    (hs : step M s l = some s') :
    ∃ g', step (meaning moved) g l = some g' ∧ (Corresponds M s' g' ↔ Made M s g l) := by
  cases l with
  | construct o v | fromError o e => exact h.create hs
  | emplace o v =>
    obtain ⟨g', hg', hiff⟩ := h.create (x := .ok v) hs
    exact ⟨g', hg', hiff.trans (iff_true_intro (hM.emplace v))⟩
  | copyConst o other =>
    obtain ⟨r, hr, hs⟩ := Option.bind_eq_some_iff.mp hs
    obtain ⟨x, hx, hshows⟩ := h.of_some hr
    obtain ⟨g', hg', hiff⟩ := h.create (x := x) hs
    refine ⟨g', ?_, hiff.trans (iff_true_intro (hM.copyConst r x hshows))⟩
    exact Option.bind_eq_some_iff.mpr ⟨x, hx, hg'⟩
  | copyLvalue o other =>
    obtain ⟨r, hr, hs⟩ := Option.bind_eq_some_iff.mp hs
    obtain ⟨x, hx, hshows⟩ := h.of_some hr
    obtain ⟨g', hg', hiff⟩ := h.create (x := x) hs
    refine ⟨g', Option.bind_eq_some_iff.mpr ⟨x, hx, hg'⟩, hiff.trans ⟨?_, ?_⟩⟩
    · intro hmade r' x' hr' hx'
      cases hr.symm.trans hr'
      cases hx.symm.trans hx'
      exact hmade
    · intro hmade
      exact hmade r x hr hx
  | moveConstruct o other =>
    obtain ⟨r, hr, hs⟩ := Option.bind_eq_some_iff.mp hs
    obtain ⟨x, hx, hshows⟩ := h.of_some hr
    obtain ⟨hnew, hleft⟩ := hM.moveConstruct r x hshows
    obtain ⟨g', hg', hiff⟩ := ((h.update (o := other)).mpr hleft).create (x := x) hs
    refine ⟨g', ?_, hiff.trans (iff_true_intro hnew)⟩
    exact Option.bind_eq_some_iff.mpr ⟨x, hx, hg'⟩
  | copyAssign o other =>
    obtain ⟨this, hthis, hs⟩ := Option.bind_eq_some_iff.mp hs
    obtain ⟨r, hr, hs⟩ := Option.bind_eq_some_iff.mp hs
    obtain ⟨hne, hs⟩ := Option.ite_none_left_eq_some.mp hs
    cases hs
    obtain ⟨y, hy, -⟩ := h.of_some hthis
    obtain ⟨x, hx, hshows⟩ := h.of_some hr
    refine ⟨_, ?_, iff_true_intro (h.update.mpr (hM.copyAssign this r x hshows))⟩
    exact Option.bind_eq_some_iff.mpr ⟨y, hy, Option.bind_eq_some_iff.mpr ⟨x, hx, if_neg hne⟩⟩
  | moveAssign o other =>
    obtain ⟨this, hthis, hs⟩ := Option.bind_eq_some_iff.mp hs
    obtain ⟨r, hr, hs⟩ := Option.bind_eq_some_iff.mp hs
    obtain ⟨hne, hs⟩ := Option.ite_none_left_eq_some.mp hs
    cases hs
    obtain ⟨y, hy, -⟩ := h.of_some hthis
    obtain ⟨x, hx, hshows⟩ := h.of_some hr
    obtain ⟨hnew, hleft⟩ := hM.moveAssign this r x hshows
    refine ⟨_, ?_, iff_true_intro (((h.update (o := other)).mpr hleft).update.mpr hnew)⟩
    exact Option.bind_eq_some_iff.mpr ⟨y, hy, Option.bind_eq_some_iff.mpr ⟨x, hx, if_neg hne⟩⟩

/-- **Every run** of steps that meet `Q` is a run of the abstract result, with which its objects
    correspond; and of the steps from there it is those that meet `Q` after which they still
    do. -/
def KeepsState (M : Class R T) (moved : T → T) (Q : (O → Option R) → Label O T → Prop) : Prop :=
  ∀ ls s, (machine M).RunsBy Q init ls s →
    ∃ g, (machine (meaning moved)).exec init ls = some g ∧ Corresponds M s g ∧
      ∀ l s', step M s l = some s' →
        ∃ g', step (meaning moved) g l = some g' ∧ (Corresponds M s' g' ↔ Q s l)

theorem Faithful.keepsState {Q : (O → Option R) → Label O T → Prop} (hM : Faithful M moved)
    (hQ : ∀ {s g} l, Corresponds M s g → (Made M s g l ↔ Q s l)) : KeepsState M moved Q := by
  intro ls s hr
  have hsim : ∃ g, (machine (meaning moved)).exec init (ls.filterMap some) = some g ∧
      Corresponds M s g := by
    refine hr.project ?_ (fun _ => .none)
    intro s g l s' h hq hs
    obtain ⟨g', hg', hiff⟩ := step_iff hM h hs
    refine ⟨g', ?_, hiff.mpr ((hQ l h).mpr hq)⟩
    exact Machine.exec_cons_some.mpr ⟨g', hg', rfl⟩
  rw [List.filterMap_some] at hsim
  obtain ⟨g, hg, h⟩ := hsim
  refine ⟨g, hg, h, fun l s' hs => ?_⟩
  obtain ⟨g', hg', hiff⟩ := step_iff hM h hs
  exact ⟨g', hg', hiff.trans (hQ l h)⟩

end Objects

/-! ## 2. `result<T>` -/

section Values

variable {O T : Type*} {t : Traits T}

/-- The result that holds a value or an error. -/
def holding : Except ErrorCode T → Result T
  | .ok v => ⟨.value v⟩
  | .error e => ⟨.error e⟩

theorem shows_iff {r : Result T} {x : Except ErrorCode T} :
    Shows (result t) r x ↔ r = holding x := by
  rcases r with ⟨v | e⟩ <;> cases x <;>
    simp [Shows, holding, result, has_value, ResultStorage.has_value, value, error]

theorem faithful_result : Faithful (result t) t.moved where
  emplace v := shows_iff.mpr rfl
  copyConst r x h := by
    rw [shows_iff.mp h]
    cases x <;> exact shows_iff.mpr rfl
  moveConstruct r x h := by
    rw [shows_iff.mp h]
    cases x <;> exact ⟨shows_iff.mpr rfl, shows_iff.mpr rfl⟩
  copyAssign this r x h := by
    rw [shows_iff.mp h]
    cases x <;> exact shows_iff.mpr rfl
  moveAssign this r x h := by
    rw [shows_iff.mp h]
    cases x <;> exact ⟨shows_iff.mpr rfl, shows_iff.mpr rfl⟩

/-- The condition on a step: a value that is passed in is not an error code, and where `T` can be
    made from a `result<T>&`, a non-const lvalue that is copied holds the value made from it. -/
def Fits (t : Traits T) (s : O → Option (Result T)) : Label O T → Prop
  | .construct .. => t.isErrorType = none
  | .copyLvalue _ other =>
    ∀ f ∈ t.fromResult, ∀ r ∈ s other, r.storage_ = .value (f r)
  | _ => True

instance [DecidableEq T] (s : O → Option (Result T)) : (l : Label O T) → Decidable (Fits t s l)
  | .construct .. => inferInstanceAs (Decidable (t.isErrorType = none))
  | .copyLvalue _ other =>
    inferInstanceAs (Decidable (∀ f ∈ t.fromResult, ∀ r ∈ s other, r.storage_ = .value (f r)))
  | .emplace .. | .fromError .. | .copyConst .. | .moveConstruct .. | .copyAssign ..
  | .moveAssign .. => inferInstanceAs (Decidable True)

/-- **The copy of a non-const lvalue.** -/
theorem shows_copyLvalue {r : Result T} {x : Except ErrorCode T} (h : Shows (result t) r x) :
    Shows (result t) (copyLvalue t r) x ↔ ∀ f ∈ t.fromResult, r.storage_ = .value (f r) := by
  unfold copyLvalue
  cases hf : t.fromResult with
  | none => exact iff_of_true (faithful_result.copyConst r x h) nofun
  | some f =>
    rw [shows_iff, ← shows_iff.mp h]
    constructor
    · intro hmade f' hf'
      cases hf'
      exact congrArg storage_ hmade.symm
    · intro hvalue
      exact congrArg Result.mk (hvalue f rfl).symm

theorem made_iff_fits {s : O → Option (Result T)} {g : O → Option (Except ErrorCode T)}
    (l : Label O T) (h : Corresponds (result t) s g) : Made (result t) s g l ↔ Fits t s l := by
  cases l with
  | construct o v =>
    show Shows (result t) (Result.construct t v) (.ok v) ↔ t.isErrorType = none
    rw [shows_iff, Result.construct]
    cases t.isErrorType with
    | none => exact iff_of_true rfl rfl
    | some f => exact iff_of_false nofun nofun
  | fromError o e =>
    have hshows : Shows (result t) (Result.fromError e) (.error e) := shows_iff.mpr rfl
    exact iff_of_true hshows trivial
  | copyLvalue o other =>
    constructor
    · intro hmade f hf r hr
      obtain ⟨x, hx, hshows⟩ := h.of_some hr
      exact (shows_copyLvalue hshows).mp (hmade r x hr hx) f hf
    · intro hfits r x hr hx
      obtain ⟨x', hx', hshows⟩ := h.of_some hr
      cases hx.symm.trans hx'
      exact (shows_copyLvalue hshows).mpr fun f hf => hfits f hf r hr
  | emplace o v | copyConst o other | moveConstruct o other | copyAssign o other
  | moveAssign o other => exact Iff.rfl

end Values

/-! ## 3. `result<void>` -/

section Void

variable {O : Type*}

/-- The condition on a step: nothing is an error. -/
def Fits.void (_ : O → Option ResultVoid) : Label O Unit → Prop
  | .fromError .. => False
  | _ => True

instance (s : O → Option ResultVoid) : (l : Label O Unit) → Decidable (Fits.void s l)
  | .fromError .. => inferInstanceAs (Decidable False)
  | .construct .. | .emplace .. | .copyConst .. | .copyLvalue .. | .moveConstruct ..
  | .copyAssign .. | .moveAssign .. => inferInstanceAs (Decidable True)

theorem faithful_void : Faithful Result.void id where
  emplace _ := ⟨rfl, rfl, rfl⟩
  copyConst _ _ h := h
  moveConstruct r x h := by
    refine ⟨h, ?_⟩
    cases x <;> exact h
  copyAssign _ _ _ h := h
  moveAssign this r x h := by
    refine ⟨h, ?_⟩
    cases x <;> exact h

theorem made_iff_fits_void {s : O → Option ResultVoid} {g : O → Option (Except ErrorCode Unit)}
    (l : Label O Unit) (h : Corresponds Result.void s g) :
    Made Result.void s g l ↔ Fits.void s l := by
  cases l with
  | construct o v => exact iff_of_true ⟨rfl, rfl, rfl⟩ trivial
  | fromError o e => exact iff_of_false (fun hshows => Bool.noConfusion hshows.1) id
  | copyLvalue o other =>
    refine iff_of_true (fun r x hr hx => ?_) trivial
    obtain ⟨x', hx', hshows⟩ := h.of_some hr
    cases hx.symm.trans hx'
    exact hshows
  | emplace o v | copyConst o other | moveConstruct o other | copyAssign o other
  | moveAssign o other => exact Iff.rfl

end Void

/-- **A result keeps its value or its error**, whatever `T` is, in every run that constructs no
    result from a value that is an error code and copies a non-const lvalue only where nothing
    but the copy constructor takes it, or where it comes to the same; a `result<void>` does in
    every run without errors. No other step may be added. -/
theorem result_keeps_state {O T : Type*} [DecidableEq O] (t : Traits T) :
    KeepsState (O := O) (result t) t.moved (Fits t) ∧
      KeepsState (O := O) Result.void id Fits.void :=
  ⟨faithful_result.keepsState made_iff_fits, faithful_void.keepsState made_iff_fits_void⟩

/-- The hypotheses are met by a run of `result<bool>` with every operation, by one of a class
    whose errors are copied from an lvalue and whose move leaves 0, and by one of `result<void>`
    with every operation but the one that is ruled out. -/
theorem result_keeps_state_three :
    (let schedule : List (Label ℕ Bool) :=
      [.fromError 0 errc.eof.make_error_code, .construct 1 true, .emplace 2 false, .copyConst 3 0,
        .copyLvalue 4 1, .moveConstruct 5 0, .copyAssign 1 2, .moveAssign 2 5]
     ∃ s g, (machine (result .bool)).exec init schedule = some s ∧
      (machine (meaning id)).exec init schedule = some g ∧ Corresponds (result .bool) s g ∧
      g 1 = some (.ok false) ∧ g 2 = some (.error errc.eof.make_error_code)) ∧
    (let schedule : List (Label ℕ ℕ) :=
      [.fromError 0 errc.eof.make_error_code, .construct 1 7, .copyLvalue 2 0, .moveConstruct 3 1]
     ∃ s g, (machine (result (.plain fun _ => 0))).exec init schedule = some s ∧
      (machine (meaning fun _ => 0)).exec init schedule = some g ∧
      Corresponds (result (.plain fun _ => 0)) s g ∧
      g 2 = some (.error errc.eof.make_error_code) ∧ g 1 = some (.ok 0)) ∧
    (let schedule : List (Label ℕ Unit) :=
      [.construct 0 (), .emplace 1 (), .copyConst 2 0, .copyLvalue 3 1, .moveConstruct 4 0,
        .copyAssign 1 2, .moveAssign 2 4]
     ∃ s g, (machine Result.void).exec init schedule = some s ∧
      (machine (meaning id)).exec init schedule = some g ∧ Corresponds Result.void s g) := by
  refine ⟨?_, ?_, ?_⟩
  · intro schedule
    have hrun : (machine (result .bool)).execBy (Fits .bool) init schedule = some _ := rfl
    obtain ⟨g, hg, h, -⟩ :=
      (result_keeps_state .bool).1 schedule _ (Machine.runsBy_of_execBy schedule hrun)
    cases hg
    exact ⟨_, _, rfl, rfl, h, rfl, rfl⟩
  · intro schedule
    have hrun : (machine (result (.plain fun _ => 0))).execBy (Fits (.plain fun _ => 0)) init
      schedule = some _ := rfl
    obtain ⟨g, hg, h, -⟩ := (result_keeps_state (.plain fun _ => 0)).1 schedule _
      (Machine.runsBy_of_execBy schedule hrun)
    cases hg
    exact ⟨_, _, rfl, rfl, h, rfl, rfl⟩
  · intro schedule
    have hrun : (machine Result.void).execBy Fits.void init schedule = some _ := rfl
    obtain ⟨g, hg, h, -⟩ :=
      (result_keeps_state .bool).2 schedule _ (Machine.runsBy_of_execBy schedule hrun)
    exact ⟨_, g, rfl, hg, h⟩

/-- An error is read as success: of a `result<void>` right after it was constructed, and of the
    copy of a `result<bool>` that was not const. -/
theorem result_loses_error :
    (∃ s r, (machine Result.void).exec init [Label.fromError () errc.eof.make_error_code] = some s ∧
      s () = some r ∧ r.has_value = true) ∧
    (∃ s r, (machine (result .bool)).exec init
        [.fromError false errc.eof.make_error_code, .copyLvalue true false] = some s ∧
      s true = some r ∧ r.has_value = true ∧ r.error = .clear) :=
  ⟨⟨_, _, rfl, rfl, rfl⟩, ⟨_, _, rfl, rfl, rfl, rfl⟩⟩

end Result
end Ice
