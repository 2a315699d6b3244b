import Ice.Proof.Async.Await

/-!
# What the tasks return, and that they do

Two results over every run of any number of tasks. What a task returns is what its body
returns in direct style, so neither the threads nor the order of their accesses matter, only
the answers. And no call is ever stuck: below every coroutine that is suspended on another one
there is one that goes on by itself, or as soon as it is answered.
-/

set_option autoImplicit false

namespace Ice
namespace Coroutines

open Lib

variable {K B A R : Type*} [DecidableEq K] {P : Program B A R} {s s' : Coroutines K B A R}

theorem awaitInv_reaches (hr : (machine P).Reaches init s) : AwaitInv P s :=
  hr.preserves (fun h _ hs => h.step hs) awaitInv_init

/-- **Awaiting is calling.** In every run, no coroutine is resumed that is not suspended, no
    frame is accessed that is gone and no result is read that was not stored; each task that
    has ended returned what its body returns in direct style after the answers it was given.
    A task with the same body whose answers begin in the same way, in whatever other run, has
    used up the same answers and returned the same. -/
theorem async_direct (hr : (machine P).Reaches init s) :
    s.failed = false ∧ ∀ b as r, (b, as, r) ∈ s.finished → P.Eval b as r ∧
      ∀ s' : Coroutines K B A R, (machine P).Reaches init s' → ∀ as' r' more more',
        (b, as', r') ∈ s'.finished → as ++ more = as' ++ more' → as = as' ∧ r = r' := by
  have h := awaitInv_reaches hr
  refine ⟨h.ok, ?_⟩
  intro b as r hfinished
  have heval := h.finished _ hfinished
  refine ⟨heval, ?_⟩
  intro s' hr' as' r' more more' hfinished' heq
  exact heval.unique ((awaitInv_reaches hr').finished _ hfinished') heq

/-- A body that calls another one and adds one to its result; that one waits for a number. -/
def addOne : Program (Bool × ℕ) ℕ ℕ where
  next
    | (true, 0) => .co_await (false, 0) fun r => (true, r + 2)
    | (false, 0) => .wait fun a => (false, a + 1)
    | (_, n + 1) => .co_return n

/-- In one run the callee ends before its awaiter has registered, in the other one after the
    awaiter was suspended. -/
theorem async_direct_add_one :
    ∃ s s' : Coroutines ℕ (Bool × ℕ) ℕ ℕ, (machine addOne).Reaches init s ∧
      (machine addOne).Reaches init s' ∧ s.finished = [((true, 0), [4], 5)] ∧
        s'.finished = [((true, 0), [4], 5)] ∧ addOne.Eval (true, 0) [4] 5 := by
  have hr := Machine.reaches_of_exec (M := machine addOne) (s := init)
    [.start 0 (true, 0), .step 0 1, .step 0 0, .step 1 0, .answer 1 4, .step 1 0, .step 1 0,
      .step 0 0, .step 0 0, .step 0 0, .step 0 0] rfl
  have hr' := Machine.reaches_of_exec (M := machine addOne) (s := init)
    [.start 0 (true, 0), .step 0 1, .step 0 0, .step 0 0, .step 1 0, .step 0 0, .answer 1 4,
      .step 1 0, .step 1 0, .step 1 0, .step 0 0, .step 0 0] rfl
  exact ⟨_, _, hr, hr', rfl, rfl,
    ((async_direct hr).2 (true, 0) [4] 5 List.mem_cons_self).1⟩

/-- `j` is the callee of `k`. -/
def Awaits (s : Coroutines K B A R) (k j : K) : Prop :=
  ∃ f, s.frame k = some f ∧ f.point.callee = some j

/-- The next access of `k` is a call, which needs memory for a frame. -/
def Calling (P : Program B A R) (s : Coroutines K B A R) (k : K) : Prop :=
  ∃ f b rest, s.frame k = some f ∧ f.point = .running ∧ P.next f.body = .co_await b rest

/-- `k` goes on by itself, a call with any frame that is free, or when it is answered. -/
def GoesOn (P : Program B A R) (s : Coroutines K B A R) (k : K) : Prop :=
  (∀ c, (s.Calling P k → s.frame c = none) → ∃ s', s.step P (.step k c) = some s') ∨
    ∀ a, ∃ s', s.step P (.answer k a) = some s'

/-- Whoever is not suspended on another coroutine goes on. -/
theorem AwaitInv.goesOn (h : AwaitInv P s) {k : K} {f : Coroutine K B A R}
    (hk : s.frame k = some f) (hcreated : f.point ≠ .created) (hdone : f.point ≠ .done)
    (hsuspended : ∀ c, f.point ≠ .suspended c) : s.GoesOn P k := by
  have hstep : ∀ {l : K}, s.step P (.step k l) = s.stepOf P k f l := by
    intro l
    simp only [Coroutines.step, hk, Option.bind_some]
  cases hpoint : f.point with
  | created => exact absurd hpoint hcreated
  | done => exact absurd hpoint hdone
  | suspended c => exact absurd hpoint (hsuspended c)
  | blocked =>
    refine Or.inr fun a => ?_
    obtain ⟨rest, hnext⟩ := (h.sound hk).wait hpoint
    simp only [Coroutines.step, hk, Option.bind_some, Coroutines.answer, hpoint, hnext]
    exact ⟨_, rfl⟩
  | running =>
    refine Or.inl fun c hc => ?_
    rw [hstep, Coroutines.stepOf, hpoint]
    dsimp only
    unfold Coroutines.bodyStep
    cases hnext : P.next f.body with
    | co_return r => dsimp only; split <;> exact ⟨_, rfl⟩
    | co_await b rest => dsimp only; rw [hc ⟨f, b, rest, hk, hpoint, hnext⟩]; exact ⟨_, rfl⟩
    | wait rest => exact ⟨_, rfl⟩
  | resume d | store d | exchange d =>
    refine Or.inl fun c _ => ?_
    obtain ⟨g, hg, -⟩ := h.linked hk (c := d) (by rw [hpoint]; rfl)
    rw [hstep, Coroutines.stepOf, hpoint]
    dsimp only
    rw [hg]
    dsimp only
    first
    | exact ⟨_, rfl⟩
    | (split <;> exact ⟨_, rfl⟩)
  | await_resume d | final =>
    refine Or.inl fun c _ => ?_
    rw [hstep, Coroutines.stepOf, hpoint]
    exact ⟨_, rfl⟩
  | resuming =>
    refine Or.inl fun c _ => ?_
    obtain ⟨j, g, hcontinuation, hj, hsuspended, -⟩ := h.resuming hk hpoint
    rw [hstep, Coroutines.stepOf, hpoint]
    dsimp only
    rw [hcontinuation]
    dsimp only
    rw [hj]
    dsimp only
    rw [if_pos hsuspended]
    exact ⟨_, rfl⟩

/-- **No call is stuck.** Below every coroutine that has begun and not ended, itself included,
    there is one in the chain of calls that goes on by itself or when it is answered: a
    coroutine is never suspended on one that has ended without having seen it. -/
theorem async_progress (hr : (machine P).Reaches init s) {k : K} {f : Coroutine K B A R}
    (hk : s.frame k = some f) (hcreated : f.point ≠ .created) (hdone : f.point ≠ .done) :
    ∃ j, Relation.ReflTransGen s.Awaits k j ∧ s.GoesOn P j := by
  have h := awaitInv_reaches hr
  -- By induction on how many coroutines were called after `k`: a callee was called later.
  induction hn : s.born - f.born using Nat.strongRecOn generalizing k f with
  | ind n ih =>
    by_cases hsuspended : ∃ c, f.point = .suspended c
    · obtain ⟨c, hc⟩ := hsuspended
      have hcallee : f.point.callee = some c := by rw [hc]; rfl
      obtain ⟨g, hg, -, hborn, -, hmeets⟩ := h.linked hk hcallee
      rw [hc] at hmeets
      have hgborn := h.born hg
      obtain ⟨j, hchain, hgoes⟩ := ih _ (by omega) hg hmeets.1 hmeets.2.1 rfl
      exact ⟨j, Relation.ReflTransGen.head ⟨f, hk, hcallee⟩ hchain, hgoes⟩
    · refine ⟨k, Relation.ReflTransGen.refl, h.goesOn hk hcreated hdone ?_⟩
      exact fun c hc => hsuspended ⟨c, hc⟩

/-- The caller is suspended, and the callee waits for its answer. -/
theorem async_progress_add_one :
    ∃ s : Coroutines ℕ (Bool × ℕ) ℕ ℕ, (∃ j, Relation.ReflTransGen s.Awaits 0 j ∧
      s.GoesOn addOne j) ∧ (s.frame 0).map Coroutine.point = some (.suspended 1) := by
  have hr := Machine.reaches_of_exec (M := machine addOne) (s := init)
    [.start 0 (true, 0), .step 0 1, .step 0 0, .step 0 0, .step 1 0, .step 0 0] rfl
  exact ⟨_, async_progress (k := 0) hr rfl nofun nofun, rfl⟩

end Coroutines
end Ice
