import Ice.Proof.Context.Drain
import Ice.Proof.Log.Order

/-!
# Who releases a blocked call

A synchronous call is released by the logger's thread, which prints its entry in
`context::run`. Two kinds of calls have nobody: one that a sink makes on the logger's own
thread (`self_blocked`), and one whose entry is still to be printed when `run` loads the
`stop_` that ends it, or that begins after (`stranded`).

**In every run without these, a call is blocked over an entry that was not handled only while
the logger's thread is in `run`, and it is another thread's** (`blocked_has_releaser`).
-/

set_option autoImplicit false

namespace Ice
namespace Log

open Lib

variable {X : Type*}

/-- Outside the synchronous branch, or with an entry that was handled. -/
def Unbound (p : At) (c : Call) : Prop :=
  p = .lock ∨ p.late = true ∨ p = .post ∧ c.sync = true → c.stage = .finished

instance (p : At) (c : Call) : Decidable (Unbound p c) :=
  inferInstanceAs (Decidable (_ → _))

/-- The thread that takes the synchronous branch by its next load. -/
def locks (s : Log X) : Label X → Option (Thread Unit X)
  | .count t =>
    match s.at_ t with
    | .limited limit => if s.count < limit then none else some t
    | _ => none
  | .limit t =>
    match s.at_ t with
    | .counted count => if count < s.limit then none else some t
    | _ => none
  | _ => none

/-- The logger loads the `stop_` that ends its loop. -/
def ends (s : Log X) : Label X → Bool
  | .run =>
    match s.ctx.run with
    | .testStop => s.ctx.box.stop
    | _ => false
  | _ => false

/-- The condition on a step: the synchronous branch is not taken on the logger's thread, nor
    after the end of its loop, and at that end nobody is in the branch with an entry that was
    not handled. -/
def ReleasedByEnd (s : Log X) (l : Label X) : Prop :=
  (∀ t ∈ s.locks l, t ≠ logger ∧ s.ctx.returning = false) ∧
    (s.ends l = true → ∀ t, Unbound (s.at_ t) (s.call (s.id t)))

/-- What holds of the logger's thread and of every other one. -/
instance [Fintype X] (p : Thread Unit X → Prop) [DecidablePred p] : Decidable (∀ t, p t) :=
  decidable_of_iff (p logger ∧ ∀ x, p (.other x))
    ⟨fun h t => match t with
      | .runner () => h.1
      | .other x => h.2 x, fun h => ⟨h logger, fun x => h (.other x)⟩⟩

instance [Fintype X] [DecidableEq X] (s : Log X) (l : Label X) : Decidable (ReleasedByEnd s l) :=
  inferInstanceAs (Decidable (_ ∧ _))

/-- Every blocked call has a releaser. -/
structure Releasable (s : Log X) : Prop where
  logger : s.at_ logger ≠ .lock ∧ (s.call (s.id logger)).sync = false
  left : s.ctx.returning = true → ∀ t, Unbound (s.at_ t) (s.call (s.id t))

theorem releasable_init : Releasable (init : Log X) where
  logger := ⟨by simp [init], rfl⟩
  left h := by cases h

variable [DecidableEq X] {s s' : Log X}

/-! ## 1. The logger's own calls -/

/-- A thread that moves elsewhere than into the branch. -/
theorem ne_lock_move {t u : Thread Unit X} {p : At} (h : s.at_ u ≠ .lock)
    (hp : u = t → p ≠ .lock) : Function.update s.at_ t p u ≠ .lock := by
  intro hu
  rcases update_cases hu with ⟨hut, hx⟩ | ⟨-, hu⟩
  · exact hp hut hx
  · exact h hu

/-- A call that is rewritten and not made synchronous. -/
theorem async_set {k j : Id X} {c : Call} (h : (s.call j).sync = false)
    (hc : j = k → c.sync = false) : (Function.update s.call k c j).sync = false := by
  by_cases hj : j = k
  · rw [hj, Function.update_self]
    exact hc hj
  · rw [Function.update_of_ne hj]
    exact h

theorem logger_step {l : Label X} (hi : Inv s) (h : Releasable s) (hq : ReleasedByEnd s l)
    (hs : Step s l s') : s'.at_ logger ≠ .lock ∧ (s'.call (s'.id logger)).sync = false := by
  obtain ⟨hlock, hsync⟩ := h.logger
  cases hs with
  | @queue t =>
    refine ⟨ne_lock_move hlock (by simp), ?_⟩
    by_cases ht : logger = t
    · subst ht
      have hnew := hi.callers.fresh logger (s.calls logger + 1) (Nat.lt_succ_self _)
      simpa [Log.id] using hnew.2
    · simpa [Log.id, ht] using hsync
  | counted | limited | woken | wake | stop | stopped | join =>
    exact ⟨ne_lock_move hlock (by simp), hsync⟩
  | add => exact ⟨ne_lock_move hlock (by simp), hsync⟩
  | posted | check =>
    refine ⟨ne_lock_move hlock fun _ => ?_, hsync⟩
    split <;> simp
  | @countLast t limit ht =>
    refine ⟨ne_lock_move hlock fun hl => ?_, hsync⟩
    split
    · simp
    · rename_i hlt
      exact absurd hl.symm (hq.1 t (by simp [locks, ht, hlt])).1
  | @limitLast t count ht =>
    refine ⟨ne_lock_move hlock fun hl => ?_, hsync⟩
    split
    · simp
    · rename_i hlt
      exact absurd hl.symm (hq.1 t (by simp [locks, ht, hlt])).1
  | @lock t ctx ht =>
    refine ⟨ne_lock_move hlock (by simp), async_set hsync fun hid => ?_⟩
    -- The logger does not stand there.
    have hl : logger = t := congrArg Prod.fst hid
    rw [hl] at hlock
    exact absurd ht hlock
  | ended | block | leave =>
    exact ⟨ne_lock_move hlock (by simp), async_set hsync fun hid => hid ▸ hsync⟩
  | push | resume | printed | sub | store | notify =>
    exact ⟨hlock, async_set hsync fun hid => hid ▸ hsync⟩
  | setLimit | stored | run | spurious | read => exact ⟨hlock, hsync⟩

/-! ## 2. After the end of the loop -/

omit [DecidableEq X] in
/-- The loop is left from the load of a true `stop_` on. -/
theorem returning_of_runStep {ctx : Context (Id X) (Thread Unit X)}
    (hc : s.ctx.runStep = some ctx) (hl : ctx.returning = true) :
    s.ctx.returning = true ∨ s.ends .run = true := by
  obtain ⟨-, hret | ⟨hr, hstop⟩⟩ := Context.returning_of_runStep hc hl
  · exact Or.inl hret
  · exact Or.inr (by simp [ends, hr, hstop])

theorem unbound_of_away {p : At} {c : Call} (hl : p ≠ .lock) (hp : p ≠ .post)
    (hlate : p.late = false) : Unbound p c := by
  intro h
  rcases h with h | h | ⟨h, -⟩
  · exact absurd h hl
  · rw [hlate] at h
    cases h
  · exact absurd h hp

/-- A call that is out of the branch, or whose entry was handled, stays so. -/
theorem unbound_mono {p : At} {c c' : Call} (h : Unbound p c) (hsync : c'.sync = c.sync)
    (hstage : c.stage ≠ .finished) : Unbound p c' := by
  intro hp
  rw [hsync] at hp
  exact absurd (h hp) hstage

/-- Past the end of the full expression, one place in the branch is as good as another. -/
theorem unbound_late {p p' : At} {c c' : Call} (h : Unbound p c) (hp : p.late = true)
    (hstage : c'.stage = c.stage) : Unbound p' c' :=
  fun _ => hstage.trans (h (Or.inr (Or.inl hp)))

omit [DecidableEq X] in
theorem returning_congr {ctx : Context (Id X) (Thread Unit X)} (hrun : ctx.run = s.ctx.run)
    (hl : ctx.returning = true) : s.ctx.returning = true := by
  rw [Context.returning, hrun] at hl
  exact hl

/-- After the end of the loop, nobody enters the branch. -/
theorem left_step {l : Label X} (hi : Inv s) (h : Releasable s) (hq : ReleasedByEnd s l)
    (hs : Step s l s') (hl : s'.ctx.returning = true) :
    ∀ t, Unbound (s'.at_ t) (s'.call (s'.id t)) := by
  cases hs with
  | queue => exact pairs_begin (h.left hl) fun c _ => unbound_of_away (by simp) (by simp) rfl
  | counted | limited => exact pairs_move (h.left hl) (unbound_of_away (by simp) (by simp) rfl)
  | join => exact pairs_move (h.left hl) (unbound_of_away (by simp) (by simp) rfl)
  | @countLast t limit ht =>
    refine pairs_move (h.left hl) ?_
    split
    · exact unbound_of_away (by simp) (by simp) rfl
    · rename_i hlt
      have hout := (hq.1 t (by simp [locks, ht, hlt])).2
      exact absurd (hout.symm.trans hl) (by simp)
  | @limitLast t count ht =>
    refine pairs_move (h.left hl) ?_
    split
    · exact unbound_of_away (by simp) (by simp) rfl
    · rename_i hlt
      have hout := (hq.1 t (by simp [locks, ht, hlt])).2
      exact absurd (hout.symm.trans hl) (by simp)
  | @add t ctx ht hc =>
    have hsync := (hi.callers.early t (by rw [ht]; rfl)).2
    refine pairs_move (h.left (returning_congr (ctx_post hc).2.2 hl)) fun hp => ?_
    simp [hsync] at hp
  | @lock t ctx ht hc =>
    -- The thread was in the branch before.
    have hfin := h.left (returning_congr (ctx_post hc).2.2 hl) t (Or.inl ht)
    rw [(hi.callers.early t (by rw [ht]; rfl)).1] at hfin
    cases hfin
  | @push t ctx k ht hp hc =>
    obtain ⟨-, rfl, hstage⟩ := hi.callers.pushing t k hp
    have hold := h.left (returning_congr (ctx_call hc).2.2 hl)
    refine pairs_set hold fun u hu => ?_
    have hb := hold u
    rw [hu] at hb
    exact unbound_mono hb rfl (by simp [hstage])
  | @posted t ctx ht hp hc =>
    have hold := h.left (returning_congr (ctx_call hc).2.2 hl)
    refine pairs_move hold ?_
    split
    · rename_i hsync
      exact fun _ => hold t (Or.inr (Or.inr ⟨ht, hsync⟩))
    · exact unbound_of_away (by simp) (by simp) rfl
  | @ended t ht | @block t ht =>
    exact pairs_move_set (h.left hl) (unbound_late (h.left hl t) (by rw [ht]; rfl) rfl)
  | @check t ht =>
    exact pairs_move (h.left hl) (unbound_late (h.left hl t) (by rw [ht]; rfl) rfl)
  | @woken t ht | @wake t ht =>
    exact pairs_move (h.left hl) (unbound_late (h.left hl t) (by rw [ht]; rfl) rfl)
  | leave =>
    exact pairs_move_set (h.left hl) (unbound_of_away (by simp) (by simp) rfl)
  | setLimit | read => exact h.left hl
  | stop ht _ hc =>
    exact pairs_move (h.left (returning_congr (ctx_stop hc).2.2 hl))
      (unbound_of_away (by simp) (by simp) rfl)
  | stored ht hc => exact h.left (returning_congr (ctx_call hc).2.2 hl)
  | stopped ht hc =>
    exact pairs_move (h.left (returning_congr (ctx_call hc).2.2 hl))
      (unbound_of_away (by simp) (by simp) rfl)
  | run _ _ hc =>
    rcases returning_of_runStep hc hl with hret | hends
    · exact h.left hret
    · exact hq.2 hends
  | resume _ hd hc =>
    -- The loop stands at a coroutine.
    rcases returning_of_runStep hc hl with hret | hends
    · simp [Context.returning, hd] at hret
    · simp [ends, hd] at hends
  | spurious hc =>
    obtain ⟨-, -, hr⟩ := ctx_spurious hc
    simp [Context.returning, hr] at hl
  | @printed k _ _ hst | @sub k _ hst _ | @store k _ hst _ | @notify k _ hst _ =>
    refine pairs_set (h.left hl) fun u hu => ?_
    have hb := h.left hl u
    rw [hu] at hb
    exact unbound_mono hb rfl (by simp [hst])

/-- **Every blocked call has a releaser.** In every run in which no sink logs synchronously on
    the logger's thread, nobody takes the synchronous branch after the end of the logger's
    loop, and nobody is in it with an entry that was not handled at that end: while a thread
    is blocked over an entry that was not handled, the logger's thread is in `run`, and it is
    another thread. -/
theorem blocked_has_releaser (hr : machine.ReachesBy ReleasedByEnd (init : Log X) s)
    (t : Thread Unit X) (ht : s.at_ t = .blocked) (hk : (s.call (s.id t)).stage ≠ .finished) :
    s.ctx.run ≠ .returned ∧ t ≠ logger := by
  obtain ⟨hi, h⟩ : Inv s ∧ Releasable s :=
    hr.preserves (I := fun s => Inv s ∧ Releasable s)
      (fun ⟨hi, h⟩ hq hs => ⟨hi.step (step_cases hs),
        logger_step hi h hq (step_cases hs), left_step hi h hq (step_cases hs)⟩)
      ⟨inv_init, releasable_init⟩
  constructor
  · intro hret
    have hleft := h.left (by simp [Context.returning, hret]) t
    exact hk (hleft (Or.inr (Or.inl (by rw [ht]; rfl))))
  · intro hl
    have hsync := hi.callers.late t (by rw [ht]; rfl)
    rw [hl, h.logger.2] at hsync
    cases hsync

/-- The hypotheses are met by a run in which a call blocks before the logger takes it up. -/
theorem blocked_has_releaser_waiting :
    let t : Thread Unit Unit := .other ()
    let schedule : List (Label Unit) :=
      [.setLimit 0, .queue t, .count t, .limit t, .call t, .call t, .call t, .call t, .call t,
        .call t, .run, .run]
    ∃ s, machine.execBy ReleasedByEnd init schedule = some s ∧
      s.at_ t = .blocked ∧ (s.call (s.id t)).stage = .queued ∧ s.ctx.run ≠ .returned ∧
      t ≠ logger := by
  intro t schedule
  have hrun : machine.execBy ReleasedByEnd init schedule = some _ := rfl
  refine ⟨_, hrun, rfl, rfl, ?_⟩
  exact blocked_has_releaser (Machine.reachesBy_of_execBy schedule hrun) t rfl (by decide)

/-- A sink logs into a full queue: the logger's thread blocks over an entry that only it could
    handle. -/
theorem self_blocked :
    ∃ s : Log Unit, machine.Reaches init s ∧ s.at_ logger = .blocked ∧
      (s.call (s.id logger)).stage = .queued :=
  ⟨_, Machine.reaches_of_exec
    [.queue (.other ()), .count (.other ()), .limit (.other ()), .call (.other ()),
      .call (.other ()), .call (.other ()), .run, .run, .run, .run, .run, .run, .setLimit 1,
      .queue logger, .count logger, .limit logger, .call logger, .call logger, .call logger,
      .call logger, .call logger, .call logger] rfl, rfl, rfl⟩

/-- A call after `stop`: the thread blocks over an entry that nobody will handle. -/
theorem stranded :
    ∃ s : Log Unit, machine.Reaches init s ∧ s.at_ (.other ()) = .blocked ∧
      (s.call (s.id (.other ()))).stage = .queued ∧ s.ctx.run = .returned :=
  ⟨_, Machine.reaches_of_exec
    [.setLimit 0, .stop (.other ()), .call (.other ()), .call (.other ()),
      .run, .run, .run, .run, .run, .run, .call (.other ()),
      .queue (.other ()), .count (.other ()), .limit (.other ()), .call (.other ()),
      .call (.other ()), .call (.other ()), .call (.other ()), .call (.other ()),
      .call (.other ())] rfl, rfl, rfl, rfl⟩

end Log
end Ice
