import Ice.Context
import Mathlib.Data.Fintype.Basic
import Mathlib.Tactic.Common

/-!
# `context::run` and the posts made before `stop`

`run` tests the queue first and `stop_` second, in the loop and in the wait predicate alike.
A post and a `stop(true)` that both fall between an `acquire` that found nothing and the load
of `stop_` that follows are seen in the wrong order: the load reads true, and `run` returns
over a queue that holds the post (`post_lost_at_stop`).

If every load that ends the loop finds the queue without an owed post, one that returned before
the first `stop(true)` began, `run` drains (`run_drains`). And the gap is the only place where such
a load can find one: `acquire` takes what is owed, and once `stop_` was set nothing more becomes
owed. So it is enough that `stop_` first becomes true outside of the gap
(`stopDrained_of_stopOutsideGap`).
-/

set_option autoImplicit false

namespace Ice
namespace Context

open Lib

variable {N T : Type*}

/-- The runner found the queue empty and has not loaded `stop_` since. -/
def inGap (s : Context N T) : Bool :=
  match s.run with
  | .testStop | .waitStop => true
  | _ => false

/-- `run` is about to return, or has. -/
def returning (s : Context N T) : Bool :=
  match s.run with
  | .leave | .returned => true
  | _ => false

/-- The condition on a step: a true `stop_` that is loaded over a null head finds no owed post in
    the queue. -/
def StopDrained (s : Context N T) : Label N T → Prop
  | .run => s.run = .testStop → s.box.stop = true → s.box.Settled
  | _ => True

/-- When `stop_` first becomes true while the runner is in the gap, the queue holds no post that
    returned before `stop(true)` was called. -/
def StopOutsideGap (s : Context N T) : Label N T → Prop
  | .call t => s.box.caller t = .store true → s.box.stopStored = false → s.inGap = true →
      s.box.Settled
  | _ => True

/-- The numbers of the batch in the runner's hands. -/
def hands (s : Context N T) : List Nat := s.run.batch.map Prod.fst

/-- Every push is accounted for. -/
def Accounts (s : Context N T) : Prop := s.box.Ledger s.hands

/-- `run` leaves nothing behind. -/
structure DrainInv (s : Context N T) : Prop where
  accounts : s.Accounts
  left : s.returning = true → s.box.stopStored = true ∧ s.box.Settled

/-- After `stop_` was set, a queue found empty is empty of owed posts. -/
structure GapInv (s : Context N T) : Prop where
  accounts : s.Accounts
  gap : s.box.stopStored = true → s.inGap = true → s.box.Settled

theorem drainInv_init : DrainInv (init : Context N T) where
  accounts := Mailbox.ledger_init
  left := by simp [init, returning]

theorem gapInv_init : GapInv (init : Context N T) where
  accounts := Mailbox.ledger_init
  gap := by simp [init, inGap]

/-! ## 1. The runner's steps -/

/-- The runner moves, with the same batch in its hands. -/
theorem Accounts.move {s s' : Context N T} (h : s.Accounts) (hbox : s'.box = s.box)
    (hhands : s'.hands = s.hands) : s'.Accounts := by
  rw [Accounts, hbox, hhands]
  exact h

/-- Whatever was waiting is in the runner's hands. -/
theorem Accounts.acquire {s : Context N T} {empty : Run N} (h : s.Accounts)
    (hs : s.hands = []) (he : empty.batch = []) : (s.acquire empty).Accounts := by
  rw [Accounts, hs] at h
  have hhands : (s.acquire empty).hands = s.box.queue.numbers := by
    by_cases hw : s.box.queue.waiting = []
    · simp [hands, Context.acquire, Fifo.numbers, hw, he]
    · have hw' : s.box.queue.waiting.isEmpty = false := by simpa using hw
      simp [hands, Context.acquire, Fifo.numbers, hw', Run.batch]
  rw [Accounts, hhands]
  exact h.take

theorem Accounts.runStep {s s' : Context N T} (h : s.Accounts) (hs : s.runStep = some s') :
    s'.Accounts := by
  unfold Context.runStep at hs
  cases hr : s.run <;> rw [hr] at hs
  case returned => cases hs
  all_goals try dsimp only at hs
  case acquire | waitAcquire =>
    obtain rfl := Option.some.inj hs
    exact h.acquire (by rw [hands, hr]; rfl) rfl
  case testStop | waitStop =>
    obtain rfl := Option.some.inj hs
    refine h.move rfl ?_
    rw [hands, hands, hr]
    cases s.box.stop <;> rfl
  case drain batch =>
    cases batch with
    | nil =>
      obtain rfl := Option.some.inj hs
      exact h.move rfl (by rw [hands, hands, hr]; rfl)
    | cons head next =>
      obtain rfl := Option.some.inj hs
      rw [Accounts, show s.hands = head.1 :: next.map Prod.fst by rw [hands, hr]; rfl] at h
      exact h.handle
  case enter | lock | blocked | wake =>
    split at hs <;> cases hs
    exact h.move rfl (by rw [hands, hands, hr]; rfl)
  all_goals
    obtain rfl := Option.some.inj hs
    exact h.move rfl (by rw [hands, hands, hr]; rfl)

/-- The loop is left from the load of a true `stop_` on. -/
theorem returning_of_runStep {s s' : Context N T} (hs : s.runStep = some s')
    (hret : s'.returning = true) :
    s'.box = s.box ∧ (s.returning = true ∨ s.run = .testStop ∧ s.box.stop = true) := by
  unfold Context.runStep at hs
  cases hr : s.run <;> rw [hr] at hs
  all_goals try dsimp only at hs
  case leave =>
    obtain rfl := Option.some.inj hs
    exact ⟨rfl, Or.inl (by simp [returning, hr])⟩
  case returned => cases hs
  case testStop =>
    obtain rfl := Option.some.inj hs
    cases hstop : s.box.stop with
    | true => exact ⟨rfl, Or.inr ⟨rfl, rfl⟩⟩
    | false => simp [returning, hstop] at hret
  case acquire | waitAcquire =>
    obtain rfl := Option.some.inj hs
    cases hw : s.box.queue.waiting.isEmpty <;> simp [returning, Context.acquire, hw] at hret
  case waitStop =>
    obtain rfl := Option.some.inj hs
    cases hstop : s.box.stop <;> simp [returning, hstop] at hret
  case drain batch =>
    cases batch <;> obtain rfl := Option.some.inj hs <;> simp [returning] at hret
  case enter | lock | blocked | wake =>
    split at hs <;> cases hs
    simp [returning] at hret
  all_goals
    obtain rfl := Option.some.inj hs
    simp [returning] at hret

/-- The gap begins at an `acquire`, which settles the queue. -/
theorem gap_of_runStep {s s' : Context N T} (hs : s.runStep = some s') (hgap : s'.inGap = true) :
    s'.box.Settled ∨ s'.box = s.box ∧ s.inGap = true := by
  unfold Context.runStep at hs
  cases hr : s.run <;> rw [hr] at hs
  all_goals try dsimp only at hs
  case returned => cases hs
  case acquire | waitAcquire =>
    obtain rfl := Option.some.inj hs
    exact Or.inl s.box.settled_take
  case testStop | waitStop =>
    obtain rfl := Option.some.inj hs
    exact Or.inr ⟨rfl, by simp [inGap, hr]⟩
  case drain batch =>
    cases batch <;> obtain rfl := Option.some.inj hs <;> simp [inGap] at hgap
  case enter | lock | blocked | wake =>
    split at hs <;> cases hs
    simp [inGap] at hgap
  all_goals
    obtain rfl := Option.some.inj hs
    simp [inGap] at hgap

theorem DrainInv.runStep {s s' : Context N T} (h : DrainInv s) (hq : s.StopDrained .run)
    (hs : s.runStep = some s') : DrainInv s' := by
  refine ⟨h.accounts.runStep hs, fun hret => ?_⟩
  obtain ⟨hbox, hret | ⟨hr, hstop⟩⟩ := returning_of_runStep hs hret
  · exact hbox ▸ h.left hret
  · exact hbox ▸ ⟨h.accounts.stored hstop, hq hr hstop⟩

theorem GapInv.runStep {s s' : Context N T} (h : GapInv s) (hs : s.runStep = some s') :
    GapInv s' := by
  refine ⟨h.accounts.runStep hs, fun hst hgap => ?_⟩
  obtain hsettled | ⟨hbox, hgap⟩ := gap_of_runStep hs hgap
  · exact hsettled
  · rw [hbox] at hst ⊢
    exact h.gap hst hgap

/-! ## 2. The callers' steps -/

variable [DecidableEq T]

theorem callStep_run {s s' : Context N T} {t : T} (hs : s.callStep t = some s') :
    s'.run = s.run := by
  rcases callStep_cases hs with ⟨n, ht, rfl⟩ | ⟨number, ht, rfl⟩ | ⟨stop, ht, rfl⟩ | ⟨ht, rfl⟩ <;>
    rfl

theorem Accounts.callStep {s s' : Context N T} {t : T} (h : s.Accounts)
    (hs : s.callStep t = some s') : s'.Accounts := by
  rcases callStep_cases hs with ⟨n, ht, rfl⟩ | ⟨number, ht, rfl⟩ | ⟨stop, ht, rfl⟩ | ⟨ht, rfl⟩
  · exact Mailbox.Ledger.push h
  · exact Mailbox.Ledger.postReturns h ht
  · exact Mailbox.Ledger.store h ht
  · exact Mailbox.Ledger.stopReturns h

/-- Once `stop_` was set, what is settled stays so. -/
theorem Accounts.settled_callStep {s s' : Context N T} {t : T} (h : s.Accounts)
    (hst : s.box.stopStored = true) (hout : s.box.Settled) (hs : s.callStep t = some s') :
    s'.box.stopStored = true ∧ s'.box.Settled := by
  rcases callStep_cases hs with ⟨n, ht, rfl⟩ | ⟨number, ht, rfl⟩ | ⟨stop, ht, rfl⟩ | ⟨ht, rfl⟩
  · exact ⟨hst, Mailbox.Ledger.settled_push h hout⟩
  · exact ⟨hst, Mailbox.Ledger.settled_postReturns h hst hout⟩
  · exact ⟨by simp [Mailbox.store, hst], hout⟩
  · exact ⟨hst, hout⟩

/-- Only a store of true sets `stop_`, and it leaves the queue as it is. -/
theorem first_of_callStep {s s' : Context N T} {t : T} (hs : s.callStep t = some s')
    (hst : s'.box.stopStored = true) (hno : s.box.stopStored = false) :
    s.box.caller t = .store true ∧ (s.box.Settled → s'.box.Settled) := by
  have hnever : ¬ s.box.stopStored = true := by simp [hno]
  rcases callStep_cases hs with ⟨n, ht, rfl⟩ | ⟨number, ht, rfl⟩ | ⟨stop, ht, rfl⟩ | ⟨ht, rfl⟩
  · exact absurd hst hnever
  · exact absurd hst hnever
  · have hstop : stop = true := by simpa [Mailbox.store, hno] using hst
    exact ⟨hstop ▸ ht, id⟩
  · exact absurd hst hnever

theorem Accounts.step {s s' : Context N T} {l : Label N T} (h : s.Accounts)
    (hs : s.step l = some s') : s'.Accounts := by
  cases l with
  | post t n =>
    obtain ⟨box, hbox, rfl⟩ := Option.map_eq_some_iff.mp hs
    exact Mailbox.Ledger.callPost h hbox
  | stop t stop =>
    obtain ⟨box, hbox, rfl⟩ := Option.map_eq_some_iff.mp hs
    exact Mailbox.Ledger.callStop h hbox
  | call t => exact h.callStep hs
  | run => exact h.runStep hs
  | spurious =>
    simp only [Context.step] at hs
    split at hs <;> cases hs
    rename_i hr
    exact h.move rfl (by rw [hands, hands, hr]; rfl)

theorem DrainInv.step {s s' : Context N T} {l : Label N T} (h : DrainInv s)
    (hq : s.StopDrained l) (hs : s.step l = some s') : DrainInv s' := by
  have haccounts := h.accounts.step hs
  cases l with
  | post t n =>
    obtain ⟨box, hbox, rfl⟩ := Option.map_eq_some_iff.mp hs
    obtain ⟨-, rfl⟩ := Mailbox.callPost_frame hbox
    exact ⟨haccounts, h.left⟩
  | stop t stop =>
    obtain ⟨box, hbox, rfl⟩ := Option.map_eq_some_iff.mp hs
    obtain ⟨-, rfl⟩ := Mailbox.callStop_frame hbox
    exact ⟨haccounts, h.left⟩
  | call t =>
    refine ⟨haccounts, fun hret => ?_⟩
    rw [returning, callStep_run hs] at hret
    obtain ⟨hst, hout⟩ := h.left hret
    exact h.accounts.settled_callStep hst hout hs
  | run => exact h.runStep hq hs
  | spurious =>
    simp only [Context.step] at hs
    split at hs <;> cases hs
    exact ⟨haccounts, fun hret => absurd hret (by simp [returning])⟩

theorem GapInv.step {s s' : Context N T} {l : Label N T} (h : GapInv s)
    (hq : s.StopOutsideGap l) (hs : s.step l = some s') : GapInv s' := by
  have haccounts := h.accounts.step hs
  cases l with
  | post t n =>
    obtain ⟨box, hbox, rfl⟩ := Option.map_eq_some_iff.mp hs
    obtain ⟨-, rfl⟩ := Mailbox.callPost_frame hbox
    exact ⟨haccounts, h.gap⟩
  | stop t stop =>
    obtain ⟨box, hbox, rfl⟩ := Option.map_eq_some_iff.mp hs
    obtain ⟨-, rfl⟩ := Mailbox.callStop_frame hbox
    exact ⟨haccounts, h.gap⟩
  | call t =>
    refine ⟨haccounts, fun hst hgap => ?_⟩
    rw [inGap, callStep_run hs] at hgap
    cases hbefore : s.box.stopStored with
    | true => exact (h.accounts.settled_callStep hbefore (h.gap hbefore hgap) hs).2
    | false =>
      obtain ⟨ht, hkeep⟩ := first_of_callStep hs hst hbefore
      exact hkeep (hq ht hbefore hgap)
  | run => exact h.runStep hs
  | spurious =>
    simp only [Context.step] at hs
    split at hs <;> cases hs
    exact ⟨haccounts, fun _ hgap => absurd hgap (by simp [inGap])⟩

/-! ## 3. Every run -/

/-- **`run` drains before it stops**: in a run in which no load of a true `stop_` finds a queue
    that holds an owed post, every post that returned before the first call of `stop(true)` began
    has been resumed when `run` returns. -/
theorem run_drains {s : Context N T} (hr : machine.ReachesBy StopDrained init s)
    (hret : s.run = .returned) : ∀ k ∈ s.box.owed, k ∈ s.box.handled := by
  have h : DrainInv s := hr.preserves DrainInv.step drainInv_init
  intro k hk
  have hout := (h.left (by rw [returning, hret])).2 k hk
  rcases h.accounts.owed k hk with hq | hb | hres
  · exact absurd hq hout
  · simp [hands, hret, Run.batch] at hb
  · exact hres

/-- **The gap is the only place** where `stop_` may not be set: a run in which it does not first
    become true there over a queue that holds an owed post drains. -/
theorem stopDrained_of_stopOutsideGap {s : Context N T}
    (hr : machine.ReachesBy StopOutsideGap init s) : machine.ReachesBy StopDrained init s := by
  refine (hr.preserves (I := fun s => GapInv s ∧ machine.ReachesBy StopDrained init s)
    (fun {a l b} h hq hs => ?_) ⟨gapInv_init, .refl⟩).2
  refine ⟨h.1.step hq hs, h.2.tail ⟨l, ?_, hs⟩⟩
  cases l with
  | run =>
    intro hrun hstop
    exact h.1.gap (h.1.accounts.stored hstop) (by rw [inGap, hrun])
  | _ => trivial

instance decidableStopDrained [DecidableEq N] (s : Context N T) :
    ∀ l : Label N T, Decidable (s.StopDrained l)
  | .run => inferInstanceAs (Decidable
      (s.run = .testStop → s.box.stop = true → s.box.Settled))
  | .post .. | .stop .. | .call _ | .spurious => instDecidableTrue

/-- The hypotheses are met by a run in which a post and a stop come while the runner sleeps. -/
theorem run_drains_posted :
    ∃ s : Context Unit Unit, machine.ReachesBy StopDrained init s ∧ s.run = .returned ∧
      s.box.owed = [0] ∧ ∀ k ∈ s.box.owed, k ∈ s.box.handled := by
  have hr := Machine.reachesBy_of_execBy (M := machine) (Q := StopDrained)
    (s := (init : Context Unit Unit))
    [.run, .run, .run, .run, .run, .run, .run, .run, .post () (), .call (), .call (),
      .stop () true, .call (), .call (), .run, .run, .run, .run, .run, .run, .run, .run, .run,
      .run, .run] rfl
  exact ⟨_, hr, rfl, rfl, run_drains hr rfl⟩

/-- **A post lost at the stop.** The runner finds the queue empty; `post` returns and
    `stop(true)` stores; the runner loads `stop_` and returns. -/
theorem post_lost_at_stop :
    ∃ s : Context Unit Unit, machine.Reaches init s ∧ s.run = .returned ∧
      s.box.owed = [0] ∧ s.box.handled = [] ∧ s.box.queue.waiting = [(0, ())] :=
  ⟨_, Machine.reaches_of_exec [.run, .run, .run, .run, .post () (), .call (), .call (),
    .stop () true, .call (), .call (), .run, .run] rfl, rfl, rfl, rfl, rfl⟩

omit [DecidableEq T] in
/-- **The condition is exact.** A true `stop_` loaded over a null head makes the runner's own next
    accesses return over whatever is waiting. -/
theorem stop_load_returns {s : Context N T} (hr : s.run = .testStop) (hstop : s.box.stop = true) :
    ∃ s', s.runStep = some s' ∧ ∃ s'', s'.runStep = some s'' ∧ s''.run = .returned ∧
      s''.box = s.box := by
  refine ⟨{ s with run := .leave }, ?_, { s with locked := false, run := .returned }, rfl, rfl, rfl⟩
  unfold Context.runStep
  rw [hr]
  simp [hstop]

end Context
end Ice
