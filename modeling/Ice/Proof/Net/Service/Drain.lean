import Ice.Net.Service
import Mathlib.Data.Fintype.Basic
import Mathlib.Tactic.Common

/-!
# `net::service::run` and the posts made before `stop`

`run` returns success from one place, the test that follows a wait without entries. After a
*timeout* that test is safe: the loop waits with a timeout only once its copy of `stop_` is
true, so everything owed is already in the queue, and nothing was ready, so no owed post is
left there.

A wait that *fails with* `EINTR` goes through the same test without either of the two. When
`stop_` is true by then, `run` returns over whatever has been posted since the last report
(`post_lost_at_signal`). If every such load of a true `stop_` finds the queue without an owed
post, `run` drains (`run_returns_drained`).
-/

set_option autoImplicit false

namespace Ice
namespace Net
namespace Service

open Lib

variable {E N T : Type*}

/-- The kernel reports a timeout only with nothing ready, and fails only when a signal came. -/
def KernelWait (s : Service E N T) : Label E N T → Prop
  | .wait .timeout => s.armed = false
  | .wait (.failed errno) => errno = EINTR
  | _ => True

/-- The condition on a step: a true `stop_` that is loaded after a signal finds no owed post
    in the queue. -/
def SignalDrained (s : Service E N T) : Label E N T → Prop
  | .run => s.run = .test (-1) → s.box.stop = true → s.box.Settled
  | _ => True

/-- The runner returned success, or is about to load `stop_` without a signal having come. -/
def leaving (s : Service E N T) : Bool :=
  match s.run with
  | .test count => count != -1
  | .returned ec => !ec.isSet
  | _ => false

/-- The numbers of the batch in the runner's hands. -/
def hands (s : Service E N T) : List ℕ := s.run.batch.map Prod.fst

structure DrainInv (s : Service E N T) : Prop where
  ledger : s.box.Ledger s.hands
  -- The local `stop` is a copy of an earlier `stop_`.
  copied : s.stop = true → s.box.stopStored = true
  -- An owed post in the queue has been announced, and the loop has yet to act on it.
  signalled : s.box.Settled ∨ s.armed = true ∨ s.run.taken = true
  left : s.leaving = true → s.box.stopStored = true ∧ s.box.Settled

theorem drainInv_create : DrainInv (create : Service E N T) where
  ledger := Mailbox.ledger_init
  copied := by simp [create, interrupt]
  signalled := Or.inr (Or.inl rfl)
  left := by simp [create, interrupt, leaving]

/-! ## 1. The runner's steps -/

/-- The runner moves on with the same batch in its hands. -/
theorem DrainInv.move {s s' : Service E N T} (h : DrainInv s) (hbox : s'.box = s.box)
    (hhands : s'.hands = s.hands) (hstop : s'.stop = s.stop ∨ s'.stop = s.box.stop)
    (hsig : s.armed = true ∨ s.run.taken = true → s'.armed = true ∨ s'.run.taken = true)
    (hleft : s'.leaving = true → s.box.stopStored = true ∧ s.box.Settled) : DrainInv s' where
  ledger := by rw [hbox, hhands]; exact h.ledger
  copied := by
    intro htrue
    rw [hbox]
    rcases hstop with heq | heq
    · exact h.copied (heq ▸ htrue)
    · exact h.ledger.stored (heq ▸ htrue)
  signalled := by rw [hbox]; exact h.signalled.imp id hsig
  left := by rw [hbox]; exact hleft

theorem DrainInv.runStep {s s' : Service E N T} (h : DrainInv s) (hq : s.SignalDrained .run)
    (hs : s.runStep = some s') : DrainInv s' := by
  unfold Service.runStep at hs
  cases hr : s.run with
  | enter =>
    rw [hr] at hs
    obtain rfl := Option.some.inj hs
    exact h.move rfl (by simp [hands, hr, Run.batch]) (Or.inr rfl) (by simp [Run.taken, hr])
      (by simp [leaving])
  | wait => rw [hr] at hs; cases hs
  | returned ec => rw [hr] at hs; cases hs
  | test count =>
    rw [hr] at hs
    obtain rfl := Option.some.inj hs
    cases hstop : s.box.stop with
    | false =>
      exact h.move rfl (by simp [hands, hr, Run.batch]) (Or.inl rfl) (by simp [Run.taken, hr])
        (by simp [leaving])
    | true =>
      refine h.move rfl (by simp [hands, hr, Run.batch]) (Or.inl rfl) (by simp [Run.taken, hr]) ?_
      intro _
      by_cases hcount : count = -1
      · exact ⟨h.ledger.stored hstop, hq (hcount ▸ hr) hstop⟩
      · exact h.left (by simp [leaving, hr, hcount])
  | entries rest interrupted =>
    rw [hr] at hs
    cases rest with
    | nil =>
      obtain rfl := Option.some.inj hs
      cases interrupted <;>
        exact h.move rfl (by simp [hands, hr, Run.batch]) (Or.inl rfl) (by simp [Run.taken, hr])
          (by simp [leaving])
    | cons entry rest =>
      cases entry with
      | none =>
        obtain rfl := Option.some.inj hs
        exact h.move rfl (by simp [hands, hr, Run.batch]) (Or.inr rfl) (by simp [Run.taken])
          (by simp [leaving])
      | some ev =>
        obtain rfl := Option.some.inj hs
        exact h.move rfl (by simp [hands, hr, Run.batch]) (Or.inl rfl) (by simp [Run.taken, hr])
          (by simp [leaving])
  | event ev rest interrupted =>
    rw [hr] at hs
    obtain rfl := Option.some.inj hs
    exact h.move rfl (by simp [hands, hr, Run.batch]) (Or.inl rfl) (by simp [Run.taken, hr])
      (by simp [leaving])
  | process =>
    rw [hr] at hs
    obtain rfl := Option.some.inj hs
    -- Whatever was owed and waiting is in the runner's hands now.
    refine ⟨?_, h.copied, Or.inl s.box.settled_take, by simp [leaving]⟩
    have hl := h.ledger
    rw [show s.hands = [] by simp [hands, hr, Run.batch]] at hl
    exact hl.take
  | drain batch =>
    rw [hr] at hs
    cases batch with
    | nil =>
      obtain rfl := Option.some.inj hs
      exact h.move rfl (by simp [hands, hr, Run.batch]) (Or.inl rfl) (by simp [Run.taken, hr])
        (by simp [leaving])
    | cons head next =>
      obtain rfl := Option.some.inj hs
      refine ⟨?_, h.copied, h.signalled.imp id ?_, by simp [leaving]⟩
      · have hl := h.ledger
        rw [show s.hands = head.1 :: next.map Prod.fst by simp [hands, hr, Run.batch]] at hl
        exact hl.handle
      · simp [Run.taken, hr]
  | resume next =>
    rw [hr] at hs
    obtain rfl := Option.some.inj hs
    exact h.move rfl (by simp [hands, hr, Run.batch]) (Or.inl rfl) (by simp [Run.taken, hr])
      (by simp [leaving])

/-- A timeout proves that the queue is settled: the loop's copy of `stop_` was true, and the
    interrupt was disarmed. -/
theorem DrainInv.waitStep {s s' : Service E N T} {os : Os} {n : ℕ} {w : Wait E}
    (h : DrainInv s) (hr : s.run = .wait) (hk : s.KernelWait (.wait w))
    (hs : s.waitStep os n w = some s') : DrainInv s' := by
  have hhands : s.hands = [] := by simp [hands, hr, Run.batch]
  have htaken : s.run.taken = false := by simp [Run.taken, hr]
  cases w with
  | ready entries =>
    obtain ⟨-, hs⟩ := Option.ite_none_right_eq_some.mp hs
    obtain rfl := Option.some.inj hs
    have hl := h.ledger
    rw [hhands] at hl
    refine ⟨hl, h.copied, ?_, by simp [leaving]⟩
    refine h.signalled.imp id fun hsig => ?_
    rw [htaken] at hsig
    have harmed : s.armed = true := by simpa using hsig
    cases hany : entries.any Option.isNone <;> simp [Run.taken, hany, harmed]
  | timeout =>
    obtain ⟨htimeout, hs⟩ := Option.ite_none_right_eq_some.mp hs
    obtain rfl := Option.some.inj hs
    have hstop : s.stop = true := by
      cases hstop : s.stop with
      | true => rfl
      | false => cases os <;> simp [timeout, hstop] at htimeout
    refine h.move rfl hhands.symm (Or.inl rfl) (by simp +contextual [htaken]) ?_
    intro _
    refine ⟨h.copied hstop, ?_⟩
    rcases h.signalled with hsettled | harmed | ht
    · exact hsettled
    · rw [show s.armed = false from hk] at harmed
      cases harmed
    · rw [htaken] at ht
      cases ht
  | failed errno =>
    simp only [Service.waitStep, show errno = EINTR from hk] at hs
    obtain rfl := Option.some.inj hs
    exact h.move rfl hhands.symm (Or.inl rfl) (by simp +contextual [htaken]) (by simp [leaving])

/-! ## 2. The callers' steps -/

/-- A caller's step keeps the ledger and what is settled, and signals what it adds. -/
theorem DrainInv.called {s s' : Service E N T} (h : DrainInv s) (hrun : s'.run = s.run)
    (hstop : s'.stop = s.stop) (hl : s'.box.Ledger s.hands)
    (hst : s.box.stopStored = true → s'.box.stopStored = true)
    (hkeep : s.box.stopStored = true → s.box.Settled → s'.box.Settled)
    (hsig : s'.armed = true ∨
      s'.armed = s.armed ∧ (s.box.Settled → s'.box.Settled)) : DrainInv s' := by
  refine ⟨by rw [hands, hrun]; exact hl, ?_, ?_, ?_⟩
  · rw [hstop]
    exact fun htrue => hst (h.copied htrue)
  · rcases hsig with harmed | ⟨harmed, hsettled⟩
    · exact Or.inr (Or.inl harmed)
    · rw [harmed, hrun]
      exact h.signalled.imp hsettled id
  · intro hleft
    rw [leaving, hrun] at hleft
    obtain ⟨hstored, hout⟩ := h.left hleft
    exact ⟨hst hstored, hkeep hstored hout⟩

variable [DecidableEq T]

theorem DrainInv.callStep {s s' : Service E N T} {t : T} (h : DrainInv s)
    (hs : s.callStep t = some s') : DrainInv s' := by
  rcases callStep_cases hs with ⟨n, ht, rfl⟩ | ⟨number, ht, rfl⟩ | ⟨stop, ht, rfl⟩ | ⟨ht, rfl⟩
  · exact h.called rfl rfl h.ledger.push id (fun _ => h.ledger.settled_push)
      (Or.inr ⟨rfl, h.ledger.settled_push⟩)
  · exact h.called rfl rfl (h.ledger.postReturns ht) id
      (fun hst => h.ledger.settled_postReturns hst) (Or.inl rfl)
  · refine h.called rfl rfl (h.ledger.store ht) (fun hst => ?_) (fun _ hout => hout)
      (Or.inr ⟨rfl, fun hout => hout⟩)
    simp [Mailbox.store, hst]
  · exact h.called rfl rfl h.ledger.stopReturns id (fun _ hout => hout) (Or.inl rfl)

theorem DrainInv.step {os : Os} {n : ℕ} {s s' : Service E N T} {l : Label E N T}
    (h : DrainInv s) (hk : s.KernelWait l) (hq : s.SignalDrained l)
    (hs : s.step os n l = some s') : DrainInv s' := by
  cases l with
  | post t n =>
    obtain ⟨box, hbox, rfl⟩ := Option.map_eq_some_iff.mp hs
    have hl := h.ledger.callPost hbox
    obtain ⟨-, rfl⟩ := Mailbox.callPost_frame hbox
    exact ⟨hl, h.copied, h.signalled, h.left⟩
  | stop t stop =>
    obtain ⟨box, hbox, rfl⟩ := Option.map_eq_some_iff.mp hs
    have hl := h.ledger.callStop hbox
    obtain ⟨-, rfl⟩ := Mailbox.callStop_frame hbox
    exact ⟨hl, h.copied, h.signalled, h.left⟩
  | call t => exact h.callStep hs
  | run => exact h.runStep hq hs
  | wait w =>
    simp only [Service.step] at hs
    split at hs
    · rename_i hr
      exact h.waitStep hr hk hs
    · cases hs

/-! ## 3. Every run -/

/-- **`run` drains before it stops**: in a run in which no signal makes the loop load a true
    `stop_` over a queue that holds an owed post, every post that returned before the first
    call of `stop(true)` began has been resumed when `run` returns success. -/
theorem run_returns_drained {os : Os} {event_buffer_size : ℕ} {s : Service E N T}
    {ec : ErrorCode}
    (hr : (machine os event_buffer_size).ReachesBy
      (fun s l => s.KernelWait l ∧ s.SignalDrained l) create s)
    (hret : s.run = .returned ec) (hec : ec.isSet = false) :
    ∀ k ∈ s.box.owed, k ∈ s.box.handled := by
  have h : DrainInv s :=
    hr.preserves (fun h hq hs => DrainInv.step h hq.1 hq.2 hs) drainInv_create
  intro k hk
  have hout := (h.left (by simp [leaving, hret, hec])).2 k hk
  rcases h.ledger.owed k hk with hq | hb | hres
  · exact absurd hq hout
  · simp [hands, hret, Run.batch] at hb
  · exact hres

instance decidableKernelWait (s : Service E N T) : ∀ l : Label E N T, Decidable (s.KernelWait l)
  | .wait .timeout => inferInstanceAs (Decidable (s.armed = false))
  | .wait (.failed errno) => inferInstanceAs (Decidable (errno = EINTR))
  | .wait (.ready _) | .post .. | .stop .. | .call _ | .run => instDecidableTrue

instance decidableSignalDrained [DecidableEq E] [DecidableEq N] (s : Service E N T) :
    ∀ l : Label E N T, Decidable (s.SignalDrained l)
  | .run => inferInstanceAs (Decidable
      (s.run = .test (-1) → s.box.stop = true → s.box.Settled))
  | .wait _ | .post .. | .stop .. | .call _ => instDecidableTrue

/-- The hypotheses are met by a run that a signal interrupts, and that then stops. -/
theorem run_returns_drained_posted :
    ∃ s : Service Empty Unit Unit, (machine .linux 1).ReachesBy
      (fun s l => s.KernelWait l ∧ s.SignalDrained l) create s ∧ s.run = .returned .clear ∧
      s.box.owed = [0] ∧ ∀ k ∈ s.box.owed, k ∈ s.box.handled := by
  have hr := Machine.reachesBy_of_execBy (M := machine .linux 1)
    (Q := fun s l => s.KernelWait l ∧ s.SignalDrained l)
    (s := (create : Service Empty Unit Unit))
    [.run, .post () (), .call (), .call (), .stop () true, .call (), .call (),
      .wait (.ready [none]), .run, .run, .run, .run, .run, .run, .wait .timeout, .run] rfl
  exact ⟨_, hr, rfl, rfl, run_returns_drained hr rfl rfl⟩

/-- **A post lost at a signal.** The loop waits with nothing ready and a signal ends the wait;
    `post` returns and `stop(true)` stores; the loop loads `stop_` and returns. -/
theorem post_lost_at_signal :
    ∃ s : Service Empty Unit Unit, (machine .linux 1).ReachesBy KernelWait create s ∧
      s.run = .returned .clear ∧ s.box.owed = [0] ∧ s.box.handled = [] ∧
      s.box.queue.waiting = [(0, ())] :=
  ⟨_, Machine.reachesBy_of_execBy (M := machine .linux 1) (Q := KernelWait)
    [.run, .wait (.ready [none]), .run, .run, .run, .run, .wait (.failed EINTR),
      .post () (), .call (), .call (), .stop () true, .call (), .call (), .run] rfl,
    rfl, rfl, rfl, rfl⟩

omit [DecidableEq T] in
/-- **The condition is exact.** A true `stop_` loaded after a signal returns success over
    whatever is waiting. -/
theorem signal_test_returns {s s' : Service E N T} (hr : s.run = .test (-1))
    (hstop : s.box.stop = true) (hs : s.runStep = some s') :
    s'.run = .returned .clear ∧ s'.box = s.box := by
  unfold Service.runStep at hs
  rw [hr] at hs
  obtain rfl := Option.some.inj hs
  simp [hstop]

end Service
end Net
end Ice
