import Ice.Context
import Mathlib.Data.Fintype.Basic
import Mathlib.Tactic.Common

/-!
# Wakeups of `context::run`

`post` and `stop` change what the predicate of `cv_.wait` reads and notify **without**
holding `mutex_`. The predicate's two reads and the blocking step are therefore three separate
moments, and a notify that falls between them reaches nobody: the runner goes to sleep on a
queue it has not seen (`lost_wakeup`).

`missed` names the window exactly: the predicate has already read something that is no longer
true, and the runner is still going to block. What the code does keep is that a state in the
window has a thread whose notify is still to come — as long as no thread spends the last such
notify inside the window (`NotifyHeard`). Every run of such steps is free of lost wakeups
(`wakeup_not_lost`), and a step that is not of this kind loses one (`missed_notify_sleeps`).
-/

set_option autoImplicit false

namespace Ice
namespace Context

open Lib

variable {N T : Type*}

/-- The runner sleeps on a true predicate and nobody is about to notify it. -/
def LostWakeup (s : Context N T) : Prop :=
  s.run = .blocked ∧ s.notified = false ∧ (∀ t, (s.box.caller t).pending = false) ∧
    ¬ (s.box.queue.waiting = [] ∧ s.box.stop = false)

/-- The runner is going to block although its predicate has become true: it has read the
    queue, or the queue and `stop_`, before the change. -/
def missed (s : Context N T) : Bool :=
  match s.run with
  | .waitStop => !s.box.queue.waiting.isEmpty && !s.box.stop
  | .block => !s.box.queue.waiting.isEmpty || s.box.stop
  | _ => false

/-- The runner is blocked, unnotified, and its predicate is true. -/
def Asleep (s : Context N T) : Prop :=
  s.run = .blocked ∧ s.notified = false ∧ (s.box.queue.waiting ≠ [] ∨ s.box.stop = true)

/-- The condition on a step: a thread that notifies while the runner misses the change is not
    the last one that is going to. -/
def NotifyHeard (s : Context N T) : Label N T → Prop
  | .call t => (s.box.caller t).pending = true → s.missed = true →
      ∃ t', t' ≠ t ∧ (s.box.caller t').pending = true
  | _ => True

/-- **The invariant.** A change that the runner has missed is still going to be announced. -/
def WakeInv (s : Context N T) : Prop := s.missed = true ∨ s.Asleep → s.box.Announced

/-! ## 1. The runner's steps -/

/-- Away from the predicate and the wait, nothing can be missed. -/
theorem wakeInv_of_run {s : Context N T} (h₁ : s.run ≠ .waitStop) (h₂ : s.run ≠ .block)
    (h₃ : s.run ≠ .blocked) : s.WakeInv := by
  intro hm
  rcases hm with hm | hm
  · revert hm h₁ h₂
    unfold missed
    cases s.run <;> simp
  · exact absurd hm.1 h₃

/-- A batch in hand, or an empty queue just read: nothing has been missed yet. -/
theorem wakeInv_acquire {s : Context N T} {empty : Run N} (h₁ : empty ≠ .block)
    (h₂ : empty ≠ .blocked) : (s.acquire empty).WakeInv := by
  by_cases hw : s.box.queue.waiting.isEmpty = true
  · intro hm
    rcases hm with hm | hm
    · revert hm
      simp only [missed, acquire, Mailbox.take, hw, if_true, Fifo.waiting_take]
      cases empty <;> simp_all
    · have hrun := hm.1
      simp only [acquire, hw, if_true] at hrun
      exact absurd hrun h₂
  · apply wakeInv_of_run <;> simp [acquire, hw]

theorem WakeInv.runStep {s s' : Context N T} (h : s.WakeInv) (hs : s.runStep = some s') :
    s'.WakeInv := by
  unfold Context.runStep at hs
  cases hr : s.run <;> rw [hr] at hs
  case returned => cases hs
  all_goals try dsimp only at hs
  case acquire =>
    obtain rfl := Option.some.inj hs
    exact wakeInv_acquire (by simp) (by simp)
  case waitAcquire =>
    obtain rfl := Option.some.inj hs
    exact wakeInv_acquire (by simp) (by simp)
  case testStop =>
    obtain rfl := Option.some.inj hs
    cases hstop : s.box.stop <;> apply wakeInv_of_run <;> simp
  case waitStop =>
    obtain rfl := Option.some.inj hs
    cases hstop : s.box.stop with
    | true => apply wakeInv_of_run <;> simp
    | false =>
      -- The predicate is false, so what `block` would miss, `waitStop` has missed.
      intro hm
      rcases hm with hm | hm
      · apply h
        left
        simpa [missed, hstop, hr] using hm
      · simp [Asleep] at hm
  case block =>
    obtain rfl := Option.some.inj hs
    intro hm
    rcases hm with hm | hm
    · simp [missed] at hm
    · apply h
      left
      simpa [missed, hr] using hm.2.2
  case drain batch =>
    cases batch <;> obtain rfl := Option.some.inj hs <;> apply wakeInv_of_run <;> simp
  case enter | lock | blocked | wake =>
    split at hs
    all_goals first
      | cases hs; done
      | obtain rfl := Option.some.inj hs; apply wakeInv_of_run <;> simp
  all_goals
    obtain rfl := Option.some.inj hs
    apply wakeInv_of_run <;> simp

/-! ## 2. The callers' steps -/

variable [DecidableEq T]

/-- Entering a call changes nothing the runner reads, and takes no announcement away. -/
theorem WakeInv.enter {s : Context N T} {box : Mailbox N T} {t : T} {c : Caller N}
    (h : s.WakeInv) (ht : s.box.caller t = .idle) (hq : box.queue = s.box.queue)
    (hst : box.stop = s.box.stop) (hc : box.caller = Function.update s.box.caller t c) :
    WakeInv { s with box := box } := by
  intro hm
  have hann := h (by simpa only [missed, Asleep, hq, hst] using hm)
  exact hann.enter ht hc

/-- A notify wakes a blocked runner; elsewhere it must not be the last one. -/
theorem wakeInv_notify {s : Context N T} {box : Mailbox N T} {t : T}
    (hheard : s.missed = true → ∃ t', t' ≠ t ∧ (s.box.caller t').pending = true)
    (hq : box.queue = s.box.queue) (hst : box.stop = s.box.stop)
    (hc : box.caller = Function.update s.box.caller t .idle) :
    WakeInv { s.notify with box := box } := by
  intro hm
  rcases hm with hm | hm
  · obtain ⟨u, hne, hu⟩ := hheard (by simpa only [missed, notify, hq, hst] using hm)
    exact Mailbox.announced_of_ne hc hne hu
  · have hrun : s.run = .blocked := hm.1
    have hnot : (s.notified || s.run.isBlocked) = false := hm.2.1
    rw [hrun] at hnot
    simp [Run.isBlocked] at hnot

theorem WakeInv.callStep {s s' : Context N T} {t : T}
    (hheard : (s.box.caller t).pending = true → s.missed = true →
      ∃ t', t' ≠ t ∧ (s.box.caller t').pending = true)
    (hs : s.callStep t = some s') : s'.WakeInv := by
  rcases callStep_cases hs with ⟨n, ht, rfl⟩ | ⟨number, ht, rfl⟩ | ⟨stop, ht, rfl⟩ | ⟨ht, rfl⟩
  · exact fun _ => Mailbox.announced_push n
  · exact wakeInv_notify (hheard (by rw [ht]; rfl)) rfl rfl rfl
  · exact fun _ => Mailbox.announced_store stop
  · exact wakeInv_notify (hheard (by rw [ht]; rfl)) rfl rfl rfl

/-! ## 3. Every run whose notifies are heard -/

theorem WakeInv.step {s s' : Context N T} {l : Label N T} (h : s.WakeInv)
    (hq : s.NotifyHeard l) (hs : s.step l = some s') : s'.WakeInv := by
  cases l with
  | post t n =>
    obtain ⟨box, hbox, rfl⟩ := Option.map_eq_some_iff.mp hs
    obtain ⟨ht, rfl⟩ := Mailbox.callPost_frame hbox
    exact h.enter ht rfl rfl rfl
  | stop t stop =>
    obtain ⟨box, hbox, rfl⟩ := Option.map_eq_some_iff.mp hs
    obtain ⟨ht, rfl⟩ := Mailbox.callStop_frame hbox
    exact h.enter ht rfl rfl rfl
  | call t => exact WakeInv.callStep hq hs
  | run => exact h.runStep hs
  | spurious =>
    simp only [Context.step] at hs
    split at hs
    · obtain rfl := Option.some.inj hs
      apply wakeInv_of_run <;> simp
    · cases hs

/-- **No wakeup is lost** in a run in which no thread spends the last outstanding notify
    between the predicate's reads and the block that follows them. -/
theorem wakeup_not_lost {s : Context N T} (hr : machine.ReachesBy NotifyHeard init s) :
    ¬ s.LostWakeup := by
  have h : s.WakeInv := hr.preserves WakeInv.step
    (wakeInv_of_run (by simp [init]) (by simp [init]) (by simp [init]))
  intro hlost
  obtain ⟨hrun, hnot, hquiet, htrue⟩ := hlost
  have hasleep : s.Asleep := by
    refine ⟨hrun, hnot, ?_⟩
    by_cases hw : s.box.queue.waiting = []
    · exact Or.inr (by simpa using fun hst => htrue ⟨hw, hst⟩)
    · exact Or.inl hw
  obtain ⟨t, ht⟩ := h (Or.inr hasleep)
  rw [hquiet t] at ht
  cases ht

instance decidableNotifyHeard [Fintype T] (s : Context N T) :
    ∀ l : Label N T, Decidable (s.NotifyHeard l)
  | .call t => inferInstanceAs (Decidable
      ((s.box.caller t).pending = true → s.missed = true →
        ∃ t', t' ≠ t ∧ (s.box.caller t').pending = true))
  | .post .. | .stop .. | .run | .spurious => instDecidableTrue

/-- The hypothesis is met by a run in which the post comes after the runner fell asleep. -/
theorem wakeup_not_lost_posted :
    ∃ s : Context Unit Unit, machine.ReachesBy NotifyHeard init s ∧ s.run = .blocked ∧
      s.box.queue.waiting = [(0, ())] ∧ ¬ s.LostWakeup := by
  have hr := Machine.reachesBy_of_execBy (M := machine) (Q := NotifyHeard)
    (s := (init : Context Unit Unit))
    [.run, .run, .run, .run, .run, .run, .run, .run, .post () (), .call ()] rfl
  exact ⟨_, hr, rfl, rfl, wakeup_not_lost hr⟩

/-! ## 4. The window -/

/-- **The lost wakeup.** The runner reads an empty queue and a false `stop_`; a thread posts
    and notifies nobody; the runner blocks. -/
theorem lost_wakeup :
    ∃ s : Context Unit Unit, machine.Reaches init s ∧ s.LostWakeup ∧
      s.box.queue.waiting = [(0, ())] := by
  refine ⟨_, Machine.reaches_of_exec [.run, .run, .run, .run, .run, .run, .run,
    .post () (), .call (), .call (), .run] rfl, ⟨rfl, rfl, fun _ => rfl, ?_⟩, rfl⟩
  intro hfalse
  cases hfalse.1

/-- **The condition is exact.** A notify that is not heard leaves a state in which the
    runner's own next accesses put it to sleep for good. -/
theorem missed_notify_sleeps {s s' : Context N T} {t : T} (hs : s.callStep t = some s')
    (hp : (s.box.caller t).pending = true) (hm : s.missed = true)
    (hlast : ∀ t', t' ≠ t → (s.box.caller t').pending = false) :
    ∃ ls s'', (∀ l ∈ ls, l = Label.run) ∧ machine.exec s' ls = some s'' ∧ s''.LostWakeup := by
  -- The notify itself changes nothing that the runner is about to read.
  have hframe : s'.box.queue = s.box.queue ∧ s'.box.stop = s.box.stop ∧ s'.run = s.run ∧
      s'.box.caller = Function.update s.box.caller t .idle := by
    rcases callStep_cases hs with ⟨n, ht, -⟩ | ⟨number, ht, rfl⟩ | ⟨stop, ht, -⟩ | ⟨ht, rfl⟩
    · rw [ht] at hp
      cases hp
    · exact ⟨rfl, rfl, rfl, rfl⟩
    · rw [ht] at hp
      cases hp
    · exact ⟨rfl, rfl, rfl, rfl⟩
  obtain ⟨hq, hst, hr, hc⟩ := hframe
  have hquiet : ∀ u, (s'.box.caller u).pending = false := by
    intro u
    rw [hc]
    by_cases hu : u = t
    · rw [hu, Function.update_self]
      rfl
    · rw [Function.update_of_ne hu]
      exact hlast u hu
  cases hrun : s.run <;> simp [missed, hrun] at hm
  case waitStop =>
    refine ⟨[.run, .run], { s' with locked := false, notified := false, run := .blocked },
      by simp, ?_, rfl, rfl, hquiet, ?_⟩
    · simp [Machine.exec, machine, Context.step, Context.runStep, hr, hrun, hst, hm.2]
    · intro hfalse
      exact hm.1 (hq ▸ hfalse.1)
  case block =>
    refine ⟨[.run], { s' with locked := false, notified := false, run := .blocked },
      by simp, ?_, rfl, rfl, hquiet, ?_⟩
    · simp [Machine.exec, machine, Context.step, Context.runStep, hr, hrun]
    · intro hfalse
      obtain ⟨hw, hstop⟩ := hfalse
      rcases hm with hm | hm
      · exact hm (hq ▸ hw)
      · rw [hst, hm] at hstop
        cases hstop

end Context
end Ice
