import Ice.Net.Service
import Mathlib.Tactic.Common

/-!
# Wakeups of `net::service::run`

Any number of posts and stops coalesce into one armed interrupt, and one report of it makes
the loop load `stop_` and take the whole queue. Nothing gets lost in between, because an
interrupt always comes *after* the change it announces: whatever the loop has not seen is
announced by a thread that is still to interrupt, by the armed registration, or by a report
that the loop has in its hands and has not acted on (`WakeInv`).

The loop acts on a report twice, first on the flag and later on the queue, so the two halves
of the invariant differ in how long a report keeps standing for the change (`Run.unread`,
`Run.taken`).
-/

set_option autoImplicit false

namespace Ice
namespace Net
namespace Service

open Lib

variable {E N T : Type*}

/-- A thread is going to interrupt, or the next wait can report that one has. -/
def Signalled (s : Service E N T) : Prop := s.armed = true ∨ s.box.Announced

/-- **The invariant.** What the loop has not seen is signalled, or reported. -/
structure WakeInv (s : Service E N T) : Prop where
  queue : s.box.queue.waiting ≠ [] → s.Signalled ∨ s.run.taken = true
  -- Before `run` has loaded `stop_`, its copy says nothing.
  stop : s.stop ≠ s.box.stop → s.Signalled ∨ s.run.unread = true ∨ s.run = .enter

theorem wakeInv_create : WakeInv (create : Service E N T) where
  queue := by simp [create, interrupt, Mailbox.init, Fifo.empty]
  stop := by simp [create, interrupt, Mailbox.init]

/-! ## 1. The runner's steps -/

/-- A step of the runner that leaves the mailbox and the registration alone. -/
theorem WakeInv.move {s s' : Service E N T} (h : s.WakeInv) (hbox : s'.box = s.box)
    (harmed : s'.armed = s.armed) (htaken : s.run.taken = true → s'.run.taken = true)
    (hstop : s'.stop = s.box.stop ∨
      s'.stop = s.stop ∧ (s.run.unread = true → s'.run.unread = true) ∧ s.run ≠ .enter) :
    s'.WakeInv := by
  have hsig : s'.Signalled ↔ s.Signalled := by rw [Signalled, Signalled, hbox, harmed]
  refine ⟨?_, ?_⟩
  · intro hw
    rw [hbox] at hw
    rcases h.queue hw with hs | ht
    · exact Or.inl (hsig.mpr hs)
    · exact Or.inr (htaken ht)
  · intro hne
    rw [hbox] at hne
    rcases hstop with heq | ⟨heq, hunread, hrun⟩
    · exact absurd heq hne
    · rcases h.stop (heq ▸ hne) with hs | hu | he
      · exact Or.inl (hsig.mpr hs)
      · exact Or.inr (Or.inl (hunread hu))
      · exact absurd he hrun

theorem WakeInv.runStep {s s' : Service E N T} (h : s.WakeInv) (hs : s.runStep = some s') :
    s'.WakeInv := by
  unfold Service.runStep at hs
  cases hr : s.run with
  | enter =>
    rw [hr] at hs
    obtain rfl := Option.some.inj hs
    exact h.move rfl rfl (by simp [Run.taken, hr]) (Or.inl rfl)
  | wait => rw [hr] at hs; cases hs
  | returned ec => rw [hr] at hs; cases hs
  | test count =>
    rw [hr] at hs
    obtain rfl := Option.some.inj hs
    exact h.move rfl rfl (by simp [Run.taken, hr])
      (Or.inr ⟨rfl, by simp [Run.unread, hr], by simp [hr]⟩)
  | entries rest interrupted =>
    rw [hr] at hs
    cases rest with
    | nil =>
      obtain rfl := Option.some.inj hs
      refine h.move rfl rfl ?_ (Or.inr ⟨rfl, by simp [Run.unread, hr], by simp [hr]⟩)
      cases interrupted <;> simp [Run.taken, hr]
    | cons entry rest =>
      cases entry with
      | none =>
        -- The flag is loaded now; the queue will be acquired after the loop.
        obtain rfl := Option.some.inj hs
        exact h.move rfl rfl (by simp [Run.taken]) (Or.inl rfl)
      | some ev =>
        obtain rfl := Option.some.inj hs
        exact h.move rfl rfl (by simp [Run.taken, hr])
          (Or.inr ⟨rfl, by simp [Run.unread, hr], by simp [hr]⟩)
  | event ev rest interrupted =>
    rw [hr] at hs
    obtain rfl := Option.some.inj hs
    exact h.move rfl rfl (by simp [Run.taken, hr])
      (Or.inr ⟨rfl, by simp [Run.unread, hr], by simp [hr]⟩)
  | process =>
    rw [hr] at hs
    obtain rfl := Option.some.inj hs
    refine ⟨by simp [Mailbox.take], ?_⟩
    intro hne
    rcases h.stop hne with hsig | hu | he
    · exact Or.inl hsig
    · simp [Run.unread, hr] at hu
    · rw [hr] at he
      cases he
  | drain batch =>
    rw [hr] at hs
    cases batch with
    | nil =>
      obtain rfl := Option.some.inj hs
      exact h.move rfl rfl (by simp [Run.taken, hr])
        (Or.inr ⟨rfl, by simp [Run.unread, hr], by simp [hr]⟩)
    | cons head next =>
      obtain rfl := Option.some.inj hs
      refine ⟨fun hw => (h.queue hw).imp id ?_, fun hne => (h.stop hne).imp id ?_⟩
      · simp [Run.taken, hr]
      · simp [Run.unread, hr]
  | resume next =>
    rw [hr] at hs
    obtain rfl := Option.some.inj hs
    exact h.move rfl rfl (by simp [Run.taken, hr])
      (Or.inr ⟨rfl, by simp [Run.unread, hr], by simp [hr]⟩)

/-- A wait that reports the interrupt disarms it and hands it to the loop. -/
theorem WakeInv.waitStep {s s' : Service E N T} {os : Os} {n : ℕ} {w : Wait E}
    (h : s.WakeInv) (hr : s.run = .wait) (hs : s.waitStep os n w = some s') : s'.WakeInv := by
  have hidle : s.run.taken = false ∧ s.run.unread = false := by
    simp [Run.taken, Run.unread, hr]
  have hne : s.run ≠ .enter := by simp [hr]
  cases w with
  | ready entries =>
    obtain ⟨-, hs⟩ := Option.ite_none_right_eq_some.mp hs
    obtain rfl := Option.some.inj hs
    cases hany : entries.any Option.isNone with
    | true =>
      exact ⟨fun _ => Or.inr (by simp [Run.taken, hany]),
        fun _ => Or.inr (Or.inl (by simp [Run.unread, hany]))⟩
    | false =>
      exact h.move rfl (by simp) (by simp [hidle.1])
        (Or.inr ⟨rfl, by simp [hidle.2], hne⟩)
  | timeout =>
    obtain ⟨-, hs⟩ := Option.ite_none_right_eq_some.mp hs
    obtain rfl := Option.some.inj hs
    exact h.move rfl rfl (by simp [hidle.1]) (Or.inr ⟨rfl, by simp [hidle.2], hne⟩)
  | failed errno =>
    simp only [Service.waitStep] at hs
    split at hs <;> obtain rfl := Option.some.inj hs <;>
      exact h.move rfl rfl (by simp [hidle.1]) (Or.inr ⟨rfl, by simp [hidle.2], hne⟩)

/-! ## 2. The callers' steps -/

/-- After a push, a store, or an interrupt, everything is signalled. -/
theorem wakeInv_of_signalled {s : Service E N T} (h : s.Signalled) : s.WakeInv :=
  ⟨fun _ => Or.inl h, fun _ => Or.inl h⟩

variable [DecidableEq T]

/-- Entering a call changes nothing the runner reads, and takes no announcement away. -/
theorem WakeInv.enter {s : Service E N T} {box : Mailbox N T} {t : T} {c : Caller N}
    (h : s.WakeInv) (ht : s.box.caller t = .idle) (hq : box.queue = s.box.queue)
    (hst : box.stop = s.box.stop) (hc : box.caller = Function.update s.box.caller t c) :
    WakeInv { s with box := box } := by
  have hsig : s.Signalled → ({ s with box := box } : Service E N T).Signalled := by
    intro hs
    rcases hs with ha | ha
    · exact Or.inl ha
    · exact Or.inr (ha.enter ht hc)
  refine ⟨fun hw => ?_, fun hne => ?_⟩
  · exact (h.queue (by simpa only [hq] using hw)).imp hsig id
  · exact (h.stop (by simpa only [hst] using hne)).imp hsig id

theorem wakeInv_callStep {s s' : Service E N T} {t : T} (hs : s.callStep t = some s') :
    s'.WakeInv := by
  apply wakeInv_of_signalled
  rcases callStep_cases hs with ⟨n, -, rfl⟩ | ⟨number, -, rfl⟩ | ⟨stop, -, rfl⟩ | ⟨-, rfl⟩
  · exact Or.inr (Mailbox.announced_push n)
  · exact Or.inl rfl
  · exact Or.inr (Mailbox.announced_store stop)
  · exact Or.inl rfl

/-! ## 3. Every run -/

theorem WakeInv.step {os : Os} {n : ℕ} {s s' : Service E N T} {l : Label E N T}
    (h : s.WakeInv) (hs : s.step os n l = some s') : s'.WakeInv := by
  cases l with
  | post t n =>
    obtain ⟨box, hbox, rfl⟩ := Option.map_eq_some_iff.mp hs
    obtain ⟨ht, rfl⟩ := Mailbox.callPost_frame hbox
    exact h.enter ht rfl rfl rfl
  | stop t stop =>
    obtain ⟨box, hbox, rfl⟩ := Option.map_eq_some_iff.mp hs
    obtain ⟨ht, rfl⟩ := Mailbox.callStop_frame hbox
    exact h.enter ht rfl rfl rfl
  | call t => exact wakeInv_callStep hs
  | run => exact h.runStep hs
  | wait w =>
    simp only [Service.step] at hs
    split at hs
    · rename_i hr
      exact h.waitStep hr hs
    · cases hs

/-- **No wakeup is lost.** While the runner waits with the interrupt disarmed and no thread is
    about to interrupt, the queue is empty and the runner's copy of `stop_` is up to date. -/
theorem wait_is_current {os : Os} {event_buffer_size : ℕ} {s : Service E N T}
    (hr : (machine os event_buffer_size).Reaches create s) (hwait : s.run = .wait)
    (hdisarmed : s.armed = false) (hquiet : ∀ t, (s.box.caller t).pending = false) :
    s.box.queue.waiting = [] ∧ s.stop = s.box.stop := by
  have h : s.WakeInv := hr.preserves (fun h _ hs => WakeInv.step h hs) wakeInv_create
  have hsig : ¬ s.Signalled := by
    intro hs
    rcases hs with ha | ⟨t, ht⟩
    · rw [hdisarmed] at ha
      cases ha
    · rw [hquiet t] at ht
      cases ht
  constructor
  · by_contra hw
    rcases h.queue hw with hs | ht
    · exact hsig hs
    · simp [Run.taken, hwait] at ht
  · by_contra hne
    rcases h.stop hne with hs | hu | he
    · exact hsig hs
    · simp [Run.unread, hwait] at hu
    · rw [hwait] at he
      cases he

/-- The hypotheses are met after a post was handled: the report disarmed the interrupt. -/
theorem wait_is_current_posted :
    ∃ s : Service Empty Unit Unit, (machine .linux 1).Reaches create s ∧ s.box.handled = [0] ∧
      s.box.queue.waiting = [] ∧ s.stop = s.box.stop := by
  have hr := Machine.reaches_of_exec (M := machine .linux 1)
    (s := (create : Service Empty Unit Unit))
    [.run, .post () (), .call (), .call (), .wait (.ready [none]), .run, .run, .run, .run, .run,
      .run] rfl
  exact ⟨_, hr, rfl, wait_is_current hr rfl rfl fun _ => rfl⟩

end Service
end Net
end Ice
