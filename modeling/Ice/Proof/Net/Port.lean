import Ice.Net.Port
import Ice.Proof.Net.Service.Wakeup
import Ice.Proof.Net.Service.Drain

/-!
# `run` drains before it stops, on Windows

The invariants are those of the other systems (`WakeInv`, `DrainInv`), with the packets without an
event for the armed interrupt (`Inv.armed`). What is different is how the loop leaves: there is no
test of `stop_` behind a wait that a signal ended, since no signal ends it. So what `run` does on
Windows is what it does there on condition (`SignalDrained`).
-/

set_option autoImplicit false

namespace Ice
namespace Net
namespace Port

open Lib Service

variable {E N T : Type*}

/-- The system gives at least one packet, times out with none left, and the port is not closed. -/
def Kernel (s : Port E N T) : Label E N T → Prop
  | .wait (.ready count) => 1 ≤ count
  | .wait (.failed rc) => (rc = WAIT_TIMEOUT → s.packets = []) ∧ rc ≠ ERROR_ABANDONED_WAIT_0
  | _ => True

structure Inv (s : Port E N T) : Prop where
  wake : s.service.WakeInv
  drain : s.service.DrainInv
  armed : s.service.armed = s.packets.any Option.isNone
  untested : ∀ count, s.service.run ≠ .test count

theorem Inv.create : Inv (create : Port E N T) where
  wake := wakeInv_create
  drain := drainInv_create
  armed := rfl
  untested _ h := by cases h

/-! ## 1. The wait -/

theorem armed_iff {s : Port E N T} (h : Inv s) (count : ℕ) :
    s.service.armed = ((s.packets.take count).any Option.isNone ||
      (s.packets.drop count).any Option.isNone) := by
  rw [h.armed, ← List.any_append, List.take_append_drop]

/-- The first packets go to the loop, the others stay. -/
theorem Inv.take {s : Port E N T} (h : Inv s) (hr : s.service.run = .wait) (count : ℕ) :
    Inv { service :=
            { s.service with
              armed := (s.packets.drop count).any Option.isNone
              run := .entries (s.packets.take count) false }
          packets := s.packets.drop count } := by
  have harmed := armed_iff h count
  have htaken : s.service.run.taken = false := by simp [Run.taken, hr]
  have hunread : s.service.run.unread = false := by simp [Run.unread, hr]
  refine ⟨?_, ?_, rfl, fun _ h => (by cases h)⟩
  · cases hany : (s.packets.take count).any Option.isNone with
    | true =>
      exact ⟨fun _ => Or.inr (by simp [Run.taken, hany]),
        fun _ => Or.inr (Or.inl (by simp [Run.unread, hany]))⟩
    | false =>
      rw [hany, Bool.false_or] at harmed
      exact h.wake.move rfl harmed.symm (by simp [htaken])
        (Or.inr ⟨rfl, by simp [hunread], by simp [hr]⟩)
  · have hledger := h.drain.ledger
    have hhands : s.service.hands = [] := by simp [hands, hr, Run.batch]
    rw [hhands] at hledger
    refine ⟨hledger, h.drain.copied, h.drain.signalled.imp id fun hsig => ?_, by simp [leaving]⟩
    rw [htaken, harmed] at hsig
    simpa [Run.taken, or_comm] using hsig

/-- The loop leaves. -/
theorem Inv.leave {s : Port E N T} {ec : ErrorCode} (h : Inv s) (hr : s.service.run = .wait)
    (hleft : ec.isSet = false → s.service.stop = true ∧ s.packets = []) :
    Inv (s.goto (.returned ec)) := by
  have htaken : s.service.run.taken = false := by simp [Run.taken, hr]
  refine ⟨?_, ?_, h.armed, fun _ h => (by cases h)⟩
  · exact h.wake.move rfl rfl (by simp [htaken])
      (Or.inr ⟨rfl, by simp [Run.unread, hr], by simp [hr]⟩)
  · refine h.drain.move rfl (by simp [goto, hands, hr, Run.batch]) (Or.inl rfl)
      (by simp +contextual [goto, htaken]) fun hleaving => ?_
    obtain ⟨hstop, hpackets⟩ := hleft (by simpa [goto, leaving] using hleaving)
    refine ⟨h.drain.copied hstop, ?_⟩
    rcases h.drain.signalled with hsettled | harmed | ht
    · exact hsettled
    · rw [h.armed, hpackets] at harmed
      cases harmed
    · rw [htaken] at ht
      cases ht

theorem Inv.waitStep {s s' : Port E N T} {n : ℕ} {w : Wait} (h : Inv s)
    (hr : s.service.run = .wait) (hk : s.Kernel (.wait w)) (hs : s.waitStep n w = some s') :
    Inv s' := by
  cases w with
  | ready count =>
    obtain ⟨-, hs⟩ := Option.ite_none_right_eq_some.mp hs
    rw [if_neg (Nat.not_lt.mpr hk)] at hs
    obtain rfl := Option.some.inj hs
    exact h.take hr count
  | failed rc =>
    obtain ⟨htimeout, hs⟩ := Option.ite_none_right_eq_some.mp hs
    obtain ⟨hempty, hopen⟩ := hk
    by_cases hrc : rc = WAIT_TIMEOUT
    · rw [if_neg fun hne => hne.2 hrc] at hs
      obtain rfl := Option.some.inj hs
      exact h.leave hr fun _ => ⟨htimeout hrc, hempty hrc⟩
    · rw [if_pos ⟨hopen, hrc⟩] at hs
      obtain rfl := Option.some.inj hs
      refine h.leave hr fun hec => ?_
      simp [rc.pos] at hec

/-! ## 2. The other steps -/

/-- Outside of the wait the runner leaves the packets alone, and never comes to the test. -/
theorem runStep_frame {s s' : Service E N T} (hs : s.runStep = some s') :
    s'.armed = s.armed ∧ ∀ count, s'.run ≠ .test count := by
  unfold Service.runStep at hs
  split at hs
  · obtain rfl := Option.some.inj hs
    exact ⟨rfl, fun _ h => (by cases h)⟩
  · cases hs
  · obtain rfl := Option.some.inj hs
    refine ⟨rfl, fun _ => ?_⟩
    dsimp only
    split <;> exact fun h => (by cases h)
  · obtain rfl := Option.some.inj hs
    exact ⟨rfl, fun _ h => (by cases h)⟩
  · obtain rfl := Option.some.inj hs
    exact ⟨rfl, fun _ h => (by cases h)⟩
  · obtain rfl := Option.some.inj hs
    refine ⟨rfl, fun _ => ?_⟩
    dsimp only
    split <;> exact fun h => (by cases h)
  · obtain rfl := Option.some.inj hs
    exact ⟨rfl, fun _ h => (by cases h)⟩
  · obtain rfl := Option.some.inj hs
    exact ⟨rfl, fun _ h => (by cases h)⟩
  · obtain rfl := Option.some.inj hs
    exact ⟨rfl, fun _ h => (by cases h)⟩
  · obtain rfl := Option.some.inj hs
    exact ⟨rfl, fun _ h => (by cases h)⟩
  · obtain rfl := Option.some.inj hs
    exact ⟨rfl, fun _ h => (by cases h)⟩
  · cases hs

variable [DecidableEq T]

/-- A call interrupts after its push or its store, and then only. -/
theorem callStep_frame {s s' : Service E N T} {t : T} (hs : s.callStep t = some s') :
    s'.run = s.run ∧ s'.armed = (s.armed || (s.box.caller t).pending) := by
  rcases callStep_cases hs with ⟨n, ht, rfl⟩ | ⟨number, ht, rfl⟩ | ⟨stop, ht, rfl⟩ | ⟨ht, rfl⟩
  · exact ⟨rfl, by simp [ht, Caller.pending]⟩
  · exact ⟨rfl, by simp [ht, Caller.pending, interrupt]⟩
  · exact ⟨rfl, by simp [ht, Caller.pending]⟩
  · exact ⟨rfl, by simp [ht, Caller.pending, interrupt]⟩

theorem Inv.step {s s' : Port E N T} {n : ℕ} {l : Label E N T} (h : Inv s) (hk : s.Kernel l)
    (hs : s.step n l = some s') : Inv s' := by
  cases l with
  | post t a =>
    obtain ⟨box, hbox, rfl⟩ := Option.map_eq_some_iff.mp hs
    have hstep : s.service.step .linux n (.post t a) = some { s.service with box := box } := by
      simp [Service.step, hbox]
    exact ⟨h.wake.step hstep, h.drain.step (l := .post t a) trivial trivial hstep, h.armed,
      h.untested⟩
  | stop t stop =>
    obtain ⟨box, hbox, rfl⟩ := Option.map_eq_some_iff.mp hs
    have hstep : s.service.step .linux n (.stop t stop) = some { s.service with box := box } := by
      simp [Service.step, hbox]
    exact ⟨h.wake.step hstep, h.drain.step (l := .stop t stop) trivial trivial hstep, h.armed,
      h.untested⟩
  | call t =>
    obtain ⟨service, hcall, rfl⟩ := Option.map_eq_some_iff.mp hs
    obtain ⟨hrun, harmed⟩ := callStep_frame hcall
    refine ⟨wakeInv_callStep hcall, h.drain.callStep hcall, ?_, by simpa [hrun] using h.untested⟩
    dsimp only
    rw [harmed, h.armed]
    cases (s.service.box.caller t).pending <;> simp
  | run =>
    obtain ⟨service, hrun, rfl⟩ := Option.map_eq_some_iff.mp hs
    obtain ⟨harmed, huntested⟩ := runStep_frame hrun
    have hdrained : s.service.SignalDrained (.run : Service.Label E N T) :=
      fun htest => absurd htest (h.untested (-1))
    exact ⟨h.wake.runStep hrun, h.drain.runStep hdrained hrun, harmed.trans h.armed, huntested⟩
  | wait w =>
    simp only [Port.step] at hs
    split at hs
    · rename_i hr
      exact h.waitStep hr hk hs
    · cases hs
  | complete ev =>
    obtain rfl := Option.some.inj hs
    exact ⟨h.wake, h.drain, by simpa using h.armed, h.untested⟩

/-! ## 3. Every run -/

/-- **No wakeup and no post is lost on Windows.** While the runner waits, no packet without an event
    is queued and nobody is about to put one in, the queue is empty and the runner's copy of `stop_`
    is up to date; and when `run` returns success, every post that returned before the first call of
    `stop(true)` began has been resumed. -/
theorem port_drains {event_buffer_size : ℕ} {s : Port E N T}
    (hr : (machine event_buffer_size).ReachesBy Kernel create s) :
    (s.service.run = .wait → none ∉ s.packets →
      (∀ t, (s.service.box.caller t).pending = false) →
      s.service.box.queue.waiting = [] ∧ s.service.stop = s.service.box.stop) ∧
    ∀ ec, s.service.run = .returned ec → ec.isSet = false →
      ∀ k ∈ s.service.box.owed, k ∈ s.service.box.handled := by
  have h : Inv s := hr.preserves (fun h hk hs => h.step hk hs) .create
  refine ⟨fun hwait hnone hquiet => ?_, fun ec hret hec k hk => ?_⟩
  · have hsig : ¬ s.service.Signalled := by
      rintro (harmed | ⟨t, ht⟩)
      · rw [h.armed] at harmed
        obtain ⟨packet, hin, hpacket⟩ := List.any_eq_true.mp harmed
        exact hnone (Option.isNone_iff_eq_none.mp hpacket ▸ hin)
      · rw [hquiet t] at ht
        cases ht
    constructor
    · by_contra hw
      rcases h.wake.queue hw with hs | ht
      · exact hsig hs
      · simp [Run.taken, hwait] at ht
    · by_contra hne
      rcases h.wake.stop hne with hs | hu | he
      · exact hsig hs
      · simp [Run.unread, hwait] at hu
      · rw [hwait] at he
        cases he
  · have hsettled := (h.drain.left (by simp [leaving, hret, hec])).2 k hk
    rcases h.drain.ledger.owed k hk with hqueue | hbatch | hhandled
    · exact absurd hqueue hsettled
    · simp [hands, hret, Run.batch] at hbatch
    · exact hhandled

omit [DecidableEq T] in
instance decidableKernel [DecidableEq E] (s : Port E N T) :
    (l : Label E N T) → Decidable (s.Kernel l)
  | .wait (.ready count) => inferInstanceAs (Decidable (1 ≤ count))
  | .wait (.failed rc) => inferInstanceAs
      (Decidable ((rc = WAIT_TIMEOUT → s.packets = []) ∧ rc ≠ ERROR_ABANDONED_WAIT_0))
  | .post .. | .stop .. | .call _ | .run | .complete _ => instDecidableTrue

/-- A post and then `stop(true)`, whose packets are taken together, between two events. -/
theorem port_drains_posted :
    ∃ s : Port Unit Unit Unit, s.service.run = .returned .clear ∧ s.service.box.owed = [0] ∧
      ∀ k ∈ s.service.box.owed, k ∈ s.service.box.handled := by
  have hr := Machine.reachesBy_of_execBy (M := machine 128) (Q := Kernel)
    (s := (create : Port Unit Unit Unit))
    [.run, .wait (.ready 1), .run, .run, .run, .run, .complete (), .post () (), .call (), .call (),
      .stop () true, .call (), .complete (), .call (), .wait (.ready 4), .run, .run, .run, .run,
      .run, .run, .run, .run, .run, .run, .run, .wait (.failed WAIT_TIMEOUT)] rfl
  exact ⟨_, rfl, rfl, (port_drains hr).2 _ rfl rfl⟩

end Port
end Net
end Ice
