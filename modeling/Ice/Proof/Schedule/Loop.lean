import Ice.Schedule
import Mathlib.Tactic.Common

/-!
# A loop as a holder of nodes

Where coroutines end up depends on very little of what `context::run` and `service::run` do.
Seen from outside, either loop *holds* the nodes of its batch and of its queue (`nodes`): a
call of `post` adds one at the end, the loop takes the first out when it resumes it, and
nothing else changes what is held. These are the two models' step functions read through
`nodes`, one lemma for each of the calls into a loop.
-/

set_option autoImplicit false

namespace Ice
namespace Loop

open Lib

variable {E K T : Type*}

def nodes : Loop E K T → List K
  | context s => s.run.batch.map Prod.snd ++ s.box.queue.waiting.map Prod.snd
  | service _ _ s => s.run.batch.map Prod.snd ++ s.box.queue.waiting.map Prod.snd

/-- The node that the next access of a caller publishes. -/
def published : Caller K → List K
  | .push k => [k]
  | _ => []

/-- What a runner's step does: it takes out the node at the head, if the loop stands at one. -/
def TurnSpec (l l' : Loop E K T) : Prop :=
  l'.box.caller = l.box.caller ∧ l.nodes = l.head.toList ++ l'.nodes

theorem context_runStep_spec {s s' : Context K T} (hs : s.runStep = some s') :
    TurnSpec (context s : Loop E K T) (context s') := by
  unfold Context.runStep at hs
  cases hr : s.run <;> rw [hr] at hs
  case returned => cases hs
  case acquire | waitAcquire =>
    obtain rfl := Option.some.inj hs
    refine ⟨rfl, ?_⟩
    by_cases hw : s.box.queue.waiting = []
    · simp [nodes, head, hr, Context.Run.batch, Context.acquire, hw, Mailbox.take]
    · have hw' : s.box.queue.waiting.isEmpty = false := by simpa using hw
      simp [nodes, head, hr, Context.Run.batch, Context.acquire, hw', Mailbox.take]
  case drain batch =>
    cases batch <;> obtain rfl := Option.some.inj hs <;>
      exact ⟨rfl, by simp [nodes, head, hr, Context.Run.batch, Mailbox.handle]⟩
  all_goals
    dsimp only at hs
    try split at hs
    all_goals first
      | cases hs; done
      | obtain rfl := Option.some.inj hs
        exact ⟨rfl, by simp [nodes, head, hr, Context.Run.batch]⟩

theorem service_runStep_spec {os : Os} {n : ℕ} {s s' : Net.Service E K T}
    (hs : s.runStep = some s') : TurnSpec (service os n s) (service os n s') := by
  unfold Net.Service.runStep at hs
  cases hr : s.run <;> rw [hr] at hs
  case wait | returned => cases hs
  case entries rest interrupted =>
    rcases rest with _ | ⟨_ | ev, rest⟩ <;> obtain rfl := Option.some.inj hs
    · refine ⟨rfl, ?_⟩
      cases interrupted <;> simp [nodes, head, hr, Net.Service.Run.batch]
    all_goals exact ⟨rfl, by simp [nodes, head, hr, Net.Service.Run.batch]⟩
  case test count =>
    obtain rfl := Option.some.inj hs
    refine ⟨rfl, ?_⟩
    cases s.box.stop <;> simp [nodes, head, hr, Net.Service.Run.batch]
  case drain batch =>
    cases batch <;> obtain rfl := Option.some.inj hs <;>
      exact ⟨rfl, by simp [nodes, head, hr, Net.Service.Run.batch, Mailbox.handle]⟩
  all_goals
    obtain rfl := Option.some.inj hs
    exact ⟨rfl, by simp [nodes, head, hr, Net.Service.Run.batch, Mailbox.take]⟩

theorem service_waitStep_spec {os : Os} {n : ℕ} {s s' : Net.Service E K T} {w : Net.Wait E}
    (hr : s.run = .wait) (hs : s.waitStep os n w = some s') :
    TurnSpec (service os n s) (service os n s') := by
  cases w with
  | ready entries =>
    obtain ⟨-, hs⟩ := Option.ite_none_right_eq_some.mp hs
    obtain rfl := Option.some.inj hs
    exact ⟨rfl, by simp [nodes, head, hr, Net.Service.Run.batch]⟩
  | timeout =>
    obtain ⟨-, hs⟩ := Option.ite_none_right_eq_some.mp hs
    obtain rfl := Option.some.inj hs
    exact ⟨rfl, by simp [nodes, head, hr, Net.Service.Run.batch]⟩
  | failed errno =>
    simp only [Net.Service.waitStep] at hs
    split at hs <;> obtain rfl := Option.some.inj hs <;>
      exact ⟨rfl, by simp [nodes, head, hr, Net.Service.Run.batch]⟩

variable [DecidableEq T] {l l' : Loop E K T}

theorem turn_spec {turn : Turn E} (h : l.turn turn = some l') : TurnSpec l l' := by
  cases l with
  | context s =>
    cases turn with
    | run =>
      obtain ⟨s', hs, rfl⟩ := Option.map_eq_some_iff.mp h
      exact context_runStep_spec hs
    | spurious =>
      obtain ⟨s', hs, rfl⟩ := Option.map_eq_some_iff.mp h
      simp only [Context.step] at hs
      split at hs <;> cases hs
      rename_i hr
      exact ⟨rfl, by simp [nodes, head, hr, Context.Run.batch]⟩
    | wait w => cases h
  | service os n s =>
    cases turn with
    | run =>
      obtain ⟨s', hs, rfl⟩ := Option.map_eq_some_iff.mp h
      exact service_runStep_spec hs
    | spurious => cases h
    | wait w =>
      obtain ⟨s', hs, rfl⟩ := Option.map_eq_some_iff.mp h
      simp only [Net.Service.step] at hs
      split at hs
      · rename_i hr
        exact service_waitStep_spec hr hs
      · cases hs

/-- Entering a call changes where its thread stands, and nothing that is held. -/
theorem post_spec {t : T} {k : K} (h : l.post t k = some l') :
    l'.box.caller = Function.update l.box.caller t (.push k) ∧ l'.nodes = l.nodes := by
  cases l with
  | context s =>
    obtain ⟨s', hs, rfl⟩ := Option.map_eq_some_iff.mp h
    obtain ⟨box, hbox, rfl⟩ := Option.map_eq_some_iff.mp hs
    obtain ⟨-, rfl⟩ := Mailbox.callPost_frame hbox
    exact ⟨rfl, rfl⟩
  | service os n s =>
    obtain ⟨s', hs, rfl⟩ := Option.map_eq_some_iff.mp h
    obtain ⟨box, hbox, rfl⟩ := Option.map_eq_some_iff.mp hs
    obtain ⟨-, rfl⟩ := Mailbox.callPost_frame hbox
    exact ⟨rfl, rfl⟩

theorem stop_spec {t : T} {stop : Bool} (h : l.stop t stop = some l') :
    l'.box.caller = Function.update l.box.caller t (.store stop) ∧ l'.nodes = l.nodes := by
  cases l with
  | context s =>
    obtain ⟨s', hs, rfl⟩ := Option.map_eq_some_iff.mp h
    obtain ⟨box, hbox, rfl⟩ := Option.map_eq_some_iff.mp hs
    obtain ⟨-, rfl⟩ := Mailbox.callStop_frame hbox
    exact ⟨rfl, rfl⟩
  | service os n s =>
    obtain ⟨s', hs, rfl⟩ := Option.map_eq_some_iff.mp h
    obtain ⟨box, hbox, rfl⟩ := Option.map_eq_some_iff.mp hs
    obtain ⟨-, rfl⟩ := Mailbox.callStop_frame hbox
    exact ⟨rfl, rfl⟩

/-- A caller's access publishes the node it was about to push, if it was, and the caller is
    not about to push afterwards. -/
theorem call_spec {t : T} (h : l.call t = some l') :
    (∃ c, l'.box.caller = Function.update l.box.caller t c ∧ ∀ k, c ≠ .push k) ∧
      l'.nodes = l.nodes ++ published (l.box.caller t) := by
  cases l with
  | context s =>
    obtain ⟨s', hs, rfl⟩ := Option.map_eq_some_iff.mp h
    rcases Context.callStep_cases hs with
      ⟨n, ht, rfl⟩ | ⟨number, ht, rfl⟩ | ⟨stop, ht, rfl⟩ | ⟨ht, rfl⟩
    all_goals
      exact ⟨⟨_, rfl, by simp⟩, by simp [nodes, box, ht, published, Mailbox.push, Mailbox.store,
        Mailbox.postReturns, Mailbox.stopReturns, Context.notify, Fifo.push]⟩
  | service os n s =>
    obtain ⟨s', hs, rfl⟩ := Option.map_eq_some_iff.mp h
    rcases Net.Service.callStep_cases hs with
      ⟨n, ht, rfl⟩ | ⟨number, ht, rfl⟩ | ⟨stop, ht, rfl⟩ | ⟨ht, rfl⟩
    all_goals
      exact ⟨⟨_, rfl, by simp⟩, by simp [nodes, box, ht, published, Mailbox.push, Mailbox.store,
        Mailbox.postReturns, Mailbox.stopReturns, Net.Service.interrupt, Fifo.push]⟩

end Loop
end Ice
