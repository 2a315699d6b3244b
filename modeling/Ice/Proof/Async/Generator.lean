import Ice.Async.Generator
import Ice.Lib.Demand
import Mathlib.Tactic.Common

/-!
# The asynchronous generator hands its values over one at a time

The word, the producer and the consumer together tell how far a demand has come: `stage` is
the table of the combinations that occur, and answers `none` for the others. An access inside
an operation of either side never changes the stage; awaiting `begin()` or `++it`, yielding,
finishing, `await_resume` and the destructor each move it on as `Lib.Demand` does. So a run of
the generator, seen through these five, is a run of that machine.
-/

set_option autoImplicit false

namespace Ice
namespace AsyncGenerator

open Lib

variable {V E : Type*}

/-- How far a demand has come. -/
inductive Stage
  | idle
  | wanted
  | ready
  | closed
  deriving DecidableEq

/-- The combinations of the word and the two sides that occur. -/
def stage : State → Producer → Consumer → Option Stage
  | .value_ready_producer_suspended, .suspended, consumer =>
    match consumer with
    | .active => some .idle
    | .store | .exchange_ready | .suspend_store => some .wanted
    | .reload | .suspend_reload | .exchange_not_ready | .await_resume => some .ready
    | _ => none
  -- The producer has resumed the consumer, or is about to.
  | .value_ready_producer_active, .resume, .suspended
  | .value_ready_producer_active, .suspend_resume, .suspended => some .ready
  | .value_ready_producer_active, .reload, consumer
  | .value_ready_producer_active, .suspend_reload, consumer
  | .value_ready_producer_active, .exchange_ready, consumer =>
    match consumer with
    | .active => some .idle
    | .exchange_ready => some .wanted
    | .await_resume => some .ready
    | _ => none
  -- The consumer has resumed the producer, or is about to.
  | .value_not_ready_consumer_active, .suspended, .resume
  | .value_not_ready_consumer_active, .suspended, .suspend_resume => some .wanted
  | .value_not_ready_consumer_active, producer, .reload
  | .value_not_ready_consumer_active, producer, .suspend_reload
  | .value_not_ready_consumer_active, producer, .exchange_not_ready =>
    match producer with
    | .running | .blocked => some .wanted
    | .load | .exchange_not_ready => some .ready
    | _ => none
  | .value_not_ready_consumer_suspended, producer, .suspended =>
    match producer with
    | .running | .blocked | .reload | .suspend_reload | .exchange_ready => some .wanted
    | .load | .store | .exchange_not_ready | .suspend_store => some .ready
    | _ => none
  | .cancelled, .suspended, .destroy => some .closed
  | .cancelled, .reload, .gone | .cancelled, .suspend_reload, .gone
  | .cancelled, .exchange_ready, .gone | .cancelled, .destroy, .gone
  | .cancelled, .destroyed, .gone => some .closed
  | _, _, _ => none

/-- What an access inside an operation does: the stage is the same, only the word and the places
    of the two sides change, and the frame is destroyed at most once. -/
structure Moves (s s' : AsyncGenerator V E) : Prop where
  stage : stage s'.state s'.producer s'.consumer = stage s.state s.producer s.consumer
  data : s' = { s with
    state := s'.state
    producer := s'.producer
    consumer := s'.consumer
    destroyed := s'.destroyed }
  alive : s.producer ≠ .destroyed
  destroyed : s'.destroyed = s.destroyed + if s'.producer = .destroyed then 1 else 0

/-! ## 1. Accesses inside an operation -/

section Moves

variable {s s' : AsyncGenerator V E} {g : Stage}

-- In both proofs the table leaves the few combinations in which an access is made, and where
-- the access reads whether the body has returned, a demand that is not answered says no.

theorem producerStep_moves (hstage : stage s.state s.producer s.consumer = some g)
    (hreturned : s.returned = true → g ≠ .wanted) (hs : s.producerStep = some s') :
    s.Moves s' := by
  obtain ⟨state, currentValue, exception, producer, consumer, returned, ended, thrown, yielded,
    received, destroyed⟩ := s
  dsimp only at hstage hreturned
  cases producer with
  | suspended | running | blocked | destroyed | failed => cases hs
  | load | store | resume | exchange_not_ready | suspend_store | suspend_resume | destroy =>
    cases state <;> cases consumer <;> cases hstage <;>
      (cases hs; exact ⟨rfl, rfl, nofun, rfl⟩)
  | reload | suspend_reload | exchange_ready =>
    cases returned <;> cases state <;> cases consumer <;> cases hstage <;>
      first
      | exact absurd rfl (hreturned rfl)
      | (cases hs; exact ⟨rfl, rfl, nofun, rfl⟩)

theorem consumerStep_moves (hstage : stage s.state s.producer s.consumer = some g)
    (hreturned : s.returned = true → g ≠ .wanted) (hs : s.consumerStep = some s') :
    s.Moves s' := by
  obtain ⟨state, currentValue, exception, producer, consumer, returned, ended, thrown, yielded,
    received, destroyed⟩ := s
  dsimp only at hstage hreturned
  cases consumer with
  | active | suspended | await_resume | gone | failed => cases hs
  | store | reload | exchange_ready | suspend_store | suspend_reload | exchange_not_ready
  | destroy =>
    cases state <;> cases producer <;> cases hstage <;>
      (cases hs; exact ⟨rfl, rfl, nofun, rfl⟩)
  | resume | suspend_resume =>
    cases returned <;> cases state <;> cases producer <;> cases hstage <;>
      first
      | exact absurd rfl (hreturned rfl)
      | (cases hs; exact ⟨rfl, rfl, nofun, rfl⟩)

theorem advance_spec (hstage : stage s.state s.producer s.consumer = some g)
    (hs : s.step .advance = some s') :
    g = .idle ∧ s.ended = false ∧ s' = { s with consumer := s'.consumer } ∧
      stage s'.state s'.producer s'.consumer = some .wanted := by
  obtain ⟨⟨hactive, hended⟩, hs⟩ := Option.ite_none_right_eq_some.mp hs
  obtain ⟨state, currentValue, exception, producer, consumer, returned, ended, thrown, yielded,
    received, destroyed⟩ := s
  dsimp only at hstage hactive hended
  subst hactive
  cases state <;> cases producer <;> cases hstage <;>
    (cases hs; exact ⟨rfl, hended, rfl, rfl⟩)

theorem destroy_spec (hstage : stage s.state s.producer s.consumer = some g)
    (hs : s.step .destroy = some s') :
    g = .idle ∧ s' = { s with state := .cancelled, consumer := s'.consumer } ∧
      s.producer ≠ .destroyed ∧ stage s'.state s'.producer s'.consumer = some .closed := by
  obtain ⟨hactive, hs⟩ := Option.ite_none_right_eq_some.mp hs
  obtain ⟨state, currentValue, exception, producer, consumer, returned, ended, thrown, yielded,
    received, destroyed⟩ := s
  dsimp only at hstage hactive
  subst hactive
  cases state <;> cases producer <;> cases hstage <;>
    (cases hs; exact ⟨rfl, rfl, nofun, rfl⟩)

/-- The body runs on demand only, and the answer is ready once it has yielded or finished. -/
theorem running_spec (hstage : stage s.state s.producer s.consumer = some g)
    (hrunning : s.producer = .running) :
    g = .wanted ∧ s.state ≠ .cancelled ∧ stage s.state .load s.consumer = some .ready ∧
      stage s.state .blocked s.consumer = some .wanted := by
  rw [hrunning] at hstage
  cases hstate : s.state <;> rw [hstate] at hstage <;> cases hc : s.consumer <;>
    rw [hc] at hstage <;> cases hstage <;> exact ⟨rfl, nofun, rfl, rfl⟩

theorem blocked_spec (hstage : stage s.state s.producer s.consumer = some g)
    (hblocked : s.producer = .blocked) :
    g = .wanted ∧ stage s.state .running s.consumer = some .wanted := by
  rw [hblocked] at hstage
  cases hstate : s.state <;> rw [hstate] at hstage <;> cases hc : s.consumer <;>
    rw [hc] at hstage <;> cases hstage <;> exact ⟨rfl, rfl⟩

theorem awaitResume_spec (hstage : stage s.state s.producer s.consumer = some g)
    (hawait : s.consumer = .await_resume) :
    g = .ready ∧ stage s.state s.producer .active = some .idle := by
  rw [hawait] at hstage
  cases hstate : s.state <;> rw [hstate] at hstage <;> cases hp : s.producer <;>
    rw [hp] at hstage <;> cases hstage <;> exact ⟨rfl, rfl⟩

end Moves

/-! ## 2. The demand -/

/-- The stage is that of the demand, and the promise holds what goes with it. -/
def Phased (s : AsyncGenerator V E) : Demand.Phase V E → Prop
  | .idle =>
    stage s.state s.producer s.consumer = some .idle ∧ s.returned = s.ended ∧
      (s.ended = false → ∀ v, s.received.getLast? = some v → s.currentValue = some v)
  | .wanted => stage s.state s.producer s.consumer = some .wanted ∧ s.returned = false
  | .ready (.value v) =>
    stage s.state s.producer s.consumer = some .ready ∧ s.returned = false ∧
      s.currentValue = some v
  | .ready (.finished e) =>
    stage s.state s.producer s.consumer = some .ready ∧ s.returned = true ∧
      s.currentValue = none ∧ s.exception = e
  | .closed => stage s.state s.producer s.consumer = some .closed

structure Simulates (s : AsyncGenerator V E) (t : Demand V E) : Prop where
  phase : s.Phased t.phase
  yielded : t.yielded = s.yielded
  received : t.received = s.received
  outcome : t.outcome = if s.ended then some s.thrown else none
  destroyed : s.destroyed = if s.producer = .destroyed then 1 else 0
  handed : t.HandedOver

/-- The five labels that move a demand on. -/
def observe : Label V E → Option (Demand.Label V E)
  | .advance => some .ask
  | .yield v => some (.produce v)
  | .finish e => some (.finish e)
  | .await_resume => some .take
  | .destroy => some .close
  | .consumer | .block | .unblock | .producer => none

theorem simulates_init (junk : Option V) :
    Simulates (init junk : AsyncGenerator V E) Demand.init where
  phase := ⟨rfl, rfl, fun _ v hv => by cases hv⟩
  yielded := rfl
  received := rfl
  outcome := rfl
  destroyed := rfl
  handed := ⟨rfl, fun hne => absurd rfl hne⟩

namespace Simulates

variable {s s' : AsyncGenerator V E} {t : Demand V E}

/-- The combination of the word and the two sides occurs. -/
theorem stage_eq (h : Simulates s t) : ∃ g, stage s.state s.producer s.consumer = some g ∧
    (s.returned = true → g ≠ .wanted) := by
  have hphase := h.phase
  cases hp : t.phase with
  | idle => rw [hp] at hphase; exact ⟨_, hphase.1, fun _ => nofun⟩
  | wanted =>
    rw [hp] at hphase
    refine ⟨_, hphase.1, fun hr => ?_⟩
    rw [hphase.2] at hr
    cases hr
  | ready item =>
    rw [hp] at hphase
    cases item with
    | value v => exact ⟨_, hphase.1, fun _ => nofun⟩
    | finished e => exact ⟨_, hphase.1, fun _ => nofun⟩
  | closed => rw [hp] at hphase; exact ⟨_, hphase, fun _ => nofun⟩

/-- An access inside an operation is nothing to the demand. -/
theorem moves (h : Simulates s t) (hm : s.Moves s') : Simulates s' t := by
  obtain ⟨hstage, hdata, halive, hdestroyed⟩ := hm
  have hold := h.destroyed
  rw [if_neg halive] at hold
  rw [hold, Nat.zero_add] at hdestroyed
  have hphase := h.phase
  have houtcome := h.outcome
  rw [hdata]
  refine ⟨?_, h.yielded, h.received, houtcome, hdestroyed, h.handed⟩
  cases hp : t.phase with
  | idle => rw [hp] at hphase; exact ⟨hstage.trans hphase.1, hphase.2⟩
  | wanted => rw [hp] at hphase; exact ⟨hstage.trans hphase.1, hphase.2⟩
  | ready item =>
    rw [hp] at hphase
    cases item with
    | value v => exact ⟨hstage.trans hphase.1, hphase.2⟩
    | finished e => exact ⟨hstage.trans hphase.1, hphase.2⟩
  | closed => rw [hp] at hphase; exact hstage.trans hphase

theorem idle (h : Simulates s t) (hstage : stage s.state s.producer s.consumer = some .idle) :
    t.phase = .idle ∧ s.returned = s.ended := by
  have hphase := h.phase
  cases hp : t.phase with
  | idle => rw [hp] at hphase; exact ⟨rfl, hphase.2.1⟩
  | wanted => rw [hp, Phased, hstage] at hphase; cases hphase.1
  | ready item =>
    rw [hp] at hphase
    cases item <;> rw [Phased, hstage] at hphase <;> cases hphase.1
  | closed => rw [hp, Phased, hstage] at hphase; cases hphase

theorem wanted (h : Simulates s t)
    (hstage : stage s.state s.producer s.consumer = some .wanted) :
    t.phase = .wanted ∧ s.returned = false ∧ s.ended = false := by
  have hphase := h.phase
  cases hp : t.phase with
  | idle => rw [hp, Phased, hstage] at hphase; cases hphase.1
  | wanted =>
    rw [hp] at hphase
    refine ⟨rfl, hphase.2, ?_⟩
    cases hended : s.ended with
    | false => rfl
    | true =>
      have hne : t.outcome ≠ none := by simp [h.outcome, hended]
      rcases h.handed.told hne with hx | hx <;> rw [hp] at hx <;> cases hx
  | ready item =>
    rw [hp] at hphase
    cases item <;> rw [Phased, hstage] at hphase <;> cases hphase.1
  | closed => rw [hp, Phased, hstage] at hphase; cases hphase

theorem ready (h : Simulates s t) (hstage : stage s.state s.producer s.consumer = some .ready) :
    ∃ item, t.phase = .ready item ∧ s.Phased (.ready item) ∧ s.ended = false := by
  have hphase := h.phase
  cases hp : t.phase with
  | idle => rw [hp, Phased, hstage] at hphase; cases hphase.1
  | wanted => rw [hp, Phased, hstage] at hphase; cases hphase.1
  | ready item =>
    rw [hp] at hphase
    refine ⟨item, rfl, hphase, ?_⟩
    cases hended : s.ended with
    | false => rfl
    | true =>
      have hne : t.outcome ≠ none := by simp [h.outcome, hended]
      rcases h.handed.told hne with hx | hx <;> rw [hp] at hx <;> cases hx
  | closed => rw [hp, Phased, hstage] at hphase; cases hphase

end Simulates

/-! ## 3. Every step -/

namespace Simulates

variable {s s' : AsyncGenerator V E} {t : Demand V E}

theorem advance (h : Simulates s t) (hs : s.step .advance = some s') :
    ∃ u, t.step .ask = some u ∧ Simulates s' u := by
  obtain ⟨g, hstage, -⟩ := h.stage_eq
  obtain ⟨rfl, hended, hs', hstage'⟩ := advance_spec hstage hs
  obtain ⟨hphase, hreturned⟩ := h.idle hstage
  have houtcome : t.outcome = none := by simp [h.outcome, hended]
  have hask : t.step .ask = some { t with phase := .wanted } := by
    simp only [Demand.step, hphase, houtcome]
  refine ⟨_, hask, ?_⟩
  rw [hs'] at hstage' ⊢
  exact ⟨⟨hstage', hreturned.trans hended⟩, h.yielded, h.received, h.outcome, h.destroyed,
    h.handed.step hask⟩

theorem close (h : Simulates s t) (hs : s.step .destroy = some s') :
    ∃ u, t.step .close = some u ∧ Simulates s' u := by
  obtain ⟨g, hstage, -⟩ := h.stage_eq
  obtain ⟨rfl, hs', halive, hstage'⟩ := destroy_spec hstage hs
  obtain ⟨hphase, -⟩ := h.idle hstage
  have hclose : t.step .close = some { t with phase := .closed } := by
    simp only [Demand.step, hphase]
  refine ⟨_, hclose, ?_⟩
  rw [hs'] at hstage' ⊢
  exact ⟨hstage', h.yielded, h.received, h.outcome, h.destroyed, h.handed.step hclose⟩

theorem produce (h : Simulates s t) {v : V} (hs : s.step (.yield v) = some s') :
    ∃ u, t.step (.produce v) = some u ∧ Simulates s' u := by
  obtain ⟨hrunning, hs⟩ := Option.ite_none_right_eq_some.mp hs
  obtain rfl := Option.some.inj hs
  obtain ⟨g, hstage, -⟩ := h.stage_eq
  obtain ⟨rfl, -, hready, -⟩ := running_spec hstage hrunning
  obtain ⟨hphase, hreturned, hended⟩ := h.wanted hstage
  have hproduce : t.step (.produce v) =
      some { t with phase := .ready (.value v), yielded := t.yielded ++ [v] } := by
    simp only [Demand.step, hphase]
  refine ⟨_, hproduce, ⟨hready, hreturned, rfl⟩, ?_, h.received, h.outcome, ?_,
    h.handed.step hproduce⟩
  · exact congrArg (· ++ [v]) h.yielded
  · have hdestroyed := h.destroyed
    rwa [hrunning] at hdestroyed

theorem finish (h : Simulates s t) {e : Option E} (hs : s.step (.finish e) = some s') :
    ∃ u, t.step (.finish e) = some u ∧ Simulates s' u := by
  obtain ⟨hrunning, hs⟩ := Option.ite_none_right_eq_some.mp hs
  obtain ⟨g, hstage, -⟩ := h.stage_eq
  obtain ⟨rfl, hcancelled, hready, -⟩ := running_spec hstage hrunning
  obtain ⟨hphase, hreturned, hended⟩ := h.wanted hstage
  rw [if_neg hcancelled] at hs
  obtain rfl := Option.some.inj hs
  have hfinish : t.step (.finish e) = some { t with phase := .ready (.finished e) } := by
    simp only [Demand.step, hphase]
  refine ⟨_, hfinish, ⟨hready, rfl, rfl, rfl⟩, h.yielded, h.received, h.outcome, ?_,
    h.handed.step hfinish⟩
  have hdestroyed := h.destroyed
  rwa [hrunning] at hdestroyed

theorem take (h : Simulates s t) (hs : s.step .await_resume = some s') :
    ∃ u, t.step .take = some u ∧ Simulates s' u := by
  obtain ⟨hawait, hs⟩ := Option.ite_none_right_eq_some.mp hs
  obtain rfl := Option.some.inj hs
  obtain ⟨g, hstage, -⟩ := h.stage_eq
  obtain ⟨rfl, hidle⟩ := awaitResume_spec hstage hawait
  obtain ⟨item, hphase, hphased, hended⟩ := h.ready hstage
  cases item with
  | value v =>
    obtain ⟨-, hreturned, hvalue⟩ := hphased
    have htake : t.step .take = some { t with phase := .idle, received := t.received ++ [v] } := by
      simp only [Demand.step, hphase]
    refine ⟨_, htake, ?_⟩
    rw [awaitResume, hvalue]
    refine ⟨⟨hidle, hreturned.trans hended.symm, fun _ w hw => ?_⟩, h.yielded, ?_, h.outcome,
      h.destroyed, h.handed.step htake⟩
    · rw [List.getLast?_concat] at hw
      exact hw
    · exact congrArg (· ++ [v]) h.received
  | finished e =>
    obtain ⟨-, hreturned, hvalue, hexception⟩ := hphased
    have htake : t.step .take = some { t with phase := .idle, outcome := some e } := by
      simp only [Demand.step, hphase]
    refine ⟨_, htake, ?_⟩
    rw [awaitResume, hvalue]
    refine ⟨⟨hidle, hreturned, fun hnot => (by cases hnot)⟩, h.yielded, h.received, ?_,
      h.destroyed, h.handed.step htake⟩
    rw [if_pos rfl, hexception]

/-- The body suspends on something else, or is resumed: nothing to the demand. -/
theorem block (h : Simulates s t) {l : Label V E} (hl : l = .block ∨ l = .unblock)
    (hs : s.step l = some s') : Simulates s' t := by
  obtain ⟨g, hstage, -⟩ := h.stage_eq
  rcases hl with rfl | rfl
  · obtain ⟨hrunning, hs⟩ := Option.ite_none_right_eq_some.mp hs
    obtain rfl := Option.some.inj hs
    obtain ⟨rfl, -, -, hblocked⟩ := running_spec hstage hrunning
    exact h.moves ⟨hblocked.trans hstage.symm, rfl, by simp [hrunning], rfl⟩
  · obtain ⟨hblocked, hs⟩ := Option.ite_none_right_eq_some.mp hs
    obtain rfl := Option.some.inj hs
    obtain ⟨rfl, hrunning⟩ := blocked_spec hstage hblocked
    exact h.moves ⟨hrunning.trans hstage.symm, rfl, by simp [hblocked], rfl⟩

theorem step (h : Simulates s t) {l : Label V E} (hs : s.step l = some s') :
    ∃ u, Demand.machine.exec t (observe l).toList = some u ∧ Simulates s' u := by
  have hone : ∀ {κ}, (∃ u, t.step κ = some u ∧ Simulates s' u) →
      ∃ u, Demand.machine.exec t [κ] = some u ∧ Simulates s' u := by
    rintro κ ⟨u, hu, hsim⟩
    exact ⟨u, Machine.exec_cons_some.mpr ⟨u, hu, rfl⟩, hsim⟩
  cases l with
  | advance => exact hone (h.advance hs)
  | «yield» v => exact hone (h.produce hs)
  | finish e => exact hone (h.finish hs)
  | await_resume => exact hone (h.take hs)
  | destroy => exact hone (h.close hs)
  | block => exact ⟨t, rfl, h.block (Or.inl rfl) hs⟩
  | unblock => exact ⟨t, rfl, h.block (Or.inr rfl) hs⟩
  | consumer =>
    obtain ⟨g, hstage, hreturned⟩ := h.stage_eq
    exact ⟨t, rfl, h.moves (consumerStep_moves hstage hreturned hs)⟩
  | producer =>
    obtain ⟨g, hstage, hreturned⟩ := h.stage_eq
    exact ⟨t, rfl, h.moves (producerStep_moves hstage hreturned hs)⟩

end Simulates

/-! ## 4. Every run -/

variable {s : AsyncGenerator V E} {junk : Option V} {ls : List (Label V E)}

theorem simulates_exec (hrun : machine.exec (init junk) ls = some s) :
    ∃ t, Demand.machine.exec Demand.init (ls.filterMap observe) = some t ∧ Simulates s t :=
  (Machine.RunsBy.project (M := machine) (N := Demand.machine) (Q := fun _ _ => True)
    (fun h _ hs => h.step hs) (Machine.runsBy_of_exec ls hrun) (simulates_init junk))

/-- **The generator refines the demand machine.** Whatever the interleaving, what a run shows of
    awaiting, yielding, finishing, taking and closing is a run of the machine that hands over
    one value at a time: the consumer was given the yielded values in order, without the one
    that is under way, it was told of the end once the body had ended and of the exception that
    ended it, and what it dereferences is the value it was given last. -/
theorem generator_refines (hrun : machine.exec (init junk) ls = some s) :
    ∃ t, Demand.machine.exec Demand.init (ls.filterMap observe) = some t ∧
      t.yielded = s.yielded ∧ t.received = s.received ∧
      s.received ++ t.pending = s.yielded ∧
      t.outcome = (if s.ended then some s.thrown else none) ∧
      (s.consumer = .active → s.received = s.yielded ∧ s.returned = s.ended ∧
        (s.ended = false → ∀ v, s.received.getLast? = some v → s.currentValue = some v)) := by
  obtain ⟨t, ht, h⟩ := simulates_exec hrun
  have hvalues := h.handed.values
  rw [h.yielded, h.received] at hvalues
  refine ⟨t, ht, h.yielded, h.received, hvalues, h.outcome, ?_⟩
  intro hactive
  obtain ⟨g, hstage, -⟩ := h.stage_eq
  have hidle : g = .idle := by
    rw [hactive] at hstage
    cases hstate : s.state <;> rw [hstate] at hstage <;> cases hp : s.producer <;>
      rw [hp] at hstage <;> cases hstage <;> rfl
  subst hidle
  obtain ⟨hphase, hreturned⟩ := h.idle hstage
  have hphased := h.phase
  rw [hphase] at hphased
  have hpending : t.pending = [] := by simp only [Demand.pending, hphase]
  rw [hpending, List.append_nil] at hvalues
  exact ⟨hvalues, hphased.2⟩

/-- The body yields on another thread while the consumer is about to suspend, is resumed by it,
    suspends on something else and yields again to the suspended consumer. -/
theorem generator_refines_two :
    ∃ (s : AsyncGenerator Bool Empty) (t : Demand Bool Empty),
      t.received = s.received ∧ s.received = [true, false] ∧ s.consumer = .active := by
  have hrun : machine.exec (init none : AsyncGenerator Bool Empty)
      [.advance, .consumer, .consumer, .yield true, .producer, .consumer, .producer, .consumer,
        .await_resume, .advance, .consumer, .consumer, .consumer, .block, .consumer, .unblock,
        .yield false, .producer, .producer, .producer, .await_resume] = some _ := rfl
  obtain ⟨t, -, -, hreceived, -⟩ := generator_refines hrun
  exact ⟨_, t, hreceived, rfl, rfl⟩

theorem simulates_reaches (hr : machine.Reaches (init junk) s) : ∃ t, Simulates s t :=
  hr.preserves (I := fun s => ∃ t : Demand V E, Simulates s t)
    (fun ⟨_, h⟩ _ hs => let ⟨u, _, hu⟩ := h.step hs; ⟨u, hu⟩) ⟨_, simulates_init junk⟩

/-- **The generator is safe.** No assertion fails, and what is resumed is suspended and not at
    its end. The frame is destroyed at most once, and only when neither side will touch it
    again. The body does not run while the consumer may look at the value it was given, and
    the two are never suspended on each other. -/
theorem generator_safe (hr : machine.Reaches (init junk) s) :
    s.producer ≠ .failed ∧ s.consumer ≠ .failed ∧ s.destroyed ≤ 1 ∧
      (s.destroyed = 1 → s.producer = .destroyed ∧ s.consumer = .gone) ∧
      (s.consumer = .active → s.producer ≠ .running ∧ s.producer ≠ .blocked) ∧
      (s.consumer = .suspended → s.producer ≠ .suspended ∧ s.producer ≠ .destroyed) := by
  obtain ⟨t, h⟩ := simulates_reaches hr
  obtain ⟨g, hstage, -⟩ := h.stage_eq
  obtain ⟨state, currentValue, exception, producer, consumer, returned, ended, thrown, yielded,
    received, destroyed⟩ := s
  obtain rfl : destroyed = if producer = .destroyed then 1 else 0 := h.destroyed
  dsimp only at hstage ⊢
  cases state <;> cases producer <;> cases hstage' : consumer <;> rw [hstage'] at hstage <;>
    cases hstage <;> simp

/-- **The generator loses no wakeup and no frame.** While the consumer is suspended, the body is
    running or suspended on something else, or a yield operation resumes the consumer or lets
    the body run on within three of its own accesses. And once the generator is gone, the
    frame is destroyed within two accesses of the producer. -/
theorem generator_progress (hr : machine.Reaches (init junk) s) :
    (s.consumer = .suspended → s.producer = .running ∨ s.producer = .blocked ∨
      ∃ n s', n ≤ 3 ∧ machine.exec s (List.replicate n .producer) = some s' ∧
        (s'.consumer = .await_resume ∨ s'.producer = .running)) ∧
    (s.consumer = .gone →
      ∃ n s', n ≤ 2 ∧ machine.exec s (List.replicate n .producer) = some s' ∧
        s'.producer = .destroyed ∧ s'.destroyed = 1) := by
  obtain ⟨t, h⟩ := simulates_reaches hr
  obtain ⟨g, hstage, hreturned⟩ := h.stage_eq
  obtain ⟨state, currentValue, exception, producer, consumer, returned, ended, thrown, yielded,
    received, destroyed⟩ := s
  obtain rfl : destroyed = if producer = .destroyed then 1 else 0 := h.destroyed
  dsimp only at hstage hreturned ⊢
  constructor
  · rintro rfl
    cases returned <;> cases state <;> cases producer <;> cases hstage <;>
      first
      | exact absurd rfl (hreturned rfl)
      | exact Or.inl rfl
      | exact Or.inr (Or.inl rfl)
      | exact Or.inr (Or.inr ⟨1, _, by decide, rfl, Or.inr rfl⟩)
      | exact Or.inr (Or.inr ⟨1, _, by decide, rfl, Or.inl rfl⟩)
      | exact Or.inr (Or.inr ⟨2, _, by decide, rfl, Or.inl rfl⟩)
      | exact Or.inr (Or.inr ⟨3, _, by decide, rfl, Or.inl rfl⟩)
  · rintro rfl
    cases state <;> cases producer <;> cases hstage <;>
      first
      | exact ⟨0, _, by decide, rfl, rfl, rfl⟩
      | exact ⟨1, _, by decide, rfl, rfl, rfl⟩
      | exact ⟨2, _, by decide, rfl, rfl, rfl⟩

/-- The consumer closes the generator inside the `resume()` of the producer, which then destroys
    the frame. -/
theorem generator_progress_closed :
    ∃ s : AsyncGenerator Bool Empty, s.consumer = .gone ∧ s.destroyed = 0 ∧
      ∃ n s', n ≤ 2 ∧ machine.exec s (List.replicate n .producer) = some s' ∧
        s'.producer = .destroyed ∧ s'.destroyed = 1 := by
  have hr := Machine.reaches_of_exec (M := machine) (s := (init none : AsyncGenerator Bool Empty))
    [.advance, .consumer, .consumer, .consumer, .consumer, .yield true, .producer, .producer,
      .producer, .await_resume, .destroy] rfl
  exact ⟨_, rfl, rfl, (generator_progress hr).2 rfl⟩

/-- The same run: nobody has touched the frame after its end. -/
theorem generator_safe_closed :
    ∃ s : AsyncGenerator Bool Empty, s.destroyed = 1 ∧ s.producer = .destroyed ∧
      s.consumer = .gone := by
  have hr := Machine.reaches_of_exec (M := machine) (s := (init none : AsyncGenerator Bool Empty))
    [.advance, .consumer, .consumer, .consumer, .consumer, .yield true, .producer, .producer,
      .producer, .await_resume, .destroy, .producer, .producer] rfl
  exact ⟨_, rfl, (generator_safe hr).2.2.2.1 rfl⟩

end AsyncGenerator
end Ice
