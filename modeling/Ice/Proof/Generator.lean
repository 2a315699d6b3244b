import Ice.Generator
import Ice.Proof.Handle

/-!
# What a loop over a generator sees

The objects keep frames as handles keep values. What a body was asked for and gave is a run of the
machine that hands over one value for each demand (`Demand`), so its values come in order and
nothing is asked after its end. That nothing undefined happens is up to the caller, and `SinglePass`
is enough for it: a generator is begun once, and an iterator is used while the generator is there
and as long as nobody else has resumed it.
-/

set_option autoImplicit false

namespace Ice
namespace Generators

open Lib Custody

variable {O I F V E : Type*} [DecidableEq F] {s s' : Generators O I F V E} {o : O} {i j : I}
  {f g : F} {outcome : Outcome V E}

/-! ## 1. What is kept -/

/-- The end of a body, once it was asked for it. -/
def Point.ending : Point E → Option (Option E)
  | .initial | .yielded => none
  | .returned => some none
  | .threw e => some (some e)

/-- What a body was asked for is a run of the demand machine, and `m_value` is its last value. -/
def Handed (s : Generators O I F V E) (f : F) : Prop :=
  ∃ t, Demand.machine.exec Demand.init (s.shown f) = some t ∧ t.phase = .idle ∧
    t.outcome = (s.point f).ending ∧
    (s.point f = .yielded → ∃ v, t.received.getLast? = some v ∧ s.m_value f = some v)

/-- An iterator that was told all of its coroutine is at a value. -/
def Follows (s : Generators O I F V E) (i : I) : Prop :=
  ∀ f, s.m_coroutine i = some f →
    s.told i ≤ (s.shown f).length ∧ (s.told i = (s.shown f).length → s.point f = .yielded)

structure Inv (s : Generators O I F V E) : Prop where
  rests : Handles.Rests none s.owners
  handed : ∀ f, s.Handed f
  follows : ∀ i, s.Follows i

theorem Inv.init : Inv (init : Generators O I F V E) where
  rests := Handles.rests_init
  handed _ := ⟨Demand.init, rfl, rfl, rfl, nofun⟩
  follows _ _ := nofun

/-- The objects are not looked at. -/
theorem Inv.own [DecidableEq O] {l : Handles.Label O (Option F)} (h : Inv s)
    (hq : Handles.Unowned none s.owners l) (hs : s.own l = some s') : Inv s' := by
  obtain ⟨owners, howners, rfl⟩ := Option.map_eq_some_iff.mp hs
  exact ⟨h.rests.step hq howners, h.handed, h.follows⟩

/-! ## 2. One part of a body -/

/-- Everything but `f` is as it was. -/
theorem resume_handed (hgf : g ≠ f) (outcome : Outcome V E) (h : s.Handed g) :
    (s.resume f outcome).Handed g := by
  cases outcome <;> simpa [Handed, resume, Function.update_of_ne hgf] using h

/-- A body that has not ended may be asked. -/
theorem Handed.resume (h : s.Handed f) (hdone : (s.point f).done = false)
    (outcome : Outcome V E) : (s.resume f outcome).Handed f := by
  obtain ⟨⟨phase, yielded, received, told⟩, hexec, rfl, houtcome, -⟩ := h
  have hasked : (s.point f).ending = none := by
    cases hp : s.point f with
    | initial | yielded => rfl
    | returned | threw e => rw [hp] at hdone; cases hdone
  obtain rfl : told = none := houtcome.trans hasked
  cases outcome with
  | yield_value v =>
    refine ⟨⟨.idle, yielded ++ [v], received ++ [v], none⟩, ?_, rfl, ?_, fun _ => ⟨v, ?_, ?_⟩⟩
    · simp only [Generators.resume, Function.update_self]
      rw [Machine.exec_append, hexec]
      rfl
    · simp [Generators.resume, Point.ending]
    · exact List.getLast?_concat
    · simp [Generators.resume]
  | return_void =>
    refine ⟨⟨.idle, yielded, received, some none⟩, ?_, rfl, ?_, by simp [Generators.resume]⟩
    · simp only [Generators.resume, Function.update_self]
      rw [Machine.exec_append, hexec]
      rfl
    · simp [Generators.resume, Point.ending]
  | unhandled_exception e =>
    refine ⟨⟨.idle, yielded, received, some (some e)⟩, ?_, rfl, ?_, by simp [Generators.resume]⟩
    · simp only [Generators.resume, Function.update_self]
      rw [Machine.exec_append, hexec]
      rfl
    · simp [Generators.resume, Point.ending]

/-- More was shown of `f`, so that the iterators it has were left behind. -/
theorem Follows.resume (h : s.Follows i) (outcome : Outcome V E) :
    (s.resume f outcome).Follows i := by
  intro g hg
  have hold := h g (by cases outcome <;> exact hg)
  by_cases hgf : g = f
  · subst hgf
    have hlength : ((s.resume g outcome).shown g).length = (s.shown g).length + 3 := by
      cases outcome <;> simp [Generators.resume]
    have htold : (s.resume g outcome).told i = s.told i := by cases outcome <;> rfl
    rw [hlength, htold]
    exact ⟨by omega, fun heq => by omega⟩
  · cases outcome <;> simpa [Generators.resume, Function.update_of_ne hgf] using hold

theorem Inv.resume (h : Inv s) (hdone : (s.point f).done = false) (outcome : Outcome V E) :
    Inv (s.resume f outcome) := by
  refine ⟨by cases outcome <;> exact h.rests, fun g => ?_, fun i => (h.follows i).resume outcome⟩
  by_cases hgf : g = f
  · subst hgf
    exact (h.handed g).resume hdone outcome
  · exact resume_handed hgf outcome (h.handed g)

theorem Inv.setIterator [DecidableEq I] (h : Inv s) (i : I) (f : Option F)
    (hf : ∀ g, f = some g → s.point g = .yielded) : Inv (s.setIterator i f) := by
  refine ⟨h.rests, h.handed, fun j g hj => ?_⟩
  by_cases hji : j = i
  · subst hji
    have hfg : f = some g := by simpa [Generators.setIterator] using hj
    subst hfg
    simpa [Generators.setIterator] using hf g rfl
  · simpa [Generators.setIterator, Function.update_of_ne hji] using
      h.follows j g (by simpa [Generators.setIterator, Function.update_of_ne hji] using hj)

theorem Inv.fail (h : Inv s) : Inv { s with fault := true } := ⟨h.rests, h.handed, h.follows⟩

theorem Inv.advance [DecidableEq I] (h : Inv s) (i : I) (f : F) (outcome : Outcome V E) :
    Inv (s.advance i f outcome) := by
  unfold Generators.advance
  split
  · rename_i hcan
    have hresumed := h.resume hcan.2 outcome
    cases outcome with
    | yield_value v =>
      refine hresumed.setIterator i (some f) fun g hg => ?_
      obtain rfl := Option.some.inj hg
      simp [Generators.resume]
    | return_void => exact hresumed.setIterator i none fun _ => nofun
    | unhandled_exception e => exact hresumed
  · exact h.fail

theorem custody_fresh {V : Type*} [DecidableEq V] {v : V} {events : List (Custody V)}
    (h : ∀ e ∈ events, e.value ≠ v) : (custody v).exec false events = some false := by
  induction events with
  | nil => rfl
  | cons e events ih =>
    have hstep : (custody v).step false e = some false := if_pos (h e List.mem_cons_self)
    rw [Machine.exec_cons, hstep]
    exact ih fun e' he' => h e' (List.mem_cons_of_mem e he')

/-- A frame that is new is nobody's. -/
theorem Inv.unowned (h : Inv s) (hnew : ∀ e ∈ s.owners.events, e.value ≠ some f) :
    Handles.Unowned none s.owners (.constructFrom o (some f)) := by
  intro hsome o' ho'
  have howned := h.rests.inv.owned hsome ho'
  rw [custody_fresh hnew] at howned
  cases howned

theorem Inv.exists_ (h : Inv s) (ho : s.owners.value none (some o) = some f) :
    s.exists_ f = true := by
  have hsome : (some f : Option F) ≠ none := nofun
  exact decide_eq_true (h.rests.inv.owned hsome ((Handles.value_eq_iff hsome).mp ho))

/-! ## 3. Steps -/

section Steps

variable [DecidableEq O] [DecidableEq I] [DecidableEq V] {l : Label O I F V E}

theorem Inv.step (h : Inv s) (hs : s.step l = some s') : Inv s' := by
  obtain ⟨-, hs⟩ := Option.ite_none_left_eq_some.mp hs
  cases l with
  | call o f =>
    obtain ⟨hnew, hs⟩ := Option.ite_none_right_eq_some.mp hs
    exact h.own (h.unowned hnew) hs
  | construct o => exact h.own (l := .construct o) trivial hs
  | moveConstruct o other => exact h.own (l := .moveConstruct o other) trivial hs
  | assign o other => exact h.own (l := .moveAssign o other) trivial hs
  | swap o other => exact h.own (l := .swap o other) trivial hs
  | destroy o => exact h.own (l := .destroy o) trivial hs
  | begin o i outcome =>
    obtain ⟨-, hs⟩ := Option.ite_none_right_eq_some.mp hs
    split at hs
    · obtain rfl := Option.some.inj hs
      exact h.advance i _ _
    · obtain rfl := Option.some.inj hs
      exact h.setIterator i none fun _ => nofun
    · cases hs
  | increment i outcome =>
    simp only [stepOf] at hs
    split at hs
    · obtain rfl := Option.some.inj hs
      exact h.advance i _ outcome
    · obtain rfl := Option.some.inj hs
      exact h.fail
  | deref i v =>
    simp only [stepOf] at hs
    split at hs
    · split at hs
      · obtain ⟨-, hs⟩ := Option.ite_none_right_eq_some.mp hs
        exact Option.some.inj hs ▸ h
      · obtain rfl := Option.some.inj hs
        exact h.fail
    · obtain rfl := Option.some.inj hs
      exact h.fail
  | copy i j =>
    obtain rfl := Option.some.inj hs
    refine ⟨h.rests, h.handed, fun k g hk => ?_⟩
    by_cases hki : k = i
    · subst hki
      simpa using h.follows j g (by simpa using hk)
    · simpa [Function.update_of_ne hki] using
        h.follows k g (by simpa [Function.update_of_ne hki] using hk)

/-- A generator is begun once; an iterator is used while the generator is there, if it was told
    all that the generator has shown. -/
def SinglePass (s : Generators O I F V E) : Label O I F V E → Prop
  | .begin o _ _ =>
    match s.owners.value none (some o) with
    | some f => s.point f = .initial
    | none => True
  | .increment i _ | .deref i _ =>
    match s.m_coroutine i with
    | some f => s.exists_ f = true ∧ s.told i = (s.shown f).length
    | none => False
  | _ => True

instance [DecidableEq E] (s : Generators O I F V E) :
    (l : Label O I F V E) → Decidable (s.SinglePass l)
  | .begin o _ _ =>
    match h : s.owners.value none (some o) with
    | some f => decidable_of_iff (s.point f = .initial) (by simp [SinglePass, h])
    | none => .isTrue (by simp [SinglePass, h])
  | .increment i _ | .deref i _ =>
    match h : s.m_coroutine i with
    | some f =>
      decidable_of_iff (s.exists_ f = true ∧ s.told i = (s.shown f).length)
        (by simp [SinglePass, h])
    | none => .isFalse (by simp [SinglePass, h])
  | .call .. | .construct _ | .moveConstruct .. | .assign .. | .swap .. | .destroy _
  | .copy .. => .isTrue trivial

omit [DecidableEq I] [DecidableEq V] in
theorem own_fault {l : Handles.Label O (Option F)} (hs : s.own l = some s') :
    s'.fault = s.fault := by
  obtain ⟨owners, -, rfl⟩ := Option.map_eq_some_iff.mp hs
  rfl

omit [DecidableEq O] [DecidableEq V] in
theorem advance_fault (i : I) (outcome : Outcome V E)
    (hcan : s.exists_ f = true ∧ (s.point f).done = false) :
    (s.advance i f outcome).fault = s.fault := by
  unfold advance
  rw [if_pos hcan]
  cases outcome <;> rfl

theorem SinglePass.step (h : Inv s) (hpass : s.SinglePass l) (hfault : s.fault = false)
    (hs : s.step l = some s') : s'.fault = false := by
  obtain ⟨-, hs⟩ := Option.ite_none_left_eq_some.mp hs
  cases l with
  | call o f =>
    obtain ⟨-, hs⟩ := Option.ite_none_right_eq_some.mp hs
    exact (own_fault hs).trans hfault
  | construct o => exact (own_fault hs).trans hfault
  | moveConstruct o other => exact (own_fault hs).trans hfault
  | assign o other => exact (own_fault hs).trans hfault
  | swap o other => exact (own_fault hs).trans hfault
  | destroy o => exact (own_fault hs).trans hfault
  | begin o i outcome =>
    obtain ⟨-, hs⟩ := Option.ite_none_right_eq_some.mp hs
    cases hvalue : s.owners.value none (some o) with
    | none =>
      rw [hvalue] at hs
      cases outcome with
      | none => exact Option.some.inj hs ▸ hfault
      | some outcome => cases hs
    | some f =>
      rw [hvalue] at hs
      simp only [SinglePass, hvalue] at hpass
      cases outcome with
      | none => cases hs
      | some outcome =>
        obtain rfl := Option.some.inj hs
        refine (advance_fault i outcome ⟨h.exists_ hvalue, ?_⟩).trans hfault
        rw [hpass]
        rfl
  | increment i outcome =>
    cases hi : s.m_coroutine i with
    | none => simp [SinglePass, hi] at hpass
    | some f =>
      simp only [SinglePass, hi] at hpass
      simp only [stepOf, hi] at hs
      obtain rfl := Option.some.inj hs
      refine (advance_fault i outcome ⟨hpass.1, ?_⟩).trans hfault
      rw [(h.follows i f hi).2 hpass.2]
      rfl
  | deref i v =>
    cases hi : s.m_coroutine i with
    | none => simp [SinglePass, hi] at hpass
    | some f =>
      simp only [SinglePass, hi] at hpass
      simp only [stepOf, hi] at hs
      rw [if_pos ⟨hpass.1, (h.follows i f hi).2 hpass.2 ▸ rfl⟩] at hs
      obtain ⟨-, hs⟩ := Option.ite_none_right_eq_some.mp hs
      exact Option.some.inj hs ▸ hfault
  | copy i j =>
    obtain rfl := Option.some.inj hs
    exact hfault

/-! ## 4. Runs -/

/-- **A generator is iterated over once.** In every run in which the caller keeps to a single pass,
    whatever the bodies do and however the objects are moved, swapped, assigned and destroyed:
    nothing undefined happens; what each body was asked for and gave is a run of the demand machine,
    all of it taken; an iterator that was told all and is not `end()` is at the last value; and a
    frame exists exactly while an object has it, one only, and is destroyed once. -/
theorem generators_iterate (hr : machine.ReachesBy SinglePass (init : Generators O I F V E) s) :
    s.fault = false ∧
    (∀ f, ∃ t, Demand.machine.exec Demand.init (s.shown f) = some t ∧
      t.received = t.yielded ∧ t.outcome = (s.point f).ending ∧
      ∀ i, s.m_coroutine i = some f → s.exists_ f = true → s.told i = (s.shown f).length →
        ∃ v, t.received.getLast? = some v ∧ s.step (.deref i v) = some s) ∧
    (∀ f, (custody (some f)).exec false s.owners.events = some (s.exists_ f) ∧
      (s.exists_ f = true ↔ ∃ o, s.owners.value_ (some o) = some (some f))) ∧
    s.owners.Unique none := by
  obtain ⟨h, hfault⟩ : Inv s ∧ s.fault = false :=
    hr.preserves (I := fun s => Inv s ∧ s.fault = false)
      (fun h hpass hs => ⟨h.1.step hs, hpass.step h.1 h.2 hs⟩) ⟨.init, rfl⟩
  refine ⟨hfault, fun f => ?_, fun f => ?_, h.rests.inv.unique⟩
  · obtain ⟨t, hexec, hphase, houtcome, hvalue⟩ := h.handed f
    have hreceived : t.received = t.yielded := by
      simpa [Demand.pending, hphase] using (Demand.handed_over hexec).values
    refine ⟨t, hexec, hreceived, houtcome, fun i hi hexists htold => ?_⟩
    have hpoint := (h.follows i f hi).2 htold
    obtain ⟨v, hlast, hv⟩ := hvalue hpoint
    refine ⟨v, hlast, ?_⟩
    simp [Generators.step, hfault, stepOf, hi, hexists, hpoint, hv, Point.hasValue]
  · have hsome : (some f : Option F) ≠ none := Option.some_ne_none f
    rcases h.rests.inv.life (some f) hsome with ⟨⟨a, ha⟩, hexec⟩ | ⟨hnone, hexec⟩
    · have hexists : s.exists_ f = true := decide_eq_true hexec
      refine ⟨hexists ▸ hexec, iff_of_true hexists ?_⟩
      cases a with
      | none => cases h.rests.temporary.symm.trans ha
      | some o => exact ⟨o, ha⟩
    · have hexists : s.exists_ f = false := by simp [Generators.exists_, hexec]
      refine ⟨hexists ▸ hexec, iff_of_false (by simp [hexists]) ?_⟩
      rintro ⟨o, ho⟩
      exact hnone (some o) ho

/-- A loop over one generator, whose object is swapped before the body throws, and a loop over
    another one that is broken off. A second `begin()` of a body that has ended is undefined. -/
theorem generators_iterate_two :
    let schedule : List (Label Bool Bool Bool ℕ Unit) :=
      [.call false false, .begin false false (some (.yield_value 1)), .deref false 1,
        .call true true, .begin true true (some (.yield_value 7)), .deref true 7,
        .increment false (.yield_value 2), .swap false true, .deref false 2,
        .increment false (.unhandled_exception ()), .destroy false, .destroy true]
    ∃ s, machine.execBy SinglePass init schedule = some s ∧ s.fault = false ∧
      s.shown false = [.ask, .produce 1, .take, .ask, .produce 2, .take, .ask, .finish (some ()),
        .take] ∧
      ((machine.exec init (schedule.take 10 ++ [.begin true true (some .return_void)])).map
        (·.fault)) = some true := by
  intro schedule
  have hrun : machine.execBy SinglePass init schedule = some _ := rfl
  exact ⟨_, hrun, (generators_iterate (Machine.reachesBy_of_execBy schedule hrun)).1, rfl, rfl⟩

end Steps

end Generators
end Ice
