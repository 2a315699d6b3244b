import Ice.Async.Frame
import Ice.Proof.Handle

/-!
# A coroutine that is destroyed while it is awaited

The objects keep frames as handles keep values: the invariant of `Handles` is kept by every
operation, with `nullptr` for the invalid value, and a frame is somebody's exactly while it is
live. The result has its own life (`Life`), one case for each place of a coroutine. `m_state` says
"completed" once there is a result, and also once there is an awaiter; so a coroutine that is
destroyed between the two destroys a result that was never constructed.
-/

set_option autoImplicit false

namespace Ice
namespace Frames

open Lib Custody

variable {O F : Type*} [DecidableEq F] {s s' : Frames O F} {o other : O} {f g : F}
  {outcome : Outcome}

/-! ## 1. The result -/

/-- Where a coroutine is, what its promise says, and how the life of its result goes on. -/
inductive Life (s : Frames O F) (f : F) : Prop
  | absent (hplace : s.place f = .absent)
      (hvalue : (custody f).exec false s.values = some false)
  | initial (hplace : s.place f = .live .initial) (hstate : s.m_state f = false)
      (hexception : s.m_exception f = false)
      (hvalue : (custody f).exec false s.values = some false)
  | suspended (hplace : s.place f = .live .suspended) (hstate : s.m_state f = true)
      (hexception : s.m_exception f = false)
      (hvalue : (custody f).exec false s.values = some false)
  | final (hplace : s.place f = .live .final) (hstate : s.m_state f = true)
      (hvalue : (custody f).exec false s.values = some (!s.m_exception f))
  | ended {point : Point} (hplace : s.place f = .destroyed point) (hpoint : point ≠ .suspended)
      (hvalue : (custody f).exec false s.values = some false)
  -- the storage was destroyed as if it held a result
  | abandoned (hplace : s.place f = .destroyed .suspended)
      (hvalue : (custody f).exec false s.values = none)

/-- Nothing of a coroutine has changed. -/
structure Same (s s' : Frames O F) (f : F) : Prop where
  place : s'.place f = s.place f
  state : s'.m_state f = s.m_state f
  exception : s'.m_exception f = s.m_exception f
  values : s'.values = s.values ∨ ∃ e, s'.values = s.values ++ [e] ∧ e.value ≠ f

theorem Same.custody (h : Same s s' f) :
    (custody f).exec false s'.values = (custody f).exec false s.values := by
  rcases h.values with heq | ⟨e, heq, hne⟩
  · rw [heq]
  · rw [heq]
    cases hexec : (Custody.custody f).exec false s.values with
    | some owned => exact custody_other hexec hne
    | none =>
      rw [Machine.exec_append, hexec]
      rfl

theorem Life.same (h : Life s f) (hsame : Same s s' f) : Life s' f := by
  have hvalue := hsame.custody
  cases h with
  | absent hplace hv => exact .absent (hsame.place.trans hplace) (hvalue.trans hv)
  | initial hplace hstate hexception hv =>
    exact .initial (hsame.place.trans hplace) (hsame.state.trans hstate)
      (hsame.exception.trans hexception) (hvalue.trans hv)
  | suspended hplace hstate hexception hv =>
    exact .suspended (hsame.place.trans hplace) (hsame.state.trans hstate)
      (hsame.exception.trans hexception) (hvalue.trans hv)
  | final hplace hstate hv =>
    exact .final (hsame.place.trans hplace) (hsame.state.trans hstate)
      (by rw [hvalue, hv, hsame.exception])
  | ended hplace hpoint hv => exact .ended (hsame.place.trans hplace) hpoint (hvalue.trans hv)
  | abandoned hplace hv => exact .abandoned (hsame.place.trans hplace) (hvalue.trans hv)

/-- The objects are not looked at. -/
theorem Life.owners (h : Life s f) (owners : Handles O (Option F)) :
    Life { s with owners := owners } f :=
  h.same ⟨rfl, rfl, rfl, .inl rfl⟩

theorem destroy_same (hgf : g ≠ f) : Same s (s.destroy f) g := by
  refine ⟨Function.update_of_ne hgf .., rfl, rfl, ?_⟩
  unfold destroy
  dsimp only
  split
  · exact .inr ⟨_, rfl, Ne.symm hgf⟩
  · exact .inl rfl

theorem resume_same (hgf : g ≠ f) (outcome : Outcome) : Same s (s.resume f outcome) g := by
  cases outcome with
  | suspend => exact ⟨Function.update_of_ne hgf .., rfl, rfl, .inl rfl⟩
  | return_value =>
    exact ⟨Function.update_of_ne hgf .., Function.update_of_ne hgf .., rfl,
      .inr ⟨_, rfl, Ne.symm hgf⟩⟩
  | unhandled_exception =>
    exact ⟨Function.update_of_ne hgf .., Function.update_of_ne hgf .., Function.update_of_ne hgf ..,
      .inl rfl⟩

/-- **What the destructor of the promise does** to the result, for each place. -/
theorem Life.destroy (h : Life s f) (hlive : (s.place f).isLive = true) :
    Life (s.destroy f) f := by
  have hplace : ∀ {point}, s.place f = .live point →
      (s.destroy f).place f = .destroyed point := by
    intro point hp
    simp [Frames.destroy, hp, Place.destroy]
  have hkept : (s.m_state f && !s.m_exception f) = false →
      (s.destroy f).values = s.values := by
    intro hnot
    simp [Frames.destroy, hnot]
  have hclosed : (s.m_state f && !s.m_exception f) = true →
      (s.destroy f).values = s.values ++ [.closed f] := by
    intro hyes
    simp [Frames.destroy, hyes]
  cases h with
  | absent hp => rw [hp] at hlive; cases hlive
  | ended hp => rw [hp] at hlive; cases hlive
  | abandoned hp => rw [hp] at hlive; cases hlive
  | initial hp hstate _ hv =>
    refine .ended (hplace hp) nofun ?_
    rw [hkept (by simp [hstate])]
    exact hv
  | suspended hp hstate hexception hv =>
    refine .abandoned (hplace hp) ?_
    rw [hclosed (by simp [hstate, hexception]), Machine.exec_append, hv]
    exact congrArg (Option.bind · _) (if_neg (not_not.mpr rfl))
  | final hp hstate hv =>
    refine .ended (hplace hp) nofun ?_
    cases hexception : s.m_exception f with
    | true =>
      rw [hkept (by simp [hexception]), hv, hexception]
      rfl
    | false =>
      rw [hexception] at hv
      rw [hclosed (by simp [hstate, hexception])]
      exact custody_ended hv (.inr rfl)

/-- The body runs, and there is an awaiter by the time it has left the coroutine. -/
theorem Life.resume (hexception : s.m_exception f = false)
    (hvalue : (custody f).exec false s.values = some false) (outcome : Outcome)
    (hplace : s'.place f = (s.resume f outcome).place f) (hstate : s'.m_state f = true)
    (hexception' : s'.m_exception f = (s.resume f outcome).m_exception f)
    (hvalues : s'.values = (s.resume f outcome).values) : Life s' f := by
  cases outcome with
  | suspend =>
    refine .suspended (by simp [hplace, Frames.resume]) hstate (hexception'.trans hexception) ?_
    rw [hvalues]
    exact hvalue
  | return_value =>
    refine .final (by simp [hplace, Frames.resume]) hstate ?_
    rw [hvalues, hexception']
    exact (custody_acquired hvalue).trans (congrArg (fun b => some !b) hexception.symm)
  | unhandled_exception =>
    refine .final (by simp [hplace, Frames.resume]) hstate ?_
    rw [hvalues, hexception']
    simpa [Frames.resume] using hvalue

/-! ## 2. The frame -/

structure Inv (s : Frames O F) : Prop where
  owners : Handles.Inv none s.owners
  owned : ∀ f, (custody (some f)).exec false s.owners.events = some (s.place f).isLive
  life : ∀ f, Life s f

/-- The owner of a frame is the owner of a live one. -/
theorem Inv.isLive (h : Inv s) (ho : s.owners.value none o = some f) :
    (s.place f).isLive = true := by
  have hsome : (some f : Option F) ≠ none := nofun
  have hvalue := (Handles.value_eq_iff hsome).mp ho
  exact Option.some.inj ((h.owned f).symm.trans (h.owners.owned hsome hvalue))

theorem events_note (f : F) : (s.owners.note none (some f) (.closed (some f))).events =
    s.owners.events ++ [.closed (some f)] :=
  Handles.note_events nofun

/-- **What is left of an object's coroutine.** The object is to get another one, or none. -/
theorem Inv.destroyCoroutine [DecidableEq O] (h : Inv s) (o : O) :
    (∀ x, (∀ u, u ≠ none → x ≠ some u) →
      Handles.Inv none ((s.destroyCoroutine o).owners.set o x)) ∧
    (∀ f, (custody (some f)).exec false (s.destroyCoroutine o).owners.events =
      some ((s.destroyCoroutine o).place f).isLive) ∧
    ∀ f, Life (s.destroyCoroutine o) f := by
  cases ho : s.owners.value none o with
  | none =>
    have hd : s.destroyCoroutine o = s := by rw [Frames.destroyCoroutine, ho]
    rw [hd]
    refine ⟨fun x hx => ?_, h.owned, h.life⟩
    have hvacate := h.owners.vacate (x := x) hx ho (.inr rfl)
    rwa [Handles.note_invalid] at hvacate
  | some f =>
    have hd : s.destroyCoroutine o = s.destroy f := by rw [Frames.destroyCoroutine, ho]
    have hlive := h.isLive ho
    rw [hd]
    refine ⟨fun x hx => h.owners.vacate hx ho (.inr rfl), fun g => ?_, fun g => ?_⟩
    · have hevents : (s.destroy f).owners.events = s.owners.events ++ [.closed (some f)] :=
        events_note f
      rw [hevents]
      by_cases hgf : g = f
      · subst hgf
        have hplace : ((s.destroy g).place g).isLive = false := by
          cases hp : s.place g <;> simp [Frames.destroy, hp, Place.destroy, Place.isLive]
        rw [hplace]
        exact custody_ended (hlive ▸ h.owned g) (.inr rfl)
      · rw [(destroy_same hgf).place]
        exact custody_other (h.owned g) fun he => hgf (Option.some.inj he).symm
    · by_cases hgf : g = f
      · rw [hgf]
        exact (h.life f).destroy hlive
      · exact (h.life g).same (destroy_same hgf)

omit [DecidableEq F] in
/-- A slot that is about to be moved to need not be emptied first. -/
theorem set_moveConstruct [DecidableEq O] (h : Handles O (Option F)) (hne : other ≠ o)
    (x : Option (Option F)) :
    (h.set o x).moveConstruct none o other = h.moveConstruct none o other := by
  have hvalue : (h.set o x).value none other = h.value none other := by
    rw [Handles.value, Handles.value, Handles.set_value_of_ne hne]
  unfold Handles.moveConstruct
  rw [hvalue]
  unfold Handles.release Handles.set
  dsimp only
  rw [Function.update_comm hne, Function.update_idem, Function.update_comm hne.symm]

theorem Inv.init : Inv (init : Frames O F) where
  owners := ⟨fun _ _ _ _ h => (by cases h), fun _ _ => .inr ⟨fun _ => nofun, rfl⟩,
    fun _ h => (by cases h)⟩
  owned _ := rfl
  life _ := .absent rfl rfl

omit [DecidableEq F] in
theorem not_exists (h : s.exists_ o = false) : s.owners.value_ o = none := by
  simpa [exists_] using h

/-- A frame that does not exist yet is nobody's. -/
theorem Inv.unowned (h : Inv s) (hf : s.place f = .absent) (o : O) :
    s.owners.value_ o ≠ some (some f) := by
  intro ho
  have howned := (h.owned f).symm.trans (h.owners.owned nofun ho)
  rw [hf] at howned
  cases howned

theorem Inv.call [DecidableEq O] (h : Inv s) (hs : s.step (.call o f) = some s') : Inv s' := by
  obtain ⟨⟨hnew, hf⟩, rfl⟩ := Option.ite_some_none_eq_some.mp hs
  have hevents : (s.owners.construct none o (some f)).events =
      s.owners.events ++ [.acquired (some f)] := Handles.note_events nofun
  refine ⟨h.owners.acquire ?_ fun _ => h.unowned hf, fun g => ?_, fun g => ?_⟩
  · rw [not_exists hnew]
    exact fun _ _ => nofun
  · dsimp only
    rw [hevents]
    have hg := h.owned g
    by_cases hgf : g = f
    · subst hgf
      rw [hf] at hg
      rw [Function.update_self]
      exact custody_acquired hg
    · rw [Function.update_of_ne hgf]
      exact custody_other hg fun he => hgf (Option.some.inj he).symm
  · by_cases hgf : g = f
    · subst hgf
      cases h.life g with
      | absent _ hv => exact .initial (by simp) (by simp) (by simp) hv
      | initial hp => rw [hf] at hp; cases hp
      | suspended hp => rw [hf] at hp; cases hp
      | final hp => rw [hf] at hp; cases hp
      | ended hp => rw [hf] at hp; cases hp
      | abandoned hp => rw [hf] at hp; cases hp
    · exact (h.life g).same ⟨Function.update_of_ne hgf .., Function.update_of_ne hgf ..,
        Function.update_of_ne hgf .., .inl rfl⟩

/-- A resumption leaves the frame live. -/
theorem Inv.resume (h : Inv s) (hlive : (s.place f).isLive = true)
    (howners : s'.owners = s.owners) (hplace : s'.place = (s.resume f outcome).place)
    (hsame : ∀ g, g ≠ f → Same s s' g) (hlife : Life s' f) : Inv s' := by
  refine ⟨howners ▸ h.owners, fun g => ?_, fun g => ?_⟩
  · rw [howners, h.owned g, hplace]
    by_cases hgf : g = f
    · subst hgf
      rw [hlive]
      cases outcome <;> simp [Frames.resume, Place.isLive]
    · rw [(resume_same hgf outcome).place]
  · by_cases hgf : g = f
    · rw [hgf]
      exact hlife
    · exact (h.life g).same (hsame g hgf)

theorem Inv.co_await [DecidableEq O] (h : Inv s)
    (hs : s.step (.co_await o outcome) = some s') : Inv s' := by
  simp only [step] at hs
  cases ho : s.owners.value none o with
  | none => rw [ho] at hs; cases hs
  | some f =>
    rw [ho] at hs
    obtain ⟨hplace, rfl⟩ := Option.ite_some_none_eq_some.mp hs
    have howners : (s.resume f outcome).owners = s.owners := by cases outcome <;> rfl
    refine h.resume (by rw [hplace]; rfl) howners rfl (fun g hgf => ?_) ?_
    · have hsame := resume_same (s := s) hgf outcome
      exact ⟨hsame.place, (Function.update_of_ne hgf ..).trans hsame.state, hsame.exception,
        hsame.values⟩
    · cases h.life f with
      | initial _ _ hexception hv =>
        exact Life.resume hexception hv outcome rfl (by simp) rfl rfl
      | absent hp => rw [hplace] at hp; cases hp
      | suspended hp => rw [hplace] at hp; cases hp
      | final hp => rw [hplace] at hp; cases hp
      | ended hp => rw [hplace] at hp; cases hp
      | abandoned hp => rw [hplace] at hp; cases hp

theorem Inv.wake [DecidableEq O] (h : Inv s) (hs : s.step (.wake f outcome) = some s') :
    Inv s' := by
  obtain ⟨hplace, rfl⟩ := Option.ite_some_none_eq_some.mp hs
  have howners : (s.resume f outcome).owners = s.owners := by cases outcome <;> rfl
  refine h.resume (by rw [hplace]; rfl) howners rfl (fun g hgf => resume_same hgf outcome) ?_
  cases h.life f with
  | suspended _ hstate hexception hv =>
    refine Life.resume hexception hv outcome rfl ?_ rfl rfl
    cases outcome <;> simp [Frames.resume, hstate]
  | absent hp => rw [hplace] at hp; cases hp
  | initial hp => rw [hplace] at hp; cases hp
  | final hp => rw [hplace] at hp; cases hp
  | ended hp => rw [hplace] at hp; cases hp
  | abandoned hp => rw [hplace] at hp; cases hp

theorem Inv.step [DecidableEq O] {l : Label O F} (h : Inv s) (hs : s.step l = some s') :
    Inv s' := by
  cases l with
  | call o f => exact h.call hs
  | construct o =>
    obtain ⟨hnew, rfl⟩ := Option.ite_some_none_eq_some.mp hs
    refine ⟨h.owners.acquire ?_ fun hv => absurd rfl hv, h.owned, fun f => (h.life f).owners _⟩
    rw [not_exists hnew]
    exact fun _ _ => nofun
  | moveConstruct o other =>
    obtain ⟨⟨hnew, -⟩, rfl⟩ := Option.ite_some_none_eq_some.mp hs
    refine ⟨h.owners.moveConstruct ?_, h.owned, fun f => (h.life f).owners _⟩
    rw [not_exists hnew]
    exact fun _ _ => nofun
  | moveAssign o other =>
    obtain ⟨-, hs⟩ := Option.ite_none_right_eq_some.mp hs
    split at hs
    · rename_i hne
      obtain rfl := Option.some.inj hs
      obtain ⟨hemptied, howned, hlife⟩ := h.destroyCoroutine o
      have hinvalid : ∀ u : Option F, u ≠ none → some none ≠ some u :=
        fun u hu he => hu (Option.some.inj he).symm
      refine ⟨?_, howned, fun f => (hlife f).owners _⟩
      dsimp only
      rw [← set_moveConstruct _ hne (some none)]
      refine (hemptied (some none) hinvalid).moveConstruct fun u hu => ?_
      rw [Handles.set_value_self]
      exact hinvalid u hu
    · exact Option.some.inj hs ▸ h
  | destroy o =>
    obtain ⟨-, rfl⟩ := Option.ite_some_none_eq_some.mp hs
    obtain ⟨hemptied, howned, hlife⟩ := h.destroyCoroutine o
    exact ⟨hemptied none fun _ _ => nofun, howned, fun f => (hlife f).owners _⟩
  | co_await o outcome => exact h.co_await hs
  | wake f outcome => exact h.wake hs

/-- **A frame is destroyed once, its result only if it was abandoned.** In every run of the
    operations on any number of `async` objects and of their coroutines: a frame that is live
    belongs to exactly one object, and it is destroyed once, when that object is destroyed or gets
    another one. The destructor of `T` runs once for each result that was constructed, and for
    nothing else, exactly if the coroutine is not destroyed while it is suspended in its body:
    `m_state` then says that it has an awaiter, and `~async_promise` takes it for completed. -/
theorem async_frames [DecidableEq O] (hr : machine.Reaches (Frames.init : Frames O F) s) (f : F) :
    (custody (some f)).exec false s.owners.events = some (s.place f).isLive ∧
    ((s.place f).isLive = true ↔ ∃ o, s.owners.value_ o = some (some f)) ∧
    (∀ o o', s.owners.value_ o = some (some f) → s.owners.value_ o' = some (some f) → o = o') ∧
    (((custody f).exec false s.values).isSome ↔ s.place f ≠ .destroyed .suspended) ∧
    (s.place f ≠ .destroyed .suspended →
      ((custody f).exec false s.values = some true ↔
        s.place f = .live .final ∧ s.m_exception f = false)) := by
  have h : Inv s := hr.preserves (fun ha _ hs => ha.step hs) .init
  have hsome : (some f : Option F) ≠ none := nofun
  refine ⟨h.owned f, ⟨fun hlive => ?_, fun ⟨o, ho⟩ => ?_⟩, h.owners.unique (some f) hsome, ?_, ?_⟩
  · rcases h.owners.life (some f) hsome with ⟨ho, -⟩ | ⟨-, hfree⟩
    · exact ho
    · rw [h.owned f, hlive] at hfree
      cases hfree
  · exact Option.some.inj ((h.owned f).symm.trans (h.owners.owned hsome ho))
  · cases h.life f with
    | absent hp hv => simp [hp, hv]
    | initial hp _ _ hv => simp [hp, hv]
    | suspended hp _ _ hv => simp [hp, hv]
    | final hp _ hv => simp [hp, hv]
    | ended hp hpoint hv => simp [hp, hv, hpoint]
    | abandoned hp hv => simp [hp, hv]
  · intro hnot
    cases h.life f with
    | absent hp hv => simp [hp, hv]
    | initial hp _ _ hv => simp [hp, hv]
    | suspended hp _ _ hv => simp [hp, hv]
    | final hp _ hv => simp [hp, hv]
    | ended hp _ hv => simp [hp, hv]
    | abandoned hp => exact absurd hp hnot

/-- The first coroutine returns and is moved before its object is destroyed; the second one is
    assigned away while it is awaited. -/
theorem async_frames_abandoned :
    ∃ s : Frames (Fin 2) (Fin 3), s.place 0 = .destroyed .final ∧
      s.place 1 = .destroyed .suspended ∧ s.values = [.acquired 0, .closed 0, .closed 1] ∧
      ((custody 0).exec false s.values).isSome ∧ ¬ ((custody 1).exec false s.values).isSome := by
  have hr := Machine.reaches_of_exec (M := machine) (s := (Frames.init : Frames (Fin 2) (Fin 3)))
    [.call 0 0, .co_await 0 .suspend, .moveConstruct 1 0, .wake 0 .return_value, .destroy 1,
      .call 1 1, .moveAssign 0 1, .co_await 0 .suspend, .destroy 1, .call 1 2,
      .moveAssign 0 1] rfl
  exact ⟨_, rfl, rfl, rfl, (async_frames hr 0).2.2.2.1.mpr nofun,
    fun hsome => (async_frames hr 1).2.2.2.1.mp hsome rfl⟩

end Frames
end Ice
