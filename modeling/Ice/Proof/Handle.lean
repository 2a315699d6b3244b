import Ice.Handle
import Mathlib.Data.Fintype.Defs
import Mathlib.Logic.Equiv.Basic

/-!
# A handle is the unique owner of its value

Every operation is one of four things to the valid values. Some move them between slots, and
that is a permutation (`Inv.permute`): moving out of a handle, swapping two, swapping one with
itself. The others take a value over (`Inv.acquire`), or leave a slot without one, and then the
value was given out or `C` was invoked on it (`Inv.vacate`). The move assignment is made of
three of these, with a temporary: assigned to itself, a handle has its value back before the
temporary is destroyed.
-/

set_option autoImplicit false

namespace Ice
namespace Handles

open Lib Custody

/-! ## 1. What the operations keep -/

section Slots

variable {S V : Type*} [DecidableEq V] {invalid : V}

/-- A valid value is in one slot at most. -/
def Unique (invalid : V) (s : Handles S V) : Prop :=
  ∀ v, v ≠ invalid → ∀ a b, s.value_ a = some v → s.value_ b = some v → a = b

/-- A valid value is somebody's while a slot has it, and nobody's otherwise. -/
structure Inv (invalid : V) (s : Handles S V) : Prop where
  unique : s.Unique invalid
  life : ∀ v, v ≠ invalid →
    (∃ a, s.value_ a = some v) ∧ (custody v).exec false s.events = some true ∨
      (∀ a, s.value_ a ≠ some v) ∧ (custody v).exec false s.events = some false
  valid : ∀ e ∈ s.events, e.value ≠ invalid

variable {s s' : Handles S V} {a b other : S} {v : V} {e : Custody V}

theorem Inv.owned (h : Inv invalid s) (hv : v ≠ invalid) (ha : s.value_ a = some v) :
    (custody v).exec false s.events = some true := by
  rcases h.life v hv with ⟨-, howned⟩ | ⟨hnone, -⟩
  · exact howned
  · exact absurd ha (hnone a)

theorem Inv.free (h : Inv invalid s) (hv : v ≠ invalid) (hnone : ∀ a, s.value_ a ≠ some v) :
    (custody v).exec false s.events = some false := by
  rcases h.life v hv with ⟨⟨a, ha⟩, -⟩ | ⟨-, hfree⟩
  · exact absurd ha (hnone a)
  · exact hfree

omit [DecidableEq V] in
theorem value_eq_iff (hv : v ≠ invalid) : s.value invalid a = v ↔ s.value_ a = some v := by
  unfold value
  cases s.value_ a with
  | none => exact iff_of_false (Ne.symm hv) nofun
  | some u => exact (Option.some.injEq u v).symm ▸ Iff.rfl

theorem note_events (hv : v ≠ invalid) : (s.note invalid v e).events = s.events ++ [e] := by
  rw [note, if_pos hv]

theorem note_invalid : s.note invalid invalid e = s := if_neg (not_not.mpr rfl)

@[simp] theorem note_value_ : (s.note invalid v e).value_ = s.value_ := by
  unfold note
  split <;> rfl

/-- **Moving values between slots.** -/
theorem Inv.permute (h : Inv invalid s) (π : Equiv.Perm S) (hevents : s'.events = s.events)
    (hvalue : ∀ v, v ≠ invalid → ∀ a, s'.value_ a = some v ↔ s.value_ (π a) = some v) :
    Inv invalid s' where
  unique v hv a b ha hb :=
    π.injective (h.unique v hv _ _ ((hvalue v hv a).mp ha) ((hvalue v hv b).mp hb))
  life v hv := by
    rw [hevents]
    refine (h.life v hv).imp (And.imp_left ?_) (And.imp_left ?_)
    · rintro ⟨a, ha⟩
      exact ⟨π.symm a, (hvalue v hv _).mpr (by rw [π.apply_symm_apply]; exact ha)⟩
    · intro hnone a ha
      exact hnone _ ((hvalue v hv a).mp ha)
  valid := hevents ▸ h.valid

variable [DecidableEq S]

omit [DecidableEq V] in
@[simp] theorem set_value_self {x : Option V} : (s.set a x).value_ a = x :=
  Function.update_self ..

omit [DecidableEq V] in
theorem set_value_of_ne {x : Option V} (h : b ≠ a) : (s.set a x).value_ b = s.value_ b :=
  Function.update_of_ne h ..

/-- Two slots exchange their values, where one of them takes nothing valid but what the other
    had. They may be one slot. -/
theorem Inv.exchange {x : Option V} (h : Inv invalid s)
    (hx : ∀ v, v ≠ invalid → (x = some v ↔ s.value_ a = some v)) :
    Inv invalid ((s.set other x).set a (some (s.value invalid other))) := by
  refine h.permute (Equiv.swap a other) rfl ?_
  intro v hv c
  by_cases hca : c = a
  · rw [hca, set_value_self, Equiv.swap_apply_left, Option.some.injEq]
    exact value_eq_iff hv
  · rw [set_value_of_ne hca]
    by_cases hco : c = other
    · rw [hco, set_value_self, Equiv.swap_apply_right]
      exact hx v hv
    · rw [set_value_of_ne hco, Equiv.swap_apply_of_ne_of_ne hca hco]

theorem Inv.moveConstruct (h : Inv invalid s) (hempty : ∀ v, v ≠ invalid → s.value_ a ≠ some v) :
    Inv invalid (s.moveConstruct invalid a other) := by
  apply h.exchange
  intro v hv
  exact iff_of_false (fun he => hv (Option.some.inj he).symm) (hempty v hv)

/-- A handle may be swapped with itself. -/
theorem Inv.swap (h : Inv invalid s) : Inv invalid (s.swap invalid a other) := by
  apply h.exchange
  intro v hv
  rw [Option.some.injEq]
  exact value_eq_iff hv

/-- **Taking a value over**, in a slot that has none. -/
theorem Inv.acquire (h : Inv invalid s) (hempty : ∀ u, u ≠ invalid → s.value_ a ≠ some u)
    (hfree : v ≠ invalid → ∀ b, s.value_ b ≠ some v) :
    Inv invalid ((s.note invalid v (.acquired v)).set a (some v)) := by
  have hother : ∀ b, b ≠ a →
      ((s.note invalid v (.acquired v)).set a (some v)).value_ b = s.value_ b := by
    intro b hb
    rw [set_value_of_ne hb, note_value_]
  have hheld : ∀ u, u ≠ invalid → u ≠ v → ∀ b,
      ((s.note invalid v (.acquired v)).set a (some v)).value_ b = some u ↔
        s.value_ b = some u := by
    intro u hu huv b
    by_cases hb : b = a
    · rw [hb, set_value_self, Option.some.injEq]
      exact iff_of_false (Ne.symm huv) (hempty u hu)
    · rw [hother b hb]
  have hself : v ≠ invalid → ∀ b,
      ((s.note invalid v (.acquired v)).set a (some v)).value_ b = some v → b = a := by
    intro hv b hb
    by_contra hba
    rw [hother b hba] at hb
    exact hfree hv b hb
  refine ⟨?_, ?_, ?_⟩
  · intro u hu b c hb hc
    by_cases huv : u = v
    · subst huv
      exact (hself hu b hb).trans (hself hu c hc).symm
    · exact h.unique u hu b c ((hheld u hu huv b).mp hb) ((hheld u hu huv c).mp hc)
  · intro u hu
    by_cases huv : u = v
    · subst huv
      refine Or.inl ⟨⟨a, set_value_self⟩, ?_⟩
      show (custody u).exec false (s.note invalid u (.acquired u)).events = some true
      rw [note_events hu]
      exact custody_acquired (h.free hu (hfree hu))
    · have hevents : ∀ owned, (custody u).exec false s.events = some owned →
          (custody u).exec false (s.note invalid v (.acquired v)).events = some owned := by
        intro owned hexec
        by_cases hv : v = invalid
        · rw [hv, note_invalid]
          exact hexec
        · rw [note_events hv]
          exact custody_other hexec (Ne.symm huv)
      refine (h.life u hu).imp (And.imp ?_ (hevents true)) (And.imp ?_ (hevents false))
      · rintro ⟨b, hb⟩
        exact ⟨b, (hheld u hu huv b).mpr hb⟩
      · intro hnone b hb
        exact hnone b ((hheld u hu huv b).mp hb)
  · intro d hd
    by_cases hv : v = invalid
    · rw [hv, note_invalid] at hd
      exact h.valid d hd
    · have hd : d ∈ (s.note invalid v (.acquired v)).events := hd
      rw [note_events hv] at hd
      rcases List.mem_append.mp hd with hd | hd
      · exact h.valid d hd
      · rw [List.mem_singleton.mp hd]
        exact hv

/-- **Leaving a slot without a value**: what it had was given out, or closed. -/
theorem Inv.vacate {x : Option V} (h : Inv invalid s) (hx : ∀ u, u ≠ invalid → x ≠ some u)
    (hvalue : s.value invalid a = v) (he : e = .released v ∨ e = .closed v) :
    Inv invalid ((s.note invalid v e).set a x) := by
  have hother : ∀ b, b ≠ a → ((s.note invalid v e).set a x).value_ b = s.value_ b := by
    intro b hb
    rw [set_value_of_ne hb, note_value_]
  have hev : e.value = v := by
    rcases he with rfl | rfl
    · rfl
    · rfl
  have hsub : ∀ u, u ≠ invalid → ∀ b, ((s.note invalid v e).set a x).value_ b = some u →
      b ≠ a ∧ s.value_ b = some u := by
    intro u hu b hb
    have hba : b ≠ a := by
      rintro rfl
      rw [set_value_self] at hb
      exact hx u hu hb
    exact ⟨hba, hother b hba ▸ hb⟩
  refine ⟨?_, ?_, ?_⟩
  · intro u hu b c hb hc
    exact h.unique u hu b c (hsub u hu b hb).2 (hsub u hu c hc).2
  · intro u hu
    by_cases huv : u = v
    · subst huv
      have ha : s.value_ a = some u := (value_eq_iff hu).mp hvalue
      refine Or.inr ⟨?_, ?_⟩
      · intro b hb
        obtain ⟨hba, hb⟩ := hsub u hu b hb
        exact hba (h.unique u hu b a hb ha)
      · show (custody u).exec false (s.note invalid u e).events = some false
        rw [note_events hu]
        exact custody_ended (h.owned hu ha) he
    · have hevents : ∀ owned, (custody u).exec false s.events = some owned →
          (custody u).exec false (s.note invalid v e).events = some owned := by
        intro owned hexec
        by_cases hv : v = invalid
        · rw [hv, note_invalid]
          exact hexec
        · rw [note_events hv]
          exact custody_other hexec (by rw [hev]; exact Ne.symm huv)
      refine (h.life u hu).imp (And.imp ?_ (hevents true)) (And.imp ?_ (hevents false))
      · rintro ⟨b, hb⟩
        have hba : b ≠ a := by
          rintro rfl
          exact huv (((value_eq_iff hu).mpr hb).symm.trans hvalue)
        exact ⟨b, (hother b hba).trans hb⟩
      · intro hnone b hb
        exact hnone b (hsub u hu b hb).2
  · intro d hd
    by_cases hv : v = invalid
    · rw [hv, note_invalid] at hd
      exact h.valid d hd
    · have hd : d ∈ (s.note invalid v e).events := hd
      rw [note_events hv] at hd
      rcases List.mem_append.mp hd with hd | hd
      · exact h.valid d hd
      · rw [List.mem_singleton.mp hd, hev]
        exact hv

/-- What `reset` does, in two steps. -/
theorem reset_eq : s.reset invalid a v = (((s.note invalid (s.value invalid a)
    (.closed (s.value invalid a))).set a (some invalid)).note invalid v (.acquired v)).set a
      (some v) := by
  unfold reset note set
  split <;> split <;> simp

theorem destroy_eq : s.destroy invalid a =
    (s.note invalid (s.value invalid a) (.closed (s.value invalid a))).set a none := by
  unfold destroy reset
  rw [note_invalid]
  simp [set]

theorem construct_of_ne (h : b ≠ a) : (s.construct invalid a v).value_ b = s.value_ b := by
  rw [Handles.construct, set_value_of_ne h, note_value_]

theorem reset_of_ne (h : b ≠ a) : (s.reset invalid a v).value_ b = s.value_ b := by
  rw [reset_eq, set_value_of_ne h, note_value_, set_value_of_ne h, note_value_]

theorem Inv.reset (h : Inv invalid s) (hfree : v ≠ invalid → ∀ b, s.value_ b ≠ some v) :
    Inv invalid (s.reset invalid a v) := by
  have hinvalid : ∀ u, u ≠ invalid → some invalid ≠ some u :=
    fun u hu he => hu (Option.some.inj he).symm
  rw [reset_eq]
  refine (h.vacate hinvalid rfl (Or.inr rfl)).acquire ?_ ?_
  · intro u hu
    rw [set_value_self]
    exact hinvalid u hu
  · intro hv b hb
    by_cases hba : b = a
    · rw [hba, set_value_self] at hb
      exact hinvalid v hv hb
    · rw [set_value_of_ne hba, note_value_] at hb
      exact hfree hv b hb

theorem Inv.destroy (h : Inv invalid s) : Inv invalid (s.destroy invalid a) := by
  rw [destroy_eq]
  exact h.vacate (fun _ _ => nofun) rfl (Or.inr rfl)

end Slots

/-! ## 2. Every run -/

section Objects

variable {O V : Type*} [DecidableEq O] [DecidableEq V] {invalid : V}
  {s s' : Handles (Option O) V} {o other : O} {v : V}

/-- The states that the move assignment passes through, with its temporary. -/
def during (invalid : V) (s : Handles (Option O) V) : Label O V → List (Handles (Option O) V)
  | .moveAssign o other =>
    [s.moveConstruct invalid none (some other),
      (s.moveConstruct invalid none (some other)).swap invalid none (some o)]
  | _ => []

/-- What `C` was invoked on, in order. -/
def closed (s : Handles (Option O) V) : List V := s.events.filterMap Custody.closes

/-- The valid value that the object holds. -/
def held (invalid : V) (s : Handles (Option O) V) (o : O) : List V :=
  if s.value invalid (some o) ≠ invalid then [s.value invalid (some o)] else []

/-- What `C` is to be invoked on in a step. -/
def due (invalid : V) (s : Handles (Option O) V) : Label O V → List V
  | .reset o | .resetTo o _ | .destroy o => s.held invalid o
  | .moveAssign o other => if o = other then [] else s.held invalid o
  | .construct _ | .constructFrom .. | .moveConstruct .. | .swap .. | .release _ => []

/-- The condition on a step: a valid raw value that is passed in is not owned by a handle. -/
def Unowned (invalid : V) (s : Handles (Option O) V) : Label O V → Prop
  | .constructFrom _ v | .resetTo _ v => v ≠ invalid → ∀ o, s.value_ (some o) ≠ some v
  | _ => True

instance [Fintype O] (s : Handles (Option O) V) : (l : Label O V) → Decidable (Unowned invalid s l)
  | .constructFrom _ v | .resetTo _ v =>
    inferInstanceAs (Decidable (v ≠ invalid → ∀ o, s.value_ (some o) ≠ some v))
  | .construct _ | .moveConstruct .. | .moveAssign .. | .swap .. | .release _ | .reset _
  | .destroy _ => inferInstanceAs (Decidable True)

/-- Between two operations there is no temporary. -/
structure Rests (invalid : V) (s : Handles (Option O) V) : Prop where
  inv : Inv invalid s
  temporary : s.value_ none = none

omit [DecidableEq O] in
theorem rests_init : Rests invalid (init : Handles (Option O) V) where
  inv := ⟨fun _ _ _ _ h => (by cases h), fun _ _ => Or.inr ⟨fun _ => nofun, rfl⟩,
    fun _ h => (by cases h)⟩
  temporary := rfl

omit [DecidableEq O] [DecidableEq V] in
/-- Nor does the temporary own it. -/
theorem Rests.unowned (htemporary : s.value_ none = none) (hfree : ∀ o, s.value_ (some o) ≠ some v)
    (a : Option O) : s.value_ a ≠ some v := by
  cases a with
  | none => rw [htemporary]; exact nofun
  | some o => exact hfree o

omit [DecidableEq O] [DecidableEq V] in
theorem not_exists (h : s.exists_ o = false) : s.value_ (some o) = none := by
  simpa [exists_] using h

/-- **What a move assignment goes through.** -/
theorem Rests.during (h : Rests invalid s) (o other : O) :
    Inv invalid (s.moveConstruct invalid none (some other)) ∧
      Inv invalid ((s.moveConstruct invalid none (some other)).swap invalid none (some o)) := by
  have hmoved : Inv invalid (s.moveConstruct invalid none (some other)) := by
    apply h.inv.moveConstruct
    intro v _
    rw [h.temporary]
    exact nofun
  exact ⟨hmoved, hmoved.swap⟩

theorem Rests.step {l : Label O V} (h : Rests invalid s) (hq : Unowned invalid s l)
    (hs : s.step invalid l = some s') : Rests invalid s' := by
  have hne : ∀ o : O, (none : Option O) ≠ some o := fun _ => nofun
  cases l with
  | construct o =>
    obtain ⟨hnew, hs⟩ := Option.ite_none_left_eq_some.mp hs
    cases hs
    refine ⟨h.inv.acquire ?_ fun hv => absurd rfl hv, (construct_of_ne (hne o)).trans h.temporary⟩
    rw [not_exists (Bool.not_eq_true _ ▸ hnew)]
    exact fun _ _ => nofun
  | constructFrom o v =>
    obtain ⟨hnew, hs⟩ := Option.ite_none_left_eq_some.mp hs
    cases hs
    refine ⟨h.inv.acquire ?_ fun hv => Rests.unowned h.temporary (hq hv),
      (construct_of_ne (hne o)).trans h.temporary⟩
    rw [not_exists (Bool.not_eq_true _ ▸ hnew)]
    exact fun _ _ => nofun
  | moveConstruct o other =>
    obtain ⟨hcan, rfl⟩ := Option.ite_some_none_eq_some.mp hs
    refine ⟨h.inv.moveConstruct ?_, ?_⟩
    · rw [not_exists hcan.1]
      exact fun _ _ => nofun
    · rw [Handles.moveConstruct, set_value_of_ne (hne o), release, set_value_of_ne (hne other)]
      exact h.temporary
  | moveAssign o other =>
    obtain ⟨-, rfl⟩ := Option.ite_some_none_eq_some.mp hs
    refine ⟨(h.during o other).2.destroy, ?_⟩
    rw [Handles.moveAssign, destroy_eq, set_value_self]
  | swap o other =>
    obtain ⟨-, rfl⟩ := Option.ite_some_none_eq_some.mp hs
    refine ⟨h.inv.swap, ?_⟩
    rw [Handles.swap, set_value_of_ne (hne o), set_value_of_ne (hne other)]
    exact h.temporary
  | release o =>
    obtain ⟨-, rfl⟩ := Option.ite_some_none_eq_some.mp hs
    refine ⟨h.inv.vacate ?_ rfl (Or.inl rfl), ?_⟩
    · exact fun u hu he => hu (Option.some.inj he).symm
    · rw [Handles.release, set_value_of_ne (hne o), note_value_]
      exact h.temporary
  | reset o =>
    obtain ⟨-, rfl⟩ := Option.ite_some_none_eq_some.mp hs
    exact ⟨h.inv.reset fun hv => absurd rfl hv, (reset_of_ne (hne o)).trans h.temporary⟩
  | resetTo o v =>
    obtain ⟨-, rfl⟩ := Option.ite_some_none_eq_some.mp hs
    exact ⟨h.inv.reset fun hv => Rests.unowned h.temporary (hq hv),
      (reset_of_ne (hne o)).trans h.temporary⟩
  | destroy o =>
    obtain ⟨-, rfl⟩ := Option.ite_some_none_eq_some.mp hs
    refine ⟨h.inv.destroy, ?_⟩
    rw [destroy_eq, set_value_of_ne (hne o), note_value_]
    exact h.temporary

/-! ## 3. What `C` is invoked on -/

omit [DecidableEq O] in
theorem closed_note {e : Custody V} : (s.note invalid v e).closed =
    s.closed ++ if v ≠ invalid then e.closes.toList else [] := by
  unfold note closed
  split
  · rw [List.filterMap_append]
    cases e <;> rfl
  · exact (List.append_nil _).symm

omit [DecidableEq V] in
theorem closed_set {a : Option O} {x : Option V} : (s.set a x).closed = s.closed := rfl

omit [DecidableEq O] in
theorem closed_close {a : Option O} : (s.note invalid (s.value invalid a)
    (.closed (s.value invalid a))).closed =
      s.closed ++ if s.value invalid a ≠ invalid then [s.value invalid a] else [] := closed_note

theorem closed_step {l : Label O V} (hs : s.step invalid l = some s') :
    s'.closed = s.closed ++ s.due invalid l := by
  have hnote : ∀ {t : Handles (Option O) V} {u : V} {e : Custody V}, e.closes = none →
      (t.note invalid u e).closed = t.closed := by
    intro t u e he
    rw [closed_note, he]
    simp
  cases l with
  | construct o | constructFrom o v =>
    obtain ⟨-, hs⟩ := Option.ite_none_left_eq_some.mp hs
    cases hs
    rw [due, List.append_nil]
    exact hnote rfl
  | moveConstruct o other | swap o other =>
    obtain ⟨-, rfl⟩ := Option.ite_some_none_eq_some.mp hs
    exact (List.append_nil _).symm
  | moveAssign o other =>
    obtain ⟨-, rfl⟩ := Option.ite_some_none_eq_some.mp hs
    -- the temporary ends with what the handle held when it was swapped
    have hvalue : ((s.moveConstruct invalid none (some other)).swap invalid none (some o)).value
        invalid none = if o = other then invalid else s.value invalid (some o) := by
      have hne : some o ≠ (none : Option O) := nofun
      unfold Handles.swap Handles.moveConstruct release
      rw [value, set_value_self, Option.getD_some, value, set_value_of_ne hne]
      split
      · rename_i hself
        rw [hself, set_value_self, Option.getD_some]
      · rename_i hother
        rw [set_value_of_ne fun he => hother (Option.some.inj he)]
        rfl
    rw [Handles.moveAssign, destroy_eq, closed_set, closed_close, hvalue]
    refine congrArg (s.closed ++ ·) ?_
    unfold due held
    by_cases hself : o = other
    · rw [if_pos hself, if_neg (not_not.mpr rfl)]
      exact (if_pos hself).symm
    · rw [if_neg hself]
      exact (if_neg hself).symm
  | release o =>
    obtain ⟨-, rfl⟩ := Option.ite_some_none_eq_some.mp hs
    rw [due, List.append_nil]
    exact hnote rfl
  | reset o | resetTo o v =>
    obtain ⟨-, rfl⟩ := Option.ite_some_none_eq_some.mp hs
    rw [Handles.reset, closed_set, hnote rfl]
    exact closed_close
  | destroy o =>
    obtain ⟨-, rfl⟩ := Option.ite_some_none_eq_some.mp hs
    rw [destroy_eq, closed_set]
    exact closed_close

/-- **A handle is the unique owner of its value.** In every run in which the valid raw values
    that are passed in are not owned, at every point a valid value is held once; `C` is invoked
    in each step on what that step is to close; and a valid value is closed, or given out, only
    while a handle holds it, and then it is nobody's until it is taken over again. -/
theorem handle_unique_owner (hr : (machine invalid).ReachesBy (Unowned invalid)
    (init : Handles (Option O) V) s) :
    s.Unique invalid ∧
    (∀ l, ∀ t ∈ s.during invalid l, t.Unique invalid) ∧
    (∀ l s', (machine invalid).step s l = some s' → s'.closed = s.closed ++ s.due invalid l) ∧
    (∀ e ∈ s.events, e.value ≠ invalid) ∧
    ∀ v, v ≠ invalid → ∃ owned, (custody v).exec false s.events = some owned ∧
      (owned = true ↔ ∃ o, s.value_ (some o) = some v) := by
  have hrests : Rests invalid s := hr.preserves (fun h hq hs => Rests.step h hq hs) rests_init
  refine ⟨hrests.inv.unique, ?_, fun l s' hs => closed_step hs, hrests.inv.valid, ?_⟩
  · intro l t ht
    cases l with
    | moveAssign o other =>
      obtain ⟨hmoved, hswapped⟩ := hrests.during o other
      rcases List.mem_cons.mp ht with rfl | ht
      · exact hmoved.unique
      · rw [List.mem_singleton.mp ht]
        exact hswapped.unique
    | _ => cases ht
  · intro v hv
    rcases hrests.inv.life v hv with ⟨⟨a, ha⟩, hexec⟩ | ⟨hnone, hexec⟩
    · refine ⟨true, hexec, iff_of_true rfl ?_⟩
      cases a with
      | none => cases hrests.temporary.symm.trans ha
      | some o => exact ⟨o, ha⟩
    · refine ⟨false, hexec, iff_of_false Bool.false_ne_true ?_⟩
      rintro ⟨o, ho⟩
      exact hnone (some o) ho

/-- The hypothesis is met by a run with every operation: a handle is assigned to itself and over
    another one, and a value that was released is taken over again. -/
theorem handle_unique_owner_two :
    let schedule : List (Label Bool ℕ) :=
      [.construct false, .constructFrom true 7, .moveAssign false true, .moveAssign false false,
        .swap false false, .swap false true, .resetTo false 8, .moveAssign false true,
        .release false, .reset true, .resetTo true 7, .destroy false, .moveConstruct false true,
        .destroy false, .destroy true]
    ∃ s, (machine 0).execBy (Unowned 0) init schedule = some s ∧ s.closed = [8, 7] ∧
      s.Unique 0 := by
  intro schedule
  have hrun : (machine 0).execBy (Unowned 0) init schedule = some _ := rfl
  exact ⟨_, hrun, rfl, (handle_unique_owner (Machine.reachesBy_of_execBy schedule hrun)).1⟩

end Objects

end Handles
end Ice
