import Ice.Result
import Ice.Result.Storage

/-!
# The contained objects of `result_storage`

Every special member but the assignments handles the objects in the union as it should, and the
assignments do as long as they are not to the object itself: then the old member is destroyed
before it is read. The ledger of the live objects carries this (`Inv`), and the step on it is
the same for a copy and for a move (`Transfers`).

The abstract storage is a value or an error. An assignment of an object to itself leaves it as
it is.
-/

set_option autoImplicit false

namespace Ice
namespace Detail

open Lib Lifetime

variable {O T : Type*}

/-! ## 1. What is to hold -/

/-- The storage holds this value or this error. -/
def Holds (s : Storage T) : ResultStorage T → Prop
  | .value v => s.has_value = true ∧ s.value.contents = some v
  | .error e => s.has_value = false ∧ s.error.contents = some e

/-- **The contained objects are managed**, and the state is `g`: the member that `has_value`
    names is alive and holds what it should; every object that was constructed is in one of the
    storages or was destroyed once; and the events about every object make a life. -/
structure Managed (w : World O T) (g : O → Option (ResultStorage T)) : Prop where
  holds : ∀ o, Option.Rel Holds (w.object o) (g o)
  alive : ∀ o s, w.object o = some s → stage s.member w.events = some .alive
  once : ∀ k, .constructed k ∈ w.events →
    (∃ o s, w.object o = some s ∧ s.member = k) ∧ w.events.count (.destroyed k) = 0 ∨
      (¬ ∃ o s, w.object o = some s ∧ s.member = k) ∧ w.events.count (.destroyed k) = 1
  lives : ∀ k, stage k w.events ≠ none

/-- An assignment is between two objects. -/
def NotSelf : Label O T → Prop
  | .copyAssign o other | .moveAssign o other => o ≠ other
  | _ => True

section Abstract

variable [DecidableEq O] (moved : T → T)

/-- The abstract storage. -/
def abstractStep (g : O → Option (ResultStorage T)) :
    Label O T → Option (O → Option (ResultStorage T))
  | .value o v => Result.create g o (.value v)
  | .error o e => Result.create g o (.error e)
  | .copyConstruct o other => (g other).bind fun r => Result.create g o r.copy
  | .moveConstruct o other =>
    (g other).bind fun r =>
      Result.create (Function.update g other (some (r.move moved).2)) o (r.move moved).1
  | .copyAssign o other =>
    (g o).bind fun this =>
      (g other).map fun r =>
        if o = other then g else Function.update g o (some (this.copyAssign r))
  | .moveAssign o other =>
    (g o).bind fun this =>
      (g other).map fun r =>
        if o = other then g
        else Function.update (Function.update g other (some (this.moveAssign moved r).2)) o
          (some (this.moveAssign moved r).1)
  | .destroy o => (g o).map fun _ => Function.update g o none

def abstract : Machine (O → Option (ResultStorage T)) (Label O T) := ⟨abstractStep moved⟩

end Abstract

/-! ## 2. The invariant -/

/-- Which storage keeps which object. -/
def kept (object : O → Option (Storage T)) : O → Option ℕ := Option.map Storage.member ∘ object

structure Inv (w : World O T) (g : O → Option (ResultStorage T)) : Prop where
  holds : ∀ o, Option.Rel Holds (w.object o) (g o)
  ledger : Ledger (kept w.object) w.next w.events

variable {w w' : World O T} {g : O → Option (ResultStorage T)} {object : O → Option (Storage T)}
  {o other : O} {s r : Storage T} {x : ResultStorage T} {k : ℕ}

theorem kept_eq_some : kept object o = some k ↔ ∃ s, object o = some s ∧ s.member = k :=
  Option.map_eq_some_iff

theorem kept_of_some (h : object o = some s) : kept object o = some s.member :=
  kept_eq_some.mpr ⟨s, h, rfl⟩

theorem Inv.managed (h : Inv w g) : Managed w g where
  holds := h.holds
  alive o s hs := h.ledger.alive (kept_of_some hs)
  once k hk := by
    have hkept := h.ledger.kept_or_destroyed hk
    simpa only [kept_eq_some] using hkept
  lives k hnone := by
    obtain ⟨stage, hstage, -⟩ := h.ledger.lives k
    rw [hnone] at hstage
    cases hstage

theorem Inv.of_some (h : Inv w g) (hs : w.object o = some s) : ∃ x, g o = some x ∧ Holds s x :=
  rel_of_some (h.holds o) hs

theorem Inv.of_none (h : Inv w g) (hs : w.object o = none) : g o = none :=
  rel_of_none (h.holds o) hs

variable [DecidableEq O] {moved : T → T}

theorem kept_update (object : O → Option (Storage T)) (o : O) (s : Option (Storage T)) :
    kept (Function.update object o s) = Function.update (kept object) o (s.map Storage.member) :=
  Function.comp_update ..

/-- The storage is written, and keeps its object. -/
theorem kept_update_of_member (h : object o = some r) (hs : s.member = r.member) :
    kept (Function.update object o (some s)) = kept object := by
  rw [kept_update, Function.update_eq_self_iff, kept_of_some h]
  exact congrArg some hs

/-! ## 3. What the parts of the special members do -/

theorem destroyMember_eq (hs : w.object o = some s) :
    ∃ s', w.destroyMember o = some ⟨Function.update w.object o (some s'), w.next,
        w.events ++ [.destroyed s.member]⟩ ∧
      s'.member = s.member ∧ s'.has_value = s.has_value := by
  unfold World.destroyMember
  rw [hs]
  obtain ⟨value, error, has_value⟩ := s
  cases has_value with
  | true => exact ⟨_, rfl, rfl, rfl⟩
  | false => exact ⟨_, rfl, rfl, rfl⟩

theorem copyTag_eq_some : w.copyTag o other = some w' ↔
    ∃ s r, w.object o = some s ∧ w.object other = some r ∧
      w' = w.put o { s with has_value := r.has_value } := by
  unfold World.copyTag
  constructor
  · intro hs
    obtain ⟨s, ho, hs⟩ := Option.bind_eq_some_iff.mp hs
    obtain ⟨r, hr, hs⟩ := Option.map_eq_some_iff.mp hs
    exact ⟨s, r, ho, hr, hs.symm⟩
  · rintro ⟨s, r, ho, hr, rfl⟩
    rw [ho, hr]
    rfl

section Member

omit [DecidableEq O]

theorem member_of_true (h : s.has_value = true) : s.member = s.value.object := if_pos h

theorem member_of_false (h : s.has_value = false) : s.member = s.error.object :=
  if_neg (by simp [h])

theorem Holds.of_true (hx : Holds s x) (h : s.has_value = true) :
    ∃ v, x = .value v ∧ s.value.contents = some v := by
  cases x with
  | value v => exact ⟨v, rfl, hx.2⟩
  | error e =>
    rw [hx.1] at h
    cases h

theorem Holds.of_false (hx : Holds s x) (h : s.has_value = false) :
    ∃ e, x = .error e ∧ s.error.contents = some e := by
  cases x with
  | value v =>
    rw [hx.1] at h
    cases h
  | error e => exact ⟨e, rfl, hx.2⟩

end Member

/-- The member is constructed from that of `other`, which is read. `f` says what the two hold
    then. -/
def Transfers (op : World O T → O → O → Option (World O T))
    (f : ResultStorage T → ResultStorage T × ResultStorage T) : Prop :=
  ∀ {w o other s r}, w.object o = some s → w.object other = some r → s.has_value = r.has_value →
    ∃ s' r', op w o other = some ⟨Function.update (Function.update w.object other (some r')) o
        (some s'), w.next + 1, w.events ++ [.read r.member] ++ [.constructed w.next]⟩ ∧
      s'.member = w.next ∧ r'.member = r.member ∧
      ∀ x, Holds r x → Holds s' (f x).1 ∧ Holds r' (f x).2

theorem transfers_copyMember :
    Transfers (World.copyMember (O := O) (T := T)) fun x => (x.copy, x) := by
  intro w o other s r hs hr htag
  have hsame : Function.update w.object other (some r) = w.object := by
    rw [Function.update_eq_self_iff, hr]
  unfold World.copyMember
  rw [hs, hr]
  cases hv : r.has_value with
  | true =>
    rw [hv] at htag
    refine ⟨s.newValue w.next r.value.contents, r, ?_, member_of_true htag, rfl, fun x hx => ?_⟩
    · rw [member_of_true hv, Option.bind_some, Option.map_some, if_pos htag, hsame]
      rfl
    · obtain ⟨v, rfl, hcontents⟩ := hx.of_true hv
      exact ⟨⟨htag, hcontents⟩, hx⟩
  | false =>
    rw [hv] at htag
    refine ⟨s.newError w.next r.error.contents, r, ?_, member_of_false htag, rfl, fun x hx => ?_⟩
    · rw [member_of_false hv, Option.bind_some, Option.map_some, if_neg (by simp [htag]), hsame]
      rfl
    · obtain ⟨e, rfl, hcontents⟩ := hx.of_false hv
      exact ⟨⟨htag, hcontents⟩, hx⟩

theorem transfers_moveMember :
    Transfers (World.moveMember (O := O) moved) (ResultStorage.move moved) := by
  intro w o other s r hs hr htag
  unfold World.moveMember
  rw [hs, hr]
  cases hv : r.has_value with
  | true =>
    rw [hv] at htag
    have hleft (contents : Option T) :
        ({ r with value := { r.value with contents := contents } } : Storage T).member =
          r.member := by
      rw [member_of_true hv]
      exact member_of_true hv
    refine ⟨s.newValue w.next r.value.contents, _, ?_, member_of_true htag,
      hleft (r.value.contents.map moved), fun x hx => ?_⟩
    · rw [member_of_true hv, Option.bind_some, Option.map_some, if_pos htag]
      rfl
    · obtain ⟨v, rfl, hcontents⟩ := hx.of_true hv
      exact ⟨⟨htag, hcontents⟩, hv, congrArg (Option.map moved) hcontents⟩
  | false =>
    have hsame : Function.update w.object other (some r) = w.object := by
      rw [Function.update_eq_self_iff, hr]
    rw [hv] at htag
    refine ⟨s.newError w.next r.error.contents, r, ?_, member_of_false htag, rfl, fun x hx => ?_⟩
    · rw [member_of_false hv, Option.bind_some, Option.map_some, if_neg (by simp [htag]), hsame]
      rfl
    · obtain ⟨e, rfl, hcontents⟩ := hx.of_false hv
      exact ⟨⟨htag, hcontents⟩, hv, hcontents⟩

/-! ## 4. The special members -/

section Members

variable {op : World O T → O → O → Option (World O T)}
  {f : ResultStorage T → ResultStorage T × ResultStorage T} {next : ℕ} {events : List Lifetime}

/-- Where `o` keeps nothing, its member is constructed from that of another object. -/
theorem Transfers.inv (hop : Transfers op f) (hholds : ∀ p, Option.Rel Holds (object p) (g p))
    (hledger : Ledger (Function.update (kept object) o none) next events) (hne : other ≠ o)
    (hr : object other = some r) (hx : g other = some x) (htag : s.has_value = r.has_value) :
    ∃ w', op ⟨Function.update object o (some s), next, events⟩ o other = some w' ∧
      Inv w' (Function.update (Function.update g other (some (f x).2)) o (some (f x).1)) := by
  have hs : Function.update object o (some s) o = some s := Function.update_self ..
  have hr' : Function.update object o (some s) other = some r := by
    rw [Function.update_of_ne hne, hr]
  obtain ⟨s', r', hw', hs'member, hr'member, hf⟩ :=
    hop (w := ⟨Function.update object o (some s), next, events⟩) hs hr' htag
  have hrx : Holds r x := by
    have hrel := hholds other
    rw [hr, hx] at hrel
    exact Option.rel_some_some.mp hrel
  have hobject : Function.update (Function.update (Function.update object o (some s)) other
      (some r')) o (some s') =
        Function.update (Function.update object other (some r')) o (some s') := by
    rw [Function.update_comm hne.symm, Function.update_idem]
  refine ⟨_, hw', ?_, ?_⟩
  · rw [hobject]
    refine update_rel (update_rel hholds ?_) ?_
    · exact Option.rel_some_some.mpr (hf x hrx).2
    · exact Option.rel_some_some.mpr (hf x hrx).1
  · have hkept : Function.update (kept object) o none other = some r.member := by
      rw [Function.update_of_ne hne, kept_of_some hr]
    have hnew := (hledger.read hkept).construct (Function.update_self ..)
    rw [Function.update_idem] at hnew
    rw [hobject, kept_update, kept_update_of_member hr hr'member, Option.map_some, hs'member]
    exact hnew

theorem Transfers.construct (hop : Transfers op f) (h : Inv w g)
    (hs : w.create o ((w.object other).bind fun r => op (w.put o (.raw r.has_value)) o other) =
      some w') :
    ∃ x, g other = some x ∧ other ≠ o ∧ g o = none ∧
      Inv w' (Function.update (Function.update g other (some (f x).2)) o (some (f x).1)) := by
  obtain ⟨hnew, hs⟩ := Option.ite_none_left_eq_some.mp hs
  have hnone : w.object o = none := Option.not_isSome_iff_eq_none.mp hnew
  obtain ⟨r, hr, hs⟩ := Option.bind_eq_some_iff.mp hs
  obtain ⟨x, hx, -⟩ := h.of_some hr
  have hne : other ≠ o := by
    rintro rfl
    rw [hr] at hnone
    cases hnone
  have hkept : Function.update (kept w.object) o none = kept w.object := by
    rw [Function.update_eq_self_iff, kept, Function.comp_apply, hnone]
    rfl
  have hledger := h.ledger
  rw [← hkept] at hledger
  obtain ⟨w'', hw'', hinv⟩ := hop.inv (s := .raw r.has_value) h.holds hledger hne hr hx rfl
  cases hw''.symm.trans hs
  exact ⟨x, hx, hne, h.of_none hnone, hinv⟩

/-- What an assignment has done when it comes to constructing the member. -/
theorem assign_cases
    (hs : ((w.destroyMember o).bind fun w => (w.copyTag o other).bind fun w => op w o other) =
      some w') :
    ∃ s s₁ r, w.object o = some s ∧ s₁.member = s.member ∧
      Function.update w.object o (some s₁) other = some r ∧
      op ⟨Function.update w.object o (some { s₁ with has_value := r.has_value }), w.next,
        w.events ++ [.destroyed s.member]⟩ o other = some w' := by
  obtain ⟨w₁, hw₁, hs⟩ := Option.bind_eq_some_iff.mp hs
  obtain ⟨s, ho, -⟩ := Option.map_eq_some_iff.mp hw₁
  obtain ⟨s₁, heq₁, hmember, -⟩ := destroyMember_eq ho
  cases heq₁.symm.trans hw₁
  obtain ⟨w₂, hw₂, hs⟩ := Option.bind_eq_some_iff.mp hs
  obtain ⟨s₂, r, ho₂, hr, rfl⟩ := copyTag_eq_some.mp hw₂
  cases (Function.update_self ..).symm.trans ho₂
  refine ⟨s, s₁, r, ho, hmember, hr, ?_⟩
  rw [World.put, Function.update_idem] at hs
  exact hs

theorem Transfers.assign (hop : Transfers op f) (h : Inv w g) (hne : o ≠ other)
    (hs : ((w.destroyMember o).bind fun w => (w.copyTag o other).bind fun w => op w o other) =
      some w') :
    ∃ y x, g o = some y ∧ g other = some x ∧
      Inv w' (Function.update (Function.update g other (some (f x).2)) o (some (f x).1)) := by
  obtain ⟨s, s₁, r, ho, -, hr, hs⟩ := assign_cases hs
  rw [Function.update_of_ne hne.symm] at hr
  obtain ⟨y, hy, -⟩ := h.of_some ho
  obtain ⟨x, hx, -⟩ := h.of_some hr
  have hledger := h.ledger.destroy (kept_of_some ho)
  obtain ⟨w'', hw'', hinv⟩ := hop.inv (s := { s₁ with has_value := r.has_value }) h.holds hledger
    hne.symm hr hx rfl
  cases hw''.symm.trans hs
  exact ⟨y, x, hy, hx, hinv⟩

/-- **An object is assigned to itself**: what it kept is read after it was destroyed. -/
theorem Transfers.assign_self (hop : Transfers op f) (h : Inv w g)
    (hs : ((w.destroyMember o).bind fun w => (w.copyTag o o).bind fun w => op w o o) = some w') :
    ∃ k, stage k w'.events = none := by
  obtain ⟨s, s₁, r, ho, hmember, hr, hs⟩ := assign_cases hs
  cases (Function.update_self ..).symm.trans hr
  obtain ⟨s', r', hw', -⟩ := hop (w := ⟨Function.update w.object o (some s₁), w.next,
    w.events ++ [.destroyed s.member]⟩) (Function.update_self ..) (Function.update_self ..) rfl
  cases hw'.symm.trans hs
  have hdead : stage s.member (w.events ++ [.destroyed s.member]) = some .dead :=
    stage_self (e := .destroyed s.member) (h.ledger.alive (kept_of_some ho))
  have hread : stage s.member (w.events ++ [.destroyed s.member] ++ [.read s.member]) = none :=
    stage_self (e := .read s.member) hdead
  rw [hmember]
  exact ⟨s.member, stage_append_none hread⟩

end Members

/-- The member is constructed from an argument. -/
theorem Inv.create (h : Inv w g) (hmember : s.member = w.next) (hx : Holds s x)
    (hs : w.create o (some ⟨Function.update w.object o (some s), w.next + 1,
      w.events ++ [.constructed w.next]⟩) = some w') :
    ∃ g', Result.create g o x = some g' ∧ Inv w' g' := by
  obtain ⟨hnew, hs⟩ := Option.ite_none_left_eq_some.mp hs
  have hnone : w.object o = none := Option.not_isSome_iff_eq_none.mp hnew
  cases hs
  have hkept : kept w.object o = none := by
    rw [kept, Function.comp_apply, hnone]
    rfl
  refine ⟨_, if_neg (by simp [h.of_none hnone]), ?_, ?_⟩
  · exact update_rel h.holds (Option.rel_some_some.mpr hx)
  · rw [kept_update, Option.map_some, hmember]
    exact h.ledger.construct hkept

/-- The storage is gone with what it kept. -/
theorem Inv.destroy (h : Inv w g) (hs : w.destroy o = some w') :
    ∃ y, g o = some y ∧ Inv w' (Function.update g o none) := by
  obtain ⟨w₁, hw₁, hs⟩ := Option.map_eq_some_iff.mp hs
  obtain ⟨s, ho, -⟩ := Option.map_eq_some_iff.mp hw₁
  obtain ⟨s₁, heq₁, -, -⟩ := destroyMember_eq ho
  cases heq₁.symm.trans hw₁
  obtain ⟨y, hy, -⟩ := h.of_some ho
  cases hs
  refine ⟨y, hy, ?_, ?_⟩
  · rw [Function.update_idem]
    exact update_rel h.holds .none
  · rw [Function.update_idem, kept_update]
    exact h.ledger.destroy (kept_of_some ho)

/-! ## 5. Every run -/

omit [DecidableEq O] in
theorem inv_init : Inv World.init (fun _ : O => (none : Option (ResultStorage T))) where
  holds _ := .none
  ledger := Ledger.init 1

/-- **One step.** -/
theorem Inv.step {l : Label O T} (h : Inv w g) (hl : NotSelf l) (hs : w.step moved l = some w') :
    ∃ g', abstractStep moved g l = some g' ∧ Inv w' g' := by
  cases l with
  | value o v => exact h.create (s := (Storage.raw true).newValue w.next (some v)) rfl ⟨rfl, rfl⟩ hs
  | error o e =>
    exact h.create (s := (Storage.raw false).newError w.next (some e)) rfl ⟨rfl, rfl⟩ hs
  | copyConstruct o other =>
    obtain ⟨x, hx, hne, hg, hinv⟩ := transfers_copyMember.construct h hs
    have hsame : Function.update g other (some x) = g := by rw [Function.update_eq_self_iff, hx]
    rw [hsame] at hinv
    exact ⟨_, Option.bind_eq_some_iff.mpr ⟨x, hx, if_neg (by simp [hg])⟩, hinv⟩
  | moveConstruct o other =>
    obtain ⟨x, hx, hne, hg, hinv⟩ := transfers_moveMember.construct h hs
    refine ⟨_, Option.bind_eq_some_iff.mpr ⟨x, hx, if_neg ?_⟩, hinv⟩
    rw [Function.update_of_ne hne.symm, hg]
    exact Bool.false_ne_true
  | copyAssign o other =>
    obtain ⟨y, x, hy, hx, hinv⟩ := transfers_copyMember.assign h hl hs
    have hsame : Function.update g other (some x) = g := by rw [Function.update_eq_self_iff, hx]
    rw [hsame] at hinv
    refine ⟨_, Option.bind_eq_some_iff.mpr ⟨y, hy, ?_⟩, hinv⟩
    exact Option.map_eq_some_iff.mpr ⟨x, hx, if_neg hl⟩
  | moveAssign o other =>
    obtain ⟨y, x, hy, hx, hinv⟩ := transfers_moveMember.assign h hl hs
    refine ⟨_, Option.bind_eq_some_iff.mpr ⟨y, hy, ?_⟩, hinv⟩
    exact Option.map_eq_some_iff.mpr ⟨x, hx, if_neg hl⟩
  | destroy o =>
    obtain ⟨y, hy, hinv⟩ := h.destroy hs
    exact ⟨_, Option.map_eq_some_iff.mpr ⟨y, hy, rfl⟩, hinv⟩

/-- After an assignment of an object to itself the contained objects are not managed. -/
theorem Inv.not_managed_of_self {l : Label O T} {g' : O → Option (ResultStorage T)} (h : Inv w g)
    (hl : ¬ NotSelf l) (hs : w.step moved l = some w') : ¬ Managed w' g' := by
  intro hmanaged
  cases l with
  | copyAssign o other =>
    cases not_not.mp hl
    obtain ⟨k, hk⟩ := transfers_copyMember.assign_self h hs
    exact hmanaged.lives k hk
  | moveAssign o other =>
    cases not_not.mp hl
    obtain ⟨k, hk⟩ := transfers_moveMember.assign_self h hs
    exact hmanaged.lives k hk
  | value o v | error o e | copyConstruct o other | moveConstruct o other | destroy o =>
    exact hl trivial

/-- **`result_storage` manages the lifetime of its contents** in every run without an assignment
    of an object to itself, and its state is that of the abstract storage. Any such assignment,
    at any time, breaks it. -/
theorem storage_manages_contents (moved : T → T) (ls : List (Label O T)) (w : World O T)
    (hr : (World.machine moved).RunsBy (fun _ l => NotSelf l) World.init ls w) :
    ∃ g, (abstract moved).exec (fun _ => none) ls = some g ∧ Managed w g ∧
      ∀ l w', w.step moved l = some w' →
        ((∃ g', abstractStep moved g l = some g' ∧ Managed w' g') ↔ NotSelf l) := by
  have hsim : ∃ g, (abstract moved).exec (fun _ => none) (ls.filterMap some) = some g ∧
      Inv w g := by
    refine hr.project ?_ inv_init
    intro w g l w' h hl hs
    obtain ⟨g', hg', hinv⟩ := h.step hl hs
    refine ⟨g', ?_, hinv⟩
    exact Machine.exec_cons_some.mpr ⟨g', hg', rfl⟩
  rw [List.filterMap_some] at hsim
  obtain ⟨g, hg, h⟩ := hsim
  refine ⟨g, hg, h.managed, fun l w' hs => ⟨?_, ?_⟩⟩
  · rintro ⟨g', -, hmanaged⟩
    by_contra hl
    exact h.not_managed_of_self hl hs hmanaged
  · intro hl
    obtain ⟨g', hg', hinv⟩ := h.step hl hs
    exact ⟨g', hg', hinv.managed⟩

instance : (l : Label O T) → Decidable (NotSelf l)
  | .copyAssign o other | .moveAssign o other => inferInstanceAs (Decidable (o ≠ other))
  | .value .. | .error .. | .copyConstruct .. | .moveConstruct .. | .destroy _ =>
    inferInstanceAs (Decidable True)

/-- Every operation, with a value and with an error. -/
theorem storage_manages_contents_run :
    let schedule : List (Label ℕ ℕ) :=
      [.value 0 7, .error 1 errc.eof.make_error_code, .copyConstruct 2 0, .moveConstruct 3 2,
        .copyAssign 0 1, .moveAssign 1 3, .copyConstruct 4 0, .destroy 2, .destroy 4]
    ∃ w g, (World.machine fun _ => 0).exec World.init schedule = some w ∧ Managed w g ∧
      g 0 = some (.error errc.eof.make_error_code) ∧ g 1 = some (.value 7) ∧
      g 3 = some (.value 0) ∧ g 4 = none := by
  intro schedule
  have hrun : (World.machine fun _ => 0).execBy (fun _ l => NotSelf l) World.init schedule =
    some _ := rfl
  obtain ⟨g, hg, h, -⟩ := storage_manages_contents (fun _ => 0) schedule _
    (Machine.runsBy_of_execBy schedule hrun)
  cases hg
  exact ⟨_, _, rfl, h, rfl, rfl, rfl, rfl⟩

/-- `a = a`: the value of `a` is read after it was destroyed, and `a` holds nothing determinate
    any more. -/
theorem self_assignment_reads_destroyed :
    ∃ w, (World.machine (O := Unit) (T := String) id).exec World.init
        [.value () "text", .copyAssign () ()] = some w ∧
      stage 1 w.events = none ∧
      (w.object ()).map (fun s => s.value.contents) = some none ∧
      ¬ Managed w (fun _ => some (.value "text")) :=
  ⟨_, rfl, rfl, rfl, fun h => h.lives 1 rfl⟩

end Detail
end Ice
