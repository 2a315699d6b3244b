import Ice.Lib.Machine
import Mathlib.Data.List.Induction
import Mathlib.Tactic.Common

/-!
# Lifetimes of contained objects

A container keeps at most one object, which it constructs, reads and destroys; every object
that is constructed gets a number that nothing had before. What the containers did is a
sequence of events, and `life k` is the life of the one object `k` in it: it may be read after
it was constructed and until it is destroyed. A sequence that `life k` replays for every `k`
never reads an object that was destroyed, and destroys none twice.

The ledger says whose the live objects are. Its three rules are all that a container needs to
keep it: construct where nothing is kept, read what is kept, destroy what is kept.
-/

set_option autoImplicit false

namespace Ice
namespace Lib

/-- What happened to a contained object. -/
inductive Lifetime
  | constructed (k : ℕ)
  | read (k : ℕ)
  | destroyed (k : ℕ)
  deriving DecidableEq

namespace Lifetime

/-- The object an event is about. -/
def object : Lifetime → ℕ
  | constructed k | read k | destroyed k => k

inductive Stage
  | unborn
  | alive
  | dead
  deriving DecidableEq

def Stage.next : Stage → Lifetime → Option Stage
  | .unborn, .constructed _ => some .alive
  | .alive, .read _ => some .alive
  | .alive, .destroyed _ => some .dead
  | _, _ => none

/-- The life of the object `k`. -/
def life (k : ℕ) : Machine Stage Lifetime :=
  ⟨fun s e => if e.object ≠ k then some s else s.next e⟩

/-- What has become of the object `k`. -/
def stage (k : ℕ) (events : List Lifetime) : Option Stage := (life k).exec .unborn events

variable {k : ℕ} {events : List Lifetime} {s : Stage} {e : Lifetime}

theorem stage_concat (h : stage k events = some s) :
    stage k (events ++ [e]) = (life k).step s e := by
  rw [stage, Machine.exec_append]
  unfold stage at h
  rw [h]
  exact Option.bind_fun_some _

/-- An event about another object. -/
theorem stage_other (h : stage k events = some s) (he : e.object ≠ k) :
    stage k (events ++ [e]) = some s := (stage_concat h).trans (if_pos he)

/-- An event about this object. -/
theorem stage_self (h : stage e.object events = some s) :
    stage e.object (events ++ [e]) = s.next e := (stage_concat h).trans (if_neg (not_not.mpr rfl))

/-- Once the events do not make a life, they never will. -/
theorem stage_append_none {more : List Lifetime} (h : stage k events = none) :
    stage k (events ++ more) = none := by
  unfold stage at h ⊢
  rw [Machine.exec_append, h]
  rfl

/-- **How often an object was constructed and destroyed**, by what has become of it. -/
theorem count_of_stage (h : stage k events = some s) :
    events.count (.constructed k) = (if s = .unborn then 0 else 1) ∧
      events.count (.destroyed k) = if s = .dead then 1 else 0 := by
  induction events using List.reverseRecOn generalizing s with
  | nil =>
    cases Option.some.inj h
    exact ⟨rfl, rfl⟩
  | append_singleton events e ih =>
    cases hbefore : stage k events with
    | none =>
      rw [stage_append_none hbefore] at h
      cases h
    | some before =>
      obtain ⟨hconstructed, hdestroyed⟩ := ih hbefore
      rw [List.count_append, List.count_append, hconstructed, hdestroyed]
      by_cases he : e.object = k
      · subst he
        rw [stage_self hbefore] at h
        cases before <;> cases e <;> cases h <;> simp [object]
      · rw [stage_other hbefore he] at h
        cases h
        have hne : e ≠ .constructed k ∧ e ≠ .destroyed k :=
          ⟨fun heq => he (by rw [heq]; rfl), fun heq => he (by rw [heq]; rfl)⟩
        simp [hne]

end Lifetime

open Lifetime

section Ledger

variable {O : Type*}

/-- Which container keeps which object: the live ones are those that are kept, each by one, and
    the numbers from `next` on are free. -/
structure Ledger (kept : O → Option ℕ) (next : ℕ) (events : List Lifetime) : Prop where
  lives : ∀ k, ∃ s, stage k events = some s ∧ (s = .alive ↔ ∃ o, kept o = some k)
  once : ∀ o o' k, kept o = some k → kept o' = some k → o = o'
  fresh : ∀ k, next ≤ k → stage k events = some .unborn

namespace Ledger

variable {kept : O → Option ℕ} {next k : ℕ} {events : List Lifetime} {o : O}

theorem init (next : ℕ) : Ledger (fun _ : O => none) next [] where
  lives k := ⟨.unborn, rfl, by simp⟩
  once := by simp
  fresh k _ := rfl

theorem alive (h : Ledger kept next events) (ho : kept o = some k) :
    stage k events = some .alive := by
  obtain ⟨s, hs, hiff⟩ := h.lives k
  rw [hs, hiff.mpr ⟨o, ho⟩]

theorem lt_next (h : Ledger kept next events) (ho : kept o = some k) : k < next := by
  by_contra hle
  have hunborn := h.fresh k (Nat.not_lt.mp hle)
  rw [h.alive ho] at hunborn
  cases hunborn

/-- One more event, after which the object it is about is kept as far as it is alive, and the
    others are as before. -/
theorem event {kept' : O → Option ℕ} {next' : ℕ} {e : Lifetime} {s : Stage}
    (h : Ledger kept next events) (hs : stage e.object (events ++ [e]) = some s)
    (hself : s = .alive ↔ ∃ o, kept' o = some e.object)
    (hothers : ∀ k ≠ e.object, ∀ o, kept' o = some k ↔ kept o = some k)
    (honce : ∀ o o', kept' o = some e.object → kept' o' = some e.object → o = o')
    (hnext : next ≤ next') (hfresh : e.object < next') :
    Ledger kept' next' (events ++ [e]) := by
  refine ⟨fun k => ?_, fun o o' k ho ho' => ?_, fun k hk => ?_⟩
  · by_cases hk : k = e.object
    · rw [hk]
      exact ⟨s, hs, hself⟩
    · obtain ⟨before, hbefore, hiff⟩ := h.lives k
      refine ⟨before, stage_other hbefore (Ne.symm hk), hiff.trans ?_⟩
      exact exists_congr fun o => (hothers k hk o).symm
  · by_cases hk : k = e.object
    · subst hk
      exact honce o o' ho ho'
    · exact h.once o o' k ((hothers k hk o).mp ho) ((hothers k hk o').mp ho')
  · have hne : e.object ≠ k := Nat.ne_of_lt (Nat.lt_of_lt_of_le hfresh hk)
    exact stage_other (h.fresh k (Nat.le_trans hnext hk)) hne

theorem read (h : Ledger kept next events) (ho : kept o = some k) :
    Ledger kept next (events ++ [.read k]) := by
  have hs : stage k (events ++ [.read k]) = some .alive := stage_self (e := .read k) (h.alive ho)
  refine h.event hs (iff_of_true rfl ⟨o, ho⟩) ?_ ?_ (Nat.le_refl _) (h.lt_next ho)
  · exact fun _ _ _ => Iff.rfl
  · exact fun p p' => h.once p p' k

/-- **Every object that was constructed is kept or was destroyed once.** -/
theorem kept_or_destroyed (h : Ledger kept next events) (hk : .constructed k ∈ events) :
    (∃ o, kept o = some k) ∧ events.count (.destroyed k) = 0 ∨
      (¬ ∃ o, kept o = some k) ∧ events.count (.destroyed k) = 1 := by
  obtain ⟨s, hs, hiff⟩ := h.lives k
  obtain ⟨hconstructed, hdestroyed⟩ := count_of_stage hs
  cases s with
  | unborn =>
    exact absurd hk (List.count_eq_zero.mp hconstructed)
  | alive => exact Or.inl ⟨hiff.mp rfl, hdestroyed⟩
  | dead =>
    refine Or.inr ⟨fun hkept => ?_, hdestroyed⟩
    cases hiff.mpr hkept

variable [DecidableEq O]

theorem construct (h : Ledger kept next events) (ho : kept o = none) :
    Ledger (Function.update kept o (some next)) (next + 1) (events ++ [.constructed next]) := by
  have hs : stage next (events ++ [.constructed next]) = some .alive :=
    stage_self (e := .constructed next) (h.fresh next (Nat.le_refl _))
  -- Nobody keeps the new object but the container that constructed it.
  have hkept (p : O) : Function.update kept o (some next) p = some next ↔ p = o := by
    by_cases hp : p = o
    · subst hp
      simp
    · rw [Function.update_of_ne hp]
      exact iff_of_false (fun heq => absurd (h.lt_next heq) (Nat.lt_irrefl _)) hp
  have hfresh : next < next + 1 := Nat.lt_succ_self next
  refine h.event hs (iff_of_true rfl ⟨o, (hkept o).mpr rfl⟩) ?_ ?_ (Nat.le_succ next) hfresh
  · intro k hk p
    by_cases hp : p = o
    · subst hp
      have hne : next ≠ k := Ne.symm hk
      simp [ho, hne]
    · rw [Function.update_of_ne hp]
  · intro p p' hp hp'
    rw [(hkept p).mp hp, (hkept p').mp hp']

theorem destroy (h : Ledger kept next events) (ho : kept o = some k) :
    Ledger (Function.update kept o none) next (events ++ [.destroyed k]) := by
  have hs : stage k (events ++ [.destroyed k]) = some .dead :=
    stage_self (e := .destroyed k) (h.alive ho)
  have hnobody : ¬ ∃ p, Function.update kept o none p = some k := by
    rintro ⟨p, hp⟩
    rcases update_cases hp with ⟨-, heq⟩ | ⟨hne, hkept⟩
    · cases heq
    · exact hne (h.once p o k hkept ho)
  refine h.event hs (iff_of_false nofun hnobody) ?_ ?_ (Nat.le_refl _) (h.lt_next ho)
  · intro k' hk' p
    by_cases hp : p = o
    · subst hp
      have hne : k ≠ k' := Ne.symm hk'
      simp [ho, hne]
    · rw [Function.update_of_ne hp]
  · exact fun p _ hp => absurd ⟨p, hp⟩ hnobody

end Ledger

end Ledger

end Lib
end Ice
