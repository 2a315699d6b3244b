import Ice.Proof.Async.Mutex

/-!
# `unlock` lets the lock go

Until it has released the lock or resumed a waiter, `unlock` waits for nobody: each of its accesses
is possible wherever it stands, and the only loop of it runs over a list that it has taken for
itself. What the others can do to it is to arrive before it takes the list, so the arrivals bound
its length. A waiter that it resumes runs inside of that call of `resume()`, and when `unlock`
returns from there is up to the waiter.
-/

set_option autoImplicit false

namespace Ice
namespace AsyncMutex

open Lib

variable {C : Type*}

/-- At most `m` accesses are left up to the release or the resumption, if no more than `bound`
    coroutines arrive. -/
def Remaining (s : AsyncMutex C) (bound m : ℕ) : Operation C → Prop
  | .unlock => bound + 5 ≤ m
  | .release => bound + 4 ≤ m
  | .exchange => bound + 3 ≤ m
  | .reverse next _ => ∃ rest, Chain s.next (some next) rest ∧ rest.length + 2 ≤ m
  | .pop _ => 2 ≤ m
  | .resume _ => 1 ≤ m
  | _ => False

variable [DecidableEq C] {s s' : AsyncMutex C} {stack queue : List C} {c : C} {bound m : ℕ}

/-! ## 1. The accesses of the others -/

theorem loop_frame {d : C} (state : State C) (hd : d ≠ c) :
    (s.loop d state).op c = s.op c ∧ (s.loop d state).unlocked = s.unlocked ∧
      (s.loop d state).next = s.next := by
  cases state <;> exact ⟨Function.update_of_ne hd.symm .., rfl, rfl⟩

/-- Nobody else moves the coroutine that unlocks, lets its lock go, or relinks who waits. -/
theorem unlock_frame (h : MutexInv s (some c) stack queue) (hc : (s.op c).unlocking = true)
    {l : Label C} (hl : l.isStepOf c = false) (hs : s.step l = some s') :
    s'.op c = s.op c ∧ s'.unlocked = s.unlocked ∧
      ∀ d, s.op d = .waiting → s'.next d = s.next d := by
  have hlocked : s.state ≠ .not_locked := fun hx => by
    cases h.not_locked_iff.mp hx
  -- Who holds the lock, or is inside `unlock`, is `c`.
  have hother : ∀ {d}, d ≠ c → (s.op d).owns = false := by
    intro d hd
    cases howns : (s.op d).owns with
    | false => rfl
    | true => exact absurd (Option.some.inj (h.owner_eq howns)).symm hd
  have hholding : ∀ {d}, s.op d ≠ .holding := by
    intro d hd
    by_cases hdc : d = c
    · rw [← hdc, hd] at hc
      cases hc
    · have := hother hdc
      rw [hd] at this
      cases this
  cases l with
  | try_lock d =>
    obtain ⟨-, hs⟩ := Option.ite_none_right_eq_some.mp hs
    rw [if_neg hlocked] at hs
    obtain rfl := Option.some.inj hs
    exact ⟨rfl, rfl, fun _ _ => rfl⟩
  | lock d =>
    obtain ⟨hidle, hs⟩ := Option.ite_none_right_eq_some.mp hs
    obtain rfl := Option.some.inj hs
    have hd : c ≠ d := by
      rintro rfl
      rw [hidle] at hc
      cases hc
    exact ⟨Function.update_of_ne hd .., rfl, fun _ _ => rfl⟩
  | unlock d =>
    obtain ⟨hd, -⟩ := Option.ite_none_right_eq_some.mp hs
    exact absurd hd hholding
  | move d e =>
    obtain ⟨⟨hd, -⟩, -⟩ := Option.ite_none_right_eq_some.mp hs
    exact absurd hd hholding
  | step d fail =>
    have hd : d ≠ c := of_decide_eq_false hl
    have howns := hother hd
    change s.stepOf d fail = some s' at hs
    unfold stepOf at hs
    cases hop : s.op d with
    | idle | waiting | holding | failed => rw [hop] at hs; cases hs
    | unlock | release | exchange | reverse _ _ | pop _ | resume _ =>
      rw [hop] at howns
      cases howns
    | load =>
      rw [hop] at hs
      obtain rfl := Option.some.inj hs
      obtain ⟨hopc, hun, hnext⟩ := loop_frame (s := s) s.state hd
      exact ⟨hopc, hun, fun e _ => congrFun hnext e⟩
    | take =>
      rw [hop] at hs
      dsimp only at hs
      rw [if_neg fun hx => hlocked hx.1] at hs
      obtain rfl := Option.some.inj hs
      obtain ⟨hopc, hun, hnext⟩ := loop_frame (s := s) s.state hd
      exact ⟨hopc, hun, fun e _ => congrFun hnext e⟩
    | store waiter =>
      rw [hop] at hs
      obtain rfl := Option.some.inj hs
      refine ⟨Function.update_of_ne hd.symm .., rfl, fun e he => ?_⟩
      refine Function.update_of_ne ?_ ..
      rintro rfl
      rw [hop] at he
      cases he
    | push waiter =>
      rw [hop] at hs
      dsimp only at hs
      split at hs
      · obtain rfl := Option.some.inj hs
        exact ⟨Function.update_of_ne hd.symm .., rfl, fun _ _ => rfl⟩
      · obtain rfl := Option.some.inj hs
        obtain ⟨hopc, hun, hnext⟩ := loop_frame (s := s) s.state hd
        exact ⟨hopc, hun, fun e _ => congrFun hnext e⟩

omit [DecidableEq C] in
/-- The list inside the loop is out of the reach of the others. -/
theorem Remaining.frame (h : MutexInv s (some c) stack queue)
    (hnext : ∀ d, s.op d = .waiting → s'.next d = s.next d)
    (hrem : s.Remaining bound m (s.op c)) : s'.Remaining bound m (s.op c) := by
  have hheld := h.held
  rw [HeldBy] at hheld
  cases hop : s.op c with
  | reverse next waitersHead =>
    rw [hop] at hrem hheld
    obtain ⟨rest, hrest, hm⟩ := hrem
    obtain ⟨rest', turned, hrest', -, hqueue⟩ := hheld
    obtain rfl := hrest.unique hrest'
    refine ⟨rest, hrest.congr fun d hd => hnext d ((h.waiting d).mpr ?_), hm⟩
    rw [hqueue]
    simp [hd]
  | unlock | release | exchange | pop _ | resume _ => rw [hop] at hrem; exact hrem
  | idle | load | take | store _ | push _ | waiting | holding | failed =>
    rw [hop] at hrem
    exact hrem.elim

/-! ## 2. The accesses of `unlock` -/

/-- Each access is possible, and lets the lock go or leaves fewer of them. -/
theorem unlock_step (h : MutexInv s (some c) stack queue) (hbound : s.arrived.length ≤ bound)
    (hrem : s.Remaining bound m (s.op c)) (fail : Bool) :
    ∃ s', s.stepOf c fail = some s' ∧ (s'.unlocked = s.unlocked + 1 ∨
      s'.unlocked = s.unlocked ∧ ∃ m', s'.Remaining bound m' (s'.op c) ∧ m' + 1 ≤ m) := by
  have hself : ∀ {x}, Function.update s.op c x c = x := Function.update_self ..
  have hheld := h.held
  rw [HeldBy] at hheld
  unfold stepOf
  cases hop : s.op c with
  | idle | load | take | store _ | push _ | waiting | holding | failed =>
    rw [hop] at hrem
    exact hrem.elim
  | unlock =>
    rw [hop] at hrem
    change bound + 5 ≤ m at hrem
    have hlocked : s.state ≠ .not_locked := fun hx => by cases h.not_locked_iff.mp hx
    dsimp only
    rw [if_neg hlocked]
    cases s.waiters with
    | none =>
      refine ⟨_, rfl, Or.inr ⟨rfl, bound + 4, ?_, by omega⟩⟩
      show Remaining _ bound (bound + 4) (Function.update s.op c _ c)
      rw [hself]
      exact Nat.le_refl _
    | some waitersHead =>
      refine ⟨_, rfl, Or.inr ⟨rfl, 2, ?_, by omega⟩⟩
      show Remaining _ bound 2 (Function.update s.op c _ c)
      rw [hself]
      exact Nat.le_refl _
  | release =>
    rw [hop] at hrem
    change bound + 4 ≤ m at hrem
    dsimp only
    split
    · exact ⟨_, rfl, Or.inl rfl⟩
    · refine ⟨_, rfl, Or.inr ⟨rfl, bound + 3, ?_, by omega⟩⟩
      show Remaining _ bound (bound + 3) (Function.update s.op c _ c)
      rw [hself]
      exact Nat.le_refl _
  | exchange =>
    rw [hop] at hrem
    change bound + 3 ≤ m at hrem
    obtain ⟨next, hstate, -⟩ := h.exchange hop
    obtain ⟨waiter, hword, hchain⟩ := h.stacked
    obtain rfl := State.locked.inj (hword.symm.trans hstate)
    have hlength : stack.length ≤ s.arrived.length := by
      rw [← h.order, List.length_append, List.length_reverse]
      exact Nat.le_add_left _ _
    dsimp only
    rw [hstate]
    refine ⟨_, rfl, Or.inr ⟨rfl, stack.length + 2, ?_, by omega⟩⟩
    show Remaining _ bound _ (Function.update s.op c _ c)
    rw [hself]
    exact ⟨stack, hchain, Nat.le_refl _⟩
  | reverse next waitersHead =>
    rw [hop] at hrem hheld
    obtain ⟨rest, hrest, hm⟩ := hrem
    obtain ⟨rest', turned, hrest', -, hqueue⟩ := hheld
    obtain rfl := hrest.unique hrest'
    obtain ⟨rest, rfl, hnext⟩ := hrest.of_some
    have hnd := h.nodup
    rw [hqueue, List.nodup_append, List.nodup_append, List.nodup_reverse,
      List.nodup_cons] at hnd
    have hout : next ∉ rest := hnd.2.1.1.1
    dsimp only
    cases htemp : s.next next with
    | none =>
      refine ⟨_, rfl, Or.inr ⟨rfl, 2, ?_, ?_⟩⟩
      · show Remaining _ bound 2 (Function.update s.op c _ c)
        rw [hself]
        exact Nat.le_refl _
      · rw [List.length_cons] at hm
        omega
    | some temp =>
      rw [htemp] at hnext
      refine ⟨_, rfl, Or.inr ⟨rfl, rest.length + 2, ?_, ?_⟩⟩
      · show Remaining _ bound _ (Function.update s.op c _ c)
        rw [hself]
        exact ⟨rest, hnext.update hout, Nat.le_refl _⟩
      · rw [List.length_cons] at hm
        omega
  | pop waitersHead =>
    rw [hop] at hrem
    change 2 ≤ m at hrem
    refine ⟨_, rfl, Or.inr ⟨rfl, 1, ?_, by omega⟩⟩
    show Remaining _ bound 1 (Function.update s.op c _ c)
    rw [hself]
    exact Nat.le_refl _
  | resume waitersHead => exact ⟨_, rfl, Or.inl rfl⟩

/-! ## 3. Every run -/

/-- What is left of the call of `c` that began with `unlocked` calls behind it. -/
structure Unlocking (c : C) (bound unlocked m : ℕ) (s : AsyncMutex C) : Prop where
  inv : ∃ stack queue, MutexInv s (some c) stack queue
  unlocked : s.unlocked = unlocked
  remaining : s.Remaining bound m (s.op c)

/-- The lock was let go, or the bound is no longer one. -/
structure Unlocked (bound unlocked : ℕ) (s : AsyncMutex C) : Prop where
  inv : ∃ owner stack queue, MutexInv s owner stack queue
  done : unlocked < s.unlocked ∨ bound < s.arrived.length

omit [DecidableEq C] in
theorem Grows.arrived_length (h : s.Grows s') : s.arrived.length ≤ s'.arrived.length :=
  h.1.length_le

theorem Unlocked.step {unlocked : ℕ} {l : Label C} (h : Unlocked bound unlocked s)
    (hs : s.step l = some s') : Unlocked bound unlocked s' := by
  obtain ⟨⟨_, _, _, hinv⟩, hdone⟩ := h
  obtain ⟨hinv', hgrows⟩ := hinv.step hs
  refine ⟨hinv', hdone.imp ?_ ?_⟩
  · exact fun hlt => Nat.lt_of_lt_of_le hlt hgrows.2
  · exact fun hlt => Nat.lt_of_lt_of_le hlt hgrows.arrived_length

omit [DecidableEq C] in
theorem Remaining.unlocking {op : Operation C} (h : s.Remaining bound m op) :
    op.unlocking = true := by
  cases op with
  | unlock | release | exchange | reverse _ _ | pop _ | resume _ => rfl
  | idle | load | take | store _ | push _ | waiting | holding | failed => exact h.elim

omit [DecidableEq C] in
theorem Operation.owns_of_unlocking {op : Operation C} (h : op.unlocking = true) :
    op.owns = true := by
  cases op with
  | unlock | release | exchange | reverse _ _ | pop _ | resume _ => rfl
  | idle | load | take | store _ | push _ | waiting | holding | failed => cases h

theorem Unlocking.step {unlocked : ℕ} {l : Label C} (h : Unlocking c bound unlocked m s)
    (hs : s.step l = some s') : Unlocked bound unlocked s' ∨
      ∃ m', Unlocking c bound unlocked m' s' ∧ m' + (if l.isStepOf c then 1 else 0) ≤ m := by
  obtain ⟨⟨stack, queue, hinv⟩, rfl, hrem⟩ := h
  obtain ⟨⟨owner, stack', queue', hinv'⟩, hgrows⟩ := hinv.step hs
  by_cases hbound : bound < s'.arrived.length
  · exact Or.inl ⟨⟨_, _, _, hinv'⟩, Or.inr hbound⟩
  have hlength : s.arrived.length ≤ bound :=
    Nat.le_trans hgrows.arrived_length (Nat.le_of_not_lt hbound)
  -- Where `c` still has accesses left, it is the owner.
  have hstill : ∀ {m'}, s'.unlocked = s.unlocked → s'.Remaining bound m' (s'.op c) →
      Unlocking c bound s.unlocked m' s' := by
    intro m' hunlocked hrem'
    obtain rfl := hinv'.owner_eq (Operation.owns_of_unlocking hrem'.unlocking)
    exact ⟨⟨_, _, hinv'⟩, hunlocked, hrem'⟩
  cases hl : l.isStepOf c with
  | false =>
    obtain ⟨hop, hunlocked, hnext⟩ := unlock_frame hinv hrem.unlocking hl hs
    refine Or.inr ⟨m, hstill hunlocked ?_, Nat.le_refl _⟩
    rw [hop]
    exact hrem.frame hinv hnext
  | true =>
    cases l with
    | try_lock _ | lock _ | unlock _ | move _ _ => cases hl
    | step d fail =>
      obtain rfl : d = c := of_decide_eq_true hl
      obtain ⟨s'', hs'', hcases⟩ := unlock_step hinv hlength hrem fail
      obtain rfl := Option.some.inj (hs''.symm.trans hs)
      rcases hcases with hdone | ⟨hunlocked, m', hrem', hm⟩
      · exact Or.inl ⟨⟨_, _, _, hinv'⟩, Or.inl (hdone ▸ Nat.lt_succ_self _)⟩
      · exact Or.inr ⟨m', hstill hunlocked hrem', hm⟩

/-- **`unlock` lets the lock go.** From the moment a coroutine entered `unlock`, and in every state
    reached before it has released the lock or resumed a waiter, its next access is possible; and
    it has done one of the two once it has taken more accesses than five and one for each arrival so
    far, however the accesses of the others are interleaved. -/
theorem unlock_lets_go (hr : machine.Reaches init s) (hc : s.op c = .unlock)
    {ls : List (Label C)} (hrun : machine.exec s ls = some s') :
    (s.unlocked < s'.unlocked ∨ ∀ fail, (s'.step (.step c fail)).isSome = true) ∧
      (s'.arrived.length + 5 < ls.countP (Label.isStepOf c) → s.unlocked < s'.unlocked) := by
  obtain ⟨owner, stack, queue, h⟩ := mutexInv_reaches hr
  obtain rfl := h.owner_eq (c := c) (by rw [hc]; rfl)
  have hstart : Unlocking c s'.arrived.length s.unlocked (s'.arrived.length + 5) s := by
    refine ⟨⟨_, _, h⟩, rfl, ?_⟩
    rw [hc]
    exact Nat.le_refl _
  constructor
  · have hend : Unlocked s'.arrived.length s.unlocked s' ∨
        ∃ m, Unlocking c s'.arrived.length s.unlocked m s' := by
      refine Machine.exec_preserves (M := machine) (I := fun b =>
        Unlocked s'.arrived.length s.unlocked b ∨
          ∃ m, Unlocking c s'.arrived.length s.unlocked m b) ?_ (Or.inr ⟨_, hstart⟩) hrun
      rintro a l b (ha | ⟨m, ha⟩) hs
      · exact Or.inl (ha.step hs)
      · exact (ha.step hs).imp id fun ⟨m', hb, _⟩ => ⟨m', hb⟩
    rcases hend with hdone | ⟨m, hunlocking⟩
    · exact Or.inl (hdone.done.resolve_right (Nat.lt_irrefl _))
    · refine Or.inr fun fail => ?_
      obtain ⟨⟨_, _, hinv⟩, -, hrem⟩ := hunlocking
      obtain ⟨s'', hs'', -⟩ := unlock_step hinv (Nat.le_refl _) hrem fail
      exact Option.isSome_iff_exists.mpr ⟨s'', hs''⟩
  · intro hcount
    have hdone := Machine.exec_finishes (M := machine) (p := Label.isStepOf c)
      (I := fun m b => Unlocking c s'.arrived.length s.unlocked m b)
      (D := Unlocked s'.arrived.length s.unlocked) Unlocking.step Unlocked.step hstart hrun hcount
    exact hdone.done.resolve_right (Nat.lt_irrefl _)

/-- A coroutine pushes itself between two accesses of the one that unlocks, and is resumed. -/
theorem unlock_lets_go_pushed :
    ∃ s s' : AsyncMutex (Fin 2),
      (s.unlocked < s'.unlocked ∨ ∀ fail, (s'.step (.step 0 fail)).isSome = true) ∧
        s.op 0 = .unlock ∧ s'.op 1 = .holding := by
  have hr := Machine.reaches_of_exec (M := machine) (s := (init : AsyncMutex (Fin 2)))
    [.try_lock 0, .lock 1, .step 1 false, .step 1 false, .unlock 0] rfl
  have hgone := @unlock_lets_go (Fin 2) _ _ _ 0 hr rfl
    [.step 0 false, .step 1 false, .step 0 false, .step 0 false, .step 0 false, .step 0 false,
      .step 0 false] rfl
  exact ⟨_, _, hgone.1, rfl, rfl⟩

end AsyncMutex
end Ice
