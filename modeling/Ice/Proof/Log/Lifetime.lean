import Ice.Proof.Log.Order

/-!
# What a synchronous call lends

The synchronous coroutine holds references: to the entry, a temporary that ends with the full
expression `g_logger.queue({...}, completed, cv);`, and to `completed` and `cv`, which end
with the caller's block. It uses them on the logger's thread, after its first suspension, and
that suspension is what brings the caller back to the end of the expression: nothing makes
the caller wait there. In the block it waits for `completed`, which is stored one step before
`cv` is used for the last time.

* a sink reads an entry that has ended, and `cv` is notified after its end, in one run
  (`lent_objects_ended`);
* **these two orders are all that can go wrong**: where a sink reads an entry while its caller is
  still inside of the expression, and a caller leaves its block after the notify, no access of the
  coroutine is to an object that has ended (`lent_objects_exist`).
-/

set_option autoImplicit false

namespace Ice
namespace Log

open Lib

variable {X : Type*}

/-- Inside of `g_logger.queue(...)`, up to the end of its full expression. -/
def At.calling : At → Bool
  | .post | .ended => true
  | _ => false

section Condition

variable [DecidableEq X]

/-- The condition on a step: a sink reads the entry of a synchronous call while the caller is inside
    of the full expression, and a caller ends its block after the notify. -/
def EndsInTime (s : Log X) : Label X → Prop
  | .read => ∀ k ∈ s.handling, (s.call k).sync = true →
      s.id k.1 = k ∧ (s.at_ k.1).calling = true
  | .call t => s.at_ t = .leave → (s.call (s.id t)).stage = .finished
  | _ => True

instance (s : Log X) : (l : Label X) → Decidable (EndsInTime s l)
  | .read => inferInstanceAs (Decidable (∀ k ∈ s.handling, (s.call k).sync = true →
      s.id k.1 = k ∧ (s.at_ k.1).calling = true))
  | .call _ => inferInstanceAs (Decidable (_ → _))
  | .queue _ | .count _ | .limit _ | .wake _ | .setLimit _ | .stop _ | .run | .spurious
  | .handle => inferInstanceAs (Decidable True)

end Condition

/-- Where the expression has not ended, the entry exists. -/
def Temporary (p : At) (c : Call) : Prop := p.calling = true → c.sync = true → c.entry = true

theorem temporary_of_away {p : At} {c : Call} (hp : p.calling = false) : Temporary p c := by
  intro h
  rw [hp] at h
  cases h

/-- What the coroutine has yet to store and notify exists. -/
def Call.Lends (c : Call) : Prop := c.sync = true → c.stage ≠ .finished → c.frame = true

/-- All that is lent exists, and nothing was used after its end. -/
structure Lent (s : Log X) : Prop where
  entry : ∀ t, Temporary (s.at_ t) (s.call (s.id t))
  lends : ∀ k, (s.call k).Lends
  dangling : s.dangling = []

theorem touch_of_exists {s : Log X} {k : Id X} {o : Object} {b : Bool} (hb : b = true) :
    (s.touch k o b).dangling = s.dangling := by
  rw [touch_dangling, if_pos hb]

variable [DecidableEq X] {s s' : Log X}

/-- A step that rewrites one call, and what it lends. -/
theorem lends_set {k : Id X} {c : Call} (h : ∀ k, (s.call k).Lends) (hc : c.Lends) :
    ∀ j, (Function.update s.call k c j).Lends :=
  (Function.forall_update_iff s.call fun _ c => Call.Lends c).mpr ⟨hc, fun j _ => h j⟩

theorem temporary_step {l : Label X} (h : Lent s) (hi : Inv s) (hs : Step s l s') :
    ∀ t, Temporary (s'.at_ t) (s'.call (s'.id t)) := by
  cases hs with
  | queue => exact pairs_begin h.entry fun _ _ => temporary_of_away rfl
  | counted | limited | woken | wake | stop | stopped | join =>
    exact pairs_move h.entry (temporary_of_away rfl)
  | countLast | limitLast | check =>
    refine pairs_move h.entry (temporary_of_away ?_)
    split <;> rfl
  | @add t _ ht =>
    refine pairs_move h.entry fun _ hsync => ?_
    rw [(hi.callers.early t (by rw [ht]; rfl)).2] at hsync
    cases hsync
  | lock => exact pairs_move_set h.entry fun _ _ => rfl
  | push => exact pairs_set h.entry fun u hu => hu ▸ h.entry u
  | @posted t _ ht =>
    exact pairs_move h.entry fun _ => h.entry t (by rw [ht]; rfl)
  | ended | block | leave => exact pairs_move_set h.entry (temporary_of_away rfl)
  | resume | printed | sub | store | notify => exact pairs_set h.entry fun u hu => hu ▸ h.entry u
  | setLimit | stored | run | spurious | read => exact h.entry

theorem Lent.step {l : Label X} (h : Lent s) (hi : Inv s) (hq : EndsInTime s l)
    (hs : Step s l s') : Lent s' := by
  have hentry := temporary_step h hi hs
  cases hs with
  | queue | counted | limited | countLast | limitLast | add | posted | check | woken | wake
  | setLimit | stop | stored | stopped | join | run | spurious =>
    exact ⟨hentry, h.lends, h.dangling⟩
  | lock => exact ⟨hentry, lends_set h.lends fun _ _ => rfl, h.dangling⟩
  | @push t ctx k ht hp =>
    obtain ⟨-, rfl, hfresh⟩ := hi.callers.pushing t k hp
    refine ⟨hentry, lends_set h.lends fun hsync _ => h.lends (s.id t) hsync ?_, h.dangling⟩
    rw [hfresh]
    exact Stage.noConfusion
  | ended | block => exact ⟨hentry, lends_set h.lends (h.lends _), h.dangling⟩
  | @leave t ht =>
    exact ⟨hentry, lends_set h.lends fun _ hne => absurd (hq ht) hne, h.dangling⟩
  | @resume ctx head rest hh hd hc =>
    -- The entry has waited for the logger.
    have hqueued : (s.call head.2).stage = .queued := by
      apply hi.nodes
      rw [(ctx_run hc).2, head_of_drain hd]
      exact List.mem_cons_self
    refine ⟨hentry, lends_set h.lends fun hsync _ => h.lends head.2 hsync ?_, h.dangling⟩
    rw [hqueued]
    exact Stage.noConfusion
  | @read k hh hst =>
    refine ⟨hentry, h.lends, (touch_of_exists ?_).trans h.dangling⟩
    cases hsync : (s.call k).sync with
    | false => simp
    | true =>
      obtain ⟨hid, hcalling⟩ := hq k hh hsync
      have hexists := h.entry k.1 hcalling
      rw [hid] at hexists
      rw [hexists hsync]
      rfl
  | @printed k hh _ hst =>
    refine ⟨hentry, lends_set h.lends fun hsync _ => h.lends k hsync ?_, h.dangling⟩
    rw [hst]
    exact Stage.noConfusion
  | sub hh hst hk =>
    refine ⟨hentry, lends_set h.lends fun hsync => ?_, h.dangling⟩
    exact absurd hsync (by simp [hk])
  | @store k hh hst hk =>
    have hframe := h.lends k hk (by rw [hst]; exact Stage.noConfusion)
    exact ⟨hentry, lends_set h.lends fun _ _ => hframe, (touch_of_exists hframe).trans h.dangling⟩
  | @notify k hh hst hk =>
    have hframe := h.lends k hk (by rw [hst]; exact Stage.noConfusion)
    exact ⟨hentry, lends_set h.lends fun _ hne => absurd rfl hne,
      (touch_of_exists hframe).trans h.dangling⟩

end Log
end Ice
