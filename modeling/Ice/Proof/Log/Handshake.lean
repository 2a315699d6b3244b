import Ice.Proof.Log.Order

/-!
# The handshake of a synchronous call

The caller tests `completed` under its mutex and blocks in the step that releases it. The
logger stores `completed` and notifies without that mutex, so both can fall between a test
that read false and the block, and then the notify reaches nobody (`wakeup_lost`).

* At any other position of the caller the notify is heard: before the test the store is
  seen, and a blocked caller is woken;
* **no wakeup is lost in a run where no notify falls in that gap** (`no_wakeup_lost`), and one
  is lost, by the caller's next step, where it does (`lost_of_notify_in_gap`).
-/

set_option autoImplicit false

namespace Ice
namespace Log

open Lib

variable {X : Type*}

/-- The logger is past the notify of a call whose caller is blocked and was not notified. -/
def Lost (s : Log X) (t : Thread Unit X) : Prop :=
  s.at_ t = .blocked ∧ (s.call (s.id t)).stage = .finished ∧ (s.call (s.id t)).notified = false

/-- The logger notifies next, and the caller has read false and not blocked yet. -/
def notifyInGap [DecidableEq X] (s : Log X) : Bool :=
  match s.handling with
  | some k => decide ((s.call k).stage = .stored ∧ s.at_ k.1 = .block ∧ s.id k.1 = k)
  | none => false

/-- The condition on a step: no notify falls between the caller's test and its block. -/
def NotifyOutsideGap [DecidableEq X] (s : Log X) : Label X → Prop
  | .handle => s.notifyInGap = false
  | _ => True

instance [DecidableEq X] (s : Log X) : (l : Label X) → Decidable (NotifyOutsideGap s l)
  | .handle => inferInstanceAs (Decidable (_ = _))
  | .queue _ | .count _ | .limit _ | .call _ | .wake _ | .setLimit _ | .stop _ | .run | .spurious
  | .read => inferInstanceAs (Decidable True)

/-- After the notify, the caller is not about to block, and if it is blocked, it was told. -/
def Heard (p : At) (c : Call) : Prop :=
  c.stage = .finished → p ≠ .block ∧ (p = .blocked → c.notified = true)

theorem heard_of_away {p : At} {c : Call} (hb : p ≠ .block) (hd : p ≠ .blocked) : Heard p c :=
  fun _ => ⟨hb, fun h => absurd h hd⟩

theorem heard_of_unfinished {p : At} {c : Call} (h : c.stage ≠ .finished) : Heard p c :=
  fun hf => absurd hf h

variable [DecidableEq X] {s s' : Log X}

theorem heard_step {l : Label X} (hi : Inv s) (h : ∀ t, Heard (s.at_ t) (s.call (s.id t)))
    (hq : NotifyOutsideGap s l) (hs : Step s l s') :
    ∀ t, Heard (s'.at_ t) (s'.call (s'.id t)) := by
  cases hs with
  | queue => exact pairs_begin h fun c _ => heard_of_away (by simp) (by simp)
  | counted | limited | woken | wake | stop | stopped | join =>
    exact pairs_move h (heard_of_away (by simp) (by simp))
  | countLast | limitLast | posted =>
    refine pairs_move h ?_
    split <;> exact heard_of_away (by simp) (by simp)
  | add => exact pairs_move h (heard_of_away (by simp) (by simp))
  | lock | ended | leave => exact pairs_move_set h (heard_of_away (by simp) (by simp))
  | push => exact pairs_set h fun _ _ => heard_of_unfinished (by simp)
  | @check t ht =>
    have hsync := hi.callers.late t (by rw [ht]; rfl)
    refine pairs_move h ?_
    split
    · exact heard_of_away (by simp) (by simp)
    · rename_i hc
      -- `completed` was stored before the coroutine could finish.
      apply heard_of_unfinished
      intro hf
      exact hc ((hi.done _ hsync).mpr (by rw [hf]; rfl))
  | @block t ht =>
    refine pairs_move_set h (heard_of_unfinished ?_)
    intro hf
    exact (h t hf).1 ht
  | setLimit | stored | run | spurious | read => exact h
  | resume | printed | store => exact pairs_set h fun _ _ => heard_of_unfinished (by simp)
  | @sub k hh hst hk =>
    refine pairs_set h fun u hu => heard_of_away ?_ ?_ <;>
    · intro hat
      have hsync := hi.callers.late u (by rw [hat]; rfl)
      rw [hu, hk] at hsync
      cases hsync
  | @notify k hh hst hk =>
    refine pairs_set h fun u hu _ => ⟨?_, ?_⟩
    · intro hat
      subst hu
      have hgap : s.notifyInGap = true := by
        simp only [notifyInGap, hh, decide_eq_true_eq]
        exact ⟨hst, hat, rfl⟩
      exact absurd (hgap.symm.trans hq) (by simp)
    · intro hat
      subst hu
      have hid : s.id (s.id u).1 = s.id u := rfl
      have hblocked : s.at_ (s.id u).1 = .blocked := hat
      simp [hid, hblocked]

/-- **The handshake.** In every run in which no notify falls between a caller's test of
    `completed` and its block, no caller is blocked without a notification once the logger is
    past the notify of its entry. -/
theorem no_wakeup_lost (hr : machine.ReachesBy NotifyOutsideGap (init : Log X) s)
    (t : Thread Unit X) : ¬ s.Lost t := by
  have h : Inv s ∧ ∀ t, Heard (s.at_ t) (s.call (s.id t)) :=
    hr.preserves (I := fun s => Inv s ∧ ∀ t, Heard (s.at_ t) (s.call (s.id t)))
      (fun ⟨hi, h⟩ hq hs => ⟨hi.step (step_cases hs), heard_step hi h hq (step_cases hs)⟩)
      ⟨inv_init, fun _ => heard_of_away (by simp [init]) (by simp [init])⟩
  intro hlost
  obtain ⟨hat, hstage, hnot⟩ := hlost
  rw [(h.2 t hstage).2 hat] at hnot
  cases hnot

/-- A notify in the gap is lost by the caller's next step. -/
theorem lost_of_notify_in_gap (h : s.notifyInGap = true) (hs : s.step .handle = some s') :
    ∃ t s'', s'.step (.call t) = some s'' ∧ s''.Lost t := by
  obtain ⟨k, hh, hst, hat, hid⟩ : ∃ k, s.handling = some k ∧ (s.call k).stage = .stored ∧
      s.at_ k.1 = .block ∧ s.id k.1 = k := by
    unfold notifyInGap at h
    split at h
    · rename_i k hh
      exact ⟨k, hh, of_decide_eq_true h⟩
    · cases h
  cases step_cases hs with
  | @notify j hj =>
    obtain rfl : j = k := Option.some.inj (hj.symm.trans hh)
    refine ⟨j.1, _, by simp [step, callStep, hat]; rfl, by simp, ?_, ?_⟩
    · simp only [Log.id] at hid
      simp [Log.id, hid]
    · simp [Log.id]
  | printed hj _ hst' | sub hj hst' | store hj hst' =>
    rw [hh, Option.some.injEq] at hj
    rw [← hj, hst] at hst'
    cases hst'

/-- The hypothesis is met by a run in which the caller blocks and is woken by the notify. -/
theorem no_wakeup_lost_blocked :
    let t : Thread Unit Unit := .other ()
    let schedule : List (Label Unit) :=
      [.setLimit 0, .queue t, .count t, .limit t, .call t, .call t, .call t, .call t, .call t,
        .call t, .run, .run, .run, .run, .run, .run, .handle, .handle, .handle]
    ∃ s, machine.execBy NotifyOutsideGap init schedule = some s ∧ s.at_ t = .blocked ∧
      ¬ s.Lost t := by
  intro t schedule
  have hrun : machine.execBy NotifyOutsideGap init schedule = some _ := rfl
  refine ⟨_, hrun, rfl, ?_⟩
  exact no_wakeup_lost (Machine.reachesBy_of_execBy schedule hrun) t

/-- A notify between the caller's test of `completed` and its block is lost. -/
theorem wakeup_lost :
    ∃ s : Log Unit, machine.Reaches init s ∧ s.Lost (.other ()) :=
  ⟨_, Machine.reaches_of_exec
    [.setLimit 0, .queue (.other ()), .count (.other ()), .limit (.other ()), .call (.other ()),
      .call (.other ()), .call (.other ()), .call (.other ()), .call (.other ()),
      .run, .run, .run, .run, .run, .run, .handle, .handle, .handle, .call (.other ())] rfl,
    rfl, rfl, rfl⟩

end Log
end Ice
