import Mathlib.Logic.Relation
import Mathlib.Logic.Function.Basic

/-!
# Machines: atomic steps, runs, and the one induction over runs

A concurrent program is modelled as a *partial step function*: a label names which party
takes its next atomic step (and resolves what the environment is free to choose), and the
step answers `none` where that label is not enabled. Because the step is a function, a
schedule is a list of labels and `exec` replays it; because runs are its reflexive
transitive closure, an invariant is proved once per label and holds along every
interleaving.

`ReachesBy Q` is the closure restricted to steps that meet a condition `Q` on the state
*before* the step and the label taken. A property that fails in general, but holds of every
run that avoids one named step, is stated over it. `RunsBy Q` keeps the schedule as well, for
what is said about the run one party sees of it.
-/

namespace Ice
namespace Lib

/-- What one party's entry can be after the entry of `t` was written. -/
theorem update_cases {ι β : Type*} [DecidableEq ι] {f : ι → β} {t u : ι} {x y : β}
    (h : Function.update f t x u = y) : u = t ∧ x = y ∨ u ≠ t ∧ f u = y := by
  by_cases hu : u = t
  · subst hu
    rw [Function.update_self] at h
    exact Or.inl ⟨rfl, h⟩
  · rw [Function.update_of_ne hu] at h
    exact Or.inr ⟨hu, h⟩

/-- Entries that are related stay so where both are written. -/
theorem update_rel {ι β γ : Type*} [DecidableEq ι] {R : β → γ → Prop} {f : ι → β} {g : ι → γ}
    {t : ι} {x : β} {y : γ} (h : ∀ u, R (f u) (g u)) (hxy : R x y) (u : ι) :
    R (Function.update f t x u) (Function.update g t y u) := by
  by_cases hu : u = t
  · subst hu
    rw [Function.update_self, Function.update_self]
    exact hxy
  · rw [Function.update_of_ne hu, Function.update_of_ne hu]
    exact h u

theorem rel_of_some {β γ : Type*} {R : β → γ → Prop} {x : Option β} {y : Option γ} {b : β}
    (h : Option.Rel R x y) (hx : x = some b) : ∃ c, y = some c ∧ R b c := by
  cases h with
  | none => cases hx
  | some hr =>
    cases hx
    exact ⟨_, rfl, hr⟩

theorem rel_of_none {β γ : Type*} {R : β → γ → Prop} {x : Option β} {y : Option γ}
    (h : Option.Rel R x y) (hx : x = none) : y = none := by
  cases h with
  | none => rfl
  | some hr => cases hx

/-- One atomic step per label; `none` where the label is not enabled. -/
structure Machine (σ ℓ : Type*) where
  step : σ → ℓ → Option σ

namespace Machine

variable {σ ℓ : Type*} (M : Machine σ ℓ)

/-- A step of the machine that meets `Q`. -/
def StepBy (Q : σ → ℓ → Prop) (s s' : σ) : Prop := ∃ l, Q s l ∧ M.step s l = some s'

/-- `s'` is reached from `s` by steps that all meet `Q`. -/
def ReachesBy (Q : σ → ℓ → Prop) : σ → σ → Prop := Relation.ReflTransGen (M.StepBy Q)

/-- `s'` is reached from `s` by some interleaving. -/
abbrev Reaches : σ → σ → Prop := M.ReachesBy fun _ _ => True

/-- `s'` is reached from `s` by a schedule whose steps all meet `Q`. -/
def RunsBy (Q : σ → ℓ → Prop) : σ → List ℓ → σ → Prop
  | s, [], s' => s' = s
  | s, l :: ls, s' => Q s l ∧ ∃ a, M.step s l = some a ∧ RunsBy Q a ls s'

/-- Replay a schedule. -/
def exec : σ → List ℓ → Option σ
  | s, [] => some s
  | s, l :: ls => (M.step s l).bind fun s' => exec s' ls

/-- Replay a schedule as far as its steps meet `Q`. -/
def execBy (Q : σ → ℓ → Prop) [∀ s l, Decidable (Q s l)] : σ → List ℓ → Option σ
  | s, [] => some s
  | s, l :: ls => if Q s l then (M.step s l).bind fun s' => execBy Q s' ls else none

variable {M}

/-- **The invariant rule.** What every step meeting `Q` preserves holds at the end of every
    run of such steps. -/
theorem ReachesBy.preserves {Q : σ → ℓ → Prop} {I : σ → Prop} {s s' : σ}
    (hr : M.ReachesBy Q s s')
    (hstep : ∀ {a l b}, I a → Q a l → M.step a l = some b → I b) (hs : I s) : I s' := by
  induction hr with
  | refl => exact hs
  | tail _ hlast ih =>
    obtain ⟨l, hq, hl⟩ := hlast
    exact hstep ih hq hl

/-- The condition on the steps may be forgotten. -/
theorem ReachesBy.reaches {Q : σ → ℓ → Prop} {s s' : σ} (hr : M.ReachesBy Q s s') :
    M.Reaches s s' := by
  refine hr.preserves (I := M.Reaches s) (fun ha _ hl => ?_) Relation.ReflTransGen.refl
  exact Relation.ReflTransGen.tail ha ⟨_, trivial, hl⟩

@[simp] theorem exec_nil {s : σ} : M.exec s [] = some s := rfl

theorem exec_cons {s : σ} {l : ℓ} {ls : List ℓ} :
    M.exec s (l :: ls) = (M.step s l).bind fun s' => M.exec s' ls := rfl

theorem exec_cons_some {s s' : σ} {l : ℓ} {ls : List ℓ} :
    M.exec s (l :: ls) = some s' ↔ ∃ a, M.step s l = some a ∧ M.exec a ls = some s' := by
  rw [exec_cons, Option.bind_eq_some_iff]

/-- What a replayed schedule ends in is reached. -/
theorem reaches_of_exec {s s' : σ} (ls : List ℓ) (h : M.exec s ls = some s') :
    M.Reaches s s' := by
  induction ls generalizing s with
  | nil =>
    rw [exec_nil, Option.some.injEq] at h
    exact h ▸ Relation.ReflTransGen.refl
  | cons l ls ih =>
    obtain ⟨a, hl, hls⟩ := exec_cons_some.mp h
    exact Relation.ReflTransGen.head ⟨l, trivial, hl⟩ (ih hls)

/-- What a schedule replayed under `Q` ends in is reached by steps that meet `Q`. -/
theorem reachesBy_of_execBy {Q : σ → ℓ → Prop} [∀ s l, Decidable (Q s l)] {s s' : σ}
    (ls : List ℓ) (h : M.execBy Q s ls = some s') : M.ReachesBy Q s s' := by
  induction ls generalizing s with
  | nil =>
    rw [execBy, Option.some.injEq] at h
    exact h ▸ Relation.ReflTransGen.refl
  | cons l ls ih =>
    rw [execBy] at h
    split at h
    · rename_i hq
      obtain ⟨a, hl, hls⟩ := Option.bind_eq_some_iff.mp h
      exact Relation.ReflTransGen.head ⟨l, hq, hl⟩ (ih hls)
    · cases h

theorem exec_append {s : σ} {ls ls' : List ℓ} :
    M.exec s (ls ++ ls') = (M.exec s ls).bind fun a => M.exec a ls' := by
  induction ls generalizing s with
  | nil => rfl
  | cons l ls ih =>
    rw [List.cons_append, exec_cons, exec_cons, Option.bind_assoc]
    exact congrArg _ (funext fun a => ih)

/-- A schedule replayed under `Q` is a run whose steps meet `Q`. -/
theorem runsBy_of_execBy {Q : σ → ℓ → Prop} [∀ s l, Decidable (Q s l)] {s s' : σ}
    (ls : List ℓ) (h : M.execBy Q s ls = some s') : M.RunsBy Q s ls s' := by
  induction ls generalizing s with
  | nil => exact (Option.some.inj h).symm
  | cons l ls ih =>
    rw [execBy] at h
    split at h
    · rename_i hq
      obtain ⟨a, hl, hls⟩ := Option.bind_eq_some_iff.mp h
      exact ⟨hq, a, hl, ih hls⟩
    · cases h

/-- Any replayed schedule is a run. -/
theorem runsBy_of_exec {s s' : σ} (ls : List ℓ) (h : M.exec s ls = some s') :
    M.RunsBy (fun _ _ => True) s ls s' := by
  induction ls generalizing s with
  | nil => exact (Option.some.inj h).symm
  | cons l ls ih =>
    obtain ⟨a, hl, hls⟩ := exec_cons_some.mp h
    exact ⟨trivial, a, hl, ih hls⟩

/-- The schedule of a run may be forgotten. -/
theorem RunsBy.reachesBy {Q : σ → ℓ → Prop} {ls : List ℓ} {s s' : σ} (hr : M.RunsBy Q s ls s') :
    M.ReachesBy Q s s' := by
  induction ls generalizing s with
  | nil => exact hr ▸ Relation.ReflTransGen.refl
  | cons l ls ih =>
    obtain ⟨hq, a, hl, hls⟩ := hr
    exact Relation.ReflTransGen.head ⟨l, hq, hl⟩ (ih hls)

/-- **The projection rule.** `f` says what a label of `M` is to an observer: a label of `N`,
    or nothing. Where each step that meets `Q` is answered by what the observer sees of it,
    and `R` relates the two states again, the observer's labels of a whole run are a run. -/
theorem RunsBy.project {τ κ : Type*} {N : Machine τ κ} {Q : σ → ℓ → Prop} {R : σ → τ → Prop}
    {f : ℓ → Option κ}
    (hstep : ∀ {a t l b}, R a t → Q a l → M.step a l = some b →
      ∃ u, N.exec t (f l).toList = some u ∧ R b u)
    {ls : List ℓ} {s s' : σ} {t : τ} (hr : M.RunsBy Q s ls s') (h : R s t) :
    ∃ u, N.exec t (ls.filterMap f) = some u ∧ R s' u := by
  induction ls generalizing s t with
  | nil => exact ⟨t, rfl, hr ▸ h⟩
  | cons l ls ih =>
    obtain ⟨hq, a, hl, hls⟩ := hr
    obtain ⟨u, hu, ha⟩ := hstep h hq hl
    obtain ⟨v, hv, hb⟩ := ih hls ha
    refine ⟨v, ?_, hb⟩
    have hcons : (l :: ls).filterMap f = (f l).toList ++ ls.filterMap f := by
      cases hf : f l <;> simp [hf]
    rw [hcons, exec_append, hu]
    exact hv

/-- What every step preserves holds at the end of a replayed schedule. -/
theorem exec_preserves {I : σ → Prop} (hstep : ∀ {a l b}, I a → M.step a l = some b → I b) :
    ∀ {ls : List ℓ} {s s' : σ}, I s → M.exec s ls = some s' → I s'
  | [], _, _, hs, h => Option.some.inj h ▸ hs
  | _ :: _, _, _, hs, h =>
    let ⟨_, hl, hls⟩ := exec_cons_some.mp h
    exec_preserves hstep (hstep hs hl) hls

/-- **The round rule.** What a round of labels leads back to, however it is chosen, any number
    of rounds leads back to: a loop that none of them ends. -/
theorem exec_rounds {α : Type*} {I : σ → Prop} {round : α → List ℓ}
    (hround : ∀ {s a}, I s → ∃ s', M.exec s (round a) = some s' ∧ I s') {s : σ} (hs : I s)
    (as : List α) : ∃ s', M.exec s (as.flatMap round) = some s' ∧ I s' := by
  induction as generalizing s with
  | nil => exact ⟨s, rfl, hs⟩
  | cons a as ih =>
    obtain ⟨b, hb, hib⟩ := hround (a := a) hs
    obtain ⟨c, hc, hic⟩ := ih hib
    refine ⟨c, ?_, hic⟩
    rw [List.flatMap_cons, exec_append, hb]
    exact hc

/-- The invariant rule for a property that looks back at the labels taken. -/
theorem RunsBy.history {Q : σ → ℓ → Prop} {I : List ℓ → σ → Prop}
    (hstep : ∀ {past a l b}, I past a → Q a l → M.step a l = some b → I (past ++ [l]) b)
    {ls past : List ℓ} {s s' : σ} (hs : I past s) (h : M.RunsBy Q s ls s') :
    I (past ++ ls) s' := by
  induction ls generalizing past s with
  | nil =>
    rw [List.append_nil]
    exact h ▸ hs
  | cons l ls ih =>
    obtain ⟨hq, a, hl, hls⟩ := h
    rw [List.append_cons]
    exact ih (hstep hs hq hl) hls

theorem exec_history {I : List ℓ → σ → Prop}
    (hstep : ∀ {past a l b}, I past a → M.step a l = some b → I (past ++ [l]) b)
    {ls past : List ℓ} {s s' : σ} (hs : I past s) (h : M.exec s ls = some s') :
    I (past ++ ls) s' :=
  RunsBy.history (fun hi _ hl => hstep hi hl) hs (runsBy_of_exec ls h)

/-- **The progress rule.** `I m s` says that at most `m` labels of kind `p` are left to take:
    each of them lowers the bound and no other label raises it, unless it leads into the
    stable `D`. A schedule that holds more than `m` of them has then reached `D`, however
    they are interleaved with the others. -/
theorem exec_finishes {I : Nat → σ → Prop} {D : σ → Prop} {p : ℓ → Bool}
    (hstep : ∀ {m a l b}, I m a → M.step a l = some b →
      D b ∨ ∃ m', I m' b ∧ m' + (if p l then 1 else 0) ≤ m)
    (hstable : ∀ {a l b}, D a → M.step a l = some b → D b) :
    ∀ {ls : List ℓ} {m : Nat} {s s' : σ},
      I m s → M.exec s ls = some s' → m < ls.countP p → D s'
  | [], _, _, _, _, _, hc => absurd hc (by simp)
  | l :: ls, m, s, s', hs, h, hc => by
    obtain ⟨a, hl, hls⟩ := exec_cons_some.mp h
    rcases hstep hs hl with hd | ⟨m', ha, hm⟩
    · exact exec_preserves hstable hd hls
    · refine exec_finishes hstep hstable ha hls ?_
      rw [List.countP_cons] at hc
      omega

end Machine

end Lib
end Ice
