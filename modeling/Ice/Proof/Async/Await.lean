import Ice.Async.Await

/-!
# Awaiting an `async` is calling it

`AwaitInv` ties every call that is under way to the frame of its callee: how far the awaiter
is in `await_suspend` tells what the callee may be doing and what `m_state` and
`m_continuation` hold (`Meets`). Each frame has at most one awaiter, and was created after it.
With that, the two exchanges never miss each other, and what a frame has done so far is a path
of its body in direct style.
-/

set_option autoImplicit false

namespace Ice
namespace Coroutines

open Lib

variable {K B A R : Type*}

/-- The body has ended, and its result is stored. -/
def ended : Coroutine.Point K → Bool
  | .final | .resuming | .done => true
  | _ => false

/-- What the callee `g` is, by where its awaiter `k` stands. -/
def Meets (g : Coroutine K B A R) (k : K) : Coroutine.Point K → Prop
  | .resume _ => g.point = .created ∧ g.state = false
  | .store _ =>
    g.point ≠ .created ∧ g.point ≠ .resuming ∧ (g.state = true ↔ g.point = .done)
  | .exchange _ =>
    g.point ≠ .created ∧ g.point ≠ .resuming ∧ (g.state = true ↔ g.point = .done) ∧
      g.continuation = some k
  | .suspended _ =>
    g.point ≠ .created ∧ g.point ≠ .done ∧ g.state = true ∧ g.continuation = some k
  | .await_resume _ => g.point = .done
  | _ => False

/-- What is true of a frame by itself. -/
structure Sound (P : Program B A R) (f : Coroutine K B A R) : Prop where
  path : P.Path f.start f.answers f.body
  result : ended f.point = true → ∃ r, f.result = some r ∧ P.Eval f.start f.answers r
  task : f.task = true → ended f.point = false ∧ f.point ≠ .created
  wait : f.point = .blocked → ∃ rest, P.next f.body = .wait rest

/-- The callee of `k`, whose frame is `f`, is there and was called for what `f` awaits. -/
def Linked (P : Program B A R) (s : Coroutines K B A R) (k : K) (f : Coroutine K B A R)
    (c : K) : Prop :=
  ∃ g, s.frame c = some g ∧ g.task = false ∧ f.born < g.born ∧
    (∃ rest, P.next f.body = .co_await g.start rest) ∧ Meets g k f.point

structure AwaitInv (P : Program B A R) (s : Coroutines K B A R) : Prop where
  sound : ∀ {k f}, s.frame k = some f → Sound P f
  linked : ∀ {k f c}, s.frame k = some f → f.point.callee = some c → s.Linked P k f c
  awaited : ∀ {c g}, s.frame c = some g → g.task = false →
    ∃ k f, s.frame k = some f ∧ f.point.callee = some c
  unique : ∀ {k k' f f' c}, s.frame k = some f → s.frame k' = some f' →
    f.point.callee = some c → f'.point.callee = some c → k = k'
  born : ∀ {k f}, s.frame k = some f → f.born < s.born
  finished : ∀ e ∈ s.finished, P.Eval e.1 e.2.1 e.2.2
  ok : s.failed = false

theorem awaitInv_init {P : Program B A R} : AwaitInv P (init : Coroutines K B A R) where
  sound h := by cases h
  linked h := by cases h
  awaited h := by cases h
  unique h := by cases h
  born h := by cases h
  finished _ he := by cases he
  ok := rfl

/-! ## 1. One frame changes -/

/-- Where a coroutine stands in its own body, or in an `await_suspend` of its own, its awaiter
    does not see. -/
theorem Meets.congr {g g' : Coroutine K B A R} {k : K} {p : Coroutine.Point K}
    (h : Meets g k p) (hstate : g'.state = g.state)
    (hcontinuation : g'.continuation = g.continuation)
    (hcreated : g'.point = .created ↔ g.point = .created)
    (hresuming : g'.point = .resuming ↔ g.point = .resuming)
    (hdone : g'.point = .done ↔ g.point = .done) : Meets g' k p := by
  cases p with
  | resume c => exact ⟨hcreated.mpr h.1, hstate.trans h.2⟩
  | store c =>
    exact ⟨fun hx => h.1 (hcreated.mp hx), fun hx => h.2.1 (hresuming.mp hx), by
      rw [hstate, hdone]; exact h.2.2⟩
  | exchange c =>
    exact ⟨fun hx => h.1 (hcreated.mp hx), fun hx => h.2.1 (hresuming.mp hx), by
      rw [hstate, hdone]; exact h.2.2.1, hcontinuation.trans h.2.2.2⟩
  | suspended c =>
    exact ⟨fun hx => h.1 (hcreated.mp hx), fun hx => h.2.1 (hdone.mp hx), hstate.trans h.2.2.1,
      hcontinuation.trans h.2.2.2⟩
  | await_resume c => exact hdone.mpr h
  | created | running | blocked | final | resuming | done => exact h

/-- A coroutine that awaits is, to its own awaiter, one that runs. -/
theorem Meets.of_active {f f' : Coroutine K B A R} {j : K} {p : Coroutine.Point K}
    (h : Meets f j p) (hf : f.point.active = true) (hf' : f'.point.active = true)
    (hstate : f'.state = f.state) (hcontinuation : f'.continuation = f.continuation) :
    Meets f' j p := by
  have hnone : ∀ {q : Coroutine.Point K}, q.active = false →
      (f'.point = q ↔ f.point = q) := by
    intro q hq
    constructor
    · intro hx
      rw [hx, hq] at hf'
      cases hf'
    · intro hx
      rw [hx, hq] at hf
      cases hf
  exact h.congr hstate hcontinuation (hnone rfl) (hnone rfl) (hnone rfl)

theorem awaiting {p : Coroutine.Point K} {c : K} (hp : p.callee = some c) :
    ended p = false ∧ p ≠ .created ∧ p.active = true := by
  cases p with
  | resume _ | store _ | exchange _ | suspended _ | await_resume _ => exact ⟨rfl, nofun, rfl⟩
  | created | running | blocked | final | resuming | done => cases hp

namespace AwaitInv

variable {P : Program B A R} {s : Coroutines K B A R} {k c : K} {f f' g : Coroutine K B A R}

/-- A callee is another coroutine than its awaiter. -/
theorem ne (h : AwaitInv P s) (hk : s.frame k = some f) (hc : f.point.callee = some c) :
    c ≠ k := by
  rintro rfl
  obtain ⟨g, hg, -, hborn, -⟩ := h.linked hk hc
  obtain rfl := Option.some.inj (hk.symm.trans hg)
  exact Nat.lt_irrefl _ hborn

variable [DecidableEq K]

theorem frame_set {i : K} {x : Coroutine K B A R} (hx : (s.set k f').frame i = some x) :
    i = k ∧ x = f' ∨ i ≠ k ∧ s.frame i = some x := by
  rcases update_cases hx with ⟨hi, hx⟩ | h
  · exact Or.inl ⟨hi, (Option.some.inj hx).symm⟩
  · exact Or.inr h

/-- The frame of `k`, which awaits nobody before or after, changes. -/
theorem single (h : AwaitInv P s) (hk : s.frame k = some f) (hcallee : f.point.callee = none)
    (hcallee' : f'.point.callee = none) (hsame : f'.start = f.start ∧ f'.task = f.task ∧
      f'.born = f.born) (hsound : Sound P f')
    (hmeets : ∀ {j p}, Meets f j p → Meets f' j p) : AwaitInv P (s.set k f') := by
  obtain ⟨hstart, htask, hborn⟩ := hsame
  have hold : ∀ {i x d}, (s.set k f').frame i = some x → x.point.callee = some d →
      i ≠ k ∧ s.frame i = some x := by
    intro i x d hx hd
    rcases frame_set hx with ⟨-, rfl⟩ | hx
    · rw [hcallee'] at hd
      cases hd
    · exact hx
  refine ⟨?_, ?_, ?_, ?_, ?_, h.finished, h.ok⟩
  · intro i x hx
    rcases frame_set hx with ⟨-, rfl⟩ | ⟨-, hx⟩
    · exact hsound
    · exact h.sound hx
  · intro i x d hx hd
    obtain ⟨-, hx⟩ := hold hx hd
    obtain ⟨g, hg, hgtask, hgborn, ⟨rest, hrest⟩, hgmeets⟩ := h.linked hx hd
    by_cases hdk : d = k
    · subst hdk
      obtain rfl := Option.some.inj (hk.symm.trans hg)
      refine ⟨f', Function.update_self .., htask.trans hgtask, by rw [hborn]; exact hgborn,
        ⟨rest, by rw [hstart]; exact hrest⟩, hmeets hgmeets⟩
    · exact ⟨g, (Function.update_of_ne hdk ..).trans hg, hgtask, hgborn, ⟨rest, hrest⟩, hgmeets⟩
  · intro d g hg hgtask
    have hawaited : ∃ g', s.frame d = some g' ∧ g'.task = false := by
      rcases frame_set hg with ⟨rfl, rfl⟩ | ⟨-, hg⟩
      · exact ⟨f, hk, htask.symm.trans hgtask⟩
      · exact ⟨g, hg, hgtask⟩
    obtain ⟨g', hg', hgtask'⟩ := hawaited
    obtain ⟨i, x, hx, hd⟩ := h.awaited hg' hgtask'
    have hik : i ≠ k := by
      rintro rfl
      obtain rfl := Option.some.inj (hk.symm.trans hx)
      rw [hcallee] at hd
      cases hd
    exact ⟨i, x, (Function.update_of_ne hik ..).trans hx, hd⟩
  · intro i i' x x' d hx hx' hd hd'
    exact h.unique (hold hx hd).2 (hold hx' hd').2 hd hd'
  · intro i x hx
    rcases frame_set hx with ⟨-, rfl⟩ | ⟨-, hx⟩
    · rw [hborn]
      exact h.born hk
    · exact h.born hx

/-! ## 2. An awaiter and its callee change together -/

theorem frame_pair {i : K} {x g' : Coroutine K B A R}
    (hx : ((s.set k f').set c g').frame i = some x) :
    i = c ∧ x = g' ∨ i ≠ c ∧ i = k ∧ x = f' ∨ i ≠ c ∧ i ≠ k ∧ s.frame i = some x := by
  rcases frame_set hx with h | ⟨hic, hx⟩
  · exact Or.inl h
  · rcases frame_set hx with ⟨hik, hx⟩ | ⟨hik, hx⟩
    · exact Or.inr (Or.inl ⟨hic, hik, hx⟩)
    · exact Or.inr (Or.inr ⟨hic, hik, hx⟩)

/-- `k` moves on inside its `await_suspend`, where it may write to the promise of its callee,
    resume it, or be resumed by it. -/
theorem pair (h : AwaitInv P s) (hk : s.frame k = some f) (hf : f.point.callee = some c)
    (hc : s.frame c = some g) {p q : Coroutine.Point K} {b : Bool} {t : Option K}
    (hp : p.callee = some c)
    (hq : q = g.point ∨ q.callee = none ∧ g.point.callee = none ∧ q ≠ .blocked)
    (hended : ended q = ended g.point) (hcreated : q ≠ .created)
    (hmeets : Meets { g with point := q, state := b, continuation := t } k p) :
    AwaitInv P ((s.set k { f with point := p }).set c
      { g with point := q, state := b, continuation := t }) := by
  have hck : c ≠ k := h.ne hk hf
  have hqcallee : q.callee = g.point.callee := by
    rcases hq with rfl | ⟨hq, hg, -⟩
    · rfl
    · rw [hq, hg]
  obtain ⟨g₀, hg₀, hgtask, hgborn, hgcall, -⟩ := h.linked hk hf
  obtain rfl := Option.some.inj (hc.symm.trans hg₀)
  -- Who awaits whom is as before.
  have hold : ∀ {i x}, ((s.set k { f with point := p }).set c
      { g with point := q, state := b, continuation := t }).frame i = some x →
        ∃ y, s.frame i = some y ∧ x.point.callee = y.point.callee ∧ x.born = y.born ∧
          x.task = y.task := by
    intro i x hx
    rcases frame_pair hx with ⟨rfl, rfl⟩ | ⟨-, rfl, rfl⟩ | ⟨-, -, hx⟩
    · exact ⟨g, hc, hqcallee, rfl, rfl⟩
    · exact ⟨f, hk, hp.trans hf.symm, rfl, rfl⟩
    · exact ⟨x, hx, rfl, rfl, rfl⟩
  refine ⟨?_, ?_, ?_, ?_, ?_, h.finished, h.ok⟩
  · intro i x hx
    rcases frame_pair hx with ⟨rfl, rfl⟩ | ⟨-, rfl, rfl⟩ | ⟨-, -, hx⟩
    · have hs := h.sound hc
      refine ⟨hs.path, fun he => hs.result (hended ▸ he),
        fun ht => ⟨hended.trans (hs.task ht).1, hcreated⟩, fun hb => hs.wait ?_⟩
      rcases hq with hq | ⟨-, -, hq⟩
      · exact hq.symm.trans hb
      · exact absurd hb hq
    · have hs := h.sound hk
      obtain ⟨hpe, hpc, -⟩ := awaiting hp
      refine ⟨hs.path, fun he => ?_, fun _ => ⟨hpe, hpc⟩, fun hb => ?_⟩
      · rw [hpe] at he
        cases he
      · rw [show p = .blocked from hb] at hp
        cases hp
    · exact h.sound hx
  · intro i x d hx hd
    rcases frame_pair hx with ⟨rfl, rfl⟩ | ⟨-, rfl, rfl⟩ | ⟨hic, hik, hx⟩
    · -- The callee awaits somebody itself, and is where it was.
      have hgd : g.point.callee = some d := hqcallee ▸ hd
      obtain rfl : q = g.point := by
        rcases hq with hq | ⟨-, hg, -⟩
        · exact hq
        · rw [hg] at hgd
          cases hgd
      obtain ⟨y, hy, hytask, hyborn, hycall, hymeets⟩ := h.linked hc hgd
      have hdk : d ≠ k := by
        rintro rfl
        obtain rfl := Option.some.inj (hk.symm.trans hy)
        exact Nat.lt_asymm hgborn hyborn
      refine ⟨y, ?_, hytask, hyborn, hycall, hymeets⟩
      exact (Function.update_of_ne (h.ne hc hgd) ..).trans ((Function.update_of_ne hdk ..).trans hy)
    · obtain rfl := Option.some.inj (hp.symm.trans hd)
      exact ⟨_, Function.update_self .., hgtask, hgborn, hgcall, hmeets⟩
    · obtain ⟨y, hy, hytask, hyborn, hycall, hymeets⟩ := h.linked hx hd
      have hdc : d ≠ c := fun hdc => hik (h.unique hx hk (hdc ▸ hd) hf)
      by_cases hdk : d = k
      · subst hdk
        obtain rfl := Option.some.inj (hk.symm.trans hy)
        refine ⟨{ f with point := p }, ?_, hytask, hyborn, hycall, ?_⟩
        · exact (Function.update_of_ne hdc ..).trans (Function.update_self ..)
        · exact hymeets.of_active (awaiting hf).2.2 (awaiting hp).2.2 rfl rfl
      · refine ⟨y, ?_, hytask, hyborn, hycall, hymeets⟩
        exact (Function.update_of_ne hdc ..).trans ((Function.update_of_ne hdk ..).trans hy)
  · intro d x hx hxtask
    obtain ⟨y, hy, -, -, hytask⟩ := hold hx
    obtain ⟨i, z, hz, hd⟩ := h.awaited hy (hytask ▸ hxtask)
    by_cases hic : i = c
    · subst hic
      obtain rfl := Option.some.inj (hc.symm.trans hz)
      exact ⟨i, _, Function.update_self .., hqcallee.trans hd⟩
    · by_cases hik : i = k
      · subst hik
        obtain rfl := Option.some.inj (hk.symm.trans hz)
        exact ⟨i, _, (Function.update_of_ne hic ..).trans (Function.update_self ..),
          hp.trans (hf.symm.trans hd)⟩
      · exact ⟨i, z, (Function.update_of_ne hic ..).trans
          ((Function.update_of_ne hik ..).trans hz), hd⟩
  · intro i i' x x' d hx hx' hd hd'
    obtain ⟨y, hy, hcallee, -, -⟩ := hold hx
    obtain ⟨y', hy', hcallee', -, -⟩ := hold hx'
    exact h.unique hy hy' (hcallee ▸ hd) (hcallee' ▸ hd')
  · intro i x hx
    obtain ⟨y, hy, -, hyborn, -⟩ := hold hx
    rw [hyborn]
    exact h.born hy

/-! ## 3. A frame is created or destroyed -/

omit [DecidableEq K] in
/-- A frame that is not there awaits nobody and is awaited by nobody. -/
theorem ne_of_none (h : AwaitInv P s) (hc : s.frame c = none) {i d : K} {x : Coroutine K B A R}
    (hx : s.frame i = some x) (hd : x.point.callee = some d) : i ≠ c ∧ d ≠ c := by
  constructor
  · rintro rfl
    rw [hc] at hx
    cases hx
  · rintro rfl
    obtain ⟨g, hg, -⟩ := h.linked hx hd
    rw [hc] at hg
    cases hg

/-- Somebody calls a `task`. -/
theorem start (h : AwaitInv P s) (hk : s.frame k = none) (b : B) :
    AwaitInv P { s.set k (call b true .running s.born) with born := s.born + 1 } := by
  have hold : ∀ {i x d}, (s.set k (call b true .running s.born)).frame i = some x →
      x.point.callee = some d → i ≠ k ∧ s.frame i = some x := by
    intro i x d hx hd
    rcases frame_set hx with ⟨-, rfl⟩ | hx
    · cases hd
    · exact hx
  refine ⟨?_, ?_, ?_, ?_, ?_, h.finished, h.ok⟩
  · intro i x hx
    rcases frame_set hx with ⟨-, rfl⟩ | ⟨-, hx⟩
    · exact ⟨.refl b, nofun, fun _ => ⟨rfl, nofun⟩, nofun⟩
    · exact h.sound hx
  · intro i x d hx hd
    obtain ⟨-, hx⟩ := hold hx hd
    obtain ⟨g, hg, hlink⟩ := h.linked hx hd
    exact ⟨g, (Function.update_of_ne (h.ne_of_none hk hx hd).2 ..).trans hg, hlink⟩
  · intro d g hg hgtask
    rcases frame_set hg with ⟨-, rfl⟩ | ⟨-, hg⟩
    · cases hgtask
    · obtain ⟨i, x, hx, hd⟩ := h.awaited hg hgtask
      exact ⟨i, x, (Function.update_of_ne (h.ne_of_none hk hx hd).1 ..).trans hx, hd⟩
  · intro i i' x x' d hx hx' hd hd'
    exact h.unique (hold hx hd).2 (hold hx' hd').2 hd hd'
  · intro i x hx
    rcases frame_set hx with ⟨-, rfl⟩ | ⟨-, hx⟩
    · exact Nat.lt_succ_self _
    · exact Nat.lt_succ_of_lt (h.born hx)

/-- A `task` ends: its result is the one its body has in direct style. -/
theorem taskEnd (h : AwaitInv P s) (hk : s.frame k = some f) (hrunning : f.point = .running)
    (htask : f.task = true) {r : R} (hnext : P.next f.body = .co_return r) :
    AwaitInv P { s with
      frame := Function.update s.frame k none
      finished := s.finished ++ [(f.start, f.answers, r)] } := by
  have hold : ∀ {i x}, Function.update s.frame k none i = some x →
      i ≠ k ∧ s.frame i = some x := by
    intro i x hx
    rcases update_cases hx with ⟨-, hx⟩ | hx
    · cases hx
    · exact hx
  refine ⟨?_, ?_, ?_, ?_, ?_, ?_, h.ok⟩
  · exact fun hx => h.sound (hold hx).2
  · intro i x d hx hd
    obtain ⟨-, hx⟩ := hold hx
    obtain ⟨g, hg, hgtask, hlink⟩ := h.linked hx hd
    have hdk : d ≠ k := by
      rintro rfl
      obtain rfl := Option.some.inj (hk.symm.trans hg)
      rw [htask] at hgtask
      cases hgtask
    exact ⟨g, (Function.update_of_ne hdk ..).trans hg, hgtask, hlink⟩
  · intro d g hg hgtask
    obtain ⟨i, x, hx, hd⟩ := h.awaited (hold hg).2 hgtask
    have hik : i ≠ k := by
      rintro rfl
      obtain rfl := Option.some.inj (hk.symm.trans hx)
      rw [hrunning] at hd
      cases hd
    exact ⟨i, x, (Function.update_of_ne hik ..).trans hx, hd⟩
  · intro i i' x x' d hx hx' hd hd'
    exact h.unique (hold hx).2 (hold hx').2 hd hd'
  · exact fun hx => h.born (hold hx).2
  · intro e he
    rcases List.mem_append.mp he with he | he
    · exact h.finished e he
    · rw [List.mem_singleton.mp he]
      have heval := (h.sound hk).path.eval (.ret hnext)
      rwa [List.append_nil] at heval

/-- The body of `k` calls the coroutine `b` and awaits it. -/
theorem call (h : AwaitInv P s) (hk : s.frame k = some f) (hrunning : f.point = .running)
    {b : B} {rest : R → B} (hnext : P.next f.body = .co_await b rest) (hc : s.frame c = none) :
    AwaitInv P { s.set k { f with point := .resume c } with
      frame := Function.update (s.set k { f with point := .resume c }).frame c
        (some (Coroutines.call b false .created s.born))
      born := s.born + 1 } := by
  have hkc : k ≠ c := by
    rintro rfl
    rw [hc] at hk
    cases hk
  have hnone : f.point.callee = none := by rw [hrunning]; rfl
  have hborn := h.born hk
  have hcases : ∀ {i x}, Function.update (s.set k { f with point := .resume c }).frame c
      (some (Coroutines.call b false .created s.born)) i = some x →
        i = c ∧ x = Coroutines.call b false .created s.born ∨
          i ≠ c ∧ i = k ∧ x = { f with point := .resume c } ∨
            i ≠ c ∧ i ≠ k ∧ s.frame i = some x := frame_pair
  refine ⟨?_, ?_, ?_, ?_, ?_, h.finished, h.ok⟩
  · intro i x hx
    rcases hcases hx with ⟨-, rfl⟩ | ⟨-, -, rfl⟩ | ⟨-, -, hx⟩
    · exact ⟨.refl b, nofun, nofun, nofun⟩
    · exact ⟨(h.sound hk).path, nofun, fun _ => ⟨rfl, nofun⟩, nofun⟩
    · exact h.sound hx
  · intro i x d hx hd
    rcases hcases hx with ⟨-, rfl⟩ | ⟨-, rfl, rfl⟩ | ⟨-, -, hx⟩
    · cases hd
    · obtain rfl := Option.some.inj hd
      exact ⟨_, Function.update_self .., rfl, hborn, ⟨rest, hnext⟩, rfl, rfl⟩
    · obtain ⟨g, hg, hgtask, hgborn, hgcall, hgmeets⟩ := h.linked hx hd
      have hdc := (h.ne_of_none hc hx hd).2
      by_cases hdk : d = k
      · subst hdk
        obtain rfl := Option.some.inj (hk.symm.trans hg)
        refine ⟨{ f with point := .resume c }, ?_, hgtask, hgborn, hgcall, ?_⟩
        · exact (Function.update_of_ne hdc ..).trans (Function.update_self ..)
        · exact hgmeets.of_active (by rw [hrunning]; rfl) rfl rfl rfl
      · refine ⟨g, ?_, hgtask, hgborn, hgcall, hgmeets⟩
        exact (Function.update_of_ne hdc ..).trans ((Function.update_of_ne hdk ..).trans hg)
  · intro d g hg hgtask
    have hawaits : d = c ∨ ∃ g', s.frame d = some g' ∧ g'.task = false := by
      rcases hcases hg with ⟨hdc, -⟩ | ⟨-, rfl, rfl⟩ | ⟨-, -, hg⟩
      · exact Or.inl hdc
      · exact Or.inr ⟨f, hk, hgtask⟩
      · exact Or.inr ⟨g, hg, hgtask⟩
    rcases hawaits with rfl | ⟨g', hg', hgtask'⟩
    · exact ⟨k, _, (Function.update_of_ne hkc ..).trans (Function.update_self ..), rfl⟩
    · obtain ⟨i, x, hx, hd⟩ := h.awaited hg' hgtask'
      have hik : i ≠ k := by
        rintro rfl
        obtain rfl := Option.some.inj (hk.symm.trans hx)
        rw [hnone] at hd
        cases hd
      refine ⟨i, x, ?_, hd⟩
      exact (Function.update_of_ne (h.ne_of_none hc hx hd).1 ..).trans
        ((Function.update_of_ne hik ..).trans hx)
  · intro i i' x x' d hx hx' hd hd'
    rcases hcases hx with ⟨-, rfl⟩ | ⟨-, rfl, rfl⟩ | ⟨-, -, hx⟩
    · cases hd
    · rcases hcases hx' with ⟨-, rfl⟩ | ⟨-, rfl, -⟩ | ⟨-, -, hx'⟩
      · cases hd'
      · rfl
      · exact absurd (Option.some.inj hd).symm (h.ne_of_none hc hx' hd').2
    · rcases hcases hx' with ⟨-, rfl⟩ | ⟨-, -, rfl⟩ | ⟨-, -, hx'⟩
      · cases hd'
      · exact absurd (Option.some.inj hd').symm (h.ne_of_none hc hx hd).2
      · exact h.unique hx hx' hd hd'
  · intro i x hx
    rcases hcases hx with ⟨-, rfl⟩ | ⟨-, -, rfl⟩ | ⟨-, -, hx⟩
    · exact Nat.lt_succ_self _
    · exact Nat.lt_succ_of_lt hborn
    · exact Nat.lt_succ_of_lt (h.born hx)

/-- **The end of a call.** The result is there, it is the one the callee has in direct style,
    and the frame of the callee is destroyed. -/
theorem awaitResume (h : AwaitInv P s) (hk : s.frame k = some f)
    (hpoint : f.point = .await_resume c) : AwaitInv P (s.awaitResume P k f c) := by
  have hf : f.point.callee = some c := by rw [hpoint]; rfl
  have hck : c ≠ k := h.ne hk hf
  obtain ⟨g, hc, hgtask, -, ⟨rest, hnext⟩, hmeets⟩ := h.linked hk hf
  rw [hpoint] at hmeets
  have hdone : g.point = .done := hmeets
  obtain ⟨r, hresult, heval⟩ := (h.sound hc).result (by rw [hdone]; rfl)
  unfold Coroutines.awaitResume
  rw [hc]
  dsimp only
  rw [hresult, hnext]
  dsimp only
  have hcases : ∀ {i x}, Function.update (s.set k { f with
      point := .running
      body := rest r
      answers := f.answers ++ g.answers }).frame c none i = some x →
        i ≠ c ∧ (i = k ∧ x = { f with
          point := .running
          body := rest r
          answers := f.answers ++ g.answers } ∨ i ≠ k ∧ s.frame i = some x) := by
    intro i x hx
    rcases update_cases hx with ⟨-, hx⟩ | ⟨hic, hx⟩
    · cases hx
    · exact ⟨hic, frame_set hx⟩
  have hold : ∀ {i x d}, Function.update (s.set k { f with
      point := .running
      body := rest r
      answers := f.answers ++ g.answers }).frame c none i = some x →
        x.point.callee = some d → i ≠ k ∧ s.frame i = some x := by
    intro i x d hx hd
    rcases (hcases hx).2 with ⟨-, rfl⟩ | hx
    · cases hd
    · exact hx
  refine ⟨?_, ?_, ?_, ?_, ?_, h.finished, h.ok⟩
  · intro i x hx
    rcases (hcases hx).2 with ⟨-, rfl⟩ | ⟨-, hx⟩
    · exact ⟨.call (h.sound hk).path hnext heval, nofun, fun _ => ⟨rfl, nofun⟩, nofun⟩
    · exact h.sound hx
  · intro i x d hx hd
    obtain ⟨hik, hx⟩ := hold hx hd
    obtain ⟨y, hy, hytask, hyborn, hycall, hymeets⟩ := h.linked hx hd
    have hdc : d ≠ c := fun hdc => hik (h.unique hx hk (hdc ▸ hd) hf)
    by_cases hdk : d = k
    · subst hdk
      obtain rfl := Option.some.inj (hk.symm.trans hy)
      refine ⟨{ f with point := .running, body := rest r, answers := f.answers ++ g.answers },
        ?_, hytask, hyborn, hycall, ?_⟩
      · exact (Function.update_of_ne hdc ..).trans (Function.update_self ..)
      · exact hymeets.of_active (awaiting hf).2.2 rfl rfl rfl
    · refine ⟨y, ?_, hytask, hyborn, hycall, hymeets⟩
      exact (Function.update_of_ne hdc ..).trans ((Function.update_of_ne hdk ..).trans hy)
  · intro d x hx hxtask
    obtain ⟨hdc, hx⟩ := hcases hx
    have hawaits : ∃ y, s.frame d = some y ∧ y.task = false := by
      rcases hx with ⟨rfl, rfl⟩ | ⟨-, hx⟩
      · exact ⟨f, hk, hxtask⟩
      · exact ⟨x, hx, hxtask⟩
    obtain ⟨y, hy, hytask⟩ := hawaits
    obtain ⟨i, z, hz, hd⟩ := h.awaited hy hytask
    have hik : i ≠ k := by
      rintro rfl
      obtain rfl := Option.some.inj (hk.symm.trans hz)
      exact hdc (Option.some.inj (hd.symm.trans hf))
    have hic : i ≠ c := by
      rintro rfl
      obtain rfl := Option.some.inj (hc.symm.trans hz)
      rw [hdone] at hd
      cases hd
    exact ⟨i, z, (Function.update_of_ne hic ..).trans ((Function.update_of_ne hik ..).trans hz), hd⟩
  · intro i i' x x' d hx hx' hd hd'
    exact h.unique (hold hx hd).2 (hold hx' hd').2 hd hd'
  · intro i x hx
    rcases (hcases hx).2 with ⟨-, rfl⟩ | ⟨-, hx⟩
    · exact (show f.born < s.born from h.born hk)
    · exact h.born hx

/-! ## 4. Every step -/

theorem bodyStep (h : AwaitInv P s) (hk : s.frame k = some f) (hrunning : f.point = .running)
    {s' : Coroutines K B A R} (hs : s.bodyStep P k f c = some s') : AwaitInv P s' := by
  have hsound := h.sound hk
  have hnone : f.point.callee = none := by rw [hrunning]; rfl
  have hactive : f.point.active = true := by rw [hrunning]; rfl
  unfold Coroutines.bodyStep at hs
  cases hnext : P.next f.body with
  | co_return r =>
    rw [hnext] at hs
    dsimp only at hs
    split at hs
    · rename_i htask
      obtain rfl := Option.some.inj hs
      exact h.taskEnd hk hrunning htask hnext
    · rename_i htask
      obtain rfl := Option.some.inj hs
      have heval := hsound.path.eval (.ret hnext)
      rw [List.append_nil] at heval
      exact h.single hk hnone rfl ⟨rfl, rfl, rfl⟩
        ⟨hsound.path, fun _ => ⟨r, rfl, heval⟩, fun ht => absurd ht htask, nofun⟩
        fun hm => hm.of_active hactive rfl rfl rfl
  | co_await b rest =>
    rw [hnext] at hs
    cases hc : s.frame c with
    | some g =>
      rw [hc] at hs
      cases hs
    | none =>
      rw [hc] at hs
      obtain rfl := Option.some.inj hs
      exact h.call hk hrunning hnext hc
  | wait rest =>
    rw [hnext] at hs
    obtain rfl := Option.some.inj hs
    exact h.single hk hnone rfl ⟨rfl, rfl, rfl⟩
      ⟨hsound.path, nofun, fun _ => ⟨rfl, nofun⟩, fun _ => ⟨rest, hnext⟩⟩
      fun hm => hm.of_active hactive rfl rfl rfl

/-- The exchange of `final_awaitable`, as the awaiter sees it. -/
theorem final (h : AwaitInv P s) (hk : s.frame k = some f) (hfinal : f.point = .final) :
    AwaitInv P (s.set k { f with
      state := true
      point := if f.state then .resuming else .done }) := by
  have hsound := h.sound hk
  have hended : ended f.point = true := by rw [hfinal]; rfl
  have htask : f.task ≠ true := fun ht => by
    have := (hsound.task ht).1
    rw [hended] at this
    cases this
  refine h.single hk (by rw [hfinal]; rfl) ?_ ⟨rfl, rfl, rfl⟩ ⟨hsound.path, ?_, ?_, ?_⟩ ?_
  · cases f.state <;> rfl
  · exact fun _ => hsound.result hended
  · exact fun ht => absurd ht htask
  · cases f.state <;> nofun
  · intro j p hm
    have hdone : f.point ≠ .done := by simp [hfinal]
    cases p with
    | resume d => exact absurd (hfinal.symm.trans hm.1) (by simp)
    | store d =>
      obtain ⟨-, -, hstate⟩ := hm
      have hfalse : f.state = false := Bool.eq_false_iff.mpr fun hx => hdone (hstate.mp hx)
      simp [Meets, hfalse]
    | exchange d =>
      obtain ⟨-, -, hstate, hcontinuation⟩ := hm
      have hfalse : f.state = false := Bool.eq_false_iff.mpr fun hx => hdone (hstate.mp hx)
      simp [Meets, hfalse, hcontinuation]
    | suspended d =>
      obtain ⟨-, -, hstate, hcontinuation⟩ := hm
      simp [Meets, hstate, hcontinuation]
    | await_resume d => exact absurd hm hdone
    | created | running | blocked | final | resuming | done => exact hm.elim

/-- **The continuation.** Whoever is about to resume one resumes its awaiter, which is
    suspended on it. -/
theorem resuming (h : AwaitInv P s) (hk : s.frame k = some f) (hresuming : f.point = .resuming) :
    ∃ j g, f.continuation = some j ∧ s.frame j = some g ∧ g.point = .suspended k ∧
      AwaitInv P
        ((s.set k { f with point := .done }).set j { g with point := .await_resume k }) := by
  have htask : f.task = false := by
    cases ht : f.task with
    | false => rfl
    | true =>
      have hended := ((h.sound hk).task ht).1
      rw [hresuming] at hended
      cases hended
  obtain ⟨j, g, hj, hg⟩ := h.awaited hk htask
  obtain ⟨f', hf', -, -, -, hmeets⟩ := h.linked hj hg
  obtain rfl := Option.some.inj (hk.symm.trans hf')
  -- Of all places of an awaiter, only `suspended` goes with a callee that is resuming.
  have hsuspended : g.point = .suspended k ∧ f.continuation = some j := by
    cases hp : g.point with
    | suspended d =>
      rw [hp] at hmeets hg
      exact ⟨congrArg _ (Option.some.inj hg), hmeets.2.2.2⟩
    | resume d => rw [hp] at hmeets; exact absurd (hresuming.symm.trans hmeets.1) (by simp)
    | store d => rw [hp] at hmeets; exact absurd hresuming hmeets.2.1
    | exchange d => rw [hp] at hmeets; exact absurd hresuming hmeets.2.1
    | await_resume d => rw [hp] at hmeets; exact absurd (hresuming.symm.trans hmeets) (by simp)
    | created | running | blocked | final | resuming | done => rw [hp] at hg; cases hg
  refine ⟨j, g, hsuspended.2, hj, hsuspended.1, ?_⟩
  have hpair := h.pair hj hg hk (p := .await_resume k) (q := .done) (b := f.state)
    (t := f.continuation) rfl (Or.inr ⟨rfl, by rw [hresuming]; rfl, nofun⟩)
    (by rw [hresuming]; rfl) (by simp) rfl
  have hcomm : (s.set j { g with point := .await_resume k }).set k { f with point := .done } =
      (s.set k { f with point := .done }).set j { g with point := .await_resume k } := by
    unfold set
    dsimp only
    rw [Function.update_comm (h.ne hj hg)]
  exact hcomm ▸ hpair

theorem stepOf (h : AwaitInv P s) (hk : s.frame k = some f) {s' : Coroutines K B A R}
    (hs : s.stepOf P k f c = some s') : AwaitInv P s' := by
  unfold Coroutines.stepOf at hs
  cases hpoint : f.point with
  | created | blocked | suspended d | done => rw [hpoint] at hs; cases hs
  | running =>
    rw [hpoint] at hs
    exact h.bodyStep hk hpoint hs
  | resume d =>
    have hf : f.point.callee = some d := by rw [hpoint]; rfl
    obtain ⟨g, hg, -, -, -, hmeets⟩ := h.linked hk hf
    rw [hpoint] at hmeets hs
    dsimp only at hs
    rw [hg] at hs
    dsimp only at hs
    rw [if_pos hmeets.1] at hs
    obtain rfl := Option.some.inj hs
    have hcallee : g.point.callee = none := by rw [hmeets.1]; rfl
    refine h.pair hk hf hg (p := .store d) rfl (Or.inr ⟨rfl, hcallee, nofun⟩) ?_ (by simp) ?_
    · rw [hmeets.1]; rfl
    · refine ⟨by simp, by simp, ?_⟩
      simp [hmeets.2]
  | store d =>
    have hf : f.point.callee = some d := by rw [hpoint]; rfl
    obtain ⟨g, hg, -, -, -, hmeets⟩ := h.linked hk hf
    rw [hpoint] at hmeets hs
    dsimp only at hs
    rw [hg] at hs
    obtain rfl := Option.some.inj hs
    exact h.pair hk hf hg (p := .exchange d) rfl (Or.inl rfl) rfl hmeets.1
      ⟨hmeets.1, hmeets.2.1, hmeets.2.2, rfl⟩
  | exchange d =>
    have hf : f.point.callee = some d := by rw [hpoint]; rfl
    obtain ⟨g, hg, -, -, -, hmeets⟩ := h.linked hk hf
    rw [hpoint] at hmeets hs
    obtain ⟨hcreated, -, hstate, hcontinuation⟩ := hmeets
    dsimp only at hs
    rw [hg] at hs
    obtain rfl := Option.some.inj hs
    refine h.pair hk hf hg (p := if g.state then .await_resume d else .suspended d) ?_
      (Or.inl rfl) rfl hcreated ?_
    · cases g.state <;> rfl
    · cases hgs : g.state with
      | true => exact hstate.mp hgs
      | false =>
        refine ⟨hcreated, fun hx => ?_, rfl, hcontinuation⟩
        rw [hstate.mpr hx] at hgs
        cases hgs
  | await_resume d =>
    rw [hpoint] at hs
    obtain rfl := Option.some.inj hs
    exact h.awaitResume hk hpoint
  | final =>
    rw [hpoint] at hs
    obtain rfl := Option.some.inj hs
    exact h.final hk hpoint
  | resuming =>
    obtain ⟨j, g, hcontinuation, hj, hsuspended, hinv⟩ := h.resuming hk hpoint
    rw [hpoint] at hs
    dsimp only at hs
    rw [hcontinuation] at hs
    dsimp only at hs
    rw [hj] at hs
    dsimp only at hs
    rw [if_pos hsuspended] at hs
    obtain rfl := Option.some.inj hs
    rw [hcontinuation] at hinv
    exact hinv

theorem answer (h : AwaitInv P s) (hk : s.frame k = some f) {a : A} {s' : Coroutines K B A R}
    (hs : s.answer P k f a = some s') : AwaitInv P s' := by
  have hsound := h.sound hk
  unfold Coroutines.answer at hs
  split at hs
  · rename_i rest hblocked hnext
    obtain rfl := Option.some.inj hs
    exact h.single hk (by rw [hblocked]; rfl) rfl ⟨rfl, rfl, rfl⟩
      ⟨.wait hsound.path hnext a, nofun, fun _ => ⟨rfl, nofun⟩, nofun⟩
      fun hm => hm.of_active (by rw [hblocked]; rfl) rfl rfl rfl
  · cases hs

theorem step (h : AwaitInv P s) {l : Label K B A} {s' : Coroutines K B A R}
    (hs : s.step P l = some s') : AwaitInv P s' := by
  cases l with
  | start k b =>
    simp only [Coroutines.step] at hs
    split at hs
    · rename_i hk
      obtain rfl := Option.some.inj hs
      exact h.start hk b
    · cases hs
  | step k c =>
    obtain ⟨f, hk, hs⟩ := Option.bind_eq_some_iff.mp hs
    exact h.stepOf hk hs
  | answer k a =>
    obtain ⟨f, hk, hs⟩ := Option.bind_eq_some_iff.mp hs
    exact h.answer hk hs

end AwaitInv

end Coroutines
end Ice
