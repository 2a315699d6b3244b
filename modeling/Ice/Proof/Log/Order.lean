import Ice.Proof.Log.Steps
import Mathlib.Data.List.Nodup

/-!
# Entries reach the sinks in the order of the calls

The asynchronous and the synchronous call publish a node of their coroutine in one queue, and
the coroutine prints the entry of its call when the logger resumes it. So the entries of a
thread are in one line (`Inv.line`): those handed to a sink, in the logger's batch, waiting in
the queue, and the one that the thread is about to publish are its calls in order, each
once. `Inv` also holds what the other results about the log start from: a published entry is
waiting for the logger, and the logger is inside of the coroutine that has begun and has not
ended.

* **What a thread sees handed to sinks is a prefix of what it queued, and all of it once
  nothing is waiting or being handled** (`entries_in_order`).
-/

set_option autoImplicit false

namespace Ice
namespace Log

open Lib

variable {X : Type*} [DecidableEq X]

/-! ## 1. What the log keeps -/

/-- The coroutine has begun and has not ended. -/
def Stage.active : Stage → Bool
  | .printing | .printed | .stored => true
  | _ => false

/-- `completed` is stored. -/
def Stage.done : Stage → Bool
  | .stored | .finished => true
  | _ => false

/-- The entries that `t` queued, in the order of its calls. -/
def queuedBy (s : Log X) (t : Thread Unit X) : List (Id X) :=
  (List.range (s.calls t)).map fun n => (t, n + 1)

/-- The entries of `t` that were handed to a sink. -/
def handedBy (s : Log X) (t : Thread Unit X) : List (Id X) := s.handed.filter (·.1 = t)

/-- The entry that `t` has begun to queue and not published. -/
def unpushed (s : Log X) (t : Thread Unit X) : List (Id X) :=
  if (s.at_ t).early then [s.id t] else Loop.published (s.ctx.box.caller t)

/-- Where the callers stand with their calls. -/
structure Callers (s : Log X) : Prop where
  fresh : ∀ t n, s.calls t < n → (s.call (t, n)).stage = .fresh ∧ (s.call (t, n)).sync = false
  early : ∀ t, (s.at_ t).early = true →
    (s.call (s.id t)).stage = .fresh ∧ (s.call (s.id t)).sync = false
  pushing : ∀ t k, s.ctx.box.caller t = .push k →
    s.at_ t = .post ∧ k = s.id t ∧ (s.call k).stage = .fresh
  late : ∀ t, (s.at_ t).late = true → (s.call (s.id t)).sync = true

structure Inv (s : Log X) : Prop where
  callers : Callers s
  nodes : ∀ k ∈ ahead s.ctx, (s.call k).stage = .queued
  handling : ∀ k, (s.call k).stage.active = true ↔ s.handling = some k
  done : ∀ k, (s.call k).sync = true → ((s.call k).completed = true ↔ (s.call k).stage.done = true)
  line : ∀ t, (s.handed ++ ahead s.ctx).filter (·.1 = t) ++ s.unpushed t = s.queuedBy t

variable {s s' : Log X} {t : Thread Unit X}

theorem inv_init : Inv (init : Log X) where
  callers :=
    { fresh := fun _ _ _ => ⟨rfl, rfl⟩
      early := fun _ h => by cases h
      pushing := fun _ _ h => by cases h
      late := fun _ h => by cases h }
  nodes := by intro k hk; cases hk
  handling k := by simp [init, Call.init, Stage.active]
  done k h := by cases h
  line t := rfl

/-- The invariant is about these fields. -/
theorem Inv.congr (h : Inv s) (hctx : s'.ctx = s.ctx) (hat : s'.at_ = s.at_)
    (hcalls : s'.calls = s.calls) (hcall : s'.call = s.call) (hh : s'.handling = s.handling)
    (hhanded : s'.handed = s.handed) : Inv s' := by
  obtain ⟨ctx, count, limit, at_, calls, call, handling, handed, dangling⟩ := s'
  dsimp only at hctx hat hcalls hcall hh hhanded
  subst hctx hat hcalls hcall hh hhanded
  exact ⟨⟨h.callers.fresh, h.callers.early, h.callers.pushing, h.callers.late⟩, h.nodes,
    h.handling, h.done, h.line⟩

section Fields

omit [DecidableEq X]

theorem id_ne {u : Thread Unit X} (h : u ≠ t) : s.id u ≠ s.id t :=
  fun he => h (congrArg Prod.fst he)

theorem unpushed_of_early (h : (s.at_ t).early = true) : s.unpushed t = [s.id t] := if_pos h

theorem unpushed_of_not_early (h : (s.at_ t).early = false) :
    s.unpushed t = Loop.published (s.ctx.box.caller t) := if_neg (by simp [h])

theorem unpushed_congr (hat : s'.at_ t = s.at_ t) (hcalls : s'.calls t = s.calls t)
    (hcaller : s'.ctx.box.caller t = s.ctx.box.caller t) : s'.unpushed t = s.unpushed t := by
  rw [unpushed, unpushed, hat, Log.id, Log.id, hcalls, hcaller]

theorem published_of_ne {c : Caller (Id X)} (h : ∀ k, c ≠ .push k) : Loop.published c = [] := by
  cases c with
  | push k => exact absurd rfl (h k)
  | idle | posted | store | stopped => rfl

/-- A call that is past `post` is not publishing. -/
theorem Callers.not_pushing (h : Callers s) (ht : s.at_ t ≠ .post) (k : Id X) :
    s.ctx.box.caller t ≠ .push k :=
  fun hp => ht (h.pushing t k hp).1

end Fields

/-- Changing the call of `t` changes no other thread's. -/
theorem call_of_ne {u : Thread Unit X} {c : Call} (h : u ≠ t) :
    Function.update s.call (s.id t) c (s.id u) = s.call (s.id u) :=
  Function.update_of_ne (id_ne h) ..

/-- Changing the call of `t` changes none that is still to come. -/
theorem call_of_lt {u : Thread Unit X} {n : ℕ} {c : Call} (h : s.calls u < n) :
    Function.update s.call (s.id t) c (u, n) = s.call (u, n) := by
  apply Function.update_of_ne
  intro he
  obtain ⟨rfl, rfl⟩ := Prod.mk.inj he
  exact Nat.lt_irrefl _ h

/-- A thread that was not publishing and is not publishing now. -/
theorem published_update {f : Thread Unit X → Caller (Id X)} {c : Caller (Id X)}
    (hc : ∀ k, c ≠ .push k) (ht : ∀ k, f t ≠ .push k) (u : Thread Unit X) :
    Loop.published (Function.update f t c u) = Loop.published (f u) := by
  by_cases hu : u = t
  · rw [hu, Function.update_self, published_of_ne hc, published_of_ne ht]
  · rw [Function.update_of_ne hu]

/-- No entry is in the line twice. -/
theorem Inv.nodup (h : Inv s) : (s.handed ++ ahead s.ctx).Nodup := by
  apply List.nodup_iff_count_le_one.mpr
  intro k
  have hcount : List.count k (s.handed ++ ahead s.ctx) ≤ List.count k (s.queuedBy k.1) := by
    have hfilter : List.count k ((s.handed ++ ahead s.ctx).filter (·.1 = k.1)) =
        List.count k (s.handed ++ ahead s.ctx) := List.count_filter (by simp)
    rw [← h.line k.1, ← hfilter]
    exact (List.sublist_append_left _ _).count_le k
  have hnd : (s.queuedBy k.1).Nodup := by
    apply List.Nodup.map _ List.nodup_range
    intro a b hab
    exact Nat.succ.inj (congrArg Prod.snd hab)
  exact Nat.le_trans hcount (List.nodup_iff_count_le_one.mp hnd k)

/-- A call is rewritten, and is completed where its stage says so. -/
theorem Inv.done_update {k : Id X} {c : Call} (h : Inv s)
    (hc : c.sync = true → (c.completed = true ↔ c.stage.done = true)) :
    ∀ j, (Function.update s.call k c j).sync = true →
      ((Function.update s.call k c j).completed = true ↔
        (Function.update s.call k c j).stage.done = true) :=
  (Function.forall_update_iff s.call fun _ c =>
    c.sync = true → (c.completed = true ↔ c.stage.done = true)).mpr ⟨hc, fun j _ => h.done j⟩

/-! ## 2. Moves that the line does not see -/

theorem Callers.move {p : At} (h : Callers s) (hearly : p.early = true → (s.at_ t).early = true)
    (hlate : p.late = true → (s.call (s.id t)).sync = true)
    (hpost : ∀ k, s.ctx.box.caller t ≠ .push k) : Callers (s.move t p) where
  fresh := h.fresh
  early u hu := by
    by_cases hut : u = t
    · subst hut
      exact h.early u (hearly (by simpa using hu))
    · exact h.early u (by simpa [hut] using hu)
  pushing u k hk := by
    have hut : u ≠ t := fun he => hpost k (he ▸ hk)
    obtain ⟨hu, hk⟩ := h.pushing u k hk
    exact ⟨(Function.update_of_ne hut ..).trans hu, hk⟩
  late u hu := by
    by_cases hut : u = t
    · subst hut
      exact hlate (by simpa using hu)
    · exact h.late u (by simpa [hut] using hu)

/-- A call that has begun goes on, or a call that has not stays as it is. -/
theorem Callers.set {k : Id X} {c : Call} (h : Callers s) (hsync : c.sync = (s.call k).sync)
    (hstage : c.stage = .fresh ↔ (s.call k).stage = .fresh) : Callers (s.set k c) := by
  have hs : ∀ j, ((s.set k c).call j).sync = (s.call j).sync := by
    intro j
    by_cases hj : j = k
    · simp [hj, hsync]
    · simp [hj]
  have hf : ∀ j, ((s.set k c).call j).stage = .fresh ↔ (s.call j).stage = .fresh := by
    intro j
    by_cases hj : j = k
    · simp [hj, hstage]
    · simp [hj]
  refine ⟨?_, ?_, ?_, ?_⟩
  · intro t n hn
    rw [hf, hs]
    exact h.fresh t n hn
  · intro t ht
    rw [hf, hs]
    exact h.early t ht
  · intro t j hj
    rw [hf]
    exact h.pushing t j hj
  · intro t ht
    rw [hs]
    exact h.late t ht

theorem Inv.move {p : At} (h : Inv s) (hearly : p.early = (s.at_ t).early)
    (hlate : p.late = true → (s.call (s.id t)).sync = true)
    (hpost : ∀ k, s.ctx.box.caller t ≠ .push k) : Inv (s.move t p) where
  callers := h.callers.move (fun hp => hearly ▸ hp) hlate hpost
  nodes := h.nodes
  handling := h.handling
  done := h.done
  line u := by
    have hu : (s.move t p).unpushed u = s.unpushed u := by
      by_cases hut : u = t
      · subst hut
        simp [unpushed, hearly, Log.id]
      · exact unpushed_congr (by simp [hut]) rfl rfl
    rw [hu]
    exact h.line u

/-- What the caller lends, and whether it was notified, is no part of the line. -/
theorem Inv.set_lent {k : Id X} {c : Call} (h : Inv s) (hsync : c.sync = (s.call k).sync)
    (hstage : c.stage = (s.call k).stage) (hdone : c.completed = (s.call k).completed) :
    Inv (s.set k c) := by
  have hcall : ∀ j, ((s.set k c).call j).stage = (s.call j).stage ∧
      ((s.set k c).call j).sync = (s.call j).sync ∧
      ((s.set k c).call j).completed = (s.call j).completed := by
    intro j
    by_cases hj : j = k
    · subst hj
      simp [hsync, hstage, hdone]
    · simp [hj]
  refine ⟨h.callers.set hsync (by rw [hstage]), ?_, ?_, ?_, h.line⟩
  · intro j hj
    rw [(hcall j).1]
    exact h.nodes j hj
  · intro j
    rw [(hcall j).1]
    exact h.handling j
  · intro j hj
    rw [(hcall j).1, (hcall j).2.2]
    exact h.done j ((hcall j).2.1 ▸ hj)

/-- The context moves, and publishes and resumes nothing. -/
theorem Inv.context {ctx : Context (Id X) (Thread Unit X)} (h : Inv s)
    (hahead : ahead ctx = ahead s.ctx)
    (hpub : ∀ u, Loop.published (ctx.box.caller u) = Loop.published (s.ctx.box.caller u)) :
    Inv (s.context ctx) where
  callers :=
    { fresh := h.callers.fresh
      early := h.callers.early
      late := h.callers.late
      pushing := by
        intro u k hk
        have hk : ctx.box.caller u = .push k := hk
        have hold := hpub u
        rw [hk] at hold
        apply h.callers.pushing u k
        cases hc : s.ctx.box.caller u with
        | push j =>
          rw [hc] at hold
          rw [(List.cons.inj hold).1]
        | idle | posted | store | stopped => rw [hc] at hold; cases hold }
  nodes k hk := h.nodes k (hahead ▸ hk)
  handling := h.handling
  done := h.done
  line u := by
    have hu : (s.context ctx).unpushed u = s.unpushed u := by
      unfold unpushed
      rw [context_ctx, hpub u]
      rfl
    rw [context_ctx, hahead, hu]
    exact h.line u

/-! ## 3. Moves along the line -/

/-- The next call of `t` is the last of those it has queued. -/
theorem Inv.queue (h : Inv s) (ht : s.at_ t = .idle) :
    Inv ((s.move t .compare).begin_ t) := by
  have hpost := h.callers.not_pushing (t := t) (by simp [ht])
  refine ⟨⟨?_, ?_, ?_, ?_⟩, h.nodes, h.handling, h.done, ?_⟩
  · intro u n hn
    apply h.callers.fresh u n
    by_cases hut : u = t
    · subst hut
      simp only [begin__calls, move_calls, Function.update_self] at hn
      omega
    · simpa [hut] using hn
  · intro u hu
    by_cases hut : u = t
    · subst hut
      simpa [Log.id] using h.callers.fresh u (s.calls u + 1) (Nat.lt_succ_self _)
    · simpa [Log.id, hut] using h.callers.early u (by simpa [hut] using hu)
  · intro u k hk
    have hut : u ≠ t := fun he => hpost k (he ▸ hk)
    obtain ⟨hu, rfl, hs⟩ := h.callers.pushing u k hk
    exact ⟨by simp [hut, hu], by simp [Log.id, hut], hs⟩
  · intro u hu
    by_cases hut : u = t
    · subst hut
      simp at hu
    · simpa [Log.id, hut] using h.callers.late u (by simpa [hut] using hu)
  · intro u
    have hline := h.line u
    by_cases hut : u = t
    · subst hut
      rw [unpushed_of_not_early (by rw [ht]; rfl), published_of_ne hpost, List.append_nil] at hline
      rw [unpushed_of_early (by simp), queuedBy, begin__calls, move_calls, Function.update_self,
        List.range_succ, List.map_append]
      exact congrArg₂ (· ++ ·) hline (by simp [Log.id])
    · have hqueued : ((s.move t .compare).begin_ t).queuedBy u = s.queuedBy u := by
        simp [queuedBy, hut]
      have hu : ((s.move t .compare).begin_ t).unpushed u = s.unpushed u :=
        unpushed_congr (by simp [hut]) (by simp [hut]) rfl
      rw [hqueued, hu]
      exact hline

/-- A thread at `post` rewrites its call, and publishes nothing but that. -/
theorem Callers.own {c : Call} (h : Callers s) (ht : s'.at_ t = .post)
    (hat : ∀ u, u ≠ t → s'.at_ u = s.at_ u) (hcalls : s'.calls = s.calls)
    (hcall : s'.call = Function.update s.call (s.id t) c)
    (hcaller : ∀ u, u ≠ t → s'.ctx.box.caller u = s.ctx.box.caller u)
    (hpush : ∀ k, s'.ctx.box.caller t = .push k → s.id t = k ∧ c.stage = .fresh) : Callers s' := by
  have hid : ∀ u, s'.id u = s.id u := fun u => by rw [Log.id, Log.id, hcalls]
  refine ⟨?_, ?_, ?_, ?_⟩
  · intro u n hn
    rw [hcalls] at hn
    rw [hcall, call_of_lt hn]
    exact h.fresh u n hn
  · intro u hu
    have hut : u ≠ t := by
      intro he
      simp [he, ht] at hu
    rw [hid, hcall, call_of_ne hut]
    exact h.early u (hat u hut ▸ hu)
  · intro u k hk
    by_cases hut : u = t
    · subst hut
      obtain ⟨rfl, hfresh⟩ := hpush k hk
      exact ⟨ht, (hid u).symm, by rw [hcall, Function.update_self, hfresh]⟩
    · obtain ⟨hu, rfl, hs⟩ := h.pushing u k (hcaller u hut ▸ hk)
      exact ⟨(hat u hut).trans hu, (hid u).symm, by rw [hcall, call_of_ne hut, hs]⟩
  · intro u hu
    have hut : u ≠ t := by
      intro he
      simp [he, ht] at hu
    rw [hid, hcall, call_of_ne hut]
    exact h.late u (hat u hut ▸ hu)

/-- A call enters `post` with the node it is about to publish. -/
theorem Inv.enter {ctx : Context (Id X) (Thread Unit X)} {c : Call} (h : Inv s)
    (ht : (s.at_ t).early = true) (hc : s.ctx.step (.post t (s.id t)) = some ctx)
    (hstage : c.stage = .fresh) (hdone : c.sync = true → c.completed = false) :
    Inv (((s.move t .post).context ctx).set (s.id t) c) := by
  obtain ⟨hcaller, hahead, -⟩ := ctx_post hc
  have hstages : ∀ k, (Function.update s.call (s.id t) c k).stage = (s.call k).stage :=
    (Function.forall_update_iff s.call fun k d => d.stage = (s.call k).stage).mpr
      ⟨hstage.trans (h.callers.early t ht).1.symm, fun _ _ => rfl⟩
  have hother : ∀ u, u ≠ t → ctx.box.caller u = s.ctx.box.caller u := by
    intro u hut
    rw [hcaller, Function.update_of_ne hut]
  have hat : ∀ u, u ≠ t → Function.update s.at_ t .post u = s.at_ u :=
    fun u hut => Function.update_of_ne hut ..
  refine ⟨?_, ?_, ?_, ?_, ?_⟩
  · refine h.callers.own (Function.update_self ..) hat rfl rfl hother fun k hk => ?_
    simp only [set_ctx, context_ctx, hcaller, Function.update_self] at hk
    exact ⟨Caller.push.inj hk, hstage⟩
  · intro k hk
    exact (hstages k).trans (h.nodes k (hahead ▸ hk))
  · intro k
    show (Function.update s.call (s.id t) c k).stage.active = true ↔ s.handling = some k
    rw [hstages]
    exact h.handling k
  · exact h.done_update fun hs => by simp [hdone hs, hstage, Stage.done]
  · intro u
    have hline := h.line u
    show (s.handed ++ ahead ctx).filter (·.1 = u) ++ _ = s.queuedBy u
    rw [hahead]
    by_cases hut : u = t
    · subst hut
      rw [unpushed_of_early ht] at hline
      rw [unpushed_of_not_early (by simp), set_ctx, context_ctx, hcaller, Function.update_self]
      exact hline
    · have hun : (((s.move t .post).context ctx).set (s.id t) c).unpushed u = s.unpushed u :=
        unpushed_congr (hat u hut) rfl (hother u hut)
      rw [hun]
      exact hline

/-- The node of the call is published: its entry is the last of the line. -/
theorem Inv.push {ctx : Context (Id X) (Thread Unit X)} {k : Id X} {c : Call} (h : Inv s)
    (hp : s.ctx.box.caller t = .push k) (hc : s.ctx.step (.call t) = some ctx)
    (hstage : c.stage = .queued) (hsync : c.sync = (s.call (s.id t)).sync)
    (hdone : c.completed = (s.call (s.id t)).completed) :
    Inv ((s.set (s.id t) c).context ctx) := by
  obtain ⟨ht, rfl, hfresh⟩ := h.callers.pushing t k hp
  obtain ⟨⟨d, hcaller, hd⟩, hahead, -⟩ := ctx_call hc
  rw [hp] at hahead
  have hahead : ahead ctx = ahead s.ctx ++ [s.id t] := hahead
  have hother : ∀ u, u ≠ t → ctx.box.caller u = s.ctx.box.caller u := by
    intro u hut
    rw [hcaller, Function.update_of_ne hut]
  refine ⟨?_, ?_, ?_, ?_, ?_⟩
  · refine h.callers.own ht (fun _ _ => rfl) rfl rfl hother fun k hk => ?_
    simp only [context_ctx, hcaller, Function.update_self] at hk
    exact absurd hk (hd k)
  · intro k hk
    simp only [context_call, set_call]
    by_cases hkt : k = s.id t
    · rw [hkt, Function.update_self, hstage]
    · rw [Function.update_of_ne hkt]
      apply h.nodes
      simpa [hahead, hkt] using hk
  · intro k
    simp only [context_call, set_call]
    by_cases hkt : k = s.id t
    · have hold := h.handling k
      rw [hkt, hfresh] at hold
      rw [hkt, Function.update_self, hstage]
      exact hold
    · rw [Function.update_of_ne hkt]
      exact h.handling k
  · refine h.done_update fun hs => ?_
    have hold := h.done _ (hsync ▸ hs)
    rw [hfresh] at hold
    rw [hdone, hold, hstage]
    rfl
  · intro u
    have hline := h.line u
    show (s.handed ++ ahead ctx).filter (·.1 = u) ++ _ = s.queuedBy u
    rw [hahead, ← List.append_assoc, List.filter_append]
    by_cases hut : u = t
    · subst hut
      rw [unpushed_of_not_early (by rw [ht]; rfl), hp] at hline
      rw [unpushed_of_not_early (by rw [context_at_, set_at_, ht]; rfl), context_ctx, hcaller,
        Function.update_self, published_of_ne hd, List.append_nil, ← hline]
      simp [Loop.published, Log.id]
    · have hfilter : [s.id t].filter (·.1 = u) = [] := by simp [Log.id, Ne.symm hut]
      have hun : ((s.set (s.id t) c).context ctx).unpushed u = s.unpushed u :=
        unpushed_congr rfl rfl (hother u hut)
      rw [hfilter, List.append_nil, hun]
      exact hline

/-- The first of those ahead is handed to a sink. -/
theorem Inv.resume {ctx : Context (Id X) (Thread Unit X)} {k : Id X} {c : Call} (h : Inv s)
    (hh : s.handling = none) (hcaller : ctx.box.caller = s.ctx.box.caller)
    (hahead : ahead s.ctx = k :: ahead ctx) (hstage : c.stage = .printing)
    (hsync : c.sync = (s.call k).sync) (hdone : c.completed = (s.call k).completed) :
    Inv ((((s.set k c).context ctx).inside k).print k) := by
  have hqueued : (s.call k).stage = .queued := h.nodes k (by simp [hahead])
  have hidle : ∀ j, (s.call j).stage.active = false := by
    intro j
    by_contra hj
    rw [Bool.not_eq_false, h.handling j, hh] at hj
    cases hj
  have hout : k ∉ ahead ctx := by
    have hnd := (List.nodup_append.mp h.nodup).2.1
    rw [hahead] at hnd
    exact (List.nodup_cons.mp hnd).1
  have hcallers := h.callers.set hsync (by simp [hstage, hqueued])
  refine ⟨⟨hcallers.fresh, hcallers.early, ?_, hcallers.late⟩, ?_, ?_, ?_, ?_⟩
  · intro u j hj
    exact hcallers.pushing u j (hcaller ▸ hj)
  · intro j hj
    have hne : j ≠ k := fun he => hout (he ▸ hj)
    simpa [hne] using h.nodes j (by rw [hahead]; exact List.mem_cons_of_mem _ hj)
  · intro j
    by_cases hj : j = k
    · simp [hj, hstage, Stage.active]
    · simp [hj, hidle j, Ne.symm hj]
  · refine h.done_update fun hs => ?_
    have hold := h.done _ (hsync ▸ hs)
    rw [hqueued] at hold
    rw [hdone, hold, hstage]
    rfl
  · intro u
    have hsplit : s.handed ++ [k] ++ ahead ctx = s.handed ++ ahead s.ctx := by
      rw [hahead, List.append_assoc, List.singleton_append]
    show (s.handed ++ [k] ++ ahead ctx).filter (·.1 = u) ++ _ = s.queuedBy u
    have hun : ((((s.set k c).context ctx).inside k).print k).unpushed u = s.unpushed u :=
      unpushed_congr rfl rfl (congrFun hcaller u)
    rw [hsplit, hun]
    exact h.line u

/-- The coroutine that the logger is inside of goes on, or ends. -/
theorem Inv.advance {k : Id X} {c : Call} {handling : Option (Id X)} (h : Inv s)
    (hh : s.handling = some k) (hsync : c.sync = (s.call k).sync) (hfresh : c.stage ≠ .fresh)
    (hhandling : handling = if c.stage.active then some k else none)
    (hdone : c.sync = true → (c.completed = true ↔ c.stage.done = true)) :
    Inv ((s.set k c).inside handling) := by
  have hactive := (h.handling k).mpr hh
  have hstage : (s.call k).stage ≠ .fresh ∧ (s.call k).stage ≠ .queued := by
    constructor <;> intro he <;> rw [he] at hactive <;> cases hactive
  have hcallers := h.callers.set hsync (by simp [hfresh, hstage.1])
  refine ⟨⟨hcallers.fresh, hcallers.early, hcallers.pushing, hcallers.late⟩, ?_, ?_, ?_, h.line⟩
  · intro j hj
    have hj := h.nodes j hj
    have hne : j ≠ k := fun he => hstage.2 (he ▸ hj)
    simpa [hne] using hj
  · intro j
    by_cases hj : j = k
    · subst hj
      rw [hhandling]
      cases hc : c.stage.active <;> simp [hc]
    · have hold := h.handling j
      rw [hh] at hold
      rw [hhandling]
      cases hc : c.stage.active <;> simp [hj, hold, Ne.symm hj]
  · exact h.done_update hdone

/-! ## 4. Every step -/

theorem Inv.step {l : Label X} (h : Inv s) (hs : Step s l s') : Inv s' := by
  cases hs with
  | queue ht _ => exact h.queue ht
  | counted ht | limited ht =>
    exact h.move (by rw [ht]; rfl) (by simp [At.late]) (h.callers.not_pushing (by simp [ht]))
  | countLast ht | limitLast ht =>
    refine h.move ?_ ?_ (h.callers.not_pushing (by simp [ht]))
    · rw [ht]
      split <;> rfl
    · split <;> simp [At.late]
  | @add t ctx ht hc =>
    have hearly : (s.at_ t).early = true := by rw [ht]; rfl
    obtain ⟨hstage, hsync⟩ := h.callers.early t hearly
    have henter := h.enter (c := s.call (s.id t)) hearly hc hstage (by simp [hsync])
    exact henter.congr rfl rfl rfl (Function.update_eq_self ..).symm rfl rfl
  | @lock t ctx ht hc =>
    have hearly : (s.at_ t).early = true := by rw [ht]; rfl
    exact h.enter hearly hc (h.callers.early t hearly).1 fun _ => rfl
  | push _ hp hc => exact h.push hp hc rfl rfl rfl
  | @posted t ctx ht hp hc =>
    obtain ⟨⟨d, hcaller, hd⟩, hahead, -⟩ := ctx_call hc
    rw [published_of_ne hp, List.append_nil] at hahead
    have hpub : ∀ u, Loop.published (ctx.box.caller u) = Loop.published (s.ctx.box.caller u) := by
      rw [hcaller]
      exact published_update hd hp
    refine (h.move ?_ ?_ hp).context hahead hpub
    · rw [ht]
      split <;> rfl
    · split
      · rename_i hsync
        exact fun _ => hsync
      · simp [At.late]
  | ended ht | block ht =>
    have hlate := h.callers.late _ (by rw [ht]; rfl)
    exact (h.move (by rw [ht]; rfl) (fun _ => hlate)
      (h.callers.not_pushing (by simp [ht]))).set_lent rfl rfl rfl
  | leave ht =>
    exact (h.move (by rw [ht]; rfl) (by simp [At.late])
      (h.callers.not_pushing (by simp [ht]))).set_lent rfl rfl rfl
  | check ht =>
    have hlate := h.callers.late _ (by rw [ht]; rfl)
    refine h.move ?_ (fun _ => hlate) (h.callers.not_pushing (by simp [ht]))
    rw [ht]
    split <;> rfl
  | woken ht _ | wake ht =>
    have hlate := h.callers.late _ (by rw [ht]; rfl)
    exact h.move (by rw [ht]; rfl) (fun _ => hlate) (h.callers.not_pushing (by simp [ht]))
  | setLimit => exact h.congr rfl rfl rfl rfl rfl rfl
  | @stop t ctx ht _ hc =>
    obtain ⟨hcaller, hahead, -⟩ := ctx_stop hc
    have hpost := h.callers.not_pushing (t := t) (by simp [ht])
    refine (h.move (by rw [ht]; rfl) (by simp [At.late]) hpost).context hahead ?_
    rw [hcaller]
    exact published_update (by simp) hpost
  | @stored t ctx ht hc =>
    obtain ⟨⟨d, hcaller, hd⟩, hahead, -⟩ := ctx_call hc
    have hpost := h.callers.not_pushing (t := t) (by simp [ht])
    rw [published_of_ne hpost, List.append_nil] at hahead
    refine h.context hahead ?_
    rw [hcaller]
    exact published_update hd hpost
  | @stopped t ctx ht hc =>
    obtain ⟨⟨d, hcaller, hd⟩, hahead, -⟩ := ctx_call hc
    have hpost := h.callers.not_pushing (t := t) (by simp [ht])
    rw [published_of_ne hpost, List.append_nil] at hahead
    refine (h.move (by rw [ht]; rfl) (by simp [At.late]) hpost).context hahead ?_
    rw [hcaller]
    exact published_update hd hpost
  | join ht _ =>
    exact h.move (by rw [ht]; rfl) (by simp [At.late]) (h.callers.not_pushing (by simp [ht]))
  | run _ hd hc =>
    obtain ⟨hcaller, hahead⟩ := ctx_run hc
    refine h.context ?_ (fun u => by rw [hcaller])
    rw [hahead, head_of_not_drain hd]
    rfl
  | resume hh hd hc =>
    obtain ⟨hcaller, hahead⟩ := ctx_run hc
    refine h.resume hh hcaller ?_ rfl rfl rfl
    rw [hahead, head_of_drain hd]
    rfl
  | spurious hc =>
    obtain ⟨hbox, hr, hr'⟩ := ctx_spurious hc
    refine h.context ?_ (fun u => by rw [hbox])
    simp [ahead, Loop.nodes, hbox, hr, hr', Context.Run.batch]
  | read => exact h.congr rfl rfl rfl rfl rfl rfl
  | @printed k hh _ hst =>
    have hdone := h.done k
    rw [hst] at hdone
    have hadvance := h.advance (c := { s.call k with stage := .printed }) hh rfl (by simp) rfl hdone
    exact hadvance.congr rfl rfl rfl rfl hh rfl
  | sub hh hst hk =>
    have hadvance := h.advance (c := { s.call _ with stage := .finished }) hh rfl (by simp) rfl
      (by simp [hk])
    exact hadvance.congr rfl rfl rfl rfl rfl rfl
  | @store k hh hst hk =>
    have hadvance := h.advance (c := { s.call k with stage := .stored, completed := true }) hh rfl
      (by simp) rfl (by simp [Stage.done])
    exact hadvance.congr rfl rfl rfl rfl hh rfl
  | @notify k hh hst hk =>
    have hdone := h.done k
    rw [hst] at hdone
    refine (h.advance hh ?_ ?_ ?_ ?_).congr rfl rfl rfl rfl rfl rfl
    · rfl
    · simp
    · rfl
    · exact hdone

theorem inv_of_reachesBy {Q : Log X → Label X → Prop} (hr : machine.ReachesBy Q init s) : Inv s :=
  hr.preserves (I := Inv) (fun h _ hs => h.step (step_cases hs)) inv_init

/-! ## 5. The order of the entries, for every run -/

/-- **Log order.** For every thread, what was handed to sinks, what the logger has yet to
    resume and what the thread has yet to publish are its entries in the order of its calls:
    so what was handed over is a prefix, and with nothing left to resume it is all but the
    entry that the thread has not published. -/
theorem entries_in_order (hr : machine.Reaches (init : Log X) s) (t : Thread Unit X) :
    s.handedBy t <+: s.queuedBy t ∧
      (s.ctx.run.batch = [] → s.ctx.box.queue.waiting = [] →
        s.handedBy t ++ s.unpushed t = s.queuedBy t) := by
  have hline := (inv_of_reachesBy hr).line t
  rw [List.filter_append, List.append_assoc] at hline
  refine ⟨⟨_, hline⟩, fun hbatch hwaiting => ?_⟩
  have hahead : ahead s.ctx = [] := by simp [ahead, Loop.nodes, hbatch, hwaiting]
  rwa [hahead] at hline

/-- The hypothesis is met by a run in which a thread queues an entry asynchronously and one
    synchronously, and a sink queues one more while it prints the first. -/
theorem entries_in_order_three :
    let t : Thread Unit Unit := .other ()
    let schedule : List (Label Unit) :=
      [.queue t, .count t, .limit t, .call t, .call t, .call t, .setLimit 0,
        .queue t, .limit t, .count t, .call t, .call t, .setLimit 5,
        .run, .run, .run, .run, .run, .run,
        .queue logger, .count logger, .limit logger, .call logger, .call logger, .call logger,
        .read, .handle, .handle]
    ∃ s, machine.exec init schedule = some s ∧ s.queuedBy t = [(t, 1), (t, 2)] ∧
      s.handedBy t = [(t, 1)] ∧ s.handedBy t <+: s.queuedBy t := by
  intro t schedule
  have hends : ∃ s ∈ machine.exec init schedule,
      s.queuedBy t = [(t, 1), (t, 2)] ∧ s.handedBy t = [(t, 1)] := by decide +kernel
  obtain ⟨s, hrun, hqueued, hhanded⟩ := hends
  refine ⟨s, hrun, hqueued, hhanded, ?_⟩
  exact (entries_in_order (Machine.reaches_of_exec schedule hrun) t).1

/-! ## 6. A thread and its last call -/

section Pairs

variable {R : At → Call → Prop}

/-- One thread moves. -/
theorem pairs_move {p : At} (h : ∀ u, R (s.at_ u) (s.call (s.id u))) (hp : R p (s.call (s.id t))) :
    ∀ u, R (Function.update s.at_ t p u) (s.call (s.id u)) :=
  (Function.forall_update_iff s.at_ fun u p => R p (s.call (s.id u))).mpr ⟨hp, fun u _ => h u⟩

/-- One call is rewritten. -/
theorem pairs_set {k : Id X} {c : Call} (h : ∀ u, R (s.at_ u) (s.call (s.id u)))
    (hc : ∀ u, s.id u = k → R (s.at_ u) c) :
    ∀ u, R (s.at_ u) (Function.update s.call k c (s.id u)) := by
  intro u
  by_cases hu : s.id u = k
  · rw [hu, Function.update_self]
    exact hc u hu
  · rw [Function.update_of_ne hu]
    exact h u

/-- One thread moves and rewrites its call. -/
theorem pairs_move_set {p : At} {c : Call} (h : ∀ u, R (s.at_ u) (s.call (s.id u))) (hc : R p c) :
    ∀ u, R (Function.update s.at_ t p u) (Function.update s.call (s.id t) c (s.id u)) := by
  intro u
  by_cases hu : u = t
  · rw [hu, Function.update_self, Function.update_self]
    exact hc
  · rw [Function.update_of_ne hu, call_of_ne hu]
    exact h u

/-- One thread begins a call. -/
theorem pairs_begin {p : At} (h : ∀ u, R (s.at_ u) (s.call (s.id u)))
    (hp : ∀ c, c = s.call (t, s.calls t + 1) → R p c) :
    ∀ u, R (Function.update s.at_ t p u) (s.call (((s.move t p).begin_ t).id u)) := by
  intro u
  by_cases hu : u = t
  · subst hu
    rw [Function.update_self]
    exact hp _ (by simp [Log.id])
  · have hid : ((s.move t p).begin_ t).id u = s.id u := by simp [Log.id, hu]
    rw [Function.update_of_ne hu, hid]
    exact h u

end Pairs

end Log
end Ice
