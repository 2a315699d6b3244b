import Ice.Proof.Log.Order
import Mathlib.Algebra.BigOperators.Group.Finset.Piecewise
import Mathlib.Algebra.Order.BigOperators.Group.Finset
import Mathlib.Order.Interval.Finset.Nat

/-!
# `g_count`

An asynchronous call adds to `g_count` before its node is published and subtracts once its
entry was printed, whether `print` returned or threw. In between its entry is *pending*, so
`g_count` is the number of pending entries, in 64 bits (`Exact`); an entry that subtracts is
one of them, and no subtraction goes below zero.

The limit is compared before the addition and not with it: a thread that found room may be
late. Such a thread has *passed*. What is pending and what has passed together stay below the
limit and the number of threads that call `log::queue` (`Room`), and with them the counter
(`counter_exact_and_bounded`).
-/

set_option autoImplicit false

namespace Ice
namespace Log

open Lib

variable {X : Type*}

/-! ## 1. Pending entries -/

/-- The node is published, and the entry not done with. -/
def Stage.waits : Stage → Bool
  | .queued | .printing | .printed => true
  | .fresh | .stored | .finished => false

/-- An asynchronous entry that has been added to `g_count` and not been subtracted: its node is
    about to be published, is published, or its coroutine has not come to its end. -/
def Pending (s : Log X) (k : Id X) : Prop :=
  (s.call k).sync = false ∧ (s.ctx.box.caller k.1 = .push k ∨ (s.call k).stage.waits = true)

/-- `g_count` counts these entries. -/
structure Exact (s : Log X) (pending : List (Id X)) : Prop where
  nodup : pending.Nodup
  mem : ∀ k, k ∈ pending ↔ s.Pending k
  count : s.count.toNat = pending.length % 2 ^ 64

variable {s s' : Log X} {t : Thread Unit X} {k : Id X} {c : Call}

/-- A thread that was not publishing this node is not publishing it now. -/
theorem push_update [DecidableEq X] {f : Thread Unit X → Caller (Id X)} {c : Caller (Id X)}
    {j : Id X} (hc : c ≠ .push j) (ht : f t ≠ .push j) :
    Function.update f t c j.1 = .push j ↔ f j.1 = .push j := by
  by_cases hj : j.1 = t
  · rw [hj, Function.update_self]
    exact iff_of_false hc ht
  · rw [Function.update_of_ne hj]

/-- What is pending depends on these. -/
theorem pending_congr (hsync : (s'.call k).sync = (s.call k).sync)
    (hwaits : (s'.call k).stage.waits = (s.call k).stage.waits)
    (hpush : s'.ctx.box.caller k.1 = .push k ↔ s.ctx.box.caller k.1 = .push k) :
    s'.Pending k ↔ s.Pending k := by
  unfold Pending
  rw [hsync, hwaits, hpush]

variable [DecidableEq X]

/-- What a step does to the counter, and where its thread stands then. -/
inductive Tally (s s' : Log X) : Prop
  | same (hcount : s'.count = s.count) (hpending : ∀ k, s'.Pending k ↔ s.Pending k)
  | added {t : Thread Unit X} (ht : s.at_ t = .add) (hat : s'.at_ = Function.update s.at_ t .post)
    (hcount : s'.count = s.count + 1) (hnew : ¬ s.Pending (s.id t))
    (hpending : ∀ j, s'.Pending j ↔ j = s.id t ∨ s.Pending j)
  | subtracted {k : Id X} (hat : s'.at_ = s.at_) (hcount : s'.count = s.count - 1)
    (hold : s.Pending k) (hpending : ∀ j, s'.Pending j ↔ j ≠ k ∧ s.Pending j)

/-- A call is rewritten, and waits as before. -/
theorem pending_set (hcall : s'.call = Function.update s.call k c)
    (hcaller : s'.ctx.box.caller = s.ctx.box.caller) (hsync : c.sync = (s.call k).sync)
    (hwaits : c.stage.waits = (s.call k).stage.waits) (j : Id X) :
    s'.Pending j ↔ s.Pending j := by
  refine pending_congr ?_ ?_ (by rw [hcaller])
  · rw [hcall]
    by_cases hj : j = k
    · rw [hj, Function.update_self, hsync]
    · rw [Function.update_of_ne hj]
  · rw [hcall]
    by_cases hj : j = k
    · rw [hj, Function.update_self, hwaits]
    · rw [Function.update_of_ne hj]

/-- The context moves, and the thread that moves it publishes nothing. -/
theorem pending_context {ctx : Context (Id X) (Thread Unit X)} {d : Caller (Id X)}
    (hctx : s'.ctx = ctx) (hcall : s'.call = s.call)
    (hcaller : ctx.box.caller = Function.update s.ctx.box.caller t d) (hd : ∀ k, d ≠ .push k)
    (ht : ∀ k, s.ctx.box.caller t ≠ .push k) (j : Id X) : s'.Pending j ↔ s.Pending j := by
  refine pending_congr (by rw [hcall]) (by rw [hcall]) ?_
  rw [hctx, hcaller]
  exact push_update (hd j) (ht j)

/-- **What each step does to the counter.** -/
theorem Inv.tally {l : Label X} (h : Inv s) (hs : Step s l s') : Tally s s' := by
  cases hs with
  | queue | counted | limited | countLast | limitLast | check | woken | wake | setLimit | join
  | read => exact .same rfl fun k => Iff.rfl
  | @add t ctx ht hc =>
    have hpost := h.callers.not_pushing (t := t) (by simp [ht])
    obtain ⟨hstage, hsync⟩ := h.callers.early t (by rw [ht]; rfl)
    obtain ⟨hcaller, -, -⟩ := ctx_post hc
    refine .added ht rfl rfl ?_ ?_
    · rintro ⟨-, hpush | hwaits⟩
      · exact hpost _ hpush
      · rw [hstage] at hwaits
        cases hwaits
    · intro j
      by_cases hj : j = s.id t
      · subst hj
        refine iff_of_true ⟨hsync, Or.inl ?_⟩ (Or.inl rfl)
        exact (congrFun hcaller t).trans (Function.update_self ..)
      · rw [or_iff_right hj]
        refine pending_congr rfl rfl ?_
        show ctx.box.caller j.1 = .push j ↔ s.ctx.box.caller j.1 = .push j
        rw [hcaller]
        exact push_update (fun he => hj (Caller.push.inj he).symm) (hpost j)
  | @lock t ctx ht hc =>
    have hpost := h.callers.not_pushing (t := t) (by simp [ht])
    obtain ⟨hstage, hsync⟩ := h.callers.early t (by rw [ht]; rfl)
    obtain ⟨hcaller, -, -⟩ := ctx_post hc
    refine .same rfl fun j => ?_
    by_cases hj : j = s.id t
    · subst hj
      refine iff_of_false ?_ ?_
      · rintro ⟨hsync', -⟩
        simp at hsync'
      · rintro ⟨-, hpush | hwaits⟩
        · exact hpost _ hpush
        · rw [hstage] at hwaits
          cases hwaits
    · refine pending_congr (by simp [hj]) (by simp [hj]) ?_
      show ctx.box.caller j.1 = .push j ↔ s.ctx.box.caller j.1 = .push j
      rw [hcaller]
      exact push_update (fun he => hj (Caller.push.inj he).symm) (hpost j)
  | @push t ctx k ht hp hc =>
    obtain ⟨⟨d, hcaller, hd⟩, -, -⟩ := ctx_call hc
    obtain ⟨-, rfl, hstage⟩ := h.callers.pushing t k hp
    refine .same rfl fun j => ?_
    by_cases hj : j = s.id t
    · subst hj
      have hpush : s.ctx.box.caller (s.id t).1 = .push (s.id t) := hp
      unfold Pending
      simp [hpush, Stage.waits]
    · refine pending_congr (by simp [hj]) (by simp [hj]) ?_
      show ctx.box.caller j.1 = .push j ↔ s.ctx.box.caller j.1 = .push j
      rw [hcaller]
      exact push_update (hd j) fun he => hj (Caller.push.inj (hp.symm.trans he)).symm
  | @posted t ctx ht hp hc =>
    obtain ⟨⟨d, hcaller, hd⟩, -, -⟩ := ctx_call hc
    exact .same rfl (pending_context rfl rfl hcaller hd hp)
  | ended | block | leave => exact .same rfl (pending_set rfl rfl rfl rfl)
  | @stop t ctx ht _ hc =>
    obtain ⟨hcaller, -, -⟩ := ctx_stop hc
    exact .same rfl (pending_context rfl rfl hcaller (by simp)
      (h.callers.not_pushing (by simp [ht])))
  | @stored t ctx ht hc | @stopped t ctx ht hc =>
    obtain ⟨⟨d, hcaller, hd⟩, -, -⟩ := ctx_call hc
    exact .same rfl (pending_context rfl rfl hcaller hd (h.callers.not_pushing (by simp [ht])))
  | run _ _ hc =>
    obtain ⟨hcaller, -⟩ := ctx_run hc
    exact .same rfl fun j => pending_congr rfl rfl (by rw [context_ctx, hcaller])
  | @resume ctx head rest _ hd hc =>
    obtain ⟨hcaller, hahead⟩ := ctx_run hc
    have hqueued : (s.call head.2).stage = .queued := by
      apply h.nodes
      rw [hahead, head_of_drain hd]
      exact List.mem_cons_self
    exact .same rfl (pending_set rfl hcaller rfl (by rw [hqueued]; rfl))
  | spurious hc =>
    obtain ⟨hbox, -, -⟩ := ctx_spurious hc
    exact .same rfl fun j => pending_congr rfl rfl (by rw [context_ctx, hbox])
  | printed _ _ hst => exact .same rfl (pending_set rfl rfl rfl (by rw [hst]; rfl))
  | @sub k hh hst hk =>
    refine .subtracted (k := k) rfl rfl ⟨hk, Or.inr (by rw [hst]; rfl)⟩ fun j => ?_
    by_cases hj : j = k
    · subst hj
      refine iff_of_false ?_ fun hand => hand.1 rfl
      rintro ⟨-, hpush | hwaits⟩
      · obtain ⟨-, -, hfresh⟩ := h.callers.pushing j.1 j hpush
        cases hst.symm.trans hfresh
      · simp [Stage.waits] at hwaits
    · rw [and_iff_right hj]
      exact pending_congr (by simp [hj]) (by simp [hj]) Iff.rfl
  | @store k _ hst hk | @notify k _ hst hk =>
    refine .same rfl fun j => ?_
    by_cases hj : j = k
    · subst hj
      refine iff_of_false ?_ ?_
      · rintro ⟨hsync, -⟩
        simp [hk] at hsync
      · rintro ⟨hsync, -⟩
        cases hk.symm.trans hsync
    · exact pending_congr (by simp [hj]) (by simp [hj]) Iff.rfl

/-! ## 2. The counter is exact -/

omit [DecidableEq X] in
theorem Exact.same {pending : List (Id X)} (h : Exact s pending) (hcount : s'.count = s.count)
    (hpending : ∀ k, s'.Pending k ↔ s.Pending k) : Exact s' pending where
  nodup := h.nodup
  mem k := (h.mem k).trans (hpending k).symm
  count := by rw [hcount, h.count]

omit [DecidableEq X] in
theorem Exact.added {pending : List (Id X)} (h : Exact s pending) (hcount : s'.count = s.count + 1)
    (hnew : ¬ s.Pending k) (hpending : ∀ j, s'.Pending j ↔ j = k ∨ s.Pending j) :
    Exact s' (k :: pending) where
  nodup := List.nodup_cons.mpr ⟨fun hk => hnew ((h.mem k).mp hk), h.nodup⟩
  mem j := by rw [List.mem_cons, h.mem, hpending]
  count := by
    have hc := h.count
    rw [hcount, UInt64.toNat_add, List.length_cons]
    have hone : (1 : UInt64).toNat = 1 := rfl
    omega

theorem Exact.subtracted {pending : List (Id X)} (h : Exact s pending)
    (hcount : s'.count = s.count - 1) (hold : s.Pending k)
    (hpending : ∀ j, s'.Pending j ↔ j ≠ k ∧ s.Pending j) : Exact s' (pending.erase k) where
  nodup := h.nodup.erase k
  mem j := by rw [h.nodup.mem_erase_iff, h.mem, hpending]
  count := by
    have hc := h.count
    have hk : k ∈ pending := (h.mem k).mpr hold
    have hlength := List.length_erase_of_mem hk
    have hpos := List.length_pos_of_mem hk
    rw [hcount, UInt64.toNat_sub]
    have hone : (1 : UInt64).toNat = 1 := rfl
    omega

/-- `log::limit(limit)` before anything else. -/
def start (limit : UInt64) : Log X := { init with limit := limit }

theorem inv_start (limit : UInt64) : Inv (start limit : Log X) :=
  inv_init.congr rfl rfl rfl rfl rfl rfl

omit [DecidableEq X] in
theorem exact_start (limit : UInt64) : Exact (start limit : Log X) [] where
  nodup := List.nodup_nil
  mem k := iff_of_false List.not_mem_nil fun h => by rcases h.2 with h | h <;> cases h
  count := rfl

theorem exact_of_reachesBy {Q : Log X → Label X → Prop} {limit : UInt64}
    (hr : machine.ReachesBy Q (start limit) s) : Inv s ∧ ∃ pending, Exact s pending := by
  refine hr.preserves (I := fun s => Inv s ∧ ∃ pending, Exact s pending) ?_
    ⟨inv_start limit, [], exact_start limit⟩
  rintro a l b ⟨hinv, pending, hexact⟩ _ hs
  have hstep := step_cases hs
  refine ⟨hinv.step hstep, ?_⟩
  cases hinv.tally hstep with
  | same hcount hpending => exact ⟨_, hexact.same hcount hpending⟩
  | added _ _ hcount hnew hpending => exact ⟨_, hexact.added hcount hnew hpending⟩
  | subtracted _ hcount hold hpending => exact ⟨_, hexact.subtracted hcount hold hpending⟩

omit [DecidableEq X] in
/-- The coroutine frames of the pending entries are different objects in memory. -/
theorem Exact.count_eq {pending : List (Id X)} (h : Exact s pending) (frame : Id X → UInt64)
    (hnull : ∀ k ∈ pending, frame k ≠ 0)
    (hinj : ∀ j ∈ pending, ∀ k ∈ pending, frame j = frame k → j = k) :
    s.count.toNat = pending.length := by
  have hnodup : (pending.map fun k => (frame k).toNat).Nodup := by
    refine List.Nodup.map_on ?_ h.nodup
    intro j hj k hk he
    exact hinj j hj k hk (UInt64.toNat_inj.mp he)
  have hsub : (pending.map fun k => (frame k).toNat).toFinset ⊆ Finset.Ico 1 (2 ^ 64) := by
    intro n hn
    obtain ⟨k, hk, rfl⟩ := List.mem_map.mp (List.mem_toFinset.mp hn)
    have hne : (frame k).toNat ≠ 0 := fun he => hnull k hk (UInt64.toNat_inj.mp he)
    exact Finset.mem_Ico.mpr ⟨Nat.pos_of_ne_zero hne, (frame k).toNat_lt⟩
  have hcard := Finset.card_le_card hsub
  rw [List.toFinset_card_of_nodup hnodup, List.length_map, Nat.card_Ico] at hcard
  have hc := h.count
  omega

/-! ## 3. The overshoot is bounded -/

/-- The comparison with the limit was in favour of the queue, or will be. -/
def At.passed (limit : UInt64) : At → Bool
  | .add => true
  | .counted count => count < limit
  | _ => false

/-- How many of these threads have passed the comparison and not added yet. -/
def passing (limit : UInt64) (callers : Finset (Thread Unit X)) (s : Log X) : ℕ :=
  callers.sum fun t => ((s.at_ t).passed limit).toNat

/-- The most that `g_count` can come to. -/
def mostQueued (limit : UInt64) (threads : ℕ) : ℕ :=
  if limit = 0 then 0 else limit.toNat + threads - 1

/-- The condition on a step: the limit is left alone, and `log::queue` is called by one of these
    threads. -/
def Within (callers : Finset (Thread Unit X)) (_ : Log X) : Label X → Prop
  | .setLimit _ => False
  | .queue t => t ∈ callers
  | _ => True

instance (callers : Finset (Thread Unit X)) (s : Log X) : (l : Label X) →
    Decidable (Within callers s l)
  | .setLimit _ => inferInstanceAs (Decidable False)
  | .queue t => inferInstanceAs (Decidable (t ∈ callers))
  | .count _ | .limit _ | .call _ | .wake _ | .stop _ | .run | .spurious | .read | .handle =>
    inferInstanceAs (Decidable True)

variable {limit : UInt64} {callers : Finset (Thread Unit X)} {p : At}

/-- What a thread that moves on may come to. -/
structure Turn (limit : UInt64) (s : Log X) (l : Label X) (t : Thread Unit X) (p : At) : Prop where
  early : p.early = true → (s.at_ t).early = true ∨ l = .queue t
  limited : ∀ m, p = .limited m → m = limit
  passed : p.passed limit = true → (s.at_ t).passed limit = true ∨
    (s.at_ t).early = true ∧ s.count < limit

omit [DecidableEq X] in
theorem Turn.of_not_early {l : Label X} (h : p.early = false) : Turn limit s l t p where
  early he := by cases h.symm.trans he
  limited m he := by
    rw [he] at h
    cases h
  passed he := by
    cases p with
    | add | counted count => cases h
    | _ => cases he

theorem turn_of_step {l : Label X} (hlimit : s.limit = limit)
    (hlimited : ∀ t m, s.at_ t = .limited m → m = limit) (hs : Step s l s') :
    s'.at_ = s.at_ ∨ ∃ t p, s'.at_ = Function.update s.at_ t p ∧ Turn limit s l t p := by
  cases hs with
  | @queue t ht =>
    exact Or.inr ⟨t, .compare, rfl, fun _ => Or.inr rfl, nofun, fun he => by cases he⟩
  | @counted t ht =>
    refine Or.inr ⟨t, _, rfl, fun _ => Or.inl (by rw [ht]; rfl), nofun, fun he => Or.inr ?_⟩
    exact ⟨by rw [ht]; rfl, of_decide_eq_true he⟩
  | @limited t ht =>
    refine Or.inr ⟨t, _, rfl, fun _ => Or.inl (by rw [ht]; rfl), ?_, fun he => by cases he⟩
    intro m he
    cases he
    exact hlimit
  | @countLast t m ht =>
    have hm := hlimited t m ht
    refine Or.inr ⟨t, _, rfl, fun _ => Or.inl (by rw [ht]; rfl), ?_, fun he => Or.inr ?_⟩
    · intro m he
      split at he <;> cases he
    · refine ⟨by rw [ht]; rfl, ?_⟩
      by_contra hlt
      rw [hm, if_neg hlt] at he
      cases he
  | @limitLast t count ht =>
    refine Or.inr ⟨t, _, rfl, fun _ => Or.inl (by rw [ht]; rfl), ?_, fun he => Or.inl ?_⟩
    · intro m he
      split at he <;> cases he
    · rw [ht]
      by_contra hlt
      have hlt : ¬ count < limit := fun h => hlt (decide_eq_true h)
      rw [hlimit, if_neg hlt] at he
      cases he
  | add | lock | woken | wake | leave | stop | stopped | join | ended | block =>
    exact Or.inr ⟨_, _, rfl, .of_not_early rfl⟩
  | posted | check =>
    refine Or.inr ⟨_, _, rfl, .of_not_early ?_⟩
    split <;> rfl
  | push | setLimit | stored | run | resume | spurious | read | printed | sub | store | notify =>
    exact Or.inl rfl

/-- A thread moves on. -/
theorem passing_update (hat : s'.at_ = Function.update s.at_ t p) (ht : t ∈ callers) :
    passing limit callers s' + ((s.at_ t).passed limit).toNat =
      passing limit callers s + (p.passed limit).toNat := by
  have hfun : (fun u => ((s'.at_ u).passed limit).toNat) =
      Function.update (fun u => ((s.at_ u).passed limit).toNat) t (p.passed limit).toNat := by
    rw [hat]
    exact funext fun u => Function.apply_update (fun _ p => (At.passed limit p).toNat) s.at_ t p u
  unfold passing
  rw [hfun, Finset.sum_update_of_mem ht, Finset.sum_eq_add_sum_sdiff_singleton_of_mem ht
    fun u => ((s.at_ u).passed limit).toNat]
  omega

omit [DecidableEq X] in
theorem passing_congr (hat : s'.at_ = s.at_) :
    passing limit callers s' = passing limit callers s := by
  unfold passing
  rw [hat]

theorem passing_update_of_not_mem (hat : s'.at_ = Function.update s.at_ t p) (ht : t ∉ callers) :
    passing limit callers s' = passing limit callers s := by
  refine Finset.sum_congr rfl fun u hu => ?_
  have hut : u ≠ t := fun he => ht (he ▸ hu)
  rw [hat, Function.update_of_ne hut]

omit [DecidableEq X] in
/-- A thread that has not passed is not among those that have. -/
theorem passing_lt (ht : t ∈ callers) (hp : (s.at_ t).passed limit = false) :
    passing limit callers s < callers.card := by
  have hle : ∀ u, ((s.at_ u).passed limit).toNat ≤ 1 := fun u => Bool.toNat_le _
  calc passing limit callers s < callers.sum fun _ => 1 :=
        Finset.sum_lt_sum (fun u _ => hle u) ⟨t, ht, by simp [hp]⟩
    _ = callers.card := by simp

/-- There is room for every thread that has passed. -/
structure Room (limit : UInt64) (callers : Finset (Thread Unit X)) (s : Log X) : Prop where
  inv : Inv s
  fixed : s.limit = limit
  limited : ∀ t m, s.at_ t = .limited m → m = limit
  early : ∀ t, (s.at_ t).early = true → t ∈ callers
  room : ∃ pending, Exact s pending ∧
    pending.length + passing limit callers s ≤ mostQueued limit callers.card

theorem room_start (limit : UInt64) (callers : Finset (Thread Unit X)) :
    Room limit callers (start limit) where
  inv := inv_start limit
  fixed := rfl
  limited t m h := by cases h
  early t h := by cases h
  room := by
    refine ⟨[], exact_start limit, ?_⟩
    have hnone : passing limit callers (start limit : Log X) = 0 :=
      Finset.sum_eq_zero fun t _ => rfl
    rw [hnone]
    exact Nat.zero_le _

theorem limit_of_step {l : Label X} (hq : Within callers s l) (hs : Step s l s') :
    s'.limit = s.limit := by
  cases hs with
  | setLimit => exact hq.elim
  | _ => rfl

/-- A step of a thread that finds no room, or that had it. -/
theorem passing_le {l : Label X} (hturn : Turn limit s l t p)
    (hat : s'.at_ = Function.update s.at_ t p) :
    passing limit callers s' ≤ passing limit callers s ∨
      t ∈ callers ∧ (s.at_ t).passed limit = false ∧ s.count < limit ∧
        passing limit callers s' = passing limit callers s + 1 := by
  by_cases ht : t ∈ callers
  · have hsum : passing limit callers s' + ((s.at_ t).passed limit).toNat =
        passing limit callers s + (p.passed limit).toNat := passing_update hat ht
    cases hp : p.passed limit with
    | false =>
      rw [hp] at hsum
      exact Or.inl (Nat.le_trans (Nat.le_add_right ..) (Nat.le_of_eq hsum))
    | true =>
      rw [hp] at hsum
      rcases hturn.passed hp with hold | ⟨-, hlt⟩
      · rw [hold] at hsum
        exact Or.inl (Nat.le_of_eq (Nat.add_right_cancel hsum))
      · cases hold : (s.at_ t).passed limit with
        | true =>
          rw [hold] at hsum
          exact Or.inl (Nat.le_of_eq (Nat.add_right_cancel hsum))
        | false =>
          rw [hold] at hsum
          exact Or.inr ⟨ht, rfl, hlt, hsum⟩
  · exact Or.inl (Nat.le_of_eq (passing_update_of_not_mem hat ht))

/-- **There stays room**, as long as the counter cannot come to 2^64. -/
theorem Room.step {l : Label X} (h : Room limit callers s) (hq : Within callers s l)
    (hmost : mostQueued limit callers.card < 2 ^ 64) (hs : Step s l s') :
    Room limit callers s' := by
  obtain ⟨pending, hexact, hle⟩ := h.room
  have hturn := turn_of_step h.fixed h.limited hs
  refine ⟨h.inv.step hs, (limit_of_step hq hs).trans h.fixed, ?_, ?_, ?_⟩
  · rcases hturn with hat | ⟨t, p, hat, hturn⟩
    · rw [hat]
      exact h.limited
    · rw [hat]
      intro u m hu
      rcases update_cases hu with ⟨rfl, hp⟩ | ⟨-, hu⟩
      · exact hturn.limited m hp
      · exact h.limited u m hu
  · rcases hturn with hat | ⟨t, p, hat, hturn⟩
    · rw [hat]
      exact h.early
    · rw [hat]
      intro u hu
      by_cases hut : u = t
      · subst hut
        rw [Function.update_self] at hu
        rcases hturn.early hu with hold | rfl
        · exact h.early u hold
        · exact hq
      · rw [Function.update_of_ne hut] at hu
        exact h.early u hu
  · cases h.inv.tally hs with
    | same hcount hpending =>
      refine ⟨pending, hexact.same hcount hpending, ?_⟩
      rcases hturn with hat | ⟨t, p, hat, hturn⟩
      · rw [passing_congr hat]
        exact hle
      · rcases passing_le hturn hat with hless | ⟨ht, hpassed, hlt, hmore⟩
        · exact Nat.le_trans (Nat.add_le_add_left hless _) hle
        · -- what the thread compared is the number of pending entries
          have hcounted := hexact.count
          have hsmall : pending.length < 2 ^ 64 :=
            Nat.lt_of_le_of_lt (Nat.le_trans (Nat.le_add_right ..) hle) hmost
          rw [Nat.mod_eq_of_lt hsmall] at hcounted
          have hlt := UInt64.lt_iff_toNat_lt.mp hlt
          have hothers := passing_lt ht hpassed
          have hne : limit ≠ 0 := by
            rintro rfl
            exact absurd hlt (Nat.not_lt_zero _)
          unfold mostQueued
          rw [if_neg hne, hmore]
          omega
    | @added t ht hat hcount hnew hpending =>
      refine ⟨_, hexact.added hcount hnew hpending, ?_⟩
      have hsum : passing limit callers s' + ((s.at_ t).passed limit).toNat =
          passing limit callers s + _ := passing_update hat (h.early t (by rw [ht]; rfl))
      rw [ht] at hsum
      have hsum : passing limit callers s' + 1 = passing limit callers s := hsum
      rw [List.length_cons]
      omega
    | @subtracted k hat hcount hold hpending =>
      refine ⟨_, hexact.subtracted hcount hold hpending, ?_⟩
      have hless := List.length_erase_le (a := k) (l := pending)
      rw [passing_congr hat]
      omega

theorem count_le_mostQueued (hr : machine.ReachesBy (Within callers) (start limit) s) :
    s.count.toNat ≤ mostQueued limit callers.card := by
  by_cases hmost : mostQueued limit callers.card < 2 ^ 64
  · have hroom : Room limit callers s :=
      hr.preserves (fun h hq hs => Room.step h hq hmost (step_cases hs)) (room_start limit callers)
    obtain ⟨pending, hexact, hle⟩ := hroom.room
    have hcount := hexact.count
    omega
  · exact Nat.le_trans (Nat.le_of_lt s.count.toNat_lt) (Nat.not_lt.mp hmost)

/-! ## 4. Every run -/

/-- **The log counter is exact, and its overshoot is bounded.** In every run, from any limit,
    `g_count` is the number of pending entries in 64 bits, which is the number itself because
    each of them has a frame in memory, and an entry that is about to subtract is one of them.
    Where the limit stays `limit` and only `callers` call `log::queue`, it never exceeds
    `limit + callers.card - 1`, and is 0 for the limit 0. -/
theorem counter_exact_and_bounded (limit : UInt64) :
    (∀ s : Log X, machine.Reaches (start limit) s → ∃ pending, Exact s pending ∧
      (∀ frame : Id X → UInt64, (∀ k ∈ pending, frame k ≠ 0) →
        (∀ j ∈ pending, ∀ k ∈ pending, frame j = frame k → j = k) →
        s.count.toNat = pending.length) ∧
      ∀ k s', s.handleStep k = some s' → s'.count ≠ s.count → k ∈ pending) ∧
    ∀ (callers : Finset (Thread Unit X)) (s : Log X),
      machine.ReachesBy (Within callers) (start limit) s →
      if limit = 0 then s.count = 0 else s.count.toNat ≤ limit.toNat + callers.card - 1 := by
  constructor
  · intro s hr
    obtain ⟨hinv, pending, hexact⟩ := exact_of_reachesBy hr
    refine ⟨pending, hexact, hexact.count_eq, ?_⟩
    intro k s' hstep hcount
    refine (hexact.mem k).mpr ?_
    simp only [handleStep] at hstep
    split at hstep
    · cases hstep
      exact absurd rfl hcount
    · rename_i hst hk
      exact ⟨hk, Or.inr (by rw [hst]; rfl)⟩
    · cases hstep
      exact absurd rfl hcount
    · cases hstep
      exact absurd rfl hcount
    · cases hstep
  · intro callers s hr
    have hle := count_le_mostQueued hr
    unfold mostQueued at hle
    split
    · rename_i hzero
      rw [if_pos hzero] at hle
      exact UInt64.toNat_inj.mp (Nat.le_zero.mp hle)
    · rename_i hne
      rwa [if_neg hne] at hle

/-- With the limit 1, two threads find room for one entry at the same time, and the counter comes
    to the bound. -/
theorem counter_exact_and_bounded_two :
    let a : Thread Unit Bool := .other false
    let b : Thread Unit Bool := .other true
    let schedule : List (Label Bool) :=
      [.queue a, .queue b, .count a, .count b, .limit a, .limit b, .call a, .call b]
    ∃ s, machine.execBy (Within {a, b}) (start 1) schedule = some s ∧ s.count = 2 ∧
      (∃ pending, Exact s pending) ∧ s.count.toNat ≤ 1 + 2 - 1 := by
  intro a b schedule
  have hrun : machine.execBy (Within {a, b}) (start 1) schedule = some _ := rfl
  have hreach := Machine.reachesBy_of_execBy schedule hrun
  have hbound := (counter_exact_and_bounded 1).2 {a, b} _ hreach
  obtain ⟨pending, hexact, -⟩ := (counter_exact_and_bounded 1).1 _ hreach.reaches
  rw [if_neg (by decide)] at hbound
  exact ⟨_, hrun, rfl, ⟨pending, hexact⟩, hbound⟩

end Log
end Ice
