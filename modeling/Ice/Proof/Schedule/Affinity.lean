import Ice.Proof.Schedule.Loop
import Mathlib.Data.List.Nodup

/-!
# Thread affinity of `schedule`

A coroutine is in one place at a time: on the stack of one thread, or among the nodes of one
scheduler, and its own position in `co_await c.schedule(post)` says which (`AffinityInv`).
The step to watch is the publication. It takes the coroutine off its thread's stack in the
very access that makes it resumable, so that a runner that resumes it before the publishing
thread has left `await_suspend` finds it on no other stack.

Where a coroutine continues follows from there. After the posted path it was resumed by the
loop of `c`, which runs on the thread that is inside `c.run()`. On the inline path
`is_current()` was true when the schedule was created, which says the same of the thread that
created it, and the loop below cannot leave `run` while a coroutine stands on its stack.
-/

set_option autoImplicit false

namespace Ice

open Lib

variable {C E K X : Type*}

/-- A thread is inside the coroutine. -/
def Co.entered : Co C → Bool
  | .running | .created .. | .suspending _ | .continued _ => true
  | .fresh | .waiting _ | .finished => false

/-- The scheduler on whose thread the coroutine has to be. -/
def Co.pinned : Co C → Option C
  | .created c true | .continued c => some c
  | _ => none

namespace Schedule

/-- Every coroutine is where its position says it is. -/
structure AffinityInv (s : Schedule C E K X) : Prop where
  held : ∀ c k, k ∈ (s.loop c).nodes → s.co k = .waiting c
  heldOnce : ∀ c, (s.loop c).nodes.Nodup
  entered : ∀ t k, k ∈ s.stack t → (s.co k).entered = true
  enteredOnce : ∀ t, (s.stack t).Nodup
  oneThread : ∀ t u k, k ∈ s.stack t → k ∈ s.stack u → t = u
  current : ∀ t c, s.index t c = true ↔ t = .runner c ∧ s.phase c = .inside
  pinned : ∀ k c, (s.co k).pinned = some c → k ∈ s.stack (.runner c) ∧ s.phase c = .inside
  -- A thread about to publish a node is at the end of that coroutine's `await_suspend`.
  publishing : ∀ t c k, (s.loop c).box.caller t = .push k →
    s.calling t = some c ∧ (s.stack t).head? = some k ∧ s.co k = .suspending c

theorem affinityInv_init (kind : C → Kind) : AffinityInv (init kind : Schedule C E K X) := by
  have hloop : ∀ c, (((init kind : Schedule C E K X).loop c).nodes = []) ∧
      ∀ t, ((init kind : Schedule C E K X).loop c).box.caller t = .idle := by
    intro c
    cases hk : kind c <;> simp [init, hk, Kind.loop, Loop.nodes, Loop.box, Context.init,
      Net.Service.create, Net.Service.interrupt, Mailbox.init, Fifo.empty, Context.Run.batch,
      Net.Service.Run.batch]
  refine ⟨?_, ?_, by simp [init], by simp [init], by simp [init], by simp [init],
    by simp [init, Co.pinned], ?_⟩
  · intro c k hk
    rw [(hloop c).1] at hk
    cases hk
  · intro c
    rw [(hloop c).1]
    exact List.nodup_nil
  · intro t c k hk
    rw [(hloop c).2 t] at hk
    cases hk

/-! ## 1. Updates -/

section Update

variable [DecidableEq C] {s : Schedule C E K X} {l : Loop E K (Thread C X)} {c : C}

/-- A loop that holds the same nodes is as good as it was. -/
theorem nodes_update (h : l.nodes = (s.loop c).nodes) :
    ∀ d, (Function.update s.loop c l d).nodes = (s.loop d).nodes :=
  (Function.forall_update_iff s.loop fun d l => l.nodes = (s.loop d).nodes).mpr
    ⟨h, fun _ _ => rfl⟩

variable [DecidableEq X]

/-- A caller whose access leaves it not about to push was not the one that is. -/
theorem caller_update {t u : Thread C X} {x : Caller K} {d : C} {k : K}
    (h : l.box.caller = Function.update (s.loop c).box.caller t x) (hx : ∀ k, x ≠ .push k)
    (hu : (Function.update s.loop c l d).box.caller u = .push k) :
    (s.loop d).box.caller u = .push k ∧ ¬ (d = c ∧ u = t) := by
  by_cases hd : d = c
  · subst hd
    rw [Function.update_self, h] at hu
    rcases update_cases hu with ⟨-, heq⟩ | ⟨hne, hu⟩
    · exact absurd heq (hx k)
    · exact ⟨hu, fun hut => hne hut.2⟩
  · rw [Function.update_of_ne hd] at hu
    exact ⟨hu, fun hut => hd hut.1⟩

end Update

theorem userCode_calling {s : Schedule C E K X} {t : Thread C X} (h : s.userCode t = true) :
    s.calling t = none :=
  Option.isNone_iff_eq_none.mp (Bool.and_eq_true _ _ |>.mp h).1

theorem userCode_executing {s : Schedule C E K X} {t : Thread C X} {k : K} {rest : List K}
    (h : s.userCode t = true) (hstack : s.stack t = k :: rest) : (s.co k).executing = true := by
  have hcode := (Bool.and_eq_true _ _ |>.mp h).2
  rw [hstack] at hcode
  exact hcode

namespace AffinityInv

variable {s s' : Schedule C E K X} {t : Thread C X} {k : K}

/-- A coroutine on a stack is among no scheduler's nodes. -/
theorem ne_of_held (h : AffinityInv s) {x : Co C} (hk : s.co k = x) (hx : ∀ c, x ≠ .waiting c)
    {c : C} {j : K} (hj : j ∈ (s.loop c).nodes) : j ≠ k := by
  intro hjk
  exact hx c (hk.symm.trans (hjk ▸ h.held c j hj))

theorem ne_of_publishing (h : AffinityInv s) {x : Co C} (hk : s.co k = x)
    (hx : ∀ c, x ≠ .suspending c) {c : C} {u : Thread C X} {j : K}
    (hj : (s.loop c).box.caller u = .push j) : j ≠ k := by
  intro hjk
  exact hx c (hk.symm.trans (hjk ▸ (h.publishing u c j hj).2.2))

/-- A thread that is inside no call is not about to publish. -/
theorem not_publishing (h : AffinityInv s) (hcalling : s.calling t = none) {u : Thread C X}
    {c : C} {j : K} (hj : (s.loop c).box.caller u = .push j) : u ≠ t := by
  intro hu
  have hin := (h.publishing u c j hj).1
  rw [hu, hcalling] at hin
  cases hin

variable [DecidableEq K]

/-- A coroutine moves on, on the stack where it is. -/
theorem setCo (h : AffinityInv s) {x : Co C} (hk : k ∈ s.stack t)
    (hold : ∀ c, s.co k ≠ .suspending c) (hx : x.entered = true)
    (hpin : ∀ c, x.pinned = some c → t = .runner c ∧ s.phase c = .inside) :
    AffinityInv { s with co := Function.update s.co k x } := by
  have hentered := h.entered t k hk
  refine ⟨?_, h.heldOnce, ?_, h.enteredOnce, h.oneThread, h.current, ?_, ?_⟩ <;> dsimp only
  · intro c j hj
    have hne : j ≠ k := by
      refine h.ne_of_held rfl (fun d hd => ?_) hj
      rw [hd] at hentered
      cases hentered
    rw [Function.update_of_ne hne]
    exact h.held c j hj
  · intro u j hj
    by_cases hjk : j = k
    · rw [hjk, Function.update_self]
      exact hx
    · rw [Function.update_of_ne hjk]
      exact h.entered u j hj
  · intro j c hj
    by_cases hjk : j = k
    · rw [hjk, Function.update_self] at hj
      obtain ⟨rfl, hphase⟩ := hpin c hj
      exact ⟨hjk ▸ hk, hphase⟩
    · rw [Function.update_of_ne hjk] at hj
      exact h.pinned j c hj
  · intro u c j hj
    have hne : j ≠ k := h.ne_of_publishing rfl hold hj
    rw [Function.update_of_ne hne]
    exact h.publishing u c j hj

variable [DecidableEq C] [DecidableEq X]

/-- A coroutine that was on no stack comes on top of one. Its nodes, if it had one, are gone. -/
theorem push (h : AffinityInv s) {x : Co C} {loop : C → Loop E K (Thread C X)}
    (hold : (s.co k).entered = false) (hx : x.entered = true)
    (hcalling : s.calling t = none)
    (hloop : ∀ c j, j ∈ (loop c).nodes → j ∈ (s.loop c).nodes ∧ j ≠ k)
    (honce : ∀ c, (loop c).nodes.Nodup)
    (hcaller : ∀ c, (loop c).box.caller = (s.loop c).box.caller)
    (hpin : ∀ c, x.pinned = some c → t = .runner c ∧ s.phase c = .inside) :
    AffinityInv { s with
      loop := loop
      stack := Function.update s.stack t (k :: s.stack t)
      co := Function.update s.co k x } := by
  -- Nothing that was on a stack is the coroutine.
  have hne : ∀ {u j}, j ∈ s.stack u → j ≠ k := by
    intro u j hj hjk
    have hentered := h.entered u j hj
    rw [hjk, hold] at hentered
    cases hentered
  have hmem : ∀ {u j}, j ∈ Function.update s.stack t (k :: s.stack t) u →
      j = k ∧ u = t ∨ j ∈ s.stack u := by
    intro u j hj
    by_cases hu : u = t
    · rw [hu, Function.update_self] at hj
      rcases List.mem_cons.mp hj with hjk | hj
      · exact Or.inl ⟨hjk, hu⟩
      · exact Or.inr (hu ▸ hj)
    · rw [Function.update_of_ne hu] at hj
      exact Or.inr hj
  refine ⟨?_, honce, ?_, ?_, ?_, h.current, ?_, ?_⟩ <;> dsimp only
  · intro c j hj
    obtain ⟨hj, hjk⟩ := hloop c j hj
    rw [Function.update_of_ne hjk]
    exact h.held c j hj
  · intro u j hj
    rcases hmem hj with ⟨hjk, -⟩ | hj
    · rw [hjk, Function.update_self]
      exact hx
    · rw [Function.update_of_ne (hne hj)]
      exact h.entered u j hj
  · have hnodup : (k :: s.stack t).Nodup :=
      List.nodup_cons.mpr ⟨fun hk => hne hk rfl, h.enteredOnce t⟩
    exact (Function.forall_update_iff s.stack fun _ l => l.Nodup).mpr
      ⟨hnodup, fun u _ => h.enteredOnce u⟩
  · intro u v j hu hv
    rcases hmem hu with ⟨hjk, hut⟩ | hu
    · rcases hmem hv with ⟨-, hvt⟩ | hv
      · rw [hut, hvt]
      · exact absurd hjk (hne hv)
    · rcases hmem hv with ⟨hjk, -⟩ | hv
      · exact absurd hjk (hne hu)
      · exact h.oneThread u v j hu hv
  · intro j c hj
    by_cases hjk : j = k
    · rw [hjk, Function.update_self] at hj
      obtain ⟨rfl, hphase⟩ := hpin c hj
      rw [hjk, Function.update_self]
      exact ⟨List.mem_cons_self, hphase⟩
    · rw [Function.update_of_ne hjk] at hj
      obtain ⟨hstack, hphase⟩ := h.pinned j c hj
      refine ⟨?_, hphase⟩
      by_cases hu : Thread.runner c = t
      · rw [hu, Function.update_self]
        exact List.mem_cons_of_mem k (hu ▸ hstack)
      · rw [Function.update_of_ne hu]
        exact hstack
  · intro u c j hj
    rw [hcaller] at hj
    obtain ⟨hin, hhead, hco⟩ := h.publishing u c j hj
    have hu := h.not_publishing hcalling hj
    have hjk : j ≠ k := hne (List.mem_of_head? hhead)
    rw [Function.update_of_ne hu, Function.update_of_ne hjk]
    exact ⟨hin, hhead, hco⟩

/-- The coroutine on top of a stack leaves it, and takes its node, if it has one, with it. -/
theorem pop (h : AffinityInv s) {x : Co C} {rest : List K} {loop : C → Loop E K (Thread C X)}
    (hstack : s.stack t = k :: rest) (hpin : x.pinned = none)
    (hheld : ∀ c j, j ∈ (loop c).nodes → j ∈ (s.loop c).nodes ∨ j = k ∧ x = .waiting c)
    (honce : ∀ c, (loop c).nodes.Nodup)
    (hcaller : ∀ u c j, (loop c).box.caller u = .push j → (s.loop c).box.caller u = .push j)
    (hquiet : ∀ c j, (loop c).box.caller t ≠ .push j) :
    AffinityInv { s with
      loop := loop
      stack := Function.update s.stack t rest
      co := Function.update s.co k x } := by
  have hk : k ∈ s.stack t := hstack ▸ List.mem_cons_self
  have hentered := h.entered t k hk
  have hnodup := h.enteredOnce t
  rw [hstack] at hnodup
  obtain ⟨hout, hrest⟩ := List.nodup_cons.mp hnodup
  have hmem : ∀ {u j}, j ∈ Function.update s.stack t rest u → j ≠ k ∧ j ∈ s.stack u := by
    intro u j hj
    by_cases hu : u = t
    · rw [hu, Function.update_self] at hj
      exact ⟨fun hjk => hout (hjk ▸ hj), hu ▸ hstack ▸ List.mem_cons_of_mem k hj⟩
    · rw [Function.update_of_ne hu] at hj
      exact ⟨fun hjk => hu (h.oneThread u t k (hjk ▸ hj) hk), hj⟩
  refine ⟨?_, honce, ?_, ?_, ?_, h.current, ?_, ?_⟩ <;> dsimp only
  · intro c j hj
    rcases hheld c j hj with hj | ⟨hjk, hx⟩
    · have hne : j ≠ k := by
        refine h.ne_of_held rfl (fun d hd => ?_) hj
        rw [hd] at hentered
        cases hentered
      rw [Function.update_of_ne hne]
      exact h.held c j hj
    · rw [hjk, Function.update_self, hx]
  · intro u j hj
    obtain ⟨hne, hj⟩ := hmem hj
    rw [Function.update_of_ne hne]
    exact h.entered u j hj
  · exact (Function.forall_update_iff s.stack fun _ l => l.Nodup).mpr
      ⟨hrest, fun u _ => h.enteredOnce u⟩
  · intro u v j hu hv
    exact h.oneThread u v j (hmem hu).2 (hmem hv).2
  · intro j c hj
    have hne : j ≠ k := by
      intro hjk
      rw [hjk, Function.update_self, hpin] at hj
      cases hj
    rw [Function.update_of_ne hne] at hj
    obtain ⟨hin, hphase⟩ := h.pinned j c hj
    refine ⟨?_, hphase⟩
    by_cases hu : Thread.runner c = t
    · rw [hu, Function.update_self]
      rw [hu, hstack] at hin
      exact (List.mem_cons.mp hin).resolve_left hne
    · rw [Function.update_of_ne hu]
      exact hin
  · intro u c j hj
    have hu : u ≠ t := fun hu => hquiet c j (hu ▸ hj)
    obtain ⟨hin, hhead, hco⟩ := h.publishing u c j (hcaller u c j hj)
    have hjk : j ≠ k := fun hjk =>
      hu (h.oneThread u t k (hjk ▸ List.mem_of_head? hhead) hk)
    rw [Function.update_of_ne hu, Function.update_of_ne hjk]
    exact ⟨hin, hhead, hco⟩

omit [DecidableEq K] [DecidableEq C] [DecidableEq X] in
/-- Calls into schedulers that hold the same nodes as before. A thread is not about to publish
    a node unless it was, or has just entered `await_suspend`. -/
theorem calls (h : AffinityInv s) {loop : C → Loop E K (Thread C X)}
    {calling : Thread C X → Option C} (hnodes : ∀ c, (loop c).nodes = (s.loop c).nodes)
    (hcaller : ∀ u c j, (loop c).box.caller u = .push j →
      (s.loop c).box.caller u = .push j ∧ calling u = s.calling u ∨
        calling u = some c ∧ (s.stack u).head? = some j ∧ s.co j = .suspending c) :
    AffinityInv { s with loop := loop, calling := calling } := by
  refine ⟨?_, ?_, h.entered, h.enteredOnce, h.oneThread, h.current, h.pinned, ?_⟩ <;> dsimp only
  · intro c j hj
    rw [hnodes] at hj
    exact h.held c j hj
  · intro c
    rw [hnodes]
    exact h.heldOnce c
  · intro u c j hj
    rcases hcaller u c j hj with ⟨hold, heq⟩ | hnew
    · rw [heq]
      exact h.publishing u c j hold
    · exact hnew

omit [DecidableEq K] in
/-- `run` of `c` is entered or left, with no coroutine on its thread when it is left. -/
theorem phase (h : AffinityInv s) {c : C} {p : Phase} {b : Bool} (hb : b = true ↔ p = .inside)
    (hleft : p ≠ .inside → s.stack (.runner c) = []) :
    AffinityInv { s with
      phase := Function.update s.phase c p
      index := Function.update s.index (.runner c)
        (Function.update (s.index (.runner c)) c b) } := by
  refine ⟨h.held, h.heldOnce, h.entered, h.enteredOnce, h.oneThread, ?_, ?_, h.publishing⟩ <;>
    dsimp only
  · intro u d
    by_cases hd : d = c
    · rw [hd, Function.update_self]
      by_cases hu : u = .runner c
      · rw [hu, Function.update_self, Function.update_self, hb]
        simp
      · rw [Function.update_of_ne hu, h.current]
        simp [hu]
    · rw [Function.update_of_ne hd]
      by_cases hu : u = .runner c
      · rw [hu, Function.update_self, Function.update_of_ne hd]
        exact h.current _ d
      · rw [Function.update_of_ne hu]
        exact h.current u d
  · intro k d hk
    obtain ⟨hin, hphase⟩ := h.pinned k d hk
    refine ⟨hin, ?_⟩
    by_cases hd : d = c
    · rw [hd, Function.update_self]
      by_contra hp
      rw [hd, hleft hp] at hin
      cases hin
    · rw [Function.update_of_ne hd]
      exact hphase

/-! ## 3. The steps -/

theorem awaitStep (h : AffinityInv s) {rest : List K} (hstack : s.stack t = k :: rest)
    (hcalling : s.calling t = none) (hs : s.awaitStep t k = some s') : AffinityInv s' := by
  have hk : k ∈ s.stack t := hstack ▸ List.mem_cons_self
  unfold Schedule.awaitStep at hs
  split at hs
  · rename_i c hco
    -- `await_ready`: the schedule was created on the thread of `c`.
    obtain rfl := Option.some.inj hs
    refine h.setCo hk (by simp [hco]) rfl ?_
    intro d hd
    obtain rfl := Option.some.inj hd
    obtain ⟨hin, hphase⟩ := h.pinned k c (by rw [hco]; rfl)
    exact ⟨h.oneThread t _ k hk hin, hphase⟩
  · rename_i c hco
    obtain ⟨loop, hpost, rfl⟩ := Option.map_eq_some_iff.mp hs
    obtain ⟨hcaller, hnodes⟩ := Loop.post_spec hpost
    have hco' : AffinityInv { s with co := Function.update s.co k (.suspending c) } :=
      h.setCo hk (by simp [hco]) rfl (by simp [Co.pinned])
    refine hco'.calls (nodes_update hnodes) ?_
    intro u d j hj
    dsimp only
    by_cases hd : d = c
    · subst hd
      rw [Function.update_self, hcaller] at hj
      rcases update_cases hj with ⟨rfl, heq⟩ | ⟨hne, hj⟩
      · obtain rfl := Caller.push.inj heq
        refine Or.inr ⟨Function.update_self .., by rw [hstack]; rfl, Function.update_self ..⟩
      · exact Or.inl ⟨hj, Function.update_of_ne hne ..⟩
    · rw [Function.update_of_ne hd] at hj
      exact Or.inl ⟨hj, Function.update_of_ne (h.not_publishing hcalling hj) ..⟩
  · cases hs

theorem callStep (h : AffinityInv s) {c : C} (hcalling : s.calling t = some c)
    (hs : s.callStep t c = some s') : AffinityInv s' := by
  obtain ⟨loop, hcall, hs⟩ := Option.map_eq_some_iff.mp hs
  obtain ⟨⟨x, hcaller, hx⟩, hnodes⟩ := Loop.call_spec hcall
  -- After the access `t` is not about to publish anything, to any scheduler.
  have hupdate : ∀ u d j, (Function.update s.loop c loop d).box.caller u = .push j →
      (s.loop d).box.caller u = .push j ∧ u ≠ t := by
    intro u d j hj
    obtain ⟨hold, hnot⟩ := caller_update hcaller hx hj
    refine ⟨hold, ?_⟩
    intro hu
    have hin := (h.publishing u d j hold).1
    rw [hu, hcalling] at hin
    exact hnot ⟨(Option.some.inj hin).symm, hu⟩
  cases ht : (s.loop c).box.caller t with
  | push k =>
    rw [ht] at hs hnodes
    subst hs
    obtain ⟨-, hhead, hco⟩ := h.publishing t c k ht
    obtain ⟨rest, hstack⟩ : ∃ rest, s.stack t = k :: rest := by
      cases hst : s.stack t with
      | nil => rw [hst] at hhead; cases hhead
      | cons j rest =>
        rw [hst] at hhead
        exact ⟨rest, by rw [Option.some.inj hhead]⟩
    dsimp only
    rw [hstack, List.tail_cons]
    refine h.pop hstack rfl ?_ ?_ (fun u d j hj => (hupdate u d j hj).1)
      fun d j hj => (hupdate t d j hj).2 rfl
    · intro d j hj
      by_cases hd : d = c
      · subst hd
        rw [Function.update_self, hnodes] at hj
        rcases List.mem_append.mp hj with hj | hj
        · exact Or.inl hj
        · exact Or.inr ⟨List.mem_singleton.mp hj, rfl⟩
      · rw [Function.update_of_ne hd] at hj
        exact Or.inl hj
    · have hnodup : loop.nodes.Nodup := by
        rw [hnodes]
        refine List.Nodup.append (h.heldOnce c) (List.nodup_singleton k) ?_
        intro j hj hjk
        exact h.ne_of_held hco (by simp) hj (List.mem_singleton.mp hjk)
      exact (Function.forall_update_iff s.loop fun _ l => l.nodes.Nodup).mpr
        ⟨hnodup, fun d _ => h.heldOnce d⟩
  | idle | store _ =>
    rw [ht] at hs hnodes
    subst hs
    refine h.calls (nodes_update (by simpa [Loop.published] using hnodes)) ?_
    intro u d j hj
    exact Or.inl ⟨(hupdate u d j hj).1, rfl⟩
  | posted _ | stopped =>
    rw [ht] at hs hnodes
    subst hs
    refine h.calls (nodes_update (by simpa [Loop.published] using hnodes)) ?_
    intro u d j hj
    obtain ⟨hold, hne⟩ := hupdate u d j hj
    exact Or.inl ⟨hold, Function.update_of_ne hne ..⟩

theorem turnStep (h : AffinityInv s) {c : C} {turn : Loop.Turn E}
    (hstack : s.stack (.runner c) = []) (hcalling : s.calling (.runner c) = none)
    (hs : s.turnStep c turn = some s') : AffinityInv s' := by
  unfold Schedule.turnStep at hs
  split at hs
  · obtain rfl := Option.some.inj hs
    exact h.phase (by simp) (by simp)
  · rename_i hphase
    split at hs
    · obtain rfl := Option.some.inj hs
      exact h.phase (by simp) fun _ => hstack
    · obtain ⟨loop, hturn, hs⟩ := Option.map_eq_some_iff.mp hs
      obtain ⟨hcaller, hnodes⟩ := Loop.turn_spec hturn
      have hcallers : ∀ d, (Function.update s.loop c loop d).box.caller =
          (s.loop d).box.caller :=
        (Function.forall_update_iff s.loop fun d l => l.box.caller = (s.loop d).box.caller).mpr
          ⟨hcaller, fun _ _ => rfl⟩
      cases hhead : (s.loop c).head with
      | none =>
        rw [hhead] at hs hnodes
        subst hs
        refine h.calls (nodes_update hnodes.symm) ?_
        intro u d j hj
        rw [hcallers] at hj
        exact Or.inl ⟨hj, rfl⟩
      | some k =>
        rw [hhead] at hs hnodes
        subst hs
        have hk : k ∈ (s.loop c).nodes := hnodes ▸ List.mem_cons_self
        have hco := h.held c k hk
        have honce := h.heldOnce c
        rw [hnodes] at honce
        obtain ⟨hout, hrest⟩ := List.nodup_cons.mp honce
        dsimp only
        rw [show [k] = k :: s.stack (.runner c) by rw [hstack]]
        refine h.push (by rw [hco]; rfl) rfl hcalling ?_ ?_ hcallers ?_
        · intro d j hj
          by_cases hd : d = c
          · subst hd
            rw [Function.update_self] at hj
            exact ⟨hnodes ▸ List.mem_cons_of_mem k hj, fun hjk => hout (hjk ▸ hj)⟩
          · rw [Function.update_of_ne hd] at hj
            refine ⟨hj, fun hjk => hd ?_⟩
            have heq := (h.held d j hj).symm.trans ((congrArg s.co hjk).trans hco)
            exact Co.waiting.inj heq
        · exact (Function.forall_update_iff s.loop fun _ l => l.nodes.Nodup).mpr
            ⟨hrest, fun d _ => h.heldOnce d⟩
        · intro d hd
          obtain rfl := Option.some.inj hd
          exact ⟨rfl, hphase⟩
  · cases hs

theorem step (h : AffinityInv s) {l : Label C E K X} (hs : s.step l = some s') :
    AffinityInv s' := by
  cases l with
  | start t k =>
    obtain ⟨⟨hcode, hk⟩, hs⟩ := Option.ite_none_right_eq_some.mp hs
    obtain rfl := Option.some.inj hs
    have hcalling := userCode_calling hcode
    have hwait : ∀ c, s.co k ≠ .waiting c := by simp [hk]
    exact h.push (by rw [hk]; rfl) rfl hcalling
      (fun c j hj => ⟨hj, h.ne_of_held rfl hwait hj⟩) h.heldOnce (fun _ => rfl)
      (by simp [Co.pinned])
  | schedule t c post =>
    simp only [Schedule.step] at hs
    split at hs
    · rename_i k rest hstack
      obtain ⟨hcode, hs⟩ := Option.ite_none_right_eq_some.mp hs
      obtain rfl := Option.some.inj hs
      have hexecuting := userCode_executing hcode hstack
      refine h.setCo (hstack ▸ List.mem_cons_self) (fun d hd => ?_) rfl ?_
      · rw [hd] at hexecuting
        cases hexecuting
      · -- `ready_` was computed from `is_current()` on this thread.
        intro d hd
        cases hready : !post && s.isCurrent t c with
        | false =>
          rw [hready] at hd
          cases hd
        | true =>
          rw [hready] at hd
          obtain rfl := Option.some.inj hd
          exact (h.current t c).mp (Bool.and_eq_true _ _ |>.mp hready).2
    · cases hs
  | await t =>
    simp only [Schedule.step] at hs
    split at hs
    · rename_i k rest hstack
      obtain ⟨hcalling, hs⟩ := Option.ite_none_right_eq_some.mp hs
      exact h.awaitStep hstack hcalling hs
    · cases hs
  | finish t =>
    simp only [Schedule.step] at hs
    split at hs
    · rename_i k rest hstack
      obtain ⟨hcode, hs⟩ := Option.ite_none_right_eq_some.mp hs
      obtain rfl := Option.some.inj hs
      have hcalling := userCode_calling hcode
      exact h.pop hstack rfl (fun _ _ hj => Or.inl hj) h.heldOnce (fun _ _ _ hj => hj)
        fun c j hj => h.not_publishing hcalling hj rfl
    · cases hs
  | stop t c stop =>
    obtain ⟨hcode, hs⟩ := Option.ite_none_right_eq_some.mp hs
    have hcalling := userCode_calling hcode
    obtain ⟨loop, hstop, rfl⟩ := Option.map_eq_some_iff.mp hs
    obtain ⟨hcaller, hnodes⟩ := Loop.stop_spec hstop
    refine h.calls (nodes_update hnodes) ?_
    intro u d j hj
    obtain ⟨hold, -⟩ := caller_update hcaller (by simp) hj
    exact Or.inl ⟨hold, Function.update_of_ne (h.not_publishing hcalling hold) ..⟩
  | call t =>
    simp only [Schedule.step] at hs
    split at hs
    · rename_i c hcalling
      exact h.callStep hcalling hs
    · cases hs
  | turn c turn =>
    obtain ⟨⟨hstack, hcalling⟩, hs⟩ := Option.ite_none_right_eq_some.mp hs
    exact h.turnStep hstack hcalling hs

end AffinityInv

/-! ## 4. Every run -/

variable [DecidableEq C] [DecidableEq K] [DecidableEq X]

/-- **Thread affinity.** In every reachable state, a coroutine that continues after
    `co_await c.schedule(post)` is executed by the thread that is inside `run` of `c`, and by
    no other; there `is_current()` is true of `c` and false of every other scheduler. And no
    coroutine at all is executed by two threads at once. -/
theorem schedule_affinity (kind : C → Kind) {s : Schedule C E K X}
    (hr : machine.Reaches (init kind) s) :
    (∀ k c, s.co k = .continued c →
      s.phase c = .inside ∧ (∀ t, k ∈ s.stack t ↔ t = .runner c) ∧
        ∀ d, s.isCurrent (.runner c) d = true ↔ d = c) ∧
      ∀ k t u, k ∈ s.stack t → k ∈ s.stack u → t = u := by
  have h : AffinityInv s := hr.preserves (fun h _ hs => h.step hs) (affinityInv_init kind)
  refine ⟨?_, fun k t u => h.oneThread t u k⟩
  intro k c hk
  obtain ⟨hin, hphase⟩ := h.pinned k c (by rw [hk]; rfl)
  refine ⟨hphase, ?_, ?_⟩
  · intro t
    constructor
    · intro ht
      exact h.oneThread t _ k ht hin
    · intro ht
      rw [ht]
      exact hin
  · intro d
    rw [isCurrent, h.current]
    constructor
    · intro hd
      exact (Thread.runner.inj hd.1).symm
    · intro hd
      rw [hd]
      exact ⟨rfl, hphase⟩

/-- The hypothesis is met by a coroutine that another thread starts, that one context resumes
    before that thread has notified it, that stays there inline, and that hops to a service. -/
theorem schedule_affinity_hop :
    ∃ s : Schedule Bool Empty Unit Unit,
      s.co () = .continued true ∧ s.calling (.other ()) = some false ∧
        ∀ t, () ∈ s.stack t ↔ t = .runner true := by
  have hr := Machine.reaches_of_exec (M := machine)
    (s := (init fun c => if c then .service .linux 1 else .context :
      Schedule Bool Empty Unit Unit))
    [.start (.other ()) (), .schedule (.other ()) false true, .await (.other ()),
      .call (.other ()),
      .turn false .run, .turn false .run, .turn false .run, .turn false .run, .turn false .run,
      .turn false .run, .turn false .run,
      .schedule (.runner false) false false, .await (.runner false),
      .schedule (.runner false) true false, .await (.runner false), .call (.runner false),
      .call (.runner false),
      .turn true .run, .turn true .run, .turn true (.wait (.ready [none])), .turn true .run,
      .turn true .run, .turn true .run, .turn true .run] rfl
  exact ⟨_, rfl, rfl, ((schedule_affinity _ hr).1 () true rfl).2.1⟩

end Schedule
end Ice
