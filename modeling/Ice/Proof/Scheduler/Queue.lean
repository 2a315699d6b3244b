import Ice.Lib.Fifo
import Ice.Scheduler
import Mathlib.Data.List.Nodup
import Mathlib.Tactic.Common

/-!
# The intrusive list is a FIFO queue

`QueueInv` ties the heap to the abstract queue: the chain off `head_` (`live`, newest
first) and what the running `acquire` holds (`detached`, oldest first) are disjoint lists of
distinct busy nodes, and together with what was handed out they spell the successful
compare-exchanges in order.

Two facts make the stale heads and the recycled addresses harmless. A poster that stored
`next` keeps the head it stored in its expected value (`linked`), so a compare-exchange that
succeeds — whatever happened to `head_` in between, the same address coming back included —
links the node in front of the *current* chain. And a node being posted lies in neither list
(`posting`), so the stores of posters and the in-place reversal never touch each other's
nodes.
-/

set_option autoImplicit false

namespace Ice
namespace Scheduler

open Lib

variable {N T : Type*}

/-- The heap of `s` holds the queue: `live` off `head_`, `detached` inside `acquire`. -/
structure QueueInv (s : Scheduler N T) (live detached : List N) : Prop where
  chain : Chain s.next s.head live
  taken : s.Detached detached
  order : s.handed.flatten ++ detached ++ live.reverse = s.posted
  nodup : (live ++ detached).Nodup
  busy : ∀ n ∈ live ++ detached, s.busy n = true
  /-- A node being posted is busy and in neither list. -/
  posting : ∀ t n, (s.post t).schedule = some n → s.busy n = true ∧ n ∉ live ++ detached
  /-- No two threads post one node at a time. -/
  distinct : ∀ t t' n, (s.post t).schedule = some n → (s.post t').schedule = some n → t = t'
  /-- What a poster expects in `head_` is what it stored in `next`. -/
  linked : ∀ t n head, s.post t = .exchange n head → s.next n = head

/-! ## 1. `Detached` under the writes of the other parties -/

/-- The nodes in `acquire`'s hands are chained through their own `next` fields only. -/
theorem Detached.update [DecidableEq N] {s : Scheduler N T} {d : List N} {n : N} {q : Option N}
    (hd : s.Detached d) (hn : n ∉ d) :
    Detached { s with next := Function.update s.next n q } d := by
  revert hd
  unfold Detached
  cases s.acquire with
  | idle => exact id
  | test head => exact fun hc => hc.update (by simpa using hn)
  | loop head prev =>
    intro hd
    obtain ⟨rest, turned, hrest, hturned, rfl⟩ := hd
    rw [List.mem_append, List.mem_reverse, not_or] at hn
    exact ⟨rest, turned, hrest.update hn.1, hturned.update hn.2, rfl⟩

/-- The reversed chain is what `acquire` returns, wherever in its body it returns. -/
theorem Detached.chain_of_returning {s : Scheduler N T} {d : List N} {p : Option N}
    (hd : s.Detached d) (hp : s.returning = some p) : Chain s.next p d := by
  revert hd hp
  unfold Detached returning
  cases s.acquire with
  | idle => simp
  | test head =>
    cases head with
    | none =>
      intro hd hp
      obtain rfl := Option.some.inj hp
      simpa using hd
    | some a =>
      intro hd hp
      -- One node: its own reverse.
      obtain ⟨t, ht, hnext⟩ := hd.of_some
      cases hna : s.next a with
      | some b => simp [hna] at hp
      | none =>
        rw [hna] at hnext
        obtain rfl := Chain.none_iff.mp hnext
        obtain rfl : some a = p := by simpa [hna] using hp
        rw [List.reverse_eq_iff, List.reverse_singleton] at ht
        simp [ht, hna]
  | loop head prev =>
    cases head with
    | none =>
      intro hd hp
      obtain ⟨rest, turned, hrest, hturned, rfl⟩ := hd
      obtain rfl := Option.some.inj hp
      obtain rfl := Chain.none_iff.mp hrest
      simpa using hturned
    | some a => simp

/-! ## 2. Each atomic access keeps the queue -/

/-- Moving on inside `post`, or leaving it, posts no further node. -/
theorem schedule_update [DecidableEq T] {s : Scheduler N T} {t t' : T} {x : Post N} {n : N}
    (hx : x.schedule = none ∨ x.schedule = (s.post t).schedule)
    (h : (Function.update s.post t x t').schedule = some n) :
    (s.post t').schedule = some n := by
  rcases update_cases (rfl : Function.update s.post t x t' = _) with ⟨rfl, hu⟩ | ⟨-, hu⟩ <;>
    rw [← hu] at h
  · rcases hx with hx | hx
    · rw [hx] at h; cases h
    · rwa [hx] at h
  · exact h

theorem queueInv_init : QueueInv (init : Scheduler N T) [] [] where
  chain := rfl
  taken := rfl
  order := rfl
  nodup := List.nodup_nil
  busy := by simp
  posting := by simp [init, Post.schedule]
  distinct := by simp [init, Post.schedule]
  linked := by simp [init]

section Posters

variable [DecidableEq T] {s : Scheduler N T} {live detached : List N} {t : T}

theorem QueueInv.call [DecidableEq N] {n : N} (h : QueueInv s live detached) (ht : s.post t = .idle)
    (hn : s.busy n = false) :
    QueueInv { s with
      post := Function.update s.post t (.load n)
      busy := Function.update s.busy n true } live detached := by
  have hfree : n ∉ live ++ detached := fun hm => by simp [h.busy n hm] at hn
  have hbusy : ∀ a, s.busy a = true → Function.update s.busy n true a = true := fun a ha => by
    by_cases han : a = n
    · rw [han, Function.update_self]
    · rwa [Function.update_of_ne han]
  -- Whoever posts `a` is either the caller, posting `n`, or was posting it before.
  have hcases : ∀ u a, (Function.update s.post t (.load n) u).schedule = some a →
      u = t ∧ a = n ∨ u ≠ t ∧ (s.post u).schedule = some a := fun u a ha => by
    rcases update_cases (rfl : Function.update s.post t (.load n) u = _) with
      ⟨rfl, hu⟩ | ⟨hut, hu⟩ <;> rw [← hu] at ha
    · exact Or.inl ⟨rfl, (Option.some.inj ha).symm⟩
    · exact Or.inr ⟨hut, ha⟩
  refine ⟨h.chain, h.taken, h.order, h.nodup, fun a ha => hbusy a (h.busy a ha), ?_, ?_, ?_⟩
  · intro u a ha
    rcases hcases u a ha with ⟨-, rfl⟩ | ⟨-, ha⟩
    · exact ⟨Function.update_self .., hfree⟩
    · exact ⟨hbusy a (h.posting u a ha).1, (h.posting u a ha).2⟩
  · intro u u' a ha ha'
    rcases hcases u a ha with ⟨rfl, rfl⟩ | ⟨-, hu⟩
    · rcases hcases u' a ha' with ⟨rfl, -⟩ | ⟨-, hu'⟩
      · rfl
      · simp [(h.posting u' a hu').1] at hn
    · rcases hcases u' a ha' with ⟨-, rfl⟩ | ⟨-, hu'⟩
      · simp [(h.posting u a hu).1] at hn
      · exact h.distinct u u' a hu hu'
  · intro u a head hu
    rcases update_cases hu with ⟨-, hx⟩ | ⟨-, hu⟩
    · cases hx
    · exact h.linked u a head hu

/-- A load of `head_` into the local, at the start of `post` or by a failed exchange. -/
theorem QueueInv.reload {n : N} {head : Option N} (h : QueueInv s live detached)
    (ht : (s.post t).schedule = some n) :
    QueueInv { s with post := Function.update s.post t (.store n head) } live detached := by
  have hx : (Post.store n head).schedule = none ∨
      (Post.store n head).schedule = (s.post t).schedule := Or.inr ht.symm
  refine ⟨h.chain, h.taken, h.order, h.nodup, h.busy,
    fun u a ha => h.posting u a (schedule_update hx ha),
    fun u u' a ha ha' => h.distinct u u' a (schedule_update hx ha) (schedule_update hx ha'), ?_⟩
  intro u a head' hu
  rcases update_cases hu with ⟨-, hx⟩ | ⟨-, hu⟩
  · cases hx
  · exact h.linked u a head' hu

theorem QueueInv.store [DecidableEq N] {n : N} {head : Option N} (h : QueueInv s live detached)
    (ht : s.post t = .store n head) :
    QueueInv { s with
      next := Function.update s.next n head
      post := Function.update s.post t (.exchange n head) } live detached := by
  have hsched : (s.post t).schedule = some n := by rw [ht]; rfl
  have hout := (h.posting t n hsched).2
  rw [List.mem_append, not_or] at hout
  have hx : (Post.exchange n head).schedule = none ∨
      (Post.exchange n head).schedule = (s.post t).schedule := Or.inr hsched.symm
  refine ⟨h.chain.update hout.1, h.taken.update hout.2, h.order, h.nodup, h.busy,
    fun u a ha => h.posting u a (schedule_update hx ha),
    fun u u' a ha ha' => h.distinct u u' a (schedule_update hx ha) (schedule_update hx ha'), ?_⟩
  intro u a head' hu
  rcases update_cases hu with ⟨-, hx⟩ | ⟨hut, hu⟩
  · cases hx
    exact Function.update_self ..
  · -- Another poster's node is another node.
    have hne : a ≠ n := fun han => hut (h.distinct u t n (by rw [hu, han]; rfl) hsched)
    exact (Function.update_of_ne hne ..).trans (h.linked u a head' hu)

/-- **The successful compare-exchange.** It compares `head_` with the value the poster
    stored in `next`, so the new head is linked to the chain that is there now. -/
theorem QueueInv.exchange {n : N} (h : QueueInv s live detached)
    (ht : s.post t = .exchange n s.head) :
    QueueInv { s with
      head := some n
      post := Function.update s.post t .idle
      posted := s.posted ++ [n] } (n :: live) detached := by
  have hsched : (s.post t).schedule = some n := by rw [ht]; rfl
  obtain ⟨hbusy, hout⟩ := h.posting t n hsched
  have hx : (Post.idle : Post N).schedule = none ∨
      (Post.idle : Post N).schedule = (s.post t).schedule := Or.inl rfl
  refine ⟨?_, h.taken, ?_, List.nodup_cons.mpr ⟨hout, h.nodup⟩, ?_, ?_, ?_, ?_⟩
  · refine Chain.cons_iff.mpr ⟨rfl, ?_⟩
    rw [h.linked t n s.head ht]
    exact h.chain
  · show s.handed.flatten ++ detached ++ (n :: live).reverse = s.posted ++ [n]
    rw [List.reverse_cons, ← List.append_assoc, h.order]
  · intro a ha
    rcases List.mem_cons.mp ha with rfl | ha
    · exact hbusy
    · exact h.busy a ha
  · intro u a ha
    obtain ⟨hb, ho⟩ := h.posting u a (schedule_update hx ha)
    refine ⟨hb, fun hm => ?_⟩
    rcases List.mem_cons.mp hm with rfl | hm
    · obtain rfl := h.distinct u t a (schedule_update hx ha) hsched
      simp [Post.schedule] at ha
    · exact ho hm
  · exact fun u u' a ha ha' =>
      h.distinct u u' a (schedule_update hx ha) (schedule_update hx ha')
  · intro u a head' hu
    rcases update_cases hu with ⟨-, hx⟩ | ⟨-, hu⟩
    · cases hx
    · exact h.linked u a head' hu

end Posters

section Consumer

variable {s : Scheduler N T} {live detached : List N}

theorem QueueInv.take (h : QueueInv s live []) :
    QueueInv { s with head := none, acquire := .test s.head } [] live.reverse := by
  refine ⟨rfl, ?_, ?_, ?_, ?_, ?_, h.distinct, h.linked⟩
  · show Chain s.next s.head live.reverse.reverse
    rw [List.reverse_reverse]
    exact h.chain
  · have := h.order
    simpa using this
  · simpa using h.nodup
  · intro n hn
    exact h.busy n (by simpa using hn)
  · intro u a ha
    have := h.posting u a ha
    simpa using this

/-- One turn of the reversal loop moves the front of `rest` to the front of `turned`. -/
theorem QueueInv.turn [DecidableEq N] {a : N} {prev : Option N} (h : QueueInv s live detached)
    (hs : s.acquire = .loop (some a) prev) :
    QueueInv { s with
      next := Function.update s.next a prev
      acquire := .loop (s.next a) (some a) } live detached := by
  obtain ⟨rest, turned, hrest, hturned, rfl⟩ : ∃ rest turned, Chain s.next (some a) rest ∧
      Chain s.next prev turned ∧ detached = rest.reverse ++ turned := by
    have hd := h.taken
    rwa [Detached, hs] at hd
  obtain ⟨rest, rfl, hnext⟩ := hrest.of_some
  have hnd := h.nodup
  rw [List.nodup_append, List.nodup_append] at hnd
  obtain ⟨-, ⟨hnd, -, hdisj⟩, hlive⟩ := hnd
  have hmem : a ∈ (a :: rest).reverse := by simp
  have hal : a ∉ live := fun hm => hlive a hm a (List.mem_append_left _ hmem) rfl
  have har : a ∉ rest := by
    rw [List.nodup_reverse, List.nodup_cons] at hnd
    exact hnd.1
  have hat : a ∉ turned := fun hm => hdisj a hmem a hm rfl
  refine ⟨h.chain.update hal, ⟨rest, a :: turned, hnext.update har, hturned.push hat, ?_⟩,
    h.order, h.nodup, h.busy, h.posting, h.distinct, ?_⟩
  · rw [List.reverse_cons, List.append_assoc, List.singleton_append]
  · intro u b head hu
    have hne : b ≠ a := by
      intro hb
      subst hb
      apply (h.posting u b (by rw [hu]; rfl)).2
      exact List.mem_append_right _ (List.mem_append_left _ hmem)
    exact (Function.update_of_ne hne ..).trans (h.linked u b head hu)

/-- Walking the pointer `acquire` is about to return lists what it has detached. -/
theorem QueueInv.walk_returning {p : Option N} (h : QueueInv s live detached)
    (hp : s.returning = some p) : walk s.next s.posted.length p = detached := by
  apply (h.taken.chain_of_returning hp).walk_eq
  rw [← h.order]
  simp only [List.length_append]
  omega

/-- **`acquire` returns a null-terminated chain**: exactly what it had detached, oldest post
    first. -/
theorem QueueInv.handed_eq [DecidableEq N] {p : Option N} (h : QueueInv s live detached)
    (hp : s.returning = some p) :
    Chain s.next p detached ∧ (s.hand p).handed = s.handed ++ [detached] := by
  refine ⟨h.taken.chain_of_returning hp, ?_⟩
  show s.handed ++ [walk s.next s.posted.length p] = _
  rw [h.walk_returning hp]

theorem QueueInv.hand [DecidableEq N] {p : Option N} (h : QueueInv s live detached)
    (hp : s.returning = some p) : QueueInv (s.hand p) live [] := by
  obtain ⟨hc, hh⟩ := h.handed_eq hp
  have hwalk := h.walk_returning hp
  have hfree : ∀ n, s.busy n = true → n ∉ detached → (s.hand p).busy n = true := by
    intro n hb hn
    show (s.busy n && !(walk s.next s.posted.length p).contains n) = true
    rw [hwalk, hb]
    simpa using hn
  have hnd := List.nodup_append.mp h.nodup
  refine ⟨h.chain, rfl, ?_, by simpa using hnd.1, ?_, ?_, h.distinct, h.linked⟩
  · show (s.hand p).handed.flatten ++ [] ++ live.reverse = s.posted
    rw [hh, ← h.order]
    simp
  · intro n hn
    rw [List.append_nil] at hn
    exact hfree n (h.busy n (List.mem_append_left _ hn))
      fun hd => hnd.2.2 n hn n hd rfl
  · intro u a ha
    obtain ⟨hb, ho⟩ := h.posting u a ha
    rw [List.mem_append, not_or] at ho
    exact ⟨hfree a hb ho.2, by simpa using ho.1⟩

end Consumer

/-! ## 3. Every step of the machine -/

variable {s s' : Scheduler N T} {live detached : List N}

/-- What the consumer's next access does, by where it stands. -/
theorem acquireStep_cases [DecidableEq N] (s : Scheduler N T) :
    s.acquire = .idle ∧ s.acquireStep = { s with head := none, acquire := .test s.head } ∨
    (∃ p, s.returning = some p ∧ s.acquireStep = s.hand p) ∨
    (∃ a, s.acquire = .test (some a) ∧ (s.next a).isSome ∧
      s.acquireStep = { s with acquire := .loop (some a) none }) ∨
    ∃ a prev, s.acquire = .loop (some a) prev ∧
      s.acquireStep = { s with
        next := Function.update s.next a prev
        acquire := .loop (s.next a) (some a) } := by
  unfold acquireStep returning
  cases hs : s.acquire with
  | idle => exact Or.inl ⟨rfl, rfl⟩
  | test head =>
    cases head with
    | none => exact Or.inr (Or.inl ⟨none, rfl, rfl⟩)
    | some a =>
      cases hn : s.next a with
      | none => exact Or.inr (Or.inl ⟨some a, by simp [hn], by simp [hn]⟩)
      | some b => exact Or.inr (Or.inr (Or.inl ⟨a, rfl, by simp [hn], by simp [hn]⟩))
  | loop head prev =>
    cases head with
    | none => exact Or.inr (Or.inl ⟨prev, rfl, rfl⟩)
    | some a => exact Or.inr (Or.inr (Or.inr ⟨a, prev, rfl, rfl⟩))

theorem QueueInv.acquireStep [DecidableEq N] (h : QueueInv s live detached) :
    ∃ live' detached', QueueInv s.acquireStep live' detached' := by
  rcases acquireStep_cases s with ⟨hs, he⟩ | ⟨p, hp, he⟩ | ⟨a, hs, -, he⟩ | ⟨a, prev, hs, he⟩
  · have hd : detached = [] := by
      have hd := h.taken
      rwa [Detached, hs] at hd
    subst hd
    exact ⟨_, _, he ▸ h.take⟩
  · exact ⟨_, _, he ▸ h.hand hp⟩
  · -- Entering the loop: nothing has been turned around yet.
    have hd : Chain s.next (some a) detached.reverse := by
      have hd := h.taken
      rwa [Detached, hs] at hd
    refine ⟨live, detached, he ▸ ⟨h.chain, ⟨detached.reverse, [], hd, rfl, ?_⟩, h.order,
      h.nodup, h.busy, h.posting, h.distinct, h.linked⟩⟩
    rw [List.reverse_reverse, List.append_nil]
  · exact ⟨_, _, he ▸ h.turn hs⟩

theorem QueueInv.postStep [DecidableEq N] [DecidableEq T] {t : T} {fail : Bool}
    (h : QueueInv s live detached) (hs : s.postStep t fail = some s') :
    ∃ live', QueueInv s' live' detached := by
  unfold Scheduler.postStep at hs
  cases ht : s.post t with
  | idle => rw [ht] at hs; cases hs
  | load n =>
    rw [ht] at hs
    obtain rfl := Option.some.inj hs
    exact ⟨live, h.reload (by rw [ht]; rfl)⟩
  | store n head =>
    rw [ht] at hs
    obtain rfl := Option.some.inj hs
    exact ⟨live, h.store ht⟩
  | exchange n head =>
    rw [ht] at hs
    dsimp only at hs
    split at hs
    · rename_i hc
      obtain rfl := Option.some.inj hs
      obtain ⟨rfl, -⟩ := hc
      exact ⟨n :: live, h.exchange ht⟩
    · obtain rfl := Option.some.inj hs
      exact ⟨live, h.reload (by rw [ht]; rfl)⟩

theorem QueueInv.step [DecidableEq N] [DecidableEq T] {l : Label N T} (h : QueueInv s live detached)
    (hs : s.step l = some s') : ∃ live' detached', QueueInv s' live' detached' := by
  cases l with
  | call t n =>
    rw [Scheduler.step] at hs
    split at hs
    · rename_i hc
      obtain rfl := Option.some.inj hs
      exact ⟨live, detached, h.call hc.1 hc.2⟩
    · cases hs
  | post t fail =>
    obtain ⟨live', h'⟩ := h.postStep hs
    exact ⟨live', detached, h'⟩
  | acquire =>
    obtain rfl := Option.some.inj hs
    exact h.acquireStep

theorem queueInv_of_reaches [DecidableEq N] [DecidableEq T]
    (hr : machine.Reaches (init : Scheduler N T) s) :
    ∃ live detached, QueueInv s live detached :=
  hr.preserves (I := fun s => ∃ live detached, QueueInv s live detached)
    (fun ⟨_, _, h⟩ _ hs => h.step hs) ⟨[], [], queueInv_init⟩

/-! ## 4. The abstract queue

The run loops are modelled over `Fifo`, where a push and a take are one step each. This is
what licenses it: the heap holds the abstract queue at every moment, the successful
compare-exchange is the push, the exchange of `head_` is the take, and every other access
leaves the queue as it is. -/

/-- The chain off `head_` is the abstract queue, newest first. -/
def Holds (s : Scheduler N T) (q : Fifo N) : Prop :=
  q.pushed = s.posted.length ∧ Chain s.next s.head (q.waiting.map Prod.snd).reverse

/-- One access of the heap is at most one operation of the queue; a take detaches exactly
    what was waiting. -/
theorem QueueInv.simulates [DecidableEq N] [DecidableEq T] {l : Label N T} {q : Fifo N}
    (h : QueueInv s live detached) (hq : s.Holds q) (hs : s.step l = some s') :
    s'.Holds q ∨ (∃ n, s'.posted = s.posted ++ [n] ∧ s'.Holds (q.push n)) ∨
      s'.Detached (q.waiting.map Prod.snd) ∧ s'.Holds q.take := by
  obtain ⟨hlen, hchain⟩ := hq
  have hlive : (q.waiting.map Prod.snd).reverse = live := hchain.unique h.chain
  cases l with
  | call t n =>
    rw [Scheduler.step] at hs
    split at hs <;> cases hs
    exact Or.inl ⟨hlen, hchain⟩
  | post t fail =>
    change s.postStep t fail = some s' at hs
    unfold Scheduler.postStep at hs
    cases ht : s.post t with
    | idle => rw [ht] at hs; cases hs
    | load n =>
      rw [ht] at hs
      obtain rfl := Option.some.inj hs
      exact Or.inl ⟨hlen, hchain⟩
    | store n head =>
      rw [ht] at hs
      obtain rfl := Option.some.inj hs
      have hout := (h.posting t n (by rw [ht]; rfl)).2
      rw [List.mem_append, not_or, ← hlive] at hout
      exact Or.inl ⟨hlen, hchain.update hout.1⟩
    | exchange n head =>
      rw [ht] at hs
      dsimp only at hs
      split at hs
      · rename_i hc
        obtain rfl := Option.some.inj hs
        obtain ⟨rfl, -⟩ := hc
        refine Or.inr (Or.inl ⟨n, rfl, ?_, ?_⟩)
        · simp [hlen]
        · simpa [h.linked t n s.head ht] using hchain
      · obtain rfl := Option.some.inj hs
        exact Or.inl ⟨hlen, hchain⟩
  | acquire =>
    obtain rfl := Option.some.inj hs
    rcases acquireStep_cases s with ⟨-, he⟩ | ⟨p, -, he⟩ | ⟨a, -, -, he⟩ | ⟨a, prev, ha, he⟩ <;>
      rw [he]
    · exact Or.inr (Or.inr ⟨hchain, hlen, rfl⟩)
    · exact Or.inl ⟨hlen, hchain⟩
    · exact Or.inl ⟨hlen, hchain⟩
    · rw [hlive] at hchain
      have hturn := (h.turn ha).chain
      exact Or.inl ⟨hlen, hlive ▸ hturn⟩

/-! ## 5. `acquire` returns -/

/-- `acquire` has at most `m` accesses left before it returns. -/
def Left (s : Scheduler N T) (m : Nat) : Prop :=
  match s.acquire with
  | .idle => False
  | .test head => ∃ rest, Chain s.next head rest ∧ m = rest.length + 1
  | .loop head _ => ∃ rest, Chain s.next head rest ∧ m = rest.length

theorem QueueInv.left (h : QueueInv s live detached) (hs : s.acquire ≠ .idle) :
    ∃ m, s.Left m := by
  have hd := h.taken
  revert hd hs
  unfold Detached Left
  cases s.acquire with
  | idle => exact fun hs => absurd rfl hs
  | test head => exact fun _ hd => ⟨_, _, hd, rfl⟩
  | loop head prev => exact fun _ ⟨rest, _, hrest, _⟩ => ⟨_, rest, hrest, rfl⟩

/-- The nodes `acquire` has still to visit are detached, so no poster writes to them. -/
theorem QueueInv.left_update [DecidableEq N] {n : N} {q : Option N} {m : Nat}
    (h : QueueInv s live detached) (hn : n ∉ detached) (hm : s.Left m) :
    Left { s with next := Function.update s.next n q } m := by
  have hd := h.taken
  revert hd hm
  unfold Detached Left
  cases s.acquire with
  | idle => exact fun hm => hm.elim
  | test head =>
    intro hm hd
    obtain ⟨rest, hrest, rfl⟩ := hm
    obtain rfl := hrest.unique hd
    exact ⟨_, hrest.update (by simpa using hn), rfl⟩
  | loop head prev =>
    intro hm hd
    obtain ⟨rest, hrest, rfl⟩ := hm
    obtain ⟨rest', turned, hrest', -, rfl⟩ := hd
    obtain rfl := hrest.unique hrest'
    rw [List.mem_append, List.mem_reverse, not_or] at hn
    exact ⟨rest, hrest.update hn.1, rfl⟩

/-- What a poster's access leaves alone. -/
theorem QueueInv.postStep_frame [DecidableEq N] [DecidableEq T] {t : T} {fail : Bool}
    (h : QueueInv s live detached) (hs : s.postStep t fail = some s') :
    s'.acquire = s.acquire ∧ s'.handed = s.handed ∧
      (s'.next = s.next ∨ ∃ n q, n ∉ detached ∧ s'.next = Function.update s.next n q) := by
  unfold Scheduler.postStep at hs
  cases ht : s.post t with
  | idle => rw [ht] at hs; cases hs
  | load n =>
    rw [ht] at hs
    obtain rfl := Option.some.inj hs
    exact ⟨rfl, rfl, Or.inl rfl⟩
  | store n head =>
    rw [ht] at hs
    obtain rfl := Option.some.inj hs
    have hout := (h.posting t n (by rw [ht]; rfl)).2
    rw [List.mem_append, not_or] at hout
    exact ⟨rfl, rfl, Or.inr ⟨n, head, hout.2, rfl⟩⟩
  | exchange n head =>
    rw [ht] at hs
    dsimp only at hs
    split at hs <;> obtain rfl := Option.some.inj hs <;> exact ⟨rfl, rfl, Or.inl rfl⟩

theorem acquireStep_returning [DecidableEq N] {p : Option N} (hp : s.returning = some p) :
    s.acquireStep = s.hand p := by
  rcases acquireStep_cases s with ⟨hs, -⟩ | ⟨p', hp', he⟩ | ⟨a, hs, hn, -⟩ | ⟨a, prev, hs, -⟩
  · simp [returning, hs] at hp
  · rw [hp, Option.some.injEq] at hp'
    rw [he, hp']
  · rw [returning, hs] at hp
    rw [Option.isSome_iff_ne_none] at hn
    simp [hn] at hp
  · simp [returning, hs] at hp

/-- An access of the consumer either returns or uses up one of those it has left. -/
theorem QueueInv.acquireStep_left [DecidableEq N] {m : Nat} (h : QueueInv s live detached)
    (hm : s.Left m) :
    s.acquireStep.handed.length = s.handed.length + 1 ∨
      s.acquireStep.handed = s.handed ∧ ∃ m', s.acquireStep.Left m' ∧ m' + 1 ≤ m := by
  rcases acquireStep_cases s with ⟨hs, -⟩ | ⟨p, hp, he⟩ | ⟨a, hs, -, he⟩ | ⟨a, prev, hs, he⟩
  · rw [Left, hs] at hm
    exact hm.elim
  · rw [he, (h.handed_eq hp).2]
    exact Or.inl (by simp)
  · rw [Left, hs] at hm
    obtain ⟨rest, hrest, rfl⟩ := hm
    rw [he]
    exact Or.inr ⟨rfl, rest.length, ⟨rest, hrest, rfl⟩, Nat.le_refl _⟩
  · have hd := h.taken
    rw [Detached, hs] at hd
    rw [Left, hs] at hm
    obtain ⟨rest, hrest, rfl⟩ := hm
    obtain ⟨rest', turned, hrest', -, rfl⟩ := hd
    obtain rfl := hrest.unique hrest'
    obtain ⟨rest, rfl, hnext⟩ := hrest.of_some
    have ha : a ∉ rest := by
      have hnd := (List.nodup_append.mp (List.nodup_append.mp h.nodup).2.1).1
      rw [List.nodup_reverse, List.nodup_cons] at hnd
      exact hnd.1
    rw [he]
    exact Or.inr ⟨rfl, rest.length, ⟨rest, hnext.update ha, rfl⟩, Nat.le_refl _⟩

/-- What was handed out stays handed out. -/
theorem handed_mono [DecidableEq N] [DecidableEq T] {l : Label N T} (hs : s.step l = some s') :
    s.handed.length ≤ s'.handed.length := by
  cases l with
  | call t n =>
    rw [Scheduler.step] at hs
    split at hs <;> cases hs
    exact Nat.le_refl _
  | post t fail =>
    change s.postStep t fail = some s' at hs
    unfold Scheduler.postStep at hs
    split at hs
    · cases hs
    · obtain rfl := Option.some.inj hs
      exact Nat.le_refl _
    · obtain rfl := Option.some.inj hs
      exact Nat.le_refl _
    · split at hs <;> obtain rfl := Option.some.inj hs <;> exact Nat.le_refl _
  | acquire =>
    obtain rfl := Option.some.inj hs
    have hhanded : s.acquireStep.handed = s.handed ∨
        ∃ chain, s.acquireStep.handed = s.handed ++ [chain] := by
      rcases acquireStep_cases s with ⟨-, he⟩ | ⟨p, -, he⟩ | ⟨a, -, -, he⟩ | ⟨a, prev, -, he⟩
      · exact Or.inl (he ▸ rfl)
      · exact Or.inr ⟨_, congrArg handed he⟩
      · exact Or.inl (he ▸ rfl)
      · exact Or.inl (he ▸ rfl)
    rcases hhanded with heq | ⟨chain, heq⟩
    · exact Nat.le_of_eq (congrArg List.length heq).symm
    · rw [heq, List.length_append]
      exact Nat.le_add_right _ _

/-- What was posted stays posted. -/
theorem posted_mono [DecidableEq N] [DecidableEq T] {l : Label N T} (hs : s.step l = some s') :
    s.posted <+: s'.posted := by
  cases l with
  | call t n =>
    rw [Scheduler.step] at hs
    split at hs <;> cases hs
    exact List.prefix_rfl
  | post t fail =>
    change s.postStep t fail = some s' at hs
    unfold Scheduler.postStep at hs
    split at hs
    · cases hs
    · obtain rfl := Option.some.inj hs
      exact List.prefix_rfl
    · obtain rfl := Option.some.inj hs
      exact List.prefix_rfl
    · split at hs <;> obtain rfl := Option.some.inj hs
      · exact List.prefix_append _ _
      · exact List.prefix_rfl
  | acquire =>
    obtain rfl := Option.some.inj hs
    have heq : s.acquireStep.posted = s.posted := by
      rcases acquireStep_cases s with ⟨-, he⟩ | ⟨p, -, he⟩ | ⟨a, -, -, he⟩ | ⟨a, prev, -, he⟩ <;>
        exact he ▸ rfl
    exact heq ▸ List.prefix_rfl

theorem acquire_returns [DecidableEq N] [DecidableEq T] {m : Nat} {ls : List (Label N T)}
    (h : QueueInv s live detached) (hm : s.Left m) (he : machine.exec s ls = some s')
    (hc : m < ls.countP Label.isAcquire) : s.handed.length < s'.handed.length := by
  let I : Nat → Scheduler N T → Prop := fun m a =>
    a.Left m ∧ a.handed = s.handed ∧ ∃ live detached, QueueInv a live detached
  refine Machine.exec_finishes (I := I) (D := fun a => s.handed.length < a.handed.length)
    ?_ ?_ ⟨hm, rfl, live, detached, h⟩ he hc
  · intro m a l b hI hs
    obtain ⟨hm, hh, live, detached, h⟩ := hI
    change a.step l = some b at hs
    cases l with
    | call t n =>
      refine Or.inr ⟨m, ⟨?_, ?_, h.step hs⟩, by simp [Label.isAcquire]⟩ <;>
        rw [Scheduler.step] at hs <;> split at hs <;> cases hs
      · exact hm
      · exact hh
    | post t fail =>
      obtain ⟨hacq, hhd, hnext⟩ := h.postStep_frame hs
      refine Or.inr ⟨m, ⟨?_, hhd.trans hh, h.step hs⟩, by simp [Label.isAcquire]⟩
      rcases hnext with hn | ⟨n, q, hn, hnext⟩
      · rw [Left, hacq, hn]
        exact hm
      · have hu := h.left_update (q := q) hn hm
        rw [Left, hacq, hnext]
        exact hu
    | acquire =>
      have hb : a.acquireStep = b := Option.some.inj hs
      rcases h.acquireStep_left hm with hd | ⟨hh', m', hm', hle⟩
      · left
        rw [← hb, ← hh, hd]
        exact Nat.lt_succ_self _
      · exact Or.inr ⟨m', ⟨hb ▸ hm', hb ▸ hh'.trans hh, h.step hs⟩, by
          simpa [Label.isAcquire] using hle⟩
  · intro a l b ha hs
    exact Nat.lt_of_lt_of_le ha (handed_mono hs)

/-! ## 6. The queue, for every interleaving -/

/-- **`scheduler` is a FIFO queue.** In every reachable state the chains handed out, then what
    the `acquire` in progress has detached, then the reverse of the chain off `head_` spell
    the successful compare-exchanges in order (`Detached` is empty between two calls);
    whenever `acquire` is about to return, the pointer heads a null-terminated chain, and that
    chain is what it hands out; and an `acquire` in progress returns after finitely many
    accesses of its own, whatever the posters do in between. -/
theorem acquire_hands_out_posts [DecidableEq N] [DecidableEq T]
    (hr : machine.Reaches (init : Scheduler N T) s) :
    (∃ live detached, Chain s.next s.head live ∧ s.Detached detached ∧
      s.handed.flatten ++ detached ++ live.reverse = s.posted) ∧
    (∀ p, s.returning = some p →
      ∃ chain, Chain s.next p chain ∧ s.acquireStep.handed = s.handed ++ [chain]) ∧
    (s.acquire ≠ .idle → ∃ m, ∀ ls s', machine.exec s ls = some s' →
      m < ls.countP Label.isAcquire → s.handed.length < s'.handed.length) := by
  obtain ⟨live, detached, h⟩ := queueInv_of_reaches hr
  refine ⟨⟨live, detached, h.chain, h.taken, h.order⟩, fun p hp => ?_, fun hs => ?_⟩
  · obtain ⟨hc, hh⟩ := h.handed_eq hp
    exact ⟨detached, hc, by rw [acquireStep_returning hp, hh]⟩
  · obtain ⟨m, hm⟩ := h.left hs
    exact ⟨m, fun ls s' he hc => acquire_returns h hm he hc⟩

/-- The hypothesis is met by a run that hands out one post and is about to hand out the
    next. -/
theorem acquire_hands_out_posts_two :
    let schedule : List (Label Bool Unit) :=
      [.call () false, .post () true, .post () true, .post () true, .post () true,
        .post () false, .acquire, .acquire, .call () true, .post () false, .post () false,
        .post () false, .acquire]
    ∃ s, machine.exec init schedule = some s ∧ s.handed = [[false]] ∧
      s.posted = [false, true] ∧
      ∃ chain, Chain s.next (some true) chain ∧
        s.acquireStep.handed = s.handed ++ [chain] := by
  intro schedule
  have hrun : machine.exec init schedule = some _ := rfl
  refine ⟨_, hrun, rfl, rfl, ?_⟩
  exact (acquire_hands_out_posts (Machine.reaches_of_exec schedule hrun)).2.1 (some true) rfl

/-- Between its exchange of `head_` and its return, `acquire` holds posts that are neither
    handed out nor reachable from `head_`. -/
theorem posts_detached_in_acquire :
    ∃ s : Scheduler Unit Unit, machine.Reaches init s ∧
      ¬ ∃ live, Chain s.next s.head live ∧ s.handed.flatten ++ live.reverse = s.posted := by
  refine ⟨_, Machine.reaches_of_exec [.call () (), .post () false, .post () false,
    .post () false, .acquire] rfl, ?_⟩
  intro hlive
  obtain ⟨live, hc, ho⟩ := hlive
  obtain rfl := Chain.none_iff.mp hc
  cases ho

end Scheduler
end Ice
