import Ice.Drain
import Ice.Proof.Scheduler.Queue

/-!
# The drain loops resume every post once, in order, whatever the coroutines do

The nodes the loop has taken and not resumed (`rest`) hang off its own pointer, apart from
the live list: they are no longer busy in the queue, and still queued, so nobody posts them
or destroys them, and no write of a poster or of a reused node reaches their `next`. Inside
`resume` the loop holds the pointer to the rest and none to the node it resumed.

* `DrainInv` ties the two lists to the ledger, one lemma per label;
* **the loop resumes what was posted, in the order of the posts, and a batch is resumed
  whole before anything posted meanwhile** (`drain_resumes_posts`).
-/

set_option autoImplicit false

namespace Ice
namespace Drain

open Lib

variable {N T : Type*}

/-- The pointer the loop goes on with. -/
def At.pointer : At N → Option N
  | .acquire => none
  | .next head => head
  | .resume _ p => p
  | .inside p => p

/-- The node the loop has read and not resumed. -/
def At.current : At N → List N
  | .resume head _ => [head]
  | _ => []

/-- What the loop does with one node. -/
def visit (n : N) : List (Access N) := [.read n, .resume n]

/-- The loop has `rest` ahead of it, and has visited what it resumed. -/
structure DrainInv (s : Drain N T) (live detached rest : List N) : Prop where
  queue : s.heap.QueueInv live detached
  chain : Chain s.heap.next s.at_.pointer rest
  -- Between two calls of `acquire` its local state is the loop's.
  idle : s.at_ ≠ .acquire → s.heap.acquire = .idle
  order : s.heap.handed.flatten = s.resumed ++ (s.at_.current ++ rest)
  nodup : (s.at_.current ++ rest).Nodup
  -- What the loop has taken is out of the queue, and still posted.
  taken : ∀ n ∈ s.at_.current ++ rest, s.heap.busy n = false ∧ s.queued n = true
  queued : ∀ n, s.heap.busy n = true → s.queued n = true
  alive : ∀ n, s.queued n = true → s.alive n = true
  log : s.log = s.resumed.flatMap visit ++ s.at_.current.map .read
  fault : s.fault = false

/-! ## 1. Accesses and writes outside the lists -/

theorem touch_of_queued {s : Drain N T} {n : Option N} (ha : ∀ n, s.queued n = true →
    s.alive n = true) (hn : ∀ a, n = some a → s.queued a = true) : s.touch n = s := by
  cases n with
  | none => rfl
  | some a =>
    have hq := hn a rfl
    simp [touch, hq, ha a hq]

end Drain

namespace Scheduler

open Lib

variable {N T : Type*} {s : Scheduler N T} {live detached : List N}

/-- The field of a node that is not busy is nobody's. -/
theorem QueueInv.write [DecidableEq N] {n : N} {q : Option N} (h : QueueInv s live detached)
    (hn : s.busy n = false) :
    QueueInv { s with next := Function.update s.next n q } live detached := by
  have hout : n ∉ live ++ detached := fun hm => by simp [h.busy n hm] at hn
  rw [List.mem_append, not_or] at hout
  refine ⟨h.chain.update hout.1, h.taken.update hout.2, h.order, h.nodup, h.busy, h.posting,
    h.distinct, ?_⟩
  intro t a head ht
  have hne : a ≠ n := by
    intro ha
    subst ha
    rw [(h.posting t a (by rw [ht]; rfl)).1] at hn
    cases hn
  exact (Function.update_of_ne hne ..).trans (h.linked t a head ht)

/-- What `acquire` touches next is a busy node. -/
theorem QueueInv.busy_of_acquire {a : N} (h : QueueInv s live detached)
    (ha : s.acquire = .test (some a) ∨ ∃ prev, s.acquire = .loop (some a) prev) :
    s.busy a = true := by
  have hd := h.taken
  apply h.busy
  apply List.mem_append_right
  rcases ha with ha | ⟨prev, ha⟩ <;> rw [Detached, ha] at hd
  · obtain ⟨t, ht, -⟩ := hd.of_some
    rw [← List.mem_reverse, ht]
    exact List.mem_cons_self
  · obtain ⟨rest, turned, hrest, -, rfl⟩ := hd
    obtain ⟨t, rfl, -⟩ := hrest.of_some
    simp

/-- An access of a poster leaves the ledger of the consumer alone, and writes to a node that
    is being posted. -/
theorem postStep_next [DecidableEq N] [DecidableEq T] {s' : Scheduler N T} {t : T} {fail : Bool}
    (hs : s.postStep t fail = some s') :
    s'.handed = s.handed ∧ s'.acquire = s.acquire ∧ s'.busy = s.busy ∧
      ∀ n, (s.post t).schedule ≠ some n → s'.next n = s.next n := by
  unfold Scheduler.postStep at hs
  cases ht : s.post t with
  | idle => rw [ht] at hs; cases hs
  | load a =>
    rw [ht] at hs
    obtain rfl := Option.some.inj hs
    exact ⟨rfl, rfl, rfl, fun _ _ => rfl⟩
  | store a head =>
    rw [ht] at hs
    obtain rfl := Option.some.inj hs
    refine ⟨rfl, rfl, rfl, fun n hn => Function.update_of_ne ?_ ..⟩
    intro hna
    exact hn (congrArg some hna.symm)
  | exchange a head =>
    rw [ht] at hs
    dsimp only at hs
    split at hs <;> obtain rfl := Option.some.inj hs <;> exact ⟨rfl, rfl, rfl, fun _ _ => rfl⟩

/-- Where `acquire` does not return, its ledger stands. -/
theorem acquireStep_ledger [DecidableEq N] (hp : s.returning = none) :
    s.acquireStep.handed = s.handed ∧ s.acquireStep.busy = s.busy := by
  rcases acquireStep_cases s with ⟨-, he⟩ | ⟨p, hp', -⟩ | ⟨a, -, -, he⟩ | ⟨a, prev, -, he⟩
  · rw [he]; exact ⟨rfl, rfl⟩
  · rw [hp] at hp'; cases hp'
  · rw [he]; exact ⟨rfl, rfl⟩
  · rw [he]; exact ⟨rfl, rfl⟩

/-- Where it returns, the nodes of the chain are the caller's. -/
theorem QueueInv.hand_busy [DecidableEq N] {p : Option N} {n : N} (h : QueueInv s live detached)
    (hp : s.returning = some p) :
    (s.hand p).busy n = true ↔ s.busy n = true ∧ n ∉ detached := by
  simp [Scheduler.hand, h.walk_returning hp]

end Scheduler

namespace Drain

open Lib

variable {N T : Type*}

/-! ## 2. Each label keeps the invariant -/

theorem drainInv_init : DrainInv (init : Drain N T) [] [] [] where
  queue := Scheduler.queueInv_init
  chain := rfl
  idle h := absurd rfl h
  order := rfl
  nodup := List.nodup_nil
  taken := by simp [init, At.current]
  queued := by simp [init, Scheduler.init]
  alive := by simp [init]
  log := rfl
  fault := rfl

variable {s s' : Drain N T} {live detached rest : List N}

/-- What is busy in the queue is not in the loop's hands. -/
theorem DrainInv.not_taken {n : N} (h : DrainInv s live detached rest)
    (hb : s.heap.busy n = true) : n ∉ s.at_.current ++ rest := by
  intro hm
  rw [(h.taken n hm).1] at hb
  cases hb

theorem DrainInv.acquireStep [DecidableEq N] (h : DrainInv s live detached rest)
    (hs : s.at_ = .acquire) :
    ∃ live' detached' rest', DrainInv s.acquireStep live' detached' rest' := by
  have hrest : rest = [] := by
    have hc := h.chain
    rw [hs] at hc
    exact Chain.none_iff.mp hc
  have hcur : s.at_.current = [] := by rw [hs]; rfl
  have htouch : s.touch (acquireTouches s.heap) = s := by
    apply touch_of_queued h.alive
    intro a ha
    apply h.queued
    apply h.queue.busy_of_acquire
    unfold acquireTouches at ha
    cases hacq : s.heap.acquire with
    | idle => rw [hacq] at ha; cases ha
    | test head =>
      rw [hacq] at ha
      exact Or.inl (congrArg _ ha)
    | loop head prev =>
      rw [hacq] at ha
      exact Or.inr ⟨prev, by rw [show head = some a from ha]⟩
  have horder : s.heap.handed.flatten = s.resumed := by
    rw [h.order, hcur, hrest, List.nil_append, List.append_nil]
  have hlog : s.log = s.resumed.flatMap visit := by
    rw [h.log, hcur, List.map_nil, List.append_nil]
  unfold Drain.acquireStep
  rw [htouch]
  cases hp : s.heap.returning with
  | none =>
    obtain ⟨hh, hb⟩ := Scheduler.acquireStep_ledger hp
    obtain ⟨live', detached', hq⟩ := h.queue.acquireStep
    refine ⟨live', detached', [], hq, rfl, fun ha => absurd rfl ha, ?_, List.nodup_nil, ?_,
      ?_, h.alive, ?_, h.fault⟩
    · exact (congrArg List.flatten hh).trans (by simp [horder, At.current])
    · simp [At.current]
    · intro n hn
      exact h.queued n (by rw [← hb]; exact hn)
    · simpa [At.current] using hlog
  | some p =>
    -- The chain returned is the next batch.
    have hstep := Scheduler.acquireStep_returning hp
    obtain ⟨hc, hh⟩ := h.queue.handed_eq hp
    have hdet := (List.nodup_append.mp h.queue.nodup).2.1
    rw [hstep]
    refine ⟨live, [], detached, h.queue.hand hp, hc, fun _ => rfl, ?_, hdet, ?_, ?_,
      h.alive, ?_, h.fault⟩
    · exact (congrArg List.flatten hh).trans (by simp [horder, At.current])
    · intro n hn
      refine ⟨?_, h.queued n (h.queue.busy n (List.mem_append_right _ hn))⟩
      by_contra hb
      rw [Bool.not_eq_false] at hb
      exact ((h.queue.hand_busy hp).mp hb).2 hn
    · intro n hn
      exact h.queued n ((h.queue.hand_busy hp).mp hn).1
    · simpa [At.current] using hlog

theorem DrainInv.nextStep {head : Option N} (h : DrainInv s live detached rest)
    (hs : s.at_ = .next head) :
    ∃ rest', DrainInv (s.nextStep head) live detached rest' := by
  have hc := h.chain
  have ho := h.order
  have hnd := h.nodup
  have ht := h.taken
  have hlog := h.log
  rw [hs] at hc ho hnd ht hlog
  have hidle := h.idle (by simp [hs])
  cases head with
  | none =>
    obtain rfl := Chain.none_iff.mp hc
    exact ⟨[], h.queue, rfl, fun ha => absurd rfl ha, ho, hnd, ht, h.queued, h.alive, hlog,
      h.fault⟩
  | some a =>
    obtain ⟨rest, rfl, hrest⟩ := hc.of_some
    have htouch : s.touch (some a) = s := by
      apply touch_of_queued h.alive
      intro b hb
      obtain rfl := Option.some.inj hb
      exact (ht a (by simp [At.current])).2
    unfold Drain.nextStep
    dsimp only
    rw [htouch]
    refine ⟨rest, h.queue, hrest, fun _ => hidle, ho, hnd, ht, h.queued, h.alive, ?_, h.fault⟩
    show s.log ++ [.read a] = _
    rw [hlog]
    simp [At.current]

theorem DrainInv.resumeStep [DecidableEq N] {head : N} {next : Option N}
    (h : DrainInv s live detached rest)
    (hs : s.at_ = .resume head next) :
    DrainInv (s.resumeStep head next) live detached rest := by
  have hc := h.chain
  have ho := h.order
  have hnd := h.nodup
  have ht := h.taken
  have hlog := h.log
  rw [hs] at hc ho hnd ht hlog
  have hidle := h.idle (by simp [hs])
  obtain ⟨hbusy, hqueued⟩ := ht head (by simp [At.current])
  have hout : head ∉ rest := (List.nodup_cons.mp hnd).1
  have htouch : s.touch (some head) = s := by
    apply touch_of_queued h.alive
    intro b hb
    exact Option.some.inj hb ▸ hqueued
  unfold Drain.resumeStep
  rw [htouch]
  refine ⟨h.queue, hc, fun _ => hidle, ?_, (List.nodup_cons.mp hnd).2, ?_, ?_, ?_, ?_, h.fault⟩
  · exact ho.trans (by simp [At.current])
  · intro n hn
    obtain ⟨hb, hq⟩ := ht n (List.mem_cons_of_mem _ hn)
    have hne : n ≠ head := fun he => hout (he ▸ hn)
    exact ⟨hb, (Function.update_of_ne hne ..).trans hq⟩
  · intro n hn
    have hne : n ≠ head := by
      intro he
      rw [he, hbusy] at hn
      cases hn
    exact (Function.update_of_ne hne ..).trans (h.queued n hn)
  · intro n hn
    rcases update_cases hn with ⟨-, hf⟩ | ⟨-, hq⟩
    · cases hf
    · exact h.alive n hq
  · show s.log ++ [.resume head] = _
    rw [hlog]
    simp [At.current, visit]

theorem DrainInv.suspend {next : Option N} (h : DrainInv s live detached rest)
    (hs : s.at_ = .inside next) :
    DrainInv { s with at_ := .next next } live detached rest := by
  have hc := h.chain
  have ho := h.order
  have hnd := h.nodup
  have ht := h.taken
  have hlog := h.log
  rw [hs] at hc ho hnd ht hlog
  have hidle := h.idle (by simp [hs])
  exact ⟨h.queue, hc, fun _ => hidle, ho, hnd, ht, h.queued, h.alive, hlog, h.fault⟩

/-- A node that exists and is not queued may be posted: it is in no list. -/
theorem DrainInv.call [DecidableEq N] [DecidableEq T] {t : Option T} {n : N}
    (h : DrainInv s live detached rest)
    (ha : s.alive n = true) (hq : s.queued n = false) (ht : s.heap.post t = .idle)
    (hb : s.heap.busy n = false) :
    DrainInv { s with
      heap := { s.heap with
        post := Function.update s.heap.post t (.load n)
        busy := Function.update s.heap.busy n true }
      queued := Function.update s.queued n true } live detached rest := by
  refine ⟨h.queue.call ht hb, h.chain, h.idle, h.order, h.nodup, ?_, ?_, ?_, h.log, h.fault⟩
  · intro a hm
    obtain ⟨hba, hqa⟩ := h.taken a hm
    have hne : a ≠ n := by
      intro he
      rw [he, hq] at hqa
      cases hqa
    exact ⟨(Function.update_of_ne hne ..).trans hba, (Function.update_of_ne hne ..).trans hqa⟩
  · intro a hm
    rcases update_cases hm with ⟨rfl, -⟩ | ⟨hne, hba⟩
    · exact Function.update_self ..
    · exact (Function.update_of_ne hne ..).trans (h.queued a hba)
  · intro a hm
    rcases update_cases hm with ⟨rfl, -⟩ | ⟨-, hqa⟩
    · exact ha
    · exact h.alive a hqa

/-- A poster writes to the node it is posting, which the loop does not hold. -/
theorem DrainInv.postStep [DecidableEq N] [DecidableEq T] {t : Option T} {fail : Bool}
    {heap : Scheduler N (Option T)}
    (h : DrainInv s live detached rest) (hs : s.heap.postStep t fail = some heap) :
    ∃ live', DrainInv { s.touch (postTouches s.heap t) with heap := heap } live' detached rest := by
  obtain ⟨live', hq⟩ := h.queue.postStep hs
  obtain ⟨hh, hacq, hbusy, hnext⟩ := Scheduler.postStep_next hs
  have hposting : ∀ n, (s.heap.post t).schedule = some n → s.heap.busy n = true :=
    fun n hn => (h.queue.posting t n hn).1
  have htouch : s.touch (postTouches s.heap t) = s := by
    apply touch_of_queued h.alive
    intro a ha
    apply h.queued
    apply hposting
    unfold postTouches at ha
    cases ht : s.heap.post t with
    | store n head => rw [ht] at ha; exact ha
    | idle | load | exchange => rw [ht] at ha; cases ha
  rw [htouch]
  refine ⟨live', hq, ?_, fun ha => hacq.trans (h.idle ha), ?_, h.nodup, ?_, ?_, h.alive,
    h.log, h.fault⟩
  · apply Chain.congr _ h.chain
    intro n hn
    apply hnext
    intro hsched
    exact h.not_taken (hposting n hsched) (List.mem_append_right _ hn)
  · exact (congrArg List.flatten hh).trans h.order
  · intro n hn
    exact ⟨(congrFun hbusy n).trans (h.taken n hn).1, (h.taken n hn).2⟩
  · intro n hn
    exact h.queued n ((congrFun hbusy n).symm.trans hn)

/-- The memory of a node that does not exist is in no list. -/
theorem DrainInv.write [DecidableEq N] {n : N} {p : Option N} (h : DrainInv s live detached rest)
    (hn : s.alive n = false) :
    DrainInv { s with heap := { s.heap with next := Function.update s.heap.next n p } }
      live detached rest := by
  have hq : s.queued n = false := by
    by_contra hq
    rw [Bool.not_eq_false] at hq
    rw [h.alive n hq] at hn
    cases hn
  have hb : s.heap.busy n = false := by
    by_contra hb
    rw [Bool.not_eq_false] at hb
    rw [h.queued n hb] at hq
    cases hq
  refine ⟨h.queue.write hb, h.chain.update ?_, h.idle, h.order, h.nodup, h.taken, h.queued,
    h.alive, h.log, h.fault⟩
  intro hm
  rw [(h.taken n (List.mem_append_right _ hm)).2] at hq
  cases hq

/-- What was handed out, and so what was resumed, are the first posts. -/
theorem DrainInv.prefixes (h : DrainInv s live detached rest) :
    s.resumed <+: s.heap.handed.flatten ∧ s.heap.handed.flatten <+: s.heap.posted := by
  rw [← h.queue.order, List.append_assoc]
  exact ⟨h.order ▸ List.prefix_append _ _, List.prefix_append _ _⟩

/-! ## 3. Every step of the machine -/

variable [DecidableEq N] [DecidableEq T] {l : Label N T}

theorem DrainInv.step (h : DrainInv s live detached rest) (hs : s.step l = some s') :
    ∃ live' detached' rest', DrainInv s' live' detached' rest' := by
  cases l with
  | acquire =>
    rw [Drain.step] at hs
    cases hat : s.at_ with
    | acquire =>
      rw [hat] at hs
      exact Option.some.inj hs ▸ h.acquireStep hat
    | next | resume | inside => rw [hat] at hs; cases hs
  | next =>
    rw [Drain.step] at hs
    cases hat : s.at_ with
    | next head =>
      rw [hat] at hs
      exact ⟨live, detached, Option.some.inj hs ▸ h.nextStep hat⟩
    | acquire | resume | inside => rw [hat] at hs; cases hs
  | resume =>
    rw [Drain.step] at hs
    cases hat : s.at_ with
    | resume head next =>
      rw [hat] at hs
      exact ⟨live, detached, rest, Option.some.inj hs ▸ h.resumeStep hat⟩
    | acquire | next | inside => rw [hat] at hs; cases hs
  | suspend =>
    rw [Drain.step] at hs
    cases hat : s.at_ with
    | inside next =>
      rw [hat] at hs
      dsimp only at hs
      split at hs
      · exact ⟨live, detached, rest, Option.some.inj hs ▸ h.suspend hat⟩
      · cases hs
    | acquire | next | resume => rw [hat] at hs; cases hs
  | call t n =>
    rw [Drain.step] at hs
    split at hs
    · rename_i hc
      obtain ⟨ha, hq, -⟩ := hc
      obtain ⟨heap, hheap, rfl⟩ := Option.map_eq_some_iff.mp hs
      rw [Scheduler.step] at hheap
      split at hheap
      · rename_i hfree
        obtain rfl := Option.some.inj hheap
        exact ⟨live, detached, rest, h.call ha hq hfree.1 hfree.2⟩
      · cases hheap
    · cases hs
  | post t fail =>
    obtain ⟨heap, hheap, rfl⟩ := Option.map_eq_some_iff.mp hs
    obtain ⟨live', h'⟩ := h.postStep hheap
    exact ⟨live', detached, rest, h'⟩
  | create n =>
    rw [Drain.step] at hs
    split at hs
    · cases hs
    · rename_i hn
      rw [Bool.not_eq_true] at hn
      obtain rfl := Option.some.inj hs
      have hw := h.write (p := none) hn
      refine ⟨live, detached, rest, hw.queue, hw.chain, hw.idle, hw.order, hw.nodup, hw.taken,
        hw.queued, ?_, hw.log, hw.fault⟩
      intro a ha
      by_cases hne : a = n
      · rw [hne]
        exact Function.update_self ..
      · exact (Function.update_of_ne hne ..).trans (h.alive a ha)
  | destroy n =>
    rw [Drain.step] at hs
    split at hs
    · rename_i hc
      obtain rfl := Option.some.inj hs
      refine ⟨live, detached, rest, h.queue, h.chain, h.idle, h.order, h.nodup, h.taken,
        h.queued, ?_, h.log, h.fault⟩
      intro a ha
      have hne : a ≠ n := by
        intro he
        rw [he, hc.2] at ha
        cases ha
      exact (Function.update_of_ne hne ..).trans (h.alive a ha)
    · cases hs
  | reuse n p =>
    rw [Drain.step] at hs
    split at hs
    · cases hs
    · rename_i hn
      rw [Bool.not_eq_true] at hn
      obtain rfl := Option.some.inj hs
      exact ⟨live, detached, rest, h.write hn⟩

theorem drainInv_of_reaches (hr : machine.Reaches (init : Drain N T) s) :
    ∃ live detached rest, DrainInv s live detached rest :=
  hr.preserves (I := fun s => ∃ live detached rest, DrainInv s live detached rest)
    (fun ⟨_, _, _, h⟩ _ hs => h.step hs) ⟨[], [], [], drainInv_init⟩

/-- No label takes a post back. -/
theorem posted_mono (hs : s.step l = some s') : s.heap.posted <+: s'.heap.posted := by
  cases l with
  | acquire =>
    rw [Drain.step] at hs
    split at hs
    · obtain rfl := Option.some.inj hs
      exact Scheduler.posted_mono (l := .acquire) rfl
    · cases hs
  | next =>
    rw [Drain.step] at hs
    split at hs
    · rename_i head _
      obtain rfl := Option.some.inj hs
      cases head <;> exact List.prefix_rfl
    · cases hs
  | resume =>
    rw [Drain.step] at hs
    split at hs
    · obtain rfl := Option.some.inj hs
      exact List.prefix_rfl
    · cases hs
  | suspend =>
    rw [Drain.step] at hs
    split at hs
    · split at hs <;> cases hs
      exact List.prefix_rfl
    · cases hs
  | call t n =>
    rw [Drain.step] at hs
    split at hs
    · obtain ⟨heap, hheap, rfl⟩ := Option.map_eq_some_iff.mp hs
      exact Scheduler.posted_mono hheap
    · cases hs
  | post t fail =>
    obtain ⟨heap, hheap, rfl⟩ := Option.map_eq_some_iff.mp hs
    exact Scheduler.posted_mono hheap
  | create n | reuse n p =>
    rw [Drain.step] at hs
    split at hs <;> cases hs
    exact List.prefix_rfl
  | destroy n =>
    rw [Drain.step] at hs
    split at hs <;> cases hs
    exact List.prefix_rfl

/-! ## 4. The order of the resumes, for every run -/

/-- **The drain loops.** Whatever the resumed coroutines and the other threads do: the
    resumes are the first posts, in their order; what was handed out is what was resumed,
    the node the loop stands at and the chain off its pointer; once anything that is posted
    from here on is resumed, all that was handed out so far has been; the loop reads a node
    once for each of its resumes, just before it, and not after; and it never touches a node
    that does not exist or is not posted. -/
theorem drain_resumes_posts (hr : machine.Reaches (init : Drain N T) s) :
    s.resumed <+: s.heap.posted ∧
    (∃ rest, Chain s.heap.next s.at_.pointer rest ∧
      s.heap.handed.flatten = s.resumed ++ (s.at_.current ++ rest)) ∧
    (∀ s', machine.Reaches s s' → s.heap.posted.length < s'.resumed.length →
      s.heap.handed.flatten <+: s'.resumed) ∧
    s.log = s.resumed.flatMap visit ++ s.at_.current.map .read ∧
    s.fault = false := by
  obtain ⟨live, detached, rest, h⟩ := drainInv_of_reaches hr
  obtain ⟨hres, hhand⟩ := h.prefixes
  refine ⟨hres.trans hhand, ⟨rest, h.chain, h.order⟩, fun s' hr' hlen => ?_, h.log, h.fault⟩
  obtain ⟨live', detached', rest', h'⟩ := drainInv_of_reaches (hr.trans hr')
  obtain ⟨hres', hhand'⟩ := h'.prefixes
  have hmono : s.heap.posted <+: s'.heap.posted :=
    hr'.preserves (I := fun a => s.heap.posted <+: a.heap.posted)
      (fun hp _ hs => hp.trans (posted_mono hs)) List.prefix_rfl
  apply List.prefix_of_prefix_length_le (hhand.trans hmono) (hres'.trans hhand')
  exact Nat.le_trans hhand.length_le (Nat.le_of_lt hlen)

/-- The hypothesis is met by a run of two nodes in one batch: the first ends inside its
    resume, its memory is reused, and a node made there is posted before the second is
    resumed. -/
theorem drain_resumes_posts_two :
    let schedule : List (Label Bool Unit) :=
      [.create true, .create false, .call (some ()) true, .post (some ()) false,
        .post (some ()) false, .post (some ()) false, .call (some ()) false,
        .post (some ()) false, .post (some ()) false, .post (some ()) false,
        .acquire, .acquire, .acquire, .acquire, .acquire, .next, .resume,
        .destroy true, .reuse true (some true), .create true, .call none true,
        .post none false, .post none false, .post none false, .suspend, .next, .resume]
    ∃ s, machine.exec init schedule = some s ∧ s.heap.posted = [true, false, true] ∧
      s.resumed = [true, false] ∧ s.resumed <+: s.heap.posted ∧ s.fault = false := by
  intro schedule
  have hrun : machine.exec init schedule = some _ := rfl
  refine ⟨_, hrun, rfl, rfl, ?_⟩
  have h := drain_resumes_posts (Machine.reaches_of_exec schedule hrun)
  exact ⟨h.1, h.2.2.2.2⟩

end Drain

end Ice
