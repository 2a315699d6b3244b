import Ice.Lib.Fifo
import Ice.Lib.Machine
import Mathlib.Tactic.Common

/-!
# A queue and a stop flag, shared by callers and one run loop

Any number of threads call `post` (push an element, then signal) and `stop` (store the flag,
then signal); one loop takes what is waiting and handles it. What the signal is, and how the
loop waits for it, is left to the instance: here are the callers' own accesses, the loop's
take and hand-over, and the bookkeeping that a drain argument needs.

The bookkeeping answers one question: is a push that returned before the first call of
`stop(true)` began — an *owed* push — still waiting? `Ledger` says where every push is, and
`Settled` that no owed push is waiting. Once the flag has been set, `Settled` survives
everything a caller can do, because from the first call of `stop(true)` on nothing more
becomes owed.
-/

namespace Ice
namespace Lib

/-- Where a thread stands in a call of `post` or `stop`. -/
inductive Caller (α : Type*)
  | idle
  -- About to push the element.
  | push (a : α)
  -- Pushed, under this number; about to signal.
  | posted (number : Nat)
  -- About to store the flag.
  | store (stop : Bool)
  -- Stored; about to signal.
  | stopped
  deriving DecidableEq

/-- The thread is between its push, or its store, and the signal that follows. -/
def Caller.pending {α : Type*} : Caller α → Bool
  | .posted _ | .stopped => true
  | _ => false

structure Mailbox (α ι : Type*) where
  queue : Fifo α
  stop : Bool
  caller : ι → Caller α
  -- The pushes whose element was handled, in that order.
  handled : List Nat
  -- A call of `stop(true)` has begun.
  stopCalled : Bool
  -- The flag has been true.
  stopStored : Bool
  -- The pushes of the calls of `post` that returned before the first `stop(true)` began.
  owed : List Nat

namespace Mailbox

variable {α ι : Type*}

def init : Mailbox α ι where
  queue := Fifo.empty
  stop := false
  caller _ := .idle
  handled := []
  stopCalled := false
  stopStored := false
  owed := []

/-- The loop takes all that is waiting. -/
def take (m : Mailbox α ι) : Mailbox α ι := { m with queue := m.queue.take }

/-- The loop handles the push numbered `k`. -/
def handle (m : Mailbox α ι) (k : Nat) : Mailbox α ι := { m with handled := m.handled ++ [k] }

section Calls

variable [DecidableEq ι] (m : Mailbox α ι) (t : ι)

/-- `t` calls `post(a)`. -/
def callPost (a : α) : Option (Mailbox α ι) :=
  match m.caller t with
  | .idle => some { m with caller := Function.update m.caller t (.push a) }
  | _ => none

/-- `t` calls `stop(stop)`. -/
def callStop (stop : Bool) : Option (Mailbox α ι) :=
  match m.caller t with
  | .idle =>
    some { m with
      caller := Function.update m.caller t (.store stop)
      stopCalled := m.stopCalled || stop }
  | _ => none

/-- `t` pushes `a`. -/
def push (a : α) : Mailbox α ι :=
  { m with
    queue := m.queue.push a
    caller := Function.update m.caller t (.posted m.queue.pushed) }

/-- `t` has signalled the push numbered `number`, and `post` returns. -/
def postReturns (number : Nat) : Mailbox α ι :=
  { m with
    caller := Function.update m.caller t .idle
    owed := if m.stopCalled then m.owed else m.owed ++ [number] }

/-- `t` stores the flag. -/
def store (stop : Bool) : Mailbox α ι :=
  { m with
    stop := stop
    caller := Function.update m.caller t .stopped
    stopStored := m.stopStored || stop }

/-- `t` has signalled its store, and `stop` returns. -/
def stopReturns : Mailbox α ι := { m with caller := Function.update m.caller t .idle }

end Calls

/-! ## 1. Who is still going to signal -/

/-- Some thread is between its push, or its store, and its signal. -/
def Announced (m : Mailbox α ι) : Prop := ∃ t, (m.caller t).pending = true

section Announced

variable [DecidableEq ι] {m m' : Mailbox α ι} {t : ι}

/-- A thread other than the one that moved is announcing as before. -/
theorem announced_of_ne {u : ι} {c : Caller α} (hc : m'.caller = Function.update m.caller t c)
    (hne : u ≠ t) (hu : (m.caller u).pending = true) : m'.Announced :=
  ⟨u, by rw [hc, Function.update_of_ne hne, hu]⟩

theorem announced_push (a : α) : (m.push t a).Announced := ⟨t, by simp [push, Caller.pending]⟩

theorem announced_store (stop : Bool) : (m.store t stop).Announced :=
  ⟨t, by simp [store, Caller.pending]⟩

/-- Entering a call takes no announcement away. -/
theorem Announced.enter {c : Caller α} (h : m.Announced) (ht : m.caller t = .idle)
    (hc : m'.caller = Function.update m.caller t c) : m'.Announced := by
  obtain ⟨u, hu⟩ := h
  refine announced_of_ne hc ?_ hu
  intro hut
  rw [hut, ht] at hu
  cases hu

end Announced

/-! ## 2. Where every push is -/

/-- The push numbered `k` is waiting, in the loop's hands, or handled. -/
def Accounted (m : Mailbox α ι) (hands : List Nat) (k : Nat) : Prop :=
  k ∈ m.queue.numbers ∨ k ∈ hands ∨ k ∈ m.handled

/-- Every push that matters is accounted for, the loop holding `hands`. -/
structure Ledger (m : Mailbox α ι) (hands : List Nat) : Prop where
  owed : ∀ k ∈ m.owed, m.Accounted hands k
  posted : ∀ t k, m.caller t = .posted k → m.Accounted hands k
  -- What has left the queue was pushed.
  fresh : ∀ k, k ∈ hands ∨ k ∈ m.handled → k < m.queue.pushed
  -- The flag becomes true through a call of `stop(true)`.
  called : m.stopStored = true → m.stopCalled = true
  stored : m.stop = true → m.stopStored = true
  storing : ∀ t, m.caller t = .store true → m.stopCalled = true

theorem ledger_init : Ledger (init : Mailbox α ι) [] where
  owed := by simp [init]
  posted := by simp [init]
  fresh := by simp [init]
  called := by simp [init]
  stored := by simp [init]
  storing := by simp [init]

/-- No owed push is waiting. -/
def Settled (m : Mailbox α ι) : Prop := ∀ k ∈ m.owed, k ∉ m.queue.numbers

instance (m : Mailbox α ι) : Decidable m.Settled :=
  inferInstanceAs (Decidable (∀ k ∈ m.owed, k ∉ m.queue.numbers))

theorem settled_take (m : Mailbox α ι) : m.take.Settled := by
  intro k _
  simp [take]

namespace Ledger

variable {m m' : Mailbox α ι} {hands : List Nat}

/-- A push still to come gets a number that nobody holds. -/
theorem lt_of_accounted {k : Nat} (h : Ledger m hands) (hk : m.Accounted hands k) :
    k < m.queue.pushed := by
  rcases hk with hq | hout
  · exact Fifo.lt_of_mem_numbers hq
  · exact h.fresh k hout

/-- What is waiting moves into the loop's empty hands. -/
theorem take (h : Ledger m []) : Ledger m.take m.queue.numbers := by
  have hacc : ∀ k, m.Accounted [] k ↔ m.take.Accounted m.queue.numbers k := by
    intro k
    simp [Accounted, Mailbox.take]
  refine ⟨fun k hk => (hacc k).mp (h.owed k hk), fun t k ht => (hacc k).mp (h.posted t k ht),
    ?_, h.called, h.stored, h.storing⟩
  intro k hk
  rcases hk with hk | hk
  · exact Fifo.lt_of_mem_numbers (q := m.queue) hk
  · exact h.fresh k (Or.inr hk)

/-- The push at the front of the batch is handled. -/
theorem handle {k : Nat} {rest : List Nat} (h : Ledger m (k :: rest)) :
    Ledger (m.handle k) rest := by
  have hacc : ∀ j, m.Accounted (k :: rest) j ↔ (m.handle k).Accounted rest j := by
    intro j
    simp only [Accounted, Mailbox.handle, List.mem_cons, List.mem_append, List.not_mem_nil,
      or_false]
    tauto
  exact ⟨fun j hj => (hacc j).mp (h.owed j hj), fun t j ht => (hacc j).mp (h.posted t j ht),
    fun j hj => h.lt_of_accounted ((hacc j).mpr (Or.inr hj)), h.called, h.stored, h.storing⟩

variable [DecidableEq ι] {t : ι}

/-- A thread that is not waiting to signal a push leaves the pushes to be signalled as they
    are. -/
theorem posted_update {f : ι → Caller α} {c : Caller α} {P : Nat → Prop}
    (hc : ∀ k, c = .posted k → P k) (h : ∀ u k, f u = .posted k → P k) :
    ∀ u k, Function.update f t c u = .posted k → P k := by
  intro u k hu
  rcases update_cases hu with ⟨-, hx⟩ | ⟨-, hu⟩
  · exact hc k hx
  · exact h u k hu

theorem storing_update {f : ι → Caller α} {c : Caller α} {P : Prop}
    (hc : c = .store true → P) (h : ∀ u, f u = .store true → P) :
    ∀ u, Function.update f t c u = .store true → P := by
  intro u hu
  rcases update_cases hu with ⟨-, hx⟩ | ⟨-, hu⟩
  · exact hc hx
  · exact h u hu

theorem callPost {a : α} (h : Ledger m hands) (hs : m.callPost t a = some m') :
    Ledger m' hands := by
  unfold Mailbox.callPost at hs
  split at hs <;> cases hs
  exact ⟨h.owed, posted_update (by simp) h.posted, h.fresh, h.called, h.stored,
    storing_update (by simp) h.storing⟩

theorem callStop {stop : Bool} (h : Ledger m hands) (hs : m.callStop t stop = some m') :
    Ledger m' hands := by
  unfold Mailbox.callStop at hs
  split at hs <;> cases hs
  refine ⟨h.owed, posted_update (by simp) h.posted, h.fresh, ?_, h.stored,
    storing_update ?_ ?_⟩
  · intro hst
    simp [h.called hst]
  · intro hc
    simp [Caller.store.inj hc]
  · intro u hu
    simp [h.storing u hu]

theorem push {a : α} (h : Ledger m hands) : Ledger (m.push t a) hands := by
  have hacc : ∀ k, (m.push t a).Accounted hands k ↔
      m.Accounted hands k ∨ k = m.queue.pushed := by
    intro k
    simp only [Accounted, Mailbox.push, Fifo.numbers_push, List.mem_append,
      List.mem_singleton]
    tauto
  refine ⟨fun k hk => (hacc k).mpr (Or.inl (h.owed k hk)), posted_update ?_ ?_,
    fun k hk => Nat.lt_succ_of_lt (h.fresh k hk), h.called, h.stored,
    storing_update (by simp) h.storing⟩
  · intro k hk
    exact (hacc k).mpr (Or.inr (Caller.posted.inj hk).symm)
  · intro u k hu
    exact (hacc k).mpr (Or.inl (h.posted u k hu))

theorem postReturns {number : Nat} (h : Ledger m hands) (ht : m.caller t = .posted number) :
    Ledger (m.postReturns t number) hands := by
  refine ⟨?_, posted_update (by simp) h.posted, h.fresh, h.called, h.stored,
    storing_update (by simp) h.storing⟩
  intro k hk
  simp only [Mailbox.postReturns] at hk
  split at hk
  · exact h.owed k hk
  · rcases List.mem_append.mp hk with hk | hk
    · exact h.owed k hk
    · exact h.posted t k (List.mem_singleton.mp hk ▸ ht)

theorem store {stop : Bool} (h : Ledger m hands) (ht : m.caller t = .store stop) :
    Ledger (m.store t stop) hands := by
  refine ⟨h.owed, posted_update (by simp) h.posted, h.fresh, ?_, ?_,
    storing_update (by simp) h.storing⟩
  · intro hst
    rcases Bool.or_eq_true _ _ |>.mp hst with hst | rfl
    · exact h.called hst
    · exact h.storing t ht
  · intro hst
    simp only [Mailbox.store] at hst
    simp [Mailbox.store, hst]

theorem stopReturns (h : Ledger m hands) : Ledger (m.stopReturns t) hands :=
  ⟨h.owed, posted_update (by simp) h.posted, h.fresh, h.called, h.stored,
    storing_update (by simp) h.storing⟩

/-! ## 3. Once settled, always settled -/

/-- A push that is made now was not owed before. -/
theorem settled_push {a : α} (h : Ledger m hands) (hm : m.Settled) : (m.push t a).Settled := by
  intro k hk
  have hlt := h.lt_of_accounted (h.owed k hk)
  simp only [Mailbox.push, Fifo.numbers_push, List.mem_append, List.mem_singleton, not_or]
  exact ⟨hm k hk, Nat.ne_of_lt hlt⟩

/-- After the flag was set, a post that returns is not owed. -/
theorem settled_postReturns {number : Nat} (h : Ledger m hands) (hst : m.stopStored = true)
    (hm : m.Settled) : (m.postReturns t number).Settled := by
  intro k hk
  simp only [Mailbox.postReturns, h.called hst, if_true] at hk
  exact hm k hk

end Ledger

theorem callPost_frame [DecidableEq ι] {m m' : Mailbox α ι} {t : ι} {a : α}
    (hs : m.callPost t a = some m') : m.caller t = .idle ∧
      m' = { m with caller := Function.update m.caller t (.push a) } := by
  unfold callPost at hs
  split at hs <;> cases hs
  rename_i ht
  exact ⟨ht, rfl⟩

theorem callStop_frame [DecidableEq ι] {m m' : Mailbox α ι} {t : ι} {stop : Bool}
    (hs : m.callStop t stop = some m') : m.caller t = .idle ∧
      m' = { m with
        caller := Function.update m.caller t (.store stop)
        stopCalled := m.stopCalled || stop } := by
  unfold callStop at hs
  split at hs <;> cases hs
  rename_i ht
  exact ⟨ht, rfl⟩

end Mailbox

end Lib
end Ice
