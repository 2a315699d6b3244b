import Mathlib.Data.List.Basic

/-!
# A batched FIFO queue with push numbers

The queue behind a run loop: parties `push` one element at a time, and the loop `take`s
everything that is waiting. Every push is numbered, in order, so that two pushes of one
element are told apart and "the push that returned before …" names one entry. The bound on
the numbers travels with the queue (`fresh`): an entry that is waiting was pushed, and a push
still to come gets a number nobody holds.
-/

namespace Ice
namespace Lib

/-- The entries waiting, oldest first, each with the number of its push. -/
structure Fifo (α : Type*) where
  pushed : Nat
  waiting : List (Nat × α)
  fresh : ∀ e ∈ waiting, e.1 < pushed

namespace Fifo

variable {α : Type*}

def empty : Fifo α := ⟨0, [], by simp⟩

def push (q : Fifo α) (a : α) : Fifo α where
  pushed := q.pushed + 1
  waiting := q.waiting ++ [(q.pushed, a)]
  fresh := by
    intro e he
    rcases List.mem_append.mp he with he | he
    · exact Nat.lt_succ_of_lt (q.fresh e he)
    · rw [List.mem_singleton.mp he]
      exact Nat.lt_succ_self _

/-- What is left once everything waiting was taken. -/
def take (q : Fifo α) : Fifo α := ⟨q.pushed, [], by simp⟩

/-- The push numbers waiting. -/
def numbers (q : Fifo α) : List Nat := q.waiting.map Prod.fst

instance : Inhabited (Fifo α) := ⟨empty⟩

@[simp] theorem pushed_empty : (empty : Fifo α).pushed = 0 := rfl
@[simp] theorem waiting_empty : (empty : Fifo α).waiting = [] := rfl
@[simp] theorem numbers_empty : (empty : Fifo α).numbers = [] := rfl
@[simp] theorem pushed_push (q : Fifo α) (a : α) : (q.push a).pushed = q.pushed + 1 := rfl
@[simp] theorem waiting_push (q : Fifo α) (a : α) :
    (q.push a).waiting = q.waiting ++ [(q.pushed, a)] := rfl
@[simp] theorem numbers_push (q : Fifo α) (a : α) :
    (q.push a).numbers = q.numbers ++ [q.pushed] := by simp [numbers]
@[simp] theorem pushed_take (q : Fifo α) : q.take.pushed = q.pushed := rfl
@[simp] theorem waiting_take (q : Fifo α) : q.take.waiting = [] := rfl
@[simp] theorem numbers_take (q : Fifo α) : q.take.numbers = [] := rfl

/-- A push still to come gets a number that nothing in the queue has. -/
theorem lt_of_mem_numbers {q : Fifo α} {k : Nat} (h : k ∈ q.numbers) : k < q.pushed := by
  obtain ⟨e, he, rfl⟩ := List.mem_map.mp h
  exact q.fresh e he

end Fifo

end Lib
end Ice
