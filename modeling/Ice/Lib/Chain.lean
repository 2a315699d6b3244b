import Mathlib.Data.List.Basic
import Mathlib.Logic.Function.Basic

/-!
# Null-terminated chains through a `next` field

`Chain next p l` says that following `next` from the pointer `p` visits exactly the nodes
of `l`, in order, and then a null pointer. A pointer heads at most one chain, a chain never
visits a node twice, and writing the `next` field of a node outside the chain leaves it
alone: these three facts are all that an in-place list algorithm needs.
-/

namespace Ice
namespace Lib

variable {α : Type*}

/-- Following `next` from `p` visits the nodes of `l` and ends at null. -/
def Chain (next : α → Option α) : Option α → List α → Prop
  | p, [] => p = none
  | p, a :: l => p = some a ∧ Chain next (next a) l

/-- The first `fuel` nodes met when following `next` from `p`. -/
def walk (next : α → Option α) : Nat → Option α → List α
  | _, none => []
  | 0, some _ => []
  | fuel + 1, some a => a :: walk next fuel (next a)

namespace Chain

variable {next : α → Option α} {p : Option α} {a : α} {l l' : List α}

@[simp] theorem nil_iff : Chain next p [] ↔ p = none := Iff.rfl

@[simp] theorem cons_iff :
    Chain next p (a :: l) ↔ p = some a ∧ Chain next (next a) l := Iff.rfl

@[simp] theorem none_iff : Chain next none l ↔ l = [] := by
  cases l <;> simp

/-- A chain from a node starts with that node. -/
theorem of_some (h : Chain next (some a) l) : ∃ t, l = a :: t ∧ Chain next (next a) t := by
  cases l with
  | nil => simp at h
  | cons b t =>
    obtain ⟨hb, ht⟩ := cons_iff.mp h
    obtain rfl := Option.some.inj hb
    exact ⟨t, rfl, ht⟩

/-- A pointer heads at most one chain. -/
theorem unique : ∀ {p : Option α} {l l' : List α},
    Chain next p l → Chain next p l' → l = l'
  | none, l, l', h, h' => by rw [none_iff.mp h, none_iff.mp h']
  | some a, l, l', h, h' => by
    obtain ⟨t, rfl, ht⟩ := of_some h
    obtain ⟨t', rfl, ht'⟩ := of_some h'
    rw [unique ht ht']
  termination_by _ l => l.length

/-- Only the fields of the nodes on the chain matter. -/
theorem congr {next' : α → Option α} : ∀ {p : Option α} {l : List α},
    (∀ n ∈ l, next' n = next n) → Chain next p l → Chain next' p l
  | _, [], _, h => h
  | _, b :: l, hn, h => by
    obtain ⟨hb, hl⟩ := cons_iff.mp h
    refine cons_iff.mpr ⟨hb, ?_⟩
    rw [hn b List.mem_cons_self]
    exact congr (fun n hm => hn n (List.mem_cons_of_mem _ hm)) hl

/-- **The frame rule.** Writing the field of a node outside the chain leaves the chain. -/
theorem update [DecidableEq α] {n : α} {q : Option α} : ∀ {p : Option α} {l : List α},
    n ∉ l → Chain next p l → Chain (Function.update next n q) p l
  | _, [], _, h => h
  | _, b :: l, hn, h => by
    obtain ⟨hb, hl⟩ := cons_iff.mp h
    have hne : b ≠ n := fun hbn => hn (hbn ▸ List.mem_cons_self)
    refine cons_iff.mpr ⟨hb, ?_⟩
    rw [Function.update_of_ne hne]
    exact update (fun hm => hn (List.mem_cons_of_mem _ hm)) hl

/-- Linking a node in front of a chain it is not part of. -/
theorem push [DecidableEq α] (hn : a ∉ l) (h : Chain next p l) :
    Chain (Function.update next a p) (some a) (a :: l) := by
  refine cons_iff.mpr ⟨rfl, ?_⟩
  rw [Function.update_self]
  exact update hn h

/-- With enough fuel, walking a chain lists it. -/
theorem walk_eq : ∀ {fuel : Nat} {p : Option α} {l : List α},
    Chain next p l → l.length ≤ fuel → walk next fuel p = l
  | fuel, _, [], h, _ => by
    obtain rfl := nil_iff.mp h
    cases fuel <;> rfl
  | 0, _, _ :: _, _, hf => absurd hf (by simp)
  | fuel + 1, _, b :: l, h, hf => by
    obtain ⟨rfl, hl⟩ := cons_iff.mp h
    rw [walk, walk_eq hl (by simpa using hf)]

end Chain

end Lib
end Ice
