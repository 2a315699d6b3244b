import Mathlib.Data.List.Basic

/-!
# Splitting a growing list into lines

`List.splitOnP` cuts a list at every separator; the last piece is the one that no separator
has ended. Here are the two parts of the split under names (`ended`, `current`), how they
change when one element is added *at the end*, and `followed`: the lines that are worth
keeping and that something came after.
-/

namespace Ice
namespace Lib

variable {β : Type*} (sep : β → Bool)

/-- An element added at the end is the one that a split is made at, or it stays at the end. -/
theorem concat_eq_split {s before after : List β} {x y : β} :
    s ++ [x] = before ++ y :: after ↔
      after = [] ∧ x = y ∧ s = before ∨ ∃ mid, after = mid ++ [x] ∧ s = before ++ y :: mid := by
  constructor
  · intro h
    rcases List.eq_nil_or_concat after with rfl | ⟨mid, last, rfl⟩
    · obtain ⟨hs, hx⟩ := List.append_inj' h rfl
      exact Or.inl ⟨rfl, List.singleton_inj.mp hx, hs⟩
    · rw [List.concat_eq_append, ← List.cons_append, ← List.append_assoc] at h
      obtain ⟨hs, hx⟩ := List.append_inj' h rfl
      rw [List.singleton_inj.mp hx]
      exact Or.inr ⟨mid, List.concat_eq_append, hs⟩
  · rintro (⟨rfl, rfl, rfl⟩ | ⟨mid, rfl, rfl⟩) <;> simp

/-- The lines that a separator ended. -/
def ended (s : List β) : List (List β) := (s.splitOnP sep).dropLast

/-- What follows the last separator. -/
def current (s : List β) : List β := (s.splitOnP sep).getLast (List.splitOnP_ne_nil sep s)

theorem splitOnP_eq (s : List β) : s.splitOnP sep = ended sep s ++ [current sep s] :=
  (List.dropLast_concat_getLast (List.splitOnP_ne_nil sep s)).symm

/-- A split is determined by its two parts. -/
theorem ended_current_of_split {s : List β} {lines : List (List β)} {line : List β}
    (h : s.splitOnP sep = lines ++ [line]) : ended sep s = lines ∧ current sep s = line := by
  simp [ended, current, h]

@[simp] theorem ended_nil : ended sep [] = [] := rfl

@[simp] theorem current_nil : current sep [] = [] := rfl

variable {sep}

theorem splitOnP_concat {x : β} (hx : sep x = false) (s : List β) :
    (s ++ [x]).splitOnP sep = ended sep s ++ [current sep s ++ [x]] := by
  induction s with
  | nil => simp [List.splitOnP_cons_eq_if_modifyHead, hx]
  | cons y s ih =>
    rw [List.cons_append, List.splitOnP_cons_eq_if_modifyHead, ih]
    have hcons := List.splitOnP_cons_eq_if_modifyHead (p := sep) y s
    rw [splitOnP_eq sep s] at hcons
    cases hy : sep y with
    | true =>
      rw [hy, if_pos rfl, ← List.cons_append] at hcons
      obtain ⟨he, hc⟩ := ended_current_of_split sep hcons
      rw [he, hc]
      rfl
    | false =>
      rw [hy, if_neg Bool.false_ne_true] at hcons
      rw [if_neg Bool.false_ne_true]
      -- The first element goes into the first line, which may be the current one.
      cases hends : ended sep s with
      | nil =>
        rw [hends] at hcons
        obtain ⟨he, hc⟩ : ended sep (y :: s) = [] ∧ current sep (y :: s) = y :: current sep s :=
          ended_current_of_split sep hcons
        rw [he, hc]
        rfl
      | cons line lines =>
        rw [hends] at hcons
        obtain ⟨he, hc⟩ : ended sep (y :: s) = (y :: line) :: lines ∧
            current sep (y :: s) = current sep s := ended_current_of_split sep hcons
        rw [he, hc]
        rfl

section Concat

variable {x : β} (s : List β)

theorem ended_concat (hx : sep x = false) : ended sep (s ++ [x]) = ended sep s :=
  (ended_current_of_split sep (splitOnP_concat hx s)).1

theorem current_concat (hx : sep x = false) : current sep (s ++ [x]) = current sep s ++ [x] :=
  (ended_current_of_split sep (splitOnP_concat hx s)).2

theorem splitOnP_concat_sep (hx : sep x = true) :
    (s ++ [x]).splitOnP sep = (ended sep s ++ [current sep s]) ++ [[]] := by
  rw [List.splitOnP_append_cons s [] hx, ← splitOnP_eq, List.splitOnP_nil]

theorem ended_concat_sep (hx : sep x = true) :
    ended sep (s ++ [x]) = ended sep s ++ [current sep s] :=
  (ended_current_of_split sep (splitOnP_concat_sep s hx)).1

theorem current_concat_sep (hx : sep x = true) : current sep (s ++ [x]) = [] :=
  (ended_current_of_split sep (splitOnP_concat_sep s hx)).2

end Concat

/-- The lines to keep that some later line, empty ones apart, comes after. -/
def followed (keep : List β → Bool) : List (List β) → List (List β)
  | [] => []
  | line :: later =>
    if keep line && later.any (fun l => !l.isEmpty) then line :: followed keep later
    else followed keep later

section Followed

variable {keep : List β → Bool} (lines : List (List β))

/-- Behind a last line that is not empty, every line is followed. -/
theorem followed_append {line : List β} (hline : line ≠ []) :
    followed keep (lines ++ [line]) = lines.filter keep := by
  induction lines with
  | nil => simp [followed]
  | cons l lines ih =>
    have hany : (lines ++ [line]).any (fun l => !l.isEmpty) = true := by simp [hline]
    rw [List.cons_append, followed, hany, Bool.and_true, ih, List.filter_cons]

/-- An empty last line follows nothing. -/
theorem followed_append_nil : followed keep (lines ++ [[]]) = followed keep lines := by
  induction lines with
  | nil => simp [followed]
  | cons l lines ih =>
    have hany : (lines ++ [[]]).any (fun l => !l.isEmpty) = lines.any (fun l => !l.isEmpty) := by
      simp
    rw [List.cons_append, followed, hany, ih, followed]

end Followed

end Lib
end Ice
