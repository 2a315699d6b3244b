import Ice.Lib.Machine

/-!
# Custody of a resource

What is seen from outside of the owners of resources is a sequence of events: a resource is
taken over, given back, or closed. `custody v` is the life of the one resource `v` in it: it is
nobody's, then somebody's, until it is given back or closed, and then it may be taken over
again. A sequence that `custody v` replays therefore never closes `v` while it is nobody's, nor
twice for one time that it was taken over.
-/

namespace Ice
namespace Lib

/-- What happened to a resource. -/
inductive Custody (V : Type*)
  | acquired (v : V)
  | released (v : V)
  | closed (v : V)
  deriving DecidableEq

namespace Custody

variable {V : Type*}

/-- The resource an event is about. -/
def value : Custody V → V
  | .acquired v | .released v | .closed v => v

def closes : Custody V → Option V
  | .closed v => some v
  | .acquired _ | .released _ => none

variable [DecidableEq V]

/-- The life of `v`: whether it is somebody's. -/
def custody (v : V) : Machine Bool (Custody V) :=
  ⟨fun owned e =>
    if e.value ≠ v then some owned
    else
      match owned, e with
      | false, .acquired _ => some true
      | true, .released _ => some false
      | true, .closed _ => some false
      | _, _ => none⟩

variable {v : V} {events : List (Custody V)} {owned : Bool}

/-- An event about another resource. -/
theorem custody_other {e : Custody V} (h : (custody v).exec false events = some owned)
    (he : e.value ≠ v) : (custody v).exec false (events ++ [e]) = some owned := by
  rw [Machine.exec_append, h]
  exact congrArg (Option.bind · _) (if_pos he)

theorem custody_acquired (h : (custody v).exec false events = some false) :
    (custody v).exec false (events ++ [.acquired v]) = some true := by
  rw [Machine.exec_append, h]
  exact congrArg (Option.bind · _) (if_neg (not_not.mpr rfl))

/-- A resource that is somebody's is given back or closed. -/
theorem custody_ended {e : Custody V} (h : (custody v).exec false events = some true)
    (he : e = .released v ∨ e = .closed v) :
    (custody v).exec false (events ++ [e]) = some false := by
  rw [Machine.exec_append, h]
  rcases he with rfl | rfl
  · exact congrArg (Option.bind · _) (if_neg (not_not.mpr rfl))
  · exact congrArg (Option.bind · _) (if_neg (not_not.mpr rfl))

end Custody

end Lib
end Ice
