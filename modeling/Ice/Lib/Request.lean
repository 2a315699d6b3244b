import Ice.Lib.Machine

/-!
# The life of a request

A party issues a request, the system completes it, and the party continues. What is seen from
outside are these events of all parties in their order; `life c` replays those of the party `c`.
If it replays them, `c` never continues before its request is complete, nor twice for one, and
never has two requests at a time.
-/

set_option autoImplicit false

namespace Ice
namespace Lib

inductive Request (C : Type*)
  | issued (c : C)
  | completed (c : C)
  | continued (c : C)
  deriving DecidableEq

namespace Request

variable {C : Type*}

/-- The party an event is about. -/
def party : Request C → C
  | .issued c | .completed c | .continued c => c

inductive Stage
  | idle
  | pending
  | complete
  deriving DecidableEq

def next : Stage → Request C → Option Stage
  | .idle, .issued _ => some .pending
  | .pending, .completed _ => some .complete
  | .complete, .continued _ => some .idle
  | _, _ => none

variable [DecidableEq C]

def life (c : C) : Machine Stage (Request C) :=
  ⟨fun stage e => if e.party ≠ c then some stage else next stage e⟩

variable {c : C} {events : List (Request C)} {stage stage' : Stage} {e : Request C}

/-- An event of another party. -/
theorem life_other (h : (life c).exec .idle events = some stage) (he : e.party ≠ c) :
    (life c).exec .idle (events ++ [e]) = some stage := by
  rw [Machine.exec_append, h]
  exact congrArg (Option.bind · _) (if_pos he)

theorem life_next (h : (life c).exec .idle events = some stage) (hparty : e.party = c)
    (hnext : next stage e = some stage') :
    (life c).exec .idle (events ++ [e]) = some stage' := by
  rw [Machine.exec_append, h]
  have hstep : (life c).step stage e = some stage' := (if_neg (not_not.mpr hparty)).trans hnext
  exact congrArg (Option.bind · _) hstep

end Request

end Lib
end Ice
