import Ice.Async.Mutex
import Mathlib.Data.List.Nodup
import Mathlib.Tactic.Common

/-!
# The mutex serves its coroutines one at a time, in the order they arrived

`MutexInv` names the owner, the coroutines stacked on `m_state` (newest first) and those
that only the owner can reach (`queue`, oldest first). What was granted, then the queue, then
the stack turned around spell the arrivals in order: a waiter is never lost, never resumed
twice and never overtaken. The lists are disjoint and the owner is in neither, so the
relinking inside `unlock` and the stores of those that arrive never touch one node.
-/

set_option autoImplicit false

namespace Ice
namespace AsyncMutex

open Lib

variable {C : Type*}

theorem Operation.eq_holding {op : Operation C} (howns : op.owns = true)
    (hout : op.unlocking = false) : op = .holding := by
  cases op with
  | holding => rfl
  | idle | load | take | store _ | push _ | waiting | failed => cases howns
  | unlock | release | exchange | reverse _ _ | pop _ | resume _ => cases hout

/-- No arrival is forgotten and no unlock taken back. -/
def Grows (s s' : AsyncMutex C) : Prop := s.arrived <+: s'.arrived ∧ s.unlocked ≤ s'.unlocked

theorem Grows.refl (s : AsyncMutex C) : s.Grows s := ⟨List.prefix_refl _, Nat.le_refl _⟩

/-- The stack off `m_state`, by who owns the mutex. -/
def Stacked (s : AsyncMutex C) : Option C → List C → Prop
  | none, stack => s.state = .not_locked ∧ stack = []
  | some _, stack => ∃ waiter, s.state = .locked waiter ∧ Chain s.next waiter stack

/-- The coroutines that only the owner can reach, oldest first, by where it stands. -/
def Held (s : AsyncMutex C) : Operation C → List C → Prop
  | .release, queue | .exchange, queue => s.waiters = none ∧ queue = []
  | .reverse next waitersHead, queue =>
    ∃ rest turned, Chain s.next (some next) rest ∧ Chain s.next waitersHead turned ∧
      queue = rest.reverse ++ turned
  | .pop waitersHead, queue => Chain s.next (some waitersHead) queue
  | .resume waitersHead, queue =>
    ∃ rest, Chain s.next s.waiters rest ∧ queue = waitersHead :: rest
  | _, queue => Chain s.next s.waiters queue

/-- `Held` of the owner; nothing is held where there is none. -/
def HeldBy (s : AsyncMutex C) : Option C → List C → Prop
  | none, queue => s.waiters = none ∧ queue = []
  | some c, queue => s.Held (s.op c) queue

/-- What is known where a coroutine stands. It expects in `m_state` what it stored in `m_next`,
    and the exchange of `unlock` finds somebody. -/
def Placed (s : AsyncMutex C) (stack : List C) (c : C) : Operation C → Prop
  | .push waiter => s.next c = waiter
  | .exchange => stack ≠ []
  | .failed => False
  | _ => True

theorem Placed.mono {s s' : AsyncMutex C} {stack stack' : List C} {c : C} {op : Operation C}
    (h : s.Placed stack c op) (hnext : ∀ waiter, op = .push waiter → s'.next c = s.next c)
    (hstack : op = .exchange → stack' ≠ []) : s'.Placed stack' c op := by
  cases op with
  | push waiter => exact (hnext waiter rfl).trans h
  | exchange => exact hstack rfl
  | failed => exact h
  | idle | load | take | store _ | waiting | holding | unlock | release | reverse _ _ | pop _
  | resume _ => trivial

structure MutexInv (s : AsyncMutex C) (owner : Option C) (stack queue : List C) : Prop where
  owns : ∀ c, (s.op c).owns = true ↔ owner = some c
  stacked : s.Stacked owner stack
  held : s.HeldBy owner queue
  order : s.granted ++ queue ++ stack.reverse = s.arrived
  nodup : (stack ++ queue).Nodup
  waiting : ∀ c, s.op c = .waiting ↔ c ∈ stack ++ queue
  placed : ∀ c, s.Placed stack c (s.op c)
  count : s.granted.length = s.unlocked + owner.toList.length

theorem mutexInv_init : MutexInv (init : AsyncMutex C) none [] [] where
  owns := by simp [init, Operation.owns]
  stacked := ⟨rfl, rfl⟩
  held := ⟨rfl, rfl⟩
  order := rfl
  nodup := List.nodup_nil
  waiting := by simp [init]
  placed := fun _ => trivial
  count := rfl

/-! ## 1. Writes that the lists do not see -/

theorem Held.update [DecidableEq C] {s : AsyncMutex C} {op : Operation C} {queue : List C}
    {c : C} {p : Option C} (h : s.Held op queue) (hc : c ∉ queue) :
    Held { s with next := Function.update s.next c p } op queue := by
  cases op with
  | release | exchange => exact h
  | reverse n head =>
    obtain ⟨rest, turned, hrest, hturned, rfl⟩ := h
    rw [List.mem_append, List.mem_reverse, not_or] at hc
    exact ⟨rest, turned, hrest.update hc.1, hturned.update hc.2, rfl⟩
  | pop head => exact Chain.update hc h
  | resume head =>
    obtain ⟨rest, hrest, rfl⟩ := h
    exact ⟨rest, hrest.update (fun hm => hc (List.mem_cons_of_mem _ hm)), rfl⟩
  | idle | load | take | store _ | push _ | waiting | holding | unlock | failed =>
    exact Chain.update hc h

namespace MutexInv

variable {s : AsyncMutex C} {owner : Option C} {stack queue : List C} {c : C}

/-- Who neither owns the mutex nor waits is in neither list. -/
theorem notMem (h : MutexInv s owner stack queue) (hw : s.op c ≠ .waiting) :
    c ∉ stack ++ queue := fun hm => hw ((h.waiting c).mpr hm)

theorem owner_eq (h : MutexInv s owner stack queue) (hc : (s.op c).owns = true) :
    owner = some c := (h.owns c).mp hc

variable [DecidableEq C]

/-- `c`, which is not the owner, moves on inside `await_suspend`, or into it. Its `m_next` may
    be written on the way: it is in neither list. -/
theorem move (h : MutexInv s owner stack queue) {op : Operation C} {p : Option C}
    (hc : (s.op c).owns = false) (hw : s.op c ≠ .waiting)
    (hop : op.owns = false) (hwait : op ≠ .waiting)
    (hplaced : Placed { s with next := Function.update s.next c p } stack c op) :
    MutexInv { s with next := Function.update s.next c p, op := Function.update s.op c op }
      owner stack queue := by
  have hout := h.notMem hw
  rw [List.mem_append, not_or] at hout
  have hne : owner ≠ some c := fun ho => by
    rw [(h.owns c).mpr ho] at hc
    cases hc
  refine ⟨?_, ?_, ?_, h.order, h.nodup, ?_, ?_, h.count⟩
  · intro d
    show (Function.update s.op c op d).owns = true ↔ _
    rcases eq_or_ne d c with rfl | hd
    · rw [Function.update_self, hop]
      simp [hne]
    · rw [Function.update_of_ne hd]
      exact h.owns d
  · cases owner with
    | none => exact h.stacked
    | some o =>
      obtain ⟨waiter, hstate, hchain⟩ := h.stacked
      exact ⟨waiter, hstate, hchain.update hout.1⟩
  · cases owner with
    | none => exact h.held
    | some o =>
      have ho : o ≠ c := fun ho => hne (congrArg some ho)
      show Held _ (Function.update s.op c op o) queue
      rw [Function.update_of_ne ho]
      exact Held.update h.held hout.2
  · intro d
    show Function.update s.op c op d = .waiting ↔ _
    rcases eq_or_ne d c with rfl | hd
    · rw [Function.update_self]
      exact ⟨fun hf => absurd hf hwait, fun hm => absurd hm (h.notMem hw)⟩
    · rw [Function.update_of_ne hd]
      exact h.waiting d
  · intro d
    show Placed _ stack d (Function.update s.op c op d)
    rcases eq_or_ne d c with rfl | hd
    · rw [Function.update_self]
      exact hplaced
    · rw [Function.update_of_ne hd]
      refine (h.placed d).mono (fun _ _ => Function.update_of_ne hd ..) fun hx => ?_
      have hcontended := h.placed d
      rwa [hx] at hcontended

/-- `move` with no write to `m_next`. -/
theorem goto (h : MutexInv s owner stack queue) {op : Operation C}
    (hc : (s.op c).owns = false) (hw : s.op c ≠ .waiting)
    (hop : op.owns = false) (hwait : op ≠ .waiting) (hplaced : s.Placed stack c op) :
    MutexInv (s.goto c op) owner stack queue := by
  have hmove := h.move (p := s.next c) hc hw hop hwait
    (hplaced.mono (fun _ _ => Function.update_self ..) fun hx => by rwa [hx] at hplaced)
  rwa [Function.update_eq_self] at hmove

theorem loop (h : MutexInv s owner stack queue) {state : State C}
    (hc : (s.op c).owns = false) (hw : s.op c ≠ .waiting) :
    MutexInv (s.loop c state) owner stack queue := by
  cases state with
  | not_locked => exact h.goto hc hw rfl (by simp) trivial
  | locked waiter => exact h.goto hc hw rfl (by simp) trivial

/-- `c` moves on without a write to `m_next`, and the stack is not emptied. -/
theorem placed_update (h : MutexInv s owner stack queue) {s' : AsyncMutex C}
    {stack' : List C} {op : Operation C} (hplaced : s'.Placed stack' c op)
    (hnext : s'.next = s.next) (hstack : stack ≠ [] → stack' ≠ []) (d : C) :
    s'.Placed stack' d (Function.update s.op c op d) := by
  rcases eq_or_ne d c with rfl | hd
  · rw [Function.update_self]
    exact hplaced
  · rw [Function.update_of_ne hd]
    refine (h.placed d).mono (fun _ _ => by rw [hnext]) fun hx => hstack ?_
    have hcontended := h.placed d
    rwa [hx] at hcontended

/-! ## 2. Arriving -/

omit [DecidableEq C] in
/-- The word is `not_locked` exactly when nobody owns the mutex. -/
theorem not_locked_iff (h : MutexInv s owner stack queue) :
    s.state = .not_locked ↔ owner = none := by
  have hstacked := h.stacked
  cases owner with
  | none => simp [hstacked.1]
  | some o =>
    obtain ⟨waiter, hstate, -⟩ := hstacked
    simp [hstate]

theorem take (h : MutexInv s owner stack queue) (hstate : s.state = .not_locked)
    (hw : s.op c ≠ .waiting) : MutexInv (s.take c) (some c) [] [] := by
  obtain rfl := h.not_locked_iff.mp hstate
  obtain ⟨-, rfl⟩ := h.stacked
  obtain ⟨hwaiters, rfl⟩ := h.held
  have howns : ∀ d, (s.op d).owns = false := by
    intro d
    have := h.owns d
    simpa using this
  refine ⟨?_, ⟨none, rfl, rfl⟩, ?_, ?_, List.nodup_nil, ?_, ?_, ?_⟩
  · intro d
    show (Function.update s.op c .holding d).owns = true ↔ _
    rcases eq_or_ne d c with rfl | hd
    · rw [Function.update_self]
      simp [Operation.owns]
    · rw [Function.update_of_ne hd, howns d]
      simp [hd.symm]
  · show Held _ (Function.update s.op c .holding c) []
    rw [Function.update_self]
    exact hwaiters
  · have horder := h.order
    simp only [List.append_nil, List.reverse_nil] at horder ⊢
    exact congrArg (· ++ [c]) horder
  · intro d
    show Function.update s.op c .holding d = .waiting ↔ _
    rcases eq_or_ne d c with rfl | hd
    · simp
    · rw [Function.update_of_ne hd]
      exact h.waiting d
  · exact h.placed_update trivial rfl fun hx => hx
  · have hcount := h.count
    show (s.granted ++ [c]).length = s.unlocked + 1
    rw [List.length_append, hcount]
    rfl

/-- **The successful push.** The word is compared with what the coroutine stored in `m_next`,
    so it goes in front of the stack that is there now. -/
theorem push (h : MutexInv s owner stack queue) {waiter : Option C}
    (hop : s.op c = .push waiter) (hstate : s.state = .locked waiter) :
    MutexInv { s with
      state := .locked (some c)
      op := Function.update s.op c .waiting
      arrived := s.arrived ++ [c] } owner (c :: stack) queue := by
  have hout := h.notMem (c := c) (by simp [hop])
  have howns : (s.op c).owns = false := by rw [hop]; rfl
  obtain ⟨o, rfl⟩ : ∃ o, owner = some o := by
    cases owner with
    | none => exact absurd (h.not_locked_iff.mpr rfl) (by simp [hstate])
    | some o => exact ⟨o, rfl⟩
  have ho : o ≠ c := fun ho => by
    rw [(h.owns c).mpr (congrArg some ho)] at howns
    cases howns
  refine ⟨?_, ?_, ?_, ?_, List.nodup_cons.mpr ⟨hout, h.nodup⟩, ?_,
    h.placed_update trivial rfl fun _ => List.cons_ne_nil _ _, h.count⟩
  · intro d
    show (Function.update s.op c .waiting d).owns = true ↔ _
    rcases eq_or_ne d c with rfl | hd
    · rw [Function.update_self]
      simp [Operation.owns, ho]
    · rw [Function.update_of_ne hd]
      exact h.owns d
  · obtain ⟨waiter', hstate', hchain⟩ := h.stacked
    obtain rfl := State.locked.inj (hstate'.symm.trans hstate)
    refine ⟨some c, rfl, Chain.cons_iff.mpr ⟨rfl, ?_⟩⟩
    have hnext := h.placed c
    rw [hop] at hnext
    rw [show s.next c = waiter' from hnext]
    exact hchain
  · show Held s (Function.update s.op c .waiting o) queue
    rw [Function.update_of_ne ho]
    exact h.held
  · show s.granted ++ queue ++ (c :: stack).reverse = s.arrived ++ [c]
    rw [List.reverse_cons, ← List.append_assoc, h.order]
  · intro d
    show Function.update s.op c .waiting d = .waiting ↔ _
    rcases eq_or_ne d c with rfl | hd
    · simp
    · rw [Function.update_of_ne hd, h.waiting d]
      simp [hd]

/-! ## 3. Inside `unlock` -/

omit [DecidableEq C] in
/-- The queue and then the stack turned around: the same coroutines, in order of arrival. -/
theorem perm (stack queue : List C) : (stack ++ queue).Perm (queue ++ stack.reverse) :=
  List.perm_append_comm.trans ((List.reverse_perm stack).symm.append_left queue)

/-- The owner moves on and keeps the order in which the others wait. -/
theorem own (h : MutexInv s (some c) stack queue) {s' : AsyncMutex C} {stack' queue' : List C}
    {op : Operation C} (hop : s'.op = Function.update s.op c op) (howns : op.owns = true)
    (hstacked : s'.Stacked (some c) stack') (hheld : s'.Held op queue')
    (hlists : queue' ++ stack'.reverse = queue ++ stack.reverse)
    (hnext : ∀ d waiter, s.op d = .push waiter → s'.next d = s.next d)
    (hplaced : s'.Placed stack' c op)
    (hghost : s'.granted = s.granted ∧ s'.arrived = s.arrived ∧ s'.unlocked = s.unlocked) :
    MutexInv s' (some c) stack' queue' := by
  obtain ⟨hgranted, harrived, hunlocked⟩ := hghost
  have hperm : (stack' ++ queue').Perm (stack ++ queue) :=
    (perm stack' queue').trans (hlists ▸ (perm stack queue).symm)
  refine ⟨?_, hstacked, ?_, ?_, hperm.nodup_iff.mpr h.nodup, ?_, ?_, ?_⟩
  · intro d
    rw [hop]
    rcases eq_or_ne d c with rfl | hd
    · simp [howns]
    · rw [Function.update_of_ne hd]
      exact h.owns d
  · show s'.Held (s'.op c) queue'
    rw [hop, Function.update_self]
    exact hheld
  · rw [hgranted, harrived, List.append_assoc, hlists, ← List.append_assoc]
    exact h.order
  · intro d
    rw [hop, hperm.mem_iff]
    rcases eq_or_ne d c with rfl | hd
    · rw [Function.update_self, ← h.waiting d]
      have hd := (h.owns d).mpr rfl
      constructor
      · intro hx
        rw [hx] at howns
        cases howns
      · intro hx
        rw [hx] at hd
        cases hd
    · rw [Function.update_of_ne hd]
      exact h.waiting d
  · intro d
    rw [hop]
    rcases eq_or_ne d c with rfl | hd
    · rw [Function.update_self]
      exact hplaced
    · rw [Function.update_of_ne hd]
      refine (h.placed d).mono (hnext d) fun hx => ?_
      have ho := h.owner_eq (c := d) (by rw [hx]; rfl)
      exact absurd (Option.some.inj ho).symm hd
  · rw [hgranted, hunlocked]
    exact h.count

/-- `own` with nothing but the owner's place changed. -/
theorem ownGoto (h : MutexInv s (some c) stack queue) {op : Operation C} (howns : op.owns = true)
    (hheld : s.Held op queue) (hplaced : s.Placed stack c op) :
    MutexInv (s.goto c op) (some c) stack queue :=
  h.own rfl howns h.stacked hheld rfl (fun _ _ _ => rfl)
    (hplaced.mono (fun _ _ => rfl) fun hx => by rwa [hx] at hplaced) ⟨rfl, rfl, rfl⟩

/-- The compare-exchange of `unlock` finds nobody on the stack and frees the mutex. -/
theorem release (h : MutexInv s (some c) stack queue) (hop : s.op c = .release)
    (hstate : s.state = .locked none) :
    MutexInv { s with
      state := .not_locked
      op := Function.update s.op c .idle
      unlocked := s.unlocked + 1 } none [] [] := by
  obtain ⟨waiter, hword, hchain⟩ := h.stacked
  obtain rfl := State.locked.inj (hword.symm.trans hstate)
  obtain rfl := Chain.none_iff.mp hchain
  have hheld := h.held
  rw [HeldBy, hop] at hheld
  obtain ⟨hwaiters, rfl⟩ := hheld
  refine ⟨?_, ⟨rfl, rfl⟩, ⟨hwaiters, rfl⟩, h.order, List.nodup_nil, ?_,
    h.placed_update trivial rfl fun hx => hx, h.count⟩
  · intro d
    show (Function.update s.op c .idle d).owns = true ↔ _
    rcases eq_or_ne d c with rfl | hd
    · simp [Operation.owns]
    · rw [Function.update_of_ne hd, h.owns d]
      simp [hd.symm]
  · intro d
    show Function.update s.op c .idle d = .waiting ↔ _
    rcases eq_or_ne d c with rfl | hd
    · simp
    · rw [Function.update_of_ne hd]
      exact h.waiting d

/-- **The exchange of `unlock`** takes the stack; turned around it is what waits. -/
theorem exchange (h : MutexInv s (some c) stack queue) (hop : s.op c = .exchange) :
    ∃ next, s.state = .locked (some next) ∧
      MutexInv { s with
        state := .locked none
        op := Function.update s.op c (.reverse next none) } (some c) [] stack.reverse := by
  have hheld := h.held
  rw [HeldBy, hop] at hheld
  obtain ⟨-, rfl⟩ := hheld
  obtain ⟨waiter, hstate, hchain⟩ := h.stacked
  cases waiter with
  | none =>
    have hcontended := h.placed c
    rw [hop] at hcontended
    exact absurd (Chain.none_iff.mp hchain) hcontended
  | some next =>
    refine ⟨next, hstate, ?_⟩
    refine h.own rfl rfl ⟨none, rfl, rfl⟩ ⟨stack, [], hchain, rfl, ?_⟩ ?_ (fun _ _ _ => rfl)
      trivial ⟨rfl, rfl, rfl⟩
    · rw [List.append_nil]
    · rw [List.reverse_nil, List.append_nil, List.nil_append]

/-- One turn of the `do` loop moves the front of `rest` to the front of `turned`. -/
theorem reverse (h : MutexInv s (some c) stack queue) {next : C} {waitersHead : Option C}
    (hop : s.op c = .reverse next waitersHead) :
    MutexInv { s with
      next := Function.update s.next next waitersHead
      op := Function.update s.op c
        (match s.next next with
        | some temp => .reverse temp (some next)
        | none => .pop next) } (some c) stack queue := by
  have hheld := h.held
  rw [HeldBy, hop] at hheld
  obtain ⟨rest, turned, hrest, hturned, rfl⟩ := hheld
  obtain ⟨rest, rfl, hnext⟩ := hrest.of_some
  have hmem : next ∈ (next :: rest).reverse ++ turned := by simp
  have hnd := h.nodup
  rw [List.nodup_append, List.nodup_append] at hnd
  obtain ⟨-, ⟨hnd, -, hdisj⟩, hstack⟩ := hnd
  have hns : next ∉ stack := fun hm => hstack next hm next hmem rfl
  have hnr : next ∉ rest := by
    rw [List.nodup_reverse, List.nodup_cons] at hnd
    exact hnd.1
  have hnt : next ∉ turned := fun hm => hdisj next (by simp) next hm rfl
  have hmoved : (next :: rest).reverse ++ turned = rest.reverse ++ next :: turned := by
    rw [List.reverse_cons, List.append_assoc, List.singleton_append]
  refine h.own rfl ?_ ?_ ?_ rfl ?_ ?_ ⟨rfl, rfl, rfl⟩
  · cases s.next next <;> rfl
  · obtain ⟨waiter, hstate, hchain⟩ := h.stacked
    exact ⟨waiter, hstate, hchain.update hns⟩
  · rw [hmoved]
    cases htemp : s.next next with
    | some temp =>
      rw [htemp] at hnext
      exact ⟨rest, next :: turned, hnext.update hnr, hturned.push hnt, rfl⟩
    | none =>
      rw [htemp] at hnext
      obtain rfl := Chain.none_iff.mp hnext
      exact hturned.push hnt
  · intro d waiter hd
    have hne : d ≠ next := by
      rintro rfl
      have hw := (h.waiting d).mpr (List.mem_append_right _ hmem)
      rw [hd] at hw
      cases hw
    exact Function.update_of_ne hne ..
  · cases s.next next <;> trivial

theorem pop (h : MutexInv s (some c) stack queue) {waitersHead : C}
    (hop : s.op c = .pop waitersHead) :
    MutexInv { s with
      waiters := s.next waitersHead
      op := Function.update s.op c (.resume waitersHead) } (some c) stack queue := by
  have hheld := h.held
  rw [HeldBy, hop] at hheld
  obtain ⟨rest, rfl, hnext⟩ := Chain.of_some hheld
  exact h.own rfl rfl h.stacked ⟨rest, hnext, rfl⟩ rfl (fun _ _ _ => rfl) trivial
    ⟨rfl, rfl, rfl⟩

/-! ## 4. Handing over -/

/-- The lock passes from `c` to `d`, which waited in front of `queue'` or was not waiting. -/
theorem pass (h : MutexInv s (some c) stack queue) {d : C} {s' : AsyncMutex C}
    {queue' : List C} (hcd : d ≠ c)
    (hop : s'.op = Function.update (Function.update s.op c .idle) d .holding)
    (hstate : s'.state = s.state) (hnext : s'.next = s.next)
    (hheld : Chain s.next s'.waiters queue') (hnodup : (stack ++ queue').Nodup)
    (hmem : ∀ e, e ∈ stack ++ queue' ↔ e ≠ d ∧ e ∈ stack ++ queue)
    (horder : s'.granted ++ queue' ++ stack.reverse = s'.arrived)
    (hcount : s'.granted.length = s'.unlocked + 1) :
    MutexInv s' (some d) stack queue' := by
  have hplace : ∀ {e x}, s'.op e = x → x.owns = false → x ≠ .idle → e ≠ d ∧ s.op e = x := by
    intro e x he hx hidle
    rw [hop] at he
    rcases update_cases he with ⟨-, rfl⟩ | ⟨hed, he⟩
    · cases hx
    · rcases update_cases he with ⟨-, hx'⟩ | ⟨-, he⟩
      · exact absurd hx'.symm hidle
      · exact ⟨hed, he⟩
  refine ⟨?_, ?_, ?_, horder, hnodup, ?_, ?_, hcount⟩
  · intro e
    rw [hop]
    rcases eq_or_ne e d with rfl | hed
    · simp [Operation.owns]
    · rw [Function.update_of_ne hed]
      rcases eq_or_ne e c with rfl | hec
      · simp [Operation.owns, hed.symm]
      · rw [Function.update_of_ne hec, h.owns e]
        simp [hed.symm, hec.symm]
  · obtain ⟨waiter, hword, hchain⟩ := h.stacked
    exact ⟨waiter, hstate.trans hword, hnext ▸ hchain⟩
  · show s'.Held (s'.op d) queue'
    rw [hop, Function.update_self]
    show Chain s'.next s'.waiters queue'
    rw [hnext]
    exact hheld
  · intro e
    rw [hmem]
    constructor
    · intro he
      obtain ⟨hed, he⟩ := hplace he rfl (by simp)
      exact ⟨hed, (h.waiting e).mp he⟩
    · rintro ⟨hed, he⟩
      have hwait := (h.waiting e).mpr he
      have hec : e ≠ c := by
        rintro rfl
        have ho := (h.owns e).mpr rfl
        rw [hwait] at ho
        cases ho
      rw [hop, Function.update_of_ne hed, Function.update_of_ne hec]
      exact hwait
  · intro e
    rw [hop]
    rcases eq_or_ne e d with rfl | hed
    · rw [Function.update_self]
      trivial
    · rw [Function.update_of_ne hed]
      have hidle : s'.Placed stack c .idle := trivial
      exact h.placed_update hidle hnext (fun hx => hx) e

/-- **The hand-over.** `unlock` resumes the coroutine that has waited longest. -/
theorem resume (h : MutexInv s (some c) stack queue) {waitersHead : C}
    (hop : s.op c = .resume waitersHead) :
    s.op waitersHead = .waiting ∧ ∃ queue',
      MutexInv { s with
        op := Function.update (Function.update s.op c .idle) waitersHead .holding
        granted := s.granted ++ [waitersHead]
        unlocked := s.unlocked + 1 } (some waitersHead) stack queue' := by
  have hheld := h.held
  rw [HeldBy, hop] at hheld
  obtain ⟨rest, hrest, rfl⟩ := hheld
  have hwait := (h.waiting waitersHead).mpr (by simp)
  have hne : waitersHead ≠ c := by
    rintro rfl
    rw [hop] at hwait
    cases hwait
  have hnd := h.nodup
  have hperm : (stack ++ waitersHead :: rest).Perm (waitersHead :: (stack ++ rest)) :=
    List.perm_middle
  rw [hperm.nodup_iff, List.nodup_cons] at hnd
  refine ⟨hwait, rest, ?_⟩
  refine h.pass hne rfl rfl rfl hrest hnd.2 ?_ ?_ ?_
  · intro e
    rw [hperm.mem_iff, List.mem_cons]
    constructor
    · intro he
      exact ⟨fun hed => hnd.1 (hed ▸ he), Or.inr he⟩
    · rintro ⟨hed, he⟩
      exact he.resolve_left hed
  · show s.granted ++ [waitersHead] ++ rest ++ stack.reverse = s.arrived
    rw [← h.order]
    simp
  · show (s.granted ++ [waitersHead]).length = s.unlocked + 1 + 1
    rw [List.length_append, h.count]
    rfl

/-- The `async_mutex_lock` of `c` is moved to `d`. -/
theorem moveLock (h : MutexInv s owner stack queue) {d : C} (hc : s.op c = .holding)
    (hd : s.op d = .idle) :
    MutexInv { s with op := Function.update (Function.update s.op c .idle) d .holding } (some d)
      stack queue := by
  obtain rfl := h.owner_eq (c := c) (by rw [hc]; rfl)
  have hheld := h.held
  rw [HeldBy, hc] at hheld
  have hne : d ≠ c := by
    rintro rfl
    rw [hc] at hd
    cases hd
  refine h.pass hne rfl rfl rfl hheld h.nodup ?_ h.order h.count
  intro e
  constructor
  · intro he
    exact ⟨fun hed => h.notMem (c := d) (by simp [hd]) (hed ▸ he), he⟩
  · exact fun he => he.2

/-! ## 5. Every step -/

omit [DecidableEq C] in
theorem grows_arrive {s' : AsyncMutex C} {c : C}
    (harrived : s'.arrived = s.arrived ++ [c]) (hunlocked : s'.unlocked = s.unlocked) :
    s.Grows s' :=
  ⟨harrived ▸ List.prefix_append .., Nat.le_of_eq hunlocked.symm⟩

omit [DecidableEq C] in
theorem grows_unlock {s' : AsyncMutex C} (harrived : s'.arrived = s.arrived)
    (hunlocked : s'.unlocked = s.unlocked + 1) : s.Grows s' :=
  ⟨harrived ▸ List.prefix_refl _, hunlocked ▸ Nat.le_succ _⟩

theorem grows_loop {state : State C} : s.Grows (s.loop c state) := by
  cases state <;> exact .refl s

theorem stepOf (h : MutexInv s owner stack queue) {s' : AsyncMutex C} {fail : Bool}
    (hs : s.stepOf c fail = some s') :
    (∃ owner' stack' queue', MutexInv s' owner' stack' queue') ∧ s.Grows s' := by
  unfold AsyncMutex.stepOf at hs
  cases hop : s.op c with
  | idle | waiting | holding | failed => rw [hop] at hs; cases hs
  | load =>
    rw [hop] at hs
    obtain rfl := Option.some.inj hs
    exact ⟨⟨_, _, _, h.loop (by rw [hop]; rfl) (by simp [hop])⟩, grows_loop⟩
  | take =>
    rw [hop] at hs
    dsimp only at hs
    split at hs
    · rename_i hc
      obtain rfl := Option.some.inj hs
      exact ⟨⟨_, _, _, h.take hc.1 (by simp [hop])⟩, grows_arrive rfl rfl⟩
    · obtain rfl := Option.some.inj hs
      exact ⟨⟨_, _, _, h.loop (by rw [hop]; rfl) (by simp [hop])⟩, grows_loop⟩
  | store waiter =>
    rw [hop] at hs
    obtain rfl := Option.some.inj hs
    exact ⟨⟨_, _, _, h.move (by rw [hop]; rfl) (by simp [hop]) rfl (by simp)
      (Function.update_self ..)⟩, .refl s⟩
  | push waiter =>
    rw [hop] at hs
    dsimp only at hs
    split at hs
    · rename_i hc
      obtain rfl := Option.some.inj hs
      exact ⟨⟨_, _, _, h.push hop hc.1⟩, grows_arrive rfl rfl⟩
    · obtain rfl := Option.some.inj hs
      exact ⟨⟨_, _, _, h.loop (by rw [hop]; rfl) (by simp [hop])⟩, grows_loop⟩
  | unlock =>
    rw [hop] at hs
    obtain rfl := h.owner_eq (c := c) (by rw [hop]; rfl)
    have hlocked : s.state ≠ .not_locked := fun hx => by
      have := h.not_locked_iff.mp hx
      cases this
    have hheld := h.held
    rw [HeldBy, hop] at hheld
    change Chain s.next s.waiters queue at hheld
    dsimp only at hs
    rw [if_neg hlocked] at hs
    cases hwaiters : s.waiters with
    | none =>
      rw [hwaiters] at hs hheld
      obtain rfl := Option.some.inj hs
      exact ⟨⟨_, _, _, h.ownGoto rfl ⟨hwaiters, Chain.none_iff.mp hheld⟩ trivial⟩, .refl s⟩
    | some waitersHead =>
      rw [hwaiters] at hs hheld
      obtain rfl := Option.some.inj hs
      exact ⟨⟨_, _, _, h.ownGoto rfl hheld trivial⟩, .refl s⟩
  | release =>
    rw [hop] at hs
    obtain rfl := h.owner_eq (c := c) (by rw [hop]; rfl)
    dsimp only at hs
    split at hs
    · rename_i hstate
      obtain rfl := Option.some.inj hs
      exact ⟨⟨_, _, _, h.release hop hstate⟩, grows_unlock rfl rfl⟩
    · rename_i hstate
      obtain rfl := Option.some.inj hs
      have hheld := h.held
      rw [HeldBy, hop] at hheld
      refine ⟨⟨_, _, _, h.ownGoto rfl hheld ?_⟩, .refl s⟩
      -- The word is locked, so what the compare-exchange found is a waiter.
      rintro rfl
      obtain ⟨waiter, hword, hchain⟩ := h.stacked
      rw [Chain.nil_iff.mp hchain] at hword
      exact hstate hword
  | exchange =>
    rw [hop] at hs
    obtain rfl := h.owner_eq (c := c) (by rw [hop]; rfl)
    obtain ⟨next, hstate, hexchange⟩ := h.exchange hop
    rw [hstate] at hs
    obtain rfl := Option.some.inj hs
    exact ⟨⟨_, _, _, hexchange⟩, .refl s⟩
  | reverse next waitersHead =>
    rw [hop] at hs
    obtain rfl := h.owner_eq (c := c) (by rw [hop]; rfl)
    obtain rfl := Option.some.inj hs
    exact ⟨⟨_, _, _, h.reverse hop⟩, .refl s⟩
  | pop waitersHead =>
    rw [hop] at hs
    obtain rfl := h.owner_eq (c := c) (by rw [hop]; rfl)
    obtain rfl := Option.some.inj hs
    exact ⟨⟨_, _, _, h.pop hop⟩, .refl s⟩
  | resume waitersHead =>
    rw [hop] at hs
    obtain rfl := h.owner_eq (c := c) (by rw [hop]; rfl)
    obtain rfl := Option.some.inj hs
    obtain ⟨-, queue', hresume⟩ := h.resume hop
    exact ⟨⟨_, _, _, hresume⟩, grows_unlock rfl rfl⟩

theorem step (h : MutexInv s owner stack queue) {s' : AsyncMutex C} {l : Label C}
    (hs : s.step l = some s') :
    (∃ owner' stack' queue', MutexInv s' owner' stack' queue') ∧ s.Grows s' := by
  cases l with
  | try_lock c =>
    obtain ⟨hidle, hs⟩ := Option.ite_none_right_eq_some.mp hs
    split at hs
    · rename_i hstate
      obtain rfl := Option.some.inj hs
      exact ⟨⟨_, _, _, h.take hstate (by simp [hidle])⟩, grows_arrive rfl rfl⟩
    · obtain rfl := Option.some.inj hs
      exact ⟨⟨_, _, _, h⟩, .refl s⟩
  | lock c =>
    obtain ⟨hidle, hs⟩ := Option.ite_none_right_eq_some.mp hs
    obtain rfl := Option.some.inj hs
    exact ⟨⟨_, _, _, h.goto (by rw [hidle]; rfl) (by simp [hidle]) rfl (by simp) trivial⟩,
      .refl s⟩
  | unlock c =>
    obtain ⟨hholding, hs⟩ := Option.ite_none_right_eq_some.mp hs
    obtain rfl := Option.some.inj hs
    obtain rfl := h.owner_eq (c := c) (by rw [hholding]; rfl)
    have hheld := h.held
    rw [HeldBy, hholding] at hheld
    exact ⟨⟨_, _, _, h.ownGoto rfl hheld trivial⟩, .refl s⟩
  | move c d =>
    obtain ⟨⟨hholding, hidle⟩, hs⟩ := Option.ite_none_right_eq_some.mp hs
    obtain rfl := Option.some.inj hs
    exact ⟨⟨_, _, _, h.moveLock hholding hidle⟩, .refl s⟩
  | step c fail => exact h.stepOf hs

end MutexInv

/-! ## 6. Every run -/

variable [DecidableEq C] {s s' : AsyncMutex C}

theorem mutexInv_reaches (hr : machine.Reaches init s) :
    ∃ owner stack queue, MutexInv s owner stack queue :=
  hr.preserves (I := fun s => ∃ owner stack queue, MutexInv s owner stack queue)
    (fun ⟨_, _, _, h⟩ _ hs => (h.step hs).1) ⟨_, _, _, mutexInv_init⟩

/-- **Mutual exclusion.** From its acquisition to the end of its `unlock` a coroutine owns the
    mutex alone, and the word says `not_locked` exactly when none does. No assertion of
    `unlock` fails, what it resumes is suspended, and outside of `unlock` those of the
    destructor hold exactly when nobody waits. -/
theorem mutex_exclusive (hr : machine.Reaches init s) :
    (∀ c d, (s.op c).owns = true → (s.op d).owns = true → c = d) ∧
      (s.state = .not_locked ↔ ∀ c, (s.op c).owns = false) ∧
      (∀ c, s.op c ≠ .failed) ∧
      (∀ c w, s.op c = .resume w → s.op w = .waiting) ∧
      ((∀ c, (s.op c).unlocking = false) →
        (s.destructible = true ↔ ∀ c, s.op c ≠ .waiting)) := by
  obtain ⟨owner, stack, queue, h⟩ := mutexInv_reaches hr
  refine ⟨?_, ?_, ?_, ?_, ?_⟩
  · intro c d hc hd
    exact Option.some.inj ((h.owner_eq hc).symm.trans (h.owner_eq hd))
  · rw [h.not_locked_iff]
    constructor
    · intro ho c
      have hc := h.owns c
      rw [ho] at hc
      simpa using hc
    · intro hall
      cases ho : owner with
      | none => rfl
      | some c =>
        have hc := (h.owns c).mpr ho
        rw [hall c] at hc
        cases hc
  · intro c hc
    have hplaced := h.placed c
    rwa [hc] at hplaced
  · intro c w hc
    obtain rfl := h.owner_eq (c := c) (by rw [hc]; rfl)
    exact (h.resume hc).1
  · intro hquiet
    have hlists : (∀ c, s.op c ≠ .waiting) ↔ stack = [] ∧ queue = [] := by
      rw [← List.append_eq_nil_iff, List.eq_nil_iff_forall_not_mem]
      exact forall_congr' fun c => not_congr (h.waiting c)
    rw [hlists]
    have hstacked := h.stacked
    have hheld := h.held
    cases owner with
    | none =>
      obtain ⟨hstate, rfl⟩ := hstacked
      obtain ⟨hwaiters, rfl⟩ := hheld
      simp [destructible, hstate, hwaiters]
    | some o =>
      obtain ⟨waiter, hstate, hchain⟩ := hstacked
      -- The owner is outside of `unlock`, so it has just the lock.
      have hqueue : Chain s.next s.waiters queue := by
        rw [HeldBy, Operation.eq_holding ((h.owns o).mpr rfl) (hquiet o)] at hheld
        exact hheld
      have hwaiters : s.waiters = none ↔ queue = [] := by
        constructor
        · intro hw
          exact Chain.none_iff.mp (hw ▸ hqueue)
        · rintro rfl
          exact hqueue
      have hwaiter : waiter = none ↔ stack = [] := by
        constructor
        · rintro rfl
          exact Chain.none_iff.mp hchain
        · rintro rfl
          exact hchain
      rw [← hwaiters, ← hwaiter]
      cases waiter <;> simp [destructible, hstate]

/-- Two coroutines push themselves while a third one holds the lock, which then unlocks: it is
    inside the loop, and both of them are still suspended. -/
theorem mutex_exclusive_contended :
    ∃ s : AsyncMutex (Fin 3), s.op 0 = .reverse 1 (some 2) ∧ s.op 1 = .waiting ∧
      s.op 2 = .waiting ∧ ∀ c, s.op c ≠ .failed := by
  have hr := Machine.reaches_of_exec (M := machine) (s := (init : AsyncMutex (Fin 3)))
    [.try_lock 0, .lock 1, .lock 2, .step 1 false, .step 2 false, .step 1 false, .step 2 false,
      .step 1 true, .step 1 false, .step 1 false, .step 2 false, .step 2 false, .step 2 false,
      .unlock 0, .step 0 false, .step 0 false, .step 0 false, .step 0 false] rfl
  exact ⟨_, rfl, rfl, rfl, (mutex_exclusive hr).2.2.1⟩

/-- Along a run from a reachable state, both ends keep the invariant and the history grows. -/
theorem grows_reaches {owner : Option C} {stack queue : List C}
    (h : MutexInv s owner stack queue) (hr : machine.Reaches s s') :
    (∃ owner' stack' queue', MutexInv s' owner' stack' queue') ∧ s.Grows s' := by
  refine hr.preserves (I := fun b => (∃ o st q, MutexInv b o st q) ∧ s.Grows b) ?_
    ⟨⟨_, _, _, h⟩, .refl s⟩
  rintro a l b ⟨⟨_, _, _, ha⟩, hgrows⟩ - hs
  obtain ⟨hb, hstep⟩ := ha.step hs
  exact ⟨hb, hgrows.1.trans hstep.1, Nat.le_trans hgrows.2 hstep.2⟩

/-- **First come, first served.** The grants are the arrivals in order, without those that
    still wait, and these are exactly the suspended coroutines; while there are any, somebody
    owns the mutex. Whoever has `k` waiters in front of it owns the mutex, or has owned it,
    once `k + 1` more unlocks have returned or resumed somebody: nobody is overtaken, forgotten
    or resumed twice. -/
theorem mutex_fifo (hr : machine.Reaches init s) :
    ∃ waiters : List C, s.granted ++ waiters = s.arrived ∧ waiters.Nodup ∧
      (∀ c, s.op c = .waiting ↔ c ∈ waiters) ∧
      (waiters ≠ [] → ∃ c, (s.op c).owns = true) ∧
      ∀ k c, waiters[k]? = some c → ∀ s', machine.Reaches s s' →
        s.unlocked + k + 1 ≤ s'.unlocked → s'.granted[s.granted.length + k]? = some c := by
  obtain ⟨owner, stack, queue, h⟩ := mutexInv_reaches hr
  have howner : queue ++ stack.reverse ≠ [] → ∃ c, owner = some c := by
    intro hne
    cases owner with
    | some c => exact ⟨c, rfl⟩
    | none =>
      obtain ⟨-, rfl⟩ := h.stacked
      obtain ⟨-, rfl⟩ := h.held
      exact absurd rfl hne
  refine ⟨queue ++ stack.reverse, ?_, (MutexInv.perm stack queue).nodup_iff.mp h.nodup, ?_, ?_, ?_⟩
  · rw [← List.append_assoc]
    exact h.order
  · intro c
    rw [h.waiting c, (MutexInv.perm stack queue).mem_iff]
  · intro hne
    obtain ⟨c, rfl⟩ := howner hne
    exact ⟨c, (h.owns c).mpr rfl⟩
  · intro k c hk s' hr' hunlocked
    obtain ⟨⟨owner', stack', queue', h'⟩, ⟨later, harrived⟩, -⟩ := grows_reaches h hr'
    obtain ⟨o, rfl⟩ := howner fun hnil => by simp [hnil] at hk
    have hcount : s.granted.length = s.unlocked + 1 := h.count
    have hklt : k < (queue ++ stack.reverse).length := (List.getElem?_eq_some_iff.mp hk).1
    -- The place of `c` among the arrivals, which later ones do not change.
    have hplace : s'.arrived[s.granted.length + k]? = some c := by
      have hsplit : s'.arrived = s.granted ++ ((queue ++ stack.reverse) ++ later) := by
        rw [← harrived, ← h.order]
        simp only [List.append_assoc]
      rw [hsplit, List.getElem?_append_right (Nat.le_add_right _ _), Nat.add_sub_cancel_left,
        List.getElem?_append_left hklt]
      exact hk
    have hlong : s.granted.length + k < s'.granted.length := by
      have hcount' := h'.count
      cases owner' with
      | some o' =>
        simp only [Option.toList_some, List.length_singleton] at hcount'
        omega
      | none =>
        obtain ⟨-, rfl⟩ := h'.stacked
        obtain ⟨-, rfl⟩ := h'.held
        have horder := h'.order
        simp only [List.append_nil, List.reverse_nil] at horder
        rw [horder]
        exact (List.getElem?_eq_some_iff.mp hplace).1
    rw [← h'.order, List.append_assoc, List.getElem?_append_left hlong] at hplace
    exact hplace

/-- The coroutine that arrived last has one waiter in front of it, and is granted the lock by
    the second unlock. -/
theorem mutex_fifo_two :
    ∃ s s' : AsyncMutex (Fin 3), s'.granted[s.granted.length + 1]? = some 2 ∧
      s.op 1 = .waiting ∧ s.op 2 = .waiting := by
  have hr := Machine.reaches_of_exec (M := machine) (s := (init : AsyncMutex (Fin 3)))
    [.try_lock 0, .lock 1, .step 1 false, .step 1 false, .step 1 false, .lock 2, .step 2 false,
      .step 2 false, .step 2 false] rfl
  obtain ⟨waiters, horder, -, -, -, hbounded⟩ := mutex_fifo hr
  have hwaiters : waiters = [1, 2] :=
    List.append_cancel_left (show [0] ++ waiters = [0] ++ [1, 2] from horder)
  exact ⟨_, _, hbounded 1 2 (by rw [hwaiters]; rfl) _ (Machine.reaches_of_exec
    [.unlock 0, .step 0 false, .step 0 false, .step 0 false, .step 0 false, .step 0 false,
      .step 0 false, .step 0 false, .move 1 0, .unlock 0, .step 0 false, .step 0 false,
      .step 0 false] rfl) (by decide), rfl, rfl⟩

end AsyncMutex
end Ice
