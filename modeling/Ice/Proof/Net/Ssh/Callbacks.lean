import Ice.Net.Ssh.Callbacks
import Mathlib.Tactic.Common

/-!
# What `io` waits for on POSIX

The last callback that failed leaves its direction in `operation_` (`runAll_blocked`), and `io`
has a case for each of the two directions. Both wait for `ICE_EVENT_RECV`. So the wait is the
right one where the last callback was `on_recv`, and no other time.
-/

set_option autoImplicit false

namespace Ice
namespace Net
namespace Ssh

/-- What a callback writes to `operation_`. -/
def operationOf : Direction → Operation
  | .recv => .recv
  | .send => .send

variable {s s' : Posix} {rc : Int}

/-! ## 1. `operation_` after a callback and after a call -/

namespace Posix

/-- A callback that returned a count leaves the session alone; one that failed has noted what
    it is. -/
theorem callback_cases {operation : Operation} {answers : List Sys}
    (h : s.callback operation answers = some (s', rc)) :
    0 ≤ rc ∧ s' = s ∨ rc < 0 ∧ s'.operation = operation := by
  induction answers with
  | nil => cases h
  | cons answer answers ih =>
    cases answer with
    | count n =>
      rw [callback, Option.some.injEq, Prod.mk.injEq] at h
      exact Or.inl ⟨h.2 ▸ Int.natCast_nonneg n, h.1.symm⟩
    | failed errno =>
      rw [callback] at h
      by_cases hintr : errno = EINTR
      · rw [if_pos hintr] at h
        exact ih h
      · rw [if_neg hintr, Option.some.injEq, Prod.mk.injEq] at h
        have hpos := errno.pos
        refine Or.inr ⟨?_, h.1 ▸ rfl⟩
        rw [← h.2]
        omega

end Posix

namespace Callback

theorem run_failed {c : Callback} (h : c.run s = some (s', rc)) (hrc : rc < 0) :
    s'.operation = operationOf c.direction := by
  have hcases : 0 ≤ rc ∧ s' = s ∨ rc < 0 ∧ s'.operation = operationOf c.direction := by
    cases c with
    | on_recv answers => exact Posix.callback_cases h
    | on_send answers => exact Posix.callback_cases h
  rcases hcases with ⟨hnonneg, -⟩ | ⟨-, hop⟩
  · exact absurd hrc (Int.not_lt.mpr hnonneg)
  · exact hop

/-- After a libssh2 call whose last callback failed, `operation_` is that callback's. -/
theorem runAll_blocked {cs : List Callback} {rcs : List Int}
    (h : runAll s cs = some (s', rcs)) (hlast : rcs.getLast? = some rc) (hrc : rc < 0) :
    ∃ c, cs.getLast? = some c ∧ s'.operation = operationOf c.direction := by
  induction cs generalizing s rcs with
  | nil =>
    rw [runAll, Option.some.injEq, Prod.mk.injEq] at h
    rw [← h.2] at hlast
    cases hlast
  | cons c cs ih =>
    rw [runAll] at h
    obtain ⟨⟨a, ra⟩, hc, hrest⟩ := Option.bind_eq_some_iff.mp h
    obtain ⟨⟨b, rb⟩, hcs, heq⟩ := Option.map_eq_some_iff.mp hrest
    obtain ⟨rfl, rfl⟩ := Prod.mk.inj heq
    cases cs with
    | nil =>
      obtain ⟨rfl, rfl⟩ := Prod.mk.inj (Option.some.inj hcs)
      have hra : ra = rc := Option.some.inj hlast
      exact ⟨c, rfl, run_failed hc (hra ▸ hrc)⟩
    | cons d ds =>
      have hrb : rb ≠ [] := by
        rintro rfl
        rw [runAll] at hcs
        obtain ⟨⟨_, _⟩, -, hds⟩ := Option.bind_eq_some_iff.mp hcs
        obtain ⟨⟨_, _⟩, -, heq⟩ := Option.map_eq_some_iff.mp hds
        cases heq
      obtain ⟨x, xs, rfl⟩ := List.exists_cons_of_ne_nil hrb
      rw [List.getLast?_cons_cons] at hlast
      obtain ⟨e, he, hop⟩ := ih hcs hlast
      exact ⟨e, by rw [List.getLast?_cons_cons]; exact he, hop⟩

end Callback

/-! ## 2. The wait -/

/-- **The wait after a call that would block is for the direction that blocked if and only if
    that is the receiving one**, whatever `operation_` was and whatever callbacks came before. -/
theorem io_direction_iff {os : Os} {cs : List Callback} {rcs : List Int}
    (h : Callback.runAll s cs = some (s', rcs))
    (hlast : rcs.getLast? = some (-((EAGAIN os).value : Int))) :
    ∃ c, cs.getLast? = some c ∧ (s'.io = .event c.direction ↔ c.direction = .recv) := by
  have hpos := (EAGAIN os).pos
  obtain ⟨c, hc, hop⟩ := Callback.runAll_blocked h hlast (by omega)
  refine ⟨c, hc, ?_⟩
  unfold Posix.io
  rw [hop]
  cases c.direction <;> decide

/-- A write that went through, and a read that would block. -/
theorem io_direction_recv :
    ∃ c, [Callback.on_send [.failed EINTR, .count 5], .on_recv [.failed (EAGAIN .linux)]].getLast?
        = some c ∧ (Posix.io ⟨.recv⟩ = .event c.direction ↔ c.direction = .recv) :=
  have hrun : Callback.runAll ⟨.send⟩ [.on_send [.failed EINTR, .count 5],
      .on_recv [.failed (EAGAIN .linux)]] = some (⟨.recv⟩, [5, -11]) := rfl
  have hlast : [5, -11].getLast? = some (-((EAGAIN .linux).value : Int)) := rfl
  io_direction_iff hrun hlast

/-- The write blocks, and `io` waits for something to read. -/
theorem io_waits_to_read : ∃ s, Callback.runAll ⟨.none⟩ [.on_send [.failed (EAGAIN .linux)]] =
    some (s, [-((EAGAIN .linux).value : Int)]) ∧ s.io = .event .recv ∧ s.io ≠ .event .send :=
  ⟨⟨.send⟩, rfl, rfl, by decide⟩

end Ssh
end Net
end Ice
