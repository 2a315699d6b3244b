import Ice.Log
import Ice.Proof.Schedule.Loop

/-!
# What one step of the log can do

`Step` says once what each label does, guards included, so that no invariant of the log
unfolds the step function again. The context is seen through `ahead`: the entries that were
published and not resumed, in order.
-/

set_option autoImplicit false

namespace Ice
namespace Log

open Lib

variable {X : Type*}

/-! ## 1. The context, seen from the log -/

section Context

variable {K T : Type*}

/-- What was published and not resumed, oldest first. -/
def ahead (ctx : Context K T) : List K := (Loop.context ctx : Loop Empty K T).nodes

variable {ctx ctx' : Context K T} {t : T}

theorem head_of_drain {head : ℕ × K} {rest : List (ℕ × K)} (h : ctx.run = .drain (head :: rest)) :
    (Loop.context ctx : Loop Empty K T).head = some head.2 := by
  simp [Loop.head, h]

theorem head_of_not_drain (h : ∀ head rest, ctx.run ≠ .drain (head :: rest)) :
    (Loop.context ctx : Loop Empty K T).head = none := by
  cases hr : ctx.run with
  | drain batch =>
    cases batch with
    | nil => simp [Loop.head, hr]
    | cons head rest => exact absurd hr (h head rest)
  | _ => simp [Loop.head, hr]

variable [DecidableEq T]

/-- Entering a call moves its caller only. -/
theorem ctx_post {k : K} (h : ctx.step (.post t k) = some ctx') :
    ctx'.box.caller = Function.update ctx.box.caller t (.push k) ∧ ahead ctx' = ahead ctx ∧
      ctx'.run = ctx.run := by
  obtain ⟨box, hbox, rfl⟩ := Option.map_eq_some_iff.mp h
  obtain ⟨-, rfl⟩ := Mailbox.callPost_frame hbox
  exact ⟨rfl, rfl, rfl⟩

theorem ctx_stop {b : Bool} (h : ctx.step (.stop t b) = some ctx') :
    ctx'.box.caller = Function.update ctx.box.caller t (.store b) ∧ ahead ctx' = ahead ctx ∧
      ctx'.run = ctx.run := by
  obtain ⟨box, hbox, rfl⟩ := Option.map_eq_some_iff.mp h
  obtain ⟨-, rfl⟩ := Mailbox.callStop_frame hbox
  exact ⟨rfl, rfl, rfl⟩

/-- An access of a caller moves that caller only, and does not move the loop. -/
theorem ctx_call (h : ctx.step (.call t) = some ctx') :
    (∃ c, ctx'.box.caller = Function.update ctx.box.caller t c ∧ ∀ k, c ≠ .push k) ∧
      ahead ctx' = ahead ctx ++ Loop.published (ctx.box.caller t) ∧
      ctx'.run = ctx.run := by
  have hcall : (Loop.context ctx : Loop Empty K T).call t = some (.context ctx') := by
    rw [Loop.call, h]
    rfl
  have hspec := Loop.call_spec hcall
  refine ⟨hspec.1, hspec.2, ?_⟩
  rcases Context.callStep_cases h with ⟨n, -, rfl⟩ | ⟨number, -, rfl⟩ | ⟨b, -, rfl⟩ |
    ⟨-, rfl⟩ <;> rfl

/-- The loop's own access takes out the node at the head, if it stands at one. -/
theorem ctx_run (h : ctx.step .run = some ctx') :
    ctx'.box.caller = ctx.box.caller ∧
      ahead ctx = (Loop.context ctx : Loop Empty K T).head.toList ++ ahead ctx' :=
  Loop.context_runStep_spec h

theorem ctx_spurious (h : ctx.step .spurious = some ctx') :
    ctx'.box = ctx.box ∧ ctx.run = .blocked ∧ ctx'.run = .wake := by
  simp only [Context.step] at h
  split at h
  · rename_i hr
    obtain rfl := Option.some.inj h
    exact ⟨rfl, hr, rfl⟩
  · cases h

end Context

/-! ## 2. One step -/

/-- Before the call hands anything over. -/
def At.early : At → Bool
  | .compare | .counted _ | .limited _ | .add | .lock => true
  | _ => false

@[simp] theorem At.early_compare : At.compare.early = true := rfl
@[simp] theorem At.early_post : At.post.early = false := rfl

/-- In the synchronous branch, past `g_logger.queue`. -/
def At.late : At → Bool
  | .ended | .check | .block | .blocked | .leave => true
  | _ => false

@[simp] theorem At.late_compare : At.compare.late = false := rfl
@[simp] theorem At.late_post : At.post.late = false := rfl

variable [DecidableEq X]

/-- What a label does, by where its thread stands. -/
inductive Step (s : Log X) : Label X → Log X → Prop
  | queue {t : Thread Unit X} (ht : s.at_ t = .idle) (hl : t = logger → s.printing = true) :
    Step s (.queue t)
      ((s.move t .compare).begin_ t)
  | counted {t : Thread Unit X} (ht : s.at_ t = .compare) :
    Step s (.count t) (s.move t (.counted s.count))
  | limited {t : Thread Unit X} (ht : s.at_ t = .compare) :
    Step s (.limit t) (s.move t (.limited s.limit))
  | countLast {t : Thread Unit X} {limit : UInt64} (ht : s.at_ t = .limited limit) :
    Step s (.count t) (s.branch t s.count limit)
  | limitLast {t : Thread Unit X} {count : UInt64} (ht : s.at_ t = .counted count) :
    Step s (.limit t) (s.branch t count s.limit)
  | add {t : Thread Unit X} {ctx : Context (Id X) (Thread Unit X)} (ht : s.at_ t = .add)
    (hc : s.ctx.step (.post t (s.id t)) = some ctx) :
    Step s (.call t) (((s.move t .post).context ctx).counting (s.count + 1))
  | lock {t : Thread Unit X} {ctx : Context (Id X) (Thread Unit X)} (ht : s.at_ t = .lock)
    (hc : s.ctx.step (.post t (s.id t)) = some ctx) :
    Step s (.call t)
      (((s.move t .post).context ctx).set (s.id t)
        { s.call (s.id t) with
          sync := true
          completed := false
          entry := true
          frame := true })
  | push {t : Thread Unit X} {ctx : Context (Id X) (Thread Unit X)} {k : Id X}
    (ht : s.at_ t = .post) (hp : s.ctx.box.caller t = .push k)
    (hc : s.ctx.step (.call t) = some ctx) :
    Step s (.call t)
      ((s.set (s.id t) { s.call (s.id t) with stage := .queued }).context ctx)
  | posted {t : Thread Unit X} {ctx : Context (Id X) (Thread Unit X)} (ht : s.at_ t = .post)
    (hp : ∀ k, s.ctx.box.caller t ≠ .push k) (hc : s.ctx.step (.call t) = some ctx) :
    Step s (.call t)
      ((s.move t (if (s.call (s.id t)).sync then .ended else .idle)).context ctx)
  | ended {t : Thread Unit X} (ht : s.at_ t = .ended) :
    Step s (.call t)
      ((s.move t .check).set (s.id t) { s.call (s.id t) with entry := false })
  | check {t : Thread Unit X} (ht : s.at_ t = .check) :
    Step s (.call t) (s.move t (if (s.call (s.id t)).completed then .leave else .block))
  | block {t : Thread Unit X} (ht : s.at_ t = .block) :
    Step s (.call t)
      ((s.move t .blocked).set (s.id t) { s.call (s.id t) with notified := false })
  | woken {t : Thread Unit X} (ht : s.at_ t = .blocked)
    (hn : (s.call (s.id t)).notified = true) : Step s (.call t) (s.move t .check)
  | wake {t : Thread Unit X} (ht : s.at_ t = .blocked) : Step s (.wake t) (s.move t .check)
  | leave {t : Thread Unit X} (ht : s.at_ t = .leave) :
    Step s (.call t)
      ((s.move t .idle).set (s.id t) { s.call (s.id t) with frame := false })
  | setLimit {limit : UInt64} : Step s (.setLimit limit) { s with limit := limit }
  | stop {t : Thread Unit X} {ctx : Context (Id X) (Thread Unit X)} (ht : s.at_ t = .idle)
    (hl : t ≠ logger) (hc : s.ctx.step (.stop t true) = some ctx) :
    Step s (.stop t) ((s.move t .stop).context ctx)
  | stored {t : Thread Unit X} {ctx : Context (Id X) (Thread Unit X)} (ht : s.at_ t = .stop)
    (hc : s.ctx.step (.call t) = some ctx) : Step s (.call t) (s.context ctx)
  | stopped {t : Thread Unit X} {ctx : Context (Id X) (Thread Unit X)} (ht : s.at_ t = .stop)
    (hc : s.ctx.step (.call t) = some ctx) :
    Step s (.call t) ((s.move t .join).context ctx)
  | join {t : Thread Unit X} (ht : s.at_ t = .join) (hr : s.ctx.run = .returned) :
    Step s (.call t) (s.move t .idle)
  | run {ctx : Context (Id X) (Thread Unit X)} (hh : s.handling = none)
    (hd : ∀ head rest, s.ctx.run ≠ .drain (head :: rest))
    (hc : s.ctx.step .run = some ctx) : Step s .run (s.context ctx)
  | resume {ctx : Context (Id X) (Thread Unit X)} {head : ℕ × Id X} {rest : List (ℕ × Id X)}
    (hh : s.handling = none) (hd : s.ctx.run = .drain (head :: rest))
    (hc : s.ctx.step .run = some ctx) :
    Step s .run
      ((((s.set head.2 { s.call head.2 with stage := .printing }).context ctx).inside
        head.2).print head.2)
  | spurious {ctx : Context (Id X) (Thread Unit X)} (hc : s.ctx.step .spurious = some ctx) :
    Step s .spurious (s.context ctx)
  | read {k : Id X} (hh : s.handling = some k) (hs : (s.call k).stage = .printing) :
    Step s .read (s.touch k .entry ((s.call k).entry || !(s.call k).sync))
  | printed {k : Id X} (hh : s.handling = some k) (hl : s.at_ logger = .idle)
    (hs : (s.call k).stage = .printing) :
    Step s .handle (s.set k { s.call k with stage := .printed })
  | sub {k : Id X} (hh : s.handling = some k) (hs : (s.call k).stage = .printed)
    (hk : (s.call k).sync = false) :
    Step s .handle
      (((s.set k { s.call k with stage := .finished }).inside none).counting (s.count - 1))
  | store {k : Id X} (hh : s.handling = some k) (hs : (s.call k).stage = .printed)
    (hk : (s.call k).sync = true) :
    Step s .handle
      ((s.set k { s.call k with stage := .stored, completed := true }).touch k .completed
        (s.call k).frame)
  | notify {k : Id X} (hh : s.handling = some k) (hs : (s.call k).stage = .stored)
    (hk : (s.call k).sync = true) :
    Step s .handle
      (((s.set k
        { s.call k with
          stage := .finished
          notified := (s.call k).notified ||
            decide (s.at_ k.1 = .blocked ∧ s.id k.1 = k) }).inside none).touch k .cv
        (s.call k).frame)

/-- **Every label does one of the above.** -/
theorem step_cases {s s' : Log X} {l : Label X} (h : s.step l = some s') : Step s l s' := by
  cases l with
  | queue t =>
    obtain ⟨⟨ht, hl⟩, h⟩ := Option.ite_none_right_eq_some.mp h
    exact Option.some.inj h ▸ .queue ht hl
  | count t =>
    simp only [step, countStep] at h
    split at h
    · rename_i ht
      exact Option.some.inj h ▸ .counted ht
    · rename_i limit ht
      exact Option.some.inj h ▸ .countLast ht
    · cases h
  | limit t =>
    simp only [step, limitStep] at h
    split at h
    · rename_i ht
      exact Option.some.inj h ▸ .limited ht
    · rename_i count ht
      exact Option.some.inj h ▸ .limitLast ht
    · cases h
  | call t =>
    simp only [step, callStep] at h
    split at h
    · rename_i ht
      obtain ⟨ctx, hc, rfl⟩ := Option.map_eq_some_iff.mp h
      exact .add ht hc
    · rename_i ht
      obtain ⟨ctx, hc, rfl⟩ := Option.map_eq_some_iff.mp h
      exact .lock ht hc
    · rename_i ht
      obtain ⟨ctx, hc, rfl⟩ := Option.map_eq_some_iff.mp h
      split
      · rename_i k hp
        exact .push ht hp hc
      · rename_i hp
        exact .posted ht hp hc
    · rename_i ht
      exact Option.some.inj h ▸ .ended ht
    · rename_i ht
      exact Option.some.inj h ▸ .check ht
    · rename_i ht
      exact Option.some.inj h ▸ .block ht
    · rename_i ht
      obtain ⟨hn, h⟩ := Option.ite_none_right_eq_some.mp h
      exact Option.some.inj h ▸ .woken ht hn
    · rename_i ht
      exact Option.some.inj h ▸ .leave ht
    · rename_i ht
      obtain ⟨ctx, hc, rfl⟩ := Option.map_eq_some_iff.mp h
      split
      · exact .stored ht hc
      · exact .stopped ht hc
    · rename_i ht
      obtain ⟨hr, h⟩ := Option.ite_none_right_eq_some.mp h
      exact Option.some.inj h ▸ .join ht hr
    all_goals cases h
  | wake t =>
    obtain ⟨ht, h⟩ := Option.ite_none_right_eq_some.mp h
    exact Option.some.inj h ▸ .wake ht
  | setLimit limit => exact Option.some.inj h ▸ .setLimit
  | stop t =>
    obtain ⟨⟨ht, hl⟩, h⟩ := Option.ite_none_right_eq_some.mp h
    obtain ⟨ctx, hc, rfl⟩ := Option.map_eq_some_iff.mp h
    exact .stop ht hl hc
  | run =>
    simp only [step, runStep] at h
    split at h
    · cases h
    · rename_i hh
      obtain ⟨ctx, hc, rfl⟩ := Option.map_eq_some_iff.mp h
      split
      · rename_i hd
        exact .resume hh hd hc
      · rename_i hd
        exact .run hh hd hc
  | spurious =>
    obtain ⟨ctx, hc, rfl⟩ := Option.map_eq_some_iff.mp h
    exact .spurious hc
  | read =>
    simp only [step] at h
    split at h
    · rename_i k hh
      obtain ⟨⟨hp, -⟩, h⟩ := Option.ite_none_right_eq_some.mp h
      have hs : (s.call k).stage = .printing := by simpa [printing, hh] using hp
      exact Option.some.inj h ▸ .read hh hs
    · cases h
  | handle =>
    simp only [step] at h
    split at h
    · rename_i k hh
      obtain ⟨hl, h⟩ := Option.ite_none_right_eq_some.mp h
      simp only [handleStep] at h
      split at h
      · rename_i hs
        exact Option.some.inj h ▸ .printed hh hl hs
      · rename_i hs hk
        exact Option.some.inj h ▸ .sub hh hs hk
      · rename_i hs hk
        exact Option.some.inj h ▸ .store hh hs hk
      · rename_i hs hk
        exact Option.some.inj h ▸ .notify hh hs hk
      · cases h
    · cases h

end Log
end Ice
