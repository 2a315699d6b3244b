import Ice.Net.Tcp.Duplex

/-!
# Receiving and sending on one socket

What a call of `recv` or `send` owes to nobody but the kernel: the coroutine in one direction
should see what it would see if the other call were absent. Each run of the two calls is
looked at from one direction, as the run of that call alone with the same answers of the
kernel.

* **a suspended call is served by its own readiness** in every run (`served`): it is
  registered for its direction until the kernel reports that, and then it is next in the
  batch;
* **an error can come from the other call** (`send_refused`): both directions want the one
  place of the descriptor in the epoll set, and the second `EPOLL_CTL_ADD` is answered
  `EEXIST`;
* **that, and `errno` after a successful `write`, is all** (`recv_send_independent`): where
  a call suspends only while the other is not registered, and a `write` succeeds while
  `errno` is what the call's own system calls left, both calls do what they do alone.
-/

set_option autoImplicit false

namespace Ice
namespace Net
namespace Tcp

open Lib

/-! ## 1. Calls -/

namespace Call

variable {os : Os} {c c' : Call}

/-- After its wait a call does not wait. -/
theorem not_waiting_of_waited {ec : ErrorCode} (h : c.waited os ec = some c') :
    c'.waiting = false := by
  cases c with
  | recv r =>
    obtain ⟨r', hr, rfl⟩ := Option.map_eq_some_iff.mp h
    obtain ⟨-, hr⟩ := Option.ite_none_right_eq_some.mp hr
    cases hr
    cases ec.isSet <;> rfl
  | send s =>
    obtain ⟨s', hs, rfl⟩ := Option.map_eq_some_iff.mp h
    obtain ⟨-, hs⟩ := Option.ite_none_right_eq_some.mp hs
    cases hs
    cases ec.isSet
    · simp only [waiting, Send.while_]
      split_ifs <;> rfl
    · rfl

theorem not_waiting_of_returned (h : c.returned = true) : c.waiting = false := by
  cases c with
  | recv r => simp_all [returned, waiting]
  | send s => simp_all [returned, waiting]

/-- Only a successful `write` looks at what `errno` held. -/
theorem answer_congr {e e' : ℕ} {a : Answer} (h : ∀ k, a = .send (.accepted k) → e = e') :
    c.answer os e a = c.answer os e' a := by
  cases a with
  | recv a => cases c <;> cases a <;> rfl
  | send o =>
    cases o with
    | accepted k => rw [h k rfl]
    | zero =>
      cases c with
      | recv r => rfl
      | send s =>
        simp only [answer, Send.step]
        split_ifs <;> rfl
    | failed | waited => cases c <;> rfl

end Call

/-! ## 2. The place of the descriptor in the epoll set -/

namespace Duplex

/-- What is registered is a suspended call, for its own direction; what is in the batch is
    what was registered and reported; and a suspended call is registered. -/
structure Inv (handle : ℕ) (s : Duplex) : Prop where
  registered : ∀ i, s.epoll.entry handle = some i → i.data.events = i.data.ptr ∧
    s.running ≠ some i.data.ptr ∧ ∃ c, s.call i.data.ptr = some c ∧ c.waiting = true
  reported : ∀ d, s.batch = some d ↔ s.epoll.entry handle = some ⟨⟨d, d⟩, false⟩
  suspended : ∀ d c, s.call d = some c → c.waiting = true → s.running ≠ some d →
    ∃ armed, s.epoll.entry handle = some ⟨⟨d, d⟩, armed⟩

theorem inv_init {handle errno : ℕ} : Inv handle (init errno) where
  registered _ h := by cases h
  reported _ := by simp [init]
  suspended _ _ h := by cases h

variable {handle : ℕ} {os : Os} {s s' : Duplex} {d : Direction} {c : Call}

/-- A call that is not registered is rewritten by the coroutine that has the thread. -/
theorem Inv.setCall (h : Inv handle s)
    (hreg : ∀ i, s.epoll.entry handle = some i → i.data.ptr ≠ d)
    (hother : ∀ e c, e ≠ d → s.call e = some c → c.waiting = true →
      ∃ armed, s.epoll.entry handle = some ⟨⟨e, e⟩, armed⟩) :
    Inv handle (s.setCall d c) where
  registered i hi := by
    have hne := hreg i hi
    obtain ⟨hevents, -, c', hc', hw⟩ := h.registered i hi
    refine ⟨hevents, ?_, c', ?_, hw⟩
    · rw [setCall_running]
      split_ifs
      · exact nofun
      · exact fun he => hne (Option.some.inj he).symm
    · rw [setCall_call, Function.update_of_ne hne]
      exact hc'
  reported := h.reported
  suspended e c' hc' hw hne := by
    by_cases he : e = d
    · subst he
      rw [setCall_call, Function.update_self] at hc'
      cases hc'
      rw [setCall_running] at hne
      split_ifs at hne with hret
      · rw [Call.not_waiting_of_returned hret] at hw
        cases hw
      · exact absurd rfl hne
    · rw [setCall_call, Function.update_of_ne he] at hc'
      exact hother e c' he hc' hw

theorem Inv.setErrno {f : ℕ → ℕ} (h : Inv handle s) : Inv handle (s.setErrno d f) :=
  ⟨h.registered, h.reported, h.suspended⟩

/-- While its coroutine has the thread a call is not registered. -/
theorem Inv.running (h : Inv handle s) (hrun : s.running = some d) :
    ∀ i, s.epoll.entry handle = some i → i.data.ptr ≠ d :=
  fun i hi he => (h.registered i hi).2.1 (he ▸ hrun)

theorem Inv.setCall_running (h : Inv handle s) (hrun : s.running = some d) :
    Inv handle (s.setCall d c) :=
  h.setCall (h.running hrun) fun e c' he hc' hw => h.suspended e c' hc' hw
    (fun hr => he (Option.some.inj (hr.symm.trans hrun)))

theorem Inv.start (h : Inv handle s) (hs : s.start d c = some s') : Inv handle s' := by
  obtain ⟨⟨hrun, hfree⟩, rfl⟩ := Option.ite_some_none_eq_some.mp hs
  refine h.setCall (fun i hi he => ?_) fun e c' _ hc' hw => h.suspended e c' hc' hw ?_
  · obtain ⟨-, -, c', hc', hw⟩ := h.registered i hi
    rw [he] at hc'
    rw [free, hc'] at hfree
    rw [Call.not_waiting_of_returned hfree] at hw
    cases hw
  · rw [hrun]
    exact nofun

/-- A call is registered, or its registration is refused. -/
theorem Inv.await {failure : Option Errno} (h : Inv handle s) (hrun : s.running = some d)
    (hc : s.call d = some c) (hs : s.await os handle d c failure = some s') : Inv handle s' := by
  obtain ⟨hw, hs⟩ := Option.ite_none_right_eq_some.mp hs
  split at hs
  case h_1 q hq =>
    cases hs
    obtain ⟨hfree, rfl⟩ := OneShot.add_eq_some.mp (ctlAdd_ok hq)
    have hentry : ∀ {i : Interest (Nev Direction)},
        Function.update s.epoll.entry handle (some ⟨⟨d, d⟩, true⟩) handle = some i ↔
          i = ⟨⟨d, d⟩, true⟩ := by simp [eq_comm]
    refine ⟨fun i hi => ?_, fun e => ?_, fun e c' hc' hw' _ => ?_⟩
    · rw [hentry.mp hi]
      exact ⟨rfl, nofun, c, hc, hw⟩
    · show s.batch = some e ↔ Function.update s.epoll.entry handle _ handle = _
      rw [h.reported, hfree, hentry]
      simp
    · by_cases he : e = d
      · exact ⟨true, by simp [he]⟩
      · obtain ⟨armed, ha⟩ := h.suspended e c' hc' hw' fun hr =>
          he (Option.some.inj (hr.symm.trans hrun))
        rw [hfree] at ha
        cases ha
  case h_2 errno hq =>
    obtain ⟨c', -, rfl⟩ := Option.map_eq_some_iff.mp hs
    exact h.setErrno.setCall_running hrun

/-- The registration is reported, and stays in the set. -/
theorem Inv.report (h : Inv handle s) (hs : s.report handle d = some s') : Inv handle s' := by
  obtain ⟨⟨nev, q⟩, hq, hs⟩ := Option.bind_eq_some_iff.mp hs
  obtain ⟨-, rfl⟩ := Option.ite_some_none_eq_some.mp hs
  obtain ⟨ha, rfl⟩ := OneShot.report_eq_some.mp hq
  obtain ⟨hevents, hrun, hcall⟩ := h.registered _ ha
  obtain ⟨ptr, ptr'⟩ := nev
  cases hevents
  have hentry : ∀ {i : Interest (Nev Direction)},
      Function.update s.epoll.entry handle (some ⟨⟨ptr, ptr⟩, false⟩) handle = some i ↔
        i = ⟨⟨ptr, ptr⟩, false⟩ := by simp [eq_comm]
  refine ⟨fun i hi => ?_, fun e => ?_, fun e c hc hw hne => ⟨false, hentry.mpr ?_⟩⟩
  · rw [hentry.mp hi]
    exact ⟨rfl, hrun, hcall⟩
  · show some ptr = some e ↔ Function.update s.epoll.entry handle _ handle = _
    rw [hentry]
    simp [eq_comm]
  · obtain ⟨armed, hi⟩ := h.suspended e c hc hw hne
    rw [ha] at hi
    cases hi
    rfl

/-- The entry that was reported is the call's own registration, and is taken away. -/
theorem Inv.resume (h : Inv handle s) (hrun : s.running = none) (hbatch : s.batch = some d)
    (hs : s.resume os handle d c = some s') : Inv handle s' := by
  have hreg := (h.reported d).mp hbatch
  unfold Duplex.resume ctlDel at hs
  rw [hreg] at hs
  obtain ⟨c', hc', rfl⟩ := Option.map_eq_some_iff.mp hs
  have hnone : ∀ e c, e ≠ d → s.call e = some c → c.waiting = true → False := by
    intro e c he hc hw
    obtain ⟨armed, hi⟩ := h.suspended e c hc hw (by rw [hrun]; exact nofun)
    rw [hreg] at hi
    cases hi
    exact he rfl
  refine ⟨fun i hi => ?_, fun e => ?_, fun e c'' hc hw _ => ?_⟩
  · rw [setCall_epoll, setEpoll_epoll, OneShot.entry_erase_self] at hi
    cases hi
  · rw [setCall_batch, setEpoll_batch, setCall_epoll, setEpoll_epoll, OneShot.entry_erase_self]
    simp
  · obtain ⟨-, hc⟩ | ⟨he, hc⟩ := update_cases hc
    · cases hc
      rw [Call.not_waiting_of_waited hc'] at hw
      cases hw
    · exact (hnone e c'' he hc hw).elim

/-- A step, by the function of the model that takes it. -/
inductive Step (os : Os) (handle : ℕ) (s : Duplex) : Label → Duplex → Prop
  | recv {size : ℕ} {s' : Duplex} (hs : s.start .recv (.recv (Recv.init size)) = some s') :
    Step os handle s (.recv size) s'
  | send {data : List UInt8} {s' : Duplex}
    (hs : s.start .send (.send (Send.init data 0)) = some s') : Step os handle s (.send data) s'
  | answer {d : Direction} {a : Answer} {c : Call} {s' : Duplex} (hrun : s.running = some d)
    (hc : s.call d = some c) (hs : s.answer os d c a = some s') : Step os handle s (.answer d a) s'
  | await {d : Direction} {failure : Option Errno} {c : Call} {s' : Duplex}
    (hrun : s.running = some d) (hc : s.call d = some c)
    (hs : s.await os handle d c failure = some s') : Step os handle s (.await d failure) s'
  | report {d : Direction} {s' : Duplex} (hrun : s.running = none) (hbatch : s.batch = none)
    (hs : s.report handle d = some s') : Step os handle s (.report d) s'
  | resume {d : Direction} {c : Call} {s' : Duplex} (hrun : s.running = none)
    (hbatch : s.batch = some d) (hc : s.call d = some c)
    (hs : s.resume os handle d c = some s') : Step os handle s (.resume d) s'
  | errno {e : Errno} (hrun : s.running = none) : Step os handle s (.errno e) (s.leave e.value)

theorem step_iff {l : Label} : step os handle s l = some s' ↔ Step os handle s l s' := by
  constructor
  · intro hs
    cases l with
    | recv size => exact .recv hs
    | send data => exact .send hs
    | answer d a =>
      obtain ⟨hrun, hs⟩ := Option.ite_none_right_eq_some.mp hs
      obtain ⟨c, hc, hs⟩ := Option.bind_eq_some_iff.mp hs
      exact .answer hrun hc hs
    | await d failure =>
      obtain ⟨hrun, hs⟩ := Option.ite_none_right_eq_some.mp hs
      obtain ⟨c, hc, hs⟩ := Option.bind_eq_some_iff.mp hs
      exact .await hrun hc hs
    | report d =>
      obtain ⟨⟨hrun, hbatch⟩, hs⟩ := Option.ite_none_right_eq_some.mp hs
      exact .report hrun hbatch hs
    | resume d =>
      obtain ⟨⟨hrun, hbatch⟩, hs⟩ := Option.ite_none_right_eq_some.mp hs
      obtain ⟨c, hc, hs⟩ := Option.bind_eq_some_iff.mp hs
      exact .resume hrun hbatch hc hs
    | errno e =>
      obtain ⟨hrun, rfl⟩ := Option.ite_some_none_eq_some.mp hs
      exact .errno hrun
  · intro hs
    cases hs with
    | recv hs | send hs => exact hs
    | answer hrun hc hs | await hrun hc hs =>
      rw [step, if_pos hrun, hc]
      exact hs
    | report hrun hbatch hs =>
      rw [step, if_pos ⟨hrun, hbatch⟩]
      exact hs
    | resume hrun hbatch hc hs =>
      rw [step, if_pos ⟨hrun, hbatch⟩, hc]
      exact hs
    | errno hrun => exact if_pos hrun

theorem Inv.step {l : Label} (h : Inv handle s) (hs : Step os handle s l s') : Inv handle s' := by
  cases hs with
  | recv hs | send hs => exact h.start hs
  | answer hrun hc hs =>
    obtain ⟨c', -, rfl⟩ := Option.map_eq_some_iff.mp hs
    exact h.setErrno.setCall_running hrun
  | await hrun hc hs => exact h.await hrun hc hs
  | report hrun hbatch hs => exact h.report hs
  | resume hrun hbatch hc hs => exact h.resume hrun hbatch hs
  | errno => exact ⟨h.registered, h.reported, h.suspended⟩

/-! ## 3. One direction of a run -/

/-- Whose step it is; `none` for what neither call does. -/
def Label.direction : Label → Option Direction
  | .recv _ => some .recv
  | .send _ => some .send
  | .answer d _ | .await d _ | .report d | .resume d => some d
  | .errno _ => none

/-- The call of `d` is there when this happens and the other call is absent. -/
def Label.seen (d : Direction) (l : Label) : Bool := l.direction.all (· = d)

/-- The condition on a step: a call suspends only while the other is not registered, and a
    `write` succeeds only while `errno` is what it would be without the other call. -/
def Apart (handle : ℕ) (s : Duplex) : Label → Prop
  | .await d none => ∀ i ∈ s.epoll.entry handle, i.data.ptr = d
  | .answer d (.send (.accepted _)) => s.errno = s.own d
  | _ => True

/-- `t` is what the call of `d` has of `s` when the other call is absent. -/
structure Alone (handle : ℕ) (d : Direction) (s t : Duplex) : Prop where
  call : t.call d = s.call d
  errno : t.errno = s.own d
  own : t.own d = s.own d
  epoll : t.epoll.entry handle = (s.epoll.entry handle).filter fun i => i.data.ptr = d
  batch : t.batch = s.batch.filter fun e => e = d
  running : t.running = s.running.filter fun e => e = d

theorem alone_init {errno : ℕ} : Alone handle d (init errno) (init errno) :=
  ⟨rfl, rfl, rfl, rfl, rfl, rfl⟩

section Projection

variable {t : Duplex} {e : Direction}

/-- The coroutine of `d` on the thread, or in the batch, is seen; that of the other is not. -/
theorem filter_self (d : Direction) : (some d).filter (fun e => decide (e = d)) = some d :=
  Option.filter_some_pos (decide_eq_true (Eq.refl d))

theorem filter_ptr {i : Interest (Nev Direction)} (hi : i.data.ptr = d) :
    (some i).filter (fun i => decide (i.data.ptr = d)) = some i :=
  Option.filter_some_pos (decide_eq_true hi)

theorem filter_ptr_other {i : Interest (Nev Direction)} (hi : i.data.ptr ≠ d) :
    (some i).filter (fun i => decide (i.data.ptr = d)) = none :=
  Option.filter_some_neg (decide_eq_false hi)

theorem filter_other (hne : e ≠ d) : (some e).filter (fun e => decide (e = d)) = none :=
  Option.filter_some_neg (decide_eq_false hne)

theorem Alone.setCall (h : Alone handle d s t) :
    Alone handle d (s.setCall d c) (t.setCall d c) := by
  refine ⟨?_, h.errno, h.own, h.epoll, h.batch, ?_⟩
  · rw [setCall_call, setCall_call, Function.update_self, Function.update_self]
  · rw [setCall_running, setCall_running]
    split_ifs
    · rfl
    · exact (filter_self d).symm

theorem Alone.setErrno {f : ℕ → ℕ} (h : Alone handle d s t) :
    Alone handle d (s.setErrno d f) (t.setErrno d f) := by
  refine ⟨h.call, ?_, ?_, h.epoll, h.batch, h.running⟩
  · rw [setErrno_errno, setErrno_own, Function.update_self, h.errno]
  · rw [setErrno_own, setErrno_own, Function.update_self, Function.update_self, h.own]

/-- What the other call does to itself is not seen. -/
theorem Alone.setCall_other (h : Alone handle d s t) (hne : e ≠ d) (hrun : t.running = none) :
    Alone handle d (s.setCall e c) t := by
  refine ⟨?_, h.errno, h.own, h.epoll, h.batch, ?_⟩
  · rw [setCall_call, Function.update_of_ne hne.symm]
    exact h.call
  · rw [setCall_running, hrun]
    split_ifs
    · rfl
    · exact (filter_other hne).symm

theorem Alone.setErrno_other {f : ℕ → ℕ} (h : Alone handle d s t) (hne : e ≠ d) :
    Alone handle d (s.setErrno e f) t := by
  refine ⟨h.call, ?_, ?_, h.epoll, h.batch, h.running⟩
  · rw [setErrno_own, Function.update_of_ne hne.symm]
    exact h.errno
  · rw [setErrno_own, Function.update_of_ne hne.symm]
    exact h.own

theorem Alone.running_none (h : Alone handle d s t) (hne : e ≠ d)
    (hrun : s.running = none ∨ s.running = some e) : t.running = none := by
  rcases hrun with hrun | hrun
  · rw [h.running, hrun]
    rfl
  · rw [h.running, hrun]
    exact filter_other hne

theorem Alone.start (h : Alone handle d s t) (hs : s.start d c = some s') :
    ∃ u, t.start d c = some u ∧ Alone handle d s' u := by
  obtain ⟨⟨hrun, hfree⟩, rfl⟩ := Option.ite_some_none_eq_some.mp hs
  refine ⟨t.setCall d c, if_pos ⟨?_, ?_⟩, h.setCall⟩
  · rw [h.running, hrun]
    rfl
  · rw [free, h.call]
    exact hfree

theorem Alone.answer {a : Answer} (h : Alone handle d s t)
    (herr : ∀ k, a = .send (.accepted k) → s.errno = s.own d) (hs : s.answer os d c a = some s') :
    ∃ u, t.answer os d c a = some u ∧ Alone handle d s' u := by
  obtain ⟨c', hc', rfl⟩ := Option.map_eq_some_iff.mp hs
  refine ⟨(t.setErrno d a.errno).setCall d c', ?_, h.setErrno.setCall⟩
  rw [Duplex.answer, h.errno, Call.answer_congr fun k hk => (herr k hk).symm, hc']
  rfl

theorem Alone.await {failure : Option Errno} (h : Alone handle d s t)
    (hfree : failure = none → s.epoll.entry handle = none)
    (hs : s.await os handle d c failure = some s') :
    ∃ u, t.await os handle d c failure = some u ∧ Alone handle d s' u := by
  obtain ⟨hw, hs⟩ := Option.ite_none_right_eq_some.mp hs
  unfold Duplex.await
  rw [if_pos hw]
  cases failure with
  | some errno =>
    obtain ⟨c', hc', rfl⟩ := Option.map_eq_some_iff.mp hs
    refine ⟨(t.setErrno d fun _ => errno.value).setCall d c', ?_, h.setErrno.setCall⟩
    exact Option.map_eq_some_iff.mpr ⟨c', hc', rfl⟩
  | none =>
    have hs' := hfree rfl
    have ht' : t.epoll.entry handle = none := by
      rw [h.epoll, hs']
      rfl
    rw [ctlAdd_free hs'] at hs
    rw [ctlAdd_free ht']
    cases hs
    refine ⟨_, rfl, h.call, h.errno, h.own, ?_, h.batch, rfl⟩
    rw [setEpoll_epoll, setEpoll_epoll, OneShot.entry_mk_self, OneShot.entry_mk_self]
    exact (filter_ptr rfl).symm

theorem Alone.report (h : Alone handle d s t) (hi : Inv handle s)
    (hs : s.report handle d = some s') :
    ∃ u, t.report handle d = some u ∧ Alone handle d s' u := by
  obtain ⟨⟨nev, q⟩, hq, hs⟩ := Option.bind_eq_some_iff.mp hs
  obtain ⟨hd, rfl⟩ := Option.ite_some_none_eq_some.mp hs
  obtain ⟨ha, rfl⟩ := OneShot.report_eq_some.mp hq
  have hptr : nev.ptr = d := (hi.registered _ ha).1.symm.trans hd
  have ht : t.epoll.Armed handle nev := by
    rw [OneShot.Armed, h.epoll, ha]
    exact filter_ptr hptr
  refine ⟨t.setEpoll ⟨Function.update t.epoll.entry handle (some ⟨nev, false⟩)⟩ (some nev.ptr)
    t.running, ?_, h.call, h.errno, h.own, ?_, ?_, h.running⟩
  · rw [Duplex.report, OneShot.report_eq_some.mpr ⟨ht, rfl⟩]
    exact if_pos hd
  · rw [setEpoll_epoll, setEpoll_epoll, OneShot.entry_mk_self, OneShot.entry_mk_self]
    exact (filter_ptr hptr).symm
  · rw [setEpoll_batch, setEpoll_batch, hptr]
    exact (filter_self d).symm

/-- The entry of the call finds the call's own registration, seen or not. -/
theorem Alone.resume (h : Alone handle d s t) (hi : Inv handle s)
    (hbatch : s.batch = some d) (hs : s.resume os handle d c = some s') :
    ∃ u, t.resume os handle d c = some u ∧ Alone handle d s' u := by
  have hreg := (hi.reported d).mp hbatch
  have ht : t.epoll.entry handle = some ⟨⟨d, d⟩, false⟩ := by
    rw [h.epoll, hreg]
    exact filter_ptr rfl
  unfold Duplex.resume at hs ⊢
  rw [ctlDel_some hreg] at hs
  rw [ctlDel_some ht]
  obtain ⟨c', hc', rfl⟩ := Option.map_eq_some_iff.mp hs
  refine ⟨_, Option.map_eq_some_iff.mpr ⟨c', hc', rfl⟩, Alone.setCall ?_⟩
  refine ⟨h.call, h.errno, h.own, ?_, rfl, rfl⟩
  rw [setEpoll_epoll, setEpoll_epoll, OneShot.entry_erase_self, OneShot.entry_erase_self]
  rfl

/-- **A step of the call itself** is the same step when the other call is absent. -/
theorem Alone.step_self {l : Label} (h : Alone handle d s t) (hi : Inv handle s)
    (hq : Apart handle s l) (hl : l.direction = some d) (hs : Step os handle s l s') :
    ∃ u, Step os handle t l u ∧ Alone handle d s' u := by
  cases hs with
  | recv hs =>
    cases hl
    obtain ⟨u, hu, ha⟩ := h.start hs
    exact ⟨u, .recv hu, ha⟩
  | send hs =>
    cases hl
    obtain ⟨u, hu, ha⟩ := h.start hs
    exact ⟨u, .send hu, ha⟩
  | @answer d' a c s' hrun hc hs =>
    cases hl
    obtain ⟨u, hu, ha⟩ := h.answer (fun k hk => by subst hk; exact hq) hs
    refine ⟨u, .answer ?_ (h.call.trans hc) hu, ha⟩
    rw [h.running, hrun]
    exact filter_self d
  | @await d' failure c s' hrun hc hs =>
    cases hl
    have hfree : failure = none → s.epoll.entry handle = none := by
      intro hf
      subst hf
      exact Option.eq_none_iff_forall_ne_some.mpr fun i hreg => hi.running hrun i hreg (hq i hreg)
    obtain ⟨u, hu, ha⟩ := h.await hfree hs
    refine ⟨u, .await ?_ (h.call.trans hc) hu, ha⟩
    rw [h.running, hrun]
    exact filter_self d
  | report hrun hbatch hs =>
    cases hl
    obtain ⟨u, hu, ha⟩ := h.report hi hs
    refine ⟨u, .report ?_ ?_ hu, ha⟩
    · rw [h.running, hrun]
      rfl
    · rw [h.batch, hbatch]
      rfl
  | resume hrun hbatch hc hs =>
    cases hl
    obtain ⟨u, hu, ha⟩ := h.resume hi hbatch hs
    refine ⟨u, .resume ?_ ?_ (h.call.trans hc) hu, ha⟩
    · rw [h.running, hrun]
      rfl
    · rw [h.batch, hbatch]
      exact filter_self d
  | errno => cases hl

/-- **A step of the other call** is not seen. -/
theorem Alone.step_other {l : Label} (h : Alone handle d s t) (hi : Inv handle s)
    (hq : Apart handle s l) (hl : l.direction = some e) (hne : e ≠ d)
    (hs : Step os handle s l s') : Alone handle d s' t := by
  -- What the other call has registered is not seen either.
  have hhidden : ∀ armed, s.epoll.entry handle = some ⟨⟨e, e⟩, armed⟩ →
      t.epoll.entry handle = none := by
    intro armed hreg
    rw [h.epoll, hreg]
    exact filter_ptr_other hne
  cases hs with
  | recv hs | send hs =>
    cases hl
    obtain ⟨⟨hrun, -⟩, rfl⟩ := Option.ite_some_none_eq_some.mp hs
    exact h.setCall_other hne (h.running_none hne (Or.inl hrun))
  | answer hrun hc hs =>
    cases hl
    obtain ⟨c', -, rfl⟩ := Option.map_eq_some_iff.mp hs
    exact (h.setErrno_other hne).setCall_other hne (h.running_none hne (Or.inr hrun))
  | @await d' failure c s' hrun hc hs =>
    cases hl
    have hrun' := h.running_none hne (Or.inr hrun)
    obtain ⟨-, hs⟩ := Option.ite_none_right_eq_some.mp hs
    cases failure with
    | some errno =>
      obtain ⟨c', -, rfl⟩ := Option.map_eq_some_iff.mp hs
      exact (h.setErrno_other hne).setCall_other hne hrun'
    | none =>
      have hfree : s.epoll.entry handle = none := Option.eq_none_iff_forall_ne_some.mpr
        fun i hreg => hi.running hrun i hreg (hq i hreg)
      rw [ctlAdd_free hfree] at hs
      cases hs
      refine ⟨h.call, h.errno, h.own, ?_, h.batch, hrun'⟩
      rw [h.epoll, hfree, setEpoll_epoll, OneShot.entry_mk_self]
      exact (filter_ptr_other hne).symm
  | report hrun hbatch hs =>
    cases hl
    obtain ⟨⟨nev, q⟩, hq, hs⟩ := Option.bind_eq_some_iff.mp hs
    obtain ⟨hd, rfl⟩ := Option.ite_some_none_eq_some.mp hs
    obtain ⟨ha, rfl⟩ := OneShot.report_eq_some.mp hq
    have hptr : nev.ptr = e := (hi.registered _ ha).1.symm.trans hd
    obtain ⟨events, ptr⟩ := nev
    cases hptr
    cases hd
    refine ⟨h.call, h.errno, h.own, ?_, ?_, h.running⟩
    · rw [hhidden true ha, setEpoll_epoll, OneShot.entry_mk_self]
      exact (filter_ptr_other hne).symm
    · rw [h.batch, hbatch, setEpoll_batch]
      exact (filter_other hne).symm
  | resume hrun hbatch hc hs =>
    cases hl
    have hreg := (hi.reported e).mp hbatch
    unfold Duplex.resume at hs
    rw [ctlDel_some hreg] at hs
    obtain ⟨c', -, rfl⟩ := Option.map_eq_some_iff.mp hs
    have hrun' := h.running_none hne (Or.inl hrun)
    refine Alone.setCall_other ⟨h.call, h.errno, h.own, ?_, ?_, hrun'⟩ hne hrun'
    · rw [hhidden false hreg, setEpoll_epoll, OneShot.entry_erase_self]
      rfl
    · rw [h.batch, hbatch]
      exact filter_other hne
  | errno => cases hl

/-- What neither call does is there for both. -/
theorem Alone.step_errno {errno : Errno} (h : Alone handle d s t)
    (hs : Step os handle s (.errno errno) s') :
    ∃ u, Step os handle t (.errno errno) u ∧ Alone handle d s' u := by
  cases hs with
  | errno hrun =>
    refine ⟨_, .errno ?_, h.call, rfl, rfl, h.epoll, h.batch, h.running⟩
    rw [h.running, hrun]
    rfl

end Projection

/-! ## 4. Runs -/

/-- What a call of `d` is owed by the run `ls` that led to `s`: with the other call absent,
    the same answers of the kernel leave it where it is, what it read, wrote and reports
    included; and while it is suspended it is registered for its own readiness, or that was
    reported and it is next to be resumed. -/
structure Independent (handle errno : ℕ) (ls : List Label) (s : Duplex) (d : Direction) :
    Prop where
  alone : ∃ t, (machine handle).exec (init errno) (ls.filter (Label.seen d)) = some t ∧
    t.call d = s.call d
  served : ∀ c, s.call d = some c → c.waiting = true → s.running ≠ some d →
    s.epoll.Armed handle ⟨d, d⟩ ∨ s.batch = some d

theorem Inv.served (h : Inv handle s) (hc : s.call d = some c) (hw : c.waiting = true)
    (hrun : s.running ≠ some d) : s.epoll.Armed handle ⟨d, d⟩ ∨ s.batch = some d := by
  obtain ⟨armed, hreg⟩ := h.suspended d c hc hw hrun
  cases armed with
  | true => exact Or.inl hreg
  | false => exact Or.inr ((h.reported d).mpr hreg)

/-- **Own readiness**, in every run. -/
theorem served {errno : ℕ} (hr : (machine handle).Reaches (init errno) s) (hc : s.call d = some c)
    (hw : c.waiting = true) (hrun : s.running ≠ some d) :
    s.epoll.Armed handle ⟨d, d⟩ ∨ s.batch = some d :=
  have h : Inv handle s := hr.preserves (fun h _ hs => h.step (step_iff.mp hs)) inv_init
  h.served hc hw hrun

/-- The two views of one step of a run. -/
theorem Alone.step {t : Duplex} {l : Label} (h : Inv handle s ∧ Alone handle d s t)
    (hq : Apart handle s l) (hs : (machine handle).step s l = some s') :
    ∃ u, (machine handle).exec t (Option.guard (Label.seen d) l).toList = some u ∧
      Inv handle s' ∧ Alone handle d s' u := by
  obtain ⟨hi, h⟩ := h
  have hs := step_iff.mp hs
  have hi' := hi.step hs
  have hone : ∀ {u}, l.seen d = true → Step .linux handle t l u →
      (machine handle).exec t (Option.guard (Label.seen d) l).toList = some u := by
    intro u hseen hu
    rw [Option.guard, if_pos hseen]
    exact Machine.exec_cons_some.mpr ⟨u, step_iff.mpr hu, rfl⟩
  cases hl : l.direction with
  | none =>
    cases l with
    | errno e =>
      obtain ⟨u, hu, ha⟩ := h.step_errno hs
      exact ⟨u, hone rfl hu, hi', ha⟩
    | _ => cases hl
  | some e =>
    by_cases he : e = d
    · obtain ⟨u, hu, ha⟩ := h.step_self hi hq (he ▸ hl) hs
      exact ⟨u, hone (by simp [Label.seen, hl, he]) hu, hi', ha⟩
    · have hseen : l.seen d = false := by simp [Label.seen, hl, he]
      refine ⟨t, ?_, hi', h.step_other hi hq hl he hs⟩
      rw [Option.guard, hseen]
      rfl

/-- **Receiving and sending are independent** in a run that keeps them apart. -/
theorem recv_send_independent {errno : ℕ} {ls : List Label}
    (hr : (machine handle).RunsBy (Apart handle) (init errno) ls s) (d : Direction) :
    Independent handle errno ls s d := by
  obtain ⟨t, ht, hi, ha⟩ := hr.project (N := machine handle)
    (R := fun s t => Inv handle s ∧ Alone handle d s t) (f := Option.guard (Label.seen d))
    Alone.step ⟨inv_init, alone_init⟩
  rw [List.filterMap_eq_filter] at ht
  exact ⟨⟨t, ht, ha.call⟩, fun c hc hw hrun => hi.served hc hw hrun⟩

instance (handle : ℕ) (s : Duplex) : (l : Label) → Decidable (Apart handle s l)
  | .await d none => inferInstanceAs (Decidable (∀ i ∈ s.epoll.entry handle, i.data.ptr = d))
  | .answer d (.send (.accepted _)) => inferInstanceAs (Decidable (s.errno = s.own d))
  | .answer _ (.send .zero) | .answer _ (.send (.failed _)) | .answer _ (.send (.waited _ _))
  | .answer _ (.recv _) | .await _ (some _) | .recv _ | .send _ | .report _ | .resume _
  | .errno _ => inferInstanceAs (Decidable True)

/-- The hypothesis is met by a run in which both calls wait, one after the other, and the
    second begins while the first is in the batch. -/
theorem recv_send_independent_in_turn :
    let schedule : List Label :=
      [.recv 4, .answer .recv (.recv (.failed (EAGAIN .linux))), .await .recv none, .report .recv,
        .send [7, 8], .answer .send (.send (.failed EINTR)),
        .answer .send (.send (.failed ⟨32, by decide⟩)), .resume .recv,
        .answer .recv (.recv (.read [1, 2])), .send [7, 8],
        .answer .send (.send (.failed (EAGAIN .linux))), .await .send none, .report .send,
        .resume .send, .answer .send (.send (.accepted 1))]
    ∃ s, (machine 3).execBy (Apart 3) (init 0) schedule = some s ∧
      Independent 3 0 schedule s .send := by
  intro schedule
  have hrun : (machine 3).execBy (Apart 3) (init 0) schedule = some _ := rfl
  exact ⟨_, hrun, recv_send_independent (Machine.runsBy_of_execBy schedule hrun) .send⟩

/-- `recv` waits; `send` finds the descriptor full and wants to wait, and reports `EEXIST`. -/
theorem send_refused :
    let schedule : List Label :=
      [.recv 4, .answer .recv (.recv (.failed (EAGAIN .linux))), .await .recv none, .send [7, 8],
        .answer .send (.send (.failed (EAGAIN .linux))), .await .send none]
    ∃ s, (machine 3).exec (init 0) schedule = some s ∧ ¬ Independent 3 0 schedule s .send := by
  intro schedule
  refine ⟨_, rfl, fun h => ?_⟩
  obtain ⟨t, ht, hc⟩ := h.alone
  cases ht
  exact absurd hc (by decide)

/-! ## 5. What breaks the condition breaks the independence -/

end Duplex

theorem make_error_code_inj {e e' : ℕ} : make_error_code e = make_error_code e' ↔ e = e' := by
  refine ⟨fun h => ?_, congrArg make_error_code⟩
  exact Int.natCast_inj.mp (congrArg ErrorCode.value h)

/-- A clear error is of another category. -/
theorem clear_ne_make_error_code (e : ℕ) : ErrorCode.clear ≠ make_error_code e := by
  intro h
  cases congrArg ErrorCode.category h

/-- Two values of `errno` take a `send` that has no error two ways. -/
theorem Send.testErrno_inj {os : Os} {e e' : ℕ} {s : Send} (hec : s.ec = .clear)
    (hat : (testErrno { s with errno := e } os).at_ = (testErrno { s with errno := e' } os).at_)
    (hcode : (testErrno { s with errno := e } os).ec = (testErrno { s with errno := e' } os).ec) :
    e = e' := by
  unfold testErrno while_ at hat hcode
  -- Neither value is one of the two that the loop tests for in the only case that is left.
  split_ifs at hat hcode <;>
    simp_all [make_error_code_inj, clear_ne_make_error_code, (clear_ne_make_error_code _).symm]

/-- A call of `send` that has not returned has no error. -/
def Call.Clear : Call → Prop
  | .recv _ => True
  | .send s => s.at_ ≠ .returned → s.ec = .clear

namespace Call

variable {os : Os} {c c' : Call} {e e' k : ℕ}

theorem answer_inj (hclear : c.Clear) (h : c.answer os e (.send (.accepted k)) = some c')
    (h' : c.answer os e' (.send (.accepted k)) = some c') : e = e' := by
  cases c with
  | recv r => cases h
  | send s =>
    obtain ⟨a, ha, rfl⟩ := Option.map_eq_some_iff.mp h
    obtain ⟨b, hb, hab⟩ := Option.map_eq_some_iff.mp h'
    obtain ⟨⟨hat, -⟩, ha⟩ := Option.ite_none_right_eq_some.mp ha
    obtain ⟨-, hb⟩ := Option.ite_none_right_eq_some.mp hb
    cases ha
    cases hb
    have hec : (s.accept k).ec = .clear := hclear (by rw [hat]; nofun)
    have hsend := Call.send.inj hab
    have hat' := congrArg Send.at_ hsend
    have hcode := congrArg Send.ec hsend
    exact (Send.testErrno_inj hec hat' hcode).symm

theorem clear_of_waited {ec : ErrorCode} (h : c.Clear) (hs : c.waited os ec = some c') :
    c'.Clear := by
  cases c with
  | recv r =>
    obtain ⟨r', -, rfl⟩ := Option.map_eq_some_iff.mp hs
    trivial
  | send s =>
    obtain ⟨s', hstep, rfl⟩ := Option.map_eq_some_iff.mp hs
    obtain ⟨hat, hstep⟩ := Option.ite_none_right_eq_some.mp hstep
    have hec : s.ec = .clear := h (by rw [hat]; nofun)
    cases hstep
    cases ec.isSet
    · exact fun _ => hec
    · exact fun hne => absurd rfl hne

theorem clear_testErrno {s : Send} (h : s.ec = .clear) :
    (s.testErrno os).at_ ≠ .returned → (s.testErrno os).ec = .clear := by
  unfold Send.testErrno Send.while_
  split_ifs <;> simp [h]

theorem clear_of_answer {a : Answer} (h : c.Clear) (hs : c.answer os e a = some c') :
    c'.Clear := by
  cases c with
  | recv r =>
    cases a with
    | send o => cases hs
    | recv a =>
      cases a with
      | waited => cases hs
      | read | failed =>
        obtain ⟨r', -, rfl⟩ := Option.map_eq_some_iff.mp hs
        trivial
  | send s =>
    cases a with
    | recv a => cases a <;> cases hs
    | send o =>
      cases o with
      | waited => cases hs
      | accepted k =>
        obtain ⟨s', hstep, rfl⟩ := Option.map_eq_some_iff.mp hs
        obtain ⟨⟨hat, -⟩, hstep⟩ := Option.ite_none_right_eq_some.mp hstep
        have hec : s.ec = .clear := h (by rw [show s.at_ = .write from hat]; nofun)
        cases hstep
        exact clear_testErrno hec
      | zero =>
        obtain ⟨s', hstep, rfl⟩ := Option.map_eq_some_iff.mp hs
        obtain ⟨hat, hstep⟩ := Option.ite_none_right_eq_some.mp hstep
        cases hstep
        exact fun hne => absurd rfl hne
      | failed errno =>
        obtain ⟨s', hstep, rfl⟩ := Option.map_eq_some_iff.mp hs
        obtain ⟨hat, hstep⟩ := Option.ite_none_right_eq_some.mp hstep
        have hec : s.ec = .clear := h (by rw [show s.at_ = .write from hat]; nofun)
        cases hstep
        exact clear_testErrno hec

end Call

namespace Duplex

variable {handle : ℕ} {os : Os} {s s' : Duplex} {d : Direction} {c : Call}

/-- Every call is clear. -/
def Clear (s : Duplex) : Prop := ∀ d c, s.call d = some c → c.Clear

theorem Clear.setCall (h : Clear s) (hc : c.Clear) : Clear (s.setCall d c) := by
  intro e c' hc'
  obtain ⟨-, he⟩ | ⟨-, he⟩ := update_cases hc'
  · exact Option.some.inj he ▸ hc
  · exact h e c' he

theorem Clear.step {l : Label} (h : Clear s) (hs : Step os handle s l s') : Clear s' := by
  cases hs with
  | recv hs =>
    obtain ⟨-, rfl⟩ := Option.ite_some_none_eq_some.mp hs
    exact h.setCall trivial
  | send hs =>
    obtain ⟨-, rfl⟩ := Option.ite_some_none_eq_some.mp hs
    exact h.setCall fun _ => rfl
  | answer hrun hc hs =>
    obtain ⟨c', hc', rfl⟩ := Option.map_eq_some_iff.mp hs
    exact Clear.setCall h (Call.clear_of_answer (h _ _ hc) hc')
  | await hrun hc hs =>
    obtain ⟨-, hs⟩ := Option.ite_none_right_eq_some.mp hs
    split at hs
    · cases hs
      exact h
    · obtain ⟨c', hc', rfl⟩ := Option.map_eq_some_iff.mp hs
      exact Clear.setCall h (Call.clear_of_waited (h _ _ hc) hc')
  | report hrun hbatch hs =>
    obtain ⟨r, -, hs⟩ := Option.bind_eq_some_iff.mp hs
    obtain ⟨-, rfl⟩ := Option.ite_some_none_eq_some.mp hs
    exact h
  | resume hrun hbatch hc hs =>
    unfold Duplex.resume at hs
    split at hs
    · obtain ⟨c', hc', rfl⟩ := Option.map_eq_some_iff.mp hs
      exact Clear.setCall h (Call.clear_of_waited (h _ _ hc) hc')
    · obtain ⟨c', hc', rfl⟩ := Option.map_eq_some_iff.mp hs
      exact Clear.setCall h (Call.clear_of_waited (h _ _ hc) hc')
  | errno => exact h

/-- A wait that the other call's registration refuses would have begun. -/
theorem Alone.refused {t t' : Duplex} (h : Alone handle d s t) {i : Interest (Nev Direction)}
    (hreg : s.epoll.entry handle = some i) (hne : i.data.ptr ≠ d)
    (hs : Step os handle s (.await d none) s') (ht : Step os handle t (.await d none) t') :
    t'.call d ≠ s'.call d := by
  cases hs with
  | @await _ _ c _ hrun hc hs =>
    obtain ⟨hw, hs⟩ := Option.ite_none_right_eq_some.mp hs
    have hadd : ctlAdd s.epoll handle ⟨d, d⟩ none = .error EEXIST := by
      unfold ctlAdd
      rw [OneShot.add_eq_none.mpr (by rw [hreg]; nofun)]
    rw [hadd] at hs
    obtain ⟨c', hc', rfl⟩ := Option.map_eq_some_iff.mp hs
    cases ht with
    | @await _ _ b _ hrun' hb ht =>
      rw [h.call, hc] at hb
      cases hb
      obtain ⟨-, ht⟩ := Option.ite_none_right_eq_some.mp ht
      rw [ctlAdd_free (by rw [h.epoll, hreg]; exact filter_ptr_other hne)] at ht
      cases ht
      intro heq
      rw [setEpoll_call, h.call, hc, setCall_call, Function.update_self] at heq
      cases heq
      rw [Call.not_waiting_of_waited hc'] at hw
      cases hw

/-- A successful `write` that finds something else in `errno` takes another way. -/
theorem Alone.misled {t t' : Duplex} {k : ℕ} (h : Alone handle d s t) (hclear : Clear s)
    (hne : s.errno ≠ s.own d) (hs : Step os handle s (.answer d (.send (.accepted k))) s')
    (ht : Step os handle t (.answer d (.send (.accepted k))) t') : t'.call d ≠ s'.call d := by
  cases hs with
  | @answer _ _ c _ hrun hc hs =>
    obtain ⟨c', hc', rfl⟩ := Option.map_eq_some_iff.mp hs
    cases ht with
    | @answer _ _ b _ hrun' hb ht =>
      rw [h.call, hc] at hb
      cases hb
      obtain ⟨b', hb', rfl⟩ := Option.map_eq_some_iff.mp ht
      intro heq
      rw [setCall_call, Function.update_self, setCall_call, Function.update_self] at heq
      cases heq
      rw [h.errno] at hb'
      exact hne (Call.answer_inj (hclear d c hc) hc' hb')

/-- **The condition is exact for `Independent`**, which asks that a call does what it does alone
    and not only that it reports no other error: the first step of a run that breaks it makes one
    call do something else than it would do alone. -/
theorem dependent_of_not_apart {errno : ℕ} {ls : List Label} {l : Label}
    (hr : (machine handle).RunsBy (Apart handle) (init errno) ls s)
    (hs : (machine handle).step s l = some s') (hq : ¬ Apart handle s l) :
    ∃ d, ¬ Independent handle errno (ls ++ [l]) s' d := by
  have hclear : Clear s := hr.reachesBy.preserves
    (fun h _ hs => h.step (step_iff.mp hs)) fun _ _ hc => by cases hc
  have hview : ∀ d, l.seen d = true → Independent handle errno (ls ++ [l]) s' d →
      ∃ t t', Alone handle d s t ∧ Step .linux handle t l t' ∧ t'.call d = s'.call d := by
    intro d hseen hind
    obtain ⟨t, ht, -, ha⟩ := hr.project (N := machine handle)
      (R := fun s t => Inv handle s ∧ Alone handle d s t) (f := Option.guard (Label.seen d))
      Alone.step ⟨inv_init, alone_init⟩
    rw [List.filterMap_eq_filter] at ht
    obtain ⟨t', ht', hc⟩ := hind.alone
    rw [List.filter_append, Machine.exec_append, ht] at ht'
    have hone : [l].filter (Label.seen d) = [l] := by simp [hseen]
    rw [hone] at ht'
    obtain ⟨u, hu, hnil⟩ := Machine.exec_cons_some.mp ht'
    cases hnil
    exact ⟨t, t', ha, step_iff.mp hu, hc⟩
  unfold Apart at hq
  split at hq
  case h_1 d =>
    push Not at hq
    obtain ⟨i, hreg, hne⟩ := hq
    refine ⟨d, fun hind => ?_⟩
    obtain ⟨t, t', ha, ht, hc⟩ := hview d (decide_eq_true rfl) hind
    exact ha.refused hreg hne (step_iff.mp hs) ht hc
  case h_2 d k =>
    refine ⟨d, fun hind => ?_⟩
    obtain ⟨t, t', ha, ht, hc⟩ := hview d (decide_eq_true rfl) hind
    exact ha.misled hclear hq (step_iff.mp hs) ht hc
  case h_3 => exact absurd trivial hq

end Duplex

end Tcp
end Net
end Ice
