import Ice.Net.Event
import Mathlib.Data.List.ReduceOption
import Mathlib.Data.List.Nodup

/-!
# Waits on different sockets

What one `service::run` owes to the waits of many sockets: a wait that was registered stays
registered until it is reported or its own descriptor is closed, and its coroutine is resumed
at most once.

* **the second half holds of every run** (`resumed_once`): a registration that can be
  reported belongs to a wait that is still suspended, and reporting disarms it;
* **the first half fails** (`registration_lost`): `event::resume` unregisters by number, and a
  coroutine resumed earlier in the same batch may have closed that number and registered a
  new wait under it;
* **that is all that can go wrong** (`waits_undisturbed`): where no entry is resumed while
  another wait is armed under its number, both halves hold. Each step that breaks the
  condition loses a registration (`lost_of_claimed`).
-/

set_option autoImplicit false

namespace Ice
namespace Net

open Lib

/-! ## 1. The entries of a batch -/

/-- The events that one return of the wait reports. -/
def Wait.events  {E : Type*} : Wait E → List E
  | .ready entries => entries.reduceOption
  | .timeout | .failed _ => []

namespace Service

variable {E N T : Type*}

/-- The events reported to `run` that it has not come to. -/
def Run.pending : Run E N → List E
  | .entries rest _ | .event _ rest _ => rest.reduceOption
  | _ => []

variable {s s' : Service E N T}

/-- What the loop has pending after its wait is what the wait reported. -/
theorem waitStep_pending {os : Os} {size : ℕ} {w : Wait E}
    (hs : s.waitStep os size w = some s') : s'.run.pending = w.events := by
  cases w with
  | ready entries =>
    rw [waitStep] at hs
    obtain ⟨-, hs⟩ := Option.ite_none_right_eq_some.mp hs
    cases hs
    rfl
  | timeout =>
    rw [waitStep] at hs
    obtain ⟨-, hs⟩ := Option.ite_none_right_eq_some.mp hs
    cases hs
    rfl
  | failed errno =>
    rw [waitStep] at hs
    split_ifs at hs
    · cases hs
      rfl
    · cases hs
      rfl

/-- A step of the runner outside the wait takes the next event from the batch, if there is
    one, and otherwise leaves what is pending as it is. -/
theorem runStep_pending (hs : s.runStep = some s') :
    s.run.pending = s.next.toList ++ s'.run.pending := by
  unfold runStep at hs
  unfold next
  cases hrun : s.run with
  | entries rest interrupted =>
    rw [hrun] at hs
    rcases rest with _ | ⟨_ | ev, rest⟩ <;> cases hs
    · cases interrupted <;> rfl
    · rfl
    · rfl
  | test count =>
    rw [hrun] at hs
    cases hs
    cases s.box.stop <;> rfl
  | drain batch =>
    rw [hrun] at hs
    cases batch <;> cases hs <;> rfl
  | wait | returned ec =>
    rw [hrun] at hs
    cases hs
  | enter | event ev rest interrupted | process | resume batch =>
    rw [hrun] at hs
    cases hs
    rfl

variable [DecidableEq T]

/-- The wait returns to a runner that stands in it. -/
theorem step_wait {os : Os} {size : ℕ} {w : Wait E} (hs : s.step os size (.wait w) = some s') :
    s.run = .wait ∧ s.waitStep os size w = some s' := by
  cases hrun : s.run with
  | wait =>
    rw [step, hrun] at hs
    exact ⟨rfl, hs⟩
  | _ =>
    rw [step, hrun] at hs
    cases hs

/-- Only the runner and a report change what is pending. -/
theorem step_pending {os : Os} {size : ℕ} {l : Label E N T} (hrun : l ≠ .run)
    (hs : s.step os size l = some s') :
    s'.run.pending = match l with
      | .wait w => w.events
      | _ => s.run.pending := by
  cases l with
  | run => exact absurd rfl hrun
  | post | stop =>
    obtain ⟨box, -, rfl⟩ := Option.map_eq_some_iff.mp hs
    rfl
  | call t =>
    rcases callStep_cases hs with ⟨n, -, rfl⟩ | ⟨number, -, rfl⟩ | ⟨stop, -, rfl⟩ | ⟨-, rfl⟩ <;> rfl
  | wait w => exact waitStep_pending (step_wait hs).2

end Service

/-! ## 2. Who is registered under a number -/

namespace Sockets

variable {S E N T : Type*}

/-- The wait is registered under its number, with its events, and was not reported yet. -/
def Registered (s : Sockets S E N T) (e : E) : Prop :=
  ∃ n, (s.event e).handle = some n ∧ s.epoll.Armed n ⟨(s.event e).events, e⟩

/-- The descriptor the wait began on was closed since. -/
def Closed (s : Sockets S E N T) (e : E) : Prop :=
  ∃ n k, (s.event e).handle = some n ∧ (s.event e).file = some k ∧ s.file n ≠ some k

/-- What is registered under a number is a wait on the file that the number names, suspended
    until it is reported. The entries of a batch are different waits, each delivered, and a
    coroutine was resumed once if at all. -/
structure Inv (s : Sockets S E N T) (pending : List E) : Prop where
  registered : ∀ n i, s.epoll.entry n = some i →
    (s.event i.data.ptr).handle = some n ∧ (s.event i.data.ptr).events = i.data.events ∧
      (s.event i.data.ptr).stage = if i.armed then .suspended else .delivered
  named : ∀ n i, s.epoll.entry n = some i →
    s.file n ≠ none ∧ (s.event i.data.ptr).file = s.file n
  held : ∀ socket n, s.handle socket = some n → s.file n ≠ none
  single : ∀ socket socket' n, s.handle socket = some n → s.handle socket' = some n →
    socket = socket'
  opened : ∀ n k, s.file n = some k → k < s.opened
  began : ∀ e k, (s.event e).file = some k → k < s.opened
  nodup : pending.Nodup
  delivered : ∀ e ∈ pending, (s.event e).stage = .delivered
  resumes : ∀ e, (s.event e).resumes = if (s.event e).stage = .resumed then 1 else 0

/-- What a wait is owed while it is suspended. -/
def Kept (s : Sockets S E N T) (e : E) : Prop :=
  (s.event e).stage = .suspended → s.Registered e ∨ s.Closed e

theorem inv_init : Inv (init : Sockets S E N T) [] where
  registered _ _ h := by cases h
  named _ _ h := by cases h
  held _ _ h := by cases h
  single _ _ _ h := by cases h
  opened _ _ h := by cases h
  began _ _ h := by cases h
  nodup := List.nodup_nil
  delivered _ h := by cases h
  resumes _ := rfl

theorem kept_init (e : E) : Kept (init : Sockets S E N T) e := fun h => by cases h

variable {s s' : Sockets S E N T} {pending : List E}

/-- An armed registration is that of a suspended wait. -/
theorem Inv.suspended (h : Inv s pending) {n : ℕ} {nev : Nev E} (ha : s.epoll.Armed n nev) :
    (s.event nev.ptr).handle = some n ∧ (s.event nev.ptr).stage = .suspended :=
  have hr := h.registered n ⟨nev, true⟩ ha
  ⟨hr.1, hr.2.2⟩

/-! ## 3. Opening and closing -/

section Descriptors

variable [DecidableEq S] {socket : S} {n : ℕ} {e : E}

theorem Inv.closed (h : Inv s pending) (hn : s.handle socket = some n) :
    Inv ((s.closeHandle n).setHandle socket none) pending where
  registered m i hi := h.registered m i (OneShot.entry_erase_eq_some.mp hi).2
  named m i hi := by
    obtain ⟨hm, hi⟩ := OneShot.entry_erase_eq_some.mp hi
    show Function.update s.file n none m ≠ none ∧ _ = Function.update s.file n none m
    rw [Function.update_of_ne hm]
    exact h.named m i hi
  held t m hm := by
    obtain ⟨-, hm⟩ | ⟨ht, hm⟩ := update_cases hm
    · cases hm
    · have hne : m ≠ n := fun he => ht (h.single t socket m hm (he ▸ hn))
      show Function.update s.file n none m ≠ none
      rw [Function.update_of_ne hne]
      exact h.held t m hm
  single t t' m hm hm' := by
    obtain ⟨-, hm⟩ | ⟨-, hm⟩ := update_cases hm
    · cases hm
    · obtain ⟨-, hm'⟩ | ⟨-, hm'⟩ := update_cases hm'
      · cases hm'
      · exact h.single t t' m hm hm'
  opened m k hk := by
    obtain ⟨-, hk⟩ | ⟨-, hk⟩ := update_cases hk
    · cases hk
    · exact h.opened m k hk
  began := h.began
  nodup := h.nodup
  delivered := h.delivered
  resumes := h.resumes

/-- Closing a number takes away the registration under it, and closes the descriptor of
    exactly the waits that began on its file. -/
theorem Kept.closed (hk : Kept s e) (h : Inv s pending) :
    Kept ((s.closeHandle n).setHandle socket none) e := by
  intro hst
  rcases hk hst with ⟨m, hm, ha⟩ | ⟨m, k, hm, hf, hne⟩
  · by_cases hmn : m = n
    · subst hmn
      obtain ⟨hopen, hname⟩ := h.named m _ ha
      obtain ⟨k, hk⟩ := Option.ne_none_iff_exists'.mp hopen
      refine Or.inr ⟨m, k, hm, hname.trans hk, ?_⟩
      show Function.update s.file m none m ≠ some k
      rw [Function.update_self]
      exact (Option.some_ne_none k).symm
    · exact Or.inl ⟨m, hm, (OneShot.entry_erase_of_ne hmn).trans ha⟩
  · refine Or.inr ⟨m, k, hm, hf, fun hk => ?_⟩
    obtain ⟨-, hk⟩ | ⟨-, hk⟩ := update_cases hk
    · cases hk
    · exact hne hk

theorem Inv.close (h : Inv s pending) : Inv (s.close socket) pending := by
  unfold Sockets.close
  split
  case h_1 n hn => exact h.closed hn
  case h_2 => exact h

theorem Kept.close (hk : Kept s e) (h : Inv s pending) : Kept (s.close socket) e := by
  unfold Sockets.close
  split
  · exact hk.closed h
  · exact hk

omit [DecidableEq S] in
theorem Inv.openHandle (h : Inv s pending) (hn : s.file n = none) :
    Inv (s.openHandle n) pending where
  registered := h.registered
  named m i hi := by
    obtain ⟨hopen, hname⟩ := h.named m i hi
    have hne : m ≠ n := fun he => hopen (he ▸ hn)
    show Function.update s.file n _ m ≠ none ∧ _ = Function.update s.file n _ m
    rw [Function.update_of_ne hne]
    exact ⟨hopen, hname⟩
  held t m hm := by
    have hne : m ≠ n := fun he => h.held t m hm (he ▸ hn)
    show Function.update s.file n _ m ≠ none
    rw [Function.update_of_ne hne]
    exact h.held t m hm
  single := h.single
  opened m k hk := by
    obtain ⟨-, hk⟩ | ⟨-, hk⟩ := update_cases hk
    · cases hk
      exact Nat.lt_succ_self _
    · exact Nat.lt_succ_of_lt (h.opened m k hk)
  began d k hk := Nat.lt_succ_of_lt (h.began d k hk)
  nodup := h.nodup
  delivered := h.delivered
  resumes := h.resumes

omit [DecidableEq S] in
/-- A new file under an old number is not the file an earlier wait began on. -/
theorem Kept.openHandle (hk : Kept s e) (h : Inv s pending) : Kept (s.openHandle n) e := by
  intro hst
  rcases hk hst with hreg | ⟨m, k, hm, hf, hne⟩
  · exact Or.inl hreg
  · refine Or.inr ⟨m, k, hm, hf, fun hk => ?_⟩
    obtain ⟨-, hk⟩ | ⟨-, hk⟩ := update_cases hk
    · cases hk
      exact Nat.lt_irrefl _ (h.began e _ hf)
    · exact hne hk

theorem Inv.setHandle (h : Inv s pending) (hopen : s.file n ≠ none)
    (hfree : ∀ t, s.handle t ≠ some n) : Inv (s.setHandle socket (some n)) pending where
  registered := h.registered
  named := h.named
  held t m hm := by
    obtain ⟨-, hm⟩ | ⟨-, hm⟩ := update_cases hm
    · cases hm
      exact hopen
    · exact h.held t m hm
  single t t' m hm hm' := by
    obtain ⟨ht, hm⟩ | ⟨-, hm⟩ := update_cases hm
    · cases hm
      obtain ⟨ht', -⟩ | ⟨-, hm'⟩ := update_cases hm'
      · exact ht.trans ht'.symm
      · exact absurd hm' (hfree t')
    · obtain ⟨-, hm'⟩ | ⟨-, hm'⟩ := update_cases hm'
      · cases hm'
        exact absurd hm (hfree t)
      · exact h.single t t' m hm hm'
  opened := h.opened
  began := h.began
  nodup := h.nodup
  delivered := h.delivered
  resumes := h.resumes

/-- Closing a socket frees no number but its own, and gives no socket a number. -/
theorem close_cases (s : Sockets S E N T) (socket : S) :
    (∀ m, s.file m ≠ none → s.handle socket ≠ some m → (s.close socket).file m ≠ none) ∧
      ∀ t m, (s.close socket).handle t = some m → s.handle t = some m := by
  unfold Sockets.close
  split
  case h_1 n hn =>
    refine ⟨fun m hm hne => ?_, fun t m hm => ?_⟩
    · have hmn : m ≠ n := fun he => hne (he ▸ hn)
      show Function.update s.file n none m ≠ none
      rw [Function.update_of_ne hmn]
      exact hm
    · obtain ⟨-, hm⟩ | ⟨-, hm⟩ := update_cases hm
      · cases hm
      · exact hm
  case h_2 => exact ⟨fun m hm _ => hm, fun t m hm => hm⟩

theorem Inv.create (h : Inv s pending) (hs : s.create socket n = some s') : Inv s' pending := by
  obtain ⟨hn, rfl⟩ := Option.ite_some_none_eq_some.mp hs
  have hfree : ∀ t, s.handle t ≠ some n := fun t ht => h.held t n ht hn
  have hopened := h.openHandle hn
  obtain ⟨hfile, hhandle⟩ := close_cases (s.openHandle n) socket
  refine hopened.close.setHandle (hfile n ?_ (hfree socket)) fun t ht => hfree t (hhandle t n ht)
  rw [openHandle_file, Function.update_self]
  exact Option.some_ne_none s.opened

theorem Kept.create (hk : Kept s e) (h : Inv s pending) (hs : s.create socket n = some s') :
    Kept s' e := by
  obtain ⟨hn, rfl⟩ := Option.ite_some_none_eq_some.mp hs
  exact (hk.openHandle h).close (h.openHandle hn)

end Descriptors

/-! ## 4. Waiting, reporting and resuming -/

section Events

variable [DecidableEq E] {ev e : E} {n : ℕ}

/-- Rewriting a wait that is neither registered nor in the batch. -/
theorem Inv.setEvent {d : Event} (h : Inv s pending)
    (hreg : ∀ n i, s.epoll.entry n = some i → i.data.ptr ≠ ev) (hev : ev ∉ pending)
    (hfile : ∀ k, d.file = some k → k < s.opened)
    (hres : d.resumes = if d.stage = .resumed then 1 else 0) :
    Inv (s.setEvent ev d) pending where
  registered m i hi := by
    rw [setEvent_event, Function.update_of_ne (hreg m i hi)]
    exact h.registered m i hi
  named m i hi := by
    rw [setEvent_event, Function.update_of_ne (hreg m i hi)]
    exact h.named m i hi
  held := h.held
  single := h.single
  opened := h.opened
  began c k hk := by
    by_cases hc : c = ev
    · subst hc
      rw [setEvent_event, Function.update_self] at hk
      exact hfile k hk
    · rw [setEvent_event, Function.update_of_ne hc] at hk
      exact h.began c k hk
  nodup := h.nodup
  delivered c hc := by
    have hne : c ≠ ev := fun he => hev (he ▸ hc)
    rw [setEvent_event, Function.update_of_ne hne]
    exact h.delivered c hc
  resumes :=
    (Function.forall_update_iff s.event fun _ d =>
        d.resumes = if d.stage = .resumed then 1 else 0).mpr ⟨hres, fun c _ => h.resumes c⟩

omit [DecidableEq E] in
/-- What a suspended wait is owed does not depend on the other waits. -/
theorem Kept.congr (hk : Kept s e) (hevent : s'.event e = s.event e) (hepoll : s'.epoll = s.epoll)
    (hfile : s'.file = s.file) : Kept s' e := by
  unfold Kept Registered Closed
  rw [hevent, hepoll, hfile]
  exact hk

theorem Kept.setEvent {d : Event} (hk : e ≠ ev → Kept s e) (hd : d.stage ≠ .suspended) :
    Kept (s.setEvent ev d) e := by
  intro hst
  by_cases he : e = ev
  · subst he
    rw [setEvent_event, Function.update_self] at hst
    exact absurd hst hd
  · exact (hk he).congr (Function.update_of_ne he ..) rfl rfl hst

omit [DecidableEq E] in
/-- A wait that is registered is suspended or delivered. -/
theorem Inv.unregistered (h : Inv s pending) (hsus : (s.event ev).stage ≠ .suspended)
    (hdel : (s.event ev).stage ≠ .delivered) :
    (∀ n i, s.epoll.entry n = some i → i.data.ptr ≠ ev) ∧ ev ∉ pending := by
  refine ⟨fun n i hi he => ?_, fun hev => hdel (h.delivered ev hev)⟩
  have hst := (h.registered n i hi).2.2
  rw [he] at hst
  cases hi : i.armed with
  | true => exact hsus (by rw [hst, hi]; rfl)
  | false => exact hdel (by rw [hst, hi]; rfl)

omit [DecidableEq E] in
/-- A suspended wait is put under its number. -/
theorem Inv.register {events : Direction} (h : Inv s pending)
    (hn : (s.event ev).handle = some n) (hevents : (s.event ev).events = events)
    (hst : (s.event ev).stage = .suspended) (hopen : s.file n ≠ none)
    (hname : (s.event ev).file = s.file n) {q : Epoll E}
    (hq : s.epoll.add n ⟨events, ev⟩ = some q) : Inv (s.setEpoll q) pending := by
  obtain ⟨-, rfl⟩ := OneShot.add_eq_some.mp hq
  refine ⟨fun m i hi => ?_, fun m i hi => ?_, h.held, h.single, h.opened, h.began, h.nodup,
    h.delivered, h.resumes⟩
  · obtain ⟨hm, hi⟩ | ⟨-, hi⟩ := update_cases hi
    · cases hi
      rw [hm]
      exact ⟨hn, hevents, hst⟩
    · exact h.registered m i hi
  · obtain ⟨hm, hi⟩ | ⟨-, hi⟩ := update_cases hi
    · cases hi
      rw [hm]
      exact ⟨hopen, hname⟩
    · exact h.named m i hi

omit [DecidableEq E] in
/-- A registration at a free number takes nothing from the others. -/
theorem Kept.register {q : Epoll E} {nev : Nev E} (hk : Kept s e)
    (hq : s.epoll.add n nev = some q) : Kept (s.setEpoll q) e := by
  obtain ⟨hfree, rfl⟩ := OneShot.add_eq_some.mp hq
  intro hst
  rcases hk hst with ⟨m, hm, ha⟩ | hc
  · have hmn : m ≠ n := fun he => by rw [OneShot.Armed, he, hfree] at ha; cases ha
    exact Or.inl ⟨m, hm, (Function.update_of_ne hmn ..).trans ha⟩
  · exact Or.inr hc

theorem Inv.await (h : Inv s pending) (hst : (s.event ev).stage = .fresh) {socket : S}
    {events : Direction} {failure : Option Errno} :
    Inv (s.await_suspend ev socket events failure) pending := by
  have hsus : (s.event ev).stage ≠ .suspended := by
    rw [hst]
    nofun
  have hdel : (s.event ev).stage ≠ .delivered := by
    rw [hst]
    nofun
  obtain ⟨hreg, hev⟩ := h.unregistered hsus hdel
  unfold await_suspend
  split
  case h_1 => exact h.setEvent hreg hev (fun k hk => by cases hk) rfl
  case h_2 n hn =>
    split
    case h_1 => exact h.setEvent hreg hev (h.opened n) rfl
    case h_2 q hq =>
      have hq := ctlAdd_ok hq
      have hset : Inv (s.setEvent ev ⟨some n, events, .clear, .suspended, s.file n, 0⟩) pending :=
        h.setEvent hreg hev (h.opened n) rfl
      refine hset.register ?_ ?_ ?_ (h.held socket n hn) ?_ hq <;>
        simp

theorem Kept.await (hk : Kept s e) (hst : (s.event ev).stage = .fresh) {socket : S}
    {events : Direction} {failure : Option Errno} :
    Kept (s.await_suspend ev socket events failure) e := by
  unfold await_suspend
  split
  case h_1 => exact Kept.setEvent (fun _ => hk) nofun
  case h_2 n hn =>
    split
    case h_1 => exact Kept.setEvent (fun _ => hk) nofun
    case h_2 q hq =>
      have hq := ctlAdd_ok hq
      by_cases he : e = ev
      · subst he
        refine fun _ => Or.inl ⟨n, ?_⟩
        obtain ⟨-, rfl⟩ := OneShot.add_eq_some.mp hq
        simp [OneShot.Armed]
      · exact (hk.register hq).congr (Function.update_of_ne he ..) rfl rfl

/-- A report finds the armed registration of a suspended wait, which joins the batch. -/
theorem Inv.deliver {nev : Nev E} {q : Epoll E} (h : Inv s pending)
    (hq : s.epoll.report n = some (nev, q)) :
    Inv ((s.setEpoll q).setEvent nev.ptr (s.event nev.ptr).deliver) (pending ++ [nev.ptr]) := by
  obtain ⟨ha, rfl⟩ := OneShot.report_eq_some.mp hq
  obtain ⟨hn, hst⟩ := h.suspended ha
  generalize hb : (s.setEpoll _).setEvent nev.ptr (s.event nev.ptr).deliver = b
  have hself : b.event nev.ptr = (s.event nev.ptr).deliver := hb ▸ Function.update_self ..
  have hother : ∀ c, c ≠ nev.ptr → b.event c = s.event c :=
    fun c hc => hb ▸ Function.update_of_ne hc ..
  -- What is registered under another number is another wait.
  have hptr : ∀ m i, m ≠ n → s.epoll.entry m = some i → i.data.ptr ≠ nev.ptr :=
    fun m i hm hi he => hm (Option.some.inj ((h.registered m i hi).1.symm.trans (he ▸ hn)))
  refine ⟨fun m i hi => ?_, fun m i hi => ?_, hb ▸ h.held, hb ▸ h.single, hb ▸ h.opened,
    fun c k hk => ?_, ?_, fun c hc => ?_, fun c => ?_⟩
  · rw [← hb] at hi
    obtain ⟨hm, hi⟩ | ⟨hm, hi⟩ := update_cases hi
    · cases hi
      rw [hself, hm]
      exact ⟨hn, (h.registered n _ ha).2.1, rfl⟩
    · rw [hother _ (hptr m i hm hi)]
      exact h.registered m i hi
  · have hfile : b.file = s.file := hb ▸ rfl
    rw [← hb] at hi
    rw [hfile]
    obtain ⟨hm, hi⟩ | ⟨hm, hi⟩ := update_cases hi
    · cases hi
      rw [hself, hm]
      exact h.named n _ ha
    · rw [hother _ (hptr m i hm hi)]
      exact h.named m i hi
  · have hopened : b.opened = s.opened := hb ▸ rfl
    rw [hopened]
    by_cases hc : c = nev.ptr
    · rw [hc, hself] at hk
      exact h.began nev.ptr k hk
    · rw [hother c hc] at hk
      exact h.began c k hk
  · refine h.nodup.append (List.nodup_singleton _) ?_
    intro c hc hc'
    have hdel := h.delivered c hc
    rw [List.mem_singleton.mp hc', hst] at hdel
    cases hdel
  · by_cases hne : c = nev.ptr
    · rw [hne, hself]
      rfl
    · rw [hother c hne]
      rcases List.mem_append.mp hc with hc | hc
      · exact h.delivered c hc
      · exact absurd (List.mem_singleton.mp hc) hne
  · by_cases hc : c = nev.ptr
    · rw [hc, hself, Event.deliver_resumes, h.resumes, hst]
      rfl
    · rw [hother c hc]
      exact h.resumes c

/-- A report disarms the registration of the wait it is about, and no other. -/
theorem Kept.deliver {nev : Nev E} {q : Epoll E} (hk : Kept s e)
    (hq : s.epoll.report n = some (nev, q)) :
    Kept ((s.setEpoll q).setEvent nev.ptr (s.event nev.ptr).deliver) e := by
  obtain ⟨ha, rfl⟩ := OneShot.report_eq_some.mp hq
  refine Kept.setEvent (fun hd hs => ?_) nofun
  rcases hk hs with ⟨m, hm, hreg⟩ | hclosed
  · have hmn : m ≠ n := fun he => hd (by
      rw [he] at hreg
      exact congrArg (fun i => i.data.ptr) (Option.some.inj (hreg.symm.trans ha)))
    exact Or.inl ⟨m, hm, (Function.update_of_ne hmn ..).trans hreg⟩
  · exact Or.inr hclosed

theorem Inv.reportOne (h : Inv s pending) (hs : s.reportOne n = some (e, s')) :
    Inv s' (pending ++ [e]) ∧ s'.service = s.service ∧ ∀ d, Kept s d → Kept s' d := by
  unfold Sockets.reportOne at hs
  split at hs
  case h_2 => cases hs
  case h_1 nev q hq =>
    cases hs
    exact ⟨h.deliver hq, rfl, fun d hk => hk.deliver hq⟩

/-- The batch that one wait reports. -/
theorem Inv.reportAll {handles : List (Option ℕ)} {entries : List (Option E)}
    (h : Inv s pending) (hs : s.reportAll handles = some (entries, s')) :
    Inv s' (pending ++ entries.reduceOption) ∧ s'.service = s.service ∧
      ∀ d, Kept s d → Kept s' d := by
  induction handles generalizing s pending entries with
  | nil =>
    cases hs
    exact ⟨(List.append_nil pending).symm ▸ h, rfl, fun d hk => hk⟩
  | cons handle handles ih =>
    cases handle with
    | none =>
      obtain ⟨⟨rest, a⟩, ha, hr⟩ := Option.map_eq_some_iff.mp hs
      cases hr
      have hrest := ih h ha
      exact hrest
    | some n =>
      obtain ⟨⟨e, a⟩, ha, hs⟩ := Option.bind_eq_some_iff.mp hs
      obtain ⟨⟨rest, b⟩, hb, hr⟩ := Option.map_eq_some_iff.mp hs
      cases hr
      obtain ⟨hinv, hservice, hkept⟩ := h.reportOne ha
      obtain ⟨hinv', hservice', hkept'⟩ := ih hinv hb
      rw [List.append_assoc] at hinv'
      exact ⟨hinv', hservice'.trans hservice, fun d hk => hkept' d (hkept d hk)⟩

/-- The next wait of the batch is resumed: it is no longer registered under its number, and
    neither is anything else. -/
theorem Inv.resume (h : Inv s (ev :: pending)) : Inv (s.resume ev) pending := by
  obtain ⟨hev, hnodup⟩ := List.nodup_cons.mp h.nodup
  have hst := h.delivered ev List.mem_cons_self
  have hres : ∀ ec, ((s.event ev).resumeWith ec).resumes = 1 := fun ec => by
    rw [Event.resumeWith_resumes, h.resumes, hst]
    rfl
  have htail : Inv s pending :=
    ⟨h.registered, h.named, h.held, h.single, h.opened, h.began, hnodup,
      fun c hc => h.delivered c (List.mem_cons_of_mem _ hc), h.resumes⟩
  -- A registration of `ev` is under its own number.
  have hown : ∀ m i, s.epoll.entry m = some i → i.data.ptr = ev → (s.event ev).handle = some m :=
    fun m i hi he => he ▸ (h.registered m i hi).1
  unfold Sockets.resume
  split
  case h_1 hn =>
    refine htail.setEvent (fun m i hi he => ?_) hev (h.began ev) (hres _)
    rw [hown m i hi he] at hn
    cases hn
  case h_2 n hn =>
    unfold ctlDel
    cases hreg : s.epoll.entry n with
    | none =>
      refine htail.setEvent (fun m i hi he => ?_) hev (h.began ev) (hres _)
      rw [hown m i hi he] at hn
      cases hn
      rw [hreg] at hi
      cases hi
    | some i =>
      have herased : Inv (s.setEpoll (s.epoll.erase n)) pending :=
        ⟨fun m i hi => h.registered m i (OneShot.entry_erase_eq_some.mp hi).2,
          fun m i hi => h.named m i (OneShot.entry_erase_eq_some.mp hi).2, h.held, h.single,
          h.opened, h.began, hnodup, htail.delivered, h.resumes⟩
      refine herased.setEvent (fun m i hi he => ?_) hev (h.began ev) (hres _)
      obtain ⟨hm, hi⟩ := OneShot.entry_erase_eq_some.mp hi
      rw [hown m i hi he] at hn
      exact hm (Option.some.inj hn)

/-- Resuming a wait takes nothing from the others where none is armed under its number. -/
theorem Kept.resume (hk : Kept s e)
    (hq : ∀ n ∈ (s.event ev).handle, ∀ i ∈ s.epoll.entry n, i.armed = true → i.data.ptr = ev) :
    Kept (s.resume ev) e := by
  unfold Sockets.resume
  split
  case h_1 => exact Kept.setEvent (fun _ => hk) nofun
  case h_2 n hn =>
    unfold ctlDel
    cases hreg : s.epoll.entry n with
    | none => exact Kept.setEvent (fun _ => hk) nofun
    | some i =>
      refine Kept.setEvent (fun he hst => ?_) nofun
      rcases hk hst with ⟨m, hm, ha⟩ | hc
      · have hmn : m ≠ n := fun hmn => he (hq n hn ⟨_, true⟩ (hmn ▸ ha) rfl)
        exact Or.inl ⟨m, hm, (OneShot.entry_erase_of_ne hmn).trans ha⟩
      · exact Or.inr hc

omit [DecidableEq E] in
theorem Inv.setService {service : Service E N T} (h : Inv s pending) :
    Inv (s.setService service) pending :=
  ⟨h.registered, h.named, h.held, h.single, h.opened, h.began, h.nodup, h.delivered, h.resumes⟩

end Events

/-! ## 5. Runs -/

section Runs

variable [DecidableEq S] [DecidableEq E] [DecidableEq T] {size : ℕ} {e : E}

/-- The condition on a step: an event is resumed while no other wait is armed under its
    number. -/
def Unclaimed (s : Sockets S E N T) : Label S E N T → Prop
  | .service .run => ∀ ev ∈ s.service.next, ∀ n ∈ (s.event ev).handle,
      ∀ i ∈ s.epoll.entry n, i.armed = true → i.data.ptr = ev
  | _ => True

instance (s : Sockets S E N T) : (l : Label S E N T) → Decidable (Unclaimed s l)
  | .service .run => inferInstanceAs (Decidable (∀ ev ∈ s.service.next,
      ∀ n ∈ (s.event ev).handle, ∀ i ∈ s.epoll.entry n, i.armed = true → i.data.ptr = ev))
  | .service (.post ..) | .service (.stop ..) | .service (.call _) | .service (.wait _)
  | .create .. | .close _ | .await .. | .report _ => inferInstanceAs (Decidable True)

omit [DecidableEq S] [DecidableEq T] in
theorem resume_service {ev : E} : (s.resume ev).service = s.service := by
  unfold Sockets.resume
  split
  · rfl
  · split <;> rfl

omit [DecidableEq E] [DecidableEq T] in
theorem close_service {socket : S} : (s.close socket).service = s.service := by
  unfold Sockets.close
  split <;> rfl

omit [DecidableEq S] [DecidableEq T] in
theorem await_service {ev : E} {socket : S} {events : Direction} {failure : Option Errno} :
    (s.await_suspend ev socket events failure).service = s.service := by
  unfold await_suspend
  split
  · rfl
  · split <;> rfl

omit [DecidableEq S] [DecidableEq E] in
/-- The service takes a step that leaves the batch at `pending`. -/
theorem Inv.serve {l : Service.Label E N T} (h : Inv s pending) (hs : s.serve size l = some s')
    (hp : ∀ service, s.service.step .linux size l = some service → service.run.pending = pending) :
    Inv s' s'.service.run.pending ∧ ∀ e, Kept s e → Kept s' e := by
  obtain ⟨service, hstep, rfl⟩ := Option.map_eq_some_iff.mp hs
  rw [setService_service, hp service hstep]
  exact ⟨h.setService, fun e hk => hk⟩

/-- **One step.** The batch stays a list of different delivered waits, and every suspended
    wait keeps what it is owed where the step meets the condition. -/
theorem Inv.step {l : Label S E N T} (h : Inv s s.service.run.pending)
    (hs : step size s l = some s') :
    Inv s' s'.service.run.pending ∧ ∀ e, Kept s e → Unclaimed s l → Kept s' e := by
  cases l with
  | create socket n =>
    have hservice : s'.service = s.service := by
      obtain ⟨-, rfl⟩ := Option.ite_some_none_eq_some.mp hs
      exact close_service
    rw [hservice]
    exact ⟨h.create hs, fun e hk _ => hk.create h hs⟩
  | close socket =>
    cases hs
    rw [close_service]
    exact ⟨h.close, fun e hk _ => hk.close h⟩
  | await ev socket events failure =>
    obtain ⟨hst, rfl⟩ := Option.ite_some_none_eq_some.mp hs
    rw [await_service]
    exact ⟨h.await hst, fun e hk _ => hk.await hst⟩
  | report handles =>
    obtain ⟨⟨entries, a⟩, ha, hs⟩ := Option.bind_eq_some_iff.mp hs
    obtain ⟨service, hstep, -⟩ := Option.map_eq_some_iff.mp hs
    obtain ⟨hinv, hservice, hkept⟩ := h.reportAll ha
    -- The runner stood in its wait, with nothing pending.
    have hwait := (Service.step_wait hstep).1
    rw [hservice] at hwait
    rw [hwait] at hinv
    obtain ⟨hinv', hkept'⟩ := hinv.serve hs fun b hb => Service.waitStep_pending
      (Service.step_wait hb).2
    exact ⟨hinv', fun e hk _ => hkept' e (hkept e hk)⟩
  | service l =>
    cases l with
    | post | stop | call =>
      obtain ⟨hinv, hkept⟩ := h.serve hs fun b hb => Service.step_pending (by nofun) hb
      exact ⟨hinv, fun e hk _ => hkept e hk⟩
    | wait w =>
      cases w with
      | ready => cases hs
      | timeout | failed =>
        obtain ⟨hinv, hkept⟩ := h.serve hs fun b hb => by
          rw [Service.step_pending (by nofun) hb, (Service.step_wait hb).1]
          rfl
        exact ⟨hinv, fun e hk _ => hkept e hk⟩
    | run =>
      unfold Sockets.step at hs
      cases hnext : s.service.next with
      | none =>
        rw [hnext] at hs
        obtain ⟨hinv, hkept⟩ := h.serve hs fun b hb => by
          rw [Service.runStep_pending hb, hnext]
          rfl
        exact ⟨hinv, fun e hk _ => hkept e hk⟩
      | some ev =>
        rw [hnext] at hs
        have hpending : ∀ b, s.service.step .linux size .run = some b →
            s.service.run.pending = ev :: b.run.pending := fun b hb => by
          rw [Service.runStep_pending hb, hnext]
          rfl
        obtain ⟨b, hb, -⟩ := Option.map_eq_some_iff.mp hs
        rw [resume_service] at hb
        rw [hpending b hb] at h
        obtain ⟨hinv, hkept⟩ := h.resume.serve hs fun c hc => by
          rw [resume_service, hb] at hc
          rw [Option.some.inj hc]
        exact ⟨hinv, fun e hk hq => hkept e (hk.resume (hq ev hnext))⟩

/-- What a wait is owed in every state. -/
structure Undisturbed (s : Sockets S E N T) (e : E) : Prop where
  kept : Kept s e
  once : (s.event e).resumes ≤ 1

omit [DecidableEq S] [DecidableEq E] [DecidableEq T] in
theorem Inv.once (h : Inv s pending) (e : E) : (s.event e).resumes ≤ 1 := by
  rw [h.resumes]
  split
  · exact Nat.le_refl 1
  · exact Nat.zero_le 1

theorem Inv.of_reaches (hr : (machine size).Reaches (init : Sockets S E N T) s) :
    Inv s s.service.run.pending :=
  hr.preserves (I := fun s => Inv s s.service.run.pending) (fun h _ hs => (h.step hs).1) inv_init

/-- **At most once**, in every run. -/
theorem resumed_once (hr : (machine size).Reaches (init : Sockets S E N T) s) (e : E) :
    (s.event e).resumes ≤ 1 :=
  (Inv.of_reaches hr).once e

/-- **Waits on different sockets do not disturb each other** in a run that resumes no event
    while another wait is armed under its number. -/
theorem waits_undisturbed (hr : (machine size).ReachesBy Unclaimed (init : Sockets S E N T) s) :
    ∀ e, Undisturbed s e := by
  have h : Inv s s.service.run.pending ∧ ∀ e, Kept s e :=
    hr.preserves (I := fun s => Inv s s.service.run.pending ∧ ∀ e, Kept s e)
      (fun ⟨h, hk⟩ hq hs => ⟨(h.step hs).1, fun e => (h.step hs).2 e (hk e) hq⟩)
      ⟨inv_init, kept_init⟩
  exact fun e => ⟨h.2 e, h.1.once e⟩

omit [DecidableEq S] [DecidableEq T] in
/-- Unregistering by number takes whatever is registered there. -/
theorem resume_erases {ev : E} {n : ℕ} {i : Interest (Nev E)} (hn : (s.event ev).handle = some n)
    (hi : s.epoll.entry n = some i) : s.resume ev =
      (s.setEpoll (s.epoll.erase n)).setEvent ev ((s.event ev).resumeWith (s.event ev).ec) := by
  unfold Sockets.resume ctlDel
  rw [hn]
  dsimp only
  rw [hi]

omit [DecidableEq S] [DecidableEq E] [DecidableEq T] in
/-- A suspended wait on an open descriptor that is not registered. -/
theorem not_kept {n k : ℕ} (hst : (s.event e).stage = .suspended)
    (hn : (s.event e).handle = some n) (hk : (s.event e).file = some k) (hopen : s.file n = some k)
    (hfree : s.epoll.entry n = none) : ¬ Kept s e := by
  intro hkept
  rcases hkept hst with ⟨m, hm, ha⟩ | ⟨m, j, hm, hj, hne⟩
  · rw [hn] at hm
    cases hm
    rw [OneShot.Armed, hfree] at ha
    cases ha
  · rw [hn] at hm
    rw [hk] at hj
    cases hm
    cases hj
    exact hne hopen

/-- **The condition is the exact one**: a step that breaks it takes the registration of a
    suspended wait whose descriptor is open. -/
theorem lost_of_claimed (hr : (machine size).Reaches (init : Sockets S E N T) s)
    {l : Label S E N T} (hs : (machine size).step s l = some s') (hq : ¬ Unclaimed s l) :
    ∃ e, s.Registered e ∧ ¬ Kept s' e := by
  have h := Inv.of_reaches hr
  obtain ⟨rfl, ev, hnext, n, hn, i, hi, harmed, hne⟩ : l = .service .run ∧
      ∃ ev, s.service.next = some ev ∧ ∃ n, (s.event ev).handle = some n ∧
        ∃ i, s.epoll.entry n = some i ∧ i.armed = true ∧ i.data.ptr ≠ ev := by
    unfold Unclaimed at hq
    split at hq
    · push Not at hq
      obtain ⟨ev, hnext, n, hn, i, hi, harmed, hne⟩ := hq
      exact ⟨rfl, ev, hnext, n, hn, i, hi, harmed, hne⟩
    · exact absurd trivial hq
  obtain ⟨hnum, hevents, hst⟩ := h.registered n i hi
  obtain ⟨hopen, hname⟩ := h.named n i hi
  obtain ⟨k, hk⟩ := Option.ne_none_iff_exists'.mp hopen
  rw [if_pos harmed] at hst
  refine ⟨i.data.ptr, ⟨n, hnum, ?_⟩, ?_⟩
  · rw [OneShot.Armed, hi, hevents, ← harmed]
  · change Sockets.step size s (.service .run) = some s' at hs
    unfold Sockets.step at hs
    rw [hnext] at hs
    obtain ⟨service, -, rfl⟩ := Option.map_eq_some_iff.mp hs
    rw [resume_erases hn hi]
    have hother : Function.update s.event ev ((s.event ev).resumeWith (s.event ev).ec) i.data.ptr =
      s.event i.data.ptr := Function.update_of_ne hne ..
    refine not_kept (n := n) (k := k) ?_ ?_ ?_ hk OneShot.entry_erase_self
    · exact (congrArg Event.stage hother).trans hst
    · exact (congrArg Event.handle hother).trans hnum
    · exact (congrArg Event.file hother).trans (hname.trans hk)

/-- The hypothesis is met by a run in which a coroutine closes its socket, opens another
    under the same number and waits on it, while the batch still holds a second event. -/
theorem waits_undisturbed_reopened :
    let schedule : List (Label (Fin 3) (Fin 3) Unit Unit) :=
      [.create 0 5, .create 1 6, .await 0 0 .recv none, .await 1 1 .send none, .service .run,
        .report [some 5, none, some 6], .service .run, .close 0, .create 2 5,
        .await 2 2 .recv none, .service .run, .service .run, .service .run]
    ∃ s, (machine 4).execBy Unclaimed init schedule = some s ∧
      (s.event 1).stage = .resumed ∧ (s.event 2).stage = .suspended ∧ Undisturbed s 2 := by
  intro schedule
  have hrun : (machine 4).execBy Unclaimed init schedule = some _ := rfl
  exact ⟨_, hrun, rfl, rfl, waits_undisturbed (Machine.reachesBy_of_execBy schedule hrun) 2⟩

/-- The first coroutine of a batch closes the socket of the second and opens another, which
    gets its number; the new wait is registered, and the second event unregisters it. -/
theorem registration_lost :
    ∃ s : Sockets (Fin 3) (Fin 3) Unit Unit, (machine 4).Reaches init s ∧ ¬ Undisturbed s 2 := by
  refine ⟨_, Machine.reaches_of_exec
    [.create 0 5, .create 1 6, .await 0 0 .recv none, .await 1 1 .recv none, .service .run,
      .report [some 5, some 6], .service .run, .close 1, .create 2 6, .await 2 2 .recv none,
      .service .run, .service .run] rfl, fun h => ?_⟩
  exact not_kept (n := 6) (k := 2) rfl rfl rfl rfl rfl h.kept

end Runs

end Sockets
end Net
end Ice
