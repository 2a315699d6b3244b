import Ice.Async
import Ice.Net.Tcp.Socket
import Mathlib.Tactic.Common

/-!
# What `tcp::socket::send` accounts for

The loop tests `errno` also after a `write` that succeeded. Behind a `write` that failed this does
no harm: the loop goes on only after `EINTR` or `EAGAIN`, and those are values on which it goes on
after a success too. But the first `write` finds what `errno` happened to hold, and so does each
`write` behind a wait, which other code has run meanwhile. There a run goes wrong
(`Ended.stale`), or nowhere.

A second slip needs no stale value other than `EAGAIN`: after the `write` that accepts the
last bytes the loop waits for writability once more, and an error of that wait is reported
for a buffer that was sent.

`send_accounts_iff` says for every run which of the two happened.
-/

set_option autoImplicit false

namespace Ice
namespace Net
namespace Tcp

open Lib

namespace Outcome

/-- A `write` that failed for good, or a wait that failed. -/
def Fails (os : Os) : Outcome → Prop
  | .failed errno => errno ≠ EINTR ∧ errno ≠ EAGAIN os
  | .waited ec _ => ec.isSet = true
  | .accepted _ | .zero => False

/-- How many bytes the kernel accepted. -/
def total : List Outcome → ℕ
  | [] => 0
  | .accepted k :: rest => k + total rest
  | _ :: rest => total rest

/-- What is in `errno` after the outcome. -/
def errno (before : ℕ) : Outcome → ℕ
  | .failed errno => errno.value
  | .waited _ errno => errno
  | .accepted _ | .zero => before

end Outcome

namespace Send

/-- What `send` is to account for, having returned after these outcomes. -/
structure Accounts (os : Os) (buffer : List UInt8) (outcomes : List Outcome) (s : Send) :
    Prop where
  sent : s.accepted <+: buffer
  count : s.count = s.accepted.length
  short : s.count < buffer.length → .zero ∈ outcomes ∨ ∃ o ∈ outcomes, o.Fails os
  ec : s.ec.isSet = true ↔ ∃ o ∈ outcomes, o.Fails os
  -- What `ice::send` reports over this socket.
  reported : buffer ≠ [] →
    ((Ice.send buffer.length s.count s.ec).isSet = false ↔ s.accepted = buffer)

/-- Values of `errno` on which the loop goes on. -/
def Calm (os : Os) (errno : ℕ) : Prop := errno = EINTR.value ∨ errno = (EAGAIN os).value

/-- What is in `errno` after these outcomes, having entered with `errno`. -/
def found (errno : ℕ) (past : List Outcome) : ℕ := past.foldl Outcome.errno errno

/-- `P` of each `write` that accepted something: of the outcomes before it and of how much. -/
def EachAccepted (P : List Outcome → ℕ → Prop) (outcomes : List Outcome) : Prop :=
  ∀ past k rest, outcomes = past ++ .accepted k :: rest → P past k

/-- The condition on `errno`: a `write` that succeeds finds a value on which the loop goes on, or
    none at all when it accepts the last bytes. -/
def ErrnoFresh (os : Os) (size errno : ℕ) (outcomes : List Outcome) : Prop :=
  EachAccepted (fun past k =>
    Calm os (found errno past) ∨ found errno past = 0 ∧ Outcome.total past + k = size) outcomes

/-- The condition on the waits: the kernel does not accept all bytes and then fail the last
    wait. -/
def LastWaitCounts (size : ℕ) (outcomes : List Outcome) : Prop :=
  Outcome.total outcomes = size →
    ∀ ec errno, outcomes.getLast? = some (.waited ec errno) → ec.isSet = false

/-! ## 1. The invariant -/

/-- No outcome was a failure, and no `write` succeeded on a stale `errno`. -/
structure Quiet (os : Os) (errno : ℕ) (past : List Outcome) : Prop where
  fails : ∀ o ∈ past, ¬ o.Fails os
  calm : EachAccepted (fun before _ => Calm os (found errno before)) past

/-- How a run returns. -/
inductive Ended (os : Os) (size errno : ℕ) : List Outcome → Send → Prop
  -- A `write` succeeded on a stale `errno`, which is taken for its own.
  | stale {past : List Outcome} {k : ℕ} {s : Send} (hquiet : Quiet os errno past)
      (hzero : .zero ∉ past) (hcalm : ¬ Calm os (found errno past))
      (hec : s.ec = make_error_code (found errno past)) :
      Ended os size errno (past ++ [.accepted k]) s
  | done {past : List Outcome} {s : Send} (hquiet : Quiet os errno past) (hec : s.ec = .clear)
      (hsize : s.size = 0 ∨ .zero ∈ past) : Ended os size errno past s
  | write {past : List Outcome} {e : Errno} {s : Send} (hquiet : Quiet os errno past)
      (hfails : (Outcome.failed e).Fails os) (hec : s.ec = make_error_code e.value)
      (hsize : size ≠ 0 → s.size ≠ 0) : Ended os size errno (past ++ [.failed e]) s
  | wait {past : List Outcome} {ec : ErrorCode} {e : ℕ} {s : Send} (hquiet : Quiet os errno past)
      (hset : ec.isSet = true) (hec : s.ec = ec) : Ended os size errno (past ++ [.waited ec e]) s

/-- The loop's own accounts: they hold at every outcome, whatever `errno` is. -/
structure Books (buffer : List UInt8) (errno : ℕ) (past : List Outcome) (s : Send) : Prop where
  split : s.accepted ++ s.data = buffer
  size : s.size = s.data.length
  data_size : s.data_size = buffer.length
  total : Outcome.total past = s.accepted.length
  errno : s.errno = found errno past

/-- Where the loop stands after these outcomes. -/
structure SendInv (os : Os) (buffer : List UInt8) (errno : ℕ) (past : List Outcome) (s : Send) :
    Prop where
  books : Books buffer errno past s
  run : match s.at_ with
    | .write => s.ec = .clear ∧ Quiet os errno past ∧ .zero ∉ past ∧ (past = [] ∨ s.size ≠ 0)
    | .wait => s.ec = .clear ∧ Quiet os errno past ∧ .zero ∉ past
    | .returned => Ended os buffer.length errno past s

variable {os : Os} {buffer : List UInt8} {errno : ℕ} {past : List Outcome} {o : Outcome}
  {s s' : Send} {P Q : List Outcome → ℕ → Prop}

theorem eachAccepted_nil : EachAccepted P [] := by
  intro past k rest heq
  simp at heq

/-- The last outcome, if it is one. -/
theorem eachAccepted_concat : EachAccepted P (past ++ [o]) ↔
    EachAccepted P past ∧ ∀ k, o = .accepted k → P past k := by
  constructor
  · intro h
    refine ⟨fun before k rest heq => h before k (rest ++ [o]) ?_, fun k ho => h past k [] ?_⟩
    · rw [heq, List.append_assoc, List.cons_append]
    · rw [ho]
  · intro h before k rest heq
    rcases List.eq_nil_or_concat rest with rfl | ⟨rest, last, rfl⟩
    · obtain ⟨rfl, ho⟩ := List.append_inj' heq rfl
      exact h.2 k (List.cons.inj ho).1
    · rw [List.concat_eq_append, ← List.cons_append, ← List.append_assoc] at heq
      exact h.1 before k rest (List.append_inj' heq rfl).1

theorem EachAccepted.mono (h : EachAccepted P past) (hpq : ∀ before k, P before k → Q before k) :
    EachAccepted Q past :=
  fun before k rest heq => hpq before k (h before k rest heq)

theorem found_concat : found errno (past ++ [o]) = o.errno (found errno past) := by
  simp [found]

theorem sendInv_init : SendInv os buffer errno [] (init buffer errno) where
  books := ⟨rfl, rfl, rfl, rfl, rfl⟩
  run := ⟨rfl, ⟨by simp, eachAccepted_nil⟩, by simp, Or.inl rfl⟩

theorem Outcome.total_append (past : List Outcome) (o : Outcome) :
    Outcome.total (past ++ [o]) = Outcome.total past + Outcome.total [o] := by
  induction past with
  | nil => simp [Outcome.total]
  | cons p past ih => cases p <;> simp [Outcome.total, ih, Nat.add_assoc]

/-- The loop moves. -/
theorem Books.goto (h : Books buffer errno past s) (ec : ErrorCode) (at_ : At) :
    Books buffer errno past { s with ec := ec, at_ := at_ } :=
  ⟨h.split, h.size, h.data_size, h.total, h.errno⟩

theorem Books.accept {k : ℕ} (h : Books buffer errno past s) (hle : k ≤ s.size) :
    Books buffer errno (past ++ [.accepted k]) (s.accept k) := by
  refine ⟨?_, ?_, h.data_size, ?_, ?_⟩
  · simp only [Send.accept]
    rw [List.append_assoc, List.take_append_drop, h.split]
  · simp [Send.accept, h.size]
  · have hlen : k ≤ s.data.length := h.size ▸ hle
    simp [Outcome.total_append, Outcome.total, Send.accept, h.total, hlen]
  · rw [found_concat]
    exact h.errno

/-- The bytes are those of before. -/
theorem Books.leave {e : ℕ} (h : Books buffer errno past s) (ho : Outcome.total [o] = 0)
    (he : o.errno (found errno past) = e) :
    Books buffer errno (past ++ [o]) { s with errno := e } := by
  refine ⟨h.split, h.size, h.data_size, ?_, ?_⟩
  · rw [Outcome.total_append, ho, Nat.add_zero, h.total]
  · rw [found_concat, he]

theorem Quiet.append (h : Quiet os errno past) (ho : ¬ o.Fails os)
    (hcalm : ∀ k, o = .accepted k → Calm os (found errno past)) :
    Quiet os errno (past ++ [o]) := by
  refine ⟨?_, eachAccepted_concat.mpr ⟨h.calm, hcalm⟩⟩
  intro p hp
  rcases List.mem_append.mp hp with hp | hp
  · exact h.fails p hp
  · rw [List.mem_singleton.mp hp]
    exact ho

theorem Quiet.fresh (h : Quiet os errno past) (size : ℕ) : ErrnoFresh os size errno past :=
  h.calm.mono fun _ _ => Or.inl

/-! ## 2. One outcome -/

/-- The end of the loop's body. -/
theorem SendInv.while_ (hbooks : Books buffer errno past s) (hec : s.ec = .clear)
    (hquiet : Quiet os errno past) (hzero : .zero ∉ past) :
    SendInv os buffer errno past s.while_ := by
  refine ⟨hbooks.goto _ _, ?_⟩
  unfold Send.while_
  by_cases hsize : 0 < s.size
  · rw [if_pos hsize]
    exact ⟨hec, hquiet, hzero, Or.inr (Nat.ne_of_gt hsize)⟩
  · rw [if_neg hsize]
    exact Ended.done hquiet hec (Or.inl (Nat.eq_zero_of_not_pos hsize))

/-- On a calm `errno` the body goes on, at once or after a wait. -/
theorem SendInv.testErrno (hbooks : Books buffer errno past s) (hec : s.ec = .clear)
    (hquiet : Quiet os errno past) (hzero : .zero ∉ past) (hcalm : Calm os s.errno) :
    SendInv os buffer errno past (s.testErrno os) := by
  unfold Send.testErrno
  by_cases hintr : s.errno = EINTR.value
  · rw [if_pos hintr]
    exact SendInv.while_ hbooks hec hquiet hzero
  · have hagain : s.errno = (EAGAIN os).value := hcalm.resolve_left hintr
    rw [if_neg hintr, if_neg (not_not_intro hagain)]
    exact ⟨hbooks.goto _ _, hec, hquiet, hzero⟩

/-- On any other `errno` it reports that value and returns. -/
theorem testErrno_of_not_calm (hcalm : ¬ Calm os s.errno) :
    s.testErrno os = { s with ec := make_error_code s.errno, at_ := .returned } := by
  unfold Send.testErrno
  rw [if_neg fun hintr => hcalm (Or.inl hintr), if_pos fun hagain => hcalm (Or.inr hagain)]

theorem fails_failed {e : Errno} : (Outcome.failed e).Fails os ↔ ¬ Calm os e.value := by
  have hval : ∀ f : Errno, e = f ↔ e.value = f.value := by
    intro f
    cases e
    cases f
    simp
  simp only [Outcome.Fails, Calm, not_or, ne_eq, hval]

theorem SendInv.step (h : SendInv os buffer errno past s)
    (hs : Send.step os s o = some s') : SendInv os buffer errno (past ++ [o]) s' := by
  have hrun := h.run
  cases o with
  | accepted k =>
    obtain ⟨⟨hat, hk, hle⟩, hs⟩ := Option.ite_none_right_eq_some.mp hs
    obtain rfl := Option.some.inj hs
    rw [hat] at hrun
    obtain ⟨hec, hquiet, hzero, -⟩ := hrun
    have hbooks := h.books.accept hle
    by_cases hcalm : Calm os s.errno
    · refine SendInv.testErrno hbooks hec (hquiet.append id fun _ _ => ?_) (by simp [hzero]) hcalm
      exact h.books.errno ▸ hcalm
    · -- What the `write` finds is taken for its own.
      rw [testErrno_of_not_calm (s := s.accept k) hcalm]
      refine ⟨hbooks.goto _ _, ?_⟩
      exact Ended.stale hquiet hzero (h.books.errno ▸ hcalm)
        (congrArg make_error_code h.books.errno)
  | zero =>
    obtain ⟨hat, hs⟩ := Option.ite_none_right_eq_some.mp hs
    obtain rfl := Option.some.inj hs
    rw [hat] at hrun
    obtain ⟨hec, hquiet, -⟩ := hrun
    have hbooks := h.books.leave (o := .zero) rfl h.books.errno.symm
    refine ⟨hbooks.goto _ _, ?_⟩
    exact Ended.done (hquiet.append id (by simp)) hec (Or.inr (by simp))
  | failed e =>
    obtain ⟨hat, hs⟩ := Option.ite_none_right_eq_some.mp hs
    obtain rfl := Option.some.inj hs
    rw [hat] at hrun
    obtain ⟨hec, hquiet, hzero, hbefore⟩ := hrun
    have hbooks := h.books.leave (o := .failed e) rfl rfl
    by_cases hcalm : Calm os e.value
    · refine SendInv.testErrno hbooks hec (hquiet.append ?_ (by simp)) (by simp [hzero]) hcalm
      rw [fails_failed]
      exact not_not_intro hcalm
    · rw [testErrno_of_not_calm hcalm]
      refine ⟨hbooks.goto _ _, ?_⟩
      refine Ended.write hquiet (fails_failed.mpr hcalm) rfl ?_
      intro hsize
      rcases hbefore with rfl | hsize'
      · -- Nothing was accepted yet.
        have hacc : s.accepted = [] := List.eq_nil_of_length_eq_zero h.books.total.symm
        have hdata := h.books.split
        rw [hacc, List.nil_append] at hdata
        rwa [show s.size = buffer.length by rw [h.books.size, hdata]]
      · exact hsize'
  | waited ec e =>
    obtain ⟨hat, hs⟩ := Option.ite_none_right_eq_some.mp hs
    obtain rfl := Option.some.inj hs
    rw [hat] at hrun
    obtain ⟨hec, hquiet, hzero⟩ := hrun
    have hbooks := h.books.leave (o := .waited ec e) rfl rfl
    cases hset : ec.isSet with
    | true =>
      rw [if_pos rfl]
      refine ⟨hbooks.goto _ _, ?_⟩
      exact Ended.wait hquiet hset rfl
    | false =>
      rw [if_neg Bool.false_ne_true]
      refine SendInv.while_ hbooks hec (hquiet.append ?_ (by simp)) (by simp [hzero])
      simp [Outcome.Fails, hset]

/-! ## 3. Every run -/

theorem sendInv_of_exec {outcomes : List Outcome}
    (h : (machine os).exec (init buffer errno) outcomes = some s) :
    SendInv os buffer errno outcomes s :=
  Machine.exec_history (M := machine os) (fun h hs => SendInv.step h hs) sendInv_init h

namespace Books

variable (h : Books buffer errno past s)

include h

theorem count_eq : s.count = s.accepted.length := by
  have hlen := congrArg List.length h.split
  rw [List.length_append] at hlen
  rw [Send.count, h.data_size, h.size]
  omega

theorem size_eq_zero_iff : s.size = 0 ↔ s.accepted = buffer := by
  rw [h.size, List.length_eq_zero_iff]
  have hsplit := h.split
  constructor
  · intro hdata
    rw [hdata, List.append_nil] at hsplit
    exact hsplit
  · intro hacc
    rw [hacc] at hsplit
    exact List.append_right_eq_self.mp hsplit

/-- What has to be shown of a run that returned, the bytes and the count being right anyway. -/
theorem accounts_iff : Accounts os buffer past s ↔
    (s.size ≠ 0 → .zero ∈ past ∨ ∃ o ∈ past, o.Fails os) ∧
    (s.ec.isSet = true ↔ ∃ o ∈ past, o.Fails os) ∧
    (buffer ≠ [] → s.size = 0 → s.ec.isSet = false) := by
  have hlt : s.count < buffer.length ↔ s.size ≠ 0 := by
    have hlen := congrArg List.length h.split
    rw [List.length_append, ← h.size] at hlen
    rw [h.count_eq]
    omega
  have hwhole := h.size_eq_zero_iff
  have hreported : ((Ice.send buffer.length s.count s.ec).isSet = false ↔ s.accepted = buffer) ↔
      (s.size = 0 → s.ec.isSet = false) := by
    rw [isSet_send, ← hwhole, ← Nat.not_lt, hlt]
    tauto
  constructor
  · intro ha
    exact ⟨fun hsize => ha.short (hlt.mpr hsize), ha.ec, fun hb => hreported.mp (ha.reported hb)⟩
  · intro ha
    obtain ⟨hshort, hec, hrep⟩ := ha
    exact ⟨⟨s.data, h.split⟩, h.count_eq, fun hs => hshort (hlt.mp hs), hec,
      fun hb => hreported.mpr (hrep hb)⟩

end Books

/-- The condition on the last wait says that a failed wait left something unsent. -/
theorem lastWaitCounts_iff (h : Books buffer errno past s) :
    LastWaitCounts buffer.length past ↔
      ∀ ec e, past.getLast? = some (.waited ec e) → ec.isSet = true → s.size ≠ 0 := by
  have htotal : Outcome.total past = buffer.length ↔ s.size = 0 := by
    have hlen := congrArg List.length h.split
    rw [List.length_append, ← h.size] at hlen
    rw [h.total]
    omega
  rw [LastWaitCounts, htotal]
  constructor
  · intro hlast ec e hget hset hsize
    rw [hlast hsize ec e hget] at hset
    cases hset
  · intro hlast hsize ec e hget
    by_contra hset
    exact hlast ec e hget (by simpa using hset) hsize

/-- **`send` accounts for what was written** in exactly the runs in which no `write` succeeds on a
    stale `errno`, and no wait fails after the last byte was accepted. -/
theorem send_accounts_iff {outcomes : List Outcome}
    (h : (machine os).exec (init buffer errno) outcomes = some s) (hret : s.at_ = .returned) :
    Accounts os buffer outcomes s ↔
      ErrnoFresh os buffer.length errno outcomes ∧
        (buffer ≠ [] → LastWaitCounts buffer.length outcomes) := by
  have hinv := sendInv_of_exec h
  have hbooks := hinv.books
  have hended := hinv.run
  rw [hret] at hended
  rw [hbooks.accounts_iff, lastWaitCounts_iff hbooks]
  cases hended with
  | @stale past k _ hquiet hzero hcalm hec =>
    have hnofail : ¬ ∃ o ∈ past ++ [Outcome.accepted k], o.Fails os := by
      intro hf
      obtain ⟨o, ho, hf⟩ := hf
      rcases List.mem_append.mp ho with ho | ho
      · exact hquiet.fails o ho hf
      · rw [List.mem_singleton.mp ho] at hf
        exact hf
    have hsize : Outcome.total past + k = buffer.length ↔ s.size = 0 := by
      have htotal := hbooks.total
      have hlen := congrArg List.length hbooks.split
      rw [List.length_append, ← hbooks.size, ← htotal] at hlen
      simp only [Outcome.total_append, Outcome.total] at hlen
      omega
    have hfresh : ErrnoFresh os buffer.length errno (past ++ [.accepted k]) ↔
        found errno past = 0 ∧ s.size = 0 := by
      rw [ErrnoFresh, eachAccepted_concat, ← hsize]
      constructor
      · intro hf
        exact (hf.2 k rfl).resolve_left hcalm
      · intro hlast
        refine ⟨hquiet.fresh buffer.length, fun j hj => ?_⟩
        obtain rfl := Outcome.accepted.inj hj
        exact Or.inr hlast
    rw [hfresh, hec, isSet_make_error_code, decide_eq_true_iff]
    constructor
    · intro ha
      obtain ⟨hshort, hset, -⟩ := ha
      refine ⟨⟨?_, ?_⟩, by simp⟩
      · exact Nat.eq_zero_of_not_pos fun hpos => hnofail (hset.mp hpos)
      · by_contra hs
        rcases hshort hs with hz | hf
        · exact hzero (by simpa using hz)
        · exact hnofail hf
    · intro hc
      obtain ⟨⟨hnone, hs⟩, -⟩ := hc
      rw [hnone]
      exact ⟨fun hne => absurd hs hne, iff_of_false (Nat.lt_irrefl 0) hnofail, fun _ _ => rfl⟩
  | done hquiet hec hsize =>
    have hnofail : ¬ ∃ o ∈ outcomes, o.Fails os := by
      intro hf
      obtain ⟨o, ho, hf⟩ := hf
      exact hquiet.fails o ho hf
    rw [hec]
    refine iff_of_true ⟨?_, iff_of_false (by simp) hnofail, fun _ _ => rfl⟩ ⟨?_, ?_⟩
    · exact fun hne => Or.inl (hsize.resolve_left hne)
    · exact hquiet.fresh buffer.length
    · intro _ ec e hget hset
      exact absurd ⟨_, List.mem_of_getLast? hget, hset⟩ hnofail
  | @write past e _ hquiet hfails hec hsize =>
    have hfail : ∃ o ∈ past ++ [.failed e], o.Fails os := ⟨_, by simp, hfails⟩
    have hfresh : ErrnoFresh os buffer.length errno (past ++ [.failed e]) :=
      eachAccepted_concat.mpr ⟨hquiet.fresh buffer.length, by simp⟩
    rw [hec]
    refine iff_of_true ⟨fun _ => Or.inr hfail, iff_of_true ?_ hfail, ?_⟩ ⟨hfresh, by simp⟩
    · simp [e.pos]
    · intro hb hzero
      exact absurd hzero (hsize (by simpa using hb))
  | @wait past ec e _ hquiet hset hec =>
    have hfail : ∃ o ∈ past ++ [.waited ec e], o.Fails os :=
      ⟨.waited ec e, by simp, hset⟩
    have hfresh : ErrnoFresh os buffer.length errno (past ++ [.waited ec e]) :=
      eachAccepted_concat.mpr ⟨hquiet.fresh buffer.length, by simp⟩
    have hlast : ∀ ec' e', (past ++ [Outcome.waited ec e]).getLast? = some (.waited ec' e') ↔
        ec = ec' ∧ e = e' := by
      simp
    rw [hec, hset]
    simp only [hlast]
    constructor
    · intro ha
      obtain ⟨-, -, hrep⟩ := ha
      refine ⟨hfresh, ?_⟩
      intro hb _ _ _ _ hzero
      exact absurd (hrep hb hzero) (by simp)
    · intro hc
      obtain ⟨-, hcounts⟩ := hc
      refine ⟨fun _ => Or.inr hfail, iff_of_true trivial hfail, ?_⟩
      intro hb hzero
      exact absurd hzero (hcounts hb ec e ⟨rfl, rfl⟩ hset)

/-- The hypotheses are met by a run that is interrupted, sends a part, waits, finds nothing in
    `errno` after that, and sends the rest. -/
theorem send_accounts_iff_partial :
    ∃ s, (machine .linux).exec (init [1, 2, 3] 0)
        [.failed EINTR, .accepted 2, .failed (EAGAIN .linux), .waited .clear 0, .accepted 1]
          = some s ∧
      Accounts .linux [1, 2, 3]
        [.failed EINTR, .accepted 2, .failed (EAGAIN .linux), .waited .clear 0, .accepted 1] s := by
  have hbefore : (machine .linux).exec (init [1, 2, 3] 0)
      [.failed EINTR, .accepted 2, .failed (EAGAIN .linux), .waited .clear 0] = some _ := rfl
  have hquiet := (sendInv_of_exec hbefore).run.2.1
  refine ⟨_, rfl, (send_accounts_iff rfl rfl).mpr ⟨?_, ?_⟩⟩
  · refine eachAccepted_concat.mpr ⟨hquiet.fresh 3, fun k hk => ?_⟩
    obtain rfl := Outcome.accepted.inj hk
    exact Or.inr ⟨rfl, rfl⟩
  · intro _ _ ec e hlast
    cases hlast

/-- **A success read as a failure.** With `errno` at 0 the first partial `write` ends the loop
    without an error; with another thread's `errno` after a wait a partial `write` ends it with
    that error; and a wait that fails after the last byte was accepted is reported for a buffer
    that was sent. -/
theorem success_read_as_failure :
    (∃ s, (machine .linux).exec (init [1, 2] 0) [.accepted 1] = some s ∧ s.at_ = .returned ∧
      s.count = 1 ∧ s.ec.isSet = false ∧ ¬ Accounts .linux [1, 2] [.accepted 1] s) ∧
    (∃ s, (machine .linux).exec (init [1, 2] 0)
        [.failed (EAGAIN .linux), .waited .clear 104, .accepted 1] = some s ∧
      s.at_ = .returned ∧ s.count = 1 ∧ s.ec = make_error_code 104 ∧
      ¬ Accounts .linux [1, 2]
        [.failed (EAGAIN .linux), .waited .clear 104, .accepted 1] s) ∧
    ∃ s, (machine .linux).exec (init [1, 2] (EAGAIN .linux).value)
        [.accepted 2, .waited (make_error_code 9) 9] = some s ∧ s.at_ = .returned ∧
      s.accepted = [1, 2] ∧ (Ice.send 2 s.count s.ec).isSet = true := by
  refine ⟨⟨_, rfl, rfl, rfl, rfl, fun ha => ?_⟩, ⟨_, rfl, rfl, rfl, rfl, fun ha => ?_⟩,
    ⟨_, rfl, rfl, rfl, rfl⟩⟩
  · rcases ha.short (by decide) with hz | ⟨o, ho, hf⟩
    · simp at hz
    · rw [List.mem_singleton.mp ho] at hf
      exact hf
  · obtain ⟨o, ho, hf⟩ := ha.ec.mp rfl
    simp only [List.mem_cons, List.not_mem_nil, or_false] at ho
    obtain rfl | rfl | rfl := ho
    · exact hf.2 rfl
    · cases hf
    · exact hf

end Send
end Tcp
end Net
end Ice
