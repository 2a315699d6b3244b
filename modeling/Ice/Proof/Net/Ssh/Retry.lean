import Ice.Net.Ssh.Retry
import Mathlib.Tactic.Common

/-!
# How the ssh operations come to an end

Two things are asked of the retry loops. That they give up when a wait fails: they drop what
`io` reports, so as long as libssh2 answers `EAGAIN` they go round (`retry_ends_iff`). And that
`recv` and `send` report the errors of their own call, and no others: they do not clear `ec`,
and an error is given the wrong category (`recv_send_report_iff`).
-/

set_option autoImplicit false

namespace Ice
namespace Net
namespace Ssh
namespace Retry

open Lib

/-! ## 1. Waits that fail -/

/-- A call that would block, and the wait after it. -/
def round (ec : ErrorCode) : List Label := [.rc LIBSSH2_ERROR_EAGAIN, .io ec]

/-- Where from now on every call would block and every wait fails, the operation returns, and
    reports an error. -/
def Ends {σ : Type*} (M : Machine σ Label) (reported : σ → Option ErrorCode) (s : σ) : Prop :=
  ∀ waits : ℕ → ErrorCode, (∀ i, (waits i).isSet = true) →
    ∃ n s' ec, M.exec s (((List.range n).map waits).flatMap round) = some s' ∧
      reported s' = some ec ∧ ec.isSet = true

/-- What a round leads back to does not end. -/
theorem not_ends {σ : Type*} {M : Machine σ Label} {reported : σ → Option ErrorCode}
    {I : σ → Prop} (hround : ∀ {s ec}, I s → ∃ s', M.exec s (round ec) = some s' ∧ I s')
    (hnot : ∀ {s}, I s → reported s = none) {s : σ} (hs : I s) : ¬ Ends M reported s := by
  intro hends
  obtain ⟨n, s', ec, hrun, hec, -⟩ :=
    hends (fun _ => errc.eof.make_error_code) fun _ => errc.isSet_make_error_code _
  obtain ⟨b, hb, hib⟩ : ∃ b, M.exec s _ = some b ∧ I b := Machine.exec_rounds hround hs _
  rw [Option.some.inj (hrun.symm.trans hb), hnot hib] at hec
  cases hec

/-- The code an operation reports, when it has returned. -/
def Loop.reported (s : Loop) : Option ErrorCode := if s.at_ = .returned then some s.ec else none

def Recv.reported (s : Recv) : Option ErrorCode := if s.at_ = .returned then some s.ec else none

def Send.reported (s : Send) : Option ErrorCode := if s.at_ = .returned then some s.ec else none

def Authenticate.reported : Authenticate → Option ErrorCode
  | .open_ .returned ec => some ec
  | _ => none

/-- `authenticate` is about to call libssh2. -/
def Authenticate.AtCall : Authenticate → Prop
  | .userauth l => l.at_ = .call
  | .open_ at_ _ => at_ = .call

theorem loop_not_ends {s : Loop} (h : s.at_ = .call) : ¬ Ends Loop.machine Loop.reported s := by
  refine not_ends (I := fun s => s.at_ = .call) ?_ ?_ h
  · intro s ec hs
    refine ⟨s, ?_, hs⟩
    obtain ⟨at_, ec'⟩ := s
    obtain rfl : at_ = .call := hs
    rfl
  · intro s hs
    simp [Loop.reported, hs]

theorem recv_not_ends {s : Recv} (h : s.at_ = .call) : ¬ Ends Recv.machine Recv.reported s := by
  refine not_ends (I := fun s => s.at_ = .call) ?_ ?_ h
  · intro s ec hs
    refine ⟨s, ?_, hs⟩
    obtain ⟨size, ec', at_, count⟩ := s
    obtain rfl : at_ = .call := hs
    simp [round, Machine.exec, Recv.machine, Recv.step, LIBSSH2_ERROR_EAGAIN]
  · intro s hs
    simp [Recv.reported, hs]

theorem authenticate_not_ends {s : Authenticate}
    (h : s.AtCall ∧ ∀ ec, s = .open_ .call ec → ec.isSet = false) :
    ¬ Ends Authenticate.machine Authenticate.reported s := by
  refine not_ends (I := fun s => s.AtCall ∧ ∀ ec, s = .open_ .call ec → ec.isSet = false) ?_ ?_ h
  · intro s ec hs
    refine ⟨s, ?_, hs⟩
    obtain ⟨hcall, hclear⟩ := hs
    cases s with
    | userauth l =>
      obtain ⟨at_, ec'⟩ := l
      obtain rfl : at_ = .call := hcall
      rfl
    | open_ at_ ec' =>
      obtain rfl : at_ = .call := hcall
      have hec : ec'.isSet = false := hclear ec' rfl
      simp [round, Machine.exec, Authenticate.machine, Authenticate.step, hec]
  · intro s hs
    cases s with
    | userauth l => rfl
    | open_ at_ ec' =>
      obtain rfl : at_ = .call := hs.1
      rfl

/-- A round of `send` only comes to `while (size > 0)`. -/
theorem Send.exec_round {s : Send} (h : s.at_ = .call) (ec : ErrorCode) :
    Send.machine.exec s (round ec) = some s.while_ := by
  have hle : LIBSSH2_ERROR_EAGAIN ≤ (s.size : Int) := by
    unfold LIBSSH2_ERROR_EAGAIN
    omega
  have hneg : ¬ 0 < LIBSSH2_ERROR_EAGAIN := by decide
  simp [round, Machine.exec, Send.machine, Send.step, h, hle, hneg, Send.while_]

theorem send_ends_iff {s : Send} (h : s.at_ = .call) :
    Ends Send.machine Send.reported s ↔ s.size = 0 ∧ s.ec.isSet = true := by
  by_cases hsize : s.size = 0
  · have hreturned : s.while_ = { s with at_ := .returned } := by
      simp [Send.while_, hsize]
    constructor
    · intro hends
      obtain ⟨n, s', ec, hrun, hec, hset⟩ :=
        hends (fun _ => errc.eof.make_error_code) fun _ => errc.isSet_make_error_code _
      refine ⟨hsize, ?_⟩
      -- no round, one, or more than there can be
      match n with
      | 0 =>
        cases hrun
        simp [Send.reported, h] at hec
      | 1 =>
        have hs' : s' = s.while_ := Option.some.inj (hrun.symm.trans (Send.exec_round h _))
        rw [hs', hreturned, Send.reported, if_pos rfl, Option.some.injEq] at hec
        exact hec ▸ hset
      | n + 2 =>
        rw [List.range_succ_eq_map, List.map_cons, List.flatMap_cons, Machine.exec_append,
          Send.exec_round h, hreturned, List.range_succ_eq_map] at hrun
        cases hrun
    · intro hset waits _
      exact ⟨1, s.while_, s.ec, Send.exec_round h _, by rw [hreturned]; rfl, hset.2⟩
  · refine iff_of_false ?_ fun hand => hsize hand.1
    refine not_ends (I := fun s => s.at_ = .call ∧ 0 < s.size) ?_ ?_ ⟨h, Nat.pos_of_ne_zero hsize⟩
    · intro s ec hs
      refine ⟨_, Send.exec_round hs.1 ec, ?_⟩
      simp [Send.while_, hs.2]
    · intro s hs
      simp [Send.reported, hs.1]

/-! ## 2. The runs of `recv` and `send` -/

/-- libssh2 returned an error other than `LIBSSH2_ERROR_EAGAIN`. -/
def Fails (rc : Int) : Prop := rc < 0 ∧ rc ≠ LIBSSH2_ERROR_EAGAIN

/-- The bytes that libssh2 counted in these outcomes. -/
def total : List Label → ℕ
  | [] => 0
  | .rc rc :: rest => rc.toNat + total rest
  | _ :: rest => total rest

/-- No call failed. -/
def Clean (past : List Label) : Prop := ∀ rc, .rc rc ∈ past → ¬ Fails rc

/-- What an operation that was entered with `ec` has in it when it returns. -/
inductive Ended (ec : ErrorCode) : List Label → ErrorCode → Prop
  | done {past : List Label} (hclean : Clean past) : Ended ec past ec
  | failed {past : List Label} {rc : Int} (hfails : Fails rc) :
      Ended ec (past ++ [.rc rc]) (native_error_code rc)

/-- Where an operation stands after these outcomes. -/
def Going (ec : ErrorCode) (past : List Label) (at_ : At) (now : ErrorCode) : Prop :=
  match at_ with
  | .call | .io => Clean past ∧ now = ec
  | .returned => Ended ec past now

variable {past : List Label} {ec now : ErrorCode} {rc : Int} {l : Label} {buffer : List UInt8}
  {size : ℕ}

theorem total_append : total (past ++ [l]) = total past + total [l] := by
  induction past with
  | nil => simp [total]
  | cons p past ih => cases p <;> simp [total, ih, Nat.add_assoc]

theorem clean_append : Clean (past ++ [l]) ↔ Clean past ∧ ∀ rc, l = .rc rc → ¬ Fails rc := by
  simp only [Clean, List.mem_append, List.mem_singleton, or_imp, forall_and, eq_comm]

theorem Clean.append_io (h : Clean past) (ec : ErrorCode) : Clean (past ++ [.io ec]) :=
  clean_append.mpr ⟨h, by intro rc heq; cases heq⟩

theorem Clean.append_rc (h : Clean past) (hrc : ¬ Fails rc) : Clean (past ++ [.rc rc]) :=
  clean_append.mpr ⟨h, by intro rc' heq; cases heq; exact hrc⟩

/-- A count is no error, and `EAGAIN` is none. -/
theorem not_fails_of_nonneg (h : 0 ≤ rc) : ¬ Fails rc := fun hfails =>
  absurd hfails.1 (Int.not_lt.mpr h)

theorem not_fails_again : ¬ Fails LIBSSH2_ERROR_EAGAIN := fun hfails => hfails.2 rfl

theorem fails_of_ne (h : ¬ 0 ≤ rc) (hne : rc ≠ LIBSSH2_ERROR_EAGAIN) : Fails rc :=
  ⟨Int.not_le.mp h, hne⟩

theorem ne_none_of_fails (h : Fails rc) : rc ≠ LIBSSH2_ERROR_NONE := Int.ne_of_lt h.1

namespace Recv

structure Inv (ec : ErrorCode) (past : List Label) (s : Recv) : Prop where
  total : total past = s.count
  going : Going ec past s.at_ s.ec
  count : s.at_ ≠ .returned → s.count = 0

variable {s s' : Recv}

theorem inv_start (size : ℕ) (ec : ErrorCode) : Inv ec [] (start size ec) where
  total := rfl
  going := ⟨fun _ hmem => absurd hmem List.not_mem_nil, rfl⟩
  count _ := rfl

theorem Inv.step (h : Inv ec past s) (hstep : s.step l = some s') :
    Inv ec (past ++ [l]) s' := by
  cases l with
  | channel => cases hstep
  | io ec' =>
    rw [Recv.step] at hstep
    split at hstep
    · rename_i hat
      cases hstep
      obtain ⟨hclean, hec⟩ : Clean past ∧ s.ec = ec := by simpa [hat, Going] using h.going
      refine ⟨?_, ⟨hclean.append_io ec', hec⟩, fun _ => h.count (by simp [hat])⟩
      rw [total_append, h.total]
      rfl
    · cases hstep
  | rc rc =>
    rw [Recv.step] at hstep
    split at hstep
    · rename_i hcan
      obtain ⟨hclean, hec⟩ : Clean past ∧ s.ec = ec := by simpa [hcan.1, Going] using h.going
      have hcount : s.count = 0 := h.count (by simp [hcan.1])
      have htotal : Retry.total (past ++ [.rc rc]) = rc.toNat := by
        simp [total_append, h.total, hcount, Retry.total]
      split at hstep
      · rename_i hnonneg
        cases hstep
        refine ⟨htotal, ?_, fun hne => absurd rfl hne⟩
        exact hec ▸ Ended.done (hclean.append_rc (not_fails_of_nonneg hnonneg))
      · rename_i hneg
        have hzero : rc.toNat = 0 := Int.toNat_of_nonpos (by omega)
        split at hstep
        · rename_i hne
          cases hstep
          have hfails := fails_of_ne hneg hne
          refine ⟨by rw [htotal, hzero, hcount], ?_, fun hne => absurd rfl hne⟩
          simp only [ne_none_of_fails hfails, Going, ne_eq, not_false_eq_true, if_true]
          exact Ended.failed hfails
        · rename_i hagain
          cases hstep
          have hagain := not_not.mp hagain
          refine ⟨by rw [htotal, hzero, hcount], ?_, fun _ => hcount⟩
          exact ⟨hclean.append_rc (hagain ▸ not_fails_again), hec⟩
    · cases hstep

theorem run_inv {outcomes : List Label} {s : Recv}
    (h : machine.exec (start size ec) outcomes = some s) : Inv ec outcomes s :=
  Machine.exec_history (fun hi hl => Inv.step hi hl) (inv_start size ec) h

end Recv

namespace Send

structure Inv (buffer : List UInt8) (ec : ErrorCode) (past : List Label) (s : Send) : Prop where
  split : s.accepted ++ s.data = buffer
  size : s.size = s.data.length
  data_size : s.data_size = buffer.length
  total : total past = s.accepted.length
  going : Going ec past s.at_ s.ec
  -- Only the first call is made for 0 bytes.
  more : s.at_ = .call → past ≠ [] → 0 < s.size

variable {s s' : Send}

theorem inv_start (buffer : List UInt8) (ec : ErrorCode) : Inv buffer ec [] (start buffer ec) where
  split := rfl
  size := rfl
  data_size := rfl
  total := rfl
  going := ⟨fun _ hmem => absurd hmem List.not_mem_nil, rfl⟩
  more _ hne := absurd rfl hne

theorem going_while (hclean : Clean past) (hec : s.ec = ec) :
    Going ec past s.while_.at_ s.while_.ec := by
  simp only [while_]
  split
  · exact ⟨hclean, hec⟩
  · exact hec ▸ Ended.done hclean

theorem more_while : s.while_.at_ = .call → 0 < s.while_.size := by
  simp only [while_]
  intro hat
  by_contra hsize
  rw [if_neg hsize] at hat
  cases hat

theorem Inv.step (h : Inv buffer ec past s) (hstep : s.step l = some s') :
    Inv buffer ec (past ++ [l]) s' := by
  cases l with
  | channel => cases hstep
  | io ec' =>
    rw [Send.step] at hstep
    split at hstep
    · rename_i hat
      cases hstep
      obtain ⟨hclean, hec⟩ : Clean past ∧ s.ec = ec := by simpa [hat, Going] using h.going
      refine ⟨h.split, h.size, h.data_size, ?_, going_while (hclean.append_io ec') hec,
        fun hat _ => more_while hat⟩
      rw [total_append, h.total]
      rfl
    · cases hstep
  | rc rc =>
    rw [Send.step] at hstep
    split at hstep
    · rename_i hcan
      obtain ⟨hcall, hle⟩ := hcan
      obtain ⟨hclean, hec⟩ : Clean past ∧ s.ec = ec := by simpa [hcall, Going] using h.going
      have htotal : Retry.total (past ++ [.rc rc]) = s.accepted.length + rc.toNat := by
        simp [total_append, h.total, Retry.total]
      split at hstep
      · rename_i hpos
        cases hstep
        have hclean' := hclean.append_rc (not_fails_of_nonneg (Int.le_of_lt hpos))
        refine ⟨?_, ?_, h.data_size, ?_, going_while hclean' hec, fun hat _ => more_while hat⟩
        · simp only [while_, accept]
          rw [List.append_assoc, List.take_append_drop, h.split]
        · simp [while_, accept, h.size]
        · have hlen : rc.toNat ≤ s.data.length := by
            rw [← h.size]
            omega
          simp [htotal, while_, accept, hlen]
      · rename_i hnonpos
        have hzero : rc.toNat = 0 := Int.toNat_of_nonpos (by omega)
        rw [hzero] at htotal
        split at hstep
        · rename_i hne
          cases hstep
          refine ⟨h.split, h.size, h.data_size, htotal, ?_, fun hat => by cases hat⟩
          by_cases hnone : rc = LIBSSH2_ERROR_NONE
          · have hnone' : 0 ≤ rc := Int.le_of_eq hnone.symm
            simp only [Going, ne_eq, hnone, not_true_eq_false, if_false]
            exact hec ▸ Ended.done (hclean.append_rc (hnone ▸ not_fails_of_nonneg hnone'))
          · simp only [Going, ne_eq, hnone, not_false_eq_true, if_true]
            have hneg : ¬ 0 ≤ rc := by
              unfold LIBSSH2_ERROR_NONE at hnone
              omega
            exact Ended.failed (fails_of_ne hneg hne)
        · rename_i hagain
          cases hstep
          have hagain := not_not.mp hagain
          refine ⟨h.split, h.size, h.data_size, htotal, ?_, fun hat => by cases hat⟩
          exact ⟨hclean.append_rc (hagain ▸ not_fails_again), hec⟩
    · cases hstep

theorem run_inv {outcomes : List Label} {s : Send}
    (h : machine.exec (start buffer ec) outcomes = some s) : Inv buffer ec outcomes s :=
  Machine.exec_history (fun hi hl => Inv.step hi hl) (inv_start buffer ec) h

end Send

/-- No code is set twice in `authenticate`: the loop goes on only where there is none. -/
theorem authenticate_clear {outcomes : List Label} {s : Authenticate}
    (h : Authenticate.machine.exec .start outcomes = some s) :
    ∀ at_ ec, s = .open_ at_ ec → at_ ≠ .returned → ec.isSet = false := by
  refine Machine.exec_preserves
    (I := fun s => ∀ at_ ec, s = .open_ at_ ec → at_ ≠ .returned → ec.isSet = false) ?_ ?_ h
  · intro a l b ha hstep at_ ec hb hat
    cases a with
    | userauth s =>
      obtain ⟨t, -, ht⟩ := Option.map_eq_some_iff.mp hstep
      rw [← ht, Authenticate.resume] at hb
      split at hb
      · cases hb
        by_contra hset
        rw [Bool.not_eq_false] at hset
        exact hat (if_pos hset)
      · cases hb
    | open_ at' ec' =>
      have hclear : at' ≠ .returned → ec'.isSet = false := ha at' ec' rfl
      cases at' with
      | call =>
        cases l with
        | channel =>
          cases hstep
          exact absurd (by cases hb; rfl) hat
        | rc rc =>
          simp only [Authenticate.machine, Authenticate.step] at hstep
          split at hstep
          · cases hstep
            exact absurd (by cases hb; rfl) hat
          · cases hstep
            cases hb
            exact hclear (by decide)
        | io _ => cases hstep
      | io =>
        cases l with
        | io _ =>
          cases hstep
          cases hb
          exact hclear (by decide)
        | rc _ => cases hstep
        | channel => cases hstep
      | returned => cases l <;> cases hstep
  · intro at_ ec heq
    cases heq

/-- **While every call would block and every wait fails, no operation ends with an error**,
    wherever in its run this begins, save a `send` of no bytes that was given a code already
    set. -/
theorem retry_ends_iff (outcomes : List Label) :
    (∀ s, Loop.machine.exec .start outcomes = some s → s.at_ = .call →
      ¬ Ends Loop.machine Loop.reported s) ∧
    (∀ size ec s, Recv.machine.exec (.start size ec) outcomes = some s → s.at_ = .call →
      ¬ Ends Recv.machine Recv.reported s) ∧
    (∀ buffer ec s, Send.machine.exec (.start buffer ec) outcomes = some s → s.at_ = .call →
      (Ends Send.machine Send.reported s ↔ buffer = [] ∧ ec.isSet = true)) ∧
    (∀ s, Authenticate.machine.exec .start outcomes = some s → s.AtCall →
      ¬ Ends Authenticate.machine Authenticate.reported s) := by
  refine ⟨?_, ?_, ?_, ?_⟩
  · intro s _ hcall
    exact loop_not_ends hcall
  · intro size ec s _ hcall
    exact recv_not_ends hcall
  · intro buffer ec s hrun hcall
    have hinv := Send.run_inv hrun
    obtain ⟨-, hec⟩ : Clean outcomes ∧ s.ec = ec := by simpa [hcall, Going] using hinv.going
    have hempty : s.size = 0 ↔ buffer = [] := by
      constructor
      · intro hsize
        -- the run has come to its first call
        have hfirst : outcomes = [] := by
          by_contra hne
          exact absurd hsize (Nat.ne_of_gt (hinv.more hcall hne))
        subst hfirst
        obtain rfl : Send.start buffer ec = s := Option.some.inj hrun
        exact List.length_eq_zero_iff.mp hsize
      · rintro rfl
        have hsplit := congrArg List.length hinv.split
        rw [List.length_append, List.length_nil] at hsplit
        rw [hinv.size]
        omega
    rw [send_ends_iff hcall, hempty, hec]
  · intro s hrun hcall
    refine authenticate_not_ends ⟨hcall, ?_⟩
    intro ec heq
    exact authenticate_clear hrun .call ec heq (by decide)

theorem retry_ends_empty :
    Ends Send.machine Send.reported (.start [] errc.eof.make_error_code) ∧
      ¬ Ends Recv.machine Recv.reported (.start 1 .clear) :=
  ⟨((retry_ends_iff []).2.2.1 [] errc.eof.make_error_code _ rfl rfl).mpr ⟨rfl, rfl⟩,
    (retry_ends_iff []).2.1 1 .clear _ rfl rfl⟩

theorem loop_goes_round : ¬ Ends Loop.machine Loop.reported .start := loop_not_ends rfl

/-! ## 3. The errors of `recv` and `send` -/

/-- What an operation is to report, having returned after these outcomes. -/
structure Reports (outcomes : List Label) (count : ℕ) (ec : ErrorCode) : Prop where
  counted : count = total outcomes
  set : ec.isSet = true ↔ ∃ rc, .rc rc ∈ outcomes ∧ Fails rc
  code : ∀ rc, .rc rc ∈ outcomes → Fails rc → ec = domain_error_code rc

theorem Ended.reports_iff (h : Ended ec past now) :
    Reports past (total past) now ↔ ec.isSet = false ∧ Clean past := by
  cases h with
  | done hclean =>
    have hnone : ¬ ∃ rc, .rc rc ∈ past ∧ Fails rc := by
      rintro ⟨rc, hmem, hfails⟩
      exact hclean rc hmem hfails
    constructor
    · intro hreports
      refine ⟨?_, hclean⟩
      rw [← Bool.not_eq_true, hreports.set]
      exact hnone
    · intro hclear
      refine ⟨rfl, iff_of_false ?_ hnone, ?_⟩
      · rw [hclear.1]
        exact Bool.false_ne_true
      · intro rc hmem hfails
        exact absurd hfails (hclean rc hmem)
  | @failed past rc hfails =>
    have hmem : Label.rc rc ∈ past ++ [.rc rc] := by simp
    refine iff_of_false ?_ fun hclear => hclear.2 rc hmem hfails
    intro hreports
    have hcode := congrArg ErrorCode.category (hreports.code rc hmem hfails)
    cases hcode

/-- **`recv` and `send` report what happened in their own call if and only if they were given a
    clear code and no call failed.** -/
theorem recv_send_report_iff (ec : ErrorCode) (outcomes : List Label) :
    (∀ size s, Recv.machine.exec (.start size ec) outcomes = some s → s.at_ = .returned →
      (Reports outcomes s.count s.ec ↔ ec.isSet = false ∧ Clean outcomes)) ∧
    (∀ buffer s, Send.machine.exec (.start buffer ec) outcomes = some s → s.at_ = .returned →
      (Reports outcomes s.count s.ec ∧ s.count = s.accepted.length ∧ s.accepted <+: buffer ↔
        ec.isSet = false ∧ Clean outcomes)) := by
  constructor
  · intro size s hrun hreturned
    have hinv := Recv.run_inv hrun
    have hended : Ended ec outcomes s.ec := by simpa [hreturned, Going] using hinv.going
    rw [← hinv.total]
    exact hended.reports_iff
  · intro buffer s hrun hreturned
    have hinv := Send.run_inv hrun
    have hended : Ended ec outcomes s.ec := by simpa [hreturned, Going] using hinv.going
    have hcount : s.count = s.accepted.length := by
      have hsplit := congrArg List.length hinv.split
      have hsize := hinv.size
      rw [List.length_append] at hsplit
      unfold Send.count
      rw [hinv.data_size]
      omega
    have hsent : s.accepted <+: buffer := ⟨s.data, hinv.split⟩
    rw [hcount, ← hinv.total, hended.reports_iff]
    exact ⟨fun hreports => hreports.1, fun hclear => ⟨hclear, rfl, hsent⟩⟩

/-- Two bytes read, and one byte of two accepted before the channel takes no more. -/
theorem recv_send_report_two :
    Reports [.rc LIBSSH2_ERROR_EAGAIN, .io .clear, .rc 2] 2 .clear ∧
      Reports [.rc 1, .rc 0] 1 .clear := by
  refine ⟨((recv_send_report_iff .clear [.rc LIBSSH2_ERROR_EAGAIN, .io .clear, .rc 2]).1 2
    ⟨2, .clear, .returned, 2⟩ rfl rfl).mpr ⟨rfl, ?_⟩,
    (((recv_send_report_iff .clear [.rc 1, .rc 0]).2 [97, 98]
      ⟨[98], 2, 1, .clear, .returned, [97]⟩ rfl rfl).mpr ⟨rfl, ?_⟩).1⟩
  all_goals
    intro rc hmem
    simp only [List.mem_cons, Label.rc.injEq, List.not_mem_nil, reduceCtorEq, or_false,
      false_or] at hmem
    rcases hmem with rfl | rfl <;> simp [Fails, LIBSSH2_ERROR_EAGAIN]

/-- A closed channel (-26) is reported under the category of the system's own errors. -/
theorem recv_misreports : ∃ s, Recv.machine.exec (.start 1 .clear) [.rc (-26)] = some s ∧
    s.at_ = .returned ∧ s.ec ≠ domain_error_code (-26) :=
  ⟨⟨1, ⟨-26, .native⟩, .returned, 0⟩, rfl, rfl, by decide⟩

end Retry
end Ssh
end Net
end Ice
