import Ice.Net.Overlapped
import Mathlib.Tactic.Common

/-!
# What the Windows senders account for

A length of 2^32 bytes or more does not fit the 32-bit length of a request. `tcp::socket::send`
drops the upper half of it once and subtracts what is left from the whole, so it reports those
bytes as sent in every run. `serial::send` drops it from one request at a time and counts what
was written, so it is right until what is left is a multiple of 2^32: then it asks for 0 bytes
and takes the answer for the end.
-/

set_option autoImplicit false

namespace Ice
namespace Net
namespace Overlapped

open Lib

/-- What a sender is to account for, returning `count`. -/
structure Accounts (buffer : List UInt8) (count : ℕ) (s : Sending) : Prop where
  counted : count = s.accepted.length
  sent : s.accepted <+: buffer
  short : count < buffer.length →
    (∃ length error, s.last = some (length, .failed error)) ∧ s.ec.isSet = true ∨
      ∃ length, 0 < length ∧ s.last = some (length, .accepted 0)

/-- The bytes the system accepted in these outcomes. -/
def total (outcomes : List Write) : ℕ := (outcomes.map Write.bytes).sum

/-! ## 1. What the two loops keep -/

/-- A loop after these outcomes, with `left` bytes to send and a next request for `request`
    of them. -/
structure Loop (buffer : List UInt8) (past : List Write) (left request : ℕ) (s : Sending) :
    Prop where
  split : s.accepted ++ s.data = buffer
  total : total past = s.accepted.length
  last : s.last.map Prod.snd = past.getLast?
  ec : ∀ length error, s.last = some (length, .failed error) → s.ec.isSet = true
  going : s.returned = false → past.length ≤ s.accepted.length
  length : past.length ≤ s.accepted.length + 1
  ended : s.returned = true → (∃ length error, s.last = some (length, .failed error)) ∨
    s.last = some (request, .accepted 0) ∨ left = 0

variable {buffer : List UInt8} {past : List Write} {left left' request request' : ℕ} {s : Sending}
  {w : Write}

theorem total_append (past : List Write) (w : Write) :
    total (past ++ [w]) = total past + w.bytes := by
  simp [total]

theorem loop_init (buffer : List UInt8) (left request : ℕ) :
    Loop buffer [] left request (.init buffer) where
  split := rfl
  total := rfl
  last := rfl
  ec := by simp [Sending.init]
  going := by simp
  length := by simp
  ended := by simp [Sending.init]

/-- A request that gave nothing leaves the next one as it was. -/
theorem Loop.write (h : Loop buffer past left request s) (hgoing : s.returned = false)
    (hle : w.bytes ≤ s.data.length) (hrequest : w.bytes = 0 → request' = request) :
    Loop buffer (past ++ [w]) left' request' ((s.write request w).while_ left') := by
  have hlength := h.going hgoing
  cases w with
  | failed error =>
    refine ⟨h.split, ?_, ?_, ?_, ?_, ?_, ?_⟩
    · simp [total_append, Write.bytes, h.total, Sending.write, Sending.while_]
    · simp [Sending.write, Sending.while_]
    · simp [Sending.write, Sending.while_, error.pos]
    · simp [Sending.write, Sending.while_]
    · simpa [Sending.write, Sending.while_] using hlength
    · intro hreturned
      exact Or.inl ⟨_, _, rfl⟩
  | accepted bytes =>
    have hle : bytes ≤ s.data.length := hle
    refine ⟨?_, ?_, ?_, ?_, ?_, ?_, ?_⟩
    · simp only [Sending.write, Sending.while_]
      rw [List.append_assoc, List.take_append_drop, h.split]
    · simp [total_append, Write.bytes, h.total, Sending.write, Sending.while_, hle]
    · simp [Sending.write, Sending.while_]
    · simp [Sending.write, Sending.while_]
    · simp only [Sending.write, Sending.while_, List.length_append, List.length_take,
        Bool.or_eq_false_iff, decide_eq_false_iff_not, List.length_cons, List.length_nil]
      intro hgoes
      omega
    · simp only [Sending.write, Sending.while_, List.length_append, List.length_cons,
        List.length_nil]
      omega
    · intro hreturned
      rcases Bool.or_eq_true_iff.mp hreturned with hzero | hleft
      · have hzero : bytes = 0 := of_decide_eq_true hzero
        subst hzero
        rw [hrequest rfl]
        exact Or.inr (Or.inl rfl)
      · exact Or.inr (Or.inr (of_decide_eq_true hleft))

theorem Sending.accepted_write {length : ℕ} (hle : w.bytes ≤ s.data.length) :
    (s.write length w).accepted.length = s.accepted.length + w.bytes := by
  cases w with
  | failed error => rfl
  | accepted bytes =>
    have hle : bytes ≤ s.data.length := hle
    simp [Sending.write, Write.bytes, hle]

/-- The bytes accepted are the first ones of the data. -/
theorem Loop.sent (h : Loop buffer past left request s) : s.accepted <+: buffer :=
  ⟨s.data, h.split⟩

/-- No run goes on for ever. -/
theorem Loop.bounded (h : Loop buffer past left request s) : past.length ≤ buffer.length + 1 :=
  Nat.le_trans h.length (Nat.succ_le_succ h.sent.length_le)

/-- A loop whose last request was not empty stopped short for a reason. -/
theorem Loop.short (h : Loop buffer past left request s) (hreturned : s.returned = true)
    (hleft : left ≠ 0) (hrequest : request ≠ 0) :
    (∃ length error, s.last = some (length, .failed error)) ∧ s.ec.isSet = true ∨
      ∃ length, 0 < length ∧ s.last = some (length, .accepted 0) := by
  rcases h.ended hreturned with ⟨length, error, hlast⟩ | hlast | hzero
  · exact Or.inl ⟨⟨length, error, hlast⟩, h.ec length error hlast⟩
  · exact Or.inr ⟨request, Nat.pos_of_ne_zero hrequest, hlast⟩
  · exact absurd hzero hleft

/-! ## 2. The socket -/

namespace Tcp

/-- `buffer.len` and what was accepted make up what `size` was cut down to. -/
structure Inv (buffer : List UInt8) (past : List Write) (s : Tcp) : Prop where
  loop : Loop buffer past s.len s.len s.sending
  size : s.size = buffer.length
  len : s.len + s.sending.accepted.length = dword buffer.length

theorem inv_init (buffer : List UInt8) : Inv buffer [] (init buffer) where
  loop := loop_init ..
  size := rfl
  len := rfl

theorem Inv.step {s s' : Tcp} (h : Inv buffer past s) (hstep : s.step w = some s') :
    Inv buffer (past ++ [w]) s' := by
  unfold Tcp.step at hstep
  split at hstep
  · rename_i hcan
    obtain ⟨hgoing, hle⟩ := hcan
    have hlen := h.len
    have hsplit := congrArg List.length h.loop.split
    have hdword : dword buffer.length ≤ buffer.length := Nat.mod_le ..
    rw [List.length_append] at hsplit
    have hdata : w.bytes ≤ s.sending.data.length := by omega
    rw [← Option.some.inj hstep]
    refine ⟨h.loop.write hgoing hdata (by intro hzero; rw [hzero]; rfl), h.size, ?_⟩
    simp only [Sending.while_, Sending.accepted_write hdata]
    omega
  · cases hstep

theorem run_inv {outcomes : List Write} {s : Tcp}
    (h : machine.exec (init buffer) outcomes = some s) : Inv buffer outcomes s :=
  Machine.exec_history (fun hi hl => Inv.step hi hl) (inv_init buffer) h

/-- The loop's arithmetic counts what was cut off as sent. -/
theorem Inv.accounts_iff {s : Tcp} (h : Inv buffer past s) (hreturned : s.sending.returned = true) :
    Accounts buffer s.count s.sending ↔ buffer.length < 2 ^ 32 := by
  have hlen := h.len
  have hsize := h.size
  unfold dword at hlen
  constructor
  · intro haccounts
    have hcount := haccounts.counted
    unfold count at hcount
    have hmod : buffer.length % 2 ^ 32 < 2 ^ 32 := Nat.mod_lt _ (by decide)
    have hle : buffer.length % 2 ^ 32 ≤ buffer.length := Nat.mod_le ..
    omega
  · intro hlt
    rw [Nat.mod_eq_of_lt hlt] at hlen
    refine ⟨?_, h.loop.sent, ?_⟩
    · unfold count
      omega
    · intro hshort
      have hleft : s.len ≠ 0 := by
        unfold count at hshort
        omega
      exact h.loop.short hreturned hleft hleft

end Tcp

/-! ## 3. The serial port -/

namespace Serial

/-- Cutting down what is left to 32 bits, before each request, never takes up what the first
    cut left out. -/
structure Inv (buffer : List UInt8) (past : List Write) (s : Serial) : Prop where
  loop : Loop buffer past s.size (dword s.size) s.sending
  size : s.size + s.sending.accepted.length = buffer.length
  written : s.written = s.sending.accepted.length
  request : dword s.size + s.sending.accepted.length = dword buffer.length

theorem inv_init (buffer : List UInt8) : Inv buffer [] (init buffer) where
  loop := loop_init ..
  size := rfl
  written := rfl
  request := rfl

theorem dword_sub {size bytes : ℕ} (h : bytes ≤ dword size) :
    dword (size - bytes) = dword size - bytes := by
  unfold dword at h ⊢
  omega

theorem Inv.step {s s' : Serial} (h : Inv buffer past s) (hstep : s.step w = some s') :
    Inv buffer (past ++ [w]) s' := by
  unfold Serial.step at hstep
  split at hstep
  · rename_i hcan
    obtain ⟨hgoing, hle⟩ := hcan
    have hsize := h.size
    have hrequest := h.request
    have hsplit := congrArg List.length h.loop.split
    have hdword : dword s.size ≤ s.size := Nat.mod_le ..
    rw [List.length_append] at hsplit
    have hdata : w.bytes ≤ s.sending.data.length := by omega
    rw [← Option.some.inj hstep]
    refine ⟨?_, ?_, ?_, ?_⟩
    · exact h.loop.write hgoing hdata (by intro hzero; rw [hzero]; rfl)
    · simp only [Sending.while_, Sending.accepted_write hdata]
      omega
    · simp only [Sending.while_, Sending.accepted_write hdata, h.written]
    · simp only [Sending.while_, Sending.accepted_write hdata, dword_sub hle]
      omega
  · cases hstep

theorem run_inv {outcomes : List Write} {s : Serial}
    (h : machine.exec (init buffer) outcomes = some s) : Inv buffer outcomes s :=
  Machine.exec_history (fun hi hl => Inv.step hi hl) (inv_init buffer) h

/-- Nothing left of the 32 bits, and the last request was for 0 bytes. -/
theorem Inv.accounts_iff {s : Serial} (h : Inv buffer past s)
    (hreturned : s.sending.returned = true) :
    Accounts buffer s.written s.sending ↔ buffer.length < 2 ^ 32 ∨
      (∃ error, past.getLast? = some (.failed error)) ∨ total past < dword buffer.length := by
  have hsize := h.size
  have hrequest := h.request
  have htotal := h.loop.total
  have hfailed : (∃ error, past.getLast? = some (.failed error)) ↔
      ∃ length error, s.sending.last = some (length, .failed error) := by
    rw [← h.loop.last]
    constructor
    · rintro ⟨error, hlast⟩
      obtain ⟨⟨length, w⟩, hlast, hw⟩ := Option.map_eq_some_iff.mp hlast
      exact ⟨length, error, hw ▸ hlast⟩
    · rintro ⟨length, error, hlast⟩
      exact ⟨error, by rw [hlast]; rfl⟩
  rw [hfailed]
  constructor
  · intro haccounts
    by_cases hlt : buffer.length < 2 ^ 32
    · exact Or.inl hlt
    · have hshort : s.written < buffer.length := by
        have hmod : dword buffer.length < 2 ^ 32 := Nat.mod_lt _ (by decide)
        rw [h.written]
        omega
      rcases haccounts.short hshort with ⟨hfailed, -⟩ | ⟨length, hpos, hlast⟩
      · exact Or.inr (Or.inl hfailed)
      · refine Or.inr (Or.inr ?_)
        rcases h.loop.ended hreturned with ⟨_, _, hlast'⟩ | hlast' | hzero
        · cases hlast.symm.trans hlast'
        · have hlength : length = dword s.size :=
            congrArg Prod.fst (Option.some.inj (hlast.symm.trans hlast'))
          omega
        · rw [h.written] at hshort
          omega
  · intro hcondition
    refine ⟨h.written, h.loop.sent, ?_⟩
    intro hshort
    rw [h.written] at hshort
    have hleft : s.size ≠ 0 := by omega
    rcases hcondition with hlt | ⟨length, error, hlast⟩ | hfewer
    · refine h.loop.short hreturned hleft ?_
      unfold dword
      rw [Nat.mod_eq_of_lt (by omega)]
      exact hleft
    · exact Or.inl ⟨⟨length, error, hlast⟩, h.loop.ec length error hlast⟩
    · exact h.loop.short hreturned hleft (by omega)

end Serial

/-! ## 4. Every run -/

/-- **What the senders account for, in every run.** Both return. The socket reports what the
    system accepted if and only if the length fits 32 bits; the serial port does so also where
    the last write failed, or where the system accepted less than the length's lower half. -/
theorem write_accounts_iff (buffer : List UInt8) (outcomes : List Write) :
    (∀ s, Tcp.machine.exec (.init buffer) outcomes = some s →
      outcomes.length ≤ buffer.length + 1 ∧
      (s.sending.returned = true →
        (Accounts buffer s.count s.sending ↔ buffer.length < 2 ^ 32))) ∧
    (∀ s, Serial.machine.exec (.init buffer) outcomes = some s →
      outcomes.length ≤ buffer.length + 1 ∧
      (s.sending.returned = true →
        (Accounts buffer s.written s.sending ↔ buffer.length < 2 ^ 32 ∨
          (∃ error, outcomes.getLast? = some (.failed error)) ∨
          total outcomes < dword buffer.length))) := by
  constructor
  · intro s hrun
    have hinv := Tcp.run_inv hrun
    exact ⟨hinv.loop.bounded, hinv.accounts_iff⟩
  · intro s hrun
    have hinv := Serial.run_inv hrun
    exact ⟨hinv.loop.bounded, hinv.accounts_iff⟩

theorem write_accounts_three :
    Accounts [1, 2, 3] 3 ⟨[], .clear, true, [1, 2, 3], some (1, .accepted 1)⟩ ∧
      Accounts [1, 2, 3] 2
        ⟨[3], make_error_code 995, true, [1, 2], some (1, .failed ⟨995, by decide⟩)⟩ :=
  ⟨((write_accounts_iff [1, 2, 3] [.accepted 2, .accepted 1]).1 _ rfl).2 rfl |>.mpr (by decide),
    ((write_accounts_iff [1, 2, 3] [.accepted 2, .failed ⟨995, by decide⟩]).2 _ rfl).2 rfl |>.mpr
      (Or.inl (by decide))⟩

/-- Data of 2^32 bytes, and an answer of 0 to the request for none of them. -/
theorem run_of_length {buffer : List UInt8} (h : buffer.length = 2 ^ 32) :
    Tcp.machine.exec (.init buffer) [.accepted 0] =
        some ⟨2 ^ 32, 0, ⟨buffer, .clear, true, [], some (0, .accepted 0)⟩⟩ ∧
      Serial.machine.exec (.init buffer) [.accepted 0] =
        some ⟨2 ^ 32, 0, ⟨buffer, .clear, true, [], some (0, .accepted 0)⟩⟩ := by
  have htcp : Tcp.init buffer = ⟨2 ^ 32, 0, .init buffer⟩ := by
    rw [Tcp.init, h]
    rfl
  have hserial : Serial.init buffer = ⟨2 ^ 32, 0, .init buffer⟩ := by rw [Serial.init, h]
  have hstep : Serial.step ⟨2 ^ 32, 0, .init buffer⟩ (.accepted 0) =
      some ⟨2 ^ 32, 0, ⟨buffer, .clear, true, [], some (0, .accepted 0)⟩⟩ := by
    have hdword : dword (2 ^ 32) = 0 := rfl
    unfold Serial.step
    rw [hdword]
    rfl
  rw [htcp, hserial]
  exact ⟨rfl, Machine.exec_cons_some.mpr ⟨_, hstep, rfl⟩⟩

/-- Nothing was sent of 2^32 bytes. The socket reports all of them; the serial port reports
    none, without an error and without a request the system could have accepted. -/
theorem send_lies : ∃ buffer : List UInt8, buffer.length = 2 ^ 32 ∧
    (∃ s, Tcp.machine.exec (.init buffer) [.accepted 0] = some s ∧ s.sending.returned = true ∧
      ¬ Accounts buffer s.count s.sending) ∧
    (∃ s, Serial.machine.exec (.init buffer) [.accepted 0] = some s ∧
      s.sending.returned = true ∧ ¬ Accounts buffer s.written s.sending) := by
  obtain ⟨buffer, hlength⟩ : ∃ buffer : List UInt8, buffer.length = 2 ^ 32 :=
    ⟨List.replicate (2 ^ 32) 0, List.length_replicate⟩
  obtain ⟨htcp, hserial⟩ := run_of_length hlength
  refine ⟨buffer, hlength, ⟨_, htcp, rfl, ?_⟩, ⟨_, hserial, rfl, ?_⟩⟩
  · intro haccounts
    exact absurd haccounts.counted (Nat.succ_ne_zero _)
  · intro haccounts
    have hshort : 0 < buffer.length := hlength ▸ Nat.two_pow_pos 32
    rcases haccounts.short hshort with ⟨-, hset⟩ | ⟨length, hpos, hlast⟩
    · cases hset
    · cases hlast
      cases hpos

end Overlapped
end Net
end Ice
