import Ice.Net.Serial
import Mathlib.Data.Nat.Find

/-!
# Which device `default_device` finds

The names come back out of the buffer one by one (`search_multi`), so that the search is the one in
the list of devices. Devices may come and go between the calls of `QueryDosDevice`; the buffer
grows with every call that fails for its size, and the first list that fits is the one that counts.
-/

set_option autoImplicit false

namespace Ice
namespace Net
namespace Serial

open Lib Overlapped DefaultDevice

variable {name buffer str : List UInt8} {names : List (List UInt8)} {ls : List Query}
  {s s' : DefaultDevice} {l : Query}

/-! ## 1. The search -/

theorem search_cons (c : UInt8) (buffer : List UInt8) :
    search (c :: buffer) =
      let str := (c :: buffer).takeWhile fun d => decide (d ≠ 0)
      if regex_match str then some str else search (buffer.drop str.length) := by
  rw [search]

/-- A name and the NUL behind it. -/
theorem search_name (hname : (0 : UInt8) ∉ name) (buffer : List UInt8) :
    search (name ++ 0 :: buffer) = if regex_match name then some name else search buffer := by
  have hne : ∀ c ∈ name, decide (c ≠ 0) = true :=
    fun c hc => decide_eq_true fun h => hname (h ▸ hc)
  have hstr : (name ++ 0 :: buffer).takeWhile (fun d => decide (d ≠ 0)) = name := by
    rw [List.takeWhile_append_of_pos hne]
    exact List.append_nil name
  cases name with
  | nil =>
    rw [List.nil_append, search_cons]
    rfl
  | cons c name =>
    rw [List.cons_append, search_cons, ← List.cons_append, hstr]
    have hlength : (c :: name).length = (name ++ [0]).length := by simp
    have hdrop : (name ++ 0 :: buffer).drop (c :: name).length = buffer := by
      rw [hlength, List.append_cons name 0 buffer]
      exact List.drop_left
    simp only [hdrop]

/-- **The names come out of the buffer.** -/
theorem search_multi (hnames : ∀ name ∈ names, (0 : UInt8) ∉ name) :
    search (multi names) = names.find? regex_match := by
  induction names with
  | nil =>
    have hend : search (multi []) = search [] := search_name (List.not_mem_nil) []
    rw [hend, search]
    rfl
  | cons name names ih =>
    have hcons : multi (name :: names) = name ++ 0 :: multi names := by simp [multi]
    rw [hcons, search_name (hnames name List.mem_cons_self), List.find?_cons,
      ih fun other hother => hnames other (List.mem_cons_of_mem name hother)]
    cases regex_match name <;> rfl

/-- What is found is the name of a serial port. -/
theorem regex_match_search (h : search buffer = some str) : regex_match str = true := by
  fun_induction search buffer with
  | case1 => cases h
  | case2 c buffer found hmatch =>
    rw [← Option.some.inj h]
    exact hmatch
  | case3 c buffer found hmatch ih => exact ih h

/-! ## 2. The calls -/

theorem regex_match_getD (bytes : List UInt8) :
    regex_match ((search bytes).getD com1) = true := by
  cases h : search bytes with
  | none => rfl
  | some device => exact regex_match_search h

def Sound : DefaultDevice → Prop
  | .query _ => True
  | .returned device => regex_match device = true

theorem Sound.step (hs : s.step l = some s') : Sound s' := by
  cases s with
  | returned device => cases hs
  | query size =>
    cases l with
    | stored bytes =>
      obtain ⟨-, hs⟩ := Option.ite_none_right_eq_some.mp hs
      exact Option.some.inj hs ▸ regex_match_getD bytes
    | failed code =>
      obtain rfl := Option.some.inj hs
      split
      · trivial
      · exact (rfl : regex_match com1 = true)

/-- The answers to the first `n` calls, with a buffer that grows from `size` on, where `devices k`
    are there in the call `k`. -/
def answers (devices : ℕ → List (List UInt8)) (size : ℕ) : ℕ → List Query
  | 0 => []
  | n + 1 =>
    answer (devices 0) size :: answers (fun k => devices (k + 1)) (size + MAX_PATH) n

/-- The buffer of the call `k` has room for its devices. -/
def Fits (devices : ℕ → List (List UInt8)) (size k : ℕ) : Prop :=
  (multi (devices k)).length ≤ dword (size + k * MAX_PATH)

theorem exec_answers {k : ℕ} {D : ℕ → List (List UInt8)} {size : ℕ}
    (hnames : ∀ name ∈ D k, (0 : UInt8) ∉ name) (hfits : Fits D size k)
    (hfirst : ∀ j, j < k → ¬ Fits D size j) :
    machine.exec (.query size) (answers D size (k + 1)) =
      some (.returned (((D k).find? regex_match).getD com1)) := by
  induction k generalizing D size with
  | zero =>
    have hroom : (multi (D 0)).length ≤ dword size := by simpa [Fits] using hfits
    have hne : multi (D 0) ≠ [] := by simp [multi]
    have hstep : machine.step (.query size) (answer (D 0) size) =
        some (.returned ((search (multi (D 0))).getD com1)) := by
      rw [answer, if_pos hroom]
      exact if_pos ⟨hne, hroom⟩
    rw [answers, Machine.exec_cons, hstep, search_multi hnames]
    rfl
  | succ k ih =>
    have hfull : ¬ (multi (D 0)).length ≤ dword size := by
      simpa [Fits] using hfirst 0 (Nat.succ_pos k)
    have hstep : machine.step (.query size) (answer (D 0) size) =
        some (.query (size + MAX_PATH)) := by
      rw [answer, if_neg hfull]
      rfl
    have hshift : ∀ j, size + MAX_PATH + j * MAX_PATH = size + (j + 1) * MAX_PATH := by
      intro j
      rw [Nat.add_mul, Nat.one_mul]
      omega
    rw [answers, Machine.exec_cons, hstep]
    refine ih (D := fun k => D (k + 1)) hnames ?_ fun j hj hjfits =>
      hfirst (j + 1) (Nat.succ_lt_succ hj) ?_
    · rw [Fits, hshift]
      exact hfits
    · rw [Fits, hshift] at hjfits
      exact hjfits

/-- **`default_device` finds the first serial port.** Whatever the system answers, a device that is
    returned has the name of one. While devices come and go between the calls, as long as their
    names never take more than `limit` bytes, and the size of the buffer fits its `DWORD`, some call
    among the first `limit / MAX_PATH + 1` has room for them, and then the first one of that call is
    returned, or `COM1` if there is none. -/
theorem default_device_finds (devices : ℕ → List (List UInt8)) (limit : ℕ)
    (hnames : ∀ k, ∀ name ∈ devices k, (0 : UInt8) ∉ name)
    (hlimit : ∀ k, (multi (devices k)).length ≤ limit) (hdword : limit + MAX_PATH < 2 ^ 32) :
    (∀ ls s, machine.exec init ls = some s → Sound s) ∧
    ∃ k ≤ limit / MAX_PATH, machine.exec init (answers devices MAX_PATH (k + 1)) =
      some (.returned (((devices k).find? regex_match).getD com1)) := by
  refine ⟨fun ls s h => Machine.exec_preserves (M := machine) (I := Sound)
    (fun _ hs => Sound.step hs) (s := init) trivial h, ?_⟩
  have hdiv := Nat.div_add_mod limit MAX_PATH
  have hmod : limit % MAX_PATH < MAX_PATH := Nat.mod_lt limit (by decide)
  have hlast : Fits devices MAX_PATH (limit / MAX_PATH) := by
    have hsize : MAX_PATH + limit / MAX_PATH * MAX_PATH < 2 ^ 32 := by
      rw [Nat.mul_comm]
      omega
    rw [Fits, dword, Nat.mod_eq_of_lt hsize, Nat.mul_comm]
    have hroom := hlimit (limit / MAX_PATH)
    omega
  classical
  let k := Nat.find ⟨_, hlast⟩
  exact ⟨k, Nat.find_min' ⟨_, hlast⟩ hlast, exec_answers (hnames k) (Nat.find_spec ⟨_, hlast⟩)
    fun j hj => Nat.find_min ⟨_, hlast⟩ hj⟩

/-- The null device is passed over, and the second port. -/
theorem default_device_finds_com :
    let devices : ℕ → List (List UInt8) := fun _ => [ascii "NUL", ascii "COM12", ascii "COM3"]
    ∃ k ≤ 0, machine.exec init (answers devices MAX_PATH (k + 1)) =
      some (.returned (ascii "COM12")) := by
  intro devices
  obtain ⟨-, hrun⟩ := default_device_finds devices 16 (fun _ => (by decide)) (fun _ => (by decide))
    (by decide)
  exact hrun

end Serial
end Net
end Ice
