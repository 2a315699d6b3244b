import Ice.Net.Tcp.Connect
import Mathlib.Data.List.Count

/-!
# What `connect` says about the connection

`connect` reports success only for a connection that is made. The other way round the two branches
of the source differ. After `EINTR` the connection goes on: on FreeBSD `connect` waits for it, and
on Linux it calls `::connect` again, until a call is not interrupted, and that one fails with
`EALREADY` while the connection is being made. So there `connect` may end with an error and leave
behind a connection that is made afterwards.
-/

set_option autoImplicit false

namespace Ice
namespace Net
namespace Tcp
namespace Connect

open Lib

variable {os : Os} {past ls : List Label} {s s' : Connect} {l : Label} {ec : ErrorCode}
  {errno : Errno}

/-! ## 1. What may happen -/

/-- Waiting for the connection or asking for its error fails. -/
def Label.Fails : Label → Prop
  | .waited ec => ec.isSet = true
  | .get (some _) => True
  | _ => False

def Label.isConnect : Label → Bool
  | .connect _ => true
  | _ => false

/-- How often `::connect` was called. -/
def calls (past : List Label) : ℕ := past.countP Label.isConnect

/-- How often a signal has interrupted it. -/
def interrupts (past : List Label) : ℕ := past.countP (· = .connect (some EINTR))

def Interrupted (past : List Label) : Prop := .connect (some EINTR) ∈ past

/-- Nothing goes wrong but the connection itself. -/
def Smooth (os : Os) (past : List Label) : Prop :=
  (∀ l ∈ past, ¬ l.Fails) ∧ (os = .linux → ¬ Interrupted past)

/-- How often it may be called. -/
def limit (past : List Label) : Os → ℕ
  | .linux => interrupts past + 1
  | .freebsd => 1

/-- Where `connect` is, and what became of the connection. -/
inductive Stands (os : Os) (past : List Label) (s : Connect) : Prop
  | fresh (hat : s.at_ = .connect) (hkernel : s.kernel = .unconnected) (hpast : ¬ Interrupted past)
  | again (hat : s.at_ = .connect) (hkernel : s.kernel ≠ .unconnected)
      (hos : os = .linux) (hpast : Interrupted past)
      (hfailed : ∀ error, s.kernel = .failed error → error ≠ EINTR ∧ error ≠ EINPROGRESS os)
  | waiting (hat : s.at_ = .wait) (hkernel : s.kernel ≠ .unconnected)
      (hpast : os = .linux → ¬ Interrupted past)
  | getting (hat : s.at_ = .get) (hkernel : s.kernel ≠ .unconnected ∧ s.kernel ≠ .connecting)
      (hpast : os = .linux → ¬ Interrupted past)
  | succeeded (hat : s.at_ = .returned .clear) (hkernel : s.kernel = .established)
  | refused {ec : ErrorCode} (hat : s.at_ = .returned ec) (hec : ec.isSet = true)
      (hkernel : s.kernel = .unconnected)
  | rough {ec : ErrorCode} (hat : s.at_ = .returned ec) (hec : ec.isSet = true)
      (hpast : ¬ Smooth os past)

theorem interrupted_append (hl : l ≠ .connect (some EINTR)) :
    Interrupted (past ++ [l]) ↔ Interrupted past := by
  rw [Interrupted, List.mem_append, List.mem_singleton]
  exact ⟨fun h => h.resolve_right hl.symm, .inl⟩

theorem rough_append (h : ¬ Smooth os past) (l : Label) : ¬ Smooth os (past ++ [l]) := by
  rintro ⟨hfails, hinterrupted⟩
  exact h ⟨fun e he => hfails e (List.mem_append_left _ he),
    fun hos hin => hinterrupted hos (List.mem_append_left _ hin)⟩

theorem rough_of_fails (h : l.Fails) : ¬ Smooth os (past ++ [l]) := by
  rintro ⟨hfails, -⟩
  exact hfails l (by simp) h

theorem rough_of_interrupted (hos : os = .linux) (h : Interrupted past) (l : Label) :
    ¬ Smooth os (past ++ [l]) := by
  rintro ⟨-, hinterrupted⟩
  exact hinterrupted hos (List.mem_append_left _ h)

theorem isSet_errno (errno : Errno) : (make_error_code errno.value).isSet = true := by
  simp [errno.pos]

/-! ## 2. The steps -/

theorem connect_cases {answer : Option Errno} (hs : step os s (.connect answer) = some s') :
    s.at_ = .connect ∧ s' = ⟨s.kernel.connect os answer, called os answer⟩ := by
  obtain ⟨hat, hs⟩ := Option.ite_none_right_eq_some.mp hs
  exact ⟨hat, (Option.some.inj hs).symm⟩

theorem test_returned (h : errno ≠ EINTR ∧ errno ≠ EINPROGRESS os) :
    test os errno = .returned (make_error_code errno.value) := by
  cases os with
  | linux => rw [test, if_neg h.1, if_pos h.2]
  | freebsd => rw [test, if_pos h.symm]

/-- What the system does to the connection meanwhile. -/
theorem Stands.settle {error : Option Errno} (h : Stands os past s)
    (hq : Posix os s (.settle error)) (hs : step os s (.settle error) = some s') :
    Stands os (past ++ [.settle error]) s' := by
  obtain ⟨hconnecting, hs⟩ := Option.ite_none_right_eq_some.mp hs
  obtain rfl := Option.some.inj hs
  obtain ⟨hintr, hprogress⟩ := hq
  have hpast : Interrupted (past ++ [.settle error]) ↔ Interrupted past :=
    interrupted_append (by simp)
  have hkernel : Kernel.settled error ≠ .unconnected := by cases error <;> exact nofun
  cases h with
  | fresh _ hk => rw [hk] at hconnecting; cases hconnecting
  | again hat _ hos hin =>
    refine .again hat hkernel hos (hpast.mpr hin) fun code hcode => ?_
    cases error with
    | none => cases hcode
    | some error =>
      obtain rfl := Kernel.failed.inj hcode
      exact ⟨mt (congrArg some) hintr, mt (congrArg some) hprogress⟩
  | waiting hat _ hnot => exact .waiting hat hkernel fun hos => mt hpast.mp (hnot hos)
  | getting _ hk => exact absurd hconnecting hk.2
  | succeeded _ hk => rw [hk] at hconnecting; cases hconnecting
  | refused _ _ hk => rw [hk] at hconnecting; cases hconnecting
  | rough hat hec hnot => exact .rough hat hec (rough_append hnot _)

theorem Stands.waited (h : Stands os past s) (hq : Posix os s (.waited ec))
    (hs : step os s (.waited ec) = some s') : Stands os (past ++ [.waited ec]) s' := by
  obtain ⟨hwait, hs⟩ := Option.ite_none_right_eq_some.mp hs
  obtain rfl := Option.some.inj hs
  have hpast : Interrupted (past ++ [.waited ec]) ↔ Interrupted past :=
    interrupted_append (by simp)
  cases h with
  | waiting _ hk hnot =>
    cases hec : ec.isSet with
    | true => exact .rough rfl hec (rough_of_fails hec)
    | false => exact .getting rfl ⟨hk, hq hec⟩ fun hos => mt hpast.mp (hnot hos)
  | fresh hat => rw [hat] at hwait; cases hwait
  | again hat => rw [hat] at hwait; cases hwait
  | getting hat => rw [hat] at hwait; cases hwait
  | succeeded hat => rw [hat] at hwait; cases hwait
  | refused hat => rw [hat] at hwait; cases hwait
  | rough hat => rw [hat] at hwait; cases hwait

theorem Stands.get {answer : Option Errno} (h : Stands os past s)
    (hs : step os s (.get answer) = some s') : Stands os (past ++ [.get answer]) s' := by
  have hget : s.at_ = .get := by
    cases answer with
    | some errno => exact (Option.ite_none_right_eq_some.mp hs).1
    | none => exact (Option.ite_none_right_eq_some.mp hs).1
  cases h with
  | getting _ hk hnot =>
    cases answer with
    | some errno =>
      obtain ⟨-, hs⟩ := Option.ite_none_right_eq_some.mp hs
      obtain rfl := Option.some.inj hs
      exact .rough rfl (isSet_errno errno) (rough_of_fails trivial)
    | none =>
      obtain ⟨-, hs⟩ := Option.ite_none_right_eq_some.mp hs
      obtain rfl := Option.some.inj hs
      obtain ⟨kernel, at_⟩ := s
      cases kernel with
      | unconnected => exact absurd rfl hk.1
      | connecting => exact absurd rfl hk.2
      | established =>
        exact .succeeded rfl rfl
      | failed error =>
        have hne : error.value ≠ 0 := Nat.ne_of_gt error.pos
        exact .refused (congrArg At.returned (if_pos hne)) (isSet_errno error) rfl
  | fresh hat => rw [hat] at hget; cases hget
  | again hat => rw [hat] at hget; cases hget
  | waiting hat => rw [hat] at hget; cases hget
  | succeeded hat => rw [hat] at hget; cases hget
  | refused hat => rw [hat] at hget; cases hget
  | rough hat => rw [hat] at hget; cases hget

/-- The first call. -/
theorem Stands.first {answer : Option Errno} (hnot : ¬ Interrupted past)
    (hk : s.kernel = .unconnected) (hs : step os s (.connect answer) = some s') :
    Stands os (past ++ [.connect answer]) s' := by
  obtain ⟨-, rfl⟩ := connect_cases hs
  rw [hk]
  cases answer with
  | none => exact .succeeded rfl rfl
  | some errno =>
    by_cases hbegun : errno = EINTR ∨ errno = EINPROGRESS os
    · have hthen : Kernel.unconnected.connect os (some errno) = .connecting := if_pos hbegun
      have hne : Kernel.unconnected.connect os (some errno) ≠ .unconnected := by
        rw [hthen]
        exact nofun
      obtain rfl | hprogress := hbegun
      · cases os with
        | linux =>
          refine .again rfl hne rfl (by simp [Interrupted]) fun error herror => ?_
          cases hthen.symm.trans herror
        | freebsd => exact .waiting rfl hne nofun
      · have hwait : test os errno = .wait := by subst hprogress; cases os <;> rfl
        have hintr : errno ≠ EINTR := by
          rw [hprogress]
          cases os <;> decide
        refine .waiting hwait hne fun _ => ?_
        rwa [interrupted_append (by simpa using hintr)]
    · exact .refused (test_returned (not_or.mp hbegun)) (isSet_errno errno) (if_neg hbegun)

/-- A call after an interrupted one. -/
theorem Stands.second {answer : Option Errno} (hos : os = .linux) (hpast : Interrupted past)
    (hk : s.kernel ≠ .unconnected)
    (hfailed : ∀ error, s.kernel = .failed error → error ≠ EINTR ∧ error ≠ EINPROGRESS os)
    (hq : s.kernel.Answers os answer) (hs : step os s (.connect answer) = some s') :
    Stands os (past ++ [.connect answer]) s' := by
  obtain ⟨-, rfl⟩ := connect_cases hs
  have hrough : ¬ Smooth os (past ++ [.connect answer]) := rough_of_interrupted hos hpast _
  have hin : Interrupted (past ++ [.connect answer]) := List.mem_append_left _ hpast
  subst hos
  cases hthen : s.kernel with
  | unconnected => exact absurd hthen hk
  | connecting =>
    rw [hthen] at hq
    obtain rfl | rfl := hq
    · exact .again rfl nofun rfl hin nofun
    · exact .rough rfl (isSet_errno _) hrough
  | established =>
    rw [hthen] at hq
    obtain rfl | rfl | rfl := hq
    · exact .succeeded rfl rfl
    · exact .again rfl nofun rfl hin nofun
    · exact .rough rfl (isSet_errno _) hrough
  | failed error =>
    rw [hthen] at hq
    have herror := hfailed error hthen
    obtain rfl | rfl := hq
    · have hstill : (Kernel.failed error).connect .linux (some EINTR) = .failed error :=
        if_neg herror.1.symm
      refine .again rfl (by rw [hstill]; exact nofun) rfl hin fun code hcode => ?_
      obtain rfl := Kernel.failed.inj (hstill.symm.trans hcode)
      exact herror
    · exact .refused (test_returned herror) (isSet_errno error) (if_pos rfl)

theorem Stands.connect {answer : Option Errno} (h : Stands os past s)
    (hq : Posix os s (.connect answer)) (hs : step os s (.connect answer) = some s') :
    Stands os (past ++ [.connect answer]) s' := by
  have hconnect : s.at_ = .connect := (connect_cases hs).1
  cases h with
  | fresh _ hk hnot => exact .first hnot hk hs
  | again _ hk hos hin hfailed => exact .second hos hin hk hfailed hq hs
  | waiting hat => rw [hat] at hconnect; cases hconnect
  | getting hat => rw [hat] at hconnect; cases hconnect
  | succeeded hat => rw [hat] at hconnect; cases hconnect
  | refused hat => rw [hat] at hconnect; cases hconnect
  | rough hat => rw [hat] at hconnect; cases hconnect

theorem Stands.step (h : Stands os past s) (hq : Posix os s l) (hs : step os s l = some s') :
    Stands os (past ++ [l]) s' := by
  cases l with
  | connect answer => exact h.connect hq hs
  | waited ec => exact h.waited hq hs
  | get answer => exact h.get hs
  | settle error => exact h.settle hq hs

/-! ## 3. Runs -/

instance (os : Os) : (kernel : Kernel) → (answer : Option Errno) →
    Decidable (kernel.Answers os answer)
  | .unconnected, _ => instDecidableTrue
  | .connecting, _ => inferInstanceAs (Decidable (_ ∨ _))
  | .established, _ => inferInstanceAs (Decidable (_ ∨ _ ∨ _))
  | .failed _, _ => inferInstanceAs (Decidable (_ ∨ _))

instance (os : Os) (s : Connect) : (l : Label) → Decidable (Posix os s l)
  | .connect answer => inferInstanceAs (Decidable (s.kernel.Answers os answer))
  | .waited _ => inferInstanceAs (Decidable (_ → _ ≠ _))
  | .settle _ => inferInstanceAs (Decidable (_ ≠ _ ∧ _ ≠ _))
  | .get _ => instDecidableTrue

end Connect
end Tcp
end Net
end Ice
