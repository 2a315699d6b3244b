import Ice.Net.Ssh.Retry
import Mathlib.Tactic.Common

/-!
# What `disconnect` delivers

Each of the two loops of `disconnect` ends with a code; one that is set is delivered at once,
with the handle it is about and those outside it untouched. On the way on which nothing fails
everything is released, but the function has no `co_return` there, and its caller is given no
code at all. So `disconnect` delivers what it did exactly when a call failed
(`disconnect_delivers_iff`).
-/

set_option autoImplicit false

namespace Ice
namespace Net
namespace Ssh
namespace Retry

open Lib

/-! ## 1. What it is to deliver -/

/-- The call failed. -/
def Closing.Errs : Closing → Prop
  | .channel_close rc | .session_disconnect rc =>
    rc ≠ LIBSSH2_ERROR_NONE ∧ rc ≠ LIBSSH2_ERROR_EAGAIN
  | .io _ => False

/-- The call is not to be made again. -/
def Closing.decides : Closing → Bool
  | .channel_close rc | .session_disconnect rc => rc ≠ LIBSSH2_ERROR_EAGAIN
  | .io _ => false

namespace Disconnect

/-- A call failed: its code is delivered, the handles up to it are held. -/
inductive Failed (channel session socket : Bool) : List Closing → Disconnect → Prop
  | channel_close {past : List Closing} {rc : Int} (hchannel : channel = true)
      (herrs : (Closing.channel_close rc).Errs) :
      Failed channel session socket (past ++ [.channel_close rc])
        ⟨true, session, socket, .returned (some (domain_error_code rc))⟩
  | session_disconnect {past : List Closing} {rc : Int} (hsession : session = true)
      (herrs : (Closing.session_disconnect rc).Errs) :
      Failed channel session socket (past ++ [.session_disconnect rc])
        ⟨false, true, socket, .returned (some (domain_error_code rc))⟩

/-- No call failed: nothing is held, and a clear code is delivered. -/
structure Succeeded (past : List Closing) (s : Disconnect) : Prop where
  clean : ∀ o ∈ past, ¬ o.Errs
  delivers : s = ⟨false, false, false, .returned (some .clear)⟩

/-! ## 2. Where it stands -/

/-- Where `disconnect` stands after these outcomes. -/
inductive Inv (channel session socket : Bool) : List Closing → Disconnect → Prop
  | channel_close {past : List Closing} {l : Loop} (hchannel : channel = true)
      (hclean : ∀ o ∈ past, ¬ o.Errs) (hat : l.at_ ≠ .returned)
      (hcount : past.countP Closing.decides = 0) :
      Inv channel session socket past ⟨true, session, socket, .channel_close l⟩
  | session_disconnect {past : List Closing} {l : Loop} (hsession : session = true)
      (hclean : ∀ o ∈ past, ¬ o.Errs) (hat : l.at_ ≠ .returned)
      (hcount : past.countP Closing.decides = channel.toNat) :
      Inv channel session socket past ⟨false, true, socket, .session_disconnect l⟩
  | failed {past : List Closing} {s : Disconnect} (h : Failed channel session socket past s) :
      Inv channel session socket past s
  -- The function's end: nothing is delivered.
  | fallen {past : List Closing} (hclean : ∀ o ∈ past, ¬ o.Errs) :
      Inv channel session socket past ⟨false, false, false, .returned none⟩

variable {channel session socket : Bool} {past : List Closing} {s s' : Disconnect}

theorem Loop.step_rc {l l' : Loop} {rc : Int} (h : l.step (.rc rc) = some l') :
    rc = LIBSSH2_ERROR_NONE ∧ l' = ⟨.returned, .clear⟩ ∨
      rc ≠ LIBSSH2_ERROR_NONE ∧ rc ≠ LIBSSH2_ERROR_EAGAIN ∧
        l' = ⟨.returned, domain_error_code rc⟩ ∨
      rc = LIBSSH2_ERROR_EAGAIN ∧ l'.at_ = .io := by
  rw [Loop.step] at h
  split at h
  · split at h
    · rename_i hnone
      exact Or.inl ⟨hnone, (Option.some.inj h).symm⟩
    · rename_i hnone
      split at h
      · rename_i hagain
        exact Or.inr (Or.inl ⟨hnone, hagain, (Option.some.inj h).symm⟩)
      · rename_i hagain
        exact Or.inr (Or.inr ⟨not_not.mp hagain, Option.some.inj h ▸ rfl⟩)
  · cases h

theorem Loop.step_io {l l' : Loop} {ec : ErrorCode} (h : l.step (.io ec) = some l') :
    l'.at_ = .call := by
  rw [Loop.step] at h
  split at h
  · exact Option.some.inj h ▸ rfl
  · cases h

theorem clean_append {o : Closing} (hclean : ∀ o ∈ past, ¬ o.Errs) (ho : ¬ o.Errs) :
    ∀ p ∈ past ++ [o], ¬ p.Errs := by
  intro p hp
  rcases List.mem_append.mp hp with hp | hp
  · exact hclean p hp
  · rw [List.mem_singleton.mp hp]
    exact ho

/-- A call that is to be made again, or a wait. -/
theorem countP_again {o : Closing} {n : ℕ} (h : past.countP Closing.decides = n)
    (ho : o.decides = false) : (past ++ [o]).countP Closing.decides = n := by
  simp [List.countP_append, h, ho]

/-- `if (session_)`, when the channel is gone. -/
theorem inv_closeSession (hclean : ∀ o ∈ past, ¬ o.Errs)
    (hcount : past.countP Closing.decides = channel.toNat) (at_ : At) :
    Inv channel session socket past (closeSession ⟨false, session, socket, at_⟩) := by
  cases session with
  | true => exact .session_disconnect rfl hclean (by decide) hcount
  | false => exact .fallen hclean

theorem inv_start (channel session socket : Bool) :
    Inv channel session socket [] (start channel session socket) := by
  have hclean : ∀ o ∈ ([] : List Closing), ¬ o.Errs := fun _ hmem => by cases hmem
  cases channel with
  | true => exact .channel_close rfl hclean (by decide) rfl
  | false => exact inv_closeSession hclean rfl _

theorem domain_error_code_isSet {rc : Int} (h : rc ≠ LIBSSH2_ERROR_NONE) :
    (domain_error_code rc).isSet = true := by
  simpa [ErrorCode.isSet, domain_error_code, LIBSSH2_ERROR_NONE] using h

theorem Inv.step {o : Closing} (h : Inv channel session socket past s)
    (hstep : s.step o = some s') : Inv channel session socket (past ++ [o]) s' := by
  cases h with
  | @channel_close l hchannel hclean hat hcount =>
    cases o with
    | channel_close rc =>
      obtain ⟨l', hl, hs'⟩ := Option.map_eq_some_iff.mp hstep
      subst hs'
      rcases Loop.step_rc hl with ⟨hnone, rfl⟩ | ⟨hnone, hagain, rfl⟩ | ⟨hagain, hio⟩
      · subst hnone
        have hclosed : ¬ (Closing.channel_close LIBSSH2_ERROR_NONE).Errs := fun herrs => herrs.1 rfl
        refine inv_closeSession (clean_append hclean hclosed) ?_ _
        rw [List.countP_append, hcount, hchannel]
        rfl
      · have hset := domain_error_code_isSet hnone
        simp only [resumeChannel, hset, if_true]
        exact .failed (.channel_close hchannel ⟨hnone, hagain⟩)
      · subst hagain
        have hne : l'.at_ ≠ .returned := by rw [hio]; decide
        rw [resumeChannel, if_neg hne]
        exact .channel_close hchannel (clean_append hclean fun herrs => herrs.2 rfl) hne
          (countP_again hcount rfl)
    | session_disconnect rc => cases hstep
    | io ec =>
      obtain ⟨l', hl, hs'⟩ := Option.map_eq_some_iff.mp hstep
      subst hs'
      have hne : l'.at_ ≠ .returned := by rw [Loop.step_io hl]; decide
      rw [resumeChannel, if_neg hne]
      exact .channel_close hchannel (clean_append hclean id) hne (countP_again hcount rfl)
  | @session_disconnect l hsession hclean hat hcount =>
    cases o with
    | channel_close rc => cases hstep
    | session_disconnect rc =>
      obtain ⟨l', hl, hs'⟩ := Option.map_eq_some_iff.mp hstep
      subst hs'
      rcases Loop.step_rc hl with ⟨hnone, rfl⟩ | ⟨hnone, hagain, rfl⟩ | ⟨hagain, hio⟩
      · subst hnone
        exact .fallen (clean_append hclean fun herrs => herrs.1 rfl)
      · have hset := domain_error_code_isSet hnone
        simp only [resumeSession, hset, if_true]
        exact .failed (.session_disconnect hsession ⟨hnone, hagain⟩)
      · subst hagain
        have hne : l'.at_ ≠ .returned := by rw [hio]; decide
        rw [resumeSession, if_neg hne]
        exact .session_disconnect hsession (clean_append hclean fun herrs => herrs.2 rfl) hne
          (countP_again hcount rfl)
    | io ec =>
      obtain ⟨l', hl, hs'⟩ := Option.map_eq_some_iff.mp hstep
      subst hs'
      have hne : l'.at_ ≠ .returned := by rw [Loop.step_io hl]; decide
      rw [resumeSession, if_neg hne]
      exact .session_disconnect hsession (clean_append hclean id) hne (countP_again hcount rfl)
  | failed hfailed => cases hfailed <;> cases o <;> cases hstep
  | fallen hclean => cases o <;> cases hstep

theorem run_inv {outcomes : List Closing}
    (h : machine.exec (start channel session socket) outcomes = some s) :
    Inv channel session socket outcomes s :=
  Machine.exec_history (fun hi hl => Inv.step hi hl) (inv_start channel session socket) h

/-! ## 3. Every run -/

theorem Failed.errs (h : Failed channel session socket past s) : ∃ o ∈ past, o.Errs := by
  cases h with
  | channel_close _ herrs => exact ⟨_, List.mem_append_right _ List.mem_cons_self, herrs⟩
  | session_disconnect _ herrs => exact ⟨_, List.mem_append_right _ List.mem_cons_self, herrs⟩

/-- **`disconnect` delivers what it did if and only if a call failed**, and it is over when
    each handle it held has had its answer. -/
theorem disconnect_delivers_iff (channel session socket : Bool) (outcomes : List Closing)
    (s : Disconnect) (h : machine.exec (start channel session socket) outcomes = some s) :
    ((∀ delivers, s.at_ ≠ .returned delivers) →
      outcomes.countP Closing.decides < channel.toNat + session.toNat) ∧
    ∀ delivers, s.at_ = .returned delivers →
      (Failed channel session socket outcomes s ∨ Succeeded outcomes s ↔
        ∃ o ∈ outcomes, o.Errs) := by
  cases run_inv h with
  | channel_close hchannel hclean hat hcount =>
    refine ⟨fun _ => ?_, fun delivers hat => by cases hat⟩
    rw [hcount, hchannel]
    exact Nat.lt_of_lt_of_le Nat.zero_lt_one (Nat.le_add_right ..)
  | session_disconnect hsession hclean hat hcount =>
    refine ⟨fun _ => ?_, fun delivers hat => by cases hat⟩
    rw [hcount, hsession]
    exact Nat.lt_succ_self _
  | failed hfailed =>
    have hreturned : ∃ delivers, s.at_ = .returned delivers := by
      cases hfailed <;> exact ⟨_, rfl⟩
    refine ⟨fun hnot => ?_, fun _ _ => iff_of_true (Or.inl hfailed) hfailed.errs⟩
    obtain ⟨delivers, hat⟩ := hreturned
    exact absurd hat (hnot delivers)
  | fallen hclean =>
    refine ⟨fun hnot => absurd rfl (hnot none), fun _ _ => iff_of_false ?_ ?_⟩
    · rintro (hfailed | hsucceeded)
      · cases hfailed
      · cases hsucceeded.delivers
    · rintro ⟨o, hmem, herrs⟩
      exact hclean o hmem herrs

theorem disconnect_delivers_failure :
    Failed true true true [.channel_close LIBSSH2_ERROR_EAGAIN, .io .clear, .channel_close (-43)]
        ⟨true, true, true, .returned (some (domain_error_code (-43)))⟩ ∨
      Succeeded [.channel_close LIBSSH2_ERROR_EAGAIN, .io .clear, .channel_close (-43)]
        ⟨true, true, true, .returned (some (domain_error_code (-43)))⟩ :=
  ((disconnect_delivers_iff true true true
    [.channel_close LIBSSH2_ERROR_EAGAIN, .io .clear, .channel_close (-43)] _ rfl).2 _ rfl).mpr
    ⟨.channel_close (-43), by simp, by decide, by decide⟩

/-- Both calls succeed, and everything is released. -/
theorem disconnect_falls_off :
    ∃ s, machine.exec (start true true true) [.channel_close 0, .session_disconnect 0] = some s ∧
      s.at_ = .returned none ∧ ∀ ec, s.at_ ≠ .returned (some ec) :=
  ⟨⟨false, false, false, .returned none⟩, rfl, rfl, fun ec hat => by cases hat⟩

end Disconnect

end Retry
end Ssh
end Net
end Ice
