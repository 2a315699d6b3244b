import Ice.Net.Completion
import Mathlib.Data.List.Count
import Mathlib.Data.List.Nodup

/-!
# A request on Windows wakes its coroutine once

Two parties exchange `ready_` once for each request: `await_suspend` of the coroutine and
`resume` of its event. What is left of a request is one of three things (`Left`): the system has
it, its packet is on the way, or `resume` has been there first. The packets on the way are the
rest of the batch and then the port. Each step moves one request to the next of these, and what it
does to the others is nothing (`Same`).
-/

set_option autoImplicit false

namespace Ice
namespace Net
namespace Completion
namespace World

open Lib Request

variable {C : Type*}

/-- The packets on the way, in the order in which `resume` is called. -/
def packets (s : World C) : List C := s.batch ++ s.port

variable [DecidableEq C] {s s' : World C} {c d : C} {count : ℕ} {l : Label C}

/-! ## 1. What is left of a request -/

/-- What is left of the coroutine's last request. -/
inductive Left (s : World C) (c : C) : Prop
  | nothing (halive : alive (s.coroutine c) = false) (hpending : s.pending c = false)
      (hpacket : c ∉ s.packets) (hlife : (life c).exec .idle s.events = some .idle)
  | system (halive : alive (s.coroutine c) = true)
      (hready : s.ready_ c = true ↔ s.coroutine c = .suspended) (hpending : s.pending c = true)
      (hpacket : c ∉ s.packets) (hlife : (life c).exec .idle s.events = some .pending)
  | packet (halive : alive (s.coroutine c) = true)
      (hready : s.ready_ c = true ↔ s.coroutine c = .suspended) (hpending : s.pending c = false)
      (hpacket : c ∈ s.packets) (hlife : (life c).exec .idle s.events = some .complete)
  -- `resume` has exchanged `ready_`, and the exchange of `await_suspend` is still to come
  | reached (halive : alive (s.coroutine c) = true) (hplace : s.coroutine c ≠ .suspended)
      (hready : s.ready_ c = true) (hpending : s.pending c = false) (hpacket : c ∉ s.packets)
      (hlife : (life c).exec .idle s.events = some .complete)

structure Inv (s : World C) : Prop where
  left : ∀ c, Left s c
  awaiter : ∀ c, s.coroutine c = .stored ∨ s.coroutine c = .suspended → s.awaiter_ c = true
  nodup : s.packets.Nodup
  host : ∀ c, s.host = some c →
    s.coroutine c = .running ∨ s.coroutine c = .awaiting ∨ s.coroutine c = .stored
  safe : s.fault = false

/-- Nothing of a coroutine has changed. -/
structure Same (s s' : World C) (c : C) : Prop where
  coroutine : s'.coroutine c = s.coroutine c
  ready : s'.ready_ c = s.ready_ c
  awaiter : s'.awaiter_ c = s.awaiter_ c
  pending : s'.pending c = s.pending c
  packets : c ∈ s'.packets ↔ c ∈ s.packets
  events : s'.events = s.events ∨ ∃ e, s'.events = s.events ++ [e] ∧ e.party ≠ c

theorem Same.life {st : Request.Stage} (h : Same s s' c)
    (hlife : (life c).exec .idle s.events = some st) :
    (Request.life c).exec .idle s'.events = some st := by
  rcases h.events with heq | ⟨e, heq, hne⟩
  · rw [heq]
    exact hlife
  · rw [heq]
    exact life_other hlife hne

theorem Left.same (h : Left s c) (hsame : Same s s' c) : Left s' c := by
  cases h with
  | nothing halive hpending hpacket hlife =>
    exact .nothing (hsame.coroutine ▸ halive) (hsame.pending ▸ hpending)
      (mt hsame.packets.mp hpacket) (hsame.life hlife)
  | system halive hready hpending hpacket hlife =>
    exact .system (hsame.coroutine ▸ halive) (hsame.ready ▸ hsame.coroutine ▸ hready)
      (hsame.pending ▸ hpending) (mt hsame.packets.mp hpacket) (hsame.life hlife)
  | packet halive hready hpending hpacket hlife =>
    exact .packet (hsame.coroutine ▸ halive) (hsame.ready ▸ hsame.coroutine ▸ hready)
      (hsame.pending ▸ hpending) (hsame.packets.mpr hpacket) (hsame.life hlife)
  | reached halive hplace hready hpending hpacket hlife =>
    exact .reached (hsame.coroutine ▸ halive) (hsame.coroutine ▸ hplace) (hsame.ready ▸ hready)
      (hsame.pending ▸ hpending) (mt hsame.packets.mp hpacket) (hsame.life hlife)

/-- A step that changes one coroutine, and hosts no other than before. -/
theorem Inv.change (h : Inv s) (hsame : ∀ d, d ≠ c → Same s s' d) (hleft : Left s' c)
    (hawaiter : s'.coroutine c = .stored ∨ s'.coroutine c = .suspended → s'.awaiter_ c = true)
    (hnodup : s'.packets.Nodup)
    (hhost : ∀ d, s'.host = some d → d ≠ c ∧ s.host = some d ∨ d = c ∧
      (s'.coroutine c = .running ∨ s'.coroutine c = .awaiting ∨ s'.coroutine c = .stored))
    (hsafe : s'.fault = false) : Inv s' where
  left d := by
    by_cases hdc : d = c
    · rw [hdc]
      exact hleft
    · exact (h.left d).same (hsame d hdc)
  awaiter d hd := by
    by_cases hdc : d = c
    · rw [hdc] at hd ⊢
      exact hawaiter hd
    · rw [(hsame d hdc).coroutine] at hd
      rw [(hsame d hdc).awaiter]
      exact h.awaiter d hd
  nodup := hnodup
  host d hd := by
    rcases hhost d hd with ⟨hdc, hold⟩ | ⟨rfl, hplace⟩
    · rw [(hsame d hdc).coroutine]
      exact h.host d hold
    · exact hplace
  safe := hsafe

theorem Inv.init : Inv (init : World C) where
  left _ := .nothing rfl rfl List.not_mem_nil rfl
  awaiter _ h := by rcases h with h | h <;> cases h
  nodup := List.nodup_nil
  host _ h := by cases h
  safe := rfl

/-! ## 2. The steps -/

theorem Inv.request (h : Inv s) (hs : s.step (.request c) = some s') : Inv s' := by
  obtain ⟨hrun, hs⟩ := Option.ite_none_right_eq_some.mp hs
  obtain rfl := Option.some.inj hs
  refine h.change (c := c) (fun d hdc => ?_) ?_ ?_ h.nodup (fun d hd => ?_) h.safe
  · exact ⟨Function.update_of_ne hdc .., Function.update_of_ne hdc .., Function.update_of_ne hdc ..,
      Function.update_of_ne hdc .., Iff.rfl, .inr ⟨_, rfl, Ne.symm hdc⟩⟩
  · cases h.left c with
    | nothing halive hpending hpacket hlife =>
      exact .system (by simp [alive]) (by simp) (by simp) hpacket (life_next hlife rfl rfl)
    | system halive => rw [hrun] at halive; cases halive
    | packet halive => rw [hrun] at halive; cases halive
    | reached halive => rw [hrun] at halive; cases halive
  · simp
  · by_cases hdc : d = c
    · exact .inr ⟨hdc, by simp⟩
    · exact .inl ⟨hdc, hd⟩

theorem Inv.store (h : Inv s) (hs : s.step (.store c) = some s') : Inv s' := by
  obtain ⟨hplace, hs⟩ := Option.ite_none_right_eq_some.mp hs
  obtain rfl := Option.some.inj hs
  refine h.change (c := c) (fun d hdc => ?_) ?_ ?_ h.nodup (fun d hd => ?_) h.safe
  · exact ⟨Function.update_of_ne hdc .., rfl, Function.update_of_ne hdc .., rfl, Iff.rfl, .inl rfl⟩
  · cases h.left c with
    | nothing halive => rw [hplace] at halive; cases halive
    | system halive hready hpending hpacket hlife =>
      exact .system (by simp [alive]) (by simpa [hplace] using hready) hpending hpacket hlife
    | packet halive hready hpending hpacket hlife =>
      exact .packet (by simp [alive]) (by simpa [hplace] using hready) hpending hpacket hlife
    | reached halive _ hready hpending hpacket hlife =>
      exact .reached (by simp [alive]) (by simp) hready hpending hpacket hlife
  · simp
  · by_cases hdc : d = c
    · exact .inr ⟨hdc, by simp⟩
    · exact .inl ⟨hdc, hd⟩

theorem Inv.complete (h : Inv s) (hs : s.step (.complete c) = some s') : Inv s' := by
  obtain ⟨hpending, hs⟩ := Option.ite_none_right_eq_some.mp hs
  obtain rfl := Option.some.inj hs
  have hpackets : ({ s with
      pending := Function.update s.pending c false
      port := s.port ++ [c]
      events := s.events ++ [.completed c] } : World C).packets = s.packets ++ [c] :=
    (List.append_assoc ..).symm
  cases h.left c with
  | nothing _ hnot => rw [hpending] at hnot; cases hnot
  | packet _ _ hnot => rw [hpending] at hnot; cases hnot
  | reached _ _ _ hnot => rw [hpending] at hnot; cases hnot
  | system halive hready _ hpacket hlife =>
    refine h.change (c := c) (fun d hdc => ?_) ?_ (h.awaiter c) ?_ (fun d hd => ?_) h.safe
    · refine ⟨rfl, rfl, rfl, Function.update_of_ne hdc .., ?_, .inr ⟨_, rfl, Ne.symm hdc⟩⟩
      rw [hpackets]
      simp [hdc]
    · refine .packet halive hready (by simp) ?_ (life_next hlife rfl rfl)
      rw [hpackets]
      simp
    · rw [hpackets]
      rw [← List.concat_eq_append]
      exact h.nodup.concat hpacket
    · by_cases hdc : d = c
      · exact .inr ⟨hdc, h.host c (hdc ▸ hd)⟩
      · exact .inl ⟨hdc, hd⟩

theorem Inv.take (h : Inv s) (hs : s.step (.take count) = some s') :
    Inv s' ∧ s'.packets = s.packets := by
  obtain ⟨⟨-, hbatch, -, -⟩, hs⟩ := Option.ite_none_right_eq_some.mp hs
  obtain rfl := Option.some.inj hs
  have hpackets : ({ s with batch := s.port.take count, port := s.port.drop count } :
      World C).packets = s.packets := by
    rw [packets, packets, hbatch]
    exact List.take_append_drop count s.port
  refine ⟨⟨fun c => (h.left c).same ⟨rfl, rfl, rfl, rfl, by rw [hpackets], .inl rfl⟩, h.awaiter,
    by rw [hpackets]; exact h.nodup, h.host, h.safe⟩, hpackets⟩

theorem host_leave (hd : (s.leave c).host = some d) : d ≠ c ∧ s.host = some d := by
  unfold leave at hd
  dsimp only at hd
  split at hd
  · cases hd
  · rename_i hne
    exact ⟨fun hdc => hne (hdc ▸ hd), hd⟩

theorem Inv.end_ (h : Inv s) (hs : s.step (.end_ c) = some s') : Inv s' := by
  obtain ⟨hrun, hs⟩ := Option.ite_none_right_eq_some.mp hs
  obtain rfl := Option.some.inj hs
  refine h.change (c := c) (fun d hdc => ?_) ?_ ?_ h.nodup (fun d hd => .inl (host_leave hd))
    h.safe
  · exact ⟨Function.update_of_ne hdc .., rfl, rfl, rfl, Iff.rfl, .inl rfl⟩
  · cases h.left c with
    | nothing halive hpending hpacket hlife =>
      exact .nothing (by simp [leave, alive]) hpending hpacket hlife
    | system halive => rw [hrun] at halive; cases halive
    | packet halive => rw [hrun] at halive; cases halive
    | reached halive => rw [hrun] at halive; cases halive
  · simp [leave]

/-- The coroutine goes on, with its request complete and no packet of it on the way. -/
theorem continue_left (hpending : s.pending c = false) (hpacket : c ∉ s.packets)
    (hlife : (life c).exec .idle s.events = some .complete) (place : At) :
    Left (s.continue_ c place) c :=
  .nothing (by simp [continue_, alive]) hpending hpacket (life_next hlife rfl rfl)

theorem continue_safe {place : At} (hsafe : s.fault = false) (hplace : s.coroutine c = place)
    (hawaiter : s.awaiter_ c = true) (hpending : s.pending c = false) :
    (s.continue_ c place).fault = false := by
  simp [continue_, hsafe, hplace, hawaiter, hpending]

theorem continue_same (hdc : d ≠ c) (place : At) : Same s (s.continue_ c place) d :=
  ⟨Function.update_of_ne hdc .., rfl, rfl, rfl, Iff.rfl, .inr ⟨_, rfl, Ne.symm hdc⟩⟩

theorem Inv.suspend (h : Inv s) (hs : s.step (.suspend c) = some s') : Inv s' := by
  obtain ⟨hplace, hs⟩ := Option.ite_none_right_eq_some.mp hs
  have hawaiter := h.awaiter c (.inl hplace)
  cases hready : s.ready_ c with
  | true =>
    -- `resume` was first
    rw [hready, if_pos rfl] at hs
    obtain rfl := Option.some.inj hs
    cases h.left c with
    | nothing halive => rw [hplace] at halive; cases halive
    | system _ hiff => cases hplace.symm.trans (hiff.mp hready)
    | packet _ hiff => cases hplace.symm.trans (hiff.mp hready)
    | reached _ _ _ hpending hpacket hlife =>
      refine h.change (c := c) (fun d hdc => continue_same hdc .stored)
        (continue_left hpending hpacket hlife .stored) ?_ h.nodup (fun d hd => ?_)
        (continue_safe h.safe hplace hawaiter hpending)
      · simp [continue_]
      · by_cases hdc : d = c
        · exact .inr ⟨hdc, by simp [continue_]⟩
        · exact .inl ⟨hdc, hd⟩
  | false =>
    rw [hready, if_neg Bool.false_ne_true] at hs
    obtain rfl := Option.some.inj hs
    refine h.change (c := c) (fun d hdc => ?_) ?_ (fun _ => hawaiter) h.nodup
      (fun d hd => .inl (host_leave hd)) h.safe
    · exact ⟨Function.update_of_ne hdc .., Function.update_of_ne hdc .., rfl, rfl, Iff.rfl,
        .inl rfl⟩
    · cases h.left c with
      | nothing halive => rw [hplace] at halive; cases halive
      | system _ _ hpending hpacket hlife =>
        exact .system (by simp [leave, alive]) (by simp [leave]) hpending hpacket hlife
      | packet _ _ hpending hpacket hlife =>
        exact .packet (by simp [leave, alive]) (by simp [leave]) hpending hpacket hlife
      | reached _ _ hnot => rw [hready] at hnot; cases hnot

/-- The next entry, and what `resume` of its event does. -/
theorem resume_cases (hs : s.step .resume = some s') :
    ∃ c rest, s.host = none ∧ s.batch = c :: rest ∧
      ((s.ready_ c = true ∧ s' = { continue_
          { s with batch := rest, fault := s.fault || !alive (s.coroutine c) } c .suspended with
          host := some c }) ∨
        s.ready_ c = false ∧ s' = { s with
          batch := rest
          fault := s.fault || !alive (s.coroutine c)
          ready_ := Function.update s.ready_ c true }) := by
  simp only [step] at hs
  split at hs
  next c rest hhost hbatch =>
    refine ⟨c, rest, hhost, hbatch, ?_⟩
    cases hready : s.ready_ c with
    | true =>
      rw [hready, if_pos rfl] at hs
      exact .inl ⟨rfl, (Option.some.inj hs).symm⟩
    | false =>
      rw [hready, if_neg Bool.false_ne_true] at hs
      exact .inr ⟨rfl, (Option.some.inj hs).symm⟩
  next => cases hs

theorem Inv.resume (h : Inv s) (hs : s.step .resume = some s') : Inv s' := by
  obtain ⟨c, rest, hhost, hbatch, hs⟩ := resume_cases hs
  have hpackets : s.packets = c :: (rest ++ s.port) := by
    rw [packets, hbatch]
    rfl
  have hnodup := h.nodup
  rw [hpackets, List.nodup_cons] at hnodup
  have hmem : ∀ d, d ≠ c → (d ∈ rest ++ s.port ↔ d ∈ s.packets) := by
    intro d hdc
    rw [hpackets, List.mem_cons]
    exact ⟨.inr, fun hd => hd.resolve_left hdc⟩
  cases h.left c with
  | nothing _ _ hnot => exact absurd (hpackets ▸ List.mem_cons_self) hnot
  | system _ _ _ hnot => exact absurd (hpackets ▸ List.mem_cons_self) hnot
  | reached _ _ _ _ hnot => exact absurd (hpackets ▸ List.mem_cons_self) hnot
  | packet halive hiff hpending _ hlife =>
    have hsafe : (s.fault || !alive (s.coroutine c)) = false := by rw [h.safe, halive]; rfl
    rcases hs with ⟨hready, rfl⟩ | ⟨hready, rfl⟩
    · -- the coroutine is suspended, and goes on here
      have hplace := hiff.mp hready
      have hleft := continue_left (s := { s with batch := rest }) hpending hnodup.1 hlife .suspended
      refine h.change (c := c) (fun d hdc => ?_)
        (hleft.same ⟨rfl, rfl, rfl, rfl, Iff.rfl, .inl rfl⟩) ?_ hnodup.2 (fun d hd => ?_)
        (continue_safe hsafe hplace (h.awaiter c (.inr hplace)) hpending)
      · exact ⟨Function.update_of_ne hdc .., rfl, rfl, rfl, hmem d hdc,
          .inr ⟨_, rfl, Ne.symm hdc⟩⟩
      · simp [continue_]
      · exact .inr ⟨(Option.some.inj hd).symm, by simp [continue_]⟩
    · -- the coroutine is still in `await_suspend`
      have hplace : s.coroutine c ≠ .suspended := fun hp => by
        rw [hiff.mpr hp] at hready
        cases hready
      refine h.change (c := c) (fun d hdc => ?_) ?_ (h.awaiter c) hnodup.2 (fun d hd => ?_) hsafe
      · exact ⟨rfl, Function.update_of_ne hdc .., rfl, rfl, hmem d hdc, .inl rfl⟩
      · exact .reached halive hplace (by simp) hpending hnodup.1 hlife
      · rw [hhost] at hd
        cases hd

theorem Inv.step (h : Inv s) (hs : s.step l = some s') : Inv s' := by
  cases l with
  | request c => exact h.request hs
  | store c => exact h.store hs
  | suspend c => exact h.suspend hs
  | complete c => exact h.complete hs
  | take count => exact (h.take hs).1
  | resume => exact h.resume hs
  | end_ c => exact h.end_ hs

theorem inv_of_reaches (hr : machine.Reaches (init : World C) s) : Inv s :=
  hr.preserves (fun h _ hs => h.step hs) .init

/-! ## 3. Waiting for a packet -/

/-- How often the coroutine has continued after a request. -/
def continued (s : World C) (c : C) : ℕ := s.events.count (.continued c)

/-- The coroutine is suspended behind `m` packets or fewer. -/
structure Behind (s : World C) (c : C) (m : ℕ) : Prop where
  place : s.coroutine c = .suspended
  packet : c ∈ s.packets
  bound : s.packets.idxOf c ≤ m

/-- A packet behind the coroutine's own changes nothing, and neither does an event of another. -/
theorem Behind.same {m : ℕ} (h : Behind s c m) (hplace : s'.coroutine c = s.coroutine c)
    (hpackets : ∃ more, s'.packets = s.packets ++ more) : Behind s' c m := by
  obtain ⟨more, hpackets⟩ := hpackets
  refine ⟨hplace.trans h.place, ?_, ?_⟩
  · rw [hpackets]
    exact List.mem_append_left more h.packet
  · rw [hpackets, List.idxOf_append_of_mem h.packet]
    exact h.bound

theorem continued_append {e : Request C} (he : e ≠ .continued c) :
    (s.events ++ [e]).count (.continued c) = s.continued c := by
  rw [List.count_append, List.count_singleton, if_neg (by simpa using he)]
  rfl

/-- The entry at the front is the coroutine's, or it is one nearer to the front. -/
theorem Behind.resume {m : ℕ} (h : Behind s c m) (hinv : Inv s)
    (hs : s.step .resume = some s') :
    s.continued c < s'.continued c ∨
      (∃ m', Behind s' c m' ∧ m' + 1 ≤ m) ∧ s'.continued c = s.continued c := by
  obtain ⟨d, rest, hhost, hbatch, hs⟩ := resume_cases hs
  have hpackets : s.packets = d :: (rest ++ s.port) := by
    rw [packets, hbatch]
    rfl
  by_cases hdc : d = c
  · subst hdc
    have hready : s.ready_ d = true := by
      cases hinv.left d with
      | nothing halive => rw [h.place] at halive; cases halive
      | system _ hiff => exact hiff.mpr h.place
      | packet _ hiff => exact hiff.mpr h.place
      | reached _ hne => exact absurd h.place hne
    rcases hs with ⟨-, rfl⟩ | ⟨hnot, -⟩
    · refine .inl ?_
      have hcount : (s.events ++ [Request.continued d]).count (Request.continued d) =
          s.continued d + 1 := by
        rw [List.count_append, List.count_singleton_self]
        rfl
      exact Nat.lt_of_lt_of_eq (Nat.lt_succ_self _) hcount.symm
    · rw [hready] at hnot
      cases hnot
  · refine .inr ?_
    have hmem : c ∈ rest ++ s.port := by
      have hin := h.packet
      rw [hpackets, List.mem_cons] at hin
      exact hin.resolve_left (Ne.symm hdc)
    have hidx : s.packets.idxOf c = (rest ++ s.port).idxOf c + 1 := by
      rw [hpackets, List.idxOf_cons_ne _ hdc]
    have hbound := h.bound
    rcases hs with ⟨-, rfl⟩ | ⟨-, rfl⟩
    · refine ⟨⟨(rest ++ s.port).idxOf c, ⟨?_, hmem, Nat.le_refl _⟩, by omega⟩,
        continued_append (by simpa using hdc)⟩
      exact (Function.update_of_ne (Ne.symm hdc) ..).trans h.place
    · exact ⟨⟨(rest ++ s.port).idxOf c, ⟨h.place, hmem, Nat.le_refl _⟩, by omega⟩, rfl⟩

/-- No other step lets the coroutine go on, or puts a packet in front of its own. -/
theorem Behind.step {m : ℕ} (h : Behind s c m) (hinv : Inv s) (hl : l ≠ .resume)
    (hs : s.step l = some s') : Behind s' c m ∧ s'.continued c = s.continued c := by
  have hother : ∀ {d place}, s.coroutine d = place → place ≠ .suspended → c ≠ d := by
    rintro d place hd hne rfl
    exact hne (hd.symm.trans h.place)
  have hsame : ∃ more, s.packets = s.packets ++ more := ⟨[], (List.append_nil _).symm⟩
  cases l with
  | resume => exact absurd rfl hl
  | request d =>
    obtain ⟨hd, hs⟩ := Option.ite_none_right_eq_some.mp hs
    obtain rfl := Option.some.inj hs
    exact ⟨h.same (Function.update_of_ne (hother hd nofun) ..) hsame, continued_append nofun⟩
  | store d =>
    obtain ⟨hd, hs⟩ := Option.ite_none_right_eq_some.mp hs
    obtain rfl := Option.some.inj hs
    exact ⟨h.same (Function.update_of_ne (hother hd nofun) ..) hsame, rfl⟩
  | suspend d =>
    obtain ⟨hd, hs⟩ := Option.ite_none_right_eq_some.mp hs
    have hne := hother hd nofun
    split at hs
    · obtain rfl := Option.some.inj hs
      refine ⟨h.same (Function.update_of_ne hne ..) hsame, continued_append ?_⟩
      simpa using Ne.symm hne
    · obtain rfl := Option.some.inj hs
      exact ⟨h.same (Function.update_of_ne hne ..) hsame, rfl⟩
  | complete d =>
    obtain ⟨-, hs⟩ := Option.ite_none_right_eq_some.mp hs
    obtain rfl := Option.some.inj hs
    exact ⟨h.same rfl ⟨[d], (List.append_assoc ..).symm⟩, continued_append nofun⟩
  | take count =>
    have hpackets := (hinv.take hs).2
    obtain ⟨-, hs⟩ := Option.ite_none_right_eq_some.mp hs
    obtain rfl := Option.some.inj hs
    exact ⟨h.same rfl ⟨[], by rw [hpackets, List.append_nil]⟩, rfl⟩
  | end_ d =>
    obtain ⟨hd, hs⟩ := Option.ite_none_right_eq_some.mp hs
    obtain rfl := Option.some.inj hs
    exact ⟨h.same (Function.update_of_ne (hother hd nofun) ..) hsame, rfl⟩

/-- Events are never taken back. -/
theorem events_step (hs : s.step l = some s') : ∃ more, s'.events = s.events ++ more := by
  have hsame : ∃ more, s.events = s.events ++ more := ⟨[], (List.append_nil _).symm⟩
  cases l with
  | request d =>
    obtain ⟨-, hs⟩ := Option.ite_none_right_eq_some.mp hs
    obtain rfl := Option.some.inj hs
    exact ⟨_, rfl⟩
  | store d =>
    obtain ⟨-, hs⟩ := Option.ite_none_right_eq_some.mp hs
    obtain rfl := Option.some.inj hs
    exact hsame
  | suspend d =>
    obtain ⟨-, hs⟩ := Option.ite_none_right_eq_some.mp hs
    split at hs
    · obtain rfl := Option.some.inj hs
      exact ⟨_, rfl⟩
    · obtain rfl := Option.some.inj hs
      exact hsame
  | complete d =>
    obtain ⟨-, hs⟩ := Option.ite_none_right_eq_some.mp hs
    obtain rfl := Option.some.inj hs
    exact ⟨_, rfl⟩
  | take count =>
    obtain ⟨-, hs⟩ := Option.ite_none_right_eq_some.mp hs
    obtain rfl := Option.some.inj hs
    exact hsame
  | resume =>
    obtain ⟨d, rest, -, -, ⟨-, rfl⟩ | ⟨-, rfl⟩⟩ := resume_cases hs
    · exact ⟨_, rfl⟩
    · exact hsame
  | end_ d =>
    obtain ⟨-, hs⟩ := Option.ite_none_right_eq_some.mp hs
    obtain rfl := Option.some.inj hs
    exact hsame

theorem continued_mono (hs : s.step l = some s') : s.continued c ≤ s'.continued c := by
  obtain ⟨more, hmore⟩ := events_step hs
  rw [continued, continued, hmore, List.count_append]
  exact Nat.le_add_right _ _

/-- More calls of `resume` than there are packets in front of its own, and the coroutine has gone
    on. -/
theorem Behind.continues {m : ℕ} {ls : List (Label C)} (h : Behind s c m) (hinv : Inv s)
    (hrun : machine.exec s ls = some s') (hcount : m < ls.countP (· = .resume)) :
    s.continued c < s'.continued c := by
  refine Machine.exec_finishes (M := machine) (p := fun l => l = .resume)
    (I := fun m a => Behind a c m ∧ Inv a ∧ a.continued c = s.continued c)
    (D := fun a => s.continued c < a.continued c) ?_ ?_ ⟨h, hinv, rfl⟩ hrun hcount
  · rintro m a l b ⟨hbehind, hinv, heq⟩ hl
    have hb := hinv.step hl
    by_cases hresume : l = .resume
    · subst hresume
      rcases hbehind.resume hinv hl with hdone | ⟨⟨m', hm', hle⟩, hsame⟩
      · exact .inl (heq ▸ hdone)
      · exact .inr ⟨m', ⟨hm', hb, hsame.trans heq⟩, by simpa using hle⟩
    · obtain ⟨hm, hsame⟩ := hbehind.step hinv hresume hl
      exact .inr ⟨m, ⟨hm, hb, hsame.trans heq⟩, by simp [hresume]⟩
  · intro a l b hdone hl
    exact Nat.lt_of_lt_of_le hdone (continued_mono hl)

/-! ## 4. The results -/

/-- **A request wakes its coroutine once.** However the coroutines, the system and the thread of the
    service interleave: no event is accessed that no longer exists, no coroutine is resumed that is
    not suspended and none before its request is complete; every request is completed and then
    continued, once; and a coroutine that has not gone on yet is owed one thing: the system has its
    request, or its packet is on the way, once, or `resume` was there first and the coroutine is
    still in its own `await_suspend`. -/
theorem completion_safe (hr : machine.Reaches (init : World C) s) :
    s.fault = false ∧ s.packets.Nodup ∧
    ∀ c,
      (alive (s.coroutine c) = false →
        s.pending c = false ∧ c ∉ s.packets ∧ (life c).exec .idle s.events = some .idle) ∧
      (alive (s.coroutine c) = true →
        s.pending c = true ∧ c ∉ s.packets ∧ (life c).exec .idle s.events = some .pending ∨
        s.pending c = false ∧ c ∈ s.packets ∧ (life c).exec .idle s.events = some .complete ∨
        s.pending c = false ∧ c ∉ s.packets ∧ (life c).exec .idle s.events = some .complete ∧
          s.ready_ c = true ∧ s.coroutine c ≠ .suspended) := by
  have h := inv_of_reaches hr
  refine ⟨h.safe, h.nodup, fun c => ?_⟩
  cases h.left c with
  | nothing halive hpending hpacket hlife =>
    exact ⟨fun _ => ⟨hpending, hpacket, hlife⟩,
      fun hnot => absurd (halive.symm.trans hnot) Bool.false_ne_true⟩
  | system halive _ hpending hpacket hlife =>
    exact ⟨fun hnot => absurd (hnot.symm.trans halive) Bool.false_ne_true,
      fun _ => .inl ⟨hpending, hpacket, hlife⟩⟩
  | packet halive _ hpending hpacket hlife =>
    exact ⟨fun hnot => absurd (hnot.symm.trans halive) Bool.false_ne_true,
      fun _ => .inr (.inl ⟨hpending, hpacket, hlife⟩)⟩
  | reached halive hplace hready hpending hpacket hlife =>
    exact ⟨fun hnot => absurd (hnot.symm.trans halive) Bool.false_ne_true,
      fun _ => .inr (.inr ⟨hpending, hpacket, hlife, hready, hplace⟩)⟩

/-- The packet of the coroutine `0` is there before it has stored `awaiter_`, and the one of `1`
    after it was suspended: each goes on at its second exchange. -/
theorem completion_safe_both :
    ∃ s : World (Fin 2), s.events = [.issued 0, .completed 0, .issued 1, .continued 0,
        .completed 1, .continued 1] ∧ s.host = some 1 ∧ s.fault = false := by
  have hr := Machine.reaches_of_exec (M := machine) (s := (init : World (Fin 2)))
    [.request 0, .complete 0, .take 2, .resume, .request 1, .store 1, .store 0, .suspend 0,
      .suspend 1, .complete 1, .take 1, .resume] rfl
  exact ⟨_, rfl, rfl, (completion_safe hr).1⟩

/-- The thread of the service can go on, or it is inside of a coroutine that can. -/
theorem service_moves (h : Inv s) (hpacket : c ∈ s.packets) :
    (s.step .resume).isSome ∨ (s.step (.take 1)).isSome ∨
      ∃ d, s.host = some d ∧ (s.coroutine d = .running ∨ (s.step (.store d)).isSome ∨
        (s.step (.suspend d)).isSome) := by
  cases hhost : s.host with
  | some d =>
    refine .inr (.inr ⟨d, rfl, (h.host d hhost).imp id (.imp (fun hd => ?_) (fun hd => ?_))⟩)
    · simp [World.step, hd]
    · simp only [World.step, hd, if_true]
      split <;> rfl
  | none =>
    cases hbatch : s.batch with
    | cons d rest =>
      refine .inl ?_
      simp only [World.step, hhost, hbatch]
      split <;> rfl
    | nil =>
      have hport : s.port ≠ [] := by
        rintro hnil
        rw [packets, hbatch, hnil] at hpacket
        cases hpacket
      exact .inr (.inl (by simp [World.step, hhost, hbatch, hport]))

/-- **No wakeup is lost** while `run` is running. A suspended coroutine waits for the system, which
    may complete its request at any time; or its packet is on the way, the thread of the service can
    go on or is inside of a coroutine that can, and once that thread has called `resume` more often
    than there are packets in front of it, the coroutine has continued. -/
theorem completion_progress (hr : machine.Reaches (init : World C) s)
    (hplace : s.coroutine c = .suspended) :
    (s.pending c = true ∧ (s.step (.complete c)).isSome) ∨
    c ∈ s.packets ∧
      ((s.step .resume).isSome ∨ (s.step (.take 1)).isSome ∨
        ∃ d, s.host = some d ∧ (s.coroutine d = .running ∨ (s.step (.store d)).isSome ∨
          (s.step (.suspend d)).isSome)) ∧
      ∀ ls s', machine.exec s ls = some s' → s.packets.idxOf c < ls.countP (· = .resume) →
        s.continued c < s'.continued c := by
  have h := inv_of_reaches hr
  cases h.left c with
  | nothing halive => rw [hplace] at halive; cases halive
  | reached _ hne => exact absurd hplace hne
  | system _ _ hpending => exact .inl ⟨hpending, by simp [World.step, hpending]⟩
  | packet _ _ _ hpacket =>
    refine .inr ⟨hpacket, service_moves h hpacket, fun ls s' hrun hcount => ?_⟩
    exact Behind.continues ⟨hplace, hpacket, Nat.le_refl _⟩ h hrun hcount

/-- The packet of `1` is behind the one of `0`, which goes on, makes another request and is
    suspended again. -/
theorem completion_progress_behind :
    ∃ s s' : World (Fin 2), s.continued 1 < s'.continued 1 ∧ s.packets = [0, 1] ∧
      s'.batch = [0] ∧ s'.host = some 1 := by
  have hr := Machine.reaches_of_exec (M := machine) (s := (init : World (Fin 2)))
    [.request 0, .request 1, .store 0, .store 1, .suspend 0, .suspend 1, .complete 0,
      .complete 1] rfl
  rcases completion_progress (c := 1) hr rfl with ⟨hnot, -⟩ | ⟨-, -, hgo⟩
  · cases hnot
  · exact ⟨_, _, hgo [.take 1, .resume, .request 0, .complete 0, .store 0, .suspend 0, .take 2,
      .resume] _ rfl (by decide), rfl, rfl, rfl⟩

end World
end Completion
end Net
end Ice
