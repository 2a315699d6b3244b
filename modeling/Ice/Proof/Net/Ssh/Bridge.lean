import Ice.Net.Ssh.Bridge
import Mathlib.Data.Fintype.Basic
import Mathlib.Data.List.Infix

/-!
# The transport bridge on Windows

What libssh2 is to see of the socket: the bytes it is handed are the bytes that were received,
and the bytes it is told were sent are the bytes that were sent. The bridge keeps no record of
whose the one pending result is, nor of who uses `storage_`. Three orders are wrong:

* a callback collects the result of the other direction, or more than it has room for, or an
  operation returns over a result that nobody has collected (`Mistaken`);
* one operation stores into `storage_` what another still has there;
* a send is done again that was not asked for again.

**These are all that can go wrong** (`bridge_transparent`): in every run without them the
bridge is transparent. A step of the first kind breaks the transparency at once
(`opaque_of_mistaken`), as in `reported_unsent`. Of the other two kinds that is not said: the bytes
that are written over or sent again may happen to be the same.
-/

set_option autoImplicit false

namespace Ice
namespace Net
namespace Ssh

open Lib

namespace Bridge

variable {C : Type*}

/-! ## 1. What libssh2 sees -/

/-- A send is in progress. -/
def Sending (s : Bridge C) : Prop := ∃ c size sent, s.flight c = some (.send size sent)

/-- A send in progress has yet to take bytes from `storage_`. -/
def Unsent (s : Bridge C) : Prop :=
  ∃ c size sent, s.flight c = some (.send size sent) ∧ sent < size

/-- A receive has stored bytes and has yet to return. -/
def Storing (s : Bridge C) : Prop := ∃ c size, s.flight c = some (.received size) ∧ size ≠ 0

/-- A result with bytes waits for a callback. -/
def Pending (s : Bridge C) (operation : Operation) : Prop :=
  s.ready = true ∧ s.completed = operation ∧ s.size ≠ 0

/-- What is handed over is what was received, in order, and all of it where no receive has
    more to return or to hand over; what is reported is what was sent, in order, and all of it
    where no send is in progress or has more to report; and no size is larger than the one
    that was given. -/
structure Transparent (s : Bridge C) : Prop where
  handed : s.handed <+: s.received
  all_handed : ¬ s.Storing → ¬ s.Pending .recv → s.handed = s.received
  reported : s.reported <+: s.sent
  all_reported : ¬ s.Sending → ¬ s.Pending .send → s.reported = s.sent
  copied : ∀ copy ∈ s.copies, copy.2 ≤ copy.1
  offered : ∀ report ∈ s.reports, report.2 ≤ report.1

/-- The condition on a step. A callback that finds `ready_` set is of the direction that
    returned, and `on_recv` has room, or there are no bytes; an operation returns where no
    bytes wait. `storage_` is not written over while it is in use. A send begins where one
    was asked for. The last two are enough, and more than what is needed. -/
def InTurn (s : Bridge C) : Label C → Prop
  | .onRecv _ size => s.ready = true → s.size = 0 ∨ s.completed = .recv ∧ s.size ≤ size
  | .onSend _ _ =>
    if s.ready = true then (s.size = 0 ∨ s.completed = .send) ∧ ¬ s.Sending else ¬ s.Storing
  | .io _ => s.operation = .send → (s.size = 0 ∨ s.asked = true) ∧ ¬ s.Sending
  | .received _ bytes => bytes ≠ [] → ¬ s.Pending .recv ∧ ¬ s.Storing ∧ ¬ s.Unsent
  | .transmitted _ _ => True
  | .returned _ => s.ready = true → s.size = 0

/-! ## 2. The invariant, a direction at a time -/

/-- Bytes that were received and not yet handed over stand at the front of `storage_`, for
    one receive, or one result. -/
structure Inbound (s : Bridge C) : Prop where
  room : s.storage ≠ []
  single : ∀ c d m n, s.flight c = some (.received m) → s.flight d = some (.received n) →
    m ≠ 0 → n ≠ 0 → c = d
  apart : s.Pending .recv → ¬ s.Storing
  stored : ∀ c n, s.flight c = some (.received n) → n ≠ 0 →
    s.received = s.handed ++ s.storage.take n
  waiting : s.Pending .recv → s.received = s.handed ++ s.storage.take s.size
  collected : ¬ s.Storing → ¬ s.Pending .recv → s.received = s.handed
  copied : ∀ copy ∈ s.copies, copy.2 ≤ copy.1

/-- Bytes that were sent and not yet reported are of what libssh2 is to offer again, for one
    send, or one result, and what is yet to be sent stands in `storage_`. -/
structure Outbound (s : Bridge C) : Prop where
  short : s.promised.length ≤ storageSize
  single : ∀ c d k l m n, s.flight c = some (.send k l) → s.flight d = some (.send m n) → c = d
  apart : s.Pending .send → ¬ s.Sending
  flying : ∀ c size sent, s.flight c = some (.send size sent) → sent ≤ size ∧
    size ≤ s.promised.length ∧ (sent < size → s.storage.take size = s.promised.take size) ∧
    s.sent = s.reported ++ s.promised.take sent
  waiting : s.Pending .send → s.size ≤ s.promised.length ∧
    s.sent = s.reported ++ s.promised.take s.size
  collected : ¬ s.Sending → ¬ s.Pending .send → s.sent = s.reported
  offered : ∀ report ∈ s.reports, report.2 ≤ report.1

structure Inv (s : Bridge C) : Prop where
  inbound : s.Inbound
  outbound : s.Outbound
  calm : s.ready = true → s.asked = false
  owned : s.ready = true → s.size ≠ 0 → s.completed ≠ .none
  first : s.operation = .none → s.size = 0 ∧ ∀ c, s.flight c = none
  request : s.asked = true → s.operation = .send →
    s.size = s.promised.length ∧ s.storage.take s.size = s.promised

theorem inv_init : Inv (init : Bridge C) where
  inbound := {
    room := List.cons_ne_nil _ _
    single := fun _ _ _ _ h => by cases h
    apart := fun h => by cases h.1
    stored := fun _ _ h => by cases h
    waiting := fun h => by cases h.1
    collected := fun _ _ => rfl
    copied := fun _ h => by cases h }
  outbound := {
    short := Nat.zero_le _
    single := fun _ _ _ _ _ _ h => by cases h
    apart := fun h => by cases h.1
    flying := fun _ _ _ h => by cases h
    waiting := fun h => by cases h.1
    collected := fun _ _ => rfl
    offered := fun _ h => by cases h }
  calm h := by cases h
  owned h := by cases h
  first _ := ⟨rfl, fun _ => rfl⟩
  request h := by cases h

variable {s s' : Bridge C}

theorem Inbound.inOrder (h : Inbound s) : s.handed <+: s.received := by
  by_cases hp : s.Pending .recv
  · rw [h.waiting hp]
    exact List.prefix_append ..
  · by_cases hs : s.Storing
    · obtain ⟨c, n, hc, hn⟩ := hs
      rw [h.stored c n hc hn]
      exact List.prefix_append ..
    · rw [h.collected hs hp]

theorem Outbound.inOrder (h : Outbound s) : s.reported <+: s.sent := by
  by_cases hp : s.Pending .send
  · rw [(h.waiting hp).2]
    exact List.prefix_append ..
  · by_cases hs : s.Sending
    · obtain ⟨c, size, sent, hc⟩ := hs
      rw [(h.flying c size sent hc).2.2.2]
      exact List.prefix_append ..
    · rw [h.collected hs hp]

theorem Inv.transparent (h : Inv s) : Transparent s where
  handed := h.inbound.inOrder
  all_handed hs hp := (h.inbound.collected hs hp).symm
  reported := h.outbound.inOrder
  all_reported hs hp := (h.outbound.collected hs hp).symm
  copied := h.inbound.copied
  offered := h.outbound.offered

theorem not_pending_of_not_ready {o : Operation} (hr : s.ready = false) : ¬ s.Pending o :=
  fun hp => by cases hr.symm.trans hp.1

theorem not_pending_of_size {o : Operation} (hz : s.size = 0) : ¬ s.Pending o :=
  fun hp => hp.2.2 hz

theorem not_pending_of_ready {o : Operation} (hq : s.ready = true → s.size = 0) :
    ¬ s.Pending o :=
  fun hp => hp.2.2 (hq hp.1)

/-- A step that does nothing to the receives. -/
theorem Inbound.frame (h : Inbound s) (hf : ∀ c n, n ≠ 0 →
      (s'.flight c = some (.received n) ↔ s.flight c = some (.received n)))
    (hp : s'.Pending .recv ↔ s.Pending .recv) (hz : s.Pending .recv → s'.size = s.size)
    (hs : s'.storage = s.storage) (hr : s'.received = s.received) (hh : s'.handed = s.handed)
    (hc : s'.copies = s.copies) : Inbound s' := by
  have hstoring : s'.Storing ↔ s.Storing := by
    constructor
    · rintro ⟨c, n, hc, hn⟩
      exact ⟨c, n, (hf c n hn).mp hc, hn⟩
    · rintro ⟨c, n, hc, hn⟩
      exact ⟨c, n, (hf c n hn).mpr hc, hn⟩
  constructor
  case room => exact hs ▸ h.room
  case single =>
    exact fun c d m n hc hd hm hn => h.single c d m n ((hf c m hm).mp hc) ((hf d n hn).mp hd) hm hn
  case apart => exact fun hp' => mt hstoring.mp (h.apart (hp.mp hp'))
  case stored =>
    intro c n hc hn
    rw [hr, hh, hs]
    exact h.stored c n ((hf c n hn).mp hc) hn
  case waiting =>
    intro hp'
    rw [hr, hh, hs, hz (hp.mp hp')]
    exact h.waiting (hp.mp hp')
  case collected =>
    intro hn hp'
    rw [hr, hh]
    exact h.collected (mt hstoring.mpr hn) (mt hp.mpr hp')
  case copied => exact hc ▸ h.copied

/-- A step that does nothing to the sends, and writes over nothing that is yet to be sent. -/
theorem Outbound.frame (h : Outbound s)
    (hf : ∀ c m n, s'.flight c = some (.send m n) ↔ s.flight c = some (.send m n))
    (hp : s'.Pending .send ↔ s.Pending .send) (hz : s.Pending .send → s'.size = s.size)
    (hs : ∀ c m n, s.flight c = some (.send m n) → n < m → s'.storage = s.storage)
    (hpr : s'.promised = s.promised) (hse : s'.sent = s.sent) (hre : s'.reported = s.reported)
    (hrs : s'.reports = s.reports) : Outbound s' := by
  have hsending : s'.Sending ↔ s.Sending := by
    constructor
    · rintro ⟨c, m, n, hc⟩
      exact ⟨c, m, n, (hf c m n).mp hc⟩
    · rintro ⟨c, m, n, hc⟩
      exact ⟨c, m, n, (hf c m n).mpr hc⟩
  constructor
  case short => exact hpr ▸ h.short
  case single =>
    exact fun c d k l m n hc hd => h.single c d k l m n ((hf c k l).mp hc) ((hf d m n).mp hd)
  case apart => exact fun hp' => mt hsending.mp (h.apart (hp.mp hp'))
  case flying =>
    intro c size sent hc
    have hc' := (hf c size sent).mp hc
    obtain ⟨hle, hsize, hstored, hwhole⟩ := h.flying c size sent hc'
    rw [hpr, hse, hre]
    refine ⟨hle, hsize, fun hlt => ?_, hwhole⟩
    rw [hs c size sent hc' hlt]
    exact hstored hlt
  case waiting =>
    intro hp'
    rw [hpr, hse, hre, hz (hp.mp hp')]
    exact h.waiting (hp.mp hp')
  case collected =>
    intro hn hp'
    rw [hse, hre]
    exact h.collected (mt hsending.mpr hn) (mt hp.mpr hp')
  case offered => exact hrs ▸ h.offered

theorem pending_cases (h : Inv s) (hr : s.ready = true) (hz : s.size ≠ 0) :
    s.Pending .recv ∨ s.Pending .send := by
  cases ho : s.completed with
  | none => exact absurd ho (h.owned hr hz)
  | recv => exact .inl ⟨hr, ho, hz⟩
  | send => exact .inr ⟨hr, ho, hz⟩

/-- Bytes that wait are not handed over yet. -/
theorem Inbound.ne_of_pending (h : Inbound s) (hp : s.Pending .recv) : s.handed ≠ s.received := by
  rw [h.waiting hp]
  intro he
  have hnil := List.self_eq_append_right.mp he
  rcases List.take_eq_nil_iff.mp hnil with hz | hs
  · exact hp.2.2 hz
  · exact h.room hs

theorem Outbound.ne_of_pending (h : Outbound s) (hp : s.Pending .send) : s.reported ≠ s.sent := by
  obtain ⟨hle, hwhole⟩ := h.waiting hp
  rw [hwhole]
  intro he
  have hnil := List.self_eq_append_right.mp he
  rcases List.take_eq_nil_iff.mp hnil with hz | hs
  · exact hp.2.2 hz
  · rw [hs] at hle
    exact hp.2.2 (Nat.le_zero.mp hle)

/-- A received result that waited and is gone is lost. -/
theorem Inv.lost_recv (h : Inv s) (hp : s.Pending .recv) (hh : s'.handed = s.handed)
    (hr : s'.received = s.received) (hs : s'.Storing → s.Storing) (hp' : ¬ s'.Pending .recv) :
    ¬ Transparent s' := by
  intro ht
  have hall := ht.all_handed (mt hs (h.inbound.apart hp)) hp'
  rw [hh, hr] at hall
  exact h.inbound.ne_of_pending hp hall

theorem Inv.lost_send (h : Inv s) (hp : s.Pending .send) (hh : s'.reported = s.reported)
    (hr : s'.sent = s.sent) (hs : s'.Sending → s.Sending) (hp' : ¬ s'.Pending .send) :
    ¬ Transparent s' := by
  intro ht
  have hall := ht.all_reported (mt hs (h.outbound.apart hp)) hp'
  rw [hh, hr] at hall
  exact h.outbound.ne_of_pending hp hall

/-! ## 3. Callbacks -/

theorem not_pending_hand {o : Operation} {size : ℕ} : ¬ (s.hand size).Pending o :=
  not_pending_of_not_ready rfl

theorem not_pending_report {o : Operation} {data : List UInt8} : ¬ (s.report data).Pending o :=
  not_pending_of_not_ready rfl

/-- What `on_recv` takes is all that waits. -/
theorem Inbound.hand {size : ℕ} (h : Inbound s) (hr : s.ready = true)
    (hq : s.size = 0 ∨ s.completed = .recv ∧ s.size ≤ size) : Inbound (s.hand size) := by
  have hle : s.size ≤ size := hq.elim (fun hz => hz ▸ Nat.zero_le size) And.right
  have hcopied : ∀ copy ∈ s.copies ++ [(size, s.size)], copy.2 ≤ copy.1 := by
    intro copy hc
    rcases List.mem_append.mp hc with hc | hc
    · exact h.copied copy hc
    · rw [List.mem_singleton.mp hc]
      exact hle
  by_cases hz : s.size = 0
  · have hhanded : s.handed ++ s.storage.take s.size = s.handed := by
      rw [hz, List.take_zero, List.append_nil]
    have hframe : Inbound { s.hand size with copies := s.copies } :=
      h.frame (fun _ _ _ => Iff.rfl)
        (iff_of_false (not_pending_of_not_ready rfl) (not_pending_of_size hz)) (fun _ => rfl)
        rfl rfl hhanded rfl
    exact { hframe with copied := hcopied }
  · have hp : s.Pending .recv := ⟨hr, (hq.resolve_left hz).1, hz⟩
    constructor
    case room => exact h.room
    case single => exact h.single
    case apart => exact fun hp' => absurd hp' not_pending_hand
    case stored => exact fun c n hc hn => absurd ⟨c, n, hc, hn⟩ (h.apart hp)
    case waiting => exact fun hp' => absurd hp' not_pending_hand
    case collected => exact fun _ _ => h.waiting hp
    case copied => exact hcopied

theorem Inv.hand {size : ℕ} (h : Inv s) (hr : s.ready = true)
    (hq : s.size = 0 ∨ s.completed = .recv ∧ s.size ≤ size) : Inv (s.hand size) where
  inbound := h.inbound.hand hr hq
  outbound := by
    have hp : ¬ s.Pending .send := by
      rcases hq with hz | ⟨hc, -⟩
      · exact not_pending_of_size hz
      · exact fun hp => by cases hc.symm.trans hp.2.1
    exact h.outbound.frame (fun _ _ _ => Iff.rfl) (iff_of_false not_pending_hand hp)
      (fun _ => rfl) (fun _ _ _ _ _ => rfl) rfl rfl rfl rfl
  calm hr' := by cases hr'
  owned hr' := by cases hr'
  first := h.first
  request ha := by cases (h.calm hr).symm.trans ha

theorem Inv.askRecv {size : ℕ} (h : Inv s) (hr : s.ready = false) :
    Inv (s.ask .recv size) where
  inbound :=
    have hp : ¬ s.Pending .recv := not_pending_of_not_ready hr
    h.inbound.frame (fun _ _ _ => Iff.rfl) (iff_of_false (not_pending_of_not_ready hr) hp)
      (fun hp' => absurd hp' hp) rfl rfl rfl rfl
  outbound :=
    have hp : ¬ s.Pending .send := not_pending_of_not_ready hr
    h.outbound.frame (fun _ _ _ => Iff.rfl) (iff_of_false (not_pending_of_not_ready hr) hp)
      (fun hp' => absurd hp' hp) (fun _ _ _ _ _ => rfl) rfl rfl rfl rfl
  calm hr' := by cases hr.symm.trans hr'
  owned hr' := by cases hr.symm.trans hr'
  first ho := by cases ho
  request _ ho := by cases ho

/-- The bytes that libssh2 offers begin with what it was promised to report. -/
theorem take_of_promised {promised data : List UInt8} {k : ℕ} (hp : promised <+: data)
    (hk : k ≤ promised.length) : data.take k = promised.take k := by
  obtain ⟨rest, rfl⟩ := hp
  exact List.take_append_of_le_length hk

/-- What `on_send` reports is all that waits. -/
theorem Outbound.report {data : List UInt8} (h : Outbound s) (hr : s.ready = true)
    (hq : s.size = 0 ∨ s.completed = .send) (hn : ¬ s.Sending) (hp : s.promised <+: data) :
    Outbound (s.report data) := by
  -- either way the size is of bytes that were promised
  have hwhole : s.size ≤ s.promised.length ∧ s.sent = s.reported ++ s.promised.take s.size := by
    by_cases hz : s.size = 0
    · rw [hz, List.take_zero, List.append_nil]
      exact ⟨Nat.zero_le _, h.collected hn (not_pending_of_size hz)⟩
    · exact h.waiting ⟨hr, hq.resolve_left hz, hz⟩
  constructor
  case short => exact Nat.zero_le _
  case single => exact h.single
  case apart => exact fun _ => hn
  case flying => exact fun c size sent hc => absurd ⟨c, size, sent, hc⟩ hn
  case waiting => exact fun hp' => absurd hp' not_pending_report
  case collected =>
    intro _ _
    show s.sent = s.reported ++ data.take s.size
    rw [take_of_promised hp hwhole.1]
    exact hwhole.2
  case offered =>
    intro report hc
    rcases List.mem_append.mp hc with hc | hc
    · exact h.offered report hc
    · rw [List.mem_singleton.mp hc]
      exact hwhole.1.trans hp.length_le

theorem Inv.report {data : List UInt8} (h : Inv s) (hr : s.ready = true)
    (hq : s.size = 0 ∨ s.completed = .send) (hn : ¬ s.Sending) (hp : s.promised <+: data) :
    Inv (s.report data) where
  inbound := by
    have hp' : ¬ s.Pending .recv := by
      rcases hq with hz | hc
      · exact not_pending_of_size hz
      · exact fun hp => by cases hc.symm.trans hp.2.1
    exact h.inbound.frame (fun _ _ _ => Iff.rfl) (iff_of_false not_pending_report hp')
      (fun _ => rfl) rfl rfl rfl rfl
  outbound := h.outbound.report hr hq hn hp
  calm hr' := by cases hr'
  owned hr' := by cases hr'
  first := h.first
  request ha := by cases (h.calm hr).symm.trans ha

/-- What was stored stands at the front. -/
theorem take_overwrite {storage bytes : List UInt8} {k : ℕ} (hk : k ≤ bytes.length) :
    (overwrite storage bytes).take k = bytes.take k :=
  List.take_append_of_le_length hk

theorem overwrite_ne_nil {storage bytes : List UInt8} (h : storage ≠ []) :
    overwrite storage bytes ≠ [] := by
  cases bytes with
  | nil => exact h
  | cons b bytes => exact List.cons_ne_nil _ _

/-- Where no receive has bytes in `storage_`, `on_send` may write over it. -/
theorem Inbound.askSend {data : List UInt8} (h : Inbound s) (hr : s.ready = false)
    (hn : ¬ s.Storing) : Inbound ((s.ask .send data.length).store data) where
  room := overwrite_ne_nil h.room
  single := h.single
  apart _ := hn
  stored c n hc hz := absurd ⟨c, n, hc, hz⟩ hn
  waiting hp := absurd hp (not_pending_of_not_ready hr)
  collected hs _ := h.collected hs (not_pending_of_not_ready hr)
  copied := h.copied

/-- A send in progress finds the same bytes again. -/
theorem Outbound.askSend {data : List UInt8} (h : Outbound s) (hr : s.ready = false)
    (hp : s.promised <+: data) : Outbound ((s.ask .send data.length).store data) where
  short := List.length_take_le _ _
  single := h.single
  apart hp' := absurd hp' (not_pending_of_not_ready hr)
  flying c size sent hc := by
    obtain ⟨hsent, hsize, -, hwhole⟩ := h.flying c size sent hc
    have hagain : s.promised <+: data.take storageSize := List.prefix_take_iff.mpr ⟨hp, h.short⟩
    have hle : size ≤ (data.take storageSize).length := hsize.trans hagain.length_le
    refine ⟨hsent, hle, fun _ => take_overwrite hle, ?_⟩
    show s.sent = s.reported ++ (data.take storageSize).take sent
    rw [take_of_promised hagain (hsent.trans hsize)]
    exact hwhole
  waiting hp' := absurd hp' (not_pending_of_not_ready hr)
  collected hs _ := h.collected hs (not_pending_of_not_ready hr)
  offered := h.offered

theorem Inv.askSend {data : List UInt8} (h : Inv s) (hr : s.ready = false) (hn : ¬ s.Storing)
    (hp : s.promised <+: data) : Inv ((s.ask .send data.length).store data) where
  inbound := h.inbound.askSend hr hn
  outbound := h.outbound.askSend hr hp
  calm hr' := by cases hr.symm.trans hr'
  owned hr' := by cases hr.symm.trans hr'
  first ho := by cases ho
  request _ _ := by
    have hsize : min data.length storageSize = (data.take storageSize).length := by
      rw [List.length_take, Nat.min_comm]
    refine ⟨hsize, ?_⟩
    show (overwrite s.storage (data.take storageSize)).take (min data.length storageSize) = _
    rw [hsize, take_overwrite (Nat.le_refl _), List.take_length]
    rfl

theorem Inv.on_recv {size : ℕ} (h : Inv s)
    (hq : s.ready = true → s.size = 0 ∨ s.completed = .recv ∧ s.size ≤ size) :
    Inv (s.on_recv size) := by
  unfold Bridge.on_recv
  split
  case isTrue hr => exact h.hand hr (hq hr)
  case isFalse hr => exact h.askRecv (eq_false_of_ne_true hr)

theorem Inv.on_send {data : List UInt8} (h : Inv s) (hp : s.promised <+: data)
    (hq : if s.ready = true then (s.size = 0 ∨ s.completed = .send) ∧ ¬ s.Sending
      else ¬ s.Storing) : Inv (s.on_send data) := by
  unfold Bridge.on_send
  split at hq
  case isTrue hr =>
    rw [if_pos hr]
    exact h.report hr hq.1 hq.2 hp
  case isFalse hr =>
    rw [if_neg hr]
    exact h.askSend (eq_false_of_ne_true hr) hq hp

/-! ## 4. Operations -/

/-- `io()` with nothing asked for. -/
theorem Inv.idle (h : Inv s) (ho : s.operation = .none) : Inv (s.complete .none s.size) where
  inbound :=
    have hz := (h.first ho).1
    h.inbound.frame (fun _ _ _ => Iff.rfl)
      (iff_of_false (not_pending_of_size hz) (not_pending_of_size hz)) (fun _ => rfl)
      rfl rfl rfl rfl
  outbound :=
    have hz := (h.first ho).1
    h.outbound.frame (fun _ _ _ => Iff.rfl)
      (iff_of_false (not_pending_of_size hz) (not_pending_of_size hz)) (fun _ => rfl)
      (fun _ _ _ _ _ => rfl) rfl rfl rfl rfl
  calm _ := rfl
  owned _ hz := absurd (h.first ho).1 hz
  first := h.first
  request ha := by cases ha

variable [DecidableEq C] {c : C}

/-- An entry that is no result of a receive came for one that was none. -/
theorem received_iff {i : Option Io} {d : C} {n : ℕ} (hi : i ≠ some (.received n))
    (hc : s.flight c ≠ some (.received n)) :
    Function.update s.flight c i d = some (.received n) ↔ s.flight d = some (.received n) := by
  by_cases hd : d = c
  · rw [hd, Function.update_self]
    exact iff_of_false hi hc
  · rw [Function.update_of_ne hd]

/-- An entry that is no send came for one that was none. -/
theorem send_iff {i : Option Io} {d : C} {m n : ℕ} (hi : ∀ m n, i ≠ some (.send m n))
    (hc : ∀ m n, s.flight c ≠ some (.send m n)) :
    Function.update s.flight c i d = some (.send m n) ↔ s.flight d = some (.send m n) := by
  by_cases hd : d = c
  · rw [hd, Function.update_self]
    exact iff_of_false (hi m n) (hc m n)
  · rw [Function.update_of_ne hd]

theorem Inv.startRecv {size : ℕ} (h : Inv s) (hc : s.flight c = none)
    (ho : s.operation = .recv) : Inv (s.setFlight c (some (.recv size))) where
  inbound :=
    h.inbound.frame (fun _ _ _ => received_iff nofun (by rw [hc]; nofun)) Iff.rfl (fun _ => rfl)
      rfl rfl rfl rfl
  outbound :=
    h.outbound.frame (fun _ _ _ => send_iff nofun (by rw [hc]; nofun)) Iff.rfl (fun _ => rfl)
      (fun _ _ _ _ _ => rfl) rfl rfl rfl rfl
  calm _ := rfl
  owned := h.owned
  first hn := by cases ho.symm.trans hn
  request ha := by cases ha

/-- A send begins with the bytes that were promised. -/
theorem Outbound.startSend (h : Outbound s) (hn : ¬ s.Sending) (hp : ¬ s.Pending .send)
    (hsize : s.size ≤ s.promised.length)
    (hstored : s.storage.take s.size = s.promised.take s.size) :
    Outbound (s.setFlight c (some (.send s.size 0))) := by
  have hself : ∀ {d m n}, (s.setFlight c (some (.send s.size 0))).flight d = some (.send m n) →
      d = c ∧ m = s.size ∧ n = 0 := by
    intro d m n hd
    rcases Lib.update_cases hd with ⟨hdc, he⟩ | ⟨-, hd⟩
    · cases he
      exact ⟨hdc, rfl, rfl⟩
    · exact absurd ⟨d, m, n, hd⟩ hn
  constructor
  case short => exact h.short
  case single => exact fun d e _ _ _ _ hd he => (hself hd).1.trans (hself he).1.symm
  case apart => exact fun hp' => absurd hp' hp
  case flying =>
    intro d m n hd
    obtain ⟨-, rfl, rfl⟩ := hself hd
    refine ⟨Nat.zero_le _, hsize, fun _ => hstored, ?_⟩
    rw [List.take_zero, List.append_nil]
    exact h.collected hn hp
  case waiting => exact fun hp' => absurd hp' hp
  case collected => exact fun hs _ => absurd ⟨c, s.size, 0, Function.update_self ..⟩ hs
  case offered => exact h.offered

theorem Inv.startSend (h : Inv s) (hc : s.flight c = none) (ho : s.operation = .send)
    (hq : s.size = 0 ∨ s.asked = true) (hn : ¬ s.Sending) :
    Inv (s.setFlight c (some (.send s.size 0))) where
  inbound :=
    h.inbound.frame (fun _ _ _ => received_iff nofun (by rw [hc]; nofun)) Iff.rfl (fun _ => rfl)
      rfl rfl rfl rfl
  outbound := by
    have hp : ¬ s.Pending .send := by
      rcases hq with hz | ha
      · exact not_pending_of_size hz
      · exact fun hp => by cases (h.calm hp.1).symm.trans ha
    have hstored : s.size ≤ s.promised.length ∧
        s.storage.take s.size = s.promised.take s.size := by
      rcases hq with hz | ha
      · rw [hz]
        exact ⟨Nat.zero_le _, rfl⟩
      · obtain ⟨hsize, hstored⟩ := h.request ha ho
        rw [hstored, hsize, List.take_length]
        exact ⟨Nat.le_refl _, rfl⟩
    exact h.outbound.startSend hn hp hstored.1 hstored.2
  calm _ := rfl
  owned := h.owned
  first hn := by cases ho.symm.trans hn
  request ha := by cases ha

theorem Inv.io (h : Inv s) (hc : s.flight c = none)
    (hq : s.operation = .send → (s.size = 0 ∨ s.asked = true) ∧ ¬ s.Sending) : Inv (s.io c) := by
  unfold Bridge.io
  cases ho : s.operation with
  | none => exact h.idle ho
  | recv => exact h.startRecv hc ho
  | send => exact h.startSend hc ho (hq ho).1 (hq ho).2

/-- What is stored is the next that waits, where nothing else does. -/
theorem Inbound.receive {bytes : List UInt8} (h : Inbound s) (hp : ¬ s.Pending .recv)
    (hn : ¬ s.Storing) : Inbound (s.receive c bytes) := by
  have hself : ∀ {d n}, (s.receive c bytes).flight d = some (.received n) → n ≠ 0 →
      d = c ∧ n = bytes.length := by
    intro d n hd hz
    rcases Lib.update_cases hd with ⟨hdc, he⟩ | ⟨-, hd⟩
    · cases he
      exact ⟨hdc, rfl⟩
    · exact absurd ⟨d, n, hd, hz⟩ hn
  constructor
  case room => exact overwrite_ne_nil h.room
  case single =>
    exact fun d e _ _ hd he hm hn => (hself hd hm).1.trans (hself he hn).1.symm
  case apart => exact fun hp' => absurd hp' hp
  case stored =>
    intro d n hd hz
    rw [(hself hd hz).2]
    show s.received ++ bytes = s.handed ++ (overwrite s.storage bytes).take bytes.length
    rw [take_overwrite (Nat.le_refl _), List.take_length, h.collected hn hp]
  case waiting => exact fun hp' => absurd hp' hp
  case collected =>
    intro hs _
    have hempty : bytes.length = 0 := by
      by_contra hb
      exact hs ⟨c, bytes.length, Function.update_self .., hb⟩
    show s.received ++ bytes = s.handed
    rw [List.eq_nil_of_length_eq_zero hempty, List.append_nil]
    exact h.collected hn hp
  case copied => exact h.copied

theorem Inv.receive {bytes : List UInt8} {size : ℕ} (h : Inv s)
    (hc : s.flight c = some (.recv size))
    (hq : bytes ≠ [] → ¬ s.Pending .recv ∧ ¬ s.Storing ∧ ¬ s.Unsent) :
    Inv (s.receive c bytes) where
  inbound := by
    by_cases hb : bytes = []
    · subst hb
      refine h.inbound.frame (fun _ n hn => received_iff ?_ (by rw [hc]; nofun)) Iff.rfl
        (fun _ => rfl) rfl (List.append_nil _) rfl rfl
      exact fun he => hn (Io.received.inj (Option.some.inj he)).symm
    · exact h.inbound.receive (hq hb).1 (hq hb).2.1
  outbound := by
    refine h.outbound.frame (fun _ _ _ => send_iff nofun (by rw [hc]; nofun)) Iff.rfl
      (fun _ => rfl) (fun d m n hd hlt => ?_) rfl rfl rfl rfl
    by_cases hb : bytes = []
    · rw [hb]
      rfl
    · exact absurd ⟨d, m, n, hd, hlt⟩ (hq hb).2.2
  calm _ := rfl
  owned := h.owned
  first ho := by cases ((h.first ho).2 c).symm.trans hc
  request ha := by cases ha

/-- What the kernel takes next is what was promised next. -/
theorem drop_take_of_take {storage promised : List UInt8} {size d k : ℕ}
    (h : storage.take size = promised.take size) (hk : d + k ≤ size) :
    (storage.drop d).take k = (promised.drop d).take k := by
  have htake : storage.take (d + k) = promised.take (d + k) := by
    rw [← Nat.min_eq_left hk, ← List.take_take, h, List.take_take]
  rw [List.take_drop, List.take_drop, htake]

theorem Outbound.transmit {size d k : ℕ} (h : Outbound s)
    (hc : s.flight c = some (.send size d)) (hpos : 0 < k) (hk : d + k ≤ size) :
    Outbound (s.transmit c size d k) := by
  have hself : ∀ {e m n}, (s.transmit c size d k).flight e = some (.send m n) →
      e = c ∧ m = size ∧ n = d + k := by
    intro e m n he
    rcases Lib.update_cases he with ⟨hec, heq⟩ | ⟨hec, he⟩
    · cases heq
      exact ⟨hec, rfl, rfl⟩
    · exact absurd (h.single e c m n size d he hc) hec
  constructor
  case short => exact h.short
  case single => exact fun e f _ _ _ _ he hf => (hself he).1.trans (hself hf).1.symm
  case apart => exact fun hp => absurd ⟨c, size, d, hc⟩ (h.apart hp)
  case flying =>
    intro e m n he
    obtain ⟨-, rfl, rfl⟩ := hself he
    obtain ⟨-, hsize, hstored, hwhole⟩ := h.flying c m d hc
    have htake := hstored (Nat.lt_of_lt_of_le (Nat.lt_add_of_pos_right hpos) hk)
    refine ⟨hk, hsize, fun _ => htake, ?_⟩
    show s.sent ++ (s.storage.drop d).take k = s.reported ++ s.promised.take (d + k)
    rw [hwhole, drop_take_of_take htake hk, List.append_assoc, ← List.take_add]
  case waiting => exact fun hp => absurd ⟨c, size, d, hc⟩ (h.apart hp)
  case collected => exact fun hs _ => absurd ⟨c, size, d + k, Function.update_self ..⟩ hs
  case offered => exact h.offered

theorem Inv.transmit {size d k : ℕ} (h : Inv s) (hc : s.flight c = some (.send size d))
    (hpos : 0 < k) (hk : d + k ≤ size) : Inv (s.transmit c size d k) where
  inbound :=
    h.inbound.frame (fun _ _ _ => received_iff nofun (by rw [hc]; nofun)) Iff.rfl (fun _ => rfl)
      rfl rfl rfl rfl
  outbound := h.outbound.transmit hc hpos hk
  calm := h.calm
  owned := h.owned
  first ho := by cases ((h.first ho).2 c).symm.trans hc
  request := h.request

/-- What remains in progress where an operation returned. -/
theorem still_of_returned {d : C} {i : Io} (hd : Function.update s.flight c none d = some i) :
    d ≠ c ∧ s.flight d = some i := by
  rcases Lib.update_cases hd with ⟨-, he⟩ | hd
  · cases he
  · exact hd

/-- What a receive returns is what waits. -/
theorem Inbound.returned {n : ℕ} (h : Inbound s) (hc : s.flight c = some (.received n))
    (hp : ¬ s.Pending .recv) : Inbound ((s.setFlight c none).complete .recv n) where
  room := h.room
  single d e _ _ hd he := h.single d e _ _ (still_of_returned hd).2 (still_of_returned he).2
  apart := by
    rintro ⟨-, -, hn⟩ ⟨d, m, hd, hm⟩
    obtain ⟨hdc, hd⟩ := still_of_returned hd
    exact hdc (h.single d c m n hd hc hm hn)
  stored d _ hd := h.stored d _ (still_of_returned hd).2
  waiting hp' := h.stored c n hc hp'.2.2
  collected hs hp' := by
    refine h.collected ?_ hp
    rintro ⟨d, m, hd, hm⟩
    by_cases hdc : d = c
    · subst hdc
      obtain rfl := Io.received.inj (Option.some.inj (hc.symm.trans hd))
      exact hp' ⟨rfl, rfl, hm⟩
    · exact hs ⟨d, m, (Function.update_of_ne hdc ..).trans hd, hm⟩
  copied := h.copied

theorem Inv.returnedRecv {n : ℕ} (h : Inv s) (hc : s.flight c = some (.received n))
    (hq : s.ready = true → s.size = 0) : Inv ((s.setFlight c none).complete .recv n) where
  inbound := h.inbound.returned hc (not_pending_of_ready hq)
  outbound :=
    have hp : ¬ s.Pending .send := not_pending_of_ready hq
    h.outbound.frame (fun _ _ _ => send_iff nofun (by rw [hc]; nofun))
      (iff_of_false (fun hp' => nomatch hp'.2.1) hp) (fun hp' => absurd hp' hp)
      (fun _ _ _ _ _ => rfl) rfl rfl rfl rfl
  calm _ := rfl
  owned _ _ := nofun
  first ho := by cases ((h.first ho).2 c).symm.trans hc
  request ha := by cases ha

/-- What a send returns is what waits to be reported. -/
theorem Outbound.returned {m n : ℕ} (h : Outbound s) (hc : s.flight c = some (.send m n)) :
    Outbound ((s.setFlight c none).complete .send n) := by
  have hnone : ¬ ((s.setFlight c none).complete .send n).Sending := by
    rintro ⟨d, k, l, hd⟩
    obtain ⟨hdc, hd⟩ := still_of_returned hd
    exact hdc (h.single d c k l m n hd hc)
  obtain ⟨hle, hsize, -, hwhole⟩ := h.flying c m n hc
  constructor
  case short => exact h.short
  case single => exact fun d _ k l _ _ hd => absurd ⟨d, k, l, hd⟩ hnone
  case apart => exact fun _ => hnone
  case flying => exact fun d k l hd => absurd ⟨d, k, l, hd⟩ hnone
  case waiting => exact fun _ => ⟨hle.trans hsize, hwhole⟩
  case collected =>
    intro _ hp
    have hzero : n = 0 := by
      by_contra hn
      exact hp ⟨rfl, rfl, hn⟩
    rw [hzero, List.take_zero, List.append_nil] at hwhole
    exact hwhole
  case offered => exact h.offered

theorem Inv.returnedSend {m n : ℕ} (h : Inv s) (hc : s.flight c = some (.send m n))
    (hq : s.ready = true → s.size = 0) : Inv ((s.setFlight c none).complete .send n) where
  inbound :=
    have hp : ¬ s.Pending .recv := not_pending_of_ready hq
    h.inbound.frame (fun _ _ _ => received_iff nofun (by rw [hc]; nofun))
      (iff_of_false (fun hp' => nomatch hp'.2.1) hp) (fun hp' => absurd hp' hp)
      rfl rfl rfl rfl
  outbound := h.outbound.returned hc
  calm _ := rfl
  owned _ _ := nofun
  first ho := by cases ((h.first ho).2 c).symm.trans hc
  request ha := by cases ha

/-! ## 5. Runs -/

/-- What a step can be. -/
inductive Steps (s : Bridge C) : Label C → Bridge C → Prop
  | onRecv {c : C} {size : ℕ} (hc : s.flight c = none) : Steps s (.onRecv c size) (s.on_recv size)
  | onSend {c : C} {data : List UInt8} (hc : s.flight c = none) (hp : s.promised <+: data) :
    Steps s (.onSend c data) (s.on_send data)
  | io {c : C} (hc : s.flight c = none) : Steps s (.io c) (s.io c)
  | received {c : C} {bytes : List UInt8} {size : ℕ} (hc : s.flight c = some (.recv size))
    (hle : bytes.length ≤ size) : Steps s (.received c bytes) (s.receive c bytes)
  | transmitted {c : C} {k size sent : ℕ} (hc : s.flight c = some (.send size sent))
    (hpos : 0 < k) (hle : sent + k ≤ size) :
    Steps s (.transmitted c k) (s.transmit c size sent k)
  | returnedRecv {c : C} {size : ℕ} (hc : s.flight c = some (.received size)) :
    Steps s (.returned c) ((s.setFlight c none).complete .recv size)
  | returnedSend {c : C} {size sent : ℕ} (hc : s.flight c = some (.send size sent)) :
    Steps s (.returned c) ((s.setFlight c none).complete .send sent)

theorem steps_of_step {l : Label C} (hs : machine.step s l = some s') : Steps s l s' := by
  simp only [machine, step] at hs
  cases l with
  | onRecv c size =>
    obtain ⟨hc, he⟩ := Option.ite_none_right_eq_some.mp hs
    cases he
    exact .onRecv hc
  | onSend c data =>
    obtain ⟨⟨hc, hp⟩, he⟩ := Option.ite_none_right_eq_some.mp hs
    cases he
    exact .onSend hc hp
  | io c =>
    obtain ⟨hc, he⟩ := Option.ite_none_right_eq_some.mp hs
    cases he
    exact .io hc
  | received c bytes =>
    dsimp only at hs
    split at hs
    case h_1 size hc =>
      obtain ⟨hle, he⟩ := Option.ite_none_right_eq_some.mp hs
      cases he
      exact .received hc hle
    case h_2 => cases hs
  | transmitted c k =>
    dsimp only at hs
    split at hs
    case h_1 size sent hc =>
      obtain ⟨⟨hpos, hle⟩, he⟩ := Option.ite_none_right_eq_some.mp hs
      cases he
      exact .transmitted hc hpos hle
    case h_2 => cases hs
  | returned c =>
    dsimp only at hs
    split at hs
    case h_1 size hc =>
      cases hs
      exact .returnedRecv hc
    case h_2 size sent hc =>
      cases hs
      exact .returnedSend hc
    case h_3 => cases hs

theorem Inv.step {l : Label C} (h : Inv s) (hq : InTurn s l)
    (hs : machine.step s l = some s') : Inv s' := by
  cases steps_of_step hs with
  | onRecv => exact h.on_recv hq
  | onSend _ hp => exact h.on_send hp hq
  | io hc => exact h.io hc hq
  | received hc => exact h.receive hc hq
  | transmitted hc hpos hle => exact h.transmit hc hpos hle
  | returnedRecv hc => exact h.returnedRecv hc hq
  | returnedSend hc => exact h.returnedSend hc hq

theorem inv_of_reaches (hr : machine.ReachesBy InTurn (init : Bridge C) s) : Inv s :=
  hr.preserves Inv.step inv_init

/-- **In every run whose steps are in turn the bridge is transparent**, for any coroutines,
    any callbacks with any sizes, and any bytes. -/
theorem bridge_transparent (hr : machine.ReachesBy InTurn (init : Bridge C) s) : Transparent s :=
  (inv_of_reaches hr).transparent

/-! ## 6. A wrong step -/

/-- A result with bytes is collected by the other direction, or with too little room, or is
    written over by another. -/
def Mistaken (s : Bridge C) : Label C → Prop
  | .onRecv _ size =>
    s.ready = true ∧ s.size ≠ 0 ∧ ¬ (s.completed = .recv ∧ s.size ≤ size)
  | .onSend _ _ => s.ready = true ∧ s.size ≠ 0 ∧ s.completed ≠ .send
  | .returned _ => s.ready = true ∧ s.size ≠ 0
  | _ => False

/-- **A mistaken step is seen at once**: where the run was in turn so far, the bridge is not
    transparent after it. -/
theorem opaque_of_mistaken {l : Label C} (hr : machine.ReachesBy InTurn (init : Bridge C) s)
    (hs : machine.step s l = some s') (hw : Mistaken s l) : ¬ Transparent s' := by
  have h := inv_of_reaches hr
  cases steps_of_step hs with
  | @onRecv c size =>
    obtain ⟨hready, hz, hw⟩ := hw
    rw [Bridge.on_recv, if_pos hready]
    rcases pending_cases h hready hz with hp | hp
    · intro ht
      have hmem : (size, s.size) ∈ (s.hand size).copies :=
        List.mem_append_right _ (List.mem_singleton_self _)
      exact hw ⟨hp.2.1, ht.copied _ hmem⟩
    · exact h.lost_send hp rfl rfl id not_pending_hand
  | onSend =>
    obtain ⟨hready, hz, hw⟩ := hw
    rw [Bridge.on_send, if_pos hready]
    rcases pending_cases h hready hz with hp | hp
    · exact h.lost_recv hp rfl rfl id not_pending_report
    · exact absurd hp.2.1 hw
  | io | received | transmitted => exact hw.elim
  | @returnedRecv c n hc =>
    rcases pending_cases h hw.1 hw.2 with hp | hp
    · have hn : n = 0 := by
        by_contra hn
        exact h.inbound.apart hp ⟨c, n, hc, hn⟩
      refine h.lost_recv hp rfl rfl ?_ (not_pending_of_size hn)
      rintro ⟨d, m, hd, hm⟩
      exact ⟨d, m, (still_of_returned hd).2, hm⟩
    · refine h.lost_send hp rfl rfl ?_ fun hp' => nomatch hp'.2.1
      rintro ⟨d, m, n, hd⟩
      exact ⟨d, m, n, (still_of_returned hd).2⟩
  | @returnedSend c m n hc =>
    rcases pending_cases h hw.1 hw.2 with hp | hp
    · refine h.lost_recv hp rfl rfl ?_ fun hp' => nomatch hp'.2.1
      rintro ⟨d, m, hd, hm⟩
      exact ⟨d, m, (still_of_returned hd).2, hm⟩
    · exact absurd ⟨c, m, n, hc⟩ (h.outbound.apart hp)

/-! ## 7. Two runs -/

instance [Fintype C] : Decidable s.Sending :=
  decidable_of_iff (∃ c, (s.flight c).any (fun | .send .. => true | _ => false)) <| by
    refine exists_congr fun c => ?_
    rcases s.flight c with _ | _ | _ | _ <;> simp

instance [Fintype C] : Decidable s.Unsent :=
  decidable_of_iff (∃ c, (s.flight c).any (fun | .send size sent => sent < size | _ => false)) <| by
    refine exists_congr fun c => ?_
    rcases s.flight c with _ | _ | _ | _ <;> simp

instance [Fintype C] : Decidable s.Storing :=
  decidable_of_iff (∃ c, (s.flight c).any (fun | .received size => size ≠ 0 | _ => false)) <| by
    refine exists_congr fun c => ?_
    rcases s.flight c with _ | _ | _ | _ <;> simp

instance {o : Operation} : Decidable (s.Pending o) :=
  inferInstanceAs (Decidable (s.ready = true ∧ s.completed = o ∧ s.size ≠ 0))

instance [Fintype C] : (l : Label C) → Decidable (InTurn s l)
  | .onRecv _ size =>
    inferInstanceAs (Decidable (s.ready = true → s.size = 0 ∨ s.completed = .recv ∧ s.size ≤ size))
  | .onSend _ _ =>
    inferInstanceAs (Decidable
      (if s.ready = true then (s.size = 0 ∨ s.completed = .send) ∧ ¬ s.Sending else ¬ s.Storing))
  | .io _ =>
    inferInstanceAs (Decidable
      (s.operation = .send → (s.size = 0 ∨ s.asked = true) ∧ ¬ s.Sending))
  | .received _ bytes =>
    inferInstanceAs (Decidable (bytes ≠ [] → ¬ s.Pending .recv ∧ ¬ s.Storing ∧ ¬ s.Unsent))
  | .transmitted _ _ => .isTrue trivial
  | .returned _ => inferInstanceAs (Decidable (s.ready = true → s.size = 0))

/-- One coroutine sends while another waits to receive. -/
theorem bridge_transparent_in_turn : ∃ s : Bridge Bool,
    machine.ReachesBy InTurn init s ∧ s.sent = [1, 2, 3] ∧ s.handed = [7, 8] ∧ Transparent s := by
  have hrun : machine.execBy InTurn (init : Bridge Bool)
      [.onRecv false 5, .io false, .onSend true [1, 2, 3], .io true, .transmitted true 2,
        .transmitted true 1, .returned true, .onSend true [1, 2, 3], .received false [7, 8],
        .returned false, .onRecv false 5] = some _ := rfl
  exact ⟨_, Machine.reachesBy_of_execBy _ hrun, rfl, rfl,
    bridge_transparent (Machine.reachesBy_of_execBy _ hrun)⟩

/-- What was received is reported as sent: libssh2 has something to send when the receive it
    asked for has returned. -/
theorem reported_unsent : ∃ s : Bridge Unit,
    machine.Reaches init s ∧ s.sent = [] ∧ s.reported = [9, 9] ∧ ¬ Transparent s := by
  have hrun : machine.exec (init : Bridge Unit)
      [.onRecv () 5, .io (), .received () [1, 2], .returned (), .onSend () [9, 9]] = some _ := rfl
  refine ⟨_, Machine.reaches_of_exec _ hrun, rfl, rfl, fun ht => ?_⟩
  cases List.prefix_nil.mp ht.reported

end Bridge

end Ssh
end Net
end Ice
