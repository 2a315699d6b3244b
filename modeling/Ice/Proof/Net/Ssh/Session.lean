import Ice.Net.Ssh.Session
import Mathlib.Tactic.Common

/-!
# SSH resources are torn down innermost first

A channel lives inside a libssh2 session, and the libssh2 session sends what it has left
through the socket of the object that its abstract pointer names. So the channel is closed
first, then the session is freed while that object still holds the connection's own socket,
and the socket is closed last.

* **the paths that give up a connection keep the order**: `close`, `disconnect`, a failed
  handshake and destruction, from every state that earlier failures leave (`Inv.teardown`,
  `Inv.resetChannel`);
* **move assignment does not** (`assigned_over`): it replaces the socket first, so the old
  socket is closed, then the old session is freed while the object holds the other socket,
  and the old channel is closed last;
* **that is all that can go wrong** (`torn_down_in_order`), and it goes wrong each time an
  object that holds a libssh2 session is assigned to (`disorder_of_assigned_over`).
-/

set_option autoImplicit false

namespace Ice
namespace Net
namespace Ssh

open Lib

/-! ## 1. The order -/

/-- The connection an event is about. -/
def Event.number : Event → ℕ
  | .handshake k | .sessionFree k _ | .socketClose k => k
  | .channelOpen c | .channelClose c => c.session

/-- The event leaves the session and the socket of connection `k`. -/
def Event.Spares (k : ℕ) : Event → Prop
  | .sessionFree j _ | .socketClose j => j ≠ k
  | _ => True

/-- What an event needs of those before it. A session is freed by a handshake's connection
    only with its own socket in place and its channels closed, and the socket closed only
    after that. -/
def InOrder (past : List Event) : Event → Prop
  | .channelClose c => ∀ socket, .sessionFree c.session socket ∉ past
  | .sessionFree k socket => .handshake k ∈ past → socket = some k ∧ .socketClose k ∉ past ∧
    ∀ c : Channel, c.session = k → .channelOpen c ∈ past → .channelClose c ∈ past
  | .socketClose k => .handshake k ∈ past → ∃ socket, .sessionFree k socket ∈ past
  | _ => True

/-- Every event of the log, the newest first, is in order. -/
def Orderly : List Event → Prop
  | [] => True
  | e :: past => InOrder past e ∧ Orderly past

/-- The connection whose socket the coroutine has, and no object. -/
def Task.own : Task → Option ℕ
  | .init k | .flag k | .connect k => some k
  | _ => none

namespace World

variable {O : Type*}

/-- The socket `k` was created and is in no object, and nothing was heard of it. -/
structure Unused (w : World O) (k : ℕ) : Prop where
  created : k < w.connections
  apart : ∀ p, (w.object p).session ≠ some k
  silent : ∀ e ∈ w.log, e.number ≠ k

/-- Where an operation stands its object is in this state. -/
def Stands (w : World O) (o : O) : Task → Prop
  | .create => (w.object o).session = none
  | .init k => (w.object o).session = none ∧ w.Unused k
  | .flag k | .connect k => (w.object o).session = none ∧ w.Unused k ∧ w.abstract k = some o
  | .handshake k => (w.object o).session = some k ∧ (w.object o).channel = none
  | .sessionDisconnect => (w.object o).channel = none
  | _ => True

/-- An object holds a socket and a session of one connection, or neither; it is the one that
    the abstract pointer names; and nothing that it holds was given up. -/
structure Inv (pending : Option Channel) (w : World O) : Prop where
  paired : ∀ o, (w.object o).socket = (w.object o).session
  channel : ∀ o c, (w.object o).channel = some c → (w.object o).session = some c.session
  named : ∀ o k, (w.object o).session = some k → w.abstract k = some o
  tasks : ∀ o t, (w.object o).task = some t → w.Stands o t
  own : ∀ o p t u k, (w.object o).task = some t → (w.object p).task = some u →
    t.own = some k → u.own = some k → o = p
  held : ∀ o k, (w.object o).session = some k → k < w.connections ∧ ∀ e ∈ w.log, e.Spares k
  opened : ∀ c, .channelOpen c ∈ w.log →
    .channelClose c ∈ w.log ∨ (∃ o, (w.object o).channel = some c) ∨ pending = some c
  known : ∀ e ∈ w.log, e.number < w.connections
  dead : ∀ o, (w.object o).alive = false → w.object o = ⟨none, none, none, none, false⟩
  tried : ∀ o k, (w.object o).session = some k →
    .handshake k ∈ w.log ∨ (w.object o).task = some (.handshake k)
  orderly : Orderly w.log

theorem inv_init : Inv none (init : World O) where
  paired _ := rfl
  channel _ _ h := by cases h
  named _ _ h := by cases h
  tasks _ _ h := by cases h
  own _ _ _ _ _ h := by cases h
  held _ _ h := by cases h
  opened _ h := by cases h
  known _ h := by cases h
  dead _ _ := rfl
  tried _ _ h := by cases h
  orderly := trivial

variable {w w' : World O} {pending : Option Channel} {o p : O} {k : ℕ} {c : Channel}

/-- Two objects do not hold one session. -/
theorem Inv.single (h : Inv pending w) (ho : (w.object o).session = some k)
    (hp : (w.object p).session = some k) : o = p :=
  Option.some.inj ((h.named o k ho).symm.trans (h.named p k hp))

/-- What a coroutine has on its own was not used yet. -/
theorem Stands.unused {t : Task} (hst : w.Stands o t) (hown : t.own = some k) :
    (w.object o).session = none ∧ w.Unused k := by
  cases t with
  | init => cases hown; exact hst
  | flag | connect => cases hown; exact ⟨hst.1, hst.2.1⟩
  | _ => cases hown

theorem Inv.unused {t : Task} (h : Inv pending w) (ht : (w.object o).task = some t)
    (hown : t.own = some k) : w.Unused k :=
  ((h.tasks o t ht).unused hown).2

/-! ## 2. Noting an event -/

theorem Inv.note (h : Inv pending w) {e : Event} (hnum : e.number < w.connections)
    (hown : ∀ o t, (w.object o).task = some t → t.own ≠ some e.number)
    (hspare : ∀ o k, (w.object o).session = some k → e.Spares k)
    (hopen : ∀ c, e = .channelOpen c → pending = some c) (hord : InOrder w.log e) :
    Inv pending (w.note e) where
  paired := h.paired
  channel := h.channel
  named := h.named
  tasks o t ht := by
    have hst := h.tasks o t ht
    have hne := hown o t ht
    have hunused : ∀ {k}, t.own = some k → w.Unused k → (w.note e).Unused k := by
      intro k hk hu
      refine ⟨hu.created, hu.apart, fun e' he' => ?_⟩
      rcases List.mem_cons.mp he' with rfl | he'
      · exact fun he => hne (he ▸ hk)
      · exact hu.silent e' he'
    cases t with
    | init => exact ⟨hst.1, hunused rfl hst.2⟩
    | flag | connect => exact ⟨hst.1, hunused rfl hst.2.1, hst.2.2⟩
    | _ => exact hst
  own := h.own
  held o k hk := by
    refine ⟨(h.held o k hk).1, fun e' he' => ?_⟩
    rcases List.mem_cons.mp he' with rfl | he'
    · exact hspare o k hk
    · exact (h.held o k hk).2 e' he'
  opened c hc := by
    rcases List.mem_cons.mp hc with hc | hc
    · exact Or.inr (Or.inr (hopen c hc.symm))
    · exact (h.opened c hc).imp_left (List.mem_cons_of_mem _)
  known e' he' := by
    rcases List.mem_cons.mp he' with rfl | he'
    · exact hnum
    · exact h.known e' he'
  dead := h.dead
  tried o k hk := (h.tried o k hk).imp_left (List.mem_cons_of_mem _)
  orderly := ⟨hord, h.orderly⟩

/-- An event about a connection that an object holds, and that leaves it its session. -/
theorem Inv.note_held (h : Inv pending w) {e : Event}
    (ho : (w.object o).session = some e.number) (hspare : ∀ k, e.Spares k)
    (hopen : ∀ c, e = .channelOpen c → pending = some c) (hord : InOrder w.log e) :
    Inv pending (w.note e) :=
  h.note (h.held o _ ho).1 (fun _ _ ht hown => (h.unused ht hown).apart o ho)
    (fun _ k _ => hspare k) hopen hord

/-- The channel of an object can be closed. -/
theorem Inv.noteClose (h : Inv pending w) (hc : (w.object o).channel = some c) :
    Inv pending (w.note (.channelClose c)) := by
  have hs := h.channel o c hc
  refine h.note_held hs (fun _ => trivial) (fun _ he => by cases he) fun socket hfree => ?_
  exact (h.held o _ hs).2 _ hfree rfl

/-! ## 3. Rewriting an object -/

theorem Unused.congr (hu : w.Unused k)
    (hsession : ∀ q, (w'.object q).session = some k → ∃ r, (w.object r).session = some k)
    (hconn : w.connections ≤ w'.connections) (hlog : w'.log = w.log) : w'.Unused k := by
  refine ⟨Nat.lt_of_lt_of_le hu.created hconn, fun q hq => ?_, hlog ▸ hu.silent⟩
  obtain ⟨r, hr⟩ := hsession q hq
  exact hu.apart r hr

/-- An operation of an object that does not change stands where it stood, as long as what it
    has on its own appears in no object. -/
theorem Stands.congr {t : Task} (hst : w.Stands p t) (hobj : w'.object p = w.object p)
    (hsession : ∀ q k, t.own = some k → (w'.object q).session = some k →
      ∃ r, (w.object r).session = some k)
    (habstract : ∀ k, t = .flag k ∨ t = .connect k → w'.abstract k = w.abstract k)
    (hconn : w.connections ≤ w'.connections) (hlog : w'.log = w.log) : w'.Stands p t := by
  cases t with
  | init k => exact ⟨hobj ▸ hst.1, hst.2.congr (fun q => hsession q k rfl) hconn hlog⟩
  | flag k =>
    exact ⟨hobj ▸ hst.1, hst.2.1.congr (fun q => hsession q k rfl) hconn hlog,
      (habstract k (Or.inl rfl)).trans hst.2.2⟩
  | connect k =>
    exact ⟨hobj ▸ hst.1, hst.2.1.congr (fun q => hsession q k rfl) hconn hlog,
      (habstract k (Or.inr rfl)).trans hst.2.2⟩
  | create | sessionDisconnect | handshake =>
    simp only [Stands, hobj] at hst ⊢
    exact hst
  | _ => exact hst

variable [DecidableEq O]

theorem object_self {s : Session} : (w.setObject o s).object o = s := Function.update_self ..

theorem object_of_ne {s : Session} (h : p ≠ o) : (w.setObject o s).object p = w.object p :=
  Function.update_of_ne h ..

theorem setObject_self : w.setObject o (w.object o) = w :=
  congrArg (fun f => { w with object := f }) (Function.update_eq_self o w.object)

/-- The task and the channel of an object change; it keeps its socket and its session. -/
theorem Inv.rewrite {s : Session} {pending' : Option Channel} (h : Inv pending w)
    (hsocket : s.socket = (w.object o).socket) (hsession : s.session = (w.object o).session)
    (halive : s.alive = true) (hchannel : ∀ c, s.channel = some c → s.session = some c.session)
    (htask : ∀ t, s.task = some t → (w.setObject o s).Stands o t)
    (hown : ∀ t p u k, p ≠ o → s.task = some t → (w.object p).task = some u → t.own = some k →
      u.own ≠ some k)
    (htried : ∀ k, s.session = some k → .handshake k ∈ w.log ∨ s.task = some (.handshake k))
    (hopened : ∀ c, (w.object o).channel = some c ∨ pending = some c → .channelOpen c ∈ w.log →
      .channelClose c ∈ w.log ∨ s.channel = some c ∨ pending' = some c) :
    Inv pending' (w.setObject o s) := by
  have hsessions : ∀ q, ((w.setObject o s).object q).session = (w.object q).session := by
    intro q
    by_cases hq : q = o
    · rw [hq, object_self, hsession]
    · rw [object_of_ne hq]
  refine ⟨fun p => ?_, fun p c hc => ?_, fun p k hk => ?_, fun p t ht => ?_,
    fun p q t u k ht hu htk huk => ?_, fun p k hk => ?_, fun c hc => ?_, h.known, fun p hp => ?_,
    fun p k hk => ?_, h.orderly⟩
  · by_cases hp : p = o
    · rw [hp, object_self, hsocket, hsession, h.paired]
    · rw [object_of_ne hp, h.paired]
  · by_cases hp : p = o
    · rw [hp, object_self] at hc ⊢
      exact hchannel c hc
    · rw [object_of_ne hp] at hc ⊢
      exact h.channel p c hc
  · rw [hsessions] at hk
    exact h.named p k hk
  · by_cases hp : p = o
    · rw [hp, object_self] at ht
      exact hp ▸ htask t ht
    · rw [object_of_ne hp] at ht
      exact (h.tasks p t ht).congr (object_of_ne hp) (fun q k _ hk => ⟨q, hsessions q ▸ hk⟩)
        (fun _ _ => rfl) (Nat.le_refl _) rfl
  · by_cases hp : p = o
    · by_cases hq : q = o
      · exact hp.trans hq.symm
      · rw [hp, object_self] at ht
        rw [object_of_ne hq] at hu
        exact absurd huk (hown t q u k hq ht hu htk)
    · rw [object_of_ne hp] at ht
      by_cases hq : q = o
      · rw [hq, object_self] at hu
        exact absurd htk (hown u p t k hp hu ht huk)
      · rw [object_of_ne hq] at hu
        exact h.own p q t u k ht hu htk huk
  · rw [hsessions] at hk
    exact h.held p k hk
  · rcases h.opened c hc with hclosed | ⟨p, hp⟩ | hpending
    · exact Or.inl hclosed
    · by_cases hpo : p = o
      · refine (hopened c (Or.inl (hpo ▸ hp)) hc).imp_right (Or.imp_left fun hs => ⟨o, ?_⟩)
        rw [object_self]
        exact hs
      · refine Or.inr (Or.inl ⟨p, ?_⟩)
        rw [object_of_ne hpo]
        exact hp
    · refine (hopened c (Or.inr hpending) hc).imp_right (Or.imp_left fun hs => ⟨o, ?_⟩)
      rw [object_self]
      exact hs
  · by_cases hpo : p = o
    · rw [hpo, object_self, halive] at hp
      cases hp
    · rw [object_of_ne hpo] at hp ⊢
      exact h.dead p hp
  · rw [hsessions] at hk
    by_cases hpo : p = o
    · rw [hpo, object_self]
      exact htried k (hsession ▸ hpo ▸ hk)
    · rw [object_of_ne hpo]
      exact h.tried p k hk

/-- An operation stands where it stood when its object keeps its session and gets no channel. -/
theorem Stands.rewrite {s : Session} {t : Task} (hst : w.Stands o t)
    (hsession : s.session = (w.object o).session)
    (hchannel : s.channel = (w.object o).channel ∨ s.channel = none) :
    (w.setObject o s).Stands o t := by
  have hnone : (w.object o).channel = none → s.channel = none := fun hc =>
    hchannel.elim (fun he => he.trans hc) id
  have hobj : ((w.setObject o s).object o).session = (w.object o).session := by
    rw [object_self, hsession]
  have hsame : ∀ q k, ((w.setObject o s).object q).session = some k →
      ∃ r, (w.object r).session = some k := by
    intro q k hq
    by_cases hqo : q = o
    · exact ⟨o, hobj ▸ hqo ▸ hq⟩
    · exact ⟨q, by rwa [object_of_ne hqo] at hq⟩
  cases t with
  | init k => exact ⟨hobj.trans hst.1, hst.2.congr (fun q => hsame q k) (Nat.le_refl _) rfl⟩
  | flag k | connect k =>
    exact ⟨hobj.trans hst.1, hst.2.1.congr (fun q => hsame q k) (Nat.le_refl _) rfl, hst.2.2⟩
  | create | handshake | sessionDisconnect =>
    simp only [Stands, object_self, hsession] at hst ⊢
    first
      | exact hst
      | exact hnone hst
      | exact ⟨hst.1, hnone hst.2⟩
  | _ => trivial

/-- An operation goes on to another call, which has no connection of its own but the one it
    had. -/
theorem Inv.setTask {t' : Option Task} (h : Inv pending w) (halive : (w.object o).alive = true)
    (htask : ∀ t, t' = some t → w.Stands o t)
    (hown : ∀ t p u k, p ≠ o → t' = some t → (w.object p).task = some u → t.own = some k →
      u.own ≠ some k)
    (htried : ∀ k, (w.object o).session = some k →
      .handshake k ∈ w.log ∨ t' = some (.handshake k)) : Inv pending (w.setTask o t') :=
  h.rewrite rfl rfl halive (h.channel o) (fun t ht => (htask t ht).rewrite rfl (Or.inl rfl))
    hown htried
    fun _ hc _ => Or.inr hc

/-- The operation is over. -/
theorem Inv.finish (h : Inv pending w) (halive : (w.object o).alive = true)
    (htried : ∀ k, (w.object o).session = some k → .handshake k ∈ w.log) :
    Inv pending (w.setTask o none) :=
  h.setTask halive (fun _ ht => by cases ht) (fun _ _ _ _ _ ht => by cases ht)
    fun k hk => Or.inl (htried k hk)

/-- A channel that was closed is dropped. -/
theorem Inv.dropChannel (h : Inv pending w) (halive : (w.object o).alive = true)
    (hclosed : ∀ c, (w.object o).channel = some c → .channelClose c ∈ w.log) :
    Inv pending (w.setChannel o none) := by
  refine h.rewrite rfl rfl halive (fun c hc => by cases hc)
    (fun t ht => (h.tasks o t ht).rewrite rfl (Or.inr rfl))
    (fun t p u k hp ht hu htk huk => hp (h.own p o u t k hu ht huk htk)) (h.tried o)
    fun c hc _ => ?_
  rcases hc with hc | hc
  · exact Or.inl (hclosed c hc)
  · exact Or.inr (Or.inr hc)

/-- `channel_.reset()`: the channel is closed before it is dropped. -/
theorem Inv.resetChannel (h : Inv pending w) (halive : (w.object o).alive = true) :
    Inv pending (w.resetChannel o none) := by
  unfold World.resetChannel
  cases hc : (w.object o).channel with
  | none => exact h.dropChannel halive fun c hc' => by rw [hc] at hc'; cases hc'
  | some c =>
    refine (h.noteClose hc).dropChannel halive fun d hd => ?_
    cases hc.symm.trans hd
    exact List.mem_cons_self

/-- A channel that was opened is put into the object. -/
theorem Inv.takeChannel (h : Inv (some c) w) (halive : (w.object o).alive = true)
    (hs : (w.object o).session = some c.session) (ht : (w.object o).task = some .channelOpen)
    (hclosed : ∀ d, (w.object o).channel = some d → .channelClose d ∈ w.log) :
    Inv none (w.setChannel o (some c)) := by
  refine h.rewrite rfl rfl halive (fun d hd => ?_) (fun t ht' => ?_)
    (fun t p u k hp ht' hu htk huk => hp (h.own p o u t k hu ht' huk htk)) (h.tried o)
    fun d hd _ => ?_
  · cases hd
    exact hs
  · cases ht.symm.trans ht'
    trivial
  · rcases hd with hd | hd
    · exact Or.inl (hclosed d hd)
    · exact Or.inr (Or.inl hd)

/-- `channel_.reset(libssh2_channel_open_session(session_))`: a channel that the object had is
    closed after the new one was opened. -/
theorem Inv.openChannel (h : Inv none w) (halive : (w.object o).alive = true)
    (hs : (w.object o).session = some k) (ht : (w.object o).task = some .channelOpen) :
    Inv none ((w.openChannel k).resetChannel o (some ⟨k, w.channels⟩)) := by
  have hopen : Inv (some ⟨k, w.channels⟩) (w.openChannel k) := by
    have hpending : Inv (some ⟨k, w.channels⟩) w :=
      { h with
        opened := fun c hc => (h.opened c hc).imp_right (Or.imp_right fun he => by cases he) }
    have hnote := hpending.note_held (e := .channelOpen ⟨k, w.channels⟩) hs (fun _ => trivial)
      (fun c he => by cases he; rfl) trivial
    exact ⟨hnote.paired, hnote.channel, hnote.named, fun p t ht => (hnote.tasks p t ht).congr rfl
      (fun q k _ hk => ⟨q, hk⟩) (fun _ _ => rfl) (Nat.le_refl _) rfl, hnote.own, hnote.held,
      hnote.opened, hnote.known, hnote.dead, hnote.tried, hnote.orderly⟩
  unfold World.resetChannel
  have hsame : ((w.openChannel k).object o).channel = (w.object o).channel := rfl
  cases hc : (w.object o).channel with
  | none =>
    rw [hsame, hc]
    exact hopen.takeChannel halive hs ht fun d hd => by rw [hsame, hc] at hd; cases hd
  | some d =>
    rw [hsame, hc]
    refine (hopen.noteClose hc).takeChannel halive hs ht fun d' hd => ?_
    cases hc.symm.trans hd
    exact List.mem_cons_self

/-! ## 4. Giving up a connection -/

/-- What is left of an object that gave up its connection. -/
structure Blank (s : Session) : Prop where
  socket : s.socket = none
  session : s.session = none
  channel : s.channel = none
  task : s.task = none ∨ s.task = some .create
  alive : s.alive = false → s.task = none

theorem Blank.own {s : Session} (hs : Blank s) (t : Task) (k : ℕ) (ht : s.task = some t) :
    t.own ≠ some k := by
  rcases hs.task with hnone | hcreate
  · rw [hnone] at ht
    cases ht
  · rw [hcreate] at ht
    cases ht
    exact nofun

/-- An object without a channel loses its session and its socket. -/
theorem Inv.blank {s : Session} (h : Inv none w) (hs : Blank s)
    (hchannel : (w.object o).channel = none) : Inv none (w.setObject o s) := by
  have hsession : ∀ q k, ((w.setObject o s).object q).session = some k →
      q ≠ o ∧ (w.object q).session = some k := by
    intro q k hq
    by_cases hqo : q = o
    · rw [hqo, object_self, hs.session] at hq
      cases hq
    · exact ⟨hqo, by rwa [object_of_ne hqo] at hq⟩
  refine ⟨fun p => ?_, fun p c hc => ?_, fun p k hk => ?_, fun p t ht => ?_,
    fun p q t u k ht hu htk huk => ?_, fun p k hk => ?_, fun c hc => ?_, h.known, fun p hp => ?_,
    fun p k hk => ?_, h.orderly⟩
  · by_cases hp : p = o
    · rw [hp, object_self, hs.socket, hs.session]
    · rw [object_of_ne hp, h.paired]
  · by_cases hp : p = o
    · rw [hp, object_self, hs.channel] at hc
      cases hc
    · rw [object_of_ne hp] at hc ⊢
      exact h.channel p c hc
  · exact h.named p k (hsession p k hk).2
  · by_cases hp : p = o
    · rw [hp, object_self] at ht
      rcases hs.task with hnone | hcreate
      · rw [hnone] at ht
        cases ht
      · rw [hcreate] at ht
        cases ht
        rw [Stands, hp, object_self, hs.session]
    · rw [object_of_ne hp] at ht
      exact (h.tasks p t ht).congr (object_of_ne hp) (fun q k _ hk => ⟨q, (hsession q k hk).2⟩)
        (fun _ _ => rfl) (Nat.le_refl _) rfl
  · by_cases hp : p = o
    · rw [hp, object_self] at ht
      exact absurd htk (hs.own t k ht)
    · by_cases hq : q = o
      · rw [hq, object_self] at hu
        exact absurd huk (hs.own u k hu)
      · rw [object_of_ne hp] at ht
        rw [object_of_ne hq] at hu
        exact h.own p q t u k ht hu htk huk
  · exact h.held p k (hsession p k hk).2
  · refine (h.opened c hc).imp_right (Or.imp_left fun ⟨p, hp⟩ => ⟨p, ?_⟩)
    have hpo : p ≠ o := fun he => by rw [he, hchannel] at hp; cases hp
    rw [object_of_ne hpo]
    exact hp
  · by_cases hpo : p = o
    · rw [hpo, object_self] at hp ⊢
      obtain ⟨socket, session, channel, task, alive⟩ := s
      have htask := hs.alive hp
      have hsocket := hs.socket
      have hsession := hs.session
      have hchannel := hs.channel
      simp_all
    · rw [object_of_ne hpo] at hp ⊢
      exact h.dead p hp
  · obtain ⟨hpo, hk⟩ := hsession p k hk
    rw [object_of_ne hpo]
    exact h.tried p k hk

omit [DecidableEq O] in
theorem Inv.holds (h : Inv pending w) (hk : (w.object o).session = some k) :
    w.holds k = some k := by
  rw [World.holds, h.named o k hk]
  exact (h.paired o).trans hk

theorem resetChannel_object {v : Option Channel} :
    (w.resetChannel o v).object o = { w.object o with channel := v } := by
  unfold World.resetChannel
  split <;> exact object_self

theorem resetChannel_alive {v : Option Channel} :
    ((w.resetChannel o v).object o).alive = (w.object o).alive := by
  rw [resetChannel_object]

theorem resetChannel_task {v : Option Channel} :
    ((w.resetChannel o v).object o).task = (w.object o).task := by
  rw [resetChannel_object]

/-- What the two resets do to an object and to the log. -/
theorem teardown_eq {s : Session} (h : Inv pending w) :
    ((w.resetSession o).closeSocket o).setObject o s =
      match (w.object o).session with
      | some k => ((w.setObject o s).note (.sessionFree k (some k))).note (.socketClose k)
      | none => w.setObject o s := by
  have hpair := h.paired o
  unfold resetSession
  cases hk : (w.object o).session with
  | none =>
    unfold closeSocket
    dsimp only
    rw [hpair, hk]
  | some k =>
    rw [hk] at hpair
    have hsocket : (((w.free k).setSession o none).object o).socket = some k := by
      rw [setSession, object_self]
      exact hpair
    unfold closeSocket
    dsimp only
    rw [hsocket]
    simp only [setSocket, setSession, setObject, World.note, free, h.holds hk,
      Function.update_idem]

/-- **Innermost first**: with its channel gone, an object frees its session and closes its
    socket, in this order. -/
theorem Inv.teardown {s : Session} (h : Inv none w) (hs : Blank s)
    (hchannel : (w.object o).channel = none) :
    Inv none (((w.resetSession o).closeSocket o).setObject o s) := by
  rw [teardown_eq h]
  have hblank := h.blank hs hchannel
  cases hk : (w.object o).session with
  | none => exact hblank
  | some k =>
    obtain ⟨hlt, hspares⟩ := h.held o k hk
    have hapart : ∀ p t, ((w.setObject o s).object p).task = some t → t.own ≠ some k := by
      intro p t ht
      by_cases hp : p = o
      · rw [hp, object_self] at ht
        exact hs.own t k ht
      · rw [object_of_ne hp] at ht
        exact fun hown => (h.unused ht hown).apart o hk
    have hother : ∀ p j, ((w.setObject o s).object p).session = some j → k ≠ j := by
      intro p j hj
      by_cases hp : p = o
      · rw [hp, object_self, hs.session] at hj
        cases hj
      · rw [object_of_ne hp] at hj
        exact fun he => hp (h.single hj (he ▸ hk))
    have hfree := hblank.note (e := .sessionFree k (some k)) hlt hapart hother
      (fun c he => by cases he) fun _ => ⟨rfl, fun hc => hspares _ hc rfl, fun c hck hc => ?_⟩
    · exact hfree.note (e := .socketClose k) hlt hapart hother (fun c he => by cases he)
        fun _ => ⟨some k, List.mem_cons_self⟩
    · -- A channel of the session is closed, or this object would have it.
      rcases h.opened c hc with hclosed | ⟨p, hp⟩ | hpending
      · exact hclosed
      · have hpo : p = o := h.single (hck ▸ h.channel p c hp) hk
        rw [hpo, hchannel] at hp
        cases hp
      · cases hpending

/-- `close()`, and the destructors. -/
theorem Inv.close {s : Session} (h : Inv none w) (halive : (w.object o).alive = true)
    (hs : Blank s) : Inv none ((w.close o).setObject o s) := by
  refine (h.resetChannel halive).teardown hs ?_
  rw [resetChannel_object]

theorem closeSocket_object : (w.closeSocket o).object o = { w.object o with socket := none } := by
  unfold closeSocket
  split
  · exact object_self
  · rename_i hnone
    rw [← hnone]

theorem resetSession_object :
    (w.resetSession o).object o = { w.object o with session := none } := by
  unfold resetSession
  split
  · exact object_self
  · rename_i hnone
    rw [← hnone]

theorem close_object : (w.close o).object o =
    { w.object o with socket := none, session := none, channel := none } := by
  rw [World.close, closeSocket_object, resetSession_object, resetChannel_object]

/-! ## 5. `connect` -/

/-- A new socket, held by no object. -/
theorem Inv.socketCreate (h : Inv none w) (ht : (w.object o).task = some .create)
    (halive : (w.object o).alive = true) :
    Inv none (w.socketCreate.setTask o (some (.init w.connections))) := by
  have hcreate : Inv none w.socketCreate :=
    ⟨h.paired, h.channel, h.named, fun p t hp => (h.tasks p t hp).congr rfl
      (fun q k _ hk => ⟨q, hk⟩) (fun _ _ => rfl) (Nat.le_succ _) rfl, h.own,
      fun p k hk => ⟨Nat.lt_succ_of_lt (h.held p k hk).1, (h.held p k hk).2⟩, h.opened,
      fun e he => Nat.lt_succ_of_lt (h.known e he), h.dead, h.tried, h.orderly⟩
  refine hcreate.setTask halive (fun t he => ?_) (fun t p u k hp he hu htk huk => ?_) fun k hk => ?_
  · cases he
    refine ⟨h.tasks o _ ht, Nat.lt_succ_self _, fun p hp => ?_, fun e he => ?_⟩
    · exact Nat.lt_irrefl _ (h.held p _ hp).1
    · exact Nat.ne_of_lt (h.known e he)
  · cases he
    cases htk
    exact Nat.lt_irrefl _ (h.unused hu huk).created
  · cases (h.tasks o _ ht : (w.object o).session = none).symm.trans hk

/-- `libssh2_session_init_ex(nullptr, nullptr, nullptr, this)` -/
theorem Inv.sessionInit (h : Inv none w) (ht : (w.object o).task = some (.init k))
    (halive : (w.object o).alive = true) :
    Inv none ((w.name (some k) o).setTask o (some (.flag k))) := by
  obtain ⟨hnone, hu⟩ := h.tasks o _ ht
  have hne : ∀ {j}, j ≠ k → (w.name (some k) o).abstract j = w.abstract j :=
    fun hj => Function.update_of_ne hj ..
  have hname : Inv none (w.name (some k) o) := by
    refine ⟨h.paired, h.channel, fun p j hj => ?_, fun p t hp => ?_, h.own, h.held, h.opened,
      h.known, h.dead, h.tried, h.orderly⟩
    · rw [hne fun he => hu.apart p (he ▸ hj)]
      exact h.named p j hj
    · refine (h.tasks p t hp).congr rfl (fun q k _ hk => ⟨q, hk⟩) (fun j hj => ?_)
        (Nat.le_refl _) rfl
      by_cases hpo : p = o
      · have hinit : some (Task.init k) = some t := ht.symm.trans (hpo ▸ hp)
        cases hinit
        rcases hj with hj | hj <;> cases hj
      · refine hne fun he => hpo (h.own p o t _ k hp ht ?_ rfl)
        rcases hj with rfl | rfl <;> exact congrArg some he
  refine hname.setTask halive (fun t he => ?_) (fun t p u j hp he hu' htj huj => ?_) fun j hj => ?_
  · cases he
    exact ⟨hnone, ⟨hu.created, hu.apart, hu.silent⟩, Function.update_self ..⟩
  · cases he
    exact hp (h.own p o u _ j hu' ht huj htj)
  · cases hnone.symm.trans hj

/-- `connect` goes on with the socket and the session of its own. -/
theorem Inv.proceed {t t' : Task} (h : Inv none w) (ht : (w.object o).task = some t)
    (halive : (w.object o).alive = true) (hst : w.Stands o t') (hown : t'.own = t.own)
    (hnone : (w.object o).session = none) : Inv none (w.setTask o (some t')) := by
  refine h.setTask halive (fun u he => ?_) (fun u p v j hp he hv huj hvj => ?_) fun j hj => ?_
  · cases he
    exact hst
  · cases he
    exact hp (h.own p o v t j hv ht hvj (hown ▸ huj))
  · cases hnone.symm.trans hj

/-- `connect` gives up what no object holds: no handshake was attempted. -/
theorem Inv.note_own {t : Task} (h : Inv none w) (ht : (w.object o).task = some t)
    (halive : (w.object o).alive = true) (hown : t.own = some k) :
    Inv none ((w.note (.socketClose k)).setTask o none) ∧ ∀ socket : Option ℕ,
      Inv none (((w.note (.sessionFree k socket)).note (.socketClose k)).setTask o none) := by
  obtain ⟨hnone, hu⟩ := (h.tasks o t ht).unused hown
  have hfinish : Inv none (w.setTask o none) :=
    h.finish halive fun j hj => by cases hnone.symm.trans hj
  have hothers : ∀ p u, ((w.setTask o none).object p).task = some u → u.own ≠ some k := by
    intro p u hp huk
    by_cases hpo : p = o
    · rw [hpo, World.setTask, object_self] at hp
      cases hp
    · rw [World.setTask, object_of_ne hpo] at hp
      exact hpo (h.own p o u t k hp ht huk hown)
  have hapart : ∀ p j, ((w.setTask o none).object p).session = some j → k ≠ j := by
    intro p j hj he
    by_cases hpo : p = o
    · rw [hpo, World.setTask, object_self, hnone] at hj
      cases hj
    · rw [World.setTask, object_of_ne hpo] at hj
      exact hu.apart p (he ▸ hj)
  constructor
  · exact hfinish.note (e := .socketClose k) hu.created hothers hapart (fun c he => by cases he)
      fun hh => absurd rfl (hu.silent _ hh)
  · intro socket
    have hfree := hfinish.note (e := .sessionFree k socket) hu.created hothers hapart
      (fun c he => by cases he) fun hh => absurd rfl (hu.silent _ hh)
    exact hfree.note (e := .socketClose k) hu.created hothers hapart (fun c he => by cases he)
      fun _ => ⟨socket, List.mem_cons_self⟩

theorem attach_eq {t : Option Task} (h : Inv none w) (hnone : (w.object o).session = none) :
    (w.attach o k).setTask o t =
      w.setObject o { w.object o with socket := some k, session := some k, task := t } := by
  have hsocket : ((w.setSession o (some k)).object o).socket = none := by
    rw [setSession, object_self]
    exact (h.paired o).trans hnone
  unfold attach assignSession assignSocket
  rw [hnone]
  dsimp only
  rw [hsocket]
  simp only [setTask, setSocket, setSession, setObject, Function.update_self, Function.update_idem]

/-- The object takes the socket and the session over, for the handshake. -/
theorem Inv.attach (h : Inv none w) (ht : (w.object o).task = some (.connect k))
    (halive : (w.object o).alive = true) :
    Inv none ((w.attach o k).setTask o (some (.handshake k))) := by
  obtain ⟨hnone, hu, habstract⟩ := h.tasks o _ ht
  have hchannel : (w.object o).channel = none := by
    refine Option.eq_none_iff_forall_ne_some.mpr fun c hc => ?_
    cases hnone.symm.trans (h.channel o c hc)
  rw [attach_eq h hnone]
  refine ⟨fun p => ?_, fun p c hc => ?_, fun p j hj => ?_, fun p t hp => ?_,
    fun p q t u j hp hq htj huj => ?_, fun p j hj => ?_, fun c hc => ?_, h.known, fun p hp => ?_,
    fun p j hj => ?_, h.orderly⟩
  · by_cases hpo : p = o
    · rw [hpo, object_self]
    · rw [object_of_ne hpo, h.paired]
  · by_cases hpo : p = o
    · rw [hpo, object_self] at hc
      cases hchannel.symm.trans hc
    · rw [object_of_ne hpo] at hc ⊢
      exact h.channel p c hc
  · by_cases hpo : p = o
    · rw [hpo, object_self] at hj
      cases hj
      exact hpo ▸ habstract
    · rw [object_of_ne hpo] at hj
      exact h.named p j hj
  · by_cases hpo : p = o
    · rw [hpo, object_self] at hp
      cases hp
      rw [hpo]
      exact ⟨by rw [object_self], by rw [object_self]; exact hchannel⟩
    · rw [object_of_ne hpo] at hp
      refine (h.tasks p t hp).congr (object_of_ne hpo) (fun q j htj hq => ?_) (fun _ _ => rfl)
        (Nat.le_refl _) rfl
      by_cases hqo : q = o
      · rw [hqo, object_self] at hq
        cases hq
        exact absurd (h.own p o t _ k hp ht htj rfl) hpo
      · exact ⟨q, by rwa [object_of_ne hqo] at hq⟩
  · by_cases hpo : p = o
    · rw [hpo, object_self] at hp
      cases hp
      cases htj
    · by_cases hqo : q = o
      · rw [hqo, object_self] at hq
        cases hq
        cases huj
      · rw [object_of_ne hpo] at hp
        rw [object_of_ne hqo] at hq
        exact h.own p q t u j hp hq htj huj
  · by_cases hpo : p = o
    · rw [hpo, object_self] at hj
      cases hj
      refine ⟨hu.created, fun e he => ?_⟩
      have hne := hu.silent e he
      cases e <;> first | exact hne | trivial
    · rw [object_of_ne hpo] at hj
      exact h.held p j hj
  · refine (h.opened c hc).imp_right (Or.imp_left fun ⟨p, hp⟩ => ⟨p, ?_⟩)
    have hpo : p ≠ o := fun he => by rw [he, hchannel] at hp; cases hp
    rw [object_of_ne hpo]
    exact hp
  · by_cases hpo : p = o
    · rw [hpo, object_self] at hp
      cases halive.symm.trans hp
    · rw [object_of_ne hpo] at hp ⊢
      exact h.dead p hp
  · by_cases hpo : p = o
    · rw [hpo, object_self] at hj ⊢
      cases hj
      exact Or.inr rfl
    · rw [object_of_ne hpo] at hj ⊢
      exact h.tried p j hj

/-! ## 6. Moves -/

/-- An object between operations. -/
structure Rests (w : World O) (o : O) : Prop where
  alive : (w.object o).alive = true
  task : (w.object o).task = none

omit [DecidableEq O] in
theorem rests_of_idle (h : w.idle o = true) : w.Rests o := by
  simp only [idle, Bool.and_eq_true, Option.isNone_iff_eq_none] at h
  exact ⟨h.1, h.2⟩

/-- An object that holds nothing. -/
structure Bare (w : World O) (o : O) : Prop where
  socket : (w.object o).socket = none
  session : (w.object o).session = none
  channel : (w.object o).channel = none

omit [DecidableEq O] in
theorem Inv.bare (h : Inv pending w) (hnone : (w.object o).session = none) : w.Bare o where
  socket := (h.paired o).trans hnone
  session := hnone
  channel := Option.eq_none_iff_forall_ne_some.mpr fun c hc => by
    cases hnone.symm.trans (h.channel o c hc)

/-- Where the members went. -/
theorem moveFrom_object {other : O} (p : O) :
    (p = o ∧ (w.moveFrom o other).object p = ⟨(w.object other).socket, (w.object other).session,
      (w.object other).channel, none, true⟩) ∨
    (p ≠ o ∧ p = other ∧ (w.moveFrom o other).object p =
      ⟨none, none, none, (w.object other).task, true⟩) ∨
    (p ≠ o ∧ p ≠ other ∧ (w.moveFrom o other).object p = w.object p) := by
  unfold moveFrom
  by_cases hpo : p = o
  · exact Or.inl ⟨hpo, hpo ▸ object_self⟩
  · rw [object_of_ne hpo]
    by_cases hpt : p = other
    · exact Or.inr (Or.inl ⟨hpo, hpt, hpt ▸ object_self⟩)
    · exact Or.inr (Or.inr ⟨hpo, hpt, object_of_ne hpt⟩)

theorem moveFrom_session {other : O} :
    ((w.moveFrom o other).object o).session = (w.object other).session := by
  rw [moveFrom, object_self]

/-- **A move** into an object that holds nothing gives nothing up. -/
theorem Inv.moved {other : O} (h : Inv none w) (hbare : w.Bare o) (hrests : w.Rests other) :
    Inv none ((w.moveFrom o other).name (w.object other).session o) := by
  have hobject := @moveFrom_object O w o _ other
  have hsession : ∀ q j, ((w.moveFrom o other).object q).session = some j →
      ∃ r, (w.object r).session = some j := by
    intro q j hq
    rcases hobject q with ⟨-, hobj⟩ | ⟨-, -, hobj⟩ | ⟨-, -, hobj⟩
    · exact ⟨other, by rwa [hobj] at hq⟩
    · rw [hobj] at hq
      cases hq
    · exact ⟨q, by rwa [hobj] at hq⟩
  have htask : ∀ q t, ((w.moveFrom o other).object q).task = some t →
      (w.moveFrom o other).object q = w.object q := by
    intro q t hq
    rcases hobject q with ⟨-, hobj⟩ | ⟨-, -, hobj⟩ | ⟨-, -, hobj⟩
    · rw [hobj] at hq
      cases hq
    · rw [hobj] at hq
      cases hrests.task.symm.trans hq
    · exact hobj
  have habstract : ∀ j, (w.object other).session ≠ some j →
      ((w.moveFrom o other).name (w.object other).session o).abstract j = w.abstract j := by
    intro j hj
    cases hk : (w.object other).session with
    | none => rfl
    | some k =>
      have hjk : j ≠ k := fun he => hj (he ▸ hk)
      exact Function.update_of_ne hjk ..
  refine ⟨fun p => ?_, fun p c hc => ?_, fun p j hj => ?_, fun p t hp => ?_,
    fun p q t u j hp hq htj huj => ?_, fun p j hj => ?_, fun c hc => ?_, h.known, fun p hp => ?_,
    fun p j hj => ?_, h.orderly⟩
  · show ((w.moveFrom o other).object p).socket = ((w.moveFrom o other).object p).session
    rcases hobject p with ⟨-, hobj⟩ | ⟨-, -, hobj⟩ | ⟨-, -, hobj⟩ <;> rw [hobj]
    · exact h.paired other
    · exact h.paired p
  · change ((w.moveFrom o other).object p).channel = some c at hc
    show ((w.moveFrom o other).object p).session = some c.session
    rcases hobject p with ⟨-, hobj⟩ | ⟨-, -, hobj⟩ | ⟨-, -, hobj⟩ <;> rw [hobj] at hc ⊢
    · exact h.channel other c hc
    · cases hc
    · exact h.channel p c hc
  · change ((w.moveFrom o other).object p).session = some j at hj
    rcases hobject p with ⟨hpo, hobj⟩ | ⟨-, -, hobj⟩ | ⟨-, hpt, hobj⟩ <;> rw [hobj] at hj
    · change (w.object other).session = some j at hj
      rw [hj, hpo]
      exact Function.update_self ..
    · cases hj
    · rw [habstract j fun hk => hpt (h.single hj hk)]
      exact h.named p j hj
  · have hobj := htask p t hp
    change ((w.moveFrom o other).object p).task = some t at hp
    rw [hobj] at hp
    refine (h.tasks p t hp).congr hobj (fun q j _ hq => hsession q j hq) (fun j hj => ?_)
      (Nat.le_refl _) rfl
    refine habstract j ((h.unused (t := t) hp ?_).apart other)
    rcases hj with rfl | rfl <;> rfl
  · have hobjp := htask p t hp
    have hobjq := htask q u hq
    change ((w.moveFrom o other).object p).task = some t at hp
    change ((w.moveFrom o other).object q).task = some u at hq
    rw [hobjp] at hp
    rw [hobjq] at hq
    exact h.own p q t u j hp hq htj huj
  · obtain ⟨r, hr⟩ := hsession p j hj
    exact h.held r j hr
  · refine (h.opened c hc).imp_right (Or.imp_left fun ⟨p, hp⟩ => ?_)
    by_cases hpt : p = other
    · refine ⟨o, ?_⟩
      rcases hobject o with ⟨-, hobj⟩ | ⟨hne, -⟩ | ⟨hne, -⟩
      · show ((w.moveFrom o other).object o).channel = some c
        rw [hobj]
        exact hpt ▸ hp
      · exact absurd rfl hne
      · exact absurd rfl hne
    · refine ⟨p, ?_⟩
      rcases hobject p with ⟨hpo, -⟩ | ⟨-, he, -⟩ | ⟨-, -, hobj⟩
      · rw [hpo, hbare.channel] at hp
        cases hp
      · exact absurd he hpt
      · show ((w.moveFrom o other).object p).channel = some c
        rw [hobj]
        exact hp
  · change ((w.moveFrom o other).object p).alive = false at hp
    show (w.moveFrom o other).object p = _
    rcases hobject p with ⟨-, hobj⟩ | ⟨-, -, hobj⟩ | ⟨-, -, hobj⟩ <;> rw [hobj] at hp ⊢
    · cases hp
    · cases hp
    · exact h.dead p hp
  · change ((w.moveFrom o other).object p).session = some j at hj
    show _ ∨ ((w.moveFrom o other).object p).task = some (.handshake j)
    rcases hobject p with ⟨-, hobj⟩ | ⟨-, -, hobj⟩ | ⟨-, -, hobj⟩ <;> rw [hobj] at hj ⊢
    · refine (h.tried other j hj).imp_right fun hh => ?_
      cases hrests.task.symm.trans hh
    · cases hj
    · exact h.tried p j hj

/-- Assigning to an object that holds nothing is moving into it. -/
theorem moveMembers_eq {other : O} (hbare : w.Bare o) (ho : w.Rests o) (hother : w.Rests other)
    (hne : o ≠ other) : w.moveMembers o other = w.moveFrom o other := by
  obtain ⟨hsocket, hsession, hchannel⟩ := hbare
  simp only [moveMembers, moveFrom, moveSocket, assignSocket, moveSession, assignSession,
    moveChannel, assignChannel, setSocket, setSession, setChannel, setObject,
    Function.update_of_ne hne, Function.update_of_ne hne.symm, Function.update_self, hsocket,
    hsession, hchannel, ho.alive, ho.task, hother.alive]
  refine congrArg (fun f => { w with object := f }) (funext fun p => ?_)
  by_cases hp : p = o
  · subst hp
    simp
  · by_cases hq : p = other
    · subst hq
      simp [Function.update_of_ne hp]
    · simp [Function.update_of_ne hp, Function.update_of_ne hq]

omit [DecidableEq O] in
/-- The abstract pointer names the object that holds the session already. -/
theorem name_self (h : Inv pending w) : w.name (w.object o).session o = w := by
  cases hk : (w.object o).session with
  | none => rfl
  | some k =>
    have habstract : Function.update w.abstract k (some o) = w.abstract := by
      rw [← h.named o k hk]
      exact Function.update_eq_self k w.abstract
    exact congrArg (fun f => { w with abstract := f }) habstract

/-- Assigning an object to itself changes nothing. -/
theorem moveMembers_self : w.moveMembers o o = w := by
  have hsocket : w.moveSocket o o = w := by simp [moveSocket, assignSocket, setSocket, setObject]
  have hsession : w.moveSession o o = w := by
    simp [moveSession, assignSession, setSession, setObject]
  have hchannel : w.moveChannel o o = w := by
    simp [moveChannel, assignChannel, setChannel, setObject]
  rw [moveMembers, hsocket, hsession, hchannel]

/-! ## 7. Operations -/

omit [DecidableEq O] in
theorem Inv.alive {t : Task} (h : Inv pending w) (ht : (w.object o).task = some t) :
    (w.object o).alive = true := by
  cases halive : (w.object o).alive with
  | true => rfl
  | false =>
    rw [h.dead o halive] at ht
    cases ht

omit [DecidableEq O] in
/-- Outside of its handshake, an object holds a session on which one was attempted. -/
theorem Inv.attempted (h : Inv pending w) (ht : ∀ k, (w.object o).task ≠ some (.handshake k)) :
    ∀ k, (w.object o).session = some k → .handshake k ∈ w.log :=
  fun k hk => (h.tried o k hk).resolve_right (ht k)

/-- An operation other than a handshake ends. -/
theorem Inv.ends {t : Task} (h : Inv none w) (ht : (w.object o).task = some t)
    (hne : ∀ k, t ≠ .handshake k) : Inv none (w.setTask o none) :=
  h.finish (h.alive ht) (h.attempted fun k he => hne k (Option.some.inj (ht.symm.trans he)))

/-- What `disconnect` does once there is no channel. -/
theorem Inv.disconnectSession (h : Inv none w) (halive : (w.object o).alive = true)
    (ht : ∀ k, (w.object o).task ≠ some (.handshake k)) (hchannel : (w.object o).channel = none) :
    Inv none (w.disconnectSession o) := by
  unfold World.disconnectSession
  cases hk : (w.object o).session with
  | some k =>
    refine h.setTask halive (fun t he => ?_) (fun t p u j _ he _ htj => ?_) fun j hj => ?_
    · cases he
      exact hchannel
    · cases he
      cases htj
    · exact Or.inl (h.attempted ht j hj)
  | none =>
    have hsame : w.closeSocket o = w := by
      unfold closeSocket
      rw [(h.paired o).trans hk]
    dsimp only
    rw [hsame]
    exact h.finish halive (h.attempted ht)

/-- The two resets and the end of the operation. -/
theorem Inv.giveUp (h : Inv none w) (hchannel : (w.object o).channel = none) :
    Inv none (((w.resetSession o).closeSocket o).setTask o none) := by
  refine h.teardown ⟨?_, ?_, ?_, Or.inl rfl, fun _ => rfl⟩ hchannel
  · rw [closeSocket_object]
  · rw [closeSocket_object, resetSession_object]
  · rw [closeSocket_object, resetSession_object]
    exact hchannel

/-- **The answer to a call** of an operation. -/
theorem Inv.answer {t : Task} {a : Answer} (h : Inv none w) (ht : (w.object o).task = some t)
    (hs : w.answer o t a = some w') : Inv none w' := by
  have halive := h.alive ht
  have hst := h.tasks o t ht
  cases t with
  | library =>
    cases a with
    | ok =>
      cases hs
      refine h.close halive ⟨?_, ?_, ?_, Or.inr rfl, fun hdead => ?_⟩
      · rw [close_object]
      · rw [close_object]
      · rw [close_object]
      · rw [close_object] at hdead
        cases halive.symm.trans hdead
    | again => cases hs
    | failed =>
      cases hs
      exact h.ends ht nofun
  | create =>
    cases a with
    | ok =>
      cases hs
      exact h.socketCreate ht halive
    | again => cases hs
    | failed =>
      cases hs
      exact h.ends ht nofun
  | init k =>
    cases a with
    | ok =>
      cases hs
      exact h.sessionInit ht halive
    | again => cases hs
    | failed =>
      cases hs
      exact (h.note_own ht halive rfl).1
  | flag k =>
    cases a with
    | ok =>
      cases hs
      exact h.proceed ht halive hst rfl hst.1
    | again => cases hs
    | failed =>
      cases hs
      exact (h.note_own ht halive rfl).2 _
  | connect k =>
    cases a with
    | ok =>
      cases hs
      exact h.attach ht halive
    | again => cases hs
    | failed =>
      cases hs
      exact (h.note_own ht halive rfl).2 _
  | handshake k =>
    have hnote : Inv none (w.note (.handshake k)) :=
      h.note_held hst.1 (fun _ => trivial) (fun c he => by cases he) trivial
    cases a with
    | ok =>
      cases hs
      refine hnote.finish halive fun j hj => ?_
      cases hst.1.symm.trans hj
      exact List.mem_cons_self
    | again =>
      cases hs
      exact hnote
    | failed =>
      cases hs
      exact hnote.giveUp hst.2
  | channelClose =>
    obtain ⟨c, hc, rfl⟩ := Option.map_eq_some_iff.mp hs
    have hnote := h.noteClose hc
    cases a with
    | ok =>
      have hreset := hnote.resetChannel halive
      refine hreset.disconnectSession (resetChannel_alive.trans halive) (fun k he => ?_) ?_
      · rw [resetChannel_task] at he
        cases ht.symm.trans he
      · rw [resetChannel_object]
    | again => exact hnote
    | failed => exact hnote.ends ht nofun
  | sessionDisconnect =>
    cases a with
    | ok =>
      cases hs
      exact h.giveUp hst
    | again =>
      cases hs
      exact h
    | failed =>
      cases hs
      exact h.ends ht nofun
  | userauth =>
    cases a with
    | ok =>
      cases hs
      refine h.setTask halive (fun u he => ?_) (fun u p v j _ he _ huj => ?_) fun j hj => ?_
      · cases he
        trivial
      · cases he
        cases huj
      · exact Or.inl (h.attempted (fun k he => by cases ht.symm.trans he) j hj)
    | again =>
      cases hs
      exact h
    | failed =>
      cases hs
      exact h.ends ht nofun
  | channelOpen =>
    cases a with
    | ok =>
      obtain ⟨k, hk, rfl⟩ := Option.map_eq_some_iff.mp hs
      exact (h.openChannel halive hk ht).ends (resetChannel_task.trans ht) nofun
    | again =>
      cases hs
      exact h.resetChannel halive
    | failed =>
      cases hs
      exact (h.resetChannel halive).ends (resetChannel_task.trans ht) nofun

/-- The condition on a step: a session object is assigned only to itself, or where it holds no
    libssh2 session. -/
def Unassigned (w : World O) : Label O → Prop
  | .moveAssign o other => o = other ∨ (w.object o).session = none
  | _ => True

instance (w : World O) : (l : Label O) → Decidable (Unassigned w l)
  | .moveAssign o other => inferInstanceAs (Decidable (o = other ∨ (w.object o).session = none))
  | .construct _ | .moveConstruct .. | .destroy _ | .connect _ | .authenticate _ | .disconnect _
  | .close _ | .answer .. => inferInstanceAs (Decidable True)

/-- An operation begins. -/
theorem Inv.begin {t : Task} (h : Inv none w) (hr : w.Rests o) (hst : w.Stands o t)
    (hown : t.own = none) : Inv none (w.setTask o (some t)) := by
  refine h.setTask hr.alive (fun u he => ?_) (fun u p v j _ he _ huj => ?_) fun j hj => ?_
  · cases he
    exact hst
  · cases he
    cases hown.symm.trans huj
  · exact Or.inl (h.attempted (fun k => by rw [hr.task]; nofun) j hj)

theorem Inv.step {l : Label O} (h : Inv none w) (hq : Unassigned w l) (hs : w.step l = some w') :
    Inv none w' := by
  cases l with
  | construct o =>
    obtain ⟨hdead, hs⟩ := Option.ite_none_left_eq_some.mp hs
    cases hs
    have hobj := h.dead o (Bool.eq_false_iff.mpr hdead)
    exact h.blank ⟨rfl, rfl, rfl, Or.inl rfl, fun _ => rfl⟩ (by rw [hobj])
  | moveConstruct o other =>
    obtain ⟨⟨hdead, hidle⟩, rfl⟩ := Option.ite_some_none_eq_some.mp hs
    have hobj := h.dead o hdead
    exact h.moved (h.bare (by rw [hobj])) (rests_of_idle hidle)
  | moveAssign o other =>
    obtain ⟨⟨hidle, hidle'⟩, rfl⟩ := Option.ite_some_none_eq_some.mp hs
    have hr := rests_of_idle hidle
    by_cases hself : o = other
    · subst hself
      rw [moveAssign, moveMembers_self, name_self h]
      exact h
    · have hbare := h.bare (hq.resolve_left hself)
      have hr' := rests_of_idle hidle'
      rw [moveAssign, moveMembers_eq hbare hr hr' hself, moveFrom_session]
      exact h.moved hbare hr'
  | destroy o =>
    obtain ⟨hidle, rfl⟩ := Option.ite_some_none_eq_some.mp hs
    exact h.close (rests_of_idle hidle).alive ⟨rfl, rfl, rfl, Or.inl rfl, fun _ => rfl⟩
  | connect o =>
    obtain ⟨hidle, rfl⟩ := Option.ite_some_none_eq_some.mp hs
    exact h.begin (rests_of_idle hidle) trivial rfl
  | authenticate o =>
    obtain ⟨hidle, rfl⟩ := Option.ite_some_none_eq_some.mp hs
    exact h.begin (rests_of_idle hidle) trivial rfl
  | disconnect o =>
    obtain ⟨hidle, rfl⟩ := Option.ite_some_none_eq_some.mp hs
    have hr := rests_of_idle hidle
    cases hc : (w.object o).channel with
    | some c => exact h.begin hr trivial rfl
    | none => exact h.disconnectSession hr.alive (fun k => by rw [hr.task]; nofun) hc
  | close o =>
    obtain ⟨hidle, rfl⟩ := Option.ite_some_none_eq_some.mp hs
    have hr := rests_of_idle hidle
    have hblank : Blank ((w.close o).object o) := by
      rw [close_object]
      exact ⟨rfl, rfl, rfl, Or.inl hr.task, fun _ => hr.task⟩
    have hclose := h.close hr.alive hblank
    rwa [setObject_self] at hclose
  | answer o a =>
    obtain ⟨t, ht, hs⟩ := Option.bind_eq_some_iff.mp hs
    exact h.answer ht hs

theorem Inv.of_reachesBy (hr : machine.ReachesBy Unassigned (init : World O) w) : Inv none w :=
  hr.preserves Inv.step inv_init

/-- **Innermost first**, in every run that assigns to no session object that holds a libssh2
    session. -/
theorem torn_down_in_order (hr : machine.ReachesBy Unassigned (init : World O) w) :
    Orderly w.log :=
  (Inv.of_reachesBy hr).orderly

/-- The hypothesis is met by a run with a failed attempt, a channel, a move, an assignment
    back and a `disconnect` that is answered `EAGAIN` once. -/
theorem torn_down_in_order_moved :
    let schedule : List (Label Bool) :=
      [.construct false, .connect false, .answer false .ok, .answer false .ok, .answer false .ok,
        .answer false .failed, .connect false, .answer false .ok, .answer false .ok,
        .answer false .ok, .answer false .ok, .answer false .ok, .answer false .again,
        .answer false .ok, .authenticate false, .answer false .ok, .answer false .ok,
        .moveConstruct true false, .moveAssign false true, .disconnect false,
        .answer false .again, .answer false .ok, .answer false .ok, .destroy true]
    ∃ w, machine.execBy Unassigned init schedule = some w ∧ w.log =
      [.socketClose 1, .sessionFree 1 (some 1), .channelClose ⟨1, 0⟩, .channelClose ⟨1, 0⟩,
        .channelClose ⟨1, 0⟩, .channelOpen ⟨1, 0⟩, .handshake 1, .handshake 1, .socketClose 0,
        .sessionFree 0 none] ∧ Orderly w.log := by
  intro schedule
  have hrun : machine.execBy Unassigned init schedule = some _ := rfl
  exact ⟨_, hrun, rfl, torn_down_in_order (Machine.reachesBy_of_execBy schedule hrun)⟩

/-- Two connected sessions, one assigned to the other: the socket of the one that is assigned
    to is closed, and then its libssh2 session is freed while the object holds the other
    socket. -/
theorem assigned_over :
    ∃ w : World Bool, machine.Reaches init w ∧ ¬ Orderly w.log := by
  refine ⟨_, Machine.reaches_of_exec
    [.construct false, .connect false, .answer false .ok, .answer false .ok, .answer false .ok,
      .answer false .ok, .answer false .ok, .answer false .ok, .construct true, .connect true,
      .answer true .ok, .answer true .ok, .answer true .ok, .answer true .ok, .answer true .ok,
      .answer true .ok, .moveAssign false true] rfl, fun h => ?_⟩
  have hfree : InOrder [.socketClose 0, .handshake 1, .handshake 0] (.sessionFree 0 (some 1)) :=
    h.1
  cases (hfree (by decide)).1

/-! ## 8. What breaks the condition breaks the order -/

theorem orderly_of_assignChannel {v : Option Channel} (h : Orderly (w.assignChannel o v).log) :
    Orderly w.log := by
  unfold assignChannel at h
  split at h
  · exact h.2
  · exact h

theorem orderly_of_assignSession {v : Option ℕ} (h : Orderly (w.assignSession o v).log) :
    Orderly w.log := by
  unfold assignSession at h
  split at h
  · exact h.2
  · exact h

/-- The socket is the first member that is assigned. -/
theorem orderly_of_moveAssign {other : O} (h : Orderly (w.moveAssign o other).log) :
    Orderly (w.moveSocket o other).log := by
  have hchannel : Orderly ((w.moveSocket o other).moveSession o other).log :=
    orderly_of_assignChannel
      (w := ((w.moveSocket o other).moveSession o other).setChannel other none) h
  exact orderly_of_assignSession (w := (w.moveSocket o other).setSession other none) hchannel

/-- **The condition is the exact one**: the first assignment of a run to another object that
    holds a libssh2 session closes its socket too early. -/
theorem disorder_of_assigned_over (hr : machine.ReachesBy Unassigned (init : World O) w)
    {l : Label O} (hs : machine.step w l = some w') (hq : ¬ Unassigned w l) : ¬ Orderly w'.log := by
  have h := Inv.of_reachesBy hr
  cases l with
  | moveAssign o other =>
    obtain ⟨hne, hsome⟩ := not_or.mp hq
    obtain ⟨k, hk⟩ := Option.ne_none_iff_exists'.mp hsome
    obtain ⟨⟨hidle, -⟩, rfl⟩ := Option.ite_some_none_eq_some.mp hs
    have htried := h.attempted (fun j => by rw [(rests_of_idle hidle).task]; nofun) k hk
    intro horder
    have hsocket := orderly_of_moveAssign horder
    have hheld : ((w.setSocket other none).object o).socket = some k := by
      rw [setSocket, object_of_ne hne]
      exact (h.paired o).trans hk
    unfold moveSocket assignSocket at hsocket
    rw [hheld] at hsocket
    obtain ⟨socket, hfree⟩ := hsocket.1 htried
    exact (h.held o k hk).2 _ hfree rfl
  | _ => exact absurd trivial hq

end World

end Ssh
end Net
end Ice
