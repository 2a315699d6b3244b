import Ice.Proof.Net.Ssh.Session

/-!
# Who owns a libssh2 session

A libssh2 session has one owner: the object that holds it, or the one whose `connect` has it
in a variable. Its abstract pointer is a back-reference to that object. Every operation keeps
this, however the attempts to connect end, and so does every move whose source holds a session,
also one that is assigned over another session (`owned_of_reachesBy`).

A move writes the abstract pointer of what it moved without a test. Where the source holds no
libssh2 session that is a write through null, and sources without one are easily had: an object
that was never connected, was closed, or was moved from (`null_move`).
-/

set_option autoImplicit false

namespace Ice
namespace Net
namespace Ssh

open Lib

/-! ## 1. Owners -/

/-- The libssh2 session that `connect` has in a variable. -/
def Task.held : Task → Option ℕ
  | .flag k | .connect k => some k
  | _ => none

/-- `connect` before it has given its session to the object. -/
def Task.Connects : Task → Prop
  | .create | .init _ | .flag _ | .connect _ => True
  | _ => False

def Session.Owns (s : Session) (k : ℕ) : Prop :=
  s.session = some k ∨ s.task.bind Task.held = some k

namespace World

variable {O : Type*}

def Freed (w : World O) (k : ℕ) : Prop := ∃ socket, .sessionFree k socket ∈ w.log

/-- A libssh2 session that was created and not freed. -/
def Live (w : World O) (k : ℕ) : Prop := w.abstract k ≠ none ∧ ¬ w.Freed k

/-- Every live libssh2 session has exactly one owner, and its abstract pointer names it. -/
def SoleOwners (w : World O) : Prop :=
  ∀ k, w.Live k → ∃ o, (w.object o).Owns k ∧ (∀ p, (w.object p).Owns k → p = o) ∧
    w.abstract k = some o

/-- What carries `SoleOwners` through the operations. -/
structure Owned (w : World O) : Prop where
  named : ∀ o k, (w.object o).Owns k → w.abstract k = some o
  live : ∀ o k, w.abstract k = some o → ¬ w.Freed k → (w.object o).Owns k
  fresh : ∀ o k, (w.object o).task = some (.init k) → w.abstract k = none ∧ k < w.connections
  apart : ∀ o p k, (w.object o).task = some (.init k) → (w.object p).task = some (.init k) → o = p
  unborn : ∀ k, w.connections ≤ k → w.abstract k = none
  connecting : ∀ o t, (w.object o).task = some t → t.Connects → (w.object o).session = none
  dead : ∀ o, (w.object o).alive = false →
    (w.object o).session = none ∧ (w.object o).task = none

theorem owned_init : Owned (init : World O) where
  named o k h := by rcases h with h | h <;> cases h
  live _ _ h := by cases h
  fresh _ _ h := by cases h
  apart _ _ _ h := by cases h
  unborn _ _ := rfl
  connecting _ _ h := by cases h
  dead _ _ := ⟨rfl, rfl⟩

variable {w v w' : World O} {o p other : O} {k : ℕ}

theorem Owned.soleOwners (h : Owned w) : w.SoleOwners := by
  intro k hlive
  obtain ⟨o, ho⟩ := Option.ne_none_iff_exists'.mp hlive.1
  refine ⟨o, h.live o k ho hlive.2, ?_, ho⟩
  intro p hp
  exact Option.some.inj ((h.named p k hp).symm.trans ho)

/-! ## 2. What the operations leave alone -/

/-- `w'` has the libssh2 sessions of `w` where they were in `w`, except for the object `o`. -/
structure Only (o : O) (w w' : World O) : Prop where
  session : ∀ p, p ≠ o → (w'.object p).session = (w.object p).session
  task : ∀ p, p ≠ o → (w'.object p).task = (w.object p).task
  alive : ∀ p, p ≠ o → (w'.object p).alive = (w.object p).alive
  abstract : w'.abstract = w.abstract
  connections : w'.connections = w.connections
  log : ∀ e ∈ w.log, e ∈ w'.log

/-- `w'` differs from `w` in sockets, channels and what was noted. -/
structure Same (w w' : World O) : Prop where
  session : ∀ p, (w'.object p).session = (w.object p).session
  task : ∀ p, (w'.object p).task = (w.object p).task
  alive : ∀ p, (w'.object p).alive = (w.object p).alive
  abstract : w'.abstract = w.abstract
  connections : w'.connections = w.connections
  log : ∀ e ∈ w.log, e ∈ w'.log

theorem Same.refl (w : World O) : Same w w :=
  ⟨fun _ => rfl, fun _ => rfl, fun _ => rfl, rfl, rfl, fun _ he => he⟩

theorem Same.trans (h : Same w v) (h' : Same v w') : Same w w' where
  session p := (h'.session p).trans (h.session p)
  task p := (h'.task p).trans (h.task p)
  alive p := (h'.alive p).trans (h.alive p)
  abstract := h'.abstract.trans h.abstract
  connections := h'.connections.trans h.connections
  log e he := h'.log e (h.log e he)

theorem Same.only (h : Same w w') (o : O) : Only o w w' :=
  ⟨fun p _ => h.session p, fun p _ => h.task p, fun p _ => h.alive p, h.abstract, h.connections,
    h.log⟩

theorem Only.trans (h : Only o w v) (h' : Only o v w') : Only o w w' where
  session p hp := (h'.session p hp).trans (h.session p hp)
  task p hp := (h'.task p hp).trans (h.task p hp)
  alive p hp := (h'.alive p hp).trans (h.alive p hp)
  abstract := h'.abstract.trans h.abstract
  connections := h'.connections.trans h.connections
  log e he := h'.log e (h.log e he)

theorem Freed.mono (h : w.Freed k) (hlog : ∀ e ∈ w.log, e ∈ w'.log) : w'.Freed k :=
  let ⟨socket, he⟩ := h
  ⟨socket, hlog _ he⟩

theorem owns_congr {s s' : Session} (hsession : s'.session = s.session) (htask : s'.task = s.task) :
    s'.Owns k ↔ s.Owns k := by
  unfold Session.Owns
  rw [hsession, htask]

/-- An object changes: what it owned it still owns, or it was freed. -/
theorem Owned.replace (h : Owned w) (hw : Only o w w')
    (howns : ∀ k, (w'.object o).Owns k → (w.object o).Owns k)
    (hdrop : ∀ k, (w.object o).Owns k → (w'.object o).Owns k ∨ w'.Freed k)
    (hinit : ∀ k, (w'.object o).task = some (.init k) → (w.object o).task = some (.init k))
    (hconnecting : ∀ t, (w'.object o).task = some t → t.Connects → (w'.object o).session = none)
    (hdead : (w'.object o).alive = false →
      (w'.object o).session = none ∧ (w'.object o).task = none) : Owned w' := by
  have hsame : ∀ p k, p ≠ o → ((w'.object p).Owns k ↔ (w.object p).Owns k) := fun p k hp =>
    owns_congr (hw.session p hp) (hw.task p hp)
  have htask : ∀ p k, (w'.object p).task = some (.init k) → (w.object p).task = some (.init k) := by
    intro p k ht
    by_cases hp : p = o
    · subst hp
      exact hinit k ht
    · exact (hw.task p hp).symm.trans ht
  refine ⟨?_, ?_, ?_, ?_, ?_, ?_, ?_⟩
  · intro p k hk
    rw [hw.abstract]
    by_cases hp : p = o
    · subst hp
      exact h.named p k (howns k hk)
    · exact h.named p k ((hsame p k hp).mp hk)
  · intro p k hk hfreed
    rw [hw.abstract] at hk
    have hold := h.live p k hk fun hf => hfreed (hf.mono hw.log)
    by_cases hp : p = o
    · subst hp
      exact (hdrop k hold).resolve_right hfreed
    · exact (hsame p k hp).mpr hold
  · intro p k ht
    rw [hw.abstract, hw.connections]
    exact h.fresh p k (htask p k ht)
  · intro p q k hp hq
    exact h.apart p q k (htask p k hp) (htask q k hq)
  · intro k hk
    rw [hw.connections] at hk
    rw [hw.abstract]
    exact h.unborn k hk
  · intro p t ht hc
    by_cases hp : p = o
    · subst hp
      exact hconnecting t ht hc
    · rw [hw.task p hp] at ht
      rw [hw.session p hp]
      exact h.connecting p t ht hc
  · intro p ha
    by_cases hp : p = o
    · subst hp
      exact hdead ha
    · rw [hw.alive p hp] at ha
      rw [hw.session p hp, hw.task p hp]
      exact h.dead p ha

theorem Owned.same (h : Owned w) (hw : Same w w') (o : O) : Owned w' := by
  have howns : ∀ k, (w'.object o).Owns k ↔ (w.object o).Owns k := fun k =>
    owns_congr (hw.session o) (hw.task o)
  refine h.replace (hw.only o) (fun k => (howns k).mp) (fun k hk => Or.inl ((howns k).mpr hk))
    ?_ ?_ ?_
  · intro k ht
    exact (hw.task o).symm.trans ht
  · rw [hw.task, hw.session]
    exact h.connecting o
  · rw [hw.alive, hw.session, hw.task]
    exact h.dead o

theorem same_note {e : Event} : Same w (w.note e) :=
  ⟨fun _ => rfl, fun _ => rfl, fun _ => rfl, rfl, rfl, fun _ he => List.mem_cons_of_mem _ he⟩

theorem same_openChannel : Same w (w.openChannel k) :=
  ⟨fun _ => rfl, fun _ => rfl, fun _ => rfl, rfl, rfl, fun _ he => List.mem_cons_of_mem _ he⟩

variable [DecidableEq O]

/-- Another socket or channel in an object. -/
theorem same_setObject {s : Session} (hsession : s.session = (w.object o).session)
    (htask : s.task = (w.object o).task) (halive : s.alive = (w.object o).alive) :
    Same w (w.setObject o s) := by
  have hobj : ∀ {α : Type} (f : Session → α) (p : O), f s = f (w.object o) →
      f ((w.setObject o s).object p) = f (w.object p) := by
    intro α f p hf
    by_cases hp : p = o
    · rw [hp, object_self, hf]
    · rw [object_of_ne hp]
  exact ⟨fun p => hobj Session.session p hsession, fun p => hobj Session.task p htask,
    fun p => hobj Session.alive p halive, rfl, rfl, fun _ he => he⟩

theorem same_setSocket {x : Option ℕ} : Same w (w.setSocket o x) := same_setObject rfl rfl rfl

theorem same_setChannel {x : Option Channel} : Same w (w.setChannel o x) :=
  same_setObject rfl rfl rfl

theorem same_closeSocket : Same w (w.closeSocket o) := by
  unfold closeSocket
  split
  · exact same_note.trans same_setSocket
  · exact Same.refl w

theorem same_resetChannel {x : Option Channel} : Same w (w.resetChannel o x) := by
  unfold resetChannel
  split
  · exact same_note.trans same_setChannel
  · exact same_setChannel

theorem same_assignSocket {x : Option ℕ} : Same w (w.assignSocket o x) := by
  unfold assignSocket
  split
  · exact same_setSocket.trans same_note
  · exact same_setSocket

theorem same_assignChannel {x : Option Channel} : Same w (w.assignChannel o x) := by
  unfold assignChannel
  split
  · exact same_setChannel.trans same_note
  · exact same_setChannel

theorem same_moveSocket : Same w (w.moveSocket o other) := same_setSocket.trans same_assignSocket

theorem same_moveChannel : Same w (w.moveChannel o other) :=
  same_setChannel.trans same_assignChannel

theorem only_setObject {s : Session} : Only o w (w.setObject o s) :=
  ⟨fun p hp => by rw [object_of_ne hp], fun p hp => by rw [object_of_ne hp],
    fun p hp => by rw [object_of_ne hp], rfl, rfl, fun _ he => he⟩

/-! ## 3. The steps of an operation -/

/-- An operation goes on to another call, or ends. -/
theorem Owned.setTask {t : Option Task} (h : Owned w) (halive : (w.object o).alive = true)
    (hheld : t.bind Task.held = (w.object o).task.bind Task.held) (hinit : ∀ k, t ≠ some (.init k))
    (hconnecting : ∀ u, t = some u → u.Connects → (w.object o).session = none) :
    Owned (w.setTask o t) := by
  have hobj : (w.setTask o t).object o = { w.object o with task := t } := object_self
  have howns : ∀ k, ((w.setTask o t).object o).Owns k ↔ (w.object o).Owns k := by
    intro k
    rw [hobj]
    unfold Session.Owns
    rw [hheld]
  refine h.replace only_setObject (fun k => (howns k).mp)
    (fun k hk => Or.inl ((howns k).mpr hk)) ?_ ?_ ?_
  · rw [hobj]
    exact fun k ht => absurd ht (hinit k)
  · rw [hobj]
    exact hconnecting
  · rw [hobj, halive]
    intro hfalse
    cases hfalse

/-- An operation other than `connect` goes on, or any operation ends that has nothing in a
    variable. -/
theorem Owned.proceed {t : Option Task} (h : Owned w) (halive : (w.object o).alive = true)
    (hold : (w.object o).task.bind Task.held = none) (ht : ∀ u, t = some u → ¬ u.Connects) :
    Owned (w.setTask o t) := by
  refine h.setTask halive ?_ ?_ fun u hu hc => absurd hc (ht u hu)
  · rw [hold]
    cases t with
    | none => rfl
    | some u =>
      cases u <;> first | rfl | exact absurd trivial (ht _ rfl)
  · intro k hk
    exact ht _ hk trivial

/-- `session_.reset()` -/
theorem Owned.resetSession (h : Owned w) : Owned (w.resetSession o) := by
  have hobj : (w.resetSession o).object o = { w.object o with session := none } :=
    resetSession_object
  have hlog : ∀ e ∈ w.log, e ∈ (w.resetSession o).log := by
    intro e he
    unfold World.resetSession
    split
    · exact List.mem_cons_of_mem _ he
    · exact he
  have hfree : ∀ k, (w.object o).session = some k → (w.resetSession o).Freed k := by
    intro k hk
    refine ⟨w.holds k, ?_⟩
    unfold World.resetSession
    rw [hk]
    exact List.mem_cons_self
  have hother : ∀ p, p ≠ o → (w.resetSession o).object p = w.object p := by
    intro p hp
    unfold World.resetSession
    split
    · exact object_of_ne hp
    · rfl
  have hparts : (w.resetSession o).abstract = w.abstract ∧
      (w.resetSession o).connections = w.connections := by
    unfold World.resetSession
    split <;> exact ⟨rfl, rfl⟩
  have honly : Only o w (w.resetSession o) :=
    ⟨fun p hp => by rw [hother p hp], fun p hp => by rw [hother p hp],
      fun p hp => by rw [hother p hp], hparts.1, hparts.2, hlog⟩
  refine h.replace honly ?_ ?_ ?_ ?_ ?_
  · rw [hobj]
    rintro k (hk | hk)
    · cases hk
    · exact Or.inr hk
  · rintro k (hk | hk)
    · exact Or.inr (hfree k hk)
    · rw [hobj]
      exact Or.inl (Or.inr hk)
  · rw [hobj]
    exact fun k ht => ht
  · rw [hobj]
    exact fun _ _ _ => rfl
  · rw [hobj]
    exact fun ha => ⟨rfl, (h.dead o ha).2⟩

theorem Owned.close (h : Owned w) : Owned (w.close o) :=
  ((h.same same_resetChannel o).resetSession).same same_closeSocket o

theorem Owned.closeSocket (h : Owned w) : Owned (w.closeSocket o) := h.same same_closeSocket o

/-- An object with nothing in it, alive or not. -/
theorem Owned.blank {alive : Bool} (h : Owned w) (hsession : (w.object o).session = none)
    (htask : (w.object o).task = none) :
    Owned (w.setObject o ⟨none, none, none, none, alive⟩) := by
  have hobj : (w.setObject o ⟨none, none, none, none, alive⟩).object o =
    ⟨none, none, none, none, alive⟩ := object_self
  refine h.replace only_setObject ?_ ?_ ?_ ?_ ?_
  · rw [hobj]
    rintro k (hk | hk) <;> cases hk
  · rintro k (hk | hk)
    · cases hsession.symm.trans hk
    · rw [htask] at hk
      cases hk
  · rw [hobj]
    intro k ht
    cases ht
  · rw [hobj]
    exact fun _ _ _ => rfl
  · rw [hobj]
    exact fun _ => ⟨rfl, rfl⟩

/-! ## 4. `connect` -/

omit [DecidableEq O] in
/-- `connect` goes on to another call. -/
theorem Owned.retask {t t' : Task} (h : Owned w) (ht : (w.object o).task = some t)
    (hconnects : t.Connects) (hobj : w'.object o = { w.object o with task := some t' })
    (hother : ∀ p, p ≠ o → w'.object p = w.object p) :
    (∀ p u, (w'.object p).task = some u → u.Connects → (w'.object p).session = none) ∧
      ∀ p, (w'.object p).alive = false →
        (w'.object p).session = none ∧ (w'.object p).task = none := by
  constructor
  · intro p u hp hc
    by_cases hpo : p = o
    · rw [hpo, hobj]
      exact h.connecting o t ht hconnects
    · rw [hother p hpo] at hp ⊢
      exact h.connecting p u hp hc
  · intro p ha
    by_cases hpo : p = o
    · rw [hpo, hobj] at ha
      rw [(h.dead o ha).2] at ht
      cases ht
    · rw [hother p hpo] at ha ⊢
      exact h.dead p ha

/-- `socket.create(endpoint.family())` -/
theorem Owned.socketCreate (h : Owned w) (ht : (w.object o).task = some .create) :
    Owned (w.socketCreate.setTask o (some (.init w.connections))) := by
  have hobj : (w.socketCreate.setTask o (some (.init w.connections))).object o =
    { w.object o with task := some (.init w.connections) } := object_self
  have hother : ∀ p, p ≠ o →
      (w.socketCreate.setTask o (some (.init w.connections))).object p = w.object p :=
    fun p hp => object_of_ne (w := w.socketCreate) hp
  have howns : ∀ p k, ((w.socketCreate.setTask o (some (.init w.connections))).object p).Owns k ↔
      (w.object p).Owns k := by
    intro p k
    by_cases hp : p = o
    · rw [hp, hobj]
      unfold Session.Owns
      rw [ht]
      rfl
    · rw [hother p hp]
  have hnumber : ∀ p k, (w.object p).task = some (.init k) → k ≠ w.connections :=
    fun p k hp => Nat.ne_of_lt (h.fresh p k hp).2
  obtain ⟨hconnecting, hdead⟩ := h.retask ht trivial hobj hother
  refine ⟨?_, ?_, ?_, ?_, ?_, hconnecting, hdead⟩
  · intro p k hk
    exact h.named p k ((howns p k).mp hk)
  · intro p k hk hfreed
    exact (howns p k).mpr (h.live p k hk hfreed)
  · intro p k hp
    by_cases hpo : p = o
    · rw [hpo, hobj] at hp
      cases hp
      exact ⟨h.unborn _ (Nat.le_refl _), Nat.lt_succ_self _⟩
    · rw [hother p hpo] at hp
      exact (h.fresh p k hp).imp_right Nat.lt_succ_of_lt
  · intro p q k hp hq
    by_cases hpo : p = o <;> by_cases hqo : q = o
    · exact hpo.trans hqo.symm
    · rw [hpo, hobj] at hp
      rw [hother q hqo] at hq
      cases hp
      exact absurd rfl (hnumber q _ hq)
    · rw [hqo, hobj] at hq
      rw [hother p hpo] at hp
      cases hq
      exact absurd rfl (hnumber p _ hp)
    · rw [hother p hpo] at hp
      rw [hother q hqo] at hq
      exact h.apart p q k hp hq
  · intro k hk
    exact h.unborn k (Nat.le_of_succ_le hk)

/-- `libssh2_session_init_ex(nullptr, nullptr, nullptr, this)` -/
theorem Owned.sessionInit (h : Owned w) (ht : (w.object o).task = some (.init k)) :
    Owned ((w.name (some k) o).setTask o (some (.flag k))) := by
  have hnone := h.connecting o (.init k) ht trivial
  obtain ⟨hunnamed, hlt⟩ := h.fresh o k ht
  have hobj : ((w.name (some k) o).setTask o (some (.flag k))).object o =
    { w.object o with task := some (.flag k) } := object_self
  have hother : ∀ p, p ≠ o →
      ((w.name (some k) o).setTask o (some (.flag k))).object p = w.object p :=
    fun p hp => object_of_ne (w := w.name (some k) o) hp
  have habstract : ∀ j, j ≠ k →
      ((w.name (some k) o).setTask o (some (.flag k))).abstract j = w.abstract j :=
    fun j hj => Function.update_of_ne hj ..
  have hself : ((w.name (some k) o).setTask o (some (.flag k))).abstract k = some o :=
    Function.update_self ..
  obtain ⟨hconnecting, hdead⟩ := h.retask ht trivial hobj hother
  refine ⟨?_, ?_, ?_, ?_, ?_, hconnecting, hdead⟩
  · intro p j hj
    by_cases hpo : p = o
    · rw [hpo, hobj] at hj
      rcases hj with hj | hj
      · cases hnone.symm.trans hj
      · cases hj
        rw [hself, hpo]
    · rw [hother p hpo] at hj
      have hold := h.named p j hj
      have hjk : j ≠ k := by
        rintro rfl
        cases hunnamed.symm.trans hold
      rw [habstract j hjk]
      exact hold
  · intro p j hj hfreed
    by_cases hjk : j = k
    · subst hjk
      rw [hself, Option.some.injEq] at hj
      rw [← hj, hobj]
      exact Or.inr rfl
    · rw [habstract j hjk] at hj
      have hold := h.live p j hj hfreed
      by_cases hpo : p = o
      · rw [hpo] at hold
        rcases hold with hold | hold
        · cases hnone.symm.trans hold
        · rw [ht] at hold
          cases hold
      · rw [hother p hpo]
        exact hold
  · intro p j hp
    by_cases hpo : p = o
    · rw [hpo, hobj] at hp
      cases hp
    · rw [hother p hpo] at hp
      have hjk : j ≠ k := by
        rintro rfl
        exact hpo (h.apart p o j hp ht)
      rw [habstract j hjk]
      exact h.fresh p j hp
  · intro p q j hp hq
    have hinit : ∀ r, ((((w.name (some k) o).setTask o (some (.flag k))).object r).task =
        some (.init j)) → (w.object r).task = some (.init j) := by
      intro r hr
      by_cases hro : r = o
      · rw [hro, hobj] at hr
        cases hr
      · rwa [hother r hro] at hr
    exact h.apart p q j (hinit p hp) (hinit q hq)
  · intro j hj
    have hjk : j ≠ k := by
      rintro rfl
      exact absurd hlt (Nat.not_lt.mpr hj)
    rw [habstract j hjk]
    exact h.unborn j hj

/-- An early return of `connect` frees what it had in the variable. -/
theorem Owned.abandon {t : Task} (h : Owned w) (ht : (w.object o).task = some t)
    (hheld : t.held = some k) : Owned (w.abandon o k) := by
  have hobj : (w.abandon o k).object o = { w.object o with task := none } := object_self
  have hnote : Same w ((w.free k).note (.socketClose k)) := Same.trans same_note same_note
  refine h.replace ((hnote.only o).trans only_setObject) ?_ ?_ ?_ ?_ ?_
  · rw [hobj]
    rintro j (hj | hj)
    · exact Or.inl hj
    · cases hj
  · rintro j (hj | hj)
    · rw [hobj]
      exact Or.inl (Or.inl hj)
    · rw [ht] at hj
      cases hheld.symm.trans hj
      exact Or.inr ⟨w.holds k, List.mem_cons_of_mem _ List.mem_cons_self⟩
  · rw [hobj]
    intro j hj
    cases hj
  · rw [hobj]
    intro u hu
    cases hu
  · rw [hobj]
    exact fun ha => ⟨(h.dead o ha).1, rfl⟩

/-- `connect` gives its session to the object. -/
theorem Owned.attach (h : Owned w) (ht : (w.object o).task = some (.connect k)) :
    Owned ((w.attach o k).setTask o (some (.handshake k))) := by
  have hnone := h.connecting o (.connect k) ht trivial
  have hattach : w.attach o k = (w.setSession o (some k)).assignSocket o (some k) := by
    unfold World.attach assignSession
    rw [hnone]
  have hsocket : Same (w.setSession o (some k)) (w.attach o k) := hattach ▸ same_assignSocket
  have hsession : (((w.attach o k).setTask o (some (.handshake k))).object o).session = some k := by
    rw [World.setTask, object_self]
    exact (hsocket.session o).trans (congrArg Session.session object_self)
  have htask : (((w.attach o k).setTask o (some (.handshake k))).object o).task =
      some (.handshake k) := by
    rw [World.setTask, object_self]
  refine h.replace ((only_setObject.trans (hsocket.only o)).trans only_setObject) ?_ ?_ ?_ ?_ ?_
  · rintro j (hj | hj)
    · cases hsession.symm.trans hj
      exact Or.inr (by rw [ht]; rfl)
    · rw [htask] at hj
      cases hj
  · rintro j (hj | hj)
    · cases hnone.symm.trans hj
    · rw [ht] at hj
      cases hj
      exact Or.inl (Or.inl hsession)
  · rw [htask]
    intro j hj
    cases hj
  · rw [htask]
    rintro u hu hc
    cases hu
    exact hc.elim
  · intro ha
    have halive : (w.object o).alive = false := by
      rw [World.setTask, object_self] at ha
      rw [← ha]
      exact ((hsocket.alive o).trans (congrArg Session.alive object_self)).symm
    rw [(h.dead o halive).2] at ht
    cases ht

/-! ## 5. Moves -/

/-- The libssh2 session of `other` went to `o`, and the one that `o` had was freed. -/
structure Moved (o other : O) (w w' : World O) : Prop where
  target : (w'.object o).session = (w.object other).session
  source : (w'.object other).session = none
  session : ∀ p, p ≠ o → p ≠ other → (w'.object p).session = (w.object p).session
  freed : ∀ k, (w.object o).session = some k → w'.Freed k
  task : ∀ p, (w'.object p).task = (w.object p).task
  alive : ∀ p, (w'.object p).alive = false → p ≠ o ∧ (w.object p).alive = false
  abstract : w'.abstract = w.abstract
  connections : w'.connections = w.connections
  log : ∀ e ∈ w.log, e ∈ w'.log

theorem moved_moveSession (hne : o ≠ other) (halive : (w.object o).alive = true) :
    Moved o other w (w.moveSession o other) := by
  have hheld : ((w.setSession other none).object o).session = (w.object o).session := by
    rw [setSession, object_of_ne hne]
  have hobject : ∀ p, (w.moveSession o other).object p =
      ((w.setSession other none).setSession o (w.object other).session).object p := by
    intro p
    unfold moveSession assignSession
    split <;> rfl
  have ho : (w.moveSession o other).object o =
      { w.object o with session := (w.object other).session } := by
    rw [hobject, setSession, object_self, setSession, object_of_ne hne]
  have hother : (w.moveSession o other).object other = { w.object other with session := none } := by
    rw [hobject, setSession, object_of_ne hne.symm, setSession, object_self]
  have hrest : ∀ p, p ≠ o → p ≠ other → (w.moveSession o other).object p = w.object p := by
    intro p hpo hpt
    rw [hobject, setSession, object_of_ne hpo, setSession, object_of_ne hpt]
  refine ⟨by rw [ho], by rw [hother], fun p hpo hpt => by rw [hrest p hpo hpt], ?_, ?_, ?_, ?_, ?_,
    ?_⟩
  · intro k hk
    rw [hk] at hheld
    unfold moveSession assignSession
    rw [hheld]
    exact ⟨_, List.mem_cons_self⟩
  · intro p
    by_cases hpo : p = o
    · rw [hpo, ho]
    · by_cases hpt : p = other
      · rw [hpt, hother]
      · rw [hrest p hpo hpt]
  · intro p ha
    by_cases hpo : p = o
    · rw [hpo, ho] at ha
      cases halive.symm.trans ha
    · by_cases hpt : p = other
      · rw [hpt, hother] at ha
        exact ⟨hpo, hpt ▸ ha⟩
      · rw [hrest p hpo hpt] at ha
        exact ⟨hpo, ha⟩
  · unfold moveSession assignSession
    split <;> rfl
  · unfold moveSession assignSession
    split <;> rfl
  · intro e he
    unfold moveSession assignSession
    split
    · exact List.mem_cons_of_mem _ he
    · exact he

omit [DecidableEq O] in
theorem Moved.after (h : Moved o other v w') (hsame : Same w v) : Moved o other w w' where
  target := h.target.trans (hsame.session other)
  source := h.source
  session p hpo hpt := (h.session p hpo hpt).trans (hsame.session p)
  freed k hk := h.freed k ((hsame.session o).trans hk)
  task p := (h.task p).trans (hsame.task p)
  alive p ha := (h.alive p ha).imp_right (hsame.alive p).symm.trans
  abstract := h.abstract.trans hsame.abstract
  connections := h.connections.trans hsame.connections
  log e he := h.log e (hsame.log e he)

omit [DecidableEq O] in
theorem Moved.before (h : Moved o other w v) (hsame : Same v w') : Moved o other w w' where
  target := (hsame.session o).trans h.target
  source := (hsame.session other).trans h.source
  session p hpo hpt := (hsame.session p).trans (h.session p hpo hpt)
  freed k hk := (h.freed k hk).mono hsame.log
  task p := (hsame.task p).trans (h.task p)
  alive p ha := h.alive p ((hsame.alive p).symm.trans ha)
  abstract := hsame.abstract.trans h.abstract
  connections := hsame.connections.trans h.connections
  log e he := hsame.log e (h.log e he)

theorem moved_moveMembers (hne : o ≠ other) (halive : (w.object o).alive = true) :
    Moved o other w (w.moveMembers o other) := by
  have halive' : ((w.moveSocket o other).object o).alive = true :=
    (same_moveSocket.alive o).trans halive
  exact ((moved_moveSession hne halive').after same_moveSocket).before same_moveChannel

theorem moved_moveFrom (hne : o ≠ other) (hsession : (w.object o).session = none)
    (htask : (w.object o).task = none) : Moved o other w (w.moveFrom o other) := by
  have hobject := @moveFrom_object O w o _ other
  refine ⟨moveFrom_session, ?_, ?_, ?_, ?_, ?_, rfl, rfl, fun _ he => he⟩
  · rw [moveFrom, object_of_ne hne.symm, object_self]
  · intro p hpo hpt
    rw [moveFrom, object_of_ne hpo, object_of_ne hpt]
  · intro k hk
    cases hsession.symm.trans hk
  · intro p
    rcases hobject p with ⟨hpo, hobj⟩ | ⟨-, hpt, hobj⟩ | ⟨-, -, hobj⟩
    · rw [hobj, hpo, htask]
    · rw [hobj, hpt]
    · rw [hobj]
  · intro p ha
    rcases hobject p with ⟨-, hobj⟩ | ⟨-, -, hobj⟩ | ⟨hpo, -, hobj⟩ <;> rw [hobj] at ha
    · cases ha
    · cases ha
    · exact ⟨hpo, ha⟩

/-- **A move**: the abstract pointer follows the session. -/
theorem Owned.moved (h : Owned w) (hw : Moved o other w w') (hne : o ≠ other)
    (htask : (w.object o).task = none) (htask' : (w.object other).task = none) :
    Owned (w'.name (w.object other).session o) := by
  have howns : ∀ p k, (w.object p).task = none →
      ((w'.object p).Owns k ↔ (w'.object p).session = some k) := by
    intro p k hp
    unfold Session.Owns
    rw [hw.task p, hp]
    exact or_iff_left fun hk => by cases hk
  have hrest : ∀ p k, p ≠ o → p ≠ other → ((w'.object p).Owns k ↔ (w.object p).Owns k) :=
    fun p k hpo hpt => owns_congr (hw.session p hpo hpt) (hw.task p)
  have habstract : ∀ k, (w.object other).session ≠ some k →
      (w'.name (w.object other).session o).abstract k = w.abstract k := by
    intro k hk
    rw [← hw.abstract]
    cases hs : (w.object other).session with
    | none => rfl
    | some j =>
      have hkj : k ≠ j := fun he => hk (he ▸ hs)
      exact Function.update_of_ne hkj ..
  have hself : ∀ k, (w.object other).session = some k →
      (w'.name (w.object other).session o).abstract k = some o := by
    intro k hk
    rw [hk]
    exact Function.update_self ..
  have hheld : ∀ k, (w.object other).session = some k → w.abstract k = some other :=
    fun k hk => h.named other k (Or.inl hk)
  refine ⟨?_, ?_, ?_, ?_, ?_, ?_, ?_⟩
  · intro p k hk
    change (w'.object p).Owns k at hk
    by_cases hpo : p = o
    · rw [hpo, howns o k htask, hw.target] at hk
      rw [hself k hk, hpo]
    · by_cases hpt : p = other
      · rw [hpt, howns other k htask', hw.source] at hk
        cases hk
      · have hold := h.named p k ((hrest p k hpo hpt).mp hk)
        rw [habstract k fun hs => hpt (Option.some.inj (hold.symm.trans (hheld k hs)))]
        exact hold
  · intro p k hk hfreed
    show (w'.object p).Owns k
    by_cases hs : (w.object other).session = some k
    · rw [hself k hs, Option.some.injEq] at hk
      rw [← hk, howns o k htask, hw.target]
      exact hs
    · rw [habstract k hs] at hk
      have hold := h.live p k hk fun hf => hfreed (hf.mono hw.log)
      by_cases hpo : p = o
      · subst hpo
        rcases hold with hold | hold
        · exact absurd (hw.freed k hold) hfreed
        · rw [htask] at hold
          cases hold
      · by_cases hpt : p = other
        · subst hpt
          rcases hold with hold | hold
          · exact absurd hold hs
          · rw [htask'] at hold
            cases hold
        · exact (hrest p k hpo hpt).mpr hold
  · intro p k ht
    change (w'.object p).task = some (.init k) at ht
    rw [hw.task] at ht
    obtain ⟨hnone, hlt⟩ := h.fresh p k ht
    rw [habstract k fun hs => by cases hnone.symm.trans (hheld k hs)]
    exact ⟨hnone, hw.connections.symm ▸ hlt⟩
  · intro p q k hp hq
    exact h.apart p q k ((hw.task p).symm.trans hp) ((hw.task q).symm.trans hq)
  · intro k hk
    have hnone := h.unborn k (hw.connections ▸ hk)
    rw [habstract k fun hs => by cases hnone.symm.trans (hheld k hs)]
    exact hnone
  · intro p t ht hc
    change (w'.object p).task = some t at ht
    rw [hw.task] at ht
    show (w'.object p).session = none
    by_cases hpo : p = o
    · rw [hpo, htask] at ht
      cases ht
    · by_cases hpt : p = other
      · rw [hpt, htask'] at ht
        cases ht
      · rw [hw.session p hpo hpt]
        exact h.connecting p t ht hc
  · intro p ha
    show (w'.object p).session = none ∧ (w'.object p).task = none
    obtain ⟨hpo, ha⟩ := hw.alive p ha
    obtain ⟨hsession, htask⟩ := h.dead p ha
    refine ⟨?_, (hw.task p).trans htask⟩
    by_cases hpt : p = other
    · rw [hpt]
      exact hw.source
    · rw [hw.session p hpo hpt]
      exact hsession

/-! ## 6. Runs -/

omit [DecidableEq O] in
theorem Owned.alive {t : Task} (h : Owned w) (ht : (w.object o).task = some t) :
    (w.object o).alive = true := by
  by_contra hdead
  rw [(h.dead o (Bool.not_eq_true _ ▸ hdead)).2] at ht
  cases ht

/-- What `disconnect` does once there is no channel. -/
theorem Owned.disconnectSession (h : Owned w) (halive : (w.object o).alive = true)
    (hheld : (w.object o).task.bind Task.held = none) : Owned (w.disconnectSession o) := by
  unfold World.disconnectSession
  split
  · exact h.proceed halive hheld fun u hu hc => by cases hu; exact hc
  · refine h.closeSocket.proceed ?_ ?_ nofun
    · rw [closeSocket_object]
      exact halive
    · rw [closeSocket_object]
      exact hheld

/-- The two resets and the end of the operation. -/
theorem Owned.giveUp (h : Owned w) (halive : (w.object o).alive = true)
    (hheld : (w.object o).task.bind Task.held = none) :
    Owned (((w.resetSession o).closeSocket o).setTask o none) := by
  refine h.resetSession.closeSocket.proceed ?_ ?_ nofun
  · rw [closeSocket_object, resetSession_object]
    exact halive
  · rw [closeSocket_object, resetSession_object]
    exact hheld

/-- **The answer to a call** of an operation. -/
theorem Owned.answer {t : Task} {a : Answer} (h : Owned w) (ht : (w.object o).task = some t)
    (hs : w.answer o t a = some w') : Owned w' := by
  have halive := h.alive ht
  have hheld : (w.object o).task.bind Task.held = t.held := by rw [ht]; rfl
  cases t with
  | library =>
    cases a with
    | ok =>
      cases hs
      refine h.close.setTask ?_ ?_ nofun ?_
      · rw [close_object]
        exact halive
      · rw [close_object]
        exact hheld.symm
      · rw [close_object]
        exact fun _ _ _ => rfl
    | again => cases hs
    | failed =>
      cases hs
      exact h.proceed halive hheld nofun
  | create =>
    cases a with
    | ok =>
      cases hs
      exact h.socketCreate ht
    | again => cases hs
    | failed =>
      cases hs
      exact h.proceed halive hheld nofun
  | init k =>
    cases a with
    | ok =>
      cases hs
      exact h.sessionInit ht
    | again => cases hs
    | failed =>
      cases hs
      exact (h.same same_note o).proceed halive hheld nofun
  | flag k =>
    cases a with
    | ok =>
      cases hs
      exact h.setTask halive hheld.symm nofun fun _ _ _ => h.connecting o _ ht trivial
    | again => cases hs
    | failed =>
      cases hs
      exact h.abandon ht rfl
  | connect k =>
    cases a with
    | ok =>
      cases hs
      exact h.attach ht
    | again => cases hs
    | failed =>
      cases hs
      exact h.abandon ht rfl
  | handshake k =>
    have hnote : Owned (w.note (.handshake k)) := h.same same_note o
    cases a with
    | ok =>
      cases hs
      exact hnote.proceed halive hheld nofun
    | again =>
      cases hs
      exact hnote
    | failed =>
      cases hs
      exact hnote.giveUp halive hheld
  | channelClose =>
    obtain ⟨c, -, hs⟩ := Option.map_eq_some_iff.mp hs
    have hnote : Owned (w.note (.channelClose c)) := h.same same_note o
    cases a with
    | ok =>
      cases hs
      refine (hnote.same same_resetChannel o).disconnectSession ?_ ?_
      · exact resetChannel_alive.trans halive
      · rw [resetChannel_task]
        exact hheld
    | again =>
      cases hs
      exact hnote
    | failed =>
      cases hs
      exact hnote.proceed halive hheld nofun
  | sessionDisconnect =>
    cases a with
    | ok =>
      cases hs
      exact h.giveUp halive hheld
    | again =>
      cases hs
      exact h
    | failed =>
      cases hs
      exact h.proceed halive hheld nofun
  | userauth =>
    cases a with
    | ok =>
      cases hs
      exact h.proceed halive hheld fun u hu hc => by cases hu; exact hc
    | again =>
      cases hs
      exact h
    | failed =>
      cases hs
      exact h.proceed halive hheld nofun
  | channelOpen =>
    cases a with
    | ok =>
      obtain ⟨k, -, rfl⟩ := Option.map_eq_some_iff.mp hs
      have hopen : Same w ((w.openChannel k).resetChannel o (some ⟨k, w.channels⟩)) :=
        same_openChannel.trans same_resetChannel
      exact (h.same hopen o).proceed ((hopen.alive o).trans halive)
        ((congrArg (Option.bind · Task.held) (hopen.task o)).trans hheld) nofun
    | again =>
      cases hs
      exact h.same same_resetChannel o
    | failed =>
      cases hs
      refine (h.same same_resetChannel o).proceed (resetChannel_alive.trans halive) ?_ nofun
      rw [resetChannel_task]
      exact hheld

/-- The libssh2 session whose abstract pointer a move writes. -/
def writesThrough (w : World O) : Label O → Option (Option ℕ)
  | .moveConstruct o other => some ((w.moveFrom o other).object o).session
  | .moveAssign o other => some ((w.moveMembers o other).object o).session
  | _ => none

/-- The move writes through a null libssh2 session. -/
def NullMove (w : World O) (l : Label O) : Prop := w.writesThrough l = some none

omit [DecidableEq O] in
/-- The condition on a step: what is moved from holds a libssh2 session. -/
def SourceHolds (w : World O) : Label O → Prop
  | .moveConstruct _ other | .moveAssign _ other => (w.object other).session ≠ none
  | _ => True

instance (w : World O) : (l : Label O) → Decidable (SourceHolds w l)
  | .moveConstruct _ other | .moveAssign _ other =>
    inferInstanceAs (Decidable ((w.object other).session ≠ none))
  | .construct _ | .destroy _ | .connect _ | .authenticate _ | .disconnect _ | .close _
  | .answer .. => inferInstanceAs (Decidable True)

/-- A move writes through null exactly where its source holds nothing. -/
theorem not_nullMove_iff {l : Label O} (hs : w.step l = some w') :
    ¬ w.NullMove l ↔ w.SourceHolds l := by
  have hsome : ∀ x : Option ℕ, ¬ some x = some none ↔ x ≠ none := by simp
  cases l with
  | moveConstruct o other =>
    unfold NullMove writesThrough SourceHolds
    dsimp only
    rw [moveFrom_session, hsome]
  | moveAssign o other =>
    obtain ⟨⟨hidle, -⟩, -⟩ := Option.ite_some_none_eq_some.mp hs
    unfold NullMove writesThrough SourceHolds
    dsimp only
    by_cases hself : o = other
    · rw [hself, moveMembers_self, hsome]
    · rw [(moved_moveMembers hself (rests_of_idle hidle).alive).target, hsome]
  | _ => exact iff_of_true (by simp [NullMove, writesThrough]) trivial

theorem Owned.step {l : Label O} (h : Owned w) (hs : w.step l = some w') : Owned w' := by
  cases l with
  | construct o =>
    obtain ⟨hdead, hs⟩ := Option.ite_none_left_eq_some.mp hs
    cases hs
    obtain ⟨hsession, htask⟩ := h.dead o (Bool.eq_false_iff.mpr hdead)
    exact h.blank hsession htask
  | moveConstruct o other =>
    obtain ⟨⟨hdead, hidle⟩, rfl⟩ := Option.ite_some_none_eq_some.mp hs
    obtain ⟨hsession, htask⟩ := h.dead o hdead
    have hr := rests_of_idle hidle
    have hne : o ≠ other := by
      rintro rfl
      cases hdead.symm.trans hr.alive
    exact h.moved (moved_moveFrom hne hsession htask) hne htask hr.task
  | moveAssign o other =>
    obtain ⟨⟨hidle, hidle'⟩, rfl⟩ := Option.ite_some_none_eq_some.mp hs
    have hr := rests_of_idle hidle
    by_cases hself : o = other
    · subst hself
      have hname : w.name (w.object o).session o = w := by
        cases hk : (w.object o).session with
        | none => rfl
        | some k =>
          have habstract : Function.update w.abstract k (some o) = w.abstract := by
            rw [← h.named o k (Or.inl hk)]
            exact Function.update_eq_self k w.abstract
          exact congrArg (fun f => { w with abstract := f }) habstract
      rw [moveAssign, moveMembers_self, hname]
      exact h
    · have hmoved := moved_moveMembers hself hr.alive
      rw [moveAssign, hmoved.target]
      exact h.moved hmoved hself hr.task (rests_of_idle hidle').task
  | destroy o =>
    obtain ⟨hidle, rfl⟩ := Option.ite_some_none_eq_some.mp hs
    refine h.close.blank ?_ ?_
    · rw [close_object]
    · rw [close_object]
      exact (rests_of_idle hidle).task
  | connect o =>
    obtain ⟨hidle, rfl⟩ := Option.ite_some_none_eq_some.mp hs
    have hr := rests_of_idle hidle
    refine h.proceed hr.alive (by rw [hr.task]; rfl) fun u hu hc => ?_
    cases hu
    exact hc
  | authenticate o =>
    obtain ⟨hidle, rfl⟩ := Option.ite_some_none_eq_some.mp hs
    have hr := rests_of_idle hidle
    refine h.proceed hr.alive (by rw [hr.task]; rfl) fun u hu hc => ?_
    cases hu
    exact hc
  | disconnect o =>
    obtain ⟨hidle, rfl⟩ := Option.ite_some_none_eq_some.mp hs
    have hr := rests_of_idle hidle
    have hheld : (w.object o).task.bind Task.held = none := by rw [hr.task]; rfl
    split
    · refine h.proceed hr.alive hheld fun u hu hc => ?_
      cases hu
      exact hc
    · exact h.disconnectSession hr.alive hheld
  | close o =>
    obtain ⟨hidle, rfl⟩ := Option.ite_some_none_eq_some.mp hs
    exact h.close
  | answer o a =>
    obtain ⟨t, ht, hs⟩ := Option.bind_eq_some_iff.mp hs
    exact h.answer ht hs

/-- **Every live libssh2 session has one owner, and names it**, in every run that moves only from
    objects that hold a libssh2 session; and there the next move writes through null exactly if
    it breaks this condition. -/
theorem owned_of_reachesBy (hr : machine.ReachesBy SourceHolds (init : World O) w) :
    w.SoleOwners ∧
      ∀ l w', machine.step w l = some w' → (¬ w.NullMove l ↔ w.SourceHolds l) := by
  have howned : Owned w := hr.preserves (fun h _ hs => Owned.step h hs) owned_init
  exact ⟨howned.soleOwners, fun l w' hs => not_nullMove_iff hs⟩

/-- The hypothesis is met by a run with a failed attempt, a second one, a move out of the object
    that made it, and an assignment back over a third session. -/
theorem owned_of_reachesBy_moved :
    let schedule : List (Label Bool) :=
      [.construct false, .connect false, .answer false .ok, .answer false .ok, .answer false .ok,
        .answer false .failed, .connect false, .answer false .ok, .answer false .ok,
        .answer false .ok, .answer false .ok, .answer false .ok, .answer false .ok,
        .moveConstruct true false, .connect false, .answer false .ok, .answer false .ok,
        .answer false .ok, .answer false .ok, .answer false .ok, .answer false .ok,
        .moveAssign false true]
    ∃ w, machine.execBy SourceHolds init schedule = some w ∧ w.abstract 1 = some false ∧
      w.SoleOwners := by
  intro schedule
  have hrun : machine.execBy SourceHolds init schedule = some _ := rfl
  exact ⟨_, hrun, rfl, (owned_of_reachesBy (Machine.reachesBy_of_execBy schedule hrun)).1⟩

/-- A session that was never connected is moved. -/
theorem null_move : ∃ w w' : World Bool, machine.Reaches init w ∧
    machine.step w (.moveConstruct true false) = some w' ∧
    w.NullMove (.moveConstruct true false) :=
  ⟨_, _, Machine.reaches_of_exec [.construct false] rfl, rfl, rfl⟩

end World

end Ssh
end Net
end Ice
