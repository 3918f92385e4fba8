import LuxPolaris.ConnectionStates
import LuxPolaris.ConnectionLoop

/-!
# A closed connection stays closed

Between `handleClose` and `connectDestroyed` the channel has no interest and
is out of the kernel's set. Most entry points test the state; `startRead`,
`stopRead` and the read callback do not, and `handleClose` itself puts a
channel back that had been taken out before.
-/

set_option autoImplicit false

namespace Lux.Polaris

namespace TCPConnection
open Outcome OutputStream

section Known

def StaysKnown (c c' : TCPConnection) : Prop :=
  c.channel.index ≠ .kNew → c'.channel.index ≠ .kNew

theorem bufferRemaining_known {c c' : TCPConnection} {rest : List Byte}
    (h : c.bufferRemaining rest = .ok c') : StaysKnown c c' := by
  intro hk
  obtain ⟨fs, output, -, rfl⟩ := bufferRemaining_cases h
  dsimp only
  split_ifs
  · exact hk
  · exact Channel.update_index_ne_new _

theorem sendInLoop_known {c c' : TCPConnection} {message : Message} {w : WriteResult}
    (h : c.sendInLoop message w = .ok c') : StaysKnown c c' := by
  intro hk
  rcases sendInLoop_cases h with ⟨-, rfl⟩ | ⟨-, fs, nwrote, hc⟩
  · exact hk
  · rcases hc with rfl | hc
    · exact hk
    · exact bufferRemaining_known hc hk

theorem shutdown_channel (c : TCPConnection) : c.shutdown.channel = c.channel := by
  unfold shutdown shutdownInLoop
  split_ifs <;> rfl

theorem forceClose_channel (c : TCPConnection) : c.forceClose.channel = c.channel := by
  unfold forceClose
  split_ifs <;> rfl

theorem forceCloseWithDelay_channel (c : TCPConnection) (delay : Seconds) :
    (c.forceCloseWithDelay delay).channel = c.channel := by
  unfold forceCloseWithDelay
  split_ifs <;> rfl

theorem handleClose_known {c c' : TCPConnection} (h : c.handleClose = .ok c') :
    StaysKnown c c' := by
  intro _
  obtain ⟨u, -, heq⟩ := bind_ok.mp h
  cases heq
  exact Channel.update_index_ne_new _

theorem handleRead_known {c c' : TCPConnection} {r : Buffer.ReadResult}
    (h : c.handleRead r = .ok c') : StaysKnown c c' := by
  intro hk
  obtain ⟨⟨n, input⟩, -, heq⟩ := bind_ok.mp h
  cases n with
  | error errno =>
    cases heq
    exact hk
  | ok n =>
    by_cases hn : n > 0
    · simp only [hn, if_true] at heq
      cases heq
      exact hk
    · simp only [hn, if_false] at heq
      exact handleClose_known heq hk

theorem handleWrite_known {c c' : TCPConnection} {w : WriteResult}
    (h : c.handleWrite w = .ok c') : StaysKnown c c' := by
  intro hk
  rcases handleWrite_cases h with ⟨rfl, -⟩ | ⟨-, data, k, output, -, -, -, -, hc⟩
  · exact hk
  · rcases hc with ⟨-, rfl⟩ | ⟨-, fs, d, rfl, rfl⟩
    · exact hk
    · split_ifs
      · exact Channel.update_index_ne_new _
      · exact Channel.update_index_ne_new _

theorem handleCallback_known {c c' : TCPConnection} {r : Buffer.ReadResult} {w : WriteResult}
    {cb : Callback} (h : c.handleCallback r w cb = .ok c') : StaysKnown c c' := by
  cases cb with
  | close => exact handleClose_known h
  | error =>
    cases h
    exact id
  | read => exact handleRead_known h
  | write => exact handleWrite_known h

theorem userCall_known {c c' : TCPConnection} {a : Call} (ha : ConnectionLoop.UserCall c a)
    (h : c.call a = .ok c') : StaysKnown c c' := by
  intro hk
  cases a with
  | send message w =>
    rw [call, send] at h
    split_ifs at h
    · exact sendInLoop_known h hk
    · cases h
      exact hk
  | shutdown =>
    cases h
    rw [shutdown_channel]
    exact hk
  | forceClose =>
    cases h
    rw [forceClose_channel]
    exact hk
  | forceCloseWithDelay delay =>
    cases h
    rw [forceCloseWithDelay_channel]
    exact hk
  | startRead =>
    cases h
    unfold startReadInLoop
    split_ifs
    · exact Channel.update_index_ne_new _
    · exact hk
  | stopRead =>
    cases h
    unfold stopReadInLoop
    split_ifs
    · exact Channel.update_index_ne_new _
    · exact hk
  | takeInput len =>
    obtain ⟨input, -, heq⟩ := bind_ok.mp h
    cases heq
    exact hk
  | sendInLoop _ _ => exact ha.elim
  | forceCloseInLoop => exact ha.elim
  | handleRead _ => exact ha.elim
  | handleWrite _ => exact ha.elim
  | handleClose => exact ha.elim
  | handleError => exact ha.elim

end Known

section Window

/-- Closed for good: nothing of interest, and out of the kernel's set. -/
structure Shut (c : TCPConnection) : Prop where
  events : c.channel.isNoneEvent = true
  index : c.channel.index ≠ .kAdded

structure Served (c : TCPConnection) : Prop where
  output : OutputInv c
  up : c.Up ∨ c.state = .kDisconnected
  known : c.channel.index ≠ .kNew
  shut : c.state = .kDisconnected → c.Shut

/-- `handleClose` is due, and finds the connection up and its channel in the
kernel's set. -/
def Closable (c : TCPConnection) : Prop :=
  c.state ≠ .kDisconnected ∧ c.channel.index = .kAdded

instance (c : TCPConnection) : Decidable c.Closable := inferInstanceAs (Decidable (_ ∧ _))

theorem shut_of_channel {c c' : TCPConnection} (h : c'.channel = c.channel) (hs : c.Shut) :
    c'.Shut :=
  ⟨h ▸ hs.events, h ▸ hs.index⟩

theorem served_keeps {c c' : TCPConnection} (hs : c.Served) (hk : Keeps c c')
    (ho : OutputInv c') (hn : StaysKnown c c') : c'.Served := by
  refine ⟨ho, ?_, hn hs.known, fun hd => ?_⟩
  · rcases hs.up with hu | hd
    · exact Or.inl (hk.up hu)
    · exact Or.inr (hk.down hd).1
  · rcases hs.up with hu | hd'
    · exact absurd hd (not_down_of_up (hk.up hu))
    · exact shut_of_channel (hk.down hd').2 (hs.shut hd')

theorem served_closes {c c' : TCPConnection} (hs : c.Served) (hc : Closes c c')
    (hk : c.channel.index = .kAdded) (ho : OutputInv c') (hn : StaysKnown c c') : c'.Served := by
  refine ⟨ho, Or.inr hc.down.state, hn hs.known, fun _ => ⟨hc.down.events, ?_⟩⟩
  rw [hc.index hk]
  decide

theorem update_added {ch : Channel} (h : ch.index ≠ .kAdded) (e : Events) :
    (Channel.update { ch with events := e }).index = .kAdded := by
  unfold Channel.update
  cases hi : ch.index
  · rfl
  · exact absurd hi h
  · rfl

def ClosedBy (r : Buffer.ReadResult) (cb : Callback) : Prop :=
  cb = .close ∨ cb = .read ∧ r = .read []

instance (r : Buffer.ReadResult) (cb : Callback) : Decidable (ClosedBy r cb) :=
  inferInstanceAs (Decidable (_ ∨ _))

theorem closedBy_eq {c : TCPConnection} (hi : OutputInv c) {r : Buffer.ReadResult}
    (w : WriteResult) {cb : Callback} (h : ClosedBy r cb) : ∃ input, input.Valid ∧
      c.handleCallback r w cb = handleClose { c with inputBuffer := input } := by
  rcases h with rfl | ⟨rfl, rfl⟩
  · exact ⟨c.inputBuffer, hi.input, rfl⟩
  · exact handleRead_nil hi

theorem notClosed_keeps {c : TCPConnection} (hi : OutputInv c) {r : Buffer.ReadResult}
    (w : WriteResult) {cb : Callback} (h : ¬ClosedBy r cb) :
    Yields (c.handleCallback r w cb) (Keeps c) (· = .lengthError) := by
  cases cb with
  | close => exact absurd (Or.inl rfl) h
  | error => exact (yields_ok _ _ _).mpr (keeps_refl c)
  | read => exact handleRead_keeps hi (fun hr => h (Or.inr ⟨rfl, hr⟩))
  | write =>
    cases hw : c.handleWrite w with
    | ok c' =>
      rw [handleCallback, hw]
      exact (yields_ok _ _ _).mpr (handleWrite_keeps hi hw)
    | error e => exact ((handleWrite_moves hi w).error hw).elim

theorem handleClose_served {c : TCPConnection} (hs : c.Served) (hc : c.Closable) :
    Yields c.handleClose Served (· = .lengthError) := by
  have hup : c.Up := hs.up.resolve_right hc.1
  cases h : c.handleClose with
  | ok c' =>
    exact (yields_ok _ _ _).mpr (served_closes hs (handleClose_closes h) hc.2
      ((handleClose_moves hs.output).ok h).inv (handleClose_known h))
  | error e => exact absurd hup ((handleClose_moves hs.output).error h)

theorem handleClose_breaks {c : TCPConnection} (hup : c.Up ∨ c.state = .kDisconnected)
    (hc : ¬c.Closable) :
    ¬Yields c.handleClose (fun c' => c'.state = .kDisconnected → c'.Shut) (· = .lengthError) := by
  intro h
  by_cases hd : c.state = .kDisconnected
  · obtain ⟨expr, he⟩ := handleClose_down hd
    cases h.error he
  · have hu : c.state = .kConnected ∨ c.state = .kDisconnecting := hup.resolve_right hd
    have hk : c.channel.index ≠ .kAdded := fun hk => hc ⟨hd, hk⟩
    rw [handleClose, assertThat_of hu] at h
    exact ((h.ok rfl) rfl).index (update_added hk kNoneEvent)

end Window

end TCPConnection

namespace ConnectionLoop
open Outcome TCPConnection OutputStream

/-- From the close until `connectDestroyed`, the connection is shut. -/
def StaysClosed (s : ConnectionLoop) : Prop :=
  s.destroyed = false → s.conn.state = .kDisconnected → s.conn.Shut

/-- Where the library does not test the state itself: `startRead` is not called
on a closed connection, `stopRead` only with `reading_` unset, and
`handleClose` finds the channel in the kernel's set and the connection up. -/
def Guarded (s : ConnectionLoop) : Action → Prop
  | .call .startRead => s.conn.state ≠ .kDisconnected
  | .call .stopRead => s.conn.state ≠ .kDisconnected ∨ s.conn.reading = false
  | .callback r _ => ∀ cb ∈ s.handling.head?, ClosedBy r cb → s.conn.Closable
  | .runFunctor => s.functors.head? = some .forceCloseInLoop → s.conn.Up → s.conn.Closable
  | _ => True

instance (s : ConnectionLoop) : (a : Action) → Decidable (s.Guarded a)
  | .call (.send _ _) => isTrue trivial
  | .call .shutdown => isTrue trivial
  | .call .forceClose => isTrue trivial
  | .call (.forceCloseWithDelay _) => isTrue trivial
  | .call .startRead => inferInstanceAs (Decidable (_ ≠ _))
  | .call .stopRead => inferInstanceAs (Decidable (_ ∨ _))
  | .call (.takeInput _) => isTrue trivial
  | .call (.sendInLoop _ _) => isTrue trivial
  | .call .forceCloseInLoop => isTrue trivial
  | .call (.handleRead _) => isTrue trivial
  | .call (.handleWrite _) => isTrue trivial
  | .call .handleClose => isTrue trivial
  | .call .handleError => isTrue trivial
  | .poll _ => isTrue trivial
  | .handleEvent _ => isTrue trivial
  | .callback _ _ => inferInstanceAs (Decidable (∀ cb ∈ _, _ → _))
  | .fireDelayedClose => isTrue trivial
  | .swap => isTrue trivial
  | .runFunctor => inferInstanceAs (Decidable (_ → _ → _))
  | .connectDestroyed => isTrue trivial

def Inv (s : ConnectionLoop) : Prop := s.destroyed = false → s.conn.Served

theorem staysClosed_of_inv {s : ConnectionLoop} (hi : s.Inv) : s.StaysClosed :=
  fun hd hst => (hi hd).shut hst

theorem settle_served {c : TCPConnection} (hs : c.Served) :
    Served { c with effects := [] } :=
  ⟨⟨hs.output.input, hs.output.output, hs.output.interest, hs.output.off, hs.output.drained⟩,
    hs.up, hs.known, fun hd => ⟨(hs.shut hd).events, (hs.shut hd).index⟩⟩

theorem settled_yields {r : Except Fault TCPConnection} {t : TCPConnection → ConnectionLoop}
    (ht : ∀ c, (t c).conn = { c with effects := [] }) (h : Yields r Served (· = .lengthError)) :
    Yields (r >>= fun c => .ok (t c)) Inv (· = .lengthError) := by
  rw [yields_bind]
  refine h.imp (fun c hc => (yields_ok _ _ _).mpr (fun _ => ?_))
  rw [ht]
  exact settle_served hc

theorem settled_breaks {r : Except Fault TCPConnection} {t : TCPConnection → ConnectionLoop}
    (ht : ∀ c, (t c).conn = { c with effects := [] } ∧ (t c).destroyed = false)
    (h : ¬Yields r (fun c => c.state = .kDisconnected → c.Shut) (· = .lengthError)) :
    ¬Yields (r >>= fun c => .ok (t c)) StaysClosed (· = .lengthError) := by
  intro hy
  rw [yields_bind] at hy
  refine h (hy.imp (fun c hc hd => ?_))
  have hs := (yields_ok _ _ _).mp hc (ht c).2
  rw [(ht c).1] at hs
  exact ⟨(hs hd).events, (hs hd).index⟩

theorem keeps_yields {c : TCPConnection} (hs : c.Served) {a : Call} (ha : UserCall c a)
    (hk : ∀ c', c.call a = .ok c' → Keeps c c')
    (hf : ∀ e, Failure c e a → e = .lengthError) :
    Yields (c.call a) Served (· = .lengthError) := by
  have hm := call_moves hs.output a
  cases h : c.call a with
  | ok c' =>
    exact (yields_ok _ _ _).mpr (served_keeps hs (hk c' h) (hm.ok h).inv (userCall_known ha h))
  | error e => exact (yields_error _ _ _).mpr (hf e (hm.error h))

theorem reading_served {c c' : TCPConnection} (hs : c.Served) (hd : c.state ≠ .kDisconnected)
    (hst : c'.state = c.state) (ho : OutputInv c') (hk : StaysKnown c c') : c'.Served := by
  refine ⟨ho, ?_, hk hs.known, fun h => absurd (hst.symm.trans h) hd⟩
  rw [Up, hst]
  exact hs.up

theorem startReadInLoop_state (c : TCPConnection) : c.startReadInLoop.state = c.state := by
  unfold startReadInLoop
  split_ifs <;> rfl

theorem stopReadInLoop_state (c : TCPConnection) : c.stopReadInLoop.state = c.state := by
  unfold stopReadInLoop
  split_ifs <;> rfl

theorem userCall_yields {s : ConnectionLoop} (hs : s.conn.Served) {a : Call}
    (ha : UserCall s.conn a) (hg : s.Guarded (.call a)) :
    Yields (s.conn.call a) Served (· = .lengthError) := by
  cases a with
  | send message w => exact keeps_yields hs ha (fun _ h => send_keeps h) (fun _ he => he)
  | shutdown =>
    exact (yields_ok _ _ _).mpr (served_keeps hs (shutdown_keeps _) (shutdown_moves hs.output).inv
      (userCall_known ha rfl))
  | forceClose =>
    exact (yields_ok _ _ _).mpr (served_keeps hs (forceClose_keeps _)
      (forceClose_moves hs.output).inv (userCall_known ha rfl))
  | forceCloseWithDelay delay =>
    exact (yields_ok _ _ _).mpr (served_keeps hs (forceCloseWithDelay_keeps _ delay)
      (forceCloseWithDelay_moves hs.output delay).inv (userCall_known ha rfl))
  | startRead =>
    exact (yields_ok _ _ _).mpr (reading_served hs hg (startReadInLoop_state _)
      (startReadInLoop_moves hs.output).inv (userCall_known ha rfl))
  | stopRead =>
    by_cases hd : s.conn.state = .kDisconnected
    · have hr : s.conn.reading = false := hg.resolve_left (fun h => h hd)
      have hev : s.conn.channel.events = kNoneEvent := of_decide_eq_true (hs.shut hd).events
      have hn : (s.conn.reading || s.conn.channel.isReading) = false := by
        rw [hr, Channel.isReading, hev]
        rfl
      rw [call, stopReadInLoop, hn]
      exact (yields_ok _ _ _).mpr hs
    · exact (yields_ok _ _ _).mpr (reading_served hs hd (stopReadInLoop_state _)
        (stopReadInLoop_moves hs.output).inv (userCall_known ha rfl))
  | takeInput len =>
    exact keeps_yields hs ha
      (fun _ h => by
        obtain ⟨input, -, heq⟩ := bind_ok.mp h
        cases heq
        exact keeps_of_functors rfl rfl [] (List.append_nil _).symm)
      (fun _ he => absurd ha he)
  | sendInLoop _ _ => exact ha.elim
  | forceCloseInLoop => exact ha.elim
  | handleRead _ => exact ha.elim
  | handleWrite _ => exact ha.elim
  | handleClose => exact ha.elim
  | handleError => exact ha.elim

theorem callback_yields {c : TCPConnection} (hs : c.Served) {r : Buffer.ReadResult}
    (w : WriteResult) {cb : Callback} (hg : ClosedBy r cb → c.Closable) :
    Yields (c.handleCallback r w cb) Served (· = .lengthError) := by
  by_cases hcb : ClosedBy r cb
  · obtain ⟨input, hv, heq⟩ := closedBy_eq hs.output w hcb
    have hs' : Served { c with inputBuffer := input } :=
      ⟨⟨hv, hs.output.output, hs.output.interest, hs.output.off, hs.output.drained⟩, hs.up,
        hs.known, fun hd => ⟨(hs.shut hd).events, (hs.shut hd).index⟩⟩
    rw [heq]
    exact handleClose_served hs' (hg hcb)
  · have hk := notClosed_keeps hs.output w hcb
    cases h : c.handleCallback r w cb with
    | ok c' =>
      exact (yields_ok _ _ _).mpr (served_keeps hs (hk.ok h) (handleCallback_inv hs.output h)
        (handleCallback_known h))
    | error e => exact (yields_error _ _ _).mpr (hk.error h)

theorem forceCloseInLoop_yields {c : TCPConnection} (hs : c.Served) (hg : c.Up → c.Closable) :
    Yields c.forceCloseInLoop Served (· = .lengthError) := by
  unfold forceCloseInLoop
  split_ifs with hc
  · exact handleClose_served hs (hg hc)
  · exact (yields_ok _ _ _).mpr hs

theorem step_yields {s : ConnectionLoop} {a : Action} (hi : s.Inv) (he : s.Enabled a)
    (hg : s.Guarded a) : Yields (step s a) Inv (· = .lengthError) := by
  obtain ⟨hnd, hr⟩ := he
  have hs := hi hnd
  cases a with
  | call a => exact settled_yields (fun _ => rfl) (userCall_yields hs hr hg)
  | poll active => exact (yields_ok _ _ _).mpr (fun _ => hs)
  | handleEvent r => exact (yields_ok _ _ _).mpr (fun _ => hs)
  | callback r w =>
    cases hh : s.handling with
    | nil => exact absurd hh hr
    | cons cb rest =>
      simp only [step, hh]
      refine settled_yields (fun _ => rfl) (callback_yields hs w ?_)
      exact hg cb (by rw [hh]; rfl)
  | fireDelayedClose =>
    refine (yields_ok _ _ _).mpr (fun _ => settle_served ?_)
    exact served_keeps hs (forceClose_keeps _) (forceClose_moves hs.output).inv
      (userCall_known (a := .forceClose) trivial rfl)
  | swap => exact (yields_ok _ _ _).mpr (fun _ => hs)
  | runFunctor =>
    cases hf : s.functors with
    | nil => exact absurd hf hr.2.2
    | cons f functors =>
      simp only [step, hf]
      cases f with
      | forceCloseInLoop =>
        exact settled_yields (fun _ => rfl) (forceCloseInLoop_yields hs (hg (by rw [hf]; rfl)))
      | writeCompleteCallback => exact (yields_ok _ _ _).mpr (fun _ => hs)
      | highWaterMarkCallback size => exact (yields_ok _ _ _).mpr (fun _ => hs)
  | connectDestroyed =>
    have hd := hr.2.2
    have hdown : s.conn.Down := ⟨hd, (hs.shut hd).events⟩
    obtain ⟨c', hok, -⟩ := connectDestroyed_down hs.output hdown hs.known
    rw [step, hok]
    exact (yields_ok _ _ _).mpr (fun h => nomatch h)

/-- A change of interest in a channel that is out of the kernel's set. -/
theorem interest_breaks {s : ConnectionLoop} (hd : s.destroyed = false) {c : TCPConnection}
    (hst : c.state = .kDisconnected) (hk : c.channel.index = .kAdded) :
    ¬Yields (.ok (s.settle c) : Except Fault ConnectionLoop) StaysClosed (· = .lengthError) :=
  fun h => ((yields_ok _ _ _).mp h hd hst).index hk

theorem step_breaks {s : ConnectionLoop} {a : Action} (hi : s.Inv) (he : s.Enabled a)
    (hg : ¬s.Guarded a) : ¬Yields (step s a) StaysClosed (· = .lengthError) := by
  obtain ⟨hnd, hr⟩ := he
  have hs := hi hnd
  cases a with
  | call a =>
    cases a with
    | startRead =>
      have hd : s.conn.state = .kDisconnected := not_not.mp hg
      have hev : s.conn.channel.events = kNoneEvent := of_decide_eq_true (hs.shut hd).events
      have hn : (!s.conn.reading || !s.conn.channel.isReading) = true := by
        rw [Channel.isReading, hev]
        simp [kNoneEvent]
      refine interest_breaks hnd ?_ ?_
      · rw [startReadInLoop_state, hd]
      · rw [startReadInLoop, if_pos hn]
        exact update_added (hs.shut hd).index _
    | stopRead =>
      obtain ⟨hd, hread⟩ := not_or.mp hg
      have hd : s.conn.state = .kDisconnected := not_not.mp hd
      have hn : (s.conn.reading || s.conn.channel.isReading) = true := by
        rw [Bool.not_eq_false] at hread
        rw [hread, Bool.true_or]
      refine interest_breaks hnd ?_ ?_
      · rw [stopReadInLoop_state, hd]
      · rw [stopReadInLoop, if_pos hn]
        exact update_added (hs.shut hd).index _
    | send => exact absurd trivial hg
    | shutdown => exact absurd trivial hg
    | forceClose => exact absurd trivial hg
    | forceCloseWithDelay => exact absurd trivial hg
    | takeInput => exact absurd trivial hg
    | sendInLoop => exact hr.elim
    | forceCloseInLoop => exact hr.elim
    | handleRead => exact hr.elim
    | handleWrite => exact hr.elim
    | handleClose => exact hr.elim
    | handleError => exact hr.elim
  | callback r w =>
    cases hh : s.handling with
    | nil => exact absurd hh hr
    | cons cb rest =>
      simp only [Guarded, hh, List.head?_cons, Option.mem_def, Option.some.injEq, not_forall] at hg
      obtain ⟨_, rfl, hcb, hc⟩ := hg
      obtain ⟨input, -, heq⟩ := closedBy_eq hs.output w hcb
      simp only [step, hh]
      refine settled_breaks (fun _ => ⟨rfl, hnd⟩) ?_
      rw [heq]
      exact handleClose_breaks hs.up hc
  | runFunctor =>
    simp only [Guarded, not_forall] at hg
    obtain ⟨hhead, hup, hc⟩ := hg
    cases hf : s.functors with
    | nil => exact absurd hf hr.2.2
    | cons f functors =>
      rw [hf, List.head?_cons, Option.some.injEq] at hhead
      subst hhead
      simp only [step, hf]
      refine settled_breaks (fun _ => ⟨rfl, hnd⟩) ?_
      have heq : s.conn.forceCloseInLoop = s.conn.handleClose := if_pos hup
      rw [heq]
      exact handleClose_breaks hs.up hc
  | poll => exact absurd trivial hg
  | handleEvent => exact absurd trivial hg
  | fireDelayedClose => exact absurd trivial hg
  | swap => exact absurd trivial hg
  | connectDestroyed => exact absurd trivial hg

theorem established_inv {sockfd mark : ℕ} {writeComplete highWater : Bool} {c : TCPConnection}
    (h : TCPConnection.construct sockfd writeComplete highWater mark >>=
      TCPConnection.connectEstablished = .ok c) : (established c).Inv := by
  intro _
  obtain ⟨ho, -, hst, -, hk, -⟩ := (established_spec sockfd mark writeComplete highWater).ok h
  refine settle_served ⟨ho, Or.inl (Or.inl hst), ?_, fun hd => ?_⟩
  · rw [hk]
    decide
  · exact nomatch hst.symm.trans hd

/-- A closed connection stays closed, and no assertion of `handleClose` or
`connectDestroyed` fails, in exactly the runs that meet the condition. -/
theorem closed_stays_closed (sockfd mark : ℕ) (writeComplete highWater : Bool)
    (c : TCPConnection) (as : List Action)
    (h : TCPConnection.construct sockfd writeComplete highWater mark >>=
      TCPConnection.connectEstablished = .ok c)
    (ha : Admitted step Enabled (established c) as) :
    Throughout step StaysClosed (· = .lengthError) (established c) as ↔
      Admitted step Guarded (established c) as :=
  throughout_iff Enabled Guarded (fun _ => staysClosed_of_inv)
    (fun _ _ hi he hg => step_yields hi he hg) (fun _ _ hi he hg => step_breaks hi he hg) as _
    (established_inv h) ha

def lateCalls : List Action :=
  [.call (.send .hi (.accepted 1)), .poll true,
    .handleEvent ⟨true, false, true, false, true, false, false⟩,
    .callback (.read []) (.failed 11), .call (.send .bang (.accepted 1)),
    .call .shutdown, .call .forceClose, .callback (.failed 11) (.accepted 1), .call .stopRead,
    .swap, .connectDestroyed]

theorem closed_stays_closed_calls : ∃ c,
    TCPConnection.construct 5 true false 64 >>= TCPConnection.connectEstablished = .ok c ∧
    Throughout step StaysClosed (· = .lengthError) (established c) lateCalls := by
  have hrun : ((fun c => decide (Admitted step Enabled (established c) lateCalls ∧
      Admitted step Guarded (established c) lateCalls)) <$>
        (construct 5 true false 64 >>= connectEstablished)) = .ok true := by decide +kernel
  obtain ⟨c, hc, hd⟩ := map_ok.mp hrun
  obtain ⟨ha, hg⟩ := of_decide_eq_true hd
  exact ⟨c, hc, (closed_stays_closed 5 64 true false c lateCalls hc ha).mpr hg⟩

/-- The peer closes, and the user starts reading again in the callback that
tells him so. -/
theorem closed_reopened :
    ¬∀ (c : TCPConnection) (as : List Action),
      TCPConnection.construct 5 true false 64 >>= TCPConnection.connectEstablished = .ok c →
      Admitted step Enabled (established c) as →
      Throughout step StaysClosed (· = .lengthError) (established c) as := by
  intro h
  have hrun : ((fun c => (decide (Admitted step Enabled (established c)
      [.poll true, .handleEvent ⟨true, false, false, false, false, false, false⟩,
        .callback (.read []) (.failed 11), .call .startRead]),
      (fun s => (s.destroyed, s.conn.state, s.conn.channel.isNoneEvent)) <$> run step
        (established c) [.poll true, .handleEvent ⟨true, false, false, false, false, false, false⟩,
          .callback (.read []) (.failed 11), .call .startRead])) <$>
        (construct 5 true false 64 >>= connectEstablished)) =
      .ok (true, .ok (false, .kDisconnected, false)) := by decide +kernel
  obtain ⟨c, hc, hp⟩ := map_ok.mp hrun
  obtain ⟨s, hs, hp'⟩ := map_ok.mp (congrArg Prod.snd hp)
  have hy := h c _ hc (of_decide_eq_true (congrArg Prod.fst hp)) _ List.prefix_rfl
  have hshut := (hy.ok hs) (congrArg Prod.fst hp') (congrArg (fun p => p.2.1) hp')
  exact absurd (hshut.events.symm.trans (congrArg (fun p => p.2.2) hp')) (by decide)

end ConnectionLoop

end Lux.Polaris
