import LuxPolaris.ClosedConnection

/-!
# The reported reading state

`isReading()` answers `reading_`, and the channel has the interest itself. The
constructor clears `reading_` and `connectEstablished` turns the interest on
without setting it; `startRead` and `stopRead` write both. No other function
that leaves the connection up writes either.
-/

set_option autoImplicit false

namespace Lux.Polaris

namespace TCPConnection
open Outcome

def isReading (c : TCPConnection) : Bool := c.reading

/-- What is left of both copies while the connection is up. -/
def Undisturbed (c c' : TCPConnection) : Prop :=
  c'.Up → c.Up ∧ c'.reading = c.reading ∧ c'.channel.isReading = c.channel.isReading

theorem Undisturbed.trans {a b c : TCPConnection} (h : Undisturbed a b) (k : Undisturbed b c) :
    Undisturbed a c := by
  intro hu
  obtain ⟨hb, hbr, hbi⟩ := k hu
  obtain ⟨ha, har, hai⟩ := h hb
  exact ⟨ha, hbr.trans har, hbi.trans hai⟩

theorem undisturbed_of_state {c c' : TCPConnection} (hs : c'.state = c.state)
    (hr : c'.reading = c.reading) (hi : c'.channel.isReading = c.channel.isReading) :
    Undisturbed c c' :=
  fun hu => ⟨by rwa [Up, hs] at hu, hr, hi⟩

section ReadCalls
variable (c : TCPConnection)

theorem startReadInLoop_both :
    c.startReadInLoop.reading = true ∧ c.startReadInLoop.channel.isReading = true := by
  unfold startReadInLoop
  split_ifs with h
  · exact ⟨rfl, rfl⟩
  · simpa using h

theorem stopReadInLoop_both :
    c.stopReadInLoop.reading = false ∧ c.stopReadInLoop.channel.isReading = false := by
  unfold stopReadInLoop
  split_ifs with h
  · exact ⟨rfl, rfl⟩
  · simpa using h

theorem startReadInLoop_isWriting :
    c.startReadInLoop.channel.isWriting = c.channel.isWriting := by
  unfold startReadInLoop
  split_ifs <;> rfl

theorem stopReadInLoop_isWriting : c.stopReadInLoop.channel.isWriting = c.channel.isWriting := by
  unfold stopReadInLoop
  split_ifs <;> rfl

theorem start_of_reading {c : TCPConnection} (hr : c.reading = true)
    (hi : c.channel.isReading = true) : c.startReadInLoop = c := by
  unfold startReadInLoop
  rw [hr, hi]
  rfl

theorem stop_of_not_reading {c : TCPConnection} (hr : c.reading = false)
    (hi : c.channel.isReading = false) : c.stopReadInLoop = c := by
  unfold stopReadInLoop
  rw [hr, hi]
  rfl

theorem events_eq {a b : Channel} (hr : a.isReading = b.isReading)
    (hw : a.isWriting = b.isWriting) : a.events = b.events := by
  cases ha : a.events
  cases hb : b.events
  simp only [Channel.isReading, Channel.isWriting, ha, hb] at hr hw
  rw [hr, hw]

/-- Both calls are idempotent, each undoes the other on the interest, and the
interest in writing stays. -/
structure ReadCalls : Prop where
  start_start : c.startReadInLoop.startReadInLoop = c.startReadInLoop
  stop_stop : c.stopReadInLoop.stopReadInLoop = c.stopReadInLoop
  stop_start : c.channel.isReading = true →
    c.stopReadInLoop.startReadInLoop.channel.events = c.channel.events
  start_stop : c.channel.isReading = false →
    c.startReadInLoop.stopReadInLoop.channel.events = c.channel.events
  start_isWriting : c.startReadInLoop.channel.isWriting = c.channel.isWriting
  stop_isWriting : c.stopReadInLoop.channel.isWriting = c.channel.isWriting

theorem readCalls : ReadCalls c := by
  refine ⟨?_, ?_, fun hi => ?_, fun hi => ?_, startReadInLoop_isWriting c,
    stopReadInLoop_isWriting c⟩
  · obtain ⟨hr, hi⟩ := startReadInLoop_both c
    exact start_of_reading hr hi
  · obtain ⟨hr, hi⟩ := stopReadInLoop_both c
    exact stop_of_not_reading hr hi
  · apply events_eq
    · rw [(startReadInLoop_both _).2, hi]
    · rw [startReadInLoop_isWriting, stopReadInLoop_isWriting]
  · apply events_eq
    · rw [(stopReadInLoop_both _).2, hi]
    · rw [stopReadInLoop_isWriting, startReadInLoop_isWriting]

end ReadCalls

section Undisturbed
variable {c c' : TCPConnection}

theorem bufferRemaining_undisturbed {rest : List Byte} (h : c.bufferRemaining rest = .ok c') :
    Undisturbed c c' := by
  obtain ⟨fs, output, -, rfl⟩ := bufferRemaining_cases h
  refine undisturbed_of_state rfl rfl ?_
  dsimp only
  split_ifs <;> rfl

theorem sendInLoop_undisturbed {message : Message} {w : WriteResult}
    (h : c.sendInLoop message w = .ok c') : Undisturbed c c' := by
  rcases sendInLoop_cases h with ⟨-, rfl⟩ | ⟨-, fs, nwrote, hc⟩
  · exact undisturbed_of_state rfl rfl rfl
  · have hwrite : Undisturbed c { c.accept message.bytes nwrote with
        effects := c.effects ++ fs.map .queueInLoop } := undisturbed_of_state rfl rfl rfl
    rcases hc with rfl | hc
    · exact hwrite
    · exact hwrite.trans (bufferRemaining_undisturbed hc)

theorem send_undisturbed {message : Message} {w : WriteResult}
    (h : c.send message w = .ok c') : Undisturbed c c' := by
  unfold send at h
  split_ifs at h
  · exact sendInLoop_undisturbed h
  · cases h
    exact undisturbed_of_state rfl rfl rfl

theorem shutdown_undisturbed (c : TCPConnection) : Undisturbed c c.shutdown := by
  unfold shutdown shutdownInLoop
  split_ifs with hs
  · exact fun _ => ⟨.inl hs, rfl, rfl⟩
  · exact fun _ => ⟨.inl hs, rfl, rfl⟩
  · exact undisturbed_of_state rfl rfl rfl

theorem forceClose_undisturbed (c : TCPConnection) : Undisturbed c c.forceClose := by
  unfold forceClose
  split_ifs with hs
  · exact fun _ => ⟨hs, rfl, rfl⟩
  · exact undisturbed_of_state rfl rfl rfl

theorem forceCloseWithDelay_undisturbed (c : TCPConnection) (delay : Seconds) :
    Undisturbed c (c.forceCloseWithDelay delay) := by
  unfold forceCloseWithDelay
  split_ifs with hs
  · exact fun _ => ⟨hs, rfl, rfl⟩
  · exact undisturbed_of_state rfl rfl rfl

theorem handleClose_undisturbed (h : c.handleClose = .ok c') : Undisturbed c c' :=
  fun hu => absurd (handleClose_closes h).down.state (not_down_of_up hu)

theorem forceCloseInLoop_undisturbed (h : c.forceCloseInLoop = .ok c') : Undisturbed c c' := by
  unfold forceCloseInLoop at h
  split_ifs at h
  · exact handleClose_undisturbed h
  · cases h
    exact undisturbed_of_state rfl rfl rfl

theorem handleRead_undisturbed {r : Buffer.ReadResult} (h : c.handleRead r = .ok c') :
    Undisturbed c c' := by
  obtain ⟨⟨n, input⟩, -, heq⟩ := bind_ok.mp h
  cases n with
  | error errno =>
    cases heq
    exact undisturbed_of_state rfl rfl rfl
  | ok n =>
    by_cases hn : n > 0
    · simp only [hn, if_true] at heq
      cases heq
      exact undisturbed_of_state rfl rfl rfl
    · simp only [hn, if_false] at heq
      have hinput : Undisturbed c { c with inputBuffer := input } :=
        undisturbed_of_state rfl rfl rfl
      exact hinput.trans (handleClose_undisturbed heq)

theorem handleWrite_undisturbed {w : WriteResult} (h : c.handleWrite w = .ok c') :
    Undisturbed c c' := by
  rcases handleWrite_cases h with ⟨rfl, -⟩ | ⟨-, data, k, output, -, -, -, -, hc⟩
  · exact undisturbed_of_state rfl rfl rfl
  · rcases hc with ⟨-, rfl⟩ | ⟨-, fs, d, rfl, rfl⟩
    · exact undisturbed_of_state rfl rfl rfl
    · split_ifs
      · exact undisturbed_of_state rfl rfl rfl
      · exact undisturbed_of_state rfl rfl rfl

theorem handleCallback_undisturbed {r : Buffer.ReadResult} {w : WriteResult} {cb : Callback}
    (h : c.handleCallback r w cb = .ok c') : Undisturbed c c' := by
  cases cb with
  | close => exact handleClose_undisturbed h
  | error =>
    cases h
    exact undisturbed_of_state rfl rfl rfl
  | read => exact handleRead_undisturbed h
  | write => exact handleWrite_undisturbed h

theorem connectDestroyed_undisturbed (h : c.connectDestroyed = .ok c') : Undisturbed c c' := by
  unfold connectDestroyed at h
  split_ifs at h with hs
  · obtain ⟨channel, -, heq⟩ := bind_ok.mp h
    cases heq
    exact fun hu => absurd rfl (not_down_of_up hu)
  · obtain ⟨channel, hch, heq⟩ := bind_ok.mp h
    cases heq
    unfold Channel.remove at hch
    obtain ⟨-, -, hch⟩ := bind_ok.mp hch
    obtain ⟨-, -, hch⟩ := bind_ok.mp hch
    cases hch
    exact undisturbed_of_state rfl rfl rfl

def SetsReading : Call → Prop
  | .startRead => True
  | .stopRead => True
  | _ => False

instance : (a : Call) → Decidable (SetsReading a)
  | .startRead => isTrue trivial
  | .stopRead => isTrue trivial
  | .sendInLoop _ _ => isFalse not_false
  | .send _ _ => isFalse not_false
  | .shutdown => isFalse not_false
  | .forceClose => isFalse not_false
  | .forceCloseWithDelay _ => isFalse not_false
  | .forceCloseInLoop => isFalse not_false
  | .handleRead _ => isFalse not_false
  | .handleWrite _ => isFalse not_false
  | .handleClose => isFalse not_false
  | .handleError => isFalse not_false
  | .takeInput _ => isFalse not_false

theorem call_sets {a : Call} (ha : SetsReading a) (h : c.call a = .ok c') :
    c'.isReading = c'.channel.isReading := by
  cases a with
  | startRead =>
    cases h
    obtain ⟨hr, hi⟩ := startReadInLoop_both c
    exact hr.trans hi.symm
  | stopRead =>
    cases h
    obtain ⟨hr, hi⟩ := stopReadInLoop_both c
    exact hr.trans hi.symm
  | _ => exact ha.elim

theorem call_undisturbed {a : Call} (ha : ¬SetsReading a) (h : c.call a = .ok c') :
    Undisturbed c c' := by
  cases a with
  | sendInLoop message w => exact sendInLoop_undisturbed h
  | send message w => exact send_undisturbed h
  | shutdown =>
    cases h
    exact shutdown_undisturbed c
  | forceClose =>
    cases h
    exact forceClose_undisturbed c
  | forceCloseWithDelay delay =>
    cases h
    exact forceCloseWithDelay_undisturbed c delay
  | forceCloseInLoop => exact forceCloseInLoop_undisturbed h
  | startRead => exact absurd trivial ha
  | stopRead => exact absurd trivial ha
  | handleRead r => exact handleRead_undisturbed h
  | handleWrite w => exact handleWrite_undisturbed h
  | handleClose => exact handleClose_undisturbed h
  | handleError =>
    cases h
    exact undisturbed_of_state rfl rfl rfl
  | takeInput len =>
    obtain ⟨input, -, heq⟩ := bind_ok.mp h
    cases heq
    exact undisturbed_of_state rfl rfl rfl

end Undisturbed

end TCPConnection

namespace ConnectionLoop
open Outcome TCPConnection

def SetsReading : Action → Prop
  | .call a => TCPConnection.SetsReading a
  | _ => False

instance : (a : Action) → Decidable (SetsReading a)
  | .call a => inferInstanceAs (Decidable (TCPConnection.SetsReading a))
  | .poll _ => isFalse not_false
  | .handleEvent _ => isFalse not_false
  | .callback _ _ => isFalse not_false
  | .fireDelayedClose => isFalse not_false
  | .swap => isFalse not_false
  | .runFunctor => isFalse not_false
  | .connectDestroyed => isFalse not_false

theorem settle_undisturbed (s : ConnectionLoop) {c c' : TCPConnection} (h : Undisturbed c c') :
    Undisturbed c (s.settle c').conn :=
  h.trans (undisturbed_of_state rfl rfl rfl)

theorem step_sets {s t : ConnectionLoop} {a : Action} (ha : SetsReading a)
    (h : step s a = .ok t) : t.conn.isReading = t.conn.channel.isReading := by
  cases a with
  | call a =>
    obtain ⟨c, hc, heq⟩ := bind_ok.mp h
    cases heq
    have hboth := call_sets ha hc
    exact hboth
  | _ => exact ha.elim

theorem step_undisturbed {s t : ConnectionLoop} {a : Action} (ha : ¬SetsReading a)
    (h : step s a = .ok t) : Undisturbed s.conn t.conn := by
  cases a with
  | call a =>
    obtain ⟨c, hc, heq⟩ := bind_ok.mp h
    cases heq
    exact settle_undisturbed _ (call_undisturbed ha hc)
  | poll active =>
    cases h
    exact undisturbed_of_state rfl rfl rfl
  | handleEvent r =>
    cases h
    exact undisturbed_of_state rfl rfl rfl
  | callback r w =>
    unfold step at h
    cases hh : s.handling with
    | nil =>
      simp only [hh] at h
      cases h
      exact undisturbed_of_state rfl rfl rfl
    | cons cb rest =>
      simp only [hh] at h
      obtain ⟨c, hc, heq⟩ := bind_ok.mp h
      cases heq
      exact settle_undisturbed _ (handleCallback_undisturbed hc)
  | fireDelayedClose =>
    cases h
    exact settle_undisturbed _ (forceClose_undisturbed s.conn)
  | swap =>
    cases h
    exact undisturbed_of_state rfl rfl rfl
  | runFunctor =>
    unfold step at h
    cases hf : s.functors with
    | nil =>
      simp only [hf] at h
      cases h
      exact undisturbed_of_state rfl rfl rfl
    | cons f functors =>
      simp only [hf] at h
      cases f with
      | forceCloseInLoop =>
        obtain ⟨c, hc, heq⟩ := bind_ok.mp h
        cases heq
        exact settle_undisturbed _ (forceCloseInLoop_undisturbed hc)
      | writeCompleteCallback =>
        cases h
        exact undisturbed_of_state rfl rfl rfl
      | highWaterMarkCallback size =>
        cases h
        exact undisturbed_of_state rfl rfl rfl
  | connectDestroyed =>
    obtain ⟨c, hc, heq⟩ := bind_ok.mp h
    cases heq
    exact settle_undisturbed s (connectDestroyed_undisturbed hc)

/-- While the connection is up, the two copies agree exactly if `p`. -/
def Agree (s : ConnectionLoop) (p : Prop) : Prop :=
  s.conn.Up → (s.conn.isReading = s.conn.channel.isReading ↔ p)

theorem agree_undisturbed {s t : ConnectionLoop} {p : Prop} (hs : s.Agree p)
    (h : Undisturbed s.conn t.conn) : t.Agree p := by
  intro hu
  obtain ⟨hup, hr, hi⟩ := h hu
  rw [TCPConnection.isReading, hr, hi]
  exact hs hup

theorem run_agree {s t : ConnectionLoop} {as : List Action} (p : Prop) (hs : s.Agree p)
    (h : run step s as = .ok t) : t.Agree (p ∨ ∃ a ∈ as, SetsReading a) := by
  induction as generalizing s p with
  | nil =>
    cases h
    intro hu
    simpa using hs hu
  | cons a as ih =>
    obtain ⟨s', hstep, hrun⟩ := run_cons_ok.mp h
    by_cases ha : SetsReading a
    · have hs' : s'.Agree True := fun _ => iff_true_intro (step_sets ha hstep)
      intro hu
      refine iff_of_true ((ih True hs' hrun hu).mpr (.inl trivial)) (.inr ⟨a, ?_, ha⟩)
      exact List.mem_cons_self
    · have ht := ih p (agree_undisturbed hs (step_undisturbed ha hstep)) hrun
      intro hu
      rw [ht hu, List.exists_mem_cons_iff]
      exact or_congr_right (or_iff_right ha).symm

theorem established_agree {sockfd mark : ℕ} {writeComplete highWater : Bool} {c : TCPConnection}
    (h : TCPConnection.construct sockfd writeComplete highWater mark >>=
      TCPConnection.connectEstablished = .ok c) : (established c).Agree False := by
  obtain ⟨c0, hc0, hc⟩ := bind_ok.mp h
  obtain ⟨input, -, hc0⟩ := bind_ok.mp hc0
  obtain ⟨output, -, hc0⟩ := bind_ok.mp hc0
  cases hc0
  obtain ⟨-, -, hc⟩ := bind_ok.mp hc
  cases hc
  intro _
  exact iff_of_false (fun h => nomatch h) id

/-- For every connection, from `connectEstablished` on, every run and every
state with the connection up: `isReading()` is the channel's interest exactly
if `startRead` or `stopRead` has been called. The two calls are idempotent and
inverse to each other on the interest in reading and keep the one in writing. -/
theorem reading_reported_iff (sockfd mark : ℕ) (writeComplete highWater : Bool)
    (c : TCPConnection) (as : List Action) (t : ConnectionLoop)
    (h : TCPConnection.construct sockfd writeComplete highWater mark >>=
      TCPConnection.connectEstablished = .ok c)
    (hr : run step (established c) as = .ok t) (hu : t.conn.Up) :
    (t.conn.isReading = t.conn.channel.isReading ↔ ∃ a ∈ as, SetsReading a) ∧
      ReadCalls t.conn := by
  refine ⟨?_, readCalls t.conn⟩
  have ht := run_agree False (established_agree h) hr hu
  rwa [false_or] at ht

def stopsReading : List Action :=
  [.call (.send .hi (.accepted 1)), .call .stopRead, .call .shutdown]

theorem reading_reported_stopped : ∃ c t,
    TCPConnection.construct 5 true false 64 >>= TCPConnection.connectEstablished = .ok c ∧
    run step (established c) stopsReading = .ok t ∧
    t.conn.isReading = t.conn.channel.isReading := by
  have hrun : ((fun c => (fun t => decide t.conn.Up) <$> run step (established c) stopsReading) <$>
      (construct 5 true false 64 >>= connectEstablished)) = .ok (.ok true) := by decide +kernel
  obtain ⟨c, hc, hp⟩ := map_ok.mp hrun
  obtain ⟨t, ht, hu⟩ := map_ok.mp hp
  have hread := (reading_reported_iff 5 64 true false c stopsReading t hc ht
    (of_decide_eq_true hu)).1
  exact ⟨c, t, hc, ht, hread.mpr ⟨.call .stopRead, by simp [stopsReading], trivial⟩⟩

/-- A connection that has just been established reads and says that it does not. -/
theorem reading_misreported :
    ¬∀ (c : TCPConnection) (as : List Action) (t : ConnectionLoop),
      TCPConnection.construct 5 true false 64 >>= TCPConnection.connectEstablished = .ok c →
      run step (established c) as = .ok t → t.conn.Up →
      t.conn.isReading = t.conn.channel.isReading := by
  intro h
  have hrun : ((fun c => (decide c.Up, c.isReading, c.channel.isReading)) <$>
      (construct 5 true false 64 >>= connectEstablished)) = .ok (true, false, true) := by
    decide +kernel
  obtain ⟨c, hc, hp⟩ := map_ok.mp hrun
  simp only [Prod.mk.injEq] at hp
  obtain ⟨hu, hr, hi⟩ := hp
  have heq : c.isReading = c.channel.isReading :=
    h c [] (established c) hc rfl (of_decide_eq_true hu)
  rw [hr, hi] at heq
  cases heq

end ConnectionLoop

end Lux.Polaris
