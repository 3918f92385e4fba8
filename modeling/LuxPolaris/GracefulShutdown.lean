import LuxPolaris.SendInvariant

/-!
# Graceful shutdown

A message that `send` has accepted is with the kernel before
`shutdownWrite()`, if the message is out of the queue by then. A
`shutdown()` on the loop thread passes by the messages that other threads
have queued, and so does a write event that empties the output buffer after
`shutdown()` has stored its state.
-/

set_option autoImplicit false

namespace Lux.Polaris.ConnectionThreads
open Outcome OutputStream TCPConnection
variable {τ : Type} [DecidableEq τ]

/-- After a `shutdownWrite()` the kernel has every message whole, and nothing
more is written. -/
def Graceful (s : ConnectionThreads τ) : Prop :=
  (s.conn.socket.shutdowns ≠ [] → s.delivered.Perm s.accepted ∧
    s.conn.socket.wire = (s.delivered.map Sent.bytes).flatten) ∧
  s.lateWrites = 0

theorem holds_graceful {s : ConnectionThreads τ} (hi : s.Holds []) : s.Graceful := by
  refine ⟨fun hn => ?_, hi.onTime⟩
  have hover := (hi.half hn).1
  have hx : ∀ x, s.sending x = none := by
    refine hi.quiet (fun hc => ?_)
    exact hn (hi.early (Or.inl hc)).2
  exact ⟨delivered_perm hi hover.queued hx, hover.wire⟩

theorem not_perm_of_queued {s : ConnectionThreads τ} (hi : s.Holds []) (hq : s.queued ≠ []) :
    ¬s.delivered.Perm s.accepted := by
  intro hp
  obtain ⟨m, hm⟩ := List.exists_mem_of_ne_nil _ hq
  have hlen := (hp.filter (·.sender = m.sender)).length_eq
  have hmem : m ∈ s.queued.filter (·.sender = m.sender) :=
    List.mem_filter.mpr ⟨hm, decide_eq_true rfl⟩
  have hpos := List.length_pos_iff.mpr (List.ne_nil_of_mem hmem)
  rw [hi.ledger m.sender] at hlen
  simp only [List.filter_append, List.length_append] at hlen
  omega

theorem step_hasty {s : ConnectionThreads τ} {a : ThreadAction τ} (hi : s.Holds [])
    (ho : ¬s.InOrder a) : ¬Yields (step s a) Graceful (fun _ => True) := by
  obtain ⟨hh, hq⟩ : s.HalfCloses a ∧ s.queued ≠ [] := by
    by_contra hn
    exact ho (fun hh => by_contra (fun hq => hn ⟨hh, hq⟩))
  have hnp := not_perm_of_queued hi hq
  have hwrite : ∀ c : TCPConnection, c.channel.isWriting = false →
      c.shutdownInLoop.socket.shutdowns ≠ [] := by
    intro c hw
    rw [shutdownInLoop, if_neg (by simp [hw])]
    simp [shutdownWrite]
  cases a with
  | shutdownOnLoop =>
    intro h
    have heq : s.conn.shutdown = (s.conn.setState .kDisconnecting).shutdownInLoop := if_pos hh.1
    have hg := ((yields_ok _ _ _).mp h).1
    rw [heq] at hg
    exact hnp (hg (hwrite _ hh.2)).1
  | handle a =>
    cases a with
    | handleWrite w =>
      intro h
      cases hc : s.conn.handleWrite w with
      | error e => exact ((handleWrite_moves hi.output w).error hc).elim
      | ok c =>
        rw [step, call, hc] at h
        have hg := ((yields_ok _ _ _).mp h).1
        rcases (handleWrite_shutdowns hi.output hc).2 with ⟨-, hn, -⟩ | ⟨hnd, -⟩
        · exact hnp (hg hn).1
        · exact hnd hh
    | _ => exact hh.elim
  | runFunctor w =>
    intro h
    obtain ⟨⟨f, hf, hs⟩, hw⟩ := hh
    cases hfs : s.functors with
    | nil => simp [hfs] at hf
    | cons g functors =>
      simp only [hfs, List.head?_cons, Option.mem_def, Option.some.injEq] at hf
      subst hf
      cases g with
      | sendInLoop x message => cases hs
      | shutdownInLoop =>
        rw [step, hfs] at h
        exact hnp (((yields_ok _ _ _).mp h).1 (hwrite _ hw)).1
  | _ => exact hh.elim

/-- A `shutdown()` after the calls of `send` have returned. While nothing takes
a message away by other means, every accepted message is with the kernel before
`shutdownWrite()` and nothing is written after it, in exactly the runs that call
`shutdownWrite()` with no message in the queue. -/
theorem graceful_shutdown (sockfd mark : ℕ) (writeComplete highWater : Bool) (c : TCPConnection)
    (as : List (ThreadAction τ))
    (h : TCPConnection.construct sockfd writeComplete highWater mark >>= connectEstablished =
      .ok c)
    (ha : Admitted step Enabled (established c) as)
    (hu : Admitted step Undisturbed (established c) as) :
    Throughout step Graceful (fun _ => True) (established c) as ↔
      Admitted step InOrder (established c) as :=
  throughout_iff (fun s a => Enabled s a ∧ Undisturbed s a) InOrder (fun _ => holds_graceful)
    (fun _ _ hi hc ho => step_yields hi hc.1 hc.2 ho) (fun _ _ hi _ ho => step_hasty hi ho) as _
    (established_of h) (admitted_and ha hu)

def twoSenders : List (ThreadAction Bool) :=
  [.send true (.data .hi), .send false (.piece .bang),
    .queueSend false, .queueSend true, .testShutdown, .storeShutdown, .swap,
    .runFunctor (.accepted 0), .queueShutdown, .runFunctor (.accepted 1),
    .handle (.handleWrite (.accepted 2)), .swap, .runFunctor (.accepted 0),
    .handle (.handleWrite (.accepted 9))]

theorem graceful_shutdown_pieces : ∃ c,
    TCPConnection.construct 5 true false 64 >>= connectEstablished = .ok c ∧
    Throughout step Graceful (fun _ => True) (established c) twoSenders := by
  have hrun : ((fun c => decide (Admitted step Enabled (established c) twoSenders ∧
      Admitted step Undisturbed (established c) twoSenders ∧
      Admitted step InOrder (established c) twoSenders)) <$>
        (construct 5 true false 64 >>= connectEstablished)) = .ok true := by decide +kernel
  obtain ⟨c, hc, hd⟩ := map_ok.mp hrun
  obtain ⟨ha, hu, ho⟩ := of_decide_eq_true hd
  exact ⟨c, hc, (graceful_shutdown 5 64 true false c twoSenders hc ha hu).mpr ho⟩

def sentThenShutdown : List (ThreadAction Bool) :=
  [.send true (.data .hi), .queueSend true, .shutdownOnLoop]

theorem shutdown_overtakes : ¬∀ (c : TCPConnection) (as : List (ThreadAction Bool)),
    TCPConnection.construct 5 true false 64 >>= connectEstablished = .ok c →
    Admitted step Enabled (established c) as →
    Throughout step Graceful (fun _ => True) (established c) as := by
  intro h
  have hrun : ((fun c => (decide (Admitted step Enabled (established c) sentThenShutdown),
      (fun s => (s.conn.socket.shutdowns, s.delivered.length, s.accepted.length)) <$>
        run step (established c) sentThenShutdown)) <$>
        (construct 5 true false 64 >>= connectEstablished)) =
      .ok (true, .ok ([[]], 0, 1)) := by decide +kernel
  obtain ⟨c, hc, hp⟩ := map_ok.mp hrun
  obtain ⟨s, hs, hp'⟩ := map_ok.mp (congrArg Prod.snd hp)
  have hy := h c sentThenShutdown hc (of_decide_eq_true (congrArg Prod.fst hp)) _ List.prefix_rfl
  simp only [Prod.mk.injEq] at hp'
  obtain ⟨hsh, hdel, hacc⟩ := hp'
  have hlen := ((hy.ok hs).1 (by simp [hsh])).1.length_eq
  omega

end Lux.Polaris.ConnectionThreads
