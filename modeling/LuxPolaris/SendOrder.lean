import LuxPolaris.SendInvariant

/-!
# Sending from several threads

As long as the connection stays up and the kernel reports none of the two
errors that make `sendInLoop` give a message up, the stream is the messages
given to `sendInLoop`, one whole message after the other, and each thread's
messages are among them in the thread's order.
-/

set_option autoImplicit false

namespace Lux.Polaris.ConnectionThreads
open Outcome OutputStream TCPConnection
variable {τ : Type}

/-- A write result other than the errors after which a message is given up. -/
def Retried (w : WriteResult) : Prop := w ≠ .failed EPIPE ∧ w ≠ .failed ECONNRESET

def Faultless : ThreadAction τ → Prop
  | .sendOnLoop _ w => Retried w
  | .runFunctor w => Retried w
  | .handle (.handleWrite w) => Retried w
  | _ => True

instance (w : WriteResult) : Decidable (Retried w) := inferInstanceAs (Decidable (_ ∧ _))

instance : (a : ThreadAction τ) → Decidable (Faultless a)
  | .sendOnLoop _ w => inferInstanceAs (Decidable (Retried w))
  | .runFunctor w => inferInstanceAs (Decidable (Retried w))
  | .handle (.handleWrite w) => inferInstanceAs (Decidable (Retried w))
  | .handle (.handleRead _) => isTrue trivial
  | .handle .handleClose => isTrue trivial
  | .handle .handleError => isTrue trivial
  | .handle .startRead => isTrue trivial
  | .handle .stopRead => isTrue trivial
  | .handle (.takeInput _) => isTrue trivial
  | .handle (.sendInLoop _ _) => isTrue trivial
  | .handle (.send _ _) => isTrue trivial
  | .handle .shutdown => isTrue trivial
  | .handle .forceClose => isTrue trivial
  | .handle (.forceCloseWithDelay _) => isTrue trivial
  | .handle .forceCloseInLoop => isTrue trivial
  | .send _ _ => isTrue trivial
  | .queueSend _ => isTrue trivial
  | .testShutdown => isTrue trivial
  | .storeShutdown => isTrue trivial
  | .queueShutdown => isTrue trivial
  | .shutdownOnLoop => isTrue trivial
  | .swap => isTrue trivial

theorem not_dropped {c : TCPConnection} {w : WriteResult} (h : Retried w) : ¬Dropped c w :=
  fun hd => hd.2.elim h.1 h.2

variable [DecidableEq τ]

theorem step_connected {s s' : ConnectionThreads τ} {a : ThreadAction τ} (hi : s.Holds [])
    (he : s.Enabled a) (hf : Faultless a) (hst : s.conn.state = .kConnected)
    (hs : step s a = .ok s') (hst' : s'.conn.state = .kConnected) : s'.Holds [] := by
  have hu : s.Undisturbed a := by
    cases a with
    | sendOnLoop m w => exact fun _ hd => absurd hd (not_dropped hf)
    | runFunctor w => exact fun _ _ _ hd => absurd hd (not_dropped hf)
    | handle a =>
      intro hcl
      obtain ⟨c, hc, heq⟩ := bind_ok.mp hs
      cases heq
      exact nomatch hst'.symm.trans (closing_cases hi.output hcl hc).1
    | _ => trivial
  have ho : s.InOrder a := by
    intro hh
    cases a with
    | shutdownOnLoop =>
      cases hs
      have heq : s.conn.shutdown = (s.conn.setState .kDisconnecting).shutdownInLoop := if_pos hst
      have hkeep : (s.conn.setState .kDisconnecting).shutdownInLoop.state = .kDisconnecting := by
        unfold shutdownInLoop
        split_ifs <;> rfl
      rw [heq] at hst'
      exact nomatch hst'.symm.trans hkeep
    | handle a =>
      cases a with
      | handleWrite w => exact nomatch hst.symm.trans (Drains.state hh)
      | _ => exact hh.elim
    | runFunctor w =>
      obtain ⟨⟨f, hm, hn⟩, -⟩ := hh
      have hq : s.ShutdownQueued := ⟨f, List.mem_append_left _ (List.mem_of_mem_head? hm), hn⟩
      exact absurd hst (hi.late (Or.inr (hi.tasks hq)))
    | _ => exact hh.elim
  exact (step_yields hi he hu ho).ok hs

theorem run_connected {s t : ConnectionThreads τ} {as : List (ThreadAction τ)} (hi : s.Holds [])
    (ha : Admitted step Enabled s as) (hf : ∀ a ∈ as, Faultless a)
    (hk : Admitted step (fun s _ => s.conn.state = .kConnected) s as)
    (hr : run step s as = .ok t) (ht : t.conn.state = .kConnected) : t.Holds [] := by
  induction as generalizing s with
  | nil =>
    cases hr
    exact hi
  | cons a as ih =>
    obtain ⟨s', hs, hr'⟩ := run_cons_ok.mp hr
    have hst' : s'.conn.state = .kConnected := by
      cases as with
      | nil =>
        cases hr'
        exact ht
      | cons b bs => exact (hk.2 s' hs).1
    have hi' := step_connected hi ha.1 (hf a List.mem_cons_self) hk.1 hs hst'
    exact ih hi' (ha.2 s' hs) (fun b hb => hf b (List.mem_cons_of_mem a hb)) (hk.2 s' hs) hr'

def threeSenders : List (ThreadAction Bool) :=
  [.send true (.buffer ⟨[0,0,0,0,0,0,0,0,72,105], 8, 10⟩
      ⟨by decide, by decide, by decide, by decide⟩),
    .sendOnLoop (.piece .bang) (.accepted 0), .send false (.data ⟨[63], by decide⟩),
    .queueSend true, .queueSend false, .swap, .runFunctor (.failed 11),
    .handle (.handleWrite (.accepted 2)), .runFunctor (.accepted 1)]

end Lux.Polaris.ConnectionThreads
