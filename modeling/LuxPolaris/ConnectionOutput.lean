import LuxPolaris.ConnectionStates
import LuxPolaris.ConnectionThreads

/-!
# What the handlers do to the output

Sending, closing and reading leave the half-closes of the socket as they are.
A write event adds one exactly when it empties the output buffer of a
disconnecting connection.
-/

set_option autoImplicit false

namespace Lux.Polaris

namespace TCPConnection
open Outcome OutputStream

theorem sendInLoop_frame {c c' : TCPConnection} {message : Message} {w : WriteResult}
    (h : c.sendInLoop message w = .ok c') :
    c'.state = c.state ∧ c'.socket.shutdowns = c.socket.shutdowns := by
  rcases sendInLoop_cases h with ⟨-, rfl⟩ | ⟨-, fs, nwrote, rfl | hc⟩
  · exact ⟨rfl, rfl⟩
  · exact ⟨rfl, rfl⟩
  · obtain ⟨gs, output, -, rfl⟩ := bufferRemaining_cases hc
    exact ⟨rfl, rfl⟩

def Closing : Call → Prop
  | .handleClose => True
  | .handleRead r => r = .read []
  | _ => False

instance : (a : Call) → Decidable (Closing a)
  | .handleClose => isTrue trivial
  | .handleRead _ => inferInstanceAs (Decidable (_ = _))
  | .handleWrite _ => isFalse not_false
  | .handleError => isFalse not_false
  | .startRead => isFalse not_false
  | .stopRead => isFalse not_false
  | .takeInput _ => isFalse not_false
  | .sendInLoop _ _ => isFalse not_false
  | .send _ _ => isFalse not_false
  | .shutdown => isFalse not_false
  | .forceClose => isFalse not_false
  | .forceCloseWithDelay _ => isFalse not_false
  | .forceCloseInLoop => isFalse not_false

def SameOutput (c c' : TCPConnection) : Prop :=
  c'.socket = c.socket ∧ c'.outputBuffer = c.outputBuffer

theorem handleClose_cases {c c' : TCPConnection} (h : c.handleClose = .ok c') :
    c'.state = .kDisconnected ∧ SameOutput c c' := by
  obtain ⟨u, -, heq⟩ := bind_ok.mp h
  cases heq
  exact ⟨rfl, rfl, rfl⟩

theorem closing_cases {c c' : TCPConnection} (hi : OutputInv c) {a : Call} (ha : Closing a)
    (h : c.call a = .ok c') : c'.state = .kDisconnected ∧ SameOutput c c' := by
  cases a with
  | handleClose => exact handleClose_cases h
  | handleRead r =>
    cases ha
    obtain ⟨input, -, heq⟩ := handleRead_nil hi
    rw [call, heq] at h
    obtain ⟨hst, hso, hou⟩ := handleClose_cases h
    exact ⟨hst, hso, hou⟩
  | _ => exact ha.elim

theorem handleRead_same {c c' : TCPConnection} (hi : OutputInv c) {r : Buffer.ReadResult}
    (hr : r ≠ .read []) (h : c.handleRead r = .ok c') : c'.state = c.state ∧ SameOutput c c' := by
  have hn := (handleRead_keeps hi hr).ok h
  obtain ⟨⟨n, input⟩, -, heq⟩ := bind_ok.mp h
  cases n with
  | error errno =>
    cases heq
    exact ⟨rfl, rfl, rfl⟩
  | ok n =>
    by_cases hpos : n > 0
    · simp only [hpos, if_true] at heq
      cases heq
      exact ⟨rfl, rfl, rfl⟩
    · -- a close would not be quiet
      simp only [hpos, if_false] at heq
      obtain ⟨es, he, hq⟩ := hn.quiet
      have hc := (handleClose_closes heq).effects
      rw [he] at hc
      have hes := List.append_cancel_left hc
      have hquiet : Quiet (.connectionCallback false) := by
        apply hq
        rw [hes]
        exact List.mem_cons_self
      exact hquiet.elim

theorem handler_cases {c c' : TCPConnection} (hi : OutputInv c) {a : Call}
    (ha : ConnectionThreads.IsHandler a) (hw : ∀ w, a ≠ .handleWrite w) (h : c.call a = .ok c') :
    Closing a ∧ c'.state = .kDisconnected ∧ SameOutput c c' ∨
    c'.state = c.state ∧ SameOutput c c' := by
  by_cases hc : Closing a
  · exact Or.inl ⟨hc, closing_cases hi hc h⟩
  cases a with
  | handleRead r => exact Or.inr (handleRead_same hi hc h)
  | handleWrite w => exact absurd rfl (hw w)
  | handleClose => exact absurd trivial hc
  | handleError =>
    cases h
    exact Or.inr ⟨rfl, rfl, rfl⟩
  | startRead =>
    cases h
    unfold startReadInLoop
    split_ifs
    · exact Or.inr ⟨rfl, rfl, rfl⟩
    · exact Or.inr ⟨rfl, rfl, rfl⟩
  | stopRead =>
    cases h
    unfold stopReadInLoop
    split_ifs
    · exact Or.inr ⟨rfl, rfl, rfl⟩
    · exact Or.inr ⟨rfl, rfl, rfl⟩
  | takeInput len =>
    obtain ⟨input, -, heq⟩ := bind_ok.mp h
    cases heq
    exact Or.inr ⟨rfl, rfl, rfl⟩
  | sendInLoop _ _ => exact ha.elim
  | send _ _ => exact ha.elim
  | shutdown => exact ha.elim
  | forceClose => exact ha.elim
  | forceCloseWithDelay _ => exact ha.elim
  | forceCloseInLoop => exact ha.elim

def Drains (c : TCPConnection) : WriteResult → Prop
  | .accepted k => c.state = .kDisconnecting ∧ c.channel.isWriting = true ∧
      c.outputBuffer.readableBytes ≤ k
  | .failed _ => False

instance (c : TCPConnection) : (w : WriteResult) → Decidable (Drains c w)
  | .accepted _ => inferInstanceAs (Decidable (_ ∧ _ ∧ _))
  | .failed _ => isFalse not_false

theorem Drains.state {c : TCPConnection} {w : WriteResult} (h : Drains c w) :
    c.state = .kDisconnecting := by
  cases w with
  | accepted k => exact h.1
  | failed errno => exact h.elim

theorem handleWrite_shutdowns {c c' : TCPConnection} (hi : OutputInv c) {w : WriteResult}
    (h : c.handleWrite w = .ok c') : c'.state = c.state ∧
      (Drains c w ∧ c'.socket.shutdowns ≠ [] ∧ c'.outputBuffer.contents = [] ∨
       ¬Drains c w ∧ c'.socket.shutdowns = c.socket.shutdowns) := by
  have hdata := Buffer.toStringPiece_spec hi.output
  have hlen := Buffer.length_contents hi.output
  rcases handleWrite_cases h with ⟨rfl, hzero⟩ | ⟨hw, data, k, output, rfl, hd, hpos, hout, hc⟩
  · refine ⟨rfl, Or.inr ⟨fun hdr => ?_, rfl⟩⟩
    -- write interest means that there is something to write
    cases w with
    | failed errno => exact hdr
    | accepted k =>
      obtain ⟨hst, hw, hle⟩ := hdr
      have hup : c'.state ≠ .kDisconnected := by simp [hst]
      have hne := List.length_pos_iff.mpr ((hi.interest hup).mp hw)
      have hmin := hzero hw k _ rfl hdata
      omega
  · cases hdata.symm.trans hd
    have hmin : min k c.outputBuffer.contents.length ≤ c.outputBuffer.readableBytes := by
      rw [hlen]
      exact Nat.min_le_right _ _
    obtain ⟨b, hb, hv, hcont, -⟩ := Buffer.retrieve_spec hi.output hmin
    cases hout.symm.trans hb
    have hrest : output.readableBytes = c.outputBuffer.readableBytes-
        min k c.outputBuffer.contents.length := by
      rw [← Buffer.length_contents hv, hcont, List.length_drop, hlen]
    rcases hc with ⟨hz, rfl⟩ | ⟨hz, fs, d, rfl, rfl⟩
    · refine ⟨rfl, Or.inr ⟨fun ⟨_, _, hle⟩ => hz ?_, rfl⟩⟩
      omega
    · by_cases hst : c.state = .kDisconnecting
      · rw [if_pos hst]
        refine ⟨rfl, Or.inl ⟨⟨hst, hw, by omega⟩, ?_, ?_⟩⟩
        · simp [shutdownWrite]
        · exact (contents_eq_nil_iff hv).mpr hz
      · rw [if_neg hst]
        exact ⟨rfl, Or.inr ⟨fun hdr => hst hdr.1, rfl⟩⟩

end TCPConnection

end Lux.Polaris
