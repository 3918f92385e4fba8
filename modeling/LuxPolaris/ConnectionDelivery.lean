import LuxPolaris.ConnectionPair

/-!
# Delivery between two connections

What one end has sent needs a bounded number of write events and read events
to arrive: every write event that moves bytes and every read that finds some
pays for itself, whatever else happens in between, and while something is
outstanding one of the two is possible.
-/

set_option autoImplicit false

namespace Lux.Polaris.ConnectionPair
open Outcome Buffer TCPConnection OutputStream InputStream

def pending (s : Side) (p : Pair) : ℕ :=
  2*(p s.other).conn.outputBuffer.contents.length + (inFlight (p s.other) (p s)).length

def productive (s : Side) (p : Pair) : Side × Call → Bool
  | (t, .handleWrite (.accepted k)) =>
    decide (t = s.other) && decide (0 < k) && (p t).conn.channel.isWriting
  | (t, .handleRead (.read bytes)) => decide (t = s) && decide (bytes ≠ [])
  | _ => false

def work (s : Side) (p : Pair) (a : Side × Call) : ℕ := (productive s p a).toNat

section Writing
variable {c c' : TCPConnection}

theorem handleWrite_grows (hi : OutputInv c) {k : ℕ} (hk : 0 < k)
    (hw : c.channel.isWriting = true) (h : c.handleWrite (.accepted k) = .ok c') :
    c.socket.wire.length < c'.socket.wire.length := by
  have hup : c.state ≠ .kDisconnected := by
    intro hd
    simp [hi.off hd] at hw
  have hne := List.length_pos_iff.mpr ((hi.interest hup).mp hw)
  have hdata := toStringPiece_spec hi.output
  rcases handleWrite_cases h with ⟨-, hzero⟩ | ⟨-, data, k', output, hk', hd, hpos, -, hc⟩
  · have := hzero hw k _ rfl hdata
    omega
  · cases hk'
    cases hdata.symm.trans hd
    have hwire : c'.socket.wire =
        c.socket.wire ++ c.outputBuffer.contents.take (min k c.outputBuffer.contents.length) := by
      rcases hc with ⟨-, rfl⟩ | ⟨-, fs, d, rfl, rfl⟩
      · rfl
      · split_ifs
        · rfl
        · rfl
    rw [hwire, List.length_append, List.length_take]
    omega

end Writing

namespace Endpoint
variable {e e' : Endpoint}

theorem step_moves (hi : e.Inv) {a : Call} (h : e.step a = .ok e')
    (hup : e'.conn.state ≠ .kDisconnected) (hs : e'.sent = e.sent) :
    e.wire.length ≤ e'.wire.length ∧
    e'.wire.length + e'.conn.outputBuffer.contents.length =
      e.wire.length + e.conn.outputBuffer.contents.length := by
  obtain ⟨c, hc, rfl⟩ := step_ok h
  have hm := (call_moves hi.output a).ok hc
  have hkept : keptBy e.conn a = [] := List.append_right_eq_self.mp hs
  have hst := congrArg List.length (hm.stream_eq hup)
  rw [hkept, List.append_nil, stream, stream, List.length_append, List.length_append] at hst
  exact ⟨(call_extends hi.output hc).wire.length_le, hst⟩

theorem step_sent {a : Call} (h : e.step a = .ok e') : e.sent <+: e'.sent := by
  obtain ⟨c, -, rfl⟩ := step_ok h
  exact List.prefix_append _ _

theorem step_up (hi : e.Inv) {a : Call} (h : e.step a = .ok e')
    (hup : e'.conn.state ≠ .kDisconnected) : e.conn.state ≠ .kDisconnected := by
  obtain ⟨c, hc, rfl⟩ := step_ok h
  exact ((call_moves hi.output a).ok hc).up hup

end Endpoint

section Step
variable {s : Side} {p p' : Pair}

theorem productive_reader {a : Call} (h : productive s p (s, a) = true) :
    ∃ bytes, a = .handleRead (.read bytes) ∧ bytes ≠ [] := by
  cases a with
  | handleRead r =>
    cases r with
    | read bytes => exact ⟨bytes, rfl, by simpa [productive] using h⟩
    | failed errno => cases h
  | handleWrite w =>
    cases w with
    | accepted k => simp [productive, (Side.other_ne s).symm] at h
    | failed errno => cases h
  | _ => cases h

theorem productive_writer {a : Call} (h : productive s p (s.other, a) = true) :
    ∃ k, a = .handleWrite (.accepted k) ∧ 0 < k ∧
      (p s.other).conn.channel.isWriting = true := by
  cases a with
  | handleRead r =>
    cases r with
    | read bytes => simp [productive] at h
    | failed errno => cases h
  | handleWrite w =>
    cases w with
    | accepted k =>
      simp only [productive, decide_true, Bool.true_and, Bool.and_eq_true, decide_eq_true_eq] at h
      exact ⟨k, rfl, h.1, h.2⟩
    | failed errno => cases h
  | _ => cases h

theorem length_inFlight (q e : Endpoint) :
    (inFlight q e).length = q.wire.length-e.delivered.length := List.length_drop

theorem reader_pending {e : Endpoint} {a : Call} (h : (p s).step a = .ok e)
    (hc : Endpoint.Carries (p s.other) e) :
    (inFlight (p s.other) e).length + work s p (s, a) ≤ (inFlight (p s.other) (p s)).length := by
  obtain ⟨c, -, rfl⟩ := Endpoint.step_ok h
  have hle := hc.delivered_in_wire.length_le
  rw [length_inFlight, length_inFlight, List.length_append]
  rw [List.length_append] at hle
  unfold work
  cases hw : productive s p (s, a) with
  | false =>
    rw [Bool.toNat_false]
    omega
  | true =>
    obtain ⟨bytes, rfl, hne⟩ := productive_reader hw
    have hpos : 0 < ((p s).conn.inputBuffer.received (.read bytes)).length :=
      length_take_iovLength_pos _ hne
    rw [← Endpoint.chunksOf_read] at hpos
    rw [Bool.toNat_true]
    omega

theorem writer_pending {e : Endpoint} {a : Call} (hi : (p s.other).Inv)
    (h : (p s.other).step a = .ok e) (hup : e.conn.state ≠ .kDisconnected)
    (hs : e.sent = (p s.other).sent) (hd : (p s).delivered.length ≤ (p s.other).wire.length) :
    2*e.conn.outputBuffer.contents.length + (inFlight e (p s)).length +
      work s p (s.other, a) ≤ pending s p := by
  obtain ⟨hgrow, hmoved⟩ := Endpoint.step_moves hi h hup hs
  rw [pending, length_inFlight, length_inFlight]
  unfold work
  cases hw : productive s p (s.other, a) with
  | false =>
    rw [Bool.toNat_false]
    omega
  | true =>
    obtain ⟨k, rfl, hk, hwr⟩ := productive_writer hw
    obtain ⟨c, hc, he⟩ := Endpoint.step_ok h
    have hlt : (p s.other).wire.length < e.wire.length := by
      rw [he]
      exact handleWrite_grows hi.output hk hwr hc
    rw [Bool.toNat_true]
    omega

theorem step_pending {a : Side × Call} (hi : Inv p) (hk : Kernel p a) (h : step p a = .ok p')
    (hup : (p' s.other).conn.state ≠ .kDisconnected)
    (hs : (p' s.other).sent = (p s.other).sent) :
    (p s.other).conn.state ≠ .kDisconnected ∧ pending s p' + work s p a ≤ pending s p := by
  have hcar := ((step_inv hi hk).ok h).carries s
  obtain ⟨t, call⟩ := a
  obtain ⟨e, he, heq⟩ := bind_ok.mp h
  cases heq
  rcases Side.eq_or s t with rfl | rfl
  · have hne : (t.other : Side) ≠ t := Side.other_ne t
    simp only [Function.update_self, Function.update_of_ne hne] at hup hs hcar
    have hr : (inFlight (p t.other) e).length + work t p (t, call) ≤
      (inFlight (p t.other) (p t)).length := reader_pending he hcar
    refine ⟨hup, ?_⟩
    simp only [pending, Function.update_self, Function.update_of_ne hne]
    omega
  · have hne : s ≠ s.other := (Side.other_ne s).symm
    simp only [Function.update_self, Function.update_of_ne hne] at hup hs hcar
    have hself := hi.ends s.other
    refine ⟨Endpoint.step_up hself he hup, ?_⟩
    have hw := writer_pending hself he hup hs (hi.carries s).delivered_in_wire.length_le
    simpa only [pending, Function.update_self, Function.update_of_ne hne] using hw

theorem step_sent {a : Side × Call} (h : step p a = .ok p') : (p s).sent <+: (p' s).sent := by
  obtain ⟨t, call⟩ := a
  obtain ⟨e, he, heq⟩ := bind_ok.mp h
  cases heq
  rcases Side.eq_or s t with rfl | rfl
  · simpa using Endpoint.step_sent he
  · exact (Function.update_of_ne (Side.other_ne s).symm e p).symm ▸ List.prefix_refl _

end Step

theorem read_possible {s : Side} {p : Pair} (hi : Inv p)
    (hne : inFlight (p s.other) (p s) ≠ []) :
    Kernel p (s, .handleRead (.read (inFlight (p s.other) (p s)))) ∧
      Yields (step p (s, .handleRead (.read (inFlight (p s.other) (p s))))) (fun _ => True)
        (· = .lengthError) := by
  refine ⟨⟨nofun, fun bytes hb => ?_⟩, ?_⟩
  · cases hb
    rw [Delivers, if_neg hne]
    obtain ⟨rest, hrest⟩ := (hi.carries s).delivered_in_wire
    rw [inFlight, ← hrest, List.drop_left, received, List.prefix_append_right_inj]
    exact List.take_prefix _ _
  · simp only [step, Endpoint.step, yields_bind]
    have hr := handleRead_keeps (hi.ends s).output (r := .read (inFlight (p s.other) (p s)))
      (fun h => hne (ReadResult.read.inj h))
    exact hr.imp fun c _ => (yields_pure _ _ _).mpr ((yields_pure _ _ _).mpr trivial)

theorem write_possible {s : Side} {p : Pair} (hi : Inv p)
    (hne : (p s).conn.outputBuffer.contents ≠ []) :
    Kernel p (s, .handleWrite (.accepted 1)) ∧
      Yields (step p (s, .handleWrite (.accepted 1))) (fun _ => True) (· = .lengthError) := by
  have hself := hi.ends s
  refine ⟨⟨fun w _ hs => absurd (hself.shut hs).1 hne, nofun⟩, ?_⟩
  simp only [step, Endpoint.step, yields_bind]
  exact (handleWrite_moves hself.output (.accepted 1)).mono
    (fun c _ => (yields_pure _ _ _).mpr ((yields_pure _ _ _).mpr trivial)) (fun _ h => h.elim)

/-- While something is outstanding, a write event or a read event that moves it
is possible, and fails for want of memory alone. -/
theorem productive_possible {s : Side} {p : Pair} (hi : Inv p)
    (hup : (p s.other).conn.state ≠ .kDisconnected) (hp : 0 < pending s p) :
    ∃ a, Kernel p a ∧ productive s p a = true ∧
      Yields (step p a) (fun _ => True) (· = .lengthError) := by
  have hpeer := hi.ends s.other
  by_cases ho : (p s.other).conn.outputBuffer.contents = []
  · have hfl : inFlight (p s.other) (p s) ≠ [] := by
      intro hnil
      rw [pending, ho, hnil] at hp
      exact absurd hp (by decide)
    obtain ⟨hk, hy⟩ := read_possible hi hfl
    exact ⟨_, hk, by simp [productive, hfl], hy⟩
  · obtain ⟨hk, hy⟩ := write_possible hi ho
    exact ⟨_, hk, by simp [productive, (hpeer.output.interest hup).mpr ho], hy⟩

theorem pending_eq_zero_iff {s : Side} {p : Pair} (hi : Inv p)
    (hup : (p s.other).conn.state ≠ .kDisconnected) :
    pending s p = 0 ↔ (p s).got = (p s.other).sent := by
  have hsent := (hi.ends s.other).up hup
  have hle := (hi.carries s).delivered_in_wire.length_le
  rw [(hi.ends s).got_eq, pending, length_inFlight]
  constructor
  · intro h
    have hnil : (p s.other).conn.outputBuffer.contents = [] :=
      List.eq_nil_of_length_eq_zero (by omega)
    rw [← hsent, stream, hnil, List.append_nil]
    exact (hi.carries s).delivered_in_wire.eq_of_length_le (by omega)
  · intro h
    have hlen := congrArg List.length (hsent.trans h.symm)
    rw [stream, List.length_append] at hlen
    change (p s.other).wire.length + _ = _ at hlen
    omega

def threeEvents : List (Side × Call) := [
  (.server, .handleRead (.read [72])),
  (.client, .handleWrite (.accepted 1)),
  (.server, .handleRead (.read [105]))]

end Lux.Polaris.ConnectionPair
