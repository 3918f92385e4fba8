import LuxPolaris.ServerSteps

/-!
# The lifecycle of a server's connections

A server announces each connection once and takes leave of it once, with no
assertion failing, exactly in the runs whose steps are all of the use that the
server is made for.
-/

set_option autoImplicit false

namespace Lux.Polaris.TCPServer
open Outcome OutputStream TCPConnection

section Runs

def accepted (s : TCPServer) (c : TCPConnection) : TCPServer :=
  { s with
    nextConnId := s.nextConnId+1
    connections := s.connections ++ [s.nextConnId] }.put s.nextConnId ⟨c, [], false⟩

theorem lt_of_referenced {s : TCPServer} (hi : s.Inv) {j : ℕ} (h : s.Referenced j) :
    j < s.nextConnId := by
  obtain ⟨x, hx, -⟩ := allocated_iff.mp (hi.held j h)
  exact (hi.good j x hx).2

theorem accepted_books {s : TCPServer} (hi : s.Inv) (hn : s.closing = none) (hph : s.phase = .alive)
    (c : TCPConnection) : (s.accepted c).Books := by
  have hfresh : s.nextConnId ∉ s.connections :=
    fun h => Nat.lt_irrefl _ (lt_of_referenced hi (Or.inl h))
  refine {
    hi.toBooks with
    held := ?_, nodup := ?_, closing := fun j h => (by cases hn.symm.trans h), leaving := ?_
    close_served := ?_, unhandled := ?_, emptied := ?_ }
  · intro j h
    refine put_allocated rfl rfl ?_
    rcases h with h | h | h
    · rcases List.mem_append.mp h with h | h
      · exact Or.inr (hi.held j (Or.inl h))
      · exact Or.inl (List.mem_singleton.mp h)
    · exact Or.inr (hi.held j (Or.inr (Or.inl h)))
    · exact Or.inr (hi.held j (Or.inr (Or.inr h)))
  · refine List.nodup_append.mpr ⟨hi.nodup, List.pairwise_singleton _ _, fun j h k hk => ?_⟩
    rw [List.mem_singleton.mp hk]
    exact fun hj => hfresh (hj ▸ h)
  · intro j h
    have hlt := lt_of_referenced hi (Or.inr (Or.inl
      (List.mem_map_of_mem (f := ServerFunctor.conn) h)))
    obtain ⟨h₁, h₂⟩ := hi.leaving j h
    refine ⟨fun hm => ?_, h₂⟩
    rcases List.mem_append.mp hm with hm | hm
    · exact h₁ hm
    · exact absurd hlt (by simp [List.mem_singleton.mp hm, ServerFunctor.conn])
  · intro p hp hcb
    obtain ⟨h₁, h₂⟩ := hi.close_served p hp hcb
    exact ⟨h₁, List.mem_append_left _ h₂⟩
  · intro j h
    obtain ⟨h₁, h₂⟩ := hi.unhandled j h
    exact ⟨List.mem_append_left _ h₁, h₂⟩
  · exact fun h => by cases hph.symm.trans h

theorem newConnection_yields {s : TCPServer} (hi : s.Inv) {sockfd mark : ℕ}
    {writeComplete highWater : Bool}
    (he : s.Enabled (.newConnection sockfd writeComplete highWater mark)) :
    Yields (s.newConnection sockfd writeComplete highWater mark) Inv (· = .lengthError) := by
  obtain ⟨⟨hh, hn, -⟩, hev, hph⟩ := he
  have hspec := established_spec sockfd mark writeComplete highWater
  unfold newConnection
  cases hc : TCPConnection.construct sockfd writeComplete highWater mark with
  | error e =>
    rw [hc] at hspec
    exact (yields_error _ _ _).mpr (hspec.error rfl)
  | ok c =>
    rw [hc, ok_bind] at hspec
    have hx : (s.accepted c).objects s.nextConnId = some ⟨c, [], false⟩ := Function.update_self ..
    change Yields ((s.accepted c).onConnection s.nextConnId connectEstablished) _ _
    cases hr : c.connectEstablished with
    | error e =>
      rw [onConnection_error (s := s.accepted c) hx rfl hr]
      exact (yields_error _ _ _).mpr (hspec.error hr)
    | ok c' =>
      obtain ⟨ho, -, hs, hread, hindex, heff⟩ := hspec.ok hr
      rw [onConnection_ok (s := s.accepted c) hx rfl hr]
      refine (yields_ok _ _ _).mpr ?_
      have hclose : Effect.closeCallback ∉ c'.effects := by simp [heff]
      have hclosing : (s.accepted c).closing ≠ some s.nextConnId := by
        intro h
        exact nomatch hn.symm.trans h
      have hserved : (s.accepted c).place s.nextConnId = .served :=
        place_served hclosing (List.mem_append_right _ (List.mem_singleton_self _))
      refine { settle_books (accepted_books hi hn hph c) rfl hclose with good := ?_ }
      refine put_good (s := s.accepted c) (fun j y hj hy => ?_) rfl
        (fun j _ => place_settle hclose j) (Nat.le_refl _) ⟨?_, Nat.lt_succ_self _⟩
      · have hy' : s.objects j = some y := (Function.update_of_ne hj _ _).symm.trans hy
        obtain ⟨hgood, hlt⟩ := hi.good j y hy'
        have hsame : (s.accepted c).place j = s.place j := by
          refine place_congr Iff.rfl ?_ Iff.rfl
          simp [accepted, put, hj]
        exact ⟨hsame ▸ hgood, Nat.lt_succ_of_lt hlt⟩
      · rw [place_settle hclose, hserved]
        exact ⟨⟨Or.inl hs, ⟨hread, hindex⟩, by simp [heff, Effect.notified], rfl⟩, rfl,
          outputInv_settled ho⟩

theorem step_yields {s : TCPServer} (hi : s.Inv) {a : Action} (he : s.Enabled a) (hu : s.Used a) :
    Yields (s.step a) Inv (· = .lengthError) := by
  have hok : (∃ s', s.step a = .ok s' ∧ s'.Inv) → Yields (s.step a) Inv (· = .lengthError) := by
    rintro ⟨s', h, hi'⟩
    rw [h]
    exact (yields_ok _ _ _).mpr hi'
  cases a with
  | newConnection sockfd writeComplete highWater mark => exact newConnection_yields hi he
  | call i a => exact call_yields hi he
  | poll active => exact hok ⟨_, rfl, poll_inv hi he⟩
  | handleEvent i r => exact hok (handleEvent_inv hi he)
  | callback r w => exact callback_yields hi he hu
  | closeCallback => exact hok (closeCallback_inv hi he)
  | fireDelayedClose k => exact hok (fireDelayedClose_yields hi k)
  | swap => exact hok ⟨_, rfl, swap_inv hi he.2.1⟩
  | runFunctor => exact hok (runFunctor_yields hi he)
  | deleteServer => exact hok ⟨_, rfl, deleteServer_inv hi he⟩
  | deleteConnection i => exact hok (deleteConnection_inv hi he hu)
  | serverDeleted => exact hok ⟨_, rfl, serverDeleted_inv hi he⟩
  | release i => exact hok (release_inv hi he)

theorem unused_fails {s : TCPServer} (hi : s.Inv) {a : Action} (he : s.Enabled a)
    (hu : ¬s.Used a) : ∃ expr, s.step a = .error (.assertion expr) := by
  cases a with
  | callback r w =>
    obtain ⟨hne, -⟩ := he
    obtain ⟨p, rest, hh⟩ := List.exists_cons_of_ne_nil hne
    obtain ⟨i, cb⟩ := p
    simp only [Used, hh, List.take_succ_cons, List.take_zero, List.mem_singleton, forall_eq,
      Classical.not_imp, not_not] at hu
    obtain ⟨rfl, rfl, hs⟩ := hu
    have hin : (i, Callback.read) ∈ s.handling := by simp [hh]
    obtain ⟨x, hx, hd⟩ := allocated_iff.mp (hi.held i (Or.inr (Or.inr
      (List.mem_map_of_mem (f := Prod.fst) hin))))
    have hdown : x.conn.state = .kDisconnected := by simpa [state?, hx] using hs
    obtain ⟨expr, hr⟩ := handleRead_eof (hi.good i x hx).1.output hdown
    refine ⟨expr, ?_⟩
    simp only [step, hh]
    exact onConnection_error (s := { s with handling := rest }) hx hd hr
  | deleteConnection i =>
    obtain ⟨hph, hmem⟩ := he
    obtain ⟨x, hx, hd⟩ := allocated_iff.mp (hi.held i (Or.inl hmem))
    have hgood := (hi.good i x hx).1
    have hf : Fits .served x := place_served (by simp [(hi.destructing hph).2]) hmem ▸ hgood.fits
    rcases hf.up with hc | hc
    · -- the connection itself is torn down, the loop refuses the channel
      have hactive : ¬(s.eventHandling = true → i ∉ s.activeChannels) := by
        intro h
        exact hu ⟨by simp [state?, hx, hc], h⟩
      obtain ⟨c, hok, -⟩ := connectDestroyed_connected hgood.output hc
      have hok' := onConnection_ok (s := { s with connections := s.connections.erase i }) hx hd hok
      exact ⟨_, by
        rw [step, connectDestroyed, hok', ok_bind, assertThat_of_not (by exact hactive)]
        rfl⟩
    · have hfail := connectDestroyed_disconnecting hc hf.listening.reading
      have herr := onConnection_error (s := { s with connections := s.connections.erase i })
        hx hd hfail
      exact ⟨_, by rw [step, connectDestroyed, herr]; rfl⟩
  | _ => exact absurd trivial hu

end Runs

section Lifecycle

/-- Each connection's user has been told of the connection once and, if it is
destroyed, of its end once, after that. -/
def Lifecycle (s : TCPServer) : Prop :=
  ∀ i x, s.objects i = some x → x.callbacks <+: [true, false] ∧
    (x.destroyed = true → x.callbacks = [true, false] ∧ x.conn.state = .kDisconnected)

theorem lifecycle_of_inv {s : TCPServer} (hi : s.Inv) : s.Lifecycle := by
  intro i x hx
  have hfit := (hi.good i x hx).1.fits
  by_cases hp : s.place i = .served
  · rw [hp] at hfit
    exact ⟨by simp [hfit.callbacks], fun h => nomatch hfit.destroyed.symm.trans h⟩
  · obtain ⟨hdown, -, hcallbacks⟩ := down_of_not_served hp hfit
    exact ⟨by simp [hcallbacks], fun _ => ⟨hcallbacks, hdown.state⟩⟩

/-- Every run of a server and its connections: no assertion fails and every
connection is announced and taken leave of once, exactly if all of its steps
are of the use the server is made for. -/
theorem connection_lifecycle (as : List Action) (ha : Admitted step Enabled construct as) :
    ((∀ e, run step construct as = .error e → e = .lengthError) ∧
      ∀ s, run step construct as = .ok s → s.Lifecycle) ↔ Admitted step Used construct as := by
  have hstep : ∀ s a, Inv s → s.Enabled a → s.Used a → Yields (step s a) Inv (· = .lengthError) :=
    fun s a hi he hu => step_yields hi he hu
  constructor
  · rintro ⟨hr, -⟩
    refine admitted_of_run Enabled Used hstep (fun s a hi he hu => ?_) as construct
      construct_inv ha hr
    obtain ⟨expr, hs⟩ := unused_fails hi he hu
    exact ⟨_, hs, nofun⟩
  · intro hu
    have hboth : Admitted step (fun s a => s.Enabled a ∧ s.Used a) construct as :=
      admitted_and ha hu
    have hy := run_yields (fun s a => s.Enabled a ∧ s.Used a)
      (fun s a hi h => hstep s a hi h.1 h.2) as construct construct_inv hboth
    exact ⟨fun e => hy.error, fun s hs => lifecycle_of_inv (hy.ok hs)⟩

theorem connection_lifecycle_teardown :
    ∃ s, run step construct [.poll [], .newConnection 5 true false 64,
        .newConnection 6 false false 64, .call 1 (.send ⟨[72], by decide⟩ (.accepted 1)), .swap,
        .runFunctor, .poll [2], .handleEvent 2 ⟨true, false, false, false, false, true, false⟩,
        .callback (.read []) (.accepted 0), .closeCallback, .swap, .runFunctor, .release 2,
        .deleteServer, .deleteConnection 1, .serverDeleted, .release 1] = .ok s ∧
      (s.objects 1).map ConnObject.callbacks = some [true, false] ∧ s.Lifecycle := by
  have hrun : (fun s => (s.objects 1).map ConnObject.callbacks) <$> run step construct [.poll [],
        .newConnection 5 true false 64, .newConnection 6 false false 64,
        .call 1 (.send ⟨[72], by decide⟩ (.accepted 1)), .swap, .runFunctor, .poll [2],
        .handleEvent 2 ⟨true, false, false, false, false, true, false⟩,
        .callback (.read []) (.accepted 0), .closeCallback, .swap, .runFunctor, .release 2,
        .deleteServer, .deleteConnection 1, .serverDeleted, .release 1] =
      .ok (some [true, false]) := by decide +kernel
  obtain ⟨s, hs, hcallbacks⟩ := map_ok.mp hrun
  exact ⟨s, hs, hcallbacks,
    ((connection_lifecycle _ (by decide +kernel)).mpr (by decide +kernel)).2 s hs⟩

/-- The server is destroyed while a connection waits for its peer to close. -/
theorem lifecycle_half_closed :
    ¬∀ as : List Action, Admitted step Enabled construct as →
      (∀ e, run step construct as = .error e → e = .lengthError) ∧
        ∀ s, run step construct as = .ok s → s.Lifecycle := by
  intro h
  have hlen := (h [.poll [], .newConnection 5 false false 64, .call 1 .shutdown, .deleteServer,
    .deleteConnection 1] (by decide +kernel)).1
  have hrun : (fun _ => ()) <$> run step construct [.poll [], .newConnection 5 false false 64,
    .call 1 .shutdown, .deleteServer, .deleteConnection 1] =
      .error (.assertion "isNoneEvent()") := by decide +kernel
  cases hr : run step construct [.poll [], .newConnection 5 false false 64, .call 1 .shutdown,
    .deleteServer, .deleteConnection 1] with
  | ok s =>
    rw [hr] at hrun
    cases hrun
  | error e =>
    rw [hr, hlen e hr] at hrun
    cases hrun

end Lifecycle

end Lux.Polaris.TCPServer
