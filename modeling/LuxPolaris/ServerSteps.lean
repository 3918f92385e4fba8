import LuxPolaris.ConnectionPlace

/-!
# The steps of a server's loop

What `connectDestroyed`, the handlers, the functors and the loop itself do to
the places of the connections. Each step keeps the invariant.
-/

set_option autoImplicit false

namespace Lux.Polaris.TCPServer
open Outcome OutputStream TCPConnection

section Teardown

theorem settle_gone {s : TCPServer} (hb : s.Books) {i : ℕ} {x : ConnObject}
    (hd : x.destroyed = false) (hlt : i < s.nextConnId)
    (hg : ∀ j y, j ≠ i → s.objects j = some y → Good (s.place j) y ∧ j < s.nextConnId)
    (hp : s.place i = .gone) {c : TCPConnection} (hgone : c.Gone) (ho : OutputInv c)
    (he : c.effects = [] ∧ x.callbacks = [true, false] ∨
      c.effects = [.connectionCallback false] ∧ x.callbacks = [true]) : (s.settle i x c).Inv := by
  have hclose : Effect.closeCallback ∉ c.effects := by
    rcases he with ⟨he, -⟩ | ⟨he, -⟩
    · simp [he]
    · simp [he]
  have hcallbacks : x.callbacks ++ c.effects.filterMap Effect.notified = [true, false] := by
    rcases he with ⟨he, hcb⟩ | ⟨he, hcb⟩
    · simp [he, hcb]
    · simp [he, hcb, Effect.notified]
  refine { settle_books hb hd hclose with good := ?_ }
  refine put_good hg rfl (fun j _ => place_settle hclose j) (Nat.le_refl _) ⟨?_, hlt⟩
  rw [place_settle hclose, hp, hcallbacks]
  exact ⟨⟨⟨⟨hgone.down.state, hgone.down.events⟩, hgone.index, hgone.addedToLoop⟩, rfl⟩, rfl,
    outputInv_settled ho⟩

theorem connectDestroyed_of {s : TCPServer} {i : ℕ} {x : ConnObject} {c : TCPConnection}
    (hx : s.objects i = some x) (hd : x.destroyed = false)
    (hc : x.conn.connectDestroyed = .ok c) (ha : s.eventHandling = true → i ∉ s.activeChannels) :
    s.connectDestroyed i = .ok (s.settle i x c) := by
  have hsettle : (s.settle i x c).eventHandling = true → i ∉ (s.settle i x c).activeChannels := ha
  rw [connectDestroyed, onConnection_ok hx hd hc, ok_bind, assertThat_of hsettle]
  rfl

theorem not_queued_of_served {s : TCPServer} (hb : s.Books) {i : ℕ} (h : i ∈ s.connections) :
    ServerFunctor.connectDestroyed i ∉ s.queue := fun hq => (hb.leaving i hq).1 h

theorem deleteConnection_inv {s : TCPServer} (hi : s.Inv) {i : ℕ}
    (he : s.Enabled (.deleteConnection i)) (hu : s.Used (.deleteConnection i)) :
    ∃ s', s.step (.deleteConnection i) = .ok s' ∧ s'.Inv := by
  obtain ⟨hph, hmem⟩ := he
  obtain ⟨hhandling, hclosing⟩ := hi.destructing hph
  obtain ⟨x, hx, hd⟩ := allocated_iff.mp (hi.held i (Or.inl hmem))
  obtain ⟨hgood, hlt⟩ := hi.good i x hx
  have hplace := place_served (by simp [hclosing]) hmem
  have hf : Fits .served x := hplace ▸ hgood.fits
  have hconnected : x.conn.state = .kConnected :=
    hf.up.resolve_right (fun h => hu.1 (by simp [state?, hx, h]))
  obtain ⟨c, hok, hgone, hinv, heff⟩ := connectDestroyed_connected hgood.output hconnected
  refine ⟨_, connectDestroyed_of hx hd hok hu.2, ?_⟩
  have hunhandled : i ∉ s.unhandled := by
    intro h
    by_cases hev : s.eventHandling = true
    · exact hu.2 hev (hi.unhandled i h).2
    · simp [hi.polled (by simpa using hev)] at h
  refine settle_gone (s := { s with connections := s.connections.erase i }) ?_ hd hlt ?_ ?_
    hgone hinv (Or.inr ⟨?_, hf.callbacks⟩)
  · refine {
      hi.toBooks with
      held := ?_, nodup := hi.nodup.erase i, closing := ?_, leaving := ?_, close_served := ?_
      unhandled := ?_, emptied := ?_ }
    · exact fun j h => hi.held j (h.imp_left List.mem_of_mem_erase)
    · exact fun j h => nomatch hclosing.symm.trans h
    · exact fun j h => ⟨fun hm => (hi.leaving j h).1 (List.mem_of_mem_erase hm), (hi.leaving j h).2⟩
    · intro p hp
      change p ∈ s.handling at hp
      simp [hhandling] at hp
    · intro j h
      obtain ⟨hm, ha⟩ := hi.unhandled j h
      have hj : j ≠ i := fun hj => hunhandled (hj ▸ h)
      exact ⟨(List.mem_erase_of_ne hj).mpr hm, ha⟩
    · exact fun h => nomatch hph.symm.trans h
  · intro j y hj hy
    have hsame : place { s with connections := s.connections.erase i } j = s.place j :=
      place_congr Iff.rfl (List.mem_erase_of_ne hj) Iff.rfl
    rw [hsame]
    exact hi.good j y hy
  · have hout : i ∉ s.connections.erase i := fun h => (hi.nodup.mem_erase_iff.mp h).1 rfl
    have hnone : s.closing ≠ some i := by simp [hclosing]
    exact place_gone hnone hout (not_queued_of_served hi.toBooks hmem)
  · rw [heff, hgood.settled, List.nil_append]

theorem runDestroyed_inv {s : TCPServer} (hi : s.Inv) {i : ℕ} {fs : List ServerFunctor}
    (hf : s.functors = .connectDestroyed i::fs) (hn : s.closing = none)
    (hev : s.eventHandling = false) :
    ∃ s', connectDestroyed { s with functors := fs } i = .ok s' ∧ s'.Inv := by
  have hq : s.queue = .connectDestroyed i::(fs ++ s.pendingFunctors) := by simp [queue, hf]
  have hin : ServerFunctor.connectDestroyed i ∈ s.queue := by simp [hq]
  obtain ⟨hout, hone⟩ := hi.leaving i hin
  obtain ⟨x, hx, hd⟩ := allocated_iff.mp (hi.held i (Or.inr (Or.inl
    (List.mem_map_of_mem (f := ServerFunctor.conn) hin))))
  obtain ⟨hgood, hlt⟩ := hi.good i x hx
  have hnone : s.closing ≠ some i := by simp [hn]
  have hfit : Fits .leaving x := place_leaving hnone hout hin ▸ hgood.fits
  obtain ⟨c, hok, hgone, hinv, heff⟩ := connectDestroyed_down hgood.output hfit.down
    (by simp [hfit.index])
  have hev' : s.eventHandling = true → i ∉ s.activeChannels := by simp [hev]
  refine ⟨_, connectDestroyed_of hx hd hok hev', ?_⟩
  have hmem : ∀ f, f ∈ fs ++ s.pendingFunctors → f ∈ s.queue := by
    intro f h
    rw [hq]
    exact List.mem_cons_of_mem _ h
  have hlast : ServerFunctor.connectDestroyed i ∉ fs ++ s.pendingFunctors := by
    rw [hq, List.count_cons_self, Nat.add_eq_right] at hone
    exact List.count_eq_zero.mp hone
  refine settle_gone (s := { s with functors := fs }) ?_ hd hlt ?_ ?_ hgone hinv
    (Or.inl ⟨?_, hfit.callbacks⟩)
  · refine { hi.toBooks with held := ?_, leaving := ?_, swapped := ?_ }
    · intro j h
      refine hi.held j (h.imp_right (Or.imp_left fun hm => ?_))
      obtain ⟨f, hfm, rfl⟩ := List.mem_map.mp hm
      exact List.mem_map_of_mem (hmem f hfm)
    · intro j h
      obtain ⟨h₁, h₂⟩ := hi.leaving j (hmem _ h)
      have hj : j ≠ i := fun hj => hlast (hj ▸ h)
      rw [hq, List.count_cons_of_ne (by simpa using Ne.symm hj)] at h₂
      exact ⟨h₁, h₂⟩
    · intro h
      rw [hev] at h
      cases h
  · intro j y hj hy
    have hsame : place { s with functors := fs } j = s.place j := by
      refine place_congr Iff.rfl Iff.rfl ⟨hmem _, fun h => ?_⟩
      rw [hq] at h
      refine (List.mem_cons.mp h).resolve_left (fun h => ?_)
      cases h
      exact hj rfl
    rw [hsame]
    exact hi.good j y hy
  · exact place_gone hnone hout hlast
  · rw [heff, hgood.settled]

end Teardown

section Steps

theorem popped_inv {s : TCPServer} (hi : s.Inv) {i : ℕ} {f : ConnFunctor}
    {fs : List ServerFunctor} (hf : s.functors = .ofConnection i f::fs) :
    Inv { s with functors := fs } := by
  have hq : s.queue = .ofConnection i f::(fs ++ s.pendingFunctors) := by simp [queue, hf]
  have hmem : ∀ g, g ∈ fs ++ s.pendingFunctors → g ∈ s.queue := by
    intro g h
    rw [hq]
    exact List.mem_cons_of_mem _ h
  refine { hi with held := ?_, leaving := ?_, swapped := ?_, good := ?_ }
  · intro j h
    refine hi.held j (h.imp_right (Or.imp_left fun hm => ?_))
    obtain ⟨g, hg, rfl⟩ := List.mem_map.mp hm
    exact List.mem_map_of_mem (hmem g hg)
  · intro j h
    obtain ⟨h₁, h₂⟩ := hi.leaving j (hmem _ h)
    rw [hq, List.count_cons_of_ne (by simp)] at h₂
    exact ⟨h₁, h₂⟩
  · intro h
    rw [hi.swapped h] at hf
    cases hf
  · intro j y hy
    have hsame : place { s with functors := fs } j = s.place j := by
      refine place_congr Iff.rfl Iff.rfl ⟨hmem _, fun h => ?_⟩
      rw [hq] at h
      exact (List.mem_cons.mp h).resolve_left (by simp)
    rw [hsame]
    exact hi.good j y hy

theorem userCall_of {s : TCPServer} {i : ℕ} {x : ConnObject} (hx : s.objects i = some x) {a : Call}
    (h : s.UserCall i a) : x.conn.UserCall a := by
  cases a with
  | takeInput len =>
    have hlen : (s.objects i).any (fun x => len ≤ x.conn.inputBuffer.readableBytes) = true := h
    simpa [hx, TCPConnection.UserCall] using hlen
  | _ => exact h

theorem call_yields {s : TCPServer} (hi : s.Inv) {i : ℕ} {a : Call}
    (he : s.Enabled (.call i a)) :
    Yields (s.step (.call i a)) Inv (· = .lengthError) := by
  obtain ⟨x, hx, hd⟩ := allocated_iff.mp he.1
  have hcall := userCall_yields (hi.good i x hx).1.output (userCall_of hx he.2)
  rw [step]
  cases hr : x.conn.call a with
  | ok c =>
    rw [onConnection_ok hx hd hr]
    obtain ⟨hk, ho⟩ := hcall.ok hr
    exact (yields_ok _ _ _).mpr (settle_keeps hi hx hd hk ho)
  | error e =>
    rw [onConnection_error hx hd hr]
    exact (yields_error _ _ _).mpr (hcall.error hr)

theorem fireDelayedClose_yields {s : TCPServer} (hi : s.Inv) (k : ℕ) :
    ∃ s', s.fireDelayedClose k = .ok s' ∧ s'.Inv := by
  have hfired : Inv { s with delayedCloses := s.delayedCloses.eraseIdx k } := { hi with }
  unfold fireDelayedClose
  cases hk : s.delayedCloses[k]? with
  | none => exact ⟨s, rfl, hi⟩
  | some i =>
    simp only
    split_ifs with ha
    · obtain ⟨x, hx, hd⟩ := allocated_iff.mp ha
      have hgood := (hi.good i x hx).1
      have hkeeps := settle_keeps hfired hx hd (forceClose_keeps _)
        (forceClose_moves hgood.output).inv
      exact ⟨_, onConnection_ok (s := { s with delayedCloses := s.delayedCloses.eraseIdx k })
        hx hd rfl, hkeeps⟩
    · exact ⟨_, rfl, hfired⟩

theorem runFunctor_yields {s : TCPServer} (hi : s.Inv) (he : s.Enabled .runFunctor) :
    ∃ s', s.step .runFunctor = .ok s' ∧ s'.Inv := by
  obtain ⟨⟨hh, hn, hph⟩, hev, hne⟩ := he
  cases hf : s.functors with
  | nil => exact absurd hf hne
  | cons f fs =>
    simp only [step, hf]
    cases f with
    | connectDestroyed i => exact runDestroyed_inv hi hf hn hev
    | ofConnection i g =>
      have hpopped := popped_inv hi hf
      cases g with
      | writeCompleteCallback => exact ⟨_, rfl, hpopped⟩
      | highWaterMarkCallback size => exact ⟨_, rfl, hpopped⟩
      | forceCloseInLoop =>
        have hin : i ∈ s.queue.map ServerFunctor.conn := by simp [queue, hf, ServerFunctor.conn]
        obtain ⟨x, hx, hd⟩ := allocated_iff.mp (hi.held i (Or.inr (Or.inl hin)))
        have hgood := (hi.good i x hx).1
        have hmoves := forceCloseInLoop_moves hgood.output
        cases hr : x.conn.forceCloseInLoop with
        | error e => exact (hmoves.error hr).elim
        | ok c =>
          have hinv := (hmoves.ok hr).inv
          refine ⟨_, onConnection_ok (s := { s with functors := fs }) hx hd hr, ?_⟩
          rcases forceCloseInLoop_states hr with hk | hk
          · exact settle_keeps hpopped hx hd hk hinv
          · have hu : i ∉ s.unhandled := by simp [hi.polled hev]
            exact settle_closes hpopped hx hd hk hinv hn hu (by simp [hh]) hph

theorem up_or_disconnected {p : Place} {x : ConnObject} (h : Fits p x) :
    x.conn.Up ∨ x.conn.state = .kDisconnected := by
  by_cases hp : p = .served
  · subst hp
    exact Or.inl h.up
  · exact Or.inr (down_of_not_served hp h).1.state

theorem handled_inv {s : TCPServer} (hi : s.Inv) {p : ℕ × Callback} {rest : List (ℕ × Callback)}
    (hh : s.handling = p::rest) : Inv { s with handling := rest } := by
  have hrest : ∀ q ∈ rest, q ∈ s.handling := by
    intro q hq
    rw [hh]
    exact List.mem_cons_of_mem p hq
  have hopen : ∀ q ∈ rest, q.2 ≠ .close := by
    intro q hq
    refine hi.close_first q ?_
    rw [hh]
    exact hq
  refine {
    hi with
    held := ?_, current := fun q hq => hi.current q (hrest q hq), close_first := ?_
    close_served := fun q hq hc => absurd hc (hopen q hq), destructing := ?_ }
  · intro j h
    refine hi.held j (h.imp_right (Or.imp_right fun hm => ?_))
    obtain ⟨q, hq, rfl⟩ := List.mem_map.mp hm
    exact List.mem_map_of_mem (hrest q hq)
  · exact fun q hq => hopen q (List.mem_of_mem_tail hq)
  · intro h
    rw [(hi.destructing h).1] at hh
    cases hh

theorem callback_yields {s : TCPServer} (hi : s.Inv) {r : Buffer.ReadResult} {w : WriteResult}
    (he : s.Enabled (.callback r w)) (hu : s.Used (.callback r w)) :
    Yields (s.step (.callback r w)) Inv (· = .lengthError) := by
  obtain ⟨hne, hn⟩ := he
  cases hh : s.handling with
  | nil => exact absurd hh hne
  | cons p rest =>
    obtain ⟨i, cb⟩ := p
    have hin : (i, cb) ∈ s.handling := by simp [hh]
    obtain ⟨x, hx, hd⟩ := allocated_iff.mp (hi.held i (Or.inr (Or.inr
      (List.mem_map_of_mem (f := Prod.fst) hin))))
    have hgood := (hi.good i x hx).1
    have hhandled := handled_inv hi hh
    have hph : s.phase ≠ .destructing := fun h => hne (hi.destructing h).1
    simp only [step, hh]
    cases hr : x.conn.handleCallback r w cb with
    | ok c =>
      have hinv := handleCallback_inv hgood.output hr
      rw [onConnection_ok (s := { s with handling := rest }) hx hd hr]
      refine (yields_ok _ _ _).mpr ?_
      rcases handleCallback_states hgood.output hr with hk | hk
      · exact settle_keeps hhandled hx hd hk hinv
      · refine settle_closes hhandled hx hd hk hinv hn (hi.current _ hin) (fun q hq => ?_) hph
        refine hi.close_first q ?_
        rw [hh]
        exact hq
    | error e =>
      rw [onConnection_error (s := { s with handling := rest }) hx hd hr]
      refine (yields_error _ _ _).mpr ?_
      rcases handleCallback_fault hgood.output hr with hl | ⟨hcb, hup⟩
      · exact hl
      have hdown := (up_or_disconnected hgood.fits).resolve_left hup
      rcases hcb with rfl | ⟨rfl, rfl⟩
      · have hmem := (hi.close_served _ hin rfl).2
        have hserved : Fits .served x := place_served (by simp [hn]) hmem ▸ hgood.fits
        exact absurd hserved.up hup
      · refine absurd ?_ (hu rfl (i, .read) (by simp [hh]) rfl)
        simp [state?, hx, hdown]

theorem close_first_callback (r : Revents) : ∀ cb ∈ (Channel.callbacks r).tail, cb ≠ .close := by
  unfold Channel.callbacks
  split_ifs <;> simp

theorem handleEvent_inv {s : TCPServer} (hi : s.Inv) {i : ℕ} {r : Revents}
    (he : s.Enabled (.handleEvent i r)) :
    ∃ s', s.step (.handleEvent i r) = .ok s' ∧ s'.Inv := by
  obtain ⟨⟨hh, hn, hph⟩, hu⟩ := he
  obtain ⟨hmem, hactive⟩ := hi.unhandled i hu
  obtain ⟨x, hx, hd⟩ := allocated_iff.mp (hi.held i (Or.inl hmem))
  refine ⟨_, by rw [step, handleEvent, object_of hx hd, ok_bind]; rfl, ?_⟩
  have hfst : ∀ p ∈ (Channel.callbacks r).map (fun cb => (i, cb)), p.1 = i := by
    intro p hp
    obtain ⟨cb, -, rfl⟩ := List.mem_map.mp hp
    rfl
  refine {
    hi with
    held := ?_, closing := ?_, current := ?_, close_first := ?_, close_served := ?_
    unhandled := ?_, once := hi.once.erase i, polled := ?_, destructing := ?_ }
  · intro j h
    rcases h with h | h | h
    · exact hi.held j (Or.inl h)
    · exact hi.held j (Or.inr (Or.inl h))
    · obtain ⟨p, hp, rfl⟩ := List.mem_map.mp h
      rw [hfst p hp]
      exact allocated_iff.mpr ⟨x, hx, hd⟩
  · exact fun j h => nomatch hn.symm.trans h
  · intro p hp
    rw [hfst p hp]
    exact fun h => (hi.once.mem_erase_iff.mp h).1 rfl
  · intro p hp
    rw [← List.map_tail] at hp
    obtain ⟨cb, hcb, rfl⟩ := List.mem_map.mp hp
    exact close_first_callback r cb hcb
  · intro p hp _
    rw [hfst p hp]
    exact ⟨hn, hmem⟩
  · exact fun j h => hi.unhandled j (List.mem_of_mem_erase h)
  · intro h
    rw [hi.polled h]
    rfl
  · exact fun h => absurd h hph

def letGo (s : TCPServer) (i : ℕ) : TCPServer :=
  { s with
    closing := none
    connections := s.connections.erase i
    pendingFunctors := s.pendingFunctors ++ [.connectDestroyed i] }

theorem closeCallback_inv {s : TCPServer} (hi : s.Inv) (he : s.Enabled .closeCallback) :
    ∃ s', s.step .closeCallback = .ok s' ∧ s'.Inv := by
  obtain ⟨i, hc⟩ := Option.ne_none_iff_exists'.mp he
  obtain ⟨hmem, hu⟩ := hi.closing i hc
  have hnd : s.phase ≠ .destroyed := by
    intro h
    rw [hi.emptied h] at hmem
    cases hmem
  have hnq := not_queued_of_served hi.toBooks hmem
  have hout : i ∉ s.connections.erase i := fun h => (hi.nodup.mem_erase_iff.mp h).1 rfl
  have hq : (s.letGo i).queue = s.queue ++ [.connectDestroyed i] := by simp [queue, letGo]
  refine ⟨s.letGo i, ?_, ?_⟩
  · simp only [step, hc, removeConnection, if_neg hnd, assertThat_of hmem]
    rfl
  refine {
    hi with
    held := ?_, nodup := hi.nodup.erase i, closing := fun _ h => (by cases h), leaving := ?_
    close_served := ?_, unhandled := ?_, emptied := fun h => absurd h hnd
    destructing := ?_, good := ?_ }
  · intro j h
    rcases h with h | h | h
    · exact hi.held j (Or.inl (List.mem_of_mem_erase h))
    · rw [hq, List.map_append, List.mem_append] at h
      rcases h with h | h
      · exact hi.held j (Or.inr (Or.inl h))
      · cases List.mem_singleton.mp h
        exact hi.held i (Or.inl hmem)
    · exact hi.held j (Or.inr (Or.inr h))
  · intro j h
    rw [hq, List.mem_append, List.mem_singleton] at h
    rw [hq, List.count_append]
    by_cases hj : j = i
    · subst hj
      exact ⟨hout, by simp [List.count_eq_zero.mpr hnq]⟩
    · have hjq := h.resolve_right (fun h => hj (ServerFunctor.connectDestroyed.inj h))
      obtain ⟨h₁, h₂⟩ := hi.leaving j hjq
      refine ⟨fun hm => h₁ (List.mem_of_mem_erase hm), ?_⟩
      simp [h₂, Ne.symm hj]
  · intro p hp hcb
    cases hc.symm.trans (hi.close_served p hp hcb).1
  · intro j h
    obtain ⟨hm, ha⟩ := hi.unhandled j h
    have hj : j ≠ i := fun hj => hu (hj ▸ h)
    exact ⟨(List.mem_erase_of_ne hj).mpr hm, ha⟩
  · exact fun h => ⟨(hi.destructing h).1, rfl⟩
  · intro j x hx
    obtain ⟨hgood, hlt⟩ := hi.good j x hx
    refine ⟨?_, hlt⟩
    by_cases hj : j = i
    · subst hj
      have hfit : Fits .closing x := by
        have hplace : s.place j = .closing := if_pos hc
        exact hplace ▸ hgood.fits
      have hleaving : (s.letGo j).place j = .leaving :=
        place_leaving (fun h => by cases h) hout (by rw [hq]; simp)
      rw [hleaving]
      exact ⟨hfit, hgood.settled, hgood.output⟩
    · have hsame : (s.letGo i).place j = s.place j := by
        refine place_congr ?_ (List.mem_erase_of_ne hj) ?_
        · simp [letGo, hc, Ne.symm hj]
        · rw [hq]
          simp [hj]
      rw [hsame]
      exact hgood

theorem poll_inv {s : TCPServer} (hi : s.Inv) {active : List ℕ} (he : s.Enabled (.poll active)) :
    Inv { s with eventHandling := true, activeChannels := active, unhandled := active } := by
  obtain ⟨⟨hh, hn, hph⟩, hev, hf, honce, hadded⟩ := he
  have hmem : ∀ i ∈ active, i ∈ s.connections := by
    intro i h
    have hany := hadded i h
    cases hx : s.objects i with
    | none => simp [hx] at hany
    | some x =>
      have hk : x.conn.channel.index = .kAdded := by
        simp only [hx, Option.any_some, Bool.and_eq_true, decide_eq_true_eq] at hany
        exact hany.2
      -- a connection that is not served is out of the kernel's set
      by_contra h
      have hplace : s.place i ≠ .served := fun hp => h (served_mem hp)
      exact (down_of_not_served hplace (hi.good i x hx).1.fits).2.1 hk
  refine {
    hi with
    closing := fun j h => (nomatch hn.symm.trans h), current := ?_
    unhandled := fun i h => ⟨hmem i h, h⟩, once := honce, polled := nofun, swapped := fun _ => hf }
  intro p hp
  change p ∈ s.handling at hp
  rw [hh] at hp
  cases hp

theorem swap_inv {s : TCPServer} (hi : s.Inv) (he : s.eventHandling = true) : s.swap.Inv := by
  have hq : s.swap.queue = s.queue := by simp [queue, swap, hi.swapped he]
  refine {
    hi with
    held := ?_, closing := fun j h => ⟨(hi.closing j h).1, List.not_mem_nil⟩, leaving := ?_
    current := fun _ _ => List.not_mem_nil, unhandled := fun _ h => (by cases h)
    once := List.nodup_nil, polled := fun _ => rfl, swapped := fun h => (by cases h), good := ?_ }
  · intro j h
    refine hi.held j (h.imp_right (Or.imp_left fun hm => ?_))
    rwa [hq] at hm
  · intro j h
    rw [hq] at h ⊢
    exact hi.leaving j h
  · intro j x hx
    have hsame : s.swap.place j = s.place j := place_congr Iff.rfl Iff.rfl (by rw [hq])
    rw [hsame]
    exact hi.good j x hx

theorem deleteServer_inv {s : TCPServer} (hi : s.Inv) (he : s.Enabled .deleteServer) :
    Inv { s with phase := .destructing } :=
  { hi with emptied := nofun, destructing := fun _ => ⟨he.1.1, he.1.2.1⟩ }

theorem serverDeleted_inv {s : TCPServer} (hi : s.Inv) (he : s.Enabled .serverDeleted) :
    Inv { s with phase := .destroyed } :=
  { hi with emptied := fun _ => he.2, destructing := nofun }

theorem release_inv {s : TCPServer} (hi : s.Inv) {i : ℕ} (he : s.Enabled (.release i)) :
    ∃ s', s.step (.release i) = .ok s' ∧ s'.Inv := by
  obtain ⟨ha, hr⟩ := he
  obtain ⟨x, hx, hd⟩ := allocated_iff.mp ha
  obtain ⟨hgood, hlt⟩ := hi.good i x hx
  have hplace : s.place i = .gone := by
    apply place_gone
    · exact fun h => hr (Or.inl (hi.closing i h).1)
    · exact fun h => hr (Or.inl h)
    · exact fun h => hr (Or.inr (Or.inl (List.mem_map_of_mem (f := ServerFunctor.conn) h)))
  have hfit : Fits .gone x := hplace ▸ hgood.fits
  refine ⟨s.put i { x with destroyed := true }, ?_, ?_⟩
  · rw [step, release, object_of hx hd, ok_bind, assertThat_of hfit.1.down.state,
      assertThat_of hfit.1.addedToLoop, assertThat_of hfit.1.index]
    rfl
  refine { hi with held := ?_, good := ?_ }
  · intro j h
    have hj : j ≠ i := fun hj => hr (hj ▸ h)
    obtain ⟨y, hy, hyd⟩ := allocated_iff.mp (hi.held j h)
    exact allocated_iff.mpr ⟨y, (Function.update_of_ne hj _ _).trans hy, hyd⟩
  · refine put_good (fun j y _ => hi.good j y) rfl (fun _ _ => rfl) (Nat.le_refl _) ⟨?_, hlt⟩
    have hsame : (s.put i { x with destroyed := true }).place i = .gone := hplace
    rw [hsame]
    exact ⟨hfit, hgood.settled, hgood.output⟩

end Steps

end Lux.Polaris.TCPServer
