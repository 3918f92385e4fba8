import LuxPolaris.ServerRegistry

/-!
# The registry of a server with I/O loops

Every step moves a connection one stage on, or keeps it where it is, whichever
loop takes the step. So the map holds the connections that have not been
removed, each under its own name, and each connection runs through its course
once.
-/

set_option autoImplicit false

namespace Lux.Polaris.ServerLoops
open Outcome OutputStream TCPConnection

section Settling
variable {server : ServerSetup} {s : ServerLoops} {i : ℕ} {x : ServerConn} {c : TCPConnection}

theorem object_of (hx : s.objects i = some x) : s.object i = .ok x := by
  rw [object, hx]

theorem onConnection_ok (hx : s.objects i = some x) (ms : List Milestone)
    {f : TCPConnection → Except Fault TCPConnection} (hf : f x.conn = .ok c) :
    s.onConnection x.loop i ms f = .ok (s.settle i { x with ran := x.ran ++ ms } c) := by
  simp only [onConnection, object_of hx, ok_bind, assertThat_of, hf, pure_eq_ok]

theorem onConnection_error (hx : s.objects i = some x) (ms : List Milestone) {e : Fault}
    {f : TCPConnection → Except Fault TCPConnection} (hf : f x.conn = .error e) :
    s.onConnection x.loop i ms f = .error e := by
  simp only [onConnection, object_of hx, ok_bind, assertThat_of, hf]
  rfl

theorem settle_open (h : Effect.closeCallback ∉ c.effects) :
    s.settle i x c = (s.put i { x with conn := { c with effects := [] } }).onLoop x.loop
      (fun L => { L with pendingFunctors :=
        L.pendingFunctors ++ c.effects.filterMap (Effect.loopFunctor i) }) := by
  have hnone : c.effects.filterMap Effect.milestone = [] := by
    refine List.filterMap_eq_nil_iff.mpr (fun e he => ?_)
    cases e with
    | closeCallback => exact absurd he h
    | _ => rfl
  simp only [settle, if_neg h, hnone, List.append_nil]
  rfl

theorem settle_closes (h : c.effects = [.connectionCallback false, .closeCallback]) :
    s.settle i x c = (s.put i { x with
      conn := { c with effects := [] }, ran := x.ran ++ [.handleClose] }).onLoop x.loop
      (fun L => { L with closing := some i }) := by
  have hmem : Effect.closeCallback ∈ c.effects := by simp [h]
  have hms : c.effects.filterMap Effect.milestone = [.handleClose] := by
    rw [h]
    rfl
  have hfs : c.effects.filterMap (Effect.loopFunctor i) = [] := by
    rw [h]
    rfl
  simp only [settle, if_pos hmem, hms, hfs, List.append_nil]
  rfl

theorem settle_keeps (h : Holds server s none) (hx : s.objects i = some x) (hne : x.ran ≠ [])
    (hk : Keeps x.conn c) (ho : OutputInv c) :
    Holds server (s.settle i { x with ran := x.ran ++ [] } c) none := by
  obtain ⟨hfits, hsettled, -⟩ := h.good i x hx
  obtain ⟨es, he, hq⟩ := hk.quiet
  have hopen : Effect.closeCallback ∉ c.effects := by
    rw [he, hsettled]
    exact fun h => hq _ h
  rw [List.append_nil, settle_open hopen]
  have hgood : Good { x with conn := { c with effects := [] } } :=
    ⟨fits_of_keeps hfits hne hk, rfl, outputInv_settled ho⟩
  exact (h.keep hx hgood).append (held_of_eq (stage_put_self ..) hne) c.effects

theorem settle_close (h : Holds server s none) (hx : s.objects i = some x)
    (hk : Closes x.conn c) (ho : OutputInv c) (hu : i ∉ (s.loops x.loop).unhandled)
    (hr : (i, .read) ∉ (s.loops x.loop).handling) :
    Holds server (s.settle i { x with ran := x.ran ++ [] } c) none := by
  obtain ⟨hfits, hsettled, -⟩ := h.good i x hx
  obtain ⟨hran, hl⟩ := ran_of_up hfits hk.up
  have he : c.effects = [.connectionCallback false, .closeCallback] := by
    rw [hk.effects, hsettled, List.nil_append]
  have hran' : x.ran ++ [.handleClose] = course.take 2 := by
    rw [hran]
    rfl
  rw [List.append_nil, settle_closes he, hran']
  have hidle : (s.stage i).bind (nextFunctor i) = none := by
    rw [stage_of hx, hran]
    rfl
  have hgood : Good { x with conn := { c with effects := [] }, ran := course.take 2 } :=
    ⟨⟨⟨hk.down.state, hk.down.events⟩, hk.index hl.index⟩, rfl, outputInv_settled ho⟩
  have hput := (h.grab hidle).advance hx hgood (by simp [course]) (by simp [hran, course])
    (fun _ => ⟨hu, hr⟩) (fun h => by simp [hran] at h)
  have hst := stage_put_self s i
    { x with conn := { c with effects := [] }, ran := course.take 2 }
  refine (hput.drop ?_).onLoop_same { hput.books x.loop with closing := fun j hj => ?_ } rfl
  · rw [hst]
    rfl
  · cases hj
    exact hst

end Settling

section Functors
variable {server : ServerSetup} {s : ServerLoops} {i : ℕ} {x : ServerConn}

theorem connectEstablished_holds (h : Holds server s (some i)) (hx : s.objects i = some x)
    (hr : x.ran = []) :
    ∃ s', s.connectEstablished x.loop i = .ok s' ∧ Holds server s' none := by
  obtain ⟨hfits, hsettled, ho⟩ := h.good i x hx
  rw [hr] at hfits
  obtain ⟨c, hok, hinv, hup, hl, he⟩ := connectEstablished_of ho hfits.1
  refine ⟨_, onConnection_ok hx _ hok, ?_⟩
  have hopen : Effect.closeCallback ∉ c.effects := by simp [he, hsettled]
  rw [settle_open hopen, hr, List.nil_append]
  have hgood : Good { x with conn := { c with effects := [] }, ran := [.connectEstablished] } :=
    ⟨⟨hup, hl.reading, hl.index⟩, rfl, outputInv_settled hinv⟩
  have hput := h.advance hx hgood (by simp) (by simp [hr]) (fun h => by simp [hr] at h)
    (fun h => by simp [hr] at h)
  have hst := stage_put_self s i
    { x with conn := { c with effects := [] }, ran := [.connectEstablished] }
  refine (hput.drop ?_).append (held_of_eq hst (by simp)) c.effects
  rw [hst]
  rfl

theorem connectDestroyed_holds (h : Holds server s (some i)) (hx : s.objects i = some x)
    (hr : x.ran = course.take 4) (hev : (s.loops x.loop).eventHandling = false) :
    ∃ s', s.connectDestroyed x.loop i = .ok s' ∧ Holds server s' none := by
  obtain ⟨hfits, hsettled, ho⟩ := h.good i x hx
  rw [hr] at hfits
  have hleft : Left x.conn := hfits
  obtain ⟨c, hok, hgone, hinv, he⟩ := connectDestroyed_down ho hleft.down (by simp [hleft.index])
  have heffects : c.effects = [] := he.trans hsettled
  have hopen : Effect.closeCallback ∉ c.effects := by simp [heffects]
  have hgood : Good { x with conn := { c with effects := [] }, ran := course } :=
    ⟨⟨⟨hgone.down.state, hgone.down.events⟩, hgone.index, hgone.addedToLoop⟩, rfl,
      outputInv_settled hinv⟩
  have hput := h.advance hx hgood (by simp [course]) (by simp [hr, course])
    (fun h => by simp [hr, course] at h) (fun h => by simp [hr, course] at h)
  have hst := stage_put_self s i { x with conn := { c with effects := [] }, ran := course }
  have hholds := (hput.drop (by rw [hst]; rfl)).append (held_of_eq hst (by simp [course])) c.effects
  have hran : x.ran ++ [.connectDestroyed] = course := by
    rw [hr]
    rfl
  refine ⟨_, ?_, hholds⟩
  rw [connectDestroyed, onConnection_ok hx _ hok, ok_bind, hran, settle_open hopen,
    assertThat_of (by simp [put, hev])]
  rfl

variable (hp : server.ipPort.length ≤ 51)
include hp

theorem Holds.injective {hand : Option ℕ} (h : Holds server s hand) {j : ℕ} {y : ServerConn}
    (hx : s.objects i = some x) (hy : s.objects j = some y) (hn : x.name = y.name) : i = j := by
  obtain ⟨hxn, hxi⟩ := h.named i x hx
  obtain ⟨hyn, hyj⟩ := h.named j y hy
  rw [hxn, hyn] at hn
  exact connName_injective hp (Nat.lt_of_lt_of_le hxi h.few) (Nat.lt_of_lt_of_le hyj h.few) hn

theorem erased_holds (h : Holds server s (some i)) (hx : s.objects i = some x)
    (hr : x.ran = course.take 3) :
    Holds server (put { s with
      connections := Function.update s.connections x.name none
      erased := s.erased ++ [(i, some i)] } i { x with ran := course.take 4 }) (some i) := by
  obtain ⟨hfits, hsettled, ho⟩ := h.good i x hx
  rw [hr] at hfits
  have hleft : Left x.conn := hfits
  have hst := stage_put s i { x with ran := course.take 4 }
  refine {
    h with
    books := fun l => ?_, inFlight := ?_
    good := forall_put (fun j y _ => h.good j y) ⟨hleft, hsettled, ho⟩
    named := forall_put (fun j y _ => h.named j y) (h.named i x hx), registered := fun n j => ?_
    erased := fun e he => ?_ }
  · change LoopBooks (s.put i _).stage l (s.loops l)
    rw [hst]
    refine (h.books l).advance (fun ran hran => ?_)
    rw [stage_of hx, hr] at hran
    cases hran
    exact ⟨rfl, by simp [course], by simp [course], by simp [course]⟩
  · change InFlight _ (due (s.put i _).stage _) s.queue
    rw [hst, due_update]
    exact h.inFlight
  · change Function.update s.connections x.name none n = some j ↔ _
    by_cases hn : n = x.name
    · subst hn
      rw [Function.update_self]
      refine iff_of_false nofun ?_
      rintro ⟨y, hy, hname, hy4⟩
      by_cases hj : j = i
      · subst hj
        rw [put_self] at hy
        cases hy
        exact hy4 (by simp [course])
      · rw [put_of_ne _ _ _ hj] at hy
        exact hj (h.injective hp hy hx hname)
    · rw [Function.update_of_ne hn]
      refine (h.registered n j).trans ?_
      by_cases hj : j = i
      · subst hj
        simp [hx, Ne.symm hn]
      · simp [hj]
  · rcases List.mem_append.mp he with he | he
    · exact h.erased e he
    · rw [List.mem_singleton.mp he]

theorem removeConnectionInLoop_holds (h : Holds server s (some i)) (hx : s.objects i = some x)
    (hr : x.ran = course.take 3) :
    ∃ s', s.removeConnectionInLoop 0 i = .ok s' ∧ Holds server s' none := by
  have hentry : s.connections x.name = some i :=
    (h.registered x.name i).mpr ⟨x, hx, rfl, by simp [hr, course]⟩
  have herased := erased_holds hp h hx hr
  have hst := stage_put_self { s with
    connections := Function.update s.connections x.name none
    erased := s.erased ++ [(i, some i)] } i { x with ran := course.take 4 }
  have hran : x.ran ++ [.removeConnectionInLoop] = course.take 4 := by
    rw [hr]
    rfl
  refine ⟨_, ?_, herased.queueInLoop (l := x.loop) (f := .connectDestroyed i) rfl ?_⟩
  · simp only [removeConnectionInLoop, object_of hx, ok_bind, hentry, Option.isSome_some,
      assertThat_of, hran, pure_eq_ok]
  · rw [hst]
    rfl

theorem runFunctor_holds (h : Holds server s (some i)) {l : ℕ} {f : LoopFunctor}
    (hn : (s.stage i).bind (nextFunctor i) = some (l, f))
    (hev : f = .connectDestroyed i → (s.loops l).eventHandling = false) :
    ∃ s', s.runFunctor l f = .ok s' ∧ Holds server s' none := by
  obtain ⟨st, hst, hnext⟩ := Option.bind_eq_some_iff.mp hn
  obtain ⟨x, hx, hl, hran⟩ := object_of_stage hst
  have hfits := (h.good i x hx).fits
  rw [nextFunctor, ← hl, ← hran] at hnext
  split at hnext
  · rename_i hlast
    cases hnext
    exact connectEstablished_holds h hx (List.getLast?_eq_none_iff.mp hlast)
  · rename_i hlast
    cases hnext
    exact removeConnectionInLoop_holds hp h hx (ran_of_getLast hfits hlast)
  · rename_i hlast
    cases hnext
    exact connectDestroyed_holds h hx (ran_of_getLast hfits hlast) (hev rfl)
  · cases hnext
  · cases hnext
  · cases hnext

theorem runInLoop_holds (h : Holds server s (some i)) {l : ℕ} {f : LoopFunctor}
    (hf : f.target = some i) (hn : (s.stage i).bind (nextFunctor i) = some (l, f))
    (hd : f ≠ .connectDestroyed i) (thread : ℕ) :
    ∃ s', s.runInLoop thread l f = .ok s' ∧ Holds server s' none := by
  unfold runInLoop
  split_ifs
  · exact runFunctor_holds hp h hn (fun he => absurd he hd)
  · exact ⟨_, rfl, h.queueInLoop hf hn⟩

end Functors

end Lux.Polaris.ServerLoops
