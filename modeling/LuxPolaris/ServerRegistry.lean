import LuxPolaris.ConnectionStates
import LuxPolaris.InFlight
import LuxPolaris.ServerLoops

/-!
# The stages of the connections of a server with I/O loops

The stage of a connection is its loop and the milestones behind it. The stage
says which functor of the library is on its way to the connection, on which
queue, and what the connection itself looks like; the rest of a loop's state is
bound to connections of that loop in the stages where it belongs.
-/

set_option autoImplicit false

namespace Lux.Polaris

def LoopFunctor.target : LoopFunctor → Option ℕ
  | .connectEstablished i => some i
  | .removeConnectionInLoop i => some i
  | .connectDestroyed i => some i
  | .ofConnection _ _ => none

abbrev Stage := ℕ × List Milestone

/-- The functor that takes connection `i` further, and the loop that runs it. -/
def nextFunctor (i : ℕ) (st : Stage) : Option (ℕ × LoopFunctor) :=
  match st.2.getLast? with
  | none => some (st.1, .connectEstablished i)
  | some .removeConnection => some (0, .removeConnectionInLoop i)
  | some .removeConnectionInLoop => some (st.1, .connectDestroyed i)
  | some .connectEstablished => none
  | some .handleClose => none
  | some .connectDestroyed => none

def due (stage : ℕ → Option Stage) (hand : Option ℕ) (i : ℕ) : Option (ℕ × LoopFunctor) :=
  if hand = some i then none else (stage i).bind (nextFunctor i)

def Held (stage : ℕ → Option Stage) (l i : ℕ) : Prop :=
  ∃ ran, stage i = some (l, ran) ∧ ran ≠ []

structure LoopBooks (stage : ℕ → Option Stage) (l : ℕ) (L : ServerLoop) : Prop where
  bound : ∀ i f, .ofConnection i f ∈ L.queue → Held stage l i
  current : ∀ p ∈ L.handling, p.2 ≠ .close ∧ p.1 ∉ L.unhandled ∧ Held stage l p.1
  reading : ∀ p ∈ L.handling, p.2 = .read → stage p.1 = some (l, [.connectEstablished])
  one : ∀ p ∈ L.handling, ∀ q ∈ L.handling, p.1 = q.1
  each : L.handling.Nodup
  unhandled : ∀ i ∈ L.unhandled, stage i = some (l, [.connectEstablished])
  once : L.unhandled.Nodup
  closing : ∀ i, L.closing = some i → stage i = some (l, [.connectEstablished, .handleClose])
  polled : L.eventHandling = false → L.unhandled = []
  swapped : L.eventHandling = true → L.functors = []

section Stages
variable {stage : ℕ → Option Stage} {hand : Option ℕ} {l i : ℕ}

theorem due_update (stage : ℕ → Option Stage) (i : ℕ) (st : Option Stage) :
    due (Function.update stage i st) (some i) = due stage (some i) := by
  funext j
  by_cases hj : j = i
  · simp [due, hj]
  · simp [due, hj, Ne.symm hj]

theorem due_take (stage : ℕ → Option Stage) (i : ℕ) :
    due stage (some i) = Function.update (due stage none) i none := by
  funext j
  by_cases hj : j = i
  · simp [due, hj]
  · simp [due, hj, Ne.symm hj]

theorem due_give (stage : ℕ → Option Stage) (i : ℕ) :
    due stage none = Function.update (due stage (some i)) i ((stage i).bind (nextFunctor i)) := by
  funext j
  by_cases hj : j = i
  · simp [due, hj]
  · simp [due, hj, Ne.symm hj]

theorem due_idle (h : (stage i).bind (nextFunctor i) = none) :
    due stage (some i) = due stage none := by
  funext j
  by_cases hj : j = i
  · simp [due, hj, h]
  · simp [due, Ne.symm hj]

theorem held_of_eq {ran : List Milestone} (h : stage i = some (l, ran)) (hne : ran ≠ []) :
    Held stage l i := ⟨ran, h, hne⟩

theorem LoopBooks.advance {L : ServerLoop} (h : LoopBooks stage l L) {k : ℕ}
    {ran : List Milestone} (hs : ∀ ran', stage i = some (l, ran') → k = l ∧ ran ≠ [] ∧
      (ran' = [.connectEstablished] → i ∉ L.unhandled ∧ (i, .read) ∉ L.handling) ∧
      (ran' = [.connectEstablished, .handleClose] → L.closing ≠ some i)) :
    LoopBooks (Function.update stage i (some (k, ran))) l L := by
  have hheld : ∀ j, Held stage l j → Held (Function.update stage i (some (k, ran))) l j := by
    rintro j ⟨ran', hj, hne⟩
    by_cases hji : j = i
    · subst hji
      obtain ⟨rfl, hran, -⟩ := hs ran' hj
      exact ⟨ran, Function.update_self .., hran⟩
    · exact ⟨ran', by rw [Function.update_of_ne hji]; exact hj, hne⟩
  refine {
    h with
    bound := fun j f hf => hheld j (h.bound j f hf), current := ?_, reading := ?_
    unhandled := ?_, closing := ?_ }
  · intro p hp
    obtain ⟨hc, hu, hp⟩ := h.current p hp
    exact ⟨hc, hu, hheld p.1 hp⟩
  · intro p hp hr
    have hst := h.reading p hp hr
    have hne : p.1 ≠ i := by
      rintro rfl
      refine ((hs _ hst).2.2.1 rfl).2 ?_
      rw [← hr]
      exact hp
    rw [Function.update_of_ne hne]
    exact hst
  · intro j hj
    have hst := h.unhandled j hj
    have hne : j ≠ i := by
      rintro rfl
      exact ((hs _ hst).2.2.1 rfl).1 hj
    rw [Function.update_of_ne hne]
    exact hst
  · intro j hj
    have hst := h.closing j hj
    have hne : j ≠ i := by
      rintro rfl
      exact (hs _ hst).2.2.2 rfl hj
    rw [Function.update_of_ne hne]
    exact hst

theorem LoopBooks.pop {L : ServerLoop} (h : LoopBooks stage l L) {f : LoopFunctor}
    {fs : List LoopFunctor} (hq : L.functors = f::fs) :
    LoopBooks stage l { L with functors := fs } := by
  refine { h with bound := fun j g hg => h.bound j g ?_, swapped := fun he => ?_ }
  · rw [ServerLoop.queue, hq]
    exact List.mem_cons_of_mem _ hg
  · rw [h.swapped he] at hq
    cases hq

theorem LoopBooks.append {L : ServerLoop} (h : LoopBooks stage l L) {fs : List LoopFunctor}
    (hf : ∀ j g, .ofConnection j g ∈ fs → Held stage l j) :
    LoopBooks stage l { L with pendingFunctors := L.pendingFunctors ++ fs } := by
  refine { h with bound := fun j g hg => ?_ }
  rw [ServerLoop.queue, ← List.append_assoc, List.mem_append] at hg
  exact hg.elim (h.bound j g) (hf j g)

end Stages

namespace ServerLoops
open Outcome OutputStream TCPConnection

/-- What every connection goes through. -/
def course : List Milestone :=
  [.connectEstablished, .handleClose, .removeConnection, .removeConnectionInLoop,
    .connectDestroyed]

structure Left (c : TCPConnection) : Prop where
  down : c.Down
  index : c.channel.index = .kDeleted

def Fits : List Milestone → TCPConnection → Prop
  | [], c => c.state = .kConnecting ∧ c.channel.index = .kNew
  | [.connectEstablished], c => c.Up ∧ c.Listening
  | [.connectEstablished, .handleClose], c => Left c
  | [.connectEstablished, .handleClose, .removeConnection], c => Left c
  | [.connectEstablished, .handleClose, .removeConnection, .removeConnectionInLoop], c => Left c
  | [.connectEstablished, .handleClose, .removeConnection, .removeConnectionInLoop,
      .connectDestroyed], c => c.Gone
  | _, _ => False

structure Good (x : ServerConn) : Prop where
  fits : Fits x.ran x.conn
  settled : x.conn.effects = []
  output : OutputInv x.conn

def queue (s : ServerLoops) (l : ℕ) : List LoopFunctor := (s.loops l).queue

def stage (s : ServerLoops) (i : ℕ) : Option Stage :=
  (s.objects i).map (fun x => (x.loop, x.ran))

structure Holds (server : ServerSetup) (s : ServerLoops) (hand : Option ℕ) : Prop where
  books : ∀ l, LoopBooks s.stage l (s.loops l)
  inFlight : InFlight LoopFunctor.target (due s.stage hand) s.queue
  good : ∀ i x, s.objects i = some x → Good x
  named : ∀ i x, s.objects i = some x →
    x.name = connName server.name server.ipPort i ∧ i < s.nextConnId
  few : s.nextConnId ≤ 2^31
  registered : ∀ n i, s.connections n = some i ↔
    ∃ x, s.objects i = some x ∧ x.name = n ∧ .removeConnectionInLoop ∉ x.ran
  erased : ∀ e ∈ s.erased, e.2 = some e.1
  next : server.numThreads ≠ 0 → s.next < server.numThreads

section Stages

theorem ran_prefix {ran : List Milestone} {c : TCPConnection} (h : Fits ran c) :
    ran <+: course := by
  unfold Fits at h
  split at h
  · exact List.nil_prefix
  · exact ⟨course.drop 1, rfl⟩
  · exact ⟨course.drop 2, rfl⟩
  · exact ⟨course.drop 3, rfl⟩
  · exact ⟨course.drop 4, rfl⟩
  · exact ⟨[], rfl⟩
  · exact h.elim

theorem ran_of_getLast {ran : List Milestone} {c : TCPConnection} (h : Fits ran c) {m : Milestone}
    (hm : ran.getLast? = some m) : ran = course.takeWhile (· ≠ m) ++ [m] := by
  unfold Fits at h
  split at h
  · cases hm
  · cases hm
    rfl
  · cases hm
    rfl
  · cases hm
    rfl
  · cases hm
    rfl
  · cases hm
    rfl
  · exact h.elim

theorem ran_of_up {ran : List Milestone} {c : TCPConnection} (h : Fits ran c) (hu : c.Up) :
    ran = [.connectEstablished] ∧ c.Listening := by
  have hdown : ¬c.Down := fun hd => not_down_of_up hu hd.state
  unfold Fits at h
  split at h
  · rcases hu with hu | hu
    · exact nomatch h.1.symm.trans hu
    · exact nomatch h.1.symm.trans hu
  · exact ⟨rfl, h.2⟩
  · exact absurd h.down hdown
  · exact absurd h.down hdown
  · exact absurd h.down hdown
  · exact absurd h.down hdown
  · exact h.elim

theorem up_of_added {ran : List Milestone} {c : TCPConnection} (h : Fits ran c)
    (hk : c.channel.index = .kAdded) : c.Up := by
  unfold Fits at h
  split at h
  · exact nomatch h.2.symm.trans hk
  · exact h.1
  · exact nomatch h.index.symm.trans hk
  · exact nomatch h.index.symm.trans hk
  · exact nomatch h.index.symm.trans hk
  · exact nomatch h.index.symm.trans hk
  · exact h.elim

theorem fits_of_keeps {ran : List Milestone} {c c' : TCPConnection} (h : Fits ran c)
    (hne : ran ≠ []) (hk : Keeps c c') : Fits ran { c' with effects := [] } := by
  have hleft : Left c → Left { c' with effects := [] } := by
    intro hl
    obtain ⟨hdown, hc⟩ := hk.down_settled hl.down
    exact ⟨hdown, by rw [hc]; exact hl.index⟩
  unfold Fits at h
  split at h
  · exact absurd rfl hne
  · have hl := hk.listening h.2
    exact ⟨hk.up h.1, ⟨hl.reading, hl.index⟩⟩
  · exact hleft h
  · exact hleft h
  · exact hleft h
  · obtain ⟨hdown, hc⟩ := hk.down_settled h.down
    exact ⟨hdown, by rw [hc]; exact h.index, by rw [hc]; exact h.addedToLoop⟩
  · exact h.elim

theorem stage_of {s : ServerLoops} {i : ℕ} {x : ServerConn} (hx : s.objects i = some x) :
    s.stage i = some (x.loop, x.ran) := by
  simp [stage, hx]

theorem object_of_stage {s : ServerLoops} {i : ℕ} {st : Stage} (h : s.stage i = some st) :
    ∃ x, s.objects i = some x ∧ x.loop = st.1 ∧ x.ran = st.2 := by
  obtain ⟨x, hx, rfl⟩ := Option.map_eq_some_iff.mp h
  exact ⟨x, hx, rfl, rfl⟩

theorem forall_put {P : ℕ → ServerConn → Prop} {s : ServerLoops} {i : ℕ} {x : ServerConn}
    (h : ∀ j y, j ≠ i → s.objects j = some y → P j y) (hi : P i x) :
    ∀ j y, (s.put i x).objects j = some y → P j y := by
  intro j y hy
  by_cases hj : j = i
  · subst hj
    rw [put_self] at hy
    cases hy
    exact hi
  · rw [put_of_ne s i x hj] at hy
    exact h j y hj hy

theorem stage_put (s : ServerLoops) (i : ℕ) (x : ServerConn) :
    (s.put i x).stage = Function.update s.stage i (some (x.loop, x.ran)) := by
  funext j
  by_cases hj : j = i
  · subst hj
    simp [stage]
  · simp [stage, hj]

theorem stage_put_self (s : ServerLoops) (i : ℕ) (x : ServerConn) :
    (s.put i x).stage i = some (x.loop, x.ran) := stage_of (put_self ..)

theorem stage_put_same {s : ServerLoops} {i : ℕ} {x : ServerConn} (hx : s.objects i = some x)
    (c : TCPConnection) : (s.put i { x with conn := c }).stage = s.stage := by
  rw [stage_put, ← stage_of hx, Function.update_eq_self]

theorem queue_onLoop (s : ServerLoops) (l : ℕ) (f : ServerLoop → ServerLoop) :
    (s.onLoop l f).queue = Function.update s.queue l (f (s.loops l)).queue := by
  funext k
  by_cases hk : k = l
  · subst hk
    simp [queue]
  · simp [queue, hk]

end Stages

section Holding
variable {server : ServerSetup} {s : ServerLoops} {hand : Option ℕ} {l i : ℕ}

theorem Holds.onLoop {hand' : Option ℕ} (h : Holds server s hand) {f : ServerLoop → ServerLoop}
    (hb : LoopBooks s.stage l (f (s.loops l)))
    (hq : InFlight LoopFunctor.target (due s.stage hand')
      (Function.update s.queue l (f (s.loops l)).queue)) :
    Holds server (s.onLoop l f) hand' := by
  refine { h with books := fun k => ?_, inFlight := ?_ }
  · by_cases hk : k = l
    · subst hk
      rw [onLoop_self]
      exact hb
    · rw [onLoop_of_ne s l f hk]
      exact h.books k
  · rw [queue_onLoop]
    exact hq

theorem Holds.onLoop_same (h : Holds server s hand) {f : ServerLoop → ServerLoop}
    (hb : LoopBooks s.stage l (f (s.loops l))) (hq : (f (s.loops l)).queue = s.queue l) :
    Holds server (s.onLoop l f) hand := by
  refine h.onLoop hb ?_
  rw [hq, Function.update_eq_self]
  exact h.inFlight

theorem Holds.put (h : Holds server s hand) {x : ServerConn} (hx : s.objects i = some x)
    {x' : ServerConn} (hg : Good x') (hn : x'.name = x.name)
    (hm : .removeConnectionInLoop ∈ x'.ran ↔ .removeConnectionInLoop ∈ x.ran)
    (hb : ∀ l, LoopBooks (s.put i x').stage l (s.loops l))
    (hd : due (s.put i x').stage hand = due s.stage hand) : Holds server (s.put i x') hand := by
  refine {
    h with
    books := hb, inFlight := ?_, good := forall_put (fun j y _ => h.good j y) hg
    named := forall_put (fun j y _ => h.named j y) ?_, registered := fun n j => ?_ }
  · rw [hd]
    exact h.inFlight
  · rw [hn]
    exact h.named i x hx
  · refine (h.registered n j).trans ?_
    by_cases hj : j = i
    · subst hj
      simp [hx, hn, hm]
    · simp [hj]

theorem Holds.advance (h : Holds server s (some i)) {x : ServerConn}
    (hx : s.objects i = some x) {c : TCPConnection} {ran : List Milestone}
    (hg : Good { x with conn := c, ran := ran }) (hne : ran ≠ [])
    (hm : .removeConnectionInLoop ∈ ran ↔ .removeConnectionInLoop ∈ x.ran)
    (hs : x.ran = [.connectEstablished] →
      i ∉ (s.loops x.loop).unhandled ∧ (i, .read) ∉ (s.loops x.loop).handling)
    (hc : x.ran = [.connectEstablished, .handleClose] → (s.loops x.loop).closing ≠ some i) :
    Holds server (s.put i { x with conn := c, ran := ran }) (some i) := by
  refine h.put hx hg rfl hm (fun l => ?_) (by rw [stage_put, due_update])
  rw [stage_put]
  refine (h.books l).advance (fun ran' hran => ?_)
  rw [stage_of hx] at hran
  cases hran
  exact ⟨rfl, hne, hs, hc⟩

theorem Holds.keep (h : Holds server s hand) {x : ServerConn} (hx : s.objects i = some x)
    {c : TCPConnection} (hg : Good { x with conn := c }) :
    Holds server (s.put i { x with conn := c }) hand := by
  have hsame := stage_put_same hx c
  refine h.put hx hg rfl Iff.rfl (fun l => ?_) (by rw [hsame])
  rw [hsame]
  exact h.books l

theorem Holds.grab (h : Holds server s none) (hn : (s.stage i).bind (nextFunctor i) = none) :
    Holds server s (some i) := by
  refine { h with inFlight := ?_ }
  rw [due_idle hn]
  exact h.inFlight

theorem Holds.drop (h : Holds server s (some i)) (hn : (s.stage i).bind (nextFunctor i) = none) :
    Holds server s none := by
  refine { h with inFlight := ?_ }
  rw [← due_idle hn]
  exact h.inFlight

theorem Holds.queueInLoop (h : Holds server s (some i)) {f : LoopFunctor}
    (hf : f.target = some i) (hn : (s.stage i).bind (nextFunctor i) = some (l, f)) :
    Holds server (s.queueInLoop l f) none := by
  refine h.onLoop ((h.books l).append fun j g hg => ?_) ?_
  · rw [← List.mem_singleton.mp hg] at hf
    cases hf
  · have hpush := h.inFlight.push (k := i) (l := l) (by simp [due]) hf
    rw [due_give, hn]
    simpa [ServerLoop.queue, queue] using hpush

theorem Holds.take (h : Holds server s none) {f : LoopFunctor} {fs : List LoopFunctor}
    (hq : (s.loops l).functors = f::fs) (hf : f.target = some i) :
    Holds server (s.onLoop l (fun L => { L with functors := fs })) (some i) ∧
      (s.stage i).bind (nextFunctor i) = some (l, f) := by
  have hqueue : s.queue l = f::(fs ++ (s.loops l).pendingFunctors) := by
    rw [queue, ServerLoop.queue, hq, List.cons_append]
  refine ⟨h.onLoop ((h.books l).pop hq) ?_, ?_⟩
  · rw [due_take]
    exact h.inFlight.pop hqueue hf
  · exact h.inFlight.due_of_mem hf (by rw [hqueue]; exact List.mem_cons_self)

theorem Holds.takeFree (h : Holds server s hand) {f : ConnFunctor} {fs : List LoopFunctor}
    (hq : (s.loops l).functors = .ofConnection i f::fs) :
    Holds server (s.onLoop l (fun L => { L with functors := fs })) hand := by
  have hqueue : s.queue l = .ofConnection i f::(fs ++ (s.loops l).pendingFunctors) := by
    rw [queue, ServerLoop.queue, hq, List.cons_append]
  exact h.onLoop ((h.books l).pop hq) (h.inFlight.pop_free hqueue rfl)

theorem target_of_effect {es : List Effect} {f : LoopFunctor}
    (h : f ∈ es.filterMap (Effect.loopFunctor i)) : ∃ g, f = .ofConnection i g := by
  obtain ⟨e, -, he⟩ := List.mem_filterMap.mp h
  cases e with
  | queueInLoop g => exact ⟨g, (Option.some.inj he).symm⟩
  | connectionCallback up => cases he
  | messageCallback => cases he
  | closeCallback => cases he
  | forceCloseAfter delay => cases he

theorem Holds.append (h : Holds server s hand) (hh : Held s.stage l i) (es : List Effect) :
    Holds server (s.onLoop l (fun L => { L with
      pendingFunctors := L.pendingFunctors ++ es.filterMap (Effect.loopFunctor i) })) hand := by
  refine h.onLoop ((h.books l).append fun j g hg => ?_) ?_
  · obtain ⟨f, hf⟩ := target_of_effect hg
    cases hf
    exact hh
  · have hfree : ∀ f ∈ es.filterMap (Effect.loopFunctor i), f.target = none := by
      intro f hf
      obtain ⟨g, rfl⟩ := target_of_effect hf
      rfl
    simpa [ServerLoop.queue, queue] using h.inFlight.append_free (l := l) hfree

end Holding

end ServerLoops

end Lux.Polaris
