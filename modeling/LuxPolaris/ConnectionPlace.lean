import LuxPolaris.ConnectionStates
import LuxPolaris.TCPServer

/-!
# The places of a server's connections

The place of a connection in the library (in `connections_`, between the last
two callbacks of `handleClose`, waiting for `connectDestroyed`, or let go)
says what state it is in, what its channel is interested in and which calls of
`connectionCallback_` it has seen. The invariant holds as long as `~TCPServer`
meets no connection that is disconnecting or still to be handled, and no
connection is closed twice by one event.
-/

set_option autoImplicit false

namespace Lux.Polaris.TCPServer
open Outcome OutputStream TCPConnection

inductive Place where
  | served
  | closing
  | leaving
  | gone
  deriving DecidableEq, Repr

def place (s : TCPServer) (i : ℕ) : Place :=
  if s.closing = some i then .closing
  else if i ∈ s.connections then .served
  else if .connectDestroyed i ∈ s.queue then .leaving
  else .gone

structure Closed (x : ConnObject) : Prop where
  down : x.conn.Down
  index : x.conn.channel.index = .kDeleted
  callbacks : x.callbacks = [true, false]
  destroyed : x.destroyed = false

structure Served (x : ConnObject) : Prop where
  up : x.conn.Up
  listening : x.conn.Listening
  callbacks : x.callbacks = [true]
  destroyed : x.destroyed = false

def Fits : Place → ConnObject → Prop
  | .served, x => Served x
  | .closing, x => Closed x
  | .leaving, x => Closed x
  | .gone, x => x.conn.Gone ∧ x.callbacks = [true, false]

structure Good (p : Place) (x : ConnObject) : Prop where
  fits : Fits p x
  settled : x.conn.effects = []
  output : OutputInv x.conn

/-- `~TCPServer` meets no connection that is disconnecting, nor one whose event
has still to be handled; no read finds the end of a stream that is closed. -/
def Used (s : TCPServer) : Action → Prop
  | .callback r _ => r = .read [] →
      ∀ p ∈ s.handling.take 1, p.2 = .read → s.state? p.1 ≠ some .kDisconnected
  | .deleteConnection i => s.state? i ≠ some .kDisconnecting ∧
      (s.eventHandling = true → i ∉ s.activeChannels)
  | _ => True

instance (s : TCPServer) : (a : Action) → Decidable (s.Used a)
  | .callback _ _ => inferInstanceAs (Decidable (_ → ∀ p ∈ _, _ → _))
  | .deleteConnection _ => inferInstanceAs (Decidable (_ ∧ (_ → _)))
  | .newConnection _ _ _ _ => isTrue trivial
  | .call _ _ => isTrue trivial
  | .poll _ => isTrue trivial
  | .handleEvent _ _ => isTrue trivial
  | .closeCallback => isTrue trivial
  | .fireDelayedClose _ => isTrue trivial
  | .swap => isTrue trivial
  | .runFunctor => isTrue trivial
  | .deleteServer => isTrue trivial
  | .serverDeleted => isTrue trivial
  | .release _ => isTrue trivial

structure Books (s : TCPServer) : Prop where
  held : ∀ i, s.Referenced i → s.Allocated i
  nodup : s.connections.Nodup
  closing : ∀ i, s.closing = some i → i ∈ s.connections ∧ i ∉ s.unhandled
  leaving : ∀ i, ServerFunctor.connectDestroyed i ∈ s.queue →
    i ∉ s.connections ∧ s.queue.count (.connectDestroyed i) = 1
  current : ∀ p ∈ s.handling, p.1 ∉ s.unhandled
  close_first : ∀ p ∈ s.handling.tail, p.2 ≠ .close
  close_served : ∀ p ∈ s.handling, p.2 = .close → s.closing = none ∧ p.1 ∈ s.connections
  unhandled : ∀ i ∈ s.unhandled, i ∈ s.connections ∧ i ∈ s.activeChannels
  once : s.unhandled.Nodup
  polled : s.eventHandling = false → s.unhandled = []
  swapped : s.eventHandling = true → s.functors = []
  emptied : s.phase = .destroyed → s.connections = []
  destructing : s.phase = .destructing → s.handling = [] ∧ s.closing = none

structure Inv (s : TCPServer) : Prop extends s.Books where
  good : ∀ i x, s.objects i = some x → Good (s.place i) x ∧ i < s.nextConnId

theorem construct_inv : construct.Inv where
  good := by simp [construct]
  held := by simp [construct, Referenced, queue]
  nodup := List.nodup_nil
  closing := by simp [construct]
  leaving := by simp [construct, queue]
  current := by simp [construct]
  close_first := by simp [construct]
  close_served := by simp [construct]
  unhandled := by simp [construct]
  once := List.nodup_nil
  polled := fun _ => rfl
  swapped := fun _ => rfl
  emptied := fun _ => rfl
  destructing := nofun

section Objects

theorem down_of_not_served {p : Place} (hp : p ≠ .served) {x : ConnObject} (hf : Fits p x) :
    x.conn.Down ∧ x.conn.channel.index ≠ .kAdded ∧ x.callbacks = [true, false] := by
  cases p with
  | served => exact absurd rfl hp
  | closing => exact ⟨hf.down, by simp [hf.index], hf.callbacks⟩
  | leaving => exact ⟨hf.down, by simp [hf.index], hf.callbacks⟩
  | gone => exact ⟨hf.1.down, by simp [hf.1.index], hf.2⟩

theorem allocated_iff {s : TCPServer} {i : ℕ} :
    s.Allocated i ↔ ∃ x, s.objects i = some x ∧ x.destroyed = false := by
  unfold Allocated
  cases s.objects i with
  | none => simp
  | some x => simp

theorem object_of {s : TCPServer} {i : ℕ} {x : ConnObject} (hx : s.objects i = some x)
    (hd : x.destroyed = false) : s.object i = .ok x := by
  simp [object, hx, hd]

theorem onConnection_ok {s : TCPServer} {i : ℕ} {x : ConnObject} {c : TCPConnection}
    (hx : s.objects i = some x) (hd : x.destroyed = false)
    {f : TCPConnection → Except Fault TCPConnection} (hf : f x.conn = .ok c) :
    s.onConnection i f = .ok (s.settle i x c) := by
  rw [onConnection, object_of hx hd, ok_bind, hf, ok_bind]
  rfl

theorem onConnection_error {s : TCPServer} {i : ℕ} {x : ConnObject} {e : Fault}
    (hx : s.objects i = some x) (hd : x.destroyed = false)
    {f : TCPConnection → Except Fault TCPConnection} (hf : f x.conn = .error e) :
    s.onConnection i f = .error e := by
  rw [onConnection, object_of hx hd, ok_bind, hf]
  rfl

theorem place_congr {s s' : TCPServer} {j : ℕ} (hc : s'.closing = some j ↔ s.closing = some j)
    (hm : j ∈ s'.connections ↔ j ∈ s.connections)
    (hq : .connectDestroyed j ∈ s'.queue ↔ .connectDestroyed j ∈ s.queue) :
    s'.place j = s.place j := by
  simp only [place, hc, hm, hq]

theorem place_served {s : TCPServer} {i : ℕ} (hc : s.closing ≠ some i) (hm : i ∈ s.connections) :
    s.place i = .served := by
  simp [place, hc, hm]

theorem place_gone {s : TCPServer} {i : ℕ} (hc : s.closing ≠ some i) (hm : i ∉ s.connections)
    (hq : .connectDestroyed i ∉ s.queue) : s.place i = .gone := by
  simp [place, hc, hm, hq]

theorem place_leaving {s : TCPServer} {i : ℕ} (hc : s.closing ≠ some i) (hm : i ∉ s.connections)
    (hq : .connectDestroyed i ∈ s.queue) : s.place i = .leaving := by
  simp [place, hc, hm, hq]

theorem put_good {s s' : TCPServer} {i : ℕ} {x' : ConnObject}
    (hg : ∀ j x, j ≠ i → s.objects j = some x → Good (s.place j) x ∧ j < s.nextConnId)
    (ho : s'.objects = Function.update s.objects i (some x'))
    (hp : ∀ j, j ≠ i → s'.place j = s.place j) (hn : s.nextConnId ≤ s'.nextConnId)
    (hi : Good (s'.place i) x' ∧ i < s'.nextConnId) :
    ∀ j x, s'.objects j = some x → Good (s'.place j) x ∧ j < s'.nextConnId := by
  intro j x hx
  by_cases hj : j = i
  · subst hj
    rw [ho, Function.update_self] at hx
    cases hx
    exact hi
  · rw [ho, Function.update_of_ne hj] at hx
    obtain ⟨hgood, hlt⟩ := hg j x hj hx
    exact ⟨hp j hj ▸ hgood, Nat.lt_of_lt_of_le hlt hn⟩

theorem put_allocated {s s' : TCPServer} {i : ℕ} {x' : ConnObject}
    (ho : s'.objects = Function.update s.objects i (some x')) (hd : x'.destroyed = false) {j : ℕ}
    (h : j = i ∨ s.Allocated j) : s'.Allocated j := by
  rw [allocated_iff]
  by_cases hj : j = i
  · subst hj
    exact ⟨x', by rw [ho, Function.update_self], hd⟩
  · obtain ⟨x, hx, hxd⟩ := allocated_iff.mp (h.resolve_left hj)
    exact ⟨x, by rw [ho, Function.update_of_ne hj, hx], hxd⟩

end Objects

section Settling

theorem queue_settle (s : TCPServer) (i : ℕ) (x : ConnObject) (c : TCPConnection) :
    (s.settle i x c).queue = s.queue ++ c.effects.filterMap (Effect.queued i) := by
  simp [queue, settle, put]

theorem queued_of_mem {i : ℕ} {es : List Effect} {f : ServerFunctor}
    (h : f ∈ es.filterMap (Effect.queued i)) : ∃ g, f = .ofConnection i g := by
  obtain ⟨e, -, he⟩ := List.mem_filterMap.mp h
  cases e with
  | queueInLoop g => exact ⟨g, (Option.some.inj he).symm⟩
  | connectionCallback up => cases he
  | messageCallback => cases he
  | closeCallback => cases he
  | forceCloseAfter delay => cases he

theorem mem_queue_settle {s : TCPServer} {i j : ℕ} {x : ConnObject} {c : TCPConnection} :
    .connectDestroyed j ∈ (s.settle i x c).queue ↔ .connectDestroyed j ∈ s.queue := by
  rw [queue_settle, List.mem_append]
  constructor
  · intro h
    refine h.resolve_right (fun h => ?_)
    obtain ⟨g, hg⟩ := queued_of_mem h
    cases hg
  · exact Or.inl

theorem count_queue_settle (s : TCPServer) (i j : ℕ) (x : ConnObject) (c : TCPConnection) :
    (s.settle i x c).queue.count (.connectDestroyed j) = s.queue.count (.connectDestroyed j) := by
  rw [queue_settle, List.count_append, Nat.add_eq_left]
  refine List.count_eq_zero.mpr (fun h => ?_)
  obtain ⟨g, hg⟩ := queued_of_mem h
  cases hg

theorem referenced_settle {s : TCPServer} {i j : ℕ} {x : ConnObject} {c : TCPConnection}
    (h : (s.settle i x c).Referenced j) : j = i ∨ s.Referenced j := by
  rcases h with h | h | h
  · exact Or.inr (Or.inl h)
  · obtain ⟨f, hf, rfl⟩ := List.mem_map.mp h
    rw [queue_settle] at hf
    rcases List.mem_append.mp hf with hf | hf
    · exact Or.inr (Or.inr (Or.inl (List.mem_map_of_mem hf)))
    · obtain ⟨g, rfl⟩ := queued_of_mem hf
      exact Or.inl rfl
  · exact Or.inr (Or.inr (Or.inr h))

theorem notified_of_quiet {es : List Effect} (h : ∀ e ∈ es, Quiet e) :
    es.filterMap Effect.notified = [] := by
  refine List.filterMap_eq_nil_iff.mpr (fun e he => ?_)
  cases e with
  | connectionCallback up => exact (h _ he).elim
  | _ => rfl

theorem fits_of_keeps {p : Place} {x : ConnObject} (hf : Fits p x) {c : TCPConnection}
    (hk : Keeps x.conn c) : Fits p { x with conn := { c with effects := [] } } := by
  have hclosed : Closed x → Closed { x with conn := { c with effects := [] } } := by
    intro h
    obtain ⟨hdown, hc⟩ := hk.down_settled h.down
    exact ⟨hdown, by rw [hc]; exact h.index, h.callbacks, h.destroyed⟩
  cases p with
  | served =>
    have hl := hk.listening hf.listening
    exact ⟨hk.up hf.up, ⟨hl.reading, hl.index⟩, hf.callbacks, hf.destroyed⟩
  | closing => exact hclosed hf
  | leaving => exact hclosed hf
  | gone =>
    obtain ⟨hg, hcb⟩ := hf
    obtain ⟨hdown, hc⟩ := hk.down_settled hg.down
    exact ⟨⟨hdown, by rw [hc]; exact hg.index, by rw [hc]; exact hg.addedToLoop⟩, hcb⟩

section Unclosed
variable {s : TCPServer} {i : ℕ} {x : ConnObject} {c : TCPConnection}

theorem closing_settle (h : Effect.closeCallback ∉ c.effects) :
    (s.settle i x c).closing = s.closing := if_neg h

theorem place_settle (h : Effect.closeCallback ∉ c.effects) (j : ℕ) :
    (s.settle i x c).place j = s.place j :=
  place_congr (by rw [closing_settle h]) Iff.rfl mem_queue_settle

theorem settle_books (hb : s.Books) (hd : x.destroyed = false)
    (h : Effect.closeCallback ∉ c.effects) : (s.settle i x c).Books := by
  have hclosing := closing_settle (s := s) (i := i) (x := x) h
  refine {
    hb with
    held := ?_, closing := ?_, leaving := ?_, close_served := ?_, destructing := ?_ }
  · intro j hj
    refine put_allocated rfl ?_ ((referenced_settle hj).imp_right (hb.held j))
    exact hd
  · intro j hj
    exact hb.closing j (hclosing.symm.trans hj)
  · intro j hj
    rw [count_queue_settle]
    exact hb.leaving j (mem_queue_settle.mp hj)
  · intro p hp hcb
    rw [hclosing]
    exact hb.close_served p hp hcb
  · rw [hclosing]
    exact hb.destructing

end Unclosed

theorem settle_keeps {s : TCPServer} (hi : s.Inv) {i : ℕ} {x : ConnObject}
    (hx : s.objects i = some x) (hd : x.destroyed = false) {c : TCPConnection}
    (hk : Keeps x.conn c) (ho : OutputInv c) : (s.settle i x c).Inv := by
  obtain ⟨hgood, hlt⟩ := hi.good i x hx
  obtain ⟨es, he, hq⟩ := hk.quiet
  rw [hgood.settled, List.nil_append] at he
  have hclose : Effect.closeCallback ∉ c.effects := by
    rw [he]
    exact fun h => hq _ h
  have hcallbacks : x.callbacks ++ c.effects.filterMap Effect.notified = x.callbacks := by
    rw [he, notified_of_quiet hq, List.append_nil]
  refine { settle_books hi.toBooks hd hclose with good := ?_ }
  refine put_good (fun j y _ => hi.good j y) rfl (fun j _ => place_settle hclose j)
    (Nat.le_refl _) ⟨?_, hlt⟩
  rw [place_settle hclose, hcallbacks]
  exact ⟨fits_of_keeps hgood.fits hk, rfl, outputInv_settled ho⟩

theorem place_of_up {s : TCPServer} (hi : s.Inv) {i : ℕ} {x : ConnObject}
    (hx : s.objects i = some x) (hu : x.conn.Up) : s.place i = .served := by
  by_contra h
  have hdown := (down_of_not_served h (hi.good i x hx).1.fits).1
  exact not_down_of_up hu hdown.state

theorem served_mem {s : TCPServer} {i : ℕ} (h : s.place i = .served) : i ∈ s.connections := by
  unfold place at h
  split_ifs at h with h₁ h₂
  exact h₂

theorem settle_closes {s : TCPServer} (hi : s.Inv) {i : ℕ} {x : ConnObject}
    (hx : s.objects i = some x) (hd : x.destroyed = false) {c : TCPConnection}
    (hk : Closes x.conn c) (ho : OutputInv c) (hn : s.closing = none) (hu : i ∉ s.unhandled)
    (hh : ∀ p ∈ s.handling, p.2 ≠ .close) (hph : s.phase ≠ .destructing) :
    (s.settle i x c).Inv := by
  obtain ⟨hgood, hlt⟩ := hi.good i x hx
  have hserved := place_of_up hi hx hk.up
  have hmem := served_mem hserved
  have hf : Fits .served x := hserved ▸ hgood.fits
  have he : c.effects = [.connectionCallback false, .closeCallback] := by
    rw [hk.effects, hgood.settled, List.nil_append]
  have hclosing : (s.settle i x c).closing = some i := if_pos (by simp [he])
  refine {
    hi with
    held := ?_, closing := ?_, leaving := ?_, close_served := ?_, destructing := ?_, good := ?_ }
  · intro j h
    refine put_allocated rfl ?_ ((referenced_settle h).imp_right (hi.held j))
    exact hd
  · intro j h
    cases hclosing.symm.trans h
    exact ⟨hmem, hu⟩
  · intro j h
    rw [count_queue_settle]
    exact hi.leaving j (mem_queue_settle.mp h)
  · exact fun p hp hcb => absurd hcb (hh p hp)
  · exact fun h => absurd h hph
  · refine put_good (fun j y _ => hi.good j y) rfl (fun j hj => ?_) (Nat.le_refl _) ⟨?_, hlt⟩
    · refine place_congr ?_ Iff.rfl mem_queue_settle
      rw [hclosing, hn]
      simp [Ne.symm hj]
    · have hplace : (s.settle i x c).place i = .closing := if_pos hclosing
      rw [hplace]
      refine ⟨⟨⟨hk.down.state, hk.down.events⟩, hk.index hf.listening.index, ?_, hf.destroyed⟩, rfl,
        outputInv_settled ho⟩
      simp [hf.callbacks, he, Effect.notified]

end Settling

end Lux.Polaris.TCPServer
