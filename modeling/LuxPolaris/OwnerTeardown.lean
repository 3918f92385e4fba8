import LuxPolaris.ConnectionOwners

/-!
# Close callbacks and owners that are gone

A destructor leaves two kinds of pointers behind: close callbacks that its
messages have not reached yet, and `removeConnectionInLoop` functors. While the
owner lives, every connection that can still close is in its books; while the
destructor runs, a statement for it is due or its message is queued; afterwards
the message is queued.
-/

set_option autoImplicit false

namespace Lux.Polaris
open Outcome

namespace TCPConnection

/-- What owners see of a function of the connection: it stays closed, and only
a connection that is up comes to its close callback. -/
structure Passes (c c' : TCPConnection) : Prop where
  down : c.state = .kDisconnected → c'.state = .kDisconnected
  closes : c.effects = [] → .closeCallback ∈ c'.effects → c.Up ∧ c'.state = .kDisconnected

structure Stays (c c' : TCPConnection) : Prop where
  down : c.state = .kDisconnected → c'.state = .kDisconnected
  open_ : c.effects = [] → .closeCallback ∉ c'.effects

theorem Stays.passes {c c' : TCPConnection} (h : Stays c c') : Passes c c' where
  down := h.down
  closes he hc := absurd hc (h.open_ he)

theorem stays_of_keeps {c c' : TCPConnection} (h : Keeps c c') : Stays c c' where
  down hd := (h.down hd).1
  open_ he hc := by
    obtain ⟨es, hes, hq⟩ := h.quiet
    rw [hes, he, List.nil_append] at hc
    exact hq _ hc

theorem passes_of_closes {c c' : TCPConnection} (h : Closes c c') : Passes c c' where
  down hd := absurd hd (not_down_of_up h.up)
  closes _ _ := ⟨h.up, h.down.state⟩

theorem stays_of_queued {c c' : TCPConnection} (hs : c'.state = c.state) (fs : List ConnFunctor)
    (he : c'.effects = c.effects ++ fs.map .queueInLoop) : Stays c c' where
  down hd := hs.trans hd
  open_ hn hc := by
    rw [he, hn, List.nil_append] at hc
    obtain ⟨f, -, hf⟩ := List.mem_map.mp hc
    cases hf

theorem handleWrite_stays {c c' : TCPConnection} {w : WriteResult}
    (h : c.handleWrite w = .ok c') : Stays c c' := by
  rcases handleWrite_cases h with ⟨rfl, -⟩ | ⟨-, data, k, output, -, -, -, -, hc⟩
  · exact stays_of_keeps (keeps_refl _)
  · rcases hc with ⟨-, rfl⟩ | ⟨-, fs, d, rfl, rfl⟩
    · exact stays_of_queued rfl [] (List.append_nil _).symm
    · split_ifs
      · exact stays_of_queued rfl fs rfl
      · exact stays_of_queued rfl fs rfl

theorem handleCallback_passes {c c' : TCPConnection} {r : Buffer.ReadResult} {w : WriteResult}
    {cb : Callback} (h : c.handleCallback r w cb = .ok c') : Passes c c' := by
  cases cb with
  | close => exact passes_of_closes (handleClose_closes h)
  | error =>
    cases h
    exact (stays_of_keeps (keeps_refl c)).passes
  | read => exact (handleRead_states h).elim (fun h => (stays_of_keeps h).passes) passes_of_closes
  | write => exact (handleWrite_stays h).passes

theorem readFd_pos {b b' : Buffer} {bytes : List Byte} {n : ℕ} (hb : bytes ≠ [])
    (h : b.readFd (.read bytes) = .ok (.ok n, b')) : 0 < n := by
  have hpos := Buffer.length_take_iovLength_pos b hb
  obtain ⟨buf, -, heq⟩ := bind_ok.mp h
  split_ifs at heq
  · cases heq
    exact hpos
  · obtain ⟨b₁, -, heq⟩ := bind_ok.mp heq
    cases heq
    exact hpos

theorem handleRead_stays {c c' : TCPConnection} {r : Buffer.ReadResult} (hr : r ≠ .read [])
    (h : c.handleRead r = .ok c') : Stays c c' := by
  have hin : ∀ input, Keeps c { c with inputBuffer := input } :=
    fun input => keeps_of_functors rfl rfl [] (List.append_nil _).symm
  obtain ⟨⟨n, input⟩, hread, heq⟩ := bind_ok.mp h
  cases n with
  | error errno =>
    cases heq
    exact stays_of_keeps (hin input)
  | ok n =>
    have hpos : 0 < n := by
      cases r with
      | failed errno => cases hread
      | read bytes => exact readFd_pos (fun hb => hr (congrArg _ hb)) hread
    simp only [gt_iff_lt, hpos, if_true] at heq
    cases heq
    exact stays_of_keeps ((hin input).trans (emit_keeps _ trivial))

theorem handleCallback_stays {c c' : TCPConnection} {r : Buffer.ReadResult} {w : WriteResult}
    {cb : Callback} (hcb : ¬ClosedBy r cb) (h : c.handleCallback r w cb = .ok c') :
    Stays c c' := by
  cases cb with
  | close => exact absurd (Or.inl rfl) hcb
  | error =>
    cases h
    exact stays_of_keeps (keeps_refl c)
  | read => exact handleRead_stays (fun hr => hcb (Or.inr ⟨rfl, hr⟩)) h
  | write => exact handleWrite_stays h

theorem userCall_cases {c : TCPConnection} {a : Call} (ha : ConnectionLoop.UserCall c a) :
    a = .startRead ∨ a = .stopRead ∨ c.UserCall a := by
  cases a with
  | startRead => exact Or.inl rfl
  | stopRead => exact Or.inr (Or.inl rfl)
  | _ => exact Or.inr (Or.inr ha)

theorem userCall_stays {c c' : TCPConnection} {a : Call} (ha : ConnectionLoop.UserCall c a)
    (h : c.call a = .ok c') : Stays c c' := by
  rcases userCall_cases ha with rfl | rfl | ha
  · cases h
    unfold startReadInLoop
    split_ifs <;> exact stays_of_queued rfl [] (List.append_nil _).symm
  · cases h
    unfold stopReadInLoop
    split_ifs <;> exact stays_of_queued rfl [] (List.append_nil _).symm
  · exact stays_of_keeps (userCall_keeps ha h)

theorem connectEstablished_stays {c c' : TCPConnection} (h : c.connectEstablished = .ok c') :
    Stays c c' := by
  obtain ⟨u, hu, heq⟩ := bind_ok.mp h
  have hst : c.state = .kConnecting := assertThat_ok.mp hu
  cases heq
  refine ⟨fun hd => (nomatch hst.symm.trans hd), fun he => ?_⟩
  simp [callConnectionCallback, emit, setState, he]

theorem connectDestroyed_stays {c c' : TCPConnection} (hq : Owners.Quits c)
    (h : c.connectDestroyed = .ok c') : Stays c c' ∧ c'.state = .kDisconnected := by
  obtain ⟨channel, hr, heq⟩ := bind_ok.mp h
  by_cases hc : c.state = .kConnected
  · simp only [hc, if_true] at hr heq
    cases heq
    refine ⟨⟨fun _ => rfl, fun he => ?_⟩, rfl⟩
    simp [callConnectionCallback, emit, setState, he]
  · simp only [hc, if_false] at hr heq
    cases heq
    have hnone : c.channel.isNoneEvent = true := by
      obtain ⟨u, hu, -⟩ := bind_ok.mp hr
      exact assertThat_ok.mp hu
    have hd : c.state = .kDisconnected := by
      rcases hq with hq | hq | hq
      · exact absurd hq hc
      · exact hq
      · cases hnone.symm.trans hq
    exact ⟨stays_of_queued rfl [] (List.append_nil _).symm, hd⟩

theorem forceCloseInLoop_passes {c c' : TCPConnection} (h : c.forceCloseInLoop = .ok c') :
    Passes c c' :=
  (forceCloseInLoop_states h).elim (fun h => (stays_of_keeps h).passes) passes_of_closes

end TCPConnection

namespace Owners
open TCPConnection
variable {s s' : Owners} {but but' : Option ℕ}

section Fields

@[simp] theorem putOwner_self (k : ℕ) (o : Owner) : (s.putOwner k o).owners k = some o :=
  Function.update_self ..

theorem putOwner_of_ne {k j : ℕ} (h : j ≠ k) (o : Owner) :
    (s.putOwner k o).owners j = s.owners j :=
  Function.update_of_ne h ..

@[simp] theorem onLoop_self (l : ℕ) (f : OwnerLoop → OwnerLoop) :
    (s.onLoop l f).loops l = f (s.loops l) :=
  Function.update_self ..

theorem onLoop_of_ne {l m : ℕ} (h : m ≠ l) (f : OwnerLoop → OwnerLoop) :
    (s.onLoop l f).loops m = s.loops m :=
  Function.update_of_ne h ..

theorem mem_queueInLoop {l m : ℕ} {fs : List OwnerFunctor} {f : OwnerFunctor} :
    f ∈ ((s.queueInLoop l fs).loops m).queue ↔ f ∈ (s.loops m).queue ∨ m = l ∧ f ∈ fs := by
  rw [queueInLoop]
  by_cases hm : m = l
  · subst hm
    rw [onLoop_self]
    simp only [OwnerLoop.queue, List.mem_append, true_and, or_assoc]
  · simp only [onLoop_of_ne hm, hm, false_and, or_false]

theorem queueInLoop_warned {i l m : ℕ} {fs : List OwnerFunctor} (h : s.Warned i m) :
    (s.queueInLoop l fs).Warned i m :=
  h.imp (fun h => mem_queueInLoop.mpr (Or.inl h)) (fun h => mem_queueInLoop.mpr (Or.inl h))

end Fields

section Invariant

/-- The connection will hear of the end of its owner, or is in its books. -/
def Covered (s : Owners) (i l : ℕ) (o : Owner) : Prop :=
  match o.phase with
  | .alive => i ∈ o.connections
  | .destructing _ rest =>
    (.connectDestroyed i ∈ rest ∨ .setCloseCallback i ∈ rest) ∨ s.Warned i l
  | .destroyed => s.Warned i l

/-- Every connection but `but` that can still close is covered, and whatever is
on the way to `removeConnection` finds the owner. -/
structure Inv (s : Owners) (but : Option ℕ) : Prop where
  settled : ∀ i x, s.conns i = some x → x.conn.effects = []
  covered : ∀ i x k, some i ≠ but → s.conns i = some x → x.onClose = some k →
    x.conn.state ≠ .kDisconnected → ∃ o, s.owners k = some o ∧ s.Covered i x.loop o
  closing : ∀ i ∈ s.closing, ∃ x, s.conns i = some x ∧ x.conn.state = .kDisconnected ∧
    ∀ k, x.onClose = some k → ∀ o, s.owners k = some o → o.phase ≠ .destroyed
  removal : ∀ l k i, .removeConnectionInLoop k i ∈ (s.loops l).queue →
    (∃ x, s.conns i = some x ∧ x.conn.state = .kDisconnected) ∧
      ∃ o, s.owners k = some o ∧ o.loop = l ∧ o.phase ≠ .destroyed

theorem construct_inv : construct.Inv none where
  settled _ _ h := nomatch h
  covered _ _ _ _ h := nomatch h
  closing _ h := absurd h List.not_mem_nil
  removal _ _ _ h := absurd h List.not_mem_nil

theorem covered_mono {i l : ℕ} {o : Owner} (hw : s.Warned i l → s'.Warned i l)
    (h : s.Covered i l o) : s'.Covered i l o := by
  unfold Covered at h ⊢
  cases hp : o.phase with
  | alive =>
    rw [hp] at h
    exact h
  | destructing thread rest =>
    rw [hp] at h
    exact h.imp_right hw
  | destroyed =>
    rw [hp] at h
    exact hw h

theorem Inv.frame (hi : s.Inv but) (hbut : ∀ i, some i ≠ but' → some i ≠ but)
    (hc : s'.conns = s.conns) (ho : s'.owners = s.owners) (hcl : ∀ i ∈ s'.closing, i ∈ s.closing)
    (hw : ∀ i l, some i ≠ but' → s.Warned i l → s'.Warned i l)
    (hr : ∀ l k i, .removeConnectionInLoop k i ∈ (s'.loops l).queue →
      .removeConnectionInLoop k i ∈ (s.loops l).queue) : s'.Inv but' where
  settled i x h := hi.settled i x (hc ▸ h)
  covered i x k hb hx hk hs := by
    obtain ⟨o, hok, hcov⟩ := hi.covered i x k (hbut i hb) (hc ▸ hx) hk hs
    exact ⟨o, ho ▸ hok, covered_mono (hw i x.loop hb) hcov⟩
  closing i h := by
    rw [hc, ho]
    exact hi.closing i (hcl i h)
  removal l k i h := by
    rw [hc, ho]
    exact hi.removal l k i (hr l k i h)

/-- The rule for one connection: `x` takes the place of what was at `i`, which
is as closed as before and calls no other owner. -/
theorem Inv.change (hi : s.Inv but) (i : ℕ) (x : OwnedConn)
    (hc : s'.conns = Function.update s.conns i (some x)) (ho : s'.owners = s.owners)
    (hbut : ∀ j, j ≠ i → some j ≠ but' → some j ≠ but) (hset : x.conn.effects = [])
    (hold : ∀ y, s.conns i = some y →
      (y.conn.state = .kDisconnected → x.conn.state = .kDisconnected) ∧
        ∀ k, x.onClose = some k → y.onClose = some k)
    (hcov : ∀ k, some i ≠ but' → x.onClose = some k → x.conn.state ≠ .kDisconnected →
      ∃ o, s.owners k = some o ∧ s'.Covered i x.loop o)
    (hcl : ∀ j ∈ s'.closing, j ∈ s.closing ∨ j = i ∧ x.conn.state = .kDisconnected ∧
      ∀ k, x.onClose = some k → ∀ o, s.owners k = some o → o.phase ≠ .destroyed)
    (hw : ∀ j l, s.Warned j l → s'.Warned j l)
    (hr : ∀ l k j, .removeConnectionInLoop k j ∈ (s'.loops l).queue →
      .removeConnectionInLoop k j ∈ (s.loops l).queue) : s'.Inv but' := by
  have hself : s'.conns i = some x := by rw [hc, Function.update_self]
  have hother : ∀ j, j ≠ i → s'.conns j = s.conns j :=
    fun j hj => by rw [hc, Function.update_of_ne hj]
  have hclosed : ∀ j y, s.conns j = some y → y.conn.state = .kDisconnected →
      ∃ z, s'.conns j = some z ∧ z.conn.state = .kDisconnected ∧
        ∀ k, z.onClose = some k → y.onClose = some k := by
    intro j y hy hd
    by_cases hj : j = i
    · subst hj
      exact ⟨x, hself, (hold y hy).1 hd, (hold y hy).2⟩
    · exact ⟨y, (hother j hj).trans hy, hd, fun _ h => h⟩
  refine ⟨fun j y hy => ?_, fun j y k hb hy hk hs => ?_, fun j hj => ?_, fun l k j hj => ?_⟩
  · by_cases hji : j = i
    · subst hji
      cases hself.symm.trans hy
      exact hset
    · exact hi.settled j y ((hother j hji).symm.trans hy)
  · rw [ho]
    by_cases hji : j = i
    · subst hji
      cases hself.symm.trans hy
      exact hcov k hb hk hs
    · obtain ⟨o, hok, hold'⟩ :=
        hi.covered j y k (hbut j hji hb) ((hother j hji).symm.trans hy) hk hs
      exact ⟨o, hok, covered_mono (hw j y.loop) hold'⟩
  · rw [ho]
    rcases hcl j hj with hj | ⟨rfl, hd, hk⟩
    · obtain ⟨y, hy, hd, hk⟩ := hi.closing j hj
      obtain ⟨z, hz, hzd, hzk⟩ := hclosed j y hy hd
      exact ⟨z, hz, hzd, fun k h => hk k (hzk k h)⟩
    · exact ⟨x, hself, hd, hk⟩
  · rw [ho]
    obtain ⟨⟨y, hy, hd⟩, hok⟩ := hi.removal l k j (hr l k j hj)
    obtain ⟨z, hz, hzd, -⟩ := hclosed j y hy hd
    exact ⟨⟨z, hz, hzd⟩, hok⟩

theorem onLoop_queue {l : ℕ} {f : OwnerLoop → OwnerLoop}
    (hf : (f (s.loops l)).queue = (s.loops l).queue) (m : ℕ) :
    ((s.onLoop l f).loops m).queue = (s.loops m).queue := by
  by_cases hm : m = l
  · subst hm
    rw [onLoop_self]
    exact hf
  · rw [onLoop_of_ne hm]

theorem onLoop_inv (hi : s.Inv but) {l : ℕ} {f : OwnerLoop → OwnerLoop}
    (hf : (f (s.loops l)).queue = (s.loops l).queue) : (s.onLoop l f).Inv but := by
  refine hi.frame (fun _ h => h) rfl rfl (fun _ h => h) (fun i m _ h => ?_) (fun m k i h => ?_)
  · rw [Warned, onLoop_queue hf]
    exact h
  · rw [← onLoop_queue hf]
    exact h

theorem queueInLoop_inv (hi : s.Inv but) {l : ℕ} {fs : List OwnerFunctor}
    (hf : ∀ f ∈ fs, f.owner? = none) : (s.queueInLoop l fs).Inv but := by
  refine hi.frame (fun _ h => h) rfl rfl (fun _ h => h) (fun _ _ _ => queueInLoop_warned)
    (fun m k i h => ?_)
  rcases mem_queueInLoop.mp h with h | ⟨-, h⟩
  · exact h
  · exact nomatch hf _ h

theorem queueDestroyed_inv (hi : s.Inv but) (l i : ℕ) :
    (s.queueInLoop l [.connectDestroyed i]).Inv but := by
  refine queueInLoop_inv hi (fun f hf => ?_)
  rw [List.mem_singleton.mp hf]
  rfl

theorem covered_of_warned {i l : ℕ} {o : Owner} (ho : o.phase ≠ .alive) (hw : s.Warned i l) :
    s.Covered i l o := by
  unfold Covered
  cases hp : o.phase with
  | alive => exact absurd hp ho
  | destructing thread rest => exact Or.inr hw
  | destroyed => exact hw

theorem message_inv {i : ℕ} {x : OwnedConn} (hi : s.Inv (some i)) (hx : s.conns i = some x)
    (hown : ∀ k, x.onClose = some k → ∃ o, s.owners k = some o ∧ o.phase ≠ .alive)
    {f : OwnerFunctor} (hf : f = .connectDestroyed i ∨ f = .setCloseCallback i) :
    (s.queueInLoop x.loop [f]).Inv none := by
  have hq : (s.queueInLoop x.loop [f]).Inv (some i) := by
    refine queueInLoop_inv hi (fun g hg => ?_)
    rw [List.mem_singleton.mp hg]
    rcases hf with rfl | rfl <;> rfl
  refine ⟨hq.settled, fun j y k _ hy hk hs => ?_, hq.closing, hq.removal⟩
  by_cases hj : j = i
  · subst hj
    cases hx.symm.trans hy
    obtain ⟨o, ho, hp⟩ := hown k hk
    refine ⟨o, ho, covered_of_warned hp ?_⟩
    rcases hf with rfl | rfl
    · exact Or.inl (mem_queueInLoop.mpr (Or.inr ⟨rfl, List.mem_singleton_self _⟩))
    · exact Or.inr (mem_queueInLoop.mpr (Or.inr ⟨rfl, List.mem_singleton_self _⟩))
  · exact hq.covered j y k (fun h => hj (Option.some.inj h)) hy hk hs

end Invariant

section Connections

theorem lift_yields {α : Type} (r : Except Fault α) :
    Yields (lift r) (fun a => r = .ok a) (· ≠ .destroyedOwner) :=
  yields_mapError r (fun _ => by simp)

theorem conn_yields (s : Owners) (i : ℕ) :
    Yields (s.conn i) (fun x => s.conns i = some x) (· ≠ .destroyedOwner) := by
  unfold conn
  split
  · exact (yields_error _ _ _).mpr (by simp)
  · next x hx => exact (yields_ok _ _ _).mpr hx

theorem onConnection_yields {i : ℕ} {f : TCPConnection → Except Fault TCPConnection}
    {Q : Owners → Prop}
    (h : ∀ x c, s.conns i = some x → f x.conn = .ok c → Q (s.settle i x c)) :
    Yields (s.onConnection i f) Q (· ≠ .destroyedOwner) := by
  unfold onConnection
  rw [yields_bind]
  refine (conn_yields s i).imp (fun x hx => ?_)
  rw [yields_bind]
  exact (lift_yields _).imp (fun c hc => (yields_pure _ _ _).mpr (h x c hx hc))

theorem settle_inv {i : ℕ} {x : OwnedConn} {c : TCPConnection} (hi : s.Inv but)
    (hx : s.conns i = some x) (hp : Passes x.conn c)
    (hbut : but = none ∨ but = some i ∧ c.state = .kDisconnected)
    (hown : .closeCallback ∈ c.effects →
      ∀ k, x.onClose = some k → ∀ o, s.owners k = some o → o.phase ≠ .destroyed) :
    (s.settle i x c).Inv none := by
  have hqueue : ∀ l f, f ∈ ((s.settle i x c).loops l).queue →
      f ∈ (s.loops l).queue ∨ f.owner? = none := by
    intro l f hf
    rcases mem_queueInLoop.mp hf with hf | ⟨-, hf⟩
    · exact Or.inl hf
    · obtain ⟨g, -, rfl⟩ := List.mem_map.mp hf
      exact Or.inr rfl
  have hwarned : ∀ j l, s.Warned j l → (s.settle i x c).Warned j l :=
    fun j l h => queueInLoop_warned h
  have hothers : ∀ j, j ≠ i → some j ≠ but := by
    intro j hj
    rcases hbut with rfl | ⟨rfl, -⟩
    · exact nofun
    · exact fun h => hj (Option.some.inj h)
  refine hi.change i { x with conn := { c with effects := [] } } rfl rfl
    (fun j hj _ => hothers j hj) rfl (fun y hy => ?_) (fun k _ hk hs => ?_) (fun j hj => ?_)
    hwarned (fun l k j hj => ?_)
  · cases hx.symm.trans hy
    exact ⟨hp.down, fun _ h => h⟩
  · have hnone : but = none := hbut.resolve_right (fun h => hs h.2)
    obtain ⟨o, ho, hcov⟩ := hi.covered i x k (by rw [hnone]; exact nofun) hx hk
      (fun hd => hs (hp.down hd))
    exact ⟨o, ho, covered_mono (hwarned i x.loop) hcov⟩
  · by_cases hc : Effect.closeCallback ∈ c.effects
    · rw [settle, if_pos hc] at hj
      rcases List.mem_cons.mp hj with hji | hj
      · exact Or.inr ⟨hji, (hp.closes (hi.settled i x hx) hc).2, hown hc⟩
      · exact Or.inl hj
    · rw [settle, if_neg hc] at hj
      exact Or.inl hj
  · rcases hqueue l _ hj with hj | hj
    · exact hj
    · cases hj

theorem onConnection_stays (hi : s.Inv none) {i : ℕ}
    {f : TCPConnection → Except Fault TCPConnection}
    (hf : ∀ x c, s.conns i = some x → f x.conn = .ok c → Stays x.conn c) :
    Yields (s.onConnection i f) (Inv · none) (· ≠ .destroyedOwner) := by
  refine onConnection_yields (fun x c hx hc => ?_)
  have hst := hf x c hx hc
  exact settle_inv hi hx hst.passes (Or.inl rfl)
    (fun hcl => absurd hcl (hst.open_ (hi.settled i x hx)))

theorem owner_of_timely (hi : s.Inv none) {i : ℕ} (ht : s.Timely i) {x : OwnedConn}
    (hx : s.conns i = some x) (hup : x.conn.Up) {k : ℕ} (hk : x.onClose = some k) {o : Owner}
    (ho : s.owners k = some o) : o.phase ≠ .destroyed := by
  intro hd
  obtain ⟨o', ho', hcov⟩ := hi.covered i x k nofun hx hk (not_down_of_up hup)
  cases ho.symm.trans ho'
  rw [Covered, hd] at hcov
  exact ht x hx k hk o ho hd hcov

theorem onConnection_passes (hi : s.Inv none) {i : ℕ}
    {f : TCPConnection → Except Fault TCPConnection}
    (hf : ∀ x c, s.conns i = some x → f x.conn = .ok c → Passes x.conn c)
    (ht : ∀ x, s.conns i = some x → x.conn.Up → s.Timely i) :
    Yields (s.onConnection i f) (Inv · none) (· ≠ .destroyedOwner) := by
  refine onConnection_yields (fun x c hx hc => ?_)
  have hp := hf x c hx hc
  refine settle_inv hi hx hp (Or.inl rfl) (fun hcl k hk o ho => ?_)
  have hup := (hp.closes (hi.settled i x hx) hcl).1
  exact owner_of_timely hi (ht x hx hup) hx hup hk ho

theorem connectDestroyed_inv {i : ℕ} (hi : s.Inv but) (hbut : but = none ∨ but = some i)
    (hq : ∀ x, s.conns i = some x → Quits x.conn) :
    Yields (s.onConnection i TCPConnection.connectDestroyed) (Inv · none)
      (· ≠ .destroyedOwner) := by
  refine onConnection_yields (fun x c hx hc => ?_)
  obtain ⟨hst, hd⟩ := connectDestroyed_stays (hq x hx) hc
  exact settle_inv hi hx hst.passes (hbut.imp_right (fun h => ⟨h, hd⟩))
    (fun hcl => absurd hcl (hst.open_ (hi.settled i x hx)))

theorem setCloseCallback_inv {i : ℕ} (hi : s.Inv but) (hbut : but = none ∨ but = some i) :
    Yields (s.setCloseCallback i) (Inv · none) (· ≠ .destroyedOwner) := by
  unfold setCloseCallback
  rw [yields_bind]
  refine (conn_yields s i).imp (fun x hx => (yields_pure _ _ _).mpr ?_)
  have hothers : ∀ j, j ≠ i → some j ≠ but := by
    intro j hj
    rcases hbut with rfl | rfl
    · exact nofun
    · exact fun h => hj (Option.some.inj h)
  refine hi.change i { x with onClose := none } rfl rfl (fun j hj _ => hothers j hj)
    (hi.settled i x hx) (fun y hy => ?_) (fun _ _ => nofun) (fun j hj => Or.inl hj)
    (fun _ _ h => h) (fun _ _ _ h => h)
  cases hx.symm.trans hy
  exact ⟨fun hd => hd, nofun⟩

end Connections

section Calls

theorem putOwner_inv {k : ℕ} {o o' : Owner} (hi : s.Inv but)
    (hbut : ∀ i, some i ≠ but' → some i ≠ but) (ho : s.owners k = some o)
    (hloop : o'.loop = o.loop)
    (hgone : o'.phase = .destroyed → (∀ i ∈ s.closing, ∀ x, s.conns i = some x →
      x.onClose ≠ some k) ∧ ∀ i, .removeConnectionInLoop k i ∉ (s.loops o.loop).queue)
    (hcov : ∀ i x, some i ≠ but' → s.conns i = some x → x.onClose = some k →
      x.conn.state ≠ .kDisconnected → s.Covered i x.loop o → s.Covered i x.loop o') :
    (s.putOwner k o').Inv but' := by
  refine ⟨hi.settled, fun i x l hb hx hl hs => ?_, fun i h => ?_, fun l m i h => ?_⟩
  · obtain ⟨p, hp, hc⟩ := hi.covered i x l (hbut i hb) hx hl hs
    by_cases hlk : l = k
    · subst hlk
      cases ho.symm.trans hp
      exact ⟨o', putOwner_self .., hcov i x hb hx hl hs hc⟩
    · exact ⟨p, (putOwner_of_ne hlk o').trans hp, hc⟩
  · obtain ⟨x, hx, hd, hk⟩ := hi.closing i h
    refine ⟨x, hx, hd, fun l hl p hp => ?_⟩
    by_cases hlk : l = k
    · subst hlk
      rw [putOwner_self] at hp
      cases hp
      exact fun hg => (hgone hg).1 i h x hx hl
    · exact hk l hl p ((putOwner_of_ne hlk o').symm.trans hp)
  · obtain ⟨hx, p, hp, hpl, hpd⟩ := hi.removal l m i h
    refine ⟨hx, ?_⟩
    by_cases hmk : m = k
    · subst hmk
      cases ho.symm.trans hp
      refine ⟨o', putOwner_self .., hloop.trans hpl, fun hg => ?_⟩
      exact (hgone hg).2 i (hpl ▸ h)
    · exact ⟨p, (putOwner_of_ne hmk o').trans hp, hpl, hpd⟩

theorem callOwner_of {k : ℕ} {o : Owner} (ho : s.owners k = some o) (hp : o.phase ≠ .destroyed) :
    s.callOwner k = .ok o := by
  rw [callOwner, ho]
  exact if_neg hp

theorem books_inv (hi : s.Inv none) {k i : ℕ} {o : Owner} (ho : s.owners k = some o)
    (hp : o.phase ≠ .destroyed) {x : OwnedConn} (hx : s.conns i = some x)
    (hd : x.conn.state = .kDisconnected) {is : List ℕ}
    (his : ∀ j ∈ o.connections, j ≠ i → j ∈ is) :
    (s.putOwner k { o with connections := is }).Inv none := by
  refine putOwner_inv hi (fun _ h => h) ho rfl (fun h => absurd h hp)
    (fun j y _ hy _ hs hcov => ?_)
  unfold Covered at hcov ⊢
  dsimp only
  cases hph : o.phase with
  | alive =>
    rw [hph] at hcov
    refine his j hcov ?_
    rintro rfl
    cases hx.symm.trans hy
    exact hs hd
  | destructing thread rest =>
    rw [hph] at hcov
    exact hcov
  | destroyed => exact absurd hph hp

theorem removeConnectionInLoop_yields (hi : s.Inv none) {k i : ℕ} {o : Owner}
    (ho : s.owners k = some o) (hp : o.phase ≠ .destroyed) {x : OwnedConn}
    (hx : s.conns i = some x) (hd : x.conn.state = .kDisconnected) :
    Yields (s.removeConnectionInLoop k i) (Inv · none) (· ≠ .destroyedOwner) := by
  unfold removeConnectionInLoop
  rw [callOwner_of ho hp, ok_bind, conn, hx, ok_bind, yields_bind]
  refine (lift_yields _).imp (fun _ _ => (yields_pure _ _ _).mpr ?_)
  have hbooks := books_inv hi ho hp hx hd (fun j hj hji => (List.mem_erase_of_ne hji).mpr hj)
  exact queueDestroyed_inv hbooks x.loop i

theorem queueRemoval_inv (hi : s.Inv none) {k i : ℕ} {o : Owner} (ho : s.owners k = some o)
    (hp : o.phase ≠ .destroyed) {x : OwnedConn} (hx : s.conns i = some x)
    (hd : x.conn.state = .kDisconnected) :
    (s.queueInLoop o.loop [.removeConnectionInLoop k i]).Inv none := by
  refine ⟨hi.settled, fun j y l hb hy hl hs => ?_, hi.closing, fun l m j hj => ?_⟩
  · obtain ⟨p, hpk, hcov⟩ := hi.covered j y l hb hy hl hs
    exact ⟨p, hpk, covered_mono queueInLoop_warned hcov⟩
  · rcases mem_queueInLoop.mp hj with hold | ⟨rfl, hnew⟩
    · exact hi.removal l m j hold
    · cases List.mem_singleton.mp hnew
      exact ⟨⟨x, hx, hd⟩, o, ho, rfl, hp⟩

theorem removeConnection_yields (hi : s.Inv none) {k i : ℕ} {x : OwnedConn}
    (hx : s.conns i = some x) (hd : x.conn.state = .kDisconnected)
    (hk : ∀ o, s.owners k = some o → o.phase ≠ .destroyed) :
    Yields (s.removeConnection k i x) (Inv · none) (· ≠ .destroyedOwner) := by
  unfold removeConnection
  cases ho : s.owners k with
  | none =>
    rw [callOwner, ho]
    exact (yields_error _ _ _).mpr (by simp)
  | some o =>
    have hp := hk o ho
    rw [callOwner_of ho hp, ok_bind]
    cases hkind : o.kind with
    | server =>
      dsimp only
      unfold runInLoop
      split_ifs
      · exact removeConnectionInLoop_yields hi ho hp hx hd
      · exact (yields_ok _ _ _).mpr (queueRemoval_inv hi ho hp hx hd)
    | client =>
      dsimp only
      rw [yields_bind]
      refine (lift_yields _).imp (fun u hu => (yields_pure _ _ _).mpr ?_)
      have hone : o.connections = [i] := assertThat_ok.mp hu
      have hbooks : (s.putOwner k { o with connections := [] }).Inv none := by
        refine books_inv hi ho hp hx hd (fun j hj hji => ?_)
        rw [hone] at hj
        exact absurd (List.mem_singleton.mp hj) hji
      rw [hkind] at hbooks
      exact queueDestroyed_inv hbooks o.loop i

theorem closeCallback_yields (hi : s.Inv none) {i : ℕ} (hmem : i ∈ s.closing) :
    Yields (s.step (.closeCallback i)) (Inv · none) (· ≠ .destroyedOwner) := by
  obtain ⟨x, hx, hd, hk⟩ := hi.closing i hmem
  have hpop : Inv { s with closing := s.closing.erase i } none :=
    hi.frame (fun _ h => h) rfl rfl (fun _ h => List.mem_of_mem_erase h) (fun _ _ _ h => h)
      (fun _ _ _ h => h)
  rw [step, closeCallback, conn]
  dsimp only
  rw [hx, ok_bind]
  cases hc : x.onClose with
  | none =>
    exact (yields_pure _ _ _).mpr (queueDestroyed_inv hpop x.loop i)
  | some k => exact removeConnection_yields hpop hx hd (hk k hc)

end Calls

section Functors

def message? : OwnerFunctor → Option ℕ
  | .connectDestroyed i => some i
  | .setCloseCallback i => some i
  | _ => none

theorem mem_of_pop {l m : ℕ} {f g : OwnerFunctor} {functors : List OwnerFunctor}
    (hf : (s.loops l).functors = f::functors)
    (hg : g ∈ ((s.onLoop l (fun L => { L with functors := functors })).loops m).queue) :
    g ∈ (s.loops m).queue := by
  by_cases hm : m = l
  · subst hm
    rw [onLoop_self] at hg
    simp only [OwnerLoop.queue, hf, List.cons_append, List.mem_cons]
    exact Or.inr hg
  · rw [onLoop_of_ne hm] at hg
    exact hg

theorem pop_inv (hi : s.Inv none) {l : ℕ} {f : OwnerFunctor} {functors : List OwnerFunctor}
    (hf : (s.loops l).functors = f::functors) :
    (s.onLoop l (fun L => { L with functors := functors })).Inv (message? f) := by
  have hq : ∀ m g, g ∈ (s.loops m).queue →
      g ∈ ((s.onLoop l (fun L => { L with functors := functors })).loops m).queue ∨ g = f := by
    intro m g hg
    by_cases hm : m = l
    · subst hm
      rw [onLoop_self]
      simp only [OwnerLoop.queue, hf, List.cons_append, List.mem_cons] at hg
      exact hg.symm
    · rw [onLoop_of_ne hm]
      exact Or.inl hg
  refine hi.frame (fun _ _ => nofun) rfl rfl (fun _ h => h) (fun i m hb h => ?_)
    (fun m k i h => mem_of_pop hf h)
  rcases h with h | h
  · refine Or.inl ((hq m _ h).resolve_right ?_)
    rintro rfl
    exact hb rfl
  · refine Or.inr ((hq m _ h).resolve_right ?_)
    rintro rfl
    exact hb rfl

theorem runFunctor_yields {t : Owners} {f : OwnerFunctor} (ht : t.Inv (message? f))
    (hs : t.SafeFunctor f)
    (hr : ∀ k i, f = .removeConnectionInLoop k i →
      (∃ x, t.conns i = some x ∧ x.conn.state = .kDisconnected) ∧
        ∃ o, t.owners k = some o ∧ o.phase ≠ .destroyed) :
    Yields (t.runFunctor f) (Inv · none) (· ≠ .destroyedOwner) := by
  cases f with
  | connectEstablished i => exact onConnection_stays ht (fun _ _ _ h => connectEstablished_stays h)
  | connectDestroyed i => exact connectDestroyed_inv ht (Or.inr rfl) (fun x hx => hs x hx)
  | setCloseCallback i => exact setCloseCallback_inv ht (Or.inr rfl)
  | removeConnectionInLoop k i =>
    obtain ⟨⟨x, hx, hd⟩, o, ho, hp⟩ := hr k i rfl
    exact removeConnectionInLoop_yields ht ho hp hx hd
  | ofConnection i f =>
    cases f with
    | forceCloseInLoop =>
      exact onConnection_passes ht (fun _ _ _ h => forceCloseInLoop_passes h)
        (fun x hx hup => hs x hx hup)
    | writeCompleteCallback => exact (yields_ok _ _ _).mpr ht
    | highWaterMarkCallback size => exact (yields_ok _ _ _).mpr ht

theorem timely_frame {i : ℕ} (h : s.Timely i) (hc : s'.conns = s.conns)
    (ho : s'.owners = s.owners) (hw : ∀ l, s'.Warned i l → s.Warned i l) : s'.Timely i := by
  intro x hx k hk o hok hd hwarned
  exact h x (hc ▸ hx) k hk o (ho ▸ hok) hd (hw _ hwarned)

theorem pop_safe {l : ℕ} {f : OwnerFunctor} {functors : List OwnerFunctor}
    (hf : (s.loops l).functors = f::functors) (hs : s.SafeFunctor f) :
    (s.onLoop l (fun L => { L with functors := functors })).SafeFunctor f := by
  cases f with
  | connectDestroyed i => exact hs
  | ofConnection i f =>
    cases f with
    | forceCloseInLoop =>
      intro x hx hup
      have hw : ∀ m, Warned (s.onLoop l (fun L => { L with functors := functors })) i m →
          s.Warned i m := fun m h => h.imp (mem_of_pop hf) (mem_of_pop hf)
      exact timely_frame (hs x hx hup) rfl rfl hw
    | writeCompleteCallback => trivial
    | highWaterMarkCallback size => trivial
  | connectEstablished i => trivial
  | setCloseCallback i => trivial
  | removeConnectionInLoop k i => trivial

theorem runFunctor_step (hi : s.Inv none) {l : ℕ} (hs : s.Safe (.runFunctor l)) :
    Yields (s.step (.runFunctor l)) (Inv · none) (· ≠ .destroyedOwner) := by
  rw [step]
  split
  · exact (yields_ok _ _ _).mpr hi
  · next f functors hf =>
    have hmem : f ∈ (s.loops l).queue := by
      rw [OwnerLoop.queue, hf]
      exact List.mem_cons_self
    have hsafe : s.SafeFunctor f := hs f (by rw [hf]; rfl)
    refine runFunctor_yields (pop_inv hi hf) (pop_safe hf hsafe) ?_
    rintro k i rfl
    obtain ⟨hx, o, ho, -, hp⟩ := hi.removal l k i hmem
    exact ⟨hx, o, ho, hp⟩

theorem callback_step (hi : s.Inv none) {l : ℕ} {r : Buffer.ReadResult} {w : WriteResult}
    (hs : s.Safe (.callback l r w)) :
    Yields (s.step (.callback l r w)) (Inv · none) (· ≠ .destroyedOwner) := by
  rw [step]
  split
  · exact (yields_ok _ _ _).mpr hi
  · next i cb rest hh =>
    have hpop : (s.onLoop l (fun L => { L with handling := rest })).Inv none := onLoop_inv hi rfl
    by_cases hcb : ClosedBy r cb
    · refine onConnection_passes hpop (fun _ _ _ h => handleCallback_passes h) (fun _ _ _ => ?_)
      have htimely : s.Timely i := hs (i, cb) (by rw [hh]; rfl) hcb
      refine timely_frame htimely rfl rfl (fun m hw => ?_)
      rw [Warned, onLoop_queue rfl] at hw
      exact hw
    · exact onConnection_stays hpop (fun _ _ _ h => handleCallback_stays hcb h)

end Functors

section Destructors

theorem mem_dtor {o : Owner} {i : ℕ} (h : i ∈ o.connections) (unique : Bool) :
    .connectDestroyed i ∈ o.dtor unique ∨ .setCloseCallback i ∈ o.dtor unique := by
  unfold Owner.dtor
  cases o.kind with
  | server => exact Or.inl (List.mem_map_of_mem h)
  | client => exact Or.inr (List.mem_flatMap.mpr ⟨i, h, List.mem_cons_self⟩)

theorem deleteOwner_yields (hi : s.Inv none) {k : ℕ} {thread : Option ℕ} {unique : Bool}
    {o : Owner} (ho : s.owners k = some o) (hp : o.phase = .alive) :
    Yields (s.deleteOwner k thread unique) (Inv · none) (· ≠ .destroyedOwner) := by
  have hbegun :
      (s.putOwner k { o with phase := .destructing thread (o.dtor unique) }).Inv none := by
    refine putOwner_inv hi (fun _ h => h) ho rfl nofun (fun i x _ _ _ _ hcov => ?_)
    rw [Covered, hp] at hcov
    exact Or.inl (mem_dtor hcov unique)
  rw [deleteOwner, callOwner_of ho (by simp [hp]), ok_bind]
  cases thread with
  | none => exact (yields_pure _ _ _).mpr hbegun
  | some l => exact (yields_pure _ _ _).mpr (onLoop_inv hbegun rfl)

theorem phase_of_destructing {o : Owner} {p : Option ℕ × List DtorStep}
    (h : p ∈ o.destructing?) : o.phase = .destructing p.1 p.2 := by
  unfold Owner.destructing? at h
  split at h
  · next thread rest hp =>
    cases h
    exact hp
  · cases h

theorem nextStatement_inv (hi : s.Inv none) {k : ℕ} {o : Owner} (ho : s.owners k = some o)
    {thread : Option ℕ} {d : DtorStep} {rest : List DtorStep}
    (hp : o.phase = .destructing thread (d::rest))
    (hbut : ∀ i x, some i ≠ but → s.conns i = some x → x.onClose = some k →
      d ≠ .connectDestroyed i ∧ d ≠ .setCloseCallback i) :
    (s.putOwner k { o with phase := .destructing thread rest }).Inv but := by
  refine putOwner_inv hi (fun _ _ => nofun) ho rfl nofun (fun i x hb hx hk _ hcov => ?_)
  rw [Covered, hp] at hcov
  obtain ⟨hd₁, hd₂⟩ := hbut i x hb hx hk
  refine hcov.imp_left (Or.imp (fun h => ?_) (fun h => ?_))
  · exact (List.mem_cons.mp h).resolve_left hd₁.symm
  · exact (List.mem_cons.mp h).resolve_left hd₂.symm

theorem runMessage_yields (hi : s.Inv none) {k : ℕ} {o : Owner} (ho : s.owners k = some o)
    {thread : Option ℕ} {d : DtorStep} {rest : List DtorStep}
    (hp : o.phase = .destructing thread (d::rest)) {i : ℕ} {f : OwnerFunctor}
    (hf : f = .connectDestroyed i ∧ d = .connectDestroyed i ∨
      f = .setCloseCallback i ∧ d = .setCloseCallback i)
    (hnow : ∀ x, s.conns i = some x → thread = some x.loop → s.SafeFunctor f) :
    Yields (((s.putOwner k { o with phase := .destructing thread rest }).conn i) >>= fun x =>
      (s.putOwner k { o with phase := .destructing thread rest }).runInLoop thread x.loop f)
      (Inv · none) (· ≠ .destroyedOwner) := by
  have hother : ∀ j, j ≠ i → d ≠ .connectDestroyed j ∧ d ≠ .setCloseCallback j := by
    intro j hj
    rcases hf with ⟨-, rfl⟩ | ⟨-, rfl⟩
    · exact ⟨fun h => hj (DtorStep.connectDestroyed.inj h).symm, nofun⟩
    · exact ⟨nofun, fun h => hj (DtorStep.setCloseCallback.inj h).symm⟩
  have hmessage : message? f = some i := by
    rcases hf with ⟨rfl, -⟩ | ⟨rfl, -⟩ <;> rfl
  have hmine : (s.putOwner k { o with phase := .destructing thread rest }).Inv (some i) :=
    nextStatement_inv hi ho hp (fun j _ hj _ _ => hother j (fun h => hj (congrArg some h)))
  rw [yields_bind]
  refine (conn_yields _ i).imp (fun x hx => ?_)
  unfold runInLoop
  split_ifs with hthread
  · refine runFunctor_yields (hmessage ▸ hmine) ?_ ?_
    · rcases hf with ⟨rfl, -⟩ | ⟨rfl, -⟩
      · exact hnow x hx hthread
      · trivial
    · rintro l j rfl
      cases hmessage
  · refine (yields_ok _ _ _).mpr ?_
    by_cases hk : x.onClose = some k
    · refine message_inv hmine hx (fun l hl => ?_) (hf.imp And.left And.left)
      cases hk.symm.trans hl
      exact ⟨_, putOwner_self .., nofun⟩
    · have hnone : (s.putOwner k { o with phase := .destructing thread rest }).Inv none := by
        refine nextStatement_inv hi ho hp (fun j y _ hy hyk => hother j ?_)
        rintro rfl
        cases hx.symm.trans hy
        exact hk hyk
      refine queueInLoop_inv hnone (fun g hg => ?_)
      rw [List.mem_singleton.mp hg]
      rcases hf with ⟨rfl, -⟩ | ⟨rfl, -⟩ <;> rfl

theorem dtorStep_yields (hi : s.Inv none) {k : ℕ} (he : s.Enabled (.dtorStep k))
    (hs : s.Safe (.dtorStep k)) :
    Yields (s.step (.dtorStep k)) (Inv · none) (· ≠ .destroyedOwner) := by
  obtain ⟨o, ho, ⟨thread, rest⟩, hp, hne, -⟩ := he
  have hphase : o.phase = .destructing thread rest := phase_of_destructing hp
  cases rest with
  | nil => exact absurd rfl hne
  | cons d rest =>
    have hsafe : s.SafeDtor thread d := hs o ho (thread, d::rest) hp d rfl
    have ho' : s.owners k = some o := ho
    rw [step, dtorStep, ho']
    dsimp only
    rw [hphase]
    dsimp only
    cases d with
    | connectDestroyed i =>
      exact runMessage_yields hi ho' hphase (Or.inl ⟨rfl, rfl⟩) (fun x hx ht y hy => by
        cases hx.symm.trans hy
        exact hsafe x hx ht)
    | setCloseCallback i =>
      exact runMessage_yields hi ho' hphase (Or.inr ⟨rfl, rfl⟩) (fun _ _ _ => trivial)
    | forceClose i =>
      rw [runDtor]
      refine onConnection_stays (nextStatement_inv hi ho' hphase (fun _ _ _ _ _ => ⟨nofun, nofun⟩))
        (fun x c _ h => ?_)
      cases h
      exact stays_of_keeps (forceClose_keeps _)

theorem join_inv (hi : s.Inv but) (joined : List ℕ) : (s.join joined).Inv but := by
  have hq : ∀ l, ((s.join joined).loops l).queue = (s.loops l).queue := by
    intro l
    unfold join
    dsimp only
    split_ifs <;> rfl
  refine hi.frame (fun _ h => h) rfl rfl (fun _ h => h) (fun i l _ h => ?_) (fun l k i h => ?_)
  · rw [Warned, hq]
    exact h
  · rw [← hq]
    exact h

theorem finish_yields (hi : s.Inv none) {k : ℕ} {joined : List ℕ}
    (he : s.Enabled (.finish k joined)) (hs : s.Safe (.finish k joined)) :
    Yields (s.step (.finish k joined)) (Inv · none) (· ≠ .destroyedOwner) := by
  obtain ⟨o, hmem, ⟨⟨thread, rest⟩, hp, hnil, -⟩, -⟩ := he
  have ho : s.owners k = some o := hmem
  have hphase : o.phase = .destructing thread [] := by
    rw [phase_of_destructing hp]
    exact congrArg _ hnil
  have hgone : (s.putOwner k { o with phase := .destroyed }).Inv none := by
    refine putOwner_inv hi (fun _ h => h) ho rfl (fun _ => ⟨fun i h x hx => hs.2 i h x hx, ?_⟩)
      (fun i x _ _ _ _ hcov => ?_)
    · exact fun i h => hs.1 o hmem _ h rfl
    · rw [Covered, hphase] at hcov
      rcases hcov with (h | h) | h
      · exact absurd h List.not_mem_nil
      · exact absurd h List.not_mem_nil
      · exact h
  have hjoined := join_inv hgone joined
  rw [step, finish, callOwner_of ho (by simp [hphase]), ok_bind]
  dsimp only
  rw [hphase]
  cases thread with
  | none => exact (yields_pure _ _ _).mpr hjoined
  | some l => exact (yields_pure _ _ _).mpr (onLoop_inv hjoined rfl)

end Destructors

section Steps

theorem newOwner_inv (hi : s.Inv none) {k : ℕ} (hn : s.owners k = none) (kind : OwnerKind)
    (loop : ℕ) : (s.putOwner k ⟨kind, loop, [], .alive⟩).Inv none := by
  have hne : ∀ {l o}, s.owners l = some o → l ≠ k := by
    rintro l o ho rfl
    cases hn.symm.trans ho
  refine ⟨hi.settled, fun i x l hb hx hl hs => ?_, fun i h => ?_, fun l m i h => ?_⟩
  · obtain ⟨o, ho, hcov⟩ := hi.covered i x l hb hx hl hs
    exact ⟨o, (putOwner_of_ne (hne ho) _).trans ho, hcov⟩
  · obtain ⟨x, hx, hd, hk⟩ := hi.closing i h
    refine ⟨x, hx, hd, fun l hl o ho => ?_⟩
    by_cases hlk : l = k
    · subst hlk
      rw [putOwner_self] at ho
      cases ho
      exact nofun
    · exact hk l hl o ((putOwner_of_ne hlk _).symm.trans ho)
  · obtain ⟨hx, o, ho, hrest⟩ := hi.removal l m i h
    exact ⟨hx, o, (putOwner_of_ne (hne ho) _).trans ho, hrest⟩

theorem putFresh_inv (hi : s.Inv none) {i : ℕ} (hn : s.conns i = none) {x : OwnedConn}
    (he : x.conn.effects = []) {k : ℕ} (hk : x.onClose = some k) {o : Owner}
    (ho : s.owners k = some o) (hp : o.phase = .alive) (hmem : i ∈ o.connections) :
    (s.put i x).Inv none := by
  refine hi.change i x rfl rfl (fun _ _ => nofun) he (fun y hy => ?_) (fun l _ hl _ => ?_)
    (fun j hj => Or.inl hj) (fun _ _ h => h) (fun _ _ _ h => h)
  · cases hn.symm.trans hy
  · cases hk.symm.trans hl
    refine ⟨o, ho, ?_⟩
    rw [Covered, hp]
    exact hmem

theorem newConnection_yields (hi : s.Inv none) {k i l sockfd mark : ℕ}
    {writeComplete highWater : Bool} (hn : s.conns i = none)
    (hs : ∀ o, s.owners k = some o → o.phase = .alive) :
    Yields (s.newConnection k i l sockfd writeComplete highWater mark) (Inv · none)
      (· ≠ .destroyedOwner) := by
  unfold newConnection
  cases ho : s.owners k with
  | none =>
    rw [callOwner, ho]
    exact (yields_error _ _ _).mpr (by simp)
  | some o =>
    have hp := hs o ho
    rw [callOwner_of ho (by simp [hp]), ok_bind, yields_bind]
    refine (lift_yields _).imp (fun c hc => ?_)
    have heffects : c.effects = [] := by
      obtain ⟨input, -, heq⟩ := bind_ok.mp hc
      obtain ⟨output, -, heq⟩ := bind_ok.mp heq
      cases heq
      rfl
    have hbooks : (s.putOwner k { o with connections := o.connections ++ [i] }).Inv none := by
      refine putOwner_inv hi (fun _ h => h) ho rfl (fun h => nomatch hp.symm.trans h)
        (fun j x _ _ _ _ hcov => ?_)
      rw [Covered, hp] at hcov
      rw [Covered]
      dsimp only
      rw [hp]
      exact List.mem_append_left _ hcov
    have hput : ((s.putOwner k { o with connections := o.connections ++ [i] }).put i
        ⟨c, l, some k⟩).Inv none :=
      putFresh_inv hbooks hn heffects rfl (putOwner_self ..) hp
        (List.mem_append_right _ (List.mem_singleton_self i))
    dsimp only
    unfold runInLoop
    split_ifs
    · exact onConnection_stays hput (fun _ _ _ h => connectEstablished_stays h)
    · refine (yields_ok _ _ _).mpr (queueInLoop_inv hput (fun f hf => ?_))
      rw [List.mem_singleton.mp hf]
      rfl

theorem step_yields (hi : s.Inv none) {a : Action} (he : s.Enabled a) (hs : s.Safe a) :
    Yields (s.step a) (Inv · none) (· ≠ .destroyedOwner) := by
  cases a with
  | newOwner k kind loop =>
    exact (yields_ok _ _ _).mpr (newOwner_inv hi (Option.isNone_iff_eq_none.mp he) kind loop)
  | newConnection k i l sockfd writeComplete highWater mark =>
    exact newConnection_yields hi (Option.isNone_iff_eq_none.mp he.1) (fun o ho => hs o ho)
  | call i a =>
    show Yields (s.onConnection i (fun c => c.call a)) _ _
    refine onConnection_stays hi (fun x c hx h => ?_)
    obtain ⟨y, hy, ha⟩ := he
    cases hx.symm.trans hy
    exact userCall_stays ha h
  | deleteOwner k thread unique =>
    obtain ⟨-, o, ho, hp, -⟩ := he
    exact deleteOwner_yields hi ho hp
  | dtorStep k => exact dtorStep_yields hi he hs
  | finish k joined => exact finish_yields hi he hs
  | poll l active => exact (yields_ok _ _ _).mpr (onLoop_inv hi rfl)
  | handleEvent l i r => exact (yields_ok _ _ _).mpr (onLoop_inv hi rfl)
  | callback l r w => exact callback_step hi hs
  | closeCallback i => exact closeCallback_yields hi he.1
  | swap l =>
    refine (yields_ok _ _ _).mpr (onLoop_inv hi ?_)
    obtain ⟨-, -, -, hnone⟩ := he
    simp only [OwnerLoop.queue, hnone, List.append_nil, List.nil_append]
  | runFunctor l => exact runFunctor_step hi hs

end Steps

/-- However the destructors of servers and clients are interleaved with the
loops, no `removeConnection` and no `removeConnectionInLoop` is run for an owner
that is gone, as long as nothing is on the way to it when its destructor
finishes, and no close overtakes the message that the destructor has left. -/
theorem closes_find_owners (as : List Action) (ha : Admitted step Enabled construct as)
    (hs : Admitted step Safe construct as) :
    run step construct as ≠ .error .destroyedOwner := by
  have hrun : Yields (run step construct as) (Inv · none) (· ≠ .destroyedOwner) :=
    run_yields _ (fun s a hi h => step_yields hi h.1 h.2) as construct construct_inv
      (admitted_and ha hs)
  exact fun h => hrun.error h rfl

def readEnd (l i : ℕ) : List Action :=
  [.poll l [i], .handleEvent l i ⟨true, false, false, false, false, false, false⟩,
    .callback l (.read []) (.failed EWOULDBLOCK)]

def runQueued (l n : ℕ) : List Action := [.poll l [], .swap l] ++ List.replicate n (.runFunctor l)

def inTime : List Action :=
  [.newOwner 0 .server 0, .newConnection 0 3 1 5 false false 64,
    .newConnection 0 4 1 6 false false 64] ++ runQueued 1 2 ++ readEnd 1 3 ++
    [.closeCallback 3, .swap 1] ++ runQueued 0 1 ++
    [.deleteOwner 0 (some 0) false, .dtorStep 0] ++ runQueued 1 2 ++ [.finish 0 [1]] ++
    [.newOwner 7 .client 0, .newConnection 7 8 0 9 false false 64, .deleteOwner 7 none true,
      .dtorStep 7, .dtorStep 7, .finish 7 []] ++ runQueued 0 2 ++ [.closeCallback 8] ++
    runQueued 0 1

theorem closes_find_owners_inTime : run step construct inTime ≠ .error .destroyedOwner :=
  closes_find_owners inTime (by decide +kernel) (by decide +kernel)

/-- A client is destroyed on a thread of its own, and its connection closes
before the loop comes to the functor that replaces the close callback. -/
def overtaking : List Action :=
  [.newOwner 0 .client 0, .newConnection 0 3 0 5 false false 64, .deleteOwner 0 none false,
    .dtorStep 0, .finish 0 []] ++ readEnd 0 3 ++ [.closeCallback 3]

theorem closes_miss_owners :
    ¬∀ as : List Action, Admitted step Enabled construct as →
      run step construct as ≠ .error .destroyedOwner := by
  intro h
  have hrun : (match run step construct overtaking with
    | .ok _ => none
    | .error e => some e) = some .destroyedOwner := by decide +kernel
  cases hr : run step construct overtaking with
  | ok t =>
    rw [hr] at hrun
    cases hrun
  | error e =>
    rw [hr] at hrun
    cases Option.some.inj hrun
    exact h overtaking (by decide +kernel) hr

end Owners

end Lux.Polaris
