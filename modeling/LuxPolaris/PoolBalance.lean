import LuxPolaris.RegistryRuns
import Mathlib.Data.Int.CardIntervalMod

/-!
# The balance of the thread pool

`next_` goes around the loops of the pool, one place for each connection that
is accepted, and no other step touches it. So the loop of a connection is
decided by its number, stays the same for life, and no loop is given two
connections more than another.
-/

set_option autoImplicit false

namespace Lux.Polaris.ServerLoops
open Outcome OutputStream TCPConnection

def place (s : ServerLoops) (i : ℕ) : Option ℕ := (s.objects i).map ServerConn.loop

def given (s : ServerLoops) (l : ℕ) : ℕ := Nat.count (fun i => s.place i = some l) s.nextConnId

/-- The loop whose turn it is after `k` connections. -/
def turn (n k : ℕ) : ℕ := if n = 0 then 0 else k % n+1

section Counting
variable {n : ℕ}

theorem cursor_succ (hn : n ≠ 0) (k : ℕ) :
    (if k % n+1 ≥ n then 0 else k % n+1) = (k+1) % n := by
  have hlt := Nat.mod_lt k (Nat.pos_of_ne_zero hn)
  rw [← Nat.mod_add_mod]
  split_ifs with h
  · have hlast : k % n+1 = n := by omega
    rw [hlast, Nat.mod_self]
  · exact (Nat.mod_eq_of_lt (Nat.lt_of_not_le h)).symm

theorem turn_eq_iff (hn : n ≠ 0) {k l : ℕ} (hl : 1 ≤ l) (hle : l ≤ n) :
    turn n k = l ↔ k ≡ l-1 [MOD n] := by
  rw [turn, if_neg hn, Nat.ModEq, Nat.mod_eq_of_lt (b := n) (a := l-1) (by omega)]
  omega

theorem turns_balanced {l m : ℕ} (hl : 1 ≤ l) (hln : l ≤ n) (hm : 1 ≤ m) (hmn : m ≤ n) (b : ℕ) :
    Nat.count (fun k => turn n k = l) b ≤ Nat.count (fun k => turn n k = m) b+1 := by
  have hn : n ≠ 0 := by omega
  have hpos : 0 < n := Nat.pos_of_ne_zero hn
  simp only [turn_eq_iff hn hl hln, turn_eq_iff hn hm hmn, Nat.count_modEq_card b hpos]
  split_ifs <;> omega

end Counting

structure Stays (s s' : ServerLoops) : Prop where
  place : s'.place = s.place
  next : s'.next = s.next
  nextConnId : s'.nextConnId = s.nextConnId

section Steps
variable {s s' t : ServerLoops} {i l : ℕ} {x y : ServerConn}

theorem Stays.refl (s : ServerLoops) : Stays s s := ⟨rfl, rfl, rfl⟩

theorem Stays.trans (h : Stays s s') (h' : Stays s' t) : Stays s t :=
  ⟨h'.place.trans h.place, h'.next.trans h.next, h'.nextConnId.trans h.nextConnId⟩

theorem onLoop_stays (s : ServerLoops) (l : ℕ) (f : ServerLoop → ServerLoop) :
    Stays s (s.onLoop l f) := ⟨rfl, rfl, rfl⟩

theorem place_put (s : ServerLoops) (i : ℕ) (y : ServerConn) :
    (s.put i y).place = Function.update s.place i (some y.loop) := by
  funext j
  by_cases hj : j = i
  · subst hj
    simp [place]
  · simp [place, hj]

theorem put_stays (hx : s.objects i = some x) (hl : y.loop = x.loop) : Stays s (s.put i y) := by
  refine ⟨?_, rfl, rfl⟩
  have hplace : s.place i = some y.loop := by simp [place, hx, hl]
  rw [place_put, ← hplace, Function.update_eq_self]

theorem object_yields (s : ServerLoops) (i : ℕ) :
    Yields (s.object i) (fun x => s.objects i = some x) (fun _ => True) := by
  unfold object
  cases hx : s.objects i with
  | none => exact (yields_error _ _ _).mpr trivial
  | some x => exact (yields_ok _ _ _).mpr rfl

theorem onConnection_stays (s : ServerLoops) (l i : ℕ) (ms : List Milestone)
    (f : TCPConnection → Except Fault TCPConnection) :
    Yields (s.onConnection l i ms f) (Stays s) (fun _ => True) := by
  simp only [onConnection, yields_bind, yields_pure]
  refine (object_yields s i).imp fun x hx => ?_
  refine (yields_true _).imp fun _ _ => (yields_true _).imp fun c _ => ?_
  have hx' : ∀ g, (s.onLoop x.loop g).objects i = some x := fun _ => hx
  exact (onLoop_stays s x.loop _).trans (put_stays (hx' _) rfl)

theorem removeConnectionInLoop_stays (s : ServerLoops) (l i : ℕ) :
    Yields (s.removeConnectionInLoop l i) (Stays s) (fun _ => True) := by
  simp only [removeConnectionInLoop, yields_bind, yields_pure]
  refine (yields_true _).imp fun _ _ => (object_yields s i).imp fun x hx => ?_
  refine (yields_true _).imp fun _ _ => ?_
  have herased : Stays s { s with
    connections := Function.update s.connections x.name none
    erased := s.erased ++ [(i, s.connections x.name)] } := ⟨rfl, rfl, rfl⟩
  refine herased.trans (.trans ?_ (onLoop_stays _ x.loop _))
  exact put_stays hx rfl

theorem runFunctor_stays (s : ServerLoops) (l : ℕ) (f : LoopFunctor) :
    Yields (s.runFunctor l f) (Stays s) (fun _ => True) := by
  unfold runFunctor
  split
  · exact onConnection_stays s l _ _ _
  · exact removeConnectionInLoop_stays s l _
  · simp only [connectDestroyed, yields_bind, yields_pure]
    refine (onConnection_stays s l _ _ _).imp fun s' hs => ?_
    exact (yields_true _).imp fun _ _ => hs
  · exact onConnection_stays s l _ _ _
  · exact (yields_ok _ _ _).mpr (.refl s)
  · exact (yields_ok _ _ _).mpr (.refl s)

theorem runInLoop_stays (s : ServerLoops) (thread l : ℕ) (f : LoopFunctor) :
    Yields (s.runInLoop thread l f) (Stays s) (fun _ => True) := by
  unfold runInLoop
  split_ifs
  · exact runFunctor_stays s l f
  · exact (yields_ok _ _ _).mpr (onLoop_stays s l _)

theorem removeConnection_stays (s : ServerLoops) (l i : ℕ) :
    Yields (s.removeConnection l i) (Stays s) (fun _ => True) := by
  simp only [removeConnection, yields_bind]
  refine (object_yields s i).imp fun x hx => ?_
  refine (runInLoop_stays _ l 0 _).imp fun s' hs => .trans ?_ hs
  exact put_stays hx rfl

end Steps

structure Turns (n : ℕ) (s : ServerLoops) : Prop where
  next : n ≠ 0 → s.next = (s.nextConnId-1) % n
  nextConnId : 1 ≤ s.nextConnId
  place : ∀ i, s.place i = if 1 ≤ i ∧ i < s.nextConnId then some (turn n (i-1)) else none

section Runs
variable {server : ServerSetup} {s s' : ServerLoops}

theorem Turns.stays {n : ℕ} (h : Turns n s) (hs : Stays s s') : Turns n s' where
  next := fun hn => by rw [hs.next, hs.nextConnId, h.next hn]
  nextConnId := by rw [hs.nextConnId]; exact h.nextConnId
  place := fun i => by rw [hs.place, hs.nextConnId, h.place]

theorem getNextLoop_turn (h : Turns server.numThreads s) :
    ∃ next, s.getNextLoop server =
        .ok (turn server.numThreads (s.nextConnId-1), { s with next := next }) ∧
      (server.numThreads ≠ 0 → next = s.nextConnId % server.numThreads) := by
  unfold getNextLoop turn
  by_cases hn : server.numThreads = 0
  · exact ⟨s.next, by rw [if_pos hn, if_pos hn], fun h => absurd hn h⟩
  · have hlt : s.next < server.numThreads := by
      rw [h.next hn]
      exact Nat.mod_lt _ (Nat.pos_of_ne_zero hn)
    have hsucc := cursor_succ hn (s.nextConnId-1)
    rw [Nat.sub_add_cancel h.nextConnId, ← h.next hn] at hsucc
    refine ⟨_, ?_, fun _ => hsucc⟩
    rw [if_neg hn, if_pos hlt, if_neg hn, h.next hn]

theorem newConnection_turns (h : Turns server.numThreads s) (sockfd mark : ℕ)
    (writeComplete highWater : Bool) :
    Yields (s.newConnection server sockfd writeComplete highWater mark)
      (Turns server.numThreads) (fun _ => True) := by
  obtain ⟨next, hok, hnext⟩ := getNextLoop_turn h
  simp only [newConnection, hok, ok_bind, yields_bind]
  refine (yields_true _).imp fun c _ => ?_
  refine (runInLoop_stays _ 0 _ _).imp fun s' hs => Turns.stays ?_ hs
  refine ⟨hnext, Nat.le_add_left 1 _, fun i => ?_⟩
  rw [place_put]
  have hone := h.nextConnId
  by_cases hi : i = s.nextConnId
  · subst hi
    rw [Function.update_self]
    exact (if_pos ⟨hone, Nat.lt_succ_self _⟩).symm
  · rw [Function.update_of_ne hi]
    refine (h.place i).trans (if_congr ?_ rfl rfl)
    change _ ↔ 1 ≤ i ∧ i < s.nextConnId+1
    omega

theorem step_turns (h : Turns server.numThreads s) (a : Action) :
    Yields (step server s a) (Turns server.numThreads) (fun _ => True) := by
  cases a with
  | newConnection sockfd writeComplete highWater mark => exact newConnection_turns h ..
  | call l i a =>
    rw [step]
    exact (onConnection_stays s l i [] _).imp fun _ hs => h.stays hs
  | poll l active => exact (yields_ok _ _ _).mpr (h.stays (onLoop_stays s l _))
  | handleEvent l i r => exact (yields_ok _ _ _).mpr (h.stays (onLoop_stays s l _))
  | callback l r w =>
    simp only [step]
    split
    · exact (yields_ok _ _ _).mpr h
    · exact (onConnection_stays _ l _ _ _).imp fun _ hs => h.stays ((onLoop_stays s l _).trans hs)
  | closeCallback l =>
    simp only [step]
    split
    · exact (yields_ok _ _ _).mpr h
    · exact (removeConnection_stays _ l _).imp fun _ hs => h.stays ((onLoop_stays s l _).trans hs)
  | swap l => exact (yields_ok _ _ _).mpr (h.stays (onLoop_stays s l _))
  | runFunctor l =>
    simp only [step]
    split
    · exact (yields_ok _ _ _).mpr h
    · exact (runFunctor_stays _ l _).imp fun _ hs => h.stays ((onLoop_stays s l _).trans hs)

theorem started_turns (n : ℕ) : Turns n started where
  next := fun _ => (Nat.zero_mod n).symm
  nextConnId := Nat.le_refl 1
  place := fun i => (if_neg (by simp [started]; omega)).symm

theorem run_turns (server : ServerSetup) (as : List Action) :
    Yields (run (step server) started as) (Turns server.numThreads) (fun _ => True) :=
  run_yields (fun _ _ => True) (fun _ a h _ => step_turns h a) as started
    (started_turns server.numThreads) (admitted_true as started)

theorem Turns.given_eq {n : ℕ} (h : Turns n s) (l : ℕ) :
    s.given l = Nat.count (fun k => turn n k = l) (s.nextConnId-1) := by
  have hzero : s.place 0 ≠ some l := by simp [h.place]
  obtain ⟨k, hk⟩ := Nat.exists_eq_add_of_le' h.nextConnId
  have heach : ∀ j < k, s.place (j+1) = some l ↔ turn n j = l := by
    intro j hj
    rw [h.place, if_pos (by omega), Nat.add_sub_cancel, Option.some_inj]
  rw [given, hk, Nat.count_succ', if_neg hzero, Nat.add_zero, Nat.add_sub_cancel]
  exact Nat.le_antisymm (Nat.count_mono_left fun j hj => (heach j hj).mp)
    (Nat.count_mono_left fun j hj => (heach j hj).mpr)

/-- In every run, whatever turns the loops take: connection `i` is on the loop
of its number for life, the cursor is within the pool, and of any two loops of
the pool neither has been given two connections more than the other. -/
theorem pool_balance (server : ServerSetup) (as : List Action) (s : ServerLoops)
    (hr : run (step server) started as = .ok s) :
    (∀ i x, s.objects i = some x → x.loop = turn server.numThreads (i-1)) ∧
    (∀ i, (s.objects i).isSome ↔ 1 ≤ i ∧ i < s.nextConnId) ∧
    (server.numThreads ≠ 0 → s.next < server.numThreads) ∧
    ∀ l m, 1 ≤ l → l ≤ server.numThreads → 1 ≤ m → m ≤ server.numThreads →
      s.given l ≤ s.given m+1 := by
  have h := (run_turns server as).ok hr
  refine ⟨fun i x hx => ?_, fun i => ?_, fun hn => ?_, fun l m hl hln hm hmn => ?_⟩
  · have hplace := h.place i
    rw [place, hx, Option.map_some] at hplace
    split_ifs at hplace
    exact Option.some.inj hplace
  · rw [← Option.isSome_map (f := ServerConn.loop), ← place, h.place]
    split_ifs with hi <;> simp [hi]
  · rw [h.next hn]
    exact Nat.mod_lt _ (Nat.pos_of_ne_zero hn)
  · rw [h.given_eq, h.given_eq]
    exact turns_balanced hl hln hm hmn _

theorem pool_balance_three :
    ∃ s, run (step echoServer) started (closings ++
        [.poll 0 [], .newConnection 7 false false 64]) = .ok s ∧
      s.given 1 = 2 ∧ s.given 2 = 1 ∧ s.given 1 ≤ s.given 2+1 := by
  have hrun : (fun s => (s.given 1, s.given 2)) <$> run (step echoServer) started (closings ++
      [.poll 0 [], .newConnection 7 false false 64]) = .ok (2, 1) := by decide +kernel
  obtain ⟨s, hs, hp⟩ := map_ok.mp hrun
  simp only [Prod.mk.injEq] at hp
  exact ⟨s, hs, hp.1, hp.2, (pool_balance _ _ s hs).2.2.2 1 2 (by decide) (by decide)
    (by decide) (by decide)⟩

end Runs

end Lux.Polaris.ServerLoops
