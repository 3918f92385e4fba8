import LuxPolaris.RegistrySteps
import Mathlib.Data.List.Nodup

/-!
# Runs of a server with I/O loops

Whatever turns the loops take, the registry keeps its account of the
connections.
-/

set_option autoImplicit false

namespace Lux.Polaris.ServerLoops
open Outcome OutputStream TCPConnection

section Accepting
variable {server : ServerSetup} {s : ServerLoops}

theorem getNextLoop_of (h : server.numThreads ≠ 0 → s.next < server.numThreads) :
    ∃ ioLoop next, s.getNextLoop server = .ok (ioLoop, { s with next := next }) ∧
      (server.numThreads ≠ 0 → next < server.numThreads) := by
  unfold getNextLoop
  by_cases hn : server.numThreads = 0
  · exact ⟨0, s.next, if_pos hn, h⟩
  · rw [if_neg hn, if_pos (h hn)]
    refine ⟨_, _, rfl, fun _ => ?_⟩
    have hlt := h hn
    split_ifs <;> omega

theorem fresh (h : Holds server s none) : s.objects s.nextConnId = none := by
  cases hx : s.objects s.nextConnId with
  | none => rfl
  | some x => exact absurd (h.named _ x hx).2 (Nat.lt_irrefl _)

variable (hp : server.ipPort.length ≤ 51)
include hp

theorem accepted_holds (h : Holds server s none) (hlt : s.nextConnId < 2^31) {c : TCPConnection}
    (hc : c.state = .kConnecting ∧ c.channel.index = .kNew) (he : c.effects = [])
    (ho : OutputInv c) (ioLoop : ℕ) {next : ℕ}
    (hnext : server.numThreads ≠ 0 → next < server.numThreads) :
    Holds server (put { s with
      next := next
      nextConnId := s.nextConnId+1
      connections := Function.update s.connections
        (connName server.name server.ipPort s.nextConnId) (some s.nextConnId) } s.nextConnId
      ⟨c, connName server.name server.ipPort s.nextConnId, ioLoop, []⟩) (some s.nextConnId) := by
  have hnone := fresh h
  have hst := stage_put s s.nextConnId
    ⟨c, connName server.name server.ipPort s.nextConnId, ioLoop, []⟩
  have hidle : (s.stage s.nextConnId).bind (nextFunctor s.nextConnId) = none := by
    simp [stage, hnone]
  refine {
    h with
    books := fun l => ?_, inFlight := ?_
    good := forall_put (fun j y _ => h.good j y) ⟨hc, he, ho⟩
    named := forall_put (fun j y _ hy => ?_) ⟨rfl, Nat.lt_succ_self _⟩, few := Nat.succ_le_of_lt hlt
    registered := fun n j => ?_, next := hnext }
  · change LoopBooks (s.put s.nextConnId _).stage l (s.loops l)
    rw [hst]
    refine (h.books l).advance (fun ran hran => ?_)
    simp [stage, hnone] at hran
  · change InFlight _ (due (s.put s.nextConnId _).stage _) s.queue
    rw [hst, due_update, due_idle hidle]
    exact h.inFlight
  · obtain ⟨hn, hj⟩ := h.named j y hy
    exact ⟨hn, Nat.lt_succ_of_lt hj⟩
  · change Function.update s.connections _ (some s.nextConnId) n = some j ↔ _
    have hother : ∀ y, s.objects j = some y → y.name =
        connName server.name server.ipPort s.nextConnId → False := by
      intro y hy hname
      obtain ⟨hn, hj⟩ := h.named j y hy
      rw [hn] at hname
      exact Nat.ne_of_lt hj
        (connName_injective hp (Nat.lt_trans hj hlt) hlt hname)
    by_cases hj : j = s.nextConnId
    · subst hj
      by_cases hn : n = connName server.name server.ipPort s.nextConnId
      · subst hn
        simp
      · have hunmapped : s.connections n ≠ some s.nextConnId := by
          intro hm
          obtain ⟨x, hx, -⟩ := (h.registered n _).mp hm
          cases hnone.symm.trans hx
        simp [Function.update_of_ne hn, hunmapped, Ne.symm hn]
    · rw [put_of_ne _ _ _ hj]
      by_cases hn : n = connName server.name server.ipPort s.nextConnId
      · subst hn
        rw [Function.update_self]
        refine iff_of_false (fun h => hj (Option.some.inj h).symm) ?_
        rintro ⟨y, hy, hname, -⟩
        exact hother y hy hname
      · rw [Function.update_of_ne hn]
        exact h.registered n j

theorem newConnection_yields (h : Holds server s none) {sockfd mark : ℕ}
    {writeComplete highWater : Bool}
    (he : s.Enabled (.newConnection sockfd writeComplete highWater mark)) :
    Yields (s.newConnection server sockfd writeComplete highWater mark)
      (Holds server · none) (· = .lengthError) := by
  obtain ⟨ioLoop, next, hok, hnext⟩ := getNextLoop_of h.next
  simp only [newConnection, hok, ok_bind, yields_bind]
  apply (construct_spec sockfd mark writeComplete highWater).imp
  rintro c ⟨ho, -, hs, hk, heff⟩
  have haccepted := accepted_holds hp h he.2.2 ⟨hs, hk⟩ heff ho ioLoop hnext
  have hst := stage_put_self { s with
    next := next
    nextConnId := s.nextConnId+1
    connections := Function.update s.connections
      (connName server.name server.ipPort s.nextConnId) (some s.nextConnId) } s.nextConnId
    ⟨c, connName server.name server.ipPort s.nextConnId, ioLoop, []⟩
  obtain ⟨s', hrun, hs'⟩ := runInLoop_holds hp haccepted (l := ioLoop)
    (f := .connectEstablished s.nextConnId) rfl (by rw [hst]; rfl) (by simp) 0
  rw [hrun]
  exact (yields_ok _ _ _).mpr hs'

end Accepting

section Steps
variable {server : ServerSetup} {s : ServerLoops} {l i : ℕ}

theorem call_yields (h : Holds server s none) {a : Call} (he : s.Enabled (.call l i a)) :
    Yields (step server s (.call l i a)) (Holds server · none) (· = .lengthError) := by
  obtain ⟨x, hx, hany⟩ := (Option.any_eq_true _ _).mp he
  simp only [Bool.and_eq_true, decide_eq_true_eq] at hany
  obtain ⟨⟨rfl, hran⟩, ha⟩ := hany
  have hcall := userCall_yields (h.good i x hx).output ha
  rw [step]
  cases hr : x.conn.call a with
  | ok c =>
    rw [onConnection_ok hx [] hr]
    obtain ⟨hk, ho⟩ := hcall.ok hr
    exact (yields_ok _ _ _).mpr (settle_keeps h hx (List.ne_nil_of_mem hran) hk ho)
  | error e =>
    rw [onConnection_error hx [] hr]
    exact (yields_error _ _ _).mpr (hcall.error hr)

theorem up_of_polled (h : Holds server s none) (hk : (s.objects i).any
    (fun x => x.loop = l && x.conn.channel.index = .kAdded) = true) :
    s.stage i = some (l, [.connectEstablished]) := by
  obtain ⟨x, hx, hany⟩ := (Option.any_eq_true _ _).mp hk
  simp only [Bool.and_eq_true, decide_eq_true_eq] at hany
  obtain ⟨rfl, hindex⟩ := hany
  have hfits := (h.good i x hx).fits
  rw [stage_of hx, (ran_of_up hfits (up_of_added hfits hindex)).1]

theorem poll_holds (h : Holds server s none) {active : List ℕ} (he : s.Enabled (.poll l active)) :
    Holds server (s.onLoop l (fun L => { L with
      eventHandling := true, activeChannels := active, unhandled := active })) none := by
  obtain ⟨⟨hh, hn⟩, -, hf, hnodup, hactive⟩ := he
  have hbooks := h.books l
  refine h.onLoop_same {
    hbooks with
    current := fun p hp => ?_, unhandled := fun j hj => up_of_polled h (hactive j hj)
    once := hnodup, polled := nofun, swapped := fun _ => hf } rfl
  change p ∈ (s.loops l).handling at hp
  rw [hh] at hp
  cases hp

theorem swap_holds (h : Holds server s none) (he : s.Enabled (.swap l)) :
    Holds server (s.onLoop l ServerLoop.swap) none := by
  have hbooks := h.books l
  have hqueue : (s.loops l).swap.queue = s.queue l := by
    simp [ServerLoop.queue, queue, ServerLoop.swap, hbooks.swapped he.2.1]
  refine h.onLoop_same {
    hbooks with
    bound := fun j f hf => ?_, current := fun p hp => ?_, unhandled := fun _ h => by cases h
    once := List.nodup_nil, polled := fun _ => rfl, swapped := fun h => (by cases h) } hqueue
  · rw [hqueue] at hf
    exact hbooks.bound j f hf
  · obtain ⟨hc, -, hheld⟩ := hbooks.current p hp
    exact ⟨hc, List.not_mem_nil, hheld⟩

theorem callbacks_open {r : Revents} (h : r.pollhup = true → r.pollin = true) :
    ∀ cb ∈ Channel.callbacks r, cb ≠ .close := by
  have hclose : ¬(r.pollhup && !r.pollin) = true := by
    cases hp : r.pollhup with
    | false => simp
    | true => simp [h hp]
  rw [Channel.callbacks, if_neg hclose]
  split_ifs <;> simp

theorem callbacks_nodup (r : Revents) : (Channel.callbacks r).Nodup := by
  unfold Channel.callbacks
  split_ifs <;> decide

theorem handleEvent_holds (h : Holds server s none) {r : Revents}
    (he : s.Enabled (.handleEvent l i r)) :
    Holds server (s.onLoop l (fun L => { L with
      unhandled := L.unhandled.erase i
      handling := (Channel.callbacks r).map (fun cb => (i, cb)) })) none := by
  obtain ⟨⟨hh, hn⟩, hu, hhup⟩ := he
  have hbooks := h.books l
  have hst := hbooks.unhandled i hu
  obtain ⟨x, hx, -, hran⟩ := object_of_stage hst
  have hfits := (h.good i x hx).fits
  rw [hran] at hfits
  have hlistening : x.conn.Up ∧ x.conn.Listening := hfits
  have hopen := callbacks_open (hhup (by simp [hx, hlistening.2.reading]))
  have hmem : ∀ p ∈ (Channel.callbacks r).map (fun cb => (i, cb)), p.1 = i ∧ p.2 ≠ .close := by
    intro p hp
    obtain ⟨cb, hcb, rfl⟩ := List.mem_map.mp hp
    exact ⟨rfl, hopen cb hcb⟩
  refine h.onLoop_same {
    hbooks with
    current := fun p hp => ?_, reading := fun p hp _ => ?_, one := fun p hp q hq => ?_
    each := (callbacks_nodup r).map (Prod.mk_right_injective i)
    unhandled := fun j hj => hbooks.unhandled j (List.mem_of_mem_erase hj)
    once := hbooks.once.erase i, polled := fun hev => ?_ } rfl
  · obtain ⟨hi, hc⟩ := hmem p hp
    rw [hi]
    exact ⟨hc, fun hj => (hbooks.once.mem_erase_iff.mp hj).1 rfl, held_of_eq hst (by simp)⟩
  · rw [(hmem p hp).1]
    exact hst
  · rw [(hmem p hp).1, (hmem q hq).1]
  · rw [hbooks.polled hev] at hu
    cases hu

theorem handled_holds (h : Holds server s none) {p : ℕ × Callback} {rest : List (ℕ × Callback)}
    (hh : (s.loops l).handling = p::rest) :
    Holds server (s.onLoop l (fun L => { L with handling := rest })) none := by
  have hbooks := h.books l
  have hrest : ∀ q ∈ rest, q ∈ (s.loops l).handling := by
    intro q hq
    rw [hh]
    exact List.mem_cons_of_mem p hq
  have heach := hbooks.each
  rw [hh] at heach
  exact h.onLoop_same {
    hbooks with
    current := fun q hq => hbooks.current q (hrest q hq)
    reading := fun q hq => hbooks.reading q (hrest q hq)
    one := fun q hq q' hq' => hbooks.one q (hrest q hq) q' (hrest q' hq')
    each := heach.of_cons } rfl

theorem callback_yields (h : Holds server s none) {r : Buffer.ReadResult} {w : WriteResult}
    (he : s.Enabled (.callback l r w)) :
    Yields (step server s (.callback l r w)) (Holds server · none) (· = .lengthError) := by
  obtain ⟨hne, hn⟩ := he
  have hbooks := h.books l
  rw [step]
  cases hh : (s.loops l).handling with
  | nil => exact absurd hh hne
  | cons p rest =>
    obtain ⟨i, cb⟩ := p
    have hin : (i, cb) ∈ (s.loops l).handling := by simp [hh]
    obtain ⟨hopen, hu, ran, hst, hran⟩ := hbooks.current _ hin
    obtain ⟨x, hx, hl, rfl⟩ := object_of_stage hst
    dsimp only at hl
    subst hl
    have hhandled := handled_holds h hh
    have hx' : (s.onLoop x.loop (fun L => { L with handling := rest })).objects i = some x := hx
    obtain ⟨hfits, -, ho⟩ := h.good i x hx
    dsimp only
    cases hr : x.conn.handleCallback r w cb with
    | ok c =>
      have hinv := handleCallback_inv ho hr
      rw [onConnection_ok hx' [] hr]
      refine (yields_ok _ _ _).mpr ?_
      rcases handleCallback_states ho hr with hk | hk
      · exact settle_keeps hhandled hx' hran hk hinv
      · refine settle_close hhandled hx' hk hinv ?_ ?_
        · rw [onLoop_self]
          exact hu
        · rw [onLoop_self]
          -- only the reader closes, and an event calls it once
          have hread : cb = .read := (handleCallback_closes ho hr hk).resolve_left hopen
          have heach := hbooks.each
          rw [hh, hread] at heach
          exact (List.nodup_cons.mp heach).1
    | error e =>
      rw [onConnection_error hx' [] hr]
      refine (yields_error _ _ _).mpr ?_
      rcases handleCallback_fault ho hr with hl | ⟨hcb, hup⟩
      · exact hl
      · have hread : cb = .read := (hcb.resolve_left hopen).1
        have hreading := hbooks.reading _ hin hread
        rw [stage_of hx] at hreading
        rw [(Prod.mk.inj (Option.some.inj hreading)).2] at hfits
        exact absurd hfits.1 hup

theorem closeCallback_holds (hp : server.ipPort.length ≤ 51) (h : Holds server s none)
    (he : s.Enabled (.closeCallback l)) :
    ∃ s', step server s (.closeCallback l) = .ok s' ∧ Holds server s' none := by
  obtain ⟨i, hc⟩ := Option.ne_none_iff_exists'.mp he
  have hbooks := h.books l
  have hst := hbooks.closing i hc
  obtain ⟨x, hx, hl, hran⟩ := object_of_stage hst
  dsimp only at hl hran
  subst hl
  have hidle : (s.stage i).bind (nextFunctor i) = none := by
    rw [hst]
    rfl
  have hopen : Holds server (s.onLoop x.loop (fun L => { L with closing := none })) (some i) :=
    (h.grab hidle).onLoop_same { hbooks with closing := by simp } rfl
  obtain ⟨hfits, hsettled, ho⟩ := h.good i x hx
  have hran' : x.ran ++ [.removeConnection] = course.take 3 := by
    rw [hran]
    rfl
  rw [hran] at hfits
  have hleft : Left x.conn := hfits
  have hgood : Good { x with ran := course.take 3 } := ⟨hleft, hsettled, ho⟩
  have hadvanced := hopen.advance hx hgood (by simp [course]) (by simp [hran, course])
    (fun h => by simp [hran] at h) (fun _ => by simp)
  have hnext : ((put (s.onLoop x.loop (fun L => { L with closing := none })) i
      { x with ran := course.take 3 }).stage i).bind (nextFunctor i) =
      some (0, .removeConnectionInLoop i) := by
    rw [stage_put_self]
    rfl
  obtain ⟨s', hrun, hs'⟩ := runInLoop_holds hp hadvanced rfl hnext (by simp) x.loop
  refine ⟨s', ?_, hs'⟩
  have hobject := object_of (s := s.onLoop x.loop (fun L => { L with closing := none })) hx
  simp only [step, hc, removeConnection, hobject, ok_bind, hran']
  exact hrun

theorem runFunctor_yields (hp : server.ipPort.length ≤ 51) (h : Holds server s none)
    (he : s.Enabled (.runFunctor l)) :
    ∃ s', step server s (.runFunctor l) = .ok s' ∧ Holds server s' none := by
  obtain ⟨⟨hh, hn⟩, hev, hne⟩ := he
  have hbooks := h.books l
  cases hf : (s.loops l).functors with
  | nil => exact absurd hf hne
  | cons f fs =>
    simp only [step, hf]
    cases f with
    | connectEstablished i =>
      obtain ⟨htaken, hnext⟩ := h.take hf rfl
      exact runFunctor_holds hp htaken hnext nofun
    | removeConnectionInLoop i =>
      obtain ⟨htaken, hnext⟩ := h.take hf rfl
      exact runFunctor_holds hp htaken hnext nofun
    | connectDestroyed i =>
      obtain ⟨htaken, hnext⟩ := h.take hf rfl
      exact runFunctor_holds hp htaken hnext (fun _ => by rw [onLoop_self]; exact hev)
    | ofConnection i g =>
      have htaken := h.takeFree hf
      obtain ⟨ran, hst, hran⟩ := hbooks.bound i g (by simp [ServerLoop.queue, hf])
      obtain ⟨x, hx, hl, rfl⟩ := object_of_stage hst
      dsimp only at hl
      subst hl
      cases g with
      | writeCompleteCallback => exact ⟨_, rfl, htaken⟩
      | highWaterMarkCallback size => exact ⟨_, rfl, htaken⟩
      | forceCloseInLoop =>
        have ho := (h.good i x hx).output
        have hmoves := forceCloseInLoop_moves ho
        have hx' : (s.onLoop x.loop (fun L => { L with functors := fs })).objects i = some x := hx
        cases hr : x.conn.forceCloseInLoop with
        | error e => exact (hmoves.error hr).elim
        | ok c =>
          have hinv := (hmoves.ok hr).inv
          refine ⟨_, onConnection_ok hx' [] hr, ?_⟩
          rcases forceCloseInLoop_states hr with hk | hk
          · exact settle_keeps htaken hx' hran hk hinv
          · refine settle_close htaken hx' hk hinv ?_ ?_
            · simp [hbooks.polled hev]
            · simp [hh]

theorem step_yields (hp : server.ipPort.length ≤ 51) (h : Holds server s none) {a : Action}
    (he : s.Enabled a) : Yields (step server s a) (Holds server · none) (· = .lengthError) := by
  have hok : (∃ s', step server s a = .ok s' ∧ Holds server s' none) →
      Yields (step server s a) (Holds server · none) (· = .lengthError) := by
    rintro ⟨s', hs, h'⟩
    rw [hs]
    exact (yields_ok _ _ _).mpr h'
  cases a with
  | newConnection sockfd writeComplete highWater mark => exact newConnection_yields hp h he
  | call l i a => exact call_yields h he
  | poll l active => exact hok ⟨_, rfl, poll_holds h he⟩
  | handleEvent l i r => exact hok ⟨_, rfl, handleEvent_holds h he⟩
  | callback l r w => exact callback_yields h he
  | closeCallback l => exact hok (closeCallback_holds hp h he)
  | swap l => exact hok ⟨_, rfl, swap_holds h he⟩
  | runFunctor l => exact hok (runFunctor_yields hp h he)

end Steps

section Registry

theorem started_holds (server : ServerSetup) : Holds server started none where
  books := fun l => {
    bound := nofun, current := nofun, reading := nofun, one := nofun, each := List.nodup_nil
    unhandled := nofun, once := List.nodup_nil, closing := nofun, polled := fun _ => rfl
    swapped := fun _ => rfl }
  inFlight := fun _ _ _ _ => List.count_nil.trans (if_neg nofun).symm
  good := fun _ _ hx => nomatch hx
  named := fun _ _ hx => nomatch hx
  few := Nat.one_le_two_pow
  registered := by simp [started]
  erased := nofun
  next := Nat.pos_of_ne_zero

/-- The name in full, and what the map and the loops have made of it. -/
structure Registry (inetNtop : ℕ → List Byte → List Char) (listenAddr : InetAddress)
    (name : List Char) (s : ServerLoops) : Prop where
  named : ∀ i x, s.objects i = some x →
    x.name = name ++ connSuffix (listenAddr.ipPortText inetNtop) i
  distinct : ∀ i j x y, s.objects i = some x → s.objects j = some y → x.name = y.name → i = j
  registered : ∀ n i, s.connections n = some i ↔
    ∃ x, s.objects i = some x ∧ x.name = n ∧ .removeConnectionInLoop ∉ x.ran
  erased : ∀ e ∈ s.erased, e.2 = some e.1
  course : ∀ i x, s.objects i = some x → x.ran <+: ServerLoops.course

theorem registry_of_holds {inetNtop : ℕ → List Byte → List Char}
    (hn : ∀ family addr, (inetNtop family addr).length ≤ 45) (listenAddr : InetAddress)
    (name : List Char) (numThreads : ℕ) {s : ServerLoops}
    (h : Holds ⟨name, listenAddr.ipPortText inetNtop, numThreads⟩ s none) :
    Registry inetNtop listenAddr name s := by
  have hp := length_ipPortText (fun family addr _ => hn family addr) listenAddr
  refine ⟨fun i x hx => ?_, fun i j x y => h.injective hp, h.registered, h.erased,
    fun i x hx => ran_prefix (h.good i x hx).fits⟩
  obtain ⟨hname, hi⟩ := h.named i x hx
  rw [hname, connName_eq hp (Nat.lt_of_lt_of_le hi h.few)]

/-- Every run of a server with any number of I/O loops: no assertion fails, no
name is cut short or given twice, the map holds the connections that have not
been removed, each is erased alone and runs through its course once. -/
theorem server_registry (inetNtop : ℕ → List Byte → List Char)
    (hn : ∀ family addr, (inetNtop family addr).length ≤ 45) (listenAddr : InetAddress)
    (name : List Char) (numThreads : ℕ) :
    ∃ server, ServerSetup.construct inetNtop listenAddr name numThreads = .ok server ∧
      ∀ as, Admitted (step server) Enabled started as →
        Yields (run (step server) started as) (Registry inetNtop listenAddr name)
          (· = .lengthError) := by
  have hp := length_ipPortText (fun family addr _ => hn family addr) listenAddr
  refine ⟨⟨name, listenAddr.ipPortText inetNtop, numThreads⟩, ?_, fun as ha => ?_⟩
  · rw [ServerSetup.construct, toIpPort_of (fun family addr _ => hn family addr)]
    rfl
  · have hrun := run_yields Enabled (fun s a h he => step_yields hp h he) as started
      (started_holds ⟨name, listenAddr.ipPortText inetNtop, numThreads⟩) ha
    exact hrun.imp (fun s h => registry_of_holds hn listenAddr name numThreads h)

def dottedQuad (_ : ℕ) (addr : List Byte) : List Char :=
  ((['.'].intercalate (addr.map (fun b => decimal b.toNat)))).take 45

def echoServer : ServerSetup where
  name := ['e', 'c', 'h', 'o']
  ipPort := ['1', '2', '7', '.', '0', '.', '0', '.', '1', ':', '8', '0', '8', '0']
  numThreads := 2

def closings : List Action :=
  [.poll 0 [], .newConnection 5 true false 64, .newConnection 6 false false 64, .poll 1 [],
    .swap 1, .poll 2 [], .swap 2, .runFunctor 1, .runFunctor 2, .poll 1 [1], .call 2 2 .forceClose,
    .handleEvent 1 1 ⟨true, false, false, false, true, true, false⟩,
    .callback 1 (.read []) (.accepted 0), .poll 2 [], .closeCallback 1, .swap 2, .runFunctor 2,
    .swap 0, .closeCallback 2, .runFunctor 0, .swap 1, .runFunctor 1, .poll 0 [], .swap 0,
    .runFunctor 0, .poll 2 [], .swap 2]

theorem server_registry_closings :
    ∃ s, run (step echoServer) started closings = .ok s ∧
      s.erased = [(1, some 1), (2, some 2)] ∧
      (s.objects 1).map ServerConn.ran = some course ∧
      (s.objects 2).map ServerConn.ran = some (course.take 4) ∧
      Registry dottedQuad ⟨AF_INET, [127, 0, 0, 1], 0x901f⟩ echoServer.name s := by
  obtain ⟨server, hserver, hruns⟩ := server_registry dottedQuad
    (fun _ _ => List.length_take_le _ _) ⟨AF_INET, [127, 0, 0, 1], 0x901f⟩ echoServer.name 2
  have hsetup : ServerSetup.construct dottedQuad ⟨AF_INET, [127, 0, 0, 1], 0x901f⟩
      echoServer.name 2 = .ok echoServer := by decide +kernel
  cases hserver.symm.trans hsetup
  have hrun : (fun s => (s.erased, (s.objects 1).map ServerConn.ran,
      (s.objects 2).map ServerConn.ran)) <$> run (step echoServer) started closings =
      .ok ([(1, some 1), (2, some 2)], some course, some (course.take 4)) := by decide +kernel
  obtain ⟨s, hs, hp⟩ := map_ok.mp hrun
  simp only [Prod.mk.injEq] at hp
  exact ⟨s, hs, hp.1, hp.2.1, hp.2.2, (hruns closings (by decide +kernel)).ok hs⟩

end Registry

end Lux.Polaris.ServerLoops
