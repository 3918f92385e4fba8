import LuxPolaris.ConnectionStates
import Mathlib.Logic.Function.Basic

/-!
# Closing a connection from several threads

`forceClose` and `forceCloseWithDelay` test `state_`, store it and hand a
closure to the loop. Each of these accesses is a step here, and so is each
access of the loop thread in `handleClose`, `forceCloseInLoop` and the
`forceClose` of a delayed-close timer. The callers hold the connection, so a
timer's weak pointer finds it alive.
-/

set_option autoImplicit false

namespace Lux.Polaris
open Outcome TCPConnection

inductive ForceClose where
  | now
  | after (delay : Seconds)
  deriving DecidableEq, Repr

/-- `runAfter` on a foreign thread queues `addTimerInLoop`. -/
inductive CloseTask where
  | forceCloseInLoop
  | addTimerInLoop (delay : Seconds)
  | connectDestroyed
  deriving DecidableEq, Repr

inductive CloseCall where
  | tested (close : ForceClose)
  | stored (close : ForceClose)
  deriving DecidableEq, Repr

/-- What the loop thread is in the middle of: `forceCloseInLoop` after its
test; `handleClose` after its assertion, its store and `connectionCallback_`;
the timer's `forceClose` after its test and its store. -/
inductive LoopAt where
  | idle
  | forceCloseInLoop
  | asserted
  | disconnected
  | notified
  | tested
  | stored
  deriving DecidableEq, Repr

/-- `removals` are the calls of `closeCallback_` whose owner has yet to queue
`connectDestroyed`; `closed` is history: `handleClose` has stored
`kDisconnected`. The callbacks made are in the connection's effects. -/
structure ClosingThreads (τ : Type) where
  conn : TCPConnection
  pendingFunctors : List CloseTask
  functors : List CloseTask
  timers : List Seconds
  calls : τ → Option CloseCall
  loop : LoopAt
  removals : ℕ
  closed : Bool

namespace ClosingThreads

/-- `test`, `store` and `push` are the accesses of a foreign thread, and
`removeConnection` is the owner's, on whatever thread. `handleClose` is the
loop thread entering it for an event, and `advance` its next access. -/
inductive Action (τ : Type) where
  | test (x : τ) (close : ForceClose)
  | store (x : τ)
  | push (x : τ)
  | removeConnection
  | handleClose
  | fireTimer (delay : Seconds)
  | swap
  | runFunctor
  | advance

end ClosingThreads

def ForceClose.functor : ForceClose → CloseTask
  | .now => .forceCloseInLoop
  | .after delay => .addTimerInLoop delay

def CloseCall.isStored : CloseCall → Bool
  | .tested _ => false
  | .stored _ => true

namespace ClosingThreads
variable {τ : Type}

def established (c : TCPConnection) : ClosingThreads τ where
  conn := { c with effects := [] }
  pendingFunctors := []
  functors := []
  timers := []
  calls := fun _ => none
  loop := .idle
  removals := 0
  closed := false

def enterClose (s : ClosingThreads τ) : Except Fault (ClosingThreads τ) := do
  assertThat (s.conn.state = .kConnected ∨ s.conn.state = .kDisconnecting)
    "state_ == StateE::kConnected || state_ == StateE::kDisconnecting"
  return { s with loop := .asserted }

def advance (s : ClosingThreads τ) : Except Fault (ClosingThreads τ) :=
  match s.loop with
  | .idle => .ok s
  | .forceCloseInLoop => s.enterClose
  | .asserted => .ok { s with
      conn := s.conn.setState .kDisconnected, closed := true, loop := .disconnected }
  | .disconnected => .ok { s with
      conn := { s.conn with channel := s.conn.channel.disableAll }.callConnectionCallback
      loop := .notified }
  | .notified => .ok { s with
      conn := s.conn.emit .closeCallback, removals := s.removals+1, loop := .idle }
  | .tested => .ok { s with conn := s.conn.setState .kDisconnecting, loop := .stored }
  | .stored => .ok { s with
      pendingFunctors := s.pendingFunctors ++ [.forceCloseInLoop], loop := .idle }

def runFunctor (s : ClosingThreads τ) : CloseTask → Except Fault (ClosingThreads τ)
  | .forceCloseInLoop => .ok (if s.conn.Up then { s with loop := .forceCloseInLoop } else s)
  | .addTimerInLoop delay => .ok { s with timers := s.timers ++ [delay] }
  | .connectDestroyed => do
    let c ← s.conn.connectDestroyed
    return { s with conn := c }

variable [DecidableEq τ]

def step (s : ClosingThreads τ) : Action τ → Except Fault (ClosingThreads τ)
  | .test x close => .ok (if s.conn.Up then
      { s with calls := Function.update s.calls x (some (.tested close)) } else s)
  | .store x =>
    match s.calls x with
    | some (.tested close) => .ok { s with
        conn := s.conn.setState .kDisconnecting
        calls := Function.update s.calls x (some (.stored close)) }
    | _ => .ok s
  | .push x =>
    match s.calls x with
    | some (.stored close) => .ok { s with
        pendingFunctors := s.pendingFunctors ++ [close.functor]
        calls := Function.update s.calls x none }
    | _ => .ok s
  | .removeConnection => .ok { s with
      removals := s.removals-1, pendingFunctors := s.pendingFunctors ++ [.connectDestroyed] }
  | .handleClose => s.enterClose
  | .fireTimer delay => .ok { s with
      timers := s.timers.erase delay, loop := if s.conn.Up then .tested else .idle }
  | .swap => .ok { s with functors := s.pendingFunctors, pendingFunctors := [] }
  | .runFunctor =>
    match s.functors with
    | [] => .ok s
    | f::functors => { s with functors := functors }.runFunctor f
  | .advance => s.advance

/-- Each thread makes one call at a time. The loop thread finishes what it is
in the middle of, and handles events only when no functors are left. -/
def Enabled (s : ClosingThreads τ) : Action τ → Prop
  | .test x _ => s.calls x = none
  | .store x => (s.calls x).any (fun c => !c.isStored) = true
  | .push x => (s.calls x).any CloseCall.isStored = true
  | .removeConnection => 0 < s.removals
  | .handleClose => s.loop = .idle ∧ s.functors = []
  | .fireTimer delay => s.loop = .idle ∧ s.functors = [] ∧ delay ∈ s.timers
  | .swap => s.loop = .idle ∧ s.functors = []
  | .runFunctor => s.loop = .idle ∧ s.functors ≠ []
  | .advance => s.loop ≠ .idle

instance (s : ClosingThreads τ) : (a : Action τ) → Decidable (s.Enabled a)
  | .test _ _ => inferInstanceAs (Decidable (_ = none))
  | .store _ => inferInstanceAs (Decidable (_ = true))
  | .push _ => inferInstanceAs (Decidable (_ = true))
  | .removeConnection => inferInstanceAs (Decidable (_ < _))
  | .handleClose => inferInstanceAs (Decidable (_ ∧ _ = []))
  | .fireTimer _ => inferInstanceAs (Decidable (_ ∧ _ = [] ∧ _))
  | .swap => inferInstanceAs (Decidable (_ ∧ _ = []))
  | .runFunctor => inferInstanceAs (Decidable (_ ∧ _ ≠ []))
  | .advance => inferInstanceAs (Decidable (_ ≠ _))

/-- Once `handleClose` has stored `kDisconnected` the state stays so, and the
user and the owner are told of the close at most once. -/
def Absorbed (s : ClosingThreads τ) : Prop :=
  (s.closed = true → s.conn.state = .kDisconnected) ∧
  s.conn.effects.count (.connectionCallback false) ≤ 1 ∧
  s.conn.effects.count .closeCallback ≤ 1

/-- Between the test and the store of a foreign call no close has come. -/
def Timely (s : ClosingThreads τ) : Action τ → Prop
  | .store _ => s.conn.state ≠ .kDisconnected
  | _ => True

instance (s : ClosingThreads τ) : (a : Action τ) → Decidable (s.Timely a)
  | .test _ _ => isTrue trivial
  | .store _ => inferInstanceAs (Decidable (_ ≠ _))
  | .push _ => isTrue trivial
  | .removeConnection => isTrue trivial
  | .handleClose => isTrue trivial
  | .fireTimer _ => isTrue trivial
  | .swap => isTrue trivial
  | .runFunctor => isTrue trivial
  | .advance => isTrue trivial

def Stops (e : Fault) : Prop := ∃ expr, e = .assertion expr

/-- The state against the history, the callbacks made so far against the place
in `handleClose`, and what is left to be done only after a close. -/
structure Inv (s : ClosingThreads τ) : Prop where
  up : s.closed = false → s.conn.Up
  down : s.closed = true → s.conn.state = .kDisconnected
  open_ : s.loop = .forceCloseInLoop ∨ s.loop = .asserted ∨ s.loop = .tested → s.closed = false
  shut : s.loop = .disconnected ∨ s.loop = .notified → s.closed = true
  told : s.conn.effects.count (.connectionCallback false) =
    if s.closed = true ∧ s.loop ≠ .disconnected then 1 else 0
  owner : s.conn.effects.count .closeCallback =
    if s.closed = true ∧ s.loop ≠ .disconnected ∧ s.loop ≠ .notified then 1 else 0
  owed : 0 < s.removals ∨ .connectDestroyed ∈ s.pendingFunctors ∨
    .connectDestroyed ∈ s.functors → s.closed = true ∧ s.loop ≠ .disconnected ∧ s.loop ≠ .notified

end ClosingThreads

namespace ClosingThreads
variable {τ : Type}

section Places
variable {s : ClosingThreads τ}

theorem up_iff_open (hi : s.Inv) : s.conn.Up ↔ s.closed = false := by
  constructor
  · intro hup
    cases hc : s.closed with
    | false => rfl
    | true => exact absurd (hi.down hc) (not_down_of_up hup)
  · exact hi.up

theorem established_inv {c : TCPConnection} (hup : c.Up) :
    (established c : ClosingThreads τ).Inv where
  up := fun _ => hup
  down := nofun
  open_ := fun _ => rfl
  shut := by rintro (h | h) <;> cases h
  told := rfl
  owner := rfl
  owed := by rintro (h | h | h) <;> cases h

theorem Inv.frame {s' : ClosingThreads τ} (hi : s.Inv) (hconn : s'.conn = s.conn)
    (hloop : s'.loop = s.loop) (hclosed : s'.closed = s.closed)
    (howed : 0 < s'.removals ∨ .connectDestroyed ∈ s'.pendingFunctors ∨
        .connectDestroyed ∈ s'.functors →
      0 < s.removals ∨ .connectDestroyed ∈ s.pendingFunctors ∨
        .connectDestroyed ∈ s.functors) : s'.Inv := by
  constructor
  · rw [hclosed, hconn]
    exact hi.up
  · rw [hclosed, hconn]
    exact hi.down
  · rw [hclosed, hloop]
    exact hi.open_
  · rw [hclosed, hloop]
    exact hi.shut
  · rw [hclosed, hloop, hconn]
    exact hi.told
  · rw [hclosed, hloop, hconn]
    exact hi.owner
  · rw [hclosed, hloop]
    exact fun h => hi.owed (howed h)

theorem Inv.disconnecting {s' : ClosingThreads τ} (hi : s.Inv) (hopen : s.closed = false)
    (hconn : s'.conn = s.conn.setState .kDisconnecting) (hclosed : s'.closed = s.closed)
    (hloop : s'.loop = s.loop ∨ s'.loop = .stored)
    (hp : s'.pendingFunctors = s.pendingFunctors) (hf : s'.functors = s.functors)
    (hr : s'.removals = s.removals) : s'.Inv := by
  have hopen' : s'.closed = false := hclosed.trans hopen
  have htold : s.conn.effects.count (.connectionCallback false) = 0 := by
    simp [hi.told, hopen]
  have howner : s.conn.effects.count .closeCallback = 0 := by
    simp [hi.owner, hopen]
  constructor
  · intro _
    rw [hconn]
    exact Or.inr rfl
  · intro h
    exact nomatch hopen'.symm.trans h
  · exact fun _ => hopen'
  · intro h
    have hs : s.loop = .disconnected ∨ s.loop = .notified := by
      rcases hloop with hl | hl
      · rwa [hl] at h
      · rw [hl] at h
        rcases h with h | h <;> cases h
    exact nomatch hopen.symm.trans (hi.shut hs)
  · rw [hconn, hopen']
    simpa [setState] using htold
  · rw [hconn, hopen']
    simpa [setState] using howner
  · rw [hp, hf, hr]
    intro h
    exact nomatch hopen.symm.trans (hi.owed h).1

theorem Inv.moveTo {s' : ClosingThreads τ} (hi : s.Inv) (hconn : s'.conn = s.conn)
    (hclosed : s'.closed = s.closed) (hp : ∀ f ∈ s'.pendingFunctors,
      f ∈ s.pendingFunctors ∨ f = .forceCloseInLoop)
    (hf : ∀ f ∈ s'.functors, f ∈ s.functors) (hr : s'.removals = s.removals)
    (hfrom : s.loop ≠ .disconnected ∧ s.loop ≠ .notified)
    (hto : s'.loop ≠ .disconnected ∧ s'.loop ≠ .notified)
    (hopen : s'.loop = .forceCloseInLoop ∨ s'.loop = .asserted ∨ s'.loop = .tested →
      s.closed = false) : s'.Inv := by
  constructor
  · rw [hclosed, hconn]
    exact hi.up
  · rw [hclosed, hconn]
    exact hi.down
  · rw [hclosed]
    exact hopen
  · rintro (h | h)
    · exact absurd h hto.1
    · exact absurd h hto.2
  · rw [hclosed, hconn, hi.told]
    simp [hfrom.1, hto.1]
  · rw [hclosed, hconn, hi.owner]
    simp [hfrom, hto]
  · rw [hclosed, hr]
    intro h
    refine ⟨(hi.owed ?_).1, hto⟩
    rcases h with h | h | h
    · exact Or.inl h
    · rcases hp _ h with h | h
      · exact Or.inr (Or.inl h)
      · cases h
    · exact Or.inr (Or.inr (hf _ h))

theorem enterClose_inv (hi : s.Inv) (hl : s.loop = .idle ∨ s.loop = .forceCloseInLoop) :
    Yields s.enterClose Inv Stops := by
  rw [enterClose]
  by_cases hup : s.conn.state = .kConnected ∨ s.conn.state = .kDisconnecting
  · rw [assertThat_of hup, ok_bind, pure_eq_ok, yields_ok]
    refine hi.moveTo rfl rfl (fun f h => Or.inl h) (fun f h => h) rfl ?_ (by simp) ?_
    · rcases hl with h | h <;> simp [h]
    · exact fun _ => (up_iff_open hi).mp hup
  · rw [assertThat_of_not hup]
    exact (yields_error _ _ _).mpr ⟨_, rfl⟩

theorem advance_inv (hi : s.Inv) : Yields s.advance Inv Stops := by
  rw [advance]
  cases hl : s.loop with
  | idle => exact (yields_ok _ _ _).mpr hi
  | forceCloseInLoop => exact enterClose_inv hi (Or.inr hl)
  | asserted =>
    have hopen : s.closed = false := hi.open_ (by simp [hl])
    have htold : s.conn.effects.count (.connectionCallback false) = 0 := by simp [hi.told, hopen]
    have howner : s.conn.effects.count .closeCallback = 0 := by simp [hi.owner, hopen]
    refine (yields_ok _ _ _).mpr ⟨by simp, fun _ => rfl, by simp, fun _ => rfl, ?_, ?_, ?_⟩
    · simpa [setState] using htold
    · simpa [setState] using howner
    · intro h
      cases hopen.symm.trans (hi.owed h).1
  | disconnected =>
    have hclosed : s.closed = true := hi.shut (Or.inl hl)
    have htold : s.conn.effects.count (.connectionCallback false) = 0 := by simp [hi.told, hl]
    have howner : s.conn.effects.count .closeCallback = 0 := by simp [hi.owner, hl]
    have hsees : s.conn.connected = false := by simp [connected, hi.down hclosed]
    refine (yields_ok _ _ _).mpr ⟨?_, ?_, by simp, fun _ => hclosed, ?_, ?_, ?_⟩
    · intro h
      cases hclosed.symm.trans h
    · exact hi.down
    · have hcall : (TCPConnection.callConnectionCallback
          { s.conn with channel := s.conn.channel.disableAll }).effects =
            s.conn.effects ++ [.connectionCallback false] := by
        show s.conn.effects ++ [.connectionCallback s.conn.connected] = _
        rw [hsees]
      simp [hcall, htold, hclosed]
    · simpa [callConnectionCallback, emit] using howner
    · intro h
      exact absurd hl (hi.owed h).2.1
  | notified =>
    have hclosed : s.closed = true := hi.shut (Or.inr hl)
    have htold : s.conn.effects.count (.connectionCallback false) = 1 := by
      simp [hi.told, hl, hclosed]
    have howner : s.conn.effects.count .closeCallback = 0 := by simp [hi.owner, hl]
    refine (yields_ok _ _ _).mpr ⟨?_, hi.down, by simp, by simp, ?_, ?_, ?_⟩
    · intro h
      cases hclosed.symm.trans h
    · simp [emit, htold, hclosed]
    · simp [emit, howner, hclosed]
    · exact fun _ => ⟨hclosed, by simp⟩
  | tested =>
    have hopen : s.closed = false := hi.open_ (by simp [hl])
    exact (yields_ok _ _ _).mpr (hi.disconnecting hopen rfl rfl (Or.inr rfl) rfl rfl rfl)
  | stored =>
    refine (yields_ok _ _ _).mpr (hi.moveTo rfl rfl ?_ (fun f h => h) rfl (by simp [hl])
      (by simp) (by simp))
    intro f hf
    simpa using hf

theorem connectDestroyed_quiet {c : TCPConnection} (hd : c.state = .kDisconnected) :
    Yields c.connectDestroyed (fun c' => c'.state = .kDisconnected ∧ c'.effects = c.effects)
      Stops := by
  have hne : ¬c.state = .kConnected := by simp [hd]
  rw [connectDestroyed, if_neg hne, yields_bind, Channel.remove]
  by_cases hn : c.channel.isNoneEvent = true
  · by_cases hk : c.channel.index ≠ .kNew
    · simp only [assertThat_of hn, assertThat_of hk, ok_bind, pure_eq_ok, yields_ok]
      exact ⟨hd, trivial⟩
    · simp only [assertThat_of hn, assertThat_of_not hk, ok_bind]
      exact (yields_error _ _ _).mpr ⟨_, rfl⟩
  · simp only [assertThat_of_not hn]
    exact (yields_error _ _ _).mpr ⟨_, rfl⟩

theorem runFunctor_inv (hi : s.Inv) (hl : s.loop = .idle) {f : CloseTask}
    {functors : List CloseTask} (hf : s.functors = f::functors) :
    Yields (runFunctor { s with functors := functors } f) Inv Stops := by
  have hrest : ∀ g ∈ functors, g ∈ s.functors := fun g hg => by simp [hf, hg]
  cases f with
  | forceCloseInLoop =>
    refine (yields_ok _ _ _).mpr ?_
    split_ifs with hup
    · exact hi.moveTo rfl rfl (fun g h => Or.inl h) hrest rfl (by simp [hl]) (by simp)
        (fun _ => (up_iff_open hi).mp hup)
    · exact hi.moveTo rfl rfl (fun g h => Or.inl h) hrest rfl (by simp [hl]) (by simp [hl])
        (by simp [hl])
  | addTimerInLoop delay =>
    exact (yields_ok _ _ _).mpr (hi.moveTo rfl rfl (fun g h => Or.inl h) hrest rfl (by simp [hl])
      (by simp [hl]) (by simp [hl]))
  | connectDestroyed =>
    have hclosed : s.closed = true := (hi.owed (by simp [hf])).1
    rw [runFunctor, yields_bind]
    refine (connectDestroyed_quiet (hi.down hclosed)).imp (fun c hc => (yields_ok _ _ _).mpr ?_)
    constructor
    · intro h
      exact nomatch hclosed.symm.trans h
    · exact fun _ => hc.1
    · simp [hl]
    · simp [hl]
    · rw [hc.2]
      exact hi.told
    · rw [hc.2]
      exact hi.owner
    · exact fun _ => ⟨hclosed, by simp [hl]⟩

theorem inv_absorbed (hi : s.Inv) : s.Absorbed := by
  refine ⟨hi.down, ?_, ?_⟩
  · rw [hi.told]
    split_ifs <;> omega
  · rw [hi.owner]
    split_ifs <;> omega

end Places

variable [DecidableEq τ]

section Alone
variable {s : ClosingThreads τ}

/-- With no other thread in between, the accesses of the loop thread make up
`TCPConnection::handleClose`. -/
theorem handleClose_alone (h : s.loop = .idle) :
    run step s [.handleClose, .advance, .advance, .advance] =
      s.conn.handleClose >>= fun c =>
        .ok { s with conn := c, removals := s.removals+1, closed := true } := by
  by_cases hup : s.conn.state = .kConnected ∨ s.conn.state = .kDisconnecting
  · simp only [run, step, enterClose, advance, TCPConnection.handleClose, assertThat_of hup,
      ok_bind, pure_eq_ok, ← h]
  · simp only [run, step, enterClose, TCPConnection.handleClose, assertThat_of_not hup]
    rfl

/-- With no other thread in between, the accesses of a foreign thread make up
`TCPConnection::forceClose`, whose functor is in the queue then. -/
theorem forceClose_alone (x : τ) (hup : s.conn.Up) (hx : s.calls x = none) :
    run step s [.test x .now, .store x, .push x] = .ok { s with
      conn := { s.conn.forceClose with effects := s.conn.effects }
      pendingFunctors := s.pendingFunctors ++ [.forceCloseInLoop] } := by
  have hforce : s.conn.forceClose =
      (s.conn.setState .kDisconnecting).emit (.queueInLoop .forceCloseInLoop) := if_pos hup
  have hcalls : Function.update s.calls x none = s.calls := by
    rw [← hx, Function.update_eq_self]
  simp only [run, step, if_pos hup, ok_bind, Function.update_self, Function.update_idem, hforce,
    hcalls]
  rfl

end Alone

section Steps
variable {s : ClosingThreads τ}

theorem step_inv (hi : s.Inv) {a : Action τ} (he : s.Enabled a) (ht : s.Timely a) :
    Yields (s.step a) Inv Stops := by
  cases a with
  | test x close =>
    refine (yields_ok _ _ _).mpr ?_
    split_ifs
    · exact hi.frame rfl rfl rfl id
    · exact hi
  | store x =>
    rw [step]
    have hopen : s.closed = false := by
      cases hc : s.closed with
      | false => rfl
      | true => exact absurd (hi.down hc) ht
    cases hx : s.calls x with
    | none => exact (yields_ok _ _ _).mpr hi
    | some call =>
      cases call with
      | tested close =>
        exact (yields_ok _ _ _).mpr (hi.disconnecting hopen rfl rfl (Or.inl rfl) rfl rfl rfl)
      | stored close => exact (yields_ok _ _ _).mpr hi
  | push x =>
    rw [step]
    cases hx : s.calls x with
    | none => exact (yields_ok _ _ _).mpr hi
    | some call =>
      cases call with
      | tested close => exact (yields_ok _ _ _).mpr hi
      | stored close =>
        refine (yields_ok _ _ _).mpr (hi.frame rfl rfl rfl ?_)
        cases close <;> simp [ForceClose.functor]
  | removeConnection =>
    have hpos : 0 < s.removals := he
    exact (yields_ok _ _ _).mpr (hi.frame rfl rfl rfl (fun _ => Or.inl hpos))
  | handleClose => exact enterClose_inv hi (Or.inl he.1)
  | fireTimer delay =>
    refine (yields_ok _ _ _).mpr (hi.moveTo rfl rfl (fun f h => Or.inl h) (fun f h => h) rfl
      (by simp [he.1]) ?_ ?_)
    · dsimp only
      split_ifs <;> simp
    · dsimp only
      split_ifs with hup
      · exact fun _ => (up_iff_open hi).mp hup
      · simp
  | swap =>
    refine (yields_ok _ _ _).mpr (hi.frame rfl rfl rfl ?_)
    simp [he.2]
  | runFunctor =>
    rw [step]
    cases hf : s.functors with
    | nil => exact (yields_ok _ _ _).mpr hi
    | cons f functors => exact runFunctor_inv hi he.1 hf
  | advance => exact advance_inv hi

theorem late_store (hi : s.Inv) {a : Action τ} (he : s.Enabled a) (ht : ¬s.Timely a) :
    ¬Yields (s.step a) Absorbed Stops := by
  cases a with
  | store x =>
    have hdown : s.conn.state = .kDisconnected := not_not.mp ht
    have hclosed : s.closed = true := by
      by_contra h
      exact not_down_of_up (hi.up (Bool.eq_false_iff.mpr h)) hdown
    rw [step]
    cases hx : s.calls x with
    | none => simp [Enabled, hx] at he
    | some call =>
      cases call with
      | tested close =>
        intro h
        exact nomatch ((yields_ok _ _ _).mp h).1 hclosed
      | stored close => simp [Enabled, hx, CloseCall.isStored] at he
  | test x close => exact absurd trivial ht
  | push x => exact absurd trivial ht
  | removeConnection => exact absurd trivial ht
  | handleClose => exact absurd trivial ht
  | fireTimer delay => exact absurd trivial ht
  | swap => exact absurd trivial ht
  | runFunctor => exact absurd trivial ht
  | advance => exact absurd trivial ht

end Steps

/-- Over every interleaving of such calls with the loop thread: `kDisconnected`
is absorbing and each callback is made at most once, exactly if every store of
a foreign call comes before the close. -/
theorem disconnected_absorbing (c : TCPConnection) (as : List (Action τ)) (hup : c.Up)
    (ha : Admitted step Enabled (established c) as) :
    Throughout step Absorbed Stops (established c) as ↔
      Admitted step Timely (established c) as :=
  throughout_iff Enabled Timely (fun _ => inv_absorbed) (fun _ _ hi he ht => step_inv hi he ht)
    (fun _ _ hi he ht => late_store hi he ht) as (established c) (established_inv hup) ha

def timelyCloses : List (Action Bool) :=
  [.test true .now, .test false (.after 2), .store false, .store true, .push true, .push false,
    .swap, .runFunctor, .advance, .advance, .advance, .advance, .runFunctor, .removeConnection,
    .fireTimer 2, .swap, .runFunctor]

theorem disconnected_absorbing_timely : ∃ c,
    TCPConnection.construct 5 true false 64 >>= TCPConnection.connectEstablished = .ok c ∧
    Throughout step Absorbed Stops (established c) timelyCloses := by
  have hrun : ((fun c => decide (c.Up ∧ Admitted step Enabled (established c) timelyCloses ∧
      Admitted step Timely (established c) timelyCloses)) <$>
        (construct 5 true false 64 >>= connectEstablished)) = .ok true := by decide +kernel
  obtain ⟨c, hc, hd⟩ := map_ok.mp hrun
  obtain ⟨hup, ha, ht⟩ := of_decide_eq_true hd
  exact ⟨c, hc, (disconnected_absorbing c timelyCloses hup ha).mpr ht⟩

/-- The peer's close comes between the test and the store of a `forceClose`;
the functor then closes the connection again. -/
theorem disconnected_not_absorbing :
    ¬∀ (c : TCPConnection) (as : List (Action Bool)),
      TCPConnection.construct 5 true false 64 >>= TCPConnection.connectEstablished = .ok c →
      Admitted step Enabled (established c) as →
      Throughout step Absorbed Stops (established c) as := by
  intro h
  have hrun : ((fun c => (decide (Admitted step Enabled (established c)
      [.test true .now, .handleClose, .advance, .advance, .advance, .store true, .push true, .swap,
        .runFunctor, .advance, .advance, .advance, .advance]),
      (fun s : ClosingThreads Bool => s.conn.effects.count .closeCallback) <$>
        run step (established c) [.test true .now, .handleClose, .advance, .advance, .advance,
          .store true, .push true, .swap, .runFunctor, .advance, .advance, .advance, .advance])) <$>
        (construct 5 true false 64 >>= connectEstablished)) = .ok (true, .ok 2) := by
    decide +kernel
  obtain ⟨c, hc, hp⟩ := map_ok.mp hrun
  obtain ⟨s, hs, hcount⟩ := map_ok.mp (congrArg Prod.snd hp)
  have hy := h c _ hc (of_decide_eq_true (congrArg Prod.fst hp)) _ List.prefix_rfl
  have hone := (hy.ok hs).2.2
  omega

end ClosingThreads

end Lux.Polaris
