import LuxPolaris.Runtime
import LuxPolaris.SortedSet
import Mathlib.Data.Prod.Lex
import Mathlib.Logic.Function.Basic

/-!
# TimerQueue

The timer queue as its loop thread runs it. `Timer*` is an address in `heap`;
reading or deleting a timer that is not there is a fault. `handleRead` is cut
at the callbacks it makes, since a callback may add and cancel timers: one
action up to the callbacks, one for each callback's start, and one for what
follows them. The signed 64-bit difference in `howMuchTimeFromNow` wraps.
-/

set_option autoImplicit false

namespace Lux.Polaris

abbrev Timestamp := ℤ

/-- What the queue uses of the logging library's `Timestamp`. -/
structure TimestampOps where
  addTime : Timestamp → Seconds → Timestamp
  valid : Timestamp → Bool

def microsecondOps : TimestampOps where
  addTime now seconds := now+(seconds*1000000).floor
  valid t := decide (0 < t)

def kMicroSecondsPerSecond : ℤ := 1000000

/-- `reinterpret_cast<Timer*>(UINTPTR_MAX)`, which no object has as address. -/
def UINTPTR_MAX : ℕ := 2^64-1

structure Timer where
  expiration : Timestamp
  interval : Seconds
  repeat_ : Bool
  sequence : ℤ
  repeat_iff : repeat_ = true ↔ interval > 0
  deriving DecidableEq

namespace Timer

def construct (when : Timestamp) (interval : Seconds) (sequence : ℤ) : Timer where
  expiration := when
  interval := interval
  repeat_ := decide (interval > 0)
  sequence := sequence
  repeat_iff := decide_eq_true_iff

def restart (ops : TimestampOps) (t : Timer) (now : Timestamp) : Timer :=
  { t with expiration := if t.repeat_ then ops.addTime now t.interval else 0 }

end Timer

/-- An element of `timers_`, ordered by time and then by address. -/
@[ext] structure Entry where
  first : Timestamp
  second : ℕ
  deriving DecidableEq, Repr

structure ActiveTimer where
  first : ℕ
  second : ℤ
  deriving DecidableEq, Repr

instance : LinearOrder Entry :=
  LinearOrder.lift' (fun e => toLex (e.first, e.second)) fun d e h => by
    cases d
    cases e
    simpa using h

instance : LinearOrder ActiveTimer :=
  LinearOrder.lift' (fun e => toLex (e.first, e.second)) fun d e h => by
    cases d
    cases e
    simpa using h

theorem entry_lt_iff {d e : Entry} :
    d < e ↔ d.first < e.first ∨ d.first = e.first ∧ d.second < e.second :=
  Prod.Lex.toLex_lt_toLex

/-- The sentry of `getExpired` lies right behind the last entry due at `now`. -/
theorem lt_sentry {e : Entry} {now : Timestamp} (h : e.second < UINTPTR_MAX) :
    e < ⟨now, UINTPTR_MAX⟩ ↔ e.first ≤ now := by
  rw [entry_lt_iff]
  constructor
  · intro hlt
    rcases hlt with hw | hw
    · exact le_of_lt hw
    · exact le_of_eq hw.1
  · intro hle
    rcases lt_or_eq_of_le hle with hw | hw
    · exact Or.inl hw
    · exact Or.inr ⟨hw, h⟩

theorem first_le_of_le {d e : Entry} (h : d ≤ e) : d.first ≤ e.first := by
  by_contra hn
  exact not_lt.mpr h (entry_lt_iff.mpr (Or.inl (not_le.mp hn)))

structure TimerId where
  timer : ℕ
  sequence : ℤ
  deriving DecidableEq, Repr

def TimerId.active (id : TimerId) : ActiveTimer := ⟨id.timer, id.sequence⟩

@[simp] theorem active_inj {id id' : TimerId} : id.active = id'.active ↔ id = id' := by
  cases id
  cases id'
  rw [TimerId.active, TimerId.active, ActiveTimer.mk.injEq, TimerId.mk.injEq]

structure Timespec where
  tv_sec : ℤ
  tv_nsec : ℤ
  deriving DecidableEq, Repr

/-- A one-shot timer descriptor: the expiration it is armed for, whether an
expiration is unread, and every `it_value` it was armed with. -/
structure Timerfd where
  armed : Option Timestamp
  unread : Bool
  settings : List Timespec
  deriving DecidableEq, Repr

/-- A `handleRead` in progress: its vector `expired`, the part of it whose
callbacks are still to come, and its `now`. -/
structure Batch where
  expired : List Entry
  pending : List Entry
  now : Timestamp
  deriving DecidableEq

/-- `issued`, `freed` and `ran` record the timers handed to `addTimerInLoop`,
the timers deleted, and the callbacks run. -/
structure TimerQueue where
  heap : ℕ → Option Timer
  timers : SortedSet Entry
  activeTimers : SortedSet ActiveTimer
  callingExpiredTimers : Bool
  cancelingTimers : SortedSet ActiveTimer
  timerfd : Timerfd
  batch : Option Batch
  issued : List TimerId
  freed : List TimerId
  ran : List TimerId

def int64 (n : ℤ) : ℤ := n.bmod (2^64)

def howMuchTimeFromNow (when clock : Timestamp) : Timespec :=
  let microseconds := int64 (when-clock)
  let microseconds := if microseconds < 100 then 100 else microseconds
  { tv_sec := microseconds.tdiv kMicroSecondsPerSecond
    tv_nsec := microseconds.tmod kMicroSecondsPerSecond*1000 }

namespace TimerQueue

def construct : TimerQueue where
  heap := fun _ => none
  timers := .empty
  activeTimers := .empty
  callingExpiredTimers := false
  cancelingTimers := .empty
  timerfd := ⟨none, false, []⟩
  batch := none
  issued := []
  freed := []
  ran := []

def deref (q : TimerQueue) (timer : ℕ) : Except Fault Timer :=
  match q.heap timer with
  | some t => .ok t
  | none => .error .useAfterFree

def new (q : TimerQueue) (timer : ℕ) (t : Timer) : TimerQueue :=
  { q with
    heap := Function.update q.heap timer (some t)
    issued := q.issued ++ [⟨timer, t.sequence⟩] }

def delete (q : TimerQueue) (timer : ℕ) : Except Fault TimerQueue := do
  let t ← q.deref timer
  return { q with
    heap := Function.update q.heap timer none
    freed := q.freed ++ [⟨timer, t.sequence⟩] }

def readTimerfd (q : TimerQueue) : TimerQueue :=
  { q with timerfd := { q.timerfd with unread := false } }

def resetTimerfd (q : TimerQueue) (expiration clock : Timestamp) : TimerQueue :=
  { q with timerfd := {
      armed := some expiration
      unread := false
      settings := q.timerfd.settings ++ [howMuchTimeFromNow expiration clock] } }

def assertSizes (q : TimerQueue) : Except Fault Unit :=
  assertThat (q.timers.size = q.activeTimers.size) "timers_.size() == activeTimers_.size()"

def insert (q : TimerQueue) (timer : ℕ) : Except Fault (TimerQueue × Bool) := do
  q.assertSizes
  let t ← q.deref timer
  let when := t.expiration
  let earliestChanged := q.timers.begin?.all fun it => decide (when < it.first)
  assertThat (⟨when, timer⟩ ∉ q.timers) "result.second"
  let q := { q with timers := q.timers.insert ⟨when, timer⟩ }
  assertThat (TimerId.active ⟨timer, t.sequence⟩ ∉ q.activeTimers) "result.second"
  let q := { q with activeTimers := q.activeTimers.insert (TimerId.active ⟨timer, t.sequence⟩) }
  q.assertSizes
  return (q, earliestChanged)

def addTimerInLoop (q : TimerQueue) (timer : ℕ) (clock : Timestamp) :
    Except Fault TimerQueue := do
  let (q, earliestChanged) ← q.insert timer
  if earliestChanged then
    let t ← q.deref timer
    return q.resetTimerfd t.expiration clock
  else return q

def cancelInLoop (q : TimerQueue) (timerId : TimerId) : Except Fault TimerQueue := do
  q.assertSizes
  if timerId.active ∈ q.activeTimers then
    let t ← q.deref timerId.timer
    assertThat (⟨t.expiration, timerId.timer⟩ ∈ q.timers) "n == 1"
    let q := { q with timers := q.timers.erase ⟨t.expiration, timerId.timer⟩ }
    let q ← q.delete timerId.timer
    let q := { q with activeTimers := q.activeTimers.erase timerId.active }
    q.assertSizes
    return q
  else
    let q :=
      if q.callingExpiredTimers then
        { q with cancelingTimers := q.cancelingTimers.insert timerId.active }
      else q
    q.assertSizes
    return q

/-- The loop of `getExpired` over the entries already out of `timers_`. -/
def eraseExpired (q : TimerQueue) : List Entry → Except Fault TimerQueue
  | [] => .ok q
  | it::expired => do
    let t ← q.deref it.second
    assertThat (TimerId.active ⟨it.second, t.sequence⟩ ∈ q.activeTimers) "n == 1"
    eraseExpired { q with
      activeTimers := q.activeTimers.erase (TimerId.active ⟨it.second, t.sequence⟩) } expired

def getExpired (q : TimerQueue) (now : Timestamp) :
    Except Fault (TimerQueue × List Entry) := do
  q.assertSizes
  let sentry : Entry := ⟨now, UINTPTR_MAX⟩
  let rest := q.timers.from_ sentry
  assertThat ((rest.begin?.all fun it => decide (now < it.first)) = true)
    "end == timers_.end() || now < end->first"
  let expired := q.timers.below sentry
  let q ← eraseExpired { q with timers := rest } expired
  q.assertSizes
  return (q, expired)

/-- `handleRead` up to its first callback. -/
def handleRead (q : TimerQueue) (now : Timestamp) : Except Fault TimerQueue := do
  let q := q.readTimerfd
  let (q, expired) ← q.getExpired now
  return { q with
    callingExpiredTimers := true
    cancelingTimers := .empty
    batch := some ⟨expired, expired, now⟩ }

def runNext (q : TimerQueue) : Except Fault TimerQueue :=
  match q.batch with
  | some ⟨expired, it::pending, now⟩ => do
    let t ← q.deref it.second
    return { q with
      batch := some ⟨expired, pending, now⟩
      ran := q.ran ++ [⟨it.second, t.sequence⟩] }
  | _ => .ok q

def resetExpired (ops : TimestampOps) (q : TimerQueue) (now : Timestamp) :
    List Entry → Except Fault TimerQueue
  | [] => .ok q
  | it::expired => do
    let t ← q.deref it.second
    if t.repeat_ && decide (TimerId.active ⟨it.second, t.sequence⟩ ∉ q.cancelingTimers) then
      let q := { q with heap := Function.update q.heap it.second (some (t.restart ops now)) }
      let (q, _) ← q.insert it.second
      resetExpired ops q now expired
    else
      let q ← q.delete it.second
      resetExpired ops q now expired

def readNextExpire (q : TimerQueue) : Except Fault Timestamp :=
  match q.timers.begin? with
  | some it => do
    let t ← q.deref it.second
    return t.expiration
  | none => .ok 0

def reset (ops : TimestampOps) (q : TimerQueue) (expired : List Entry)
    (now clock : Timestamp) : Except Fault TimerQueue := do
  let q ← q.resetExpired ops now expired
  let nextExpire ← q.readNextExpire
  return if ops.valid nextExpire then q.resetTimerfd nextExpire clock else q

def finishRead (ops : TimestampOps) (q : TimerQueue) (clock : Timestamp) :
    Except Fault TimerQueue :=
  match q.batch with
  | some b => do
    let q := { q with callingExpiredTimers := false }
    let q ← q.reset ops b.expired b.now clock
    return { q with batch := none }
  | none => .ok q

def fire (q : TimerQueue) : TimerQueue :=
  { q with timerfd := { q.timerfd with armed := none, unread := true } }

inductive Action where
  | addTimer (timer : ℕ) (when : Timestamp) (interval : Seconds) (sequence : ℤ)
      (clock : Timestamp)
  | cancel (timerId : TimerId)
  | handleRead (now : Timestamp)
  | runNext
  | finishRead (clock : Timestamp)
  | fire

def step (ops : TimestampOps) (q : TimerQueue) : Action → Except Fault TimerQueue
  | .addTimer timer when interval sequence clock =>
    (q.new timer (.construct when interval sequence)).addTimerInLoop timer clock
  | .cancel timerId => q.cancelInLoop timerId
  | .handleRead now => q.handleRead now
  | .runNext => q.runNext
  | .finishRead clock => q.finishRead ops clock
  | .fire => .ok q.fire

/-- User code has the loop thread: no `handleRead` is in progress, or one of
its callbacks has been started. -/
def InUserCode (q : TimerQueue) : Prop := q.batch.all (fun b => b.pending ≠ b.expired) = true

/-- What the loop, `new`, the sequence counter and the kernel promise: a new
timer has a free address and a sequence of its own, `handleRead` is not
entered twice, and only an armed descriptor fires. -/
def Enabled (q : TimerQueue) : Action → Prop
  | .addTimer timer _ _ sequence _ =>
    q.InUserCode ∧ q.heap timer = none ∧ timer < UINTPTR_MAX ∧
      ∀ id ∈ q.issued, id.sequence ≠ sequence
  | .cancel _ => q.InUserCode
  | .handleRead _ => q.batch = none
  | .runNext => q.batch.any (fun b => b.pending ≠ []) = true
  | .finishRead _ => q.batch.any (fun b => b.pending = []) = true
  | .fire => q.timerfd.armed ≠ none

instance (q : TimerQueue) : Decidable q.InUserCode := inferInstanceAs (Decidable (_ = true))

instance (q : TimerQueue) : (a : Action) → Decidable (q.Enabled a)
  | .addTimer _ _ _ _ _ => inferInstanceAs (Decidable (_ ∧ _ ∧ _ ∧ _))
  | .cancel _ => inferInstanceAs (Decidable (InUserCode _))
  | .handleRead _ => inferInstanceAs (Decidable (_ = none))
  | .runNext => inferInstanceAs (Decidable (_ = true))
  | .finishRead _ => inferInstanceAs (Decidable (_ = true))
  | .fire => inferInstanceAs (Decidable (_ ≠ none))

end TimerQueue

end Lux.Polaris
