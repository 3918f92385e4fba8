import LuxPolaris.Channel
import Mathlib.Logic.Function.Basic

/-!
# EPollPoller

The poller of one loop, the channels registered with it and the kernel's set
of descriptors. A channel is known by its address in `ι`. `Channel::update`
and `Channel::remove` reach the poller through the loop, which passes them on.
-/

set_option autoImplicit false

namespace Lux.Polaris

inductive EpollOp where
  | add
  | mod
  | del
  deriving DecidableEq, Repr

/-- A failed `assert`, or `LOG_SYSFATAL` after a failed `epoll_ctl`. -/
inductive PollerFault where
  | assertion (expr : String)
  | sysFatal (operation : EpollOp) (fd : ℕ)
  deriving DecidableEq, Repr

/-- `channels` is `channels_`, `kernel` maps each registered descriptor to the
mask and the pointer of its `epoll_event`, and `errors` are the `epoll_ctl`
calls whose failure was only logged. -/
structure EPollPoller (ι : Type) where
  channel : ι → Channel
  channels : ℕ → Option ι
  kernel : ℕ → Option (Events × ι)
  errors : List (EpollOp × ℕ)

namespace EPollPoller
variable {ι : Type}

/-- `::epoll_ctl`, which fails on a descriptor that is there already or not
there at all. -/
def epollCtl (kernel : ℕ → Option (Events × ι)) (operation : EpollOp) (fd : ℕ)
    (event : Events × ι) : Option (ℕ → Option (Events × ι)) :=
  match operation with
  | .add => if kernel fd = none then some (Function.update kernel fd (some event)) else none
  | .mod => if kernel fd = none then none else some (Function.update kernel fd (some event))
  | .del => if kernel fd = none then none else some (Function.update kernel fd none)

def construct (fd : ι → ℕ) : EPollPoller ι where
  channel := fun i => .construct (fd i)
  channels := fun _ => none
  kernel := fun _ => none
  errors := []

def assertThat (p : Prop) [Decidable p] (expr : String) : Except PollerFault Unit :=
  if p then .ok () else .error (.assertion expr)

def update (p : EPollPoller ι) (operation : EpollOp) (i : ι) :
    Except PollerFault (EPollPoller ι) :=
  let c := p.channel i
  match epollCtl p.kernel operation c.fd (c.events, i) with
  | some kernel => .ok { p with kernel := kernel }
  | none =>
    match operation with
    | .del => .ok { p with errors := p.errors ++ [(operation, c.fd)] }
    | .add | .mod => .error (.sysFatal operation c.fd)

variable [DecidableEq ι]

def setChannel (p : EPollPoller ι) (i : ι) (c : Channel) : EPollPoller ι :=
  { p with channel := Function.update p.channel i c }

def setIndex (p : EPollPoller ι) (i : ι) (index : Index) : EPollPoller ι :=
  p.setChannel i { p.channel i with index := index }

def updateChannel (p : EPollPoller ι) (i : ι) : Except PollerFault (EPollPoller ι) := do
  let c := p.channel i
  match c.index with
  | .kNew =>
    assertThat (p.channels c.fd = none) "channels_.find(fd) == channels_.end()"
    let p := { p with channels := Function.update p.channels c.fd (some i) }
    (p.setIndex i .kAdded).update .add i
  | .kDeleted =>
    assertThat (p.channels c.fd ≠ none) "channels_.find(fd) != channels_.end()"
    assertThat (p.channels c.fd = some i) "channels_[fd] == channel"
    (p.setIndex i .kAdded).update .add i
  | .kAdded =>
    assertThat (p.channels c.fd ≠ none) "channels_.find(fd) != channels_.end()"
    assertThat (p.channels c.fd = some i) "channels_[fd] == channel"
    if c.isNoneEvent then
      let p ← p.update .del i
      return p.setIndex i .kDeleted
    else p.update .mod i

def removeChannel (p : EPollPoller ι) (i : ι) : Except PollerFault (EPollPoller ι) := do
  let c := p.channel i
  assertThat (p.channels c.fd ≠ none) "channels_.find(fd) != channels_.end()"
  assertThat (p.channels c.fd = some i) "channels_[fd] == channel"
  assertThat (c.isNoneEvent = true) "channel->isNoneEvent()"
  assertThat (c.index = .kAdded ∨ c.index = .kDeleted) "index == kAdded || index == kDeleted"
  assertThat (p.channels c.fd ≠ none) "n == 1"
  let p := { p with channels := Function.update p.channels c.fd none }
  let p ← if c.index = .kAdded then p.update .del i else pure p
  return p.setIndex i .kNew

/-- A change of `events_` and `Channel::update`. -/
def setEvents (p : EPollPoller ι) (i : ι) (events : Events) :
    Except PollerFault (EPollPoller ι) :=
  (p.setChannel i { p.channel i with events := events, addedToLoop := true }).updateChannel i

def remove (p : EPollPoller ι) (i : ι) : Except PollerFault (EPollPoller ι) := do
  assertThat ((p.channel i).isNoneEvent = true) "isNoneEvent()"
  (p.setChannel i { p.channel i with addedToLoop := false }).removeChannel i

inductive Action (ι : Type) where
  | enableReading (i : ι)
  | disableReading (i : ι)
  | enableWriting (i : ι)
  | disableWriting (i : ι)
  | disableAll (i : ι)
  | remove (i : ι)
  deriving DecidableEq

def step (p : EPollPoller ι) : Action ι → Except PollerFault (EPollPoller ι)
  | .enableReading i => p.setEvents i { (p.channel i).events with read := true }
  | .disableReading i => p.setEvents i { (p.channel i).events with read := false }
  | .enableWriting i => p.setEvents i { (p.channel i).events with write := true }
  | .disableWriting i => p.setEvents i { (p.channel i).events with write := false }
  | .disableAll i => p.setEvents i kNoneEvent
  | .remove i => p.remove i

/-- A channel is removed only without interest, and once after its updates. -/
def Enabled (p : EPollPoller ι) : Action ι → Prop
  | .remove i => (p.channel i).isNoneEvent = true ∧ (p.channel i).addedToLoop = true
  | _ => True

instance (p : EPollPoller ι) : (a : Action ι) → Decidable (p.Enabled a)
  | .enableReading _ => isTrue trivial
  | .disableReading _ => isTrue trivial
  | .enableWriting _ => isTrue trivial
  | .disableWriting _ => isTrue trivial
  | .disableAll _ => isTrue trivial
  | .remove _ => inferInstanceAs (Decidable (_ ∧ _))

end EPollPoller

end Lux.Polaris
