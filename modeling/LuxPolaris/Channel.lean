import LuxPolaris.Runtime

/-!
# Channel

A channel holds the interest in one descriptor and what the poller has made
of it. `update` is the part of `EPollPoller::updateChannel` that concerns the
channel itself; a channel is in the kernel's set exactly while its index is
`kAdded`. An event calls the callbacks named by its `revents`, in order.
-/

set_option autoImplicit false

namespace Lux.Polaris

/-- `index_`, as `EPollPoller` uses it. -/
inductive Index where
  | kNew
  | kAdded
  | kDeleted
  deriving DecidableEq, Repr

/-- `events_`: the bits `kReadEvent` and `kWriteEvent`. -/
structure Events where
  read : Bool
  write : Bool
  deriving DecidableEq, Repr

def kNoneEvent : Events := ⟨false, false⟩

structure Channel where
  fd : ℕ
  events : Events
  index : Index
  addedToLoop : Bool
  deriving DecidableEq, Repr

/-- The bits of `revents_` that `handleEventWithGuard` tests. -/
structure Revents where
  pollin : Bool
  pollpri : Bool
  pollout : Bool
  pollerr : Bool
  pollhup : Bool
  pollrdhup : Bool
  pollnval : Bool
  deriving DecidableEq, Repr

inductive Callback where
  | close
  | error
  | read
  | write
  deriving DecidableEq, Repr

namespace Channel

def construct (fd : ℕ) : Channel := ⟨fd, kNoneEvent, .kNew, false⟩

def isNoneEvent (c : Channel) : Bool := c.events = kNoneEvent
def isWriting (c : Channel) : Bool := c.events.write
def isReading (c : Channel) : Bool := c.events.read

def update (c : Channel) : Channel :=
  { c with
    addedToLoop := true
    index :=
      match c.index with
      | .kNew => .kAdded
      | .kDeleted => .kAdded
      | .kAdded => if c.isNoneEvent then .kDeleted else .kAdded }

def enableReading (c : Channel) : Channel :=
  update { c with events := { c.events with read := true } }

def disableReading (c : Channel) : Channel :=
  update { c with events := { c.events with read := false } }

def enableWriting (c : Channel) : Channel :=
  update { c with events := { c.events with write := true } }

def disableWriting (c : Channel) : Channel :=
  update { c with events := { c.events with write := false } }

def disableAll (c : Channel) : Channel := update { c with events := kNoneEvent }

/-- `Channel::remove` and the channel's part of `EPollPoller::removeChannel`. -/
def remove (c : Channel) : Except Fault Channel := do
  assertThat (c.isNoneEvent = true) "isNoneEvent()"
  assertThat (c.index ≠ .kNew) "index == kAdded || index == kDeleted"
  return { c with addedToLoop := false, index := .kNew }

/-- `handleEventWithGuard`: the callbacks it makes, in order. -/
def callbacks (r : Revents) : List Callback :=
  (if r.pollhup && !r.pollin then [.close] else []) ++
  (if r.pollerr || r.pollnval then [.error] else []) ++
  (if r.pollin || r.pollpri || r.pollrdhup then [.read] else []) ++
  (if r.pollout then [.write] else [])

@[simp] theorem update_events (c : Channel) : c.update.events = c.events := rfl

@[simp] theorem enableReading_events (c : Channel) :
    c.enableReading.events = { c.events with read := true } := rfl
@[simp] theorem disableReading_events (c : Channel) :
    c.disableReading.events = { c.events with read := false } := rfl
@[simp] theorem enableWriting_events (c : Channel) :
    c.enableWriting.events = { c.events with write := true } := rfl
@[simp] theorem disableWriting_events (c : Channel) :
    c.disableWriting.events = { c.events with write := false } := rfl
@[simp] theorem disableAll_events (c : Channel) : c.disableAll.events = kNoneEvent := rfl

theorem update_index_of_interest (c : Channel) (h : c.isNoneEvent = false) :
    c.update.index = .kAdded := by
  unfold update
  cases hi : c.index <;> simp [h]

theorem update_index_ne_new (c : Channel) : c.update.index ≠ .kNew := by
  unfold update
  cases hi : c.index
  · simp
  · by_cases hn : c.isNoneEvent = true <;> simp [hn]
  · simp

theorem disableAll_index (c : Channel) (h : c.index = .kAdded) :
    c.disableAll.index = .kDeleted := by
  simp [disableAll, update, h, isNoneEvent]

end Channel

end Lux.Polaris
