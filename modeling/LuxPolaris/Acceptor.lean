import LuxPolaris.Connector
import LuxPolaris.SlotTable
import Mathlib.Data.List.Perm.Basic

/-!
# Acceptor

The acceptor, the accept queue of its socket and the descriptors of the
process. When the table is full, `handleRead` gives up its reserve `idleFd_`,
accepts into the free slot, closes that and opens the reserve again. Other
threads open and close descriptors between these calls.
-/

set_option autoImplicit false

namespace Lux.Polaris
open Outcome SlotTable

inductive File where
  | acceptSocket
  | devNull
  | connection (id : ℕ)
  | other
  deriving DecidableEq, Repr

def EPERM : ℕ := 1
def EMFILE : ℕ := 24
def EPROTO : ℕ := 71
def ECONNABORTED : ℕ := 103

def expectedErrors : List ℕ := [EAGAIN,ECONNABORTED,EINTR,EPROTO,EPERM,EMFILE]

inductive AcceptFault where
  | assertion (expr : String)
  | sysFatal (call : String)
  | fatal (errno : ℕ)
  deriving DecidableEq, Repr

/-- Where the acceptor is: between events, at one of the four calls of the
branch for `EMFILE`, or destroyed. -/
inductive AcceptStage where
  | ready
  | exhausted
  | vacated
  | taken
  | dropped
  | destroyed
  deriving DecidableEq, Repr

/-- `newConnectionCallback` says whether one is set. The last five fields are
history: the connections that have arrived, been given up by their client,
been handed to the callback and been refused, and what the acceptor closed. -/
structure Acceptor where
  table : List (Option File)
  backlog : List ℕ
  acceptFd : ℕ
  idleFd : Option ℕ
  newConnectionCallback : Bool
  stage : AcceptStage
  arrived : List ℕ
  aborted : List ℕ
  handed : List ℕ
  refused : List ℕ
  closed : List File
  deriving DecidableEq, Repr

namespace Acceptor

def openFile (table : List (Option File)) (f : File) : Option ℕ × List (Option File) :=
  match alloc table f with
  | some (fd, table) => (some fd, table)
  | none => (none, table)

def construct (table : List (Option File)) (newConnectionCallback : Bool) :
    Except AcceptFault Acceptor :=
  match openFile table .acceptSocket with
  | (none, _) => .error (.sysFatal "sockets::createNonblockingOrDie")
  | (some acceptFd, table) =>
    match openFile table .devNull with
    | (none, _) => .error (.assertion "idleFd_ >= 0")
    | (some idleFd, table) => .ok {
        table := table
        backlog := []
        acceptFd := acceptFd
        idleFd := some idleFd
        newConnectionCallback := newConnectionCallback
        stage := .ready
        arrived := []
        aborted := []
        handed := []
        refused := []
        closed := [] }

def close (s : Acceptor) : Option ℕ → Acceptor
  | none => s
  | some fd =>
    match entry s.table fd with
    | none => s
    | some f => { s with table := release s.table fd, closed := s.closed ++ [f] }

/-- `::accept`: the kernel looks for a free descriptor first and then for a
connection. It may also fail in other ways. -/
def accept (s : Acceptor) (e : Option ℕ) : Except ℕ (ℕ × ℕ × Acceptor) :=
  match e with
  | some errno => .error errno
  | none =>
    match s.backlog with
    | [] => .error (if Full s.table then EMFILE else EAGAIN)
    | id::backlog =>
      match alloc s.table (.connection id) with
      | some (connfd, table) => .ok (connfd, id, { s with table := table, backlog := backlog })
      | none => .error EMFILE

/-- `handleRead` up to the branch for `EMFILE`. -/
def handleRead (s : Acceptor) (e : Option ℕ) : Except AcceptFault Acceptor :=
  match s.accept e with
  | .ok (connfd, id, s) =>
    if s.newConnectionCallback then .ok { s with handed := s.handed ++ [id] }
    else .ok ({ s with refused := s.refused ++ [id] }.close (some connfd))
  | .error errno =>
    if errno ∈ expectedErrors then
      .ok (if errno = EMFILE then { s with stage := .exhausted } else s)
    else .error (.fatal errno)

def closeIdle (s : Acceptor) : Acceptor := { s.close s.idleFd with stage := .vacated }

def acceptIdle (s : Acceptor) (e : Option ℕ) : Acceptor :=
  match s.accept e with
  | .ok (connfd, id, s) =>
    { s with idleFd := some connfd, refused := s.refused ++ [id], stage := .taken }
  | .error _ => { s with idleFd := none, stage := .taken }

def closeTaken (s : Acceptor) : Acceptor := { s.close s.idleFd with stage := .dropped }

def reopen (s : Acceptor) : Acceptor :=
  let (idleFd, table) := openFile s.table .devNull
  { s with idleFd := idleFd, table := table, stage := .ready }

def destroy (s : Acceptor) : Acceptor :=
  { (s.close s.idleFd).close (some s.acceptFd) with stage := .destroyed }

inductive Action where
  | arrive (id : ℕ)
  | abort (id : ℕ)
  | openOther
  | closeOther (fd : ℕ)
  | handleRead (e : Option ℕ)
  | closeIdle
  | acceptIdle (e : Option ℕ)
  | closeTaken
  | reopen
  | destroy
  deriving DecidableEq, Repr

def step (s : Acceptor) : Action → Except AcceptFault Acceptor
  | .arrive id => .ok { s with backlog := s.backlog ++ [id], arrived := s.arrived ++ [id] }
  | .abort id => .ok { s with backlog := s.backlog.erase id, aborted := s.aborted ++ [id] }
  | .openOther => .ok { s with table := (openFile s.table .other).2 }
  | .closeOther fd => .ok { s with table := release s.table fd }
  | .handleRead e => s.handleRead e
  | .closeIdle => .ok s.closeIdle
  | .acceptIdle e => .ok (s.acceptIdle e)
  | .closeTaken => .ok s.closeTaken
  | .reopen => .ok s.reopen
  | .destroy => .ok s.destroy

/-- What the other parts of the process may close: what they have opened, and
the connections that they were handed. -/
def Foreign (s : Acceptor) (fd : ℕ) : Prop :=
  entry s.table fd = some .other ∨ ∃ id ∈ s.handed, entry s.table fd = some (.connection id)

instance (s : Acceptor) (fd : ℕ) : Decidable (s.Foreign fd) :=
  inferInstanceAs (Decidable (_ ∨ _))

/-- The calls of the acceptor come in their order. `EMFILE` means that the
table is full. -/
def Enabled (s : Acceptor) : Action → Prop
  | .arrive id => id ∉ s.arrived
  | .abort id => id ∈ s.backlog
  | .openOther => True
  | .closeOther fd => s.Foreign fd
  | .handleRead e => s.stage = .ready ∧ e ≠ some EMFILE
  | .closeIdle => s.stage = .exhausted
  | .acceptIdle _ => s.stage = .vacated
  | .closeTaken => s.stage = .taken
  | .reopen => s.stage = .dropped
  | .destroy => s.stage = .ready

instance (s : Acceptor) : (a : Action) → Decidable (s.Enabled a)
  | .arrive _ => inferInstanceAs (Decidable (¬_))
  | .abort _ => inferInstanceAs (Decidable (_ ∈ _))
  | .openOther => isTrue trivial
  | .closeOther fd => inferInstanceAs (Decidable (s.Foreign fd))
  | .handleRead _ => inferInstanceAs (Decidable (_ ∧ _))
  | .closeIdle => inferInstanceAs (Decidable (_ = _))
  | .acceptIdle _ => inferInstanceAs (Decidable (_ = _))
  | .closeTaken => inferInstanceAs (Decidable (_ = _))
  | .reopen => inferInstanceAs (Decidable (_ = _))
  | .destroy => inferInstanceAs (Decidable (_ = _))

end Acceptor

end Lux.Polaris
