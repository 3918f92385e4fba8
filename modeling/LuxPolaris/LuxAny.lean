import LuxPolaris.Outcome
import Mathlib.Logic.Function.Basic

/-!
# Lux::any

The `any` of a C++11 build, with its union storage and its table of functions
for each type. An object lives on the heap or in the storage itself. The
functions name the storages they work on, so that two of them may be the same.
A type is known by its number, whether it needs an allocation is a parameter,
and a moved value is the value.
-/

set_option autoImplicit false

namespace Lux.Any

/-- What the language leaves undefined: an object that is not alive is read or
destroyed, or one is created over another that is alive. -/
inductive AnyFault where
  | deadObject
  | overwritten
  deriving DecidableEq, Repr

/-- Where a storage is: in a variable of the program, in the temporary of an
assignment, or in the locals of the two functions `swap`. -/
inductive Place where
  | variable (i : ℕ)
  | temporary
  | tmp
  | tmpStorage
  deriving DecidableEq, Repr

/-- `storage_union`. -/
inductive Storage (τ α : Type) where
  | indeterminate
  | dynamic (p : Option ℕ)
  | stack (type : τ) (value : α)

structure Memory (τ α : Type) where
  heap : ℕ → Option (τ × α)
  vtable : Place → Option τ
  storage : Place → Storage τ α
  constructed : ℕ → Bool

section Program
variable {τ α : Type} [DecidableEq τ] (requiresAllocation : τ → Bool)

namespace Memory

def setStorage (m : Memory τ α) (s : Place) (x : Storage τ α) : Memory τ α :=
  { m with storage := Function.update m.storage s x }

def setVtable (m : Memory τ α) (s : Place) (t : Option τ) : Memory τ α :=
  { m with vtable := Function.update m.vtable s t }

def setConstructed (m : Memory τ α) (i : ℕ) (b : Bool) : Memory τ α :=
  { m with constructed := Function.update m.constructed i b }

/-- What is written over a storage must not be an object that is alive. -/
def write (m : Memory τ α) (s : Place) (x : Storage τ α) : Except AnyFault (Memory τ α) :=
  match m.storage s with
  | .stack _ _ => .error .overwritten
  | _ => .ok (m.setStorage s x)

def deref (m : Memory τ α) (t : τ) (p : Option ℕ) : Except AnyFault (ℕ × α) :=
  match p with
  | none => .error .deadObject
  | some a =>
    match m.heap a with
    | none => .error .deadObject
    | some (t', v) => if t' = t then .ok (a, v) else .error .deadObject

def pointer (m : Memory τ α) (s : Place) : Except AnyFault (Option ℕ) :=
  match m.storage s with
  | .dynamic p => .ok p
  | _ => .error .deadObject

def inPlace (m : Memory τ α) (t : τ) (s : Place) : Except AnyFault α :=
  match m.storage s with
  | .stack t' v => if t' = t then .ok v else .error .deadObject
  | _ => .error .deadObject

def new (m : Memory τ α) (t : τ) (v : α) (addr : ℕ) : Memory τ α :=
  { m with heap := Function.update m.heap addr (some (t, v)) }

def destroy (t : τ) (m : Memory τ α) (s : Place) : Except AnyFault (Memory τ α) :=
  if requiresAllocation t then do
    let p ← m.pointer s
    match p with
    | none => return m
    | some _ =>
      let (a, _) ← m.deref t p
      return { m with heap := Function.update m.heap a none }
  else do
    let _ ← m.inPlace t s
    return m.setStorage s .indeterminate

def copy (t : τ) (m : Memory τ α) (src dest : Place) (addr : ℕ) :
    Except AnyFault (Memory τ α) :=
  if requiresAllocation t then do
    let p ← m.pointer src
    let (_, v) ← m.deref t p
    (m.new t v addr).write dest (.dynamic (some addr))
  else do
    let v ← m.inPlace t src
    m.write dest (.stack t v)

def move (t : τ) (m : Memory τ α) (src dest : Place) : Except AnyFault (Memory τ α) :=
  if requiresAllocation t then do
    let p ← m.pointer src
    let m ← m.write dest (.dynamic p)
    return m.setStorage src (.dynamic none)
  else do
    let v ← m.inPlace t src
    let m ← m.write dest (.stack t v)
    m.destroy requiresAllocation t src

def swapStorage (t : τ) (m : Memory τ α) (lhs rhs : Place) : Except AnyFault (Memory τ α) :=
  if requiresAllocation t then do
    let p ← m.pointer lhs
    let q ← m.pointer rhs
    return (m.setStorage lhs (.dynamic q)).setStorage rhs (.dynamic p)
  else do
    let m ← m.move requiresAllocation t rhs .tmpStorage
    let m ← m.move requiresAllocation t lhs rhs
    m.move requiresAllocation t .tmpStorage lhs

def construct (m : Memory τ α) (s : Place) (t : τ) (v : α) (addr : ℕ) :
    Except AnyFault (Memory τ α) :=
  let m := m.setVtable s (some t)
  if requiresAllocation t then (m.new t v addr).write s (.dynamic (some addr))
  else m.write s (.stack t v)

def copyConstruct (m : Memory τ α) (s rhs : Place) (addr : ℕ) : Except AnyFault (Memory τ α) :=
  let vtable := m.vtable rhs
  let m := m.setVtable s vtable
  match vtable with
  | none => .ok m
  | some t => m.copy requiresAllocation t rhs s addr

def moveConstruct (m : Memory τ α) (s rhs : Place) : Except AnyFault (Memory τ α) :=
  let vtable := m.vtable rhs
  let m := m.setVtable s vtable
  match vtable with
  | none => .ok m
  | some t => do
    let m ← m.move requiresAllocation t rhs s
    return m.setVtable rhs none

def clear (m : Memory τ α) (s : Place) : Except AnyFault (Memory τ α) :=
  match m.vtable s with
  | none => .ok m
  | some t => do
    let m ← m.destroy requiresAllocation t s
    return m.setVtable s none

def swap (m : Memory τ α) (lhs rhs : Place) : Except AnyFault (Memory τ α) :=
  if m.vtable lhs ≠ m.vtable rhs then do
    let m ← m.moveConstruct requiresAllocation .tmp rhs
    let m := m.setVtable rhs (m.vtable lhs)
    let m ← match m.vtable lhs with
      | none => pure m
      | some t => m.move requiresAllocation t lhs rhs
    let m := m.setVtable lhs (m.vtable .tmp)
    let m ← match m.vtable .tmp with
      | none => pure m
      | some t => (·.setVtable .tmp none) <$> m.move requiresAllocation t .tmp lhs
    m.clear requiresAllocation .tmp
  else
    match m.vtable lhs with
    | none => .ok m
    | some t => m.swapStorage requiresAllocation t lhs rhs

def anyCast (m : Memory τ α) (s : Place) (t : τ) : Except AnyFault (Option α) :=
  if m.vtable s = some t then
    if requiresAllocation t then do
      let p ← m.pointer s
      let (_, v) ← m.deref t p
      return some v
    else do
      let v ← m.inPlace t s
      return some v
  else .ok none

def store (m : Memory τ α) (s : Place) (t : τ) (v : α) : Except AnyFault (Memory τ α) :=
  if m.vtable s = some t then
    if requiresAllocation t then do
      let p ← m.pointer s
      let (a, _) ← m.deref t p
      return { m with heap := Function.update m.heap a (some (t, v)) }
    else do
      let _ ← m.inPlace t s
      return m.setStorage s (.stack t v)
  else .ok m

end Memory

/-- What a program does with its variables. `addr` is what the allocator would
answer, `throws` says whether the copy that the call makes of an object throws;
then nothing is left of the `any` that was being constructed. -/
inductive Action (τ α : Type) where
  | construct (i : ℕ)
  | constructFrom (i : ℕ) (t : τ) (v : α) (addr : ℕ) (throws : Bool)
  | copyConstruct (i j : ℕ) (addr : ℕ) (throws : Bool)
  | moveConstruct (i j : ℕ)
  | assign (i j : ℕ) (addr : ℕ) (throws : Bool)
  | assignMove (i j : ℕ)
  | assignFrom (i : ℕ) (t : τ) (v : α) (addr : ℕ) (throws : Bool)
  | store (i : ℕ) (t : τ) (v : α)
  | clear (i : ℕ)
  | swap (i j : ℕ)
  | destruct (i : ℕ)

namespace Memory

def start : Memory τ α := ⟨fun _ => none, fun _ => none, fun _ => .indeterminate, fun _ => false⟩

/-- `any(…).swap(*this)`, once its temporary has been made. -/
def takeTemporary (m : Memory τ α) (i : ℕ) : Except AnyFault (Memory τ α) := do
  let m ← m.swap requiresAllocation .temporary (.variable i)
  m.clear requiresAllocation .temporary

def Throws (m : Memory τ α) (j : ℕ) (throws : Bool) : Bool :=
  throws && (m.vtable (.variable j)).isSome

def step (m : Memory τ α) : Action τ α → Except AnyFault (Memory τ α)
  | .construct i => .ok ((m.setVtable (.variable i) none).setConstructed i true)
  | .constructFrom i t v addr throws =>
    if throws then .ok m
    else do
      let m ← m.construct requiresAllocation (.variable i) t v addr
      return m.setConstructed i true
  | .copyConstruct i j addr throws =>
    if m.Throws j throws then .ok m
    else do
      let m ← m.copyConstruct requiresAllocation (.variable i) (.variable j) addr
      return m.setConstructed i true
  | .moveConstruct i j => do
    let m ← m.moveConstruct requiresAllocation (.variable i) (.variable j)
    return m.setConstructed i true
  | .assign i j addr throws =>
    if m.Throws j throws then .ok m
    else do
      let m ← m.copyConstruct requiresAllocation .temporary (.variable j) addr
      m.takeTemporary requiresAllocation i
  | .assignMove i j => do
    let m ← m.moveConstruct requiresAllocation .temporary (.variable j)
    m.takeTemporary requiresAllocation i
  | .assignFrom i t v addr throws =>
    if throws then .ok m
    else do
      let m ← m.construct requiresAllocation .temporary t v addr
      m.takeTemporary requiresAllocation i
  | .store i t v => m.store requiresAllocation (.variable i) t v
  | .clear i => m.clear requiresAllocation (.variable i)
  | .swap i j => m.swap requiresAllocation (.variable i) (.variable j)
  | .destruct i => do
    let m ← m.clear requiresAllocation (.variable i)
    return m.setConstructed i false

/-- Variables are constructed before they are used and once, and the allocator
answers with free memory. -/
def Enabled (m : Memory τ α) : Action τ α → Prop
  | .construct i => m.constructed i = false
  | .constructFrom i _ _ addr _ => m.constructed i = false ∧ m.heap addr = none
  | .copyConstruct i j addr _ =>
    m.constructed i = false ∧ m.constructed j = true ∧ m.heap addr = none
  | .moveConstruct i j => m.constructed i = false ∧ m.constructed j = true
  | .assign i j addr _ => m.constructed i = true ∧ m.constructed j = true ∧ m.heap addr = none
  | .assignMove i j => m.constructed i = true ∧ m.constructed j = true
  | .assignFrom i _ _ addr _ => m.constructed i = true ∧ m.heap addr = none
  | .store i _ _ => m.constructed i = true
  | .clear i => m.constructed i = true
  | .swap i j => m.constructed i = true ∧ m.constructed j = true
  | .destruct i => m.constructed i = true

instance [DecidableEq α] (m : Memory τ α) : (a : Action τ α) → Decidable (m.Enabled a)
  | .construct _ => inferInstanceAs (Decidable (_ = _))
  | .constructFrom _ _ _ _ _ => inferInstanceAs (Decidable (_ ∧ _))
  | .copyConstruct _ _ _ _ => inferInstanceAs (Decidable (_ ∧ _ ∧ _))
  | .moveConstruct _ _ => inferInstanceAs (Decidable (_ ∧ _))
  | .assign _ _ _ _ => inferInstanceAs (Decidable (_ ∧ _ ∧ _))
  | .assignMove _ _ => inferInstanceAs (Decidable (_ ∧ _))
  | .assignFrom _ _ _ _ _ => inferInstanceAs (Decidable (_ ∧ _))
  | .store _ _ _ => inferInstanceAs (Decidable (_ = _))
  | .clear _ => inferInstanceAs (Decidable (_ = _))
  | .swap _ _ => inferInstanceAs (Decidable (_ ∧ _))
  | .destruct _ => inferInstanceAs (Decidable (_ = _))

end Memory

end Program

/-- What variables of type `any` are for: each constructed one is empty or
holds a value of its own. -/
abbrev Values (τ α : Type) := ℕ → Option (Option (τ × α))

def Values.act {τ α : Type} [DecidableEq τ] (σ : Values τ α) : Action τ α → Values τ α
  | .construct i => Function.update σ i (some none)
  | .constructFrom i t v _ throws => if throws then σ else Function.update σ i (some (some (t, v)))
  | .copyConstruct i j _ throws =>
    if throws && (σ j).join.isSome then σ else Function.update σ i (σ j)
  | .moveConstruct i j => Function.update (Function.update σ i (σ j)) j (some none)
  | .assign i j _ throws => if throws && (σ j).join.isSome then σ else Function.update σ i (σ j)
  | .assignMove i j => Function.update (Function.update σ j (some none)) i (σ j)
  | .assignFrom i t v _ throws => if throws then σ else Function.update σ i (some (some (t, v)))
  | .store i t v =>
    if (σ i).join.any (fun x => x.1 = t) then Function.update σ i (some (some (t, v))) else σ
  | .clear i => Function.update σ i (some none)
  | .swap i j => Function.update (Function.update σ i (σ j)) j (σ i)
  | .destruct i => Function.update σ i none

end Lux.Any
