import LuxPolaris.BufferContents
import Mathlib.Logic.Function.Basic

/-!
# Buffers refine byte strings

A program works on any number of buffers, named by naturals, through their
public operations, copies and swaps. The specification keeps one byte string
a buffer. Every program keeps the index invariant and the contents equal to
the specification's strings, whatever `makeSpace` decides on the way.
-/

set_option autoImplicit false

namespace Lux.Polaris.BufferRefinement
open Outcome Slice Buffer

abbrev Store := ℕ → Buffer
abbrev Strings := ℕ → List Byte

inductive Op where
  | construct (i initialSize : ℕ)
  | append (i : ℕ) (data : List Byte)
  | prepend (i : ℕ) (data : List Byte)
  | retrieve (i len : ℕ)
  | retrieveAsString (i len : ℕ)
  | retrieveUntil (i len : ℕ)
  | retrieveAll (i : ℕ)
  | ensureWritableBytes (i len : ℕ)
  | write (i : ℕ) (data : List Byte)
  | unwrite (i len : ℕ)
  | shrink (i reserve : ℕ)
  | copy (i j : ℕ)
  | swap (i j : ℕ)
  deriving DecidableEq, Repr

def writeBegin (b : Buffer) (data : List Byte) : Except Fault Buffer := do
  let buf ← store b.buffer b.writerIndex data
  hasWritten { b with buffer := buf } data.length

def swapped {α : Type*} (f : ℕ → α) (i j : ℕ) : ℕ → α :=
  fun k => if k = i then f j else if k = j then f i else f k

def onBuffer (s : Store) (i : ℕ) (f : Buffer → Except Fault Buffer) : Except Fault Store := do
  let b ← f (s i)
  return Function.update s i b

def step (s : Store) : Op → Except Fault Store
  | .construct i n => onBuffer s i (fun _ => construct n)
  | .append i data => onBuffer s i (·.append data)
  | .prepend i data => onBuffer s i (·.prepend data)
  | .retrieve i len => onBuffer s i (·.retrieve len)
  | .retrieveAsString i len => onBuffer s i (fun b => do return (← b.retrieveAsString len).2)
  | .retrieveUntil i len => onBuffer s i (fun b => b.retrieveUntil (b.readerIndex+len))
  | .retrieveAll i => onBuffer s i (fun b => .ok b.retrieveAll)
  | .ensureWritableBytes i len => onBuffer s i (·.ensureWritableBytes len)
  | .write i data => onBuffer s i (writeBegin · data)
  | .unwrite i len => onBuffer s i (·.unwrite len)
  | .shrink i reserve => onBuffer s i (·.shrink reserve)
  | .copy i j => .ok (Function.update s i (s j))
  | .swap i j => .ok (swapped s i j)

/-- The purpose of the operations, on strings alone. -/
def specStep (v : Strings) : Op → Strings
  | .construct i _ => Function.update v i []
  | .append i data => Function.update v i (v i ++ data)
  | .prepend i data => Function.update v i (data ++ v i)
  | .retrieve i len => Function.update v i ((v i).drop len)
  | .retrieveAsString i len => Function.update v i ((v i).drop len)
  | .retrieveUntil i len => Function.update v i ((v i).drop len)
  | .retrieveAll i => Function.update v i []
  | .ensureWritableBytes _ _ => v
  | .write i data => Function.update v i (v i ++ data)
  | .unwrite i len => Function.update v i ((v i).take ((v i).length-len))
  | .shrink _ _ => v
  | .copy i j => Function.update v i (v j)
  | .swap i j => swapped v i j

/-- What the callers of each operation promise, with every `size_t` sum
small enough not to wrap. -/
def Permitted (s : Store) : Op → Prop
  | .construct _ n => kCheapPrepend+n < 2^64
  | .append i data => (s i).Fits data.length
  | .prepend i data => data.length ≤ (s i).prependableBytes
  | .retrieve i len => len ≤ (s i).readableBytes
  | .retrieveAsString i len => len ≤ (s i).readableBytes
  | .retrieveUntil i len => len ≤ (s i).readableBytes
  | .retrieveAll _ => True
  | .ensureWritableBytes i len => (s i).Fits len
  | .write i data => data.length ≤ (s i).writableBytes
  | .unwrite i len => len ≤ (s i).readableBytes
  | .shrink i reserve => kCheapPrepend+((s i).readableBytes+reserve) < 2^64
  | .copy _ _ => True
  | .swap _ _ => True

instance (s : Store) (op : Op) : Decidable (Permitted s op) :=
  match op with
  | .construct _ _ => inferInstanceAs (Decidable (_ < _))
  | .append _ _ => inferInstanceAs (Decidable (_ ∧ _))
  | .prepend _ _ => inferInstanceAs (Decidable (_ ≤ _))
  | .retrieve _ _ => inferInstanceAs (Decidable (_ ≤ _))
  | .retrieveAsString _ _ => inferInstanceAs (Decidable (_ ≤ _))
  | .retrieveUntil _ _ => inferInstanceAs (Decidable (_ ≤ _))
  | .retrieveAll _ => inferInstanceAs (Decidable True)
  | .ensureWritableBytes _ _ => inferInstanceAs (Decidable (_ ∧ _))
  | .write _ _ => inferInstanceAs (Decidable (_ ≤ _))
  | .unwrite _ _ => inferInstanceAs (Decidable (_ ≤ _))
  | .shrink _ _ => inferInstanceAs (Decidable (_ < _))
  | .copy _ _ => inferInstanceAs (Decidable True)
  | .swap _ _ => inferInstanceAs (Decidable True)

def IsPrepend : Op → Prop
  | .prepend _ _ => True
  | _ => False

/-- The room an operation leaves to the writer. -/
def Room (t : Store) : Op → Prop
  | .ensureWritableBytes i len => len ≤ (t i).writableBytes
  | .shrink i reserve => reserve ≤ (t i).writableBytes
  | _ => True

def Represents (s : Store) (v : Strings) : Prop := ∀ i, Valid (s i) ∧ (s i).contents = v i

structure Effect (s : Store) (v : Strings) (op : Op) (t : Store) : Prop where
  represents : Represents t (specStep v op)
  room : Room t op
  cheap : ¬IsPrepend op → (∀ i, kCheapPrepend ≤ (s i).readerIndex) →
    ∀ i, kCheapPrepend ≤ (t i).readerIndex

theorem update_represents {s : Store} {v : Strings} (hs : Represents s v) (i : ℕ) {b : Buffer}
    {w : List Byte} (hv : Valid b) (hc : b.contents = w) :
    Represents (Function.update s i b) (Function.update v i w) := by
  intro k
  by_cases hk : k = i
  · subst k
    simp [hv, hc]
  · simpa [hk] using hs k

theorem update_cheap {s : Store} (i : ℕ) {b : Buffer}
    (hb : kCheapPrepend ≤ (s i).readerIndex → kCheapPrepend ≤ b.readerIndex)
    (hs : ∀ k, kCheapPrepend ≤ (s k).readerIndex) (k : ℕ) :
    kCheapPrepend ≤ (Function.update s i b k).readerIndex := by
  by_cases hk : k = i
  · subst k
    simpa using hb (hs _)
  · simpa [hk] using hs k

theorem swapped_represents {s : Store} {v : Strings} (hs : Represents s v) (i j : ℕ) :
    Represents (swapped s i j) (swapped v i j) := by
  intro k
  simp only [swapped]
  split_ifs
  · exact hs j
  · exact hs i
  · exact hs k

theorem onBuffer_effect {s : Store} {v : Strings} (hs : Represents s v) (op : Op) (i : ℕ)
    (w : List Byte) {f : Buffer → Except Fault Buffer}
    (hspec : specStep v op = Function.update v i w)
    (hroom : ∀ t, Room t op)
    (hf : Yields (f (s i)) (fun b => Valid b ∧ b.contents = w ∧
      (¬IsPrepend op → kCheapPrepend ≤ (s i).readerIndex → kCheapPrepend ≤ b.readerIndex))
      (· = .lengthError)) :
    Yields (onBuffer s i f) (Effect s v op) (· = .lengthError) := by
  unfold onBuffer
  rw [yields_bind]
  apply hf.imp
  rintro b ⟨hv, hc, hk⟩
  rw [yields_pure]
  refine ⟨?_, hroom _, fun hp => update_cheap i (hk hp)⟩
  rw [hspec]
  exact update_represents hs i hv hc

theorem reserve_effect {s : Store} {v : Strings} (hs : Represents s v) (op : Op) (i len : ℕ)
    {f : Buffer → Except Fault Buffer} (hspec : specStep v op = v)
    (hroom : ∀ b : Buffer, len ≤ b.writableBytes → Room (Function.update s i b) op)
    (hf : Yields (f (s i)) (Reserved (s i) len) (· = .lengthError)) :
    Yields (onBuffer s i f) (Effect s v op) (· = .lengthError) := by
  unfold onBuffer
  rw [yields_bind]
  apply hf.imp
  intro b hb
  rw [yields_pure]
  refine ⟨?_, hroom b hb.room, fun _ => update_cheap i hb.cheap⟩
  have h := update_represents hs i hb.valid hb.contents_eq
  rwa [(hs i).2, Function.update_eq_self, ← hspec] at h

theorem step_effect {s : Store} {v : Strings} (hs : Represents s v) {op : Op}
    (hp : Permitted s op) : Yields (step s op) (Effect s v op) (· = .lengthError) := by
  cases op with
  | construct i n =>
    rw [step]
    apply onBuffer_effect hs (.construct i n) i [] rfl (fun _ => trivial)
    apply (construct_spec n hp).imp
    rintro b ⟨hv, hc, hr, -⟩
    exact ⟨hv, hc, fun _ _ => Nat.le_of_eq hr.symm⟩
  | append i data =>
    rw [step]
    apply onBuffer_effect hs (.append i data) i (v i ++ data) rfl (fun _ => trivial)
    apply (append_spec (hs i).1 hp).imp
    rintro b ⟨hv, hc, hk⟩
    exact ⟨hv, by rw [hc, (hs i).2], fun _ => hk⟩
  | prepend i data =>
    rw [step]
    apply onBuffer_effect hs (.prepend i data) i (data ++ v i) rfl (fun _ => trivial)
    obtain ⟨b, hb, hv, hc⟩ := prepend_spec (hs i).1 hp
    rw [hb, yields_ok]
    exact ⟨hv, by rw [hc, (hs i).2], fun h => absurd trivial h⟩
  | retrieve i len =>
    rw [step]
    apply onBuffer_effect hs (.retrieve i len) i ((v i).drop len) rfl (fun _ => trivial)
    obtain ⟨b, hb, hv, hc, hk⟩ := retrieve_spec (hs i).1 hp
    rw [hb, yields_ok]
    exact ⟨hv, by rw [hc, (hs i).2], fun _ => hk⟩
  | retrieveAsString i len =>
    rw [step]
    apply onBuffer_effect hs (.retrieveAsString i len) i ((v i).drop len) rfl (fun _ => trivial)
    obtain ⟨b, hb, hv, hc, hk⟩ := retrieveAsString_spec (hs i).1 hp
    rw [hb, yields_bind, yields_ok, yields_pure]
    exact ⟨hv, by rw [hc, (hs i).2], fun _ => hk⟩
  | retrieveUntil i len =>
    rw [step]
    apply onBuffer_effect hs (.retrieveUntil i len) i ((v i).drop len) rfl (fun _ => trivial)
    obtain ⟨b, hb, hv, hc, hk⟩ := retrieveUntil_spec (hs i).1 hp
    rw [hb, yields_ok]
    exact ⟨hv, by rw [hc, (hs i).2], fun _ => hk⟩
  | retrieveAll i =>
    rw [step]
    apply onBuffer_effect hs (.retrieveAll i) i [] rfl (fun _ => trivial)
    rw [yields_ok]
    exact ⟨retrieveAll_valid (hs i).1, retrieveAll_contents _, fun _ _ => Nat.le_refl _⟩
  | ensureWritableBytes i len =>
    rw [step]
    apply reserve_effect hs (.ensureWritableBytes i len) i len rfl
      (fun b hb => by simpa [Room] using hb)
    exact ensureWritableBytes_spec (hs i).1 hp
  | write i data =>
    rw [step]
    apply onBuffer_effect hs (.write i data) i (v i ++ data) rfl (fun _ => trivial)
    obtain ⟨hv, hc, -⟩ := written_spec (hs i).1 hp
    have hfit : (s i).writerIndex+data.length ≤ (s i).buffer.length := by
      have hle : data.length ≤ (s i).writableBytes := hp
      have := writableBytes_eq (hs i).1
      have := (hs i).1.writer_le
      omega
    unfold writeBegin
    rw [store_of hfit, yields_bind, yields_ok, hasWritten_spec (hs i).1 hp, yields_ok]
    exact ⟨hv, by rw [hc, (hs i).2], fun _ h => h⟩
  | unwrite i len =>
    rw [step]
    apply onBuffer_effect hs (.unwrite i len) i ((v i).take ((v i).length-len)) rfl
      (fun _ => trivial)
    obtain ⟨b, hb, hv, hc, hr⟩ := unwrite_spec (hs i).1 hp
    rw [hb, yields_ok]
    exact ⟨hv, by rw [hc, (hs i).2], fun _ h => by rwa [hr]⟩
  | shrink i reserve =>
    rw [step]
    apply reserve_effect hs (.shrink i reserve) i reserve rfl (fun b hb => by simpa [Room] using hb)
    exact (shrink_spec (hs i).1 hp).imp (fun _ h => h.1)
  | copy i j =>
    rw [step, yields_ok]
    refine ⟨update_represents hs i (hs j).1 (hs j).2, trivial, fun _ hk => ?_⟩
    exact update_cheap i (fun _ => hk j) hk
  | swap i j =>
    rw [step, yields_ok]
    refine ⟨swapped_represents hs i j, trivial, fun _ hk k => ?_⟩
    simp only [swapped]
    split_ifs <;> apply hk

theorem run_represents {s : Store} {v : Strings} (hs : Represents s v) (ops : List Op)
    (hp : Admitted step Permitted s ops) :
    Yields (run step s ops) (fun t => Represents t (ops.foldl specStep v)) (· = .lengthError) := by
  apply run_refines Permitted _ ops s v hs hp
  intro s v op hs hp
  exact (step_effect hs hp).imp (fun _ h => h.represents)

theorem run_cheap {s : Store} (hs : Represents s (fun i => (s i).contents))
    (hk : ∀ i, kCheapPrepend ≤ (s i).readerIndex) (ops : List Op)
    (hp : Admitted step Permitted s ops) (hn : ∀ op ∈ ops, ¬IsPrepend op) :
    Yields (run step s ops) (fun t => ∀ i, kCheapPrepend ≤ (t i).readerIndex)
      (· = .lengthError) := by
  have hboth : Yields (run step s ops) (fun t => (∀ i, Valid (t i)) ∧
      ∀ i, kCheapPrepend ≤ (t i).readerIndex) (· = .lengthError) := by
    apply run_yields (fun s op => Permitted s op ∧ ¬IsPrepend op) _ ops s
      ⟨fun i => (hs i).1, hk⟩
    · exact hp.mono (fun _ op ho h => ⟨h, hn op ho⟩)
    · rintro s op ⟨hv, hk⟩ ⟨hp, hn⟩
      have hs : Represents s (fun i => (s i).contents) := fun i => ⟨hv i, rfl⟩
      exact (step_effect hs hp).imp
        (fun t h => ⟨fun i => (h.represents i).1, h.cheap hn hk⟩)
  exact hboth.imp (fun _ h => h.2)

theorem last_room {s t : Store} {v : Strings} (hs : Represents s v) {ops : List Op} {op : Op}
    (hp : Admitted step Permitted s (ops++[op])) (hr : run step s (ops++[op]) = .ok t) :
    Room t op := by
  obtain ⟨s', hs', ht⟩ := run_snoc_ok.mp hr
  obtain ⟨hpre, hlast⟩ := (admitted_append ops [op] s).mp hp
  exact ((step_effect ((run_represents hs ops hpre).ok hs') (hlast s' hs').1).ok ht).room

theorem initial_represents {s : Store} {sizes : ℕ → ℕ}
    (hinit : ∀ i, construct (sizes i) = .ok (s i)) (hsize : ∀ i, kCheapPrepend+sizes i < 2^64) :
    Represents s (fun _ => []) ∧ ∀ i, kCheapPrepend ≤ (s i).readerIndex := by
  have h := fun i => (construct_spec (sizes i) (hsize i)).ok (hinit i)
  exact ⟨fun i => ⟨(h i).1, (h i).2.1⟩, fun i => Nat.le_of_eq (h i).2.2.1.symm⟩

end Lux.Polaris.BufferRefinement
