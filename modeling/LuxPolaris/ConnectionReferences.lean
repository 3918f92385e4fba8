import LuxPolaris.ConnectionLoop
import Mathlib.Logic.Function.Basic

/-!
# Who keeps a connection alive

A connection is destroyed with its last owning reference: the one in the
server's map, those bound into closures, and those of user threads. The
closures that `send`, `shutdown`, `startRead` and `stopRead` queue from a
foreign thread are bound to a bare `this`. `doPendingFunctors` frees the
closures of a batch when it has run all of them.
-/

set_option autoImplicit false

namespace Lux.Polaris
open Outcome TCPConnection

inductive BareCall where
  | send (message : Message)
  | shutdown
  | startRead
  | stopRead

/-- A functor of the connection's loop: bound to `this`, to
`shared_from_this()`, or to the server's pointer. -/
inductive OwnedTask where
  | bare (call : BareCall)
  | shared (f : ConnFunctor)
  | connectDestroyed

def OwnedTask.holds : OwnedTask → Bool
  | .bare _ => false
  | .shared _ => true
  | .connectDestroyed => true

/-- The next access of a foreign thread's call: the store of `shutdown()`, or
the push. -/
inductive CallAt where
  | store
  | push (call : BareCall)

def CallAt.isStore : CallAt → Bool
  | .store => true
  | .push _ => false

/-- `connections` tells whether the server's map has the connection, `removals`
are the `removeConnectionInLoop` functors of the server's loop, and `removed`
those that are run and not yet freed. On the connection's loop `functors` are
left of the batch, `ran` are run and not yet freed, and `running` tells whether
the first of `functors` has been entered. `holders` has a thread once for each
reference. -/
structure ConnectionReferences (τ : Type) where
  conn : TCPConnection
  destroyed : Bool
  connections : Bool
  removals : ℕ
  removed : ℕ
  pendingFunctors : List OwnedTask
  functors : List OwnedTask
  ran : List OwnedTask
  running : Bool
  holders : List τ
  calls : τ → Option CallAt

namespace ConnectionReferences

/-- `copy` and `drop` are a thread's reference, `call`, `store` and `push` the
accesses of its call. `handle` is what the loop thread calls on the connection,
for an event or for the user. -/
inductive Action (τ : Type) where
  | copy (x : τ)
  | call (x : τ) (c : BareCall)
  | store (x : τ)
  | push (x : τ)
  | drop (x : τ)
  | handle (a : TCPConnection.Call)
  | removeConnectionInLoop
  | endServerBatch
  | swap
  | beginFunctor
  | endFunctor (w : WriteResult)
  | endBatch

variable {τ : Type}

def served (c : TCPConnection) : ConnectionReferences τ where
  conn := { c with effects := [] }
  destroyed := false
  connections := true
  removals := 0
  removed := 0
  pendingFunctors := []
  functors := []
  ran := []
  running := false
  holders := []
  calls := fun _ => none

def references (s : ConnectionReferences τ) : ℕ :=
  s.connections.toNat + s.removals + s.removed +
    (s.pendingFunctors ++ s.functors ++ s.ran).countP OwnedTask.holds + s.holders.length

/-- `send` and `shutdown` test `state_`, the other two do not. -/
def enter (s : ConnectionReferences τ) : BareCall → Option CallAt
  | .send message => if s.conn.state = .kConnected then some (.push (.send message)) else none
  | .shutdown => if s.conn.state = .kConnected then some .store else none
  | .startRead => some (.push .startRead)
  | .stopRead => some (.push .stopRead)

/-- `~TCPConnection`, and `~Channel` in it, once there are no references. -/
def release (s : ConnectionReferences τ) : Except Fault (ConnectionReferences τ) :=
  if s.references = 0 ∧ s.destroyed = false then do
    assertThat (s.conn.state = .kDisconnected) "state_ == StateE::kDisconnected"
    assertThat (s.conn.channel.addedToLoop = false) "!addedToLoop_"
    return { s with destroyed := true }
  else .ok s

def settle (s : ConnectionReferences τ) (c : TCPConnection) : ConnectionReferences τ :=
  { s with
    conn := { c with effects := [] }
    pendingFunctors := s.pendingFunctors ++
      (c.effects.filterMap Effect.functor).map OwnedTask.shared
    removals := s.removals + c.effects.count .closeCallback }

def runBare (c : TCPConnection) (w : WriteResult) : BareCall → Except Fault TCPConnection
  | .send message => c.sendInLoop message w
  | .shutdown => .ok c.shutdownInLoop
  | .startRead => .ok c.startReadInLoop
  | .stopRead => .ok c.stopReadInLoop

def runTask (s : ConnectionReferences τ) (w : WriteResult) :
    OwnedTask → Except Fault TCPConnection
  | .bare call => if s.destroyed then .error .useAfterFree else runBare s.conn w call
  | .shared .forceCloseInLoop => s.conn.forceCloseInLoop
  | .shared .writeCompleteCallback => .ok s.conn
  | .shared (.highWaterMarkCallback _) => .ok s.conn
  | .connectDestroyed => s.conn.connectDestroyed

def freeRemovals (s : ConnectionReferences τ) : ConnectionReferences τ := { s with removed := 0 }

def freeBatch (s : ConnectionReferences τ) : ConnectionReferences τ := { s with ran := [] }

variable [DecidableEq τ]

def dropReference (s : ConnectionReferences τ) (x : τ) : ConnectionReferences τ :=
  { s with holders := s.holders.erase x }

def step (s : ConnectionReferences τ) : Action τ → Except Fault (ConnectionReferences τ)
  | .copy x => .ok { s with holders := x::s.holders }
  | .call x c => .ok { s with calls := Function.update s.calls x (s.enter c) }
  | .store x => .ok { s with
      conn := s.conn.setState .kDisconnecting
      calls := Function.update s.calls x (some (.push .shutdown)) }
  | .push x =>
    match s.calls x with
    | some (.push c) => .ok { s with
        pendingFunctors := s.pendingFunctors ++ [.bare c]
        calls := Function.update s.calls x none }
    | _ => .ok s
  | .drop x => (s.dropReference x).release
  | .handle a => do
    let c ← s.conn.call a
    return s.settle c
  | .removeConnectionInLoop => do
    assertThat (s.connections = true) "n == 1"
    return { s with
      connections := false
      removals := s.removals-1
      removed := s.removed+1
      pendingFunctors := s.pendingFunctors ++ [.connectDestroyed] }
  | .endServerBatch => s.freeRemovals.release
  | .swap => .ok { s with functors := s.pendingFunctors, pendingFunctors := [] }
  | .beginFunctor => .ok { s with running := true }
  | .endFunctor w =>
    match s.functors with
    | [] => .ok s
    | f::functors => do
      let c ← s.runTask w f
      return { s.settle c with functors := functors, ran := s.ran ++ [f], running := false }
  | .endBatch => s.freeBatch.release

/-- A thread copies a reference that someone has, holds it while it calls, and
makes one call at a time. -/
def Enabled (s : ConnectionReferences τ) : Action τ → Prop
  | .copy _ => s.destroyed = false
  | .call x _ => x ∈ s.holders ∧ (s.calls x).isNone = true
  | .store x => (s.calls x).any CallAt.isStore = true
  | .push x => (s.calls x).any (fun c => !c.isStore) = true
  | .drop x => x ∈ s.holders ∧ (s.calls x).isNone = true
  | .handle _ => s.destroyed = false
  | .removeConnectionInLoop => 0 < s.removals
  | .endServerBatch => 0 < s.removed
  | .swap => s.functors = [] ∧ s.ran = []
  | .beginFunctor => s.functors ≠ [] ∧ s.running = false
  | .endFunctor _ => s.running = true
  | .endBatch => s.functors = [] ∧ s.ran ≠ []

instance (s : ConnectionReferences τ) : (a : Action τ) → Decidable (s.Enabled a)
  | .copy _ => inferInstanceAs (Decidable (_ = false))
  | .call _ _ => inferInstanceAs (Decidable (_ ∧ _ = true))
  | .store _ => inferInstanceAs (Decidable (_ = true))
  | .push _ => inferInstanceAs (Decidable (_ = true))
  | .drop _ => inferInstanceAs (Decidable (_ ∧ _ = true))
  | .handle _ => inferInstanceAs (Decidable (_ = false))
  | .removeConnectionInLoop => inferInstanceAs (Decidable (_ < _))
  | .endServerBatch => inferInstanceAs (Decidable (_ < _))
  | .swap => decidable_of_iff (s.functors.isEmpty = true ∧ s.ran.isEmpty = true)
      (and_congr List.isEmpty_iff List.isEmpty_iff)
  | .beginFunctor => decidable_of_iff (¬s.functors.isEmpty = true ∧ s.running = false)
      (and_congr (not_congr List.isEmpty_iff) Iff.rfl)
  | .endFunctor _ => inferInstanceAs (Decidable (_ = true))
  | .endBatch => decidable_of_iff (s.functors.isEmpty = true ∧ ¬s.ran.isEmpty = true)
      (and_congr List.isEmpty_iff (not_congr List.isEmpty_iff))

/-- No functor bound to a bare `this` is queued or running. -/
def NoBare (s : ConnectionReferences τ) : Prop :=
  ∀ f ∈ s.pendingFunctors ++ s.functors, f.holds = true

instance (s : ConnectionReferences τ) : Decidable s.NoBare :=
  inferInstanceAs (Decidable (∀ f ∈ s.pendingFunctors ++ s.functors, f.holds = true))

/-- Where a functor bound to a bare `this` is being run, the connection is not
destroyed. -/
def Alive (s : ConnectionReferences τ) : Prop :=
  s.running = true → ∀ call functors, s.functors = .bare call::functors → s.destroyed = false

/-- The last reference is not released while a bare functor is left. -/
def Safe (s : ConnectionReferences τ) : Action τ → Prop
  | .drop x => (s.dropReference x).references = 0 → s.NoBare
  | .endServerBatch => s.freeRemovals.references = 0 → s.NoBare
  | .endBatch => s.freeBatch.references = 0 → s.NoBare
  | _ => True

instance (s : ConnectionReferences τ) : (a : Action τ) → Decidable (s.Safe a)
  | .copy _ => isTrue trivial
  | .call _ _ => isTrue trivial
  | .store _ => isTrue trivial
  | .push _ => isTrue trivial
  | .drop _ => inferInstanceAs (Decidable (_ → _))
  | .handle _ => isTrue trivial
  | .removeConnectionInLoop => isTrue trivial
  | .endServerBatch => inferInstanceAs (Decidable (_ → _))
  | .swap => isTrue trivial
  | .beginFunctor => isTrue trivial
  | .endFunctor _ => isTrue trivial
  | .endBatch => inferInstanceAs (Decidable (_ → _))

end ConnectionReferences

namespace ConnectionReferences
variable {τ : Type} {s : ConnectionReferences τ}

theorem references_eq_zero : s.references = 0 ↔
    s.connections = false ∧ s.removals = 0 ∧ s.removed = 0 ∧
      (∀ f ∈ s.pendingFunctors ++ s.functors ++ s.ran, f.holds = false) ∧ s.holders = [] := by
  rw [references]
  simp only [Nat.add_eq_zero_iff, Bool.toNat_eq_zero, List.countP_eq_zero, List.length_eq_zero_iff,
    Bool.not_eq_true, and_assoc]

/-- What holds in every state, however the threads behave. -/
structure Books (s : ConnectionReferences τ) : Prop where
  gone : s.destroyed = true → s.references = 0
  calling : ∀ x, (s.calls x).isSome = true → x ∈ s.holders
  entered : s.running = true → s.functors ≠ []

theorem served_books (c : TCPConnection) : (served c : ConnectionReferences τ).Books :=
  ⟨nofun, nofun, nofun⟩

theorem alive_of_holder (hb : s.Books) {x : τ} (hx : x ∈ s.holders) : s.destroyed = false := by
  cases hd : s.destroyed with
  | false => rfl
  | true =>
    have hnone := (references_eq_zero.mp (hb.gone hd)).2.2.2.2
    rw [hnone] at hx
    exact absurd hx List.not_mem_nil

theorem release_cases (s : ConnectionReferences τ) :
    s.release = .ok s ∧ (s.references = 0 → s.destroyed = true) ∨
    s.references = 0 ∧ (s.release = .ok { s with destroyed := true } ∨
      ∃ expr, s.release = .error (.assertion expr)) := by
  rw [release]
  by_cases h : s.references = 0 ∧ s.destroyed = false
  · rw [if_pos h]
    refine Or.inr ⟨h.1, ?_⟩
    by_cases hs : s.conn.state = .kDisconnected
    · by_cases hc : s.conn.channel.addedToLoop = false
      · exact Or.inl (by rw [assertThat_of hs, assertThat_of hc]; rfl)
      · exact Or.inr ⟨_, by rw [assertThat_of hs, assertThat_of_not hc]; rfl⟩
    · exact Or.inr ⟨_, by rw [assertThat_of_not hs]; rfl⟩
  · rw [if_neg h]
    refine Or.inl ⟨rfl, fun hr => ?_⟩
    by_contra hd
    exact h ⟨hr, Bool.not_eq_true _ ▸ hd⟩

theorem release_books {s' : ConnectionReferences τ} (hb : s.destroyed = true → s.references = 0)
    (hc : ∀ x, (s.calls x).isSome = true → x ∈ s.holders)
    (he : s.running = true → s.functors ≠ []) (h : s.release = .ok s') :
    s'.Books ∧ s'.pendingFunctors = s.pendingFunctors ∧ s'.functors = s.functors ∧
      (s'.destroyed = true → s.references = 0) ∧ (s.references = 0 → s'.destroyed = true) := by
  rcases release_cases s with ⟨hr, hd⟩ | ⟨h0, hr | ⟨expr, hr⟩⟩
  · cases h.symm.trans hr
    exact ⟨⟨hb, hc, he⟩, rfl, rfl, hb, hd⟩
  · cases h.symm.trans hr
    exact ⟨⟨fun _ => h0, hc, he⟩, rfl, rfl, fun _ => h0, fun _ => rfl⟩
  · cases h.symm.trans hr

theorem references_freeRemovals (hb : s.Books) (hd : s.destroyed = true) :
    s.freeRemovals.references = 0 := by
  obtain ⟨h₁, h₂, -, h₄, h₅⟩ := references_eq_zero.mp (hb.gone hd)
  exact references_eq_zero.mpr ⟨h₁, h₂, rfl, h₄, h₅⟩

theorem references_freeBatch (hb : s.Books) (hd : s.destroyed = true) :
    s.freeBatch.references = 0 := by
  obtain ⟨h₁, h₂, h₃, h₄, h₅⟩ := references_eq_zero.mp (hb.gone hd)
  refine references_eq_zero.mpr ⟨h₁, h₂, h₃, fun f hf => h₄ f ?_, h₅⟩
  exact List.mem_append_left _ (by simpa [freeBatch] using hf)

theorem alive_of_runTask (hb : s.Books) {f : OwnedTask} (hf : f ∈ s.functors) {w : WriteResult}
    {c : TCPConnection} (h : s.runTask w f = .ok c) : s.destroyed = false := by
  cases hd : s.destroyed with
  | false => rfl
  | true =>
    have hholds := (references_eq_zero.mp (hb.gone hd)).2.2.2.1 f (by simp [hf])
    cases f with
    | bare call => simp [runTask, hd] at h
    | shared g => cases hholds
    | connectDestroyed => cases hholds

/-- The books, and nothing bound to a bare `this` outlives the connection. -/
structure Inv (s : ConnectionReferences τ) : Prop where
  books : s.Books
  safe : s.destroyed = true → s.NoBare

theorem inv_alive (hi : s.Inv) : s.Alive := by
  intro _ call functors hf
  cases hd : s.destroyed with
  | false => rfl
  | true => exact nomatch hi.safe hd (.bare call) (by simp [hf])

theorem release_inv {s' : ConnectionReferences τ} (hb : s'.Books) (h : s.release = .ok s')
    (hd : s.destroyed = true → s.references = 0) (hs : s.references = 0 → s.NoBare) :
    s'.Inv := by
  refine ⟨hb, fun hd' => ?_⟩
  rcases release_cases s with ⟨hr, -⟩ | ⟨h0, hr | ⟨expr, hr⟩⟩
  · cases h.symm.trans hr
    exact hs (hd hd')
  · cases h.symm.trans hr
    exact hs h0
  · cases h.symm.trans hr

variable [DecidableEq τ]

theorem mem_holders_of_drop (hb : s.Books) {x : τ} (hx : (s.calls x).isNone = true) (y : τ)
    (hy : (s.calls y).isSome = true) : y ∈ s.holders.erase x := by
  have hne : y ≠ x := by
    rintro rfl
    rw [Option.isNone_iff_eq_none] at hx
    rw [hx] at hy
    cases hy
  exact (List.mem_erase_of_ne hne).mpr (hb.calling y hy)

theorem references_drop (hb : s.Books) (x : τ) (hd : s.destroyed = true) :
    (s.dropReference x).references = 0 := by
  obtain ⟨h₁, h₂, h₃, h₄, h₅⟩ := references_eq_zero.mp (hb.gone hd)
  refine references_eq_zero.mpr ⟨h₁, h₂, h₃, h₄, ?_⟩
  show s.holders.erase x = []
  rw [h₅]
  rfl

theorem step_books {s' : ConnectionReferences τ} (hb : s.Books) {a : Action τ} (he : s.Enabled a)
    (h : s.step a = .ok s') : s'.Books := by
  cases a with
  | copy x =>
    cases h
    have halive : s.destroyed = false := he
    exact ⟨fun hd => (nomatch halive.symm.trans hd),
      fun y hy => List.mem_cons_of_mem _ (hb.calling y hy), hb.entered⟩
  | call x c =>
    cases h
    have halive := alive_of_holder hb he.1
    refine ⟨fun hd => (nomatch halive.symm.trans hd), fun y hy => ?_, hb.entered⟩
    by_cases hxy : y = x
    · exact hxy ▸ he.1
    · exact hb.calling y (by simpa [hxy] using hy)
  | store x =>
    cases h
    have hx : x ∈ s.holders := hb.calling x (by
      cases hc : s.calls x with
      | none => simp [Enabled, hc] at he
      | some c => rfl)
    have halive := alive_of_holder hb hx
    refine ⟨fun hd => (nomatch halive.symm.trans hd), fun y hy => ?_, hb.entered⟩
    by_cases hxy : y = x
    · exact hxy ▸ hx
    · exact hb.calling y (by simpa [hxy] using hy)
  | push x =>
    rw [step] at h
    cases hc : s.calls x with
    | none => simp [Enabled, hc] at he
    | some c =>
      cases c with
      | store => simp [Enabled, hc, CallAt.isStore] at he
      | push c =>
        simp only [hc] at h
        cases h
        have halive := alive_of_holder hb (hb.calling x (by simp [hc]))
        refine ⟨fun hd => (nomatch halive.symm.trans hd), fun y hy => ?_, hb.entered⟩
        by_cases hxy : y = x
        · simp [hxy] at hy
        · exact hb.calling y (by simpa [hxy] using hy)
  | drop x =>
    exact (release_books (s := s.dropReference x) (references_drop hb x)
      (mem_holders_of_drop hb he.2) hb.entered h).1
  | handle a =>
    obtain ⟨c, -, heq⟩ := bind_ok.mp h
    cases heq
    have halive : s.destroyed = false := he
    exact ⟨fun hd => (nomatch halive.symm.trans hd), hb.calling, hb.entered⟩
  | removeConnectionInLoop =>
    have hpos : 0 < s.removals := he
    obtain ⟨u, -, heq⟩ := bind_ok.mp h
    cases heq
    refine ⟨fun hd => ?_, hb.calling, hb.entered⟩
    have hzero := (references_eq_zero.mp (hb.gone hd)).2.1
    omega
  | endServerBatch =>
    exact (release_books (s := s.freeRemovals) (references_freeRemovals (s := s) hb)
      hb.calling hb.entered h).1
  | swap =>
    cases h
    refine ⟨fun hd => ?_, hb.calling, fun hr => absurd he.1 (hb.entered hr)⟩
    obtain ⟨h₁, h₂, h₃, h₄, h₅⟩ := references_eq_zero.mp (hb.gone hd)
    refine references_eq_zero.mpr ⟨h₁, h₂, h₃, fun f hf => h₄ f ?_, h₅⟩
    rw [List.nil_append] at hf
    rw [List.append_assoc]
    exact (List.mem_append.mp hf).elim (List.mem_append_left _)
      (fun h => List.mem_append_right _ (List.mem_append_right _ h))
  | beginFunctor =>
    cases h
    exact ⟨hb.gone, hb.calling, fun _ => he.1⟩
  | endFunctor w =>
    rw [step] at h
    cases hf : s.functors with
    | nil => exact absurd hf (hb.entered he)
    | cons f functors =>
      simp only [hf] at h
      obtain ⟨c, hc, heq⟩ := bind_ok.mp h
      cases heq
      have halive := alive_of_runTask hb (by simp [hf]) hc
      exact ⟨fun hd => (nomatch halive.symm.trans hd), hb.calling, nofun⟩
  | endBatch =>
    exact (release_books (s := s.freeBatch) (references_freeBatch (s := s) hb)
      hb.calling hb.entered h).1

theorem step_inv {s' : ConnectionReferences τ} (hi : s.Inv) {a : Action τ} (he : s.Enabled a)
    (hs : s.Safe a) (h : s.step a = .ok s') : s'.Inv := by
  have hb' := step_books hi.books he h
  cases a with
  | drop x => exact release_inv hb' h (fun hd => references_drop hi.books x hd) hs
  | endServerBatch => exact release_inv hb' h (fun hd => references_freeRemovals hi.books hd) hs
  | endBatch => exact release_inv hb' h (fun hd => references_freeBatch hi.books hd) hs
  | swap =>
    cases h
    refine ⟨hb', fun hd f hf => hi.safe hd f ?_⟩
    rw [List.nil_append] at hf
    exact List.mem_append_left _ hf
  | beginFunctor =>
    cases h
    exact ⟨hb', hi.safe⟩
  | copy x =>
    cases h
    have halive : s.destroyed = false := he
    exact ⟨hb', fun hd => nomatch halive.symm.trans hd⟩
  | handle a =>
    obtain ⟨c, -, heq⟩ := bind_ok.mp h
    cases heq
    have halive : s.destroyed = false := he
    exact ⟨hb', fun hd => nomatch halive.symm.trans hd⟩
  | call x c =>
    cases h
    have halive := alive_of_holder hi.books he.1
    exact ⟨hb', fun hd => nomatch halive.symm.trans hd⟩
  | store x =>
    cases h
    have halive := alive_of_holder hb' (hb'.calling x (by simp))
    exact ⟨hb', fun hd => nomatch halive.symm.trans hd⟩
  | push x =>
    rw [step] at h
    split at h
    · case _ c hc =>
      cases h
      have halive := alive_of_holder hi.books (hi.books.calling x (by simp [hc]))
      exact ⟨hb', fun hd => nomatch halive.symm.trans hd⟩
    · cases h
      exact hi
  | removeConnectionInLoop =>
    have hpos : 0 < s.removals := he
    obtain ⟨u, -, heq⟩ := bind_ok.mp h
    cases heq
    refine ⟨hb', fun hd => ?_⟩
    have hzero := (references_eq_zero.mp (hi.books.gone hd)).2.1
    omega
  | endFunctor w =>
    rw [step] at h
    cases hf : s.functors with
    | nil => exact absurd hf (hi.books.entered he)
    | cons f functors =>
      simp only [hf] at h
      obtain ⟨c, hc, heq⟩ := bind_ok.mp h
      cases heq
      have halive := alive_of_runTask hi.books (by simp [hf]) hc
      exact ⟨hb', fun hd => nomatch halive.symm.trans hd⟩

theorem safe_of_owner (h : s.connections = true ∨ 0 < s.removals ∨
    ∃ f ∈ s.pendingFunctors ++ s.functors, f.holds = true) (a : Action τ) : s.Safe a := by
  have hne : ∀ t : ConnectionReferences τ, t.connections = s.connections →
      t.removals = s.removals → t.pendingFunctors = s.pendingFunctors →
      t.functors = s.functors → t.references ≠ 0 := by
    intro t h₁ h₂ h₃ h₄ h0
    obtain ⟨hc, hr, -, hall, -⟩ := references_eq_zero.mp h0
    rw [h₁] at hc
    rw [h₂] at hr
    rw [h₃, h₄] at hall
    rcases h with h | h | ⟨f, hf, hh⟩
    · exact nomatch hc.symm.trans h
    · omega
    · exact nomatch (hall f (List.mem_append_left _ hf)).symm.trans hh
  cases a with
  | drop x => exact fun h0 => absurd h0 (hne _ rfl rfl rfl rfl)
  | endServerBatch => exact fun h0 => absurd h0 (hne _ rfl rfl rfl rfl)
  | endBatch => exact fun h0 => absurd h0 (hne _ rfl rfl rfl rfl)
  | copy x => trivial
  | call x c => trivial
  | store x => trivial
  | push x => trivial
  | handle a => trivial
  | removeConnectionInLoop => trivial
  | swap => trivial
  | beginFunctor => trivial
  | endFunctor w => trivial

theorem unsafe_release {s s' : ConnectionReferences τ} (hb : s.Books) {a : Action τ}
    (he : s.Enabled a) (hn : ¬s.Safe a) (h : s.step a = .ok s') :
    s'.destroyed = true ∧ ¬s'.NoBare := by
  have hrelease : ∀ t : ConnectionReferences τ, (t.destroyed = true → t.references = 0) →
      (∀ x, (t.calls x).isSome = true → x ∈ t.holders) →
      (t.running = true → t.functors ≠ []) → t.pendingFunctors = s.pendingFunctors →
      t.functors = s.functors → ¬(t.references = 0 → s.NoBare) → t.release = .ok s' →
      s'.destroyed = true ∧ ¬s'.NoBare := by
    intro t hd hc hr hp hf hn ht
    obtain ⟨-, hp', hf', -, hgone⟩ := release_books hd hc hr ht
    obtain ⟨h0, hbare⟩ := Classical.not_imp.mp hn
    refine ⟨hgone h0, fun hno => hbare ?_⟩
    rw [NoBare, ← hp, ← hf, ← hp', ← hf']
    exact hno
  cases a with
  | drop x =>
    exact hrelease _ (fun hd => references_drop hb x hd) (mem_holders_of_drop hb he.2) hb.entered
      rfl rfl hn h
  | endServerBatch =>
    exact hrelease _ (fun hd => references_freeRemovals hb hd) hb.calling hb.entered rfl rfl hn h
  | endBatch =>
    exact hrelease _ (fun hd => references_freeBatch hb hd) hb.calling hb.entered rfl rfl hn h
  | copy x => exact absurd trivial hn
  | call x c => exact absurd trivial hn
  | store x => exact absurd trivial hn
  | push x => exact absurd trivial hn
  | handle a => exact absurd trivial hn
  | removeConnectionInLoop => exact absurd trivial hn
  | swap => exact absurd trivial hn
  | beginFunctor => exact absurd trivial hn
  | endFunctor w => exact absurd trivial hn

/-- The last reference is gone and a bare functor is left: the loop runs it. -/
theorem outlived {s : ConnectionReferences τ} (hb : s.Books) (hd : s.destroyed = true)
    (hn : ¬s.NoBare) : ∃ as t, Admitted step Enabled s as ∧ run step s as = .ok t ∧ ¬t.Alive := by
  obtain ⟨-, -, -, hall, -⟩ := references_eq_zero.mp (hb.gone hd)
  have hbare : ∀ f ∈ s.pendingFunctors ++ s.functors ++ s.ran, ∃ call, f = .bare call := by
    intro f hf
    cases f with
    | bare call => exact ⟨call, rfl⟩
    | shared g => exact nomatch hall _ hf
    | connectDestroyed => exact nomatch hall _ hf
  cases hf : s.functors with
  | cons f functors =>
    obtain ⟨call, rfl⟩ := hbare f (by simp [hf])
    cases hr : s.running with
    | true =>
      exact ⟨[], s, trivial, rfl, fun h => nomatch hd.symm.trans (h hr call functors hf)⟩
    | false =>
      refine ⟨[.beginFunctor], _, ⟨⟨by simp [hf], hr⟩, fun _ _ => trivial⟩, rfl, fun h => ?_⟩
      exact nomatch hd.symm.trans (h rfl call functors hf)
  | nil =>
    have hidle : s.running = false := by
      by_contra h
      exact hb.entered (Bool.not_eq_false _ ▸ h) hf
    have hne : s.pendingFunctors ≠ [] := by
      intro hp
      apply hn
      simp [NoBare, hp, hf]
    obtain ⟨g, rest, hp⟩ := List.exists_cons_of_ne_nil hne
    obtain ⟨call, rfl⟩ := hbare g (by simp [hp])
    have hrun : ∀ t : ConnectionReferences τ, t.pendingFunctors = s.pendingFunctors →
        t.functors = [] → t.ran = [] → t.running = false → t.destroyed = true →
        ∃ u, Admitted step Enabled t [.swap, .beginFunctor] ∧
          run step t [.swap, .beginFunctor] = .ok u ∧ ¬u.Alive := by
      intro t h₁ h₂ h₃ h₄ h₅
      refine ⟨_, ⟨⟨h₂, h₃⟩, fun t' ht => ?_⟩, rfl, fun h => ?_⟩
      · cases ht
        exact ⟨⟨by simp [h₁, hp], h₄⟩, fun _ _ => trivial⟩
      · exact nomatch h₅.symm.trans (h rfl call rest (h₁.trans hp))
    by_cases hran : s.ran = []
    · obtain ⟨u, ha, hu, hna⟩ := hrun s rfl hf hran hidle hd
      exact ⟨_, u, ha, hu, hna⟩
    · -- the batch that has run is freed first
      have hfree : s.freeBatch.release = .ok s.freeBatch := by
        refine if_neg (fun h => ?_)
        have hlive : s.destroyed = false := h.2
        exact nomatch hd.symm.trans hlive
      obtain ⟨u, ha, hu, hna⟩ := hrun s.freeBatch rfl hf rfl hidle hd
      refine ⟨.endBatch::[.swap, .beginFunctor], u, ⟨⟨hf, hran⟩, fun t ht => ?_⟩, ?_, hna⟩
      · cases hfree.symm.trans ht
        exact ha
      · exact run_cons_ok.mpr ⟨_, hfree, hu⟩

/-- For every interleaving of foreign threads with the loop: if no step
releases the last reference while a bare functor is left, no such functor ever
runs on a destroyed connection; and where a step does so, the loop has only to
go on to run one. -/
theorem functor_outlives_connection (c : TCPConnection) (as : List (Action τ))
    (ha : Admitted step Enabled (served c) as) :
    (Admitted step Safe (served c) as →
      Throughout step Alive (fun _ => True) (served c) as) ∧
    ∀ s a s', run step (served c) as = .ok s → s.Enabled a → ¬s.Safe a → s.step a = .ok s' →
      ∃ bs, Admitted step Enabled (served c) (as ++ a::bs) ∧
        ¬Throughout step Alive (fun _ => True) (served c) (as ++ a::bs) := by
  constructor
  · intro hs bs hb
    obtain ⟨cs, rfl⟩ := hb
    have hboth := ((admitted_append bs cs _).mp (admitted_and ha hs)).1
    have hinit : (served c : ConnectionReferences τ).Inv := ⟨served_books c, nofun⟩
    refine (run_yields _ (E := fun _ => True) (fun s a hi hc => ?_) bs _ hinit hboth).imp
      (fun s hi => inv_alive hi)
    cases hr : s.step a with
    | ok s' => exact (yields_ok _ _ _).mpr (step_inv hi hc.1 hc.2 hr)
    | error e => exact (yields_error _ _ _).mpr trivial
  · intro s a s' hs he hn hstep
    have hbooks : s.Books := by
      have hy : Yields (run step (served c) as) Books (fun _ => True) := by
        refine run_yields Enabled (fun t b hb het => ?_) as _ (served_books c) ha
        cases hr : t.step b with
        | ok t' => exact (yields_ok _ _ _).mpr (step_books hb het hr)
        | error e => exact (yields_error _ _ _).mpr trivial
      exact hy.ok hs
    have hbooks' := step_books hbooks he hstep
    obtain ⟨hd, hbare⟩ := unsafe_release hbooks he hn hstep
    obtain ⟨bs, t, hbs, ht, hdead⟩ := outlived hbooks' hd hbare
    refine ⟨bs, (admitted_append as _ _).mpr ⟨ha, fun u hu => ?_⟩, fun h => hdead ?_⟩
    · cases hs.symm.trans hu
      refine ⟨he, fun v hv => ?_⟩
      cases hstep.symm.trans hv
      exact hbs
    · refine (h _ List.prefix_rfl).ok (a := t) ?_
      rw [run_append, hs]
      exact run_cons_ok.mpr ⟨s', hstep, ht⟩

def earlyCalls : List (Action Bool) :=
  [.copy true, .call true (.send ⟨[104, 105], by decide⟩), .push true, .call true .shutdown,
    .store true, .push true, .drop true, .swap, .beginFunctor, .endFunctor (.accepted 2),
    .beginFunctor, .endFunctor (.accepted 0), .endBatch, .handle .handleClose,
    .removeConnectionInLoop, .endServerBatch, .swap, .beginFunctor, .endFunctor (.accepted 0),
    .beginFunctor, .endFunctor (.accepted 0), .endBatch]

theorem functor_outlives_connection_early : ∃ c,
    TCPConnection.construct 5 true false 64 >>= TCPConnection.connectEstablished = .ok c ∧
    Throughout step Alive (fun _ => True) (served c) earlyCalls := by
  have hrun : ((fun c => decide (Admitted step Enabled (served c) earlyCalls ∧
      Admitted step Safe (served c) earlyCalls)) <$>
        (construct 5 true false 64 >>= connectEstablished)) = .ok true := by decide +kernel
  obtain ⟨c, hc, hd⟩ := map_ok.mp hrun
  obtain ⟨ha, hs⟩ := of_decide_eq_true hd
  exact ⟨c, hc, (functor_outlives_connection c earlyCalls ha).1 hs⟩

/-- A thread's `send` sees `kConnected`; the peer closes and `connectDestroyed`
runs; the thread queues its functor and drops the last reference. -/
def lateSend : List (Action Bool) :=
  [.copy true, .call true (.send ⟨[104, 105], by decide⟩), .handle .handleClose,
    .removeConnectionInLoop, .endServerBatch, .swap, .beginFunctor, .endFunctor (.accepted 0),
    .push true, .drop true, .endBatch, .swap, .beginFunctor]

theorem functor_outlives_connection_late :
    ¬∀ (c : TCPConnection) (as : List (Action Bool)),
      TCPConnection.construct 5 true false 64 >>= TCPConnection.connectEstablished = .ok c →
      Admitted step Enabled (served c) as →
      Throughout step Alive (fun _ => True) (served c) as := by
  intro h
  have hrun : ((fun c => (decide (Admitted step Enabled (served c) lateSend),
      (fun s : ConnectionReferences Bool =>
        (s.running, s.destroyed, s.functors.map OwnedTask.holds)) <$>
          run step (served c) lateSend)) <$>
        (construct 5 true false 64 >>= connectEstablished)) =
      .ok (true, .ok (true, true, [false])) := by
    decide +kernel
  obtain ⟨c, hc, hp⟩ := map_ok.mp hrun
  obtain ⟨s, hs, hend⟩ := map_ok.mp (congrArg Prod.snd hp)
  have halive := (h c _ hc (of_decide_eq_true (congrArg Prod.fst hp)) _ List.prefix_rfl).ok hs
  have hmap : s.functors.map OwnedTask.holds = [false] := congrArg (fun t => t.2.2) hend
  obtain ⟨f, hf, hbare⟩ := List.map_eq_singleton_iff.mp hmap
  cases f with
  | bare call =>
    have hlive := halive (congrArg Prod.fst hend) call [] hf
    exact nomatch hlive.symm.trans (congrArg (fun t => t.2.1) hend)
  | shared g => cases hbare
  | connectDestroyed => cases hbare

end ConnectionReferences

end Lux.Polaris
