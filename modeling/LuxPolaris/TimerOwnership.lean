import LuxPolaris.TimerQueue
import Mathlib.Data.List.Nodup

/-!
# Ownership of timers

A timer that is alive is in both sets or is held by a batch. `Owns q held`
says so with the held addresses as a parameter, so that it describes the queue
between callbacks, inside a batch, and half-way through `reset` alike. Each
operation has one lemma that says what it answers.
-/

set_option autoImplicit false

namespace Lux.Polaris.TimerQueue
open Outcome

def Live (q : TimerQueue) (id : TimerId) : Prop :=
  ∃ t, q.heap id.timer = some t ∧ t.sequence = id.sequence

structure Owns (q : TimerQueue) (held : List ℕ) : Prop where
  size_eq : q.timers.size = q.activeTimers.size
  held_live : ∀ a ∈ held, ∃ t, q.heap a = some t
  held_nodup : held.Nodup
  mem_timers : ∀ w a, Entry.mk w a ∈ q.timers ↔
    a ∉ held ∧ ∃ t, q.heap a = some t ∧ t.expiration = w
  mem_active : ∀ id : TimerId, id.active ∈ q.activeTimers ↔ id.timer ∉ held ∧ q.Live id
  address_lt : ∀ a t, q.heap a = some t → a < UINTPTR_MAX
  ledger : ∀ id, id ∈ q.issued ↔ q.Live id ∨ id ∈ q.freed
  not_freed : ∀ id, q.Live id → id ∉ q.freed
  freed_nodup : q.freed.Nodup

def held (q : TimerQueue) : List ℕ :=
  match q.batch with
  | some b => b.expired.map Entry.second
  | none => []

structure Inv (q : TimerQueue) : Prop where
  owns : q.Owns q.held
  calling : q.callingExpiredTimers = q.batch.isSome
  suffix : ∀ b, q.batch = some b → b.pending <:+ b.expired

section Heap

theorem deref_of {q : TimerQueue} {a : ℕ} {t : Timer} (h : q.heap a = some t) :
    q.deref a = .ok t := by
  rw [deref, h]

theorem delete_of {q : TimerQueue} {a : ℕ} {t : Timer} (h : q.heap a = some t) :
    q.delete a = .ok { q with
      heap := Function.update q.heap a none
      freed := q.freed ++ [⟨a, t.sequence⟩] } := by
  rw [delete, deref_of h]
  rfl

@[simp] theorem new_timers (q : TimerQueue) (a : ℕ) (t : Timer) :
    (q.new a t).timers = q.timers := rfl
@[simp] theorem new_activeTimers (q : TimerQueue) (a : ℕ) (t : Timer) :
    (q.new a t).activeTimers = q.activeTimers := rfl
@[simp] theorem new_heap_self (q : TimerQueue) (a : ℕ) (t : Timer) :
    (q.new a t).heap a = some t := Function.update_self _ _ _

theorem live_unique {q : TimerQueue} {id : TimerId} {t : Timer} (h : q.heap id.timer = some t)
    (hl : q.Live id) : t.sequence = id.sequence := by
  obtain ⟨t', ht', hs⟩ := hl
  rw [h] at ht'
  cases ht'
  exact hs

theorem new_live {q : TimerQueue} {a : ℕ} (t : Timer) (hfree : q.heap a = none) (id : TimerId) :
    (q.new a t).Live id ↔ q.Live id ∨ id = ⟨a, t.sequence⟩ := by
  by_cases ha : id.timer = a
  · constructor
    · intro ⟨u, hu, hs⟩
      rw [ha, new_heap_self] at hu
      cases hu
      right
      cases id
      simp_all
    · intro h
      rcases h with ⟨u, hu, _⟩ | he
      · rw [ha, hfree] at hu
        cases hu
      · exact ⟨t, by rw [ha, new_heap_self], by rw [he]⟩
  · have hother : (q.new a t).heap id.timer = q.heap id.timer := by simp [new, ha]
    rw [Live, hother]
    constructor
    · exact Or.inl
    · intro h
      rcases h with h | he
      · exact h
      · exact absurd (by rw [he]) ha

theorem new_owns {q : TimerQueue} {held : List ℕ} (ho : q.Owns held) {a : ℕ} (t : Timer)
    (hfree : q.heap a = none) (hlt : a < UINTPTR_MAX)
    (hseq : ∀ id ∈ q.issued, id.sequence ≠ t.sequence) : (q.new a t).Owns (a::held) := by
  have hna : a ∉ held := by
    intro h
    obtain ⟨u, hu⟩ := ho.held_live a h
    simp [hfree] at hu
  have hother : ∀ b, b ≠ a → (q.new a t).heap b = q.heap b := fun b hb => by simp [new, hb]
  have hlive := new_live t hfree
  refine ⟨ho.size_eq, ?_, List.nodup_cons.mpr ⟨hna, ho.held_nodup⟩, ?_, ?_, ?_, ?_, ?_,
    ho.freed_nodup⟩
  · intro b hb
    rcases List.mem_cons.mp hb with he | hm
    · exact ⟨t, by rw [he, new_heap_self]⟩
    · have hne : b ≠ a := fun h => hna (h ▸ hm)
      rw [hother b hne]
      exact ho.held_live b hm
  · intro w b
    by_cases hb : b = a
    · have hn := ho.mem_timers w a
      simp only [hfree] at hn
      subst hb
      simpa [new] using hn
    · simpa [hother b hb, hb] using ho.mem_timers w b
  · intro id
    by_cases hb : id.timer = a
    · have hn : id.active ∉ q.activeTimers := by
        intro h
        obtain ⟨-, u, hu, -⟩ := (ho.mem_active id).mp h
        rw [hb, hfree] at hu
        cases hu
      simpa [hb] using hn
    · simpa [Live, hother _ hb, hb] using ho.mem_active id
  · intro b u hu
    by_cases hb : b = a
    · exact hb ▸ hlt
    · rw [hother b hb] at hu
      exact ho.address_lt b u hu
  · intro id
    rw [hlive]
    simp only [new, List.mem_append, List.mem_singleton, ho.ledger]
    exact or_right_comm
  · intro id hl hf
    rcases (hlive id).mp hl with h | he
    · exact ho.not_freed id h hf
    · have hi := (ho.ledger id).mpr (Or.inr hf)
      exact hseq id hi (by rw [he])

theorem delete_owns {q : TimerQueue} {held : List ℕ} {a : ℕ} (ho : q.Owns (a::held)) {t : Timer}
    (h : q.heap a = some t) : Owns { q with
      heap := Function.update q.heap a none
      freed := q.freed ++ [⟨a, t.sequence⟩] } held := by
  obtain ⟨hna, hnd⟩ := List.nodup_cons.mp ho.held_nodup
  have hl : q.Live ⟨a, t.sequence⟩ := ⟨t, h, rfl⟩
  have hlive : ∀ id, Live { q with
      heap := Function.update q.heap a none
      freed := q.freed ++ [⟨a, t.sequence⟩] } id ↔ q.Live id ∧ id.timer ≠ a := by
    intro id
    by_cases ha : id.timer = a <;> simp [Live, ha]
  refine ⟨ho.size_eq, ?_, hnd, ?_, ?_, ?_, ?_, ?_, ?_⟩
  · intro b hb
    have hne : b ≠ a := fun he => hna (he ▸ hb)
    simpa [hne] using ho.held_live b (List.mem_cons_of_mem a hb)
  · intro w b
    rw [ho.mem_timers]
    by_cases hb : b = a <;> simp [hb]
  · intro id
    rw [ho.mem_active, hlive, List.mem_cons, not_or]
    constructor
    · exact fun ⟨⟨hb, hm⟩, hv⟩ => ⟨hm, hv, hb⟩
    · exact fun ⟨hm, hv, hb⟩ => ⟨⟨hb, hm⟩, hv⟩
  · intro b u hu
    by_cases hb : b = a
    · simp [hb] at hu
    · exact ho.address_lt b u (by simpa [hb] using hu)
  · intro id
    rw [hlive, ho.ledger, List.mem_append, List.mem_singleton]
    constructor
    · intro hc
      rcases hc with hv | hf
      · by_cases hb : id.timer = a
        · right
          right
          have hkey : q.heap id.timer = some t := by rw [hb, h]
          have hs := live_unique hkey hv
          cases id
          simp_all
        · exact Or.inl ⟨hv, hb⟩
      · exact Or.inr (Or.inl hf)
    · intro hc
      rcases hc with hv | hf | he
      · exact Or.inl hv.1
      · exact Or.inr hf
      · exact Or.inl (he ▸ hl)
  · intro id hv hf
    rw [hlive] at hv
    rcases List.mem_append.mp hf with hm | hm
    · exact ho.not_freed id hv.1 hm
    · exact hv.2 (by rw [List.mem_singleton.mp hm])
  · refine List.nodup_append.mpr ⟨ho.freed_nodup, List.nodup_singleton _, ?_⟩
    intro x hx y hy he
    rw [List.mem_singleton] at hy
    exact ho.not_freed _ hl (hy ▸ he ▸ hx)

end Heap

section Sets

def inserted (q : TimerQueue) (a : ℕ) (t : Timer) : TimerQueue :=
  { q with
    timers := q.timers.insert ⟨t.expiration, a⟩
    activeTimers := q.activeTimers.insert (TimerId.active ⟨a, t.sequence⟩) }

theorem inserted_owns {q : TimerQueue} {held : List ℕ} {a : ℕ} (ho : q.Owns (a::held)) {t : Timer}
    (h : q.heap a = some t) : (q.inserted a t).Owns held := by
  obtain ⟨hna, hnd⟩ := List.nodup_cons.mp ho.held_nodup
  have hnt : Entry.mk t.expiration a ∉ q.timers :=
    fun hm => by simpa using (ho.mem_timers _ _).mp hm
  have hns : TimerId.active ⟨a, t.sequence⟩ ∉ q.activeTimers :=
    fun hm => by simpa using (ho.mem_active _).mp hm
  refine ⟨?_, fun b hb => ho.held_live b (List.mem_cons_of_mem a hb), hnd, ?_, ?_, ho.address_lt,
    ho.ledger, ho.not_freed, ho.freed_nodup⟩
  · rw [inserted, SortedSet.size_insert hnt, SortedSet.size_insert hns, ho.size_eq]
  · intro w b
    simp only [inserted, SortedSet.mem_insert, Entry.mk.injEq, ho.mem_timers]
    by_cases hb : b = a
    · subst hb
      simp only [h, hna, Option.some.injEq]
      simp [eq_comm]
    · simp [hb]
  · intro id
    simp only [inserted, SortedSet.mem_insert, active_inj, ho.mem_active]
    by_cases hb : id.timer = a
    · constructor
      · intro hc
        rcases hc with he | ⟨hm, -⟩
        · rw [he]
          exact ⟨hna, t, h, rfl⟩
        · exact absurd hb (fun hb => hm (hb ▸ List.mem_cons_self))
      · rintro ⟨_, hv⟩
        left
        have hs := live_unique (hb ▸ h) hv
        cases id
        simp_all
    · have hne : id ≠ ⟨a, t.sequence⟩ := fun he => hb (by rw [he])
      simp only [hne, false_or, List.mem_cons, hb, Live]

theorem insert_of {q : TimerQueue} {held : List ℕ} {a : ℕ} (ho : q.Owns (a::held)) {t : Timer}
    (h : q.heap a = some t) : q.insert a =
      .ok (q.inserted a t, q.timers.begin?.all fun it => decide (t.expiration < it.first)) := by
  have hnt : Entry.mk t.expiration a ∉ q.timers :=
    fun hm => by simpa using (ho.mem_timers _ _).mp hm
  have hns : TimerId.active ⟨a, t.sequence⟩ ∉ q.activeTimers :=
    fun hm => by simpa using (ho.mem_active _).mp hm
  have hsize := (inserted_owns ho h).size_eq
  simp only [inserted] at hsize
  simp only [insert, assertSizes, assertThat_of ho.size_eq, deref_of h, assertThat_of hnt,
    assertThat_of hns, assertThat_of hsize, inserted, ok_bind, pure_eq_ok]

def cancelled (q : TimerQueue) (id : TimerId) (t : Timer) : TimerQueue :=
  { q with
    timers := q.timers.erase ⟨t.expiration, id.timer⟩
    heap := Function.update q.heap id.timer none
    freed := q.freed ++ [id]
    activeTimers := q.activeTimers.erase id.active }

theorem erased_owns {q : TimerQueue} {held : List ℕ} (ho : q.Owns held) {id : TimerId} {t : Timer}
    (h : q.heap id.timer = some t) (hm : id.active ∈ q.activeTimers) :
    Owns { q with
      timers := q.timers.erase ⟨t.expiration, id.timer⟩
      activeTimers := q.activeTimers.erase id.active } (id.timer::held) := by
  obtain ⟨hna, hv⟩ := (ho.mem_active id).mp hm
  have hs := live_unique h hv
  have ht : Entry.mk t.expiration id.timer ∈ q.timers := (ho.mem_timers _ _).mpr ⟨hna, t, h, rfl⟩
  refine ⟨?_, ?_, List.nodup_cons.mpr ⟨hna, ho.held_nodup⟩, ?_, ?_, ho.address_lt, ho.ledger,
    ho.not_freed, ho.freed_nodup⟩
  · have h1 := SortedSet.size_erase ht
    have h2 := SortedSet.size_erase hm
    have h3 := ho.size_eq
    change (q.timers.erase _).size = (q.activeTimers.erase _).size
    omega
  · intro b hb
    rcases List.mem_cons.mp hb with he | hb
    · exact ⟨t, he ▸ h⟩
    · exact ho.held_live b hb
  · intro w b
    simp only [SortedSet.mem_erase, Entry.mk.injEq, ne_eq, ho.mem_timers, List.mem_cons, not_or]
    by_cases hb : b = id.timer
    · simp only [hb, h, Option.some.injEq]
      simp [eq_comm]
      exact fun hw _ => hw
    · simp [hb]
  · intro id'
    simp only [SortedSet.mem_erase, active_inj, ne_eq, ho.mem_active, List.mem_cons, not_or]
    constructor
    · rintro ⟨hne, hm', hv'⟩
      refine ⟨⟨fun he => hne ?_, hm'⟩, hv'⟩
      have hs' := live_unique (he ▸ h) hv'
      cases id
      cases id'
      simp_all
    · rintro ⟨⟨hne, hm'⟩, hv'⟩
      exact ⟨fun he => hne (by rw [he]), hm', hv'⟩

theorem cancelled_owns {q : TimerQueue} {held : List ℕ} (ho : q.Owns held) {id : TimerId}
    {t : Timer} (h : q.heap id.timer = some t) (hm : id.active ∈ q.activeTimers) :
    (q.cancelled id t).Owns held := by
  have hs := live_unique h ((ho.mem_active id).mp hm).2
  have hd := delete_owns (erased_owns ho h hm) h
  cases id
  simp only at hs
  subst hs
  exact hd

theorem cancelInLoop_of {q : TimerQueue} {held : List ℕ} (ho : q.Owns held) (id : TimerId) :
    (∃ t, q.heap id.timer = some t ∧ id.active ∈ q.activeTimers ∧
      q.cancelInLoop id = .ok (q.cancelled id t)) ∨
    id.active ∉ q.activeTimers ∧ q.cancelInLoop id = .ok { q with
      cancelingTimers :=
        if q.callingExpiredTimers then q.cancelingTimers.insert id.active
        else q.cancelingTimers } := by
  by_cases hm : id.active ∈ q.activeTimers
  · left
    obtain ⟨hna, t, h, hs⟩ := (ho.mem_active id).mp hm
    refine ⟨t, h, hm, ?_⟩
    have ht : Entry.mk t.expiration id.timer ∈ q.timers := (ho.mem_timers _ _).mpr ⟨hna, t, h, rfl⟩
    have hsize := (cancelled_owns ho h hm).size_eq
    simp only [cancelled] at hsize
    have hd := delete_of (q := { q with timers := q.timers.erase ⟨t.expiration, id.timer⟩ }) h
    simp only [cancelInLoop, assertSizes, assertThat_of ho.size_eq, if_pos hm, deref_of h,
      assertThat_of ht, ok_bind, hd, assertThat_of hsize, cancelled, hs, pure_eq_ok]
  · right
    refine ⟨hm, ?_⟩
    simp only [cancelInLoop, assertSizes, assertThat_of ho.size_eq, if_neg hm]
    by_cases hc : q.callingExpiredTimers = true
    · simp only [if_pos hc, assertThat_of ho.size_eq, ok_bind, pure_eq_ok]
    · simp only [if_neg hc, assertThat_of ho.size_eq, ok_bind, pure_eq_ok]

end Sets

end Lux.Polaris.TimerQueue
