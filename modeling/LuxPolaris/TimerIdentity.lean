import LuxPolaris.TimerThreads

/-!
# Which timer a TimerId names

The address and the number of a timer name it for good, since numbers are
never given out twice. `addTimer` returns them if the timer is still there
when it reads the number; a loop thread that has run and deleted the timer by
then leaves it a freed object, or another timer at the same address.
-/

set_option autoImplicit false

namespace Lux.Polaris

namespace TimerQueue
open Outcome

theorem step_older {ops : TimestampOps} {q q' : TimerQueue} (hi : q.Inv) {a : Action}
    (he : q.Enabled a) (ha : Older a) (hs : step ops q a = .ok q') :
    q'.issued = q.issued ∧ ∀ id, q'.Live id → q.Live id := by
  cases a with
  | addTimer => exact ha.elim
  | cancel id =>
    rcases cancelInLoop_of hi.owns id with ⟨t, ht, -, heq⟩ | ⟨-, heq⟩
    · cases heq.symm.trans hs
      refine ⟨rfl, fun id' ⟨u, hu, hseq⟩ => ⟨u, ?_, hseq⟩⟩
      by_cases hid : id'.timer = id.timer
      · simp [cancelled, hid] at hu
      · simpa [cancelled, hid] using hu
    · cases heq.symm.trans hs
      exact ⟨rfl, fun _ h => h⟩
  | handleRead now =>
    have ho : q.Owns [] := held_nil he ▸ hi.owns
    obtain ⟨active, heq, -⟩ := handleRead_of ho now
    cases heq.symm.trans hs
    exact ⟨rfl, fun _ h => h⟩
  | runNext =>
    obtain ⟨es, e, pending, now, hb⟩ := pending_of_enabled he
    obtain ⟨t, -, heq⟩ := runNext_of hi hb
    cases heq.symm.trans hs
    exact ⟨rfl, fun _ h => h⟩
  | finishRead clock =>
    obtain ⟨b, hb, -⟩ := batch_of_any he
    obtain ⟨q₁, hr, heq⟩ := finishRead_of ops hb (held_eq hb ▸ hi.owns) clock
    cases heq.symm.trans hs
    split_ifs
    · exact ⟨hr.issued, fun id h => (hr.live id h).1⟩
    · exact ⟨hr.issued, fun id h => (hr.live id h).1⟩
  | fire =>
    cases hs
    exact ⟨rfl, fun _ h => h⟩

theorem step_addTimer (ops : TimestampOps) {q : TimerQueue} (hi : q.Inv) {timer : ℕ}
    {when : Timestamp} {interval : Seconds} {sequence : ℤ} {clock : Timestamp}
    (he : q.Enabled (.addTimer timer when interval sequence clock)) :
    ∃ q', step ops q (.addTimer timer when interval sequence clock) = .ok q' ∧ q'.Inv ∧
      q'.heap = Function.update q.heap timer (some (.construct when interval sequence)) ∧
      q'.issued = q.issued ++ [⟨timer, sequence⟩] := by
  obtain ⟨q', hs, hi'⟩ := step_inv ops hi he
  obtain ⟨hh, -, -, -, -, -, hiss, -, -⟩ := added_frame
    (q.new timer (.construct when interval sequence)) timer (.construct when interval sequence)
    clock
  cases (addTimer_of ops hi he).symm.trans hs
  exact ⟨_, hs, hi', hh, hiss⟩

theorem cancelInLoop_others {q : TimerQueue} (hi : q.Inv) (id : TimerId) :
    ∃ q', q.cancelInLoop id = .ok q' ∧
      ∀ id', id' ≠ id → (q'.Live id' ↔ q.Live id') ∧ (q'.InSets id' ↔ q.InSets id') := by
  rcases cancelInLoop_of hi.owns id with ⟨t, ht, hm, heq⟩ | ⟨-, heq⟩
  · have hlive : ∀ id', id' ≠ id → ((q.cancelled id t).Live id' ↔ q.Live id') := by
      intro id' hne
      by_cases ha : id'.timer = id.timer
      · have hn : ¬q.Live id' := by
          intro hl
          have h₁ := live_unique (ha ▸ ht) hl
          have h₂ := live_unique ht ((hi.owns.mem_active id).mp hm).2
          cases id
          cases id'
          simp_all
        simp [Live, cancelled, ha] at hn ⊢
        exact hn
      · simp [Live, cancelled, ha]
    refine ⟨_, heq, fun id' hne => ⟨hlive id' hne, ?_⟩⟩
    have ho : (q.cancelled id t).Owns (q.cancelled id t).held := cancelled_owns hi.owns ht hm
    rw [inSets_iff ho, inSets_iff hi.owns, hlive id' hne]
    rfl
  · exact ⟨_, heq, fun id' _ => ⟨Iff.rfl, Iff.rfl⟩⟩

end TimerQueue

namespace TimerThreads
open Outcome
variable {τ : Type}

def added : QueueFunctor → Option ℕ
  | .addTimerInLoop timer => some timer
  | .cancelInLoop _ => none

def queuedTimers (s : TimerThreads τ) : List ℕ :=
  (s.functors ++ s.pendingFunctors).filterMap added

def IsHanded (s : TimerThreads τ) (id : TimerId) : Prop :=
  (s.handed id.timer).map Handed.sequence = some id.sequence

structure Inv (s : TimerThreads τ) : Prop where
  queue : s.queue.Inv
  numbered : ∀ id ∈ s.queue.issued, id.sequence ≤ s.numCreated
  distinct : (s.queue.issued.map TimerId.sequence).Nodup
  free : ∀ a, s.handed a ≠ none → s.queue.heap a = none ∧ a < UINTPTR_MAX
  handed_numbered : ∀ id, s.IsHanded id → id.sequence ≤ s.numCreated
  handed_new : ∀ id, s.IsHanded id → ∀ id' ∈ s.queue.issued, id'.sequence ≠ id.sequence
  apart : ∀ id id', s.IsHanded id → s.IsHanded id' → id.sequence = id'.sequence → id = id'
  queued_nodup : s.queuedTimers.Nodup
  queued_handed : ∀ a ∈ s.queuedTimers, s.handed a ≠ none
  calls : ∀ x c, s.calls x = some c → s.IsHanded c.own ∨ c.own ∈ s.queue.issued
  unqueued : ∀ x c, s.calls x = some c → c.queued = false →
    s.IsHanded c.own ∧ c.own.timer ∉ s.queuedTimers
  callers : ∀ x y c d, s.calls x = some c → s.calls y = some d → c.own = d.own → x = y
  named : ∀ r ∈ s.returned, r.id = r.own

theorem construct_inv : (construct : TimerThreads τ).Inv where
  queue := TimerQueue.construct_inv
  numbered := fun _ h => absurd h List.not_mem_nil
  distinct := List.nodup_nil
  free := fun _ h => absurd rfl h
  handed_numbered := fun _ h => nomatch h
  handed_new := fun _ h => nomatch h
  apart := fun _ _ h => nomatch h
  queued_nodup := List.nodup_nil
  queued_handed := fun _ h => absurd h List.not_mem_nil
  calls := fun _ _ h => nomatch h
  unqueued := fun _ _ h => nomatch h
  callers := fun _ _ _ _ h => nomatch h
  named := fun _ h => absurd h List.not_mem_nil

theorem isHanded_new {s : TimerThreads τ} (s' : TimerThreads τ) {timer : ℕ}
    (hfree : s.handed timer = none) {when : Timestamp} {interval : Seconds} {sequence : ℤ}
    (h : s'.handed = Function.update s.handed timer (some ⟨when, interval, sequence⟩))
    (id : TimerId) : s'.IsHanded id ↔ id = ⟨timer, sequence⟩ ∨ s.IsHanded id := by
  obtain ⟨a, n⟩ := id
  rw [IsHanded, IsHanded, h]
  by_cases ha : a = timer
  · subst ha
    simp [hfree, eq_comm]
  · simp [ha]

theorem isHanded_added {s : TimerThreads τ} (s' : TimerThreads τ) {timer : ℕ}
    (h : s'.handed = Function.update s.handed timer none) (id : TimerId) :
    s'.IsHanded id ↔ id.timer ≠ timer ∧ s.IsHanded id := by
  rw [IsHanded, IsHanded, h]
  by_cases ha : id.timer = timer
  · simp [ha]
  · simp [ha]

theorem older_inv {s : TimerThreads τ} (hi : s.Inv) {q : TimerQueue} (hq : q.Inv)
    (hissued : q.issued = s.queue.issued) (hlive : ∀ id, q.Live id → s.queue.Live id)
    (functors : List QueueFunctor)
    (hf : (functors ++ s.pendingFunctors).filterMap added = s.queuedTimers) :
    Inv { s with queue := q, functors := functors } where
  queue := hq
  numbered := by rw [hissued]; exact hi.numbered
  distinct := by rw [hissued]; exact hi.distinct
  free := by
    intro a ha
    refine ⟨?_, (hi.free a ha).2⟩
    cases hh : q.heap a with
    | none => rfl
    | some t =>
      obtain ⟨u, hu, -⟩ := hlive ⟨a, t.sequence⟩ ⟨t, hh, rfl⟩
      rw [(hi.free a ha).1] at hu
      cases hu
  handed_numbered := hi.handed_numbered
  handed_new := by rw [hissued]; exact hi.handed_new
  apart := hi.apart
  queued_nodup := by rw [queuedTimers, hf]; exact hi.queued_nodup
  queued_handed := by rw [queuedTimers, hf]; exact hi.queued_handed
  calls := by rw [hissued]; exact hi.calls
  unqueued := by rw [queuedTimers, hf]; exact hi.unqueued
  callers := hi.callers
  named := hi.named

theorem functors_inv {s : TimerThreads τ} (hi : s.Inv) {functors pending : List QueueFunctor}
    (hf : (functors ++ pending).filterMap added = s.queuedTimers) :
    Inv { s with functors := functors, pendingFunctors := pending } :=
  { hi with
    queued_nodup := by rw [queuedTimers, hf]; exact hi.queued_nodup
    queued_handed := by rw [queuedTimers, hf]; exact hi.queued_handed
    unqueued := by rw [queuedTimers, hf]; exact hi.unqueued }

theorem isHanded_some {s : TimerThreads τ} {id : TimerId} (h : s.IsHanded id) :
    s.handed id.timer ≠ none := by
  intro hn
  rw [IsHanded, hn] at h
  cases h

theorem distinct_snoc {issued : List TimerId} (h : (issued.map TimerId.sequence).Nodup)
    {id : TimerId} (hn : ∀ id' ∈ issued, id'.sequence ≠ id.sequence) :
    ((issued ++ [id]).map TimerId.sequence).Nodup := by
  rw [List.map_append, List.nodup_append]
  refine ⟨h, List.nodup_singleton _, ?_⟩
  intro n hn' m hm he
  obtain ⟨id', hid', rfl⟩ := List.mem_map.mp hn'
  rw [List.map_singleton, List.mem_singleton] at hm
  exact hn id' hid' (he.trans hm)

theorem addTimerInLoop_inv {s : TimerThreads τ} (hi : s.Inv) {timer : ℕ}
    {functors : List QueueFunctor} (hf : s.functors = .addTimerInLoop timer::functors)
    {h : Handed} (hh : s.handed timer = some h) {q : TimerQueue} (hq : q.Inv)
    (hheap : q.heap = Function.update s.queue.heap timer
      (some (.construct h.when h.interval h.sequence)))
    (hissued : q.issued = s.queue.issued ++ [⟨timer, h.sequence⟩]) :
    Inv { s with
      queue := q
      functors := functors
      handed := Function.update s.handed timer none } := by
  have hown : s.IsHanded ⟨timer, h.sequence⟩ := by rw [IsHanded, hh]; rfl
  have hleft := isHanded_added { s with
      queue := q
      functors := functors
      handed := Function.update s.handed timer none } rfl
  have hqueued : s.queuedTimers = timer::(functors ++ s.pendingFunctors).filterMap added := by
    rw [queuedTimers, hf]
    rfl
  have hnd := hi.queued_nodup
  rw [hqueued, List.nodup_cons] at hnd
  refine ⟨hq, ?_, ?_, ?_, ?_, ?_, ?_, hnd.2, ?_, ?_, ?_, hi.callers, hi.named⟩
  · intro id hid
    rw [hissued, List.mem_append, List.mem_singleton] at hid
    rcases hid with hid | rfl
    · exact hi.numbered id hid
    · exact hi.handed_numbered _ hown
  · rw [hissued]
    exact distinct_snoc hi.distinct (hi.handed_new _ hown)
  · intro a ha
    have hne : a ≠ timer := by
      rintro rfl
      simp at ha
    rw [hheap]
    simp only [ne_eq, hne, not_false_eq_true, Function.update_of_ne] at ha ⊢
    exact hi.free a ha
  · exact fun id hid => hi.handed_numbered id ((hleft id).mp hid).2
  · intro id hid id' hid'
    obtain ⟨hne, hid⟩ := (hleft id).mp hid
    rw [hissued, List.mem_append, List.mem_singleton] at hid'
    rcases hid' with hid' | rfl
    · exact hi.handed_new id hid id' hid'
    · exact fun he => hne (congrArg TimerId.timer (hi.apart _ _ hid hown he.symm))
  · exact fun id id' h₁ h₂ => hi.apart id id' ((hleft id).mp h₁).2 ((hleft id').mp h₂).2
  · intro a ha
    have hne : a ≠ timer := fun he => hnd.1 (he ▸ ha)
    simp only [ne_eq, hne, not_false_eq_true, Function.update_of_ne]
    exact hi.queued_handed a (hqueued ▸ List.mem_cons_of_mem _ ha)
  · intro x c hc
    rw [hissued, List.mem_append, List.mem_singleton]
    rcases hi.calls x c hc with hm | hm
    · by_cases ht : c.own.timer = timer
      · right
        right
        have hkey : s.handed c.own.timer = some h := by rw [ht, hh]
        rw [IsHanded, hkey, Option.map_some, Option.some.injEq] at hm
        rw [← ht, hm]
      · exact Or.inl ((hleft _).mpr ⟨ht, hm⟩)
    · exact Or.inr (Or.inl hm)
  · intro x c hc hu
    obtain ⟨hm, hn⟩ := hi.unqueued x c hc hu
    rw [hqueued, List.mem_cons, not_or] at hn
    exact ⟨(hleft _).mpr ⟨hn.1, hm⟩, hn.2⟩

theorem issued_lt {s : TimerThreads τ} (hi : s.Inv) {id : TimerId} (h : id ∈ s.queue.issued) :
    id.sequence < s.numCreated+1 :=
  Int.lt_add_one_of_le (hi.numbered id h)

theorem isHanded_lt {s : TimerThreads τ} (hi : s.Inv) {id : TimerId} (h : s.IsHanded id) :
    id.sequence < s.numCreated+1 :=
  Int.lt_add_one_of_le (hi.handed_numbered id h)

theorem addTimer_inv {s : TimerThreads τ} (hi : s.Inv) {timer : ℕ} {when : Timestamp}
    {interval : Seconds} (hfree : s.handed timer = none) {q : TimerQueue} (hq : q.Inv)
    (hheap : q.heap = Function.update s.queue.heap timer
      (some (.construct when interval (s.numCreated+1))))
    (hissued : q.issued = s.queue.issued ++ [⟨timer, s.numCreated+1⟩]) :
    Inv { s with
      queue := q
      numCreated := s.numCreated+1
      returned := s.returned ++ [⟨⟨timer, s.numCreated+1⟩, ⟨timer, s.numCreated+1⟩⟩] } := by
  refine ⟨hq, ?_, ?_, ?_, ?_, ?_, hi.apart, hi.queued_nodup, hi.queued_handed, ?_, hi.unqueued,
    hi.callers, ?_⟩
  · intro id hid
    rw [hissued, List.mem_append, List.mem_singleton] at hid
    rcases hid with hid | rfl
    · exact le_of_lt (issued_lt hi hid)
    · exact le_refl _
  · rw [hissued]
    exact distinct_snoc hi.distinct (fun id hid => (issued_lt hi hid).ne)
  · intro a ha
    have hne : a ≠ timer := fun he => ha (he ▸ hfree)
    rw [hheap, Function.update_of_ne hne]
    exact hi.free a ha
  · exact fun id hid => le_of_lt (isHanded_lt hi hid)
  · intro id hid id' hid'
    rw [hissued, List.mem_append, List.mem_singleton] at hid'
    rcases hid' with hid' | rfl
    · exact hi.handed_new id hid id' hid'
    · exact (isHanded_lt hi hid).ne'
  · intro x c hc
    rw [hissued, List.mem_append]
    exact (hi.calls x c hc).imp_right Or.inl
  · intro r hr
    rcases List.mem_append.mp hr with hr | hr
    · exact hi.named r hr
    · rw [List.mem_singleton.mp hr]

section Calls
variable [DecidableEq τ]

theorem newTimer_inv {s : TimerThreads τ} (hi : s.Inv) {x : τ} {timer : ℕ} {when : Timestamp}
    {interval : Seconds} (hx : s.calls x = none) (hfree : s.Free timer) :
    Inv { s.setCall x (some ⟨⟨timer, s.numCreated+1⟩, false⟩) with
      numCreated := s.numCreated+1
      handed := Function.update s.handed timer (some ⟨when, interval, s.numCreated+1⟩) } := by
  obtain ⟨hnone, hheap, hlt⟩ := hfree
  have hnew := isHanded_new { s.setCall x (some ⟨⟨timer, s.numCreated+1⟩, false⟩) with
      numCreated := s.numCreated+1
      handed := Function.update s.handed timer (some ⟨when, interval, s.numCreated+1⟩) }
    hnone rfl
  have hqueued : timer ∉ s.queuedTimers := fun h => hi.queued_handed timer h hnone
  have hown : ∀ y c, s.calls y = some c → c.own ≠ ⟨timer, s.numCreated+1⟩ := by
    intro y c hc he
    rcases hi.calls y c hc with h | h
    · exact isHanded_some h (by rw [he]; exact hnone)
    · exact (issued_lt hi h).ne (congrArg TimerId.sequence he)
  refine ⟨hi.queue, ?_, hi.distinct, ?_, ?_, ?_, ?_, hi.queued_nodup, ?_, ?_, ?_, ?_, hi.named⟩
  · exact fun id hid => le_of_lt (issued_lt hi hid)
  · intro a ha
    by_cases he : a = timer
    · subst he
      exact ⟨hheap, hlt⟩
    · simp only [ne_eq, he, not_false_eq_true, Function.update_of_ne] at ha
      exact hi.free a ha
  · intro id hid
    rcases (hnew id).mp hid with rfl | hid
    · exact le_refl _
    · exact le_of_lt (isHanded_lt hi hid)
  · intro id hid id' hid'
    rcases (hnew id).mp hid with rfl | hid
    · exact (issued_lt hi hid').ne
    · exact hi.handed_new id hid id' hid'
  · intro id id' h₁ h₂ he
    rcases (hnew id).mp h₁ with rfl | h₁ <;> rcases (hnew id').mp h₂ with rfl | h₂
    · rfl
    · exact absurd he.symm (isHanded_lt hi h₂).ne
    · exact absurd he (isHanded_lt hi h₁).ne
    · exact hi.apart id id' h₁ h₂ he
  · intro a ha
    have hne : a ≠ timer := fun he => hqueued (he ▸ ha)
    simp only [ne_eq, hne, not_false_eq_true, Function.update_of_ne]
    exact hi.queued_handed a ha
  · intro y c hc
    by_cases hy : y = x
    · subst hy
      simp only [setCall, Function.update_self, Option.some.injEq] at hc
      exact Or.inl ((hnew _).mpr (Or.inl (by rw [← hc])))
    · simp only [setCall, ne_eq, hy, not_false_eq_true, Function.update_of_ne] at hc
      exact (hi.calls y c hc).imp_left (fun h => (hnew _).mpr (Or.inr h))
  · intro y c hc hu
    by_cases hy : y = x
    · subst hy
      simp only [setCall, Function.update_self, Option.some.injEq] at hc
      exact ⟨(hnew _).mpr (Or.inl (by rw [← hc])), by rw [← hc]; exact hqueued⟩
    · simp only [setCall, ne_eq, hy, not_false_eq_true, Function.update_of_ne] at hc
      obtain ⟨h, hn⟩ := hi.unqueued y c hc hu
      exact ⟨(hnew _).mpr (Or.inr h), hn⟩
  · intro y z c d hc hd he
    by_cases hy : y = x <;> by_cases hz : z = x
    · rw [hy, hz]
    · subst hy
      simp only [setCall, Function.update_self, Option.some.injEq, ne_eq, hz, not_false_eq_true,
        Function.update_of_ne] at hc hd
      exact absurd (by rw [← he, ← hc]) (hown z d hd)
    · subst hz
      simp only [setCall, Function.update_self, Option.some.injEq, ne_eq, hy, not_false_eq_true,
        Function.update_of_ne] at hc hd
      exact absurd (by rw [he, ← hd]) (hown y c hc)
    · simp only [setCall, ne_eq, hy, hz, not_false_eq_true, Function.update_of_ne] at hc hd
      exact hi.callers y z c d hc hd he

theorem queueTimer_inv {s : TimerThreads τ} (hi : s.Inv) {x : τ} {c : AddCall}
    (hx : s.calls x = some c) (hc : c.queued = false) :
    Inv { s.setCall x (some { c with queued := true }) with
      pendingFunctors := s.pendingFunctors ++ [.addTimerInLoop c.own.timer] } := by
  obtain ⟨hown, hnot⟩ := hi.unqueued x c hx hc
  have hqueued : queuedTimers { s.setCall x (some { c with queued := true }) with
      pendingFunctors := s.pendingFunctors ++ [.addTimerInLoop c.own.timer] } =
        s.queuedTimers ++ [c.own.timer] := by
    change List.filterMap added (s.functors ++ (s.pendingFunctors ++ [_])) = _
    rw [← List.append_assoc, List.filterMap_append]
    rfl
  have hcalls : ∀ y d, Function.update s.calls x (some { c with queued := true }) y = some d →
      ∃ d', s.calls y = some d' ∧ d'.own = d.own ∧ (d.queued = false → y ≠ x ∧ d' = d) := by
    intro y d hd
    by_cases hy : y = x
    · subst hy
      rw [Function.update_self, Option.some.injEq] at hd
      subst hd
      exact ⟨c, hx, rfl, fun h => absurd h Bool.true_eq_false.mp⟩
    · rw [Function.update_of_ne hy] at hd
      exact ⟨d, hd, rfl, fun _ => ⟨hy, rfl⟩⟩
  refine ⟨hi.queue, hi.numbered, hi.distinct, hi.free, hi.handed_numbered, hi.handed_new,
    hi.apart, ?_, ?_, ?_, ?_, ?_, hi.named⟩
  · rw [hqueued, List.nodup_append]
    refine ⟨hi.queued_nodup, List.nodup_singleton _, ?_⟩
    intro a ha b hb he
    rw [List.mem_singleton] at hb
    exact hnot (hb ▸ he ▸ ha)
  · intro a ha
    rw [hqueued, List.mem_append, List.mem_singleton] at ha
    rcases ha with ha | rfl
    · exact hi.queued_handed a ha
    · exact isHanded_some hown
  · intro y d hd
    obtain ⟨d', hd', he, -⟩ := hcalls y d hd
    exact he ▸ hi.calls y d' hd'
  · intro y d hd hu
    obtain ⟨d', hd', -, hsame⟩ := hcalls y d hd
    obtain ⟨hy, rfl⟩ := hsame hu
    obtain ⟨h, hn⟩ := hi.unqueued y d' hd' hu
    refine ⟨h, ?_⟩
    rw [hqueued, List.mem_append, List.mem_singleton, not_or]
    refine ⟨hn, fun he => hy ?_⟩
    have hsame : d'.own = c.own := by
      have h' : s.IsHanded ⟨c.own.timer, d'.own.sequence⟩ := he ▸ h
      rw [IsHanded] at h' hown
      have hs := Option.some.inj (h'.symm.trans hown)
      rw [TimerId.mk.injEq]
      exact ⟨he, hs⟩
    exact hi.callers y x d' c hd' hx hsame
  · intro y z d e hd he heq
    obtain ⟨d', hd', hd'', -⟩ := hcalls y d hd
    obtain ⟨e', he', he'', -⟩ := hcalls z e he
    exact hi.callers y z d' e' hd' he' (by rw [hd'', he'', heq])

theorem returned_inv {s : TimerThreads τ} (hi : s.Inv) {x : τ} {c : AddCall} :
    Inv { s.setCall x none with returned := s.returned ++ [⟨c.own, c.own⟩] } := by
  have hcalls : ∀ y d, Function.update s.calls x none y = some d → s.calls y = some d := by
    intro y d hd
    by_cases hy : y = x
    · rw [hy, Function.update_self] at hd
      cases hd
    · rwa [Function.update_of_ne hy] at hd
  refine ⟨hi.queue, hi.numbered, hi.distinct, hi.free, hi.handed_numbered, hi.handed_new,
    hi.apart, hi.queued_nodup, hi.queued_handed, ?_, ?_, ?_, ?_⟩
  · exact fun y d hd => hi.calls y d (hcalls y d hd)
  · exact fun y d hd => hi.unqueued y d (hcalls y d hd)
  · exact fun y z d e hd he => hi.callers y z d e (hcalls y d hd) (hcalls z e he)
  · intro r hr
    rcases List.mem_append.mp hr with hr | hr
    · exact hi.named r hr
    · rw [List.mem_singleton.mp hr]

end Calls

section Reading

theorem readSequence_of {s : TimerThreads τ} (hi : s.Inv) {x : τ} {c : AddCall}
    (hx : s.calls x = some c) (hf : c.own ∉ s.queue.freed) :
    s.readSequence c.own.timer = .ok c.own.sequence := by
  rw [readSequence]
  rcases hi.calls x c hx with h | h
  · obtain ⟨t, ht, hs⟩ := Option.map_eq_some_iff.mp h
    rw [ht]
    exact congrArg Except.ok hs
  · obtain ⟨t, ht, hs⟩ := ((hi.queue.owns.ledger _).mp h).resolve_right hf
    have hn : s.handed c.own.timer = none := by
      by_contra hn
      rw [(hi.free _ hn).1] at ht
      cases ht
    rw [hn]
    simp only [TimerQueue.deref_of ht, ok_bind, pure_eq_ok, hs]

/-- Once it is deleted, reading is a use after free or answers the number of
another timer. -/
theorem readSequence_freed {s : TimerThreads τ} (hi : s.Inv) {id : TimerId}
    (hf : id ∈ s.queue.freed) : s.readSequence id.timer = .error .useAfterFree ∨
      ∃ n, s.readSequence id.timer = .ok n ∧ n ≠ id.sequence := by
  have hissued := (hi.queue.owns.ledger id).mpr (Or.inr hf)
  rw [readSequence]
  cases hh : s.handed id.timer with
  | some h =>
    right
    refine ⟨h.sequence, rfl, fun he => ?_⟩
    have hown : s.IsHanded id := by rw [IsHanded, hh, Option.map_some, he]
    exact hi.handed_new id hown id hissued rfl
  | none =>
    cases hq : s.queue.heap id.timer with
    | none =>
      left
      rw [TimerQueue.deref, hq]
      rfl
    | some t =>
      right
      refine ⟨t.sequence, by simp only [TimerQueue.deref_of hq, ok_bind, pure_eq_ok], ?_⟩
      exact fun he => hi.queue.owns.not_freed id ⟨t, hq, he⟩ hf

end Reading

section Runs

/-- What `addTimer` has returned are the timers it had allocated; their numbers
are theirs alone, and to cancel one reads no freed timer and removes no other
timer. -/
structure Sound (s : TimerThreads τ) : Prop where
  named : ∀ r ∈ s.returned, r.id = r.own
  distinct : (s.queue.issued.map TimerId.sequence).Nodup
  cancels : ∀ r ∈ s.returned, ∃ q, s.queue.cancelInLoop r.id = .ok q ∧ ∀ id, id ≠ r.own →
    (q.Live id ↔ s.queue.Live id) ∧ (q.InSets id ↔ s.queue.InSets id)

theorem inv_sound {s : TimerThreads τ} (hi : s.Inv) : s.Sound := by
  refine ⟨hi.named, hi.distinct, fun r hr => ?_⟩
  rw [hi.named r hr]
  exact TimerQueue.cancelInLoop_others hi.queue r.own

variable [DecidableEq τ]

/-- The timer has not been deleted when `addTimer` reads its number. -/
def Used (s : TimerThreads τ) : TimerAction τ → Prop
  | .readSequence x => (s.calls x).all (fun c => c.own ∉ s.queue.freed) = true
  | _ => True

instance (s : TimerThreads τ) : (a : TimerAction τ) → Decidable (s.Used a)
  | .readSequence _ => inferInstanceAs (Decidable (_ = true))
  | .newTimer _ _ _ _ => isTrue trivial
  | .queueTimer _ => isTrue trivial
  | .queueCancel _ => isTrue trivial
  | .addTimer _ _ _ _ => isTrue trivial
  | .swap => isTrue trivial
  | .runFunctor _ => isTrue trivial
  | .onQueue _ => isTrue trivial

variable (ops : TimestampOps)

theorem runFunctor_inv {s : TimerThreads τ} (hi : s.Inv) (clock : Timestamp)
    (hb : s.queue.batch = none) :
    ∃ s', step ops s (.runFunctor clock) = .ok s' ∧ s'.Inv := by
  have huser : s.queue.InUserCode := by rw [TimerQueue.InUserCode, hb]; rfl
  cases hf : s.functors with
  | nil => exact ⟨s, by rw [step, hf], hi⟩
  | cons f functors =>
    cases f with
    | addTimerInLoop timer =>
      have hmem : timer ∈ s.queuedTimers := by
        rw [queuedTimers, hf]
        exact List.mem_cons_self
      obtain ⟨h, hh⟩ := Option.ne_none_iff_exists'.mp (hi.queued_handed timer hmem)
      obtain ⟨hfree, hlt⟩ := hi.free timer (by simp [hh])
      have hown : s.IsHanded ⟨timer, h.sequence⟩ := by rw [IsHanded, hh]; rfl
      have henabled : s.queue.Enabled (.addTimer timer h.when h.interval h.sequence clock) :=
        ⟨huser, hfree, hlt, hi.handed_new _ hown⟩
      obtain ⟨q, hs, hq, hheap, hissued⟩ := TimerQueue.step_addTimer ops hi.queue henabled
      refine ⟨_, ?_, addTimerInLoop_inv hi hf hh hq hheap hissued⟩
      rw [step, hf]
      simp only [runQueued, hh, hs, ok_bind, pure_eq_ok]
    | cancelInLoop id =>
      obtain ⟨q, hs, hq⟩ := TimerQueue.step_inv ops hi.queue (a := .cancel id) huser
      obtain ⟨hissued, hlive⟩ := TimerQueue.step_older hi.queue (a := .cancel id) huser trivial hs
      refine ⟨_, ?_, older_inv hi hq hissued hlive functors ?_⟩
      · rw [step, hf]
        simp only [runQueued, hs, ok_bind, pure_eq_ok]
      · rw [queuedTimers, hf]
        rfl

theorem step_inv {s : TimerThreads τ} {a : TimerAction τ} (hi : s.Inv) (he : s.Enabled a)
    (hu : s.Used a) : ∃ s', step ops s a = .ok s' ∧ s'.Inv := by
  cases a with
  | newTimer x timer when interval => exact ⟨_, rfl, newTimer_inv hi he.1 he.2⟩
  | queueTimer x =>
    obtain ⟨c, hx, hc⟩ := Option.any_eq_true _ _ |>.mp he
    refine ⟨_, ?_, queueTimer_inv hi hx (by simpa using hc)⟩
    simp only [step, hx]
    rfl
  | readSequence x =>
    obtain ⟨c, hx, -⟩ := Option.any_eq_true _ _ |>.mp he
    refine ⟨_, ?_, returned_inv hi (x := x) (c := c)⟩
    rw [Used, hx] at hu
    have hread := readSequence_of hi hx (of_decide_eq_true hu)
    simp only [step, hx, hread, ok_bind, pure_eq_ok]
    rfl
  | queueCancel id =>
    refine ⟨_, rfl, functors_inv hi ?_⟩
    rw [← List.append_assoc, List.filterMap_append]
    exact List.append_nil _
  | addTimer timer when interval clock =>
    obtain ⟨huser, hnone, hfree, hlt⟩ := he
    have henabled : s.queue.Enabled (.addTimer timer when interval (s.numCreated+1) clock) :=
      ⟨huser, hfree, hlt, fun id hid => (issued_lt hi hid).ne⟩
    obtain ⟨q, hs, hq, hheap, hissued⟩ := TimerQueue.step_addTimer ops hi.queue henabled
    refine ⟨_, ?_, addTimer_inv hi hnone hq hheap hissued⟩
    have hnew : q.heap timer = some (.construct when interval (s.numCreated+1)) := by
      rw [hheap, Function.update_self]
    simp only [step, hs, TimerQueue.deref_of hnew, ok_bind, pure_eq_ok]
    rfl
  | swap =>
    refine ⟨_, rfl, functors_inv hi ?_⟩
    rw [queuedTimers, he.1, List.append_nil]
    rfl
  | runFunctor clock => exact runFunctor_inv ops hi clock he
  | onQueue a =>
    obtain ⟨q, hs, hq⟩ := TimerQueue.step_inv ops hi.queue he.1
    obtain ⟨hissued, hlive⟩ := TimerQueue.step_older hi.queue he.1 he.2 hs
    refine ⟨_, ?_, older_inv hi hq hissued hlive s.functors rfl⟩
    simp only [step, hs, ok_bind, pure_eq_ok]

theorem step_freed {s : TimerThreads τ} {a : TimerAction τ} (hi : s.Inv) (hu : ¬s.Used a) :
    ¬Yields (step ops s a) Sound (fun _ => False) := by
  cases a with
  | readSequence x =>
    intro h
    cases hx : s.calls x with
    | none =>
      rw [Used, hx] at hu
      exact hu rfl
    | some c =>
      rw [Used, hx] at hu
      have hf : c.own ∈ s.queue.freed := by simpa using hu
      rw [step, hx] at h
      rcases readSequence_freed hi hf with he | ⟨n, he, hn⟩
      · simp only [he] at h
        exact h.error rfl
      · simp only [he, ok_bind] at h
        have hr := (h.ok rfl).named _ (List.mem_append_right _ List.mem_cons_self)
        exact hn (congrArg TimerId.sequence hr)
  | newTimer => exact absurd trivial hu
  | queueTimer => exact absurd trivial hu
  | queueCancel => exact absurd trivial hu
  | addTimer => exact absurd trivial hu
  | swap => exact absurd trivial hu
  | runFunctor => exact absurd trivial hu
  | onQueue => exact absurd trivial hu

/-- Exactly in the runs where no timer is deleted before its `addTimer` reads
its number, every `addTimer` reads a live timer and returns the timer it has
allocated. -/
theorem timerId_names_own (as : List (TimerAction τ))
    (h : Admitted (step ops) Enabled construct as) :
    Throughout (step ops) Sound (fun _ => False) construct as ↔
      Admitted (step ops) Used construct as := by
  refine throughout_iff Enabled Used (fun _ => inv_sound) (fun s a hi he hu => ?_)
    (fun s a hi _ hu => step_freed ops hi hu) as _ construct_inv h
  obtain ⟨s', hs, hi'⟩ := step_inv ops hi he hu
  rw [hs]
  exact (yields_ok _ _ _).mpr hi'

theorem timerId_names_own_expired :
    Throughout (step microsecondOps) Sound (fun _ => False) construct
      [.newTimer () 16 5 0, .queueTimer (), .swap, .runFunctor 3, .readSequence (),
        .onQueue .fire, .onQueue (.handleRead 7), .onQueue .runNext, .onQueue (.finishRead 8),
        .queueCancel ⟨16, 1⟩, .swap, .runFunctor 9] :=
  (timerId_names_own microsecondOps _ (by decide +kernel)).mpr (by decide +kernel)

/-- One thread's timer has run and is deleted, and a second thread's timer has
its address, when the first thread reads its number. -/
theorem timerId_names_other :
    ¬∀ as : List (TimerAction Bool), Admitted (step microsecondOps) Enabled construct as →
      Throughout (step microsecondOps) Sound (fun _ => False) construct as := by
  intro h
  have hy := h [.newTimer false 16 5 0, .queueTimer false, .swap, .runFunctor 3,
    .onQueue .fire, .onQueue (.handleRead 7), .onQueue .runNext, .onQueue (.finishRead 8),
    .newTimer true 16 20 0, .queueTimer true, .readSequence false] (by decide +kernel) _
    List.prefix_rfl
  exact absurd ((hy.ok rfl).named ⟨⟨16, 1⟩, ⟨16, 2⟩⟩ (by decide)) (by decide)

end Runs

end TimerThreads

end Lux.Polaris
