import LuxPolaris.TimerRuns

/-!
# The fate of one timer

A timer is in both sets, in the batch, or gone. What becomes of it is decided
by its own history alone: its creation, its cancels, and the `now` of each
`handleRead`. Other timers do not enter into it, wherever they are allocated.
-/

set_option autoImplicit false

namespace Lux.Polaris.TimerQueue
open Outcome

inductive Place where
  | absent
  | queued (t : Timer)
  | expired (t : Timer) (now : Timestamp) (canceled : Bool)
  deriving DecidableEq

/-- `firings` are the callbacks run and the one that is due in the batch. -/
structure Fate where
  place : Place
  firings : ℕ
  deriving DecidableEq

def live? (q : TimerQueue) (id : TimerId) : Option Timer :=
  (q.heap id.timer).filter (fun t => t.sequence = id.sequence)

def place (q : TimerQueue) (id : TimerId) : Place :=
  match q.live? id, q.batch with
  | none, _ => .absent
  | some t, none => .queued t
  | some t, some b =>
    if id.timer ∈ b.expired.map Entry.second then
      .expired t b.now (decide (id.active ∈ q.cancelingTimers))
    else .queued t

/-- The callback that the batch still has to run. -/
def dueNow (q : TimerQueue) (id : TimerId) : ℕ :=
  match q.live? id, q.batch with
  | some _, some b => if id.timer ∈ b.pending.map Entry.second then 1 else 0
  | _, _ => 0

def fate (q : TimerQueue) (id : TimerId) : Fate where
  place := q.place id
  firings := q.ran.count id+q.dueNow id

inductive LifeEvent where
  | added (when : Timestamp) (interval : Seconds) (sequence : ℤ)
  | cancelled
  | expiry (now : Timestamp)
  | reset
  deriving DecidableEq

def lifeEvent (id : TimerId) : Action → Option LifeEvent
  | .addTimer timer when interval sequence _ =>
    if id = ⟨timer, sequence⟩ then some (.added when interval sequence) else none
  | .cancel timerId => if timerId = id then some .cancelled else none
  | .handleRead now => some (.expiry now)
  | .finishRead _ => some .reset
  | .runNext => none
  | .fire => none

def lifeline (id : TimerId) (as : List Action) : List LifeEvent := as.filterMap (lifeEvent id)

namespace Fate

def cancel : Fate → Fate
  | ⟨.queued _, n⟩ => ⟨.absent, n⟩
  | ⟨.expired t now _, n⟩ => ⟨.expired t now true, n⟩
  | f => f

def expire (now : Timestamp) : Fate → Fate
  | ⟨.queued t, n⟩ => if t.expiration ≤ now then ⟨.expired t now false, n+1⟩ else ⟨.queued t, n⟩
  | f => f

def reset (ops : TimestampOps) : Fate → Fate
  | ⟨.expired t now canceled, n⟩ =>
    if t.repeat_ && !canceled then ⟨.queued (t.restart ops now), n⟩ else ⟨.absent, n⟩
  | f => f

def live (ops : TimestampOps) (f : Fate) : LifeEvent → Fate
  | .added when interval sequence => { f with place := .queued (.construct when interval sequence) }
  | .cancelled => f.cancel
  | .expiry now => f.expire now
  | .reset => f.reset ops

end Fate

section Live
variable {q : TimerQueue} {id : TimerId}

theorem live?_eq_some {t : Timer} :
    q.live? id = some t ↔ q.heap id.timer = some t ∧ t.sequence = id.sequence := by
  rw [live?, Option.filter_eq_some_iff, decide_eq_true_eq]

theorem live?_isSome : (q.live? id).isSome = true ↔ q.Live id := by
  rw [Option.isSome_iff_exists]
  exact exists_congr fun t => live?_eq_some

theorem live?_eq_none : q.live? id = none ↔ ¬q.Live id := by
  rw [← live?_isSome, Option.not_isSome_iff_eq_none]

theorem live?_congr {q' : TimerQueue} (h : q'.heap id.timer = q.heap id.timer) :
    q'.live? id = q.live? id := by
  rw [live?, live?, h]

theorem place_absent : q.place id = .absent ↔ ¬q.Live id := by
  rw [← live?_eq_none, place]
  cases q.live? id with
  | none => simp
  | some t =>
    cases q.batch with
    | none => simp
    | some b => by_cases hm : id.timer ∈ b.expired.map Entry.second <;> simp [hm]

theorem place_queued {t : Timer} :
    q.place id = .queued t ↔ q.live? id = some t ∧ id.timer ∉ q.held := by
  rw [place, held]
  cases q.live? id with
  | none => simp
  | some u =>
    cases q.batch with
    | none => simp
    | some b => by_cases hm : id.timer ∈ b.expired.map Entry.second <;> simp [hm]

theorem place_queued_iff (hi : q.Inv) {t : Timer} :
    q.place id = .queued t ↔ q.heap id.timer = some t ∧ t.sequence = id.sequence ∧
      id.active ∈ q.activeTimers ∧ ⟨t.expiration, id.timer⟩ ∈ q.timers := by
  rw [place_queued, live?_eq_some, hi.owns.mem_active, hi.owns.mem_timers]
  constructor
  · intro ⟨⟨ht, hs⟩, hn⟩
    exact ⟨ht, hs, ⟨hn, t, ht, hs⟩, hn, t, ht, rfl⟩
  · intro ⟨ht, hs, ⟨hn, _⟩, _⟩
    exact ⟨⟨ht, hs⟩, hn⟩

theorem dueNow_of_not_live (h : ¬q.Live id) : q.dueNow id = 0 := by
  rw [dueNow, live?_eq_none.mpr h]

theorem dueNow_of_batch (h : q.batch = none) : q.dueNow id = 0 := by
  rw [dueNow, h]
  cases q.live? id <;> rfl

theorem fate_of_not_live (h : ¬q.Live id) : q.fate id = ⟨.absent, q.ran.count id⟩ := by
  rw [fate, place_absent.mpr h, dueNow_of_not_live h, Nat.add_zero]

theorem dueNow_of_not_held (hi : q.Inv) (h : id.timer ∉ q.held) : q.dueNow id = 0 := by
  rw [dueNow]
  cases hb : q.batch with
  | none => cases q.live? id <;> rfl
  | some b =>
    have hout : id.timer ∉ b.pending.map Entry.second := by
      intro hm
      obtain ⟨e, he, hes⟩ := List.mem_map.mp hm
      rw [held_eq hb] at h
      exact h (List.mem_map.mpr ⟨e, (hi.suffix b hb).subset he, hes⟩)
    cases q.live? id with
    | none => rfl
    | some t => exact if_neg hout

theorem fate_queued (hi : q.Inv) {t : Timer} (hl : q.live? id = some t) (h : id.timer ∉ q.held) :
    q.fate id = ⟨.queued t, q.ran.count id⟩ := by
  rw [fate, place_queued.mpr ⟨hl, h⟩, dueNow_of_not_held hi h, Nat.add_zero]

theorem fate_congr {q' : TimerQueue} (hh : q'.live? id = q.live? id) (hb : q'.batch = q.batch)
    (hc : id.active ∈ q'.cancelingTimers ↔ id.active ∈ q.cancelingTimers)
    (hr : q'.ran = q.ran) : q'.fate id = q.fate id := by
  simp only [fate, place, dueNow, hh, hb, hr, hc]

end Live

section Reset
variable {ops : TimestampOps}

def rearm (ops : TimestampOps) (canceling : SortedSet ActiveTimer) (now : Timestamp) (a : ℕ)
    (t : Timer) : Option Timer :=
  if t.repeat_ && decide (TimerId.active ⟨a, t.sequence⟩ ∉ canceling) then some (t.restart ops now)
  else none

theorem resetExpired_heap (es : List Entry) {q q' : TimerQueue} {now : Timestamp}
    (ho : q.Owns (es.map Entry.second)) (h : q.resetExpired ops now es = .ok q') (a : ℕ) :
    q'.heap a = if a ∈ es.map Entry.second then
      (q.heap a).bind (rearm ops q.cancelingTimers now a) else q.heap a := by
  induction es generalizing q with
  | nil =>
    cases h
    rfl
  | cons e es ih =>
    rw [List.map_cons] at ho
    obtain ⟨t, ht⟩ := ho.held_live _ List.mem_cons_self
    have hnd := (List.nodup_cons.mp ho.held_nodup).1
    -- the head of the batch, and then the rest with the others where they were
    have hsplit : ∀ {q₁ : TimerQueue} {o : Option Timer}, q₁.Owns (es.map Entry.second) →
        q₁.heap = Function.update q.heap e.second o → q₁.cancelingTimers = q.cancelingTimers →
        o = rearm ops q.cancelingTimers now e.second t →
        q₁.resetExpired ops now es = .ok q' →
        q'.heap a = if a ∈ (e::es).map Entry.second then
          (q.heap a).bind (rearm ops q.cancelingTimers now a) else q.heap a := by
      intro q₁ o ho₁ hh hc hoe hr
      rw [ih ho₁ hr, hh, hc, List.map_cons]
      by_cases ha : a = e.second
      · subst ha
        simp [hnd, ht, hoe]
      · simp [ha]
    by_cases hrep : (t.repeat_ &&
        decide (TimerId.active ⟨e.second, t.sequence⟩ ∉ q.cancelingTimers)) = true
    · obtain ⟨ho₁, heq⟩ := resetExpired_restart ho ht hrep
      rw [heq] at h
      exact hsplit ho₁ rfl rfl (by rw [rearm, if_pos hrep]) h
    · obtain ⟨q₁, rfl, ho₁, heq⟩ := resetExpired_delete ho ht hrep
      rw [heq] at h
      exact hsplit ho₁ rfl rfl (by rw [rearm, if_neg hrep]) h

theorem finishRead_heap {q q' : TimerQueue} {b : Batch} (hb : q.batch = some b) (hi : q.Inv)
    {clock : Timestamp} (h : q.finishRead ops clock = .ok q') (a : ℕ) :
    q'.batch = none ∧ q'.ran = q.ran ∧
    q'.heap a = if a ∈ b.expired.map Entry.second then
      (q.heap a).bind (rearm ops q.cancelingTimers b.now a) else q.heap a := by
  have ho : Owns { q with callingExpiredTimers := false } (b.expired.map Entry.second) :=
    (held_eq hb ▸ hi.owns).frame rfl rfl rfl rfl rfl
  obtain ⟨q₁, hq₁, hr, heq⟩ := finishRead_eq ops hb (held_eq hb ▸ hi.owns) clock
  have hheap := resetExpired_heap b.expired ho hq₁ a
  cases heq.symm.trans h
  by_cases hv : ops.valid q₁.nextExpire = true
  · simp only [hv, if_true]
    exact ⟨trivial, hr.ran, hheap⟩
  · simp only [hv, Bool.false_eq_true, if_false]
    exact ⟨trivial, hr.ran, hheap⟩

end Reset

section Steps
variable {ops : TimestampOps} {q q' : TimerQueue}

theorem addTimer_fate (hi : q.Inv) {timer : ℕ} {when clock : Timestamp} {interval : Seconds}
    {sequence : ℤ} (he : q.Enabled (.addTimer timer when interval sequence clock))
    (hs : step ops q (.addTimer timer when interval sequence clock) = .ok q') (id : TimerId) :
    q'.fate id = if id = ⟨timer, sequence⟩ then
      { q.fate id with place := .queued (.construct when interval sequence) } else q.fate id := by
  have heq := addTimer_of ops hi he
  obtain ⟨q₁, h₁, hi'⟩ := step_inv ops hi he
  cases h₁.symm.trans hs
  obtain ⟨-, hfree, -, -⟩ := he
  obtain ⟨hh, -, -, -, hc, hb, -, -, hran⟩ := added_frame
    (q.new timer (.construct when interval sequence)) timer (.construct when interval sequence)
    clock
  cases heq.symm.trans hs
  generalize hq' : added (q.new timer (.construct when interval sequence)) timer
    (.construct when interval sequence) clock = q' at hh hc hb hran hi' ⊢
  have hheap : q'.heap = Function.update q.heap timer (some (.construct when interval sequence)) :=
    hh
  by_cases hid : id = ⟨timer, sequence⟩
  · subst hid
    have hlive : q'.live? ⟨timer, sequence⟩ = some (.construct when interval sequence) := by
      rw [live?_eq_some, hheap]
      exact ⟨Function.update_self _ _ _, rfl⟩
    have hdead : ¬q.Live ⟨timer, sequence⟩ := by
      intro ⟨t, ht, _⟩
      cases hfree.symm.trans ht
    have hheld : timer ∉ q'.held := by
      intro hm
      rw [held, hb] at hm
      obtain ⟨t, ht⟩ := hi.owns.held_live timer hm
      cases hfree.symm.trans ht
    rw [if_pos rfl, fate_queued hi' hlive hheld, fate_of_not_live hdead, hran]
    rfl
  · rw [if_neg hid]
    refine fate_congr ?_ hb ?_ hran
    · by_cases ha : id.timer = timer
      · have hold : q.live? id = none := by
          rw [live?, ha, hfree]
          rfl
        rw [hold, live?, hheap, ha, Function.update_self]
        refine Option.filter_eq_none_iff.mpr (fun t ht => ?_)
        cases ht
        simp only [decide_eq_true_eq]
        intro (he : sequence = id.sequence)
        exact hid (by rw [← ha, he])
      · refine live?_congr ?_
        rw [hheap, Function.update_of_ne ha]
    · rw [hc]
      rfl

theorem cancelled_fate (hi : q.Inv) {timerId : TimerId} {t : Timer}
    (ht : q.heap timerId.timer = some t) (hm : timerId.active ∈ q.activeTimers) (id : TimerId) :
    (q.cancelled timerId t).fate id =
      if timerId = id then (q.fate id).cancel else q.fate id := by
  obtain ⟨hheld, hl⟩ := (hi.owns.mem_active timerId).mp hm
  have hheap : (q.cancelled timerId t).heap = Function.update q.heap timerId.timer none := rfl
  by_cases hid : timerId = id
  · subst hid
    have hold : q.live? timerId = some t := live?_eq_some.mpr ⟨ht, live_unique ht hl⟩
    have hdead : ¬(q.cancelled timerId t).Live timerId := by
      intro ⟨u, hu, _⟩
      rw [hheap, Function.update_self] at hu
      cases hu
    rw [if_pos rfl, fate_of_not_live hdead, fate_queued hi hold hheld]
    rfl
  · rw [if_neg hid]
    refine fate_congr ?_ rfl Iff.rfl rfl
    by_cases ha : id.timer = timerId.timer
    · -- the address belongs to the cancelled timer and to no other
      have hold : q.live? id = none := by
        rw [live?_eq_none]
        intro hl'
        have h₁ := live_unique (ha ▸ ht) hl'
        have h₂ := live_unique ht hl
        apply hid
        cases id
        cases timerId
        simp_all
      rw [hold, live?, hheap, ha, Function.update_self]
      rfl
    · exact live?_congr (by rw [hheap, Function.update_of_ne ha])

theorem canceling_fate (hi : q.Inv) {timerId : TimerId} (hn : timerId.active ∉ q.activeTimers)
    (id : TimerId) :
    fate { q with cancelingTimers :=
      if q.callingExpiredTimers then q.cancelingTimers.insert timerId.active
      else q.cancelingTimers } id = if timerId = id then (q.fate id).cancel else q.fate id := by
  by_cases hid : timerId = id
  · subst hid
    rw [if_pos rfl]
    by_cases hl : q.Live timerId
    · have hheld : timerId.timer ∈ q.held := by
        by_contra h
        exact hn ((hi.owns.mem_active timerId).mpr ⟨h, hl⟩)
      obtain ⟨t, ht⟩ := Option.isSome_iff_exists.mp (live?_isSome.mpr hl)
      have hcall := hi.calling
      cases hqb : q.batch with
      | none =>
        exact absurd hheld (not_held hqb _)
      | some b =>
        rw [held_eq hqb] at hheld
        rw [hqb, Option.isSome_some] at hcall
        simp only [fate, place, dueNow, live?] at ht ⊢
        simp only [hqb, ht, hheld, hcall, if_true, Fate.cancel, SortedSet.mem_insert, true_or,
          decide_true]
    · rw [fate_of_not_live hl]
      exact fate_of_not_live hl
  · rw [if_neg hid]
    refine fate_congr rfl rfl ?_ rfl
    split_ifs
    · rw [SortedSet.mem_insert, active_inj]
      exact ⟨fun h => h.resolve_left (fun he => hid he.symm), Or.inr⟩
    · exact Iff.rfl

theorem cancel_fate (hi : q.Inv) {timerId : TimerId} (hs : q.cancelInLoop timerId = .ok q')
    (id : TimerId) : q'.fate id = if timerId = id then (q.fate id).cancel else q.fate id := by
  rcases cancelInLoop_of hi.owns timerId with ⟨t, ht, hm, heq⟩ | ⟨hn, heq⟩
  · cases heq.symm.trans hs
    exact cancelled_fate hi ht hm id
  · cases heq.symm.trans hs
    exact canceling_fate hi hn id

theorem handleRead_fate (hi : q.Inv) {now : Timestamp} (hb : q.batch = none)
    (hs : q.handleRead now = .ok q') (id : TimerId) :
    q'.fate id = (q.fate id).expire now := by
  have ho : q.Owns [] := held_nil hb ▸ hi.owns
  obtain ⟨active, heq, -⟩ := handleRead_of ho now
  cases heq.symm.trans hs
  by_cases hl : q.Live id
  swap
  · rw [fate_of_not_live hl]
    exact fate_of_not_live hl
  obtain ⟨t, ht⟩ := Option.isSome_iff_exists.mp (live?_isSome.mpr hl)
  have hheap := (live?_eq_some.mp ht).1
  have hold : q.fate id = ⟨.queued t, q.ran.count id⟩ := fate_queued hi ht (not_held hb _)
  have hmem : id.timer ∈ (q.due now).map Entry.second ↔ t.expiration ≤ now := by
    rw [List.mem_map]
    constructor
    · intro ⟨e, he, hes⟩
      obtain ⟨hm, hle⟩ := (mem_due ho).mp he
      obtain ⟨-, u, hu, hue⟩ := (ho.mem_timers e.first e.second).mp hm
      rw [hes, hheap] at hu
      cases hu
      rwa [hue]
    · intro hle
      refine ⟨⟨t.expiration, id.timer⟩, (mem_due ho).mpr ⟨?_, hle⟩, rfl⟩
      exact (ho.mem_timers _ _).mpr ⟨List.not_mem_nil, t, hheap, rfl⟩
  rw [hold, Fate.expire]
  simp only [fate, place, dueNow, live?] at ht ⊢
  by_cases hle : t.expiration ≤ now
  · simp [ht, hmem, hle]
  · simp [ht, hmem, hle]

theorem runNext_fate (hi : q.Inv) (he : q.Enabled .runNext) (hs : q.runNext = .ok q')
    (id : TimerId) : q'.fate id = q.fate id := by
  obtain ⟨es, e, pending, now, hb⟩ := pending_of_enabled he
  obtain ⟨t, ht, heq⟩ := runNext_of hi hb
  cases heq.symm.trans hs
  have hnd : e.second ∉ pending.map Entry.second := by
    have hnd := hi.owns.held_nodup
    rw [held_eq hb] at hnd
    have hsub := ((hi.suffix _ hb).sublist.map Entry.second).nodup hnd
    exact (List.nodup_cons.mp hsub).1
  by_cases hl : q.Live id
  swap
  · have hne : ⟨e.second, t.sequence⟩ ≠ id := by
      intro h
      exact hl ⟨t, by rw [← h]; exact ht, by rw [← h]⟩
    have hl' : ¬Live { q with
        batch := some ⟨es, pending, now⟩, ran := q.ran ++ [⟨e.second, t.sequence⟩] } id := hl
    rw [fate_of_not_live hl, fate_of_not_live hl', List.count_append, List.count_singleton,
      if_neg (by simpa using hne), Nat.add_zero]
  obtain ⟨u, hu⟩ := Option.isSome_iff_exists.mp (live?_isSome.mpr hl)
  obtain ⟨hheap, hseq⟩ := live?_eq_some.mp hu
  simp only [fate, place, dueNow, live?, hb, List.count_append, List.count_singleton] at hu ⊢
  simp only [hu]
  by_cases ha : id.timer = e.second
  · -- its turn has come: one callback more has been run and one less is due
    rw [ha, ht] at hheap
    cases hheap
    have hid : (⟨e.second, t.sequence⟩ : TimerId) = id := by rw [← ha, hseq]
    simp [hid, ha, hnd]
  · have hne : (⟨e.second, t.sequence⟩ : TimerId) ≠ id := fun h => ha (by rw [← h])
    simp [hne, ha]

theorem finishRead_fate (hi : q.Inv) {clock : Timestamp} (he : q.Enabled (.finishRead clock))
    (hs : q.finishRead ops clock = .ok q') (id : TimerId) :
    q'.fate id = (q.fate id).reset ops := by
  obtain ⟨b, hb, hp⟩ := batch_of_any he
  obtain ⟨hnone, hran, hheap⟩ := finishRead_heap hb hi hs id.timer
  have hpend : b.pending = [] := of_decide_eq_true hp
  have hdue : q.dueNow id = 0 := by
    rw [dueNow, hb]
    cases q.live? id with
    | none => rfl
    | some u => simp [hpend]
  have hfate : q'.fate id = ⟨q'.place id, q.ran.count id⟩ := by
    rw [fate, dueNow_of_batch hnone, hran]
    rfl
  rw [hfate, fate, hdue, Nat.add_zero]
  by_cases hl : q.Live id
  swap
  · -- an address that was free, or another timer's, is not this timer's now
    have hl' : ¬q'.Live id := by
      intro ⟨t, ht, hseq⟩
      rw [hheap] at ht
      split_ifs at ht with hm
      · obtain ⟨u, hu, hr⟩ := Option.bind_eq_some_iff.mp ht
        rw [rearm] at hr
        split_ifs at hr
        cases hr
        exact hl ⟨u, hu, hseq⟩
      · exact hl ⟨t, ht, hseq⟩
    rw [place_absent.mpr hl, place_absent.mpr hl']
    rfl
  obtain ⟨t, ht⟩ := Option.isSome_iff_exists.mp (live?_isSome.mpr hl)
  obtain ⟨hold, hseq⟩ := live?_eq_some.mp ht
  have hactive : TimerId.active ⟨id.timer, t.sequence⟩ = id.active := by
    rw [active_inj, hseq]
  by_cases hm : id.timer ∈ b.expired.map Entry.second
  · have hplace : q.place id = .expired t b.now (decide (id.active ∈ q.cancelingTimers)) := by
      simp only [place, ht, hb, hm, if_true]
    rw [if_pos hm, hold, Option.bind_some, rearm, hactive] at hheap
    rw [hplace, Fate.reset]
    by_cases hrep : (t.repeat_ && decide (id.active ∉ q.cancelingTimers)) = true
    · rw [if_pos hrep] at hheap
      have hrep' : (t.repeat_ && !decide (id.active ∈ q.cancelingTimers)) = true := by
        simpa using hrep
      rw [if_pos hrep',
        place_queued.mpr ⟨live?_eq_some.mpr ⟨hheap, hseq⟩, not_held hnone _⟩]
    · rw [if_neg hrep] at hheap
      have hrep' : ¬(t.repeat_ && !decide (id.active ∈ q.cancelingTimers)) = true := by
        simpa using hrep
      have hdead : ¬q'.Live id := by
        intro ⟨u, hu, _⟩
        cases hheap.symm.trans hu
      rw [if_neg hrep', place_absent.mpr hdead]
  · rw [if_neg hm] at hheap
    have hplace : q.place id = .queued t :=
      place_queued.mpr ⟨ht, by rw [held_eq hb]; exact hm⟩
    rw [hplace,
      place_queued.mpr ⟨live?_eq_some.mpr ⟨hheap.trans hold, hseq⟩, not_held hnone _⟩]
    rfl

theorem step_fate (hi : q.Inv) {a : Action} (he : q.Enabled a) (hs : step ops q a = .ok q')
    (id : TimerId) : q'.fate id = ((lifeEvent id a).toList).foldl (Fate.live ops) (q.fate id) := by
  cases a with
  | addTimer timer when interval sequence clock =>
    rw [addTimer_fate hi he hs, lifeEvent]
    split_ifs <;> rfl
  | cancel timerId =>
    rw [cancel_fate hi hs, lifeEvent]
    split_ifs <;> rfl
  | handleRead now => exact handleRead_fate hi he hs id
  | runNext => exact runNext_fate hi he hs id
  | finishRead clock => exact finishRead_fate hi he hs id
  | fire =>
    cases hs
    exact fate_congr rfl rfl Iff.rfl rfl

/-- In every run the fate of a timer is what its lifeline says. -/
theorem run_fate (hi : q.Inv) {as : List Action} (ha : Admitted (step ops) Enabled q as)
    (hr : run (step ops) q as = .ok q') (id : TimerId) :
    q'.fate id = (lifeline id as).foldl (Fate.live ops) (q.fate id) := by
  induction as generalizing q with
  | nil =>
    cases hr
    rfl
  | cons a as ih =>
    obtain ⟨q₁, h₁, hi₁, ht⟩ := run_cons_inv hi ha.1 hr
    rw [ih hi₁ (ha.2 q₁ h₁) ht, step_fate hi ha.1 h₁, ← List.foldl_append, lifeline, lifeline,
      List.filterMap_cons]
    cases lifeEvent id a <;> rfl

end Steps

end Lux.Polaris.TimerQueue
