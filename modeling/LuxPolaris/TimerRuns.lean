import LuxPolaris.TimerExpiry

/-!
# Runs of the timer queue

Every step of the queue succeeds and keeps the invariant, with callbacks
adding and cancelling timers inside a batch; so no run faults, and the sets,
the batch and the freed timers account for every timer.
-/

set_option autoImplicit false

namespace Lux.Polaris.TimerQueue
open Outcome

section Steps
variable {ops : TimestampOps}

theorem Owns.frame {q q' : TimerQueue} {held : List ℕ} (ho : q.Owns held)
    (hh : q'.heap = q.heap) (ht : q'.timers = q.timers) (ha : q'.activeTimers = q.activeTimers)
    (hi : q'.issued = q.issued) (hf : q'.freed = q.freed) : q'.Owns held := by
  have hl : ∀ id, q'.Live id ↔ q.Live id := fun id => by rw [Live, Live, hh]
  refine ⟨by rw [ht, ha]; exact ho.size_eq, by rw [hh]; exact ho.held_live, ho.held_nodup,
    by rw [hh, ht]; exact ho.mem_timers, fun id => ?_, by rw [hh]; exact ho.address_lt,
    fun id => ?_, fun id => ?_, by rw [hf]; exact ho.freed_nodup⟩
  · rw [ha, hl]
    exact ho.mem_active id
  · rw [hi, hl, hf]
    exact ho.ledger id
  · rw [hl, hf]
    exact ho.not_freed id

def added (q : TimerQueue) (a : ℕ) (t : Timer) (clock : Timestamp) : TimerQueue :=
  if q.timers.begin?.all (fun it => decide (t.expiration < it.first)) then
    (q.inserted a t).resetTimerfd t.expiration clock
  else q.inserted a t

theorem addTimerInLoop_of {q : TimerQueue} {held : List ℕ} {a : ℕ} (ho : q.Owns (a::held))
    {t : Timer} (h : q.heap a = some t) (clock : Timestamp) :
    q.addTimerInLoop a clock = .ok (q.added a t clock) := by
  rw [addTimerInLoop, insert_of ho h, ok_bind, added]
  have hd : (q.inserted a t).deref a = .ok t := deref_of h
  split_ifs with he
  · simp only [he, if_true, hd, ok_bind, pure_eq_ok]
  · simp only [he, Bool.false_eq_true, if_false, pure_eq_ok]

theorem added_frame (q : TimerQueue) (a : ℕ) (t : Timer) (clock : Timestamp) :
    (q.added a t clock).heap = q.heap ∧ (q.added a t clock).timers = (q.inserted a t).timers ∧
    (q.added a t clock).activeTimers = (q.inserted a t).activeTimers ∧
    (q.added a t clock).callingExpiredTimers = q.callingExpiredTimers ∧
    (q.added a t clock).cancelingTimers = q.cancelingTimers ∧
    (q.added a t clock).batch = q.batch ∧ (q.added a t clock).issued = q.issued ∧
    (q.added a t clock).freed = q.freed ∧ (q.added a t clock).ran = q.ran := by
  unfold added
  split_ifs
  · exact ⟨rfl, rfl, rfl, rfl, rfl, rfl, rfl, rfl, rfl⟩
  · exact ⟨rfl, rfl, rfl, rfl, rfl, rfl, rfl, rfl, rfl⟩

variable (ops) in
theorem addTimer_of {q : TimerQueue} (hi : q.Inv) {timer : ℕ} {when clock : Timestamp}
    {interval : Seconds} {sequence : ℤ}
    (he : q.Enabled (.addTimer timer when interval sequence clock)) :
    step ops q (.addTimer timer when interval sequence clock) =
      .ok ((q.new timer (.construct when interval sequence)).added timer
        (.construct when interval sequence) clock) := by
  obtain ⟨-, hfree, hlt, hseq⟩ := he
  have ho := new_owns hi.owns (.construct when interval sequence) hfree hlt hseq
  exact addTimerInLoop_of ho (new_heap_self q timer (.construct when interval sequence)) clock

theorem handleRead_of {q : TimerQueue} (ho : q.Owns []) (now : Timestamp) :
    ∃ active, q.handleRead now = .ok { q with
        timerfd := { q.timerfd with unread := false }
        timers := q.timers.from_ ⟨now, UINTPTR_MAX⟩
        activeTimers := active
        callingExpiredTimers := true
        cancelingTimers := .empty
        batch := some ⟨q.due now, q.due now, now⟩ } ∧
      Owns { q with timers := q.timers.from_ ⟨now, UINTPTR_MAX⟩, activeTimers := active }
        ((q.due now).map Entry.second) := by
  have hr : q.readTimerfd.Owns [] := ho.frame rfl rfl rfl rfl rfl
  obtain ⟨active, heq, hown⟩ := getExpired_of hr now
  refine ⟨active, ?_, hown.frame rfl rfl rfl rfl rfl⟩
  rw [handleRead, heq, ok_bind]
  rfl

theorem held_eq {q : TimerQueue} {b : Batch} (hb : q.batch = some b) :
    q.held = b.expired.map Entry.second := by
  rw [held, hb]

theorem held_nil {q : TimerQueue} (hb : q.batch = none) : q.held = [] := by
  rw [held, hb]

theorem not_held {q : TimerQueue} (hb : q.batch = none) (a : ℕ) : a ∉ q.held := by
  rw [held_nil hb]
  exact List.not_mem_nil

theorem batch_of_any {q : TimerQueue} {p : Batch → Bool} (h : q.batch.any p = true) :
    ∃ b, q.batch = some b ∧ p b = true := by
  cases hb : q.batch with
  | none => simp [hb] at h
  | some b => exact ⟨b, rfl, by simpa [hb] using h⟩

theorem pending_of_enabled {q : TimerQueue} (h : q.Enabled .runNext) :
    ∃ es e pending now, q.batch = some ⟨es, e::pending, now⟩ := by
  obtain ⟨⟨es, pending, now⟩, hb, hp⟩ := batch_of_any h
  cases pending with
  | nil => simp at hp
  | cons e pending => exact ⟨es, e, pending, now, hb⟩

theorem runNext_of {q : TimerQueue} (hi : q.Inv) {es pending : List Entry} {e : Entry}
    {now : Timestamp} (hb : q.batch = some ⟨es, e::pending, now⟩) :
    ∃ t, q.heap e.second = some t ∧ q.runNext = .ok { q with
      batch := some ⟨es, pending, now⟩, ran := q.ran ++ [⟨e.second, t.sequence⟩] } := by
  have hmem : e.second ∈ q.held := by
    rw [held_eq hb]
    exact List.mem_map_of_mem ((hi.suffix _ hb).subset List.mem_cons_self)
  obtain ⟨t, ht⟩ := hi.owns.held_live _ hmem
  refine ⟨t, ht, ?_⟩
  simp only [runNext, hb, deref_of ht, ok_bind, pure_eq_ok]

variable (ops) in
theorem finishRead_eq {q : TimerQueue} {b : Batch} (hb : q.batch = some b)
    (ho : q.Owns (b.expired.map Entry.second)) (clock : Timestamp) :
    ∃ q₁, resetExpired ops { q with callingExpiredTimers := false } b.now b.expired = .ok q₁ ∧
      Restored ops { q with callingExpiredTimers := false } b.now b.expired q₁ ∧
      q.finishRead ops clock = .ok { (if ops.valid q₁.nextExpire then
        q₁.resetTimerfd q₁.nextExpire clock else q₁) with batch := none } := by
  obtain ⟨q₁, hq₁, hr⟩ := resetExpired_of ops b.expired b.now
    (q := { q with callingExpiredTimers := false }) (ho.frame rfl rfl rfl rfl rfl)
  refine ⟨q₁, hq₁, hr, ?_⟩
  unfold finishRead
  split
  · rename_i b' hb'
    cases hb.symm.trans hb'
    simp only [reset, hq₁, ok_bind, readNextExpire_of hr.owns, pure_eq_ok]
  · rename_i hn
    cases hb.symm.trans hn

variable (ops) in
theorem finishRead_of {q : TimerQueue} {b : Batch} (hb : q.batch = some b)
    (ho : q.Owns (b.expired.map Entry.second)) (clock : Timestamp) :
    ∃ q₁, Restored ops { q with callingExpiredTimers := false } b.now b.expired q₁ ∧
      q.finishRead ops clock = .ok { (if ops.valid q₁.nextExpire then
        q₁.resetTimerfd q₁.nextExpire clock else q₁) with batch := none } := by
  obtain ⟨q₁, -, hr, heq⟩ := finishRead_eq ops hb ho clock
  exact ⟨q₁, hr, heq⟩

theorem construct_inv : construct.Inv := by
  refine ⟨⟨rfl, ?_, List.nodup_nil, ?_, ?_, ?_, ?_, ?_, List.nodup_nil⟩, rfl, ?_⟩
  · intro a ha
    exact absurd ha List.not_mem_nil
  · intro w a
    simp [construct]
  · intro id
    simp [construct, Live]
  · intro a t h
    cases h
  · intro id
    simp [construct, Live]
  · intro id h
    simp [construct]
  · intro b hb
    cases hb

variable (ops) in
theorem step_inv {q : TimerQueue} {a : Action} (hi : q.Inv) (he : q.Enabled a) :
    ∃ q', step ops q a = .ok q' ∧ q'.Inv := by
  cases a with
  | addTimer timer when interval sequence clock =>
    obtain ⟨-, hfree, hlt, hseq⟩ := he
    have ho := new_owns hi.owns (.construct when interval sequence) hfree hlt hseq
    have hself := new_heap_self q timer (.construct when interval sequence)
    obtain ⟨hh, ht, ha, hc, -, hb, his, hf, -⟩ := added_frame
      (q.new timer (.construct when interval sequence)) timer (.construct when interval sequence)
      clock
    refine ⟨_, addTimerInLoop_of ho hself clock, ?_, ?_, ?_⟩
    · have hheld : held (added (q.new timer (.construct when interval sequence)) timer
          (.construct when interval sequence) clock) = q.held := by
        rw [held, hb]
        rfl
      rw [hheld]
      exact (inserted_owns ho hself).frame hh ht ha his hf
    · rw [hc, hb]
      exact hi.calling
    · rw [hb]
      exact hi.suffix
  | cancel id =>
    rcases cancelInLoop_of hi.owns id with ⟨t, ht, hm, heq⟩ | ⟨hn, heq⟩
    · exact ⟨_, heq, cancelled_owns hi.owns ht hm, hi.calling, hi.suffix⟩
    · exact ⟨_, heq, hi.owns.frame rfl rfl rfl rfl rfl, hi.calling, hi.suffix⟩
  | handleRead now =>
    have ho : q.Owns [] := held_nil he ▸ hi.owns
    obtain ⟨active, heq, hown⟩ := handleRead_of ho now
    refine ⟨_, heq, hown.frame rfl rfl rfl rfl rfl, rfl, ?_⟩
    intro b hb
    cases hb
    exact List.suffix_rfl
  | runNext =>
    obtain ⟨es, e, pending, now, hb⟩ := pending_of_enabled he
    obtain ⟨t, -, heq⟩ := runNext_of hi hb
    refine ⟨_, heq, ?_, ?_, ?_⟩
    · have ho := hi.owns
      rw [held_eq hb] at ho
      exact ho.frame rfl rfl rfl rfl rfl
    · rw [hi.calling, hb]
      rfl
    · intro b' hb'
      cases hb'
      exact (List.suffix_cons e pending).trans (hi.suffix _ hb)
  | finishRead clock =>
    obtain ⟨b, hb, -⟩ := batch_of_any he
    obtain ⟨q₁, hr, heq⟩ := finishRead_of ops hb (held_eq hb ▸ hi.owns) clock
    refine ⟨_, heq, ?_, ?_, ?_⟩
    · split_ifs
      · exact hr.owns.frame rfl rfl rfl rfl rfl
      · exact hr.owns.frame rfl rfl rfl rfl rfl
    · split_ifs
      · exact hr.callingExpiredTimers
      · exact hr.callingExpiredTimers
    · intro b' hb'
      cases hb'
  | fire => exact ⟨_, rfl, hi.owns.frame rfl rfl rfl rfl rfl, hi.calling, hi.suffix⟩

theorem run_cons_inv {q q' : TimerQueue} (hi : q.Inv) {a : Action} {as : List Action}
    (he : q.Enabled a) (hr : run (step ops) q (a::as) = .ok q') :
    ∃ q₁, step ops q a = .ok q₁ ∧ q₁.Inv ∧ run (step ops) q₁ as = .ok q' := by
  obtain ⟨q₁, h₁, ht⟩ := run_cons_ok.mp hr
  obtain ⟨q₂, h₂, hi₂⟩ := step_inv ops hi he
  cases h₁.symm.trans h₂
  exact ⟨q₁, h₁, hi₂, ht⟩

variable (ops) in
/-- No run of the queue faults, and the invariant holds throughout. -/
theorem run_inv {q : TimerQueue} (hi : q.Inv) {as : List Action}
    (he : Admitted (step ops) Enabled q as) : ∃ q', run (step ops) q as = .ok q' ∧ q'.Inv :=
  run_succeeds Enabled (fun _ _ => step_inv ops) as q hi he

end Steps

section Consistency

def InSets (q : TimerQueue) (id : TimerId) : Prop :=
  id.active ∈ q.activeTimers ∧ ∃ w, ⟨w, id.timer⟩ ∈ q.timers

def InBatch (q : TimerQueue) (id : TimerId) : Prop :=
  ∃ b, q.batch = some b ∧ id.timer ∈ b.expired.map Entry.second ∧ q.Live id

def ExactlyOne (p q r : Prop) : Prop := (p ∧ ¬q ∧ ¬r) ∨ (¬p ∧ q ∧ ¬r) ∨ (¬p ∧ ¬q ∧ r)

structure Consistent (q : TimerQueue) : Prop where
  same : ∀ a, (∃ w, ⟨w, a⟩ ∈ q.timers) ↔ ∃ s, ⟨a, s⟩ ∈ q.activeTimers
  key : ∀ w a, ⟨w, a⟩ ∈ q.timers → ∃ t, q.heap a = some t ∧ t.expiration = w
  sequence : ∀ a s, ⟨a, s⟩ ∈ q.activeTimers → ∃ t, q.heap a = some t ∧ t.sequence = s
  place : ∀ id ∈ q.issued, ExactlyOne (q.InSets id) (q.InBatch id) (id ∈ q.freed)
  freed_once : q.freed.Nodup

theorem inBatch_iff {q : TimerQueue} (id : TimerId) :
    q.InBatch id ↔ id.timer ∈ q.held ∧ q.Live id := by
  rw [InBatch, held]
  cases hb : q.batch with
  | none => simp
  | some b => simp

theorem inSets_iff {q : TimerQueue} (ho : q.Owns q.held) (id : TimerId) :
    q.InSets id ↔ id.timer ∉ q.held ∧ q.Live id := by
  rw [InSets, ho.mem_active]
  constructor
  · exact And.left
  · intro ⟨hn, t, ht, hs⟩
    exact ⟨⟨hn, t, ht, hs⟩, t.expiration, (ho.mem_timers _ _).mpr ⟨hn, t, ht, rfl⟩⟩

theorem inv_consistent {q : TimerQueue} (hi : q.Inv) : q.Consistent := by
  have ho := hi.owns
  refine ⟨?_, ?_, ?_, ?_, ho.freed_nodup⟩
  · intro a
    constructor
    · intro ⟨w, hw⟩
      obtain ⟨hn, t, ht, -⟩ := (ho.mem_timers w a).mp hw
      exact ⟨t.sequence, (ho.mem_active ⟨a, t.sequence⟩).mpr ⟨hn, t, ht, rfl⟩⟩
    · intro ⟨s, hs⟩
      obtain ⟨hn, t, ht, -⟩ := (ho.mem_active ⟨a, s⟩).mp hs
      exact ⟨t.expiration, (ho.mem_timers _ a).mpr ⟨hn, t, ht, rfl⟩⟩
  · exact fun w a h => ((ho.mem_timers w a).mp h).2
  · exact fun a s h => ((ho.mem_active ⟨a, s⟩).mp h).2
  · intro id hid
    rw [inSets_iff ho, inBatch_iff]
    by_cases hl : q.Live id
    · have hf := ho.not_freed id hl
      by_cases hm : id.timer ∈ q.held
      · exact Or.inr (Or.inl ⟨fun h => h.1 hm, ⟨hm, hl⟩, hf⟩)
      · exact Or.inl ⟨⟨hm, hl⟩, fun h => hm h.1, hf⟩
    · have hf := ((ho.ledger id).mp hid).resolve_left hl
      exact Or.inr (Or.inr ⟨fun h => hl h.2, fun h => hl h.2, hf⟩)

/-- Every run of the queue on its loop thread: no assertion fails, no freed
timer is read or freed again, and the two sets, the batch and the freed timers
account for every timer handed in. -/
theorem timers_accounted_for (ops : TimestampOps) (as : List Action)
    (h : Admitted (step ops) Enabled construct as) :
    ∃ q, run (step ops) construct as = .ok q ∧ q.Consistent := by
  obtain ⟨q, hq, hi⟩ := run_inv ops construct_inv h
  exact ⟨q, hq, inv_consistent hi⟩

theorem timers_accounted_for_self_cancel :
    ∃ q, run (step microsecondOps) construct
        [.addTimer 16 5 2 1 3, .fire, .handleRead 7, .runNext, .cancel ⟨16, 1⟩, .finishRead 8,
          .cancel ⟨16, 1⟩] = .ok q ∧ q.Consistent :=
  timers_accounted_for _ _ (by decide +kernel)

end Consistency

end Lux.Polaris.TimerQueue
