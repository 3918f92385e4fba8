import LuxPolaris.TimerRuns

/-!
# Arming the timer descriptor

`addTimerInLoop` arms for a new earliest entry, `reset` arms for whatever is
earliest once the batch is done, unless that is not `valid()`. Inside a batch
the earliest entry need not be covered; one at or before the epoch is, because
only a callback can have put it there. That is what `reset` falls back on.
-/

set_option autoImplicit false

namespace Lux.Polaris.TimerQueue
open Outcome

/-- The descriptor will wake the loop no later than an expiration at `w`. -/
def Covers (fd : Timerfd) (w : Timestamp) : Prop :=
  (fd.armed ≠ none ∨ fd.unread = true) ∧ ∀ l, fd.armed = some l → l ≤ w

/-- An `it_value` that `timerfd_settime` accepts and that does not disarm. -/
def ValidSetting (s : Timespec) : Prop :=
  0 ≤ s.tv_sec ∧ 0 ≤ s.tv_nsec ∧ s.tv_nsec < 1000000000 ∧ (s.tv_sec ≠ 0 ∨ s.tv_nsec ≠ 0)

structure Arming (q : TimerQueue) : Prop where
  covered : ∀ e ∈ q.timers, q.batch = none ∨ e.first ≤ 0 → Covers q.timerfd e.first
  batch_now : ∀ b, q.batch = some b → 0 < b.now
  settings : ∀ s ∈ q.timerfd.settings, ValidSetting s

def RestartsInRange (q : TimerQueue) : Prop :=
  q.batch.all (fun b => b.expired.all fun e => (q.heap e.second).all fun t =>
    !t.repeat_ || decide ((b.now : ℚ)+t.interval*1000000 < 2^63)) = true

instance (q : TimerQueue) : Decidable q.RestartsInRange := inferInstanceAs (Decidable (_ = true))

/-- Every reading of the clock is positive. -/
def Clocked (q : TimerQueue) : Action → Prop
  | .addTimer _ _ _ _ clock => 0 < clock
  | .handleRead now => 0 < now
  | .finishRead clock => 0 < clock ∧ q.RestartsInRange
  | _ => True

instance (q : TimerQueue) : (a : Action) → Decidable (q.Clocked a)
  | .addTimer _ _ _ _ clock => inferInstanceAs (Decidable (0 < clock))
  | .handleRead now => inferInstanceAs (Decidable (0 < now))
  | .finishRead _ => inferInstanceAs (Decidable (_ ∧ _))
  | .cancel _ => isTrue trivial
  | .runNext => isTrue trivial
  | .fire => isTrue trivial

theorem Covers.mono {fd : Timerfd} {w w' : Timestamp} (h : Covers fd w) (hw : w ≤ w') :
    Covers fd w' :=
  ⟨h.1, fun l hl => le_trans (h.2 l hl) hw⟩

theorem howMuchTimeFromNow_valid (when clock : Timestamp) :
    ValidSetting (howMuchTimeFromNow when clock) := by
  have hm : 100 ≤ (if int64 (when-clock) < 100 then 100 else int64 (when-clock)) := by
    split_ifs with h
    · exact le_refl _
    · exact not_lt.mp h
  unfold ValidSetting howMuchTimeFromNow kMicroSecondsPerSecond
  simp only
  generalize (if int64 (when-clock) < 100 then (100 : ℤ) else int64 (when-clock)) = m at hm
  rw [Int.tdiv_eq_ediv_of_nonneg (by omega), Int.tmod_eq_emod_of_nonneg (by omega)]
  omega

theorem resetTimerfd_covers {q : TimerQueue} {w w' : Timestamp} (h : w ≤ w')
    (clock : Timestamp) : Covers (q.resetTimerfd w clock).timerfd w' := by
  refine ⟨Or.inl (by simp [resetTimerfd]), fun l hl => ?_⟩
  cases hl
  exact h

theorem resetTimerfd_settings {q : TimerQueue} (h : ∀ s ∈ q.timerfd.settings, ValidSetting s)
    (w clock : Timestamp) : ∀ s ∈ (q.resetTimerfd w clock).timerfd.settings, ValidSetting s := by
  intro s hs
  rcases List.mem_append.mp hs with hm | hm
  · exact h s hm
  · rw [List.mem_singleton.mp hm]
    exact howMuchTimeFromNow_valid w clock

section Steps
variable {ops : TimestampOps}
  (hadd : ∀ (now : Timestamp) (s : Seconds), 0 < now → 0 < s → (now : ℚ)+s*1000000 < 2^63 →
    now ≤ ops.addTime now s)
  (hvalid : ∀ t : Timestamp, 0 < t → ops.valid t = true)

theorem added_arming {q : TimerQueue} (hr : q.Arming) (a : ℕ) (t : Timer) (clock : Timestamp) :
    (q.added a t clock).Arming := by
  obtain ⟨-, ht, -, -, -, hb, -, -, -⟩ := added_frame q a t clock
  refine ⟨?_, by rw [hb]; exact hr.batch_now, ?_⟩
  · rw [hb, ht]
    intro e he hc
    rw [inserted, SortedSet.mem_insert] at he
    unfold added
    split_ifs with hall
    · apply resetTimerfd_covers
      rcases he with he | he
      · rw [he]
      · cases hm : q.timers.begin? with
        | none => exact absurd he (SortedSet.begin?_eq_none.mp hm e)
        | some m =>
          have hle := first_le_of_le ((SortedSet.begin?_spec hm).2 e he)
          simp only [hm, Option.all_some, decide_eq_true_eq] at hall
          exact le_trans (le_of_lt hall) hle
    · rcases he with he | he
      · cases hm : q.timers.begin? with
        | none => simp [hm] at hall
        | some m =>
          simp only [hm, Option.all_some, decide_eq_true_eq, not_lt] at hall
          rw [he] at hc ⊢
          have hcm := hr.covered m (SortedSet.begin?_spec hm).1
            (hc.imp_right (fun h => le_trans hall h))
          exact hcm.mono hall
      · exact hr.covered e he hc
  · unfold added
    split_ifs
    · exact resetTimerfd_settings hr.settings _ _
    · exact hr.settings

include hadd hvalid

/-- After the batch the earliest entry is armed for; one that is not `valid()`
was put there, and covered, by a callback. -/
theorem restored_arming {q q₁ : TimerQueue} {b : Batch} (hr : q.Arming)
    (hb : q.batch = some b) (hrange : q.RestartsInRange)
    (h₁ : Restored ops { q with callingExpiredTimers := false } b.now b.expired q₁)
    (clock : Timestamp) :
    Arming { (if ops.valid q₁.nextExpire then q₁.resetTimerfd q₁.nextExpire clock else q₁) with
      batch := none } := by
  have hset : ∀ s ∈ q₁.timerfd.settings, ValidSetting s := by
    rw [h₁.timerfd]
    exact hr.settings
  have hkey : ∀ e ∈ q₁.timers, e.first ≤ 0 → Covers q₁.timerfd e.first := by
    intro e he hle
    rw [h₁.timerfd]
    rcases h₁.timers e he with hm | ⟨t, ht, hm, hrep, hf⟩
    · exact hr.covered e hm (Or.inr hle)
    · have hnow := hr.batch_now b hb
      obtain ⟨d, hd, hde⟩ := List.mem_map.mp hm
      simp only [RestartsInRange, hb, Option.all_some, List.all_eq_true] at hrange
      have hlt := hrange d hd
      rw [hde] at hlt
      simp only at ht
      simp only [ht, Option.all_some, hrep, Bool.not_true, Bool.false_or,
        decide_eq_true_eq] at hlt
      have hge := hadd b.now t.interval hnow (t.repeat_iff.mp hrep) hlt
      rw [hf] at hle
      exact absurd (le_trans hge hle) (not_le.mpr hnow)
  have hmin : ∀ e ∈ q₁.timers, q₁.nextExpire ≤ e.first ∧
      ∃ m ∈ q₁.timers, m.first = q₁.nextExpire := by
    intro e he
    cases hm : q₁.timers.begin? with
    | none => exact absurd he (SortedSet.begin?_eq_none.mp hm e)
    | some m =>
      obtain ⟨hmem, hle⟩ := SortedSet.begin?_spec hm
      have hnext : q₁.nextExpire = m.first := by simp [nextExpire, hm]
      exact ⟨hnext ▸ first_le_of_le (hle e he), m, hmem, hnext.symm⟩
  split_ifs with hv
  · exact ⟨fun e he _ => resetTimerfd_covers (hmin e he).1 clock, fun _ h => (by cases h),
      resetTimerfd_settings hset _ _⟩
  · refine ⟨fun e he _ => ?_, fun _ h => (by cases h), hset⟩
    obtain ⟨hle, m, hm, hmf⟩ := hmin e he
    have hneg : m.first ≤ 0 := by
      by_contra hpos
      exact hv (hvalid _ (hmf ▸ not_le.mp hpos))
    exact (hkey m hm hneg).mono (hmf ▸ hle)

theorem step_arming {q q' : TimerQueue} (hi : q.Inv) (hr : q.Arming) {a : Action}
    (he : q.Enabled a) (hc : q.Clocked a) (hs : step ops q a = .ok q') :
    q'.Arming := by
  cases a with
  | addTimer timer when interval sequence clock =>
    cases (addTimer_of ops hi he).symm.trans hs
    have hnew : (q.new timer (.construct when interval sequence)).Arming :=
      ⟨hr.covered, hr.batch_now, hr.settings⟩
    exact added_arming hnew _ _ _
  | cancel id =>
    rcases cancelInLoop_of hi.owns id with ⟨t, ht, hm, heq⟩ | ⟨hn, heq⟩
    · cases heq.symm.trans hs
      exact ⟨fun e hmem => hr.covered e (SortedSet.mem_erase.mp hmem).2, hr.batch_now, hr.settings⟩
    · cases heq.symm.trans hs
      exact ⟨hr.covered, hr.batch_now, hr.settings⟩
  | handleRead now =>
    have ho : q.Owns [] := held_nil he ▸ hi.owns
    obtain ⟨active, heq, -⟩ := handleRead_of ho now
    cases heq.symm.trans hs
    refine ⟨?_, ?_, hr.settings⟩
    · intro e hmem hcase
      have hle : now ≤ e.first := first_le_of_le (SortedSet.mem_from.mp hmem).2
      have hpos : 0 < now := hc
      rcases hcase with h | h
      · cases h
      · exact absurd (le_trans hle h) (not_le.mpr hpos)
    · intro b hb
      cases hb
      exact hc
  | runNext =>
    obtain ⟨es, e, pending, now, hb⟩ := pending_of_enabled he
    obtain ⟨t, -, heq⟩ := runNext_of hi hb
    cases heq.symm.trans hs
    refine ⟨?_, ?_, hr.settings⟩
    · intro d hd hcase
      rcases hcase with h | h
      · cases h
      · exact hr.covered d hd (Or.inr h)
    · intro b hb'
      cases hb'
      exact hr.batch_now ⟨es, e::pending, now⟩ hb
  | finishRead clock =>
    obtain ⟨b, hb, -⟩ := batch_of_any he
    obtain ⟨q₁, h₁, heq⟩ := finishRead_of ops hb (held_eq hb ▸ hi.owns) clock
    cases heq.symm.trans hs
    exact restored_arming hadd hvalid hr hb hc.2 h₁ clock
  | fire =>
    cases hs
    exact ⟨fun e _ _ => ⟨Or.inr rfl, fun _ h => nomatch h⟩, hr.batch_now, hr.settings⟩

end Steps

theorem construct_arming : construct.Arming := by
  refine ⟨?_, ?_, ?_⟩
  · intro e he
    exact absurd he (SortedSet.not_mem_empty e)
  · intro b hb
    cases hb
  · intro s hs
    exact absurd hs List.not_mem_nil

/-- Every run with positive clock readings. Between loop callbacks a queue
with timers is armed, no later than for the earliest of them, or has an unread
expiration; and the descriptor was never armed with a bad `it_value`. -/
theorem no_timer_stranded (ops : TimestampOps)
    (hadd : ∀ (now : Timestamp) (s : Seconds), 0 < now → 0 < s →
      (now : ℚ)+s*1000000 < 2^63 → now ≤ ops.addTime now s)
    (hvalid : ∀ t : Timestamp, 0 < t → ops.valid t = true) (as : List Action) (q : TimerQueue)
    (ha : Admitted (step ops) (fun q a => q.Enabled a ∧ q.Clocked a) construct as)
    (hr : run (step ops) construct as = .ok q) :
    (q.batch = none → (∃ e, e ∈ q.timers) →
      (q.timerfd.armed ≠ none ∨ q.timerfd.unread = true) ∧
      ∀ l, q.timerfd.armed = some l → ∀ e ∈ q.timers, l ≤ e.first) ∧
    ∀ s ∈ q.timerfd.settings, ValidSetting s := by
  have hy : Yields (run (step ops) construct as) (fun q => q.Inv ∧ q.Arming) (fun _ => True) := by
    refine run_yields (fun q a => q.Enabled a ∧ q.Clocked a) (fun s a hs hc => ?_) as construct
      ⟨construct_inv, construct_arming⟩ ha
    obtain ⟨s', heq, hi'⟩ := step_inv ops hs.1 hc.1
    rw [heq]
    exact (yields_ok _ _ _).mpr ⟨hi', step_arming hadd hvalid hs.1 hs.2 hc.1 hc.2 heq⟩
  have harm := (hy.ok hr).2
  refine ⟨fun hb hne => ?_, harm.settings⟩
  obtain ⟨e, he⟩ := hne
  have hcov := fun d hd => harm.covered d hd (Or.inl hb)
  exact ⟨(hcov e he).1, fun l hl d hd => (hcov d hd).2 l hl⟩

theorem no_timer_stranded_epoch :
    ∃ q, run (step microsecondOps) construct [.addTimer 16 5 2 1 3, .fire, .handleRead 7, .runNext,
        .addTimer 32 0 0 2 8, .finishRead 8] = .ok q ∧
      (q.timerfd.armed ≠ none ∨ q.timerfd.unread = true) ∧
      ∀ l, q.timerfd.armed = some l → ∀ e ∈ q.timers, l ≤ e.first := by
  have hadd : ∀ (now : Timestamp) (s : Seconds), 0 < now → 0 < s →
      (now : ℚ)+s*1000000 < 2^63 → now ≤ microsecondOps.addTime now s := by
    intro now s _ hs _
    have hfloor : 0 ≤ (s*1000000).floor :=
      Rat.le_floor_iff.mpr (Rat.mul_nonneg (Rat.le_of_lt hs) (by decide))
    exact Int.le_add_of_nonneg_right hfloor
  have hrun : (fun q => (q.batch, decide (⟨0, 32⟩ ∈ q.timers))) <$>
      run (step microsecondOps) construct [.addTimer 16 5 2 1 3, .fire, .handleRead 7, .runNext,
        .addTimer 32 0 0 2 8, .finishRead 8] = .ok (none, true) := by decide +kernel
  obtain ⟨q, hq, hp⟩ := map_ok.mp hrun
  rw [Prod.mk.injEq, decide_eq_true_eq] at hp
  exact ⟨q, hq, (no_timer_stranded microsecondOps hadd (fun t ht => decide_eq_true ht) _ q
    (by decide +kernel) hq).1 hp.1 ⟨_, hp.2⟩⟩

end Lux.Polaris.TimerQueue
