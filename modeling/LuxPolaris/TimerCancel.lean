import LuxPolaris.TimerRuns

/-!
# Cancelling a timer

A cancelled timer that is idle is freed at once, and one of the batch whose
callback has run is dropped by `reset`. The loop over the batch does not look
at `cancelingTimers_`, so a timer whose turn is still to come runs all the
same: a cancel is final exactly when the timer is not waiting for its turn.
-/

set_option autoImplicit false

namespace Lux.Polaris.TimerQueue
open Outcome

/-- In the batch being run, with its callback still to come. -/
def Pending (q : TimerQueue) (id : TimerId) : Prop :=
  ∃ b, q.batch = some b ∧ id.timer ∈ b.pending.map Entry.second ∧ q.Live id

/-- In one of the two sets, so that the timer may expire again. -/
def Armed (q : TimerQueue) (id : TimerId) : Prop :=
  id.active ∈ q.activeTimers ∨ q.Live id ∧ ∃ w, ⟨w, id.timer⟩ ∈ q.timers

structure Gone (q : TimerQueue) (id : TimerId) : Prop where
  issued : id ∈ q.issued
  inactive : id.active ∉ q.activeTimers
  past : ¬q.Pending id
  canceling : q.Live id → id.active ∈ q.cancelingTimers

theorem not_armed {q : TimerQueue} (hi : q.Inv) {id : TimerId}
    (h : id.active ∉ q.activeTimers) : ¬q.Armed id := by
  intro ha
  rcases ha with hm | ⟨hl, w, hw⟩
  · exact h hm
  · exact h ((hi.owns.mem_active id).mpr ⟨((hi.owns.mem_timers w _).mp hw).1, hl⟩)

theorem not_pending_of {q : TimerQueue} {id : TimerId}
    (h : q.batch.all (fun b => decide (id.timer ∉ b.pending.map Entry.second)) = true) :
    ¬q.Pending id := by
  intro ⟨b, hb, hm, _⟩
  rw [hb, Option.all_some, decide_eq_true_eq] at h
  exact h hm

theorem pending_in_batch {q : TimerQueue} (hi : q.Inv) {id : TimerId} (h : q.Pending id) :
    id.timer ∈ q.held := by
  obtain ⟨b, hb, hm, -⟩ := h
  rw [held_eq hb]
  obtain ⟨e, he, hs⟩ := List.mem_map.mp hm
  exact List.mem_map.mpr ⟨e, (hi.suffix b hb).subset he, hs⟩

section Final
variable {ops : TimestampOps}

theorem added_gone {q : TimerQueue} {id : TimerId} (hg : q.Gone id) {a : ℕ} {t : Timer}
    (hfree : q.heap a = none) (hseq : ∀ id ∈ q.issued, id.sequence ≠ t.sequence)
    (clock : Timestamp) : ((q.new a t).added a t clock).Gone id := by
  obtain ⟨hh, -, ha, -, hc, hb, hi, -, -⟩ := added_frame (q.new a t) a t clock
  have hne : id ≠ ⟨a, t.sequence⟩ := fun he => hseq id hg.issued (by rw [he])
  have hlive : ((q.new a t).added a t clock).Live id → q.Live id := by
    intro h
    rw [Live, hh] at h
    exact ((new_live t hfree id).mp h).resolve_right hne
  refine ⟨?_, ?_, ?_, ?_⟩
  · rw [hi]
    exact List.mem_append_left _ hg.issued
  · rw [ha]
    intro hm
    rcases SortedSet.mem_insert.mp hm with he | hm
    · exact hne (active_inj.mp he)
    · exact hg.inactive hm
  · rintro ⟨b, hb', hm, hl⟩
    rw [hb] at hb'
    exact hg.past ⟨b, hb', hm, hlive hl⟩
  · intro hl
    rw [hc]
    exact hg.canceling (hlive hl)

theorem cancelInLoop_gone {q q' : TimerQueue} (hi : q.Inv) {id id' : TimerId} (hg : q.Gone id)
    (hc : q.cancelInLoop id' = .ok q') : q'.Gone id ∧ q'.ran = q.ran := by
  rcases cancelInLoop_of hi.owns id' with ⟨t, ht, hm, heq⟩ | ⟨hn, heq⟩
  all_goals
    rw [heq] at hc
    cases hc
  · have hlive : (q.cancelled id' t).Live id → q.Live id := by
      rintro ⟨u, hu, hs⟩
      by_cases ha : id.timer = id'.timer
      · simp [cancelled, ha] at hu
      · exact ⟨u, by simpa [cancelled, ha] using hu, hs⟩
    refine ⟨⟨hg.issued, ?_, ?_, fun hl => hg.canceling (hlive hl)⟩, rfl⟩
    · exact fun h => hg.inactive (SortedSet.mem_erase.mp h).2
    · rintro ⟨b, hb, hmem, hl⟩
      exact hg.past ⟨b, hb, hmem, hlive hl⟩
  · refine ⟨⟨hg.issued, hg.inactive, hg.past, fun hl => ?_⟩, rfl⟩
    split_ifs
    · exact SortedSet.mem_insert.mpr (Or.inr (hg.canceling hl))
    · exact hg.canceling hl

theorem gone_not_live {q : TimerQueue} (hi : q.Inv) {id : TimerId} (hg : q.Gone id)
    (hb : q.batch = none) : ¬q.Live id := by
  intro hl
  exact hg.inactive ((hi.owns.mem_active id).mpr ⟨not_held hb _, hl⟩)

theorem step_gone {q q' : TimerQueue} (hi : q.Inv) {id : TimerId} (hg : q.Gone id) {a : Action}
    (he : q.Enabled a) (hs : step ops q a = .ok q') :
    q'.Gone id ∧ q'.ran.count id = q.ran.count id := by
  cases a with
  | addTimer timer when interval sequence clock =>
    have heq := addTimer_of ops hi he
    obtain ⟨-, hfree, -, hseq⟩ := he
    have hran := (added_frame (q.new timer (.construct when interval sequence)) timer
      (.construct when interval sequence) clock).2.2.2.2.2.2.2.2
    cases heq.symm.trans hs
    exact ⟨added_gone hg hfree hseq clock, by rw [hran]; rfl⟩
  | cancel id' =>
    obtain ⟨hg', hran⟩ := cancelInLoop_gone hi hg hs
    exact ⟨hg', by rw [hran]⟩
  | handleRead now =>
    have hnl := gone_not_live hi hg he
    have ho : q.Owns [] := held_nil he ▸ hi.owns
    obtain ⟨active, heq, hown⟩ := handleRead_of ho now
    cases heq.symm.trans hs
    exact ⟨⟨hg.issued, fun h => hnl ((hown.mem_active id).mp h).2, fun ⟨_, _, _, hl⟩ => hnl hl,
      fun hl => absurd hl hnl⟩, rfl⟩
  | runNext =>
    obtain ⟨es, e, pending, now, hb⟩ := pending_of_enabled he
    obtain ⟨t, ht, heq⟩ := runNext_of hi hb
    cases heq.symm.trans hs
    refine ⟨⟨hg.issued, hg.inactive, ?_, hg.canceling⟩, ?_⟩
    · rintro ⟨b, hb', hm, hl⟩
      cases hb'
      exact hg.past ⟨_, hb, List.mem_cons_of_mem _ hm, hl⟩
    · -- the timer that runs is still waiting for its turn, and `id` is not
      have hne : ⟨e.second, t.sequence⟩ ≠ id := by
        intro h
        refine hg.past ⟨_, hb, ?_, t, ?_, ?_⟩
        · rw [← h]
          exact List.mem_cons_self
        · rw [← h]
          exact ht
        · rw [← h]
      rw [List.count_append, List.count_singleton, if_neg (by simpa using hne), Nat.add_zero]
  | finishRead clock =>
    obtain ⟨b, hb, -⟩ := batch_of_any he
    have ho := hi.owns
    rw [held_eq hb] at ho
    obtain ⟨q₁, hr, heq⟩ := finishRead_of ops hb ho clock
    cases heq.symm.trans hs
    -- the timer is not in the sets, so it was in the batch and is now freed
    have hnl : ¬q₁.Live id := by
      intro hl
      obtain ⟨hl, hn⟩ := hr.live id hl
      by_cases hm : id.timer ∈ b.expired.map Entry.second
      · exact hn hm (hg.canceling hl)
      · exact hg.inactive ((ho.mem_active id).mpr ⟨hm, hl⟩)
    have hna : id.active ∉ q₁.activeTimers := fun h => hnl ((hr.owns.mem_active id).mp h).2
    have hissued : id ∈ q₁.issued := by
      rw [hr.issued]
      exact hg.issued
    split_ifs
    · exact ⟨⟨hissued, hna, fun ⟨_, hb', _⟩ => (nomatch hb'), fun hl => absurd hl hnl⟩,
        congrArg _ hr.ran⟩
    · exact ⟨⟨hissued, hna, fun ⟨_, hb', _⟩ => (nomatch hb'), fun hl => absurd hl hnl⟩,
        congrArg _ hr.ran⟩
  | fire =>
    cases hs
    exact ⟨⟨hg.issued, hg.inactive, hg.past, hg.canceling⟩, rfl⟩

theorem run_gone {q q' : TimerQueue} (hi : q.Inv) {id : TimerId} (hg : q.Gone id)
    {as : List Action} (he : Admitted (step ops) Enabled q as)
    (hr : run (step ops) q as = .ok q') :
    q'.Inv ∧ q'.Gone id ∧ q'.ran.count id = q.ran.count id := by
  induction as generalizing q with
  | nil =>
    cases hr
    exact ⟨hi, hg, rfl⟩
  | cons a as ih =>
    obtain ⟨q₁, h₁, hi₁, ht⟩ := run_cons_inv hi he.1 hr
    obtain ⟨hg₁, hc₁⟩ := step_gone hi hg he.1 h₁
    obtain ⟨hi', hg', hc'⟩ := ih hi₁ hg₁ (he.2 q₁ h₁) ht
    exact ⟨hi', hg', hc'.trans hc₁⟩

theorem cancel_gone {q q' : TimerQueue} (hi : q.Inv) {id : TimerId} (hid : id ∈ q.issued)
    (hp : ¬q.Pending id) (hc : q.cancelInLoop id = .ok q') : q'.Gone id := by
  rcases cancelInLoop_of hi.owns id with ⟨t, ht, hm, heq⟩ | ⟨hn, heq⟩
  all_goals
    rw [heq] at hc
    cases hc
  · have hnl : ¬(q.cancelled id t).Live id := by
      rintro ⟨u, hu, _⟩
      simp [cancelled] at hu
    refine ⟨hid, fun h => (SortedSet.mem_erase.mp h).1 rfl, ?_, fun hl => absurd hl hnl⟩
    rintro ⟨_, _, _, hl⟩
    exact hnl hl
  · refine ⟨hid, hn, hp, fun hl => ?_⟩
    -- alive and in neither set, the timer is in a batch
    have hcall : q.callingExpiredTimers = true := by
      rw [hi.calling]
      cases hb : q.batch with
      | some b => rfl
      | none => exact absurd ((hi.owns.mem_active id).mpr ⟨not_held hb _, hl⟩) hn
    simp only [hcall, if_true]
    exact SortedSet.mem_insert.mpr (Or.inl rfl)

end Final

section Running
variable {ops : TimestampOps}

variable (ops) in
theorem pending_runs (pending : List Entry) {q : TimerQueue} (hi : q.Inv) {id : TimerId}
    {es : List Entry} {now : Timestamp} (hb : q.batch = some ⟨es, pending, now⟩)
    (hm : id.timer ∈ pending.map Entry.second) (hl : q.Live id) :
    ∃ as t, Admitted (step ops) Enabled q as ∧ run (step ops) q as = .ok t ∧
      q.ran.count id < t.ran.count id := by
  induction pending generalizing q with
  | nil => exact absurd hm List.not_mem_nil
  | cons e pending ih =>
    obtain ⟨t, ht, heq⟩ := runNext_of hi hb
    have hen : q.Enabled .runNext := by simp [Enabled, hb]
    obtain ⟨q₁, h₁, hi₁⟩ := step_inv ops hi hen
    cases heq.symm.trans h₁
    by_cases he : id.timer = e.second
    · have hs := live_unique (he ▸ ht) hl
      have hid : id = ⟨e.second, t.sequence⟩ := by
        cases id
        simp_all
      refine ⟨[.runNext], _, ⟨hen, fun _ _ => trivial⟩, run_cons_ok.mpr ⟨_, h₁, rfl⟩, ?_⟩
      rw [hid]
      simp
    · rw [List.map_cons, List.mem_cons] at hm
      obtain ⟨as, u, hadm, hrun, hlt⟩ := ih hi₁ rfl (hm.resolve_left he) hl
      refine ⟨.runNext::as, u, ⟨hen, fun s hs => ?_⟩, run_cons_ok.mpr ⟨_, h₁, hrun⟩, ?_⟩
      · cases h₁.symm.trans hs
        exact hadm
      · exact Nat.lt_of_le_of_lt (by simp) hlt

end Running

/-- In every run and for every timer handed in: after `cancelInLoop(id)` its
callback does not run again and it is never armed again, if and only if the
timer was not waiting for its turn in the batch being run. -/
theorem cancel_final_iff (ops : TimestampOps) (as : List Action) (q q' : TimerQueue)
    (id : TimerId) (ha : Admitted (step ops) Enabled construct as)
    (hr : run (step ops) construct as = .ok q) (hid : id ∈ q.issued)
    (hc : q.cancelInLoop id = .ok q') :
    (∀ bs t, Admitted (step ops) Enabled q' bs → run (step ops) q' bs = .ok t →
      t.ran.count id = q.ran.count id ∧ ¬t.Armed id) ↔ ¬q.Pending id := by
  obtain ⟨q₀, hq₀, hi⟩ := run_inv ops construct_inv ha
  cases hr.symm.trans hq₀
  constructor
  · intro h hp
    have hin := pending_in_batch hi hp
    rcases cancelInLoop_of hi.owns id with ⟨t, ht, hm, heq⟩ | ⟨hn, heq⟩
    · exact ((hi.owns.mem_active id).mp hm).1 hin
    · obtain ⟨⟨es, pending, now⟩, hb, hm, hl⟩ := hp
      cases heq.symm.trans hc
      obtain ⟨bs, t, hadm, hrun, hlt⟩ := pending_runs ops pending (q := { q with
        cancelingTimers :=
          if q.callingExpiredTimers then q.cancelingTimers.insert id.active
          else q.cancelingTimers })
        ⟨hi.owns.frame rfl rfl rfl rfl rfl, hi.calling, hi.suffix⟩ hb hm hl
      exact absurd (h bs t hadm hrun).1 (Nat.ne_of_gt hlt)
  · intro hp bs t hadm hrun
    have hg := cancel_gone hi hid hp hc
    have hi' : q'.Inv ∧ q'.ran = q.ran := by
      rcases cancelInLoop_of hi.owns id with ⟨u, hu, hm, heq⟩ | ⟨hn, heq⟩
      · cases heq.symm.trans hc
        exact ⟨⟨cancelled_owns hi.owns hu hm, hi.calling, hi.suffix⟩, rfl⟩
      · cases heq.symm.trans hc
        exact ⟨⟨hi.owns.frame rfl rfl rfl rfl rfl, hi.calling, hi.suffix⟩, rfl⟩
    obtain ⟨hit, hgt, hct⟩ := run_gone hi'.1 hg hadm hrun
    exact ⟨by rw [hct, hi'.2], not_armed hit hgt.inactive⟩

/-- A repeated timer that cancels itself in its own callback. -/
theorem cancel_final_iff_self : ∃ q q',
    run (step microsecondOps) construct [.addTimer 16 5 2 1 3, .fire, .handleRead 7, .runNext] =
      .ok q ∧ q.cancelInLoop ⟨16, 1⟩ = .ok q' ∧
    ∀ bs t, Admitted (step microsecondOps) Enabled q' bs →
      run (step microsecondOps) q' bs = .ok t →
      t.ran.count ⟨16, 1⟩ = q.ran.count ⟨16, 1⟩ ∧ ¬t.Armed ⟨16, 1⟩ := by
  refine ⟨_, _, rfl, rfl, (cancel_final_iff microsecondOps
    [.addTimer 16 5 2 1 3, .fire, .handleRead 7, .runNext] _ _ _ (by decide +kernel) rfl
    (by decide) rfl).mpr (not_pending_of (by decide +kernel))⟩

/-- Two timers expire together and the first one's callback cancels the
second, whose callback runs next. -/
theorem cancel_not_final :
    ¬∀ (as : List Action) (q q' : TimerQueue) (id : TimerId),
      Admitted (step microsecondOps) Enabled construct as →
      run (step microsecondOps) construct as = .ok q → id ∈ q.issued →
      q.InUserCode → q.cancelInLoop id = .ok q' →
      ∀ bs t, Admitted (step microsecondOps) Enabled q' bs →
        run (step microsecondOps) q' bs = .ok t →
        t.ran.count id = q.ran.count id ∧ ¬t.Armed id := by
  intro h
  have hc := h [.addTimer 16 5 0 1 3, .addTimer 32 6 0 2 3, .fire, .handleRead 7, .runNext] _ _
    ⟨32, 2⟩ (by decide +kernel) rfl (by decide) (by decide) rfl [.runNext] _ (by decide +kernel)
    rfl
  exact absurd hc.1 (by decide)

end Lux.Polaris.TimerQueue
