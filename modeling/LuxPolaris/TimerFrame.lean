import LuxPolaris.TimerBatch

/-!
# What a cancel leaves alone

A cancel changes nothing of any timer but its own: neither the sets nor the
batch, and not what `reset` decides later. Two runs that part at a cancel and
do the same to another timer afterwards leave that timer in the same state,
whatever addresses the allocator hands out in the one and in the other.
-/

set_option autoImplicit false

namespace Lux.Polaris.TimerQueue
open Outcome

/-- A timer of one queue and a timer of another are in the same state. -/
structure SameFate (q : TimerQueue) (id : TimerId) (q' : TimerQueue) (id' : TimerId) : Prop where
  fate : q'.fate id' = q.fate id
  holds : ∀ t, q'.Holds id' t ↔ q.Holds id t ∧ t.sequence = id'.sequence
  fired : q.batch = none → q'.batch = none → q'.ran.count id' = q.ran.count id

/-- The same timer in two runs that part at `q`: one that is there already, or
two that are created later. -/
def Twins (q : TimerQueue) (id id' : TimerId) : Prop :=
  id = id' ∨ id ∉ q.issued ∧ id' ∉ q.issued ∧ id.sequence = id'.sequence

section Fates
variable {ops : TimestampOps} {q q' : TimerQueue}

theorem fold_absent (n : ℕ) {l : List LifeEvent}
    (h : ∀ w i s, LifeEvent.added w i s ∉ l) :
    l.foldl (Fate.live ops) ⟨.absent, n⟩ = ⟨.absent, n⟩ := by
  induction l with
  | nil => rfl
  | cons e l ih =>
    have htail := ih (fun w i s hm => h w i s (List.mem_cons_of_mem _ hm))
    cases e with
    | added w i s => exact absurd List.mem_cons_self (h w i s)
    | cancelled => exact htail
    | expiry now => exact htail
    | reset => exact htail

theorem not_added {as : List Action} {id : TimerId} (h : id ∉ adds as) (w : Timestamp)
    (i : Seconds) (s : ℤ) : LifeEvent.added w i s ∉ lifeline id as := by
  intro hm
  obtain ⟨a, ha, he⟩ := List.mem_filterMap.mp hm
  cases a with
  | addTimer timer when interval sequence clock =>
    rw [lifeEvent] at he
    split_ifs at he with hid
    exact h (List.mem_filterMap.mpr ⟨_, ha, by rw [addOf, hid]⟩)
  | cancel id' =>
    rw [lifeEvent] at he
    split_ifs at he
    cases he
  | handleRead now => cases he
  | runNext => cases he
  | finishRead clock => cases he
  | fire => cases he

theorem unborn_fate {as : List Action} (ha : Admitted (step ops) Enabled construct as)
    (hr : run (step ops) construct as = .ok q) {id : TimerId} (h : id ∉ q.issued) :
    q.fate id = ⟨.absent, 0⟩ := by
  have hiss := (run_adds construct_inv ha hr).1
  have hna : id ∉ adds as := fun hm => h (by rw [hiss]; exact List.mem_append_right _ hm)
  have hstart : construct.fate id = ⟨.absent, 0⟩ := rfl
  rw [run_fate construct_inv ha hr, hstart, fold_absent 0 (not_added hna)]

def Over : Fate → Prop
  | ⟨.absent, _⟩ => True
  | ⟨.expired _ _ canceled, _⟩ => canceled = true
  | ⟨.queued _, _⟩ => False

theorem fold_over {f : Fate} (hf : Over f) {l : List LifeEvent}
    (h : ∀ w i s, LifeEvent.added w i s ∉ l) : Over (l.foldl (Fate.live ops) f) := by
  induction l generalizing f with
  | nil => exact hf
  | cons e l ih =>
    refine ih ?_ (fun w i s hm => h w i s (List.mem_cons_of_mem _ hm))
    rcases f with ⟨_ | t | ⟨t, now, canceled⟩, n⟩
    · cases e with
      | added w i s => exact absurd List.mem_cons_self (h w i s)
      | cancelled => trivial
      | expiry now => trivial
      | reset => trivial
    · exact hf.elim
    · cases e with
      | added w i s => exact absurd List.mem_cons_self (h w i s)
      | cancelled => rfl
      | expiry now => exact hf
      | reset =>
        have hc : canceled = true := hf
        simp [Fate.live, Fate.reset, hc, Over]

theorem cancel_over (hi : q.Inv) {id : TimerId} (hc : q.cancelInLoop id = .ok q') :
    Over (q'.fate id) := by
  rw [cancel_fate hi hc, if_pos rfl]
  rcases q.fate id with ⟨_ | t | ⟨t, now, canceled⟩, n⟩ <;> simp [Fate.cancel, Over]

theorem holds_of_fate (hi : q.Inv) (hi' : q'.Inv) {id id' : TimerId}
    (hs : id.sequence = id'.sequence) (h : q'.fate id' = q.fate id) : SameFate q id q' id' := by
  have hplace : q'.place id' = q.place id := congrArg Fate.place h
  refine ⟨h, fun t => ?_, fun hb hb' => ?_⟩
  · rw [holds_iff hi', holds_iff hi, hplace]
    refine ⟨fun ht => ⟨ht, ?_⟩, And.left⟩
    rw [← hs]
    exact ((place_queued_iff hi).mp ht).2.1
  · have hf := congrArg Fate.firings h
    simpa only [fate, dueNow_of_batch hb, dueNow_of_batch hb', Nat.add_zero] using hf

end Fates

def dueOthers (q : TimerQueue) (id : TimerId) (now : Timestamp) : List Entry :=
  (q.due now).filter (fun e => !((q.live? id).isSome && e.second = id.timer))

section Order
variable {q q' : TimerQueue}

theorem due_sorted (q : TimerQueue) (now : Timestamp) : (q.due now).Pairwise (· < ·) := by
  have hsorted := (q.timers.below_append_from ⟨now, UINTPTR_MAX⟩) ▸ q.timers.sorted
  exact (List.pairwise_append.mp hsorted).1

theorem mem_dueOthers (hi : q.Inv) (hb : q.batch = none) (id : TimerId) (now : Timestamp)
    (e : Entry) : e ∈ q.dueOthers id now ↔
      ∃ id' t, id' ≠ id ∧ q.Holds id' t ∧ e = ⟨t.expiration, id'.timer⟩ ∧ e.first ≤ now := by
  have ho : q.Owns [] := held_nil hb ▸ hi.owns
  rw [dueOthers, List.mem_filter, mem_due ho, timers_iff hi]
  simp only [Bool.not_eq_true', Bool.and_eq_false_iff, decide_eq_false_iff_not]
  constructor
  · rintro ⟨⟨⟨id', t, hh, rfl⟩, hle⟩, hne⟩
    refine ⟨id', t, fun he => ?_, hh, rfl, hle⟩
    subst he
    rcases hne with hn | hn
    · have hl := live?_isSome.mpr ⟨t, hh.1, hh.2.1⟩
      rw [hn] at hl
      cases hl
    · exact hn rfl
  · rintro ⟨id', t, hne, hh, rfl, hle⟩
    refine ⟨⟨⟨id', t, hh, rfl⟩, hle⟩, ?_⟩
    by_cases ha : id'.timer = id.timer
    · left
      rw [Option.isSome_eq_false_iff, Option.isNone_iff_eq_none, live?_eq_none]
      intro hl
      have hs := live_unique (ha ▸ hh.1) hl
      have hs' := hh.2.1
      apply hne
      cases id
      cases id'
      simp_all
    · exact Or.inr ha

theorem dueOthers_congr (hi : q.Inv) (hi' : q'.Inv) (hb : q.batch = none) (hb' : q'.batch = none)
    {id : TimerId} (h : ∀ id', id' ≠ id → ∀ t, q'.Holds id' t ↔ q.Holds id' t) (now : Timestamp) :
    q'.dueOthers id now = q.dueOthers id now := by
  have hsorted : ∀ p : TimerQueue, (p.dueOthers id now).Pairwise (· < ·) :=
    fun p => (due_sorted p now).filter _
  have hperm : (q'.dueOthers id now).Perm (q.dueOthers id now) := by
    refine (List.perm_ext_iff_of_nodup ((hsorted q').imp ne_of_lt)
      ((hsorted q).imp ne_of_lt)).mpr (fun e => ?_)
    rw [mem_dueOthers hi' hb', mem_dueOthers hi hb]
    exact exists_congr fun id' => exists_congr fun t => and_congr_right fun hne =>
      and_congr_left fun _ => h id' hne t
  exact hperm.eq_of_pairwise (fun _ _ _ _ h₁ h₂ => absurd h₂ (not_lt.mpr (le_of_lt h₁)))
    (hsorted q') (hsorted q)

end Order

/-- From every state that the queue can reach, in a batch or between two, and
for every id that was ever issued: `cancelInLoop(id)` succeeds and leaves every
other timer as it was. Let the run go on with the cancel and without it: a
timer to which the same is done in both is in the same state in both, and if
that goes for all other timers then the next batch has them in the same order,
the cancelled one not among them. -/
theorem cancel_spares_others (ops : TimestampOps) (as : List Action) (q : TimerQueue)
    (id : TimerId) (ha : Admitted (step ops) Enabled construct as)
    (hr : run (step ops) construct as = .ok q) (hid : id ∈ q.issued) :
    ∃ q', q.cancelInLoop id = .ok q' ∧ q'.batch = q.batch ∧ q'.timerfd = q.timerfd ∧
      (∀ id', id' ≠ id → SameFate q id' q' id') ∧
      ∀ (bs bs' : List Action) (t t' : TimerQueue),
        Admitted (step ops) Enabled q bs → run (step ops) q bs = .ok t →
        Admitted (step ops) Enabled q' bs' → run (step ops) q' bs' = .ok t' →
        (∀ id₁ id₁', id₁ ≠ id → Twins q id₁ id₁' → lifeline id₁ bs = lifeline id₁' bs' →
          SameFate t id₁ t' id₁') ∧
        ((∀ id', id' ≠ id → lifeline id' bs = lifeline id' bs') → t.batch = none →
          t'.batch = none → ∀ now, t'.due now = t.dueOthers id now) := by
  obtain ⟨q₀, hq₀, hi⟩ := run_inv ops construct_inv ha
  cases hr.symm.trans hq₀
  obtain ⟨q', hc, hi', hb, hfd, hiss⟩ : ∃ q', q.cancelInLoop id = .ok q' ∧ q'.Inv ∧
      q'.batch = q.batch ∧ q'.timerfd = q.timerfd ∧ q'.issued = q.issued := by
    rcases cancelInLoop_of hi.owns id with ⟨u, hu, hm, heq⟩ | ⟨-, heq⟩
    · exact ⟨_, heq, ⟨cancelled_owns hi.owns hu hm, hi.calling, hi.suffix⟩, rfl, rfl, rfl⟩
    · exact ⟨_, heq, ⟨hi.owns.frame rfl rfl rfl rfl rfl, hi.calling, hi.suffix⟩, rfl, rfl, rfl⟩
  have hothers : ∀ id', id' ≠ id → q'.fate id' = q.fate id' := by
    intro id' hne
    rw [cancel_fate hi hc, if_neg (Ne.symm hne)]
  refine ⟨q', hc, hb, hfd, fun id' hne => holds_of_fate hi hi' rfl (hothers id' hne), ?_⟩
  intro bs bs' t t' hbs ht hbs' ht'
  obtain ⟨t₁, h₁, hit⟩ := run_inv ops hi hbs
  cases h₁.symm.trans ht
  obtain ⟨t₂, h₂, hit'⟩ := run_inv ops hi' hbs'
  cases h₂.symm.trans ht'
  have hsame : ∀ id₁ id₁', id₁ ≠ id → Twins q id₁ id₁' → lifeline id₁ bs = lifeline id₁' bs' →
      SameFate t id₁ t' id₁' := by
    intro id₁ id₁' hne htwins hline
    have hstart : q'.fate id₁' = q.fate id₁ := by
      rcases htwins with rfl | ⟨hn, hn', -⟩
      · exact hothers id₁ hne
      · have hne' : id₁' ≠ id := fun he => hn' (he ▸ hid)
        rw [hothers id₁' hne', unborn_fate ha hr hn, unborn_fate ha hr hn']
    refine holds_of_fate hit hit' ?_ ?_
    · rcases htwins with rfl | ⟨-, -, hs⟩
      · rfl
      · exact hs
    · rw [run_fate hi' hbs' ht', run_fate hi hbs ht, hstart, hline]
  refine ⟨hsame, fun hall hb hb' now => ?_⟩
  -- the cancelled timer is in no set of `t'` any more
  have hgone : ¬t'.Live id := by
    have hnew : id ∉ adds bs' := fun hm => (run_adds hi' hbs' ht').2.2 id hm (hiss ▸ hid)
    have hover : Over (t'.fate id) := by
      rw [run_fate hi' hbs' ht']
      exact fold_over (cancel_over hi hc) (not_added hnew)
    intro hl
    obtain ⟨u, hu⟩ := Option.isSome_iff_exists.mp (live?_isSome.mpr hl)
    have hq : t'.place id = .queued u :=
      place_queued.mpr ⟨hu, not_held hb' _⟩
    rw [fate, hq] at hover
    exact hover
  have hfull : t'.dueOthers id now = t'.due now := by
    rw [dueOthers, live?_eq_none.mpr hgone]
    exact List.filter_eq_self.mpr (fun _ _ => rfl)
  rw [← hfull]
  refine dueOthers_congr hit hit' hb hb' (fun id' hne u => ?_) now
  have hs := (hsame id' id' hne (Or.inl rfl) (hall id' hne)).holds u
  rw [hs]
  exact ⟨And.left, fun h => ⟨h, h.2.1⟩⟩

/-- The address of a timer that has run is given to a new one, and a callback of
a batch of two cancels the old timer's id: the batch goes on as it would have. -/
theorem cancel_spares_others_reused : ∃ q q' t t',
    run (step microsecondOps) construct [.addTimer 16 5 0 1 3, .fire, .handleRead 7, .runNext,
      .finishRead 9, .addTimer 16 20 0 2 10, .addTimer 32 20 3 3 10, .fire, .handleRead 25,
      .runNext] = .ok q ∧
    q.cancelInLoop ⟨16, 1⟩ = .ok q' ∧
    run (step microsecondOps) q [.runNext, .finishRead 30] = .ok t ∧
    run (step microsecondOps) q' [.runNext, .finishRead 30] = .ok t' ∧
    SameFate q ⟨16, 2⟩ q' ⟨16, 2⟩ ∧ SameFate t ⟨32, 3⟩ t' ⟨32, 3⟩ := by
  have ha : Admitted (step microsecondOps) Enabled construct ([.addTimer 16 5 0 1 3, .fire,
      .handleRead 7, .runNext, .finishRead 9, .addTimer 16 20 0 2 10, .addTimer 32 20 3 3 10,
      .fire, .handleRead 25, .runNext] ++ [.runNext, .finishRead 30]) := by decide +kernel
  have ha' : Admitted (step microsecondOps) Enabled construct ([.addTimer 16 5 0 1 3, .fire,
      .handleRead 7, .runNext, .finishRead 9, .addTimer 16 20 0 2 10, .addTimer 32 20 3 3 10,
      .fire, .handleRead 25, .runNext] ++ (.cancel ⟨16, 1⟩::[.runNext, .finishRead 30])) := by
    decide +kernel
  obtain ⟨q, hq, hi⟩ := run_inv microsecondOps construct_inv ((admitted_append _ _ _).mp ha).1
  have hbs := ((admitted_append _ _ _).mp ha).2 q hq
  have hbs' := ((admitted_append _ _ _).mp ha').2 q hq
  have hissued : (⟨16, 1⟩ : TimerId) ∈ q.issued := by
    rw [(run_adds construct_inv ((admitted_append _ _ _).mp ha).1 hq).1]
    decide +kernel
  obtain ⟨q', hc, -, -, hsame, hruns⟩ := cancel_spares_others microsecondOps _ q ⟨16, 1⟩
    ((admitted_append _ _ _).mp ha).1 hq hissued
  obtain ⟨t, ht, -⟩ := run_inv microsecondOps hi hbs
  obtain ⟨t₂, ht₂, -⟩ := run_inv microsecondOps hi hbs'
  obtain ⟨q₂, hq₂, ht'⟩ := run_cons_ok.mp ht₂
  cases hc.symm.trans hq₂
  have hadm := hbs'.2 q' hc
  refine ⟨q, q', t, t₂, hq, hc, ht, ht', hsame ⟨16, 2⟩ (by decide), ?_⟩
  exact (hruns _ _ t t₂ hbs ht hadm ht').1 ⟨32, 3⟩ ⟨32, 3⟩ (by decide) (Or.inl rfl) rfl

end Lux.Polaris.TimerQueue
