import LuxPolaris.TimerBatch

/-!
# The pace of a timer

When the callbacks of one timer are run, by the clock that each `handleRead`
has read. The wall clock may jump either way between them: a callback is still
never run before its time, and a timer that repeats is run again only when its
interval has passed since the clock of its last run.
-/

set_option autoImplicit false

namespace Lux.Polaris.TimerQueue
open Outcome

def callback (q : TimerQueue) : Action → Option (TimerId × Timestamp)
  | .runNext =>
    match q.batch with
    | some ⟨_, it::_, now⟩ => (q.heap it.second).map (fun t => (⟨it.second, t.sequence⟩, now))
    | _ => none
  | _ => none

def callbacks (ops : TimestampOps) (q : TimerQueue) (as : List Action) :
    List (TimerId × Timestamp) := collect (step ops) callback q as

def clocksOf (id : TimerId) (runs : List (TimerId × Timestamp)) : List Timestamp :=
  (runs.filter (fun r => r.1 = id)).map Prod.snd

/-- The time before which a timer is not run again, once run at `cs`. -/
def dueAfter (ops : TimestampOps) (when : Timestamp) (interval : Seconds) (cs : List Timestamp) :
    Timestamp :=
  match cs.getLast? with
  | none => when
  | some c => ops.addTime c interval

/-- No run comes before its time, and a timer without an interval runs once. -/
structure Paced (ops : TimestampOps) (when : Timestamp) (interval : Seconds)
    (cs : List Timestamp) : Prop where
  due : ∀ pre c, pre ++ [c] <+: cs → dueAfter ops when interval pre ≤ c
  once : ¬interval > 0 → cs.length ≤ 1

section Pace
variable {ops : TimestampOps} {when : Timestamp} {interval : Seconds} {cs : List Timestamp}

theorem paced_nil : Paced ops when interval [] where
  due := fun pre c h => absurd (List.prefix_nil.mp h) (by simp)
  once := fun _ => Nat.zero_le 1

theorem Paced.snoc (h : Paced ops when interval cs) {c : Timestamp}
    (hdue : dueAfter ops when interval cs ≤ c) (hrep : cs ≠ [] → interval > 0) :
    Paced ops when interval (cs ++ [c]) where
  due := fun pre d hp => by
    rcases List.prefix_concat_iff.mp hp with heq | hp
    · obtain ⟨rfl, hd⟩ := List.append_inj' heq rfl
      cases hd
      exact hdue
    · exact h.due pre d hp
  once := fun hn => by
    by_cases hc : cs = []
    · simp [hc]
    · exact absurd (hrep hc) hn

/-- On a clock that adds `d` for the interval, run `k` is `k` intervals late at
the least. -/
theorem Paced.nth (h : Paced ops when interval cs) {d : ℤ}
    (hd : ∀ c, ops.addTime c interval = c+d) (k : ℕ) (c : Timestamp) (hk : cs[k]? = some c) :
    when+k*d ≤ c := by
  induction k generalizing c with
  | zero =>
    have hdue := h.due [] c (by
      rw [List.nil_append]
      cases cs with
      | nil => cases hk
      | cons b cs =>
        cases hk
        exact List.cons_prefix_cons.mpr ⟨rfl, List.nil_prefix⟩)
    simpa [dueAfter] using hdue
  | succ k ih =>
    obtain ⟨hlt, hc⟩ := List.getElem?_eq_some_iff.mp hk
    have hprev := ih cs[k] (List.getElem?_eq_getElem (by omega))
    have hdue := h.due (cs.take (k+1)) c (by
      rw [← hc, ← List.take_succ_eq_append_getElem hlt]
      exact List.take_prefix _ _)
    have hlast : (cs.take (k+1)).getLast? = some cs[k] := by
      rw [List.take_succ_eq_append_getElem (by omega), List.getLast?_concat]
    rw [dueAfter, hlast] at hdue
    simp only [hd] at hdue
    calc when+((k+1 : ℕ) : ℤ)*d = when+k*d+d := by
          rw [Nat.cast_succ, Int.add_mul, Int.one_mul, Int.add_assoc]
      _ ≤ cs[k]+d := Int.add_le_add_right hprev d
      _ ≤ c := hdue

end Pace

/-- A timer between its runs: queued for its next time, or in a batch whose
`now` is past that time, with its callback still due or just run. -/
def OnPace (ops : TimestampOps) (when : Timestamp) (interval : Seconds) (cs : List Timestamp) :
    Place → ℕ → Prop
  | .absent, _ => Paced ops when interval cs
  | .queued t, _ =>
    Paced ops when interval cs ∧ t.interval = interval ∧
      t.expiration = dueAfter ops when interval cs ∧ (cs ≠ [] → interval > 0)
  | .expired t now _, due =>
    Paced ops when interval cs ∧ t.interval = interval ∧
      (due ≠ 0 → dueAfter ops when interval cs ≤ now ∧ (cs ≠ [] → interval > 0)) ∧
      (due = 0 → cs.getLast? = some now)

theorem OnPace.paced {ops : TimestampOps} {when : Timestamp} {interval : Seconds}
    {cs : List Timestamp} {p : Place} {due : ℕ} (h : OnPace ops when interval cs p due) :
    Paced ops when interval cs := by
  cases p with
  | absent => exact h
  | queued t => exact h.1
  | expired t now canceled => exact h.1

section Steps
variable {ops : TimestampOps} {q q' : TimerQueue} {id : TimerId} {when : Timestamp}
  {interval : Seconds} {cs : List Timestamp}

theorem step_ran (hi : q.Inv) {a : Action} (he : q.Enabled a) (hs : step ops q a = .ok q') :
    q'.ran = q.ran ++ (q.callback a).toList.map Prod.fst := by
  cases a with
  | addTimer timer when interval sequence clock =>
    cases (addTimer_of ops hi he).symm.trans hs
    refine Eq.trans ?_ (List.append_nil _).symm
    exact (added_frame (q.new timer (.construct when interval sequence)) timer
      (.construct when interval sequence) clock).2.2.2.2.2.2.2.2
  | cancel id =>
    rcases cancelInLoop_of hi.owns id with ⟨t, -, -, heq⟩ | ⟨-, heq⟩
    all_goals
      cases heq.symm.trans hs
      exact (List.append_nil _).symm
  | handleRead now =>
    obtain ⟨active, heq, -⟩ := handleRead_of (held_nil he ▸ hi.owns) now
    cases heq.symm.trans hs
    exact (List.append_nil _).symm
  | runNext =>
    obtain ⟨es, e, pending, now, hb⟩ := pending_of_enabled he
    obtain ⟨t, ht, heq⟩ := runNext_of hi hb
    cases heq.symm.trans hs
    simp only [callback, hb, ht, Option.map_some, Option.toList_some, List.map_cons,
      List.map_nil]
  | finishRead clock =>
    obtain ⟨b, hb, -⟩ := batch_of_any he
    exact (finishRead_heap hb hi hs 0).2.1.trans (List.append_nil _).symm
  | fire =>
    cases hs
    exact (List.append_nil _).symm

theorem due_of_fate {f : Fate} {n : ℕ} (hf : q'.fate id = f) (hr : q'.ran.count id = n) :
    q'.place id = f.place ∧ q'.dueNow id = f.firings-n := by
  subst hf
  exact ⟨rfl, by rw [fate, hr, Nat.add_sub_cancel_left]⟩

theorem OnPace.cancel {f : Fate} {n : ℕ}
    (h : OnPace ops when interval cs f.place (f.firings-n)) :
    OnPace ops when interval cs f.cancel.place (f.cancel.firings-n) := by
  rcases f with ⟨_ | t | ⟨t, now, c⟩, k⟩
  · exact h
  · exact h.paced
  · exact h

theorem OnPace.expire {f : Fate} {n : ℕ} (hf : f.firings = n) (now : Timestamp)
    (h : OnPace ops when interval cs f.place (f.firings-n)) :
    OnPace ops when interval cs (f.expire now).place ((f.expire now).firings-n) := by
  rcases f with ⟨_ | t | ⟨t, now', c⟩, k⟩
  · exact h
  · cases hf
    rw [Fate.expire]
    split_ifs with hle
    · obtain ⟨hp, hint, hexp, hrep⟩ := h
      refine ⟨hp, hint, fun _ => ⟨hexp ▸ hle, hrep⟩, fun h0 => ?_⟩
      simp at h0
    · exact h
  · exact h

theorem OnPace.reset {f : Fate} {n : ℕ} (hf : f.firings = n)
    (h : OnPace ops when interval cs f.place (f.firings-n)) :
    OnPace ops when interval cs (f.reset ops).place ((f.reset ops).firings-n) := by
  rcases f with ⟨_ | t | ⟨t, now, c⟩, k⟩
  · exact h
  · exact h
  · cases hf
    obtain ⟨hp, hint, -, hlast⟩ := h
    rw [Fate.reset]
    split_ifs with hc
    · rw [Bool.and_eq_true] at hc
      refine ⟨hp, hint, ?_, fun _ => hint ▸ t.repeat_iff.mp hc.1⟩
      rw [dueAfter, hlast (Nat.sub_self k), ← hint]
      exact if_pos hc.1
    · exact hp

theorem runNext_onPace (hi : q.Inv) (he : q.Enabled .runNext) (hs : q.runNext = .ok q')
    (h : OnPace ops when interval cs (q.place id) (q.dueNow id)) :
    OnPace ops when interval (cs ++ clocksOf id (q.callback .runNext).toList) (q'.place id)
      (q'.dueNow id) := by
  obtain ⟨es, e, pending, now, hb⟩ := pending_of_enabled he
  obtain ⟨t, ht, heq⟩ := runNext_of hi hb
  have hfate := runNext_fate hi he hs id
  have hcallback : q.callback .runNext = some (⟨e.second, t.sequence⟩, now) := by
    simp only [callback, hb, ht, Option.map_some]
  have hran : q'.ran = q.ran ++ [⟨e.second, t.sequence⟩] := by
    cases heq.symm.trans hs
    rfl
  obtain ⟨hplace, hdue⟩ := due_of_fate hfate rfl
  rw [hplace, hdue, hran, List.count_append, hcallback]
  by_cases hid : (⟨e.second, t.sequence⟩ : TimerId) = id
  · -- it was due, and is now run at the clock of the batch
    subst hid
    have hlive : q.live? ⟨e.second, t.sequence⟩ = some t := live?_eq_some.mpr ⟨ht, rfl⟩
    have hone : q.dueNow ⟨e.second, t.sequence⟩ = 1 := by
      simp only [dueNow, hlive, hb, List.map_cons, List.mem_cons, true_or, if_true]
    have hmem : e.second ∈ es.map Entry.second :=
      List.mem_map_of_mem ((hi.suffix _ hb).subset List.mem_cons_self)
    have hexp : q.place ⟨e.second, t.sequence⟩ =
        .expired t now (decide (TimerId.active ⟨e.second, t.sequence⟩ ∈ q.cancelingTimers)) := by
      simp only [place, hlive, hb, hmem, if_true]
    rw [hexp, hone] at h
    obtain ⟨hp, hint, hdue', -⟩ := h
    obtain ⟨hle, hrep⟩ := hdue' Nat.one_ne_zero
    have hclocks : clocksOf ⟨e.second, t.sequence⟩
        (some ((⟨e.second, t.sequence⟩ : TimerId), now)).toList = [now] := by simp [clocksOf]
    have hzero : (q.fate ⟨e.second, t.sequence⟩).firings -
        (q.ran.count ⟨e.second, t.sequence⟩ +
          [(⟨e.second, t.sequence⟩ : TimerId)].count ⟨e.second, t.sequence⟩) = 0 := by
      simp [fate, hone]
    have hfated : (q.fate ⟨e.second, t.sequence⟩).place = q.place ⟨e.second, t.sequence⟩ := rfl
    rw [hclocks, hzero, hfated, hexp]
    exact ⟨hp.snoc hle hrep, hint, fun h0 => absurd rfl h0, fun _ => List.getLast?_concat⟩
  · have hclocks : clocksOf id (some ((⟨e.second, t.sequence⟩ : TimerId), now)).toList = [] := by
      simp [clocksOf, hid]
    have hsame : (q.fate id).firings -
        (q.ran.count id + [(⟨e.second, t.sequence⟩ : TimerId)].count id) = q.dueNow id := by
      rw [List.count_singleton, if_neg (by simpa using hid), Nat.add_zero, fate,
        Nat.add_sub_cancel_left]
    rw [hclocks, hsame, List.append_nil]
    exact h

theorem step_onPace (hi : q.Inv) {a : Action} (he : q.Enabled a) (hs : step ops q a = .ok q')
    (hid : id ∈ q.issued) (h : OnPace ops when interval cs (q.place id) (q.dueNow id)) :
    OnPace ops when interval (cs ++ clocksOf id (q.callback a).toList) (q'.place id)
      (q'.dueNow id) := by
  have hdue : (q.fate id).firings-q.ran.count id = q.dueNow id := Nat.add_sub_cancel_left _ _
  have hfated : OnPace ops when interval cs (q.fate id).place
      ((q.fate id).firings-q.ran.count id) := by
    rw [hdue]
    exact h
  -- no callback is run, and the fate is that of the step
  have hquiet : ∀ {f : Fate}, q.callback a = none → q'.fate id = f →
      OnPace ops when interval cs f.place (f.firings-q.ran.count id) →
      OnPace ops when interval (cs ++ clocksOf id (q.callback a).toList) (q'.place id)
        (q'.dueNow id) := by
    intro f hc hf hp
    have hran : q'.ran.count id = q.ran.count id := by
      rw [step_ran hi he hs, hc, Option.toList_none, List.map_nil, List.append_nil]
    obtain ⟨hplace, hdue'⟩ := due_of_fate hf hran
    rw [hc, hplace, hdue']
    simpa [clocksOf] using hp
  cases a with
  | addTimer timer when' interval' sequence clock =>
    refine hquiet rfl (addTimer_fate hi he hs id) ?_
    have hne : id ≠ ⟨timer, sequence⟩ := fun h => he.2.2.2 id hid (by rw [h])
    rw [if_neg hne]
    exact hfated
  | cancel timerId =>
    refine hquiet rfl (cancel_fate hi hs id) ?_
    split_ifs
    · exact hfated.cancel
    · exact hfated
  | handleRead now =>
    refine hquiet rfl (handleRead_fate hi he hs id) (OnPace.expire ?_ now hfated)
    rw [fate, dueNow_of_batch he, Nat.add_zero]
  | runNext => exact runNext_onPace hi he hs h
  | finishRead clock =>
    refine hquiet rfl (finishRead_fate hi he hs id) (OnPace.reset ?_ hfated)
    obtain ⟨b, hb, hp⟩ := batch_of_any he
    rw [fate, dueNow, hb]
    cases q.live? id with
    | none => rfl
    | some u => simp [of_decide_eq_true hp]
  | fire =>
    cases hs
    exact hquiet rfl (fate_congr rfl rfl Iff.rfl rfl) hfated

theorem callback_issued (hi : q.Inv) {a : Action} {now : Timestamp}
    (hc : q.callback a = some (id, now)) : id ∈ q.issued := by
  unfold callback at hc
  split at hc
  · split at hc
    · obtain ⟨t, ht, hid⟩ := Option.map_eq_some_iff.mp hc
      cases hid
      exact (hi.owns.ledger _).mpr (Or.inl ⟨t, ht, rfl⟩)
    · cases hc
  · cases hc

end Steps

section Runs
variable {ops : TimestampOps} {q q' : TimerQueue}

theorem clocksOf_append (id : TimerId) (xs ys : List (TimerId × Timestamp)) :
    clocksOf id (xs ++ ys) = clocksOf id xs ++ clocksOf id ys := by
  simp [clocksOf]

theorem run_callbacks_ran {as : List Action} (ha : Admitted (step ops) Enabled construct as)
    (hr : run (step ops) construct as = .ok q) :
    q.ran = (callbacks ops construct as).map Prod.fst ∧ ∀ id ∈ q.ran, id ∈ q.issued := by
  have h := run_history (o := callback) Enabled
    (I := fun q h => q.Inv ∧ q.ran = h.map Prod.fst ∧ ∀ id ∈ q.ran, id ∈ q.issued)
    (fun q h a q' hq he hs => ?_) as construct q [] ⟨construct_inv, rfl, fun _ h => absurd h
      List.not_mem_nil⟩ ha hr
  · exact h.2
  · obtain ⟨hi, hran, hiss⟩ := hq
    obtain ⟨q₁, h₁, hi₁⟩ := step_inv ops hi he
    cases h₁.symm.trans hs
    rw [step_ran hi he hs, step_issued hi he hs]
    refine ⟨hi₁, by rw [hran, List.map_append], fun id hid => List.mem_append_left _ ?_⟩
    rcases List.mem_append.mp hid with hid | hid
    · exact hiss id hid
    · obtain ⟨⟨id', now⟩, hc, rfl⟩ := List.mem_map.mp hid
      exact callback_issued hi (Option.mem_toList.mp hc)

theorem born_paced (hi : q.Inv) {timer : ℕ} {when clock : Timestamp} {interval : Seconds}
    {sequence : ℤ} {as : List Action}
    (ha : Admitted (step ops) Enabled q (.addTimer timer when interval sequence clock::as))
    (hr : run (step ops) q (.addTimer timer when interval sequence clock::as) = .ok q') :
    Paced ops when interval (clocksOf ⟨timer, sequence⟩
      (callbacks ops q (.addTimer timer when interval sequence clock::as))) := by
  obtain ⟨q₁, h₁, hi₁, ht⟩ := run_cons_inv hi ha.1 hr
  have hfate := addTimer_fate hi ha.1 h₁ ⟨timer, sequence⟩
  rw [if_pos rfl] at hfate
  have hplace : q₁.place ⟨timer, sequence⟩ = .queued (.construct when interval sequence) :=
    congrArg Fate.place hfate
  have hissued : (⟨timer, sequence⟩ : TimerId) ∈ q₁.issued := by
    rw [step_issued hi ha.1 h₁]
    exact List.mem_append_right _ (List.mem_singleton.mpr rfl)
  have hborn : OnPace ops when interval (clocksOf ⟨timer, sequence⟩ [])
      (q₁.place ⟨timer, sequence⟩) (q₁.dueNow ⟨timer, sequence⟩) := by
    rw [hplace]
    exact ⟨paced_nil, rfl, rfl, fun h => absurd rfl h⟩
  have h := run_history (o := callback) Enabled
    (I := fun q h => q.Inv ∧ (⟨timer, sequence⟩ : TimerId) ∈ q.issued ∧
      OnPace ops when interval (clocksOf ⟨timer, sequence⟩ h) (q.place ⟨timer, sequence⟩)
        (q.dueNow ⟨timer, sequence⟩))
    (fun q h a q' hq he hs => ?_) as q₁ q' [] ⟨hi₁, hissued, hborn⟩ (ha.2 q₁ h₁) ht
  · rw [callbacks, collect_cons h₁]
    exact h.2.2.paced
  · obtain ⟨hi, hiss, hp⟩ := hq
    obtain ⟨q₂, h₂, hi₂⟩ := step_inv ops hi he
    cases h₂.symm.trans hs
    rw [step_issued hi he hs, clocksOf_append]
    exact ⟨hi₂, List.mem_append_left _ hiss, step_onPace hi he hs hiss hp⟩

/-- Every run of the queue, whatever the wall clock reads: `callbacks` are the
callbacks run, and those of each timer handed in keep its pace. Where the clock
adds `d` for the interval, run `k` comes no earlier than `k` intervals after
the timer's first time. -/
theorem timer_pace (ops : TimestampOps) (as : List Action)
    (ha : Admitted (step ops) Enabled construct as) :
    ∃ q, run (step ops) construct as = .ok q ∧
      q.ran = (callbacks ops construct as).map Prod.fst ∧
      ∀ timer when interval sequence clock, .addTimer timer when interval sequence clock ∈ as →
        Paced ops when interval (clocksOf ⟨timer, sequence⟩ (callbacks ops construct as)) ∧
        ∀ d, (∀ c, ops.addTime c interval = c+d) → ∀ (k : ℕ) c,
          (clocksOf ⟨timer, sequence⟩ (callbacks ops construct as))[k]? = some c →
            when+k*d ≤ c := by
  obtain ⟨q, hr, -⟩ := run_inv ops construct_inv ha
  refine ⟨q, hr, (run_callbacks_ran ha hr).1, fun timer when interval sequence clock hm => ?_⟩
  suffices h : Paced ops when interval
      (clocksOf ⟨timer, sequence⟩ (callbacks ops construct as)) from ⟨h, fun d hd => h.nth hd⟩
  obtain ⟨xs, ys, rfl⟩ := List.append_of_mem hm
  obtain ⟨hxs, hys⟩ := (admitted_append xs _ construct).mp ha
  obtain ⟨q₁, hr₁, hi₁⟩ := run_inv ops construct_inv hxs
  have hrest : run (step ops) q₁ (.addTimer timer when interval sequence clock::ys) = .ok q := by
    rw [run_append, hr₁] at hr
    exact hr
  -- before its birth no callback was its own
  have hbefore : clocksOf ⟨timer, sequence⟩ (callbacks ops construct xs) = [] := by
    obtain ⟨hran, hiss⟩ := run_callbacks_ran hxs hr₁
    rw [clocksOf, List.map_eq_nil_iff, List.filter_eq_nil_iff]
    intro r hmem he
    have hid : r.1 ∈ q₁.issued := hiss r.1 (hran ▸ List.mem_map_of_mem hmem)
    rw [of_decide_eq_true he] at hid
    exact (hys q₁ hr₁).1.2.2.2 _ hid rfl
  rw [callbacks, collect_append hr₁, clocksOf_append]
  change Paced ops when interval (clocksOf _ (callbacks ops construct xs) ++ _)
  rw [hbefore, List.nil_append]
  exact born_paced hi₁ (hys q₁ hr₁) hrest

def setBack : List Action :=
  [.addTimer 16 5 2 1 3, .fire, .handleRead 7, .runNext, .finishRead 8, .fire, .handleRead 3000000,
    .runNext, .finishRead 3000000, .fire, .handleRead 1000000, .finishRead 1000000, .fire,
    .handleRead 5000000, .runNext, .finishRead 5000000]

theorem timer_pace_set_back :
    clocksOf ⟨16, 1⟩ (callbacks microsecondOps construct setBack) = [7, 3000000, 5000000] ∧
    Paced microsecondOps 5 2 (clocksOf ⟨16, 1⟩ (callbacks microsecondOps construct setBack)) ∧
    ∀ (k : ℕ) c, (clocksOf ⟨16, 1⟩ (callbacks microsecondOps construct setBack))[k]? = some c →
      5+k*2000000 ≤ c := by
  obtain ⟨q, -, -, hpace⟩ := timer_pace microsecondOps setBack (by decide +kernel)
  obtain ⟨hp, hnth⟩ := hpace 16 5 2 1 3 List.mem_cons_self
  have hfloor : ((2 : Seconds)*1000000).floor = 2000000 := by decide +kernel
  exact ⟨by decide +kernel, hp, hnth 2000000 (fun c => congrArg (c+·) hfloor)⟩

end Runs

end Lux.Polaris.TimerQueue
