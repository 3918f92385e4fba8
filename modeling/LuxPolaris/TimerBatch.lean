import LuxPolaris.TimerFates

/-!
# One handleRead

What a whole `handleRead` does to the queue, with whatever its callbacks add
and cancel. The timers due are taken out and run once each in the order of
their expirations. Of the others those cancelled are gone, of the new ones
those not cancelled are there, and a batch member comes back if it repeats and
was not cancelled.
-/

set_option autoImplicit false

namespace Lux.Polaris.TimerQueue
open Outcome

/-- What happens while the callbacks run: the next one starts, one of them
adds or cancels, or the descriptor fires. -/
def InCallback : Action → Prop
  | .addTimer _ _ _ _ _ => True
  | .cancel _ => True
  | .runNext => True
  | .fire => True
  | .handleRead _ => False
  | .finishRead _ => False

instance : (a : Action) → Decidable (InCallback a)
  | .addTimer _ _ _ _ _ => isTrue trivial
  | .cancel _ => isTrue trivial
  | .runNext => isTrue trivial
  | .fire => isTrue trivial
  | .handleRead _ => isFalse not_false
  | .finishRead _ => isFalse not_false

def cancelOf : Action → Option TimerId
  | .cancel id => some id
  | _ => none

def addOf : Action → Option TimerId
  | .addTimer timer _ _ sequence _ => some ⟨timer, sequence⟩
  | _ => none

def cancels (as : List Action) : List TimerId := as.filterMap cancelOf

def adds (as : List Action) : List TimerId := as.filterMap addOf

def kept : List Action → List (TimerId × Timer)
  | [] => []
  | .addTimer timer when interval sequence _::as =>
    if (⟨timer, sequence⟩ : TimerId) ∈ cancels as then kept as
    else (⟨timer, sequence⟩, .construct when interval sequence)::kept as
  | _::as => kept as

/-- The queue holds the timer: it is in both sets, under the keys it has. -/
def Holds (q : TimerQueue) (id : TimerId) (t : Timer) : Prop :=
  q.heap id.timer = some t ∧ t.sequence = id.sequence ∧ id.active ∈ q.activeTimers ∧
    ⟨t.expiration, id.timer⟩ ∈ q.timers

structure Extracts (q : TimerQueue) (now : Timestamp) (q₁ : TimerQueue) (expired : List Entry) :
    Prop where
  sorted : expired.Pairwise (fun d e => d.first ≤ e.first)
  nodup : (expired.map Entry.second).Nodup
  mem : ∀ e, e ∈ expired ↔ e ∈ q.timers ∧ e.first ≤ now
  timers : ∀ e, e ∈ q₁.timers ↔ e ∈ q.timers ∧ now < e.first
  active : ∀ id : TimerId, id.active ∈ q₁.activeTimers ↔ ∃ t, q.Holds id t ∧ now < t.expiration

/-- What the queue holds after the batch, given what its callbacks did. -/
structure Leaves (ops : TimestampOps) (q : TimerQueue) (now : Timestamp) (as : List Action)
    (q' : TimerQueue) : Prop where
  holds : ∀ id t, q'.Holds id t ↔
    q.Holds id t ∧ now < t.expiration ∧ id ∉ cancels as ∨
    (id, t) ∈ kept as ∨
    ∃ u, q.Holds id u ∧ u.expiration ≤ now ∧ u.repeat_ = true ∧ id ∉ cancels as ∧
      t = { u with expiration := ops.addTime now u.interval }
  timers : ∀ e, e ∈ q'.timers ↔ ∃ id t, q'.Holds id t ∧ e = ⟨t.expiration, id.timer⟩
  active : ∀ x, x ∈ q'.activeTimers ↔ ∃ id t, q'.Holds id t ∧ x = id.active
  freed : ∀ id u, q.Holds id u → u.expiration ≤ now → ¬(u.repeat_ = true ∧ id ∉ cancels as) →
    id ∈ q'.freed

section Held
variable {q : TimerQueue}

theorem holds_iff (hi : q.Inv) {id : TimerId} {t : Timer} :
    q.Holds id t ↔ q.place id = .queued t := (place_queued_iff hi).symm

theorem timers_iff (hi : q.Inv) (e : Entry) :
    e ∈ q.timers ↔ ∃ id t, q.Holds id t ∧ e = ⟨t.expiration, id.timer⟩ := by
  constructor
  · intro he
    obtain ⟨hn, t, ht, hw⟩ := (hi.owns.mem_timers e.first e.second).mp he
    refine ⟨⟨e.second, t.sequence⟩, t, ⟨ht, rfl, (hi.owns.mem_active _).mpr ⟨hn, t, ht, rfl⟩, ?_⟩,
      Entry.ext hw.symm rfl⟩
    rw [hw]
    exact he
  · rintro ⟨id, t, ⟨-, -, -, hm⟩, rfl⟩
    exact hm

theorem active_iff (hi : q.Inv) (x : ActiveTimer) :
    x ∈ q.activeTimers ↔ ∃ id t, q.Holds id t ∧ x = id.active := by
  constructor
  · intro hx
    obtain ⟨hn, t, ht, hs⟩ := (hi.owns.mem_active ⟨x.first, x.second⟩).mp hx
    exact ⟨⟨x.first, x.second⟩, t, ⟨ht, hs, hx, (hi.owns.mem_timers _ _).mpr ⟨hn, t, ht, rfl⟩⟩,
      rfl⟩
  · rintro ⟨id, t, ⟨-, -, hm, -⟩, rfl⟩
    exact hm

theorem getExpired_extracts (hi : q.Inv) (hb : q.batch = none) (now : Timestamp) :
    ∃ q₁, q.getExpired now = .ok (q₁, q.due now) ∧ q.Extracts now q₁ (q.due now) := by
  have ho : q.Owns [] := held_nil hb ▸ hi.owns
  obtain ⟨active, heq, hown⟩ := getExpired_of ho now
  have hlt : ∀ e, e ∈ q.timers → (⟨now, UINTPTR_MAX⟩ ≤ e ↔ now < e.first) := by
    intro e he
    obtain ⟨-, t, ht, -⟩ := (ho.mem_timers e.first e.second).mp he
    rw [← not_lt, lt_sentry (ho.address_lt _ _ ht), not_le]
  refine ⟨_, heq, ?_, due_nodup ho now, fun e => mem_due ho, fun e => ?_, fun id => ?_⟩
  · have hsorted := (q.timers.below_append_from ⟨now, UINTPTR_MAX⟩) ▸ q.timers.sorted
    exact (List.pairwise_append.mp hsorted).1.imp (fun h => first_le_of_le (le_of_lt h))
  · rw [SortedSet.mem_from]
    exact and_congr_right (hlt e)
  · rw [hown.mem_active id]
    constructor
    · intro ⟨hn, t, ht, hs⟩
      have hm : Entry.mk t.expiration id.timer ∈ q.timers :=
        (ho.mem_timers _ _).mpr ⟨List.not_mem_nil, t, ht, rfl⟩
      refine ⟨t, ⟨ht, hs, (ho.mem_active id).mpr ⟨List.not_mem_nil, t, ht, hs⟩, hm⟩, ?_⟩
      rw [← not_le]
      exact fun hle => hn (List.mem_map.mpr ⟨_, (mem_due ho).mpr ⟨hm, hle⟩, rfl⟩)
    · rintro ⟨t, ⟨ht, hs, -, hm⟩, hlate⟩
      refine ⟨fun hd => ?_, t, ht, hs⟩
      obtain ⟨e, he, hes⟩ := List.mem_map.mp hd
      obtain ⟨hem, hle⟩ := (mem_due ho).mp he
      obtain ⟨-, u, hu, hue⟩ := (ho.mem_timers e.first e.second).mp hem
      rw [hes] at hu
      cases ht.symm.trans hu
      rw [← hue] at hle
      exact absurd hlate (not_lt.mpr hle)

end Held

section Words

theorem mem_adds_of_kept {as : List Action} {id : TimerId} {t : Timer} (h : (id, t) ∈ kept as) :
    id ∈ adds as := by
  induction as with
  | nil => exact absurd h List.not_mem_nil
  | cons a as ih =>
    cases a with
    | addTimer timer when interval sequence clock =>
      rw [kept] at h
      change id ∈ ⟨timer, sequence⟩::adds as
      split_ifs at h
      · exact List.mem_cons_of_mem _ (ih h)
      · rcases List.mem_cons.mp h with he | hm
        · rw [(Prod.mk.inj he).1]
          exact List.mem_cons_self
        · exact List.mem_cons_of_mem _ (ih hm)
    | cancel id' => exact ih h
    | handleRead now => exact ih h
    | runNext => exact ih h
    | finishRead clock => exact ih h
    | fire => exact ih h

theorem cancel_cancel (f : Fate) : f.cancel.cancel = f.cancel := by
  rcases f with ⟨_ | _ | _, n⟩ <;> rfl

theorem callbacks_fate (ops : TimestampOps) {as : List Action} (hin : ∀ a ∈ as, InCallback a)
    {id : TimerId} (hna : id ∉ adds as) (f : Fate) :
    (lifeline id as).foldl (Fate.live ops) f = if id ∈ cancels as then f.cancel else f := by
  induction as generalizing f with
  | nil => rfl
  | cons a as ih =>
    have hin' := fun b hb => hin b (List.mem_cons_of_mem a hb)
    cases a with
    | addTimer timer when interval sequence clock =>
      have hne : id ≠ ⟨timer, sequence⟩ := fun h => hna (h ▸ List.mem_cons_self)
      have hna' : id ∉ adds as := fun h => hna (List.mem_cons_of_mem _ h)
      simpa [lifeline, lifeEvent, hne, cancels, cancelOf] using ih hin' hna' f
    | cancel id' =>
      by_cases hid : id' = id
      · subst hid
        have h := ih hin' hna f.cancel
        rw [cancel_cancel, ite_self] at h
        simpa [lifeline, lifeEvent, cancels, cancelOf, Fate.live] using h
      · have hne : id ≠ id' := fun h => hid h.symm
        simpa [lifeline, lifeEvent, hid, hne, cancels, cancelOf] using ih hin' hna f
    | handleRead now => exact (hin _ List.mem_cons_self).elim
    | runNext => exact ih hin' hna f
    | finishRead clock => exact (hin _ List.mem_cons_self).elim
    | fire => exact ih hin' hna f

theorem added_fate (ops : TimestampOps) {as : List Action} (hin : ∀ a ∈ as, InCallback a)
    (hnd : (adds as).Nodup) (id : TimerId) (n : ℕ) :
    (∃ t, (id, t) ∈ kept as ∧ (lifeline id as).foldl (Fate.live ops) ⟨.absent, n⟩ = ⟨.queued t, n⟩ ∧
      ∀ u, (id, u) ∈ kept as → u = t) ∨
    (lifeline id as).foldl (Fate.live ops) ⟨.absent, n⟩ = ⟨.absent, n⟩ ∧
      ∀ u, (id, u) ∉ kept as := by
  induction as with
  | nil => exact Or.inr ⟨rfl, fun _ => List.not_mem_nil⟩
  | cons a as ih =>
    have hin' := fun b hb => hin b (List.mem_cons_of_mem a hb)
    cases a with
    | addTimer timer when interval sequence clock =>
      obtain ⟨hnew, hnd'⟩ := List.nodup_cons.mp (show (⟨timer, sequence⟩::adds as).Nodup from hnd)
      by_cases hid : id = ⟨timer, sequence⟩
      · subst hid
        have hnone : ∀ u, (⟨timer, sequence⟩, u) ∉ kept as := fun u h => hnew (mem_adds_of_kept h)
        have hfold := callbacks_fate ops hin' hnew ⟨.queued (.construct when interval sequence), n⟩
        have hhead : (lifeline ⟨timer, sequence⟩
            (.addTimer timer when interval sequence clock::as)).foldl (Fate.live ops) ⟨.absent, n⟩ =
            (lifeline ⟨timer, sequence⟩ as).foldl (Fate.live ops)
              ⟨.queued (.construct when interval sequence), n⟩ := by
          simp [lifeline, lifeEvent, Fate.live]
        rw [hhead, hfold, kept]
        split_ifs with hc
        · exact Or.inr ⟨rfl, hnone⟩
        · refine Or.inl ⟨_, List.mem_cons_self, rfl, fun u hu => ?_⟩
          rcases List.mem_cons.mp hu with he | hm
          · exact (Prod.mk.inj he).2
          · exact absurd hm (hnone u)
      · have hmem : ∀ u, (id, u) ∈ kept (.addTimer timer when interval sequence clock::as) ↔
            (id, u) ∈ kept as := by
          intro u
          rw [kept]
          split_ifs
          · exact Iff.rfl
          · rw [List.mem_cons, Prod.mk.injEq]
            exact ⟨fun h => h.resolve_left (fun he => hid he.1), Or.inr⟩
        have hline : lifeline id (.addTimer timer when interval sequence clock::as) =
            lifeline id as := by
          simp [lifeline, lifeEvent, hid]
        simpa only [hmem, hline] using ih hin' hnd'
    | cancel id' =>
      have hline : (lifeline id (.cancel id'::as)).foldl (Fate.live ops) ⟨.absent, n⟩ =
          (lifeline id as).foldl (Fate.live ops) ⟨.absent, n⟩ := by
        by_cases hid : id' = id
        · simp [lifeline, lifeEvent, hid, Fate.live, Fate.cancel]
        · simp [lifeline, lifeEvent, hid]
      rw [hline]
      exact ih hin' hnd
    | handleRead now => exact (hin _ List.mem_cons_self).elim
    | runNext => exact ih hin' hnd
    | finishRead clock => exact (hin _ List.mem_cons_self).elim
    | fire => exact ih hin' hnd

end Words

section Runs
variable {ops : TimestampOps} {q q' : TimerQueue}

theorem step_issued (hi : q.Inv) {a : Action} (he : q.Enabled a) (hs : step ops q a = .ok q') :
    q'.issued = q.issued ++ (addOf a).toList := by
  cases a with
  | addTimer timer when interval sequence clock =>
    cases (addTimer_of ops hi he).symm.trans hs
    exact (added_frame (q.new timer (.construct when interval sequence)) timer
      (.construct when interval sequence) clock).2.2.2.2.2.2.1
  | cancel id =>
    rcases cancelInLoop_of hi.owns id with ⟨t, -, -, heq⟩ | ⟨-, heq⟩
    all_goals
      cases heq.symm.trans hs
      exact (List.append_nil _).symm
  | handleRead now =>
    obtain ⟨active, heq, -⟩ := handleRead_of (held_nil he ▸ hi.owns) now
    cases heq.symm.trans hs
    exact (List.append_nil _).symm
  | runNext =>
    obtain ⟨es, e, pending, now, hb⟩ := pending_of_enabled he
    obtain ⟨t, -, heq⟩ := runNext_of hi hb
    cases heq.symm.trans hs
    exact (List.append_nil _).symm
  | finishRead clock =>
    obtain ⟨b, hb, -⟩ := batch_of_any he
    obtain ⟨q₁, hr, heq⟩ := finishRead_of ops hb (held_eq hb ▸ hi.owns) clock
    cases heq.symm.trans hs
    have hiss : q₁.issued = q.issued ++ [] := hr.issued.trans (List.append_nil _).symm
    split_ifs
    · exact hiss
    · exact hiss
  | fire =>
    cases hs
    exact (List.append_nil _).symm

theorem run_adds (hi : q.Inv) {as : List Action} (ha : Admitted (step ops) Enabled q as)
    (hr : run (step ops) q as = .ok q') :
    q'.issued = q.issued ++ adds as ∧ (adds as).Nodup ∧ ∀ id ∈ adds as, id ∉ q.issued := by
  induction as generalizing q with
  | nil =>
    cases hr
    exact ⟨(List.append_nil _).symm, List.nodup_nil, fun _ h => absurd h List.not_mem_nil⟩
  | cons a as ih =>
    obtain ⟨q₁, h₁, hi₁, ht⟩ := run_cons_inv hi ha.1 hr
    obtain ⟨hiss, hnd, hnew⟩ := ih hi₁ (ha.2 q₁ h₁) ht
    have hone := step_issued hi ha.1 h₁
    have hadds : adds (a::as) = (addOf a).toList ++ adds as := by
      rw [adds, adds, List.filterMap_cons]
      cases addOf a <;> rfl
    rw [hone] at hiss hnew
    refine ⟨by rw [hiss, hadds, List.append_assoc], ?_, ?_⟩
    · rw [hadds, List.nodup_append]
      refine ⟨by cases addOf a <;> simp, hnd, fun x hx y hy he => ?_⟩
      exact hnew y hy (List.mem_append_right _ (he ▸ hx))
    · intro id hid
      rw [hadds, List.mem_append] at hid
      rcases hid with hm | hm
      · cases a with
        | addTimer timer when interval sequence clock =>
          obtain ⟨-, -, -, hseq⟩ := ha.1
          rw [List.mem_singleton.mp hm]
          exact fun h => hseq _ h rfl
        | cancel id' => exact absurd hm List.not_mem_nil
        | handleRead now => exact absurd hm List.not_mem_nil
        | runNext => exact absurd hm List.not_mem_nil
        | finishRead clock => exact absurd hm List.not_mem_nil
        | fire => exact absurd hm List.not_mem_nil
      · exact fun h => hnew id hm (List.mem_append_left _ h)

def Names (q : TimerQueue) : List Entry → List TimerId → Prop :=
  List.Forall₂ (fun e id => id.timer = e.second ∧ q.Live id)

theorem step_callback (hi : q.Inv) {a : Action} (hin : InCallback a) (he : q.Enabled a)
    (hs : step ops q a = .ok q') {es pending : List Entry} {now : Timestamp}
    (hb : q.batch = some ⟨es, pending, now⟩) :
    (∃ done fired rest, pending = done ++ rest ∧ q'.batch = some ⟨es, rest, now⟩ ∧
      q.Names done fired ∧ q'.ran = q.ran ++ fired) ∧
    ∀ id : TimerId, id.timer ∈ es.map Entry.second → q'.Live id → q.Live id := by
  have hquiet : q'.batch = q.batch → q'.ran = q.ran →
      ∃ done fired rest, pending = done ++ rest ∧ q'.batch = some ⟨es, rest, now⟩ ∧
        q.Names done fired ∧ q'.ran = q.ran ++ fired := fun h₁ h₂ =>
    ⟨[], [], pending, rfl, h₁.trans hb, .nil, by rw [h₂, List.append_nil]⟩
  cases a with
  | addTimer timer when interval sequence clock =>
    have heq := addTimer_of ops hi he
    obtain ⟨-, hfree, -, -⟩ := he
    obtain ⟨hh, -, -, -, -, hqb, -, -, hran⟩ := added_frame
      (q.new timer (.construct when interval sequence)) timer (.construct when interval sequence)
      clock
    cases heq.symm.trans hs
    refine ⟨hquiet hqb hran, fun id hid hl => ?_⟩
    rw [Live, hh] at hl
    refine ((new_live _ hfree id).mp hl).resolve_right (fun hnew => ?_)
    obtain ⟨t, ht⟩ := hi.owns.held_live id.timer (by rw [held_eq hb]; exact hid)
    rw [hnew, hfree] at ht
    cases ht
  | cancel id' =>
    rcases cancelInLoop_of hi.owns id' with ⟨t, ht, -, heq⟩ | ⟨-, heq⟩
    · cases heq.symm.trans hs
      refine ⟨hquiet rfl rfl, ?_⟩
      rintro id hid ⟨u, hu, hseq⟩
      refine ⟨u, ?_, hseq⟩
      by_cases ha : id.timer = id'.timer
      · simp [cancelled, ha] at hu
      · simpa [cancelled, ha] using hu
    · cases heq.symm.trans hs
      exact ⟨hquiet rfl rfl, fun id _ hl => hl⟩
  | handleRead now => exact hin.elim
  | runNext =>
    obtain ⟨es', e, rest, now', hb'⟩ := pending_of_enabled he
    obtain ⟨t, ht, heq⟩ := runNext_of hi hb'
    cases hb.symm.trans hb'
    cases heq.symm.trans hs
    exact ⟨⟨[e], [⟨e.second, t.sequence⟩], rest, rfl, rfl, .cons ⟨rfl, t, ht, rfl⟩ .nil, rfl⟩,
      fun id _ hl => hl⟩
  | finishRead clock => exact hin.elim
  | fire =>
    cases hs
    exact ⟨hquiet rfl rfl, fun id _ hl => hl⟩

theorem run_callbacks (hi : q.Inv) {as : List Action} (hin : ∀ a ∈ as, InCallback a)
    (ha : Admitted (step ops) Enabled q as) (hr : run (step ops) q as = .ok q')
    {es pending : List Entry} {now : Timestamp} (hb : q.batch = some ⟨es, pending, now⟩) :
    ∃ done fired rest, pending = done ++ rest ∧ q'.batch = some ⟨es, rest, now⟩ ∧
      q.Names done fired ∧ q'.ran = q.ran ++ fired := by
  induction as generalizing q pending with
  | nil =>
    cases hr
    exact ⟨[], [], pending, rfl, hb, .nil, (List.append_nil _).symm⟩
  | cons a as ih =>
    obtain ⟨q₁, h₁, hi₁, ht⟩ := run_cons_inv hi ha.1 hr
    obtain ⟨⟨done, fired, rest, hp, hb₁, hn, hran⟩, hlive⟩ :=
      step_callback hi (hin a List.mem_cons_self) ha.1 h₁ hb
    obtain ⟨done', fired', rest', hp', hb', hn', hran'⟩ :=
      ih hi₁ (fun b h => hin b (List.mem_cons_of_mem a h)) (ha.2 q₁ h₁) ht hb₁
    have hsub : ∀ e ∈ done', e.second ∈ es.map Entry.second := by
      intro e he
      have hmem : e ∈ pending := by
        rw [hp, hp']
        exact List.mem_append_right _ (List.mem_append_left _ he)
      exact List.mem_map_of_mem ((hi.suffix _ hb).subset hmem)
    have hnames : q.Names done' fired' := by
      obtain ⟨hlen, hget⟩ := List.forall₂_iff_get.mp hn'
      refine List.forall₂_iff_get.mpr ⟨hlen, fun i h₁ h₂ => ?_⟩
      obtain ⟨he, hl⟩ := hget i h₁ h₂
      exact ⟨he, hlive _ (he ▸ hsub _ (List.get_mem _ _)) hl⟩
    refine ⟨done ++ done', fired ++ fired', rest', ?_, hb', List.rel_append hn hnames, ?_⟩
    · rw [hp, hp', List.append_assoc]
    · rw [hran', hran, List.append_assoc]

theorem held_after (ops : TimestampOps) {now : Timestamp} {as : List Action}
    (hin : ∀ a ∈ as, InCallback a) {id : TimerId} (hna : id ∉ adds as) (t : Timer) (n : ℕ) :
    (((lifeline id as).foldl (Fate.live ops) (Fate.expire now ⟨.queued t, n⟩)).reset ops).place =
      if t.expiration ≤ now then
        (if t.repeat_ = true ∧ id ∉ cancels as then
          .queued { t with expiration := ops.addTime now t.interval } else .absent)
      else if id ∈ cancels as then .absent else .queued t := by
  rw [callbacks_fate ops hin hna, Fate.expire]
  by_cases hle : t.expiration ≤ now
  · by_cases hc : id ∈ cancels as
    · simp [hle, hc, Fate.cancel, Fate.reset]
    · by_cases hrep : t.repeat_ = true
      · simp [hle, hc, Fate.reset, hrep, Timer.restart]
      · simp [hle, hc, Fate.reset, hrep]
  · by_cases hc : id ∈ cancels as
    · simp [hle, hc, Fate.cancel, Fate.reset]
    · simp [hle, hc, Fate.reset]

theorem place_of_held (hi : q.Inv) {now : Timestamp} {as : List Action}
    (hin : ∀ a ∈ as, InCallback a) {id : TimerId} (hna : id ∉ adds as)
    (hfate : q'.fate id =
      ((lifeline id as).foldl (Fate.live ops) ((q.fate id).expire now)).reset ops)
    {t : Timer} (ht : q.Holds id t) :
    q'.place id = if t.expiration ≤ now then
        (if t.repeat_ = true ∧ id ∉ cancels as then
          .queued { t with expiration := ops.addTime now t.interval } else .absent)
      else if id ∈ cancels as then .absent else .queued t := by
  have h := congrArg Fate.place hfate
  rw [fate, fate, (holds_iff hi).mp ht, held_after ops hin hna] at h
  exact h

theorem fate_of_not_holds (hi : q.Inv) (hb : q.batch = none) {id : TimerId}
    (h : ¬∃ t, q.Holds id t) : q.fate id = ⟨.absent, q.ran.count id⟩ := by
  refine fate_of_not_live (fun hl => ?_)
  obtain ⟨t, ht⟩ := Option.isSome_iff_exists.mp (live?_isSome.mpr hl)
  exact h ⟨t, (holds_iff hi).mpr (place_queued.mpr ⟨ht, not_held hb _⟩)⟩

/-- What is left of a timer, by the three ways to be in the queue. -/
def Remains (ops : TimestampOps) (q : TimerQueue) (now : Timestamp) (as : List Action)
    (id : TimerId) (t : Timer) : Prop :=
  q.Holds id t ∧ now < t.expiration ∧ id ∉ cancels as ∨
  (id, t) ∈ kept as ∨
  ∃ u, q.Holds id u ∧ u.expiration ≤ now ∧ u.repeat_ = true ∧ id ∉ cancels as ∧
    t = { u with expiration := ops.addTime now u.interval }

theorem remains_of_held (hi : q.Inv) (hi' : q'.Inv) {now : Timestamp} {as : List Action}
    (hin : ∀ a ∈ as, InCallback a) {id : TimerId} (hna : id ∉ adds as)
    (hfate : q'.fate id =
      ((lifeline id as).foldl (Fate.live ops) ((q.fate id).expire now)).reset ops)
    {u : Timer} (hu : q.Holds id u) (t : Timer) :
    q'.Holds id t ↔ Remains ops q now as id t := by
  have hkept : (id, t) ∉ kept as := fun hm => hna (mem_adds_of_kept hm)
  have huniq : ∀ v, q.Holds id v → v = u := fun v hv => Option.some.inj (hv.1.symm.trans hu.1)
  rw [holds_iff hi', place_of_held hi hin hna hfate hu]
  constructor
  · intro h
    split_ifs at h with h₁ h₂ h₃
    · cases h
      exact Or.inr (Or.inr ⟨u, hu, h₁, h₂.1, h₂.2, rfl⟩)
    · cases h
      exact Or.inl ⟨hu, not_le.mp h₁, h₃⟩
  · rintro (⟨ht, hlate, hc⟩ | hm | ⟨v, hv, hle, hrep, hc, rfl⟩)
    · cases huniq t ht
      rw [if_neg (not_le.mpr hlate), if_neg hc]
    · exact absurd hm hkept
    · cases huniq v hv
      rw [if_pos hle, if_pos ⟨hrep, hc⟩]

theorem remains_of_new (hi : q.Inv) (hb : q.batch = none) (hi' : q'.Inv) {now : Timestamp}
    {as : List Action} (hin : ∀ a ∈ as, InCallback a) (hnd : (adds as).Nodup) {id : TimerId}
    (hfate : q'.fate id =
      ((lifeline id as).foldl (Fate.live ops) ((q.fate id).expire now)).reset ops)
    (hex : ¬∃ u, q.Holds id u) (t : Timer) :
    q'.Holds id t ↔ Remains ops q now as id t := by
  have hexpire : Fate.expire now ⟨.absent, q.ran.count id⟩ = ⟨.absent, q.ran.count id⟩ := rfl
  have hp := congrArg Fate.place hfate
  rw [fate_of_not_holds hi hb hex, hexpire] at hp
  have hremains : Remains ops q now as id t ↔ (id, t) ∈ kept as := by
    constructor
    · rintro (h | h | ⟨u, hu, -⟩)
      · exact absurd ⟨t, h.1⟩ hex
      · exact h
      · exact absurd ⟨u, hu⟩ hex
    · exact fun h => Or.inr (Or.inl h)
  rw [holds_iff hi', hremains]
  change q'.place id = .queued t ↔ _
  rcases added_fate ops hin hnd id (q.ran.count id) with ⟨u, hu, hfold, huniq⟩ | ⟨hfold, hno⟩
  · rw [hfold] at hp
    change q'.place id = .queued u at hp
    rw [hp, Place.queued.injEq]
    constructor
    · rintro rfl
      exact hu
    · exact fun h => (huniq t h).symm
  · rw [hfold] at hp
    change q'.place id = .absent at hp
    rw [hp]
    exact ⟨fun h => (nomatch h), fun h => absurd h (hno t)⟩

theorem leaves_of_fates (hi : q.Inv) (hb : q.batch = none) (hi' : q'.Inv) {now : Timestamp}
    {as : List Action} (hin : ∀ a ∈ as, InCallback a) (hnd : (adds as).Nodup)
    (hnew : ∀ id ∈ adds as, id ∉ q.issued) (hiss : ∀ id ∈ q.issued, id ∈ q'.issued)
    (hfate : ∀ id, q'.fate id =
      ((lifeline id as).foldl (Fate.live ops) ((q.fate id).expire now)).reset ops) :
    Leaves ops q now as q' := by
  have hissued : ∀ {id t}, q.Holds id t → id ∈ q.issued :=
    fun ht => (hi.owns.ledger _).mpr (Or.inl ⟨_, ht.1, ht.2.1⟩)
  have hold : ∀ {id t}, q.Holds id t → id ∉ adds as := fun ht hm => hnew _ hm (hissued ht)
  refine ⟨fun id t => ?_, timers_iff hi', active_iff hi', fun id u hu hle hn => ?_⟩
  · by_cases hex : ∃ u, q.Holds id u
    · obtain ⟨u, hu⟩ := hex
      exact remains_of_held hi hi' hin (hold hu) (hfate id) hu t
    · exact remains_of_new hi hb hi' hin hnd (hfate id) hex t
  · have hgone : q'.place id = .absent := by
      rw [place_of_held hi hin (hold hu) (hfate id) hu, if_pos hle, if_neg hn]
    have h := (hi'.owns.ledger id).mp (hiss id (hissued hu))
    exact h.resolve_left (place_absent.mp hgone)

end Runs

/-- The whole of one `handleRead` from any consistent queue: `getExpired`
takes out exactly the timers due, in the order of their expirations; each of
them runs once, in that order, and none of those added meanwhile; and the queue
is left with what `Leaves` says. -/
theorem handleRead_effect (ops : TimestampOps) (q : TimerQueue) (now clock : Timestamp)
    (as : List Action) (hi : q.Inv) (hin : ∀ a ∈ as, InCallback a)
    (ha : Admitted (step ops) Enabled q (.handleRead now::(as ++ [.finishRead clock]))) :
    ∃ q₁ expired fired q', q.getExpired now = .ok (q₁, expired) ∧ q.Extracts now q₁ expired ∧
      run (step ops) q (.handleRead now::(as ++ [.finishRead clock])) = .ok q' ∧
      q'.ran = q.ran ++ fired ∧ q.Names expired fired ∧ (∀ id ∈ adds as, id ∉ fired) ∧
      Leaves ops q now as q' := by
  have hb : q.batch = none := ha.1
  obtain ⟨q₁, hget, hext⟩ := getExpired_extracts hi hb now
  obtain ⟨q₀, h₀, hi₀⟩ := step_inv ops hi ha.1
  obtain ⟨active, heq, -⟩ := handleRead_of (held_nil hb ▸ hi.owns) now
  have hb₀ : q₀.batch = some ⟨q.due now, q.due now, now⟩ := by
    cases heq.symm.trans h₀
    rfl
  have hq₀ : q₀.ran = q.ran ∧ q₀.issued = q.issued ∧ ∀ id, q₀.Live id ↔ q.Live id := by
    cases heq.symm.trans h₀
    exact ⟨rfl, rfl, fun _ => Iff.rfl⟩
  obtain ⟨haas, hfin⟩ := (admitted_append as [.finishRead clock] q₀).mp (ha.2 q₀ h₀)
  obtain ⟨q₂, h₂, hi₂⟩ := run_inv ops hi₀ haas
  obtain ⟨hen, -⟩ := hfin q₂ h₂
  obtain ⟨q', h', hi'⟩ := step_inv ops hi₂ hen
  obtain ⟨done, fired, rest, hdue, hb₂, hnames, hran⟩ := run_callbacks hi₀ hin haas h₂ hb₀
  obtain ⟨hiss, hnd, hnew⟩ := run_adds hi₀ haas h₂
  have hrest : rest = [] := by
    obtain ⟨b, hb', hp⟩ := batch_of_any hen
    cases hb₂.symm.trans hb'
    exact of_decide_eq_true hp
  rw [hrest, List.append_nil] at hdue
  rw [← hdue] at hnames
  have hnamed : q.Names (q.due now) fired := hnames.imp (fun _ _ h => ⟨h.1, (hq₀.2.2 _).mp h.2⟩)
  refine ⟨q₁, q.due now, fired, q', hget, hext, ?_, ?_, hnamed, ?_, ?_⟩
  · exact run_cons_ok.mpr ⟨q₀, h₀, run_snoc_ok.mpr ⟨q₂, h₂, h'⟩⟩
  · have hlast : q'.ran = q₂.ran := by
      obtain ⟨b, hb', -⟩ := batch_of_any hen
      exact (finishRead_heap hb' hi₂ h' 0).2.1
    rw [hlast, hran, hq₀.1]
  · intro id hid hm
    obtain ⟨i, hlt, hget'⟩ := List.mem_iff_getElem.mp hm
    obtain ⟨hlen, hall⟩ := List.forall₂_iff_get.mp hnamed
    have hl := (hall i (hlen ▸ hlt) hlt).2
    rw [List.get_eq_getElem, hget'] at hl
    exact hnew id hid (hq₀.2.1 ▸ (hi.owns.ledger id).mpr (Or.inl hl))
  · refine leaves_of_fates hi hb hi' hin hnd (fun id hid => hq₀.2.1 ▸ hnew id hid) ?_ ?_
    · intro id hid
      have hstep := step_issued hi₂ hen h'
      rw [hstep, hiss, hq₀.2.1]
      exact List.mem_append_left _ (List.mem_append_left _ hid)
    · intro id
      rw [finishRead_fate hi₂ hen h', run_fate hi₀ haas h₂, handleRead_fate hi hb h₀]

/-- Two timers expire; the first one's callback cancels one that waits and adds
one that is overdue, the second one's callback cancels itself. -/
theorem handleRead_effect_reentrant : ∃ q q' fired,
    run (step microsecondOps) construct
      [.addTimer 16 5 2 1 3, .addTimer 32 6 1 2 3, .addTimer 48 90 0 3 3, .fire] = .ok q ∧
    run (step microsecondOps) q (.handleRead 7::([.runNext, .cancel ⟨48, 3⟩, .addTimer 64 1 0 4 8,
      .runNext, .cancel ⟨32, 2⟩] ++ [.finishRead 9])) = .ok q' ∧
    q'.ran = q.ran ++ fired ∧
    Leaves microsecondOps q 7 [.runNext, .cancel ⟨48, 3⟩, .addTimer 64 1 0 4 8, .runNext,
      .cancel ⟨32, 2⟩] q' := by
  have ha₀ : Admitted (step microsecondOps) Enabled construct [.addTimer 16 5 2 1 3,
      .addTimer 32 6 1 2 3, .addTimer 48 90 0 3 3, .fire] := by decide +kernel
  obtain ⟨q, hq, hi⟩ := run_inv microsecondOps construct_inv ha₀
  have ha : Admitted (step microsecondOps) Enabled q (.handleRead 7::([.runNext, .cancel ⟨48, 3⟩,
      .addTimer 64 1 0 4 8, .runNext, .cancel ⟨32, 2⟩] ++ [.finishRead 9])) := by
    refine ((admitted_append [.addTimer 16 5 2 1 3, .addTimer 32 6 1 2 3, .addTimer 48 90 0 3 3,
      .fire] _ construct).mp ?_).2 q hq
    decide +kernel
  obtain ⟨-, -, fired, q', -, -, hr, hran, -, -, hl⟩ :=
    handleRead_effect microsecondOps q 7 9 _ hi (by decide) ha
  exact ⟨q, q', fired, hq, hr, hran, hl⟩

end Lux.Polaris.TimerQueue
