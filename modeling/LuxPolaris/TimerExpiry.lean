import LuxPolaris.TimerOwnership

/-!
# Expiry and re-arming of a batch

`getExpired` moves the due timers out of both sets into the batch, and `reset`
puts the repeating ones back or frees them, whatever the callbacks between
have added and cancelled.
-/

set_option autoImplicit false

namespace Lux.Polaris.TimerQueue
open Outcome

section Expiry

theorem eraseExpired_of (es : List Entry) {q : TimerQueue} (hnd : (es.map Entry.second).Nodup)
    (hmem : ∀ e ∈ es, ∃ t, q.heap e.second = some t ∧
      TimerId.active ⟨e.second, t.sequence⟩ ∈ q.activeTimers)
    (hlive : ∀ id : TimerId, id.active ∈ q.activeTimers → q.Live id) :
    ∃ active, q.eraseExpired es = .ok { q with activeTimers := active } ∧
      active.size+es.length = q.activeTimers.size ∧
      ∀ id : TimerId, id.active ∈ active ↔
        id.timer ∉ es.map Entry.second ∧ id.active ∈ q.activeTimers := by
  induction es generalizing q with
  | nil => exact ⟨q.activeTimers, rfl, rfl, fun id => by simp⟩
  | cons e es ih =>
    obtain ⟨t, ht, hm⟩ := hmem e List.mem_cons_self
    rw [List.map_cons, List.nodup_cons] at hnd
    have hothers : ∀ d ∈ es, ∃ u, q.heap d.second = some u ∧ TimerId.active ⟨d.second, u.sequence⟩ ∈
        q.activeTimers.erase (TimerId.active ⟨e.second, t.sequence⟩) := by
      intro d hd
      obtain ⟨u, hu, hmu⟩ := hmem d (List.mem_cons_of_mem e hd)
      refine ⟨u, hu, SortedSet.mem_erase.mpr ⟨?_, hmu⟩⟩
      intro he
      have hed : d.second = e.second := congrArg TimerId.timer (active_inj.mp he)
      exact hnd.1 (hed ▸ List.mem_map_of_mem hd)
    obtain ⟨active, heq, hsize, hact⟩ := ih (q := { q with
      activeTimers := q.activeTimers.erase (TimerId.active ⟨e.second, t.sequence⟩) }) hnd.2 hothers
      (fun id h => hlive id (SortedSet.mem_erase.mp h).2)
    refine ⟨active, ?_, ?_, ?_⟩
    · rw [eraseExpired, deref_of ht, ok_bind, assertThat_of hm, ok_bind, heq]
    · have herase := SortedSet.size_erase hm
      simp only [List.length_cons] at hsize ⊢
      omega
    · intro id
      rw [hact, SortedSet.mem_erase, List.map_cons, List.mem_cons, not_or]
      constructor
      · intro ⟨hn, hne, hv⟩
        refine ⟨⟨fun he => hne (active_inj.mpr ?_), hn⟩, hv⟩
        have hs := live_unique (he ▸ ht) (hlive id hv)
        cases id
        simp_all
      · intro ⟨⟨hne, hn⟩, hv⟩
        exact ⟨hn, fun he => hne (by rw [active_inj.mp he]), hv⟩

/-- The entries that `getExpired` moves out. -/
def due (q : TimerQueue) (now : Timestamp) : List Entry := q.timers.below ⟨now, UINTPTR_MAX⟩

theorem mem_due {q : TimerQueue} {held : List ℕ} (ho : q.Owns held) {now : Timestamp} {e : Entry} :
    e ∈ q.due now ↔ e ∈ q.timers ∧ e.first ≤ now := by
  rw [due, SortedSet.mem_below]
  refine and_congr_right fun he => ?_
  obtain ⟨-, t, ht, -⟩ := (ho.mem_timers e.first e.second).mp he
  exact lt_sentry (ho.address_lt _ _ ht)

theorem due_nodup {q : TimerQueue} {held : List ℕ} (ho : q.Owns held) (now : Timestamp) :
    ((q.due now).map Entry.second).Nodup := by
  refine List.Nodup.map_on ?_ (q.timers.below_nodup _)
  intro e he d hd hed
  obtain ⟨-, t, ht, hte⟩ := (ho.mem_timers e.first e.second).mp (SortedSet.mem_below.mp he).1
  obtain ⟨-, u, hu, hud⟩ := (ho.mem_timers d.first d.second).mp (SortedSet.mem_below.mp hd).1
  rw [hed, hu] at ht
  cases ht
  exact Entry.ext (hte.symm.trans hud) hed

theorem getExpired_of {q : TimerQueue} (ho : q.Owns []) (now : Timestamp) :
    ∃ active,
      q.getExpired now = .ok ({ q with
        timers := q.timers.from_ ⟨now, UINTPTR_MAX⟩, activeTimers := active }, q.due now) ∧
      Owns { q with timers := q.timers.from_ ⟨now, UINTPTR_MAX⟩, activeTimers := active }
        ((q.due now).map Entry.second) := by
  have hmem : ∀ e ∈ q.due now, ∃ t, q.heap e.second = some t ∧
      TimerId.active ⟨e.second, t.sequence⟩ ∈ q.activeTimers := by
    intro e he
    obtain ⟨-, t, ht, -⟩ := (ho.mem_timers e.first e.second).mp (SortedSet.mem_below.mp he).1
    exact ⟨t, ht, (ho.mem_active _).mpr ⟨List.not_mem_nil, t, ht, rfl⟩⟩
  obtain ⟨active, heq, hsize, hact⟩ := eraseExpired_of (q.due now)
    (q := { q with timers := q.timers.from_ ⟨now, UINTPTR_MAX⟩ }) (due_nodup ho now) hmem
    (fun id h => ((ho.mem_active id).mp h).2)
  have hsizes : (q.timers.from_ ⟨now, UINTPTR_MAX⟩).size = active.size := by
    have h1 := q.timers.length_below ⟨now, UINTPTR_MAX⟩
    have h2 := ho.size_eq
    simp only [due] at hsize
    omega
  have hend : ((q.timers.from_ ⟨now, UINTPTR_MAX⟩).begin?.all
      fun it => decide (now < it.first)) = true := by
    cases hb : (q.timers.from_ ⟨now, UINTPTR_MAX⟩).begin? with
    | none => rfl
    | some e =>
      obtain ⟨hm, hle⟩ := SortedSet.mem_from.mp (SortedSet.begin?_spec hb).1
      have hnd : e ∉ q.due now := fun h => absurd (SortedSet.mem_below.mp h).2 (not_lt.mpr hle)
      rw [mem_due ho] at hnd
      simpa using fun h => hnd ⟨hm, h⟩
  refine ⟨active, ?_, ?_⟩
  · simp only [getExpired, assertSizes, assertThat_of ho.size_eq, assertThat_of hend, ok_bind]
    change (eraseExpired _ (q.due now) >>= _) = _
    rw [heq, ok_bind, assertThat_of hsizes, ok_bind]
    rfl
  · have hheld : ∀ a t, q.heap a = some t →
        (a ∈ (q.due now).map Entry.second ↔ Entry.mk t.expiration a ∈ q.due now) := by
      intro a t ht
      rw [List.mem_map]
      constructor
      · rintro ⟨e, he, rfl⟩
        obtain ⟨-, u, hu, hue⟩ := (ho.mem_timers e.first e.second).mp (SortedSet.mem_below.mp he).1
        rw [ht] at hu
        cases hu
        rw [hue]
        exact he
      · exact fun he => ⟨_, he, rfl⟩
    refine ⟨hsizes, ?_, due_nodup ho now, ?_, ?_, ho.address_lt, ho.ledger, ho.not_freed,
      ho.freed_nodup⟩
    · intro a ha
      obtain ⟨e, he, rfl⟩ := List.mem_map.mp ha
      obtain ⟨t, ht, -⟩ := hmem e he
      exact ⟨t, ht⟩
    · intro w a
      rw [SortedSet.mem_from, ho.mem_timers]
      constructor
      · rintro ⟨⟨_, t, ht, hw⟩, hle⟩
        refine ⟨fun h => ?_, t, ht, hw⟩
        have hdue := (hheld a t ht).mp h
        rw [hw] at hdue
        exact absurd (SortedSet.mem_below.mp hdue).2 (not_lt.mpr hle)
      · rintro ⟨hn, t, ht, hw⟩
        refine ⟨⟨List.not_mem_nil, t, ht, hw⟩, not_lt.mp fun hlt => ?_⟩
        refine hn ((hheld a t ht).mpr (SortedSet.mem_below.mpr ⟨?_, hw ▸ hlt⟩))
        exact (ho.mem_timers _ _).mpr ⟨List.not_mem_nil, t, ht, rfl⟩
    · intro id
      rw [hact, ho.mem_active]
      constructor
      · exact fun h => ⟨h.1, h.2.2⟩
      · exact fun h => ⟨h.1, List.not_mem_nil, h.2⟩

theorem restarted_owns {q : TimerQueue} {held : List ℕ} {a : ℕ} (ho : q.Owns (a::held))
    {t u : Timer} (h : q.heap a = some t) (hs : u.sequence = t.sequence) :
    Owns { q with heap := Function.update q.heap a (some u) } (a::held) := by
  have hlive : ∀ id, Live { q with heap := Function.update q.heap a (some u) } id ↔ q.Live id := by
    intro id
    by_cases ha : id.timer = a <;> simp [Live, ha, h, hs]
  refine ⟨ho.size_eq, ?_, ho.held_nodup, ?_, ?_, ?_, ?_, ?_, ho.freed_nodup⟩
  · intro b hb
    by_cases hba : b = a
    · exact ⟨u, by simp [hba]⟩
    · simpa [hba] using ho.held_live b hb
  · intro w b
    rw [ho.mem_timers]
    by_cases hba : b = a <;> simp [hba]
  · intro id
    rw [hlive, ho.mem_active]
  · intro b v hv
    by_cases hba : b = a
    · exact hba ▸ ho.address_lt a t h
    · exact ho.address_lt b v (by simpa [hba] using hv)
  · intro id
    rw [hlive, ho.ledger]
  · intro id hv
    exact ho.not_freed id ((hlive id).mp hv)

end Expiry

section Reset
variable {ops : TimestampOps}

/-- What the loop of `reset` makes of `q`: no timer is held any more, the
cancelled ones of the batch are gone, and the new entries are those of
repeated timers. -/
structure Restored (ops : TimestampOps) (q : TimerQueue) (now : Timestamp) (es : List Entry)
    (q' : TimerQueue) : Prop where
  owns : q'.Owns []
  callingExpiredTimers : q'.callingExpiredTimers = q.callingExpiredTimers
  cancelingTimers : q'.cancelingTimers = q.cancelingTimers
  timerfd : q'.timerfd = q.timerfd
  issued : q'.issued = q.issued
  ran : q'.ran = q.ran
  live : ∀ id, q'.Live id → q.Live id ∧
    (id.timer ∈ es.map Entry.second → id.active ∉ q.cancelingTimers)
  timers : ∀ e ∈ q'.timers, e ∈ q.timers ∨ ∃ t, q.heap e.second = some t ∧
    e.second ∈ es.map Entry.second ∧ t.repeat_ = true ∧ e.first = ops.addTime now t.interval

theorem restored_nil {q : TimerQueue} (ho : q.Owns []) (now : Timestamp) :
    Restored ops q now [] q :=
  ⟨ho, rfl, rfl, rfl, rfl, rfl, fun _ h => ⟨h, fun hm => absurd hm List.not_mem_nil⟩,
    fun _ he => Or.inl he⟩

theorem restored_cons {q q₁ q' : TimerQueue} {now : Timestamp} {e : Entry} {es : List Entry}
    (hr : Restored ops q₁ now es q') (hcall : q₁.callingExpiredTimers = q.callingExpiredTimers)
    (hcan : q₁.cancelingTimers = q.cancelingTimers) (hfd : q₁.timerfd = q.timerfd)
    (hiss : q₁.issued = q.issued) (hran : q₁.ran = q.ran)
    (hnd : e.second ∉ es.map Entry.second)
    (hheap : ∀ a, a ≠ e.second → q₁.heap a = q.heap a)
    (hlive : ∀ id, q₁.Live id → id.timer = e.second →
      q.Live id ∧ id.active ∉ q.cancelingTimers)
    (htimers : ∀ d ∈ q₁.timers, d ∈ q.timers ∨ ∃ t, q.heap d.second = some t ∧
      d.second = e.second ∧ t.repeat_ = true ∧ d.first = ops.addTime now t.interval) :
    Restored ops q now (e::es) q' := by
  refine ⟨hr.owns, hr.callingExpiredTimers.trans hcall, hr.cancelingTimers.trans hcan,
    hr.timerfd.trans hfd, hr.issued.trans hiss, hr.ran.trans hran, ?_, ?_⟩
  · intro id hid
    obtain ⟨h₁, hc⟩ := hr.live id hid
    by_cases ha : id.timer = e.second
    · obtain ⟨hl, hn⟩ := hlive id h₁ ha
      exact ⟨hl, fun _ => hn⟩
    · obtain ⟨t, ht, hs⟩ := h₁
      refine ⟨⟨t, (hheap _ ha) ▸ ht, hs⟩, fun hm => ?_⟩
      rw [List.map_cons, List.mem_cons] at hm
      rw [← hcan]
      exact hc (hm.resolve_left ha)
  · intro d hd
    rcases hr.timers d hd with h₁ | ⟨t, ht, hm, hrep, hf⟩
    · rcases htimers d h₁ with h | ⟨t, ht, hm, hrep, hf⟩
      · exact Or.inl h
      · exact Or.inr ⟨t, ht, by rw [hm]; exact List.mem_cons_self, hrep, hf⟩
    · have hne : d.second ≠ e.second := fun h => hnd (h ▸ hm)
      exact Or.inr ⟨t, hheap _ hne ▸ ht, List.mem_cons_of_mem _ hm, hrep, hf⟩

variable (ops) in
def restarted (q : TimerQueue) (now : Timestamp) (a : ℕ) (t : Timer) : TimerQueue :=
  inserted { q with heap := Function.update q.heap a (some (t.restart ops now)) } a
    (t.restart ops now)

section Head
variable {q : TimerQueue} {e : Entry} {es : List Entry} {t : Timer} {now : Timestamp}

theorem resetExpired_restart (ho : q.Owns (e.second::es.map Entry.second))
    (ht : q.heap e.second = some t) (hrep : (t.repeat_ &&
      decide (TimerId.active ⟨e.second, t.sequence⟩ ∉ q.cancelingTimers)) = true) :
    (q.restarted ops now e.second t).Owns (es.map Entry.second) ∧
      q.resetExpired ops now (e::es) =
        (q.restarted ops now e.second t).resetExpired ops now es := by
  have hro := restarted_owns ho ht (u := t.restart ops now) rfl
  have hself : Function.update q.heap e.second (some (t.restart ops now)) e.second =
      some (t.restart ops now) := Function.update_self _ _ _
  refine ⟨inserted_owns hro hself, ?_⟩
  rw [resetExpired, deref_of ht, ok_bind, if_pos hrep]
  simp only [insert_of hro hself, ok_bind]
  rfl

theorem resetExpired_delete (ho : q.Owns (e.second::es.map Entry.second))
    (ht : q.heap e.second = some t) (hrep : ¬(t.repeat_ &&
      decide (TimerId.active ⟨e.second, t.sequence⟩ ∉ q.cancelingTimers)) = true) :
    ∃ q₁ : TimerQueue, q₁ = { q with
      heap := Function.update q.heap e.second none
      freed := q.freed ++ [⟨e.second, t.sequence⟩] } ∧ q₁.Owns (es.map Entry.second) ∧
      q.resetExpired ops now (e::es) = q₁.resetExpired ops now es := by
  refine ⟨_, rfl, delete_owns ho ht, ?_⟩
  rw [resetExpired, deref_of ht, ok_bind, if_neg hrep, delete_of ht, ok_bind]

end Head

variable (ops) in
theorem resetExpired_of (es : List Entry) {q : TimerQueue} (now : Timestamp)
    (ho : q.Owns (es.map Entry.second)) :
    ∃ q', q.resetExpired ops now es = .ok q' ∧ Restored ops q now es q' := by
  induction es generalizing q with
  | nil => exact ⟨q, rfl, restored_nil ho now⟩
  | cons e es ih =>
    rw [List.map_cons] at ho
    obtain ⟨t, ht⟩ := ho.held_live _ List.mem_cons_self
    have hnd := (List.nodup_cons.mp ho.held_nodup).1
    by_cases hrep : (t.repeat_ &&
        decide (TimerId.active ⟨e.second, t.sequence⟩ ∉ q.cancelingTimers)) = true
    · obtain ⟨ho₁, heq⟩ := resetExpired_restart ho ht hrep
      obtain ⟨q', hq', hr⟩ := ih ho₁
      rw [Bool.and_eq_true, decide_eq_true_eq] at hrep
      rw [heq]
      refine ⟨q', hq', restored_cons hr rfl rfl rfl rfl rfl hnd ?_ ?_ ?_⟩
      · intro a ha
        simp [restarted, inserted, ha]
      · intro id hid ha
        have hself : (q.restarted ops now e.second t).heap e.second =
            some (t.restart ops now) := Function.update_self _ _ _
        have hs := live_unique (by rw [ha]; exact hself) hid
        have he : id = ⟨e.second, t.sequence⟩ := by
          cases id
          simp_all [Timer.restart]
        rw [he]
        exact ⟨⟨t, ht, rfl⟩, hrep.2⟩
      · intro d hd
        rcases SortedSet.mem_insert.mp hd with he | hm
        · right
          refine ⟨t, ?_, ?_, hrep.1, ?_⟩
          · rw [he]
            exact ht
          · rw [he]
          · rw [he]
            simp [Timer.restart, hrep.1]
        · exact Or.inl hm
    · obtain ⟨q₁, rfl, ho₁, heq⟩ := resetExpired_delete ho ht hrep
      obtain ⟨q', hq', hr⟩ := ih ho₁
      rw [heq]
      refine ⟨q', hq', restored_cons hr rfl rfl rfl rfl rfl hnd ?_ ?_ (fun d hd => Or.inl hd)⟩
      · intro a ha
        simp [ha]
      · intro id hid ha
        obtain ⟨u, hu, -⟩ := hid
        simp [ha] at hu

def nextExpire (q : TimerQueue) : Timestamp := (q.timers.begin?.map Entry.first).getD 0

theorem readNextExpire_of {q : TimerQueue} {held : List ℕ} (ho : q.Owns held) :
    q.readNextExpire = .ok q.nextExpire := by
  rw [readNextExpire, nextExpire]
  cases hb : q.timers.begin? with
  | none => rfl
  | some e =>
    obtain ⟨-, t, ht, hw⟩ := (ho.mem_timers e.first e.second).mp (SortedSet.begin?_spec hb).1
    simp only [deref_of ht, ok_bind, Option.map_some, Option.getD_some, ← hw, pure_eq_ok]

end Reset

end Lux.Polaris.TimerQueue
