import LuxPolaris.EPollPoller

/-!
# The poller and the kernel

What the poller does to one channel is `Channel.update` and `Channel.remove`,
and its own map and the kernel's set follow the channel's index. So the four
places where a registration is kept agree after every call.
-/

set_option autoImplicit false

namespace Lux.Polaris.EPollPoller
open Outcome

variable {ι : Type}

structure Agrees (fd : ι → ℕ) (p : EPollPoller ι) : Prop where
  fd_eq : ∀ i, (p.channel i).fd = fd i
  channels : ∀ n i, p.channels n = some i ↔ fd i = n ∧ (p.channel i).index ≠ .kNew
  kernel : ∀ n m i, p.kernel n = some (m, i) ↔
    fd i = n ∧ (p.channel i).index = .kAdded ∧ (p.channel i).events = m
  added : ∀ i, (p.channel i).addedToLoop = true ↔ (p.channel i).index ≠ .kNew
  errors : p.errors = []

theorem construct_agrees (fd : ι → ℕ) : Agrees fd (construct fd) := by
  refine ⟨fun i => rfl, ?_, ?_, ?_, rfl⟩
  · simp [construct, Channel.construct]
  · simp [construct, Channel.construct]
  · simp [construct, Channel.construct]

def entry (i : ι) (c : Channel) : Option (Events × ι) :=
  if c.index = .kAdded then some (c.events, i) else none

/-- The channel's descriptor is in the kernel's set. -/
def InKernel (p : EPollPoller ι) (i : ι) : Prop := p.kernel (p.channel i).fd ≠ none

def Interested (p : EPollPoller ι) (i : ι) : Prop := (p.channel i).events ≠ kNoneEvent

section Lookup
variable {fd : ι → ℕ} {p : EPollPoller ι}

theorem channels_at (hfd : Function.Injective fd) (hp : Agrees fd p) (i : ι) :
    p.channels (p.channel i).fd = if (p.channel i).index = .kNew then none else some i := by
  rw [hp.fd_eq]
  by_cases hi : (p.channel i).index = .kNew
  · rw [if_pos hi, Option.eq_none_iff_forall_ne_some]
    intro j hj
    obtain ⟨hn, hne⟩ := (hp.channels _ j).mp hj
    rw [hfd hn] at hne
    exact hne hi
  · rw [if_neg hi, hp.channels]
    exact ⟨rfl, hi⟩

theorem kernel_at (hfd : Function.Injective fd) (hp : Agrees fd p) (i : ι) :
    p.kernel (p.channel i).fd = entry i (p.channel i) := by
  rw [hp.fd_eq, entry]
  by_cases hi : (p.channel i).index = .kAdded
  · rw [if_pos hi, hp.kernel]
    exact ⟨rfl, hi, rfl⟩
  · rw [if_neg hi, Option.eq_none_iff_forall_ne_some]
    rintro ⟨m, j⟩ hj
    obtain ⟨hn, ha, -⟩ := (hp.kernel _ m j).mp hj
    rw [hfd hn] at ha
    exact hi ha

theorem inKernel_iff (hfd : Function.Injective fd) (hp : Agrees fd p) (i : ι) :
    p.InKernel i ↔ (p.channel i).index = .kAdded := by
  rw [InKernel, kernel_at hfd hp, entry]
  by_cases hi : (p.channel i).index = .kAdded <;> simp [hi]

end Lookup

section Calls
variable {p : EPollPoller ι}

def Action.target : Action ι → ι
  | .enableReading i => i
  | .disableReading i => i
  | .enableWriting i => i
  | .disableWriting i => i
  | .disableAll i => i
  | .remove i => i

def Action.apply (c : Channel) : Action ι → Except Fault Channel
  | .enableReading _ => .ok c.enableReading
  | .disableReading _ => .ok c.disableReading
  | .enableWriting _ => .ok c.enableWriting
  | .disableWriting _ => .ok c.disableWriting
  | .disableAll _ => .ok c.disableAll
  | .remove _ => c.remove

/-- No interest is taken from a channel that has none. -/
def TakesInterest (p : EPollPoller ι) : Action ι → Prop
  | .disableReading i | .disableWriting i | .disableAll i => p.Interested i
  | _ => True

instance (p : EPollPoller ι) : (a : Action ι) → Decidable (p.TakesInterest a)
  | .disableReading _ => inferInstanceAs (Decidable (_ ≠ _))
  | .disableWriting _ => inferInstanceAs (Decidable (_ ≠ _))
  | .disableAll _ => inferInstanceAs (Decidable (_ ≠ _))
  | .enableReading _ => isTrue trivial
  | .enableWriting _ => isTrue trivial
  | .remove _ => isTrue trivial

theorem update_listed {c : Channel} (h : c.index = .kAdded ∨ c.events ≠ kNoneEvent) :
    c.update.index = .kAdded ↔ c.update.events ≠ kNoneEvent := by
  unfold Channel.update
  cases hi : c.index with
  | kNew => simpa [hi] using h
  | kDeleted => simpa [hi] using h
  | kAdded => by_cases hn : c.events = kNoneEvent <;> simp [Channel.isNoneEvent, hn]

def Listed (c : Channel) : Prop := c.index = .kAdded ↔ c.events ≠ kNoneEvent

theorem apply_listed {a : Action ι} (hl : Listed (p.channel a.target)) (ht : p.TakesInterest a)
    {c : Channel} (hc : a.apply (p.channel a.target) = .ok c) : Listed c := by
  cases a with
  | enableReading i =>
    cases hc
    exact update_listed (Or.inr (by simp [kNoneEvent]))
  | enableWriting i =>
    cases hc
    exact update_listed (Or.inr (by simp [kNoneEvent]))
  | disableReading i =>
    cases hc
    exact update_listed (Or.inl (hl.mpr ht))
  | disableWriting i =>
    cases hc
    exact update_listed (Or.inl (hl.mpr ht))
  | disableAll i =>
    cases hc
    exact update_listed (Or.inl (hl.mpr ht))
  | remove i =>
    obtain ⟨_, hn, hc⟩ := bind_ok.mp hc
    obtain ⟨_, _, hc⟩ := bind_ok.mp hc
    have hnone := of_decide_eq_true (assertThat_ok.mp hn)
    cases hc
    simp [Listed, hnone]

/-- A channel that is off and is switched off once more is listed again. -/
theorem apply_not_listed {a : Action ι} (hl : Listed (p.channel a.target))
    (ht : ¬p.TakesInterest a) {c : Channel} (hc : a.apply (p.channel a.target) = .ok c) :
    ¬Listed c := by
  have hoff : ∀ i e, Listed (p.channel i) → (p.channel i).events = kNoneEvent →
      e = kNoneEvent → ¬Listed (Channel.update { p.channel i with events := e }) := by
    intro i e hi hn he
    have hna : (p.channel i).index ≠ .kAdded := fun h => hi.mp h hn
    unfold Channel.update
    cases hidx : (p.channel i).index with
    | kAdded => exact absurd hidx hna
    | kNew | kDeleted => simp [Listed, he]
  cases a with
  | disableReading i =>
    have hn : (p.channel i).events = kNoneEvent := not_not.mp ht
    cases hc
    exact hoff i _ hl hn (congrArg (fun e : Events => { e with read := false }) hn)
  | disableWriting i =>
    have hn : (p.channel i).events = kNoneEvent := not_not.mp ht
    cases hc
    exact hoff i _ hl hn (congrArg (fun e : Events => { e with write := false }) hn)
  | disableAll i =>
    have hn : (p.channel i).events = kNoneEvent := not_not.mp ht
    cases hc
    exact hoff i _ hl hn rfl
  | enableReading i | enableWriting i | remove i => exact absurd trivial ht

end Calls

variable [DecidableEq ι]

def record (p : EPollPoller ι) (i : ι) (c : Channel) : EPollPoller ι :=
  { p with
    channel := Function.update p.channel i c
    channels := Function.update p.channels c.fd (if c.index = .kNew then none else some i)
    kernel := Function.update p.kernel c.fd (entry i c) }

section Agreement
variable {fd : ι → ℕ} {p : EPollPoller ι}

theorem record_agrees (hfd : Function.Injective fd) (hp : Agrees fd p) {i : ι} {c : Channel}
    (hc : c.fd = fd i) (ha : c.addedToLoop = true ↔ c.index ≠ .kNew) :
    Agrees fd (p.record i c) := by
  refine ⟨fun j => ?_, fun n j => ?_, fun n m j => ?_, fun j => ?_, hp.errors⟩
  · by_cases hj : j = i
    · subst hj
      simpa [record] using hc
    · simpa [record, hj] using hp.fd_eq j
  · by_cases hn : n = fd i
    · subst hn
      by_cases hj : j = i
      · subst hj
        simp [record, hc]
      · have hne : fd j ≠ fd i := fun h => hj (hfd h)
        have hne' : i ≠ j := fun h => hj h.symm
        simp [record, hc, hne, hne']
    · have hold := hp.channels n j
      by_cases hj : j = i
      · subst hj
        have hne : fd j ≠ n := fun h => hn h.symm
        simpa [record, hc, hn, hne] using hold
      · simpa [record, hc, hn, hj] using hold
  · by_cases hn : n = fd i
    · subst hn
      by_cases hj : j = i
      · subst hj
        by_cases hi : c.index = .kAdded <;> simp [record, entry, hc, hi]
      · have hne : fd j ≠ fd i := fun h => hj (hfd h)
        have hne' : i ≠ j := fun h => hj h.symm
        by_cases hi : c.index = .kAdded <;> simp [record, entry, hc, hi, hne, hne']
    · have hold := hp.kernel n m j
      by_cases hj : j = i
      · subst hj
        have hne : fd j ≠ n := fun h => hn h.symm
        simpa [record, hc, hn, hne] using hold
      · simpa [record, hc, hn, hj] using hold
  · by_cases hj : j = i
    · subst hj
      simpa [record] using ha
    · simpa [record, hj] using hp.added j

theorem assertThat_of {q : Prop} [Decidable q] (h : q) (expr : String) :
    assertThat q expr = .ok () := if_pos h

theorem setEvents_of (hfd : Function.Injective fd) (hp : Agrees fd p) (i : ι) (events : Events) :
    p.setEvents i events =
      .ok (p.record i (Channel.update { p.channel i with events := events })) := by
  have hch := channels_at hfd hp i
  have hk := kernel_at hfd hp i
  unfold setEvents updateChannel
  cases hi : (p.channel i).index with
  | kNew =>
    simp only [hi, entry, if_true, reduceCtorEq, if_false] at hch hk
    simp [setChannel, setIndex, update, epollCtl, record, entry, Channel.update, hi, hch, hk,
      assertThat_of, ok_bind]
  | kDeleted =>
    simp only [hi, entry, reduceCtorEq, if_false] at hch hk
    have hself : Function.update p.channels (p.channel i).fd (some i) = p.channels := by
      rw [← hch, Function.update_eq_self]
    simp [setChannel, setIndex, update, epollCtl, record, entry, Channel.update, hi, hch, hk, hself,
      assertThat_of, ok_bind]
  | kAdded =>
    simp only [hi, entry, if_true, reduceCtorEq, if_false] at hch hk
    have hself : Function.update p.channels (p.channel i).fd (some i) = p.channels := by
      rw [← hch, Function.update_eq_self]
    by_cases hn : events = kNoneEvent
    · simp [setChannel, setIndex, update, epollCtl, record, entry, Channel.update,
        Channel.isNoneEvent, hi, hch, hk, hself, hn, assertThat_of, ok_bind, pure_eq_ok]
    · simp [setChannel, update, epollCtl, record, entry, Channel.update, Channel.isNoneEvent, hi,
        hch, hk, hself, hn, assertThat_of, ok_bind]

theorem remove_of (hfd : Function.Injective fd) (hp : Agrees fd p) {i : ι} {c : Channel}
    (hc : (p.channel i).remove = .ok c) : p.remove i = .ok (p.record i c) := by
  have hch := channels_at hfd hp i
  have hk := kernel_at hfd hp i
  obtain ⟨_, ha, hc⟩ := bind_ok.mp hc
  obtain ⟨_, hb, hc⟩ := bind_ok.mp hc
  have hn : (p.channel i).events = kNoneEvent := of_decide_eq_true (assertThat_ok.mp ha)
  have hnew : (p.channel i).index ≠ .kNew := assertThat_ok.mp hb
  cases hc
  unfold remove removeChannel
  cases hi : (p.channel i).index with
  | kNew => exact absurd hi hnew
  | kDeleted =>
    simp only [hi, entry, reduceCtorEq, if_false] at hch hk
    have hself : Function.update p.kernel (p.channel i).fd none = p.kernel := by
      rw [← hk, Function.update_eq_self]
    simp [setChannel, setIndex, record, entry, Channel.isNoneEvent, hi, hch, hself, hn,
      assertThat_of, ok_bind, pure_eq_ok]
  | kAdded =>
    simp only [hi, entry, if_true, reduceCtorEq, if_false] at hch hk
    simp [setChannel, setIndex, update, epollCtl, record, entry, Channel.isNoneEvent, hi, hch, hk,
      hn, assertThat_of, ok_bind, pure_eq_ok]

theorem step_of (hfd : Function.Injective fd) (hp : Agrees fd p) {a : Action ι}
    (he : p.Enabled a) :
    ∃ c, a.apply (p.channel a.target) = .ok c ∧ p.step a = .ok (p.record a.target c) ∧
      c.fd = (p.channel a.target).fd ∧ (c.addedToLoop = true ↔ c.index ≠ .kNew) := by
  have hupd : ∀ c : Channel, c.update.addedToLoop = true ↔ c.update.index ≠ .kNew :=
    fun c => iff_of_true rfl c.update_index_ne_new
  cases a with
  | enableReading i => exact ⟨_, rfl, setEvents_of hfd hp i _, rfl, hupd _⟩
  | disableReading i => exact ⟨_, rfl, setEvents_of hfd hp i _, rfl, hupd _⟩
  | enableWriting i => exact ⟨_, rfl, setEvents_of hfd hp i _, rfl, hupd _⟩
  | disableWriting i => exact ⟨_, rfl, setEvents_of hfd hp i _, rfl, hupd _⟩
  | disableAll i => exact ⟨_, rfl, setEvents_of hfd hp i _, rfl, hupd _⟩
  | remove i =>
    obtain ⟨hn, hadd⟩ := he
    have hnew := (hp.added i).mp hadd
    have hc : (p.channel i).remove =
        .ok { p.channel i with addedToLoop := false, index := .kNew } := by
      rw [Channel.remove, Polaris.assertThat_of hn, Polaris.assertThat_of hnew]
      rfl
    exact ⟨_, hc, remove_of hfd hp hc, rfl, by simp⟩

theorem step_agrees (hfd : Function.Injective fd) (hp : Agrees fd p) {a : Action ι}
    (he : p.Enabled a) : ∃ p', p.step a = .ok p' ∧ Agrees fd p' := by
  obtain ⟨c, -, hs, hc, hadd⟩ := step_of hfd hp he
  exact ⟨_, hs, record_agrees hfd hp (hc.trans (hp.fd_eq _)) hadd⟩

end Agreement

/-- Any number of channels and any calls on them: no call fails, the map holds
the channels that are added or deleted, and the kernel those that are added,
with their masks. -/
theorem poller_agrees_with_kernel (fd : ι → ℕ) (hfd : Function.Injective fd)
    (as : List (Action ι)) (ha : Admitted step Enabled (construct fd) as) :
    ∃ p, run step (construct fd) as = .ok p ∧ p.errors = [] ∧
      (∀ n i, p.channels n = some i ↔
        fd i = n ∧ ((p.channel i).index = .kAdded ∨ (p.channel i).index = .kDeleted)) ∧
      ∀ n m i, p.kernel n = some (m, i) ↔
        fd i = n ∧ (p.channel i).index = .kAdded ∧ (p.channel i).events = m := by
  obtain ⟨p, hr, hp⟩ := run_succeeds Enabled (fun p a hp he => step_agrees hfd hp he) as
    (construct fd) (construct_agrees fd) ha
  refine ⟨p, hr, hp.errors, fun n i => ?_, hp.kernel⟩
  rw [hp.channels]
  cases (p.channel i).index <;> simp

theorem poller_agrees_with_kernel_two :
    ∃ p, run step (construct (fun i : Bool => if i then 4 else 5)) [.enableReading true,
        .enableWriting false, .disableAll true, .disableAll true, .disableReading true,
        .remove true, .enableReading true] = .ok p ∧ p.errors = [] ∧
      p.kernel 5 = some (⟨false, true⟩, false) := by
  obtain ⟨p, hr, he, -⟩ := poller_agrees_with_kernel (fun i : Bool => if i then 4 else 5)
    (by intro i j; cases i <;> cases j <;> simp) [.enableReading true, .enableWriting false,
      .disableAll true, .disableAll true, .disableReading true, .remove true, .enableReading true]
    (by decide +kernel)
  have hrun : (fun p => p.kernel 5) <$> run step (construct (fun i : Bool => if i then 4 else 5))
      [.enableReading true, .enableWriting false, .disableAll true, .disableAll true,
        .disableReading true, .remove true, .enableReading true] =
      .ok (some (⟨false, true⟩, false)) := by decide +kernel
  obtain ⟨q, hq, hk⟩ := map_ok.mp hrun
  cases Except.ok.inj (hr.symm.trans hq)
  exact ⟨p, hr, he, hk⟩

section Interest

/-- In every run: after each call every channel is in the kernel's set exactly
if it has some interest, if and only if no call takes interest from a channel
that has none. -/
theorem registered_iff_interested (fd : ι → ℕ) (hfd : Function.Injective fd)
    (as : List (Action ι)) (ha : Admitted step Enabled (construct fd) as) :
    Throughout step (fun p => ∀ i, p.InKernel i ↔ p.Interested i) (fun _ => False)
      (construct fd) as ↔ Admitted step TakesInterest (construct fd) as := by
  have hlisted : ∀ p : EPollPoller ι, Agrees fd p →
      ((∀ i, p.InKernel i ↔ p.Interested i) ↔ ∀ i, Listed (p.channel i)) := by
    intro p hp
    exact forall_congr' fun i => by rw [inKernel_iff hfd hp, Interested, Listed]
  apply throughout_iff Enabled TakesInterest
    (I := fun p => Agrees fd p ∧ ∀ i, Listed (p.channel i))
  · exact fun p hi => (hlisted p hi.1).mpr hi.2
  · rintro p a ⟨hp, hl⟩ he ht
    obtain ⟨c, hc, hs, hcfd, hadd⟩ := step_of hfd hp he
    rw [hs, yields_ok]
    refine ⟨record_agrees hfd hp (hcfd.trans (hp.fd_eq _)) hadd, fun j => ?_⟩
    by_cases hj : j = a.target
    · subst hj
      simpa [record] using apply_listed (hl a.target) ht hc
    · simpa [record, hj] using hl j
  · rintro p a ⟨hp, hl⟩ he ht hy
    obtain ⟨c, hc, hs, hcfd, hadd⟩ := step_of hfd hp he
    have hp' := record_agrees hfd hp (hcfd.trans (hp.fd_eq _)) hadd
    have hlist := (hlisted _ hp').mp (hy.ok hs) a.target
    exact apply_not_listed (hl a.target) ht hc (by simpa [record] using hlist)
  · refine ⟨construct_agrees fd, fun i => ?_⟩
    simp [Listed, construct, Channel.construct]
  · exact ha

theorem registered_iff_interested_once :
    Throughout step (fun p => ∀ i, p.InKernel i ↔ p.Interested i) (fun _ => False)
      (construct (fun _ : Unit => 5)) [.enableReading (), .enableWriting (), .disableReading (),
        .disableWriting (), .enableReading (), .disableAll (), .remove ()] :=
  (registered_iff_interested (fun _ : Unit => 5) (fun _ _ _ => rfl) _ (by decide +kernel)).mpr
    (by decide +kernel)

/-- One `disableAll` takes the channel out of the kernel's set, a second puts
it back with an empty mask. -/
theorem disabled_twice_registered :
    (∃ p, run step (construct (fun _ : Unit => 5)) [.enableReading (), .disableAll ()] = .ok p ∧
      p.kernel 5 = none) ∧
    ∃ p, run step (construct (fun _ : Unit => 5)) [.enableReading (), .disableAll (),
      .disableAll ()] = .ok p ∧ p.kernel 5 = some (kNoneEvent, ()) :=
  ⟨⟨_, rfl, rfl⟩, ⟨_, rfl, rfl⟩⟩

end Interest

end Lux.Polaris.EPollPoller
