import LuxPolaris.PollerKernel
import Mathlib.Data.List.Perm.Subperm

/-!
# Polling for events

`epoll_wait` writes the ready channels into `events_`, at most as many as the
array holds, and a poll that fills the array doubles it. The loop clears its
list of active channels and the poll fills it again. The kernel decides which
of the ready channels a full array gets.
-/

set_option autoImplicit false

namespace Lux.Polaris
open Outcome

def kInitEventListSize : ℕ := 16

/-- What `epoll_wait` answers: the masks and the pointers of the events, or
an error. -/
inductive PollResult (ι : Type) where
  | events (batch : List (Revents × ι))
  | failed (errno : ℕ)

/-- `size` is `events_.size()`, `revents` are the channels' `revents_` and
`activeChannels` is the loop's list. -/
structure Polling (ι : Type) where
  poller : EPollPoller ι
  size : ℕ
  revents : ι → Revents
  activeChannels : List ι

namespace Polling
variable {ι : Type}

def construct (fd : ι → ℕ) : Polling ι where
  poller := .construct fd
  size := kInitEventListSize
  revents := fun _ => ⟨false, false, false, false, false, false, false⟩
  activeChannels := []

theorem channels_of_registered {fd : ι → ℕ} {p : Polling ι} (hp : p.poller.Agrees fd)
    {i : ι} (h : (p.poller.kernel (p.poller.channel i).fd).map Prod.snd = some i) :
    p.poller.channels (p.poller.channel i).fd = some i := by
  obtain ⟨⟨m, j⟩, hk, rfl⟩ := Option.map_eq_some_iff.mp h
  obtain ⟨hn, hadded, -⟩ := (hp.kernel _ m j).mp hk
  exact (hp.channels _ j).mpr ⟨hn, by simp [hadded]⟩

/-- The events of `epoll_wait`: registered channels, each once, and as many of
the ready ones as the array holds. -/
structure Answers (p : Polling ι) (ready : List ι) (batch : List (Revents × ι)) : Prop where
  registered : ∀ i ∈ ready, (p.poller.kernel (p.poller.channel i).fd).map Prod.snd = some i
  distinct : ready.Nodup
  once : (batch.map Prod.snd).Nodup
  among : ∀ e ∈ batch, e.2 ∈ ready
  most : batch.length = min ready.length p.size

theorem ready_of_length {p : Polling ι} {ready : List ι} {batch : List (Revents × ι)}
    (h : p.Answers ready batch) (hlen : ready.length ≤ batch.length) :
    ∀ i ∈ ready, i ∈ batch.map Prod.snd := by
  have hlen' : ready.length ≤ (batch.map Prod.snd).length := by rwa [List.length_map]
  have hsub : batch.map Prod.snd ⊆ ready := by
    intro j hj
    obtain ⟨e, he, rfl⟩ := List.mem_map.mp hj
    exact h.among e he
  have hperm := (List.subperm_of_subset h.once hsub).perm_of_length_le hlen'
  exact fun i hi => hperm.mem_iff.mpr hi

def grown (p : Polling ι) (batch : List (Revents × ι)) : ℕ :=
  if batch.length = p.size then p.size*2 else p.size

structure Inv (fd : ι → ℕ) (N : ℕ) (p : Polling ι) : Prop where
  agrees : p.poller.Agrees fd
  size_ge : kInitEventListSize ≤ p.size
  size_le : p.size ≤ max kInitEventListSize (2*N)

theorem size_pos {fd : ι → ℕ} {N : ℕ} {p : Polling ι} (hi : p.Inv fd N) : 0 < p.size := by
  have := hi.size_ge
  unfold kInitEventListSize at this
  omega

theorem grown_cases {N : ℕ} {p : Polling ι} {ready : List ι} {batch : List (Revents × ι)}
    (h : p.Answers ready batch) (hN : ready.length ≤ N) :
    p.grown batch = p.size ∧ batch.length < p.size ∨
    p.grown batch = 2*p.size ∧ p.size ≤ N ∧ batch.length = p.size := by
  have hmost := h.most
  unfold grown
  split_ifs with hfull
  · refine Or.inr ⟨Nat.mul_comm _ _, ?_, hfull⟩
    omega
  · refine Or.inl ⟨rfl, ?_⟩
    omega

variable [DecidableEq ι]

def fillLoop : Polling ι → List (Revents × ι) → Except PollerFault (Polling ι)
  | p, [] => .ok p
  | p, (revents, i)::batch => do
    let fd := (p.poller.channel i).fd
    EPollPoller.assertThat (p.poller.channels fd ≠ none) "it != channels_.end()"
    EPollPoller.assertThat (p.poller.channels fd = some i) "it->second == channel"
    fillLoop { p with
      revents := Function.update p.revents i revents
      activeChannels := p.activeChannels ++ [i] } batch

def fillActiveChannels (p : Polling ι) (batch : List (Revents × ι)) :
    Except PollerFault (Polling ι) := do
  EPollPoller.assertThat (batch.length ≤ p.size)
    "implicit_cast<size_t>(numEvents) <= events_.size()"
  p.fillLoop batch

def poll (p : Polling ι) : PollResult ι → Except PollerFault (Polling ι)
  | .events batch =>
    if batch.length > 0 then do
      let p ← p.fillActiveChannels batch
      return if batch.length = p.size then { p with size := p.size*2 } else p
    else .ok p
  | .failed _ => .ok p

/-- A call on a channel, or the poll of one iteration of the loop while the
channels in `ready` have something to report. -/
inductive Action (ι : Type) where
  | call (a : EPollPoller.Action ι)
  | poll (ready : List ι) (r : PollResult ι)

def step (p : Polling ι) : Action ι → Except PollerFault (Polling ι)
  | .call a => do
    let poller ← p.poller.step a
    return { p with poller := poller }
  | .poll _ r => { p with activeChannels := [] }.poll r

instance (p : Polling ι) (ready : List ι) (batch : List (Revents × ι)) :
    Decidable (p.Answers ready batch) :=
  decidable_of_iff ((∀ i ∈ ready, (p.poller.kernel (p.poller.channel i).fd).map Prod.snd = some i) ∧
    ready.Nodup ∧ (batch.map Prod.snd).Nodup ∧ (∀ e ∈ batch, e.2 ∈ ready) ∧
    batch.length = min ready.length p.size)
    ⟨fun h => ⟨h.1, h.2.1, h.2.2.1, h.2.2.2.1, h.2.2.2.2⟩,
      fun h => ⟨h.registered, h.distinct, h.once, h.among, h.most⟩⟩

def Enabled (p : Polling ι) (N : ℕ) : Action ι → Prop
  | .call a => p.poller.Enabled a
  | .poll ready (.events batch) => p.Answers ready batch ∧ ready.length ≤ N
  | .poll _ (.failed _) => True

instance (N : ℕ) (p : Polling ι) : (a : Action ι) → Decidable (p.Enabled N a)
  | .call a => inferInstanceAs (Decidable (p.poller.Enabled a))
  | .poll ready (.events batch) =>
    inferInstanceAs (Decidable (p.Answers ready batch ∧ ready.length ≤ N))
  | .poll _ (.failed _) => isTrue trivial

/-- Polls that leave a ready channel out of the list. -/
def missed (p : Polling ι) (a : Action ι) : ℕ :=
  match a with
  | .poll ready (.events batch) =>
    match p.step (.poll ready (.events batch)) with
    | .ok p' => if ∀ i ∈ ready, i ∈ p'.activeChannels then 0 else 1
    | .error _ => 0
  | _ => 0

section Poll
variable {fd : ι → ℕ} {p : Polling ι}

def setRevents : (ι → Revents) → List (Revents × ι) → ι → Revents
  | f, [] => f
  | f, (revents, i)::batch => setRevents (Function.update f i revents) batch

theorem fillLoop_of (hp : p.poller.Agrees fd) (batch : List (Revents × ι))
    (h : ∀ e ∈ batch, (p.poller.kernel (p.poller.channel e.2).fd).map Prod.snd = some e.2) :
    p.fillLoop batch = .ok { p with
      revents := setRevents p.revents batch
      activeChannels := p.activeChannels ++ batch.map Prod.snd } := by
  induction batch generalizing p with
  | nil => simp [fillLoop, setRevents]
  | cons e batch ih =>
    obtain ⟨revents, i⟩ := e
    have hch := channels_of_registered hp (h (revents, i) List.mem_cons_self)
    have hne : p.poller.channels (p.poller.channel i).fd ≠ none := by simp [hch]
    simp only [fillLoop, EPollPoller.assertThat_of hch, EPollPoller.assertThat_of hne, ok_bind]
    rw [ih (p := { p with
      revents := Function.update p.revents i revents
      activeChannels := p.activeChannels ++ [i] }) hp fun e he => h e (List.mem_cons_of_mem _ he)]
    simp [setRevents, List.append_assoc]

theorem setRevents_other (f : ι → Revents) (batch : List (Revents × ι)) {i : ι}
    (h : i ∉ batch.map Prod.snd) : setRevents f batch i = f i := by
  induction batch generalizing f with
  | nil => rfl
  | cons e batch ih =>
    simp only [List.map_cons, List.mem_cons, not_or] at h
    rw [setRevents, ih _ h.2, Function.update_of_ne h.1]

theorem setRevents_of_mem (f : ι → Revents) (batch : List (Revents × ι))
    (ho : (batch.map Prod.snd).Nodup) {e : Revents × ι} (he : e ∈ batch) :
    setRevents f batch e.2 = e.1 := by
  induction batch generalizing f with
  | nil => cases he
  | cons d batch ih =>
    obtain ⟨hd, ho'⟩ := List.nodup_cons.mp ho
    rcases List.mem_cons.mp he with rfl | hm
    · rw [setRevents, setRevents_other _ _ hd, Function.update_self]
    · exact ih _ ho' hm

theorem poll_of (hp : p.poller.Agrees fd) (hpos : 0 < p.size) {ready : List ι}
    {batch : List (Revents × ι)} (h : p.Answers ready batch) :
    p.step (.poll ready (.events batch)) = .ok { p with
      size := p.grown batch
      revents := setRevents p.revents batch
      activeChannels := batch.map Prod.snd } := by
  have hle : batch.length ≤ p.size := by
    rw [h.most]
    exact Nat.min_le_right _ _
  rw [step, poll, grown]
  by_cases hb : batch.length > 0
  · rw [if_pos hb]
    have hfill := fillLoop_of (p := { p with activeChannels := [] }) hp batch
      (fun e he => h.registered e.2 (h.among e he))
    simp only [fillActiveChannels, EPollPoller.assertThat_of hle, ok_bind, hfill]
    split_ifs
    · rfl
    · rfl
  · have hnil : batch = [] := List.eq_nil_of_length_eq_zero (by omega)
    subst hnil
    have hne : ([] : List (Revents × ι)).length ≠ p.size := by
      rw [List.length_nil]
      omega
    simp only [hne, if_false]
    rfl

end Poll

section Run
variable {fd : ι → ℕ} {N : ℕ} {p : Polling ι}

theorem step_inv (hfd : Function.Injective fd) (hi : p.Inv fd N) {a : Action ι}
    (he : p.Enabled N a) : ∃ p', p.step a = .ok p' ∧ p'.Inv fd N := by
  cases a with
  | call a =>
    obtain ⟨q, hq, hagree⟩ := EPollPoller.step_agrees hfd hi.agrees he
    refine ⟨{ p with poller := q }, ?_, hagree, hi.size_ge, hi.size_le⟩
    rw [step, hq, ok_bind, pure_eq_ok]
  | poll ready r =>
    cases r with
    | failed errno => exact ⟨_, rfl, hi.agrees, hi.size_ge, hi.size_le⟩
    | events batch =>
      obtain ⟨hanswers, hN⟩ := he
      refine ⟨_, poll_of hi.agrees (size_pos hi) hanswers, hi.agrees, ?_, ?_⟩
      · have := hi.size_ge
        rcases grown_cases hanswers hN with ⟨hg, -⟩ | ⟨hg, -⟩
        · exact hg.symm ▸ this
        · change kInitEventListSize ≤ p.grown batch
          omega
      · have := hi.size_le
        change p.grown batch ≤ _
        rcases grown_cases hanswers hN with ⟨hg, -⟩ | ⟨hg, hle, -⟩
        · exact hg.symm ▸ this
        · rw [hg]
          exact Nat.le_trans (Nat.mul_le_mul_left _ hle) (Nat.le_max_right _ _)

theorem step_missed (hi : p.Inv fd N) {a : Action ι} (he : p.Enabled N a) {p' : Polling ι}
    (h : p.step a = .ok p') :
    p.size ≤ p'.size ∧ (p.missed a = 0 ∨ p.missed a = 1 ∧ p.size < N ∧ 2*p.size ≤ p'.size) := by
  cases a with
  | call a =>
    obtain ⟨q, -, heq⟩ := bind_ok.mp h
    cases heq
    exact ⟨Nat.le_refl _, Or.inl rfl⟩
  | poll ready r =>
    cases r with
    | failed errno =>
      cases h
      exact ⟨Nat.le_refl _, Or.inl rfl⟩
    | events batch =>
      obtain ⟨hanswers, hN⟩ := he
      have hpoll := poll_of hi.agrees (size_pos hi) hanswers
      cases hpoll.symm.trans h
      simp only [missed, hpoll]
      rcases grown_cases hanswers hN with ⟨hg, hroom⟩ | ⟨hg, hle, hfull⟩
      · refine ⟨Nat.le_of_eq hg.symm, Or.inl (if_pos fun i hm => ?_)⟩
        have hmost := hanswers.most
        exact ready_of_length hanswers (by omega) i hm
      · refine ⟨by omega, ?_⟩
        split_ifs with hall
        · exact Or.inl rfl
        · refine Or.inr ⟨rfl, ?_, Nat.le_of_eq hg.symm⟩
          by_contra hge
          exact hall (ready_of_length hanswers (by omega))

/-- Any calls on any number of channels and any polls between them, at most
`N` channels ready at a time: no assertion fails, the array is never larger
than needed by a factor of two, and the loop's list is what the kernel
answered. Only logarithmically many polls leave a ready channel out. -/
theorem polls_report_ready (fd : ι → ℕ) (hfd : Function.Injective fd) (N : ℕ)
    (as : List (Action ι)) (ha : Admitted step (fun p a => p.Enabled N a) (construct fd) as) :
    ∃ p, run step (construct fd) as = .ok p ∧ p.size ≤ max kInitEventListSize (2*N) ∧
      (∀ bs ready batch, as = bs ++ [.poll ready (.events batch)] →
        p.activeChannels = batch.map Prod.snd ∧ ∀ e ∈ batch, p.revents e.2 = e.1) ∧
      (total step missed (construct fd) as = 0 ∨
        2^(total step missed (construct fd) as)*kInitEventListSize < 2*N) := by
  have hinit : (construct fd).Inv fd N :=
    ⟨EPollPoller.construct_agrees fd, Nat.le_refl _, Nat.le_max_left _ _⟩
  have hstep : ∀ (p : Polling ι) (a : Action ι), p.Inv fd N → p.Enabled N a →
      ∃ p', p.step a = .ok p' ∧ p'.Inv fd N := fun p a hi he => step_inv hfd hi he
  obtain ⟨p, hr, hi⟩ := run_succeeds _ hstep as (construct fd) hinit ha
  refine ⟨p, hr, hi.size_le, ?_, ?_⟩
  · rintro bs ready batch rfl
    obtain ⟨q, hq, hlast⟩ := run_snoc_ok.mp hr
    obtain ⟨hbs, hpoll⟩ := (admitted_append bs _ _).mp ha
    obtain ⟨q', hq', hi'⟩ := run_succeeds _ hstep bs (construct fd) hinit hbs
    cases hq.symm.trans hq'
    have hanswers := (hpoll q hq).1.1
    cases (poll_of hi'.agrees (size_pos hi') hanswers).symm.trans hlast
    exact ⟨rfl, fun e he => setRevents_of_mem _ _ hanswers.once he⟩
  · exact total_doubling _ (fun p a p' hi he h => ⟨by
      obtain ⟨q, hq, hi'⟩ := hstep p a hi he
      cases hq.symm.trans h
      exact hi', step_missed hi he h⟩) as _ p hinit ha hr

def readable : Revents := ⟨true, false, false, false, false, false, false⟩

def seventeenReady : List (Action ℕ) :=
  (List.range 17).map (fun i => .call (.enableReading i)) ++ [
    .poll (List.range 17) (.events ((List.range 16).map fun i => (readable, i))),
    .poll (List.range 17) (.events ((List.range 17).map fun i => (readable, i)))]

theorem polls_report_ready_seventeen :
    ∃ p, run step (construct id) seventeenReady = .ok p ∧ p.size ≤ 34 ∧
      p.activeChannels = List.range 17 ∧ p.revents 16 = readable ∧
      total step missed (construct id) seventeenReady = 1 := by
  obtain ⟨p, hr, hsize, hactive, -⟩ := polls_report_ready id Function.injective_id 17
    seventeenReady (by decide +kernel)
  obtain ⟨hlist, hmask⟩ := hactive _ _ _ (List.append_assoc _ [_] [_]).symm
  exact ⟨p, hr, hsize, hlist.trans (by decide), hmask (readable, 16) (by decide), by decide +kernel⟩

end Run

end Polling

end Lux.Polaris
