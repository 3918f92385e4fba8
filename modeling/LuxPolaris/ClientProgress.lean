import LuxPolaris.ConnectorConsistency

/-!
# A client that goes on connecting

A client that is to connect has exactly one start queued, retry timed, attempt
going on or connection open, until `::connect` fails for good or a connection
closes that is not to be retried. Each wait is twice the one before, up to the
maximum.
-/

set_option autoImplicit false

namespace Lux.Polaris.TCPClient
open Outcome

/-- The starts queued, retries timed and attempts going on, and the connections
open. -/
def attempts (c : TCPClient) : ℕ :=
  c.queue.count .startInLoop + c.retryTimers.length +
    (if c.connector.state = .kConnecting then 1 else 0) + c.openConnections.length

/-- The attempt is neither waited for nor retried. -/
def Fatal (k : ConnectResult) : Prop :=
  k.savedErrno ∉ [0, EINPROGRESS, EINTR, EISCONN] ∧
    k.savedErrno ∉ [EAGAIN, EADDRINUSE, EADDRNOTAVAIL, ECONNREFUSED, ENETUNREACH]

def waitMs (j : ℕ) : ℕ := min (kInitRetryDelayMs*2^j) kMaxRetryDelayMs

def BackedOff (c : TCPClient) : Prop :=
  ∃ j, c.connector.retryDelayMs = waitMs j ∧ ∀ d ∈ c.retryTimers, ∃ i, j = i+1 ∧ d = waitMs i

structure Persevering (c : TCPClient) : Prop where
  one : c.connector.connect_ = true → c.attempts = 1
  waits : c.BackedOff

/-- The close of a connection is followed by an attempt, or the client is not
to connect. -/
def Reconnects (c : TCPClient) (k : ConnectResult) : Prop :=
  if c.retry_ && c.connect_ then ¬Fatal k else c.connector.connect_ = false

def FunctorPersists (c : TCPClient) (k : ConnectResult) : ClientFunctor → Prop
  | .startInLoop => c.connector.connect_ = true → ¬Fatal k
  | .forceCloseInLoop conn => conn ∈ c.openConnections → c.Reconnects k
  | _ => True

def Persists (c : TCPClient) : Action → Prop
  | .connect inLoopThread k => inLoopThread = true → ¬Fatal k
  | .retryTimer _ k => c.connector.connect_ = true → ¬Fatal k
  | .closeEvent _ k => c.Reconnects k
  | .runFunctor k => ∀ f ∈ c.functors.head?, c.FunctorPersists k f
  | _ => True

instance (k : ConnectResult) : Decidable (Fatal k) := inferInstanceAs (Decidable (_ ∧ _))

instance (c : TCPClient) (k : ConnectResult) : Decidable (c.Reconnects k) :=
  inferInstanceAs (Decidable (ite _ _ _))

instance (c : TCPClient) (k : ConnectResult) :
    (f : ClientFunctor) → Decidable (c.FunctorPersists k f)
  | .startInLoop => inferInstanceAs (Decidable (_ → _))
  | .forceCloseInLoop _ => inferInstanceAs (Decidable (_ → _))
  | .stopInLoop | .resetChannel | .connectDestroyed _ => isTrue trivial

instance (c : TCPClient) : (a : Action) → Decidable (c.Persists a)
  | .connect _ _ => inferInstanceAs (Decidable (_ → _))
  | .retryTimer _ _ => inferInstanceAs (Decidable (_ → _))
  | .closeEvent _ _ => inferInstanceAs (Decidable (Reconnects _ _))
  | .runFunctor _ => inferInstanceAs (Decidable (∀ f ∈ _, _))
  | .stop | .disconnect | .enableRetry | .forceClose _ | .poll _ _ | .handleEvent _ _ _ | .swap =>
    isTrue trivial

section Attempts
variable {c c' : TCPClient} {k : ConnectResult}

theorem waitMs_zero : kInitRetryDelayMs = waitMs 0 := by decide

theorem waitMs_succ (j : ℕ) : min (waitMs j*2) kMaxRetryDelayMs = waitMs (j+1) := by
  have hpow : kInitRetryDelayMs*2^(j+1) = kInitRetryDelayMs*2^j*2 := by
    rw [Nat.pow_succ, Nat.mul_assoc]
  rw [waitMs, waitMs, hpow]
  omega

/-- No start is queued, none is timed, and no connection is open. -/
structure Free (c : TCPClient) : Prop where
  start : ClientFunctor.startInLoop ∉ c.queue
  timers : c.retryTimers = []
  opened : c.openConnections = []

theorem Free.attempts_eq (h : c.Free) :
    c.attempts = if c.connector.state = .kConnecting then 1 else 0 := by
  rw [attempts, List.count_eq_zero.mpr h.start, h.timers, h.opened]
  simp

theorem retry_persevering (h : c.Free) (hw : c.BackedOff) : c.retry.Persevering := by
  obtain ⟨j, hj, -⟩ := hw
  by_cases hc : c.connector.connect_ = true
  · have hr : c.retry = { c.setState .kDisconnected with
        retryTimers := c.retryTimers ++ [c.connector.retryDelayMs]
        connector := { (c.setState .kDisconnected).connector with
          retryDelayMs := min (c.connector.retryDelayMs*2) kMaxRetryDelayMs } } := if_pos hc
    rw [hr]
    refine ⟨fun _ => ?_, j+1, ?_, fun d hd => ⟨j, rfl, ?_⟩⟩
    · have hstart : c.queue.count .startInLoop = 0 := List.count_eq_zero.mpr h.start
      change c.queue.count .startInLoop + (c.retryTimers ++ [_]).length + 0 +
        c.openConnections.length = 1
      rw [hstart, h.timers, h.opened]
      rfl
    · change min (c.connector.retryDelayMs*2) _ = _
      rw [hj, waitMs_succ]
    · change d ∈ c.retryTimers ++ [c.connector.retryDelayMs] at hd
      rw [h.timers, List.nil_append, List.mem_singleton] at hd
      rw [hd, hj]
  · have hr : c.retry = c.setState .kDisconnected := if_neg hc
    rw [hr]
    refine ⟨fun hon => absurd hon hc, j, hj, fun d hd => ?_⟩
    change d ∈ c.retryTimers at hd
    rw [h.timers] at hd
    cases hd

theorem startInLoop_one (h : c.Free) (hw : c.BackedOff) (hs : c.startInLoop k = .ok c') :
    c'.BackedOff ∧ ((c'.connector.connect_ = true → c'.attempts = 1) ↔
      (c.connector.connect_ = true → ¬Fatal k)) := by
  by_cases hd : c.connector.state = .kDisconnected
  swap
  · rw [startInLoop, assertThat, if_neg hd] at hs
    cases hs
  rw [startInLoop, assertThat_of hd, ok_bind] at hs
  by_cases hc : c.connector.connect_ = true
  · rw [if_pos hc, connectSocket] at hs
    split_ifs at hs with hp hr
    · have hch : (c.setState .kConnecting).connector.channel = none := by
        by_contra hch
        rw [connecting, assertThat, if_neg hch] at hs
        cases hs
      rw [connecting, assertThat_of hch, ok_bind] at hs
      cases hs
      refine ⟨hw, iff_of_true (fun _ => ?_) (fun _ hf => hf.1 hp)⟩
      refine (?_ : Free _).attempts_eq.trans (if_pos rfl)
      exact ⟨h.start, h.timers, h.opened⟩
    · cases hs
      have hretry := retry_persevering h hw
      exact ⟨hretry.waits, iff_of_true hretry.one (fun _ hf => hf.2 hr)⟩
    · cases hs
      refine ⟨hw, iff_of_false (fun hone => ?_) (fun hf => hf hc ⟨hp, hr⟩)⟩
      have hzero := h.attempts_eq
      rw [hd, if_neg (by decide), hone hc] at hzero
      cases hzero
  · rw [if_neg hc] at hs
    cases hs
    exact ⟨hw, iff_of_true (fun hon => absurd hon hc) (fun hon => absurd hon hc)⟩

theorem queueInLoop_persevering (h : c.Persevering) {f : ClientFunctor} (hf : f ≠ .startInLoop) :
    (c.queueInLoop f).Persevering := by
  refine ⟨fun hc => (?_ : _ = c.attempts).trans (h.one hc), h.waits⟩
  have hcount : (c.queueInLoop f).queue.count .startInLoop = c.queue.count .startInLoop := by
    simp [queue, queueInLoop, hf]
  rw [attempts, hcount]
  rfl

theorem free_of_connecting (hi : c.Inv) (hk : c.connector.state = .kConnecting) : c.Free where
  start := fun h => by
    have hd := (hi.start h).1
    rw [hk] at hd
    cases hd
  timers := by
    by_contra h
    have hd := (hi.timer h).1
    rw [hk] at hd
    cases hd
  opened := by
    rw [hi.opened, no_connection hi (by rw [hk]; decide)]
    rfl

theorem removeAndResetChannel_free (hi : c.Inv) (hk : c.connector.state = .kConnecting)
    {s : States} (hs : (c.setState s).removeAndResetChannel = .ok c') :
    c'.Free ∧ (c.BackedOff → c'.BackedOff) ∧ c'.connector.connect_ = c.connector.connect_ := by
  obtain ⟨channel, hc, hadded⟩ := registered_of hi hk
  obtain ⟨removed, -, -, hr⟩ := removeAndResetChannel_of (c := c.setState s) hc hadded
  cases hr.symm.trans hs
  have hfree := free_of_connecting hi hk
  refine ⟨⟨fun h => ?_, hfree.timers, hfree.opened⟩, id, rfl⟩
  refine hfree.start ?_
  simpa [queue, setState, or_assoc] using h

end Attempts

section Events
variable {c c' : TCPClient} {soError : ℕ} {selfConnect : Bool}

theorem handleError_persevering (h : c.Handling) (hp : c.Persevering)
    (hs : c.handleError = .ok c') : c'.Persevering := by
  by_cases hk : c.connector.state = .kConnecting
  · rw [handleError, if_pos hk] at hs
    obtain ⟨d, hd, hs⟩ := bind_ok.mp hs
    cases hs
    obtain ⟨hfree, hback, -⟩ :=
      removeAndResetChannel_free (s := c.connector.state) h.inv hk hd
    exact retry_persevering hfree (hback hp.waits)
  · rw [handleError, if_neg hk] at hs
    cases hs
    exact hp

theorem handleWrite_persevering (h : c.Handling) (hp : c.Persevering)
    (hs : c.handleWrite soError selfConnect = .ok c') : c'.Persevering := by
  by_cases hk : c.connector.state = .kConnecting
  · rw [handleWrite, if_pos hk] at hs
    obtain ⟨d, hd, hs⟩ := bind_ok.mp hs
    obtain ⟨hfree, hback, -⟩ :=
      removeAndResetChannel_free (s := c.connector.state) h.inv hk hd
    have hretry := retry_persevering hfree (hback hp.waits)
    split_ifs at hs with he hself
    · cases hs
      exact hretry
    · cases hs
      exact hretry
    · cases hs
      split_ifs with hc
      · refine ⟨fun _ => ?_, hback hp.waits⟩
        have hstart : d.queue.count .startInLoop = 0 := List.count_eq_zero.mpr hfree.start
        change d.queue.count .startInLoop + d.retryTimers.length + 0 +
          (d.openConnections ++ [_]).length = 1
        rw [hstart, hfree.timers, hfree.opened]
        rfl
      · exact ⟨fun hon => absurd hon hc, hback hp.waits⟩
  · rw [handleWrite, if_neg hk] at hs
    obtain ⟨-, -, hs⟩ := bind_ok.mp hs
    cases hs
    exact hp

theorem handleCallbacks_persevering (h : c.Handling) (hp : c.Persevering)
    {callbacks : List Callback} (hw : Callback.write ∉ callbacks)
    (hs : c.handleCallbacks soError selfConnect callbacks = .ok c') :
    c'.Handling ∧ c'.Persevering := by
  induction callbacks generalizing c with
  | nil =>
    cases hs
    exact ⟨h, hp⟩
  | cons callback callbacks ih =>
    have hrest : Callback.write ∉ callbacks := fun hm => hw (List.mem_cons_of_mem _ hm)
    cases callback with
    | close => exact ih h hp hrest hs
    | read => exact ih h hp hrest hs
    | write => exact absurd List.mem_cons_self hw
    | error =>
      obtain ⟨d, hd, hs⟩ := bind_ok.mp hs
      obtain ⟨e, he, hh⟩ := handleError_handling h
      cases hd.symm.trans he
      exact ih hh (handleError_persevering h hp hd) hrest hs

theorem handleEvent_persevering (hi : c.Inv) (hp : c.Persevering) (ha : c.channelActive = true)
    {r : Revents} (hs : c.handleEvent r soError selfConnect = .ok c') : c'.Persevering := by
  obtain ⟨hk, he⟩ := hi.active ha
  obtain ⟨channel, hc, -⟩ := registered_of hi hk
  have h : Handling { c with channelActive := false } :=
    ⟨{ hi with active := fun h => (by cases h) }, he, rfl, by simp [hk]⟩
  have hp' : Persevering { c with channelActive := false } := ⟨hp.one, hp.waits⟩
  have hw : Callback.write ∉ (if r.pollhup && !r.pollin then [Callback.close] else []) ++
      (if r.pollerr || r.pollnval then [.error] else []) ++
      (if r.pollin || r.pollpri || r.pollrdhup then [.read] else []) := by
    split_ifs <;> simp
  simp only [handleEvent, hc, Channel.callbacks, handleCallbacks_append _ _ _ (_ ++ _ ++ _)] at hs
  obtain ⟨d, hd, hs⟩ := bind_ok.mp hs
  obtain ⟨hh, hpd⟩ := handleCallbacks_persevering h hp' hw hd
  split_ifs at hs
  · obtain ⟨e, hwrite, hs⟩ := bind_ok.mp hs
    cases hs
    exact handleWrite_persevering hh hpd hwrite
  · cases hs
    exact hpd

theorem stopInLoop_persevering (hi : c.Inv) (hp : c.Persevering)
    (hs : c.stopInLoop = .ok c') : c'.Persevering := by
  by_cases hk : c.connector.state = .kConnecting
  · rw [stopInLoop, if_pos hk] at hs
    obtain ⟨d, hd, hs⟩ := bind_ok.mp hs
    cases hs
    obtain ⟨hfree, hback, -⟩ := removeAndResetChannel_free hi hk hd
    exact retry_persevering hfree (hback hp.waits)
  · rw [stopInLoop, if_neg hk] at hs
    cases hs
    exact hp

theorem resetChannel_persevering (hp : c.Persevering) (hs : c.resetChannel = .ok c') :
    c'.Persevering := by
  unfold resetChannel at hs
  split at hs
  · cases hs
    exact hp
  · obtain ⟨-, -, hs⟩ := bind_ok.mp hs
    obtain ⟨-, -, hs⟩ := bind_ok.mp hs
    cases hs
    exact ⟨hp.one, hp.waits⟩

end Events

section Closing
variable {c c' : TCPClient} {k : ConnectResult} {conn : ℕ}

theorem handleClose_one (hi : c.Inv) (hp : c.Persevering) (ho : conn ∈ c.openConnections)
    (hs : c.handleClose conn k = .ok c') :
    c'.BackedOff ∧ ((c'.connector.connect_ = true → c'.attempts = 1) ↔ c.Reconnects k) := by
  have hconn : c.connection = some conn := by
    rw [hi.opened] at ho
    simpa using ho
  have hk := hi.connected (by simp [hconn])
  have hfree : (c.closed conn).Free := by
    refine ⟨fun h => ?_, ?_, ?_⟩
    · have hm : ClientFunctor.startInLoop ∈ c.queue := by
        simpa [queue, closed, queueInLoop] using h
      have hd := (hi.start hm).1
      rw [hk] at hd
      cases hd
    · by_contra h
      have hd := (hi.timer h).1
      rw [hk] at hd
      cases hd
    · simp [closed, queueInLoop, hi.opened, hconn]
  rw [handleClose_eq hconn] at hs
  rw [Reconnects]
  split_ifs at hs ⊢ with hr
  · have hreset : Free { c.closed conn with connector := { (c.closed conn).connector with
        state := .kDisconnected, retryDelayMs := kInitRetryDelayMs, connect_ := true } } :=
      ⟨hfree.start, hfree.timers, hfree.opened⟩
    have hback : BackedOff { c.closed conn with connector := { (c.closed conn).connector with
        state := .kDisconnected, retryDelayMs := kInitRetryDelayMs, connect_ := true } } := by
      refine ⟨0, waitMs_zero, fun d hd => ?_⟩
      change d ∈ (c.closed conn).retryTimers at hd
      rw [hfree.timers] at hd
      cases hd
    obtain ⟨hw, hone⟩ := startInLoop_one hreset hback hs
    exact ⟨hw, hone.trans ⟨fun h => h rfl, fun h _ => h⟩⟩
  · cases hs
    refine ⟨hp.waits, ?_⟩
    have hzero : (c.closed conn).attempts = 0 :=
      hfree.attempts_eq.trans (if_neg (fun h => by cases hk.symm.trans h))
    rw [hzero]
    change (c.connector.connect_ = true → 0 = 1) ↔ c.connector.connect_ = false
    simp

end Closing

section Runs
variable {c c' : TCPClient}

theorem runFunctor_one (hi : c.Inv) (hp : c.Persevering) {f : ClientFunctor}
    {fs : List ClientFunctor} (hf : c.functors = f::fs) {k : ConnectResult}
    (hs : c.step (.runFunctor k) = .ok c') :
    c'.BackedOff ∧ ((c'.connector.connect_ = true → c'.attempts = 1) ↔
      c.FunctorPersists k f) := by
  have hq : c.queue = f::(fs ++ c.pendingFunctors) := by simp [queue, hf]
  have hrun : runFunctor { c with functors := fs } k f = .ok c' := by
    simpa only [step, hf] using hs
  have hpopped : f ≠ .resetChannel → Inv { c with functors := fs } := popped_inv hi hf
  have hkept : f ≠ .startInLoop → Persevering { c with functors := fs } := by
    intro hne
    refine ⟨fun hc => (?_ : _ = c.attempts).trans (hp.one hc), hp.waits⟩
    have hcount : (fs ++ c.pendingFunctors).count .startInLoop = c.queue.count .startInLoop := by
      rw [hq, List.count_cons_of_ne hne]
    change (fs ++ c.pendingFunctors).count .startInLoop + _ + _ + _ = _
    rw [hcount]
    rfl
  cases f with
  | startInLoop =>
    obtain ⟨hd, ht, hone⟩ := hi.start (by simp [hq])
    have hfree : Free { c with functors := fs } := by
      refine ⟨?_, ht, ?_⟩
      · rw [hq, List.count_cons_self, Nat.add_eq_right] at hone
        exact List.count_eq_zero.mp hone
      · change c.openConnections = []
        rw [hi.opened, no_connection hi (by rw [hd]; decide)]
        rfl
    have hwaits : BackedOff { c with functors := fs } := hp.waits
    have h := startInLoop_one hfree hwaits hrun
    exact h
  | stopInLoop =>
    have hp' := stopInLoop_persevering (hpopped (by simp)) (hkept (by simp)) hrun
    exact ⟨hp'.waits, iff_of_true hp'.one trivial⟩
  | resetChannel =>
    have hp' := resetChannel_persevering (hkept (by simp)) hrun
    exact ⟨hp'.waits, iff_of_true hp'.one trivial⟩
  | connectDestroyed conn =>
    cases hrun
    exact ⟨hp.waits, iff_of_true (hkept (by simp)).one trivial⟩
  | forceCloseInLoop conn =>
    simp only [runFunctor] at hrun
    split_ifs at hrun with ho
    · obtain ⟨hw, hone⟩ := handleClose_one (hpopped (by simp)) (hkept (by simp)) ho hrun
      exact ⟨hw, hone.trans ⟨fun h _ => h, fun h => h ho⟩⟩
    · cases hrun
      exact ⟨hp.waits, iff_of_true (hkept (by simp)).one (fun h => absurd h ho)⟩

theorem step_one (hi : c.Inv) (hp : c.Persevering) {a : Action} (he : c.Enabled a)
    (hu : c.Used a) (hs : c.step a = .ok c') :
    c'.BackedOff ∧ ((c'.connector.connect_ = true → c'.attempts = 1) ↔ c.Persists a) := by
  have hdone : c'.Persevering → c.Persists a →
      c'.BackedOff ∧ ((c'.connector.connect_ = true → c'.attempts = 1) ↔ c.Persists a) :=
    fun hp' h => ⟨hp'.waits, iff_of_true hp'.one h⟩
  cases a with
  | connect inLoopThread k =>
    obtain ⟨hd, hnone, ht⟩ := hu.1
    have hopen : c.openConnections = [] := by
      rw [hi.opened, no_connection hi (by rw [hd]; decide)]
      rfl
    cases inLoopThread with
    | true =>
      have hfree : Free { c with
          connect_ := true, connector := { c.connector with connect_ := true } } :=
        ⟨hnone, ht, hopen⟩
      obtain ⟨hw, hone⟩ := startInLoop_one hfree hp.waits hs
      exact ⟨hw, hone.trans ⟨fun h _ => h rfl, fun h _ => h rfl⟩⟩
    | false =>
      cases hs
      refine hdone ⟨fun _ => ?_, hp.waits⟩ (fun h => by cases h)
      have hcount : (c.queueInLoop .startInLoop).queue.count .startInLoop = 1 := by
        have hq : (c.queueInLoop .startInLoop).queue = c.queue ++ [.startInLoop] := by
          simp [queue, queueInLoop]
        rw [hq, List.count_append, List.count_eq_zero.mpr hnone]
        rfl
      change (c.queueInLoop .startInLoop).queue.count .startInLoop + c.retryTimers.length +
        (if c.connector.state = .kConnecting then 1 else 0) + c.openConnections.length = 1
      rw [hcount, ht, hopen, hd]
      rfl
  | stop =>
    cases hs
    exact hdone ⟨fun h => absurd h Bool.false_ne_true, hp.waits⟩ trivial
  | disconnect =>
    cases hs
    exact hdone ⟨hp.one, hp.waits⟩ trivial
  | enableRetry =>
    cases hs
    exact hdone ⟨hp.one, hp.waits⟩ trivial
  | forceClose conn =>
    cases hs
    exact hdone (queueInLoop_persevering hp (by simp)) trivial
  | poll ready conns =>
    cases hs
    exact hdone ⟨hp.one, hp.waits⟩ trivial
  | handleEvent r soError selfConnect =>
    exact hdone (handleEvent_persevering hi hp he hs) trivial
  | closeEvent conn k => exact handleClose_one hi hp he.2 hs
  | retryTimer i k =>
    have hne : c.retryTimers ≠ [] := List.ne_nil_of_length_pos (Nat.zero_lt_of_lt he.2)
    obtain ⟨hd, hone⟩ := hi.timer hne
    have hnil : c.retryTimers.eraseIdx i = [] := by
      rw [← List.length_eq_zero_iff, List.length_eraseIdx_of_lt he.2, hone]
    have hfree : Free { c with retryTimers := c.retryTimers.eraseIdx i } := by
      refine ⟨fun h => hne (hi.start h).2.1, hnil, ?_⟩
      change c.openConnections = []
      rw [hi.opened, no_connection hi (by rw [hd]; decide)]
      rfl
    have hwaits : BackedOff { c with retryTimers := c.retryTimers.eraseIdx i } := by
      obtain ⟨j, hj, hall⟩ := hp.waits
      exact ⟨j, hj, fun d hm => hall d (List.mem_of_mem_eraseIdx hm)⟩
    have h := startInLoop_one hfree hwaits hs
    exact h
  | swap =>
    cases hs
    refine hdone ⟨fun hc => (?_ : _ = c.attempts).trans (hp.one hc), hp.waits⟩ trivial
    change (c.pendingFunctors ++ []).count ClientFunctor.startInLoop + _ + _ + _ = c.attempts
    rw [attempts, queue, hi.swapped he, List.append_nil, List.nil_append]
  | runFunctor k =>
    cases hf : c.functors with
    | nil => exact absurd hf he
    | cons f fs =>
      have hhead : c.Persists (.runFunctor k) ↔ c.FunctorPersists k f := by simp [Persists, hf]
      rw [hhead]
      exact runFunctor_one hi hp hf hs

theorem construct_persevering : construct.Persevering :=
  ⟨fun h => absurd h Bool.false_ne_true, 0, waitMs_zero, fun _ h => absurd h List.not_mem_nil⟩

/-- Throughout every such run of a client, as long as it is to connect it has
exactly one start queued, retry timed, attempt going on or connection open, if
and only if no attempt fails for good and every connection that closes on it is
retried. A retry waits 500 ms, then twice as long each time up to 30 s. -/
theorem client_perseveres (as : List Action)
    (ha : Admitted step (fun c a => c.Enabled a ∧ c.Used a) construct as) :
    Throughout step Persevering (fun _ => False) construct as ↔
      Admitted step Persists construct as := by
  refine throughout_iff (fun c a => c.Enabled a ∧ c.Used a) Persists
    (I := fun c => c.Inv ∧ c.Persevering) (fun c h => h.2) (fun c a hi hc hp => ?_)
    (fun c a hi hc hp hy => ?_) as construct ⟨construct_inv, construct_persevering⟩ ha
  · obtain ⟨c', hs, hi'⟩ := step_inv hi.1 hc.1 hc.2
    obtain ⟨hw, hone⟩ := step_one hi.1 hi.2 hc.1 hc.2 hs
    rw [hs]
    exact (yields_ok _ _ _).mpr ⟨hi', hone.mpr hp, hw⟩
  · obtain ⟨c', hs, -⟩ := step_inv hi.1 hc.1 hc.2
    rw [hs] at hy
    exact hp ((step_one hi.1 hi.2 hc.1 hc.2 hs).2.mp ((yields_ok _ _ _).mp hy).one)

/-- A refused attempt, its retry, the connection, and the attempt after this
has closed, which is refused again. -/
theorem client_perseveres_reconnect :
    Throughout step Persevering (fun _ => False) construct [.enableRetry,
      .connect false ⟨0, 0⟩, .poll false [], .swap, .runFunctor ⟨5, ECONNREFUSED⟩, .poll false [],
      .retryTimer 0 ⟨6, EINPROGRESS⟩, .swap, .poll true [],
      .handleEvent ⟨false, false, true, false, false, false, false⟩ 0 false, .swap,
      .runFunctor ⟨0, 0⟩, .poll false [1], .closeEvent 1 ⟨7, ENETUNREACH⟩] :=
  (client_perseveres _ (by decide)).mpr (by decide)

end Runs

end Lux.Polaris.TCPClient
