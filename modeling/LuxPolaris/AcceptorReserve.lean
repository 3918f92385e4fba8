import LuxPolaris.AcceptorRuns

/-!
# The reserve of an acceptor

A full table does not keep the acceptor from its queue as long as it has its
reserve, and it has it as long as no other thread takes the slot between the
calls of `handleRead`. Once the reserve is lost and the table is full, the
handler does nothing, however often the loop calls it.
-/

set_option autoImplicit false

namespace Lux.Polaris.Acceptor
open Outcome SlotTable

/-- No other thread opens a descriptor while the reserve is given up. -/
def Undisturbed (s : Acceptor) : Action → Prop
  | .openOther => s.stage = .ready ∨ s.stage = .exhausted ∨ s.stage = .destroyed
  | _ => True

instance (s : Acceptor) : (a : Action) → Decidable (s.Undisturbed a)
  | .openOther => inferInstanceAs (Decidable (_ ∨ _))
  | .arrive _ => isTrue trivial
  | .abort _ => isTrue trivial
  | .closeOther _ => isTrue trivial
  | .handleRead _ => isTrue trivial
  | .closeIdle => isTrue trivial
  | .acceptIdle _ => isTrue trivial
  | .closeTaken => isTrue trivial
  | .reopen => isTrue trivial
  | .destroy => isTrue trivial

/-- The reserve, or the room for it. -/
def Reserved (s : Acceptor) : Prop :=
  match s.stage with
  | .ready | .exhausted => s.idleFd ≠ none
  | .vacated | .dropped => ¬Full s.table
  | .taken => s.idleFd = none → ¬Full s.table
  | .destroyed => True

def round (s : Acceptor) : List Action :=
  if Full s.table then [.handleRead none, .closeIdle, .acceptIdle none, .closeTaken, .reopen]
  else [.handleRead none]

section Steps
variable {s t : Acceptor}

theorem close_room (hh : ∃ f, s.idleFd.bind (entry s.table) = some f) :
    ¬Full (s.close s.idleFd).table := by
  obtain ⟨f, hf⟩ := hh
  obtain ⟨fd, hfd, he⟩ := Option.bind_eq_some_iff.mp hf
  simp only [close, hfd, he]
  exact not_full_release he

theorem handleRead_reserved (hr : s.Reserved) (hs : s.stage = .ready) {e : Option ℕ}
    (h : s.handleRead e = .ok t) : t.Reserved := by
  have hidle : s.idleFd ≠ none := by simpa [Reserved, hs] using hr
  rcases handleRead_cases s e with
    ⟨connfd, id, backlog, table, -, -, hx | hx⟩ | hx | hx | ⟨errno, -, hx⟩
  · cases hx.symm.trans h
    simpa [Reserved, hs] using hidle
  · cases hx.symm.trans h
    obtain ⟨table', closed, hc⟩ := close_frame
      { s with table := table, backlog := backlog, refused := s.refused ++ [id] } (some connfd)
    rw [hc]
    simpa [Reserved, hs] using hidle
  · cases hx.symm.trans h
    exact hr
  · cases hx.symm.trans h
    exact hidle
  · cases hx.symm.trans h

theorem acceptIdle_reserved (hr : s.Reserved) (hs : s.stage = .vacated) (e : Option ℕ) :
    (s.acceptIdle e).Reserved := by
  have hroom : ¬Full s.table := by simpa [Reserved, hs] using hr
  rcases accept_cases s e with ⟨connfd, id, backlog, table, -, -, hacc⟩ | ⟨errno, hacc⟩
  · simp [acceptIdle, hacc, Reserved]
  · simp [acceptIdle, hacc, Reserved, hroom]

theorem reopen_reserved (hr : s.Reserved) (hs : s.stage = .dropped) : s.reopen.Reserved := by
  have hroom : ¬Full s.table := by simpa [Reserved, hs] using hr
  rcases openFile_cases s.table .devNull with ⟨fd, table, ho, -⟩ | ⟨-, hfull⟩
  · simp [reopen, ho, Reserved]
  · exact absurd hfull hroom

theorem closeOther_reserved (hr : s.Reserved) (fd : ℕ) :
    Reserved { s with table := release s.table fd } := by
  unfold Reserved at hr ⊢
  cases hs : s.stage with
  | destroyed => trivial
  | ready | exhausted =>
    simp only [hs] at hr ⊢
    exact hr
  | vacated | dropped =>
    simp only [hs] at hr ⊢
    exact not_full_release_of_not_full hr fd
  | taken =>
    simp only [hs] at hr ⊢
    exact fun hn => not_full_release_of_not_full (hr hn) fd

theorem step_reserved {a : Action} (hi : s.Inv) (hr : s.Reserved) (he : s.Enabled a)
    (hu : s.Undisturbed a) (h : s.step a = .ok t) : t.Reserved := by
  have hh := hi.holds
  cases a with
  | arrive id =>
    cases h
    exact hr
  | abort id =>
    cases h
    exact hr
  | openOther =>
    cases h
    unfold Reserved at hr ⊢
    rcases hu with hs | hs | hs <;> simp only [hs] at hr ⊢ <;> exact hr
  | closeOther fd =>
    cases h
    exact closeOther_reserved hr fd
  | handleRead e => exact handleRead_reserved hr he.1 h
  | closeIdle =>
    cases h
    have hs : s.stage = .exhausted := he
    have hidle : s.idleFd ≠ none := by simpa [Reserved, hs] using hr
    obtain ⟨fd, hfd⟩ := Option.ne_none_iff_exists'.mp hidle
    have hentry := (hh.reserve fd).mpr ⟨Or.inr hs, hfd⟩
    exact close_room ⟨.devNull, by rw [hfd]; exact hentry⟩
  | acceptIdle e =>
    cases h
    exact acceptIdle_reserved hr he e
  | closeTaken =>
    cases h
    have hs : s.stage = .taken := he
    cases hfd : s.idleFd with
    | none =>
      have hroom : ¬Full s.table := by simpa [Reserved, hs, hfd] using hr
      simpa [closeTaken, close, hfd, Reserved] using hroom
    | some fd =>
      obtain ⟨id, -, hentry⟩ := hh.taken hs fd hfd
      exact close_room ⟨.connection id, by rw [hfd]; exact hentry⟩
  | reopen =>
    cases h
    exact reopen_reserved hr he
  | destroy =>
    cases h
    trivial

end Steps

section Round
variable {s : Acceptor}

theorem accept_full (hfull : Full s.table) : s.accept none = .error EMFILE := by
  cases hb : s.backlog with
  | nil => simp only [accept, hb, if_pos hfull]
  | cons id backlog => simp only [accept, hb, alloc_eq_none_iff.mpr hfull]

theorem accept_room (hroom : ¬Full s.table) {id : ℕ} {backlog : List ℕ}
    (hb : s.backlog = id::backlog) : ∃ connfd table,
      alloc s.table (.connection id) = some (connfd, table) ∧
      s.accept none = .ok (connfd, id, { s with table := table, backlog := backlog }) := by
  obtain ⟨connfd, table, ha⟩ := exists_alloc hroom (.connection id)
  exact ⟨connfd, table, ha, by simp only [accept, hb, ha]⟩

theorem handleRead_full (hfull : Full s.table) :
    s.handleRead none = .ok { s with stage := .exhausted } := by
  have hx : EMFILE ∈ expectedErrors := by decide
  simp only [handleRead, accept_full hfull, if_pos hx, if_true]

theorem round_lost (hs : s.stage = .ready) (hidle : s.idleFd = none) (hfull : Full s.table) :
    run step s s.round = .ok s := by
  rw [round, if_pos hfull]
  refine run_cons_ok.mpr ⟨_, handleRead_full hfull, run_cons_ok.mpr ⟨_, rfl, run_cons_ok.mpr
    ⟨_, rfl, run_cons_ok.mpr ⟨_, rfl, run_cons_ok.mpr ⟨_, rfl, ?_⟩⟩⟩⟩⟩
  have hclose : closeIdle { s with stage := .exhausted } = { s with stage := .vacated } := by
    simp only [closeIdle, hidle, close]
  have hacc := accept_full (s := { s with stage := .vacated }) hfull
  have hopen : openFile s.table .devNull = (none, s.table) := by
    simp only [openFile, alloc_eq_none_iff.mpr hfull]
  rw [hclose]
  simp only [acceptIdle, hacc, closeTaken, close, reopen, hopen]
  rw [run, ← hidle, ← hs]

/-- With its reserve the acceptor takes a connection also from a full table,
and refuses it. -/
theorem round_refused {fd id : ℕ} {backlog : List ℕ} (hidle : s.idleFd = some fd)
    (hentry : entry s.table fd = some .devNull) (hfull : Full s.table)
    (hb : s.backlog = id::backlog) :
    ∃ t, run step s s.round = .ok t ∧ t.stage = .ready ∧ t.backlog = backlog ∧
      t.handed = s.handed ∧ t.refused = s.refused ++ [id] ∧ t.idleFd ≠ none := by
  have hclose : closeIdle { s with stage := .exhausted } = { s with
      table := release s.table fd, closed := s.closed ++ [.devNull], stage := .vacated } := by
    simp only [closeIdle, hidle, close, hentry]
  obtain ⟨connfd, table, ha, hacc⟩ := accept_room (s := { s with
    table := release s.table fd, closed := s.closed ++ [.devNull], stage := .vacated })
    (not_full_release hentry) hb
  obtain ⟨idleFd, table', ha'⟩ := exists_alloc
    (not_full_release (alloc_spec ha).2.1) File.devNull
  have hopen : openFile (release table connfd) .devNull = (some idleFd, table') := by
    simp only [openFile, ha']
  rw [round, if_pos hfull]
  refine ⟨_, run_cons_ok.mpr ⟨_, handleRead_full hfull, run_cons_ok.mpr ⟨_, rfl, run_cons_ok.mpr
    ⟨_, rfl, run_cons_ok.mpr ⟨_, rfl, run_cons_ok.mpr ⟨_, rfl, rfl⟩⟩⟩⟩⟩, ?_⟩
  rw [hclose]
  simp only [acceptIdle, hacc, closeTaken, close, (alloc_spec ha).2.1, reopen, hopen]
  simp

theorem round_accepted {id : ℕ} {backlog : List ℕ} (hs : s.stage = .ready) (hroom : ¬Full s.table)
    (hb : s.backlog = id::backlog) :
    ∃ t, run step s s.round = .ok t ∧ t.stage = .ready ∧ t.backlog = backlog ∧
      t.idleFd = s.idleFd ∧
      if s.newConnectionCallback then t.handed = s.handed ++ [id] ∧ t.refused = s.refused
      else t.handed = s.handed ∧ t.refused = s.refused ++ [id] := by
  obtain ⟨connfd, table, -, hacc⟩ := accept_room hroom hb
  rw [round, if_neg hroom]
  cases hcb : s.newConnectionCallback with
  | true =>
    refine ⟨{ s with table := table, backlog := backlog, handed := s.handed ++ [id] },
      run_cons_ok.mpr ⟨_, ?_, rfl⟩, hs, rfl, rfl, by simp⟩
    simp only [step, handleRead, hacc, hcb, if_true]
  | false =>
    obtain ⟨table', closed, hc⟩ := close_frame
      { s with table := table, backlog := backlog, refused := s.refused ++ [id] } (some connfd)
    refine ⟨_, run_cons_ok.mpr ⟨close { s with
      table := table, backlog := backlog, refused := s.refused ++ [id] } (some connfd),
      ?_, rfl⟩, ?_⟩
    · simp only [step, handleRead, hacc, hcb, Bool.false_eq_true, if_false]
    · rw [hc]
      exact ⟨hs, rfl, rfl, by simp⟩

theorem acceptIdle_stage (s : Acceptor) (e : Option ℕ) : (s.acceptIdle e).stage = .taken := by
  unfold acceptIdle
  split <;> rfl

theorem round_admitted (hs : s.stage = .ready) : Admitted step Enabled s s.round := by
  unfold round
  split_ifs with hfull
  · refine ⟨⟨hs, by simp⟩, fun s₁ h₁ => ?_⟩
    cases (handleRead_full hfull).symm.trans h₁
    refine ⟨rfl, fun s₂ h₂ => ?_⟩
    cases h₂
    refine ⟨rfl, fun s₃ h₃ => ?_⟩
    cases h₃
    refine ⟨acceptIdle_stage _ _, fun s₄ h₄ => ?_⟩
    cases h₄
    exact ⟨rfl, fun s₅ _ => trivial⟩
  · exact ⟨⟨hs, by simp⟩, fun s₁ _ => trivial⟩

end Round

/-- Between events, in any run of clients, other threads and the acceptor: the
reserve is there unless another thread opened a descriptor while it was given
up. A waiting connection is taken by one undisturbed round of `handleRead`,
handed over if there is room and a callback and refused otherwise; only without
a reserve and with a full table the round changes nothing at all. -/
theorem acceptor_progress (table : List (Option File)) (callback : Bool) (s₀ s : Acceptor)
    (as : List Action) (ht : ∀ e ∈ table, e = none ∨ e = some .other)
    (h : construct table callback = .ok s₀) (ha : Admitted step Enabled s₀ as)
    (hr : run step s₀ as = .ok s) (hs : s.stage = .ready) :
    (Admitted step Undisturbed s₀ as → s.idleFd ≠ none) ∧
    ∀ id backlog, s.backlog = id::backlog → Admitted step Enabled s s.round ∧
      ∃ t, run step s s.round = .ok t ∧ t.stage = .ready ∧
        (s.idleFd = none ∧ Full s.table → t = s) ∧
        (¬(s.idleFd = none ∧ Full s.table) →
          t.backlog = backlog ∧ t.idleFd.isSome = s.idleFd.isSome ∧
          if ¬Full s.table ∧ s.newConnectionCallback = true then
            t.handed = s.handed ++ [id] ∧ t.refused = s.refused
          else t.handed = s.handed ∧ t.refused = s.refused ++ [id]) := by
  have hinit := construct_inv ht h
  have hi : s.Inv := (run_yields Enabled (fun _ _ hi he => step_inv hi he) as s₀ hinit ha).ok hr
  refine ⟨fun hu => ?_, fun id backlog hb => ⟨round_admitted hs, ?_⟩⟩
  · have hreserved : s₀.Reserved := by
      obtain ⟨_, _, _, _, -, -, rfl⟩ := construct_ok h
      simp [Reserved]
    have hy : Yields (run step s₀ as) (fun s => s.Inv ∧ s.Reserved) (fun _ => True) := by
      have hboth := admitted_and ha hu
      refine run_yields _ (fun s a hi hc => ?_) as s₀ ⟨hinit, hreserved⟩ hboth
      cases hstep : s.step a with
      | error e => exact (yields_error _ _ _).mpr trivial
      | ok t =>
        exact (yields_ok _ _ _).mpr
          ⟨(step_inv hi.1 hc.1).ok hstep, step_reserved hi.1 hi.2 hc.1 hc.2 hstep⟩
    simpa only [Reserved, hs] using (hy.ok hr).2
  · by_cases hfull : Full s.table
    · cases hidle : s.idleFd with
      | none =>
        exact ⟨s, round_lost hs hidle hfull, hs, fun _ => rfl, fun hn => absurd ⟨rfl, hfull⟩ hn⟩
      | some fd =>
        have hentry := (hi.holds.reserve fd).mpr ⟨Or.inl hs, hidle⟩
        obtain ⟨t, hrun, hst, hback, hhanded, hrefused, hres⟩ :=
          round_refused hidle hentry hfull hb
        refine ⟨t, hrun, hst, fun hl => (by cases hl.1), fun _ => ⟨hback, ?_, ?_⟩⟩
        · exact Option.isSome_iff_ne_none.mpr hres
        · rw [if_neg fun hn => hn.1 hfull]
          exact ⟨hhanded, hrefused⟩
    · obtain ⟨t, hrun, hst, hback, hidle, hplace⟩ := round_accepted hs hfull hb
      refine ⟨t, hrun, hst, fun hl => absurd hl.2 hfull, fun _ => ⟨hback, by rw [hidle], ?_⟩⟩
      simpa [hfull] using hplace

def crowdedOut : List Action := [.arrive 1, .handleRead none, .arrive 2]

theorem acceptor_progress_crowded :
    ∃ s₀ s t, construct [some .other, none, none, none] true = .ok s₀ ∧
      run step s₀ crowdedOut = .ok s ∧ s.idleFd ≠ none ∧ Full s.table ∧
      run step s s.round = .ok t ∧ t.backlog = [] ∧ t.refused = [2] := by
  have hrun : (construct [some .other, none, none, none] true >>= fun s₀ =>
      (fun s => (decide (Admitted step Enabled s₀ crowdedOut ∧
          Admitted step Undisturbed s₀ crowdedOut ∧ s.stage = .ready ∧ Full s.table),
        s.backlog, s.refused)) <$> run step s₀ crowdedOut) =
      .ok (true, [2], []) := by decide +kernel
  obtain ⟨s₀, h₀, hmap⟩ := bind_ok.mp hrun
  obtain ⟨s, hs, heq⟩ := map_ok.mp hmap
  simp only [Prod.mk.injEq, decide_eq_true_eq] at heq
  obtain ⟨⟨hadm, hund, hstage, hfull⟩, hback, hrefused⟩ := heq
  have h := acceptor_progress _ true s₀ s crowdedOut (by decide) h₀ hadm hs hstage
  have hidle := h.1 hund
  obtain ⟨-, t, hround, -, -, ht⟩ := h.2 2 [] hback
  obtain ⟨hb, -, hplace⟩ := ht (fun hn => hidle hn.1)
  rw [if_neg fun hn => hn.1 hfull, hrefused] at hplace
  exact ⟨s₀, s, t, h₀, hs, hidle, hfull, hround, hb, hplace.2⟩

end Lux.Polaris.Acceptor
