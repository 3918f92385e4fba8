import LuxPolaris.Acceptor

/-!
# The descriptors of an acceptor

The invariant says what each descriptor of the table is to the acceptor at
each of its stages. With it no call of the acceptor closes what belongs to
another part of the process, and every connection that arrives ends in one
place, whatever the other threads do in between.
-/

set_option autoImplicit false

namespace Lux.Polaris.Acceptor
open Outcome SlotTable

section Table
variable {s : Acceptor}

theorem close_table (s : Acceptor) (fd : Option ℕ) (n : ℕ) :
    entry (s.close fd).table n = if fd = some n then none else entry s.table n := by
  cases fd with
  | none => simp [close]
  | some k =>
    cases h : entry s.table k with
    | none =>
      simp only [close, h, Option.some.injEq]
      split_ifs with hk
      · rw [← hk, h]
      · rfl
    | some f =>
      simp only [close, h, Option.some.injEq, entry_release, eq_comm]

theorem close_closed (s : Acceptor) (fd : Option ℕ) :
    (s.close fd).closed = s.closed ++ (fd.bind (entry s.table)).toList := by
  cases fd with
  | none => simp [close]
  | some k =>
    cases h : entry s.table k with
    | none => simp [close, h]
    | some f => simp [close, h]

theorem close_frame (s : Acceptor) (fd : Option ℕ) :
    ∃ table closed, s.close fd = { s with table := table, closed := closed } := by
  cases fd with
  | none => exact ⟨s.table, s.closed, rfl⟩
  | some fd =>
    cases h : entry s.table fd with
    | none => exact ⟨s.table, s.closed, by simp only [close, h]⟩
    | some f => exact ⟨release s.table fd, s.closed ++ [f], by simp only [close, h]⟩

theorem openFile_cases (table : List (Option File)) (f : File) :
    (∃ fd table', openFile table f = (some fd, table') ∧ alloc table f = some (fd, table')) ∨
    openFile table f = (none, table) ∧ Full table := by
  unfold openFile
  cases h : alloc table f with
  | none => exact Or.inr ⟨rfl, alloc_eq_none_iff.mp h⟩
  | some r =>
    obtain ⟨fd, table'⟩ := r
    exact Or.inl ⟨fd, table', rfl, rfl⟩

theorem accept_cases (s : Acceptor) (e : Option ℕ) :
    (∃ connfd id backlog table, s.backlog = id::backlog ∧
      alloc s.table (.connection id) = some (connfd, table) ∧
      s.accept e = .ok (connfd, id, { s with table := table, backlog := backlog })) ∨
    ∃ errno, s.accept e = .error errno := by
  cases e with
  | some errno => exact Or.inr ⟨errno, rfl⟩
  | none =>
    cases hb : s.backlog with
    | nil => exact Or.inr ⟨if Full s.table then EMFILE else EAGAIN, by simp only [accept, hb]⟩
    | cons id backlog =>
      cases ha : alloc s.table (.connection id) with
      | none => exact Or.inr ⟨EMFILE, by simp only [accept, hb, ha]⟩
      | some r =>
        obtain ⟨connfd, table⟩ := r
        exact Or.inl ⟨connfd, id, backlog, table, rfl, ha, by simp only [accept, hb, ha]⟩

end Table

/-- What the acceptor may have closed: its reserve, connections that it
refused, and in the end its socket. -/
def Own (s : Acceptor) : File → Prop
  | .devNull => True
  | .connection id => id ∈ s.refused
  | .acceptSocket => s.stage = .destroyed
  | .other => False

structure Holds (s : Acceptor) : Prop where
  socket : ∀ n, entry s.table n = some .acceptSocket ↔ s.stage ≠ .destroyed ∧ n = s.acceptFd
  reserve : ∀ n, entry s.table n = some .devNull ↔
    (s.stage = .ready ∨ s.stage = .exhausted) ∧ s.idleFd = some n
  connections : ∀ n id, entry s.table n = some (.connection id) →
    id ∈ s.handed ∨ s.stage = .taken ∧ s.idleFd = some n
  taken : s.stage = .taken → ∀ n, s.idleFd = some n →
    ∃ id ∈ s.refused, entry s.table n = some (.connection id)

/-- Where the connections are, and what has been closed. -/
structure Ledger (s : Acceptor) : Prop where
  fresh : s.arrived.Nodup
  places : s.arrived.Perm (s.backlog ++ (s.handed ++ (s.refused ++ s.aborted)))
  closed : ∀ f ∈ s.closed, s.Own f

structure Inv (s : Acceptor) : Prop where
  ledger : s.Ledger
  holds : s.Holds

section Steps
variable {s : Acceptor}

theorem openOther_holds (hh : s.Holds) :
    Holds { s with table := (openFile s.table .other).2 } := by
  rcases openFile_cases s.table .other with ⟨fd, table, ho, ha⟩ | ⟨ho, -⟩
  swap
  · rw [ho]
    exact hh
  rw [ho]
  refine ⟨fun n => ?_, fun n => ?_, fun n id h => ?_, fun hs n hn => ?_⟩
  · exact (entry_alloc_iff ha (by simp) n).trans (hh.socket n)
  · exact (entry_alloc_iff ha (by simp) n).trans (hh.reserve n)
  · exact hh.connections n id ((entry_alloc_iff ha (by simp) n).mp h)
  · obtain ⟨id, hid, hn'⟩ := hh.taken hs n hn
    exact ⟨id, hid, (entry_alloc_iff ha (by simp) n).mpr hn'⟩

theorem not_handed_of_refused (hl : s.Ledger) {id : ℕ} (hr : id ∈ s.refused) :
    id ∉ s.handed := by
  intro hh
  have hnd := hl.places.nodup_iff.mp hl.fresh
  have hrest := (List.nodup_append.mp hnd).2.1
  exact (List.nodup_append.mp hrest).2.2 id hh id (List.mem_append_left _ hr) rfl

theorem closeOther_holds (hi : s.Inv) {fd : ℕ} (hf : s.Foreign fd) :
    Holds { s with table := release s.table fd } := by
  have hh := hi.holds
  have hsocket : entry s.table fd ≠ some .acceptSocket := by
    rcases hf with h | ⟨id, -, h⟩ <;> simp [h]
  have hnull : entry s.table fd ≠ some .devNull := by
    rcases hf with h | ⟨id, -, h⟩ <;> simp [h]
  refine ⟨fun n => ?_, fun n => ?_, fun n id h => ?_, fun hs n hn => ?_⟩
  · exact (entry_release_iff hsocket n).trans (hh.socket n)
  · exact (entry_release_iff hnull n).trans (hh.reserve n)
  · apply hh.connections n id
    rw [entry_release] at h
    split_ifs at h
    exact h
  · obtain ⟨id, hid, hn'⟩ := hh.taken hs n hn
    refine ⟨id, hid, (entry_release_iff ?_ n).mpr hn'⟩
    -- a refused connection is nobody else's
    rcases hf with h | ⟨id', hid', h⟩
    · simp [h]
    · intro he
      cases he.symm.trans h
      exact not_handed_of_refused hi.ledger hid hid'

theorem handed_holds (hh : s.Holds) (hs : s.stage = .ready) {connfd id : ℕ}
    {table : List (Option File)} (ha : alloc s.table (.connection id) = some (connfd, table))
    (backlog : List ℕ) :
    Holds { s with table := table, backlog := backlog, handed := s.handed ++ [id] } := by
  refine ⟨fun n => ?_, fun n => ?_, fun n id' h => ?_, fun ht => ?_⟩
  · exact (entry_alloc_iff ha (by simp) n).trans (hh.socket n)
  · exact (entry_alloc_iff ha (by simp) n).trans (hh.reserve n)
  · refine Or.inl ?_
    by_cases hid : id' = id
    · simp [hid]
    · have hold := (entry_alloc_iff ha (by simpa using hid) n).mp h
      rcases hh.connections n id' hold with hmem | ⟨ht, -⟩
      · exact List.mem_append_left _ hmem
      · cases hs.symm.trans ht
  · cases hs.symm.trans ht

theorem accept_close_entry {connfd id : ℕ} {table : List (Option File)}
    (ha : alloc s.table (.connection id) = some (connfd, table)) (n : ℕ) :
    entry (release table connfd) n = entry s.table n := by
  rw [entry_release, entry_alloc ha]
  split_ifs with hn
  · rw [hn, (alloc_spec ha).1]
  · rfl

theorem Holds.congr {t : Acceptor} (hh : s.Holds) (he : ∀ n, entry t.table n = entry s.table n)
    (hst : t.stage = s.stage) (ha : t.acceptFd = s.acceptFd) (hi : t.idleFd = s.idleFd)
    (hd : t.handed = s.handed) (hr : s.refused ⊆ t.refused) : t.Holds := by
  refine ⟨fun n => ?_, fun n => ?_, fun n id h => ?_, fun ht n hn => ?_⟩
  · rw [he, hst, ha]
    exact hh.socket n
  · rw [he, hst, hi]
    exact hh.reserve n
  · rw [he] at h
    rw [hd, hst, hi]
    exact hh.connections n id h
  · rw [hst] at ht
    rw [hi] at hn
    obtain ⟨id, hid, hn'⟩ := hh.taken ht n hn
    exact ⟨id, hr hid, by rw [he, hn']⟩

theorem close_holds (hh : s.Holds) (hs : s.stage = .exhausted ∨ s.stage = .taken)
    {stage : AcceptStage} (hst : stage = .vacated ∨ stage = .dropped) :
    Holds { s.close s.idleFd with stage := stage } := by
  obtain ⟨table, closed, hc⟩ := close_frame s s.idleFd
  have htable : ∀ n, entry table n = if s.idleFd = some n then none else entry s.table n := by
    intro n
    rw [← close_table, hc]
  have hup : s.stage ≠ .destroyed := by rcases hs with h | h <;> simp [h]
  have hsocket : ∀ n, s.idleFd = some n → entry s.table n ≠ some .acceptSocket := by
    intro n hn
    rcases hs with h | h
    · rw [(hh.reserve n).mpr ⟨Or.inr h, hn⟩]
      simp
    · obtain ⟨id, -, he⟩ := hh.taken h n hn
      rw [he]
      simp
  rw [hc]
  refine ⟨fun n => ?_, fun n => ?_, fun n id h => ?_, fun ht => ?_⟩
  · dsimp only
    rw [htable]
    have hst' : stage ≠ .destroyed := by rcases hst with h | h <;> simp [h]
    split_ifs with hn
    · have hne := (hh.socket n).not.mp (hsocket n hn)
      simpa [hup, hst'] using hne
    · simpa [hup, hst'] using hh.socket n
  · dsimp only
    rw [htable]
    have hst' : ¬(stage = .ready ∨ stage = .exhausted) := by rcases hst with h | h <;> simp [h]
    split_ifs with hn
    · simp [hst']
    · have hold := hh.reserve n
      simp only [hn, and_false, iff_false] at hold
      simp [hst', hold]
  · dsimp only at h
    rw [htable] at h
    split_ifs at h with hn
    exact (hh.connections n id h).imp_right fun ht => absurd ht.2 hn
  · rcases hst with h | h <;> cases h.symm.trans ht

theorem acceptIdle_holds (hh : s.Holds) (hs : s.stage = .vacated) (e : Option ℕ) :
    (s.acceptIdle e).Holds := by
  have hnull : ∀ n, entry s.table n ≠ some .devNull := by
    intro n
    rw [Ne, hh.reserve n]
    simp [hs]
  have hconn : ∀ n id, entry s.table n = some (.connection id) → id ∈ s.handed := by
    intro n id h
    simpa [hs] using hh.connections n id h
  rcases accept_cases s e with ⟨connfd, id, backlog, table, -, ha, hacc⟩ | ⟨errno, hacc⟩
  · simp only [acceptIdle, hacc]
    refine ⟨fun n => ?_, fun n => ?_, fun n id' h => ?_, fun _ n hn => ?_⟩
    · exact (entry_alloc_iff ha (by simp) n).trans ((hh.socket n).trans (by simp [hs]))
    · exact (entry_alloc_iff ha (by simp) n).trans (by simp [hnull n])
    · by_cases hn : n = connfd
      · exact Or.inr ⟨rfl, by rw [hn]⟩
      · rw [entry_alloc ha, if_neg hn] at h
        exact Or.inl (hconn n id' h)
    · cases hn
      exact ⟨id, by simp, (alloc_spec ha).2.1⟩
  · simp only [acceptIdle, hacc]
    refine ⟨fun n => ?_, fun n => ?_, fun n id h => Or.inl (hconn n id h),
      fun _ n hn => by cases hn⟩
    · exact (hh.socket n).trans (by simp [hs])
    · simp [hnull n]

theorem reopen_holds (hh : s.Holds) (hs : s.stage = .dropped) : s.reopen.Holds := by
  have hnull : ∀ n, entry s.table n ≠ some .devNull := by
    intro n
    rw [Ne, hh.reserve n]
    simp [hs]
  have hconn : ∀ n id, entry s.table n = some (.connection id) → id ∈ s.handed := by
    intro n id h
    simpa [hs] using hh.connections n id h
  rcases openFile_cases s.table .devNull with ⟨fd, table, ho, ha⟩ | ⟨ho, -⟩
  · simp only [reopen, ho]
    refine ⟨fun n => ?_, fun n => ?_, fun n id h => Or.inl (hconn n id ?_), fun ht => by cases ht⟩
    · exact (entry_alloc_iff ha (by simp) n).trans ((hh.socket n).trans (by simp [hs]))
    · dsimp only
      rw [entry_alloc ha]
      split_ifs with hn
      · simp [hn]
      · simp [hnull n, Ne.symm hn]
    · exact (entry_alloc_iff ha (by simp) n).mp h
  · simp only [reopen, ho]
    refine ⟨fun n => ?_, fun n => ?_, fun n id h => Or.inl (hconn n id h), fun ht => by cases ht⟩
    · exact (hh.socket n).trans (by simp [hs])
    · simp [hnull n]

theorem destroy_holds (hh : s.Holds) (hs : s.stage = .ready) : s.destroy.Holds := by
  have htable : ∀ n, entry s.destroy.table n =
      if n = s.acceptFd then none else if s.idleFd = some n then none else entry s.table n := by
    intro n
    rw [← close_table]
    exact (close_table _ _ n).trans (by simp only [Option.some.injEq, eq_comm])
  have hsock : ∀ n, n ≠ s.acceptFd → entry s.table n ≠ some .acceptSocket := by
    intro n hn
    rw [Ne, hh.socket n]
    simp [hn]
  have hnull : ∀ n, s.idleFd ≠ some n → entry s.table n ≠ some .devNull := by
    intro n hn
    rw [Ne, hh.reserve n]
    simp [hn]
  have hhanded : s.destroy.handed = s.handed := by
    obtain ⟨t, c, hc⟩ := close_frame s s.idleFd
    obtain ⟨t', c', hc'⟩ := close_frame (s.close s.idleFd) (some s.acceptFd)
    rw [destroy, hc', hc]
  refine ⟨fun n => ?_, fun n => ?_, fun n id h => Or.inl ?_, fun ht => by cases ht⟩
  · rw [htable]
    split_ifs with hn hi
    · simp [destroy]
    · simp [destroy]
    · simp [destroy, hsock n hn]
  · rw [htable]
    split_ifs with hn hi
    · simp [destroy]
    · simp [destroy]
    · simp [destroy, hnull n hi]
  · rw [htable] at h
    rw [hhanded]
    split_ifs at h
    simpa [hs] using hh.connections n id h

end Steps

section Ledger
variable {s t : Acceptor}

theorem handleRead_cases (s : Acceptor) (e : Option ℕ) :
    (∃ connfd id backlog table, s.backlog = id::backlog ∧
      alloc s.table (.connection id) = some (connfd, table) ∧
      (s.handleRead e = .ok { s with
          table := table, backlog := backlog, handed := s.handed ++ [id] } ∨
       s.handleRead e = .ok (close { s with
          table := table, backlog := backlog, refused := s.refused ++ [id] } (some connfd)))) ∨
    s.handleRead e = .ok s ∨ s.handleRead e = .ok { s with stage := .exhausted } ∨
    ∃ errno, errno ∉ expectedErrors ∧ s.handleRead e = .error (.fatal errno) := by
  rcases accept_cases s e with ⟨connfd, id, backlog, table, hb, ha, hacc⟩ | ⟨errno, hacc⟩
  · refine Or.inl ⟨connfd, id, backlog, table, hb, ha, ?_⟩
    cases hcb : s.newConnectionCallback
    · exact Or.inr (by simp only [handleRead, hacc, hcb]; rfl)
    · exact Or.inl (by simp only [handleRead, hacc, hcb]; rfl)
  · refine Or.inr ?_
    by_cases hx : errno ∈ expectedErrors
    · by_cases hm : errno = EMFILE
      · exact Or.inr (Or.inl (by simp only [handleRead, hacc, if_pos hx, if_pos hm]))
      · exact Or.inl (by simp only [handleRead, hacc, if_pos hx, if_neg hm])
    · exact Or.inr (Or.inr ⟨errno, hx, by simp only [handleRead, hacc, if_neg hx]⟩)

theorem Own.mono {f : File} (h : s.Own f) (hr : s.refused ⊆ t.refused)
    (hd : s.stage = .destroyed → t.stage = .destroyed) : t.Own f := by
  cases f with
  | acceptSocket => exact hd h
  | devNull => trivial
  | connection id => exact hr h
  | other => exact h

theorem ledger_moved (hl : s.Ledger) {id : ℕ} {backlog handed refused : List ℕ}
    (hb : s.backlog = id::backlog)
    (hm : handed = s.handed ++ [id] ∧ refused = s.refused ∨
      handed = s.handed ∧ refused = s.refused ++ [id]) :
    s.arrived.Perm (backlog ++ (handed ++ (refused ++ s.aborted))) := by
  refine hl.places.trans (List.perm_iff_count.mpr fun i => ?_)
  rw [hb]
  rcases hm with ⟨rfl, rfl⟩ | ⟨rfl, rfl⟩
  · simp only [List.count_append, List.count_cons, List.count_nil]
    omega
  · simp only [List.count_append, List.count_cons, List.count_nil]
    omega

theorem closed_own (hl : ∀ f ∈ s.closed, t.Own f) {x : Option ℕ}
    (hx : ∀ n f, x = some n → entry s.table n = some f → t.Own f) :
    ∀ f ∈ (s.close x).closed, t.Own f := by
  intro f hf
  rw [close_closed] at hf
  rcases List.mem_append.mp hf with h | h
  · exact hl f h
  · obtain ⟨n, hn, he⟩ := Option.bind_eq_some_iff.mp (Option.mem_toList.mp h)
    exact hx n f hn he

theorem arrive_ledger (hl : s.Ledger) {id : ℕ} (hid : id ∉ s.arrived) :
    Ledger { s with backlog := s.backlog ++ [id], arrived := s.arrived ++ [id] } := by
  refine ⟨List.nodup_append.mpr ⟨hl.fresh, by simp, ?_⟩, ?_, hl.closed⟩
  · rintro i hi j hj rfl
    exact hid (List.mem_singleton.mp hj ▸ hi)
  · refine List.perm_iff_count.mpr fun i => ?_
    have := hl.places.count_eq i
    simp only [List.count_append] at this ⊢
    omega

theorem abort_ledger (hl : s.Ledger) {id : ℕ} (hid : id ∈ s.backlog) :
    Ledger { s with backlog := s.backlog.erase id, aborted := s.aborted ++ [id] } := by
  refine ⟨hl.fresh, ?_, hl.closed⟩
  refine hl.places.trans (List.perm_iff_count.mpr fun i => ?_)
  have hback := (List.perm_cons_erase hid).count_eq i
  simp only [List.count_append, List.count_cons, List.count_nil] at hback ⊢
  omega

theorem accepted_inv (hi : s.Inv) (hs : s.stage = .ready) {connfd id : ℕ} {backlog : List ℕ}
    {table : List (Option File)} (hb : s.backlog = id::backlog)
    (ha : alloc s.table (.connection id) = some (connfd, table)) :
    Inv { s with table := table, backlog := backlog, handed := s.handed ++ [id] } ∧
    Inv (close { s with table := table, backlog := backlog, refused := s.refused ++ [id] }
      (some connfd)) := by
  have hl := hi.ledger
  refine ⟨⟨⟨hl.fresh, ledger_moved hl hb (Or.inl ⟨rfl, rfl⟩), hl.closed⟩,
    handed_holds hi.holds hs ha backlog⟩, ?_⟩
  obtain ⟨table', closed, hc⟩ := close_frame
    { s with table := table, backlog := backlog, refused := s.refused ++ [id] } (some connfd)
  have hentry : ∀ n, entry table' n = entry s.table n := by
    intro n
    rw [← accept_close_entry ha, entry_release]
    have := close_table { s with
      table := table, backlog := backlog, refused := s.refused ++ [id] } (some connfd) n
    rw [hc] at this
    simpa only [Option.some.injEq, eq_comm] using this
  have hown : ∀ f ∈ closed, Own { s with
      table := table', backlog := backlog, refused := s.refused ++ [id], closed := closed } f := by
    have := closed_own (t := { s with
        table := table', backlog := backlog, refused := s.refused ++ [id], closed := closed })
      (s := { s with table := table, backlog := backlog, refused := s.refused ++ [id] })
      (x := some connfd)
      (fun f hf => (hl.closed f hf).mono (List.subset_append_left _ _) fun hd => hd) ?_
    · rwa [hc] at this
    · rintro n f hn he
      cases hn
      cases (alloc_spec ha).2.1.symm.trans he
      simp [Own]
  rw [hc]
  exact ⟨⟨hl.fresh, ledger_moved hl hb (Or.inr ⟨rfl, rfl⟩), hown⟩,
    hi.holds.congr hentry rfl rfl rfl rfl (List.subset_append_left _ _)⟩

theorem exhausted_inv (hi : s.Inv) (hs : s.stage = .ready) :
    Inv { s with stage := .exhausted } := by
  have hh := hi.holds
  refine ⟨⟨hi.ledger.fresh, hi.ledger.places, fun f hf => ?_⟩, ?_⟩
  · exact (hi.ledger.closed f hf).mono (List.Subset.refl _) (fun hd => by simp [hs] at hd)
  · refine ⟨fun n => (hh.socket n).trans (by simp [hs]),
      fun n => (hh.reserve n).trans (by simp [hs]), fun n id hc => ?_, fun ht => by cases ht⟩
    exact (hh.connections n id hc).imp_right fun ht => by simp [hs] at ht

theorem close_inv (hi : s.Inv) (hs : s.stage = .exhausted ∨ s.stage = .taken) {stage : AcceptStage}
    (hst : stage = .vacated ∨ stage = .dropped) :
    Inv { s.close s.idleFd with stage := stage } := by
  have hl := hi.ledger
  have hh := hi.holds
  have hup : s.stage ≠ .destroyed := by rcases hs with h | h <;> simp [h]
  obtain ⟨table, closed, hc⟩ := close_frame s s.idleFd
  have hown := closed_own (s := s) (t := { s.close s.idleFd with stage := stage })
    (x := s.idleFd) (fun f hf => (hl.closed f hf).mono (by simp [hc]) (fun hd => absurd hd hup))
    fun n f hn he => by
      rcases hs with h | h
      · cases ((hh.reserve n).mpr ⟨Or.inr h, hn⟩).symm.trans he
        trivial
      · obtain ⟨id, hid, he'⟩ := hh.taken h n hn
        cases he'.symm.trans he
        rw [hc]
        exact hid
  refine ⟨⟨?_, ?_, hown⟩, close_holds hh hs hst⟩
  · rw [hc]
    exact hl.fresh
  · rw [hc]
    exact hl.places

theorem acceptIdle_inv (hi : s.Inv) (hs : s.stage = .vacated) (e : Option ℕ) :
    (s.acceptIdle e).Inv := by
  have hl := hi.ledger
  refine ⟨?_, acceptIdle_holds hi.holds hs e⟩
  have hup : s.stage ≠ .destroyed := by simp [hs]
  rcases accept_cases s e with ⟨connfd, id, backlog, table, hb, ha, hacc⟩ | ⟨errno, hacc⟩
  · simp only [acceptIdle, hacc]
    refine ⟨hl.fresh, ledger_moved hl hb (Or.inr ⟨rfl, rfl⟩), fun f hf => ?_⟩
    exact (hl.closed f hf).mono (List.subset_append_left _ _) (fun hd => absurd hd hup)
  · simp only [acceptIdle, hacc]
    exact ⟨hl.fresh, hl.places,
      fun f hf => (hl.closed f hf).mono (List.Subset.refl _) (fun hd => absurd hd hup)⟩

theorem reopen_inv (hi : s.Inv) (hs : s.stage = .dropped) : s.reopen.Inv := by
  have hl := hi.ledger
  have hup : s.stage ≠ .destroyed := by simp [hs]
  exact ⟨⟨hl.fresh, hl.places,
    fun f hf => (hl.closed f hf).mono (List.Subset.refl _) (fun hd => absurd hd hup)⟩,
    reopen_holds hi.holds hs⟩

theorem destroy_inv (hi : s.Inv) (hs : s.stage = .ready) : s.destroy.Inv := by
  have hl := hi.ledger
  have hh := hi.holds
  have hup : s.stage ≠ .destroyed := by simp [hs]
  obtain ⟨table, closed, hc⟩ := close_frame s s.idleFd
  obtain ⟨table', closed', hc'⟩ := close_frame (s.close s.idleFd) (some s.acceptFd)
  have hrefused : s.destroy.refused = s.refused := by rw [destroy, hc', hc]
  have hidle : ∀ f ∈ (s.close s.idleFd).closed, s.destroy.Own f :=
    closed_own (fun f hf => (hl.closed f hf).mono (by rw [hrefused]; exact List.Subset.refl _)
      (fun hd => absurd hd hup)) fun n f hn he => by
        cases ((hh.reserve n).mpr ⟨Or.inl hs, hn⟩).symm.trans he
        trivial
  have hown : ∀ f ∈ ((s.close s.idleFd).close (some s.acceptFd)).closed, s.destroy.Own f :=
    closed_own hidle fun n f hn he => by
      cases hn
      rw [close_table] at he
      split_ifs at he
      cases ((hh.socket s.acceptFd).mpr ⟨hup, rfl⟩).symm.trans he
      rfl
  refine ⟨⟨?_, ?_, hown⟩, destroy_holds hh hs⟩
  · rw [destroy, hc', hc]
    exact hl.fresh
  · rw [destroy, hc', hc]
    exact hl.places

end Ledger

theorem step_inv {s : Acceptor} {a : Action} (hi : s.Inv) (he : s.Enabled a) :
    Yields (s.step a) Inv (fun e => ∃ errno, errno ∉ expectedErrors ∧ e = .fatal errno) := by
  have hl := hi.ledger
  have hh := hi.holds
  cases a with
  | arrive id => exact (yields_ok _ _ _).mpr ⟨arrive_ledger hl he,
      hh.congr (fun _ => rfl) rfl rfl rfl rfl (List.Subset.refl _)⟩
  | abort id => exact (yields_ok _ _ _).mpr ⟨abort_ledger hl he,
      hh.congr (fun _ => rfl) rfl rfl rfl rfl (List.Subset.refl _)⟩
  | openOther =>
    exact (yields_ok _ _ _).mpr ⟨⟨hl.fresh, hl.places, hl.closed⟩, openOther_holds hh⟩
  | closeOther fd =>
    exact (yields_ok _ _ _).mpr ⟨⟨hl.fresh, hl.places, hl.closed⟩, closeOther_holds hi he⟩
  | handleRead e =>
    obtain ⟨hs, -⟩ := he
    change Yields (s.handleRead e) Inv _
    rcases handleRead_cases s e with
      ⟨connfd, id, backlog, table, hb, ha, h | h⟩ | h | h | ⟨errno, hx, h⟩
    · rw [h, yields_ok]
      exact (accepted_inv hi hs hb ha).1
    · rw [h, yields_ok]
      exact (accepted_inv hi hs hb ha).2
    · rw [h, yields_ok]
      exact hi
    · rw [h, yields_ok]
      exact exhausted_inv hi hs
    · rw [h, yields_error]
      exact ⟨errno, hx, rfl⟩
  | closeIdle => exact (yields_ok _ _ _).mpr (close_inv hi (Or.inl he) (Or.inl rfl))
  | acceptIdle e => exact (yields_ok _ _ _).mpr (acceptIdle_inv hi he e)
  | closeTaken => exact (yields_ok _ _ _).mpr (close_inv hi (Or.inr he) (Or.inr rfl))
  | reopen => exact (yields_ok _ _ _).mpr (reopen_inv hi he)
  | destroy => exact (yields_ok _ _ _).mpr (destroy_inv hi he)

theorem construct_ok {table : List (Option File)} {callback : Bool} {s : Acceptor}
    (h : construct table callback = .ok s) : ∃ acceptFd idleFd table₁ table₂,
      alloc table .acceptSocket = some (acceptFd, table₁) ∧
      alloc table₁ .devNull = some (idleFd, table₂) ∧
      s = ⟨table₂, [], acceptFd, some idleFd, callback, .ready, [], [], [], [], []⟩ := by
  unfold construct at h
  rcases openFile_cases table .acceptSocket with ⟨acceptFd, table₁, ho, ha⟩ | ⟨ho, -⟩
  · rcases openFile_cases table₁ .devNull with ⟨idleFd, table₂, ho', ha'⟩ | ⟨ho', -⟩
    · simp only [ho, ho'] at h
      cases h
      exact ⟨acceptFd, idleFd, table₁, table₂, ha, ha', rfl⟩
    · simp only [ho, ho'] at h
      cases h
  · simp only [ho] at h
    cases h

theorem construct_inv {table : List (Option File)} {callback : Bool} {s : Acceptor}
    (ht : ∀ e ∈ table, e = none ∨ e = some .other) (h : construct table callback = .ok s) :
    s.Inv := by
  obtain ⟨acceptFd, idleFd, table₁, table₂, ha, ha', rfl⟩ := construct_ok h
  have hother : ∀ n f, f ≠ .other → entry table n ≠ some f := by
    intro n f hf he
    rcases ht _ (mem_of_entry he) with h | h
    · cases h
    · exact hf (Option.some.inj h)
  have hsocket : entry table₂ acceptFd = some .acceptSocket :=
    (entry_alloc_iff ha' (by simp) acceptFd).mpr (alloc_spec ha).2.1
  refine ⟨⟨List.nodup_nil, List.Perm.refl _, fun f hf => by cases hf⟩, fun n => ?_, fun n => ?_,
    fun n id hc => ?_, fun hs => by cases hs⟩
  · refine (entry_alloc_iff ha' (by simp) n).trans ?_
    rw [entry_alloc ha]
    split_ifs with hn
    · simp [hn]
    · simp [hn, hother n .acceptSocket (by simp)]
  · dsimp only
    rw [entry_alloc ha']
    split_ifs with hn
    · simp [hn]
    · rw [entry_alloc_iff ha (by simp) n]
      simp [Ne.symm hn, hother n .devNull (by simp)]
  · have hold := (entry_alloc_iff ha (by simp) n).mp ((entry_alloc_iff ha' (by simp) n).mp hc)
    exact absurd hold (hother n _ (by simp))

/-- Every run of clients, other threads and the acceptor. Each connection that
arrived is in one place; the acceptor has closed nothing but its reserve, the
connections it refused and in the end its socket; and what it opened or
accepted and has not handed over is where it can still close it. -/
theorem acceptor_descriptors (table : List (Option File)) (callback : Bool) (s₀ s : Acceptor)
    (as : List Action) (ht : ∀ e ∈ table, e = none ∨ e = some .other)
    (h : construct table callback = .ok s₀) (ha : Admitted step Enabled s₀ as)
    (hr : run step s₀ as = .ok s) :
    (s.arrived.Nodup ∧
      s.arrived.Perm (s.backlog ++ (s.handed ++ (s.refused ++ s.aborted)))) ∧
    (∀ f ∈ s.closed, f = .devNull ∨ (∃ id ∈ s.refused, f = .connection id) ∨
      s.stage = .destroyed ∧ f = .acceptSocket) ∧
    (∀ n id, entry s.table n = some (.connection id) →
      id ∈ s.handed ∨ s.stage = .taken ∧ s.idleFd = some n) ∧
    ∀ n, (entry s.table n = some .devNull ↔
        (s.stage = .ready ∨ s.stage = .exhausted) ∧ s.idleFd = some n) ∧
      (entry s.table n = some .acceptSocket ↔ s.stage ≠ .destroyed ∧ n = s.acceptFd) := by
  have hi : s.Inv := (run_yields Enabled (fun _ _ hi he => step_inv hi he) as s₀
    (construct_inv ht h) ha).ok hr
  refine ⟨⟨hi.ledger.fresh, hi.ledger.places⟩, fun f hf => ?_, hi.holds.connections,
    fun n => ⟨hi.holds.reserve n, hi.holds.socket n⟩⟩
  have hown := hi.ledger.closed f hf
  cases f with
  | acceptSocket => exact Or.inr (Or.inr ⟨hown, rfl⟩)
  | devNull => exact Or.inl rfl
  | connection id => exact Or.inr (Or.inl ⟨id, hown, rfl⟩)
  | other => exact hown.elim

def crowded : List Action := [.arrive 1, .handleRead none, .arrive 2, .arrive 3, .handleRead none,
  .closeIdle, .acceptIdle none, .closeOther 0, .closeTaken, .openOther, .openOther, .reopen,
  .abort 3, .destroy]

theorem acceptor_descriptors_crowded :
    ∃ s₀ s, construct [some .other, none, none, none] true = .ok s₀ ∧
      run step s₀ crowded = .ok s ∧
      s.arrived.Perm (s.backlog ++ (s.handed ++ (s.refused ++ s.aborted))) ∧
      s.handed = [1] ∧ s.refused = [2] ∧ entry s.table 2 = some .other := by
  have hrun : (construct [some .other, none, none, none] true >>= fun s₀ =>
      (fun s => (decide (Admitted step Enabled s₀ crowded), s.handed, s.refused,
        entry s.table 2)) <$> run step s₀ crowded) =
      .ok (true, [1], [2], some .other) := by decide +kernel
  obtain ⟨s₀, h₀, hmap⟩ := bind_ok.mp hrun
  obtain ⟨s, hs, heq⟩ := map_ok.mp hmap
  simp only [Prod.mk.injEq, decide_eq_true_eq] at heq
  obtain ⟨hadm, hhanded, hrefused, hentry⟩ := heq
  have h := acceptor_descriptors _ true s₀ s crowded (by decide) h₀ hadm hs
  exact ⟨s₀, s, h₀, hs, h.1.2, hhanded, hrefused, hentry⟩

end Lux.Polaris.Acceptor
