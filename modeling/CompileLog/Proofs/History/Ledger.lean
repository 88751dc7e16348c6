import CompileLog.Proofs.History.Owners

/-!
# The ledger of events at run time

An event at run time is attached to a task, or waits, or is an orphan, or was given up. The
ledger of an archive lists the events in each of the first three places and counts those of the
last. Every act takes up exactly the events that it brings: it may move others from one place to
another, but loses none and doubles none.
-/

namespace CompileLog

/-- Where the events at run time are. -/
structure Ledger where
  /-- The events attached to tasks. -/
  attached : List Deopt
  /-- The events that wait. -/
  waiting : List Deopt
  /-- The events whose task was not found. -/
  orphans : List Deopt
  /-- Number of events that were given up. -/
  dropped : Nat

namespace Ledger

/-- All events that are still there. -/
def held (l : Ledger) : List Deopt := l.attached ++ (l.waiting ++ l.orphans)

/-- Number of all events that ever came. -/
def total (l : Ledger) : Nat :=
  l.attached.length + l.waiting.length + l.orphans.length + l.dropped

/-- One ledger follows another on which some events came: what is there then, together with what
was given up on the way, is what was there before together with what came, event by event. -/
def Takes (l : Ledger) (brought : List Deopt) (l' : Ledger) : Prop :=
  ∃ lost : List Deopt, l'.dropped = l.dropped + lost.length ∧
    (l'.held ++ lost).Perm (l.held ++ brought)

/-- Nothing came and nothing went. -/
theorem Takes.refl (l : Ledger) : l.Takes [] l := ⟨[], rfl, .refl _⟩

/-- What comes in two steps comes together. -/
theorem Takes.trans {l l' l'' : Ledger} {brought brought' : List Deopt}
    (h : l.Takes brought l') (h' : l'.Takes brought' l'') : l.Takes (brought ++ brought') l'' := by
  obtain ⟨lost, hdropped, hperm⟩ := h
  obtain ⟨lost', hdropped', hperm'⟩ := h'
  refine ⟨lost ++ lost', ?_, List.perm_iff_count.mpr fun d => ?_⟩
  · rw [hdropped', hdropped, List.length_append, Nat.add_assoc]
  · have hcount := List.perm_iff_count.mp hperm d
    have hcount' := List.perm_iff_count.mp hperm' d
    simp only [List.count_append] at hcount hcount' ⊢
    omega

/-- The number of all events grows by those that came. -/
theorem Takes.total_eq {l l' : Ledger} {brought : List Deopt} (h : l.Takes brought l') :
    l'.total = l.total + brought.length := by
  obtain ⟨lost, hdropped, hperm⟩ := h
  have hlength := hperm.length_eq
  simp only [held, List.length_append] at hlength
  unfold total
  omega

/-- Where nothing is given up, the events that are there only have to be as many of each. -/
theorem Takes.of_perm {l l' : Ledger} {brought : List Deopt} (hdropped : l'.dropped = l.dropped)
    (hperm : l'.held.Perm (l.held ++ brought)) : l.Takes brought l' :=
  ⟨[], hdropped, by rwa [List.append_nil]⟩

/-- Events that leave their place for a while and are then brought back do not count as new. -/
theorem Takes.moved {l l' : Ledger} {brought : List Deopt} (m : Ledger) (moved : List Deopt)
    (hdropped : m.dropped = l.dropped) (hperm : (m.held ++ moved).Perm l.held)
    (h : m.Takes (moved ++ brought) l') : l.Takes brought l' := by
  obtain ⟨lost, hlost, hperm'⟩ := h
  refine ⟨lost, hdropped ▸ hlost, hperm'.trans ?_⟩
  rw [← List.append_assoc]
  exact hperm.append_right brought

/-- Steps that each bring some events bring them all together. -/
theorem Takes.foldl {σ β : Type} {ledger : σ → Ledger} {brings : β → List Deopt} {f : σ → β → σ}
    (h : ∀ s b, (ledger s).Takes (brings b) (ledger (f s b))) (bs : List β) (s : σ) :
    (ledger s).Takes (bs.flatMap brings) (ledger (bs.foldl f s)) := by
  induction bs generalizing s with
  | nil => exact .refl _
  | cons b rest ih => exact (h s b).trans (ih (f s b))

end Ledger

/-! ### Reading the ledger -/

/-- The event that a remark is on, if any. -/
def Remark.deopts : Remark → List Deopt
  | .deopt d => [d]
  | _ => []

/-- The listing that a remark is, if any. -/
def Remark.listings : Remark → List Listing
  | .listing l => [l]
  | _ => []

/-- The events attached to tasks of a history. -/
def MethodHistory.attached (h : MethodHistory) : List Deopt := h.tasks.flatMap Task.deopts

/-- The events attached to tasks of an archive. -/
def Archive.attached (a : Archive) : List Deopt := a.tasks.flatMap Task.deopts

/-- The events that wait. -/
def Index.waiting (x : Index) : List Deopt := x.pending.toList.flatMap fun p => p.2.deopts

/-- The ledger of an archive that is being written. -/
def Index.ledger (x : Index) : Ledger := ⟨x.attached, x.waiting, x.orphanDeopts, x.dropped⟩

/-- The ledger of an archive at rest, in which nothing waits. -/
def Archive.ledger (a : Archive) : Ledger := ⟨a.attached, [], a.orphanDeopts, a.dropped⟩

/-- The ledger of histories. -/
def Store.ledger : Store → Ledger
  | writing x => x.ledger
  | atRest a => a.ledger

/-- The events that something a log yields brings. -/
def Collect.Item.deopts : Collect.Item → List Deopt
  | .task t => t.deopts
  | .deopt d => [d]
  | _ => []

/-- The events that an act brings: those of what it records, while histories are written. -/
def Store.brings : Store → Act → List Deopt
  | writing _, .record item => item.deopts
  | _, _ => []

/-- The events that a sequence of acts brings. -/
def Store.bringsAll (s : Store) : List Act → List Deopt
  | [] => []
  | a :: rest => s.brings a ++ (s.act a).bringsAll rest

/-- The events of an archive are those of its histories. -/
theorem Archive.attached_eq (a : Archive) :
    a.attached = a.histories.values.flatMap MethodHistory.attached := by
  unfold attached tasks allHistories KeyMap.values MethodHistory.attached
  rw [List.flatMap_assoc]

/-- The ledgers of archives that filed the same differ only in what waits, is an orphan or was
given up. -/
theorem SameFiled.attached_eq {a b : Archive} (h : SameFiled a b) : a.attached = b.attached := by
  rw [a.attached_eq, b.attached_eq, h.histories_eq]

/-! ### Waiting -/

/-- Adding an orphan brings its event. -/
theorem Archive.takes_addOrphan (a : Archive) (r : Remark) :
    a.ledger.Takes r.deopts (a.addOrphan r).ledger := by
  cases r with
  | deopt d =>
    refine .of_perm rfl ?_
    simp only [Ledger.held, ledger, addOrphan, Remark.deopts, List.nil_append, List.append_assoc]
    exact .refl _
  | native n => exact .refl _
  | listing l => exact .refl _

namespace Index

/-- Giving up a remark counts its event. -/
theorem takes_giveUp (x : Index) (r : Remark) : x.ledger.Takes r.deopts (x.giveUp r).ledger := by
  cases r with
  | deopt d => exact ⟨[d], rfl, .refl _⟩
  | native n => exact .refl _
  | listing l => exact .refl _

/-- A remark that begins to wait brings its event. -/
theorem takes_push (x : Index) (id : UInt64) (r : Remark) (counts : KeyMap UInt64 Nat) :
    x.ledger.Takes r.deopts
      ({ x with pending := x.pending.push (id, r), pendingCounts := counts } : Index).ledger := by
  refine .of_perm rfl (List.perm_iff_count.mpr fun d => ?_)
  simp only [Ledger.held, ledger, waiting, Array.toList_push, List.flatMap_append,
    List.flatMap_cons, List.flatMap_nil, List.append_nil, List.count_append]
  omega

/-- Making room gives up what waits longest. -/
theorem takes_dropOldest (x : Index) : x.ledger.Takes [] x.dropOldest.ledger := by
  unfold dropOldest
  cases holdest : x.pending[0]? with
  | none => exact .refl _
  | some oldest =>
    have hwaiting : x.waiting =
        oldest.2.deopts ++ (x.pending.toList.drop 1).flatMap fun p => p.2.deopts := by
      rw [← Array.getElem?_toList] at holdest
      unfold waiting
      cases hpending : x.pending.toList with
      | nil => simp [hpending] at holdest
      | cons first rest =>
        rw [hpending] at holdest
        obtain rfl := Option.some.inj holdest
        rfl
    have hrest : (x.pending.extract 1 x.pending.size).toList = x.pending.toList.drop 1 := by
      rw [Array.toList_extract, List.extract_eq_take_drop]
      exact List.take_of_length_le (by simp)
    refine .moved (Index.ledger { x with
      pending := x.pending.extract 1 x.pending.size
      pendingCounts := countDown x.pendingCounts oldest.1 }) oldest.2.deopts rfl ?_ ?_
    · refine List.perm_iff_count.mpr fun d => ?_
      simp only [Ledger.held, ledger, hwaiting, List.count_append]
      simp only [waiting, hrest]
      omega
    · rw [List.append_nil]
      exact takes_giveUp _ _

/-- A remark that is held brings its event, also where it is given up at once or the oldest makes
room for it. -/
theorem takes_hold (x : Index) (id : UInt64) (r : Remark) :
    x.ledger.Takes r.deopts (x.hold id r).ledger := by
  unfold hold
  split
  · exact x.takes_giveUp r
  · simp only
    split
    · exact x.takes_dropOldest.trans (takes_push _ _ _ _)
    · exact x.takes_push _ _ _

/-- Where writing ends, events and listings that wait become orphans. -/
theorem freeze_eq (x : Index) :
    x.freeze = { x.toArchive with
      orphanDeopts := x.orphanDeopts ++ x.waiting
      orphanListings := x.orphanListings ++ x.pending.toList.flatMap fun p => p.2.listings } := by
  have hsorted : ∀ (pending : List (UInt64 × Remark)) (a : Archive),
      pending.foldl (fun a p => a.addOrphan p.2) a = { a with
        orphanDeopts := a.orphanDeopts ++ pending.flatMap fun p => p.2.deopts
        orphanListings := a.orphanListings ++ pending.flatMap fun p => p.2.listings } := by
    intro pending a
    induction pending generalizing a with
    | nil => simp
    | cons p rest ih =>
      obtain ⟨id, r⟩ := p
      rw [List.foldl_cons, ih]
      cases r with
      | deopt d => simp [Archive.addOrphan, Remark.deopts, Remark.listings]
      | native n => simp [Archive.addOrphan, Remark.deopts, Remark.listings]
      | listing l => simp [Archive.addOrphan, Remark.deopts, Remark.listings]
  unfold freeze waiting
  rw [← Array.foldl_toList, hsorted]

/-- Ending writing makes orphans of the events that wait. -/
theorem takes_freeze (x : Index) : x.ledger.Takes [] x.freeze.ledger := by
  unfold freeze
  rw [← Array.foldl_toList]
  refine .moved x.toArchive.ledger x.waiting rfl ?_ ?_
  · refine List.perm_iff_count.mpr fun d => ?_
    simp only [Ledger.held, ledger, Archive.ledger, List.count_append, List.count_nil]
    omega
  · rw [List.append_nil]
    exact .foldl (fun a p => a.takes_addOrphan p.2) _ _

end Index

/-- Resuming writing lets the orphans wait anew, or gives them up where there is no room. -/
theorem Archive.takes_thaw (a : Archive) (capacity : Nat) :
    a.ledger.Takes [] (a.thaw capacity).ledger := by
  unfold thaw
  refine .moved (Index.ledger ⟨{ a with orphanDeopts := [] }, #[], ∅, capacity⟩)
    a.orphanDeopts rfl ?_ ?_
  · simp only [Ledger.held, Index.ledger, ledger, Index.waiting, List.append_nil, List.nil_append,
      List.flatMap_nil]
    exact .refl _
  · have hall := Ledger.Takes.foldl (fun (x : Index) d => x.takes_hold d.compileId (.deopt d))
      a.orphanDeopts ⟨{ a with orphanDeopts := [] }, #[], ∅, capacity⟩
    simp only [Remark.deopts, List.flatMap_singleton'] at hall
    rwa [List.append_nil]

end CompileLog
