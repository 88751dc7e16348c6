import CompileLog.Proofs.History.Ledger

/-!
# No event is lost

What waits for a task is attached to it when it is filed, and an event whose number is known goes
to the task of that number, which its history is sure to hold. So every act takes up the events
that it brings and nothing else, and over a whole run the events that are there or were given up
are those that the run brought, each as often as it came.
-/

namespace CompileLog

/-! ### Attaching -/

/-- A remark attaches its event. -/
theorem Task.deopts_addRemark (t : Task) (r : Remark) :
    (t.addRemark r).deopts = t.deopts ++ r.deopts := by
  by_cases hr : r.isDeopt = false
  · obtain ⟨size, native, flags, heq⟩ := t.addRemark_eq_of_not_isDeopt hr
    rw [heq]
    cases r with
    | deopt d => cases hr
    | native n => exact (List.append_nil _).symm
    | listing l => exact (List.append_nil _).symm
  · cases r with
    | deopt d => rfl
    | native n => exact absurd rfl hr
    | listing l => exact absurd rfl hr

/-- Remarks attach their events. -/
theorem Task.deopts_foldl_addRemark (t : Task) (remarks : List Remark) :
    (remarks.foldl addRemark t).deopts = t.deopts ++ remarks.flatMap Remark.deopts := by
  induction remarks generalizing t with
  | nil => exact (List.append_nil _).symm
  | cons r rest ih =>
    rw [List.foldl_cons, ih, t.deopts_addRemark, List.flatMap_cons, List.append_assoc]

namespace MethodHistory

/-- A task that is added brings its events. -/
theorem attached_insert (h : MethodHistory) (t : Task) (duplicate : Bool) :
    (h.insert t duplicate).attached.Perm (t.deopts ++ h.attached) := by
  unfold attached
  rw [tasks_insert]
  exact (List.perm_insertIdx t h.tasks (h.positionOf_le t)).flatMap_right _

/-- A remark on a task that the history holds attaches its event there, once. -/
theorem attached_addRemark {h : MethodHistory} {id : UInt64} {pass : Nat}
    (hn : h.Names id pass) (r : Remark) :
    (h.modifyTask id pass fun t => t.addRemark r).attached.Perm (r.deopts ++ h.attached) := by
  obtain ⟨i, hi, hfound⟩ := hn.exists_findIdx?
  obtain ⟨before, t, behind, htasks, _, hchanged⟩ :=
    List.exists_of_modify (fun t : Task => t.addRemark r) hi
  unfold modifyTask attached
  rw [hfound]
  simp only
  rw [hchanged, htasks]
  refine List.perm_iff_count.mpr fun d => ?_
  simp only [List.flatMap_append, List.flatMap_cons, List.count_append, t.deopts_addRemark r]
  omega

/-- An event that is bound in a history that holds its task is attached there, once. -/
theorem attached_bindDeopt {h : MethodHistory} {pass : Nat} {d : Deopt}
    (hn : h.Names d.compileId pass) :
    (h.bindDeopt pass d).attached.Perm (d :: h.attached) := by
  unfold attached
  rw [tasks_bindDeopt]
  exact attached_addRemark hn (.deopt d)

end MethodHistory

namespace Index

/-- Changing one history brings the events that come to it. -/
theorem takes_of_histories_insert {x y : Index} {key : Method} {h : MethodHistory}
    {brought : List Deopt} (hhistories : y.histories = x.histories.insert key h)
    (hattached : h.attached.Perm
      (brought ++ (x.histories.get? key).elim [] MethodHistory.attached))
    (hwaiting : y.waiting = x.waiting) (horphans : y.orphanDeopts = x.orphanDeopts)
    (hdropped : y.dropped = x.dropped) : x.ledger.Takes brought y.ledger := by
  have hgrown := KeyMap.flatMap_values_insert_perm hattached
  rw [← hhistories, ← Archive.attached_eq, ← Archive.attached_eq] at hgrown
  refine .of_perm hdropped ?_
  simp only [Ledger.held, ledger, hwaiting, horphans]
  refine (hgrown.append_right _).trans ?_
  rw [List.append_assoc]
  exact List.perm_append_comm

/-- Taking out what waits for a task takes it from what waits. -/
theorem waiting_takePending (x : Index) (id : UInt64) :
    ((x.takePending id).1.waiting ++ (x.takePending id).2.flatMap Remark.deopts).Perm
      x.waiting := by
  unfold takePending
  split
  · exact .of_eq (List.append_nil _)
  · have hparts : (x.pending.toList.filter (fun p => p.1 ≠ id) ++
        x.pending.toList.filter (fun p => p.1 = id)).Perm x.pending.toList := by
      have hsplit := List.filter_append_perm (fun p => decide (p.1 ≠ id)) x.pending.toList
      simpa using hsplit
    have hflat := hparts.flatMap_right fun p => p.2.deopts
    rw [List.flatMap_append] at hflat
    simpa [waiting, List.flatMap_map] using hflat

/-- Filing a task brings the events that it carries. Those that waited for it move to it. -/
theorem takes_recordTask (x : Index) (t : Task) :
    x.ledger.Takes t.deopts (x.recordTask t).ledger := by
  have hsame := x.sameFiled_takePending t.compileId
  refine .moved (x.takePending t.compileId).1.ledger
    ((x.takePending t.compileId).2.flatMap Remark.deopts) ?_ ?_ ?_
  · unfold takePending
    split <;> rfl
  · have horphans : (x.takePending t.compileId).1.orphanDeopts = x.orphanDeopts := by
      unfold takePending
      split <;> rfl
    refine List.perm_iff_count.mpr fun d => ?_
    have hcount := List.perm_iff_count.mp (x.waiting_takePending t.compileId) d
    simp only [Ledger.held, ledger, hsame.attached_eq, horphans, List.count_append] at hcount ⊢
    omega
  · rw [x.recordTask_eq t]
    refine takes_of_histories_insert
      (congrArg (fun m => KeyMap.insert m (x.completed t).method _) hsame.histories_eq.symm) ?_
      rfl rfl rfl
    have hjoined : (x.historyFor (x.completed t)).attached =
        (x.histories.get? (x.completed t).method).elim [] MethodHistory.attached :=
      x.apply_historyFor MethodHistory.attached _
    have hcarried : (x.completed t).deopts =
        t.deopts ++ (x.takePending t.compileId).2.flatMap Remark.deopts :=
      Task.deopts_foldl_addRemark _ _
    refine (MethodHistory.attached_insert _ _ _).trans ?_
    rw [hjoined, hcarried, hsame.histories_eq]
    exact List.perm_append_comm.append_right _

/-- Filing an event brings it: it is attached to its task, or waits, or is given up. -/
theorem takes_recordDeopt {x : Index} (howned : x.Owned) (d : Deopt) :
    x.ledger.Takes [d] (x.recordDeopt d).ledger := by
  rcases x.recordDeopt_cases d with ⟨o, h, howner, hpass, hfound, heq⟩ | heq
  · rw [heq]
    -- The owner's history holds the task, so the binding cannot miss and drop the event.
    obtain ⟨named, hnamed, hnames⟩ := howned _ o howner
    obtain rfl := Option.some.inj (hfound.symm.trans hnamed)
    refine takes_of_histories_insert rfl ?_ rfl rfl rfl
    rw [hfound]
    exact MethodHistory.attached_bindDeopt (hpass ▸ hnames)
  · rw [heq]
    exact x.takes_hold _ _

/-- Filing installed code or a listing brings no event, though it may push one out. -/
theorem takes_recordRemark {x : Index} (howned : x.Owned) (id : UInt64) {r : Remark} :
    x.ledger.Takes r.deopts (x.recordRemark id r).ledger := by
  rcases x.recordRemark_cases id r with ⟨o, h, howner, hpass, hfound, heq⟩ | heq
  · rw [heq]
    obtain ⟨named, hnamed, hnames⟩ := howned _ o howner
    obtain rfl := Option.some.inj (hfound.symm.trans hnamed)
    refine takes_of_histories_insert rfl ?_ rfl rfl rfl
    rw [hfound]
    exact MethodHistory.attached_addRemark (hpass ▸ hnames) r
  · rw [heq]
    exact x.takes_hold _ _

end Index

/-! ### Every act -/

/-- Every act takes up the events that it brings. -/
theorem Store.takes_act {s : Store} (howned : s.archive.Owned) (a : Act) :
    s.ledger.Takes (s.brings a) (s.act a).ledger := by
  cases s with
  | writing x =>
    cases a with
    | beginPass => exact .refl _
    | record item =>
      cases item with
      | task t => exact x.takes_recordTask t
      | deopt d => exact Index.takes_recordDeopt howned d
      | lateNative id n => exact Index.takes_recordRemark howned id
      | lateListing id l => exact Index.takes_recordRemark howned id
      | orphanListing l => exact .refl _
      | codeCache sample => exact .refl _
    | recordHeader header =>
      show x.ledger.Takes [] (x.recordHeader header).ledger
      unfold Index.recordHeader
      split <;> exact .refl _
    | freeze => exact x.takes_freeze
    | thaw capacity => exact .refl _
  | atRest archive =>
    cases a with
    | thaw capacity => exact archive.takes_thaw capacity
    | _ => exact .refl _

/-- A sequence of acts takes up all events that it brings. -/
theorem Store.takes_run {s : Store} (howned : s.archive.Owned) (acts : List Act) :
    s.ledger.Takes (s.bringsAll acts) (s.run acts).ledger := by
  induction acts generalizing s with
  | nil => exact .refl _
  | cons a rest ih => exact (Store.takes_act howned a).trans (ih (howned.act a))

/-- Events at run time are conserved. Whatever was done to histories that began empty, the next
act adds to the events attached, waiting, orphaned and given up exactly the events that it brings:
the one that it records, or those that a recorded task carries, or none. Event by event, what is
there and what was given up is what came, so none is lost, doubled or attached to two tasks. -/
theorem deopts_conserved (capacity : Nat) (acts : List Act) (a : Act) :
    let start := Store.writing (.empty capacity)
    let s := start.run acts
    (s.act a).ledger.total = s.ledger.total + (s.brings a).length ∧
      s.ledger.Takes (s.brings a) (s.act a).ledger ∧
      ∃ lost : List Deopt, s.ledger.dropped = lost.length ∧
        (s.ledger.held ++ lost).Perm (start.bringsAll acts) := by
  intro start s
  have howned : start.archive.Owned := Index.owned_empty capacity
  have hstep := Store.takes_act (howned.run acts) a
  refine ⟨hstep.total_eq, hstep, ?_⟩
  obtain ⟨lost, hdropped, hperm⟩ := Store.takes_run howned acts
  exact ⟨lost, by rw [hdropped]; exact Nat.zero_add _, hperm⟩

end CompileLog
