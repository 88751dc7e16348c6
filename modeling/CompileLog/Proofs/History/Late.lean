import CompileLog.Proofs.History.Ledger
import CompileLog.Proofs.History.Pending
import CompileLog.Proofs.History.Tasks

/-!
# Remarks on tasks of the reading under way

A number that means a task of the reading under way means it until the reading ends, whatever else
is filed. A remark on that task is added to it at once. So installed code waits only where it is
filed before its task, and where that never happens no code waits: what waits are events and
listings, none of which is lost where writing ends.
-/

namespace CompileLog

/-! ### Numbers of a reading -/

/-- A number means a task of the last reading. -/
def Archive.OwnsNow (a : Archive) (id : UInt64) : Prop :=
  ∃ o, a.owners.get? id = some o ∧ o.pass = a.pass

/-- No number means a task of a reading that has not begun. -/
def Archive.OwnersBegun (a : Archive) : Prop := ∀ id o, a.owners.get? id = some o → o.pass ≤ a.pass

/-- What numbers mean depends on the owners and the last reading. -/
theorem Archive.OwnsNow.congr {a b : Archive} {id : UInt64} (h : a.OwnsNow id)
    (howners : b.owners = a.owners) (hpass : b.pass = a.pass) : b.OwnsNow id := by
  unfold OwnsNow
  rw [howners, hpass]
  exact h

/-- That readings have begun depends on the owners and the last reading. -/
theorem Archive.OwnersBegun.congr {a b : Archive} (h : a.OwnersBegun)
    (howners : b.owners = a.owners) (hpass : b.pass = a.pass) : b.OwnersBegun := by
  unfold OwnersBegun
  rw [howners, hpass]
  exact h

/-- The number of a task that is filed means a task of the reading. -/
theorem Index.ownsNow_recordTask_self (x : Index) (t : Task) :
    (x.recordTask t).OwnsNow t.compileId := by
  unfold Archive.OwnsNow
  rw [x.pass_recordTask t, x.recordTask_eq t]
  simp only
  split_ifs with hnow
  · obtain ⟨o, howner, hpass⟩ := (Option.any_eq_true _ _).mp hnow
    exact ⟨o, howner, of_decide_eq_true hpass⟩
  · exact ⟨_, by rw [KeyMap.get?_insert, if_pos rfl], rfl⟩

/-- Filing a task leaves the numbers that mean tasks of the reading. -/
theorem Archive.OwnsNow.recordTask {x : Index} {id : UInt64} (h : x.OwnsNow id) (t : Task) :
    (x.recordTask t).OwnsNow id := by
  by_cases hid : t.compileId = id
  · exact hid ▸ x.ownsNow_recordTask_self t
  · obtain ⟨o, howner, hpass⟩ := h
    unfold OwnsNow
    rw [x.pass_recordTask t, x.recordTask_eq t]
    simp only
    refine ⟨o, ?_, hpass⟩
    split_ifs
    · exact howner
    · rw [KeyMap.get?_insert, if_neg hid]
      exact howner

/-- Whatever is filed leaves the numbers that mean tasks of the reading. -/
theorem Archive.OwnsNow.record {x : Index} {id : UInt64} (h : x.OwnsNow id)
    (item : Collect.Item) : (x.record item).OwnsNow id := by
  cases item with
  | task t => exact h.recordTask t
  | deopt d => exact h.congr (x.owners_recordDeopt d) (x.pass_recordDeopt d)
  | lateNative id' n =>
    exact h.congr (x.owners_recordRemark id' _) (x.pass_recordRemark id' _)
  | lateListing id' l =>
    exact h.congr (x.owners_recordRemark id' _) (x.pass_recordRemark id' _)
  | orphanListing l => exact h.congr rfl rfl
  | codeCache sample => exact h.congr rfl rfl

/-- No act lets a number mean a task of a reading that has not begun. -/
theorem Archive.OwnersBegun.archiveInvariant :
    ArchiveInvariant (fun _ => True) Archive.OwnersBegun where
  congr hsame h := h.congr hsame.owners_eq hsame.pass_eq
  beginPass x h id o ho := Nat.le_succ_of_le (h id o ho)
  recordTask x t _ h := by
    intro id o ho
    rw [x.pass_recordTask t]
    rw [x.recordTask_eq t] at ho
    simp only at ho
    split_ifs at ho
    · exact h id o ho
    · rw [KeyMap.get?_insert] at ho
      split_ifs at ho
      · obtain rfl := Option.some.inj ho
        exact Nat.le_refl _
      · exact h id o ho
  recordDeopt x d h := h.congr (x.owners_recordDeopt d) (x.pass_recordDeopt d)
  recordRemark x id r _ h := h.congr (x.owners_recordRemark id r) (x.pass_recordRemark id r)

/-- Noting a stored task brings a reading that has begun. -/
theorem Archive.OwnersBegun.noteOwner {a : Archive} (h : a.OwnersBegun) (method : Method)
    (t : Task) : (a.noteOwner method t).OwnersBegun := by
  intro id o ho
  show o.pass ≤ max a.pass t.pass
  unfold Archive.noteOwner at ho
  simp only at ho
  split_ifs at ho
  · rw [KeyMap.get?_insert] at ho
    split_ifs at ho
    · obtain rfl := Option.some.inj ho
      exact Nat.le_max_right _ _
    · exact Nat.le_trans (h id o ho) (Nat.le_max_left _ _)
  · exact Nat.le_trans (h id o ho) (Nat.le_max_left _ _)

/-- In the archive of a snapshot, all readings have begun. -/
theorem Snapshot.ownersBegun_toArchive (s : Snapshot) : s.toArchive.OwnersBegun := by
  have hstored : (s.histories.foldl Archive.addHistory .empty).OwnersBegun := by
    refine List.foldlRecOn (motive := Archive.OwnersBegun) s.histories _ ?_ ?_
    · intro id o ho
      cases ho
    · intro a ha m _
      have hnoted : (m.tasks.foldl (Archive.noteOwner m.method) a).OwnersBegun :=
        List.foldlRecOn (motive := Archive.OwnersBegun) m.tasks _ ha
          fun b hb t _ => hb.noteOwner m.method t
      exact hnoted.congr rfl rfl
  exact hstored.congr rfl rfl

/-! ### Remarks that find their task -/

/-- A remark on the task with a number is added to the first task with it. By induction on the
tasks. -/
theorem MethodHistory.taskIn?_addRemark (h : MethodHistory) (id : UInt64) (pass : Nat)
    (r : Remark) :
    (h.modifyTask id pass fun t => t.addRemark r).taskIn? id pass =
      (h.taskIn? id pass).map fun t => t.addRemark r := by
  have hnamed : ∀ t : Task, (t.addRemark r).isNamed id pass = t.isNamed id pass := fun t => by
    obtain ⟨hid, hpass⟩ := t.addRemark_keeps r
    unfold Task.isNamed
    rw [hid, hpass]
  obtain ⟨method, tasks, current, flags⟩ := h
  unfold modifyTask taskIn?
  simp only
  induction tasks with
  | nil => rfl
  | cons t rest ih =>
    cases ht : t.isNamed id pass with
    | true => simp [List.findIdx?_cons, ht, hnamed]
    | false =>
      cases hrest : rest.findIdx? (Task.isNamed id pass) with
      | none => simpa [List.findIdx?_cons, ht, hrest] using ih
      | some i => simpa [List.findIdx?_cons, ht, hrest] using ih

namespace Index

variable {x : Index} {id : UInt64}

/-- A number that means a task of the reading leads to the history that holds it. -/
theorem heldNow?_of_ownsNow (howned : x.OwnedSince x.pass) (hid : x.OwnsNow id) :
    ∃ o h t, x.heldNow? id = some (o, h) ∧ h.taskIn? id x.pass = some t := by
  obtain ⟨o, howner, hpass⟩ := hid
  obtain ⟨h, hfound, hnames⟩ := howned id o howner (Nat.le_of_eq hpass.symm)
  rw [hpass] at hnames
  obtain ⟨t, ht⟩ : ∃ t, h.taskIn? id x.pass = some t := by
    obtain ⟨named, hmem, hnamed⟩ := hnames
    exact Option.isSome_iff_exists.mp
      (List.find?_isSome.mpr ⟨named, hmem, Task.isNamed_iff.mpr hnamed⟩)
  exact ⟨o, h, t, heldNow?_eq_some_iff.mpr ⟨howner, hpass, hfound⟩, ht⟩

/-- A number that means no task of the reading leads nowhere. -/
theorem heldNow?_of_not_ownsNow (hid : ¬ x.OwnsNow id) : x.heldNow? id = none := by
  cases hheld : x.heldNow? id with
  | none => rfl
  | some held =>
    obtain ⟨howner, hpass, _⟩ := heldNow?_eq_some_iff.mp hheld
    exact absurd ⟨held.1, howner, hpass⟩ hid

/-- A remark on a task that the history of its number holds is added there. -/
theorem recordRemark_of_heldNow? {o : Owner} {h : MethodHistory} {t : Task}
    (hheld : x.heldNow? id = some (o, h)) (ht : h.taskIn? id x.pass = some t) (r : Remark) :
    x.recordRemark id r =
      x.putHistory o.method (h.modifyTask id x.pass fun t => t.addRemark r) := by
  rw [recordRemark_eq, hheld]
  simp only [ht, Option.isSome_some, if_true]

/-- A remark on a task of the reading finds it, and is added to it at once. -/
theorem recordRemark_of_ownsNow (howned : x.OwnedSince x.pass) (hid : x.OwnsNow id) (r : Remark) :
    ∃ t, x.task? id = some t ∧ t.compileId = id ∧ t.pass = x.pass ∧
      (x.recordRemark id r).task? id = some (t.addRemark r) ∧
      (x.recordRemark id r).pending = x.pending := by
  obtain ⟨o, h, t, hheld, ht⟩ := heldNow?_of_ownsNow howned hid
  obtain ⟨howner, hpass, hfound⟩ := heldNow?_eq_some_iff.mp hheld
  have hrecorded := recordRemark_of_heldNow? hheld ht r
  obtain ⟨hnumber, hreading⟩ := Task.isNamed_iff.mp (List.find?_some ht)
  refine ⟨t, ?_, hnumber, hreading, ?_, by rw [hrecorded]; rfl⟩
  · unfold Archive.task? Archive.historyOf?
    rw [howner, Option.bind_some, hfound, Option.bind_some, hpass, ht]
  · rw [hrecorded]
    unfold Archive.task? Archive.historyOf? putHistory
    simp only [KeyMap.get?_insert]
    rw [howner, Option.bind_some]
    simp only [if_true, Option.bind_some]
    rw [hpass, MethodHistory.taskIn?_addRemark, ht, Option.map_some]

/-! ### What waits -/

/-- No installed code waits for its task. -/
def CodeFree (x : Index) : Prop := ∀ id n, (id, Remark.native n) ∉ x.pending.toList

/-- That no code waits depends on what waits alone, of which some may be taken away. -/
theorem CodeFree.of_subset {y : Index} (h : x.CodeFree)
    (hsub : y.pending.toList ⊆ x.pending.toList) : y.CodeFree :=
  fun id n hmem => h id n (hsub hmem)

/-- An event or a listing may wait. -/
theorem CodeFree.hold (h : x.CodeFree) (id : UInt64) {r : Remark} (hr : ∀ n, r ≠ .native n) :
    (x.hold id r).CodeFree := by
  intro id' n hmem
  rcases List.mem_append.mp ((x.sublist_pending_hold id r).subset hmem) with hbefore | hlast
  · exact h id' n hbefore
  · obtain ⟨-, hnative⟩ := Prod.mk.inj (List.mem_singleton.mp hlast)
    exact hr n hnative.symm

/-- Filing a task lets nothing wait. -/
theorem CodeFree.recordTask (h : x.CodeFree) (t : Task) : (x.recordTask t).CodeFree := by
  rw [x.recordTask_eq t]
  refine h.of_subset ?_
  unfold takePending
  split
  · exact List.Subset.refl _
  · intro p hp
    exact List.mem_of_mem_filter (Array.toList_filter ▸ hp)

/-- Filing an event lets no code wait. -/
theorem CodeFree.recordDeopt (h : x.CodeFree) (d : Deopt) : (x.recordDeopt d).CodeFree := by
  rcases x.recordDeopt_cases d with ⟨_, _, _, _, _, heq⟩ | heq
  · rw [heq]
    exact h.of_subset (List.Subset.refl _)
  · rw [heq]
    exact h.hold _ fun n => Remark.noConfusion

/-- Filing a listing lets no code wait. -/
theorem CodeFree.recordListing (h : x.CodeFree) (id : UInt64) (l : Listing) :
    (x.recordRemark id (.listing l)).CodeFree := by
  rcases x.recordRemark_cases id (.listing l) with ⟨_, _, _, _, _, heq⟩ | heq
  · rw [heq]
    exact h.of_subset (List.Subset.refl _)
  · rw [heq]
    exact h.hold _ fun n => Remark.noConfusion

/-- Filing something lets no code wait, unless it is code that does not find its task. -/
theorem CodeFree.record (h : x.CodeFree) (howned : x.OwnedSince x.pass) {item : Collect.Item}
    (hlate : ∀ id n, item = .lateNative id n → x.OwnsNow id) : (x.record item).CodeFree := by
  cases item with
  | task t => exact h.recordTask t
  | deopt d => exact h.recordDeopt d
  | lateNative id n =>
    obtain ⟨_, _, _, _, _, hpending⟩ := recordRemark_of_ownsNow howned (hlate id n rfl) (.native n)
    refine h.of_subset (y := x.recordRemark id (.native n)) ?_
    rw [hpending]
    exact List.Subset.refl _
  | lateListing id l => exact h.recordListing id l
  | orphanListing l => exact h
  | codeCache sample => exact h

/-- A header lets nothing wait. -/
theorem CodeFree.recordHeader (h : x.CodeFree) (header : LogHeader) :
    (x.recordHeader header).CodeFree := by
  unfold Index.recordHeader
  split <;> exact h

/-- What waits where writing ends is an event or a listing, and stays as an orphan. -/
theorem CodeFree.length_orphans_freeze (h : x.CodeFree) :
    x.freeze.orphanDeopts.length + x.freeze.orphanListings.length =
      x.orphanDeopts.length + x.orphanListings.length + x.pending.size := by
  have hsplit : ∀ pending : List (UInt64 × Remark), (∀ id n, (id, Remark.native n) ∉ pending) →
      (pending.flatMap fun p => p.2.deopts).length +
        (pending.flatMap fun p => p.2.listings).length = pending.length := by
    intro pending hpending
    induction pending with
    | nil => rfl
    | cons p rest ih =>
      have hrest := ih fun id n hmem => hpending id n (List.mem_cons_of_mem p hmem)
      have hone : p.2.deopts.length + p.2.listings.length = 1 := by
        obtain ⟨id, r⟩ := p
        cases r with
        | native n => exact absurd List.mem_cons_self (hpending id n)
        | deopt d => rfl
        | listing l => rfl
      rw [List.flatMap_cons, List.flatMap_cons, List.length_append, List.length_append,
        List.length_cons]
      omega
  have hwaiting := hsplit x.pending.toList h
  rw [freeze_eq]
  simp only [waiting, List.length_append, ← Array.length_toList]
  omega

end Index

/-- Where writing resumes, only events wait. -/
theorem Archive.codeFree_thaw (a : Archive) (capacity : Nat) : (a.thaw capacity).CodeFree := by
  unfold thaw
  refine List.foldlRecOn (motive := Index.CodeFree) a.orphanDeopts _ ?_ ?_
  · intro id n hmem
    cases hmem
  · intro x h d _
    exact h.hold _ fun n => Remark.noConfusion

end CompileLog
