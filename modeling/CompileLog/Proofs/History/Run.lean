import CompileLog.Proofs.History.Filing
import CompileLog.Snapshot.Archive

/-!
# Writing and resting

Histories are written or at rest. While they are written a reading begins, and what it yields is
recorded; freezing ends writing and thawing resumes it. What holds of every history through
each way in which one changes holds of all histories after any sequence of these acts.
-/

namespace CompileLog

/-- Histories while they are written, or at rest. -/
inductive Store where
  /-- Being written. -/
  | writing (index : Index)
  /-- At rest. -/
  | atRest (archive : Archive)

/-- One thing done to histories. -/
inductive Act where
  /-- Another reading begins. -/
  | beginPass
  /-- Something that a log yields is filed. -/
  | record (item : Collect.Item)
  /-- What is known of the virtual machine is filed. -/
  | recordHeader (header : LogHeader)
  /-- Writing ends. -/
  | freeze
  /-- Writing resumes, with room for some remarks that wait. -/
  | thaw (capacity : Nat)

namespace Store

/-- The archive that is written or at rest. -/
def archive : Store → Archive
  | writing x => x.toArchive
  | atRest a => a

/-- All histories. -/
def histories (s : Store) : List MethodHistory := s.archive.histories.values

/-- Does one thing. What can be done only while writing, or only at rest, has no effect
otherwise. -/
def act : Store → Act → Store
  | writing x, .beginPass => writing x.beginPass
  | writing x, .record item => writing (x.record item)
  | writing x, .recordHeader header => writing (x.recordHeader header)
  | writing x, .freeze => atRest x.freeze
  | atRest a, .thaw capacity => writing (a.thaw capacity)
  | s, _ => s

/-- Does one thing after another. -/
def run (s : Store) (acts : List Act) : Store := acts.foldl act s

/-- What is done later is done to what is there by then. -/
theorem run_append (s : Store) (acts later : List Act) :
    s.run (acts ++ later) = (s.run acts).run later :=
  List.foldl_append

/-- Filing one thing after the other is one act after the other. -/
theorem run_record (x : Index) (items : List Collect.Item) :
    (writing x).run (items.map .record) = writing (items.foldl Index.record x) := by
  induction items generalizing x with
  | nil => rfl
  | cons item rest ih => exact ih (x.record item)

end Store

/-! ### What holds of an archive -/

/-- A task that an act files has a property. -/
def Act.Files (T : Task → Prop) : Act → Prop
  | record (.task t) => T t
  | _ => True

/-- Nothing is asked of the tasks that are filed. -/
theorem Act.files_true (a : Act) : a.Files fun _ => True := by
  unfold Files
  split <;> trivial

/-- A property of archives that no way of filing breaks, where the tasks filed have another. -/
structure ArchiveInvariant (T : Task → Prop) (P : Archive → Prop) : Prop where
  /-- It depends on what is filed alone. -/
  congr : ∀ {a b : Archive}, SameFiled b a → P a → P b
  /-- Beginning another reading keeps it. -/
  beginPass : ∀ x : Index, P x.toArchive → P x.beginPass.toArchive
  /-- Filing a task keeps it. -/
  recordTask : ∀ (x : Index) (t : Task), T t → P x.toArchive → P (x.recordTask t).toArchive
  /-- Filing an event keeps it. -/
  recordDeopt : ∀ (x : Index) (d : Deopt), P x.toArchive → P (x.recordDeopt d).toArchive
  /-- Filing installed code or a listing keeps it. -/
  recordRemark : ∀ (x : Index) (id : UInt64) (r : Remark), r.isDeopt = false → P x.toArchive →
    P (x.recordRemark id r).toArchive

namespace ArchiveInvariant

variable {T : Task → Prop} {P : Archive → Prop}

/-- Every act keeps an invariant. -/
theorem act (hP : ArchiveInvariant T P) {s : Store} (h : P s.archive) {a : Act} (ha : a.Files T) :
    P (s.act a).archive := by
  cases s with
  | writing x =>
    cases a with
    | beginPass => exact hP.beginPass x h
    | record item =>
      cases item with
      | task t => exact hP.recordTask x t ha h
      | deopt d => exact hP.recordDeopt x d h
      | lateNative id n => exact hP.recordRemark x id _ rfl h
      | lateListing id l => exact hP.recordRemark x id _ rfl h
      | orphanListing l =>
        have hsame : SameFiled (x.recordOrphanListing l).toArchive x.toArchive := ⟨rfl, rfl, rfl⟩
        exact hP.congr hsame h
      | codeCache sample =>
        have hsame : SameFiled (x.recordCodeCache sample).toArchive x.toArchive := ⟨rfl, rfl, rfl⟩
        exact hP.congr hsame h
    | recordHeader header => exact hP.congr (x.sameFiled_recordHeader header) h
    | freeze => exact hP.congr x.sameFiled_freeze h
    | thaw capacity => exact h
  | atRest archive =>
    cases a with
    | thaw capacity => exact hP.congr (archive.sameFiled_thaw capacity) h
    | _ => exact h

/-- Every sequence of acts keeps an invariant. By induction on the acts. -/
theorem run (hP : ArchiveInvariant T P) {s : Store} (h : P s.archive) {acts : List Act}
    (hacts : ∀ a ∈ acts, a.Files T) : P (s.run acts).archive := by
  induction acts generalizing s with
  | nil => exact h
  | cons a rest ih =>
    obtain ⟨hfirst, hrest⟩ := List.forall_mem_cons.mp hacts
    exact ih (hP.act h hfirst) hrest

/-- Where more is asked of the tasks that are filed, an invariant stays one. -/
theorem weaken {T' : Task → Prop} (hP : ArchiveInvariant T P) (hT : ∀ t, T' t → T t) :
    ArchiveInvariant T' P where
  congr := hP.congr
  beginPass := hP.beginPass
  recordTask x t ht := hP.recordTask x t (hT t ht)
  recordDeopt := hP.recordDeopt
  recordRemark := hP.recordRemark

/-- Two invariants together are one. -/
theorem and {Q : Archive → Prop} (hP : ArchiveInvariant T P) (hQ : ArchiveInvariant T Q) :
    ArchiveInvariant T fun a => P a ∧ Q a where
  congr hsame h := ⟨hP.congr hsame h.1, hQ.congr hsame h.2⟩
  beginPass x h := ⟨hP.beginPass x h.1, hQ.beginPass x h.2⟩
  recordTask x t ht h := ⟨hP.recordTask x t ht h.1, hQ.recordTask x t ht h.2⟩
  recordDeopt x d h := ⟨hP.recordDeopt x d h.1, hQ.recordDeopt x d h.2⟩
  recordRemark x id r hr h := ⟨hP.recordRemark x id r hr h.1, hQ.recordRemark x id r hr h.2⟩

end ArchiveInvariant

/-! ### Remarks on filed tasks -/

/-- A history becomes another by one remark on one of its tasks, if any task is meant. -/
inductive MethodHistory.Remarked (h : MethodHistory) : MethodHistory → Prop where
  /-- An event at run time is bound. -/
  | bound (pass : Nat) (d : Deopt) : Remarked h (h.bindDeopt pass d)
  /-- Installed code or a listing is added. -/
  | added (id : UInt64) (pass : Nat) (r : Remark) :
    Remarked h (h.modifyTask id pass fun t => t.addRemark r)

/-- An index becomes another where a remark is filed. -/
inductive Index.Remarked (x : Index) : Index → Prop where
  /-- The history of the task is put back with the remark. -/
  | putBack {key : Method} {h changed : MethodHistory} (hfound : x.histories.get? key = some h)
    (hremarked : h.Remarked changed) : Remarked x (x.putHistory key changed)
  /-- The remark waits, and another one may have made room. -/
  | held {y : Index} (hsame : SameFiled y.toArchive x.toArchive) : Remarked x y

/-- Filing an event at run time files a remark. -/
theorem Index.remarked_recordDeopt (x : Index) (d : Deopt) : x.Remarked (x.recordDeopt d) := by
  rcases x.recordDeopt_cases d with ⟨o, bound, _, _, hfound, heq⟩ | heq
  · rw [heq]
    exact .putBack hfound (.bound x.pass d)
  · rw [heq]
    exact .held (x.sameFiled_hold _ _)

/-- Filing installed code or a listing files a remark. -/
theorem Index.remarked_recordRemark (x : Index) (id : UInt64) (r : Remark) :
    x.Remarked (x.recordRemark id r) := by
  rcases x.recordRemark_cases id r with ⟨o, changed, _, _, hfound, heq⟩ | heq
  · rw [heq]
    exact .putBack hfound (.added id x.pass r)
  · rw [heq]
    exact .held (x.sameFiled_hold _ _)

/-- An invariant need not tell one remark from another. -/
theorem ArchiveInvariant.of_remarked {T : Task → Prop} {P : Archive → Prop}
    (hcongr : ∀ {a b : Archive}, SameFiled b a → P a → P b)
    (hbegin : ∀ x : Index, P x.toArchive → P x.beginPass.toArchive)
    (htask : ∀ (x : Index) (t : Task), T t → P x.toArchive → P (x.recordTask t).toArchive)
    (hremark : ∀ x y : Index, x.Remarked y → P x.toArchive → P y.toArchive) :
    ArchiveInvariant T P where
  congr := hcongr
  beginPass := hbegin
  recordTask := htask
  recordDeopt x d := hremark x _ (x.remarked_recordDeopt d)
  recordRemark x id r _ := hremark x _ (x.remarked_recordRemark id r)

/-! ### What holds of every history -/

namespace Index

variable {P : MethodHistory → Prop} {x : Index} (h : ∀ m ∈ x.histories.values, P m)
include h

/-- What holds before the first task holds of the history that a task joins. -/
theorem of_historyFor (hempty : ∀ m, P (.empty m)) (t : Task) : P (x.historyFor t) := by
  unfold historyFor
  cases hfound : x.historyOf? t.method with
  | none => exact hempty _
  | some m => exact h m (KeyMap.mem_values_of_get? hfound)

/-- What holds before the first task and is kept where a task joins holds of all histories once a
task is filed. -/
theorem forall_recordTask (hempty : ∀ m, P (.empty m)) (t : Task)
    (hinsert : ∀ m duplicate, P m → P (m.insert (x.completed t) duplicate)) :
    ∀ m ∈ (x.recordTask t).histories.values, P m := by
  rw [x.recordTask_eq t]
  intro m hm
  rcases KeyMap.mem_values_insert hm with rfl | hm
  · exact hinsert _ _ (of_historyFor h hempty (x.completed t))
  · exact h m hm

/-- What is kept where an event is bound holds of all histories once an event is filed. -/
theorem forall_recordDeopt (hbind : ∀ m d, P m → P (m.bindDeopt x.pass d)) (d : Deopt) :
    ∀ m ∈ (x.recordDeopt d).histories.values, P m := by
  rcases x.recordDeopt_cases d with ⟨o, bound, _, _, hfound, heq⟩ | heq
  · rw [heq]
    intro m hm
    rcases KeyMap.mem_values_insert hm with rfl | hm
    · exact hbind _ _ (h bound (KeyMap.mem_values_of_get? hfound))
    · exact h m hm
  · rw [heq]
    exact (x.sameFiled_hold _ _).forall_histories h

/-- What is kept where a remark is added to the task of its number holds of all histories once the
remark is filed. -/
theorem forall_recordRemark {id : UInt64} {r : Remark}
    (hadd : ∀ o m, x.owners.get? id = some o → o.pass = x.pass →
      x.histories.get? o.method = some m → P m →
      P (m.modifyTask id x.pass fun t => t.addRemark r)) :
    ∀ m ∈ (x.recordRemark id r).histories.values, P m := by
  rcases x.recordRemark_cases id r with ⟨o, changed, howner, hpass, hfound, heq⟩ | heq
  · rw [heq]
    intro m hm
    rcases KeyMap.mem_values_insert hm with rfl | hm
    · exact hadd o changed howner hpass hfound (h changed (KeyMap.mem_values_of_get? hfound))
    · exact h m hm
  · rw [heq]
    exact (x.sameFiled_hold _ _).forall_histories h

end Index

/-- A property of histories that no way in which they change breaks. -/
structure HistoryInvariant (P : MethodHistory → Prop) : Prop where
  /-- It holds before the first task. -/
  empty : ∀ m, P (.empty m)
  /-- Filing a task keeps it. -/
  insert : ∀ h t duplicate, P h → P (h.insert t duplicate)
  /-- Binding an event keeps it. -/
  bindDeopt : ∀ h pass d, P h → P (h.bindDeopt pass d)
  /-- Adding installed code or a listing keeps it. -/
  addRemark : ∀ h id pass r, r.isDeopt = false → P h →
    P (h.modifyTask id pass fun t => t.addRemark r)

namespace HistoryInvariant

variable {P : MethodHistory → Prop}

/-- An invariant of histories is one of archives, if it is asked of all their histories. -/
theorem archiveInvariant (hP : HistoryInvariant P) :
    ArchiveInvariant (fun _ => True) fun a => ∀ m ∈ a.histories.values, P m where
  congr hsame h := hsame.forall_histories h
  beginPass _ h := h
  recordTask _ t _ h := Index.forall_recordTask h hP.empty t fun m => hP.insert m _
  recordDeopt x d h := Index.forall_recordDeopt h (fun m d => hP.bindDeopt m x.pass d) d
  recordRemark _ _ r hr h :=
    Index.forall_recordRemark h fun _ m _ _ _ hm => hP.addRemark m _ _ r hr hm

end HistoryInvariant

/-! ### Where histories come from -/

/-- What histories begin as. -/
inductive Origin where
  /-- An index that holds nothing, with room for some remarks that wait. -/
  | empty (capacity : Nat)
  /-- What a snapshot holds, at rest. -/
  | stored (snapshot : Snapshot)

/-- The histories at the beginning. -/
def Origin.store : Origin → Store
  | empty capacity => .writing (.empty capacity)
  | stored snapshot => .atRest snapshot.toArchive

/-- Taking note of what numbers mean leaves the histories alone. -/
theorem Archive.histories_foldl_noteOwner (method : Method) (tasks : List Task) (a : Archive) :
    (tasks.foldl (noteOwner method) a).histories = a.histories := by
  induction tasks generalizing a with
  | nil => rfl
  | cons t rest ih => exact ih (noteOwner method a t)

/-- Adding a stored history sets it under its method. -/
theorem Archive.histories_addHistory (a : Archive) (h : MethodHistory) :
    (a.addHistory h).histories = a.histories.insert h.method h.refreshCurrent := by
  simp only [addHistory, histories_foldl_noteOwner]

/-- What holds of the stored histories, looked up anew, holds of all that a snapshot holds. -/
theorem Snapshot.forall_histories_toArchive_of {P : MethodHistory → Prop} (s : Snapshot)
    (hP : ∀ h ∈ s.histories, P h.refreshCurrent) : ∀ m ∈ s.toArchive.histories.values, P m := by
  unfold toArchive
  refine List.foldlRecOn (motive := fun a : Archive => ∀ m ∈ a.histories.values, P m)
    s.histories _ (by simp [Archive.empty]) ?_
  intro a h stored hstored m hm
  rw [Archive.histories_addHistory] at hm
  rcases KeyMap.mem_values_insert hm with rfl | hm
  · exact hP stored hstored
  · exact h m hm

/-- What holds of every history looked up anew holds of all that a snapshot holds. -/
theorem Snapshot.forall_histories_toArchive {P : MethodHistory → Prop}
    (hP : ∀ h : MethodHistory, P h.refreshCurrent) (s : Snapshot) :
    ∀ m ∈ s.toArchive.histories.values, P m :=
  s.forall_histories_toArchive_of fun h _ => hP h

/-- An invariant of all histories that holds of those looked up anew holds after every sequence
of acts from every beginning. -/
theorem HistoryInvariant.origin {P : MethodHistory → Prop} (hP : HistoryInvariant P)
    (hrefresh : ∀ h : MethodHistory, P h.refreshCurrent) (o : Origin) (acts : List Act) :
    ∀ m ∈ (o.store.run acts).histories, P m := by
  refine hP.archiveInvariant.run ?_ fun a _ => a.files_true
  cases o with
  | empty capacity => simp [Origin.store, Store.archive, Index.empty, Archive.empty]
  | stored s => exact s.forall_histories_toArchive hrefresh

end CompileLog
