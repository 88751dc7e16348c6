import CompileLog.Proofs.Collect.Handover
import CompileLog.Proofs.History.Owners

/-!
# The states of filed tasks

A task is filed in the state in which a log hands it over, and nothing that is recorded later
changes that state or takes the task out again. So the states of all tasks in an archive are those
of the tasks that were filed.
-/

namespace CompileLog

open Collect

/-- The states of the tasks of a history. -/
def MethodHistory.states (h : MethodHistory) : List TaskState := h.tasks.map Task.state

/-- The states of all tasks of an archive. -/
def Archive.states (a : Archive) : List TaskState := a.tasks.map Task.state

/-- The states of an archive are those of its histories. -/
theorem Archive.states_eq (a : Archive) :
    a.states = a.histories.values.flatMap MethodHistory.states := by
  unfold states tasks allHistories KeyMap.values MethodHistory.states
  rw [List.map_flatMap]

/-- Archives that filed the same have tasks in the same states. -/
theorem SameFiled.states_eq {a b : Archive} (h : SameFiled a b) : a.states = b.states := by
  rw [a.states_eq, b.states_eq, h.histories_eq]

/-- A remark does not change the state of a task. -/
theorem Task.state_addRemark (t : Task) (r : Remark) : (t.addRemark r).state = t.state := by
  cases r with
  | deopt d => rfl
  | native n => rfl
  | listing l =>
    obtain ⟨size, native, flags, heq⟩ := t.addRemark_eq_of_not_isDeopt (r := .listing l) rfl
    rw [heq]

/-- Remarks do not change the state of a task. -/
theorem Task.state_foldl_addRemark (t : Task) (remarks : List Remark) :
    (remarks.foldl addRemark t).state = t.state := by
  induction remarks generalizing t with
  | nil => rfl
  | cons r rest ih => rw [List.foldl_cons, ih, t.state_addRemark]

namespace MethodHistory

/-- A task that is added brings its state. -/
theorem states_insert (h : MethodHistory) (t : Task) (duplicate : Bool) :
    (h.insert t duplicate).states.Perm (t.state :: h.states) := by
  unfold states
  rw [tasks_insert]
  exact (List.perm_insertIdx t h.tasks (h.positionOf_le t)).map Task.state

/-- A remark changes no state. -/
theorem states_addRemark (h : MethodHistory) (id : UInt64) (pass : Nat) (r : Remark) :
    (h.modifyTask id pass fun t => t.addRemark r).states = h.states := by
  unfold modifyTask states
  cases h.tasks.findIdx? (Task.isNamed id pass) with
  | none => rfl
  | some i =>
    refine List.ext_getElem? fun j => ?_
    simp only [List.getElem?_map, List.getElem?_modify]
    cases h.tasks[j]? with
    | none => rfl
    | some t =>
      by_cases hij : i = j
      · simp [hij, t.state_addRemark]
      · simp [hij]

/-- An event that is bound changes no state. -/
theorem states_bindDeopt (h : MethodHistory) (pass : Nat) (d : Deopt) :
    (h.bindDeopt pass d).states = h.states := by
  unfold states
  rw [tasks_bindDeopt]
  exact h.states_addRemark _ _ _

end MethodHistory

namespace Index

/-- Changing one history brings the states that come to it. -/
theorem states_of_histories_insert {x y : Index} {key : Method} {h : MethodHistory}
    (brought : List TaskState) (hhistories : y.histories = x.histories.insert key h)
    (hstates : h.states.Perm (brought ++ (x.histories.get? key).elim [] MethodHistory.states)) :
    y.states.Perm (brought ++ x.states) := by
  rw [Archive.states_eq, Archive.states_eq, hhistories]
  exact KeyMap.flatMap_values_insert_perm hstates

/-- Filing a task brings its state. -/
theorem states_recordTask (x : Index) (t : Task) :
    (x.recordTask t).states.Perm (t.state :: x.states) := by
  have hsame := x.sameFiled_takePending t.compileId
  have hstate : (x.completed t).state = t.state := Task.state_foldl_addRemark _ _
  have hjoined : (x.historyFor (x.completed t)).states =
      (x.histories.get? (x.completed t).method).elim [] MethodHistory.states :=
    x.apply_historyFor MethodHistory.states _
  rw [x.recordTask_eq t, ← hsame.states_eq, ← hstate]
  refine states_of_histories_insert [(x.completed t).state]
    (congrArg (fun m => KeyMap.insert m (x.completed t).method _) hsame.histories_eq.symm) ?_
  rw [hsame.histories_eq, ← hjoined]
  exact MethodHistory.states_insert _ _ _

/-- Filing an event changes no state. -/
theorem states_recordDeopt (x : Index) (d : Deopt) : (x.recordDeopt d).states.Perm x.states := by
  rcases x.recordDeopt_cases d with ⟨o, h, _, _, hfound, heq⟩ | heq
  · rw [heq]
    refine states_of_histories_insert [] rfl ?_
    rw [hfound, h.states_bindDeopt]
    exact .refl _
  · rw [heq, (x.sameFiled_hold _ _).states_eq]

/-- Filing installed code or a listing changes no state. -/
theorem states_recordRemark (x : Index) (id : UInt64) (r : Remark) :
    (x.recordRemark id r).states.Perm x.states := by
  rcases x.recordRemark_cases id r with ⟨o, h, _, _, hfound, heq⟩ | heq
  · rw [heq]
    refine states_of_histories_insert [] rfl ?_
    rw [hfound, h.states_addRemark]
    exact .refl _
  · rw [heq, (x.sameFiled_hold _ _).states_eq]

/-- Filing what a log yields brings the states of its tasks. By induction on what it yields. -/
theorem states_record_all (items : List Item) (x : Index) :
    (items.foldl record x).states.Perm ((tasksOf items).map Task.state ++ x.states) := by
  induction items generalizing x with
  | nil => exact .refl _
  | cons item rest ih =>
    have hfirst : (x.record item).states.Perm
        ((tasksOf [item]).map Task.state ++ x.states) := by
      cases item with
      | task t => exact x.states_recordTask t
      | deopt d => exact x.states_recordDeopt d
      | lateNative id n => exact x.states_recordRemark id _
      | lateListing id l => exact x.states_recordRemark id _
      | orphanListing l => exact .refl _
      | codeCache sample => exact .refl _
    have hsplit : tasksOf (item :: rest) = tasksOf [item] ++ tasksOf rest :=
      tasksOf_append [item] rest
    refine List.perm_iff_count.mpr fun s => ?_
    have hcount := List.perm_iff_count.mp hfirst s
    have hcount' := List.perm_iff_count.mp (ih (x.record item)) s
    rw [hsplit]
    simp only [List.foldl_cons, List.map_append, List.count_append] at hcount hcount' ⊢
    omega

end Index

end CompileLog
