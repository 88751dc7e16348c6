import CompileLog.Proofs.History.Arrival
import CompileLog.Proofs.History.Ledger

/-!
# The order of arrival

What a reading files is told by its tasks and by its events in their order. So it does not depend on
how tasks and events come mixed, nor on the order of the tasks: two readings of the same tasks and
events give archives that hold the same. Only the flags of a history tell in what order its tasks
came.
-/

namespace CompileLog

open Collect

/-- A history without the flags, which tell in what order its tasks came. -/
def MethodHistory.unflagged (h : MethodHistory) : MethodHistory := { h with flags := [] }

/-- Two archives hold the same, and numbers mean the same in them, up to the flags of histories. -/
structure Archive.SameUnflagged (a b : Archive) : Prop where
  histories : ∀ m, (a.historyOf? m).map MethodHistory.unflagged =
    (b.historyOf? m).map MethodHistory.unflagged
  owners_eq : a.owners = b.owners
  pass_eq : a.pass = b.pass
  orphanDeopts_eq : a.orphanDeopts = b.orphanDeopts
  orphanListings_eq : a.orphanListings = b.orphanListings
  codeCache_eq : a.codeCache = b.codeCache
  headers_eq : a.headers = b.headers
  dropped_eq : a.dropped = b.dropped

/-- Items are some tasks in any order and some events in their order, mixed in any way. -/
structure Arrival (tasks : List Task) (deopts : List Deopt) (items : List Item) : Prop where
  only : ∀ item ∈ items, (∃ t, item = .task t) ∨ ∃ d, item = .deopt d
  tasks_perm : (tasksOf items).Perm tasks
  deopts_eq : deoptsOf items = deopts

/-- Histories of one method with the same tasks differ in their flags alone, where each has the right
code in service. -/
theorem MethodHistory.unflagged_eq {h h' : MethodHistory} (hmethod : h.method = h'.method)
    (htasks : h.tasks = h'.tasks) (hservice : InService h.tasks h.current)
    (hservice' : InService h'.tasks h'.current) : h.unflagged = h'.unflagged := by
  rw [htasks] at hservice
  have hcurrent := hservice.unique hservice'
  unfold unflagged
  rw [hmethod, htasks, hcurrent]

/-- Where two archives are well kept, a method with the same timeline in both has the same history, up
to the flags. -/
theorem Archive.WellKept.map_unflagged_eq {a b : Archive} (ha : a.WellKept) (hb : b.WellKept)
    {m : Method} (hknown : (a.historyOf? m).isSome = (b.historyOf? m).isSome)
    (htimeline : a.timelineOf m = b.timelineOf m) :
    (a.historyOf? m).map MethodHistory.unflagged =
      (b.historyOf? m).map MethodHistory.unflagged := by
  unfold timelineOf at htimeline
  cases hfound : a.historyOf? m with
  | none =>
    rw [hfound] at hknown
    cases hfound' : b.historyOf? m with
    | none => rfl
    | some h' => simp [hfound'] at hknown
  | some h =>
    rw [hfound] at hknown htimeline
    cases hfound' : b.historyOf? m with
    | none => simp [hfound'] at hknown
    | some h' =>
      rw [hfound'] at htimeline
      have hmethod : h.method = h'.method :=
        (ha.keyed m h hfound).trans (hb.keyed m h' hfound').symm
      refine congrArg some (MethodHistory.unflagged_eq hmethod htimeline ?_ ?_)
      · exact ha.inService h (KeyMap.mem_values_of_get? hfound)
      · exact hb.inService h' (KeyMap.mem_values_of_get? hfound')

namespace Index

variable {start x y : Index} {tasks tasks' : List Task} {deopts : List Deopt}

/-- What numbers mean is told by the tasks, in whatever order. -/
theorem Filed.owners_eq (h : start.Filed tasks deopts x) (h' : start.Filed tasks' deopts y)
    (hperm : tasks.Perm tasks') : x.owners = y.owners := by
  refine KeyMap.ext_get? fun id => ?_
  by_cases hsome : ∃ t ∈ tasks, t.compileId = id
  · obtain ⟨t, ht, rfl⟩ := hsome
    rw [h.meant t ht, h'.meant t (hperm.mem_iff.mp ht)]
  · have hnone : ∀ t ∈ tasks, t.compileId ≠ id := fun t ht hid => hsome ⟨t, ht, hid⟩
    rw [h.others id hnone, h'.others id fun t ht => hnone t (hperm.mem_iff.mpr ht)]

/-- What has been filed is told by the tasks, in whatever order, and the events. -/
theorem Filed.sameUnflagged_freeze (h : start.Filed tasks deopts x)
    (h' : start.Filed tasks' deopts y) (hperm : tasks.Perm tasks')
    (hdistinct : (tasks.map Task.compileId).Nodup) : x.freeze.SameUnflagged y.freeze := by
  have hpending : x.pending.toList = y.pending.toList := by
    rw [h.pending, h'.pending]
    refine congrArg (List.map _) (List.filter_congr fun d _ => ?_)
    exact hperm.all_eq
  have htimeline : ∀ m, x.timelineOf m = y.timelineOf m := by
    intro m
    rw [h.timeline m, h'.timeline m]
    refine foldl_joined_of_perm ((hperm.filter _).map _) ?_ _
    rw [List.map_map]
    exact (List.filter_sublist.map Task.compileId).nodup hdistinct
  have hknown : ∀ m, (x.historyOf? m).isSome = (y.historyOf? m).isSome := by
    intro m
    rw [h.known m, h'.known m, hperm.any_eq]
  rw [freeze_eq, freeze_eq]
  unfold waiting
  rw [hpending, h.rest.orphanDeopts_eq, h'.rest.orphanDeopts_eq, h.rest.orphanListings_eq,
    h'.rest.orphanListings_eq]
  exact
    { histories := fun m => h.wellKept.map_unflagged_eq h'.wellKept (hknown m) (htimeline m)
      owners_eq := h.owners_eq h' hperm
      pass_eq := h.rest.pass_eq.trans h'.rest.pass_eq.symm
      orphanDeopts_eq := rfl
      orphanListings_eq := rfl
      codeCache_eq := h.rest.codeCache_eq.trans h'.rest.codeCache_eq.symm
      headers_eq := h.rest.headers_eq.trans h'.rest.headers_eq.symm
      dropped_eq := h.rest.dropped_eq.trans h'.rest.dropped_eq.symm }

/-- What an arrival files is told by its tasks and its events. -/
theorem Begun.filed_arrival (hstart : start.Begun) (hdistinct : (tasks.map Task.compileId).Nodup)
    (hroom : deopts.length ≤ start.capacity) {items : List Item}
    (harrival : Arrival tasks deopts items) :
    start.Filed (tasksOf items) deopts (items.foldl record start) := by
  have hnumbers : (([] ++ tasksOf items).map Task.compileId).Nodup :=
    ((harrival.tasks_perm.map Task.compileId).nodup_iff).mpr hdistinct
  have hfits : ([] ++ deoptsOf items).length ≤ start.capacity := by
    rw [List.nil_append, harrival.deopts_eq]
    exact hroom
  have hfiled := hstart.filed.foldl_record hstart harrival.only hnumbers hfits
  rw [List.nil_append, List.nil_append, harrival.deopts_eq] at hfiled
  exact hfiled

end Index

/-- In a reading that has begun, whatever was filed before, take tasks with distinct numbers and
events for which there is room to wait. In whatever order the tasks come, and however the events are
mixed with them in their own order, the archive is the same in the end: each method has the same
tasks with the same events in the same order and the same code in service, and the same events are
orphans. Only the flags may differ. -/
theorem arrival_order_immaterial {start : Index} (hstart : start.Begun) {tasks : List Task}
    (hdistinct : (tasks.map Task.compileId).Nodup) {deopts : List Deopt}
    (hroom : deopts.length ≤ start.capacity) {first second : List Item}
    (hfirst : Arrival tasks deopts first) (hsecond : Arrival tasks deopts second) :
    (first.foldl Index.record start).freeze.SameUnflagged
      (second.foldl Index.record start).freeze := by
  have hperm : (tasksOf first).Perm (tasksOf second) :=
    hfirst.tasks_perm.trans hsecond.tasks_perm.symm
  have hnumbers : ((tasksOf first).map Task.compileId).Nodup :=
    ((hfirst.tasks_perm.map Task.compileId).nodup_iff).mpr hdistinct
  exact (hstart.filed_arrival hdistinct hroom hfirst).sameUnflagged_freeze
    (hstart.filed_arrival hdistinct hroom hsecond) hperm hnumbers

/-- Two compilations of one method come in either order; an event of the first comes before it or
behind it, and one of no task comes at either end. -/
theorem arrival_order_immaterial_mixed :
    let method : Method := ⟨"Main", "loop", "()V"⟩
    let early : Task := { Task.new 1 method with
      startedAt := some ⟨10⟩, state := .closed, outcome := .succeeded }
    let late : Task := { Task.new 2 method with
      startedAt := some ⟨20⟩, state := .closed, outcome := .succeeded }
    let event : Deopt := ⟨1, .madeNotEntrant, none, none, none, none, none⟩
    let stray : Deopt := ⟨9, .madeNotEntrant, none, none, none, none, none⟩
    let first : List Item := [.deopt event, .deopt stray, .task late, .task early]
    let second : List Item := [.task early, .task late, .deopt event, .deopt stray]
    Arrival [early, late] [event, stray] first ∧ Arrival [early, late] [event, stray] second ∧
      (first.foldl Index.record (.empty 2)).freeze.SameUnflagged
        (second.foldl Index.record (.empty 2)).freeze := by
  intro method early late event stray first second
  have hfirst : Arrival [early, late] [event, stray] first :=
    ⟨by simp [first], List.Perm.swap early late [], rfl⟩
  have hsecond : Arrival [early, late] [event, stray] second :=
    ⟨by simp [second], List.Perm.refl _, rfl⟩
  have hdistinct : ([early, late].map Task.compileId).Nodup := by decide
  have hroom : [event, stray].length ≤ 2 := Nat.le_refl 2
  exact ⟨hfirst, hsecond,
    arrival_order_immaterial (Index.begun_empty 2 0) hdistinct hroom hfirst hsecond⟩

end CompileLog
