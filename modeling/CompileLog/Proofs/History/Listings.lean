import CompileLog.Proofs.Collect.Listings
import CompileLog.Proofs.History.Alike

/-!
# Filing without listings

Nothing that an index does depends on the listing of a task: not its place on the timeline, nor
whether its code may be in service, nor to which task something is added. So filing something in an
index is, but for listings, the same as filing it in the index with all listings dropped. Whether
the tasks come with or without theirs makes no difference then, and the archives in the end agree.
-/

namespace CompileLog

open Collect

/-! ### Histories -/

namespace Task

variable (t : Task)

/-- The place on the timeline is no matter of listings. -/
@[simp] theorem timelineStamp_withoutListing :
    t.withoutListing.timelineStamp = t.timelineStamp := by
  unfold timelineStamp withoutListing
  cases t.native <;> rfl

/-- Nor is which of two tasks comes first. -/
@[simp] theorem notAfter_withoutListing (o : Task) :
    o.withoutListing.notAfter t.withoutListing = o.notAfter t := by
  unfold notAfter
  rw [timelineStamp_withoutListing, timelineStamp_withoutListing]
  rfl

end Task

namespace MethodHistory

/-- The history with the listings of its tasks dropped. -/
def withoutListings (h : MethodHistory) : MethodHistory :=
  { h with tasks := h.tasks.map Task.withoutListing }

variable (h : MethodHistory)

/-- Dropping the listings twice is dropping them once. -/
theorem withoutListings_withoutListings :
    h.withoutListings.withoutListings = h.withoutListings := by
  unfold withoutListings
  simp only [List.map_map, Function.comp_def, Task.withoutListing_withoutListing]

/-- The position at which a task joins the timeline. -/
theorem positionOf_withoutListings (t : Task) :
    h.withoutListings.positionOf t.withoutListing = h.positionOf t := by
  unfold positionOf withoutListings
  simp only [List.length_map, List.getElem?_map, Option.any_map,
    Task.notAfter_withoutListing]

/-- Noting a flag. -/
theorem flag_withoutListings (f : HistoryFlag) :
    h.withoutListings.flag f = (h.flag f).withoutListings := by
  unfold flag
  rw [apply_ite withoutListings]
  rfl

/-- A look at the task before. -/
theorem flagBefore_withoutListings (before : Option Task) (t : Task) :
    h.withoutListings.flagBefore (before.map Task.withoutListing) t.withoutListing =
      (h.flagBefore before t).withoutListings := by
  cases before with
  | none => rfl
  | some o =>
    simp only [flagBefore, Option.map_some, Task.timelineStamp_withoutListing]
    rw [apply_ite withoutListings, ← flag_withoutListings]
    rfl

/-- A look at the task behind. -/
theorem flagBehind_withoutListings (behind : Option Task) (t : Task) :
    h.withoutListings.flagBehind (behind.map Task.withoutListing) t.withoutListing =
      (h.flagBehind behind t).withoutListings := by
  cases behind with
  | none => rfl
  | some o =>
    simp only [flagBehind, Option.map_some]
    rw [apply_ite withoutListings, ← flag_withoutListings]
    rfl

/-- Which of two positions comes first for the code in service. -/
theorem outranks_withoutListings (i j : Nat) :
    h.withoutListings.outranks i j = h.outranks i j := by
  have hstandard : ∀ k, h.withoutListings.isStandardAt k = h.isStandardAt k := by
    intro k
    unfold isStandardAt withoutListings
    rw [List.getElem?_map, Option.any_map]
    rfl
  unfold outranks
  rw [hstandard, hstandard]

/-- The choice of the code in service. -/
theorem promote_withoutListings (i : Nat) :
    h.withoutListings.promote i = (h.promote i).withoutListings := by
  have hlive : (h.withoutListings.tasks[i]?.any Task.isLive) = h.tasks[i]?.any Task.isLive := by
    unfold withoutListings
    rw [List.getElem?_map, Option.any_map]
    rfl
  have hfirst : h.withoutListings.current.all (h.withoutListings.outranks i) =
      h.current.all (h.outranks i) := by
    have hranks : h.withoutListings.outranks i = h.outranks i :=
      funext fun j => h.outranks_withoutListings i j
    rw [hranks]
    rfl
  unfold promote
  rw [hlive, hfirst, apply_ite withoutListings]
  rfl

/-- A task that joins the timeline. -/
theorem insert_withoutListings (t : Task) (duplicate : Bool) :
    h.withoutListings.insert t.withoutListing duplicate =
      (h.insert t duplicate).withoutListings := by
  let i := h.positionOf t
  let joined : MethodHistory := { h with
    tasks := h.tasks.insertIdx i t
    current := h.current.map fun c => if i ≤ c then c + 1 else c }
  let noted := if duplicate then joined.flag (.duplicate t.compileId) else joined
  let before := if i = 0 then none else h.tasks[i - 1]?
  have hjoined : { h.withoutListings with
      tasks := h.withoutListings.tasks.insertIdx i t.withoutListing
      current := h.withoutListings.current.map fun c => if i ≤ c then c + 1 else c } =
      joined.withoutListings := by
    simp only [joined, withoutListings, List.map_insertIdx]
  have hnoted : (if duplicate then joined.withoutListings.flag (.duplicate t.compileId)
      else joined.withoutListings) = noted.withoutListings := by
    rw [flag_withoutListings]
    exact (apply_ite withoutListings _ _ _).symm
  have hbefore : (if i = 0 then none else h.withoutListings.tasks[i - 1]?) =
      before.map Task.withoutListing := by
    unfold before withoutListings
    rw [apply_ite (Option.map Task.withoutListing), List.getElem?_map]
    rfl
  have hbehind : h.withoutListings.tasks[i]? = h.tasks[i]?.map Task.withoutListing :=
    List.getElem?_map
  have hcompileId : t.withoutListing.compileId = t.compileId := rfl
  unfold insert
  simp only [positionOf_withoutListings, Task.timelineStamp_withoutListing, hcompileId]
  simp only [i, joined, noted, before] at hjoined hnoted hbefore hbehind
  rw [hjoined, hnoted, hbefore, hbehind, flagBefore_withoutListings, flagBehind_withoutListings,
    ← apply_ite withoutListings, promote_withoutListings]

/-- The code in service, looked up anew. -/
theorem findCurrent?_withoutListing (tasks : List Task) :
    findCurrent? (tasks.map Task.withoutListing) = findCurrent? tasks := by
  unfold findCurrent? lastPosition?
  simp only [← List.map_reverse, List.findIdx?_map, List.length_map]
  rfl

/-- The position of the task with a number in one reading. -/
theorem findIdx?_isNamed_withoutListing (tasks : List Task) (id : UInt64) (pass : Nat) :
    (tasks.map Task.withoutListing).findIdx? (Task.isNamed id pass) =
      tasks.findIdx? (Task.isNamed id pass) := by
  rw [List.findIdx?_map]
  rfl

/-- A change of one task, as far as it is not one of its listing. -/
theorem modifyTask_withoutListings (id : UInt64) (pass : Nat) {f g : Task → Task}
    (hf : ∀ t : Task, (g t.withoutListing).withoutListing = (f t).withoutListing) :
    (h.withoutListings.modifyTask id pass g).withoutListings =
      (h.modifyTask id pass f).withoutListings := by
  unfold modifyTask withoutListings
  simp only [findIdx?_isNamed_withoutListing]
  cases h.tasks.findIdx? (Task.isNamed id pass) with
  | none => simp
  | some i =>
    simp only
    congr 1
    refine List.ext_getElem? fun j => ?_
    simp only [List.getElem?_map, List.getElem?_modify]
    cases h.tasks[j]? with
    | none => rfl
    | some t => by_cases hj : i = j <;> simp [hj, hf]

/-- An event that is bound. -/
theorem bindDeopt_withoutListings (pass : Nat) (d : Deopt) :
    h.withoutListings.bindDeopt pass d = (h.bindDeopt pass d).withoutListings := by
  have hindex : h.withoutListings.tasks.findIdx? (Task.isNamed d.compileId pass) =
      h.tasks.findIdx? (Task.isNamed d.compileId pass) := findIdx?_isNamed_withoutListing _ _ _
  unfold bindDeopt
  rw [hindex]
  cases h.tasks.findIdx? (Task.isNamed d.compileId pass) with
  | none => rfl
  | some i =>
    let bound : MethodHistory := { h with
      tasks := h.tasks.modify i fun t => { t with deopts := t.deopts ++ [d] } }
    have htasks : (h.withoutListings.tasks.modify i fun t => { t with deopts := t.deopts ++ [d] }) =
        bound.withoutListings.tasks := by
      refine List.ext_getElem? fun j => ?_
      simp only [bound, withoutListings, List.getElem?_map, List.getElem?_modify]
      cases h.tasks[j]? with
      | none => rfl
      | some t => by_cases hj : i = j <;> simp [hj, Task.withoutListing]
    have hinvalidated : (bound.withoutListings.tasks[i]?.any Task.isInvalidated) =
        bound.tasks[i]?.any Task.isInvalidated := by
      unfold withoutListings
      rw [List.getElem?_map, Option.any_map]
      rfl
    have hrefreshed : bound.withoutListings.refreshCurrent =
        bound.refreshCurrent.withoutListings := by
      unfold refreshCurrent withoutListings
      simp only [findCurrent?_withoutListing]
    simp only [htasks]
    show (if h.current = some i ∧ bound.withoutListings.tasks[i]?.any Task.isInvalidated then
        bound.withoutListings.refreshCurrent else bound.withoutListings) =
      (if h.current = some i ∧ bound.tasks[i]?.any Task.isInvalidated then
        bound.refreshCurrent else bound).withoutListings
    rw [hinvalidated, hrefreshed, apply_ite withoutListings]

end MethodHistory

/-! ### Archives and indexes -/

/-- The remark, with the listing of installed code dropped. A listing told by itself stays. -/
def Remark.withoutListing : Remark → Remark
  | .native n => .native n.withoutListing
  | r => r

/-- Dropping the listing twice is dropping it once. -/
theorem Remark.withoutListing_withoutListing (r : Remark) :
    r.withoutListing.withoutListing = r.withoutListing := by
  cases r <;> rfl

/-- Dropping the listing twice is dropping it once. -/
theorem Collect.Item.withoutListing_withoutListing (item : Item) :
    item.withoutListing.withoutListing = item.withoutListing := by
  cases item with
  | task t => exact congrArg Item.task t.withoutListing_withoutListing
  | _ => rfl

/-- A remark that is added, as far as it does not change the listing. -/
theorem Task.withoutListing_addRemark (t : Task) (r : Remark) :
    (t.withoutListing.addRemark r.withoutListing).withoutListing =
      (t.addRemark r).withoutListing := by
  cases r with
  | deopt d => exact withoutListing_withoutListing { t with deopts := t.deopts ++ [d] }
  | native n =>
    have hattached := t.attachNative_withoutListing n
    simp only [addRemark, Remark.withoutListing, hattached, withoutListing_withoutListing]
  | listing l => exact t.withoutListing_attachListing l

/-- Remarks that are added. By induction on them. -/
theorem Task.withoutListing_foldl_addRemark (remarks : List Remark) {t t' : Task}
    (h : t'.withoutListing = t.withoutListing) :
    ((remarks.map Remark.withoutListing).foldl Task.addRemark t').withoutListing =
      (remarks.foldl Task.addRemark t).withoutListing := by
  induction remarks generalizing t t' with
  | nil => exact h
  | cons r rest ih =>
    refine ih ?_
    rw [← t.withoutListing_addRemark, ← t'.withoutListing_addRemark,
      Remark.withoutListing_withoutListing, h]

/-- The archive with the listings of its tasks dropped. -/
def Archive.withoutListings (a : Archive) : Archive :=
  { a with histories := a.histories.map fun _ h => h.withoutListings }

/-- The index with the listings of its tasks dropped. -/
def Index.withoutListings (x : Index) : Index :=
  { x with
    toArchive := x.toArchive.withoutListings
    pending := x.pending.map fun p => (p.1, p.2.withoutListing) }

namespace Index

variable (x : Index)

/-- The history of a method. -/
theorem histories_get?_withoutListings (m : Method) :
    x.withoutListings.histories.get? m =
      (x.histories.get? m).map MethodHistory.withoutListings :=
  KeyMap.get?_map _ x.histories m

/-- A remark that is given up. -/
theorem giveUp_withoutListings (r : Remark) :
    x.withoutListings.giveUp r.withoutListing = (x.giveUp r).withoutListings := by
  have hkind : r.withoutListing.isDeopt = r.isDeopt := by cases r <;> rfl
  unfold giveUp
  rw [hkind, apply_ite withoutListings]
  rfl

/-- The oldest remark that is dropped. -/
theorem dropOldest_withoutListings :
    x.withoutListings.dropOldest = x.dropOldest.withoutListings := by
  cases hpending : x.pending.toList with
  | nil =>
    have hpending' : x.withoutListings.pending.toList = [] := by
      simp [withoutListings, hpending]
    rw [dropOldest_of_nil hpending, dropOldest_of_nil hpending']
  | cons oldest rest =>
    have hpending' : x.withoutListings.pending.toList =
        (oldest.1, oldest.2.withoutListing) ::
          rest.map fun p => (p.1, p.2.withoutListing) := by
      simp [withoutListings, hpending]
    rw [dropOldest_of_cons hpending, dropOldest_of_cons hpending', ← giveUp_withoutListings]
    simp only [withoutListings, List.map_toArray]

/-- A remark that waits. -/
theorem hold_withoutListings (id : UInt64) (r : Remark) :
    x.withoutListings.hold id r.withoutListing = (x.hold id r).withoutListings := by
  have hsize : x.withoutListings.pending.size = x.pending.size := Array.size_map
  have hcapacity : x.withoutListings.capacity = x.capacity := rfl
  have hroom : (if x.capacity ≤ x.pending.size then x.withoutListings.dropOldest
      else x.withoutListings) =
      (if x.capacity ≤ x.pending.size then x.dropOldest else x).withoutListings := by
    rw [dropOldest_withoutListings, apply_ite withoutListings]
  unfold hold
  simp only [hsize, hcapacity, giveUp_withoutListings, hroom]
  generalize (if x.capacity ≤ x.pending.size then x.dropOldest else x) = roomy
  rw [apply_ite withoutListings]
  congr 1
  simp only [withoutListings, Array.map_push]

/-- What waits for a task and is taken out. -/
theorem takePending_withoutListings (id : UInt64) :
    x.withoutListings.takePending id =
      ((x.takePending id).1.withoutListings,
        (x.takePending id).2.map Remark.withoutListing) := by
  have hcounts : x.withoutListings.pendingCounts = x.pendingCounts := rfl
  have hfilter : ∀ among : UInt64 → Bool,
      (x.withoutListings.pending.filter fun p => among p.1) =
        (x.pending.filter fun p => among p.1).map fun p => (p.1, p.2.withoutListing) := by
    intro among
    refine Array.ext' ?_
    simp only [withoutListings, Array.toList_filter, Array.toList_map, List.filter_map]
    rfl
  unfold takePending
  rw [hcounts, hfilter (fun key => decide (key ≠ id)), hfilter (fun key => decide (key = id))]
  split
  · rfl
  · simp only [Array.map_map, Array.toList_map, List.map_map]
    rfl

/-- A task as it is filed, as far as it is not a matter of its listing. -/
theorem completed_withoutListings (t : Task) :
    (x.withoutListings.completed t.withoutListing).withoutListing =
      (x.completed t).withoutListing := by
  have hid : t.withoutListing.compileId = t.compileId := rfl
  unfold completed
  rw [takePending_withoutListings, hid]
  exact Task.withoutListing_foldl_addRemark _
    (Task.withoutListing_withoutListing { t with pass := x.pass })

/-- The history that a task joins. -/
theorem historyFor_withoutListings {t t' : Task} (h : t'.method = t.method) :
    x.withoutListings.historyFor t' = (x.historyFor t).withoutListings := by
  have hfound := x.histories_get?_withoutListings t.method
  unfold historyFor Archive.historyOf?
  rw [h, hfound]
  cases x.histories.get? t.method <;> rfl

/-- A history that is put back. -/
theorem withoutListings_putHistory (key : Method) (h : MethodHistory) :
    (x.putHistory key h).withoutListings = x.withoutListings.putHistory key h.withoutListings := by
  unfold putHistory withoutListings Archive.withoutListings
  simp only [KeyMap.map_insert]

/-- Dropping the listings twice is dropping them once. -/
theorem withoutListings_withoutListings :
    x.withoutListings.withoutListings = x.withoutListings := by
  have hhistories : (x.histories.map fun _ h => h.withoutListings).map
      (fun _ h => h.withoutListings) = x.histories.map fun _ h => h.withoutListings := by
    refine KeyMap.ext_get? fun key => ?_
    rw [KeyMap.get?_map, KeyMap.get?_map]
    cases x.histories.get? key with
    | none => rfl
    | some h => exact congrArg some h.withoutListings_withoutListings
  have hpending : (x.pending.map fun p => (p.1, p.2.withoutListing)).map
      (fun p => (p.1, p.2.withoutListing)) = x.pending.map fun p => (p.1, p.2.withoutListing) := by
    rw [Array.map_map]
    refine Array.map_congr_left fun p _ => ?_
    exact congrArg (Prod.mk p.1) p.2.withoutListing_withoutListing
  unfold withoutListings Archive.withoutListings
  simp only [hhistories, hpending]

/-- A task that is filed. -/
theorem recordTask_withoutListings (t : Task) :
    (x.withoutListings.recordTask t.withoutListing).withoutListings =
      (x.recordTask t).withoutListings := by
  -- The task goes into one history, and its number may come to mean it.
  have hfiled : ∀ (x : Index) (t : Task), x.recordTask t =
      (((x.takePending t.compileId).1.putHistory (x.completed t).method
        ((x.historyFor (x.completed t)).insert (x.completed t)
          (x.owners.get? t.compileId).isSome)).withOwners
        (if (x.owners.get? t.compileId).any fun o => o.pass = x.pass then x.owners
          else x.owners.insert t.compileId ⟨x.pass, (x.completed t).method⟩)) := by
    intro x t
    rw [recordTask_eq]
    unfold putHistory withOwners
    rw [(x.sameFiled_takePending t.compileId).histories_eq]
  have hcompleted := x.completed_withoutListings t
  have hmethod : (x.withoutListings.completed t.withoutListing).method =
      (x.completed t).method := by
    have hboth := congrArg Task.method hcompleted
    exact hboth
  have hid : t.withoutListing.compileId = t.compileId := rfl
  have howners : x.withoutListings.owners = x.owners := rfl
  have hpass : x.withoutListings.pass = x.pass := rfl
  have hput : ∀ (y : Index) owners, (y.withOwners owners).withoutListings =
      y.withoutListings.withOwners owners := fun _ _ => rfl
  rw [hfiled, hfiled, hput, hput, withoutListings_putHistory, withoutListings_putHistory, hid,
    takePending_withoutListings, x.historyFor_withoutListings hmethod, hmethod, howners, hpass,
    withoutListings_withoutListings, ← MethodHistory.insert_withoutListings,
    ← MethodHistory.insert_withoutListings, MethodHistory.withoutListings_withoutListings,
    hcompleted]

/-- What a number means in this reading, with the history that holds its task. -/
theorem heldNow?_withoutListings (id : UInt64) :
    x.withoutListings.heldNow? id =
      (x.heldNow? id).map fun held => (held.1, held.2.withoutListings) := by
  have howners : x.withoutListings.owners = x.owners := rfl
  have hpass : x.withoutListings.pass = x.pass := rfl
  unfold heldNow?
  rw [howners, hpass]
  cases x.owners.get? id with
  | none => rfl
  | some o =>
    simp only [Option.bind_some, histories_get?_withoutListings]
    split
    · rw [Option.map_map, Option.map_map]
      rfl
    · rfl

/-- An event that is filed. -/
theorem recordDeopt_withoutListings (d : Deopt) :
    x.withoutListings.recordDeopt d = (x.recordDeopt d).withoutListings := by
  rw [recordDeopt_eq, recordDeopt_eq, heldNow?_withoutListings]
  cases x.heldNow? d.compileId with
  | none => exact x.hold_withoutListings d.compileId (.deopt d)
  | some held =>
    simp only [Option.map_some]
    rw [withoutListings_putHistory, ← MethodHistory.bindDeopt_withoutListings]
    rfl

/-- Installed code or a listing that is filed. -/
theorem recordRemark_withoutListings (id : UInt64) (r : Remark) :
    (x.withoutListings.recordRemark id r.withoutListing).withoutListings =
      (x.recordRemark id r).withoutListings := by
  have hheld : (x.withoutListings.hold id r.withoutListing).withoutListings =
      (x.hold id r).withoutListings := by
    rw [hold_withoutListings, withoutListings_withoutListings]
  rw [recordRemark_eq, recordRemark_eq, heldNow?_withoutListings]
  cases x.heldNow? id with
  | none => exact hheld
  | some held =>
    obtain ⟨o, h⟩ := held
    -- The task is told from others by its number and its reading alone.
    have hknown : (h.withoutListings.taskIn? id x.withoutListings.pass).isSome =
        (h.taskIn? id x.pass).isSome := by
      unfold MethodHistory.taskIn? MethodHistory.withoutListings
      rw [List.find?_map, Option.isSome_map]
      rfl
    have hmodified := h.modifyTask_withoutListings id x.pass (f := fun t => t.addRemark r)
      (g := fun t => t.addRemark r.withoutListing) fun t => t.withoutListing_addRemark r
    simp only [Option.map_some, hknown]
    split
    · rw [withoutListings_putHistory, withoutListings_putHistory, withoutListings_withoutListings]
      exact congrArg (x.withoutListings.putHistory o.method) hmodified
    · exact hheld

/-- Something that a log yields and that is filed. -/
theorem record_withoutListings (item : Item) :
    (x.withoutListings.record item.withoutListing).withoutListings =
      (x.record item).withoutListings := by
  cases item with
  | task t => exact x.recordTask_withoutListings t
  | deopt d =>
    have hrecorded := x.recordDeopt_withoutListings d
    simp only [record, Item.withoutListing, hrecorded, withoutListings_withoutListings]
  | lateNative id n => exact x.recordRemark_withoutListings id (.native n)
  | lateListing id l => exact x.recordRemark_withoutListings id (.listing l)
  | orphanListing l => exact withoutListings_withoutListings (x.recordOrphanListing l)
  | codeCache sample => exact withoutListings_withoutListings (x.recordCodeCache sample)

end Index

variable {x y : Index}

/-- Whatever logs yield, indexes that agree but for listings agree but for listings once both file
it, also if one is given it without listings. By induction on what is yielded. -/
theorem Index.withoutListings_foldl_record (h : y.withoutListings = x.withoutListings)
    (items : List Item) :
    ((items.map Item.withoutListing).foldl record y).withoutListings =
      (items.foldl record x).withoutListings := by
  induction items generalizing x y with
  | nil => exact h
  | cons item rest ih =>
    refine ih ?_
    rw [← y.record_withoutListings, ← x.record_withoutListings, h,
      Item.withoutListing_withoutListing]

/-- What is known of the virtual machine. -/
theorem Index.withoutListings_recordHeader (x : Index) (header : LogHeader) :
    (x.recordHeader header).withoutListings = x.withoutListings.recordHeader header := by
  unfold recordHeader
  rw [apply_ite withoutListings]
  rfl

/-- The archive once writing ends. -/
theorem Index.withoutListings_freeze (x : Index) :
    x.freeze.withoutListings = x.withoutListings.freeze := by
  have horphan : ∀ (pending : List (UInt64 × Remark)) (a : Archive),
      (pending.foldl (fun a p => a.addOrphan p.2) a).withoutListings =
        (pending.map fun p => (p.1, p.2.withoutListing)).foldl (fun a p => a.addOrphan p.2)
          a.withoutListings := by
    intro pending a
    induction pending generalizing a with
    | nil => rfl
    | cons p rest ih =>
      have hfirst : (a.addOrphan p.2).withoutListings =
          a.withoutListings.addOrphan p.2.withoutListing := by
        cases p.2 <;> rfl
      rw [List.foldl_cons, List.map_cons, List.foldl_cons, ih, hfirst]
  unfold freeze
  rw [← Array.foldl_toList, ← Array.foldl_toList, horphan]
  simp only [withoutListings, Array.toList_map]

end CompileLog
