import CompileLog.Proofs.History.Pending
import CompileLog.Proofs.History.Tasks

/-!
# How much numbers matter

Of what an index knows about numbers, filing asks only two things: whether a number was used before,
and what it means in the running reading. Where a reading begins, no number means anything in it yet.
So two indexes that differ only in what numbers used before mean give the same, whatever further
readings file.
-/

namespace CompileLog

open Collect

/-- The index with other meanings of the numbers. -/
def Index.withOwners (x : Index) (owners : KeyMap UInt64 Owner) : Index :=
  { x with toArchive := { x.toArchive with owners := owners } }

/-- One index is like another: it differs at most in what the numbers used before mean, and these are
the same numbers. Each belongs to a reading that has begun. -/
structure Index.Alike (x y : Index) : Prop where
  /-- All else is the same. -/
  eq_withOwners : y = x.withOwners y.owners
  /-- The same numbers were used. -/
  used : ∀ id, (y.owners.get? id).isSome = (x.owners.get? id).isSome
  /-- The numbers of the first belong to readings that have begun. -/
  begun : ∀ id o, x.owners.get? id = some o → o.pass ≤ x.pass
  /-- And so do those of the other. -/
  begun' : ∀ id o, y.owners.get? id = some o → o.pass ≤ x.pass

/-- One index is like another, and the numbers of the running reading mean the same in it. -/
structure Index.InStep (x y : Index) : Prop extends Index.Alike x y where
  /-- Numbers mean the same in the running reading. -/
  now : ∀ id o, o.pass = x.pass → (y.owners.get? id = some o ↔ x.owners.get? id = some o)

namespace Index

variable {x y : Index}

/-! ### What does not look at numbers -/

/-- Giving up a remark does not look at the numbers. -/
theorem giveUp_withOwners (x : Index) (owners : KeyMap UInt64 Owner) (r : Remark) :
    (x.withOwners owners).giveUp r = (x.giveUp r).withOwners owners := by
  unfold giveUp
  split <;> rfl

/-- Dropping the oldest remark does not look at the numbers. -/
theorem dropOldest_withOwners (x : Index) (owners : KeyMap UInt64 Owner) :
    (x.withOwners owners).dropOldest = x.dropOldest.withOwners owners := by
  cases hpending : x.pending.toList with
  | nil =>
    have hpending' : (x.withOwners owners).pending.toList = [] := hpending
    rw [dropOldest_of_nil hpending, dropOldest_of_nil hpending']
  | cons oldest rest =>
    have hpending' : (x.withOwners owners).pending.toList = oldest :: rest := hpending
    rw [dropOldest_of_cons hpending, dropOldest_of_cons hpending', ← giveUp_withOwners]
    rfl

/-- Holding a remark does not look at the numbers. -/
theorem hold_withOwners (x : Index) (owners : KeyMap UInt64 Owner) (id : UInt64) (r : Remark) :
    (x.withOwners owners).hold id r = (x.hold id r).withOwners owners := by
  have hcapacity : (x.withOwners owners).capacity = x.capacity := rfl
  have hpending : (x.withOwners owners).pending = x.pending := rfl
  unfold hold
  rw [hcapacity, hpending, dropOldest_withOwners, giveUp_withOwners]
  split
  · rfl
  · split <;> rfl

/-- Taking out what waits does not look at the numbers. -/
theorem takePending_withOwners (x : Index) (owners : KeyMap UInt64 Owner) (id : UInt64) :
    (x.withOwners owners).takePending id =
      ((x.takePending id).1.withOwners owners, (x.takePending id).2) := by
  have hcounts : (x.withOwners owners).pendingCounts = x.pendingCounts := rfl
  unfold takePending
  rw [hcounts]
  split <;> rfl

/-- A task is completed without a look at the numbers. -/
theorem completed_withOwners (x : Index) (owners : KeyMap UInt64 Owner) (t : Task) :
    (x.withOwners owners).completed t = x.completed t := by
  unfold completed
  rw [takePending_withOwners]
  rfl

/-- Ending writing does not look at the numbers. -/
theorem freeze_withOwners (x : Index) (owners : KeyMap UInt64 Owner) :
    (x.withOwners owners).freeze = { x.freeze with owners := owners } := by
  have horphan : ∀ (pending : List (UInt64 × Remark)) (a : Archive),
      pending.foldl (fun a p => a.addOrphan p.2) { a with owners := owners } =
        { pending.foldl (fun a p => a.addOrphan p.2) a with owners := owners } := by
    intro pending a
    induction pending generalizing a with
    | nil => rfl
    | cons p rest ih =>
      have hfirst : Archive.addOrphan { a with owners := owners } p.2 =
          { a.addOrphan p.2 with owners := owners } := by
        cases p.2 <;> rfl
      rw [List.foldl_cons, List.foldl_cons, hfirst, ih]
  unfold freeze
  rw [← Array.foldl_toList, ← Array.foldl_toList]
  exact horphan x.pending.toList x.toArchive

/-- Indexes that are alike give the same archive. -/
theorem Alike.same_freeze (h : x.Alike y) : y.freeze.Same x.freeze := by
  rw [h.eq_withOwners, freeze_withOwners]
  exact ⟨rfl, rfl, rfl, rfl, rfl, rfl⟩

/-- Indexes that are alike have the same histories. -/
theorem Alike.histories_eq (h : x.Alike y) : y.histories = x.histories := by
  rw [h.eq_withOwners]
  rfl

/-- Indexes that are alike are in the same reading. -/
theorem Alike.pass_eq (h : x.Alike y) : y.pass = x.pass := by
  rw [h.eq_withOwners]
  rfl

/-! ### A reading begins -/

/-- Once a reading begins, no number means anything in it, whatever the numbers meant before. -/
theorem Alike.beginPass (h : x.Alike y) : x.beginPass.InStep y.beginPass where
  eq_withOwners := by
    have heq := congrArg Index.beginPass h.eq_withOwners
    exact heq
  used := h.used
  begun id o ho := Nat.le_succ_of_le (h.begun id o ho)
  begun' id o ho := Nat.le_succ_of_le (h.begun' id o ho)
  now id o hpass := by
    have hlater : o.pass = x.pass + 1 := hpass
    constructor
    · intro ho
      have hle := h.begun' id o ho
      omega
    · intro ho
      have hle := h.begun id o ho
      omega

/-! ### Filing -/

/-- What a number means in this reading is the same. -/
theorem InStep.heldNow?_eq (h : x.InStep y) (id : UInt64) : y.heldNow? id = x.heldNow? id := by
  ext ⟨o, m⟩
  rw [heldNow?_eq_some_iff, heldNow?_eq_some_iff, h.pass_eq, h.histories_eq]
  constructor
  · rintro ⟨ho, hnow, hm⟩
    exact ⟨(h.now id o hnow).mp ho, hnow, hm⟩
  · rintro ⟨ho, hnow, hm⟩
    exact ⟨(h.now id o hnow).mpr ho, hnow, hm⟩

/-- What leaves the numbers alone, and does not look at them, keeps two indexes in step. -/
theorem InStep.of_withOwners (h : x.InStep y) {f : Index → Index}
    (howners : ∀ z, (f z).owners = z.owners) (hpass : ∀ z, (f z).pass = z.pass)
    (hf : ∀ z owners, f (z.withOwners owners) = (f z).withOwners owners) :
    (f x).InStep (f y) where
  eq_withOwners := by
    have heq := congrArg f h.eq_withOwners
    rwa [hf, ← howners y] at heq
  used := by
    rw [howners, howners]
    exact h.used
  begun := by
    rw [howners, hpass]
    exact h.begun
  begun' := by
    rw [howners, hpass]
    exact h.begun'
  now := by
    rw [howners, howners, hpass]
    exact h.now

/-- Putting back a history keeps two indexes in step. -/
theorem InStep.putHistory (h : x.InStep y) (key : Method) (m : MethodHistory) :
    (x.putHistory key m).InStep (y.putHistory key m) :=
  h.of_withOwners (f := fun z => z.putHistory key m) (fun _ => rfl) (fun _ => rfl) fun _ _ => rfl

/-- Holding a remark keeps two indexes in step. -/
theorem InStep.hold (h : x.InStep y) (id : UInt64) (r : Remark) :
    (x.hold id r).InStep (y.hold id r) :=
  h.of_withOwners (fun z => (z.sameFiled_hold id r).owners_eq)
    (fun z => (z.sameFiled_hold id r).pass_eq) fun z owners => z.hold_withOwners owners id r

/-- Filing an event keeps two indexes in step. -/
theorem InStep.recordDeopt (h : x.InStep y) (d : Deopt) :
    (x.recordDeopt d).InStep (y.recordDeopt d) := by
  rw [recordDeopt_eq, recordDeopt_eq, h.heldNow?_eq, h.pass_eq]
  cases x.heldNow? d.compileId with
  | none => exact h.hold _ _
  | some held => exact h.putHistory _ _

/-- Filing installed code or a listing keeps two indexes in step. -/
theorem InStep.recordRemark (h : x.InStep y) (id : UInt64) (r : Remark) :
    (x.recordRemark id r).InStep (y.recordRemark id r) := by
  rw [recordRemark_eq, recordRemark_eq, h.heldNow?_eq, h.pass_eq]
  cases x.heldNow? id with
  | none => exact h.hold _ _
  | some held =>
    simp only
    split
    · exact h.putHistory _ _
    · exact h.hold _ _

/-- A number means something in this reading for both indexes or for none. -/
theorem InStep.any_owners (h : x.InStep y) (id : UInt64) :
    ((y.owners.get? id).any fun o => o.pass = x.pass) =
      (x.owners.get? id).any fun o => o.pass = x.pass := by
  rw [Bool.eq_iff_iff, Option.any_eq_true, Option.any_eq_true]
  constructor
  · rintro ⟨o, ho, hnow⟩
    exact ⟨o, (h.now id o (of_decide_eq_true hnow)).mp ho, hnow⟩
  · rintro ⟨o, ho, hnow⟩
    exact ⟨o, (h.now id o (of_decide_eq_true hnow)).mpr ho, hnow⟩

/-- Filing a task keeps two indexes in step. -/
theorem InStep.recordTask (h : x.InStep y) (t : Task) :
    (x.recordTask t).InStep (y.recordTask t) := by
  have htask : y.completed t = x.completed t := by
    rw [h.eq_withOwners, completed_withOwners]
  have hrest : y.recordTask t = (x.recordTask t).withOwners (y.recordTask t).owners := by
    have hmoved : y.takePending t.compileId =
        ((x.takePending t.compileId).1.withOwners y.owners, (x.takePending t.compileId).2) := by
      rw [← takePending_withOwners, ← h.eq_withOwners]
    have hjoined : y.historyFor (x.completed t) = x.historyFor (x.completed t) := by
      unfold historyFor Archive.historyOf?
      rw [h.histories_eq]
    rw [x.recordTask_eq t, y.recordTask_eq t, htask, hmoved, h.histories_eq, hjoined, h.used]
    rfl
  have howners : (x.recordTask t).owners =
      if (x.owners.get? t.compileId).any fun o => o.pass = x.pass then x.owners
      else x.owners.insert t.compileId ⟨x.pass, (x.completed t).method⟩ := by
    rw [x.recordTask_eq t]
  have howners' : (y.recordTask t).owners =
      if (x.owners.get? t.compileId).any fun o => o.pass = x.pass then y.owners
      else y.owners.insert t.compileId ⟨x.pass, (x.completed t).method⟩ := by
    rw [y.recordTask_eq t, htask, h.pass_eq, ← h.any_owners]
  have hpass' := x.pass_recordTask t
  split_ifs at howners howners' with hnow
  · refine ⟨⟨hrest, ?_, ?_, ?_⟩, ?_⟩
    · rw [howners, howners']
      exact h.used
    · rw [howners, hpass']
      exact h.begun
    · rw [howners', hpass']
      exact h.begun'
    · rw [howners, howners', hpass']
      exact h.now
  · refine ⟨⟨hrest, ?_, ?_, ?_⟩, ?_⟩
    · intro id
      rw [howners, howners', KeyMap.get?_insert, KeyMap.get?_insert]
      split
      · rfl
      · exact h.used id
    · intro id o ho
      rw [howners, KeyMap.get?_insert] at ho
      rw [hpass']
      split_ifs at ho
      · obtain rfl := Option.some.inj ho
        exact Nat.le_refl _
      · exact h.begun id o ho
    · intro id o ho
      rw [howners', KeyMap.get?_insert] at ho
      rw [hpass']
      split_ifs at ho
      · obtain rfl := Option.some.inj ho
        exact Nat.le_refl _
      · exact h.begun' id o ho
    · intro id o hown
      rw [hpass'] at hown
      rw [howners, howners', KeyMap.get?_insert, KeyMap.get?_insert]
      split
      · rfl
      · exact h.now id o hown

/-- Filing what a log yields keeps two indexes in step. -/
theorem InStep.record (h : x.InStep y) (item : Item) : (x.record item).InStep (y.record item) := by
  cases item with
  | task t => exact h.recordTask t
  | deopt d => exact h.recordDeopt d
  | lateNative id n => exact h.recordRemark id _
  | lateListing id l => exact h.recordRemark id _
  | orphanListing l =>
    exact h.of_withOwners (f := fun z => z.recordOrphanListing l) (fun _ => rfl) (fun _ => rfl)
      fun _ _ => rfl
  | codeCache sample =>
    exact h.of_withOwners (f := fun z => z.recordCodeCache sample) (fun _ => rfl) (fun _ => rfl)
      fun _ _ => rfl

/-- Filing all that a log yields keeps two indexes in step. By induction on what it yields. -/
theorem InStep.foldl_record (h : x.InStep y) (items : List Item) :
    (items.foldl Index.record x).InStep (items.foldl Index.record y) := by
  induction items generalizing x y with
  | nil => exact h
  | cons item rest ih => exact ih (h.record item)

/-- A header keeps two indexes in step. -/
theorem InStep.recordHeader (h : x.InStep y) (header : LogHeader) :
    (x.recordHeader header).InStep (y.recordHeader header) := by
  refine h.of_withOwners (f := fun z => z.recordHeader header)
    (fun z => (z.sameFiled_recordHeader header).owners_eq)
    (fun z => (z.sameFiled_recordHeader header).pass_eq) fun z owners => ?_
  unfold Index.recordHeader
  split <;> rfl

end Index

end CompileLog
