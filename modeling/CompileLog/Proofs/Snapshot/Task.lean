import CompileLog.Proofs.Snapshot.Code
import CompileLog.Snapshot.Task

/-!
# Stored tasks are kept

Tasks and all that belongs to them are read back from what is written for them. Positions of call
sites, their depths and the numbers of readings are stored with 32 bits; a task is kept if its own
fit.
-/

namespace CompileLog

/-- The positions and the depth of a call site fit the stored form. -/
structure InlineNode.Fits (n : InlineNode) : Prop where
  id : n.id < UInt32.size
  parent : ∀ p ∈ n.parent, p < UInt32.size
  children : ∀ c ∈ n.children, c < UInt32.size
  depth : n.depth < UInt32.size

/-- The positions and depths of all call sites fit the stored form. -/
structure InlineTree.Fits (t : InlineTree) : Prop where
  topLevel : ∀ id ∈ t.topLevel, id < UInt32.size
  nodes : ∀ n ∈ t.nodes, n.Fits

/-- The position of the call site that a flag tells of, if it does. -/
def TaskFlag.node? : TaskFlag → Option Nat
  | .structurallyInconsistent node _ _ => some node
  | _ => none

/-- The position in a flag fits the stored form. -/
def TaskFlag.Fits (f : TaskFlag) : Prop := ∀ node ∈ f.node?, node < UInt32.size

/-- The positions in a task and the number of its reading fit the stored form. -/
structure Task.Fits (t : Task) : Prop where
  tree : t.tree.Fits
  flags : ∀ f ∈ t.flags, f.Fits
  pass : t.pass < UInt32.size

namespace Snapshot

open Json

/-! ### Lossless types -/

instance : Lossless Decision where
  kept d := by cases d <;> exact .of_name rfl rfl

instance : Lossless TaskState where
  kept s := by cases s <;> exact .of_name rfl rfl

instance : Lossless Outcome where
  kept o := by
    cases o with
    | failed reason =>
      exact .of_caseFields rfl (fun _ => rfl) rfl (by decide) (by simp) (by simp)
    | _ => exact .of_name rfl rfl

instance : Lossless CompileKind where
  kept k := by
    cases k with
    | osr bci => exact .of_caseFields rfl (fun _ => rfl) rfl (by decide) (by simp) (by simp)
    | _ => exact .of_name rfl rfl

instance : Lossless Hotness where
  kept h := .of_fields rfl (fun _ => rfl) rfl (by decide) (by simp) (by simp)

instance : Lossless Phase where
  kept p := .of_fields rfl (fun _ => rfl) rfl (by decide) (by simp) (by simp [Fields.need])

instance : Lossless PlantedTrap where
  kept t := .of_fields rfl (fun _ => rfl) rfl (by decide) (by simp) (by simp [Fields.need])

instance : Lossless Frame where
  kept a := .of_fields rfl (fun _ => rfl) rfl (by decide) (by simp) (by simp [Fields.need])

instance : Lossless RemovedAllocation where
  kept a := .of_fields rfl (fun _ => rfl) rfl (by decide) (by simp) (by simp [Fields.need])

instance : Lossless LockOp where
  kept o := by cases o <;> exact .of_name rfl rfl

instance : Lossless RemovedLock where
  kept l := .of_fields rfl (fun _ => rfl) rfl (by decide) (by simp) (by simp [Fields.need])

instance : Lossless HotThrow where
  kept t := .of_fields rfl (fun _ => rfl) rfl (by decide) (by simp) (by simp [Fields.need])

instance : Lossless DeoptKind where
  kept k := by cases k <;> exact .of_name rfl rfl

instance : Lossless Deopt where
  kept d := .of_fields rfl (fun _ => rfl) rfl (by decide) (by simp) (by simp [Fields.need])

instance : Lossless CodeCacheSample where
  kept s := .of_fields rfl (fun _ => rfl) rfl (by decide) (by simp) (by simp [Fields.need])

instance : Lossless LogHeader where
  kept h := .of_fields rfl (fun _ => rfl) rfl (by decide) (by simp) (by simp [Fields.need])

/-! ### Positions -/

/-- A number that fits is read as it. -/
theorem small?_natural {n : Nat} (h : n < UInt32.size) : small? (.natural n) = some n :=
  natBelow?_natural h

/-- Numbers can be read back as a text. -/
@[simp] theorem plain_list_natural (ns : List Nat) : (Value.list .natural ns).Plain := by
  refine .array fun v hv => ?_
  obtain ⟨n, _, rfl⟩ := List.mem_map.mp hv
  exact plain_natural n

/-- A call site whose positions fit is kept. -/
theorem kept_inlineNode {n : InlineNode} (h : n.Fits) : Kept n := by
  have hparent : ∀ rest, Fields.maybeAs ⟨("parent", .optional .natural n.parent) :: rest, false⟩
      "parent" small? = some n.parent := fun rest => Fields.maybeAs_cons_natural h.parent
  have hchildren := mapM_map fun c hc => small?_natural (h.children c hc)
  refine .of_fields rfl (fun _ => rfl) rfl (by decide) (by simp) ?_
  simp [Fields.need, small?_natural h.id, small?_natural h.depth, hparent, Value.list, hchildren]

/-- A tree whose positions fit is kept. -/
theorem kept_inlineTree {t : InlineTree} (h : t.Fits) : Kept t := by
  have htopLevel := mapM_map fun id hid => small?_natural (h.topLevel id hid)
  have hnodes : Kept t.nodes.toList :=
    .list fun n hn => kept_inlineNode (h.nodes n (Array.mem_toList_iff.mp hn))
  refine .of_fields rfl (fun _ => rfl) rfl (by decide) (by simp [hnodes.plain]) ?_
  simp [Fields.need, Value.list, htopLevel, hnodes.read?_write]

/-- A flag whose position fits is kept. -/
theorem kept_taskFlag {f : TaskFlag} (h : f.Fits) : Kept f := by
  cases f with
  | structurallyInconsistent node bci callerSize =>
    refine .of_caseFields rfl (fun _ => rfl) rfl (by decide) (by simp) ?_
    simp [Fields.need, small?_natural (h node rfl)]
  | unreadAttribute tag attr raw =>
    exact .of_caseFields rfl (fun _ => rfl) rfl (by decide) (by simp) (by simp [Fields.need])
  | oversizedListing span =>
    exact .of_caseFields rfl (fun _ => rfl) rfl (by decide) (by simp) (by simp [Fields.need])
  | _ => exact .of_name rfl rfl

/-- A task whose positions fit is kept. -/
theorem kept_task {t : Task} (h : t.Fits) : Kept t := by
  have htree := kept_inlineTree h.tree
  have hflags : Kept t.flags := .list fun f hf => kept_taskFlag (h.flags f hf)
  refine .of_fields rfl (fun _ => rfl) rfl (by decide) (by simp [htree.plain, hflags.plain]) ?_
  simp [Fields.need, Fields.orElse, htree.read?_write, hflags.read?_write, small?_natural h.pass]

end Snapshot

end CompileLog
