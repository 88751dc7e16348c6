import CompileLog.Proofs.InlineTree.Walk
import CompileLog.Proofs.Session.Snapshots
import CompileLog.Proofs.Snapshot.Read

/-!
# The call sites of all tasks

What is found out about the call sites of a task is found on a walk along the links of its tree.
Where the links are those of a forest, the walk ends and meets each call site once. So it is in
every archive that sessions and snapshots give. A snapshot that somebody else wrote is loaded with
the links that it has: a call site that is on none of them is never met, and one that is on several
is met more than once, or again and again where they run in a circle.
-/

namespace CompileLog

open scoped List

namespace InlineTree

variable {t : InlineTree}

/-- What was added to a tree, read off its call sites. -/
def additions (t : InlineTree) : List Addition := t.nodes.toList.map fun n => ⟨n.parent, n.site⟩

/-- An addition is a call site without its links. -/
theorem getElem?_additions (t : InlineTree) (i : Nat) :
    t.additions[i]? = (t.node? i).map fun n => ⟨n.parent, n.site⟩ := by
  unfold additions node?
  rw [List.getElem?_map, Array.getElem?_toList]

namespace Linked

/-- Where the links are those of a forest, what was added was put where it is. -/
theorem placeOf_additions (h : t.Linked) {i : Nat} {n : InlineNode} (hn : t.node? i = some n) :
    placeOf t.additions i = n.parent := by
  unfold placeOf
  rw [getElem?_additions, hn, Option.map_some, Option.bind_some]
  cases hparent : n.parent with
  | none => rfl
  | some p => exact Option.filter_some_pos (decide_eq_true (h.parent_lt hn hparent))

/-- A tree whose links are those of a forest is one that call sites were added to. -/
theorem holds (h : t.Linked) : t.Holds t.additions where
  size_eq := by rw [additions, List.length_map, Array.length_toList]
  node_eq i := by
    rw [getElem?_additions]
    cases hn : t.node? i with
    | none => rfl
    | some n => rw [Option.map_some, Option.map_some, Option.map_some, h.placeOf_additions hn]
  linked := h

/-- A walk along the links of a forest meets each call site once. -/
theorem preorder_perm (h : t.Linked) : t.preorder ~ t.nodes.toList := by
  have hlength : t.additions.length = t.nodes.size := h.holds.size_eq.symm
  have hwalk := h.holds.walksDepthFirst
  have hnodes : t.nodes.toList.map some = (List.range t.additions.length).map t.node? := by
    refine List.ext_getElem (by simp [hlength]) fun i hi _ => ?_
    simp [node?]
  refine (List.map_perm_map_iff (Option.some_injective _)).mp ?_
  rw [hwalk.nodes_eq, hnodes]
  exact hwalk.once.map t.node?

end Linked

end InlineTree

namespace Archive

variable {a : Archive}

/-- The links of every task are those of a forest, whose positions have 32 bits. -/
def WellLinked (a : Archive) : Prop :=
  ∀ t ∈ a.tasks, t.tree.Linked ∧ t.tree.nodes.size < UInt32.size

/-- The walk over a task of such an archive meets each call site once. -/
theorem WellLinked.preorder_perm (h : a.WellLinked) {t : Task} (ht : t ∈ a.tasks) :
    t.tree.preorder ~ t.tree.nodes.toList :=
  (h t ht).1.preorder_perm

/-- It ends. -/
theorem WellLinked.ends (h : a.WellLinked) {t : Task} (ht : t ∈ a.tasks) : t.tree.Ends :=
  (h t ht).1.namedOnce.walksOnce.ends

/-- Every archive that sessions and snapshots give is such an archive, where no task has more call
sites than there are positions. -/
theorem Reachable.wellLinked (h : a.Reachable)
    (hsize : ∀ t ∈ a.tasks, t.tree.nodes.size < UInt32.size) : a.WellLinked :=
  fun t ht => ⟨h.linked ht, hsize t ht⟩

end Archive

/-! ### A call site that is on no link -/

/-- A finished task whose only call site is on no link. -/
def Task.withoutLinks : Task :=
  let method : Method := ⟨"A", "a", "()V"⟩
  let site : CallSite := ⟨⟨"B", "b", "()V"⟩, none, .notInlined, none, none, none, none⟩
  { Task.new 7 method with
    state := .closed
    tree := ⟨method, none, [], #[⟨0, none, [], site, 1⟩]⟩ }

/-- A snapshot of this task alone. -/
def Snapshot.withoutLinks : Snapshot :=
  ⟨currentVersion, [⟨Task.withoutLinks.method, [Task.withoutLinks], none, []⟩], [], [], [], 0, []⟩

/-- It is loaded as it is. -/
theorem Snapshot.read_withoutLinks : read withoutLinks.bytes = .ok withoutLinks := by
  have hsole : withoutLinks = holding Task.withoutLinks.tree := rfl
  rw [hsole]
  refine read_holding ⟨fun i hi => absurd hi List.not_mem_nil, fun n hn => ?_⟩
  obtain rfl := Array.mem_singleton.mp hn
  exact ⟨by decide, by simp, by simp, by decide⟩

end CompileLog
