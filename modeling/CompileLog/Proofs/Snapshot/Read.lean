import CompileLog.Proofs.Snapshot.Archive
import Mathlib.Tactic.SplitIfs

/-!
# Which snapshots are read

A number that is read for a position, a depth or a count is below the bound of the stored form. So
the snapshots that are read from some bytes are those of the current version whose numbers fit the
stored form. Nothing else is asked of them; above all, the links of the trees may be any.
-/

namespace CompileLog

namespace Json

variable {α : Type} {P : α → Prop} {read : Value → Option α}

/-- A reader gives only values of a kind. -/
def GivesOnly (P : α → Prop) (read : Value → Option α) : Prop := ∀ v a, read v = some a → P a

/-- A number that is read below a bound is below it. -/
theorem givesOnly_natBelow? (bound : Nat) : GivesOnly (· < bound) (natBelow? bound) := by
  intro v n h
  unfold natBelow? at h
  split at h
  · split_ifs at h with hrange
    obtain rfl := Option.some.inj h
    omega
  · cases h

namespace GivesOnly

/-- What is read of an array is what is read of its elements. By induction on them. -/
theorem mapM (hread : GivesOnly P read) {vs : List Value} {as : List α}
    (h : vs.mapM read = some as) : ∀ a ∈ as, P a := by
  induction vs generalizing as with
  | nil =>
    cases h
    intro a ha
    cases ha
  | cons v rest ih =>
    rw [List.mapM_cons] at h
    obtain ⟨a, ha, h⟩ := Option.bind_eq_some_iff.mp h
    obtain ⟨as', has', h⟩ := Option.bind_eq_some_iff.mp h
    obtain rfl := Option.some.inj h
    exact List.forall_mem_cons.mpr ⟨hread v a ha, ih has'⟩

/-- A list is read from an array. -/
theorem list [Stored α] (hread : GivesOnly P read?) :
    GivesOnly (fun as : List α => ∀ a ∈ as, P a) read? := by
  intro v as h
  cases v with
  | array vs => exact hread.mapM h
  | _ => cases h

variable {f : Fields} {name : String} {a : α}

/-- A field that must be there has been read. -/
theorem needAs (hread : GivesOnly P read) (h : f.needAs name read = some a) : P a := by
  obtain ⟨v, _, hv⟩ := Option.bind_eq_some_iff.mp h
  exact hread v a hv

/-- A field that may be missing or `null` has been read if it is there. -/
theorem maybeAs (hread : GivesOnly P read) {o : Option α} (h : f.maybeAs name read = some o) :
    ∀ a ∈ o, P a := by
  rintro a rfl
  unfold Fields.maybeAs at h
  split at h
  · split_ifs at h
    cases h
  · cases h
  · obtain ⟨a', ha', h⟩ := Option.map_eq_some_iff.mp h
    obtain rfl := Option.some.inj h
    exact hread _ _ ha'

/-- A field that may be missing has been read or is what it is then. -/
theorem orElseAs (hread : GivesOnly P read) {absent : α} (habsent : P absent)
    (h : f.orElseAs name absent read = some a) : P a := by
  unfold Fields.orElseAs at h
  split at h
  · obtain rfl := Option.some.inj h
    exact habsent
  · exact hread _ _ h

end GivesOnly

/-- A case that holds nothing is read as it. -/
theorem eq_of_bare {a b : α} {held : Option Value} (h : bare a held = some b) : b = a := by
  unfold bare at h
  split at h
  · exact (Option.some.inj h).symm
  · exact (Option.some.inj h).symm
  · cases h

/-- A case that holds named fields is read from such. -/
theorem exists_fields_of_withFields {names : List String} {build : Fields → Option α}
    {held : Option Value} {a : α} (h : withFields names build held = some a) :
    ∃ f, build f = some a := by
  cases held with
  | none => cases h
  | some v =>
    obtain ⟨f, _, hf⟩ := Option.bind_eq_some_iff.mp h
    exact ⟨f, hf⟩

end Json

namespace Snapshot

open Json

/-- A position, a depth or the number of a reading fits. -/
theorem givesOnly_small? : GivesOnly (· < UInt32.size) small? := givesOnly_natBelow? _

/-- Positions that are read fit. -/
theorem givesOnly_positions : GivesOnly (fun ns => ∀ n ∈ ns, n < UInt32.size) fun
    | .array vs => vs.mapM small?
    | _ => none := by
  intro v ns h
  cases v with
  | array vs => exact givesOnly_small?.mapM h
  | _ => cases h

/-- The positions and the depth of a call site that is read fit. -/
theorem givesOnly_inlineNode : GivesOnly InlineNode.Fits read? := by
  intro v n h
  obtain ⟨f, _, h⟩ := Option.bind_eq_some_iff.mp h
  obtain ⟨id, hid, h⟩ := Option.bind_eq_some_iff.mp h
  obtain ⟨parent, hparent, h⟩ := Option.bind_eq_some_iff.mp h
  obtain ⟨children, hchildren, h⟩ := Option.bind_eq_some_iff.mp h
  -- Seven fields tell what is known of the site.
  iterate 7 obtain ⟨_, _, h⟩ := Option.bind_eq_some_iff.mp h
  obtain ⟨depth, hdepth, h⟩ := Option.bind_eq_some_iff.mp h
  obtain rfl := Option.some.inj h
  exact ⟨givesOnly_small?.needAs hid, givesOnly_small?.maybeAs hparent,
    givesOnly_positions.needAs hchildren, givesOnly_small?.needAs hdepth⟩

/-- The positions and depths in a tree that is read fit. -/
theorem givesOnly_inlineTree : GivesOnly InlineTree.Fits read? := by
  intro v t h
  obtain ⟨f, _, h⟩ := Option.bind_eq_some_iff.mp h
  obtain ⟨topLevel, htopLevel, h⟩ := Option.bind_eq_some_iff.mp h
  obtain ⟨nodes, hnodes, h⟩ := Option.bind_eq_some_iff.mp h
  iterate 2 obtain ⟨_, _, h⟩ := Option.bind_eq_some_iff.mp h
  obtain rfl := Option.some.inj h
  exact ⟨givesOnly_positions.needAs htopLevel, fun n hn =>
    givesOnly_inlineNode.list.needAs hnodes n (List.mem_toArray.mp hn)⟩

/-- A flag without a position fits. -/
theorem fits_of_node?_eq_none {flag : TaskFlag} (h : flag.node? = none) : flag.Fits := by
  intro node hnode
  rw [h] at hnode
  cases hnode

/-- The position in a flag that is read fits. -/
theorem givesOnly_taskFlag : GivesOnly TaskFlag.Fits read? := by
  intro v flag h
  obtain ⟨⟨name, held⟩, _, h⟩ := Option.bind_eq_some_iff.mp h
  dsimp only at h
  -- One goal for each name, in their order, and one for all others.
  split at h
  · exact fits_of_node?_eq_none (eq_of_bare h ▸ rfl)
  · exact fits_of_node?_eq_none (eq_of_bare h ▸ rfl)
  · obtain ⟨f, h⟩ := exists_fields_of_withFields h
    obtain ⟨place, hplace, h⟩ := Option.bind_eq_some_iff.mp h
    iterate 2 obtain ⟨_, _, h⟩ := Option.bind_eq_some_iff.mp h
    obtain rfl := Option.some.inj h
    intro node hnode
    obtain rfl := Option.some.inj hnode
    exact givesOnly_small?.needAs hplace
  · obtain ⟨f, h⟩ := exists_fields_of_withFields h
    iterate 3 obtain ⟨_, _, h⟩ := Option.bind_eq_some_iff.mp h
    obtain rfl := Option.some.inj h
    exact fits_of_node?_eq_none rfl
  · exact fits_of_node?_eq_none (eq_of_bare h ▸ rfl)
  · exact fits_of_node?_eq_none (eq_of_bare h ▸ rfl)
  · exact fits_of_node?_eq_none (eq_of_bare h ▸ rfl)
  · obtain ⟨f, h⟩ := exists_fields_of_withFields h
    obtain ⟨span, _, rfl⟩ := Option.map_eq_some_iff.mp h
    exact fits_of_node?_eq_none rfl
  · cases h

/-- The numbers of a task that is read fit. -/
theorem givesOnly_task : GivesOnly Task.Fits read? := by
  intro v t h
  obtain ⟨f, _, h⟩ := Option.bind_eq_some_iff.mp h
  -- Fifteen fields stand before the tree, seven between it and the flags.
  iterate 15 obtain ⟨_, _, h⟩ := Option.bind_eq_some_iff.mp h
  obtain ⟨tree, htree, h⟩ := Option.bind_eq_some_iff.mp h
  iterate 7 obtain ⟨_, _, h⟩ := Option.bind_eq_some_iff.mp h
  obtain ⟨flags, hflags, h⟩ := Option.bind_eq_some_iff.mp h
  obtain ⟨pass, hpass, h⟩ := Option.bind_eq_some_iff.mp h
  obtain rfl := Option.some.inj h
  exact ⟨givesOnly_inlineTree.needAs htree, givesOnly_taskFlag.list.needAs hflags,
    givesOnly_small?.orElseAs (by decide) hpass⟩

/-- The numbers of a history that is read fit. -/
theorem givesOnly_history : GivesOnly MethodHistory.Fits read? := by
  intro v h hread
  obtain ⟨f, _, hread⟩ := Option.bind_eq_some_iff.mp hread
  obtain ⟨method, _, hread⟩ := Option.bind_eq_some_iff.mp hread
  obtain ⟨tasks, htasks, hread⟩ := Option.bind_eq_some_iff.mp hread
  obtain ⟨current, hcurrent, hread⟩ := Option.bind_eq_some_iff.mp hread
  obtain ⟨flags, _, hread⟩ := Option.bind_eq_some_iff.mp hread
  obtain rfl := Option.some.inj hread
  exact ⟨givesOnly_task.list.needAs htasks, (givesOnly_natBelow? _).maybeAs hcurrent⟩

/-- The numbers of a snapshot that is read fit. -/
theorem givesOnly_snapshot : GivesOnly Fits read? := by
  intro v s h
  obtain ⟨f, _, h⟩ := Option.bind_eq_some_iff.mp h
  obtain ⟨version, _, h⟩ := Option.bind_eq_some_iff.mp h
  obtain ⟨histories, hhistories, h⟩ := Option.bind_eq_some_iff.mp h
  iterate 3 obtain ⟨_, _, h⟩ := Option.bind_eq_some_iff.mp h
  obtain ⟨dropped, hdropped, h⟩ := Option.bind_eq_some_iff.mp h
  obtain ⟨listings, _, h⟩ := Option.bind_eq_some_iff.mp h
  obtain rfl := Option.some.inj h
  exact ⟨givesOnly_history.list.needAs hhistories,
    (givesOnly_natBelow? _).orElseAs (by decide) hdropped⟩

/-! ### What is read -/

/-- The snapshots that are read from some bytes are those of the current version whose numbers fit
the stored form. -/
theorem exists_read_iff {s : Snapshot} :
    (∃ bytes, read bytes = .ok s) ↔ s.version = currentVersion ∧ s.Fits := by
  refine ⟨?_, fun ⟨hversion, hfits⟩ => ⟨s.bytes, read_bytes hversion hfits⟩⟩
  rintro ⟨bytes, h⟩
  unfold Snapshot.read at h
  split at h
  · cases h
  next found hfound =>
    obtain ⟨v, _, hv⟩ := Option.bind_eq_some_iff.mp hfound
    split_ifs at h with hversion
    obtain rfl := Except.ok.inj h
    exact ⟨hversion, givesOnly_snapshot v found hv⟩

/-! ### Any tree -/

/-- A finished task with this tree. -/
def soleTask (tree : InlineTree) : Task :=
  { Task.new 7 tree.rootMethod with state := .closed, tree }

/-- A snapshot of this task alone. -/
def holding (tree : InlineTree) : Snapshot :=
  ⟨currentVersion, [⟨tree.rootMethod, [soleTask tree], none, []⟩], [], [], [], 0, []⟩

/-- It is read, whatever the links of the tree. -/
theorem read_holding {tree : InlineTree} (h : tree.Fits) :
    read (holding tree).bytes = .ok (holding tree) := by
  have hzero : 0 < UInt32.size ∧ 0 < UInt64.size := by decide
  refine read_bytes rfl ⟨fun m hm => ?_, hzero.2⟩
  obtain rfl := List.mem_singleton.mp hm
  refine ⟨fun t ht => ?_, by simp⟩
  obtain rfl := List.mem_singleton.mp ht
  exact ⟨h, fun f hf => absurd hf List.not_mem_nil, hzero.1⟩

end Snapshot

end CompileLog
