import CompileLog.Proofs.History.Arising
import CompileLog.Proofs.History.Earlier
import CompileLog.Proofs.History.Inversions
import Mathlib.Data.List.Flatten

/-!
# Numbers used again

A task whose number was used before flags the history that it joins, and that history alone: not
those that hold the earlier tasks. So of all the tasks with one number, at most the first stands in
a history that is not flagged for it, and the flags for a number tell together whether it was used
twice.
-/

namespace CompileLog

/-! ### The uses of a number -/

namespace MethodHistory

/-- How many tasks of a history have a number. -/
def uses (id : UInt64) (h : MethodHistory) : Nat := h.tasks.countP fun t => t.compileId = id

/-- A history is flagged for a number that was used before. -/
def IsFlagged (id : UInt64) (h : MethodHistory) : Prop := .duplicate id ∈ h.flags

instance (id : UInt64) (h : MethodHistory) : Decidable (h.IsFlagged id) :=
  inferInstanceAs (Decidable (.duplicate id ∈ h.flags))

/-- The tasks of a history, if it is not flagged for a number. -/
def unflaggedTasks (id : UInt64) (h : MethodHistory) : List Task :=
  if h.IsFlagged id then [] else h.tasks

/-- A history uses a number where one of its tasks has it. -/
theorem uses_pos_iff {id : UInt64} {h : MethodHistory} :
    0 < h.uses id ↔ ∃ t ∈ h.tasks, t.compileId = id := by
  simp only [uses, List.countP_pos_iff, decide_eq_true_eq]

/-- Uses are counted by the names of the tasks. -/
theorem uses_eq_countP_names (id : UInt64) (h : MethodHistory) :
    h.uses id = h.names.countP fun name => name.1 = id := by
  unfold uses names
  rw [List.countP_map]
  rfl

/-- A task that joins uses its own number and no other. -/
theorem uses_insert (h : MethodHistory) (t : Task) (duplicate : Bool) (id : UInt64) :
    (h.insert t duplicate).uses id = h.uses id + if t.compileId = id then 1 else 0 := by
  unfold uses
  rw [tasks_insert, (List.perm_insertIdx t h.tasks (h.positionOf_le t)).countP_eq, List.countP_cons]
  simp only [decide_eq_true_eq]

/-- A task that joins flags its number, if that was used before, and no other. -/
theorem isFlagged_insert (h : MethodHistory) (t : Task) (duplicate : Bool) (id : UInt64) :
    (h.insert t duplicate).IsFlagged id ↔
      h.IsFlagged id ∨ duplicate = true ∧ t.compileId = id := by
  have hname : HistoryFlag.duplicate id = .duplicate t.compileId ↔ t.compileId = id := by
    rw [HistoryFlag.duplicate.injEq, eq_comm]
  unfold IsFlagged insert
  rw [flags_promote]
  cases duplicate <;> cases t.timelineStamp <;>
    simp [mem_flags_flag, mem_flags_flagBefore, mem_flags_flagBehind, hname]

/-- Where the names stay, so do the uses. -/
theorem uses_of_names_eq {h h' : MethodHistory} (hnames : h'.names = h.names) (id : UInt64) :
    h'.uses id = h.uses id := by
  rw [uses_eq_countP_names, hnames, uses_eq_countP_names]

end MethodHistory

namespace Archive

variable {a : Archive} {id : UInt64}

/-- How many tasks of an archive have a number. -/
def uses (a : Archive) (id : UInt64) : Nat := a.tasks.countP fun t => t.compileId = id

/-- How many tasks with a number stand in histories that are not flagged for it. -/
def unflaggedUses (a : Archive) (id : UInt64) : Nat :=
  (a.histories.values.flatMap (MethodHistory.unflaggedTasks id)).countP fun t => t.compileId = id

/-- No more uses are left unflagged than there are. -/
theorem unflaggedUses_le_uses (a : Archive) (id : UInt64) : a.unflaggedUses id ≤ a.uses id := by
  refine (List.Sublist.flatMap_right _ fun m _ => ?_).countP_le
  unfold MethodHistory.unflaggedTasks
  split
  · exact List.nil_sublist _
  · exact List.Sublist.refl _

/-! ### Setting a history -/

/-- The history of a method before it is set, without tasks if there is none. -/
def former (a : Archive) (key : Method) : MethodHistory :=
  (a.histories.get? key).getD (.empty key)

/-- What is found is what there was before. -/
theorem former_of_get? {key : Method} {found : MethodHistory}
    (hfound : a.histories.get? key = some found) : a.former key = found := by
  unfold former
  rw [hfound, Option.getD_some]

/-- What is flagged is no history without tasks, so it was there before. -/
theorem mem_of_former_isFlagged {key : Method} (hflagged : (a.former key).IsFlagged id) :
    a.former key ∈ a.histories.values := by
  cases hfound : a.histories.get? key with
  | none =>
    unfold former at hflagged
    rw [hfound, Option.getD_none] at hflagged
    exact absurd hflagged List.not_mem_nil
  | some found =>
    rw [former_of_get? hfound]
    exact KeyMap.mem_values_of_get? hfound

/-- Setting a history exchanges the uses counted in the former one for those counted in the new one,
wherever a history without tasks counts for nothing. -/
theorem countP_former_add {b : Archive} {key : Method} {m : MethodHistory}
    (hset : b.histories = a.histories.insert key m) {f : MethodHistory → List Task}
    (hempty : f (.empty key) = []) (p : Task → Bool) :
    (f (a.former key)).countP p + (b.histories.values.flatMap f).countP p =
      (f m).countP p + (a.histories.values.flatMap f).countP p := by
  have hformer : (a.histories.get? key).elim [] f = f (a.former key) := by
    unfold former
    cases a.histories.get? key with
    | none => exact hempty.symm
    | some found => rfl
  rw [hset, ← hformer]
  exact KeyMap.countP_values_insert a.histories key m f p

/-! ### Flags and uses -/

/-- The flags for a number fit its uses. -/
structure FlagsReuse (a : Archive) (id : UInt64) : Prop where
  /-- A flagged history has a task with the number. -/
  used : ∀ m ∈ a.histories.values, m.IsFlagged id → 0 < m.uses id
  /-- Where a history is flagged, there are two tasks with the number. -/
  twice : ∀ m ∈ a.histories.values, m.IsFlagged id → 2 ≤ a.uses id
  /-- Of all the tasks with the number at most one is in a history that is not flagged. -/
  unflagged : a.unflaggedUses id ≤ 1

namespace FlagsReuse

/-- In an archive that holds nothing no number is used and none is flagged. -/
theorem empty (id : UInt64) : Archive.empty.FlagsReuse id where
  used m hm := by cases hm
  twice m hm := by cases hm
  unflagged := Nat.zero_le 1

/-- What is flagged depends on the histories alone. -/
theorem congr {b : Archive} (h : a.FlagsReuse id) (hsame : b.histories = a.histories) :
    b.FlagsReuse id := by
  have huses : b.uses id = a.uses id := by
    unfold uses tasks allHistories
    rw [hsame]
  have hunflagged : b.unflaggedUses id = a.unflaggedUses id := by
    unfold unflaggedUses
    rw [hsame]
  constructor
  · rw [hsame]
    exact h.used
  · rw [hsame, huses]
    exact h.twice
  · rw [hunflagged]
    exact h.unflagged

/-- A history is set in which the number is used at most once more than in the former one, and which
is flagged where that one was, or else where the number is used once more and was used before, in
whatever history. The flags still fit. -/
theorem setHistory {b : Archive} (h : a.FlagsReuse id) {key : Method} {m : MethodHistory}
    (more : Nat) (hset : b.histories = a.histories.insert key m) (hmore : more ≤ 1)
    (huses : m.uses id = (a.former key).uses id + more)
    (hflags : m.IsFlagged id ↔ (a.former key).IsFlagged id ∨ more = 1 ∧ 0 < a.uses id) :
    b.FlagsReuse id := by
  have hall : (a.former key).uses id + b.uses id = m.uses id + a.uses id :=
    countP_former_add hset (f := MethodHistory.tasks) rfl _
  have hmem : ∀ m' ∈ b.histories.values, m' = m ∨ m' ∈ a.histories.values := fun m' hm' =>
    KeyMap.mem_values_insert (hset ▸ hm')
  constructor
  · intro m' hm' hflagged
    rcases hmem m' hm' with rfl | hbefore
    · rcases hflags.mp hflagged with hearlier | ⟨hone, _⟩
      · have hpos := h.used _ (mem_of_former_isFlagged hearlier) hearlier
        omega
      · omega
    · exact h.used m' hbefore hflagged
  · intro m' hm' hflagged
    rcases hmem m' hm' with rfl | hbefore
    · rcases hflags.mp hflagged with hearlier | ⟨hone, hused⟩
      · have htwo := h.twice _ (mem_of_former_isFlagged hearlier) hearlier
        omega
      · omega
    · have htwo := h.twice m' hbefore hflagged
      omega
  · have hfew := h.unflagged
    have hle := b.unflaggedUses_le_uses id
    have hunflagged := countP_former_add hset (f := MethodHistory.unflaggedTasks id) (ite_self [])
      fun t => t.compileId = id
    by_cases hflagged : m.IsFlagged id
    · have hnone : m.unflaggedTasks id = [] := if_pos hflagged
      rw [hnone, List.countP_nil, Nat.zero_add] at hunflagged
      have hless : b.unflaggedUses id ≤ a.unflaggedUses id :=
        (Nat.le_add_left _ _).trans hunflagged.le
      omega
    · have hearlier : ¬ (a.former key).IsFlagged id := fun hearlier =>
        hflagged (hflags.mpr (.inl hearlier))
      have hfirst : ¬ (more = 1 ∧ 0 < a.uses id) := fun hagain =>
        hflagged (hflags.mpr (.inr hagain))
      have hnew : m.unflaggedTasks id = m.tasks := if_neg hflagged
      have hbefore : (a.former key).unflaggedTasks id = (a.former key).tasks := if_neg hearlier
      rw [hnew, hbefore] at hunflagged
      have hkept : (a.former key).uses id + b.unflaggedUses id =
          m.uses id + a.unflaggedUses id := hunflagged
      omega

/-- Filing a remark keeps the flags fitting. -/
theorem remarked {x y : Index} (h : x.FlagsReuse id) (hremarked : x.Remarked y) :
    y.FlagsReuse id := by
  cases hremarked with
  | @putBack key found changed hfound hchanged =>
    have hset : (x.putHistory key changed).histories = x.histories.insert key changed := rfl
    refine h.setHistory 0 hset (Nat.zero_le 1) ?_ ?_
    · rw [former_of_get? hfound, MethodHistory.uses_of_names_eq hchanged.names_eq, Nat.add_zero]
    · rw [former_of_get? hfound]
      unfold MethodHistory.IsFlagged
      rw [hchanged.flags_eq]
      exact ⟨.inl, fun hm => hm.resolve_right fun hagain => Nat.zero_ne_one hagain.1⟩
  | held hsame => exact h.congr hsame.histories_eq

/-- Filing a task keeps the flags fitting, where a number means something if and only if it was
used. -/
theorem recordTask {x : Index} (h : x.FlagsReuse id) {t : Task}
    (hused : (x.owners.get? t.compileId).isSome ↔ 0 < x.uses t.compileId) :
    (x.recordTask t).FlagsReuse id := by
  have hid := (x.completed_named t).1
  have hset : (x.recordTask t).histories = x.histories.insert (x.completed t).method _ :=
    congrArg (fun y : Index => y.histories) (x.recordTask_eq t)
  refine h.setHistory (if t.compileId = id then 1 else 0) hset (by split <;> omega) ?_ ?_
  · rw [MethodHistory.uses_insert, hid]
    rfl
  · rw [MethodHistory.isFlagged_insert, hid, hused]
    refine or_congr_right ?_
    by_cases hsame : t.compileId = id
    · simp [hsame]
    · simp [hsame]

/-- Where a number is used twice, some history is flagged for it. -/
theorem exists_flagged (h : a.FlagsReuse id) (htwo : 2 ≤ a.uses id) :
    ∃ m ∈ a.histories.values, m.IsFlagged id := by
  by_contra hnone
  have hnot : ∀ m ∈ a.histories.values, ¬ m.IsFlagged id := fun m hm hflagged =>
    hnone ⟨m, hm, hflagged⟩
  have hall : a.unflaggedUses id = a.uses id :=
    congrArg (List.countP _) (List.flatMap_congr fun m hm => if_neg (hnot m hm))
  have hfew := h.unflagged
  omega

/-- A history that uses a number twice is flagged for it. -/
theorem flagged_of_two (h : a.FlagsReuse id) {m : MethodHistory} (hm : m ∈ a.histories.values)
    (htwo : 2 ≤ m.uses id) : m.IsFlagged id := by
  by_contra hnot
  have hcounted : m.unflaggedTasks id = m.tasks := if_neg hnot
  have hsub : (m.unflaggedTasks id).Sublist
      (a.histories.values.flatMap (MethodHistory.unflaggedTasks id)) :=
    List.sublist_flatten_of_mem (List.mem_map_of_mem hm)
  rw [hcounted] at hsub
  have hle : m.uses id ≤ a.unflaggedUses id := hsub.countP_le
  have hfew := h.unflagged
  omega

end FlagsReuse

/-- Whatever is filed, the flags for all numbers fit their uses. -/
theorem FlagsReuse.archiveInvariant :
    ArchiveInvariant (fun _ => True) fun a => a.Consistent ∧ ∀ id, a.FlagsReuse id where
  congr hsame h :=
    ⟨Consistent.archiveInvariant.congr hsame h.1, fun id => (h.2 id).congr hsame.histories_eq⟩
  beginPass x h := ⟨Consistent.archiveInvariant.beginPass x h.1, fun id => (h.2 id).congr rfl⟩
  recordTask x t ht h := by
    refine ⟨Consistent.archiveInvariant.recordTask x t ht h.1, fun id => (h.2 id).recordTask ?_⟩
    rw [h.1.isSome_owner_iff, uses, List.countP_pos_iff]
    simp only [decide_eq_true_eq]
  recordDeopt x d h :=
    ⟨Consistent.archiveInvariant.recordDeopt x d h.1,
      fun id => (h.2 id).remarked (x.remarked_recordDeopt d)⟩
  recordRemark x number r hr h :=
    ⟨Consistent.archiveInvariant.recordRemark x number r hr h.1,
      fun id => (h.2 id).remarked (x.remarked_recordRemark number r)⟩

end Archive

/-- In histories that arise from an empty index the flags for each number fit its uses. -/
theorem Store.Arises.flagsReuse {s : Store} (h : s.Arises) (id : UInt64) :
    s.archive.FlagsReuse id :=
  (h.of_invariant Archive.FlagsReuse.archiveInvariant ⟨.empty, .empty⟩ fun _ ha =>
    ⟨ha.1.reloaded, fun id => (ha.2 id).congr ha.1.same_reloaded.1⟩).2 id

/-- Numbers used again are flagged exactly. In histories that arise from an empty index, some
history is flagged for a number if and only if at least two tasks of all histories have it; each
history that is flagged for it holds a task with it; and each history that holds two or more is
flagged. -/
theorem reuse_flagged_exactly {s : Store} (h : s.Arises) (id : UInt64) :
    ((∃ m ∈ s.histories, .duplicate id ∈ m.flags) ↔
        2 ≤ s.archive.tasks.countP fun t => t.compileId = id) ∧
      (∀ m ∈ s.histories, .duplicate id ∈ m.flags → ∃ t ∈ m.tasks, t.compileId = id) ∧
      ∀ m ∈ s.histories, 2 ≤ (m.tasks.countP fun t => t.compileId = id) →
        .duplicate id ∈ m.flags := by
  have hfit := h.flagsReuse id
  refine ⟨⟨?_, fun htwo => ?_⟩, fun m hm hflagged => ?_, fun m hm => hfit.flagged_of_two hm⟩
  · rintro ⟨m, hm, hflagged⟩
    exact hfit.twice m hm hflagged
  · exact hfit.exists_flagged htwo
  · exact MethodHistory.uses_pos_iff.mp (hfit.used m hm hflagged)

/-- Three methods use a number, in two readings with a snapshot in between: those two are flagged
that were not the first to use it. Another number, used once, is not flagged. -/
theorem reuse_flagged_exactly_resumed :
    ∃ a, (Store.writing (.empty 4)).run usedTwice = .atRest a ∧
      let s := (Store.atRest a.reloaded).run usedOnceMore
      s.Arises ∧ s.histories.map MethodHistory.flags = [[.duplicate 7], [], [.duplicate 7]] ∧
        (2 ≤ s.archive.tasks.countP fun t => t.compileId = 7) ∧
        ¬ ∃ m ∈ s.histories, .duplicate 8 ∈ m.flags := by
  refine ⟨_, rfl, ?_⟩
  intro s
  have hfirst : ((Store.writing (.empty 4)).run usedTwice).Arises := (Store.Arises.empty 4).run _
  have harises : s.Arises := (Store.Arises.reloaded hfirst).run usedOnceMore
  have hflags : s.histories.map MethodHistory.flags = [[.duplicate 7], [], [.duplicate 7]] := by
    decide +kernel
  have hsome : ∃ m ∈ s.histories, .duplicate 7 ∈ m.flags := by decide +kernel
  have honce : ¬ 2 ≤ s.archive.tasks.countP fun t => t.compileId = 8 := by decide +kernel
  exact ⟨harises, hflags, (reuse_flagged_exactly harises 7).1.mp hsome,
    fun hflagged => honce ((reuse_flagged_exactly harises 8).1.mp hflagged)⟩

end CompileLog
