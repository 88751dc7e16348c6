import CompileLog.History.Index
import CompileLog.Proofs.KeyMap

/-!
# What filing changes

Filing goes through a few operations on an archive that is being written. Those that only let
remarks wait, or take them out again, leave all histories alone; the others change one history in
one of three ways. The lemmas say once for each operation what it does, and callers use them
without opening its definition.
-/

namespace CompileLog

/-! ### What waiting leaves alone -/

/-- Two archives have filed the same tasks. They may differ in what waits, is an orphan or was
given up. -/
structure SameFiled (a b : Archive) : Prop where
  /-- The histories are the same. -/
  histories_eq : a.histories = b.histories
  /-- The numbers mean the same tasks. -/
  owners_eq : a.owners = b.owners
  /-- The last reading is the same. -/
  pass_eq : a.pass = b.pass

/-- An archive has filed what it has filed. -/
theorem SameFiled.refl (a : Archive) : SameFiled a a := ⟨rfl, rfl, rfl⟩

/-- Filing the same carries over. -/
theorem SameFiled.trans {a b c : Archive} (hab : SameFiled a b) (hbc : SameFiled b c) :
    SameFiled a c :=
  ⟨hab.histories_eq.trans hbc.histories_eq, hab.owners_eq.trans hbc.owners_eq,
    hab.pass_eq.trans hbc.pass_eq⟩

/-- What holds of all histories holds of them wherever the same is filed. -/
theorem SameFiled.forall_histories {P : MethodHistory → Prop} {a b : Archive}
    (hab : SameFiled b a) (h : ∀ m ∈ a.histories.values, P m) :
    ∀ m ∈ b.histories.values, P m := by
  rw [hab.histories_eq]
  exact h

/-- A header files no task. -/
theorem Index.sameFiled_recordHeader (x : Index) (header : LogHeader) :
    SameFiled (x.recordHeader header).toArchive x.toArchive := by
  unfold recordHeader
  split <;> exact ⟨rfl, rfl, rfl⟩

/-- Giving up a remark files nothing. -/
theorem Index.sameFiled_giveUp (x : Index) (r : Remark) :
    SameFiled (x.giveUp r).toArchive x.toArchive := by
  unfold giveUp
  split <;> exact ⟨rfl, rfl, rfl⟩

/-- Making room files nothing. -/
theorem Index.sameFiled_dropOldest (x : Index) :
    SameFiled x.dropOldest.toArchive x.toArchive := by
  unfold dropOldest
  split
  · exact (sameFiled_giveUp _ _).trans ⟨rfl, rfl, rfl⟩
  · exact .refl _

/-- Letting a remark wait files nothing. -/
theorem Index.sameFiled_hold (x : Index) (id : UInt64) (r : Remark) :
    SameFiled (x.hold id r).toArchive x.toArchive := by
  unfold hold
  split
  · exact sameFiled_giveUp x r
  · split
    · exact x.sameFiled_dropOldest
    · exact ⟨rfl, rfl, rfl⟩

/-- Taking out what waits files nothing. -/
theorem Index.sameFiled_takePending (x : Index) (id : UInt64) :
    SameFiled (x.takePending id).1.toArchive x.toArchive := by
  unfold takePending
  split <;> exact ⟨rfl, rfl, rfl⟩

/-- Ending writing files nothing. -/
theorem Index.sameFiled_freeze (x : Index) : SameFiled x.freeze x.toArchive := by
  unfold freeze
  refine Array.foldl_induction (fun _ a => SameFiled a x.toArchive) (.refl _) ?_
  intro i a h
  refine SameFiled.trans ?_ h
  cases x.pending[i].2 <;> exact ⟨rfl, rfl, rfl⟩

/-- Resuming writing files nothing. -/
theorem Archive.sameFiled_thaw (a : Archive) (capacity : Nat) :
    SameFiled (a.thaw capacity).toArchive a := by
  unfold thaw
  refine List.foldlRecOn (motive := fun x : Index => SameFiled x.toArchive a) a.orphanDeopts
    _ ⟨rfl, rfl, rfl⟩ ?_
  intro x h d _
  exact (x.sameFiled_hold _ _).trans h

/-! ### How a history changes -/

/-- Where a position moves when a task joins the timeline. -/
def shifted (i c : Nat) : Nat := if i ≤ c then c + 1 else c

namespace MethodHistory

/-- Noting a flag leaves the timeline and the choice alone. -/
theorem flag_keeps (h : MethodHistory) (f : HistoryFlag) :
    (h.flag f).tasks = h.tasks ∧ (h.flag f).current = h.current := by
  unfold flag
  split <;> exact ⟨rfl, rfl⟩

/-- A look at the task before leaves the timeline and the choice alone. -/
theorem flagBefore_keeps (h : MethodHistory) (before : Option Task) (t : Task) :
    (h.flagBefore before t).tasks = h.tasks ∧ (h.flagBefore before t).current = h.current := by
  unfold flagBefore
  split
  · split
    · exact h.flag_keeps _
    · exact ⟨rfl, rfl⟩
  · exact ⟨rfl, rfl⟩

/-- A look at the task behind leaves the timeline and the choice alone. -/
theorem flagBehind_keeps (h : MethodHistory) (behind : Option Task) (t : Task) :
    (h.flagBehind behind t).tasks = h.tasks ∧ (h.flagBehind behind t).current = h.current := by
  unfold flagBehind
  split
  · split
    · exact h.flag_keeps _
    · exact ⟨rfl, rfl⟩
  · exact ⟨rfl, rfl⟩

/-- A task that is added joins the timeline, the choice moves with its task, flags may be noted,
and then the new task stands against the choice. -/
theorem insert_eq_promote (h : MethodHistory) (t : Task) (duplicate : Bool) :
    ∃ joined : MethodHistory, joined.tasks = h.tasks.insertIdx (h.positionOf t) t ∧
      joined.current = h.current.map (shifted (h.positionOf t)) ∧
      h.insert t duplicate = joined.promote (h.positionOf t) := by
  refine ⟨_, ?_, ?_, rfl⟩
  · split_ifs <;> simp only [flagBehind_keeps, flagBefore_keeps, flag_keeps]
  · split_ifs <;> simp only [flagBehind_keeps, flagBefore_keeps, flag_keeps] <;> rfl

end MethodHistory

/-! ### What is filed -/

/-- Installed code and listings change what is known of the code, and may note a flag. -/
theorem Task.addRemark_eq_of_not_isDeopt (t : Task) {r : Remark} (hr : r.isDeopt = false) :
    ∃ size native flags,
      t.addRemark r = { t with nativeSize := size, native := native, flags := flags } := by
  cases r with
  | deopt d => cases hr
  | native n => exact ⟨_, _, t.flags, rfl⟩
  | listing l =>
    simp only [addRemark, attachListing]
    cases (t.native.getD .unknown).attachListing l with
    | ok native => exact ⟨t.nativeSize, some native, t.flags, rfl⟩
    | error e =>
      simp only [flag]
      split
      · exact ⟨t.nativeSize, t.native, t.flags, rfl⟩
      · exact ⟨t.nativeSize, t.native, _, rfl⟩

namespace Index

/-- A task as it is filed: with the number of the reading, and with what waited for it. -/
def completed (x : Index) (t : Task) : Task :=
  (x.takePending t.compileId).2.foldl Task.addRemark { t with pass := x.pass }

/-- The history that a task joins. -/
def historyFor (x : Index) (t : Task) : MethodHistory :=
  (x.historyOf? t.method).getD (.empty t.method)

/-- The history that a task joins is the one of its method, if there is one. -/
theorem historyFor_of_get? {x : Index} {t : Task} {h : MethodHistory}
    (hfound : x.histories.get? t.method = some h) : x.historyFor t = h := by
  unfold historyFor Archive.historyOf?
  rw [hfound, Option.getD_some]

/-- What the history that a task joins gives is what the one of its method gives, or else the one
without tasks. -/
theorem apply_historyFor {α : Type} (f : MethodHistory → α) (x : Index) (t : Task) :
    f (x.historyFor t) = (x.histories.get? t.method).elim (f (.empty t.method)) f := by
  unfold historyFor Archive.historyOf?
  cases x.histories.get? t.method <;> rfl

/-- Filing a task takes out what waits for it, and adds it to one history. -/
theorem recordTask_eq (x : Index) (t : Task) :
    x.recordTask t =
      { (x.takePending t.compileId).1 with
        owners :=
          if (x.owners.get? t.compileId).any fun o => o.pass = x.pass then x.owners
          else x.owners.insert t.compileId ⟨x.pass, (x.completed t).method⟩
        histories := x.histories.insert (x.completed t).method
          ((x.historyFor (x.completed t)).insert (x.completed t)
            (x.owners.get? t.compileId).isSome) } := by
  have hsame := x.sameFiled_takePending t.compileId
  simp only [recordTask, completed, historyFor, Archive.historyOf?, hsame.histories_eq,
    hsame.owners_eq, hsame.pass_eq]

/-- What a number means in this reading, with the history that holds its task. -/
def heldNow? (x : Index) (id : UInt64) : Option (Owner × MethodHistory) :=
  (x.owners.get? id).bind fun o =>
    if o.pass = x.pass then (x.histories.get? o.method).map (Prod.mk o) else none

/-- A number means something in this reading if it belongs to it and its method has a history. -/
theorem heldNow?_eq_some_iff {x : Index} {id : UInt64} {o : Owner} {h : MethodHistory} :
    x.heldNow? id = some (o, h) ↔
      x.owners.get? id = some o ∧ o.pass = x.pass ∧ x.histories.get? o.method = some h := by
  unfold heldNow?
  cases x.owners.get? id with
  | none => simp
  | some o' =>
    rw [Option.bind_some]
    by_cases hpass : o'.pass = x.pass
    · rw [if_pos hpass]
      constructor
      · intro hheld
        obtain ⟨h', hfound, heq⟩ := Option.map_eq_some_iff.mp hheld
        cases heq
        exact ⟨rfl, hpass, hfound⟩
      · rintro ⟨heq, _, hfound⟩
        obtain rfl := Option.some.inj heq
        rw [hfound, Option.map_some]
    · rw [if_neg hpass]
      constructor
      · intro hheld
        cases hheld
      · rintro ⟨heq, hpass', _⟩
        obtain rfl := Option.some.inj heq
        exact absurd hpass' hpass

/-- A history holds the task of a number in this reading as far as the number means something in
it. -/
theorem historyNow?_eq (x : Index) (id : UInt64) :
    x.historyNow? id = (x.heldNow? id).map Prod.snd := by
  unfold historyNow? heldNow?
  cases x.owners.get? id with
  | none => rfl
  | some o =>
    rw [Option.bind_some]
    by_cases hpass : o.pass = x.pass
    · simp only [if_pos hpass, Option.map_map]
      exact Option.map_id.symm ▸ rfl
    · simp only [if_neg hpass, Option.map_none]

/-- An event goes to what its number means in this reading, and waits where that is nothing. -/
theorem recordDeopt_eq (x : Index) (d : Deopt) :
    x.recordDeopt d =
      match x.heldNow? d.compileId with
      | some (o, h) => x.putHistory o.method (h.bindDeopt x.pass d)
      | none => x.hold d.compileId (.deopt d) := by
  unfold recordDeopt
  rw [historyNow?_eq]
  cases hheld : x.heldNow? d.compileId with
  | none => cases x.owners.get? d.compileId <;> rfl
  | some held =>
    obtain ⟨o, h⟩ := held
    rw [(heldNow?_eq_some_iff.mp hheld).1]
    rfl

/-- Installed code and listings go to what their number means in this reading, and wait where that
is nothing. -/
theorem recordRemark_eq (x : Index) (id : UInt64) (r : Remark) :
    x.recordRemark id r =
      match x.heldNow? id with
      | some (o, h) =>
        if (h.taskIn? id x.pass).isSome then
          x.putHistory o.method (h.modifyTask id x.pass fun t => t.addRemark r)
        else x.hold id r
      | none => x.hold id r := by
  unfold recordRemark
  rw [historyNow?_eq]
  cases hheld : x.heldNow? id with
  | none => cases x.owners.get? id <;> rfl
  | some held =>
    obtain ⟨o, h⟩ := held
    rw [(heldNow?_eq_some_iff.mp hheld).1]
    rfl

/-- An event is bound in the history that its number leads to in this reading, and else waits. -/
theorem recordDeopt_cases (x : Index) (d : Deopt) :
    (∃ o h, x.owners.get? d.compileId = some o ∧ o.pass = x.pass ∧
        x.histories.get? o.method = some h ∧
        x.recordDeopt d = x.putHistory o.method (h.bindDeopt x.pass d)) ∨
      x.recordDeopt d = x.hold d.compileId (.deopt d) := by
  rw [recordDeopt_eq]
  cases hheld : x.heldNow? d.compileId with
  | none => exact .inr rfl
  | some held =>
    obtain ⟨o, h⟩ := held
    obtain ⟨howner, hpass, hhistory⟩ := heldNow?_eq_some_iff.mp hheld
    exact .inl ⟨o, h, howner, hpass, hhistory, rfl⟩

/-- Installed code and listings are added to a task of this reading, and else wait. -/
theorem recordRemark_cases (x : Index) (id : UInt64) (r : Remark) :
    (∃ o h, x.owners.get? id = some o ∧ o.pass = x.pass ∧ x.histories.get? o.method = some h ∧
        x.recordRemark id r =
          x.putHistory o.method (h.modifyTask id x.pass fun t => t.addRemark r)) ∨
      x.recordRemark id r = x.hold id r := by
  rw [recordRemark_eq]
  cases hheld : x.heldNow? id with
  | none => exact .inr rfl
  | some held =>
    obtain ⟨o, h⟩ := held
    obtain ⟨howner, hpass, hhistory⟩ := heldNow?_eq_some_iff.mp hheld
    simp only
    split_ifs
    · exact .inl ⟨o, h, howner, hpass, hhistory, rfl⟩
    · exact .inr rfl

end Index

end CompileLog
