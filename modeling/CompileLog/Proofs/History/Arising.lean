import CompileLog.Proofs.History.Current
import CompileLog.Proofs.History.Numbers
import CompileLog.Proofs.Snapshot.Archive

/-!
# Whatever is filed

Histories begin empty. They are written and rest, and at rest they may be stored and loaded again,
any number of times and whatever tasks, events, installed code and listings are filed in between.
The choice of the code in service and the meaning of the numbers stay right through all of this, so
a number always leads to a task of the last reading that used it.
-/

namespace CompileLog

/-! ### How histories arise -/

/-- Histories that arise from an empty index. -/
inductive Store.Arises : Store → Prop where
  /-- An index that holds nothing, with room for some remarks that wait. -/
  | empty (capacity : Nat) : Arises (.writing (.empty capacity))
  /-- One thing is done to such histories. -/
  | act {s : Store} (h : Arises s) (a : Act) : Arises (s.act a)
  /-- The snapshot of such an archive is loaded. -/
  | reloaded {a : Archive} (h : Arises (.atRest a)) : Arises (.atRest a.reloaded)

namespace Store.Arises

variable {s : Store}

/-- Doing one thing after another. By induction on the acts. -/
theorem run (h : s.Arises) (acts : List Act) : (s.run acts).Arises := by
  induction acts generalizing s with
  | nil => exact h
  | cons a rest ih => exact ih (h.act a)

/-- The snapshot may be loaded from its bytes, where its numbers fit the stored form. -/
theorem loaded {a : Archive} (h : (Store.atRest a).Arises) (hfits : (Snapshot.ofArchive a).Fits)
    {stored : Snapshot} (hread : Snapshot.read (Snapshot.ofArchive a).bytes = .ok stored) :
    (Store.atRest stored.toArchive).Arises := by
  rw [Snapshot.read_bytes rfl hfits] at hread
  obtain rfl := Except.ok.inj hread
  exact h.reloaded

/-- What holds of an empty archive, and is kept where something is filed and where a snapshot is
loaded, holds of all histories that arise. By induction on how they do. -/
theorem of_invariant {P : Archive → Prop} (hP : ArchiveInvariant (fun _ => True) P)
    (hempty : P .empty) (hreload : ∀ a, P a → P a.reloaded) (h : s.Arises) : P s.archive := by
  induction h with
  | empty capacity => exact hempty
  | act _ a ih => exact hP.act ih a.files_true
  | reloaded _ ih => exact hreload _ ih

end Store.Arises

/-- Histories that arise from an empty index with the numbers of all readings on the way fitting the
32 bits that they are stored with. Loading may lower the number of the last reading, so it is not
enough that the last one fits. -/
inductive Store.ArisesCounted : Store → Prop where
  /-- An index that holds nothing, with room for some remarks that wait. -/
  | empty (capacity : Nat) : ArisesCounted (.writing (.empty capacity))
  /-- One thing is done to such histories. If a reading begins, its number fits. -/
  | act {s : Store} (h : ArisesCounted s) (a : Act)
      (hcount : (s.act a).archive.pass < UInt32.size) : ArisesCounted (s.act a)
  /-- The snapshot of such an archive is loaded. -/
  | reloaded {a : Archive} (h : ArisesCounted (.atRest a)) : ArisesCounted (.atRest a.reloaded)

namespace Store.ArisesCounted

variable {s : Store}

/-- They arise. By induction on how they do. -/
theorem arises (h : s.ArisesCounted) : s.Arises := by
  induction h with
  | empty capacity => exact .empty capacity
  | act _ a _ ih => exact ih.act a
  | reloaded _ ih => exact ih.reloaded

/-- Doing one thing after another, where the last number fits. By induction on the acts: none of
them lets the number fall. -/
theorem run (h : s.ArisesCounted) {acts : List Act}
    (hcount : (s.run acts).archive.pass < UInt32.size) : (s.run acts).ArisesCounted := by
  induction acts generalizing s with
  | nil => exact h
  | cons a rest ih =>
    have hfirst := Nat.lt_of_le_of_lt ((s.act a).pass_le_run rest) hcount
    exact ih (h.act a hfirst) hcount

end Store.ArisesCounted

/-! ### What stays right -/

/-- What the histories of an archive and the meanings of its numbers have to do with its tasks. -/
structure Archive.Consistent (a : Archive) : Prop where
  /-- Each history is kept under its method. -/
  keyed : a.Keyed
  /-- The right code is in service. -/
  inService : ∀ h ∈ a.histories.values, InService h.tasks h.current
  /-- Each number leads to a history that holds its task. -/
  owned : a.Owned
  /-- The numbers of all tasks are known. -/
  numbered : a.Numbered

namespace Archive.Consistent

variable {a : Archive}

/-- An archive is consistent if it is in each way. -/
theorem iff_and : a.Consistent ↔
    a.Keyed ∧ (∀ h ∈ a.histories.values, InService h.tasks h.current) ∧ a.Owned ∧ a.Numbered :=
  ⟨fun h => ⟨h.keyed, h.inService, h.owned, h.numbered⟩, fun h => ⟨h.1, h.2.1, h.2.2.1, h.2.2.2⟩⟩

/-- The archive that holds nothing. -/
theorem empty : Archive.empty.Consistent where
  keyed := .empty
  inService := by simp [Archive.empty]
  owned := Index.owned_empty 0
  numbered := .empty

/-- Whatever is filed, an archive stays consistent. -/
theorem archiveInvariant : ArchiveInvariant (fun _ => True) Archive.Consistent := by
  have hall := Keyed.archiveInvariant.and (historyInvariant_inService.archiveInvariant.and
    (Owned.archiveInvariant.and Numbered.archiveInvariant))
  simp only [← iff_and] at hall
  exact hall

/-- A consistent archive is what its snapshot holds. -/
theorem same_reloaded (h : a.Consistent) : a.reloaded.Same a :=
  h.keyed.same_of_inService h.inService

/-- Once its snapshot is loaded, a consistent archive is consistent again. -/
theorem reloaded (h : a.Consistent) : a.reloaded.Consistent where
  keyed := Keyed.toArchive _
  inService := (Snapshot.ofArchive a).forall_histories_toArchive
    (P := fun m => InService m.tasks m.current) fun m => inService_findCurrent? m.tasks
  owned := owned_reloaded h.keyed h.same_reloaded
  numbered := numbered_reloaded h.same_reloaded

/-- A number means something exactly where a task has it. -/
theorem isSome_owner_iff (h : a.Consistent) (id : UInt64) :
    (a.owners.get? id).isSome ↔ ∃ t ∈ a.tasks, t.compileId = id := by
  constructor
  · intro hsome
    obtain ⟨o, ho⟩ := Option.isSome_iff_exists.mp hsome
    obtain ⟨m, hm, t, ht, hid, _⟩ := h.owned id o ho
    exact ⟨t, List.mem_flatMap.mpr ⟨m, KeyMap.mem_values_of_get? hm, ht⟩, hid⟩
  · rintro ⟨t, ht, rfl⟩
    obtain ⟨m, hm, htask⟩ := List.mem_flatMap.mp ht
    obtain ⟨o, ho, _⟩ := h.numbered m hm t htask
    rw [ho]
    rfl

end Archive.Consistent

/-- Histories that arise are consistent. -/
theorem Store.Arises.consistent {s : Store} (h : s.Arises) : s.archive.Consistent :=
  h.of_invariant Archive.Consistent.archiveInvariant .empty fun _ ha => ha.reloaded

/-! ### The last reading -/

/-- A number leads to the last reading that used it. In histories that arise from an empty index, be
they written or at rest, a task is found for a number if and only if some task has it; what is found
is such a task, and no task with the number is of a later reading. The numbers of readings are to fit
the 32 bits that they are stored with. -/
theorem number_leads_to_last_reading {s : Store} (h : s.ArisesCounted) (id : UInt64) :
    ((s.archive.task? id).isSome ↔ ∃ t ∈ s.archive.tasks, t.compileId = id) ∧
      ∀ t, s.archive.task? id = some t →
        t ∈ s.archive.tasks ∧ t.compileId = id ∧
          ∀ t' ∈ s.archive.tasks, t'.compileId = id → t'.pass ≤ t.pass := by
  have hconsistent := h.arises.consistent
  refine ⟨?_, fun t ht => ?_⟩
  · rw [hconsistent.owned.isSome_task?]
    exact hconsistent.isSome_owner_iff id
  · obtain ⟨o, ho, hfound⟩ := Option.bind_eq_some_iff.mp ht
    obtain ⟨m, hm, htask⟩ := Option.bind_eq_some_iff.mp hfound
    obtain ⟨hid, hpass⟩ := Task.isNamed_iff.mp (List.find?_some htask)
    have hmem : t ∈ s.archive.tasks :=
      List.mem_flatMap.mpr ⟨m, KeyMap.mem_values_of_get? hm, List.mem_of_find?_eq_some htask⟩
    refine ⟨hmem, hid, fun t' ht' hid' => ?_⟩
    obtain ⟨m', hm', htask'⟩ := List.mem_flatMap.mp ht'
    obtain ⟨o', ho', hle, _⟩ := hconsistent.numbered m' hm' t' htask'
    rw [hid'] at ho'
    obtain rfl := Option.some.inj (ho.symm.trans ho')
    omega

/-- A number is used by two methods in one reading, and writing rests. -/
def usedTwice : List Act :=
  [.beginPass, .record (.task (Task.new 7 ⟨"B", "b", "()V"⟩)),
    .record (.task (Task.new 7 ⟨"A", "a", "()V"⟩)), .freeze]

/-- Another reading uses the number, and then one more begins that does not. -/
def usedOnceMore : List Act :=
  [.thaw 4, .beginPass, .record (.task (Task.new 7 ⟨"C", "c", "()V"⟩)), .beginPass,
    .record (.task (Task.new 8 ⟨"A", "a", "()V"⟩))]

/-- A snapshot is loaded between the readings: the number leads to the task of the second, as no
other task with it is of a later reading. -/
theorem number_leads_to_last_reading_resumed :
    ∃ a, (Store.writing (.empty 4)).run usedTwice = .atRest a ∧
      let s := (Store.atRest a.reloaded).run usedOnceMore
      s.ArisesCounted ∧ ∃ t, s.archive.task? 7 = some t ∧ t.method = ⟨"C", "c", "()V"⟩ ∧ t.pass = 2 ∧
        ∀ t' ∈ s.archive.tasks, t'.compileId = 7 → t'.pass ≤ t.pass := by
  refine ⟨_, rfl, ?_⟩
  intro s
  have hfirst : ((Store.writing (.empty 4)).run usedTwice).ArisesCounted :=
    (Store.ArisesCounted.empty 4).run (by decide +kernel)
  have harises : s.ArisesCounted := (Store.ArisesCounted.reloaded hfirst).run (by decide +kernel)
  have hfound : (s.archive.task? 7).map (fun t => (t.method, t.pass)) =
      some (⟨"C", "c", "()V"⟩, 2) := by
    decide +kernel
  obtain ⟨t, ht, hshown⟩ := Option.map_eq_some_iff.mp hfound
  obtain ⟨hmethod, hpass⟩ := Prod.mk.inj hshown
  exact ⟨harises, t, ht, hmethod, hpass, ((number_leads_to_last_reading harises 7).2 t ht).2.2⟩

end CompileLog
