import CompileLog.Proofs.Collect.Moves

/-!
# Numbers that are used again

A number is used once at a time: a task that waits is the only one with its number, none with it is
under way and none was handed over. A task that begins where one with its number was handed over is
flagged, and nothing that is told later takes the flag away or adds it. So of the tasks handed over
under one number the first is not flagged and every later one is. Late code always comes behind a
task with its number.
-/

namespace CompileLog.Collect

/-! ### What is handed over -/

/-- Of tasks handed over one by one, those are flagged whose number an earlier one has. -/
def RepeatsFlagged (ts : List Task) : Prop :=
  ∀ before t after, ts = before ++ t :: after →
    (.duplicateCompileId ∈ t.flags ↔ ∃ earlier ∈ before, earlier.compileId = t.compileId)

/-- Late code comes behind a task with its number. -/
def LateOwned (items : List Item) : Prop :=
  ∀ before id native after, items = before ++ .lateNative id native :: after →
    ∃ t ∈ tasksOf before, t.compileId = id

/-- Another task is flagged if an earlier one has its number. -/
theorem RepeatsFlagged.concat {ts : List Task} (h : RepeatsFlagged ts) {t : Task}
    (ht : .duplicateCompileId ∈ t.flags ↔ ∃ earlier ∈ ts, earlier.compileId = t.compileId) :
    RepeatsFlagged (ts ++ [t]) := by
  intro before t' after heq
  rcases List.eq_nil_or_concat after with rfl | ⟨between, last, rfl⟩
  · obtain ⟨rfl, hlast⟩ := List.append_inj' heq rfl
    obtain rfl := List.singleton_inj.mp hlast
    exact ht
  · have hlast : ts ++ [t] = (before ++ t' :: between) ++ [last] := by simpa using heq
    exact h before t' between (List.append_inj' hlast rfl).1

/-- More late code belongs to tasks that were handed over before. -/
theorem LateOwned.append {items more : List Item} (h : LateOwned items)
    (hmore : ∀ id native, .lateNative id native ∈ more → ∃ t ∈ tasksOf items, t.compileId = id) :
    LateOwned (items ++ more) := by
  intro before id native after heq
  rcases List.append_eq_append_iff.mp heq with ⟨first, rfl, hlate⟩ | ⟨rest, rfl, hlate⟩
  · obtain ⟨t, ht, hid⟩ := hmore id native (hlate ▸ List.mem_append_right _ List.mem_cons_self)
    rw [tasksOf_append]
    exact ⟨t, List.mem_append_left _ ht, hid⟩
  · cases rest with
    | nil =>
      obtain ⟨t, ht, hid⟩ := hmore id native (by
        rw [List.nil_append] at hlate
        exact hlate ▸ List.mem_cons_self)
      rw [List.append_nil] at ht
      exact ⟨t, ht, hid⟩
    | cons i rest =>
      obtain ⟨rfl, -⟩ := List.cons.inj hlate
      exact h before id native rest rfl

namespace Desk

/-! ### Numbers on a desk -/

/-- A task waits for its start, the only one with its number so far. -/
structure Awaits (d : Desk) (id : UInt64) (t : Task) : Prop where
  /-- It has the number. -/
  compileId_eq : t.compileId = id
  /-- Its number was not used before. -/
  new : .duplicateCompileId ∉ t.flags
  /-- No task with the number is under way. -/
  not_isActive : ¬ d.IsActive id
  /-- None was handed over. -/
  not_isHandedOver : d.isHandedOver id = false

/-- A number is used once at a time. -/
structure Apart (d : Desk) : Prop where
  /-- A task that waits is the only one with its number. -/
  awaits : ∀ id t, d.waiting.get? id = some t → d.Awaits id t
  /-- The task under way is flagged if one with its number was handed over. -/
  active : ∀ t, d.active = some t →
    (.duplicateCompileId ∈ t.flags ↔ d.isHandedOver t.compileId = true)

/-- A desk knows the numbers of the tasks that were handed over, and these are flagged as they
should be. -/
structure Recorded (items : List Item) (d : Desk) : Prop where
  /-- The numbers that are known are those of the tasks. -/
  handedOver : ∀ id, d.isHandedOver id = true ↔ ∃ t ∈ tasksOf items, t.compileId = id
  /-- The tasks are flagged whose number an earlier one has. -/
  flagged : RepeatsFlagged (tasksOf items)
  /-- Late code comes behind a task with its number. -/
  late : LateOwned items

variable {d d' : Desk} {items more : List Item}

/-- What is recorded depends on the numbers that are known. -/
theorem Recorded.congr (h : Recorded items d) (hhanded : d'.handedOver = d.handedOver) :
    Recorded items d' := by
  have hsame : ∀ id, d'.isHandedOver id = d.isHandedOver id := fun id => by
    unfold isHandedOver
    rw [hhanded]
  refine ⟨fun id => ?_, h.flagged, h.late⟩
  rw [hsame]
  exact h.handedOver id

/-- What hands over no task leaves the numbers that are known. -/
theorem Recorded.pass (h : Recorded items d) (htasks : tasksOf more = [])
    (hlate : ∀ id native, .lateNative id native ∈ more → d.isHandedOver id = true) :
    Recorded (items ++ more) d := by
  have hsame : tasksOf (items ++ more) = tasksOf items := by
    rw [tasksOf_append, htasks, List.append_nil]
  refine ⟨?_, ?_, h.late.append fun id native hmem => ?_⟩
  · rw [hsame]
    exact h.handedOver
  · rw [hsame]
    exact h.flagged
  · exact (h.handedOver id).mp (hlate id native hmem)

/-- A task is handed over that is flagged if one with its number was. -/
theorem Recorded.handOver (h : Recorded items d) {t : Task}
    (ht : .duplicateCompileId ∈ t.flags ↔ d.isHandedOver t.compileId = true) :
    Recorded (items ++ [.task t]) (d.handOver t) := by
  have hconcat : tasksOf (items ++ [.task t]) = tasksOf items ++ [t] := tasksOf_append _ _
  refine ⟨fun id => ?_, ?_, h.late.append fun id native hmem => ?_⟩
  · rw [hconcat, isHandedOver_handOver, h.handedOver]
    simp [or_comm]
  · rw [hconcat]
    exact h.flagged.concat (ht.trans (h.handedOver _))
  · cases List.mem_singleton.mp hmem

/-- More is told of the task under way, and more is heard. -/
theorem Apart.tell (h : d.Apart) {t t' : Task} (ht : d.active = some t) (hsame : t.SameNumber t')
    (heard : Option (List Event)) : Apart { d with active := some t', heard := heard } := by
  refine ⟨fun id w hw => ?_, fun t'' ht'' => ?_⟩
  · have hawaits := h.awaits id w hw
    refine ⟨hawaits.compileId_eq, hawaits.new, ?_, hawaits.not_isHandedOver⟩
    rintro ⟨_, hsome, hid⟩
    obtain rfl := Option.some.inj hsome
    exact hawaits.not_isActive ⟨t, ht, hsame.compileId_eq.symm.trans hid⟩
  · obtain rfl := Option.some.inj ht''
    rw [hsame.compileId_eq]
    exact hsame.duplicate_iff.trans (h.active t ht)

/-- A task is put back or begins to wait. -/
theorem Apart.wait (h : d.Apart) {id : UInt64} {t : Task} (ht : d.Awaits id t) :
    Apart { d with waiting := d.waiting.insert id t } := by
  refine ⟨fun id' t' hfound => ?_, h.active⟩
  simp only [KeyMap.get?_insert] at hfound
  split_ifs at hfound with hid
  · obtain rfl := Option.some.inj hfound
    exact hid ▸ ⟨ht.compileId_eq, ht.new, ht.not_isActive, ht.not_isHandedOver⟩
  · have hawaits := h.awaits id' t' hfound
    exact ⟨hawaits.compileId_eq, hawaits.new, hawaits.not_isActive, hawaits.not_isHandedOver⟩

/-- A task begins whose number no task has that still waits. -/
theorem Apart.begin (h : d.Apart) {t : Task} {waiting : KeyMap UInt64 Task}
    (hwaiting : ∀ id t', waiting.get? id = some t' →
      d.waiting.get? id = some t' ∧ id ≠ t.compileId)
    (hagain : .duplicateCompileId ∈ t.flags ↔ d.isHandedOver t.compileId = true)
    (heard : Option (List Event)) :
    Apart { d with active := some t, waiting := waiting, heard := heard } := by
  refine ⟨fun id t' hfound => ?_, fun t' ht' => ?_⟩
  · obtain ⟨hbefore, hne⟩ := hwaiting id t' hfound
    have hawaits := h.awaits id t' hbefore
    refine ⟨hawaits.compileId_eq, hawaits.new, ?_, hawaits.not_isHandedOver⟩
    rintro ⟨_, hsome, hid⟩
    obtain rfl := Option.some.inj hsome
    exact hne hid.symm
  · obtain rfl := Option.some.inj ht'
    exact hagain

/-- A task is handed over whose number no task has that is still kept. -/
theorem Apart.handOver {t : Task} (h : d.Apart) (hactive : ¬ d.IsActive t.compileId)
    (hwaiting : d.waiting.get? t.compileId = none) : (d.handOver t).Apart := by
  refine ⟨fun id t' hfound => ?_, fun t' ht' => ?_⟩
  · have hawaits := h.awaits id t' hfound
    refine ⟨hawaits.compileId_eq, hawaits.new, hawaits.not_isActive, ?_⟩
    rw [Bool.eq_false_iff, Ne, isHandedOver_handOver]
    rintro (rfl | hhanded)
    · cases hwaiting.symm.trans hfound
    · rw [hawaits.not_isHandedOver] at hhanded
      cases hhanded
  · have hne : t.compileId ≠ t'.compileId := fun hid => hactive ⟨t', ht', hid.symm⟩
    rw [isHandedOver_handOver, or_iff_right hne]
    exact h.active t' ht'

/-- The numbers on a desk are used once at a time, and those that were used before are known. -/
structure Numbered (items : List Item) (d : Desk) : Prop where
  /-- They are used once at a time. -/
  apart : d.Apart
  /-- Those that were used before are known. -/
  recorded : Recorded items d

/-- A move that hands over nothing. -/
theorem Numbered.quiet (h : Numbered items d) (hapart : d'.Apart)
    (hhanded : d'.handedOver = d.handedOver) : Numbered (items ++ []) d' := by
  rw [List.append_nil]
  exact ⟨hapart, h.recorded.congr hhanded⟩

/-- The task under way is handed over. -/
theorem Numbered.leave (h : Numbered items d) {t t' : Task} (ht : d.active = some t)
    (hsame : t.SameNumber t') :
    Numbered (items ++ [.task t']) ({ d with active := none, heard := none }.handOver t') := by
  have hidle : Apart { d with active := none, heard := none } := by
    refine ⟨fun id w hw => ?_, fun t' ht' => ?_⟩
    · have hawaits := h.apart.awaits id w hw
      refine ⟨hawaits.compileId_eq, hawaits.new, ?_, hawaits.not_isHandedOver⟩
      rintro ⟨_, hsome, -⟩
      cases hsome
    · cases ht'
  have hwaiting : d.waiting.get? t'.compileId = none := by
    refine Option.eq_none_iff_forall_ne_some.mpr fun w hw => ?_
    exact (h.apart.awaits _ w hw).not_isActive ⟨t, ht, hsame.compileId_eq.symm⟩
  have hrecorded : Recorded items { d with active := none, heard := none } := h.recorded.congr rfl
  refine ⟨hidle.handOver ?_ hwaiting, hrecorded.handOver ?_⟩
  · rintro ⟨_, hsome, -⟩
    cases hsome
  · rw [hsame.compileId_eq]
    exact hsame.duplicate_iff.trans (h.apart.active t ht)

/-- A task that waits is handed over. -/
theorem Numbered.forget (h : Numbered items d) {id : UInt64} {t t' : Task}
    (ht : d.waiting.get? id = some t) (hsame : t.SameNumber t') :
    Numbered (items ++ [.task t']) ({ d with waiting := d.waiting.erase id }.handOver t') := by
  have hawaits := h.apart.awaits id t ht
  have hid : t'.compileId = id := hsame.compileId_eq.trans hawaits.compileId_eq
  have hrest : Apart { d with waiting := d.waiting.erase id } := by
    refine ⟨fun id' w hw => ?_, h.apart.active⟩
    simp only [KeyMap.get?_erase] at hw
    split_ifs at hw
    have hawaits' := h.apart.awaits id' w hw
    exact ⟨hawaits'.compileId_eq, hawaits'.new, hawaits'.not_isActive, hawaits'.not_isHandedOver⟩
  have hrecorded : Recorded items { d with waiting := d.waiting.erase id } := h.recorded.congr rfl
  refine ⟨hrest.handOver ?_ ?_, hrecorded.handOver ?_⟩ <;> rw [hid]
  · exact hawaits.not_isActive
  · simp only [KeyMap.get?_erase, if_true]
  · refine iff_of_false (fun hmem => hawaits.new (hsame.duplicate_iff.mp hmem)) ?_
    exact Bool.eq_false_iff.mp hawaits.not_isHandedOver

/-- Every move keeps the numbers apart and records them. -/
theorem Numbered.move (h : Numbered items d) (hmove : Move d more d') :
    Numbered (items ++ more) d' := by
  have hheard : ∀ heard, Numbered (items ++ []) { d with heard := heard } := fun heard => by
    refine h.quiet ⟨fun id t ht => ?_, h.apart.active⟩ rfl
    have hawaits := h.apart.awaits id t ht
    exact ⟨hawaits.compileId_eq, hawaits.new, hawaits.not_isActive, hawaits.not_isHandedOver⟩
  cases hmove with
  | passes htasks hlate => exact ⟨h.apart, h.recorded.pass htasks hlate⟩
  | hears he => exact hheard _
  | idles hidle => exact hheard _
  | fails ht hsame houtcome => exact h.quiet (h.apart.tell ht hsame.sameNumber _) rfl
  | tells ht hsame => exact h.quiet (h.apart.tell ht hsame.sameNumber _) rfl
  | @foretells id t t' ht hsame =>
    have hawaits := h.apart.awaits id t ht
    refine h.quiet (h.apart.wait ⟨hsame.compileId_eq.trans hawaits.compileId_eq, ?_,
      hawaits.not_isActive, hawaits.not_isHandedOver⟩) rfl
    exact fun hmem => hawaits.new ((hsame.mark_iff _ rfl).mp hmem)
  | meets hactive hhanded houtcome hnew =>
    exact h.quiet (h.apart.wait ⟨rfl, hnew, hactive, hhanded⟩) rfl
  | @begins id t t' hidle ht hsame houtcome =>
    have hawaits := h.apart.awaits id t ht
    have hid : t'.compileId = id := hsame.compileId_eq.trans hawaits.compileId_eq
    refine h.quiet (h.apart.begin (fun id' w hw => ?_) ?_ _) rfl
    · simp only [KeyMap.get?_erase] at hw
      split_ifs at hw with hne
      exact ⟨hw, fun heq => hne (hid.symm.trans heq.symm)⟩
    · rw [hid]
      refine iff_of_false (fun hmem => hawaits.new (hsame.duplicate_iff.mp hmem)) ?_
      exact Bool.eq_false_iff.mp hawaits.not_isHandedOver
  | opens hidle hwaiting houtcome hagain =>
    refine h.quiet (h.apart.begin (fun id w hw => ⟨hw, ?_⟩) hagain _) rfl
    rintro rfl
    cases hwaiting.symm.trans hw
  | leaves ht hsame => exact h.leave ht hsame
  | forgets ht hsame => exact h.forget ht hsame
  | bridges hactive hwaiting hhanded hnew =>
    exact ⟨h.apart.handOver hactive hwaiting,
      h.recorded.handOver (iff_of_false hnew (Bool.eq_false_iff.mp hhanded))⟩

/-- A run of moves keeps the numbers apart and records them. -/
theorem Numbered.moves (h : Numbered items d) (hmoves : Moves d more d') :
    Numbered (items ++ more) d' :=
  Moves.respect (P := Numbered) Numbered.move items h hmoves

end Desk

namespace Collector

/-- Whatever a new collector is given, it keeps the numbers apart and records them. -/
theorem numbered_feed (retain : Bool) (inputs : List Input) :
    Desk.Numbered (feed retain inputs).2 ((feed retain inputs).1.desk (underway inputs)) := by
  have hstart : Desk.Numbered [] ((start retain).desk none) := by
    refine ⟨⟨fun id t hfound => ?_, fun t ht => ?_⟩, ⟨fun id => ?_, ?_, ?_⟩⟩
    · cases hfound
    · cases ht
    · refine iff_of_false Bool.noConfusion ?_
      rintro ⟨t, ht, -⟩
      cases ht
    · intro before t after heq
      simp at heq
    · intro before id native after heq
      simp at heq
  exact hstart.moves (moves_feed retain inputs)

/-- Whatever a collector is given, a task that waits is the only one with its number, and of the
tasks handed over under one number the first is not flagged as a duplicate and every later one
is. -/
theorem numbers_used_once_unless_flagged (retain : Bool) (inputs : List Input) :
    (∀ id t, (feed retain inputs).1.waiting.get? id = some t →
      t.compileId = id ∧ (feed retain inputs).1.isHandedOver id = false ∧
        ∀ a, (feed retain inputs).1.active = some a → a.task.compileId ≠ id) ∧
    (∀ id, (feed retain inputs).1.isHandedOver id = true ↔
      ∃ t ∈ tasksOf (feed retain inputs).2, t.compileId = id) ∧
    ∀ before t after, tasksOf (feed retain inputs).2 = before ++ t :: after →
      (.duplicateCompileId ∈ t.flags ↔ ∃ earlier ∈ before, earlier.compileId = t.compileId) := by
  have hnumbered := numbered_feed retain inputs
  refine ⟨fun id t hwaiting => ?_, hnumbered.recorded.handedOver, hnumbered.recorded.flagged⟩
  have hawaits := hnumbered.apart.awaits id t hwaiting
  refine ⟨hawaits.compileId_eq, hawaits.not_isHandedOver, fun a ha hid => ?_⟩
  exact hawaits.not_isActive ⟨a.task, by unfold desk; rw [ha, Option.map_some], hid⟩

end Collector

end CompileLog.Collect
