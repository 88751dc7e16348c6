import CompileLog.Proofs.Collect.Handover
import CompileLog.Proofs.Collect.Waiting

/-!
# What a collector holds of a number

Under one number a collector may hold a task under way and a task that waits, and it knows whether
it has handed one over. Each way in which a collector changes its tasks is a change of what it holds
of one number, and leaves every other number alone.
-/

namespace CompileLog.Collect

/-- What a collector holds of one number. -/
structure Holding where
  /-- The task under way. -/
  active : Option Task
  /-- The task that waits. -/
  waiting : Option Task
  /-- Whether a task was handed over. -/
  handedOver : Bool

/-- What a collector holds of a number. -/
def Collector.holding (c : Collector) (id : UInt64) : Holding :=
  ⟨(c.activeWith? id).map Compiling.task, c.waiting.get? id, c.isHandedOver id⟩

/-- The same is held of a number, where more may have been told. -/
structure Holding.Revises (h h' : Holding) : Prop where
  /-- The task under way stays that task. -/
  active : Option.Rel Task.Becomes h.active h'.active
  /-- The task that waits stays that task. -/
  waiting : Option.Rel Task.Becomes h.waiting h'.waiting
  /-- Whether a task was handed over stays. -/
  handedOver_eq : h'.handedOver = h.handedOver

/-- Nothing more was told. -/
theorem Holding.Revises.refl (h : Holding) : h.Revises h := by
  obtain ⟨active, waiting, handedOver⟩ := h
  refine ⟨?_, ?_, rfl⟩
  · cases active <;> constructor
    exact .refl _
  · cases waiting <;> constructor
    exact .refl _

/-- Whatever is said of a task that is not handed over: one that is met for the first time begins
to wait. -/
def Holding.tell (h : Holding) (new : Task) (f : Task → Task) : Holding :=
  match h.active, h.waiting with
  | some t, _ => { h with active := some (f t) }
  | none, some t => { h with waiting := some (f t) }
  | none, none => { h with waiting := some (f new) }

namespace Collector

variable {id : UInt64} (c : Collector)

/-- Counting changes nothing that is held. -/
theorem holding_count (f : Counts → Counts) (id : UInt64) :
    (c.count f).holding id = c.holding id := rfl

/-- Looking up the task under way by a number. -/
theorem activeWith?_of_active {c : Collector} {a : Compiling} (h : c.active = some a)
    (id : UInt64) : c.activeWith? id = if a.task.compileId = id then some a else none := by
  unfold activeWith?
  rw [h, Option.filter_some]
  by_cases hid : a.task.compileId = id <;> simp [hid]

/-- Putting back the task under way. -/
theorem holding_putTask_of_active {c : Collector} {a : Compiling} (h : c.activeWith? id = some a)
    {t : Task} (ht : t.compileId = id) :
    (c.putTask id t).holding id = { c.holding id with active := some t } := by
  unfold putTask holding
  rw [h]
  simp only
  rw [activeWith?_of_active (a := { a with task := t }) rfl, if_pos ht]
  rfl

/-- Putting back a task that waits. -/
theorem holding_putTask_of_waiting {c : Collector} (h : c.activeWith? id = none) (t : Task) :
    (c.putTask id t).holding id = { c.holding id with waiting := some t } := by
  unfold putTask holding
  rw [h]
  simp only [KeyMap.get?_insert, if_true]
  rw [show Collector.activeWith? { c with waiting := c.waiting.insert id t } id = none from h]
  rfl

/-- Putting back a task leaves every other number alone. -/
theorem holding_putTask_of_ne {id' : UInt64} (hne : id' ≠ id) {t : Task}
    (ht : (c.activeWith? id').isSome = true → t.compileId = id') :
    (c.putTask id' t).holding id = c.holding id := by
  unfold putTask
  cases h : c.activeWith? id' with
  | none =>
    unfold holding
    simp only [KeyMap.get?_insert, if_neg hne]
    rfl
  | some a =>
    obtain ⟨hactive, ha⟩ := compileId_of_activeWith? h
    unfold holding
    have ht' : t.compileId = id' := ht (by rw [h]; rfl)
    rw [activeWith?_of_active hactive id, if_neg (fun h => hne (ha.symm.trans h)),
      activeWith?_of_active (a := { a with task := t }) rfl id,
      if_neg (fun h => hne (ht'.symm.trans h))]
    rfl

/-- Telling something of the task with a number changes what is held of that number. -/
theorem holding_onTask_self (method : Option Method) {f : Task → Task}
    (hf : ∀ t, (f t).compileId = t.compileId) :
    (c.onTask id method f).holding id = (c.holding id).tell (implicitTask id method) f := by
  unfold onTask openTask?
  cases hactive : c.activeWith? id with
  | some a =>
    obtain ⟨_, hid⟩ := compileId_of_activeWith? hactive
    simp only [Option.map_some, Option.some_or]
    rw [holding_putTask_of_active hactive ((hf a.task).trans hid)]
    unfold Holding.tell holding
    rw [hactive]
    rfl
  | none =>
    simp only [Option.map_none, Option.none_or]
    cases hfound : c.waiting.get? id with
    | some t =>
      simp only
      rw [holding_putTask_of_waiting hactive]
      unfold Holding.tell holding
      rw [hactive, hfound]
      rfl
    | none =>
      simp only
      rw [holding_putTask_of_waiting (c := c.count _) hactive, holding_count]
      unfold Holding.tell holding
      rw [hactive, hfound]
      rfl

/-- Telling something of a task leaves every other number alone. -/
theorem holding_onTask_of_ne {id' : UInt64} (hne : id' ≠ id) (method : Option Method)
    {f : Task → Task} (hf : ∀ t, (f t).compileId = t.compileId) :
    (c.onTask id' method f).holding id = c.holding id := by
  unfold onTask openTask?
  cases hactive : c.activeWith? id' with
  | some a =>
    obtain ⟨_, hid⟩ := compileId_of_activeWith? hactive
    exact c.holding_putTask_of_ne hne fun _ => (hf a.task).trans hid
  | none =>
    have hnone : ∀ t, (c.activeWith? id').isSome = true → t = id' := by
      rw [hactive]
      intro t h
      cases h
    simp only [Option.map_none, Option.none_or]
    cases c.waiting.get? id' with
    | some t => exact c.holding_putTask_of_ne hne (hnone _)
    | none => exact (c.count _).holding_putTask_of_ne hne (hnone _)

/-- Handing over a task with a number. -/
theorem holding_handOver_self {t : Task} (ht : t.compileId = id) :
    (c.handOver t).1.holding id = { c.holding id with handedOver := true } := by
  unfold handOver holding isHandedOver
  simp only [KeyMap.get?_insert, ht, if_true]
  rfl

/-- Handing over a task leaves every other number alone. -/
theorem holding_handOver_of_ne {t : Task} (ht : t.compileId ≠ id) :
    (c.handOver t).1.holding id = c.holding id := by
  unfold handOver holding isHandedOver
  simp only [KeyMap.get?_insert, if_neg ht]
  rfl

/-- Cutting the task under way short leaves those that wait. -/
theorem waiting_abandonActive : c.abandonActive.1.waiting = c.waiting := by
  unfold abandonActive
  split <;> rfl

/-- Taking over the task that waits under a number leaves every other number alone. -/
theorem holding_takeWaiting_of_ne {id' : UInt64} (hne : id' ≠ id) :
    (c.takeWaiting id').1.holding id = c.holding id := by
  unfold takeWaiting
  split
  · unfold holding
    simp only [KeyMap.get?_erase, if_neg hne]
    rfl
  · simp only
    split <;> rfl

/-- Putting a task under way that has the number. -/
theorem holding_activate_self {a : Compiling} (h : a.task.compileId = id) :
    holding { c with active := some a } id = { c.holding id with active := some a.task } := by
  unfold holding
  rw [activeWith?_of_active (a := a) rfl, if_pos h]
  rfl

/-- Putting a task under way that has another number. -/
theorem holding_activate_of_ne {a : Compiling} (h : a.task.compileId ≠ id) :
    holding { c with active := some a } id = { c.holding id with active := none } := by
  unfold holding
  rw [activeWith?_of_active (a := a) rfl, if_neg h]
  rfl

/-- Putting back a task of which more was told. -/
theorem revises_putTask {id' : UInt64} {t t' : Task} (hopen : c.openTask? id' = some t)
    (ht : t.Becomes t') (id : UInt64) :
    (c.holding id).Revises ((c.putTask id' t').holding id) := by
  have hrefl := Holding.Revises.refl (c.holding id)
  unfold openTask? at hopen
  cases hactive : c.activeWith? id' with
  | some a =>
    obtain rfl : a.task = t := by simpa [hactive] using hopen
    have hid : t'.compileId = id' :=
      ht.compileId_eq.trans (compileId_of_activeWith? hactive).2
    by_cases hne : id' = id
    · subst hne
      rw [holding_putTask_of_active hactive hid]
      refine ⟨?_, hrefl.waiting, rfl⟩
      unfold holding
      rw [hactive]
      exact .some ht
    · rw [c.holding_putTask_of_ne hne fun _ => hid]
      exact hrefl
  | none =>
    have hwaiting : c.waiting.get? id' = some t := by simpa [hactive] using hopen
    by_cases hne : id' = id
    · subst hne
      rw [holding_putTask_of_waiting hactive]
      refine ⟨hrefl.active, ?_, rfl⟩
      unfold holding
      rw [hwaiting]
      exact .some ht
    · rw [c.holding_putTask_of_ne hne fun h => by rw [hactive] at h; cases h]
      exact hrefl

/-- More is told of the task under way. -/
theorem revises_active {c : Collector} {a a' : Compiling} (hactive : c.active = some a)
    (h : a.task.Becomes a'.task) (id : UInt64) :
    (c.holding id).Revises (holding { c with active := some a' } id) := by
  refine ⟨?_, (Holding.Revises.refl (c.holding id)).waiting, rfl⟩
  unfold holding
  simp only
  rw [activeWith?_of_active hactive, activeWith?_of_active (a := a') rfl, h.compileId_eq]
  split
  · exact .some h
  · exact .none

end Collector

end CompileLog.Collect
