import CompileLog.Proofs.Collect.Course

/-!
# Desks and moves

What a collector knows of its tasks changes in a few ways: a task is met and waits, it begins, more
is told of it, it is handed over. Each of them is a move. What every move respects therefore holds
after every run of moves, whatever brought the moves about.

A desk also keeps what was heard of the task under way since it began. A collector keeps no such
record; it is there to say what the outcome of a task goes back to.
-/

namespace CompileLog.Collect

/-! ### Desks -/

/-- What a collector knows of its tasks, with what was heard of the task under way. -/
structure Desk where
  /-- The task under way. -/
  active : Option Task
  /-- The tasks that wait. -/
  waiting : KeyMap UInt64 Task
  /-- The numbers of the tasks handed over. -/
  handedOver : KeyMap UInt64 Unit
  /-- What was heard of the task under way since it began. -/
  heard : Option (List Event)

namespace Desk

variable (d : Desk)

/-- Whether a task with a number was handed over. -/
def isHandedOver (id : UInt64) : Bool := (d.handedOver.get? id).isSome

/-- Whether the task under way has a number. -/
def IsActive (id : UInt64) : Prop := ∃ t, d.active = some t ∧ t.compileId = id

/-- A task is handed over. -/
def handOver (t : Task) : Desk :=
  { d with handedOver := d.handedOver.insert t.compileId () }

/-- A number is known once a task with it was handed over. -/
theorem isHandedOver_handOver (t : Task) (id : UInt64) :
    (d.handOver t).isHandedOver id = true ↔ t.compileId = id ∨ d.isHandedOver id = true := by
  unfold isHandedOver handOver
  simp only [KeyMap.get?_insert]
  by_cases hid : t.compileId = id <;> simp [hid]

end Desk

/-! ### One move -/

/-- A move changes what is known of the tasks and hands something over. -/
inductive Move : Desk → List Item → Desk → Prop where
  /-- No task is handed over. Late code belongs to a task that was handed over. -/
  | passes {d : Desk} {items : List Item} (htasks : tasksOf items = [])
      (hlate : ∀ id native, .lateNative id native ∈ items → d.isHandedOver id = true) :
      Move d items d
  /-- An event is heard. If it is a failure then no task is under way. -/
  | hears {d : Desk} {e : Event} (he : d.active = none ∨ e.isFailure = false) :
      Move d [] { d with heard := d.heard.map (· ++ [e]) }
  /-- A failure of the task under way is heard. -/
  | fails {d : Desk} {t t' : Task} {reason : Option String} {stamp : Option Stamp}
      (ht : d.active = some t) (hsame : t.SameMarks t') (houtcome : t'.outcome = .failed reason) :
      Move d [] { d with
        active := some t'
        heard := d.heard.map (· ++ [.failure reason stamp]) }
  /-- No task is under way, and nothing is heard of one. -/
  | idles {d : Desk} (hidle : d.active = none) : Move d [] { d with heard := none }
  /-- More is told of the task under way. -/
  | tells {d : Desk} {t t' : Task} (ht : d.active = some t) (hsame : t.SameCourse t') :
      Move d [] { d with active := some t' }
  /-- More is told of a task that waits. -/
  | foretells {d : Desk} {id : UInt64} {t t' : Task} (ht : d.waiting.get? id = some t)
      (hsame : t.SameCourse t') : Move d [] { d with waiting := d.waiting.insert id t' }
  /-- A task is met before it begins. -/
  | meets {d : Desk} {t : Task} (hactive : ¬ d.IsActive t.compileId)
      (hhanded : d.isHandedOver t.compileId = false) (houtcome : t.outcome = .pending)
      (hnew : .duplicateCompileId ∉ t.flags) :
      Move d [] { d with waiting := d.waiting.insert t.compileId t }
  /-- A task that waits begins. -/
  | begins {d : Desk} {id : UInt64} {t t' : Task} (hidle : d.active = none)
      (ht : d.waiting.get? id = some t) (hsame : t.SameNumber t')
      (houtcome : t'.outcome = t.outcome) :
      Move d [] { d with active := some t', waiting := d.waiting.erase id, heard := some [] }
  /-- A task that does not wait begins. It is flagged if its number was used before. -/
  | opens {d : Desk} {t : Task} (hidle : d.active = none)
      (hwaiting : d.waiting.get? t.compileId = none) (houtcome : t.outcome = .pending)
      (hagain : .duplicateCompileId ∈ t.flags ↔ d.isHandedOver t.compileId = true) :
      Move d [] { d with active := some t, heard := some [] }
  /-- The task under way is handed over. -/
  | leaves {d : Desk} {t t' : Task} (ht : d.active = some t) (hsame : t.SameNumber t') :
      Move d [.task t'] ({ d with active := none, heard := none }.handOver t')
  /-- A task that waits is handed over. -/
  | forgets {d : Desk} {id : UInt64} {t t' : Task} (ht : d.waiting.get? id = some t)
      (hsame : t.SameNumber t') :
      Move d [.task t'] ({ d with waiting := d.waiting.erase id }.handOver t')
  /-- A bridge to native code is handed over. -/
  | bridges {d : Desk} {t : Task} (hactive : ¬ d.IsActive t.compileId)
      (hwaiting : d.waiting.get? t.compileId = none)
      (hhanded : d.isHandedOver t.compileId = false) (hnew : .duplicateCompileId ∉ t.flags) :
      Move d [.task t] (d.handOver t)

/-! ### Runs of moves -/

/-- A run of moves, with all that it hands over. -/
inductive Moves : Desk → List Item → Desk → Prop where
  /-- No move. -/
  | stay {d : Desk} : Moves d [] d
  /-- Another move. -/
  | step {d d' d'' : Desk} {items items' : List Item} (h : Moves d items d')
      (hmove : Move d' items' d'') : Moves d (items ++ items') d''

namespace Moves

variable {d d' d'' : Desk} {items items' : List Item}

/-- One move. -/
theorem one (h : Move d items d') : Moves d items d' := Moves.stay.step h

/-- One run after another. By induction on the later one. -/
theorem trans (h : Moves d items d') (h' : Moves d' items' d'') :
    Moves d (items ++ items') d'' := by
  induction h' with
  | stay => rwa [List.append_nil]
  | step h' hmove ih =>
    rw [← List.append_assoc]
    exact ih.step hmove

/-- What every move respects holds after a run. By induction on the run. -/
theorem respect {P : List Item → Desk → Prop}
    (hstep : ∀ {before items : List Item} {d d' : Desk}, P before d → Move d items d' →
      P (before ++ items) d')
    (before : List Item) (hbefore : P before d) (h : Moves d items d') :
    P (before ++ items) d' := by
  induction h with
  | stay => rwa [List.append_nil]
  | step h hmove ih =>
    rw [← List.append_assoc]
    exact hstep ih hmove

end Moves

end CompileLog.Collect
