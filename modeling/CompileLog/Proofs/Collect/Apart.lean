import CompileLog.Event.Decode
import CompileLog.Markup.Reading
import CompileLog.Proofs.Collect.Course
import CompileLog.Proofs.Collect.Endings
import CompileLog.Proofs.Collect.Holding

/-!
# What is said of one task leaves the others alone

While the log tells of one task it may queue another, install code of a third, or print that of a
fourth. A queue entry and installed code name their task, and a listing names it or stands at the
address of its code. Each of these changes the task that it is about and nothing else: another task
under way stays as it is, with all that is known of its numbers, its open bodies and what is being
told of it, as do all other tasks that wait. No other task is handed over either.
-/

namespace CompileLog.Collect

/-- The number that an event names which queues a task or installs its code. -/
def addressee? : Event → Option UInt64
  | .taskQueued facts => facts.compileId
  | .nmethod facts => facts.compileId
  | _ => none

/-- The number of the task that a listing is given to. -/
def Collector.addressee? (c : Collector) (l : Listing) : Option UInt64 :=
  l.compileId.or (l.codeAddress.bind c.addresses.get?)

/-- The same task is under way, with what its numbers stand for, its open bodies, the call reached,
the removed operation that is told and its open phases as they were. Unless it has one of some
numbers, nothing was told of it. -/
structure Compiling.SameBut (ids : UInt64 → Prop) (a a' : Compiling) : Prop where
  /-- It has its number. -/
  compileId_eq : a'.task.compileId = a.task.compileId
  /-- All but the task is as it was. -/
  rest_eq : { a' with task := a.task } = a
  /-- Nothing was told of a task with another number. -/
  task_eq : ¬ ids a.task.compileId → a'.task = a.task

namespace Compiling.SameBut

variable {ids ids' : UInt64 → Prop} {a a' a'' : Compiling}

/-- Nothing was told. -/
theorem refl (ids : UInt64 → Prop) (a : Compiling) : a.SameBut ids a := ⟨rfl, rfl, fun _ => rfl⟩

/-- Something was told, and then more. -/
theorem trans (h : a.SameBut ids a') (h' : a'.SameBut ids a'') : a.SameBut ids a'' := by
  refine ⟨h'.compileId_eq.trans h.compileId_eq, ?_, fun hother => ?_⟩
  · rw [← h.rest_eq, ← h'.rest_eq]
  · have hother' : ¬ ids a'.task.compileId := by rwa [h.compileId_eq]
    exact (h'.task_eq hother').trans (h.task_eq hother)

/-- More numbers allow for more. -/
theorem mono (h : a.SameBut ids a') (hids : ∀ id, ids id → ids' id) : a.SameBut ids' a' :=
  ⟨h.compileId_eq, h.rest_eq, fun hother => h.task_eq fun hid => hother (hids _ hid)⟩

/-- A task under way with another number is exactly as it was. -/
theorem eq (h : a.SameBut ids a') (hother : ¬ ids a.task.compileId) : a' = a := by
  have htask := h.task_eq hother
  have hrest := h.rest_eq
  rwa [← htask] at hrest

end Compiling.SameBut

namespace Collector

/-- An operation concerns the tasks with some numbers alone. -/
structure Concerns (ids : UInt64 → Prop) (c : Collector) (r : Collector × List Item) : Prop where
  /-- The same task is under way, and if it has another number it is as it was. -/
  active : Option.Rel (Compiling.SameBut ids) c.active r.1.active
  /-- Under another number the same task waits, as it was, or none. -/
  waiting_eq : ∀ id, ¬ ids id → r.1.waiting.get? id = c.waiting.get? id
  /-- Under another number none is handed over. -/
  handedOver_eq : ∀ id, ¬ ids id → r.1.isHandedOver id = c.isHandedOver id
  /-- Every task that is handed over has one of the numbers. -/
  tasks : ∀ t ∈ tasksOf r.2, ids t.compileId

namespace Concerns

variable {ids ids' : UInt64 → Prop} {c c' : Collector} {r : Collector × List Item}
  {items : List Item}

/-- What changes no task concerns none. -/
theorem of_same (hactive : r.1.active = c.active) (hwaiting : r.1.waiting = c.waiting)
    (hhanded : r.1.handedOver = c.handedOver) (hitems : tasksOf r.2 = []) :
    Concerns ids c r := by
  refine ⟨?_, fun id _ => by rw [hwaiting], fun id _ => by unfold isHandedOver; rw [hhanded],
    fun t ht => ?_⟩
  · rw [hactive]
    cases c.active with
    | none => exact .none
    | some a => exact .some (.refl ids a)
  · rw [hitems] at ht
    exact absurd ht List.not_mem_nil

/-- A task under way with another number stays exactly as it was. -/
theorem active_eq (h : Concerns ids c r) {a : Compiling} (ha : c.active = some a)
    (hother : ¬ ids a.task.compileId) : r.1.active = some a := by
  have hactive := h.active
  rw [ha] at hactive
  revert hactive
  generalize r.1.active = behind
  rintro (hsame | _)
  rw [hsame.eq hother]

/-- Two operations one after the other. -/
theorem trans (h : Concerns ids c (c', items)) (h' : Concerns ids c' r) :
    Concerns ids c (r.1, items ++ r.2) := by
  refine ⟨?_, fun id hid => (h'.waiting_eq id hid).trans (h.waiting_eq id hid),
    fun id hid => (h'.handedOver_eq id hid).trans (h.handedOver_eq id hid), fun t ht => ?_⟩
  · have hfirst := h.active
    have hsecond := h'.active
    revert hfirst hsecond
    generalize c.active = before, c'.active = between, r.1.active = behind
    rintro (hsame | _) hsecond
    · cases hsecond with
      | some hsame' => exact .some (hsame.trans hsame')
    · cases hsecond
      exact .none
  · rw [tasksOf_append] at ht
    rcases List.mem_append.mp ht with ht | ht
    · exact h.tasks t ht
    · exact h'.tasks t ht

/-- More numbers allow for more. -/
theorem mono (h : Concerns ids c r) (hids : ∀ id, ids id → ids' id) : Concerns ids' c r := by
  refine ⟨?_, fun id hid => h.waiting_eq id fun hin => hid (hids id hin),
    fun id hid => h.handedOver_eq id fun hin => hid (hids id hin),
    fun t ht => hids _ (h.tasks t ht)⟩
  have hactive := h.active
  revert hactive
  generalize c.active = before, r.1.active = behind
  rintro (hsame | _)
  · exact .some (hsame.mono hids)
  · exact .none

/-- It depends on the tasks alone what an operation concerns. -/
theorem congr (h : Concerns ids c' r) (hactive : c'.active = c.active)
    (hwaiting : c'.waiting = c.waiting) (hhanded : c'.handedOver = c.handedOver) :
    Concerns ids c r := by
  have hsame : Concerns ids c (c', []) := of_same hactive hwaiting hhanded rfl
  exact hsame.trans h

/-- One operation after the other, as many as there are, while something holds. By induction on
them. -/
theorem each {α : Type} {P : Collector → Prop} {f : Collector → α → Collector × List Item}
    {l : List α} (hf : ∀ c, P c → ∀ a ∈ l, Concerns ids c (f c a) ∧ P (f c a).1) (h : P c) :
    Concerns ids c (c.each f l) := by
  induction l generalizing c with
  | nil => exact of_same rfl rfl rfl rfl
  | cons a rest ih =>
    obtain ⟨hfirst, hkept⟩ := hf c h a List.mem_cons_self
    exact hfirst.trans (ih (fun c hc b hb => hf c hc b (List.mem_cons_of_mem a hb)) hkept)

end Concerns

variable (c : Collector)

/-- Putting back a task concerns its number. -/
theorem concerns_putTask {id : UInt64} {t : Task}
    (ht : (c.activeWith? id).isSome = true → t.compileId = id) :
    Concerns (· = id) c (c.putTask id t, []) := by
  unfold putTask
  cases hactive : c.activeWith? id with
  | some a =>
    obtain ⟨hunderway, hid⟩ := compileId_of_activeWith? hactive
    have ht' : t.compileId = id := ht (by rw [hactive]; rfl)
    refine ⟨?_, fun _ _ => rfl, fun _ _ => rfl, fun _ hin => absurd hin List.not_mem_nil⟩
    rw [hunderway]
    exact .some ⟨ht'.trans hid.symm, rfl, fun hother => absurd hid hother⟩
  | none =>
    have hsame : Concerns (· = id) c (c, []) := .of_same rfl rfl rfl rfl
    refine ⟨hsame.active, fun id' hne => ?_, fun _ _ => rfl, hsame.tasks⟩
    rw [KeyMap.get?_insert, if_neg (Ne.symm hne)]

/-- Telling more of a task that is not handed over concerns its number. -/
theorem concerns_tell {id : UInt64} {t : Task} {f : Task → Task} (hopen : c.openTask? id = some t)
    (hf : Told f) : Concerns (· = id) c (c.putTask id (f t), []) := by
  refine c.concerns_putTask fun hactive => ?_
  obtain ⟨a, ha⟩ := Option.isSome_iff_exists.mp hactive
  obtain rfl : a.task = t := by simpa [openTask?, ha] using hopen
  rw [(Task.Annotated.told hf a.task).compileId_eq]
  exact (compileId_of_activeWith? ha).2

/-- So does telling something of a task that may not have been met. -/
theorem concerns_onTask (id : UInt64) (method : Option Method) {f : Task → Task} (hf : Told f) :
    Concerns (· = id) c (c.onTask id method f, []) := by
  unfold onTask
  cases hopen : c.openTask? id with
  | some t => exact c.concerns_tell hopen hf
  | none =>
    have hput : Concerns (· = id) (c.count fun n => { n with implicit := n.implicit + 1 })
        (putTask (c.count fun n => { n with implicit := n.implicit + 1 }) id
          (f (implicitTask id method)), []) :=
      concerns_putTask _ fun _ => (Task.Annotated.told hf _).compileId_eq
    exact hput.congr rfl rfl rfl

/-- Handing over a task concerns its number. -/
theorem concerns_handOver {id : UInt64} {t : Task} (ht : t.compileId = id) :
    Concerns (· = id) c (c.handOver t) := by
  have hsame : Concerns (· = id) c (c, []) := .of_same rfl rfl rfl rfl
  refine ⟨hsame.active, fun _ _ => rfl, fun id' hne => ?_, fun t' ht' => ?_⟩
  · have hkept : (c.handedOver.insert t.compileId ()).get? id' = c.handedOver.get? id' := by
      rw [KeyMap.get?_insert, ht, if_neg (Ne.symm hne)]
    exact congrArg Option.isSome hkept
  · rw [tasksOf_handOver, List.mem_singleton] at ht'
    rw [ht', (Task.Becomes.flagMisplaced t).compileId_eq]
    exact ht

/-- Queueing a task concerns its number. -/
theorem concerns_queueTask {facts : TaskFacts} {id : UInt64} (hid : facts.compileId = some id)
    {flags : List TaskFlag} (hflags : Unread flags) :
    Concerns (· = id) c (c.queueTask facts flags, []) := by
  unfold queueTask
  rw [hid]
  simp only
  split
  · exact .of_same rfl rfl rfl rfl
  · exact c.concerns_onTask id _ (.queued facts hflags)

/-- Installing code concerns the number that it names. -/
theorem concerns_installCode {facts : NativeFacts} {id : UInt64} (hid : facts.compileId = some id)
    {flags : List TaskFlag} (hflags : Unread flags) :
    Concerns (· = id) c (c.installCode facts flags) := by
  obtain ⟨addresses, heq⟩ := c.installCode_eq hid flags
  have hplaced : Concerns (· = id) { c with addresses } (c.installCode facts flags) := by
    rw [heq]
    split_ifs
    · exact .of_same rfl rfl rfl rfl
    · refine concerns_handOver _ ?_
      exact (Task.Becomes.flagMisplaced _).compileId_eq.symm.trans
        (wrapperTask_course id facts hflags).1
    · exact concerns_onTask _ id _ (.installed facts hflags)
  exact hplaced.congr rfl rfl rfl

/-- Taking in an event that queues a task or installs its code concerns the number that it names. -/
theorem concerns_take {e : Event} {id : UInt64} (he : Collect.addressee? e = some id)
    (shape : Shape) {flags : List TaskFlag} (hflags : Unread flags) :
    Concerns (· = id) c (c.take shape flags e) := by
  cases e with
  | taskQueued facts => exact c.concerns_queueTask he hflags
  | nmethod facts => exact c.concerns_installCode he hflags
  | _ => cases he

/-- Putting back a task leaves the addresses of all code. -/
theorem addresses_putTask (id : UInt64) (t : Task) : (c.putTask id t).addresses = c.addresses := by
  unfold putTask
  split <;> rfl

/-- Placing a listing concerns the number of the task that it is given to, if there is one, and
leaves the addresses of all code. -/
theorem concerns_placeListing (l : Listing) :
    Concerns (fun id => c.addressee? l = some id) c (c.placeListing l) ∧
      (c.placeListing l).1.addresses = c.addresses := by
  have haddressee : l.compileId.or (l.codeAddress.bind c.addresses.get?) = c.addressee? l := rfl
  unfold placeListing
  rw [haddressee]
  cases c.addressee? l with
  | none => exact ⟨.of_same rfl rfl rfl rfl, rfl⟩
  | some id =>
    simp only
    cases hopen : c.openTask? id with
    | none => exact ⟨.of_same rfl rfl rfl rfl, rfl⟩
    | some t =>
      refine ⟨?_, c.addresses_putTask id _⟩
      exact (c.concerns_tell hopen (.printed c.retainListings l)).mono fun _ h => h ▸ rfl

/-- Reading the printed machine code concerns the numbers of the tasks that its listings are given
to. -/
theorem concerns_flush :
    Concerns (fun id => ∃ l ∈ listingsOf c.printed, c.addressee? l = some id) c c.flush := by
  have hplaced : Concerns (fun id => ∃ l ∈ listingsOf c.printed, c.addressee? l = some id)
      { c with printed := "" } c.flush := by
    refine Concerns.each (P := fun c' => c'.addresses = c.addresses)
      (fun c' haddresses l hl => ?_) rfl
    obtain ⟨hconcerns, hkept⟩ := c'.concerns_placeListing l
    refine ⟨hconcerns.mono fun id hid => ⟨l, hl, ?_⟩, hkept.trans haddresses⟩
    unfold addressee? at hid ⊢
    rwa [haddresses] at hid
  exact hplaced.congr rfl rfl rfl

/-- Taking in such an event after the listings printed before it concerns the number that the event
names and those of the tasks that the listings are given to. -/
theorem concerns_accept {e : LogEvent} {id : UInt64} (he : Collect.addressee? e.event = some id) :
    Concerns (fun k => k = id ∨ ∃ l ∈ listingsOf c.printed, c.addressee? l = some k) c
      (c.accept e) := by
  have hflushed : Concerns
      (fun k => k = id ∨ ∃ l ∈ listingsOf c.printed, c.addressee? l = some k) c
      (c.flushBefore e.event) := by
    unfold flushBefore
    split
    · exact .of_same rfl rfl rfl rfl
    · exact c.concerns_flush.mono fun _ hk => .inr hk
  have htaken : Concerns (· = id) (c.flushBefore e.event).1
      (take ((c.flushBefore e.event).1.count fun n =>
        { n with unreadAttributes := n.unreadAttributes + e.unread.length }) e.shape
        (unreadFlags e) e.event) :=
    (concerns_take _ he e.shape (unread_unreadFlags e)).congr rfl rfl rfl
  exact hflushed.trans (htaken.mono fun _ hk => .inl hk)

/-- Whatever a collector was given, every task that waits has the number that it waits under, and
what is said of one task concerns its number alone: an event that queues a task or installs its code
concerns the number that it names, and a listing the number of the task that it is given to. A
collector that takes in such an event reads the listings printed before it first. -/
theorem said_of_one_leaves_others (retain : Bool) (inputs : List Input) :
    let c := (feed retain inputs).1
    (∀ id t, c.waiting.get? id = some t → t.compileId = id) ∧
      (∀ (e : LogEvent) (id : UInt64), Collect.addressee? e.event = some id →
        Concerns (· = id) c (c.take e.shape (unreadFlags e) e.event) ∧
        Concerns (fun k => k = id ∨ ∃ l ∈ listingsOf c.printed, c.addressee? l = some k) c
          (c.accept e)) ∧
      (∀ (l : Listing) (id : UInt64), c.addressee? l = some id →
        Concerns (· = id) c (c.placeListing l)) ∧
      Concerns (fun k => ∃ l ∈ listingsOf c.printed, c.addressee? l = some k) c c.flush := by
  intro c
  have hstart : (start retain).Holds Unparsed fun _ => True :=
    ⟨fun id t hfound => by simp [start] at hfound, fun _ _ => trivial⟩
  have hwaiting := (Keeps.each Unparsed.custody.keeps_give (start retain) inputs hstart).1.waiting
  refine ⟨fun id t hfound => (hwaiting id t hfound).compileId_eq, fun e id he => ⟨?_, ?_⟩,
    fun l id hl => ?_, c.concerns_flush⟩
  · exact c.concerns_take he e.shape (unread_unreadFlags e)
  · exact c.concerns_accept he
  · refine (c.concerns_placeListing l).1.mono fun k hk => ?_
    exact Option.some.inj (hk.symm.trans hl)

/-- While the body of one method is told another task is queued. The one under way stays as it was.
-/
theorem said_of_one_leaves_others_queued :
    let log := Text.Utf8.encode "<task compile_id='1' method='A a ()V'><parse method='1'>"
    let events := (Markup.read .never log).fragments.map (decode .builtin)
    let c := (feed false (events.map .event)).1
    let e : LogEvent :=
      ⟨.empty, "task_queued", .taskQueued { (default : TaskFacts) with compileId := some 2 }, [], 1,
        none, 0⟩
    ∃ a, c.active = some a ∧ a.task.compileId = 1 ∧ a.bodies.length = 1 ∧
      Collect.addressee? e.event = some 2 ∧
      (c.take e.shape (unreadFlags e) e.event).1.active = some a := by
  intro log events c e
  have hunderway : (c.active.map fun a => (a.task.compileId, a.bodies.length)) = some (1, 1) := by
    decide +kernel
  obtain ⟨a, ha, hknown⟩ := Option.map_eq_some_iff.mp hunderway
  obtain ⟨hid, hbodies⟩ := Prod.mk.inj hknown
  obtain ⟨_, hevents, _⟩ := said_of_one_leaves_others false (events.map .event)
  have hother : ¬ a.task.compileId = 2 := by
    rw [hid]
    decide
  exact ⟨a, ha, hid, hbodies, rfl, (hevents e 2 rfl).1.active_eq ha hother⟩

end Collector

end CompileLog.Collect
