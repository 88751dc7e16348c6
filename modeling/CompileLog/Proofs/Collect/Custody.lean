import CompileLog.Proofs.Collect.Handover
import CompileLog.Proofs.KeyMap
import Mathlib.Tactic.SplitIfs

/-!
# What holds of every task

A collector keeps the task under way and the tasks that wait until it hands them over. Whatever a
log says, it changes a task that it keeps in one of a few ways, and hands it over in one of a few
ways. So what each of these brings about holds of every task that a log hands over.
-/

namespace CompileLog.Collect

/-- Flags that tell of attributes that could not be read. -/
def Unread (flags : List TaskFlag) : Prop :=
  ∀ f ∈ flags, ∃ tag attr raw, f = .unreadAttribute tag attr raw

/-- What is noted of an event tells of attributes that could not be read. -/
theorem Collector.unread_unreadFlags (e : LogEvent) : Unread (unreadFlags e) := by
  intro f hf
  obtain ⟨u, _, rfl⟩ := List.mem_map.mp hf
  exact ⟨e.tag, u.name, u.raw, rfl⟩

/-- How more is told of a task, whether it has begun or not. -/
inductive Told : (Task → Task) → Prop where
  /-- It is queued. -/
  | queued (facts : TaskFacts) {flags : List TaskFlag} (hflags : Unread flags) :
      Told (Collector.noteQueued facts flags)
  /-- Its code is installed. -/
  | installed (facts : NativeFacts) {flags : List TaskFlag} (hflags : Unread flags) :
      Told (Collector.install facts flags)
  /-- Its code is printed. -/
  | printed (retain : Bool) (l : Listing) : Told (Collector.addListing retain l)

/-- A task that is about to begin under a number. -/
inductive Taken (W : UInt64 → Task → Prop) (id : UInt64) : Task → Prop where
  /-- It waited. -/
  | waiting {t : Task} (h : W id t) :
      Taken W id { t with flags := t.flags.filter fun f => f ≠ .implicitlyOpened }
  /-- It is new. -/
  | new : Taken W id (.new id .unresolved)
  /-- It is new, but its number is not. -/
  | again : Taken W id ((Task.new id .unresolved).flag .duplicateCompileId)

/-- What holds of the task under way and of every task that is handed over, if each way of changing
and handing over a task without giving it a method brings it about. -/
structure Passage (W : UInt64 → Task → Prop) (A : Compiling → Prop) (H : Task → Prop) : Prop where
  /-- An event is about the task under way. -/
  heard : ∀ {a flags} shape e, Unread flags → A a →
    A ({ a with task := Collector.withFlags flags a.task }.take shape e)
  /-- A frame is told. -/
  framed : ∀ {a} bci method methodId, A a → A (a.addFrame bci method methodId)
  /-- The task under way is finished. -/
  finished : ∀ {a flags} success nativeSize inlinedBytes stamp, Unread flags → A a →
    H (Collector.flagMisplaced (a.finished success nativeSize inlinedBytes stamp flags))
  /-- The task under way is cut short. -/
  cut : ∀ {a}, A a → H (Collector.flagMisplaced (Collector.cutShort a.task))
  /-- A task never begins. -/
  forgotten : ∀ {id t}, W id t → H (Collector.flagMisplaced (Collector.cutShort t))

/-- What holds of every task that waits, of the task under way and of every task that is handed
over, if each way of changing and handing over a task brings it about. -/
structure Custody (W : UInt64 → Task → Prop) (A : Compiling → Prop) (H : Task → Prop) : Prop
    extends Passage W A H where
  /-- A task is met before it begins. -/
  met : ∀ id method, W id (Collector.implicitTask id method)
  /-- More is told of a task that waits. -/
  told_waiting : ∀ {id t f}, Told f → W id t → W id (f t)
  /-- More is told of the task under way. -/
  told_active : ∀ {a f}, Told f → A a → A { a with task := f a.task }
  /-- A task begins. -/
  begun : ∀ {id t flags} facts thread, Unread flags → Taken W id t →
    A (.start (Collector.beginTask facts thread flags t))
  /-- A bridge to native code comes alone. -/
  bridged : ∀ {flags} id facts, Unread flags →
    H (Collector.flagMisplaced (Collector.wrapperTask id facts flags))

/-! ### What only some logs tell -/

/-- Whether every method that an event gives to a task has a property. -/
def NamesOnly (M : Method → Prop) : Event → Prop
  | .taskQueued facts | .taskStart facts => ∀ m ∈ facts.method, M m
  | .nmethod facts => ∀ m ∈ facts.method, M m
  | _ => True

/-- How more is told of a task where every method has a property. -/
inductive ToldOf (M : Method → Prop) : (Task → Task) → Prop where
  /-- It is queued. -/
  | queued {facts : TaskFacts} (hmethod : ∀ m ∈ facts.method, M m) {flags : List TaskFlag}
      (hflags : Unread flags) : ToldOf M (Collector.noteQueued facts flags)
  /-- Its code is installed. -/
  | installed {facts : NativeFacts} (hmethod : ∀ m ∈ facts.method, M m) {flags : List TaskFlag}
      (hflags : Unread flags) : ToldOf M (Collector.install facts flags)
  /-- Its code is printed. -/
  | printed (retain : Bool) (l : Listing) : ToldOf M (Collector.addListing retain l)

/-- What holds of every task that waits, of the task under way and of every task that is handed
over, if each way of changing and handing over a task brings it about where every method that a log
gives to a task has a property. -/
structure CustodyOf (M : Method → Prop) (W : UInt64 → Task → Prop) (A : Compiling → Prop)
    (H : Task → Prop) : Prop extends Passage W A H where
  /-- A task is met before it begins. -/
  met : ∀ id {method : Option Method}, (∀ m ∈ method, M m) →
    W id (Collector.implicitTask id method)
  /-- More is told of a task that waits. -/
  told_waiting : ∀ {id t f}, ToldOf M f → W id t → W id (f t)
  /-- More is told of the task under way. -/
  told_active : ∀ {a f}, ToldOf M f → A a → A { a with task := f a.task }
  /-- A task begins. -/
  begun : ∀ {id t flags} {facts : TaskFacts} thread, (∀ m ∈ facts.method, M m) → Unread flags →
    Taken W id t → A (.start (Collector.beginTask facts thread flags t))
  /-- A bridge to native code comes alone. -/
  bridged : ∀ {flags} id {facts : NativeFacts}, (∀ m ∈ facts.method, M m) → Unread flags →
    H (Collector.flagMisplaced (Collector.wrapperTask id facts flags))

/-- What is told where methods have a property, is told. -/
theorem ToldOf.told {M : Method → Prop} {f : Task → Task} (h : ToldOf M f) : Told f := by
  cases h with
  | queued _ hflags => exact .queued _ hflags
  | installed _ hflags => exact .installed _ hflags
  | printed retain l => exact .printed retain l

/-- What is brought about whatever is said, is so where nothing is asked of methods. -/
theorem Custody.custodyOf {W : UInt64 → Task → Prop} {A : Compiling → Prop} {H : Task → Prop}
    (h : Custody W A H) : CustodyOf (fun _ => True) W A H where
  toPassage := h.toPassage
  met id method _ := h.met id method
  told_waiting hf := h.told_waiting hf.told
  told_active hf := h.told_active hf.told
  begun thread _ := h.begun _ thread
  bridged id _ _ := h.bridged id _

/-- Nothing is asked of the methods that an event gives to a task. -/
theorem namesOnly_true (e : Event) : NamesOnly (fun _ => True) e := by
  cases e with
  | taskQueued | taskStart | nmethod => exact fun _ _ => trivial
  | _ => trivial

namespace Collector

/-- What holds of the tasks that a collector keeps. -/
structure Holds (W : UInt64 → Task → Prop) (A : Compiling → Prop) (c : Collector) : Prop where
  /-- It holds of the tasks that wait. -/
  waiting : ∀ id t, c.waiting.get? id = some t → W id t
  /-- It holds of the task under way. -/
  active : ∀ a, c.active = some a → A a

variable {W : UInt64 → Task → Prop} {A : Compiling → Prop} {H : Task → Prop}

/-- An operation keeps what holds of the tasks kept, and hands over tasks of which something
holds. -/
def Keeps (W : UInt64 → Task → Prop) (A : Compiling → Prop) (H : Task → Prop) (c : Collector)
    (r : Collector × List Item) : Prop :=
  c.Holds W A → r.1.Holds W A ∧ ∀ t ∈ tasksOf r.2, H t

namespace Keeps

variable {c c' : Collector} {items : List Item}

/-- What changes no task keeps what holds of them. -/
theorem of_same {r : Collector × List Item} (hactive : r.1.active = c.active)
    (hwaiting : r.1.waiting = c.waiting) (hitems : tasksOf r.2 = []) : Keeps W A H c r := by
  intro h
  refine ⟨⟨?_, ?_⟩, ?_⟩
  · rw [hwaiting]
    exact h.waiting
  · rw [hactive]
    exact h.active
  · rw [hitems]
    simp

/-- Two operations one after the other. -/
theorem trans {r : Collector × List Item} (h : Keeps W A H c (c', items))
    (h' : Keeps W A H c' r) : Keeps W A H c (r.1, items ++ r.2) := by
  intro hholds
  obtain ⟨hholds', hitems⟩ := h hholds
  obtain ⟨hlast, hitems'⟩ := h' hholds'
  refine ⟨hlast, fun t ht => ?_⟩
  rw [tasksOf_append, List.mem_append] at ht
  exact ht.elim (hitems t) (hitems' t)

/-- An operation depends on the tasks alone. -/
theorem congr {r : Collector × List Item} (h : Keeps W A H c' r) (hactive : c'.active = c.active)
    (hwaiting : c'.waiting = c.waiting) : Keeps W A H c r := by
  intro hholds
  exact h ⟨hwaiting ▸ hholds.waiting, hactive ▸ hholds.active⟩

/-- A task is handed over. -/
theorem handOver (c : Collector) {t : Task} (ht : H (flagMisplaced t)) :
    Keeps W A H c (c.handOver t) := by
  intro hholds
  refine ⟨⟨hholds.waiting, hholds.active⟩, fun t' ht' => ?_⟩
  obtain rfl := List.mem_singleton.mp ht'
  exact ht

/-- The task under way is handed over. -/
theorem handOver_active (c : Collector) {t : Task} (ht : H (flagMisplaced t)) :
    Keeps W A H c ({ c with active := none }.handOver t) := by
  intro hholds
  refine handOver { c with active := none } ht ⟨hholds.waiting, fun a ha => ?_⟩
  cases ha

/-- One operation after the other, for each of some things. By induction on these. -/
theorem each_of_mem {α : Type} {f : Collector → α → Collector × List Item} {l : List α}
    (hf : ∀ c, ∀ a ∈ l, Keeps W A H c (f c a)) (c : Collector) : Keeps W A H c (c.each f l) := by
  induction l generalizing c with
  | nil => exact .of_same rfl rfl rfl
  | cons a rest ih =>
    have hrest := ih (fun c b hb => hf c b (List.mem_cons_of_mem a hb)) (f c a).1
    exact (hf c a List.mem_cons_self).trans hrest

/-- One operation after the other, as many as there are. -/
theorem each {α : Type} {f : Collector → α → Collector × List Item}
    (hf : ∀ c a, Keeps W A H c (f c a)) (c : Collector) (l : List α) :
    Keeps W A H c (c.each f l) :=
  each_of_mem (fun c a _ => hf c a) c

end Keeps

end Collector

/-- The task that begins under a number is taken from those that wait, or is new. -/
theorem Custody.takeWaiting {W : UInt64 → Task → Prop} {A : Compiling → Prop} {c : Collector}
    (hholds : c.Holds W A) (id : UInt64) :
    (c.takeWaiting id).1.Holds W A ∧ Taken W id (c.takeWaiting id).2 := by
  unfold Collector.takeWaiting
  split
  · next t hfound =>
    refine ⟨⟨fun id' t' hfound' => ?_, hholds.active⟩, .waiting (hholds.waiting id t hfound)⟩
    simp only [KeyMap.get?_erase] at hfound'
    split_ifs at hfound'
    exact hholds.waiting id' t' hfound'
  · simp only
    split
    · exact ⟨⟨hholds.waiting, hholds.active⟩, .again⟩
    · exact ⟨hholds, .new⟩

namespace CustodyOf

open Collector

variable {M : Method → Prop} {W : UInt64 → Task → Prop} {A : Compiling → Prop} {H : Task → Prop}
  (h : CustodyOf M W A H)
include h

/-- More is told of a task that is not handed over. -/
theorem keeps_tell {c : Collector} {id : UInt64} {t : Task} {f : Task → Task}
    (hopen : c.openTask? id = some t) (hf : ToldOf M f) :
    Keeps W A H c (c.putTask id (f t), []) := by
  intro hholds
  refine ⟨?_, by simp⟩
  obtain ⟨a, hunderway, rfl, _, heq⟩ | ⟨_, hwaits, heq⟩ := putTask_cases hopen (f t)
  · simp only [heq]
    refine ⟨hholds.waiting, fun a' ha' => ?_⟩
    obtain rfl := Option.some.inj ha'
    exact h.told_active hf (hholds.active a hunderway)
  · simp only [heq]
    refine ⟨fun id' t' hfound => ?_, hholds.active⟩
    simp only [KeyMap.get?_insert] at hfound
    split_ifs at hfound with hid
    · subst hid
      obtain rfl := Option.some.inj hfound
      exact h.told_waiting hf (hholds.waiting id t hwaits)
    · exact hholds.waiting id' t' hfound

/-- More is told of a task that may not have been met. -/
theorem keeps_onTask (c : Collector) (id : UInt64) {method : Option Method}
    (hmethod : ∀ m ∈ method, M m) {f : Task → Task} (hf : ToldOf M f) :
    Keeps W A H c (c.onTask id method f, []) := by
  obtain ⟨t, hopen, heq⟩ | ⟨_, heq⟩ := c.onTask_cases id method f
  · rw [heq]
    exact h.keeps_tell hopen hf
  · intro hholds
    refine ⟨?_, by simp⟩
    simp only [heq]
    refine ⟨fun id' t' hfound => ?_, hholds.active⟩
    simp only [KeyMap.get?_insert] at hfound
    split_ifs at hfound with hid
    · subst hid
      obtain rfl := Option.some.inj hfound
      exact h.told_waiting hf (h.met id hmethod)
    · exact hholds.waiting id' t' hfound

/-- A task is queued. -/
theorem keeps_queueTask (c : Collector) {facts : TaskFacts} (hmethod : ∀ m ∈ facts.method, M m)
    {flags : List TaskFlag} (hflags : Unread flags) :
    Keeps W A H c (c.queueTask facts flags, []) := by
  unfold queueTask
  split
  · exact .of_same rfl rfl rfl
  · split
    · exact .of_same rfl rfl rfl
    · exact h.keeps_onTask c _ hmethod (.queued hmethod hflags)

/-- Code is installed. -/
theorem keeps_installCode (c : Collector) {facts : NativeFacts}
    (hmethod : ∀ m ∈ facts.method, M m) {flags : List TaskFlag} (hflags : Unread flags) :
    Keeps W A H c (c.installCode facts flags) := by
  obtain heq | ⟨id, addresses, ⟨_, heq⟩ | ⟨_, _, heq⟩ | ⟨_, heq⟩⟩ := c.installCode_cases facts flags
  all_goals rw [heq]
  · exact .of_same rfl rfl rfl
  · exact .of_same rfl rfl rfl
  · exact (Keeps.handOver { c with addresses } (h.bridged id hmethod hflags)).congr rfl rfl
  · exact (h.keeps_onTask { c with addresses } id hmethod (.installed hmethod hflags)).congr rfl rfl

/-- A listing is placed. -/
theorem keeps_placeListing (c : Collector) (l : Listing) : Keeps W A H c (c.placeListing l) := by
  unfold placeListing
  split
  · exact .of_same rfl rfl rfl
  · split
    · next hopen => exact h.keeps_tell hopen (.printed c.retainListings l)
    · exact .of_same rfl rfl rfl

/-- The printed machine code is read. -/
theorem keeps_flush (c : Collector) : Keeps W A H c c.flush := by
  have hcleared : Keeps W A H { c with printed := "" } c.flush :=
    .each (fun c l => h.keeps_placeListing c l) _ _
  exact hcleared.congr rfl rfl

/-- The task under way is cut short. -/
theorem keeps_abandonActive (c : Collector) : Keeps W A H c c.abandonActive := by
  intro hholds
  unfold abandonActive
  cases hactive : c.active with
  | none => exact ⟨hholds, by simp⟩
  | some a => exact Keeps.handOver_active c (h.cut (hholds.active a hactive)) hholds

/-- The task under way is finished. -/
theorem keeps_finishTask (c : Collector) (success : Option Bool)
    (nativeSize inlinedBytes : Option UInt64) (stamp : Option Stamp) {flags : List TaskFlag}
    (hflags : Unread flags) :
    Keeps W A H c (c.finishTask success nativeSize inlinedBytes stamp flags) := by
  intro hholds
  cases hactive : c.active with
  | none =>
    unfold finishTask
    rw [hactive]
    exact ⟨⟨hholds.waiting, hholds.active⟩, by simp⟩
  | some a =>
    obtain ⟨sample, hsample, heq⟩ :=
      finishTask_of_active hactive success nativeSize inlinedBytes stamp flags
    obtain ⟨hkept, hhanded⟩ := Keeps.handOver_active c
      (h.finished success nativeSize inlinedBytes stamp hflags (hholds.active a hactive)) hholds
    rw [heq]
    refine ⟨hkept, fun t ht => hhanded t ?_⟩
    rw [tasksOf_append, hsample] at ht
    exact ht

/-- A task begins. -/
theorem keeps_startTask (c : Collector) {facts : TaskFacts} (hmethod : ∀ m ∈ facts.method, M m)
    {flags : List TaskFlag} (hflags : Unread flags) : Keeps W A H c (c.startTask facts flags) := by
  intro hholds
  obtain ⟨hkept, hhanded⟩ := h.keeps_abandonActive c hholds
  unfold startTask
  simp only
  generalize hcounted : (if facts.compileId.isNone = true then c.abandonActive.1.countStray
    else c.abandonActive.1) = counted
  have hcounts : counted.Holds W A := by
    subst hcounted
    split
    · exact ⟨hkept.waiting, hkept.active⟩
    · exact hkept
  obtain ⟨hrest, htaken⟩ := Custody.takeWaiting hcounts (facts.compileId.getD noId)
  refine ⟨⟨hrest.waiting, fun a ha => ?_⟩, hhanded⟩
  obtain rfl := Option.some.inj ha
  exact h.begun _ hmethod hflags htaken

/-- Something is said about the task under way. -/
theorem keeps_takeInTask (c : Collector) (shape : Shape) (e : Event) {flags : List TaskFlag}
    (hflags : Unread flags) : Keeps W A H c (c.takeInTask shape e flags, []) := by
  intro hholds
  refine ⟨?_, by simp⟩
  unfold takeInTask
  cases hactive : c.active with
  | none =>
    simp only
    split <;> exact ⟨hholds.waiting, hholds.active⟩
  | some a =>
    refine ⟨hholds.waiting, fun a' ha' => ?_⟩
    obtain rfl := Option.some.inj ha'
    exact h.heard shape e hflags (hholds.active a hactive)

/-- A frame is told. -/
theorem keeps_takeFrame (c : Collector) (bci : Option UInt32) (method : Option Method)
    (methodId : Option UInt64) : Keeps W A H c (c.takeFrame bci method methodId, []) := by
  intro hholds
  refine ⟨?_, by simp⟩
  unfold takeFrame
  split
  · split <;> exact ⟨hholds.waiting, hholds.active⟩
  · refine ⟨hholds.waiting, fun a' ha' => ?_⟩
    obtain ⟨a, hactive, rfl⟩ := Option.map_eq_some_iff.mp ha'
    exact h.framed bci method methodId (hholds.active a hactive)

/-- Whatever an event says, with such methods, it keeps what holds of the tasks. -/
theorem keeps_take (c : Collector) (shape : Shape) {flags : List TaskFlag}
    (hflags : Unread flags) {e : Event} (he : NamesOnly M e) :
    Keeps W A H c (c.take shape flags e) := by
  have hdoes := c.does_take shape flags e
  generalize c.take shape flags e = taken at hdoes
  cases hdoes with
  | queues facts => exact h.keeps_queueTask c he hflags
  | starts facts => exact h.keeps_startTask c he hflags
  | finishes success nativeSize inlinedBytes stamp =>
    exact h.keeps_finishTask c success nativeSize inlinedBytes stamp hflags
  | installs facts => exact h.keeps_installCode c he hflags
  | cutsShort _ thread =>
    intro hholds
    obtain ⟨hkept, hhanded⟩ := h.keeps_abandonActive c hholds
    exact ⟨⟨hkept.waiting, hkept.active⟩, hhanded⟩
  | flushes _ => exact h.keeps_flush c
  | tells _ => exact h.keeps_takeInTask c shape e hflags
  | frames bci method methodId => exact h.keeps_takeFrame c bci method methodId
  | passes _ hsame hitems => exact .of_same hsame.active_eq hsame.waiting_eq hitems

/-- Whatever the next event says, with such methods, it keeps what holds of the tasks. -/
theorem keeps_accept (c : Collector) {e : LogEvent} (he : NamesOnly M e.event) :
    Keeps W A H c (c.accept e) := by
  have hflushed : Keeps W A H c (c.flushBefore e.event) := by
    unfold flushBefore
    split
    · exact .of_same rfl rfl rfl
    · exact h.keeps_flush c
  have htaken : Keeps W A H (c.flushBefore e.event).1
      (take ((c.flushBefore e.event).1.count fun n =>
        { n with unreadAttributes := n.unreadAttributes + e.unread.length }) e.shape
        (unreadFlags e) e.event) :=
    (h.keeps_take _ e.shape (unread_unreadFlags e) he).congr rfl rfl
  exact hflushed.trans htaken

/-- Whatever a log says, with such methods, it keeps what holds of the tasks. -/
theorem keeps_acceptAll (c : Collector) {events : List LogEvent}
    (he : ∀ e ∈ events, NamesOnly M e.event) : Keeps W A H c (c.acceptAll events) :=
  .each_of_mem (fun c e hmem => h.keeps_accept c (he e hmem)) c

/-- The tasks that wait where a log ends are handed over. -/
theorem keeps_abandonWaiting (c : Collector) : Keeps W A H c c.abandonWaiting := by
  intro hholds
  obtain ⟨htasks, hactive, hwaiting⟩ :=
    each_handOver_cutShort { c with waiting := ∅ } (c.waiting.entries.map Prod.snd)
  unfold abandonWaiting
  refine ⟨⟨fun id t hfound => ?_, fun a ha => ?_⟩, fun t ht => ?_⟩
  · rw [hwaiting] at hfound
    simp at hfound
  · rw [hactive] at ha
    exact hholds.active a ha
  · rw [htasks] at ht
    obtain ⟨_, hleft, rfl⟩ := List.mem_map.mp ht
    obtain ⟨e, he, rfl⟩ := List.mem_map.mp hleft
    exact h.forgotten (hholds.waiting e.1 e.2 (KeyMap.get?_of_mem_entries he))

/-- The end of a log keeps what holds of the tasks. -/
theorem keeps_finish (c : Collector) : Keeps W A H c c.finish := by
  have hreleased : Keeps W A H c.flush.1 c.flush.1.releaseTrap := by
    unfold releaseTrap
    split <;> exact .of_same rfl rfl rfl
  exact (((h.keeps_flush c).trans hreleased).trans (h.keeps_abandonActive _)).trans
    (h.keeps_abandonWaiting _)

/-- What holds of tasks that are handed over holds of all the tasks that a log with such methods
hands over. -/
theorem collect (retain : Bool) {events : List LogEvent}
    (he : ∀ e ∈ events, NamesOnly M e.event) :
    ∀ t ∈ tasksOf (Collector.collect retain events).2, H t := by
  have hstart : (start retain).Holds W A := by
    refine ⟨fun id t hfound => ?_, fun a ha => ?_⟩
    · simp [start] at hfound
    · cases ha
  exact (((h.keeps_acceptAll (start retain) he).trans (h.keeps_finish _)) hstart).2

end CustodyOf

namespace Custody

open Collector

variable {W : UInt64 → Task → Prop} {A : Compiling → Prop} {H : Task → Prop}
  (h : Custody W A H)
include h

/-- The printed machine code is read. -/
theorem keeps_flush (c : Collector) : Keeps W A H c c.flush := h.custodyOf.keeps_flush c

/-- The task under way is cut short. -/
theorem keeps_abandonActive (c : Collector) : Keeps W A H c c.abandonActive :=
  h.custodyOf.keeps_abandonActive c

/-- Whatever the next event says, it keeps what holds of the tasks. -/
theorem keeps_accept (c : Collector) (e : LogEvent) : Keeps W A H c (c.accept e) :=
  h.custodyOf.keeps_accept c (namesOnly_true e.event)

/-- Whatever a log says, it keeps what holds of the tasks. -/
theorem keeps_acceptAll (c : Collector) (events : List LogEvent) :
    Keeps W A H c (c.acceptAll events) :=
  h.custodyOf.keeps_acceptAll c fun e _ => namesOnly_true e.event

/-- The end of a log keeps what holds of the tasks. -/
theorem keeps_finish (c : Collector) : Keeps W A H c c.finish := h.custodyOf.keeps_finish c

/-- What holds of tasks that are handed over holds of all the tasks that a log hands over. -/
theorem collect (retain : Bool) (events : List LogEvent) :
    ∀ t ∈ tasksOf (Collector.collect retain events).2, H t :=
  h.custodyOf.collect retain fun e _ => namesOnly_true e.event

end Custody

end CompileLog.Collect
