import CompileLog.Proofs.Collect.Endings
import CompileLog.Proofs.Collect.Traps
import Mathlib.Data.List.Induction

/-!
# What was told of the task under way

From its start on, the task under way is told every event that means something inside a task, and
the frames, unless a trap hit at run time is open, which takes them. A transcript keeps what it was
told. Whatever each way of telling it more brings about, between the transcript and the task, then
holds whatever a collector is given; and a task that ends is handed over as its transcript has it,
before any other.
-/

namespace CompileLog.Collect

/-! ### Transcripts -/

/-- What an event is to the task under way. -/
inductive Bearing where
  /-- It begins another task. -/
  | begins
  /-- It ends the task. -/
  | ends
  /-- It tells a frame. -/
  | frames
  /-- It says something about the task. -/
  | tells
  /-- It is about something else. -/
  | passes
  deriving DecidableEq

/-- What an event is to the task under way, whatever else it is. -/
def bearing : Event → Bearing
  | .taskStart _ => .begins
  | .taskDone .. | .close .taskStart | .close .threadLog => .ends
  | .jvms .. => .frames
  | .logStart .. | .headerText .. | .compilerThread .. | .threadLog _ => .passes
  | .taskQueued _ | .nmethod _ => .passes
  | .uncommonTrap (some _) .. | .deoptimized (some _) .. | .madeNotEntrant (some _) .. => .passes
  | .assemblyText _ | .close .printNmethod | .close .uncommonTrap | .unknown .. => .passes
  | _ => .tells

/-- What was told of the task under way. -/
structure Transcript where
  /-- The event that began it with all that it was told since, where a task is under way. -/
  told : Option (List LogEvent)
  /-- Whether a trap is open, which takes the frames. -/
  trapOpen : Bool

namespace Transcript

/-- Nothing was told. -/
def empty : Transcript := ⟨none, false⟩

/-- The next event of a log. -/
def hear (s : Transcript) (e : LogEvent) : Transcript where
  told :=
    match bearing e.event with
    | .begins => some [e]
    | .ends => none
    | .frames => if s.trapOpen then s.told else s.told.map (· ++ [e])
    | .tells => s.told.map (· ++ [e])
    | .passes => s.told
  trapOpen := (opensTrap? e).isSome || s.trapOpen && !closesTrap e.event

/-- Whatever a collector is given next. -/
def attend (s : Transcript) : Input → Transcript
  | .event e => s.hear e
  | .ending => .empty

end Transcript

/-- What was told of the task under way, once all this was given. -/
def transcript (inputs : List Input) : Transcript := inputs.foldl Transcript.attend .empty

/-- Whether the task under way ends where an event comes. -/
def endsTask (e : Event) : Bool := bearing e = .begins || bearing e = .ends

/-- Whether the task under way ends where something is given. -/
def Input.endsTask : Input → Bool
  | .event e => Collect.endsTask e.event
  | .ending => true

/-- A transcript begins with the last event that began a task, and no event since ends it. By
induction on the events from the last one on. -/
theorem Transcript.told_eq_some {events told : List LogEvent}
    (h : (events.foldl Transcript.hear .empty).told = some told) :
    ∃ before e since, events = before ++ e :: since ∧ told.head? = some e ∧
      ∀ g ∈ since, Collect.endsTask g.event = false := by
  induction events using List.reverseRecOn generalizing told with
  | nil => cases h
  | append_singleton earlier e ih =>
    rw [List.foldl_append, List.foldl_cons, List.foldl_nil] at h
    generalize hbefore : earlier.foldl Transcript.hear .empty = s at h
    have hlater : ∀ told', s.told = some told' → told'.head? = told.head? →
        Collect.endsTask e.event = false →
        ∃ before e' since, earlier ++ [e] = before ++ e' :: since ∧ told.head? = some e' ∧
          ∀ g ∈ since, Collect.endsTask g.event = false := by
      intro told' htold hhead hquiet
      obtain ⟨before, e', since, rfl, hfirst, hsince⟩ := ih (hbefore ▸ htold)
      refine ⟨before, e', since ++ [e], by simp, hhead ▸ hfirst, fun g hg => ?_⟩
      rcases List.mem_append.mp hg with hearlier | hlast
      · exact hsince g hearlier
      · rwa [List.mem_singleton.mp hlast]
    have hadded : s.told.map (· ++ [e]) = some told → Collect.endsTask e.event = false →
        ∃ before e' since, earlier ++ [e] = before ++ e' :: since ∧ told.head? = some e' ∧
          ∀ g ∈ since, Collect.endsTask g.event = false := by
      intro htold hquiet
      obtain ⟨told', htold', rfl⟩ := Option.map_eq_some_iff.mp htold
      obtain ⟨_, first, _, _, hfirst, _⟩ := ih (hbefore ▸ htold')
      refine hlater told' htold' ?_ hquiet
      rw [List.head?_append, hfirst]
      rfl
    unfold Transcript.hear at h
    unfold Collect.endsTask at hlater hadded
    cases hbearing : bearing e.event with
    | begins =>
      rw [hbearing] at h
      obtain rfl := Option.some.inj h
      exact ⟨earlier, e, [], rfl, rfl, by simp⟩
    | ends =>
      rw [hbearing] at h
      cases h
    | frames =>
      simp only [hbearing] at h
      split at h
      · exact hlater told h rfl (by simp [hbearing])
      · exact hadded h (by simp [hbearing])
    | tells =>
      rw [hbearing] at h
      exact hadded h (by simp [hbearing])
    | passes =>
      rw [hbearing] at h
      exact hlater told h rfl (by simp [hbearing])

/-! ### Listening -/

/-- Something between what a task was told and the task under way, if each way of telling it more
brings it about. Of the tasks that wait something else is known. -/
structure Listener (W : UInt64 → Task → Prop) (R : List LogEvent → Compiling → Prop) : Prop where
  /-- A task begins. -/
  begun : ∀ {e facts t flags} thread, e.event = .taskStart facts → Unread flags →
    Taken W (facts.compileId.getD Collector.noId) t →
      R [e] (.start (Collector.beginTask facts thread flags t))
  /-- Something is said of it that may be said before it begins as well. -/
  noted : ∀ {told a f}, Told f → R told a → R told { a with task := f a.task }
  /-- An event is about it. -/
  heard : ∀ {told a e flags}, bearing e.event = .tells → Unread flags → R told a →
    R (told ++ [e]) ({ a with task := Collector.withFlags flags a.task }.take e.shape e.event)
  /-- A frame is told. -/
  framed : ∀ {told a e bci method methodId}, e.event = .jvms bci method methodId → R told a →
    R (told ++ [e]) (a.addFrame bci method methodId)

/-- A task that is handed over as the one that was under way. -/
inductive LeavesAs (a : Compiling) : Task → Prop where
  /-- It is finished. -/
  | finished (success : Option Bool) (nativeSize inlinedBytes : Option UInt64)
      (stamp : Option Stamp) {flags : List TaskFlag} (hflags : Unread flags) :
      LeavesAs a (Collector.flagMisplaced
        (a.finished success nativeSize inlinedBytes stamp flags))
  /-- It is cut short. -/
  | cut : LeavesAs a (Collector.flagMisplaced (Collector.cutShort a.task))

/-- A task that is handed over without having been under way. -/
inductive Unbegun (W : UInt64 → Task → Prop) : Task → Prop where
  /-- It waited to the end. -/
  | forgotten {id : UInt64} {t : Task} (h : W id t) :
      Unbegun W (Collector.flagMisplaced (Collector.cutShort t))
  /-- It is a bridge to native code. -/
  | bridged (id : UInt64) (facts : NativeFacts) {flags : List TaskFlag} (hflags : Unread flags) :
      Unbegun W (Collector.flagMisplaced (Collector.wrapperTask id facts flags))

/-- What is handed over where the task under way ends as its transcript has it, if one is: first
that task, and then others that never began. -/
def Hands (W : UInt64 → Task → Prop) (R : List LogEvent → Compiling → Prop)
    (told : Option (List LogEvent)) (ts : List Task) : Prop :=
  ∃ (mine : Option Task) (others : List Task), ts = mine.toList ++ others ∧
    (∀ t ∈ others, Unbegun W t) ∧
    Option.Rel (fun told t => ∃ a, R told a ∧ LeavesAs a t) told mine

variable {W : UInt64 → Task → Prop} {R : List LogEvent → Compiling → Prop}

/-- Nothing is handed over. -/
theorem Hands.nothing {ts : List Task} (h : ts = []) : Hands W R none ts :=
  ⟨none, [], h, by simp, .none⟩

namespace Collector

/-- The task under way is as its transcript has it. -/
def Hears (R : List LogEvent → Compiling → Prop) (told : Option (List LogEvent))
    (c : Collector) : Prop :=
  Option.Rel R told c.active

/-- No task is under way. -/
theorem Hears.idle {c : Collector} (h : c.active = none) : c.Hears R none := by
  unfold Hears
  rw [h]
  exact .none

/-- The task under way is cut short and handed over. -/
theorem Hears.hands_abandonActive {c : Collector} {told : Option (List LogEvent)}
    (h : c.Hears R told) : Hands W R told (tasksOf c.abandonActive.2) := by
  unfold Hears at h
  unfold abandonActive
  cases hactive : c.active with
  | none =>
    rw [hactive] at h
    cases h
    exact .nothing rfl
  | some a =>
    rw [hactive] at h
    cases h with
    | some hr => exact ⟨some _, [], rfl, by simp, .some ⟨a, hr, .cut⟩⟩

/-- The task under way is finished and handed over. -/
theorem Hears.hands_finishTask {c : Collector} {told : Option (List LogEvent)}
    (h : c.Hears R told) (success : Option Bool) (nativeSize inlinedBytes : Option UInt64)
    (stamp : Option Stamp) {flags : List TaskFlag} (hflags : Unread flags) :
    Hands W R told
      (tasksOf (c.finishTask success nativeSize inlinedBytes stamp flags).2) := by
  rw [tasksOf_finishTask]
  unfold Hears at h
  generalize c.active = active at h
  cases h with
  | none => exact .nothing rfl
  | some hr => exact ⟨some _, [], rfl, by simp, .some ⟨_, hr, .finished _ _ _ _ hflags⟩⟩

/-- Once the task under way is finished, none is. -/
theorem active_finishTask (c : Collector) (success : Option Bool)
    (nativeSize inlinedBytes : Option UInt64) (stamp : Option Stamp) (flags : List TaskFlag) :
    (c.finishTask success nativeSize inlinedBytes stamp flags).1.active = none := by
  unfold finishTask
  cases hactive : c.active with
  | none => exact hactive
  | some a => rfl

/-- Code that is installed may be that of a bridge, which is handed over at once. -/
theorem hands_installCode (c : Collector) (facts : NativeFacts) {flags : List TaskFlag}
    (hflags : Unread flags) : Hands W R none (tasksOf (c.installCode facts flags).2) := by
  obtain heq | ⟨id, addresses, ⟨_, heq⟩ | ⟨_, _, heq⟩ | ⟨_, heq⟩⟩ := c.installCode_cases facts flags
  all_goals rw [heq]
  · exact .nothing rfl
  · exact .nothing rfl
  · refine ⟨none, [_], tasksOf_handOver _ _, fun t ht => ?_, .none⟩
    obtain rfl := List.mem_singleton.mp ht
    exact .bridged id facts hflags
  · exact .nothing rfl

end Collector

namespace Listener

open Collector

variable (h : Listener W R) {c : Collector} {s : Transcript} {told : Option (List LogEvent)}
include h

/-! ### What leaves the transcript -/

/-- More is told of a task that is not handed over. -/
theorem hears_putTask {id : UInt64} {t : Task} {f : Task → Task}
    (hopen : c.openTask? id = some t) (hf : Told f) (hc : c.Hears R told) :
    (c.putTask id (f t)).Hears R told := by
  obtain ⟨a, hunderway, rfl, _, heq⟩ | ⟨_, _, heq⟩ := putTask_cases hopen (f t)
  · rw [heq]
    unfold Hears at hc ⊢
    rw [hunderway] at hc
    cases hc with
    | some hr => exact .some (h.noted hf hr)
  · rw [heq]
    exact hc

/-- More is told of a task that may not have been met. -/
theorem hears_onTask (id : UInt64) (method : Option Method) {f : Task → Task} (hf : Told f)
    (hc : c.Hears R told) : (c.onTask id method f).Hears R told := by
  obtain ⟨t, hopen, heq⟩ | ⟨_, heq⟩ := c.onTask_cases id method f
  · rw [heq]
    exact h.hears_putTask hopen hf hc
  · rw [heq]
    exact hc

/-- A task is queued. -/
theorem hears_queueTask (facts : TaskFacts) {flags : List TaskFlag} (hflags : Unread flags)
    (hc : c.Hears R told) : (c.queueTask facts flags).Hears R told := by
  unfold queueTask
  split
  · exact hc
  · split
    · exact hc
    · exact h.hears_onTask _ _ (.queued facts hflags) hc

/-- Code is installed. -/
theorem hears_installCode (facts : NativeFacts) {flags : List TaskFlag} (hflags : Unread flags)
    (hc : c.Hears R told) : (c.installCode facts flags).1.Hears R told := by
  obtain heq | ⟨id, addresses, ⟨_, heq⟩ | ⟨_, _, heq⟩ | ⟨_, heq⟩⟩ := c.installCode_cases facts flags
  all_goals rw [heq]
  · exact hc
  · exact hc
  · exact hc
  · exact h.hears_onTask (c := { c with addresses }) id _ (.installed facts hflags) hc

/-- A listing is placed. -/
theorem hears_placeListing (hc : c.Hears R told) (l : Listing) :
    (c.placeListing l).1.Hears R told := by
  unfold placeListing
  split
  · exact hc
  · split
    · next hopen => exact h.hears_putTask hopen (.printed _ l) hc
    · exact hc

/-- The printed machine code is read. -/
theorem hears_flush (hc : c.Hears R told) : c.flush.1.Hears R told :=
  each_preserves (P := Hears R told) (fun _ l hc => h.hears_placeListing hc l)
    (c := { c with printed := "" }) hc (listingsOf c.printed)

/-! ### What adds to the transcript -/

/-- An event is about the task under way. -/
theorem hears_takeInTask {e : LogEvent} (he : bearing e.event = .tells) {flags : List TaskFlag}
    (hflags : Unread flags) (hc : c.Hears R told) :
    (c.takeInTask e.shape e.event flags).Hears R (told.map (· ++ [e])) := by
  have hidle := Hears.idle (R := R) (c := c)
  unfold Hears at hc
  unfold takeInTask
  cases hactive : c.active with
  | none =>
    rw [hactive] at hc
    cases hc
    simp only
    split <;> exact hidle hactive
  | some a =>
    rw [hactive] at hc
    cases hc with
    | some hr => exact .some (h.heard he hflags hr)

/-- A frame is told. It is one of the trap that is open, if one is. -/
theorem hears_takeFrame {e : LogEvent} {bci : Option UInt32} {method : Option Method}
    {methodId : Option UInt64} (he : e.event = .jvms bci method methodId)
    (htrap : c.trap.isSome = s.trapOpen) (hc : c.Hears R s.told) :
    (c.takeFrame bci method methodId).Hears R
      (if s.trapOpen then s.told else s.told.map (· ++ [e])) := by
  rw [← htrap]
  generalize s.told = told at hc ⊢
  unfold takeFrame
  cases c.trap with
  | some d =>
    rw [Option.isSome_some, if_pos rfl]
    simp only
    split
    · exact hc
    · exact hc
  | none =>
    unfold Hears at hc ⊢
    simp only [Option.isSome_none, Bool.false_eq_true, if_false]
    cases hactive : c.active with
    | none =>
      rw [hactive] at hc
      cases hc
      exact .none
    | some a =>
      rw [hactive] at hc
      cases hc with
      | some hr => exact .some (h.framed he hr)

/-- A task begins. -/
theorem hears_startTask {e : LogEvent} {facts : TaskFacts} (he : e.event = .taskStart facts)
    (hwaiting : ∀ id t, c.waiting.get? id = some t → W id t) {flags : List TaskFlag}
    (hflags : Unread flags) : (c.startTask facts flags).1.Hears R (some [e]) := by
  unfold startTask
  simp only
  generalize hcounted : (if facts.compileId.isNone = true then c.abandonActive.1.countStray
    else c.abandonActive.1) = counted
  have hsame : counted.waiting = c.waiting := by
    rw [← hcounted]
    split <;> exact c.waiting_abandonActive
  have hholds : counted.Holds W fun _ => True :=
    ⟨fun id t hfound => hwaiting id t (hsame ▸ hfound), fun _ _ => trivial⟩
  exact .some (h.begun _ he hflags (Custody.takeWaiting hholds _).2)

/-! ### What an event does -/

/-- After an event the task under way is as its transcript has it. -/
theorem hears_take (e : LogEvent) {flags : List TaskFlag} (hflags : Unread flags)
    (hwaiting : ∀ id t, c.waiting.get? id = some t → W id t)
    (htrap : c.trap.isSome = s.trapOpen) (hc : c.Hears R s.told) :
    (c.take e.shape flags e.event).1.Hears R (s.hear e).told := by
  have htell := fun he => h.hears_takeInTask (e := e) he hflags hc
  obtain ⟨shape, tag, event, unread, depth, parent, position⟩ := e
  cases event with
  | taskQueued facts => exact h.hears_queueTask facts hflags hc
  | taskStart facts => exact h.hears_startTask rfl hwaiting hflags
  | taskDone success nativeSize inlinedBytes stamp =>
    exact .idle (c.active_finishTask success nativeSize inlinedBytes stamp flags)
  | nmethod facts => exact h.hears_installCode facts hflags hc
  | jvms bci method methodId => exact h.hears_takeFrame rfl htrap hc
  | close of =>
    cases of with
    | threadLog => exact .idle c.active_abandonActive
    | taskStart => exact .idle c.active_abandonActive
    | printNmethod => exact h.hears_flush hc
    | uncommonTrap =>
      unfold take
      simp only
      split <;> exact hc
    | _ => exact htell rfl
  | uncommonTrap id bci reason action stamp =>
    cases id with
    | none => exact htell rfl
    | some id =>
      unfold take hitTrap
      simp only
      split <;> exact hc
  | deoptimized id reason pc stamp =>
    cases id with
    | none => exact htell rfl
    | some id => exact hc
  | madeNotEntrant id compiler level stamp =>
    cases id with
    | none => exact htell rfl
    | some id => exact hc
  | unknown tag attributes closing => cases closing <;> exact hc
  | logStart => exact hc
  | headerText => exact hc
  | compilerThread => exact hc
  | threadLog => exact hc
  | assemblyText => exact hc
  | _ => exact htell rfl

omit h in
/-- Where an event comes, the task under way is handed over if it ends there. -/
theorem hands_take (e : LogEvent) {flags : List TaskFlag} (hflags : Unread flags)
    (hc : c.Hears R told) :
    Hands W R (if endsTask e.event then told else none)
      (tasksOf (c.take e.shape flags e.event).2) := by
  obtain ⟨shape, tag, event, unread, depth, parent, position⟩ := e
  cases event with
  | taskStart facts => exact hc.hands_abandonActive
  | taskDone success nativeSize inlinedBytes stamp => exact hc.hands_finishTask _ _ _ _ hflags
  | nmethod facts => exact c.hands_installCode facts hflags
  | close of =>
    cases of with
    | threadLog => exact hc.hands_abandonActive
    | taskStart => exact hc.hands_abandonActive
    | printNmethod => exact .nothing c.tasksOf_flush
    | uncommonTrap => exact .nothing c.tasksOf_releaseTrap
    | _ => exact .nothing rfl
  | uncommonTrap id bci reason action stamp =>
    cases id with
    | none => exact .nothing rfl
    | some id =>
      have hhit : ∀ d, tasksOf (c.hitTrap shape d).2 = [] := by
        intro d
        unfold hitTrap
        split <;> rfl
      exact .nothing (hhit _)
  | deoptimized id reason pc stamp => cases id <;> exact .nothing rfl
  | madeNotEntrant id compiler level stamp => cases id <;> exact .nothing rfl
  | unknown tag attributes closing => cases closing <;> exact .nothing rfl
  | _ => exact .nothing rfl

end Listener

/-! ### All that a collector is given -/

namespace Collector

/-- A collector is as a transcript has it. -/
structure Attends (W : UInt64 → Task → Prop) (R : List LogEvent → Compiling → Prop)
    (s : Transcript) (c : Collector) : Prop where
  /-- Something is known of the tasks that wait. -/
  waiting : ∀ id t, c.waiting.get? id = some t → W id t
  /-- A trap is kept if one is open. -/
  trap : c.trap.isSome = s.trapOpen
  /-- The task under way was told what the transcript has. -/
  active : c.Hears R s.told

/-- A new collector is as an empty transcript has it. -/
theorem attends_start (retain : Bool) : (start retain).Attends W R .empty where
  waiting _ _ hfound := by cases hfound
  trap := rfl
  active := .idle rfl

/-- What is known of the tasks that wait. -/
theorem Attends.holds {s : Transcript} {c : Collector} (h : c.Attends W R s) :
    c.Holds W fun _ => True :=
  ⟨h.waiting, fun _ _ => trivial⟩

/-- One thing after another, if a transcript follows each of them. By induction on them. -/
theorem Attends.each {α : Type} {f : Collector → α → Collector × List Item}
    {follow : Transcript → α → Transcript}
    (hstep : ∀ c s a, Attends W R s c → (f c a).1.Attends W R (follow s a))
    {s : Transcript} {c : Collector} (h : c.Attends W R s) (l : List α) :
    (c.each f l).1.Attends W R (l.foldl follow s) := by
  induction l generalizing c s with
  | nil => exact h
  | cons a rest ih => exact ih (hstep c s a h)

/-- After an event a trap is kept if one is open. -/
theorem trap_accept (c : Collector) (e : LogEvent) :
    (c.accept e).1.trap.isSome =
      ((opensTrap? e).isSome || c.trap.isSome && !closesTrap e.event) := by
  have hkept : ∀ c : Collector, c.trap.isSome = c.trapId?.isSome := fun c =>
    Option.isSome_map.symm
  rw [hkept, hkept]
  cases c.trapStep_accept e with
  | opens htrap hopens hitems => rw [htrap, hopens, Bool.true_or]
  | closes hcloses htrap hitems =>
    rw [htrap, hcloses, opensTrap?_of_closesTrap hcloses]
    simp
  | stays hopens hcloses htrap hitems =>
    rw [htrap, hcloses, hopens]
    simp

/-- Once a log has ended, no trap is kept and no task is under way. -/
theorem finish_idle (c : Collector) : c.finish.1.trap = none ∧ c.finish.1.active = none := by
  obtain ⟨_, hactive, _⟩ := each_handOver_cutShort
    { c.flush.1.releaseTrap.1.abandonActive.1 with waiting := ∅ }
    (c.flush.1.releaseTrap.1.abandonActive.1.waiting.entries.map Prod.snd)
  have hreleased : c.flush.1.releaseTrap.1.trapId? = none := by
    unfold releaseTrap
    split
    · rfl
    · next htrap => exact Option.map_eq_none_iff.mpr htrap
  have hwaiting := keepsTrap_each { c.flush.1.releaseTrap.1.abandonActive.1 with waiting := ∅ }
    (fun c t => c.keepsTrap_handOver (cutShort t))
    (c.flush.1.releaseTrap.1.abandonActive.1.waiting.entries.map Prod.snd)
  have hkept := hwaiting.1.trans
    (c.flush.1.releaseTrap.1.keepsTrap_abandonActive.1.trans hreleased)
  refine ⟨Option.map_eq_none_iff.mp hkept, hactive.trans ?_⟩
  exact c.flush.1.releaseTrap.1.active_abandonActive

end Collector

namespace Listener

open Collector

variable (h : Listener W R) (hW : Custody W (fun _ => True) fun _ => True) {c : Collector}
  {s : Transcript}
include h hW

/-- After the next event a collector is as the transcript has it, and has handed over the task that
ended. -/
theorem attends_accept (hc : c.Attends W R s) (e : LogEvent) :
    (c.accept e).1.Attends W R (s.hear e) ∧
      Hands W R (if endsTask e.event then s.told else none) (tasksOf (c.accept e).2) := by
  have hholds := hc.holds
  have hflushed : (c.flushBefore e.event).1.Attends W R s := by
    unfold flushBefore
    split
    · exact hc
    · refine ⟨((hW.keeps_flush c) hholds).1.waiting, ?_, h.hears_flush hc.active⟩
      have htrap := congrArg Option.isSome c.keepsTrap_flush.1
      unfold trapId? at htrap
      rw [Option.isSome_map, Option.isSome_map] at htrap
      exact htrap.trans hc.trap
  have hcounted : Attends W R s ((c.flushBefore e.event).1.count fun n =>
      { n with unreadAttributes := n.unreadAttributes + e.unread.length }) :=
    ⟨hflushed.waiting, hflushed.trap, hflushed.active⟩
  have hflags := unread_unreadFlags e
  refine ⟨⟨((hW.keeps_accept c e) hholds).1.waiting, ?_, ?_⟩, ?_⟩
  · rw [trap_accept, hc.trap]
    rfl
  · exact h.hears_take e hflags hcounted.waiting hcounted.trap hcounted.active
  · have hands := hands_take (W := W) e hflags hcounted.active
    unfold accept
    simp only [tasksOf_append, tasksOf_flushBefore, List.nil_append]
    exact hands

/-- Where a log ends, the task under way is handed over before those that wait. -/
theorem hands_finish (hc : c.Attends W R s) : Hands W R s.told (tasksOf c.finish.2) := by
  have hflushed := (hW.keeps_flush c) hc.holds
  have hreleased : c.flush.1.releaseTrap.1.active = c.flush.1.active ∧
      c.flush.1.releaseTrap.1.waiting = c.flush.1.waiting := by
    unfold releaseTrap
    split <;> exact ⟨rfl, rfl⟩
  have hactive : c.flush.1.releaseTrap.1.Hears R s.told := by
    unfold Hears
    rw [hreleased.1]
    exact h.hears_flush hc.active
  obtain ⟨mine, others, hmine, hothers, hrel⟩ := hactive.hands_abandonActive (W := W)
  obtain ⟨hwaiting, _, _⟩ := each_handOver_cutShort
    { c.flush.1.releaseTrap.1.abandonActive.1 with waiting := ∅ }
    (c.flush.1.releaseTrap.1.abandonActive.1.waiting.entries.map Prod.snd)
  refine ⟨mine, others ++ tasksOf c.flush.1.releaseTrap.1.abandonActive.1.abandonWaiting.2,
    ?_, fun t ht => ?_, hrel⟩
  · unfold finish
    simp only [tasksOf_append, tasksOf_flush, tasksOf_releaseTrap, List.nil_append, hmine,
      List.append_assoc]
  · rcases List.mem_append.mp ht with hcut | hwaits
    · exact hothers t hcut
    · unfold abandonWaiting at hwaits
      rw [hwaiting, waiting_abandonActive, hreleased.2] at hwaits
      obtain ⟨_, hleft, rfl⟩ := List.mem_map.mp hwaits
      obtain ⟨entry, hentry, rfl⟩ := List.mem_map.mp hleft
      exact .forgotten (hflushed.1.waiting entry.1 entry.2 (KeyMap.get?_of_mem_entries hentry))

/-- Whatever a collector is given next, it is as the transcript has it, and has handed over the task
that ended. -/
theorem attends_give (hc : c.Attends W R s) (input : Input) :
    (c.give input).1.Attends W R (s.attend input) ∧
      Hands W R (if input.endsTask then s.told else none) (tasksOf (c.give input).2) := by
  cases input with
  | event e => exact h.attends_accept hW hc e
  | ending =>
    obtain ⟨htrap, hactive⟩ := c.finish_idle
    refine ⟨⟨((hW.keeps_finish c) hc.holds).1.waiting, ?_, .idle hactive⟩, h.hands_finish hW hc⟩
    exact congrArg Option.isSome htrap

/-- While a log is read, a new collector is as the transcript has it. -/
theorem attends_acceptAll (retain : Bool) (events : List LogEvent) :
    ((start retain).acceptAll events).1.Attends W R (events.foldl Transcript.hear .empty) :=
  (attends_start retain).each (fun _ _ e hc => (h.attends_accept hW hc e).1) events

/-- Whatever a new collector is given, it is as the transcript has it. -/
theorem attends_feed (retain : Bool) (inputs : List Input) :
    (feed retain inputs).1.Attends W R (transcript inputs) :=
  (attends_start retain).each (fun _ _ input hc => (h.attends_give hW hc input).1) inputs

end Listener

end CompileLog.Collect
