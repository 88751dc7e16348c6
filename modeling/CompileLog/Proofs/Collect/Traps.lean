import CompileLog.Event.Decode
import CompileLog.Markup.Reading
import CompileLog.Proofs.Collect.Handover

/-!
# Events at run time on their way to the handover

An event at run time is handed over as it comes, with one exception. A trap whose frames are still
to be told is kept until it closes or the log ends. There is room for one: when another trap opens
before, it takes the place of the first. So what a log tells at run time is what is handed over,
together with the traps that another one displaced.
-/

namespace CompileLog.Collect

/-! ### What a log tells at run time -/

/-- The number of the task of which an event at run time tells. -/
def runtimeId? : Event → Option UInt64
  | .uncommonTrap id _ _ _ _ => id
  | .deoptimized id _ _ _ => id
  | .madeNotEntrant id _ _ _ => id
  | _ => none

/-- The numbers of the tasks of which a log tells at run time. -/
def runtimeIds (events : List LogEvent) : List UInt64 :=
  events.filterMap fun e => runtimeId? e.event

/-- The number of the task whose trap opens, with its frames still to be told. -/
def opensTrap? (e : LogEvent) : Option UInt64 :=
  match e.event with
  | .uncommonTrap (some id) _ _ _ _ => if e.shape = .opening then some id else none
  | _ => none

/-- Whether a trap closes. -/
def closesTrap : Event → Bool
  | .close .uncommonTrap => true
  | _ => false

/-- Whether another trap opens before one closes. -/
def displacesTrap : List LogEvent → Bool
  | [] => false
  | e :: rest => (opensTrap? e).isSome || !closesTrap e.event && displacesTrap rest

/-- The numbers of the tasks whose traps are displaced by another one. -/
def displaced : List LogEvent → List UInt64
  | [] => []
  | e :: rest => (if displacesTrap rest then (opensTrap? e).toList else []) ++ displaced rest

/-- A trap that opens is told at run time. -/
theorem runtimeId?_of_opensTrap? {e : LogEvent} (h : (opensTrap? e).isSome = true) :
    runtimeId? e.event = opensTrap? e := by
  unfold opensTrap? at h ⊢
  split at h
  · rename_i id bci reason action stamp hevent
    split at h
    · rename_i hshape
      simp [hevent, hshape, runtimeId?]
    · cases h
  · cases h

/-- What closes a trap opens none. -/
theorem opensTrap?_of_closesTrap {e : LogEvent} (h : closesTrap e.event = true) :
    opensTrap? e = none := by
  unfold opensTrap?
  split
  · rename_i hevent
    rw [hevent] at h
    cases h
  · rfl

/-- What closes a trap tells of no other event. -/
theorem runtimeId?_of_closesTrap {e : Event} (h : closesTrap e = true) : runtimeId? e = none := by
  unfold runtimeId?
  split <;> first | rfl | cases h

/-! ### The trap whose frames are being told -/

namespace Collector

/-- The number of the task whose trap is kept. -/
def trapId? (c : Collector) : Option UInt64 := c.trap.map Deopt.compileId

/-- The trap that is kept is still of the same task, and no event is handed over. -/
def KeepsTrap (c : Collector) (r : Collector × List Item) : Prop :=
  r.1.trapId? = c.trapId? ∧ deoptsOf r.2 = []

namespace KeepsTrap

variable {c c' : Collector} {items : List Item}

/-- Neither is touched. -/
theorem of_trap_eq {r : Collector × List Item} (htrap : r.1.trap = c.trap)
    (hitems : deoptsOf r.2 = []) : KeepsTrap c r :=
  ⟨congrArg (Option.map Deopt.compileId) htrap, hitems⟩

/-- Two operations one after the other. -/
theorem trans {r : Collector × List Item} (h : KeepsTrap c (c', items)) (h' : KeepsTrap c' r) :
    KeepsTrap c (r.1, items ++ r.2) := by
  refine ⟨h'.1.trans h.1, ?_⟩
  rw [deoptsOf_append, h.2, h'.2, List.append_nil]

end KeepsTrap

variable (c : Collector)

/-- A task is handed over. -/
theorem keepsTrap_handOver (t : Task) : KeepsTrap c (c.handOver t) := .of_trap_eq rfl rfl

/-- What keeps the trap step by step keeps it to the end. -/
theorem keepsTrap_each {α : Type} {f : Collector → α → Collector × List Item}
    (hf : ∀ c a, KeepsTrap c (f c a)) (l : List α) : KeepsTrap c (c.each f l) := by
  induction l generalizing c with
  | nil => exact .of_trap_eq rfl rfl
  | cons a rest ih => exact (hf c a).trans (ih (f c a).1)

/-- Putting back a task leaves the trap. -/
theorem trap_putTask (id : UInt64) (t : Task) : (c.putTask id t).trap = c.trap := by
  unfold putTask
  split <;> rfl

/-- Telling something of a task leaves the trap. -/
theorem trap_onTask (id : UInt64) (method : Option Method) (f : Task → Task) :
    (c.onTask id method f).trap = c.trap := by
  obtain ⟨t, _, heq⟩ | ⟨_, heq⟩ := c.onTask_cases id method f
  · rw [heq, trap_putTask]
  · rw [heq]
    rfl

/-- A task is queued. -/
theorem trap_queueTask (facts : TaskFacts) (flags : List TaskFlag) :
    (c.queueTask facts flags).trap = c.trap := by
  unfold queueTask
  split
  · rfl
  · split
    · rfl
    · exact c.trap_onTask _ _ _

/-- The task under way is cut short. -/
theorem keepsTrap_abandonActive : KeepsTrap c c.abandonActive := by
  unfold abandonActive
  split <;> exact .of_trap_eq rfl rfl

/-- A task begins. -/
theorem keepsTrap_startTask (facts : TaskFacts) (flags : List TaskFlag) :
    KeepsTrap c (c.startTask facts flags) := by
  have htaken : ∀ (c : Collector) (id : UInt64), (c.takeWaiting id).1.trap = c.trap := by
    intro c id
    unfold takeWaiting
    split
    · rfl
    · simp only
      split <;> rfl
  unfold startTask
  simp only
  refine ⟨?_, c.keepsTrap_abandonActive.2⟩
  refine Eq.trans ?_ c.keepsTrap_abandonActive.1
  unfold trapId?
  simp only [htaken]
  split <;> rfl

/-- The task under way is finished. A sample of the code cache may come before it. -/
theorem keepsTrap_finishTask (success : Option Bool) (nativeSize inlinedBytes : Option UInt64)
    (stamp : Option Stamp) (flags : List TaskFlag) :
    KeepsTrap c (c.finishTask success nativeSize inlinedBytes stamp flags) := by
  unfold finishTask
  split
  · exact .of_trap_eq rfl rfl
  · refine .of_trap_eq rfl ?_
    simp only
    split <;> rfl

/-- Code is installed. -/
theorem keepsTrap_installCode (facts : NativeFacts) (flags : List TaskFlag) :
    KeepsTrap c (c.installCode facts flags) := by
  obtain heq | ⟨id, addresses, ⟨_, heq⟩ | ⟨_, _, heq⟩ | ⟨_, heq⟩⟩ := c.installCode_cases facts flags
  all_goals rw [heq]
  · exact .of_trap_eq rfl rfl
  · exact .of_trap_eq rfl rfl
  · exact .of_trap_eq rfl rfl
  · exact .of_trap_eq (trap_onTask { c with addresses } _ _ _) rfl

/-- A listing is placed. -/
theorem keepsTrap_placeListing (l : Listing) : KeepsTrap c (c.placeListing l) := by
  unfold placeListing
  split
  · exact .of_trap_eq rfl rfl
  · split
    · exact .of_trap_eq (c.trap_putTask _ _) rfl
    · exact .of_trap_eq rfl rfl

/-- The printed machine code is read. -/
theorem keepsTrap_flush : KeepsTrap c c.flush :=
  keepsTrap_each { c with printed := "" } (fun c l => c.keepsTrap_placeListing l)
    (listingsOf c.printed)

/-- Something is said about the task under way. -/
theorem trap_takeInTask (shape : Shape) (e : Event) (flags : List TaskFlag) :
    (c.takeInTask shape e flags).trap = c.trap := by
  unfold takeInTask
  split
  · rfl
  · split <;> rfl

/-- A frame is told. It may complete the trap, which is still of the same task. -/
theorem keepsTrap_takeFrame (bci : Option UInt32) (method : Option Method)
    (methodId : Option UInt64) : KeepsTrap c (c.takeFrame bci method methodId, []) := by
  refine ⟨?_, rfl⟩
  unfold takeFrame
  cases htrap : c.trap with
  | none => simp [trapId?, htrap]
  | some d =>
    simp only
    split
    · rfl
    · simp [trapId?, htrap]

/-! ### One event -/

/-- What an event does to the trap that is kept and which events are handed over with it. -/
inductive TrapStep (c : Collector) (e : LogEvent) : Collector × List Item → Prop where
  /-- A trap opens and is kept. -/
  | opens {r : Collector × List Item} (htrap : r.1.trapId? = opensTrap? e)
      (hopens : (opensTrap? e).isSome = true) (hitems : deoptsOf r.2 = []) : TrapStep c e r
  /-- The trap closes. -/
  | closes {r : Collector × List Item} (hcloses : closesTrap e.event = true)
      (htrap : r.1.trapId? = none)
      (hitems : (deoptsOf r.2).map Deopt.compileId = c.trapId?.toList) : TrapStep c e r
  /-- The trap stays, and what the event tells at run time is handed over. -/
  | stays {r : Collector × List Item} (hopens : opensTrap? e = none)
      (hcloses : closesTrap e.event = false) (htrap : r.1.trapId? = c.trapId?)
      (hitems : (deoptsOf r.2).map Deopt.compileId = (runtimeId? e.event).toList) : TrapStep c e r

/-- Where nothing is told at run time, keeping the trap is all. -/
theorem KeepsTrap.trapStep {e : LogEvent} {r : Collector × List Item} (h : KeepsTrap c r)
    (hsilent : runtimeId? e.event = none) (hcloses : closesTrap e.event = false) :
    TrapStep c e r := by
  have hopens : opensTrap? e = none := by
    unfold opensTrap?
    split
    · rename_i heq
      rw [heq] at hsilent
      cases hsilent
    · rfl
  refine .stays hopens hcloses h.1 ?_
  rw [h.2, hsilent]
  rfl

/-- Every event does one of these. -/
theorem trapStep_take (e : LogEvent) (flags : List TaskFlag) :
    TrapStep c e (c.take e.shape flags e.event) := by
  have htell : ∀ e', KeepsTrap c (c.takeInTask e.shape e' flags, []) := fun e' =>
    .of_trap_eq (c.trap_takeInTask e.shape e' flags) rfl
  obtain ⟨shape, tag, event, unread, depth, parent, position⟩ := e
  cases event with
  | uncommonTrap id bci reason action stamp =>
    cases id with
    | none => exact (htell _).trapStep c rfl rfl
    | some id =>
      by_cases hshape : shape = .opening
      · subst hshape
        exact .opens rfl rfl rfl
      · have hpassed : ∀ d, c.hitTrap shape d = (c, [.deopt d]) := fun d => if_neg hshape
        show TrapStep c _ (c.hitTrap shape _)
        rw [hpassed]
        exact .stays (if_neg hshape) rfl rfl rfl
  | deoptimized id reason pc stamp =>
    cases id with
    | none => exact (htell _).trapStep c rfl rfl
    | some id => exact .stays rfl rfl rfl rfl
  | madeNotEntrant id compiler level stamp =>
    cases id with
    | none => exact (htell _).trapStep c rfl rfl
    | some id => exact .stays rfl rfl rfl rfl
  | close of =>
    cases of with
    | uncommonTrap =>
      show TrapStep c _ c.releaseTrap
      have htrap : c.trapId? = c.trap.map Deopt.compileId := rfl
      unfold releaseTrap
      cases hkept : c.trap with
      | none => exact .closes rfl (by rw [htrap, hkept]; rfl) (by rw [htrap, hkept]; rfl)
      | some d => exact .closes rfl rfl (by rw [htrap, hkept]; rfl)
    | threadLog =>
      have hcut : KeepsTrap c ({ c.abandonActive.1 with thread := none }, c.abandonActive.2) :=
        c.keepsTrap_abandonActive
      exact hcut.trapStep c rfl rfl
    | taskStart => exact c.keepsTrap_abandonActive.trapStep c rfl rfl
    | printNmethod => exact c.keepsTrap_flush.trapStep c rfl rfl
    | _ => exact (htell _).trapStep c rfl rfl
  | taskQueued facts =>
    exact (KeepsTrap.of_trap_eq (c.trap_queueTask facts flags) rfl).trapStep c rfl rfl
  | taskStart facts => exact (c.keepsTrap_startTask facts flags).trapStep c rfl rfl
  | taskDone success nativeSize inlinedBytes stamp =>
    exact (c.keepsTrap_finishTask _ _ _ _ flags).trapStep c rfl rfl
  | nmethod facts => exact (c.keepsTrap_installCode facts flags).trapStep c rfl rfl
  | jvms bci method methodId => exact (c.keepsTrap_takeFrame _ _ _).trapStep c rfl rfl
  | unknown tag attributes closing =>
    cases closing <;> exact (KeepsTrap.of_trap_eq rfl rfl).trapStep c rfl rfl
  | logStart version process timeMs => exact (KeepsTrap.of_trap_eq rfl rfl).trapStep c rfl rfl
  | headerText field text => exact (KeepsTrap.of_trap_eq rfl rfl).trapStep c rfl rfl
  | compilerThread name thread stamp => exact (KeepsTrap.of_trap_eq rfl rfl).trapStep c rfl rfl
  | threadLog thread => exact (KeepsTrap.of_trap_eq rfl rfl).trapStep c rfl rfl
  | assemblyText text => exact (KeepsTrap.of_trap_eq rfl rfl).trapStep c rfl rfl
  | _ => exact (htell _).trapStep c rfl rfl

/-- Machine code that is read before an event does not bear on what the event does. -/
theorem TrapStep.after {c' : Collector} {e : LogEvent} {items : List Item}
    {r : Collector × List Item} (h : TrapStep c' e r) (hkeeps : KeepsTrap c (c', items)) :
    TrapStep c e (r.1, items ++ r.2) := by
  have hdeopts : deoptsOf (items ++ r.2) = deoptsOf r.2 := by
    rw [deoptsOf_append, hkeeps.2, List.nil_append]
  have hsame : c'.trapId? = c.trapId? := hkeeps.1
  cases h with
  | opens htrap hopens hitems => exact .opens htrap hopens (hdeopts.trans hitems)
  | closes hcloses htrap hitems => exact .closes hcloses htrap (by rw [hdeopts, hitems, hsame])
  | stays hopens hcloses htrap hitems =>
    exact .stays hopens hcloses (htrap.trans hsame) (by rw [hdeopts, hitems])

/-- The next event of a log does one of these. -/
theorem trapStep_accept (e : LogEvent) : TrapStep c e (c.accept e) := by
  let counted := (c.flushBefore e.event).1.count fun n =>
    { n with unreadAttributes := n.unreadAttributes + e.unread.length }
  have hcounted : KeepsTrap c (counted, (c.flushBefore e.event).2) := by
    have hflushed : KeepsTrap c (c.flushBefore e.event) := by
      unfold flushBefore
      split
      · exact .of_trap_eq rfl rfl
      · exact c.keepsTrap_flush
    exact hflushed
  exact (counted.trapStep_take e (unreadFlags e)).after c hcounted

/-! ### A whole log -/

/-- While a log is read, what was handed over, the trap that is kept and the traps that were
displaced make up what the log tells at run time and the trap that was kept before. By induction on
the events; the trap that was kept before is displaced if another opens before one closes. -/
theorem runtimeIds_acceptAll (events : List LogEvent) :
    ((deoptsOf (c.acceptAll events).2).map Deopt.compileId ++
        (c.acceptAll events).1.trapId?.toList ++
        ((if displacesTrap events then c.trapId?.toList else []) ++ displaced events)).Perm
      (c.trapId?.toList ++ runtimeIds events) := by
  induction events generalizing c with
  | nil => simp [acceptAll, each, displacesTrap, displaced, runtimeIds]
  | cons e rest ih =>
    have hids : runtimeIds (e :: rest) = (runtimeId? e.event).toList ++ runtimeIds rest := by
      unfold runtimeIds
      cases hid : runtimeId? e.event <;> simp [hid]
    have hitems : (c.acceptAll (e :: rest)).2 =
        (c.accept e).2 ++ ((c.accept e).1.acceptAll rest).2 := rfl
    have hlast : (c.acceptAll (e :: rest)).1 = ((c.accept e).1.acceptAll rest).1 := rfl
    rw [hids, hitems, hlast, deoptsOf_append, List.map_append]
    have hstep := c.trapStep_accept e
    have hrest := ih (c.accept e).1
    generalize c.accept e = r at hstep hrest ⊢
    rw [List.perm_iff_count] at hrest ⊢
    intro id
    have hcount := hrest id
    cases hstep with
    | opens htrap hopens hfirst =>
      -- The trap kept before is displaced by this one, which may be displaced in turn.
      have hid : runtimeId? e.event = opensTrap? e := runtimeId?_of_opensTrap? hopens
      rw [htrap] at hcount
      simp only [displacesTrap, displaced, hopens, hfirst, hid, Bool.true_or, if_true,
        List.map_nil, List.nil_append, List.count_append] at hcount ⊢
      omega
    | closes hcloses htrap hfirst =>
      have hopens : opensTrap? e = none := opensTrap?_of_closesTrap hcloses
      have hid : runtimeId? e.event = none := runtimeId?_of_closesTrap hcloses
      rw [htrap] at hcount
      simp only [displacesTrap, displaced, hopens, hcloses, hfirst, hid, Option.isSome_none,
        Option.toList_none, Bool.not_true, Bool.false_and, Bool.or_self, Bool.false_eq_true,
        if_false, ite_self, List.nil_append, List.count_append] at hcount ⊢
      omega
    | stays hopens hcloses htrap hfirst =>
      rw [htrap] at hcount
      simp only [displacesTrap, displaced, hopens, hcloses, hfirst, Option.isSome_none,
        Option.toList_none, Bool.not_false, Bool.true_and, Bool.false_or, ite_self,
        List.nil_append, List.count_append] at hcount ⊢
      omega

/-- Where a log ends the trap that is still kept is handed over, and no other event. -/
theorem deoptsOf_finish : (deoptsOf c.finish.2).map Deopt.compileId = c.trapId?.toList := by
  have hflushed := c.keepsTrap_flush
  have hreleased : (deoptsOf c.flush.1.releaseTrap.2).map Deopt.compileId =
      c.flush.1.trapId?.toList := by
    unfold releaseTrap trapId?
    cases c.flush.1.trap <;> rfl
  have hcut := c.flush.1.releaseTrap.1.keepsTrap_abandonActive
  have hended := keepsTrap_each { c.flush.1.releaseTrap.1.abandonActive.1 with waiting := ∅ }
    (fun c t => c.keepsTrap_handOver (cutShort t))
    (c.flush.1.releaseTrap.1.abandonActive.1.waiting.entries.map Prod.snd)
  have hall : deoptsOf c.finish.2 = deoptsOf c.flush.2 ++ deoptsOf c.flush.1.releaseTrap.2 ++
      deoptsOf c.flush.1.releaseTrap.1.abandonActive.2 ++
      deoptsOf c.flush.1.releaseTrap.1.abandonActive.1.abandonWaiting.2 := by
    simp only [← deoptsOf_append]
    rfl
  rw [hall, hflushed.2, hcut.2, abandonWaiting, hended.2, List.append_nil, List.append_nil,
    List.nil_append, hreleased]
  exact congrArg Option.toList hflushed.1

/-- The events at run time that a log yields, together with the traps that another one displaced,
are those that the log tells: none is lost otherwise, and none comes twice. So all are yielded
exactly where no trap opens while the frames of another are still to be told. -/
theorem runtime_events_yielded_or_displaced (retain : Bool) (events : List LogEvent) :
    let yielded := (deoptsOf (collect retain events).2).map Deopt.compileId
    (yielded ++ displaced events).Perm (runtimeIds events) ∧
      (yielded.Perm (runtimeIds events) ↔ displaced events = []) := by
  intro yielded
  have hread := (start retain).runtimeIds_acceptAll events
  have hyielded : yielded =
      (deoptsOf ((start retain).acceptAll events).2).map Deopt.compileId ++
        ((start retain).acceptAll events).1.trapId?.toList := by
    rw [← deoptsOf_finish, ← List.map_append, ← deoptsOf_append]
    rfl
  have hnone : (start retain).trapId? = none := rfl
  rw [← hyielded, hnone, Option.toList_none, ite_self, List.nil_append, List.nil_append] at hread
  refine ⟨hread, fun hall => ?_, fun hdisplaced => ?_⟩
  · have hlength := hread.length_eq
    rw [List.length_append, hall.length_eq] at hlength
    exact List.length_eq_zero_iff.mp (by omega)
  · rw [hdisplaced, List.append_nil] at hread
    exact hread

/-- A trap is displaced by one that opens inside it: of two tasks whose traps the log tells, only
the second has its event yielded. -/
theorem trap_displaced_by_inner_trap :
    let log := Text.Utf8.encode ("<uncommon_trap compile_id='1'><uncommon_trap compile_id='2'>" ++
      "</uncommon_trap></uncommon_trap>")
    let events := (Markup.read .never log).fragments.map (decode .builtin)
    runtimeIds events = [1, 2] ∧
      (deoptsOf (collect true events).2).map Deopt.compileId = [2] := by
  decide +kernel

end Collector

end CompileLog.Collect
