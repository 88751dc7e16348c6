import CompileLog.Proofs.Collect.Standing

/-!
# Every task has its cause

A collector hands over, under each number, one task for each cause that the log gives for that
number, in the same order. A number is idle, or a task waits under it, or its last start is under
way; each operation of a collector moves it between these three as the mentions do, and the end of
the log makes it idle.
-/

namespace CompileLog.Collect

variable {id : UInt64}

/-! ### Accounting -/

/-- The tasks with a number among what is handed over. -/
def tasksWith (id : UInt64) (items : List Item) : List Task :=
  (tasksOf items).filter fun t => t.compileId = id

/-- The tasks of what is handed over first come first. -/
theorem tasksWith_append (id : UInt64) (first second : List Item) :
    tasksWith id (first ++ second) = tasksWith id first ++ tasksWith id second := by
  unfold tasksWith
  rw [tasksOf_append, List.filter_append]

/-- Where no task is handed over there is none with the number. -/
theorem tasksWith_of_tasksOf {items : List Item} (h : tasksOf items = []) (id : UInt64) :
    tasksWith id items = [] := by
  unfold tasksWith
  rw [h, List.filter_nil]

/-- An operation that takes in some mentions of a number hands over the tasks that these cause. -/
def Accounts (id : UInt64) (ms : List Mention) (c : Collector) (r : Collector × List Item) : Prop :=
  ∀ cs ts, Standing id (c.holding id) cs ts →
    Standing id (r.1.holding id) (ms.foldl addMention cs) (ts ++ tasksWith id r.2)

namespace Accounts

variable {c c' : Collector} {items items' : List Item} {ms ms' : List Mention}

/-- What tells more of the same tasks and hands over none takes in no mention. -/
theorem of_revises {r : Collector × List Item} (h : (c.holding id).Revises (r.1.holding id))
    (hitems : tasksWith id r.2 = []) : Accounts id [] c r := by
  intro cs ts hstanding
  rw [hitems, List.append_nil]
  exact hstanding.revise h

/-- What leaves a number alone takes in no mention. -/
theorem of_holding_eq {r : Collector × List Item} (h : r.1.holding id = c.holding id)
    (hitems : tasksWith id r.2 = []) : Accounts id [] c r := by
  intro cs ts hstanding
  rw [hitems, List.append_nil, h]
  exact hstanding

/-- Whatever is handed over beside tasks does not count. -/
theorem prepend (hitems : tasksOf items = []) (h : Accounts id ms c (c', items')) :
    Accounts id ms c (c', items ++ items') := by
  intro cs ts hstanding
  rw [tasksWith_append, tasksWith_of_tasksOf hitems, List.nil_append]
  exact h cs ts hstanding

/-- What is handed over depends on what is held of the number only. -/
theorem congr {r : Collector × List Item} (h : c'.holding id = c.holding id)
    (haccounts : Accounts id ms c' r) : Accounts id ms c r := by
  intro cs ts hstanding
  rw [← h] at hstanding
  exact haccounts cs ts hstanding

/-- Two operations one after the other. -/
theorem trans {r : Collector × List Item} (h : Accounts id ms c (c', items))
    (h' : Accounts id ms' c' r) : Accounts id (ms ++ ms') c (r.1, items ++ r.2) := by
  intro cs ts hstanding
  have hboth := h' _ _ (h cs ts hstanding)
  rw [List.foldl_append, tasksWith_append, ← List.append_assoc]
  exact hboth

end Accounts

namespace Collector

variable (c : Collector)

/-- The task that is handed over has its number. -/
theorem tasksWith_handOver (id : UInt64) (t : Task) :
    tasksWith id (c.handOver t).2 = if t.compileId = id then [flagMisplaced t] else [] := by
  show List.filter _ [flagMisplaced t] = _
  rw [List.filter_singleton, (Task.Becomes.flagMisplaced t).compileId_eq]
  by_cases ht : t.compileId = id <;> simp [ht]

/-! ### What each operation hands over -/

/-- What begins no task is nothing new for a number of which a task was handed over. -/
theorem accounts_of_handedOver {m : Mention} (hstart : m.start? = none)
    (hhanded : c.isHandedOver id = true) {r : Collector × List Item}
    (h : r.1.holding id = c.holding id) (hitems : tasksOf r.2 = []) : Accounts id [m] c r := by
  intro cs ts hstanding
  have hadd : addMention cs m = cs := hstanding.addMention_of_handedOver hhanded hstart
  rw [tasksWith_of_tasksOf hitems, List.append_nil, h, List.foldl_cons, List.foldl_nil, hadd]
  exact hstanding

/-- What begins no task is told to the task that is not handed over. -/
theorem accounts_onTask {m : Mention} (hstart : m.start? = none)
    (hhanded : c.isHandedOver id = false)
    (hbridge : m.bridge? = none ∨ (c.openTask? id).isSome = true) (method : Option Method)
    {f : Task → Task} (hf : ∀ t, (f t).compileId = t.compileId)
    (hwaiting : ∀ ms t, Foreshadowed id ms t → Foreshadowed id (ms ++ [m]) (f t))
    (hbegun : ∀ facts earlier t, Begun id facts earlier t → Begun id facts earlier (f t)) :
    Accounts id [m] c (c.onTask id method f, []) := by
  intro cs ts hstanding
  have hopen : m.bridge? = none ∨ (c.holding id).active.isSome = true ∨
      (c.holding id).waiting.isSome = true := by
    refine hbridge.imp_right fun h => ?_
    unfold openTask? at h
    rw [Option.isSome_or, Bool.or_eq_true] at h
    exact h
  have htold := hstanding.tell hhanded hstart hopen (foreshadowed_implicitTask id method) hwaiting
    hbegun
  rw [tasksWith_of_tasksOf rfl, List.append_nil, holding_onTask_self c method hf]
  exact htold

/-- A task is queued. -/
theorem accounts_queueTask (facts : TaskFacts) {flags : List TaskFlag}
    (hflags : .implicitlyOpened ∉ flags) :
    Accounts id (mention? id (.taskQueued facts)).toList c (c.queueTask facts flags, []) := by
  have hid : ∀ t, (noteQueued facts flags t).compileId = t.compileId := fun t =>
    (Task.Becomes.withFlags hflags _).compileId_eq
  show Accounts id (if facts.compileId = some id then some (.queued facts) else none).toList c _
  unfold queueTask
  cases hnumber : facts.compileId with
  | none => exact .of_holding_eq rfl rfl
  | some id' =>
    simp only
    by_cases hne : id' = id
    · subst hne
      rw [if_pos rfl]
      cases hhanded : c.isHandedOver id' with
      | true => exact c.accounts_of_handedOver rfl hhanded rfl rfl
      | false =>
        refine c.accounts_onTask (m := .queued facts) (f := noteQueued facts flags) rfl hhanded
          (.inl rfl) facts.method hid (fun ms t ht => ?_) (fun begun earlier t ht => ?_)
        · refine Foreshadowed.becomes ?_ (Task.Becomes.withFlags hflags _)
          have hnative : (ms ++ [Mention.queued facts]).any Mention.installs = true →
              t.native.isSome = true := fun h =>
            ht.native_isSome (by simpa [Mention.installs] using h)
          refine ⟨ht.compileId_eq, ht.startedAt_eq, ?_, hnative, ht.implicit⟩
          rw [queueStamp?_concat, ← ht.queuedAt_eq]
          rfl
        · refine Begun.becomes ?_ (Task.Becomes.withFlags hflags _)
          refine ⟨ht.compileId_eq, ht.startedAt_eq, fun stamp hstamp => ?_, ht.native_isSome,
            ht.explicit⟩
          show t.queuedAt.or facts.stamp = some stamp
          rw [ht.queuedAt_eq stamp hstamp, Option.some_or]
    · rw [if_neg (fun h => hne (Option.some.inj h))]
      refine .of_holding_eq ?_ rfl
      show (if c.isHandedOver id' = true then c
        else c.onTask id' facts.method (noteQueued facts flags)).holding id = c.holding id
      split
      · rfl
      · exact c.holding_onTask_of_ne hne _ hid

/-- A bridge is a finished task with the code that is installed, and nothing else is known of
it. -/
theorem wrapperTask_eq (id : UInt64) (facts : NativeFacts) (flags : List TaskFlag) :
    (flagMisplaced (wrapperTask id facts flags)).compileId = id ∧
      (flagMisplaced (wrapperTask id facts flags)).state = .closed ∧
      (flagMisplaced (wrapperTask id facts flags)).kind = .nativeWrapper ∧
      (flagMisplaced (wrapperTask id facts flags)).native = some (nativeOf facts) := by
  rw [flagMisplaced_eq_withFlags]
  obtain ⟨flags₁, heq₁, _⟩ := withFlags_eq (misplacedFlags (wrapperTask id facts flags))
    (wrapperTask id facts flags)
  rw [heq₁]
  unfold wrapperTask
  obtain ⟨flags₂, heq₂, _⟩ := withFlags_eq flags _
  rw [heq₂]
  unfold flagUnresolved
  split
  · obtain ⟨flags₃, heq₃, _⟩ := Task.flag_eq _ TaskFlag.unresolvedMethod
    rw [heq₃]
    exact ⟨rfl, rfl, rfl, rfl⟩
  · exact ⟨rfl, rfl, rfl, rfl⟩

/-- A task is known by its code once that is installed. -/
theorem isSome_native_install (facts : NativeFacts) (flags : List TaskFlag) (t : Task) :
    (install facts flags t).native.isSome = true := by
  unfold install
  obtain ⟨flags', heq, _⟩ := withFlags_eq flags _
  rw [heq]
  rfl

/-- A bridge to native code of which nothing was said is handed over at once. -/
theorem accounts_bridge {facts : NativeFacts}
    (hkind : CompileKind.ofLog facts.compileKind none = .nativeWrapper)
    (hhanded : c.isHandedOver id = false) (hopen : c.openTask? id = none) {flags : List TaskFlag} :
    Accounts id [.installed facts] c (c.handOver (wrapperTask id facts flags)) := by
  intro cs ts hstanding
  obtain ⟨hid', hstate, hwrapper, hnative⟩ := wrapperTask_eq id facts flags
  have hid : (wrapperTask id facts flags).compileId = id :=
    (Task.Becomes.flagMisplaced _).compileId_eq.symm.trans hid'
  rw [holding_handOver_self c hid, tasksWith_handOver, if_pos hid]
  obtain ⟨hactive, hwaiting⟩ : (c.holding id).active = none ∧ (c.holding id).waiting = none := by
    unfold openTask? at hopen
    exact Option.or_eq_none_iff.mp hopen
  generalize hholding : c.holding id = h at hstanding hactive hwaiting
  have hidle : h.handedOver = false := by rw [← hholding]; exact hhanded
  cases hstanding with
  | @idle cs ts hsettled hyields =>
    obtain rfl : cs = [] := by simpa using hidle
    cases hyields
    have hadd : [Mention.installed facts].foldl addMention [] = [.bridged facts] := by
      simp [addMention, Mention.start?, Mention.bridge?, hkind]
    rw [hadd]
    have hyields : Cause.Yields id (.bridged facts) (flagMisplaced (wrapperTask id facts flags)) :=
      ⟨hid', hstate, hwrapper, hnative⟩
    have hsettled : ∀ cause ∈ [Cause.bridged facts], cause.isSettled = true := by
      simp [Cause.isSettled]
    exact Standing.idle hsettled (.cons hyields .nil)
  | waiting ht => cases hwaiting
  | underway hsettled hyields ht => cases hactive

/-- Code is installed. -/
theorem accounts_installCode (facts : NativeFacts) {flags : List TaskFlag}
    (hflags : .implicitlyOpened ∉ flags) :
    Accounts id (mention? id (.nmethod facts)).toList c (c.installCode facts flags) := by
  have hid : ∀ t, (install facts flags t).compileId = t.compileId := fun t =>
    (Task.Becomes.install facts hflags t).compileId_eq
  show Accounts id (if facts.compileId = some id then some (.installed facts) else none).toList c _
  cases hnumber : facts.compileId with
  | none =>
    unfold installCode
    rw [hnumber]
    exact .of_holding_eq rfl rfl
  | some id' =>
    obtain ⟨addresses, heq⟩ := c.installCode_eq hnumber flags
    rw [heq]
    have hheld : holding { c with addresses } id = c.holding id := rfl
    refine .congr hheld ?_
    generalize { c with addresses } = placed
    by_cases hne : id' = id
    · subst hne
      rw [if_pos rfl]
      by_cases hhanded : placed.isHandedOver id' = true
      · rw [if_pos hhanded]
        exact placed.accounts_of_handedOver rfl hhanded rfl rfl
      · rw [if_neg hhanded]
        rw [Bool.not_eq_true] at hhanded
        split_ifs with hbridge
        · exact placed.accounts_bridge hbridge.1 hhanded
            (Option.isNone_iff_eq_none.mp hbridge.2)
        · refine placed.accounts_onTask rfl hhanded ?_ facts.method hid
            (fun ms t ht => ?_) fun begun earlier t ht => ht.becomes (.install facts hflags t)
          · by_cases hkind : CompileKind.ofLog facts.compileKind none = .nativeWrapper
            · right
              rw [Option.isSome_iff_ne_none]
              exact fun h => hbridge ⟨hkind, by rw [h]; rfl⟩
            · exact .inl (if_neg hkind)
          · have hinstalled := ht.becomes (.install facts hflags t)
            refine ⟨hinstalled.compileId_eq, hinstalled.startedAt_eq, ?_, fun _ => ?_,
              hinstalled.implicit⟩
            · rw [queueStamp?_concat, hinstalled.queuedAt_eq]
              exact Option.or_none.symm
            · exact isSome_native_install facts flags t
    · rw [if_neg (fun h => hne (Option.some.inj h))]
      split_ifs with hhanded hbridge
      · exact .of_holding_eq rfl rfl
      · have hid' : (wrapperTask id' facts flags).compileId ≠ id := by
          rw [← (Task.Becomes.flagMisplaced _).compileId_eq, (wrapperTask_eq id' facts flags).1]
          exact hne
        refine .of_holding_eq (placed.holding_handOver_of_ne hid') ?_
        rw [tasksWith_handOver, if_neg hid']
      · exact .of_holding_eq (placed.holding_onTask_of_ne hne _ hid) rfl

/-- A listing is placed. -/
theorem accounts_placeListing (l : Listing) : Accounts id [] c (c.placeListing l) := by
  have hitems := tasksWith_of_tasksOf (c.tasksOf_placeListing l) id
  refine .of_revises ?_ hitems
  unfold placeListing
  split
  · exact .refl _
  · split
    · next hopen => exact c.revises_putTask hopen (.addListing _ l _) id
    · exact .refl _

/-- What takes in no mention step by step takes in none at all. -/
theorem accounts_each {α : Type} {f : Collector → α → Collector × List Item}
    (hf : ∀ c a, Accounts id [] c (f c a)) (l : List α) : Accounts id [] c (c.each f l) := by
  induction l generalizing c with
  | nil => exact .of_holding_eq rfl rfl
  | cons a rest ih => exact (hf c a).trans (ih (f c a).1)

/-- The printed machine code is read. -/
theorem accounts_flush : Accounts id [] c c.flush := by
  have hcleared : Accounts id [] { c with printed := "" } c.flush :=
    accounts_each _ (fun c l => c.accounts_placeListing l) _
  exact hcleared

/-- The task under way ends. -/
theorem accounts_handOver_active {c : Collector} {a : Compiling} (hactive : c.active = some a)
    {t : Task} (ht : a.task.Becomes t) (hstate : t.state = .closed ∨ t.state = .abandoned) :
    Accounts id [] c ({ c with active := none }.handOver t) := by
  intro cs ts hstanding
  rw [tasksWith_handOver]
  by_cases hid : t.compileId = id
  · have hheld : (c.holding id).active = some a.task := by
      unfold holding
      rw [activeWith?_of_active hactive, if_pos (ht.compileId_eq.symm.trans hid)]
      rfl
    obtain ⟨hwaiting, hidle⟩ := hstanding.handOver hheld ht hstate
    have hwaiting : c.waiting.get? id = none := hwaiting
    rw [holding_handOver_self _ hid, if_pos hid]
    show Standing id ⟨none, c.waiting.get? id, true⟩ cs _
    rw [hwaiting]
    exact hidle
  · have hnone : c.activeWith? id = none := by
      rw [activeWith?_of_active hactive, if_neg (fun h => hid (ht.compileId_eq.trans h))]
    have hsame : holding { c with active := none } id = c.holding id := by
      unfold holding
      rw [hnone]
      rfl
    rw [holding_handOver_of_ne _ hid, if_neg hid, List.append_nil, hsame]
    exact hstanding

/-- The task under way is cut short. -/
theorem accounts_abandonActive : Accounts id [] c c.abandonActive := by
  unfold abandonActive
  cases hactive : c.active with
  | none => exact .of_holding_eq rfl rfl
  | some a =>
    exact accounts_handOver_active hactive (.cutShort a.task) (.inr (cutShort_abandoned a.task).1)

/-- The task under way is finished. -/
theorem accounts_finishTask (success : Option Bool) (nativeSize inlinedBytes : Option UInt64)
    (stamp : Option Stamp) {flags : List TaskFlag} (hflags : .implicitlyOpened ∉ flags) :
    Accounts id [] c (c.finishTask success nativeSize inlinedBytes stamp flags) := by
  cases hactive : c.active with
  | none =>
    unfold finishTask
    rw [hactive]
    exact .of_holding_eq rfl rfl
  | some a =>
    obtain ⟨sample, hsample, heq⟩ :=
      finishTask_of_active hactive success nativeSize inlinedBytes stamp flags
    obtain ⟨hbecomes, hclosed⟩ := a.becomes_finished success nativeSize inlinedBytes stamp hflags
    rw [heq]
    exact .prepend hsample (accounts_handOver_active hactive hbecomes (.inl hclosed))

/-- A number under which no task waits gives a new one. -/
theorem takeWaiting_of_none {c : Collector} (h : c.waiting.get? id = none) :
    (c.takeWaiting id).1.holding id = c.holding id ∧ Ready id [] (c.takeWaiting id).2 := by
  have hnew : Ready id [] (.new id .unresolved) :=
    ⟨rfl, rfl, rfl, fun h => by simp at h, List.not_mem_nil⟩
  unfold takeWaiting
  rw [h]
  simp only
  split
  · refine ⟨rfl, ?_⟩
    have hflagged := Task.Becomes.flag (.new id .unresolved) (f := .duplicateCompileId)
      TaskFlag.noConfusion
    exact ⟨hflagged.compileId_eq, hflagged.startedAt_eq, hflagged.queuedAt_eq,
      fun h => by simp at h, fun h => hnew.explicit (hflagged.implicit_iff.mp h)⟩
  · exact ⟨rfl, hnew⟩

/-- A task that waits under a number is taken over. -/
theorem takeWaiting_of_waiting {c : Collector} {ms : List Mention} {t : Task}
    (h : c.waiting.get? id = some t) (ht : Foreshadowed id ms t) :
    (c.takeWaiting id).1.holding id = { c.holding id with waiting := none } ∧
      Ready id ms (c.takeWaiting id).2 := by
  unfold takeWaiting
  rw [h]
  refine ⟨?_, ht.compileId_eq, ht.startedAt_eq, ht.queuedAt_eq, ht.native_isSome, by simp⟩
  unfold holding
  simp only [KeyMap.get?_erase, if_true]
  rfl

/-- A task begins where none is under way. -/
theorem accounts_begin {c : Collector} (hwaiting : c.WaitingUnparsed) (hactive : c.active = none)
    (facts : TaskFacts)
    (thread : Option String) {flags : List TaskFlag} (hflags : .implicitlyOpened ∉ flags) :
    Accounts id (mention? id (.taskStart facts)).toList c
      ({ (c.takeWaiting (facts.compileId.getD noId)).1 with
          active := some (.start (beginTask facts thread flags
            (c.takeWaiting (facts.compileId.getD noId)).2)) }, []) := by
  generalize hnumber : facts.compileId.getD noId = number
  show Accounts id (if facts.compileId.getD noId = id then some (.begun facts) else none).toList c _
  rw [hnumber]
  have hidle : (c.holding id).active = none := by
    unfold holding activeWith?
    rw [hactive]
    rfl
  by_cases hne : number = id
  · subst hne
    rw [if_pos rfl]
    intro cs ts hstanding
    rw [tasksWith_of_tasksOf rfl, List.append_nil]
    show Standing number _ (addMention cs (.begun facts)) ts
    generalize hholding : c.holding number = h at hstanding hidle
    have hfound : c.waiting.get? number = h.waiting := by rw [← hholding]; rfl
    cases hstanding with
    | @idle cs ts hsettled hyields =>
      obtain ⟨hheld, hready⟩ := takeWaiting_of_none hfound
      have hbegun := hready.begun facts thread hflags
      rw [holding_activate_self _ hbegun.compileId_eq, hheld, hholding,
        addMention_of_start? hsettled (show Mention.start? (.begun facts) = some facts from rfl)]
      exact .underway hsettled hyields hbegun
    | @waiting mentions t ht =>
      obtain ⟨hheld, hready⟩ := takeWaiting_of_waiting hfound ht
      have hbegun := hready.begun facts thread hflags
      rw [holding_activate_self _ hbegun.compileId_eq, hheld, hholding]
      have hnone : ∀ cause ∈ ([] : List Cause), cause.isSettled = true := by simp
      exact .underway hnone .nil hbegun
    | underway hsettled hyields ht => cases hidle
  · rw [if_neg hne]
    refine .of_holding_eq ?_ rfl
    have hnumber' : (beginTask facts thread flags (c.takeWaiting number).2).compileId = number := by
      refine (Task.Becomes.withFlags hflags _).compileId_eq.trans ?_
      exact (Task.Becomes.flagUnresolved _).compileId_eq.trans
        (hwaiting.takeWaiting number).2.compileId_eq
    have hother : (Compiling.start (beginTask facts thread flags
        (c.takeWaiting number).2)).task.compileId ≠ id := fun h => hne (hnumber'.symm.trans h)
    rw [holding_activate_of_ne _ hother, holding_takeWaiting_of_ne c hne, ← hidle]

/-- Once the task under way is cut short, none is. -/
theorem active_abandonActive : c.abandonActive.1.active = none := by
  unfold abandonActive
  cases hactive : c.active with
  | none => exact hactive
  | some a => rfl

/-- A task begins. -/
theorem accounts_startTask {c : Collector} (hwaiting : c.WaitingUnparsed) (facts : TaskFacts)
    {flags : List TaskFlag} (hflags : .implicitlyOpened ∉ flags) :
    Accounts id (mention? id (.taskStart facts)).toList c (c.startTask facts flags) := by
  unfold startTask
  simp only
  generalize hcounted : (if facts.compileId.isNone = true then c.abandonActive.1.countStray
    else c.abandonActive.1) = counted
  have hsame : counted.holding id = c.abandonActive.1.holding id ∧ counted.WaitingUnparsed ∧
      counted.active = none := by
    subst hcounted
    split <;> exact ⟨rfl, hwaiting.abandonActive, c.active_abandonActive⟩
  obtain ⟨hheld, hwaiting', hactive⟩ := hsame
  have hbegin := Accounts.congr hheld (accounts_begin hwaiting' hactive facts
    (counted.takeWaiting (facts.compileId.getD noId)).1.thread hflags)
  have hboth := c.accounts_abandonActive.trans hbegin
  rw [List.append_nil] at hboth
  exact hboth

/-- Something is said about the task under way. -/
theorem accounts_takeInTask (shape : Shape) (e : Event) {flags : List TaskFlag}
    (hflags : .implicitlyOpened ∉ flags) : Accounts id [] c (c.takeInTask shape e flags, []) := by
  refine .of_revises ?_ rfl
  show (c.holding id).Revises ((c.takeInTask shape e flags).holding id)
  unfold takeInTask
  cases hactive : c.active with
  | none =>
    simp only
    split <;> exact .refl _
  | some a =>
    have htaken := Compiling.becomes_take { a with task := withFlags flags a.task } shape e
    exact revises_active hactive ((Task.Becomes.withFlags hflags a.task).trans htaken) id

/-- A frame is told. -/
theorem accounts_takeFrame (bci : Option UInt32) (method : Option Method)
    (methodId : Option UInt64) :
    Accounts id [] c (c.takeFrame bci method methodId, []) := by
  refine .of_revises ?_ rfl
  show (c.holding id).Revises ((c.takeFrame bci method methodId).holding id)
  unfold takeFrame
  split
  · split <;> exact .refl _
  · cases hactive : c.active with
    | none =>
      have hsame : holding { c with active := none } id = c.holding id := by
        unfold holding activeWith?
        rw [hactive]
        rfl
      rw [Option.map_none, hsame]
      exact .refl _
    | some a =>
      have hsame : a.task.Becomes (a.addFrame bci method methodId).task := .refl a.task
      exact revises_active hactive hsame id

/-- An event that may open no task mentions none. -/
theorem mention?_eq_none {e : Event} (he : opensTask e = false) (id : UInt64) :
    mention? id e = none := by
  cases e <;> first | rfl | cases he

/-- Whatever an event says, a collector hands over the tasks that its mention causes. -/
theorem accounts_take {c : Collector} (hwaiting : c.WaitingUnparsed) (shape : Shape)
    {flags : List TaskFlag} (hflags : .implicitlyOpened ∉ flags) (e : Event) :
    Accounts id (mention? id e).toList c (c.take shape flags e) := by
  have hdoes := c.does_take shape flags e
  generalize c.take shape flags e = taken at hdoes
  cases hdoes with
  | queues facts => exact c.accounts_queueTask facts hflags
  | starts facts => exact accounts_startTask hwaiting facts hflags
  | finishes success nativeSize inlinedBytes stamp => exact c.accounts_finishTask _ _ _ _ hflags
  | installs facts => exact c.accounts_installCode facts hflags
  | cutsShort he thread =>
    rw [mention?_eq_none he]
    exact c.accounts_abandonActive
  | flushes he =>
    rw [mention?_eq_none he]
    exact c.accounts_flush
  | tells he =>
    rw [mention?_eq_none he]
    exact c.accounts_takeInTask _ _ hflags
  | frames bci method methodId => exact c.accounts_takeFrame bci method methodId
  | passes he hsame hitems =>
    rw [mention?_eq_none he]
    refine .of_holding_eq ?_ (tasksWith_of_tasksOf hitems id)
    unfold holding activeWith? isHandedOver
    rw [hsame.active_eq, hsame.waiting_eq, hsame.handedOver_eq]

/-- Whatever the next event says, a collector hands over the tasks that its mention causes. -/
theorem accounts_accept {c : Collector} (hwaiting : c.WaitingUnparsed) (e : LogEvent) :
    Accounts id (mention? id e.event).toList c (c.accept e) := by
  have hflushed : Accounts id [] c (c.flushBefore e.event) ∧
      (c.flushBefore e.event).1.WaitingUnparsed := by
    unfold flushBefore
    split
    · exact ⟨.of_holding_eq rfl rfl, hwaiting⟩
    · exact ⟨c.accounts_flush, hwaiting.flush⟩
  have hwaiting' : WaitingUnparsed ((c.flushBefore e.event).1.count fun n =>
      { n with unreadAttributes := n.unreadAttributes + e.unread.length }) := hflushed.2
  have htaken : Accounts id (mention? id e.event).toList (c.flushBefore e.event).1
      (take ((c.flushBefore e.event).1.count fun n =>
        { n with unreadAttributes := n.unreadAttributes + e.unread.length }) e.shape
        (unreadFlags e) e.event) :=
    .congr rfl (accounts_take hwaiting' e.shape (implicitlyOpened_notMem_unreadFlags e) e.event)
  exact hflushed.1.trans htaken

/-- Whatever a log says, a collector hands over the tasks that its mentions cause. By induction on
the events. -/
theorem accounts_acceptAll {c : Collector} (hwaiting : c.WaitingUnparsed)
    (events : List LogEvent) : Accounts id (mentionsOf id events) c (c.acceptAll events) := by
  induction events generalizing c with
  | nil => exact .of_holding_eq rfl rfl
  | cons e rest ih =>
    have hfirst : Accounts id (mention? id e.event).toList c (c.accept e) :=
      accounts_accept hwaiting e
    have hboth := hfirst.trans (ih (hwaiting.accept e))
    have hmentions : mentionsOf id (e :: rest) =
        (mention? id e.event).toList ++ mentionsOf id rest := by
      unfold mentionsOf
      rw [List.filterMap_cons]
      cases mention? id e.event <;> rfl
    rw [hmentions]
    exact hboth

/-! ### The end of a log -/

/-- Of the tasks that wait when a log ends, the one with a number is handed over under it. -/
theorem tasksWith_abandonWaiting {c : Collector} (hwaiting : c.WaitingUnparsed) (id : UInt64) :
    tasksWith id c.abandonWaiting.2 =
      (c.waiting.get? id).toList.map fun t => flagMisplaced (cutShort t) := by
  have hid : ∀ t : Task, (flagMisplaced (cutShort t)).compileId = t.compileId := fun t =>
    ((Task.Becomes.cutShort t).trans (.flagMisplaced _)).compileId_eq
  have hnumbers : ∀ number t, c.waiting.get? number = some t → t.compileId = number :=
    fun number t h => (hwaiting number t h).compileId_eq
  unfold tasksWith abandonWaiting
  rw [(each_handOver_cutShort _ _).1, List.filter_map, ← KeyMap.filter_values hnumbers id]
  simp only [Function.comp_def, hid]
  rfl

/-- When no task is under way any more, the end of the log makes a number idle. -/
theorem yields_abandonWaiting {c : Collector} (hwaiting : c.WaitingUnparsed)
    (hactive : c.active = none) {cs : List Cause} {ts : List Task}
    (hstanding : Standing id (c.holding id) cs ts) :
    List.Forall₂ (Cause.Yields id) cs (ts ++ tasksWith id c.abandonWaiting.2) := by
  rw [tasksWith_abandonWaiting hwaiting]
  have hidle : (c.holding id).active = none := by
    unfold holding activeWith?
    rw [hactive]
    rfl
  generalize hholding : c.holding id = h at hstanding hidle
  have hfound : c.waiting.get? id = h.waiting := by rw [← hholding]; rfl
  rw [hfound]
  cases hstanding with
  | @idle cs ts hsettled hyields =>
    show List.Forall₂ _ cs (ts ++ [])
    rw [List.append_nil]
    exact hyields
  | @waiting mentions t ht =>
    have hended := ht.becomes ((Task.Becomes.cutShort t).trans (.flagMisplaced _))
    refine .cons ⟨hended, ?_⟩ .nil
    exact (state_flagMisplaced _).trans (cutShort_abandoned t).1
  | underway hsettled hyields ht => cases hidle

/-- The end of a log makes a number idle, and leaves no task open. -/
theorem yields_finish {c : Collector} (hwaiting : c.WaitingUnparsed) {cs : List Cause}
    {ts : List Task} (hstanding : Standing id (c.holding id) cs ts) :
    List.Forall₂ (Cause.Yields id) cs (ts ++ tasksWith id c.finish.2) ∧
      c.finish.1.openTasks = 0 := by
  have hreleased : c.flush.1.releaseTrap.1.holding id = c.flush.1.holding id ∧
      c.flush.1.releaseTrap.1.WaitingUnparsed := by
    unfold releaseTrap
    split <;> exact ⟨rfl, hwaiting.flush⟩
  have hactive := c.flush.1.releaseTrap.1.active_abandonActive
  have hread := c.accounts_flush cs ts hstanding
  have hcut := c.flush.1.releaseTrap.1.accounts_abandonActive cs _ (hreleased.1 ▸ hread)
  have hyields := yields_abandonWaiting hreleased.2.abandonActive hactive hcut
  constructor
  · unfold finish
    simp only [tasksWith_append, tasksWith_of_tasksOf (tasksOf_releaseTrap _), List.append_nil]
    rw [← List.append_assoc, ← List.append_assoc]
    exact hyields
  · unfold finish abandonWaiting
    simp only
    obtain ⟨_, hended, hnone⟩ := each_handOver_cutShort
      { c.flush.1.releaseTrap.1.abandonActive.1 with waiting := ∅ }
      (c.flush.1.releaseTrap.1.abandonActive.1.waiting.entries.map Prod.snd)
    unfold openTasks
    rw [hended, hnone, hactive]
    rfl

/-- While a log is read, the tasks of a number stand as its mentions so far have it. -/
theorem standing_acceptAll (retain : Bool) (events : List LogEvent) (id : UInt64) :
    Standing id (((start retain).acceptAll events).1.holding id) (causes (mentionsOf id events))
      (tasksWith id ((start retain).acceptAll events).2) := by
  have hstart : (start retain).WaitingUnparsed := fun id t hfound => by simp [start] at hfound
  have hidle : Standing id ((start retain).holding id) [] [] := .idle (by simp) .nil
  have hcauses : causes (mentionsOf id events) = (mentionsOf id events).foldl addMention [] :=
    causes_append [] _
  rw [hcauses]
  exact accounts_acceptAll hstart events [] [] hidle

/-- A log hands over, under each number, one task for each cause, in the same order, and leaves no
task open. -/
theorem yields_collect (retain : Bool) (events : List LogEvent) (id : UInt64) :
    List.Forall₂ (Cause.Yields id) (causes (mentionsOf id events))
        (tasksWith id (collect retain events).2) ∧
      (collect retain events).1.openTasks = 0 := by
  obtain ⟨hyields, hopen⟩ := yields_finish (waitingUnparsed_acceptAll retain events)
    (standing_acceptAll retain events id)
  refine ⟨?_, hopen⟩
  unfold collect
  simp only
  rw [tasksWith_append]
  exact hyields

end Collector

end CompileLog.Collect
