import CompileLog.Proofs.Collect.Heard

/-!
# Phases in turn

A task keeps the phases that it is told of in the order in which they begin. An end that is told is
that of the latest phase that has none, whatever element it stands in: the end of an element ends no
phase. So the phases of a task depend only on the order in which beginnings and ends are told.
-/

namespace CompileLog

namespace Collect

/-! ### What a log tells of phases -/

/-- A phase that a log tells of. -/
structure ToldPhase where
  /-- What is told where it begins. -/
  begun : PhaseFacts
  /-- What is told where it ends. -/
  ended : Option PhaseFacts
  deriving DecidableEq

/-- The record of a phase. -/
def ToldPhase.record (p : ToldPhase) : Phase where
  name := p.begun.name.getD ""
  startedAt := p.begun.stamp
  finishedAt := p.ended.bind PhaseFacts.stamp
  nodesBefore := p.begun.nodes
  nodesAfter := p.ended.bind PhaseFacts.nodes

/-- Ends the latest phase that has not ended. The latest comes first. -/
def endLatest (facts : PhaseFacts) : List ToldPhase → List ToldPhase
  | [] => []
  | p :: earlier =>
    if p.ended.isNone then { p with ended := some facts } :: earlier
    else p :: endLatest facts earlier

/-- The phases with what an event tells, the latest first. -/
def hearPhase (phases : List ToldPhase) : Event → List ToldPhase
  | .phase facts => ⟨facts, none⟩ :: phases
  | .phaseDone facts => endLatest facts phases
  | _ => phases

/-- The phases that events tell of, the latest first. -/
def phasesHeard (events : List Event) : List ToldPhase := events.foldl hearPhase []

/-- The records of phases of which the latest comes first, in the order in which they begin. -/
def records (phases : List ToldPhase) : List Phase := (phases.map ToldPhase.record).reverse

/-- The positions of the phases that have not ended, the latest first. -/
def unended : List ToldPhase → List Nat
  | [] => []
  | p :: earlier => if p.ended.isNone then earlier.length :: unended earlier else unended earlier

/-- There is a record for each phase. -/
theorem length_records (phases : List ToldPhase) : (records phases).length = phases.length := by
  unfold records
  rw [List.length_reverse, List.length_map]

/-- The record of the latest phase is the last. -/
theorem records_cons (p : ToldPhase) (earlier : List ToldPhase) :
    records (p :: earlier) = records earlier ++ [p.record] := by
  unfold records
  rw [List.map_cons, List.reverse_cons]

/-- A position is that of a phase. -/
theorem lt_of_mem_unended {phases : List ToldPhase} {n : Nat} (h : n ∈ unended phases) :
    n < phases.length := by
  induction phases with
  | nil => cases h
  | cons p earlier ih =>
    rw [List.length_cons]
    unfold unended at h
    split_ifs at h with hopen
    · rcases List.mem_cons.mp h with rfl | h
      · exact Nat.lt_succ_self _
      · exact Nat.lt_succ_of_lt (ih h)
    · exact Nat.lt_succ_of_lt (ih h)

/-- Where every phase has ended, none is ended. -/
theorem endLatest_of_unended_eq_nil (facts : PhaseFacts) {phases : List ToldPhase}
    (h : unended phases = []) : endLatest facts phases = phases := by
  induction phases with
  | nil => rfl
  | cons p earlier ih =>
    unfold unended at h
    split_ifs at h with hopen
    unfold endLatest
    rw [if_neg hopen, ih h]

/-- Changing one of the first of two lists leaves the second. -/
theorem modify_append_of_lt {α : Type} (f : α → α) {xs : List α} {n : Nat} (h : n < xs.length)
    (ys : List α) : (xs ++ ys).modify n f = xs.modify n f ++ ys := by
  rw [List.modify_eq_take_drop, List.modify_eq_take_drop, List.take_append_of_le_length h.le,
    List.drop_append_of_le_length h.le, List.append_assoc]
  rw [List.drop_eq_getElem_cons h]
  rfl

/-- A record with what is told where its phase ends. -/
def endRecord (facts : PhaseFacts) (p : Phase) : Phase :=
  { p with finishedAt := facts.stamp, nodesAfter := facts.nodes }

/-- The latest phase that has not ended is ended at its position. By induction on the phases: where
the latest has ended, the position is one of those before it. -/
theorem endLatest_of_unended_eq_cons (facts : PhaseFacts) {phases : List ToldPhase} {n : Nat}
    {outer : List Nat} (h : unended phases = n :: outer) :
    records (endLatest facts phases) = (records phases).modify n (endRecord facts) ∧
      unended (endLatest facts phases) = outer := by
  induction phases with
  | nil => cases h
  | cons p earlier ih =>
    have hlt : n < (p :: earlier).length := lt_of_mem_unended (h ▸ List.mem_cons_self)
    unfold unended at h
    unfold endLatest
    split_ifs at h ⊢ with hopen
    · obtain ⟨rfl, rfl⟩ := List.cons.inj h
      refine ⟨?_, rfl⟩
      have hrecord : ({ p with ended := some facts } : ToldPhase).record =
          endRecord facts p.record := rfl
      rw [records_cons, records_cons, hrecord, ← length_records, List.modify_eq_take_drop,
        List.take_left, List.drop_left]
      rfl
    · obtain ⟨hrecords, hunended⟩ := ih h
      have hbefore : n < (records earlier).length := by
        rw [length_records]
        exact lt_of_mem_unended (h ▸ List.mem_cons_self)
      refine ⟨?_, ?_⟩
      · rw [records_cons, records_cons, hrecords, modify_append_of_lt _ hbefore]
      · unfold unended
        rw [if_neg hopen, hunended]

/-! ### Tasks -/

namespace Collector

/-- Noting flags changes no phase. -/
theorem phases_withFlags (flags : List TaskFlag) (t : Task) :
    (withFlags flags t).phases = t.phases := by
  obtain ⟨flags', heq, -⟩ := withFlags_eq flags t
  rw [heq]

/-- Nor does noting the call sites that lie outside their callers. -/
theorem phases_flagMisplaced (t : Task) : (flagMisplaced t).phases = t.phases := by
  rw [flagMisplaced_eq_withFlags, phases_withFlags]

/-- Nor does noting that the method is not known. -/
theorem phases_flagUnresolved (t : Task) : (flagUnresolved t).phases = t.phases := by
  unfold flagUnresolved
  split
  · exact phases_withFlags [_] t
  · rfl

/-- Nor does the end of a task that was cut short. -/
theorem phases_cutShort (t : Task) : (cutShort t).phases = t.phases :=
  phases_withFlags [_] { t with state := TaskState.abandoned }

/-- Nor does what is said where a task begins. -/
theorem phases_beginTask (facts : TaskFacts) (thread : Option String) (flags : List TaskFlag)
    (t : Task) : (beginTask facts thread flags t).phases = t.phases := by
  unfold beginTask
  rw [phases_withFlags]
  simp only
  rw [phases_flagUnresolved]
  rfl

/-- A bridge to native code has no phases. -/
theorem phases_wrapperTask (id : UInt64) (facts : NativeFacts) (flags : List TaskFlag) :
    (wrapperTask id facts flags).phases = [] := by
  unfold wrapperTask
  rw [phases_withFlags, phases_flagUnresolved]
  rfl

end Collector

/-- Whatever may be told of a task before it begins changes no phase. -/
theorem Told.phases_eq {f : Task → Task} (hf : Told f) (t : Task) : (f t).phases = t.phases := by
  cases hf with
  | queued facts hflags => exact Collector.phases_withFlags _ _
  | installed facts hflags =>
    unfold Collector.install
    rw [Collector.phases_withFlags]
    split <;> rfl
  | printed retain l =>
    have hattached : (t.attachListing l).phases = t.phases := by
      unfold Task.attachListing
      split
      · rfl
      · exact Collector.phases_withFlags [_] t
    unfold Collector.addListing
    split <;> exact hattached

/-- A task leaves with the phases that it had under way. -/
theorem LeavesAs.phases_eq {a : Compiling} {t : Task} (h : LeavesAs a t) :
    t.phases = a.task.phases := by
  cases h with
  | @finished success nativeSize inlinedBytes stamp flags hflags =>
    rw [Collector.phases_flagMisplaced]
    unfold Compiling.finished
    simp only
    split
    · exact Collector.phases_withFlags flags a.task
    · exact (Collector.phases_withFlags [_] _).trans (Collector.phases_withFlags flags a.task)
  | cut => rw [Collector.phases_flagMisplaced, Collector.phases_cutShort]

/-- No task that waits has any. -/
theorem custody_hasNoPhases :
    Custody (fun _ t => t.phases = []) (fun _ => True) fun _ => True where
  met _ _ := rfl
  told_waiting hf h := (hf.phases_eq _).trans h
  told_active _ _ := trivial
  begun _ _ _ _ := trivial
  heard _ _ _ _ := trivial
  framed _ _ _ _ := trivial
  finished _ _ _ _ _ _ := trivial
  cut _ := trivial
  forgotten _ := trivial
  bridged _ _ _ := trivial

/-- Nor has one that never began. -/
theorem Unbegun.phases_eq_nil {t : Task} (h : Unbegun (fun _ t => t.phases = []) t) :
    t.phases = [] := by
  cases h with
  | forgotten h => rw [Collector.phases_flagMisplaced, Collector.phases_cutShort, h]
  | bridged id facts hflags => rw [Collector.phases_flagMisplaced, Collector.phases_wrapperTask]

/-! ### The task under way -/

namespace Compiling

variable (c : Compiling)

/-- Noting that something was said changes no phase. -/
theorem phases_touch : c.touch.task.phases = c.task.phases := by
  unfold touch onTask
  simp only
  split <;> rfl

/-- Nor does the end of a removed operation. -/
theorem phases_closeRecord :
    c.closeRecord.task.phases = c.task.phases ∧ c.closeRecord.openPhases = c.openPhases := by
  unfold closeRecord
  split <;> exact ⟨rfl, rfl⟩

/-- Nor does its begin. -/
theorem phases_openRecord (record : OpenRecord) (shape : Shape) :
    (c.openRecord record shape).task.phases = c.task.phases ∧
      (c.openRecord record shape).openPhases = c.openPhases := by
  obtain ⟨hphases, hopen⟩ := c.touch.phases_closeRecord
  have hclosed := hphases.trans c.phases_touch
  unfold openRecord
  simp only
  split
  · exact ⟨hclosed, hopen⟩
  · obtain ⟨hphases', hopen'⟩ :=
      phases_closeRecord { c.touch.closeRecord with record := some record }
    exact ⟨hphases'.trans hclosed, hopen'.trans hopen⟩

/-- Whether an event tells where a phase begins or ends. -/
def tellsPhase : Event → Bool
  | .phase _ | .phaseDone _ => true
  | _ => false

/-- What is about something else changes no phase. -/
theorem phases_take (shape : Shape) {e : Event} (he : tellsPhase e = false) :
    (c.take shape e).task.phases = c.task.phases ∧
      (c.take shape e).openPhases = c.openPhases := by
  have htouched : c.touch.task.phases = c.task.phases := c.phases_touch
  cases e with
  | typeDef id name => cases id <;> cases name <;> exact ⟨rfl, rfl⟩
  | klassDef id name => cases id <;> cases name <;> exact ⟨rfl, rfl⟩
  | methodDef id holder name returnType arguments bytes count => cases id <;> exact ⟨rfl, rfl⟩
  | parseOpen method stamp =>
    show (c.openBody method).task.phases = _ ∧ (c.openBody method).openPhases = _
    unfold openBody
    simp only
    split
    · split <;> exact ⟨htouched, rfl⟩
    · split <;> exact ⟨htouched, rfl⟩
  | inlineSuccess reason => exact ⟨htouched, rfl⟩
  | inlineFail reason => exact ⟨htouched, rfl⟩
  | intrinsic name => exact ⟨htouched, rfl⟩
  | uncommonTrap id bci reason action stamp =>
    cases id with
    | none => exact ⟨htouched, rfl⟩
    | some id => exact ⟨rfl, rfl⟩
  | eliminateAllocation klass => exact c.phases_openRecord _ shape
  | eliminateLock lock kind => exact c.phases_openRecord _ shape
  | hotThrow preallocated reason => exact ⟨htouched, rfl⟩
  | phase facts => cases he
  | phaseDone facts => cases he
  | failure reason stamp => exact ⟨htouched, rfl⟩
  | close of =>
    cases of with
    | parseOpen =>
      show c.closeBody.task.phases = _ ∧ c.closeBody.openPhases = _
      unfold closeBody
      split
      · exact ⟨Collector.phases_withFlags [_] c.task, rfl⟩
      · exact ⟨rfl, rfl⟩
    | eliminateAllocation => exact c.phases_closeRecord
    | eliminateLock => exact c.phases_closeRecord
    | _ => exact ⟨rfl, rfl⟩
  | _ => exact ⟨rfl, rfl⟩

/-- The task under way has these phases, of which the latest comes first, and knows which of them
have not ended. -/
structure HasPhases (phases : List ToldPhase) : Prop where
  /-- They are recorded. -/
  recorded : c.task.phases = records phases
  /-- Those that have not ended are known. -/
  unended_eq : c.openPhases = unended phases

variable {c} {phases : List ToldPhase}

/-- Whatever an event says, the task under way has the phases with what it tells. -/
theorem HasPhases.take (h : c.HasPhases phases) (shape : Shape) (e : Event) :
    (c.take shape e).HasPhases (hearPhase phases e) := by
  obtain ⟨hrecorded, hunended⟩ := h
  cases he : tellsPhase e with
  | false =>
    obtain ⟨hphases, hopen⟩ := c.phases_take shape he
    have hsame : hearPhase phases e = phases := by cases e <;> first | rfl | cases he
    rw [hsame]
    exact ⟨hphases.trans hrecorded, hopen.trans hunended⟩
  | true =>
    cases e with
    | phase facts =>
      have htouched := c.phases_touch.trans hrecorded
      refine ⟨?_, ?_⟩
      · show c.touch.task.phases ++ [_] = _
        rw [htouched]
        exact (records_cons ⟨facts, none⟩ phases).symm
      · show c.touch.task.phases.length :: c.openPhases = phases.length :: unended phases
        rw [htouched, length_records, hunended]
    | phaseDone facts =>
      show (c.closePhase facts).HasPhases (endLatest facts phases)
      unfold closePhase
      split
      · next hnone =>
        rw [hunended] at hnone
        rw [endLatest_of_unended_eq_nil facts hnone]
        exact ⟨hrecorded, hunended⟩
      · next position outer hopen =>
        rw [hunended] at hopen
        obtain ⟨hended, houter⟩ := endLatest_of_unended_eq_cons facts hopen
        refine ⟨?_, houter.symm⟩
        rw [hended, ← hrecorded]
        rfl
    | _ => cases he

end Compiling

/-! ### What a task was told -/

/-- The task under way has the phases that it was told. -/
def PhasesKept (told : List LogEvent) (a : Compiling) : Prop :=
  a.HasPhases (told.foldl (fun phases e => hearPhase phases e.event) [])

/-- However more is told of it, the task under way has the phases that it was told. -/
theorem PhasesKept.listener : Listener (fun _ t => t.phases = []) PhasesKept where
  begun {e} {facts} {t} flags thread he hflags htaken := by
    have hnone : t.phases = [] := by
      cases htaken with
      | waiting h => exact h
      | again => rfl
      | new => rfl
    have hstart : [e].foldl (fun phases e => hearPhase phases e.event) [] = [] := by
      simp [he, hearPhase]
    unfold PhasesKept
    rw [hstart]
    exact ⟨(Collector.phases_beginTask facts thread flags t).trans hnone, rfl⟩
  noted hf h := ⟨(hf.phases_eq _).trans h.recorded, h.unended_eq⟩
  heard {told} {a} {e} flags _ hflags h := by
    unfold PhasesKept
    rw [List.foldl_append]
    refine Compiling.HasPhases.take ?_ _ _
    exact ⟨(Collector.phases_withFlags flags a.task).trans h.recorded, h.unended_eq⟩
  framed {told} {a} {e} _ _ _ he h := by
    have hsame : (told ++ [e]).foldl (fun phases e => hearPhase phases e.event) [] =
        told.foldl (fun phases e => hearPhase phases e.event) [] := by
      rw [List.foldl_append]
      simp [he, hearPhase]
    unfold PhasesKept
    rw [hsame]
    exact ⟨h.recorded, h.unended_eq⟩

/-- What is not about the task under way tells of no phase. -/
theorem hearPhase_of_bearing (phases : List ToldPhase) (e : Event) (he : bearing e ≠ .tells) :
    hearPhase phases e = phases := by
  cases e <;> first | rfl | exact absurd rfl he

/-- Whatever a collector is given, the task that was under way is handed over with the phases that
were heard of since it began, and any other task without. -/
theorem Collector.phases_handed (retain : Bool) (inputs : List Input) (input : Input) :
    ∃ (mine : Option Task) (others : List Task),
      tasksOf ((feed retain inputs).1.give input).2 = mine.toList ++ others ∧
      (∀ t ∈ others, t.phases = []) ∧
      Option.Rel (fun heard t => t.phases = records (phasesHeard heard))
        (if input.endsTask then underway inputs else none) mine := by
  have hattends := PhasesKept.listener.attends_feed custody_hasNoPhases retain inputs
  obtain ⟨mine, others, hsplit, hothers, hmine⟩ :=
    (PhasesKept.listener.attends_give custody_hasNoPhases hattends input).2
  have halike : GatheredAlike hearPhase [] (transcript inputs).told (underway inputs) :=
    gathered_alike hearPhase_of_bearing inputs
  refine ⟨mine, others, hsplit, fun t ht => (hothers t ht).phases_eq_nil, ?_⟩
  by_cases hends : input.endsTask = true
  · rw [if_pos hends] at hmine ⊢
    refine halike.rel (P := fun phases t => t.phases = records phases) ?_ hmine
    rintro told t ⟨a, hkept, hleft⟩
    rw [hleft.phases_eq, hkept.recorded]
  · rw [if_neg hends] at hmine ⊢
    cases hmine
    exact .none

end Collect

end CompileLog
