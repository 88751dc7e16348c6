import CompileLog.Proofs.Collect.Causes
import CompileLog.Proofs.Collect.Holding
import Mathlib.Data.List.Forall2

/-!
# How the tasks of a number stand

A number is idle, or a task waits under it, or its last start is under way. What was mentioned under
the number so far has then caused the tasks handed over so far, apart from the one that is still
open, and that one carries what the mentions told. A new mention, and the handover of the task under
way, move a number between these three.
-/

namespace CompileLog.Collect

/-! ### What a task carries -/

/-- The stamp of the first queueing that tells one. -/
def queueStamp? (ms : List Mention) : Option Stamp := ms.findSome? Mention.queueStamp?

/-- A task that was mentioned and did not begin, with what the mentions told. -/
structure Foreshadowed (id : UInt64) (mentions : List Mention) (t : Task) : Prop where
  /-- It has the number. -/
  compileId_eq : t.compileId = id
  /-- It did not begin. -/
  startedAt_eq : t.startedAt = none
  /-- It was queued when the mentions say. -/
  queuedAt_eq : t.queuedAt = queueStamp? mentions
  /-- Its code is known where it was installed. -/
  native_isSome : mentions.any Mention.installs = true → t.native.isSome = true
  /-- It is flagged as met before its start. -/
  implicit : .implicitlyOpened ∈ t.flags

/-- A task that began, with what was told at its start and before. -/
structure Begun (id : UInt64) (facts : TaskFacts) (earlier : List Mention) (t : Task) : Prop where
  /-- It has the number. -/
  compileId_eq : t.compileId = id
  /-- It began when its start says. -/
  startedAt_eq : t.startedAt = facts.stamp
  /-- It was queued when the earlier mentions say. -/
  queuedAt_eq : ∀ stamp, queueStamp? earlier = some stamp → t.queuedAt = some stamp
  /-- Its code is known where it was installed before. -/
  native_isSome : earlier.any Mention.installs = true → t.native.isSome = true
  /-- It is no longer flagged as met before its start. -/
  explicit : .implicitlyOpened ∉ t.flags

/-- Whether a task that is handed over is the one that a cause gives. -/
def Cause.Yields (id : UInt64) : Cause → Task → Prop
  | .started facts earlier, t =>
    Begun id facts earlier t ∧ (t.state = .closed ∨ t.state = .abandoned)
  | .mentioned mentions, t => Foreshadowed id mentions t ∧ t.state = .abandoned
  | .bridged facts, t =>
    t.compileId = id ∧ t.state = .closed ∧ t.kind = .nativeWrapper ∧
      t.native = some (Collector.nativeOf facts)

/-- A queueing is told first by the earlier mentions, then by the last. -/
theorem queueStamp?_concat (ms : List Mention) (m : Mention) :
    queueStamp? (ms ++ [m]) = (queueStamp? ms).or m.queueStamp? := by
  unfold queueStamp?
  rw [List.findSome?_append]
  cases hm : m.queueStamp? <;> simp [hm]

variable {id : UInt64} {facts : TaskFacts} {ms : List Mention} {t t' : Task}

/-- A task of which more was told carries what it carried. -/
theorem Foreshadowed.becomes (h : Foreshadowed id ms t) (ht : t.Becomes t') :
    Foreshadowed id ms t' :=
  ⟨ht.compileId_eq.trans h.compileId_eq, ht.startedAt_eq.trans h.startedAt_eq,
    ht.queuedAt_eq.trans h.queuedAt_eq,
    fun hinstalled => ht.native_isSome (h.native_isSome hinstalled),
    ht.implicit_iff.mpr h.implicit⟩

/-- A task of which more was told carries what it carried. -/
theorem Begun.becomes (h : Begun id facts ms t) (ht : t.Becomes t') : Begun id facts ms t' :=
  ⟨ht.compileId_eq.trans h.compileId_eq, ht.startedAt_eq.trans h.startedAt_eq,
    fun stamp hstamp => ht.queuedAt_eq.trans (h.queuedAt_eq stamp hstamp),
    fun hinstalled => ht.native_isSome (h.native_isSome hinstalled),
    fun himplicit => h.explicit (ht.implicit_iff.mp himplicit)⟩

/-- A task that is about to begin, with what was told of it before. -/
structure Ready (id : UInt64) (earlier : List Mention) (t : Task) : Prop where
  /-- It has the number. -/
  compileId_eq : t.compileId = id
  /-- It did not begin. -/
  startedAt_eq : t.startedAt = none
  /-- It was queued when the earlier mentions say. -/
  queuedAt_eq : t.queuedAt = queueStamp? earlier
  /-- Its code is known where it was installed before. -/
  native_isSome : earlier.any Mention.installs = true → t.native.isSome = true
  /-- It is not flagged as met before its start. -/
  explicit : .implicitlyOpened ∉ t.flags

/-- A task that begins has what was told at its start, and what was told of it before. -/
theorem Ready.begun {earlier : List Mention} (h : Ready id earlier t) (facts : TaskFacts)
    (thread : Option String) {flags : List TaskFlag} (hflags : .implicitlyOpened ∉ flags) :
    Begun id facts earlier (Collector.beginTask facts thread flags t) := by
  unfold Collector.beginTask
  simp only
  refine Begun.becomes ?_ (.withFlags hflags _)
  refine Begun.becomes ?_ (t := Collector.flagUnresolved _) ⟨rfl, rfl, rfl, .rfl, fun hn => hn⟩
  refine Begun.becomes ?_ (.flagUnresolved _)
  refine ⟨h.compileId_eq, ?_, fun stamp hstamp => h.queuedAt_eq.trans hstamp, h.native_isSome,
    h.explicit⟩
  show facts.stamp.or t.startedAt = facts.stamp
  rw [h.startedAt_eq, Option.or_none]

/-- A task that was just met carries nothing yet. -/
theorem foreshadowed_implicitTask (id : UInt64) (method : Option Method) :
    Foreshadowed id [] (Collector.implicitTask id method) :=
  ⟨rfl, rfl, rfl, fun h => by simp at h, by simp [Collector.implicitTask]⟩

/-! ### Idle, waiting, under way -/

/-- How the tasks of a number stand after some causes and the tasks handed over for them. -/
inductive Standing (id : UInt64) : Holding → List Cause → List Task → Prop where
  /-- Every cause has given its task. -/
  | idle {cs : List Cause} {ts : List Task} (hsettled : ∀ cause ∈ cs, cause.isSettled = true)
      (hyields : List.Forall₂ (Cause.Yields id) cs ts) : Standing id ⟨none, none, !cs.isEmpty⟩ cs ts
  /-- A task was mentioned and waits for its start. -/
  | waiting {mentions : List Mention} {t : Task} (ht : Foreshadowed id mentions t) :
      Standing id ⟨none, some t, false⟩ [.mentioned mentions] []
  /-- The last start is under way. -/
  | underway {past : List Cause} {ts : List Task} {facts : TaskFacts} {earlier : List Mention}
      {t : Task} (hsettled : ∀ cause ∈ past, cause.isSettled = true)
      (hyields : List.Forall₂ (Cause.Yields id) past ts) (ht : Begun id facts earlier t) :
      Standing id ⟨some t, none, !past.isEmpty⟩ (past ++ [.started facts earlier]) ts

/-- Telling more does not change how the tasks stand. -/
theorem Standing.revise {h h' : Holding} {cs : List Cause} {ts : List Task}
    (hstanding : Standing id h cs ts) (hrevises : h.Revises h') : Standing id h' cs ts := by
  obtain ⟨active', waiting', handedOver'⟩ := h'
  obtain ⟨hactive, hwaiting, hhanded⟩ := hrevises
  cases hstanding with
  | idle hsettled hyields =>
    cases hactive
    cases hwaiting
    cases hhanded
    exact .idle hsettled hyields
  | waiting ht =>
    cases hactive
    cases hhanded
    cases hwaiting with
    | some hbecomes => exact .waiting (ht.becomes hbecomes)
  | underway hsettled hyields ht =>
    cases hwaiting
    cases hhanded
    cases hactive with
    | some hbecomes => exact .underway hsettled hyields (ht.becomes hbecomes)

/-- A start is settled as all before it are. -/
theorem settled_concat {past : List Cause} (h : ∀ cause ∈ past, cause.isSettled = true)
    (facts : TaskFacts) (earlier : List Mention) :
    ∀ cause ∈ past ++ [.started facts earlier], cause.isSettled = true := by
  intro cause hcause
  rcases List.mem_append.mp hcause with hpast | hlast
  · exact h cause hpast
  · rw [List.mem_singleton.mp hlast]
    rfl

/-- A mention that begins no task is taken in by the task that is not handed over. -/
theorem Standing.tell {h : Holding} {cs : List Cause} {ts : List Task} {m : Mention} {new : Task}
    {f : Task → Task} (hstanding : Standing id h cs ts) (hopen : h.handedOver = false)
    (hstart : m.start? = none)
    (hbridge : m.bridge? = none ∨ h.active.isSome = true ∨ h.waiting.isSome = true)
    (hnew : Foreshadowed id [] new)
    (hwaiting : ∀ mentions t, Foreshadowed id mentions t → Foreshadowed id (mentions ++ [m]) (f t))
    (hbegun : ∀ facts earlier t, Begun id facts earlier t → Begun id facts earlier (f t)) :
    Standing id (h.tell new f) (addMention cs m) ts := by
  cases hstanding with
  | @idle cs ts hsettled hyields =>
    -- Nothing was handed over, so this is the first mention of the number.
    obtain rfl : cs = [] := by simpa using hopen
    cases hyields
    have hbridge : m.bridge? = none := by simpa using hbridge
    have hadd : addMention [] m = [.mentioned [m]] := by simp [addMention, hstart, hbridge]
    rw [hadd]
    exact .waiting (hwaiting [] new hnew)
  | @waiting mentions t ht =>
    have hadd : addMention [.mentioned mentions] m = [.mentioned (mentions ++ [m])] := by
      simp [addMention, hstart]
    rw [hadd]
    exact .waiting (hwaiting mentions t ht)
  | @underway past ts facts earlier t hsettled hyields ht =>
    rw [addMention_of_start?_eq_none (settled_concat hsettled _ _) hstart (by simp)]
    exact .underway hsettled hyields (hbegun facts earlier t ht)

/-- Once a task of a number was handed over, a mention that begins no task changes nothing. -/
theorem Standing.addMention_of_handedOver {h : Holding} {cs : List Cause} {ts : List Task}
    {m : Mention} (hstanding : Standing id h cs ts) (hhanded : h.handedOver = true)
    (hstart : m.start? = none) : addMention cs m = cs := by
  cases hstanding with
  | @idle cs ts hsettled hyields =>
    exact addMention_of_start?_eq_none hsettled hstart (by simpa using hhanded)
  | @waiting mentions t ht => cases hhanded
  | @underway past ts facts earlier t hsettled hyields ht =>
    exact addMention_of_start?_eq_none (settled_concat hsettled _ _) hstart (by simp)

/-- A task under way that is handed over is the one that the last start causes. -/
theorem Standing.handOver {h : Holding} {cs : List Cause} {ts : List Task}
    (hstanding : Standing id h cs ts) (hactive : h.active = some t) (ht : t.Becomes t')
    (hstate : t'.state = .closed ∨ t'.state = .abandoned) :
    h.waiting = none ∧
      Standing id ⟨none, none, true⟩ cs (ts ++ [Collector.flagMisplaced t']) := by
  cases hstanding with
  | idle hsettled hyields => cases hactive
  | waiting ht => cases hactive
  | @underway past ts facts earlier t₀ hsettled hyields hbegun =>
    obtain rfl : t₀ = t := Option.some.inj hactive
    have hyield : Cause.Yields id (.started facts earlier) (Collector.flagMisplaced t') := by
      refine ⟨hbegun.becomes (ht.trans (.flagMisplaced t')), ?_⟩
      rw [Collector.state_flagMisplaced]
      exact hstate
    have hidle := Standing.idle (settled_concat hsettled facts earlier)
      (List.rel_append hyields (.cons hyield .nil))
    have hsome : (past ++ [Cause.started facts earlier]).isEmpty = false := by simp
    rw [hsome] at hidle
    exact ⟨rfl, hidle⟩

end CompileLog.Collect
