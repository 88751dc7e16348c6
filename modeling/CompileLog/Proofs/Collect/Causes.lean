import CompileLog.Collect.Collector
import Mathlib.Data.List.TakeWhile

/-!
# Why tasks are handed over

A log mentions a task where it begins, where it is queued and where its code is installed. These
mentions alone decide which tasks are handed over under a number: one for each start, one where
something was said and no start followed, and one for a bridge to native code of which nothing else
was said before. The causes of a number are computed from its mentions, here without a collector.
-/

namespace CompileLog.Collect

/-- What may open a task. -/
inductive Mention where
  /-- It begins. -/
  | begun (facts : TaskFacts)
  /-- It is queued. -/
  | queued (facts : TaskFacts)
  /-- Its code is installed. -/
  | installed (facts : NativeFacts)

/-- What an event says of the task with a number, as far as it may open one. A task may begin
without a number. -/
def mention? (id : UInt64) : Event → Option Mention
  | .taskStart facts =>
    if facts.compileId.getD Collector.noId = id then some (.begun facts) else none
  | .taskQueued facts => if facts.compileId = some id then some (.queued facts) else none
  | .nmethod facts => if facts.compileId = some id then some (.installed facts) else none
  | _ => none

/-- What a log says of the task with a number, as far as it may open one. -/
def mentionsOf (id : UInt64) (events : List LogEvent) : List Mention :=
  events.filterMap fun e => mention? id e.event

namespace Mention

/-- The facts of a start. -/
def start? : Mention → Option TaskFacts
  | begun facts => some facts
  | _ => none

/-- The stamp of a queueing. -/
def queueStamp? : Mention → Option Stamp
  | queued facts => facts.stamp
  | _ => none

/-- Whether code is installed. -/
def installs : Mention → Bool
  | installed _ => true
  | _ => false

/-- The facts of a bridge to native code. -/
def bridge? : Mention → Option NativeFacts
  | installed facts =>
    if CompileKind.ofLog facts.compileKind none = .nativeWrapper then some facts else none
  | _ => none

end Mention

/-- The reason for one task that is handed over. -/
inductive Cause where
  /-- It began, after some mentions that it takes over. -/
  | started (facts : TaskFacts) (earlier : List Mention)
  /-- It was mentioned and never began. -/
  | mentioned (mentions : List Mention)
  /-- It is a bridge to native code. -/
  | bridged (facts : NativeFacts)

/-- The reasons for the tasks of one number, from all its mentions. Each start is one. What was
mentioned before the first start goes to that start, or stands alone if there is none; only a bridge
that comes first is a task of its own. -/
def causes (mentions : List Mention) : List Cause :=
  match mentions with
  | [] => []
  | first :: _ =>
    match first.bridge?, mentions.filterMap Mention.start? with
    | some bridge, starts => .bridged bridge :: starts.map fun facts => .started facts []
    | none, [] => [.mentioned mentions]
    | none, facts :: later =>
      .started facts (mentions.takeWhile fun m => m.start?.isNone) ::
        later.map fun facts => .started facts []

/-- Whether the task of a cause needs no further event to be told. -/
def Cause.isSettled : Cause → Bool
  | .mentioned _ => false
  | _ => true

/-- The causes with one mention more. -/
def addMention (cs : List Cause) (m : Mention) : List Cause :=
  match m.start?, cs with
  | some facts, [.mentioned earlier] => [.started facts earlier]
  | some facts, cs => cs ++ [.started facts []]
  | none, [] => [(m.bridge?.map Cause.bridged).getD (.mentioned [m])]
  | none, [.mentioned earlier] => [.mentioned (earlier ++ [m])]
  | none, cs => cs

namespace Mention

/-- The start of a task is no bridge. -/
theorem bridge?_eq_none_of_start? {m : Mention} {facts : TaskFacts}
    (h : m.start? = some facts) : m.bridge? = none := by
  cases m with
  | begun facts => rfl
  | _ => cases h

/-- Where a start is among the mentions, what comes before the first start is known. -/
theorem takeWhile_concat {ms : List Mention} {facts : TaskFacts} {later : List TaskFacts}
    (h : ms.filterMap start? = facts :: later) (m : Mention) :
    (ms ++ [m]).takeWhile (fun m => m.start?.isNone) =
      ms.takeWhile fun m => m.start?.isNone := by
  have hmem : facts ∈ ms.filterMap start? := h ▸ List.mem_cons_self
  obtain ⟨start, hstart, hfacts⟩ := List.mem_filterMap.mp hmem
  rw [List.takeWhile_append, if_neg]
  intro hlength
  have hall := (List.takeWhile_prefix (fun m : Mention => m.start?.isNone)).eq_of_length hlength
  have hnone := List.takeWhile_eq_self_iff.mp hall start hstart
  rw [hfacts] at hnone
  cases hnone

end Mention

/-- A mention adds to the causes of those before it. -/
theorem causes_concat (ms : List Mention) (m : Mention) :
    causes (ms ++ [m]) = addMention (causes ms) m := by
  cases ms with
  | nil =>
    cases hstart : m.start? with
    | none => cases hbridge : m.bridge? <;> simp [causes, addMention, hstart, hbridge]
    | some facts =>
      have hbridge := Mention.bridge?_eq_none_of_start? hstart
      simp [causes, addMention, hstart, hbridge]
  | cons first rest =>
    simp only [List.cons_append, causes]
    rw [← List.cons_append, List.filterMap_append]
    cases hbridge : first.bridge? with
    | some bridge =>
      cases hstart : m.start? with
      | none =>
        cases hstarts : (first :: rest).filterMap Mention.start? <;> simp [addMention, hstart]
      | some facts => simp [addMention, hstart]
    | none =>
      cases hstarts : (first :: rest).filterMap Mention.start? with
      | nil =>
        cases hstart : m.start? with
        | none => simp [addMention, hstart]
        | some facts =>
          have hnone : ∀ m' ∈ first :: rest, m'.start?.isNone = true := fun m' hm' =>
            Option.isNone_iff_eq_none.mpr (List.filterMap_eq_nil_iff.mp hstarts m' hm')
          rw [List.takeWhile_append_of_pos hnone]
          simp [addMention, hstart]
      | cons facts later =>
        rw [Mention.takeWhile_concat hstarts]
        cases hstart : m.start? with
        | none => cases later <;> simp [addMention, hstart]
        | some facts' => simp [addMention, hstart]

/-- Later mentions add to the causes one after another. -/
theorem causes_append (ms later : List Mention) :
    causes (ms ++ later) = later.foldl addMention (causes ms) := by
  induction later generalizing ms with
  | nil => rw [List.append_nil, List.foldl_nil]
  | cons m later ih =>
    have hfirst : ms ++ m :: later = (ms ++ [m]) ++ later := by simp
    rw [hfirst, ih, causes_concat, List.foldl_cons]

/-! ### Adding to settled causes -/

section

variable {cs : List Cause} (hsettled : ∀ cause ∈ cs, cause.isSettled = true)
include hsettled

/-- Among settled causes, a start is a cause of its own. -/
theorem addMention_of_start? {m : Mention} {facts : TaskFacts} (h : m.start? = some facts) :
    addMention cs m = cs ++ [.started facts []] := by
  match cs with
  | [] => simp [addMention, h]
  | [.mentioned earlier] => exact absurd (hsettled _ List.mem_cons_self) Bool.false_ne_true
  | [.started _ _] | [.bridged _] | _ :: _ :: _ => simp [addMention, h]

/-- Behind a settled cause, what begins no task changes nothing. -/
theorem addMention_of_start?_eq_none {m : Mention} (h : m.start? = none) (hne : cs ≠ []) :
    addMention cs m = cs := by
  match cs with
  | [] => exact absurd rfl hne
  | [.mentioned earlier] => exact absurd (hsettled _ List.mem_cons_self) Bool.false_ne_true
  | [.started _ _] | [.bridged _] | _ :: _ :: _ => simp [addMention, h]

end

end CompileLog.Collect
