import CompileLog.Proofs.Collect.Links
import CompileLog.Proofs.Collect.Transcript

/-!
# One call site for each decision

A log tells of each call that it was inlined, was not, or was replaced by an intrinsic. Each of
these decisions adds a call site to the task under way, and nothing else does, however the method
bodies around it open and close. So a task is handed over with the decisions that it was told, in
their order, and with the links of a forest.
-/

namespace CompileLog

namespace InlineTree

/-- What was decided at the call sites, in their order. -/
def decisions (t : InlineTree) : List Decision := t.nodes.toList.map fun n => n.site.decision

/-- There are as many decisions as call sites. -/
@[simp] theorem length_decisions (t : InlineTree) : t.decisions.length = t.nodes.size := by
  simp [decisions]

/-- What was decided at a position. -/
theorem getElem?_decisions (t : InlineTree) (i : Nat) :
    t.decisions[i]? = (t.node? i).map fun n => n.site.decision := by
  simp [decisions, node?]

/-- The decisions depend on the call sites alone. -/
theorem decisions_congr {t t' : InlineTree} (h : t'.nodes = t.nodes) :
    t'.decisions = t.decisions := by
  unfold decisions
  rw [h]

/-- Wherever a call site is added, what was decided there comes last. -/
theorem decisions_add (t : InlineTree) (parent : Option Nat) (site : CallSite) :
    (t.add parent site).1.decisions = t.decisions ++ [site.decision] := by
  refine List.ext_getElem? fun i => ?_
  rw [getElem?_decisions, node?_add, List.getElem?_append, length_decisions, getElem?_decisions]
  by_cases hnew : i = t.nodes.size
  · rw [if_pos hnew, if_neg (by omega), hnew, Nat.sub_self]
    rfl
  · rw [if_neg hnew, Option.map_map]
    by_cases hi : i < t.nodes.size
    · rw [if_pos hi]
      congr 1
      funext n
      simp only [Function.comp_apply]
      split <;> rfl
    · have hnone : t.node? i = none := Array.getElem?_eq_none_iff.mpr (Nat.le_of_not_lt hi)
      rw [if_neg hi, hnone, List.getElem?_eq_none (by simp; omega)]
      rfl

end InlineTree

/-- Noting a flag leaves the call sites. -/
theorem Task.nodes_flag (t : Task) (f : TaskFlag) : (t.flag f).tree.nodes = t.tree.nodes := by
  obtain ⟨flags, heq, -⟩ := t.flag_eq f
  rw [heq]

namespace Collect

/-! ### What a log tells of decisions -/

/-- The decision that an event tells. -/
def decision? : Event → Option Decision
  | .inlineSuccess _ => some .inlined
  | .inlineFail _ => some .notInlined
  | .intrinsic _ => some .intrinsic
  | _ => none

/-- The decisions that a task was told. -/
def decisions (told : List LogEvent) : List Decision := told.filterMap fun e => decision? e.event

/-- One more event may tell one more decision. -/
theorem decisions_append (told : List LogEvent) (e : LogEvent) :
    decisions (told ++ [e]) = decisions told ++ (decision? e.event).toList := by
  unfold decisions
  rw [List.filterMap_append, List.filterMap_cons, List.filterMap_nil]
  cases decision? e.event <;> rfl

/-- Whether an event is about method bodies and the calls in them. -/
def isOfBodies : Event → Bool
  | .parseOpen .. | .close .parseOpen | .bytecode .. | .call .. => true
  | .inlineSuccess _ | .inlineFail _ | .intrinsic _ => true
  | _ => false

/-- What is not about method bodies tells no decision. -/
theorem decision?_eq_none {e : Event} (he : isOfBodies e = false) : decision? e = none := by
  cases e <;> first | rfl | cases he

/-! ### The task under way -/

namespace Compiling

/-- What becomes of the method bodies of the task under way where an event comes. -/
inductive Parses (c : Compiling) : Event → Compiling → Prop where
  /-- A call is decided. -/
  | decides {e : Event} {decision : Decision} (he : decision? e = some decision)
      (reason : Option String) : Parses c e (c.decide decision reason)
  /-- A method body opens. -/
  | opens (method : Option UInt64) (stamp : Option Stamp) :
      Parses c (.parseOpen method stamp) (c.openBody method)
  /-- The innermost one closes. -/
  | closes : Parses c (.close .parseOpen) c.closeBody
  /-- Another bytecode is reached in it. -/
  | reaches (opcode bci : Option UInt32) : Parses c (.bytecode opcode bci) (c.reach bci)
  /-- A call is reached. -/
  | calls (method count : Option UInt64) (inlineFlag : Option Bool) :
      Parses c (.call method count inlineFlag) { c with call := some ⟨method, count⟩ }
  /-- Whatever is said is about something else. -/
  | passes {e : Event} {c' : Compiling} (he : isOfBodies e = false)
      (hnodes : c'.task.tree.nodes = c.task.tree.nodes) (hbodies : c'.bodies = c.bodies)
      (hcall : c'.call = c.call) : Parses c e c'

/-- Noting that something was said leaves the call sites. -/
theorem nodes_touch (c : Compiling) : c.touch.task.tree.nodes = c.task.tree.nodes :=
  c.annotated_touch.nodes_eq

/-- The end of a removed operation leaves what is known of the method bodies. -/
theorem parse_closeRecord (c : Compiling) :
    c.closeRecord.bodies = c.bodies ∧ c.closeRecord.call = c.call := by
  unfold closeRecord
  split <;> exact ⟨rfl, rfl⟩

/-- So does its begin. -/
theorem parse_openRecord (c : Compiling) (record : OpenRecord) (shape : Shape) :
    (c.openRecord record shape).bodies = c.bodies ∧
      (c.openRecord record shape).call = c.call := by
  obtain ⟨hbodies, hcall⟩ := c.touch.parse_closeRecord
  unfold openRecord
  simp only
  split
  · exact ⟨hbodies, hcall⟩
  · obtain ⟨hbodies', hcall'⟩ :=
      parse_closeRecord { c.touch.closeRecord with record := some record }
    exact ⟨hbodies'.trans hbodies, hcall'.trans hcall⟩

/-- What an event does to the method bodies is one of these. -/
theorem parses_take (c : Compiling) (shape : Shape) (e : Event) :
    Parses c e (c.take shape e) := by
  have hsame : isOfBodies e = false → Parses c e c := fun he => .passes he rfl rfl rfl
  have htouched : ∀ {t : Task}, isOfBodies e = false →
      t.tree.nodes = c.touch.task.tree.nodes → Parses c e { c.touch with task := t } :=
    fun he ht => .passes he (ht.trans c.nodes_touch) rfl rfl
  have hrecord : ∀ record, isOfBodies e = false → Parses c e (c.openRecord record shape) :=
    fun record he => .passes he (c.annotated_openRecord record shape).nodes_eq
      (c.parse_openRecord record shape).1 (c.parse_openRecord record shape).2
  have hclosed : isOfBodies e = false → Parses c e c.closeRecord := fun he =>
    .passes he c.annotated_closeRecord.nodes_eq c.parse_closeRecord.1 c.parse_closeRecord.2
  cases e with
  | parseOpen method stamp => exact .opens method stamp
  | bytecode opcode bci => exact .reaches opcode bci
  | call method count inlineFlag => exact .calls method count inlineFlag
  | inlineSuccess reason => exact .decides rfl reason
  | inlineFail reason => exact .decides rfl reason
  | intrinsic name => exact .decides rfl name
  | close of =>
    cases of with
    | parseOpen => exact .closes
    | eliminateAllocation => exact hclosed rfl
    | eliminateLock => exact hclosed rfl
    | _ => exact hsame rfl
  | typeDef id name => cases id <;> cases name <;> exact .passes rfl rfl rfl rfl
  | klassDef id name => cases id <;> cases name <;> exact .passes rfl rfl rfl rfl
  | methodDef id holder name returnType arguments bytes count =>
    cases id <;> exact .passes rfl rfl rfl rfl
  | uncommonTrap id bci reason action stamp =>
    cases id with
    | none => exact htouched rfl rfl
    | some id => exact hsame rfl
  | eliminateAllocation klass => exact hrecord _ rfl
  | eliminateLock lock kind => exact hrecord _ rfl
  | hotThrow preallocated reason => exact htouched rfl rfl
  | phase facts => exact .passes rfl c.nodes_touch rfl rfl
  | phaseDone facts =>
    unfold take closePhase
    simp only
    split
    · exact hsame rfl
    · exact .passes rfl rfl rfl rfl
  | failure reason stamp => exact htouched rfl rfl
  | _ => exact .passes rfl rfl rfl rfl

/-- Where a method body begins no call site is added. -/
theorem nodes_openBody (c : Compiling) (method : Option UInt64) :
    (c.openBody method).task.tree.nodes = c.task.tree.nodes := by
  rw [← c.nodes_touch]
  unfold openBody
  simp only
  split
  · split <;> rfl
  · split <;> rfl

/-- Where one ends none is added either. -/
theorem nodes_closeBody (c : Compiling) : c.closeBody.task.tree.nodes = c.task.tree.nodes := by
  unfold closeBody
  split
  · exact c.task.nodes_flag .unbalancedScopes
  · rfl

/-- A decision adds a call site. -/
theorem decisions_decide (c : Compiling) (decision : Decision) (reason : Option String) :
    (c.decide decision reason).task.tree.decisions = c.task.tree.decisions ++ [decision] := by
  rw [← InlineTree.decisions_congr c.nodes_touch]
  exact InlineTree.decisions_add _ _ _

/-- Whatever an event says, it adds the decision that it tells. -/
theorem decisions_take (c : Compiling) (shape : Shape) (e : Event) :
    (c.take shape e).task.tree.decisions =
      c.task.tree.decisions ++ (decision? e).toList := by
  have hkept : ∀ {c' : Compiling}, c'.task.tree.nodes = c.task.tree.nodes →
      c'.task.tree.decisions = c.task.tree.decisions ++ [] := fun h =>
    (InlineTree.decisions_congr h).trans (List.append_nil _).symm
  have hparses := c.parses_take shape e
  generalize c.take shape e = c' at hparses
  cases hparses with
  | decides he reason =>
    rw [he]
    exact c.decisions_decide _ reason
  | opens method stamp => exact hkept (c.nodes_openBody method)
  | closes => exact hkept c.nodes_closeBody
  | reaches opcode bci => exact hkept rfl
  | calls method count inlineFlag => exact hkept rfl
  | passes he hnodes hbodies hcall =>
    rw [decision?_eq_none he]
    exact hkept hnodes

end Compiling

/-! ### All that a collector is given -/

/-- The task under way has the decisions that it was told. -/
def DecisionsKept (told : List LogEvent) (a : Compiling) : Prop :=
  a.task.tree.decisions = decisions told

/-- Each way of telling the task under way more keeps its decisions. -/
theorem DecisionsKept.listener : Listener Unparsed DecisionsKept where
  begun {e} {facts} {t} _ thread he hflags htaken := by
    have hbegun := (Unparsed.of_taken htaken).annotated (.beginTask facts thread hflags t)
    have hnone : decisions [e] = [] := by simp [decisions, he, decision?]
    unfold DecisionsKept
    rw [hnone]
    exact InlineTree.decisions_congr (t := .empty .unresolved none) hbegun.nodes_eq
  noted hf h := (InlineTree.decisions_congr (Task.Annotated.told hf _).nodes_eq).trans h
  heard {told} {a} _ _ _ hflags h := by
    have hnoted := InlineTree.decisions_congr (Task.Annotated.withFlags hflags a.task).nodes_eq
    unfold DecisionsKept at h ⊢
    rw [Compiling.decisions_take, decisions_append, ← h]
    exact congrArg (· ++ _) hnoted
  framed he h := by
    unfold DecisionsKept at h ⊢
    rw [decisions_append, he, ← h]
    exact (List.append_nil _).symm

/-- Noting the call sites that lie outside their callers leaves the call sites. -/
theorem Collector.nodes_flagMisplaced (t : Task) :
    (flagMisplaced t).tree.nodes = t.tree.nodes := by
  rw [flagMisplaced_eq_withFlags]
  obtain ⟨flags, heq, -⟩ := withFlags_eq (misplacedFlags t) t
  rw [heq]

/-- However a task is handed over, its call sites are those that it had under way. -/
theorem LeavesAs.nodes_eq {a : Compiling} {t : Task} (ht : LeavesAs a t) :
    t.tree.nodes = a.task.tree.nodes := by
  cases ht with
  | finished success nativeSize inlinedBytes stamp hflags =>
    rw [Collector.nodes_flagMisplaced, ← (Task.Annotated.withFlags hflags a.task).nodes_eq]
    unfold Compiling.finished
    simp only
    split
    · rfl
    · exact Task.nodes_flag _ .unbalancedScopes
  | cut =>
    rw [Collector.nodes_flagMisplaced]
    exact (Task.Annotated.cutShort a.task).nodes_eq

/-- A task that never began has no call sites. -/
theorem Unbegun.nodes_eq {t : Task} (ht : Unbegun Unparsed t) : t.tree.nodes = #[] := by
  cases ht with
  | forgotten h =>
    rw [Collector.nodes_flagMisplaced, (Task.Annotated.cutShort _).nodes_eq, h.nodes_eq]
  | bridged id facts hflags =>
    rw [Collector.nodes_flagMisplaced]
    unfold Collector.wrapperTask
    rw [(Task.Annotated.withFlags hflags _).nodes_eq, (Task.Annotated.flagUnresolved _).nodes_eq]
    rfl

namespace Custody

open Collector

variable {W : UInt64 → Task → Prop} {A : Compiling → Prop} {H : Task → Prop}

/-- What holds of tasks that are handed over holds of all that are, whatever a new collector was
given before. -/
theorem of_give (h : Custody W A H) (retain : Bool) (inputs : List Input) (input : Input) :
    ∀ t ∈ tasksOf ((feed retain inputs).1.give input).2, H t := by
  have hstart : (start retain).Holds W A := by
    refine ⟨fun id t hfound => ?_, fun a ha => ?_⟩
    · simp [start] at hfound
    · cases ha
  have hfed := (Keeps.each h.keeps_give (start retain) inputs hstart).1
  exact (h.keeps_give _ input hfed).2

end Custody

namespace Collector

/-- One call site for each decision. Whatever a collector is given, the links of every task that it
hands over are those of a forest. The task that was under way has the decisions that it was told, in
their order, one call site for each; a task that never began has none. -/
theorem call_site_for_each_decision (retain : Bool) (inputs : List Input) (input : Input) :
    ∃ (mine : Option Task) (others : List Task),
      tasksOf ((feed retain inputs).1.give input).2 = mine.toList ++ others ∧
      (∀ t ∈ mine.toList ++ others, t.tree.Linked) ∧
      (∀ t ∈ others, t.tree.nodes.size = 0) ∧
      Option.Rel (fun told t => t.tree.nodes.size = (decisions told).length ∧
          t.tree.decisions = decisions told)
        (if input.endsTask then (transcript inputs).told else none) mine := by
  have hattends := DecisionsKept.listener.attends_feed Unparsed.custody retain inputs
  obtain ⟨mine, others, hsplit, hothers, hmine⟩ :=
    (DecisionsKept.listener.attends_give Unparsed.custody hattends input).2
  have hlinked := custody_linked.of_give retain inputs input
  refine ⟨mine, others, hsplit, fun t ht => (hlinked t (hsplit ▸ ht)).tree, fun t ht => ?_, ?_⟩
  · rw [(hothers t ht).nodes_eq]
    rfl
  · generalize (if input.endsTask then (transcript inputs).told else none) = told at hmine ⊢
    cases hmine with
    | none => exact .none
    | some hleaves =>
      obtain ⟨a, hkept, hleft⟩ := hleaves
      have hdecisions := (InlineTree.decisions_congr hleft.nodes_eq).trans hkept
      exact .some ⟨by rw [← hdecisions, InlineTree.length_decisions], hdecisions⟩

end Collector

end Collect

end CompileLog
