import CompileLog.Collect.Collector
import CompileLog.Proofs.Collect.Bodies

/-!
# Hearing a method body

While the log tells a method body, only the inlining tree grows and the open bodies change. Each
decision adds one node, the body of an inlined callee finds the decision that was just made, and
when it closes the caller's body is reached again as it was left. So a whole body adds its layout
to the tree, whatever was there before.
-/

namespace CompileLog

open Collect

/-! ### Flags -/

/-- Noting a flag changes the flags only, and adds at most that flag. -/
theorem Task.flag_eq (t : Task) (f : TaskFlag) :
    ∃ flags, t.flag f = { t with flags := flags } ∧ ∀ g ∈ flags, g ∈ t.flags ∨ g = f := by
  unfold flag
  split
  · exact ⟨t.flags, rfl, fun g hg => .inl hg⟩
  · refine ⟨t.flags ++ [f], rfl, fun g hg => ?_⟩
    exact (List.mem_append.mp hg).imp_right List.mem_singleton.mp

/-- Noting flags changes the flags only, and adds at most those flags. -/
theorem Collect.Collector.withFlags_eq (fs : List TaskFlag) (t : Task) :
    ∃ flags, withFlags fs t = { t with flags := flags } ∧ ∀ g ∈ flags, g ∈ t.flags ∨ g ∈ fs := by
  induction fs generalizing t with
  | nil => exact ⟨t.flags, rfl, fun g hg => .inl hg⟩
  | cons f rest ih =>
    obtain ⟨flags, heq, hfrom⟩ := t.flag_eq f
    obtain ⟨flags', heq', hfrom'⟩ := ih (t.flag f)
    refine ⟨flags', ?_, fun g hg => ?_⟩
    · show withFlags rest (t.flag f) = _
      rw [heq', heq]
    · rw [heq] at hfrom'
      rcases hfrom' g hg with hg | hg
      · refine (hfrom g hg).imp_right fun h => ?_
        rw [h]
        exact List.mem_cons_self
      · exact .inr (List.mem_cons_of_mem f hg)

/-- Noting flags forgets none. -/
theorem Collect.Collector.subset_withFlags (fs : List TaskFlag) (t : Task) :
    t.flags ⊆ (withFlags fs t).flags := by
  induction fs generalizing t with
  | nil => exact List.Subset.refl _
  | cons f rest ih =>
    refine List.Subset.trans ?_ (ih (t.flag f))
    unfold Task.flag
    split
    · exact List.Subset.refl _
    · exact List.subset_append_left _ _

/-- The flags of the call sites that lie outside their callers. -/
def Collect.Collector.misplacedFlags (t : Task) : List TaskFlag :=
  t.tree.validate.map fun m => .structurallyInconsistent m.node m.bci m.callerSize

/-- Handing over a task notes the call sites that lie outside their callers. -/
theorem Collect.Collector.flagMisplaced_eq_withFlags (t : Task) :
    flagMisplaced t = withFlags (misplacedFlags t) t := by
  unfold flagMisplaced withFlags misplacedFlags
  rw [List.foldl_map]

namespace Collect.Compiling

/-! ### Hearing -/

/-- Notes what of an event could not be read. -/
def note (c : Compiling) (e : LogEvent) : Compiling :=
  { c with task := Collector.withFlags (Collector.unreadFlags e) c.task }

/-- Takes in an event, after noting what of it could not be read. -/
def hear (c : Compiling) (e : LogEvent) : Compiling := (c.note e).take e.shape e.event

/-- What was heard led from one state of a task to another with the given tree, open bodies and
call. Nothing else changed but how far the task has come and its flags, and no scope was found
unbalanced. -/
def Leads (c : Compiling) (tree : InlineTree) (bodies : List MethodBody)
    (call : Option PendingCall) (c' : Compiling) : Prop :=
  ∃ flags state, (.unbalancedScopes ∈ flags → .unbalancedScopes ∈ c.task.flags) ∧
    c' = { c with
      task := { c.task with tree := tree, flags := flags, state := state }
      bodies := bodies
      call := call }

namespace Leads

variable {c c' c'' : Compiling} {tree tree' : InlineTree} {bodies bodies' : List MethodBody}
  {call call' : Option PendingCall}

/-- Hearing more leads further. -/
theorem trans (h : c.Leads tree bodies call c') (h' : c'.Leads tree' bodies' call' c'') :
    c.Leads tree' bodies' call' c'' := by
  obtain ⟨flags, state, hflags, rfl⟩ := h
  obtain ⟨flags', state', hflags', rfl⟩ := h'
  exact ⟨flags', state', fun h => hflags (hflags' h), rfl⟩

/-- What numbers stand for is as before. -/
theorem names_eq (h : c.Leads tree bodies call c') : c'.names = c.names := by
  obtain ⟨flags, state, _, rfl⟩ := h
  rfl

end Leads

end Collect.Compiling

/-! ### Definitions -/

namespace Collect

/-- The dictionary with what an event explains. -/
def Dictionary.explain (d : Dictionary) : Event → Dictionary
  | .typeDef (some id) (some name) => { d with types := d.types.insert id name }
  | .klassDef (some id) (some name) => { d with klasses := d.klasses.insert id name }
  | .methodDef (some id) holder name returnType arguments bytes _ =>
    d.defineMethod id holder name returnType arguments bytes
  | _ => d

end Collect

end CompileLog
