import CompileLog.Proofs.Collect.Heard
import CompileLog.Proofs.Collect.Misplaced
import Mathlib.Combinatorics.Enumerative.DyckWord

/-!
# Whether method bodies were nested

The tags that open method bodies and those that close them should form balanced brackets. A task
notes at once that a body closes although none is open, and where it is finished that one is open
still. Both together miss nothing: what is heard of a finished task are balanced brackets if and
only if neither was noted. An element without content opens a body as well.
-/

namespace CompileLog.Collect

/-! ### Brackets -/

/-- The bracket that an event stands for. -/
def bracket? : Event → Option DyckStep
  | .parseOpen .. => some .U
  | .close .parseOpen => some .D
  | _ => none

/-- The brackets among events. -/
def brackets (events : List Event) : List DyckStep := events.filterMap bracket?

/-- The method bodies that are opened and closed are nested: their tags are balanced brackets. -/
def Nested (events : List Event) : Prop := ∃ w : DyckWord, w.toList = brackets events

/-- How far brackets have come. -/
structure Progress where
  /-- Number of brackets that are open. -/
  depth : Nat
  /-- Whether one closed while none was open. -/
  missed : Bool
  deriving DecidableEq

namespace Progress

/-- The next bracket. -/
def step (p : Progress) : DyckStep → Progress
  | .U => { p with depth := p.depth + 1 }
  | .D => if p.depth = 0 then { p with missed := true } else { p with depth := p.depth - 1 }

/-- The next event. -/
def hear (p : Progress) (e : Event) : Progress := (bracket? e).elim p p.step

/-- Before the first one. -/
def start : Progress := ⟨0, false⟩

/-- What is no bracket changes nothing. -/
theorem hear_of_bearing (p : Progress) {e : Event} (he : bearing e ≠ .tells) : p.hear e = p := by
  cases e with
  | parseOpen method stamp => exact absurd rfl he
  | close of => cases of <;> first | rfl | exact absurd rfl he
  | _ => rfl

/-- Events come as far as their brackets. -/
theorem foldl_hear (events : List Event) (p : Progress) :
    events.foldl hear p = (brackets events).foldl step p := by
  induction events generalizing p with
  | nil => rfl
  | cons e rest ih =>
    rw [List.foldl_cons, ih]
    unfold brackets hear
    cases hbracket : bracket? e <;> simp [hbracket]

/-- No bracket closed too early if and only if no beginning has more that close than open; then those
that are open make up the difference. By induction on the brackets from the last one on. -/
theorem foldl_step (l : List DyckStep) :
    ((l.foldl step start).missed = false ↔ ∀ before, before <+: l →
        before.count .D ≤ before.count .U) ∧
      ((l.foldl step start).missed = false →
        (l.foldl step start).depth + l.count .D = l.count .U) := by
  induction l using List.reverseRecOn with
  | nil => simp [start]
  | append_singleton l s ih =>
    obtain ⟨hmissed, hdepth⟩ := ih
    -- The only beginning that is new is the whole list, so only its count has to be looked at.
    have hlast : (∀ before, before <+: l ++ [s] → before.count .D ≤ before.count DyckStep.U) ↔
        (l.foldl step start).missed = false ∧
          (l ++ [s]).count .D ≤ (l ++ [s]).count DyckStep.U := by
      rw [hmissed]
      constructor
      · intro h
        exact ⟨fun before hbefore => h before (hbefore.trans (List.prefix_append l [s])),
          h (l ++ [s]) List.prefix_rfl⟩
      · rintro ⟨hbefore, hall⟩ before hprefix
        rcases List.prefix_concat_iff.mp hprefix with rfl | hshorter
        · exact hall
        · exact hbefore before hshorter
    rw [hlast, List.foldl_append, List.foldl_cons, List.foldl_nil]
    generalize l.foldl step start = p at hdepth ⊢
    cases s with
    | U =>
      simp only [step, List.count_append, List.count_singleton_self]
      have hother : [DyckStep.U].count .D = 0 := rfl
      rw [hother]
      refine ⟨⟨fun h => ⟨h, ?_⟩, And.left⟩, fun h => ?_⟩
      · have := hdepth h
        omega
      · have := hdepth h
        omega
    | D =>
      have hother : [DyckStep.D].count .U = 0 := rfl
      simp only [step, List.count_append, List.count_singleton_self, hother]
      by_cases hnone : p.depth = 0
      · rw [if_pos hnone]
        refine ⟨⟨fun h => (nomatch h), fun ⟨h, hle⟩ => ?_⟩, fun h => (nomatch h)⟩
        have := hdepth h
        omega
      · rw [if_neg hnone]
        refine ⟨⟨fun h => ⟨h, ?_⟩, And.left⟩, fun h => ?_⟩
        · have := hdepth h
          omega
        · have := hdepth h
          show p.depth - 1 + (l.count .D + 1) = l.count .U + 0
          omega

end Progress

/-- Method bodies are nested if and only if none closed too early and none is open still. -/
theorem nested_iff (events : List Event) :
    Nested events ↔ events.foldl Progress.hear .start = .start := by
  rw [Progress.foldl_hear]
  obtain ⟨hmissed, hdepth⟩ := Progress.foldl_step (brackets events)
  generalize (brackets events).foldl Progress.step .start = p at hmissed hdepth ⊢
  constructor
  · rintro ⟨w, hw⟩
    have hnever : p.missed = false := hmissed.mpr fun before hbefore => by
      rw [List.prefix_iff_eq_take.mp hbefore, ← hw]
      exact w.count_D_le_count_U before.length
    have hcount := hdepth hnever
    have hequal := w.count_U_eq_count_D
    rw [hw] at hequal
    have hnone : p.depth = 0 := by omega
    obtain ⟨depth, missed⟩ := p
    obtain rfl : missed = false := hnever
    obtain rfl : depth = 0 := hnone
    rfl
  · rintro rfl
    have hcount := hdepth rfl
    refine ⟨⟨brackets events, ?_, fun i => hmissed.mp rfl _ (List.take_prefix i _)⟩, rfl⟩
    show (brackets events).count .U = (brackets events).count .D
    have hnone : Progress.start.depth = 0 := rfl
    omega

/-- As many close as open, but the first one closes too early. -/
example : ¬Nested [.close .parseOpen, .parseOpen (some 7) none] := by
  rw [nested_iff]
  decide

/-! ### The task under way -/

/-- Whatever may be told of a task before it begins forgets no flag. -/
theorem Told.subset_flags {f : Task → Task} (hf : Told f) (t : Task) : t.flags ⊆ (f t).flags := by
  cases hf with
  | @queued facts flags hflags =>
    exact Collector.subset_withFlags flags
      { Collector.applyFacts facts t with
        queuedAt := (Collector.applyFacts facts t).queuedAt.or facts.stamp }
  | installed facts hflags =>
    refine List.Subset.trans ?_ (Collector.subset_withFlags _ _)
    split <;> exact List.Subset.refl _
  | printed retain l =>
    have hattached : t.flags ⊆ (t.attachListing l).flags := by
      unfold Task.attachListing
      split
      · exact List.Subset.refl _
      · exact Collector.subset_withFlags [_] t
    unfold Collector.addListing
    split
    · exact hattached
    · exact hattached

/-- Nor does it find scopes unbalanced. -/
theorem Told.unbalanced_iff {f : Task → Task} (hf : Told f) (t : Task) :
    .unbalancedScopes ∈ (f t).flags ↔ .unbalancedScopes ∈ t.flags := by
  refine ⟨fun h => ?_, fun h => hf.subset_flags t h⟩
  rcases (Task.Annotated.told hf t).flags _ h with hbefore | hnote
  · exact hbefore
  · cases hnote

/-- What could not be read finds no scopes unbalanced. -/
theorem Unread.unbalanced_iff {flags : List TaskFlag} (hflags : Unread flags) (t : Task) :
    .unbalancedScopes ∈ (Collector.withFlags flags t).flags ↔ .unbalancedScopes ∈ t.flags := by
  rw [Collector.mem_flags_withFlags]
  refine or_iff_left fun h => ?_
  obtain ⟨_, _, _, hunread⟩ := hflags _ h
  cases hunread

namespace Compiling

variable (c : Compiling)

/-- Noting that something was said notes no flag. -/
theorem flags_touch : c.touch.task.flags = c.task.flags := by
  unfold touch onTask
  simp only
  split <;> rfl

/-- The end of a removed operation notes no flag. -/
theorem flags_closeRecord : c.closeRecord.task.flags = c.task.flags := by
  unfold closeRecord
  split <;> rfl

/-- Nor does its begin. -/
theorem flags_openRecord (record : OpenRecord) (shape : Shape) :
    (c.openRecord record shape).task.flags = c.task.flags := by
  have hclosed := c.touch.flags_closeRecord.trans c.flags_touch
  unfold openRecord
  simp only
  split
  · exact hclosed
  · exact (flags_closeRecord { c.touch.closeRecord with record := some record }).trans hclosed

/-- No event but the end of a method body notes a flag. -/
theorem flags_take (shape : Shape) {e : Event} (he : e ≠ .close .parseOpen) :
    (c.take shape e).task.flags = c.task.flags := by
  have htouched : c.touch.task.flags = c.task.flags := c.flags_touch
  cases e with
  | typeDef id name => cases id <;> cases name <;> rfl
  | klassDef id name => cases id <;> cases name <;> rfl
  | methodDef id holder name returnType arguments bytes count => cases id <;> rfl
  | parseOpen method stamp => exact (c.flags_openBody method).trans htouched
  | inlineSuccess reason => exact htouched
  | inlineFail reason => exact htouched
  | intrinsic name => exact htouched
  | uncommonTrap id bci reason action stamp =>
    cases id with
    | none => exact htouched
    | some id => rfl
  | eliminateAllocation klass => exact c.flags_openRecord _ shape
  | eliminateLock lock kind => exact c.flags_openRecord _ shape
  | hotThrow preallocated reason => exact htouched
  | phase facts => exact htouched
  | phaseDone facts =>
    show (c.closePhase facts).task.flags = c.task.flags
    unfold closePhase
    split <;> rfl
  | failure reason stamp => exact htouched
  | close of =>
    cases of with
    | parseOpen => exact absurd rfl he
    | eliminateAllocation => exact c.flags_closeRecord
    | eliminateLock => exact c.flags_closeRecord
    | _ => rfl
  | _ => rfl

/-- A task under way is where brackets have come: as many bodies are open, and that one closed too
early is flagged. -/
structure At (p : Progress) : Prop where
  /-- As many bodies are open. -/
  length_eq : c.bodies.length = p.depth
  /-- That one closed too early is flagged. -/
  unbalanced_iff : .unbalancedScopes ∈ c.task.flags ↔ p.missed = true

variable {c} {p : Progress}

/-- What leaves the number of bodies and the flags leaves this. -/
theorem At.congr (h : c.At p) {c' : Compiling} (hlength : c'.bodies.length = c.bodies.length)
    (hflags : c'.task.flags = c.task.flags) : c'.At p :=
  ⟨hlength.trans h.length_eq, by rw [hflags, h.unbalanced_iff]⟩

/-- A method body opens. -/
theorem At.openBody (h : c.At p) (method : Option UInt64) :
    (c.openBody method).At (p.step .U) := by
  have hlength : (c.openBody method).bodies.length = c.bodies.length + 1 := by
    have htouched : c.touch.bodies = c.bodies := rfl
    rw [← htouched]
    unfold Compiling.openBody
    simp only
    split
    · next hnone => rw [hnone]; split <;> rfl
    · next hopened => rw [hopened]; split <;> rfl
  refine ⟨?_, ?_⟩
  · rw [hlength, h.length_eq]
    rfl
  · rw [flags_openBody, flags_touch, h.unbalanced_iff]
    rfl

/-- The innermost body closes. -/
theorem At.closeBody (h : c.At p) : c.closeBody.At (p.step .D) := by
  have hlength := h.length_eq
  have hflag := h.unbalanced_iff
  unfold Compiling.closeBody Progress.step
  simp only
  split
  · next hnone =>
    rw [hnone, List.length_nil] at hlength
    rw [if_pos hlength.symm]
    refine ⟨h.length_eq, iff_of_true ?_ rfl⟩
    exact (c.task.mem_flags_flag _ _).mpr (.inr rfl)
  · next body outer hopened =>
    rw [hopened, List.length_cons] at hlength
    rw [if_neg (by omega)]
    refine ⟨?_, hflag⟩
    show outer.length = p.depth - 1
    omega

/-- Whatever an event says, the task under way comes as far as the brackets. -/
theorem At.take (h : c.At p) (shape : Shape) (e : Event) : (c.take shape e).At (p.hear e) := by
  have hflags := c.flags_take shape (e := e)
  have hparses := c.parses_take shape e
  generalize c.take shape e = c' at hflags hparses
  cases hparses with
  | @decides e decision he reason =>
    have hbracket : bracket? e = none := by cases e <;> first | rfl | cases he
    rw [Progress.hear, hbracket]
    refine h.congr ?_ c.flags_touch
    have htouched : c.touch.bodies = c.bodies := rfl
    rw [← htouched]
    unfold decide
    simp only
    split
    · next hnone => rw [hnone]
    · next hopened => rw [hopened]; rfl
  | opens method stamp => exact h.openBody method
  | closes => exact h.closeBody
  | reaches opcode bci =>
    refine h.congr ?_ rfl
    unfold reach
    simp only
    split
    · next hnone => rw [hnone]
    · next hopened => rw [hopened]; rfl
  | calls method count inlineFlag => exact h.congr rfl rfl
  | @passes e _ he hnodes hbodies hcall =>
    -- What leaves the bodies is no bracket, and the end of a body alone notes a flag.
    have hbracket : bracket? e = none ∧ e ≠ .close .parseOpen := by
      cases e with
      | close of => cases of <;> first | exact ⟨rfl, by simp⟩ | cases he
      | _ => first | exact ⟨rfl, by simp⟩ | cases he
    rw [Progress.hear, hbracket.1]
    exact h.congr (by rw [hbodies]) (hflags hbracket.2)

end Compiling

/-! ### All that a collector is given -/

/-- How far the brackets have come that a task was told. -/
def progress (told : List LogEvent) : Progress := told.foldl (fun p e => p.hear e.event) .start

/-- The task under way has come as far as the brackets that it was told. -/
def ScopesKept (told : List LogEvent) (a : Compiling) : Prop := a.At (progress told)

/-- Each way of telling the task under way more keeps it where the brackets are. -/
theorem ScopesKept.listener : Listener Unparsed ScopesKept where
  begun {e} {facts} {t} _ thread he hflags htaken := by
    have hbegun := (Unparsed.of_taken htaken).annotated (.beginTask facts thread hflags t)
    have hstart : progress [e] = .start := by simp [progress, he, Progress.hear, bracket?]
    unfold ScopesKept
    rw [hstart]
    exact ⟨rfl, iff_of_false hbegun.balanced Bool.false_ne_true⟩
  noted hf h := ⟨h.length_eq, (hf.unbalanced_iff _).trans h.unbalanced_iff⟩
  heard {told} {a} {e} _ _ hflags h := by
    have hnext : progress (told ++ [e]) = (progress told).hear e.event := List.foldl_append
    unfold ScopesKept
    rw [hnext]
    refine Compiling.At.take ?_ _ _
    exact ⟨h.length_eq, (hflags.unbalanced_iff _).trans h.unbalanced_iff⟩
  framed {told} {a} {e} _ _ _ he h := by
    have hnext : progress (told ++ [e]) = (progress told).hear e.event := List.foldl_append
    unfold ScopesKept
    rw [hnext, he]
    exact h.congr rfl rfl

/-- Checking the call sites of a task finds no scopes unbalanced. -/
theorem Collector.unbalanced_flagMisplaced (t : Task) :
    .unbalancedScopes ∈ (flagMisplaced t).flags ↔ .unbalancedScopes ∈ t.flags := by
  rw [flagMisplaced_eq_withFlags, mem_flags_withFlags]
  exact or_iff_left (by simp [misplacedFlags])

/-- A task that is finished is flagged unless brackets have come back to where they began. -/
theorem Compiling.At.unbalanced_finished {a : Compiling} {p : Progress} (h : a.At p)
    (success : Option Bool) (nativeSize inlinedBytes : Option UInt64) (stamp : Option Stamp)
    {flags : List TaskFlag} (hflags : Unread flags) :
    .unbalancedScopes ∈ (a.finished success nativeSize inlinedBytes stamp flags).flags ↔
      p ≠ .start := by
  have hnoted := (hflags.unbalanced_iff a.task).trans h.unbalanced_iff
  have hlength := h.length_eq
  obtain ⟨depth, missed⟩ := p
  unfold Compiling.finished
  simp only
  cases hopened : a.bodies with
  | nil =>
    obtain rfl : 0 = depth := by rwa [hopened] at hlength
    rw [List.isEmpty_nil, if_pos rfl]
    refine hnoted.trans ?_
    cases missed <;> simp [Progress.start]
  | cons body outer =>
    rw [hopened, List.length_cons] at hlength
    rw [List.isEmpty_cons, if_neg Bool.false_ne_true]
    refine iff_of_true ((Task.mem_flags_flag _ _ _).mpr (.inr rfl)) fun hstart => ?_
    obtain rfl : depth = 0 := congrArg Progress.depth hstart
    cases hlength

/-- What is printed has been read, and the task under way is still as its transcript has it. -/
theorem Listener.hears_flushBefore {W : UInt64 → Task → Prop}
    {R : List LogEvent → Compiling → Prop} (h : Listener W R) {c : Collector}
    {told : Option (List LogEvent)} (hc : c.Hears R told) (e : Event) :
    (c.flushBefore e).1.Hears R told := by
  unfold Collector.flushBefore
  split
  · exact hc
  · exact h.hears_flush hc

/-- What is handed over where the end of a task is told: nothing if none is under way, else that task
alone. It is finished, and it is flagged if and only if the method bodies that were heard of since
it began are not nested. -/
def EndsNested (heard : Option (List Event)) (ts : List Task) : Prop :=
  match heard with
  | none => ts = []
  | some heard =>
    ∃ t, ts = [t] ∧ t.state = .closed ∧ (.unbalancedScopes ∈ t.flags ↔ ¬Nested heard)

namespace Collector

/-- The task under way is finished with the flag that goes back to what was heard of it. -/
theorem endsNested_of_kept {active : Option Compiling} {told : Option (List LogEvent)}
    {heard : Option (List Event)} (hkept : Option.Rel ScopesKept told active)
    (halike : GatheredAlike Progress.hear .start told heard) (success : Option Bool)
    (nativeSize inlinedBytes : Option UInt64) (stamp : Option Stamp) {flags : List TaskFlag}
    (hflags : Unread flags) :
    EndsNested heard (active.map fun a =>
      flagMisplaced (a.finished success nativeSize inlinedBytes stamp flags)).toList := by
  cases halike.rel (P := fun p (a : Compiling) => a.At p) (fun _ _ hat => hat) hkept with
  | none => rfl
  | @some heard a hat =>
    refine ⟨_, rfl, ?_, ?_⟩
    · rw [state_flagMisplaced]
      exact a.state_finished success nativeSize inlinedBytes stamp hflags
    · rw [unbalanced_flagMisplaced, nested_iff]
      exact Compiling.At.unbalanced_finished hat success nativeSize inlinedBytes stamp hflags

/-- Whatever a collector is given, the task that is finished where the end of one is told is flagged
if and only if the method bodies heard of it are not nested. -/
theorem scopes_flagged_iff_unnested (retain : Bool) (inputs : List Input) (e : LogEvent)
    (success : Option Bool) (nativeSize inlinedBytes : Option UInt64) (stamp : Option Stamp) :
    EndsNested (underway inputs) (tasksOf ((feed retain inputs).1.accept
      { e with event := .taskDone success nativeSize inlinedBytes stamp }).2) := by
  have hfed := ScopesKept.listener.attends_feed Unparsed.custody retain inputs
  have halike : GatheredAlike Progress.hear .start (transcript inputs).told (underway inputs) :=
    gathered_alike Progress.hear_of_bearing inputs
  rw [tasksOf_accept_taskDone _ rfl]
  exact endsNested_of_kept (ScopesKept.listener.hears_flushBefore hfed.active _) halike success
    nativeSize inlinedBytes stamp (unread_unreadFlags _)

end Collector

end CompileLog.Collect
