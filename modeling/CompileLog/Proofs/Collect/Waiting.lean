import CompileLog.Proofs.Collect.Custody

/-!
# Tasks that wait for their start

What the log says about a task before it begins is that it is queued, that its code is installed,
or what its code looks like. None of this touches the inlining tree, and none opens or closes a
method body, so every task that begins has an empty tree whatever the log said before.
-/

namespace CompileLog

open Collect

/-! ### Notes -/

/-- Whether a flag tells nothing of the method bodies. -/
def TaskFlag.isNote : TaskFlag → Bool
  | .unbalancedScopes | .structurallyInconsistent .. => false
  | _ => true

/-- A task is another of whose method bodies nothing more was told. -/
structure Task.Annotated (t t' : Task) : Prop where
  /-- The number stays. -/
  compileId_eq : t'.compileId = t.compileId
  /-- The call sites of the method itself stay. -/
  topLevel_eq : t'.tree.topLevel = t.tree.topLevel
  /-- All call sites stay. -/
  nodes_eq : t'.tree.nodes = t.tree.nodes
  /-- A flag that is added is a note. -/
  flags : ∀ f ∈ t'.flags, f ∈ t.flags ∨ f.isNote = true

namespace Task.Annotated

variable {t t' t'' : Task}

/-- What leaves the number, the call sites and the flags alone adds no flag. -/
theorem of_eq (hid : t'.compileId = t.compileId) (htop : t'.tree.topLevel = t.tree.topLevel)
    (hnodes : t'.tree.nodes = t.tree.nodes) (hflags : t'.flags = t.flags) : t.Annotated t' :=
  ⟨hid, htop, hnodes, fun _ hf => .inl (hflags ▸ hf)⟩

/-- Nothing was noted. -/
theorem refl (t : Task) : t.Annotated t := of_eq rfl rfl rfl rfl

/-- Something was noted, and then something else. -/
theorem trans (h : t.Annotated t') (h' : t'.Annotated t'') : t.Annotated t'' := by
  refine ⟨h'.compileId_eq.trans h.compileId_eq, h'.topLevel_eq.trans h.topLevel_eq,
    h'.nodes_eq.trans h.nodes_eq, fun f hf => ?_⟩
  rcases h'.flags f hf with hbefore | hnote
  · exact h.flags f hbefore
  · exact .inr hnote

/-- Noting another flag. -/
theorem flag (t : Task) {f : TaskFlag} (hf : f.isNote = true) : t.Annotated (t.flag f) := by
  obtain ⟨flags, heq, hfrom⟩ := t.flag_eq f
  rw [heq]
  refine ⟨rfl, rfl, rfl, fun g hg => (hfrom g hg).imp_right fun h => ?_⟩
  rw [h, hf]

/-- Noting what could not be read. -/
theorem withFlags {flags : List TaskFlag} (hflags : Unread flags) (t : Task) :
    t.Annotated (Collector.withFlags flags t) := by
  obtain ⟨flags', heq, hfrom⟩ := Collector.withFlags_eq flags t
  rw [heq]
  refine ⟨rfl, rfl, rfl, fun g hg => (hfrom g hg).imp_right fun hnew => ?_⟩
  obtain ⟨_, _, _, rfl⟩ := hflags g hnew
  rfl

/-- A listing. -/
theorem attachListing (l : Listing) (t : Task) : t.Annotated (t.attachListing l) := by
  unfold Task.attachListing
  split
  · exact of_eq rfl rfl rfl rfl
  · exact flag t rfl

/-- A listing that may not be kept. -/
theorem addListing (retain : Bool) (l : Listing) (t : Task) :
    t.Annotated (Collector.addListing retain l t) := by
  unfold Collector.addListing
  refine (attachListing l t).trans ?_
  split
  · exact refl _
  · exact of_eq rfl rfl rfl rfl

/-- Installed code. -/
theorem install (facts : NativeFacts) {flags : List TaskFlag} (hflags : Unread flags) (t : Task) :
    t.Annotated (Collector.install facts flags t) := by
  unfold Collector.install
  refine trans ?_ (withFlags hflags _)
  split <;> exact of_eq rfl rfl rfl rfl

/-- Whatever may be told of a task before it begins. -/
theorem told {f : Task → Task} (hf : Told f) (t : Task) : t.Annotated (f t) := by
  cases hf with
  | queued facts hflags =>
    refine trans ?_ (withFlags hflags _)
    exact of_eq rfl rfl rfl rfl
  | installed facts hflags => exact install facts hflags t
  | printed retain l => exact addListing retain l t

/-- That the method is not known. -/
theorem flagUnresolved (t : Task) : t.Annotated (Collector.flagUnresolved t) := by
  unfold Collector.flagUnresolved
  split
  · exact flag t rfl
  · exact refl t

/-- What is said where a task begins. -/
theorem beginTask (facts : TaskFacts) (thread : Option String) {flags : List TaskFlag}
    (hflags : Unread flags) (t : Task) :
    t.Annotated (Collector.beginTask facts thread flags t) := by
  unfold Collector.beginTask
  simp only
  generalize hnamed : Collector.flagUnresolved _ = named
  have hbefore : t.Annotated named := by
    rw [← hnamed]
    refine trans ?_ (flagUnresolved _)
    exact of_eq rfl rfl rfl rfl
  have hrooted : named.Annotated
      { named with tree := named.tree.withRoot named.method named.bytecodeSize } :=
    of_eq rfl rfl rfl rfl
  exact (hbefore.trans hrooted).trans (withFlags hflags _)

/-- The end of a task that was cut short. -/
theorem cutShort (t : Task) : t.Annotated (Collector.cutShort t) := by
  unfold Collector.cutShort
  refine trans ?_ (flag _ rfl)
  exact of_eq rfl rfl rfl rfl

end Task.Annotated

end CompileLog

namespace CompileLog.Collect

/-! ### Tasks without method bodies -/

/-- A task under a number of which no method body was told. -/
structure Unparsed (id : UInt64) (t : Task) : Prop where
  /-- It has the number. -/
  compileId_eq : t.compileId = id
  /-- The compiled method has no call sites. -/
  topLevel_eq : t.tree.topLevel = []
  /-- There are no call sites. -/
  nodes_eq : t.tree.nodes = #[]
  /-- No scope was found unbalanced. -/
  balanced : .unbalancedScopes ∉ t.flags

namespace Unparsed

variable {id : UInt64} {t t' : Task}

/-- A task of which only the number and the method are known. -/
theorem new (id : UInt64) (method : Method) : Unparsed id (.new id method) :=
  ⟨rfl, rfl, rfl, List.not_mem_nil⟩

/-- What tells nothing of method bodies parses nothing. -/
theorem annotated (h : Unparsed id t) (ht : t.Annotated t') : Unparsed id t' := by
  refine ⟨ht.compileId_eq.trans h.compileId_eq, ht.topLevel_eq.trans h.topLevel_eq,
    ht.nodes_eq.trans h.nodes_eq, fun hmem => ?_⟩
  rcases ht.flags _ hmem with hbefore | hnote
  · exact h.balanced hbefore
  · cases hnote

/-- A task that is taken to begin was not parsed before. -/
theorem of_taken (h : Taken Unparsed id t) : Unparsed id t := by
  cases h with
  | waiting ht =>
    exact ⟨ht.compileId_eq, ht.topLevel_eq, ht.nodes_eq,
      fun hmem => ht.balanced (List.mem_of_mem_filter hmem)⟩
  | new => exact .new id .unresolved
  | again => exact (new id .unresolved).annotated (.flag _ rfl)

/-- Tasks that wait are not parsed. -/
theorem custody : Custody Unparsed (fun _ => True) fun _ => True where
  met id method := ⟨rfl, rfl, rfl, by simp [Collector.implicitTask]⟩
  told_waiting hf h := h.annotated (.told hf _)
  told_active _ _ := trivial
  begun _ _ _ _ := trivial
  heard _ _ _ _ := trivial
  framed _ _ _ _ := trivial
  finished _ _ _ _ _ _ := trivial
  cut _ := trivial
  forgotten _ := trivial
  bridged _ _ _ := trivial

end Unparsed

namespace Collector

/-- Of no task that waits a method body was told. -/
def WaitingUnparsed (c : Collector) : Prop :=
  ∀ id t, c.waiting.get? id = some t → Unparsed id t

/-- What holds of a collector through each step holds after all steps. -/
theorem each_preserves {α : Type} {P : Collector → Prop} {f : Collector → α → Collector × List Item}
    (hstep : ∀ c a, P c → P (f c a).1) {c : Collector} (h : P c) (l : List α) :
    P (c.each f l).1 := by
  induction l generalizing c with
  | nil => exact h
  | cons a rest ih => exact ih (hstep c a h)

namespace WaitingUnparsed

variable {c : Collector}

/-- Nothing is asked of the task under way. -/
theorem holds (h : c.WaitingUnparsed) : c.Holds Unparsed fun _ => True := ⟨h, fun _ _ => trivial⟩

/-- The printed machine code is read. -/
theorem flush (h : c.WaitingUnparsed) : c.flush.1.WaitingUnparsed :=
  (Unparsed.custody.keeps_flush c h.holds).1.waiting

/-- The task under way is cut short. -/
theorem abandonActive (h : c.WaitingUnparsed) : c.abandonActive.1.WaitingUnparsed :=
  (Unparsed.custody.keeps_abandonActive c h.holds).1.waiting

/-- The task that begins was not parsed before, nor any that still waits. -/
theorem takeWaiting (h : c.WaitingUnparsed) (id : UInt64) :
    (c.takeWaiting id).1.WaitingUnparsed ∧ Unparsed id (c.takeWaiting id).2 := by
  obtain ⟨hrest, htaken⟩ := Custody.takeWaiting h.holds id
  exact ⟨hrest.waiting, .of_taken htaken⟩

/-- Whatever the next event says, no task that waits is parsed. -/
theorem accept (h : c.WaitingUnparsed) (e : LogEvent) : (c.accept e).1.WaitingUnparsed :=
  (Unparsed.custody.keeps_accept c e h.holds).1.waiting

end WaitingUnparsed

/-- Whatever a log says, no task that waits is parsed. -/
theorem waitingUnparsed_acceptAll (retain : Bool) (events : List LogEvent) :
    ((start retain).acceptAll events).1.WaitingUnparsed := by
  have hstart : (start retain).WaitingUnparsed := fun id t hfound => by
    simp [start] at hfound
  exact (Unparsed.custody.keeps_acceptAll _ events hstart.holds).1.waiting

end Collector

end CompileLog.Collect
