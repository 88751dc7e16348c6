import CompileLog.Event.Decode
import CompileLog.Markup.Reading
import CompileLog.Proofs.Collect.Decisions

/-!
# Under which call sites others are put

A method body that a log opens inside another is taken for that of the callee of the newest call in
the body around it that was decided for the same method and has no body yet. What was decided plays
no part in the choice. So the body may be one for a call that was not inlined, and the calls in it
are then put under that call site. An outline follows the bodies through a log and notes the
decisions for which this happens; all other call sites that contain some were inlined.
-/

namespace CompileLog

namespace InlineTree

/-- The position of a call site that is added comes behind all others. -/
@[simp] theorem snd_add (t : InlineTree) (parent : Option Nat) (site : CallSite) :
    (t.add parent site).2 = t.nodes.size := by
  unfold add
  simp only
  split <;> rfl

/-- What was decided stays once more is. -/
theorem decision_of_prefix {t t' : InlineTree} (h : t.decisions <+: t'.decisions) {i : Nat}
    {decision : Decision} (hi : t.decisions[i]? = some decision) :
    t'.decisions[i]? = some decision := by
  obtain ⟨more, heq⟩ := h
  rw [← heq, List.getElem?_append_left (List.getElem?_eq_some_iff.mp hi).1, hi]

/-- Adding a call site decides one more. -/
theorem prefix_decisions_add (t : InlineTree) (parent : Option Nat) (site : CallSite) :
    t.decisions <+: (t.add parent site).1.decisions := by
  rw [decisions_add]
  exact List.prefix_append _ _

end InlineTree

namespace Collect

/-! ### What a log tells of method bodies -/

/-- A decision in a method body. -/
structure Decided where
  /-- The position of the call site. -/
  position : Nat
  /-- The number of the callee. -/
  callee : Option UInt64
  /-- What was decided. -/
  decision : Decision

/-- The decision as an open body keeps it. -/
def Decided.entry (d : Decided) : Nat × Option UInt64 := (d.position, d.callee)

/-- Its position, if the call was not inlined. -/
def Decided.amiss (d : Decided) : List Nat := if d.decision = .inlined then [] else [d.position]

/-- What is noted of a decision when a body is opened for it. -/
theorem Decided.of_mem_amiss {d : Decided} {i : Nat} (h : i ∈ d.amiss) :
    i = d.position ∧ d.decision ≠ .inlined := by
  unfold Decided.amiss at h
  split at h
  · cases h
  · next hne => exact ⟨List.mem_singleton.mp h, hne⟩

/-- What was told of the method bodies of a task. -/
structure Outline where
  /-- For each open body the decisions in it that have no body yet, newest first. The innermost body
  comes first. -/
  bodies : List (List Decided)
  /-- The callee of the call reached. -/
  callee : Option UInt64
  /-- Number of decisions. -/
  size : Nat
  /-- The positions of the calls that were not inlined although a body was opened for them. -/
  amiss : List Nat

namespace Outline

/-- Nothing was told. -/
def empty : Outline := ⟨[], none, 0, []⟩

/-- The call reached is decided. -/
def decideCall (o : Outline) (decision : Decision) : Outline :=
  { o with
    bodies := o.bodies.modifyHead (⟨o.size, o.callee, decision⟩ :: ·)
    size := o.size + 1 }

/-- A body opens for a method. In another body it is that of the newest decision for the method. -/
def openBody (o : Outline) (method : Option UInt64) : Outline :=
  match o.bodies with
  | [] => { o with bodies := [[]] }
  | body :: outer =>
    let chosen := body.find? fun d => d.callee = method
    { o with
      bodies := [] :: (body.eraseP fun d => d.callee = method) :: outer
      amiss := chosen.elim [] Decided.amiss ++ o.amiss }

/-- The next event that is told. -/
def hear (o : Outline) : Event → Outline
  | .parseOpen method _ => o.openBody method
  | .close .parseOpen => { o with bodies := o.bodies.tail, callee := none }
  | .bytecode .. => { o with callee := none }
  | .call method .. => { o with callee := method }
  | .inlineSuccess _ => o.decideCall .inlined
  | .inlineFail _ => o.decideCall .notInlined
  | .intrinsic _ => o.decideCall .intrinsic
  | _ => o

/-- What tells a decision decides the call reached. -/
theorem hear_of_decision? (o : Outline) {e : Event} {decision : Decision}
    (he : decision? e = some decision) : o.hear e = o.decideCall decision := by
  cases e <;> cases he <;> rfl

/-- What is not about method bodies passes. -/
theorem hear_of_not_isOfBodies (o : Outline) {e : Event} (he : isOfBodies e = false) :
    o.hear e = o := by
  cases e with
  | close of => cases of <;> first | rfl | cases he
  | _ => first | rfl | cases he

/-- A call site may contain others: it was inlined, or a body was opened for it nevertheless. -/
def Admits (t : InlineTree) (amiss : List Nat) (p : Nat) : Prop :=
  t.decisions[p]? = some .inlined ∨ p ∈ amiss

/-- An open body has the decisions of one in an outline, and stands for a call site that may contain
others. -/
structure Describes (t : InlineTree) (amiss : List Nat) (body : MethodBody) (ds : List Decided) :
    Prop where
  /-- The decisions without a body are the same. -/
  decisions_eq : body.decisions = ds.map Decided.entry
  /-- They are those in the tree. -/
  decided : ∀ d ∈ ds, t.decisions[d.position]? = some d.decision
  /-- What is told in the body may be put under its call site. -/
  node : ∀ p ∈ body.node, Admits t amiss p

/-- The task under way has the method bodies of an outline, and puts call sites only where they may
be. -/
structure Follows (o : Outline) (c : Compiling) : Prop where
  /-- The same call is reached. -/
  callee_eq : c.call.bind PendingCall.method = o.callee
  /-- As many decisions were told as there are call sites. -/
  size_eq : c.task.tree.nodes.size = o.size
  /-- The same bodies are open. -/
  bodies : List.Forall₂ (Describes c.task.tree o.amiss) c.bodies o.bodies
  /-- A call site that contains others may do so. -/
  containing : ∀ {i n}, c.task.tree.node? i = some n → n.children ≠ [] →
    Admits c.task.tree o.amiss i
  /-- The call sites noted were not inlined. -/
  amiss : ∀ i ∈ o.amiss, ∃ d, c.task.tree.decisions[i]? = some d ∧ d ≠ .inlined

/-! ### The task under way -/

section Grow

variable {t t' : InlineTree} {amiss amiss' : List Nat}

/-- What may contain others still may once more is told. -/
theorem Admits.mono {p : Nat} (h : Admits t amiss p) (ht : t.decisions <+: t'.decisions)
    (hamiss : amiss ⊆ amiss') : Admits t' amiss' p :=
  h.imp (InlineTree.decision_of_prefix ht) fun hp => hamiss hp

/-- The open bodies stay those of the outline once more is told. -/
theorem Describes.mono {bodies : List MethodBody} {dss : List (List Decided)}
    (h : List.Forall₂ (Describes t amiss) bodies dss) (ht : t.decisions <+: t'.decisions)
    (hamiss : amiss ⊆ amiss') : List.Forall₂ (Describes t' amiss') bodies dss := by
  refine h.imp fun _ _ hbody => ⟨hbody.decisions_eq, fun d hd => ?_, fun p hp => ?_⟩
  · exact InlineTree.decision_of_prefix ht (hbody.decided d hd)
  · exact (hbody.node p hp).mono ht hamiss

/-- The decision chosen for a body is the newest one for its method. By induction on the
decisions. -/
theorem takeDecision?_eq (method : Option UInt64) (ds : List Decided) :
    Compiling.takeDecision? method (ds.map Decided.entry) =
      (ds.find? fun d => d.callee = method).map fun d =>
        (d.position, (ds.eraseP fun d => d.callee = method).map Decided.entry) := by
  induction ds with
  | nil => rfl
  | cons d older ih =>
    rw [List.map_cons, Compiling.takeDecision?]
    by_cases hd : d.callee = method
    · simp [hd, Decided.entry]
    · rw [Decided.entry, if_neg hd, ih, List.find?_cons_of_neg (by simpa using hd),
        List.eraseP_cons_of_neg (by simpa using hd), Option.map_map]
      rfl

/-- Where a call site is added under one that may contain others, those that contain others still
may. -/
theorem Admits.add {parent : Option Nat} {site : CallSite}
    (hparent : ∀ p ∈ parent, Admits t amiss p)
    (h : ∀ {i n}, t.node? i = some n → n.children ≠ [] → Admits t amiss i) {i : Nat}
    {n : InlineNode} (hn : (t.add parent site).1.node? i = some n) (hchildren : n.children ≠ []) :
    Admits (t.add parent site).1 amiss i := by
  have hprefix := t.prefix_decisions_add parent site
  rcases InlineTree.node?_add_cases hn with ⟨_, rfl⟩ | ⟨_, m, hm, rfl⟩
  · exact absurd rfl hchildren
  · split at hchildren
    · next hplace =>
      obtain ⟨hnode, _⟩ := Option.filter_eq_some_iff.mp hplace
      exact (hparent i hnode).mono hprefix (List.Subset.refl _)
    · exact (h hm hchildren).mono hprefix (List.Subset.refl _)

/-- A call site may contain others once a body is opened for it. -/
theorem Admits.position {d : Decided}
    (hd : t.decisions[d.position]? = some d.decision) :
    Admits t (d.amiss ++ amiss) d.position := by
  unfold Admits Decided.amiss
  by_cases hinlined : d.decision = .inlined
  · exact .inl (hinlined ▸ hd)
  · simp [hinlined]

end Grow

namespace Follows

variable {o : Outline} {c c' : Compiling}

/-- What leaves the call sites, the open bodies and the call leaves all this. -/
theorem congr (h : o.Follows c) (hnodes : c'.task.tree.nodes = c.task.tree.nodes)
    (hbodies : c'.bodies = c.bodies) (hcall : c'.call = c.call) : o.Follows c' := by
  have hdecisions := InlineTree.decisions_congr hnodes
  have hnode : ∀ i, c'.task.tree.node? i = c.task.tree.node? i := fun i => by
    unfold InlineTree.node?
    rw [hnodes]
  have hprefix : c.task.tree.decisions <+: c'.task.tree.decisions :=
    hdecisions.symm ▸ List.prefix_rfl
  refine ⟨hcall ▸ h.callee_eq, hnodes ▸ h.size_eq, ?_, fun hn hchildren => ?_, fun i hi => ?_⟩
  · rw [hbodies]
    exact Describes.mono h.bodies hprefix (List.Subset.refl _)
  · rw [hnode] at hn
    exact (h.containing hn hchildren).mono hprefix (List.Subset.refl _)
  · rw [hdecisions]
    exact h.amiss i hi

/-- A task that begins. -/
theorem start {t : Task} (ht : t.tree.nodes = #[]) : empty.Follows (.start t) := by
  refine ⟨rfl, ?_, .nil, fun {i} {n} hn => ?_, fun i hi => absurd hi List.not_mem_nil⟩
  · show t.tree.nodes.size = 0
    rw [ht]
    rfl
  · have hnone : t.tree.node? i = none := by simp [InlineTree.node?, ht]
    cases hnone.symm.trans hn

/-- The call site under which others are put may contain them. -/
theorem admits_node (h : o.Follows c) {p : Nat} (hp : c.node = some p) :
    Admits c.task.tree o.amiss p := by
  obtain ⟨_, _, hbodies, _, _⟩ := h
  unfold Compiling.node at hp
  generalize o.bodies = dss at hbodies
  generalize c.bodies = bodies at hbodies hp
  cases hbodies with
  | nil => cases hp
  | cons hbody _ => exact hbody.node p hp

/-- A decision. -/
theorem decideCall (h : o.Follows c) (decision : Decision) (reason : Option String) :
    (o.decideCall decision).Follows (c.decide decision reason) := by
  have h : o.Follows c.touch := h.congr c.nodes_touch rfl rfl
  unfold Compiling.decide
  simp only
  generalize c.touch = c at h ⊢
  generalize hsite : c.callSite decision reason = site
  have hdecision : site.decision = decision := by
    rw [← hsite]
    rfl
  have hprefix := c.task.tree.prefix_decisions_add c.node site
  have hlast : (c.task.tree.add c.node site).1.decisions[o.size]? = some decision := by
    rw [InlineTree.decisions_add, hdecision, ← h.size_eq, ← InlineTree.length_decisions,
      List.getElem?_concat_length]
  refine ⟨h.callee_eq, ?_, ?_, fun hn hchildren => ?_, fun i hi => ?_⟩
  · show (c.task.tree.add c.node site).1.nodes.size = o.size + 1
    rw [InlineTree.size_nodes_add, h.size_eq]
  · have hbodies := Describes.mono h.bodies hprefix (List.Subset.refl _)
    have hposition : (c.task.tree.add c.node site).2 = o.size := by
      rw [InlineTree.snd_add, h.size_eq]
    rw [hposition, h.callee_eq]
    unfold Outline.decideCall
    simp only
    generalize o.bodies = dss at hbodies
    generalize c.bodies = bodies at hbodies
    cases hbodies with
    | nil => exact .nil
    | cons hbody houter =>
      refine .cons ⟨?_, fun d hd => ?_, hbody.node⟩ houter
      · rw [List.map_cons, hbody.decisions_eq]
        rfl
      · rcases List.mem_cons.mp hd with rfl | hearlier
        · exact hlast
        · exact hbody.decided d hearlier
  · exact .add (fun p hp => h.admits_node hp) h.containing hn hchildren
  · obtain ⟨d, hd, hne⟩ := h.amiss i hi
    exact ⟨d, InlineTree.decision_of_prefix hprefix hd, hne⟩

/-- A method body opens. -/
theorem openBody (h : o.Follows c) (method : Option UInt64) :
    (o.openBody method).Follows (c.openBody method) := by
  have h : o.Follows c.touch := h.congr c.nodes_touch rfl rfl
  unfold Compiling.openBody Outline.openBody
  simp only
  generalize c.touch = c at h ⊢
  obtain ⟨hcallee, hsize, hbodies, hcontaining, hamiss⟩ := h
  generalize o.bodies = dss at hbodies ⊢
  cases hopened : c.bodies with
  | nil =>
    rw [hopened] at hbodies
    cases hbodies
    have hfirst : ∀ p ∈ (none : Option Nat), Admits c.task.tree o.amiss p := by simp
    cases c.names.known? method with
    | none => exact ⟨hcallee, hsize, .cons ⟨rfl, by simp, hfirst⟩ .nil, hcontaining, hamiss⟩
    | some known => exact ⟨hcallee, hsize, .cons ⟨rfl, by simp, hfirst⟩ .nil, hcontaining, hamiss⟩
  | cons body outer =>
    rw [hopened] at hbodies
    cases hbodies with
    | @cons _ ds _ _ hbody houter =>
      simp only
      rw [hbody.decisions_eq, takeDecision?_eq]
      cases hchosen : ds.find? fun d => d.callee = method with
      | none =>
        have hleft : (ds.eraseP fun d => d.callee = method) = ds :=
          List.eraseP_of_forall_not fun d hd => by
            simpa using List.find?_eq_none.mp hchosen d hd
        rw [hleft]
        exact ⟨hcallee, hsize, .cons ⟨rfl, by simp, hbody.node⟩ (.cons hbody houter), hcontaining,
          hamiss⟩
      | some d =>
        have hd := hbody.decided d (List.mem_of_find?_eq_some hchosen)
        have hgrown : o.amiss ⊆ d.amiss ++ o.amiss := List.subset_append_right _ _
        have hleft : Describes c.task.tree o.amiss { body with
            decisions := (ds.eraseP fun d => d.callee = method).map Decided.entry }
            (ds.eraseP fun d => d.callee = method) :=
          ⟨rfl, fun d hd => hbody.decided d (List.mem_of_mem_eraseP hd), hbody.node⟩
        refine ⟨hcallee, hsize, .cons ⟨rfl, by simp, fun p hp => ?_⟩
          (Describes.mono (.cons hleft houter) List.prefix_rfl hgrown),
          fun hn hchildren => (hcontaining hn hchildren).mono List.prefix_rfl hgrown,
          fun i hi => ?_⟩
        · obtain rfl := Option.some.inj hp
          exact .position hd
        · rcases List.mem_append.mp hi with hnew | hearlier
          · obtain ⟨rfl, hne⟩ := Decided.of_mem_amiss hnew
            exact ⟨d.decision, hd, hne⟩
          · exact hamiss i hearlier

/-- The innermost body closes. -/
theorem closeBody (h : o.Follows c) : (o.hear (.close .parseOpen)).Follows c.closeBody := by
  have h : o.Follows { c.closeBody with bodies := c.bodies, call := c.call } :=
    h.congr c.nodes_closeBody rfl rfl
  have hclosed : c.closeBody.bodies = c.bodies.tail ∧ c.closeBody.call = none := by
    unfold Compiling.closeBody
    split <;> simp [*, Compiling.onTask]
  refine ⟨by rw [hclosed.2]; rfl, h.size_eq, ?_, h.containing, h.amiss⟩
  rw [hclosed.1]
  have hbodies := h.bodies
  unfold hear
  simp only at hbodies ⊢
  generalize o.bodies = dss at hbodies
  generalize c.bodies = bodies at hbodies
  cases hbodies with
  | nil => exact .nil
  | cons _ houter => exact houter

/-- Another bytecode is reached. -/
theorem reach (h : o.Follows c) (opcode bci : Option UInt32) :
    (o.hear (.bytecode opcode bci)).Follows (c.reach bci) := by
  obtain ⟨_, hsize, hbodies, hcontaining, hamiss⟩ := h
  refine ⟨rfl, hsize, ?_, hcontaining, hamiss⟩
  unfold Compiling.reach hear
  simp only
  generalize o.bodies = dss at hbodies
  generalize c.bodies = bodies at hbodies
  cases hbodies with
  | nil => exact .nil
  | cons hbody houter =>
    exact .cons ⟨hbody.decisions_eq, hbody.decided, hbody.node⟩ houter

/-- Whatever an event says, the method bodies stay those of the outline. -/
theorem take (h : o.Follows c) (shape : Shape) (e : Event) :
    (o.hear e).Follows (c.take shape e) := by
  have hparses := c.parses_take shape e
  generalize c.take shape e = c' at hparses
  cases hparses with
  | decides he reason =>
    rw [o.hear_of_decision? he]
    exact h.decideCall _ reason
  | opens method stamp => exact h.openBody method
  | closes => exact h.closeBody
  | reaches opcode bci => exact h.reach opcode bci
  | calls method count inlineFlag =>
    exact ⟨rfl, h.size_eq, h.bodies, h.containing, h.amiss⟩
  | passes he hnodes hbodies hcall =>
    rw [o.hear_of_not_isOfBodies he]
    exact h.congr hnodes hbodies hcall

end Follows

end Outline

/-! ### All that a collector is given -/

/-- The outline of the method bodies that a task was told. -/
def outline (told : List LogEvent) : Outline := told.foldl (fun o e => o.hear e.event) .empty

/-- One more event is told. -/
theorem outline_append (told : List LogEvent) (e : LogEvent) :
    outline (told ++ [e]) = (outline told).hear e.event :=
  List.foldl_append

/-- The task under way follows the outline of what it was told. -/
def OutlineKept (told : List LogEvent) (a : Compiling) : Prop := (outline told).Follows a

/-- Each way of telling the task under way more keeps to the outline. -/
theorem OutlineKept.listener : Listener Unparsed OutlineKept where
  begun {e} {facts} {t} _ thread he hflags htaken := by
    have hbegun := (Unparsed.of_taken htaken).annotated (.beginTask facts thread hflags t)
    have hempty : outline [e] = .empty := by simp [outline, he, Outline.hear]
    unfold OutlineKept
    rw [hempty]
    exact .start hbegun.nodes_eq
  noted hf h := h.congr (Task.Annotated.told hf _).nodes_eq rfl rfl
  heard _ hflags h := by
    unfold OutlineKept
    rw [outline_append]
    refine Outline.Follows.take ?_ _ _
    exact h.congr (Task.Annotated.withFlags hflags _).nodes_eq rfl rfl
  framed he h := by
    unfold OutlineKept
    rw [outline_append, he]
    exact h.congr rfl rfl rfl

/-- Call sites are put under those that were inlined, and under those that were not inlined but for
which the log told a body nevertheless. -/
structure KeptUnderInlined (told : List LogEvent) (t : InlineTree) : Prop where
  /-- A call site that contains others was inlined, or a body was told for it nevertheless. -/
  inlined : ∀ {i n}, t.node? i = some n → n.children ≠ [] → n.site.decision = .inlined ∨
    i ∈ (outline told).amiss
  /-- Where a body was told nevertheless, there is a call site that was not inlined. -/
  amiss : ∀ i ∈ (outline told).amiss, ∃ n, t.node? i = some n ∧ n.site.decision ≠ .inlined

/-- A task is handed over as it followed the outline. -/
theorem Outline.Follows.leaves {told : List LogEvent} {a : Compiling}
    (h : (outline told).Follows a) {t : Task} (ht : LeavesAs a t) :
    KeptUnderInlined told t.tree := by
  have hnode : ∀ i, t.tree.node? i = a.task.tree.node? i := fun i => by
    unfold InlineTree.node?
    rw [ht.nodes_eq]
  refine ⟨fun {i} {n} hn hchildren => ?_, fun i hi => ?_⟩
  · rw [hnode] at hn
    refine (h.containing hn hchildren).imp_left fun hinlined => ?_
    rw [InlineTree.getElem?_decisions, hn] at hinlined
    exact Option.some.inj hinlined
  · obtain ⟨d, hd, hne⟩ := h.amiss i hi
    rw [InlineTree.getElem?_decisions] at hd
    obtain ⟨n, hn, rfl⟩ := Option.map_eq_some_iff.mp hd
    exact ⟨n, (hnode i).trans hn, hne⟩

namespace Collector

/-- Whatever a collector is given, the task that was under way is handed over with calls only under
call sites that were inlined and under those, not inlined, for which the log told a body
nevertheless; a task that never began has none at all. -/
theorem calls_under_inlined (retain : Bool) (inputs : List Input) (input : Input) :
    ∃ (mine : Option Task) (others : List Task),
      tasksOf ((feed retain inputs).1.give input).2 = mine.toList ++ others ∧
      (∀ t ∈ others, t.tree.nodes = #[]) ∧
      Option.Rel (fun told t => KeptUnderInlined told t.tree)
        (if input.endsTask then (transcript inputs).told else none) mine := by
  have hattends := OutlineKept.listener.attends_feed Unparsed.custody retain inputs
  obtain ⟨mine, others, hsplit, hothers, hmine⟩ :=
    (OutlineKept.listener.attends_give Unparsed.custody hattends input).2
  refine ⟨mine, others, hsplit, fun t ht => (hothers t ht).nodes_eq, ?_⟩
  generalize (if input.endsTask then (transcript inputs).told else none) = told at hmine ⊢
  cases hmine with
  | none => exact .none
  | some hleaves =>
    obtain ⟨a, hkept, hleft⟩ := hleaves
    exact .some (hkept.leaves hleft)

/-- A body is taken for that of a call that was not inlined, and the calls in it are put under that
call site. -/
theorem call_under_rejected :
    let log := Text.Utf8.encode ("<task compile_id='1' method='A a ()V'><parse method='1'>" ++
      "<call method='2'/><inline_fail reason='too big'/>" ++
      "<parse method='2'><call method='3'/><inline_success/></parse></parse>" ++
      "<task_done/></task>")
    let events := (Markup.read .never log).fragments.map (decode .builtin)
    (tasksOf (collect false events).2).map (fun t => t.tree.nodes.toList.map fun n =>
        (n.site.decision, n.children)) = [[(.notInlined, [1]), (.inlined, [])]] ∧
      (outline events).amiss = [0] := by
  decide +kernel

end Collector

end Collect

end CompileLog
