import CompileLog.Event.Decode
import CompileLog.Markup.Reading
import CompileLog.Proofs.Collect.Holding

/-!
# Telling more of a task

The event that queues a task, the one that begins it and the one that installs its code may all
tell the same things of it, and each may leave any of them out. What is known already is not
forgotten. Only the kind that an event names takes the place of the kind before, and the record of
installed code, which is taken over as a whole.
-/

namespace CompileLog

open Collect

/-- What the event of its installation tells of code: everything but its bytes, with their base and
anchors, and its listing. -/
def NativeCode.installation (n : NativeCode) : NativeCode :=
  { n with base := 0, code := [], anchors := [], listing := none }

/-- What the event of their installation told of the code of a task. -/
def Task.installation (t : Task) : NativeCode := (t.native.getD .unknown).installation

/-- What was known of one task is known of the other. -/
structure Task.Recalls (t t' : Task) : Prop where
  /-- The size of the method. -/
  bytecodeSize : t.bytecodeSize.isSome = true → t'.bytecodeSize.isSome = true
  /-- The tier. -/
  level : t.level.isSome = true → t'.level.isSome = true
  /-- The compiler. -/
  compiler : t.compiler.isSome = true → t'.compiler.isSome = true
  /-- The calls. -/
  invocations : t.hotness.invocations.isSome = true → t'.hotness.invocations.isSome = true
  /-- The backward jumps. -/
  backedges : t.hotness.backedges.isSome = true → t'.hotness.backedges.isSome = true
  /-- The interpreted calls. -/
  interpreted : t.hotness.interpreted.isSome = true → t'.hotness.interpreted.isSome = true
  /-- When it was queued. -/
  queuedAt : t.queuedAt.isSome = true → t'.queuedAt.isSome = true
  /-- When it began. -/
  startedAt : t.startedAt.isSome = true → t'.startedAt.isSome = true
  /-- The size of the machine code. -/
  nativeSize : t.nativeSize.isSome = true → t'.nativeSize.isSome = true

namespace Collect

/-- The task that an event names which queues it, begins it or installs its code. -/
def named? : Event → Option UInt64
  | .taskQueued facts | .taskStart facts => facts.compileId
  | .nmethod facts => facts.compileId
  | _ => none

/-- The kind that such an event names. Installed code is of the usual kind unless it is told
otherwise. -/
def kindTold : Event → Option CompileKind
  | .taskQueued facts | .taskStart facts =>
    if facts.compileKind.isSome || facts.osrBci.isSome then
      some (.ofLog facts.compileKind facts.osrBci)
    else none
  | .nmethod facts =>
    if CompileKind.ofLog facts.compileKind none = .standard then none
    else some (.ofLog facts.compileKind none)
  | _ => none

/-- The record of installed code that such an event gives. -/
def installationTold : Event → Option NativeCode
  | .nmethod facts => some (Collector.nativeOf facts).installation
  | _ => none

end Collect

/-- A task took in what an event tells. -/
structure Task.TakesIn (e : Event) (t t' : Task) : Prop where
  /-- It has its number. -/
  compileId_eq : t'.compileId = t.compileId
  /-- What was known is known. -/
  recalls : t.Recalls t'
  /-- Its kind is that of before or the one told. -/
  kind_or : t'.kind = t.kind ∨ kindTold e = some t'.kind
  /-- The record of its code is that of before or the one told. -/
  installation_or : t'.installation = t.installation ∨ installationTold e = some t'.installation

namespace Task.TakesIn

variable {e : Event} {t t' t'' : Task}

/-- A task that only has another method, tree, thread or other flags. -/
theorem of_rest (t : Task) (method : Method) (tree : InlineTree) (thread : Option String)
    (flags : List TaskFlag) : t.TakesIn e { t with method, tree, thread, flags } :=
  ⟨rfl, ⟨id, id, id, id, id, id, id, id, id⟩, .inl rfl, .inl rfl⟩

/-- A task that only has other flags. -/
theorem of_flags (t : Task) (flags : List TaskFlag) : t.TakesIn e { t with flags } :=
  of_rest t t.method t.tree t.thread flags

/-- Nothing was taken in. -/
theorem refl (t : Task) : t.TakesIn e t := of_flags t t.flags

/-- Something was taken in, and then more. -/
theorem trans (h : t.TakesIn e t') (h' : t'.TakesIn e t'') : t.TakesIn e t'' := by
  obtain ⟨hnumber, hrecalls, hkind, hcode⟩ := h
  obtain ⟨hnumber', hrecalls', hkind', hcode'⟩ := h'
  refine ⟨hnumber'.trans hnumber, ?_, ?_, ?_⟩
  · constructor
    · exact hrecalls'.bytecodeSize ∘ hrecalls.bytecodeSize
    · exact hrecalls'.level ∘ hrecalls.level
    · exact hrecalls'.compiler ∘ hrecalls.compiler
    · exact hrecalls'.invocations ∘ hrecalls.invocations
    · exact hrecalls'.backedges ∘ hrecalls.backedges
    · exact hrecalls'.interpreted ∘ hrecalls.interpreted
    · exact hrecalls'.queuedAt ∘ hrecalls.queuedAt
    · exact hrecalls'.startedAt ∘ hrecalls.startedAt
    · exact hrecalls'.nativeSize ∘ hrecalls.nativeSize
  · rcases hkind' with heq | htold
    · rw [heq]
      exact hkind
    · exact .inr htold
  · rcases hcode' with heq | htold
    · rw [heq]
      exact hcode
    · exact .inr htold

/-- Noting flags. -/
theorem withFlags (flags : List TaskFlag) (t : Task) :
    t.TakesIn e (Collector.withFlags flags t) := by
  obtain ⟨flags', heq, -⟩ := Collector.withFlags_eq flags t
  rw [heq]
  exact of_flags t flags'

/-- Noting that the method is not known. -/
theorem flagUnresolved (t : Task) : t.TakesIn e (Collector.flagUnresolved t) := by
  unfold Collector.flagUnresolved Task.flag
  split_ifs
  · exact refl t
  · exact of_flags t _
  · exact refl t

/-- A printed listing tells nothing of the installation. -/
theorem attachListing (l : Listing) (t : Task) : t.TakesIn e (t.attachListing l) := by
  unfold Task.attachListing
  cases hattached : (t.native.getD .unknown).attachListing l with
  | error error =>
    simp only
    unfold Task.flag
    split
    · exact refl t
    · exact of_flags t _
  | ok native =>
    refine ⟨rfl, ⟨id, id, id, id, id, id, id, id, id⟩, .inl rfl, .inl ?_⟩
    unfold NativeCode.attachListing at hattached
    split at hattached
    · cases hattached
    · obtain rfl := Except.ok.inj hattached
      rfl

/-- Nor does one that may not be kept. -/
theorem addListing (retain : Bool) (l : Listing) (t : Task) :
    t.TakesIn e (Collector.addListing retain l t) := by
  have hdropped : ∀ t : Task, t.TakesIn e
      { t with native := t.native.map fun n => { n with listing := none } } := by
    intro t
    refine ⟨rfl, ⟨id, id, id, id, id, id, id, id, id⟩, .inl rfl, .inl ?_⟩
    unfold Task.installation
    cases t.native <;> rfl
  unfold Collector.addListing
  cases retain
  · exact (attachListing l t).trans (hdropped _)
  · exact attachListing l t

/-- What is told where a task is queued or begins. -/
theorem applyFacts {facts : TaskFacts} (hkind : kindTold e =
    if facts.compileKind.isSome || facts.osrBci.isSome then
      some (.ofLog facts.compileKind facts.osrBci) else none) (t : Task) :
    t.TakesIn e (Collector.applyFacts facts t) := by
  refine ⟨rfl, ⟨?_, ?_, id, ?_, ?_, ?_, id, id, id⟩, ?_, .inl rfl⟩
  · exact fun h => by simp [Collector.applyFacts, h]
  · exact fun h => by simp [Collector.applyFacts, h]
  · exact fun h => by simp [Collector.applyFacts, h]
  · exact fun h => by simp [Collector.applyFacts, h]
  · exact fun h => by simp [Collector.applyFacts, h]
  · rw [hkind]
    unfold Collector.applyFacts
    simp only
    split
    · exact .inr rfl
    · exact .inl rfl

/-- A task that is queued. -/
theorem noteQueued (facts : TaskFacts) (flags : List TaskFlag) (t : Task) :
    t.TakesIn (.taskQueued facts) (Collector.noteQueued facts flags t) := by
  have hqueued : (Collector.applyFacts facts t).TakesIn (.taskQueued facts)
      { Collector.applyFacts facts t with
        queuedAt := (Collector.applyFacts facts t).queuedAt.or facts.stamp } :=
    ⟨rfl, ⟨id, id, id, id, id, id, fun h => by simp [h], id, id⟩, .inl rfl, .inl rfl⟩
  exact (applyFacts rfl t).trans (hqueued.trans (withFlags flags _))

/-- A task that begins. -/
theorem beginTask (facts : TaskFacts) (thread : Option String) (flags : List TaskFlag)
    (t : Task) : t.TakesIn (.taskStart facts) (Collector.beginTask facts thread flags t) := by
  have hnamed : t.TakesIn (.taskStart facts) { t with method := facts.method.getD t.method } :=
    of_rest t _ t.tree t.thread t.flags
  have hstarted : ∀ t : Task, t.TakesIn (.taskStart facts)
      { t with startedAt := facts.stamp.or t.startedAt, thread } := fun t =>
    ⟨rfl, ⟨id, id, id, id, id, id, id, fun h => by simp [h], id⟩, .inl rfl, .inl rfl⟩
  have hrooted : ∀ t : Task, t.TakesIn (.taskStart facts)
      { t with tree := t.tree.withRoot t.method t.bytecodeSize } := fun t =>
    of_rest t t.method _ t.thread t.flags
  unfold Collector.beginTask
  refine hnamed.trans ((applyFacts rfl _).trans ?_)
  refine (hstarted _).trans ((flagUnresolved _).trans ?_)
  exact (hrooted _).trans (withFlags flags _)

/-- A task whose code is installed. -/
theorem install (facts : NativeFacts) (flags : List TaskFlag) (t : Task) :
    t.TakesIn (.nmethod facts) (Collector.install facts flags t) := by
  let kind := CompileKind.ofLog facts.compileKind none
  have hinstalled : ∀ t : Task, t.TakesIn (.nmethod facts)
      (Task.attachNative { t with
        level := t.level.or facts.level
        compiler := t.compiler.or facts.compiler
        kind := if kind = CompileKind.standard then t.kind else kind }
        (Collector.nativeOf facts)) := by
    intro t
    refine ⟨rfl, ⟨id, ?_, ?_, id, id, id, id, id, ?_⟩, ?_, .inr ?_⟩
    · exact fun h => by simp [Task.attachNative, h]
    · exact fun h => by simp [Task.attachNative, h]
    · exact fun h => by simp [Task.attachNative, h]
    · unfold kindTold Task.attachNative
      simp only
      split_ifs with hstandard
      · exact .inl rfl
      · exact .inr rfl
    · unfold installationTold Task.installation Task.attachNative
      cases t.native <;> rfl
  unfold Collector.install
  split
  · have hnamed : ∀ method, t.TakesIn (.nmethod facts)
        { t with method, tree := t.tree.withRoot method t.bytecodeSize } := fun method =>
      of_rest t method _ t.thread t.flags
    exact (hnamed _).trans ((hinstalled _).trans (withFlags flags _))
  · exact (hinstalled t).trans (withFlags flags _)

end Task.TakesIn

namespace Collect.Collector

variable {c : Collector} {e : Event} {id : UInt64} {t t' : Task}

/-! ### The task that an event names -/

/-- What is held of a number gives the open task with it. -/
theorem openTask?_eq_of_holding {c c' : Collector} (h : c'.holding id = c.holding id) :
    c'.openTask? id = c.openTask? id :=
  congrArg (fun h : Holding => h.active.or h.waiting) h

/-- A task that is put back is open. -/
theorem openTask?_putTask (hopen : c.openTask? id = some t)
    (hnumber : t'.compileId = t.compileId) : (c.putTask id t').openTask? id = some t' := by
  obtain ⟨a, _, rfl, hid, heq⟩ | ⟨hactive, _, heq⟩ := putTask_cases hopen t'
  · rw [heq]
    unfold openTask?
    rw [activeWith?_of_active (a := { a with task := t' }) rfl, if_pos (hnumber.trans hid)]
    rfl
  · have hstill : Collector.activeWith? { c with waiting := c.waiting.insert id t' } id = none :=
      hactive
    rw [heq]
    unfold openTask?
    rw [hstill, KeyMap.get?_insert, if_pos rfl]
    rfl

/-- A task that is put back leaves those with other numbers alone. -/
theorem openTask?_putTask_of_ne {id' : UInt64} (hne : id' ≠ id)
    (hopen : c.openTask? id' = some t) (hnumber : t'.compileId = t.compileId) :
    (c.putTask id' t').openTask? id = c.openTask? id := by
  refine openTask?_eq_of_holding (c.holding_putTask_of_ne hne fun hactive => ?_)
  obtain ⟨a, ha⟩ := Option.isSome_iff_exists.mp hactive
  obtain rfl : a.task = t := by simpa [openTask?, ha] using hopen
  exact hnumber.trans (compileId_of_activeWith? ha).2

/-- Whatever is told of an open task, it stays open. -/
theorem openTask?_onTask (hopen : c.openTask? id = some t) (method : Option Method)
    {f : Task → Task} (hnumber : (f t).compileId = t.compileId) :
    (c.onTask id method f).openTask? id = some (f t) := by
  unfold onTask
  rw [hopen]
  exact openTask?_putTask hopen hnumber

/-- An open task stays open, and may take in what an event tells. -/
def StaysOpen (e : Event) (id : UInt64) (t : Task) (c : Collector) : Prop :=
  ∃ t', c.openTask? id = some t' ∧ t.TakesIn e t'

/-- A listing is placed. -/
theorem StaysOpen.placeListing (h : c.StaysOpen e id t) (l : Listing) :
    (c.placeListing l).1.StaysOpen e id t := by
  obtain ⟨t', hopen, htakes⟩ := h
  unfold Collector.placeListing
  split
  · exact ⟨t', hopen, htakes⟩
  · next id' _ =>
    cases hlisted : c.openTask? id' with
    | none => exact ⟨t', hopen, htakes⟩
    | some other =>
      simp only
      have hadded := Task.TakesIn.addListing (e := e) c.retainListings l other
      by_cases hne : id' = id
      · subst hne
        obtain rfl := Option.some.inj (hopen.symm.trans hlisted)
        exact ⟨_, openTask?_putTask hopen hadded.compileId_eq, htakes.trans hadded⟩
      · refine ⟨t', ?_, htakes⟩
        rw [openTask?_putTask_of_ne hne hlisted hadded.compileId_eq]
        exact hopen

/-- What is printed is read before an event. -/
theorem StaysOpen.flushBefore (h : c.StaysOpen e id t) (e' : Event) :
    (c.flushBefore e').1.StaysOpen e id t := by
  unfold Collector.flushBefore
  split
  · exact h
  · exact each_preserves (P := StaysOpen e id t) (fun c l h => h.placeListing l)
      (c := { c with printed := "" }) h (listingsOf c.printed)

/-- An open task that is queued takes in what is told. -/
theorem StaysOpen.queueTask {facts : TaskFacts} (hid : facts.compileId = some id)
    (h : c.StaysOpen (.taskQueued facts) id t) (flags : List TaskFlag) :
    (c.queueTask facts flags).StaysOpen (.taskQueued facts) id t := by
  obtain ⟨t', hopen, htakes⟩ := h
  unfold Collector.queueTask
  rw [hid]
  simp only
  split
  · exact ⟨t', hopen, htakes⟩
  · have hqueued := Task.TakesIn.noteQueued facts flags t'
    exact ⟨_, openTask?_onTask hopen facts.method hqueued.compileId_eq, htakes.trans hqueued⟩

/-- An open task whose code is installed takes in what is told, unless a task with its number was
handed over before. -/
theorem StaysOpen.installCode {facts : NativeFacts} (hid : facts.compileId = some id)
    (h : c.StaysOpen (.nmethod facts) id t) (flags : List TaskFlag) :
    (c.installCode facts flags).1.StaysOpen (.nmethod facts) id t := by
  obtain ⟨t', hopen, htakes⟩ := h
  obtain ⟨addresses, heq⟩ := c.installCode_eq hid flags
  have hopen' : Collector.openTask? { c with addresses } id = some t' := hopen
  rw [heq]
  split_ifs with hhanded hbridge
  · exact ⟨t', hopen', htakes⟩
  · rw [hopen'] at hbridge
    simp at hbridge
  · have hinstalled := Task.TakesIn.install facts flags t'
    exact ⟨_, openTask?_onTask hopen' facts.method hinstalled.compileId_eq,
      htakes.trans hinstalled⟩

/-- A task that waits and begins takes in what is told. -/
theorem StaysOpen.startTask {facts : TaskFacts} (hid : facts.compileId = some id)
    (h : c.StaysOpen (.taskStart facts) id t) (flags : List TaskFlag)
    (hopen' : (c.startTask facts flags).1.openTask? id = some t')
    (hstays : ∀ h ∈ tasksOf (c.startTask facts flags).2, h.compileId ≠ id) :
    t.TakesIn (.taskStart facts) t' := by
  obtain ⟨before, hopen, htakes⟩ := h
  have hhanded : (c.startTask facts flags).2 = c.abandonActive.2 := rfl
  cases hactive : c.activeWith? id with
  | some a =>
    -- The task under way would be cut short.
    obtain ⟨hunderway, hnumber⟩ := compileId_of_activeWith? hactive
    refine absurd ?_ (hstays (flagMisplaced (cutShort a.task)) ?_)
    · rw [(Task.Becomes.flagMisplaced _).compileId_eq, (Task.Becomes.cutShort _).compileId_eq,
        hnumber]
    · rw [hhanded]
      unfold abandonActive
      rw [hunderway]
      exact List.mem_singleton_self _
  | none =>
    have hwaits : c.abandonActive.1.waiting.get? id = some before := by
      rw [waiting_abandonActive c]
      simpa [openTask?, hactive] using hopen
    have htaken : c.abandonActive.1.takeWaiting id =
        ({ c.abandonActive.1 with waiting := c.abandonActive.1.waiting.erase id },
          { before with flags := before.flags.filter fun f => f ≠ .implicitlyOpened }) := by
      unfold takeWaiting
      rw [hwaits]
    unfold Collector.startTask at hopen'
    simp only [hid, Option.isNone_some, Bool.false_eq_true, if_false, Option.getD_some,
      htaken] at hopen'
    unfold openTask? at hopen'
    rw [activeWith?_of_active rfl, KeyMap.get?_erase, if_pos rfl, Option.or_none] at hopen'
    obtain ⟨a, ha, rfl⟩ := Option.map_eq_some_iff.mp hopen'
    split at ha
    · obtain rfl := Option.some.inj ha
      exact htakes.trans ((Task.TakesIn.of_flags before _).trans
        (Task.TakesIn.beginTask facts _ flags _))
    · cases ha

/-- Telling more of a task forgets nothing. An event that queues an open task, begins it or
installs its code, and leaves it open, keeps known what was known of it. A bytecode index at which
the task enters gives way to none only where the event itself names such a kind without one. The
record of its installed code stays as it is, unless the event is of installed code, whose record
takes its place as a whole. -/
theorem merging_keeps_known (c : Collector) (e : LogEvent) {id : UInt64} {t t' : Task}
    (hnames : named? e.event = some id) (hopen : c.openTask? id = some t)
    (hopen' : (c.accept e).1.openTask? id = some t')
    (hstays : ∀ h ∈ tasksOf (c.accept e).2, h.compileId ≠ id) :
    t.Recalls t' ∧
      (∀ bci, t.kind = .osr (some bci) → t'.kind = .osr none →
        kindTold e.event = some (.osr none)) ∧
      (t'.installation = t.installation ∨ installationTold e.event = some t'.installation) := by
  have htakes : t.TakesIn e.event t' := by
    have hflushed : (c.flushBefore e.event).1.StaysOpen e.event id t :=
      StaysOpen.flushBefore ⟨t, hopen, .refl t⟩ e.event
    have hcounted : StaysOpen e.event id t ((c.flushBefore e.event).1.count fun n =>
        { n with unreadAttributes := n.unreadAttributes + e.unread.length }) := hflushed
    unfold accept at hopen' hstays
    simp only [tasksOf_append, tasksOf_flushBefore, List.nil_append] at hopen' hstays
    generalize (c.flushBefore e.event).1.count _ = before at hcounted hopen' hstays
    -- The same task is open before the event and after it, so there is one that took it in.
    have hsame : before.StaysOpen e.event id t →
        (before.take e.shape (unreadFlags e) e.event).1.StaysOpen e.event id t →
        t.TakesIn e.event t' := by
      rintro - ⟨after, hafter, htakes⟩
      obtain rfl := Option.some.inj (hafter.symm.trans hopen')
      exact htakes
    cases hevent : e.event with
    | taskQueued facts =>
      rw [hevent] at hnames hcounted hsame
      exact hsame hcounted (hcounted.queueTask hnames (unreadFlags e))
    | taskStart facts =>
      rw [hevent] at hnames hcounted hopen' hstays
      exact hcounted.startTask hnames (unreadFlags e) hopen' hstays
    | nmethod facts =>
      rw [hevent] at hnames hcounted hsame
      exact hsame hcounted (hcounted.installCode hnames (unreadFlags e))
    | _ =>
      rw [hevent] at hnames
      cases hnames
  refine ⟨htakes.recalls, fun bci hbefore hafter => ?_, htakes.installation_or⟩
  rcases htakes.kind_or with heq | htold
  · rw [hbefore, hafter] at heq
    cases heq
  · rw [htold, hafter]

/-- What was told where a task was queued is known after its start, which tells nothing but its
method: its size, its tier, and the index at which it enters. -/
theorem merging_keeps_known_queued :
    let read (text : String) :=
      (Markup.read .never (Text.Utf8.encode text)).fragments.map (decode .builtin)
    let queued := read "<task_queued compile_id='7' bytes='20' level='4' osr_bci='5'/>"
    let c := ((start false).acceptAll queued).1
    ∀ e ∈ read "<task compile_id='7' method='A a ()V'/>", ∃ t t',
      c.openTask? 7 = some t ∧ (c.accept e).1.openTask? 7 = some t' ∧
      t.bytecodeSize.isSome = true ∧ t'.bytecodeSize.isSome = true ∧
      t.kind = .osr (some 5) ∧ t'.kind ≠ .osr none := by
  intro read queued c e he
  have hopen : ∃ t, c.openTask? 7 = some t ∧ t.bytecodeSize.isSome = true ∧
      t.kind = .osr (some 5) := by
    refine ⟨(c.openTask? 7).getD default, ?_⟩
    decide +kernel
  have hafter : ∀ e ∈ read "<task compile_id='7' method='A a ()V'/>",
      named? e.event = some 7 ∧ kindTold e.event = none ∧
      ((c.accept e).1.openTask? 7).isSome = true ∧ tasksOf (c.accept e).2 = [] := by
    decide +kernel
  obtain ⟨hnames, hkind, hopen', hnone⟩ := hafter e he
  obtain ⟨t, ht, hsize, hosr⟩ := hopen
  obtain ⟨t', ht'⟩ := Option.isSome_iff_exists.mp hopen'
  obtain ⟨hrecalls, hbci, -⟩ := merging_keeps_known c e hnames ht ht' (by simp [hnone])
  refine ⟨t, t', ht, ht', hsize, hrecalls.bytecodeSize hsize, hosr, fun hforgot => ?_⟩
  have htold := hbci 5 hosr hforgot
  rw [hkind] at htold
  cases htold

/-- The record of installed code is taken over as a whole: the address that one event told of the
code of an open task is forgotten when another one tells none. -/
theorem address_forgotten_by_second_record :
    let log := Text.Utf8.encode "<nmethod compile_id='1' address='0x10'/><nmethod compile_id='1'/>"
    let events := (Markup.read .never log).fragments.map (decode .builtin)
    let address (c : Collector) :=
      (c.openTask? 1).map fun t => t.native.bind NativeCode.address
    address ((start false).acceptAll (events.take 1)).1 = some (some 16) ∧
      address ((start false).acceptAll (events.take 2)).1 = some none ∧
      tasksOf ((start false).acceptAll (events.take 2)).2 = [] ∧
      events.map (fun e => named? e.event) = [some 1, some 1] := by
  decide +kernel

end Collect.Collector

end CompileLog
