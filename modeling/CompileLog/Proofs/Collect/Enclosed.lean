import CompileLog.Proofs.Collect.Transcript
import CompileLog.Proofs.Markup.Nesting

/-!
# The element of the task under way

A task is under way from its start tag on until an event ends it. While it is, its element is still
open where the log is read, with two exceptions: an element without content begins a task as well,
and where an element around it closes, the task's element closes with it and no event tells so.
-/

namespace CompileLog.Collect

open Markup

/-! ### Fragments and the events they give -/

/-- Only a tag of that kind tells that a task begins. -/
theorem taskStart_of_ofTag {vocabulary : Vocabulary} {name : String}
    {attributes : List (String × String)} {facts : TaskFacts}
    (h : (Event.ofTag vocabulary name attributes).1 = .taskStart facts) :
    vocabulary.kindOf name = some .taskStart := by
  unfold Event.ofTag at h
  unfold Vocabulary.kindOf
  cases htag : vocabulary.tags.get? name with
  | none =>
    rw [htag] at h
    cases h
  | some meaning =>
    rw [htag] at h
    have hkind : ∀ (kind : EventKind) (v : AttrValues),
        Event.ofValues kind v = .taskStart facts → kind = .taskStart := by
      intro kind v hvalues
      cases kind <;> first | rfl | cases hvalues
    rw [Option.map_some, hkind _ _ h]

/-- Where a fragment tells that a task begins, it is a tag of that kind. -/
theorem tag_of_taskStart {vocabulary : Vocabulary} {f : Fragment} {facts : TaskFacts}
    (h : (decode vocabulary f).event = .taskStart facts) :
    vocabulary.kindOf f.name = some .taskStart ∧
      (f.isEmpty = true ∨ ∃ attributes, f.content = .opening f.name attributes) := by
  obtain ⟨content, depth, parent, position⟩ := f
  cases content with
  | opening name attributes => exact ⟨taskStart_of_ofTag h, .inr ⟨attributes, rfl⟩⟩
  | empty name attributes => exact ⟨taskStart_of_ofTag h, .inl rfl⟩
  | closing name =>
    unfold decode at h
    simp only at h
    split at h <;> cases h
  | text text =>
    unfold decode Event.ofText at h
    simp only at h
    split at h
    · cases h
    · cases h
    · split at h <;> cases h

/-- An end tag tells that an element of its kind ends. -/
theorem event_of_closing {vocabulary : Vocabulary} {g : Fragment} {name : String}
    (hcontent : g.content = .closing name) {kind : EventKind}
    (hkind : vocabulary.kindOf name = some kind) : (decode vocabulary g).event = .close kind := by
  unfold decode
  rw [hcontent]
  simp only
  rw [hkind]

/-! ### The open elements -/

/-- An end tag that is not of the same name leaves a start tag open, or closes one around it. -/
theorem openAfter_closing {inner outer : List Fragment} {f g : Fragment} {name : String}
    (hcontent : g.content = .closing name) (hname : f.name ≠ name) :
    (∃ inner', openAfter (inner ++ f :: outer) g = inner' ++ f :: outer) ∨
      (openAfter (inner ++ f :: outer) g).length < outer.length := by
  have hother : f.isNamed name = false := by simp [Fragment.isNamed, hname]
  unfold openAfter
  rw [hcontent]
  simp only
  rw [List.dropWhile_append]
  cases hinner : inner.dropWhile fun g => !g.isNamed name with
  | cons h rest => exact .inl ⟨rest, rfl⟩
  | nil =>
    rw [List.isEmpty_nil, if_pos rfl, List.dropWhile_cons, hother]
    simp only [Bool.not_false, if_true]
    cases houter : outer.dropWhile fun g => !g.isNamed name with
    | nil => exact .inl ⟨inner, rfl⟩
    | cons h rest =>
      right
      have hlength := (List.dropWhile_suffix (l := outer) fun g => !g.isNamed name).length_le
      rw [houter, List.length_cons] at hlength
      exact hlength

/-- The start tag of a task stays open while no event ends the task, unless an element around it
closes. By induction on what is read since. -/
theorem open_or_closed_around {vocabulary : Vocabulary} {f : Fragment} {outer : List Fragment}
    (hname : vocabulary.kindOf f.name = some .taskStart) {since inner : List Fragment}
    (hplaced : Placed (inner ++ f :: outer) since)
    (hquiet : ∀ g ∈ since, endsTask (decode vocabulary g).event = false) :
    (∃ inner', since.foldl openAfter (inner ++ f :: outer) = inner' ++ f :: outer) ∨
      ∃ g ∈ since, g.isClosing = true ∧ g.depth < outer.length := by
  induction since generalizing inner with
  | nil => exact .inl ⟨inner, rfl⟩
  | cons g rest ih =>
    obtain ⟨hdepth, hrest⟩ := hplaced
    have hquiet' : ∀ g ∈ rest, endsTask (decode vocabulary g).event = false :=
      fun g hg => hquiet g (List.mem_cons_of_mem _ hg)
    have hstill : ∀ inner', openAfter (inner ++ f :: outer) g = inner' ++ f :: outer →
        (∃ inner', (g :: rest).foldl openAfter (inner ++ f :: outer) = inner' ++ f :: outer) ∨
          ∃ h ∈ g :: rest, h.isClosing = true ∧ h.depth < outer.length := by
      intro inner' heq
      rw [heq] at hrest
      rcases ih hrest hquiet' with ⟨last, hlast⟩ | ⟨h, hmem, hclosed⟩
      · exact .inl ⟨last, by rw [List.foldl_cons, heq, hlast]⟩
      · exact .inr ⟨h, List.mem_cons_of_mem _ hmem, hclosed⟩
    cases hcontent : g.content with
    | opening name attributes => exact hstill (g :: inner) (by simp [openAfter, hcontent])
    | empty name attributes => exact hstill inner (by simp [openAfter, hcontent])
    | text text => exact hstill inner (by simp [openAfter, hcontent])
    | closing name =>
      have hother : f.name ≠ name := by
        rintro rfl
        have hends := hquiet g List.mem_cons_self
        rw [event_of_closing hcontent hname] at hends
        cases hends
      rcases openAfter_closing hcontent hother with ⟨inner', heq⟩ | hclosed
      · exact hstill inner' heq
      · have hclosing : g.isClosing = true := by simp [Fragment.isClosing, hcontent]
        rw [if_pos hclosing] at hdepth
        exact .inr ⟨g, List.mem_cons_self, hclosing, hdepth ▸ hclosed⟩

/-! ### The task under way -/

/-- The task under way has the number told where it began. -/
def NumberedAsBegun (told : List LogEvent) (a : Compiling) : Prop :=
  ∃ e facts, told.head? = some e ∧ e.event = .taskStart facts ∧
    a.task.compileId = facts.compileId.getD Collector.noId

/-- However more is told of it, the task under way keeps its number. -/
theorem NumberedAsBegun.listener : Listener Unparsed NumberedAsBegun where
  begun thread he hflags htaken :=
    ⟨_, _, rfl, he, ((Unparsed.of_taken htaken).annotated
      (.beginTask _ thread hflags _)).compileId_eq⟩
  noted hf h := by
    obtain ⟨e, facts, hhead, he, hnumber⟩ := h
    exact ⟨e, facts, hhead, he, (Task.Annotated.told hf _).compileId_eq.trans hnumber⟩
  heard _ hflags h := by
    obtain ⟨e, facts, hhead, he, hnumber⟩ := h
    refine ⟨e, facts, by simp [hhead], he, ?_⟩
    rw [(Compiling.becomes_take _ _ _).compileId_eq]
    exact (Task.Annotated.withFlags hflags _).compileId_eq.trans hnumber
  framed _ h := by
    obtain ⟨e, facts, hhead, he, hnumber⟩ := h
    exact ⟨e, facts, by simp [hhead], he, hnumber⟩

/-- A fragment began the task under way, and none since begins or ends one. -/
structure BegunAt (vocabulary : Vocabulary) (a : Compiling) (f : Fragment)
    (since : List Fragment) : Prop where
  /-- The fragment tells that a task begins, with the number that the task has. -/
  begins : ∃ facts, (decode vocabulary f).event = .taskStart facts ∧
    a.task.compileId = facts.compileId.getD Collector.noId
  /-- No fragment since begins or ends a task. -/
  quiet : ∀ g ∈ since, endsTask (decode vocabulary g).event = false

namespace Collector

/-- Where a task is under way, one of the fragments read began it. -/
theorem begunAt_of_active {retain : Bool} {vocabulary : Vocabulary} {fragments : List Fragment}
    {a : Compiling}
    (hactive : ((start retain).acceptAll (fragments.map (decode vocabulary))).1.active = some a) :
    ∃ before f since, fragments = before ++ f :: since ∧ BegunAt vocabulary a f since := by
  have hhears := (NumberedAsBegun.listener.attends_acceptAll Unparsed.custody retain
    (fragments.map (decode vocabulary))).active
  unfold Hears at hhears
  rw [hactive] at hhears
  generalize htold : (List.foldl Transcript.hear .empty _).told = told at hhears
  cases hhears with
  | some hnumbered =>
    obtain ⟨before, e, since, hsplit, hhead, hquiet⟩ := Transcript.told_eq_some htold
    obtain ⟨e', facts, hhead', he, hnumber⟩ := hnumbered
    obtain rfl := Option.some.inj (hhead.symm.trans hhead')
    obtain ⟨earlier, later, rfl, -, hlater⟩ := List.map_eq_append_iff.mp hsplit
    obtain ⟨f, rest, rfl, rfl, rfl⟩ := List.map_eq_cons_iff.mp hlater
    refine ⟨earlier, f, rest, rfl, ⟨facts, he, hnumber⟩, fun g hg => ?_⟩
    exact hquiet _ (List.mem_map_of_mem hg)

/-- What is open for the reader and what is under way for the collector. Wherever the reading of a
log has come, if a task is under way then a fragment began it whose element is still open there;
unless it has no content, or an end tag that is not of a task closed an element around it. -/
theorem active_task_element (retain : Bool) (vocabulary : Vocabulary) (log : List UInt8)
    {fragments : List Fragment} (hfragments : fragments <+: (read .never log).fragments)
    {a : Compiling}
    (hactive : ((start retain).acceptAll (fragments.map (decode vocabulary))).1.active = some a) :
    ∃ cursor before f since, (Cursor.start log).Reads fragments cursor ∧
      cursor.opened = (openTags fragments).map Fragment.name ∧
      fragments = before ++ f :: since ∧ BegunAt vocabulary a f since ∧
      ((∃ inner, openTags fragments = inner ++ f :: openTags before) ∨ f.isEmpty = true ∨
        ∃ g ∈ since, g.isClosing = true ∧ g.depth < f.depth) := by
  obtain ⟨cursor, hreads⟩ := Cursor.reads_of_prefix _ hfragments
  have hstart : (Cursor.start log).opened = [].map Fragment.name := Cursor.opened_start log
  obtain ⟨hopened, hplaced⟩ := hreads.opened_eq hstart
  obtain ⟨before, f, since, rfl, hbegun⟩ := begunAt_of_active hactive
  refine ⟨cursor, before, f, since, hreads, hopened, rfl, hbegun, ?_⟩
  obtain ⟨facts, hbegins, _⟩ := hbegun.begins
  obtain ⟨hname, hempty | ⟨attributes, hcontent⟩⟩ := tag_of_taskStart hbegins
  · exact .inr (.inl hempty)
  · have hopens : openAfter (openTags before) f = f :: openTags before := by
      unfold openAfter
      rw [hcontent]
    obtain ⟨hdepth, hlater⟩ := hplaced.of_append
    have hopening : f.isClosing = false := by simp [Fragment.isClosing, hcontent]
    rw [hopening] at hdepth
    change Placed (openAfter (openTags before) f) since at hlater
    rw [hopens, ← List.nil_append (f :: openTags before)] at hlater
    have hread : openTags (before ++ f :: since) =
        since.foldl openAfter (f :: openTags before) := by
      rw [← hopens]
      exact List.foldl_append
    rw [hread]
    rcases open_or_closed_around hname hlater hbegun.quiet with
      hstill | ⟨g, hg, hclosing, hclosed⟩
    · exact .inl hstill
    · exact .inr (.inr ⟨g, hg, hclosing, hdepth ▸ hclosed⟩)

/-- With a phase open inside a task, both inside the terminal's element, the task under way is the
one whose start tag is open between the two. -/
theorem active_task_element_nested :
    let log := Text.Utf8.encode "<tty><task compile_id='1' method='A a ()V'><phase name='parse'>"
    let fragments := (read .never log).fragments
    ∃ a cursor before f since,
      ((start false).acceptAll (fragments.map (decode .builtin))).1.active = some a ∧
      (Cursor.start log).Reads fragments cursor ∧ cursor.opened = ["phase", "task", "tty"] ∧
      fragments = before ++ f :: since ∧ BegunAt .builtin a f since ∧
      ∃ inner, openTags fragments = inner ++ f :: openTags before := by
  intro log fragments
  have hactive :
      ((start false).acceptAll (fragments.map (decode .builtin))).1.active.isSome = true := by
    decide +kernel
  have hnested : (openTags fragments).map Fragment.name = ["phase", "task", "tty"] ∧
      ∀ f ∈ fragments, f.isEmpty = false ∧ f.isClosing = false := by
    decide +kernel
  obtain ⟨hopen, hopening⟩ := hnested
  obtain ⟨a, ha⟩ := Option.isSome_iff_exists.mp hactive
  obtain ⟨cursor, before, f, since, hreads, hopened, hsplit, hbegun, hstanding⟩ :=
    active_task_element false .builtin log (List.prefix_refl fragments) ha
  refine ⟨a, cursor, before, f, since, ha, hreads, hopened.trans hopen, hsplit, hbegun, ?_⟩
  rcases hstanding with hstill | hempty | ⟨g, hg, hclosing, _⟩
  · exact hstill
  · have hmem : f ∈ fragments := by simp [hsplit]
    rw [(hopening f hmem).1] at hempty
    cases hempty
  · have hmem : g ∈ fragments := by simp [hsplit, hg]
    rw [(hopening g hmem).2] at hclosing
    cases hclosing

/-- An element without content, and one that an element around it closes, leave a task under way
where no element is open. -/
theorem task_under_way_without_element :
    let bare := read .never (Text.Utf8.encode "<task compile_id='1' method='A a ()V'/>")
    let closed := read .never (Text.Utf8.encode "<tty><task compile_id='1' method='A a ()V'></tty>")
    let underWay fragments := ((start false).acceptAll (fragments.map (decode .builtin))).1.active
    (bare.ending = .ended [] ∧ openTags bare.fragments = [] ∧
      (underWay bare.fragments).isSome = true) ∧
    closed.ending = .ended [] ∧ openTags closed.fragments = [] ∧
      (underWay closed.fragments).isSome = true := by
  decide +kernel

end Collector

end CompileLog.Collect
