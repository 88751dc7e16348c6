import CompileLog.Proofs.Collect.Cut
import CompileLog.Proofs.Collect.Phases

/-!
# Phases as elements

In a log whose elements are nested, the end of a phase stands in the element of that phase. A task
takes the ends in turn and does not look at elements. Both agree where every end stands in the latest
phase that has none: so where no phase has two ends in it, and where no end comes in a phase, or
outside of all phases, after a phase that was left without one. An element without content is such a
phase.
-/

namespace CompileLog

/-- Whether a fragment is a start tag. -/
def Markup.Fragment.isOpening (f : Fragment) : Bool :=
  match f.content with
  | .opening .. => true
  | _ => false

/-- Whether a fragment stands alone: characters, or an element without content. -/
def Markup.Fragment.isAlone (f : Fragment) : Bool :=
  match f.content with
  | .text _ | .empty .. => true
  | _ => false

namespace Collect

open Markup

/-! ### Nested elements -/

/-- What stands in an element, one thing after another, where elements are nested. -/
inductive Forest where
  /-- Nothing more. -/
  | nil
  /-- Characters or an element without content, and what comes behind. -/
  | leaf (f : Fragment) (halone : f.isAlone = true) (rest : Forest)
  /-- An element, and what comes behind. -/
  | node (start : Fragment) (hstart : start.isOpening = true) (inside : Forest) (finish : Fragment)
      (hfinish : finish.content = .closing start.name) (rest : Forest)
  /-- An element in which the log ends. -/
  | torn (start : Fragment) (hstart : start.isOpening = true) (inside : Forest)

/-- The fragments in the order of the log. -/
def Forest.fragments : Forest → List Fragment
  | .nil => []
  | .leaf f _ rest => f :: rest.fragments
  | .node start _ inside finish _ rest =>
    start :: inside.fragments ++ finish :: rest.fragments
  | .torn start _ inside => start :: inside.fragments

variable (vocabulary : Vocabulary)

/-! ### Phases of nested elements -/

/-- What is told where a phase begins, if the fragment tells it. -/
def phase? (f : Fragment) : Option PhaseFacts :=
  match (decode vocabulary f).event with
  | .phase facts => some facts
  | _ => none

/-- What is told where a phase ends, if the fragment tells it. -/
def phaseDone? (f : Fragment) : Option PhaseFacts :=
  match (decode vocabulary f).event with
  | .phaseDone facts => some facts
  | _ => none

/-- The ends that an element leaves to the phase around it, where these stand in it. -/
def donesAround (start : Fragment) (inner : List PhaseFacts) : List PhaseFacts :=
  (phaseDone? vocabulary start).toList ++ if (phase? vocabulary start).isSome then [] else inner

/-- The phases of an element in which these ends and these phases stand: it may be one, with the last
of the ends. -/
def phasesOf (start : Fragment) (dones : List PhaseFacts) (inner : List ToldPhase) :
    List ToldPhase :=
  ((phase? vocabulary start).map fun facts => ⟨facts, dones.getLast?⟩).toList ++ inner

/-- Whether an element in which these ends stand is no phase, or one that has at most one end. -/
def hasOneEnd (start : Fragment) (dones : List PhaseFacts) : Bool :=
  (phase? vocabulary start).isNone || decide (dones.length ≤ 1)

/-- Whether ends may follow phases: only where each of them has its end. -/
def mayFollow (dones : List PhaseFacts) (phases : List ToldPhase) : Bool :=
  dones.isEmpty || phases.all fun p => p.ended.isSome

namespace Forest

/-- The ends that stand in none of the phases. -/
def dones : Forest → List PhaseFacts
  | .nil => []
  | .leaf f _ rest => donesAround vocabulary f [] ++ dones rest
  | .node start _ inside _ _ rest => donesAround vocabulary start (dones inside) ++ dones rest
  | .torn start _ inside => donesAround vocabulary start (dones inside)

/-- The phases in the order in which they begin, each with the end for which it is the innermost
phase around. -/
def phases : Forest → List ToldPhase
  | .nil => []
  | .leaf f _ rest => phasesOf vocabulary f [] [] ++ phases rest
  | .node start _ inside _ _ rest =>
    phasesOf vocabulary start (dones vocabulary inside) (phases inside) ++ phases rest
  | .torn start _ inside => phasesOf vocabulary start (dones vocabulary inside) (phases inside)

/-- Whether every end stands in the latest phase that has none: no phase has two ends, and behind a
phase without one there is none in the phase around, or outside of all phases. -/
def inTurn : Forest → Bool
  | .nil => true
  | .leaf f _ rest =>
    inTurn rest && mayFollow (dones vocabulary rest) (phasesOf vocabulary f [] [])
  | .node start _ inside _ _ rest =>
    inTurn inside && hasOneEnd vocabulary start (dones vocabulary inside) && inTurn rest &&
      mayFollow (dones vocabulary rest)
        (phasesOf vocabulary start (dones vocabulary inside) (phases vocabulary inside))
  | .torn start _ inside =>
    inTurn inside && hasOneEnd vocabulary start (dones vocabulary inside)

/-- The events that the fragments tell. -/
def events (forest : Forest) : List Event :=
  forest.fragments.map fun f => (decode vocabulary f).event

end Forest

/-! ### Ends in turn -/

/-- The phases with some ends more, the latest phase first. -/
def endAll (phases : List ToldPhase) (dones : List PhaseFacts) : List ToldPhase :=
  dones.foldl (fun phases facts => endLatest facts phases) phases

/-- An end that comes behind phases that have theirs is one of those before them. -/
theorem endLatest_append {later : List ToldPhase} (h : ∀ p ∈ later, p.ended.isSome = true)
    (facts : PhaseFacts) (phases : List ToldPhase) :
    endLatest facts (later ++ phases) = later ++ endLatest facts phases := by
  induction later with
  | nil => rfl
  | cons p rest ih =>
    have hended : ¬ p.ended.isNone = true := by
      rw [Bool.not_eq_true, ← Option.not_isSome, h p List.mem_cons_self]
      rfl
    have hrest := ih fun q hq => h q (List.mem_cons_of_mem p hq)
    rw [List.cons_append, List.cons_append, ← hrest]
    exact if_neg hended

/-- Ends that may follow phases are those of phases before them. -/
theorem endAll_append {later : List ToldPhase} {dones : List PhaseFacts}
    (h : mayFollow dones later = true) (phases : List ToldPhase) :
    endAll (later.reverse ++ phases) dones = later.reverse ++ endAll phases dones := by
  rcases Bool.or_eq_true_iff.mp h with hnone | hended
  · rw [List.isEmpty_iff.mp hnone]
    rfl
  · have hended' : ∀ p ∈ later.reverse, p.ended.isSome = true := fun p hp =>
      List.all_eq_true.mp hended p (List.mem_reverse.mp hp)
    clear h hended
    induction dones generalizing phases with
    | nil => rfl
    | cons facts rest ih =>
      unfold endAll at ih ⊢
      rw [List.foldl_cons, List.foldl_cons, endLatest_append hended', ih]

variable {vocabulary}

/-- What is told in an element that is one phase, or none: its phases, and then the ends that it
leaves to the phase around it. -/
theorem foldl_hearPhase_element {start : Fragment} {inside : List Event}
    {dones : List PhaseFacts} {inner : List ToldPhase}
    (hinside : ∀ phases, inside.foldl hearPhase phases = inner.reverse ++ endAll phases dones)
    (hone : hasOneEnd vocabulary start dones = true) (phases : List ToldPhase) :
    ((decode vocabulary start).event :: inside).foldl hearPhase phases =
      (phasesOf vocabulary start dones inner).reverse ++
        endAll phases (donesAround vocabulary start dones) := by
  rw [List.foldl_cons, hinside]
  unfold phasesOf donesAround
  unfold hasOneEnd at hone
  cases hevent : (decode vocabulary start).event with
  | phase facts =>
    have hphase : phase? vocabulary start = some facts := by simp [phase?, hevent]
    have hdone : phaseDone? vocabulary start = none := by simp [phaseDone?, hevent]
    rw [hphase] at hone ⊢
    rw [hdone]
    have hown : endAll (hearPhase phases (.phase facts)) dones =
        ⟨facts, dones.getLast?⟩ :: phases := by
      match dones, hone with
      | [], _ => rfl
      | [_], _ => rfl
    rw [hown]
    simp [endAll]
  | phaseDone facts =>
    have hphase : phase? vocabulary start = none := by simp [phase?, hevent]
    have hdone : phaseDone? vocabulary start = some facts := by simp [phaseDone?, hevent]
    rw [hphase, hdone]
    rfl
  | _ =>
    have hphase : phase? vocabulary start = none := by simp [phase?, hevent]
    have hdone : phaseDone? vocabulary start = none := by simp [phaseDone?, hevent]
    rw [hphase, hdone]
    rfl

/-- An end tag tells of no phase. -/
theorem hearPhase_of_closing {finish : Fragment} {name : String}
    (h : finish.content = .closing name) (phases : List ToldPhase) :
    hearPhase phases (decode vocabulary finish).event = phases := by
  unfold decode
  rw [h]
  simp only
  split <;> rfl

namespace Forest

/-- Where every end stands in the latest phase that has none, what is told are the phases as they
are nested, and then the ends that stand in none of them. By induction on the elements. -/
theorem foldl_hearPhase (forest : Forest) (h : inTurn vocabulary forest = true)
    (before : List ToldPhase) :
    (events vocabulary forest).foldl hearPhase before =
      (phases vocabulary forest).reverse ++ endAll before (dones vocabulary forest) := by
  induction forest generalizing before with
  | nil => rfl
  | leaf f halone rest ih =>
    obtain ⟨hrest, hfollow⟩ := Bool.and_eq_true_iff.mp h
    have hnone : hasOneEnd vocabulary f [] = true := Bool.or_eq_true_iff.mpr (.inr rfl)
    have hnothing : ∀ phases, ([] : List Event).foldl hearPhase phases =
        ([] : List ToldPhase).reverse ++ endAll phases [] := fun _ => rfl
    have hleaf := foldl_hearPhase_element hnothing hnone before
    show (events vocabulary rest).foldl hearPhase ([_].foldl hearPhase before) = _
    rw [hleaf, ih hrest, endAll_append hfollow]
    simp only [phases, dones, endAll, List.reverse_append, List.append_assoc, List.foldl_append]
  | node start hstart inside finish hfinish rest ihinside ihrest =>
    obtain ⟨hinner, hfollow⟩ := Bool.and_eq_true_iff.mp h
    obtain ⟨hinner, hrest⟩ := Bool.and_eq_true_iff.mp hinner
    obtain ⟨hinside, hone⟩ := Bool.and_eq_true_iff.mp hinner
    have hnode := foldl_hearPhase_element (fun phases => ihinside hinside phases) hone before
    have hevents : events vocabulary (.node start hstart inside finish hfinish rest) =
        ((decode vocabulary start).event :: events vocabulary inside) ++
          (decode vocabulary finish).event :: events vocabulary rest := by
      simp [events, fragments]
    rw [hevents, List.foldl_append, hnode, List.foldl_cons, hearPhase_of_closing hfinish,
      ihrest hrest, endAll_append hfollow]
    simp only [phases, dones, endAll, List.reverse_append, List.append_assoc, List.foldl_append]
  | torn start hstart inside ih =>
    obtain ⟨hinside, hone⟩ := Bool.and_eq_true_iff.mp h
    exact foldl_hearPhase_element (fun phases => ih hinside phases) hone before

/-- Where every end stands in the latest phase that has none, the phases that are heard are those
that are nested. -/
theorem phasesHeard_events (forest : Forest) (h : inTurn vocabulary forest = true) :
    records (phasesHeard (events vocabulary forest)) =
      (phases vocabulary forest).map ToldPhase.record := by
  have hnone : ∀ dones, endAll [] dones = [] := by
    intro dones
    induction dones with
    | nil => rfl
    | cons facts rest ih => exact ih
  unfold phasesHeard records
  rw [foldl_hearPhase forest h, hnone, List.append_nil, List.map_reverse, List.reverse_reverse]

end Forest

/-! ### Tasks -/

/-- A task has the phases that were heard, each end taken as that of the latest phase that has none;
where the elements are nested and every end stands in that phase, these are the phases as they are
nested. -/
structure HasPhasesHeard (heard : List Event) (t : Task) : Prop where
  /-- Ends are taken in turn. -/
  inTurn : t.phases = records (phasesHeard heard)
  /-- Where they stand in turn, each stands in its phase. -/
  nested : ∀ (vocabulary : Vocabulary) (forest : Forest), heard = forest.events vocabulary →
    forest.inTurn vocabulary = true →
      t.phases = (forest.phases vocabulary).map ToldPhase.record

namespace Collector

/-- An end is that of the latest phase that has none. Whatever a collector is given, the task that
was under way is handed over with the phases that were heard since it began, in the order in which
they begin, and every end on the latest that had none by then. Where elements are nested and every
end stands in that phase, each phase has the end of which it is the innermost phase around, and none
if there is no such end. Any other task has no phases. -/
theorem phases_recorded (retain : Bool) (inputs : List Input) (input : Input) :
    ∃ (mine : Option Task) (others : List Task),
      tasksOf ((feed retain inputs).1.give input).2 = mine.toList ++ others ∧
      (∀ t ∈ others, t.phases = []) ∧
      Option.Rel HasPhasesHeard (if input.endsTask then underway inputs else none) mine := by
  obtain ⟨mine, others, hsplit, hothers, hmine⟩ := phases_handed retain inputs input
  refine ⟨mine, others, hsplit, hothers, ?_⟩
  generalize (if input.endsTask then underway inputs else none) = heard at hmine ⊢
  cases hmine with
  | none => exact .none
  | some hphases =>
    refine .some ⟨hphases, ?_⟩
    rintro vocabulary forest rfl hturn
    exact hphases.trans (forest.phasesHeard_events hturn)

/-- A phase in another, each with its end. -/
def nestedPhases : Forest :=
  .node ⟨.opening "phase" [("name", "a")], 1, some "task", 54⟩ rfl
    (.node ⟨.opening "phase" [("name", "b")], 2, some "phase", 70⟩ rfl
      (.leaf ⟨.empty "phase_done" [("nodes", "3")], 3, some "phase", 93⟩ rfl .nil)
      ⟨.closing "phase", 2, some "phase", 101⟩ rfl
      (.leaf ⟨.empty "phase_done" [("nodes", "7")], 2, some "phase", 124⟩ rfl .nil))
    ⟨.closing "phase", 1, some "task", 132⟩ rfl .nil

/-- A phase in another, each with its end, is recorded as it is nested. -/
theorem phases_recorded_nestedPhases :
    let log := Text.Utf8.encode ("<task compile_id='1' method='A a ()V'><phase name='a'>" ++
      "<phase name='b'><phase_done nodes='3'/></phase><phase_done nodes='7'/></phase>")
    let inputs := (eventsOf .builtin log).map Input.event
    let done := Input.event (decode .builtin ⟨.empty "task_done" [], 1, some "task", 144⟩)
    nestedPhases.inTurn .builtin = true ∧
      ∃ t, tasksOf ((feed false inputs).1.give done).2 = [t] ∧
        t.phases = (nestedPhases.phases .builtin).map ToldPhase.record := by
  intro log inputs done
  have hturn : nestedPhases.inTurn .builtin = true := by decide +kernel
  have hheard : (if done.endsTask then underway inputs else none) =
      some (nestedPhases.events .builtin) := by decide +kernel
  have hone : (tasksOf ((feed false inputs).1.give done).2).length = 1 := by decide +kernel
  obtain ⟨mine, others, hsplit, -, hmine⟩ := phases_recorded false inputs done
  rw [hheard] at hmine
  cases hmine with
  | @some _ t hphases =>
    rw [hsplit, List.length_append, Option.toList_some, List.length_singleton] at hone
    obtain rfl : others = [] := List.length_eq_zero_iff.mp (by omega)
    exact ⟨hturn, t, hsplit, hphases.nested .builtin nestedPhases rfl hturn⟩

/-- The end that stands in a phase behind one without content is recorded on that one. -/
theorem end_recorded_on_phase_without_content :
    let log := Text.Utf8.encode ("<task compile_id='1' method='A a ()V'><phase name='a'>" ++
      "<phase name='b'/><phase_done nodes='7' stamp='0.2'/></phase><task_done/></task>")
    let inside : Forest :=
      .node ⟨.opening "phase" [("name", "a")], 1, some "task", 54⟩ rfl
        (.leaf ⟨.empty "phase" [("name", "b")], 2, some "phase", 71⟩ rfl
          (.leaf ⟨.empty "phase_done" [("nodes", "7"), ("stamp", "0.2")], 2, some "phase", 106⟩ rfl
            .nil))
        ⟨.closing "phase", 1, some "task", 114⟩ rfl .nil
    ((read .never log).fragments.drop 1).take 4 = inside.fragments ∧
      ((inside.phases .builtin).map ToldPhase.record).map Phase.nodesAfter = [some 7, none] ∧
      (tasksOf (collect false (eventsOf .builtin log)).2).map
        (fun t => t.phases.map Phase.nodesAfter) = [[none, some 7]] := by
  decide +kernel

end Collector

end Collect

end CompileLog
