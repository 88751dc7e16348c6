import CompileLog.Console.Program
import CompileLog.Proofs.History.Reuse
import CompileLog.Proofs.Session.Snapshots

/-!
# The star on the page of a history

The page of a history has a line for each task along the timeline, and a star in front of some of
these lines. A line has the star if its task has the number of the task whose code is in service. So
the line of that task has it, and none has it where no code is in service. Where a number is used
more than once in the history, the other tasks with the number of the code in service have the star
as well.
-/

namespace CompileLog.Console

/-! ### Lines -/

namespace Page

/-- The lines of a page. -/
def lines (page : Page) : List Page := page.splitOnP fun piece => decide (piece = .lineEnd)

/-- The page of some lines. -/
def ofLines (lines : List Page) : Page := lines.flatMap fun line => line ++ [.lineEnd]

/-- The lines of which a page is made are its lines; behind the last end of a line is nothing. By
induction on the lines. -/
theorem lines_ofLines {lines : List Page} (h : ∀ line ∈ lines, .lineEnd ∉ line) :
    (ofLines lines).lines = lines ++ [[]] := by
  unfold Page.lines ofLines
  induction lines with
  | nil => exact List.splitOnP_nil
  | cons line rest ih =>
    have hline : ∀ piece ∈ line, decide (piece = Piece.lineEnd) = false := by
      intro piece hpiece
      refine decide_eq_false fun heq => ?_
      exact h line List.mem_cons_self (heq ▸ hpiece)
    rw [List.flatMap_cons, List.append_assoc, List.singleton_append,
      List.splitOnP_append_cons_of_forall_mem hline _ (decide_eq_true rfl),
      ih fun line hline => h line (List.mem_cons_of_mem _ hline)]
    rfl

/-- Whether a line begins with a marker, as those of tasks do. -/
def isOfTask : Page → Bool
  | .painted .live _ :: _ => true
  | _ => false

/-- Whether a line begins with a star. -/
def isStarred (line : Page) : Bool := line.head? = some (.live "*")

/-- The lines of a page that begin with a marker. -/
def taskLines (page : Page) : List Page := page.lines.filter isOfTask

/-- A line that begins with a star is one of these. -/
theorem mem_taskLines_of_isStarred {page line : Page} (hline : line ∈ page.lines)
    (hstar : line.isStarred = true) : line ∈ page.taskLines := by
  refine List.mem_filter.mpr ⟨hline, ?_⟩
  obtain ⟨rest, rfl⟩ := List.head?_eq_some_iff.mp (of_decide_eq_true hstar)
  rfl

/-- Which of them begin with a star. -/
def starred (page : Page) : List Nat :=
  (List.range page.taskLines.length).filter fun i => page.taskLines[i]?.any isStarred

end Page

/-! ### The page of a history -/

/-- A painted text ends no line. -/
theorem lineEnd_ne_painted (tone : Tone) (text : String) : Piece.lineEnd ≠ .painted tone text :=
  Piece.noConfusion

/-- What is said of a task behind its marker. -/
def taskText (t : Task) : Page := (taskLine t).dropLast

/-- The line of a task ends where everything is said. -/
theorem taskLine_eq (t : Task) : taskLine t = taskText t ++ [.lineEnd] := by
  unfold taskText taskLine
  rw [List.dropLast_concat]

/-- The lines on a task. -/
def linesOnTask (h : MethodHistory) (t : Task) : List Page :=
  (marker h t :: taskText t) :: (t.deopts.map fun d => .plain indent :: deopt d) ++
    t.flags.map fun f => [.suspect (indent ++ taskFlag f)]

/-- The lines on a history. -/
def linesOnHistory (method : Method) (h : MethodHistory) : List Page :=
  [.strong method.display] :: h.tasks.flatMap (linesOnTask h) ++
    h.flags.map fun f => [.suspect ("  " ++ historyFlag f)]

/-- The page of a history is made of these lines. -/
theorem historyPage_eq (method : Method) (h : MethodHistory) :
    historyPage method h = .ofLines (linesOnHistory method h) := by
  have htask (t : Task) : taskPage h t = .ofLines (linesOnTask h t) := by
    unfold taskPage linesOnTask Page.ofLines
    rw [taskLine_eq]
    simp [List.flatMap_map]
    rfl
  unfold historyPage linesOnHistory Page.ofLines
  simp only [funext htask]
  simp [List.flatMap_map, List.flatMap_assoc, heading, Page.ofLines]

/-- What is said of a task behind its marker is one line. -/
theorem lineEnd_notMem_taskText (t : Task) : Piece.lineEnd ∉ taskText t := by
  have hkind : Piece.lineEnd ≠ kindPiece t.kind := by
    cases t.kind <;> exact Piece.noConfusion
  have hstate : Piece.lineEnd ≠ taskState t := by
    unfold taskState
    split
    · exact Piece.noConfusion
    · split
      · split <;> exact Piece.noConfusion
      · exact Piece.noConfusion
      · exact Piece.noConfusion
  unfold taskText taskLine
  rw [List.dropLast_concat]
  cases t.nativeSize <;>
    simp [hkind, hstate, stampPiece, Piece.strong, Piece.plain, Piece.quiet, lineEnd_ne_painted]

/-- What is said of an event at run time is one line. -/
theorem lineEnd_notMem_deopt (d : Deopt) : Piece.lineEnd ∉ deopt d := by
  unfold deopt
  cases d.bci <;> cases d.invalidates <;>
    simp [Piece.suspect, Piece.quiet, Piece.position, lineEnd_ne_painted]

/-- The lines on a history are lines. -/
theorem lineEnd_notMem_of_linesOnHistory {method : Method} {h : MethodHistory} {line : Page}
    (hline : line ∈ linesOnHistory method h) : .lineEnd ∉ line := by
  unfold linesOnHistory linesOnTask at hline
  simp only [List.cons_append, List.mem_cons, List.mem_append, List.mem_flatMap, List.mem_map]
    at hline
  rcases hline with rfl | ⟨t, _, rfl | ⟨d, _, rfl⟩ | ⟨f, _, rfl⟩⟩ | ⟨f, _, rfl⟩
  · exact List.mem_singleton.not.mpr Piece.noConfusion
  · exact List.not_mem_cons_of_ne_of_not_mem Piece.noConfusion (lineEnd_notMem_taskText t)
  · exact List.not_mem_cons_of_ne_of_not_mem Piece.noConfusion (lineEnd_notMem_deopt d)
  · exact List.mem_singleton.not.mpr Piece.noConfusion
  · exact List.mem_singleton.not.mpr Piece.noConfusion

/-- Lines of which none begins with a marker are none of tasks. -/
theorem filter_isOfTask_map {α : Type} (l : List α) {line : α → Page}
    (hline : ∀ a, (line a).isOfTask = false) : (l.map line).filter Page.isOfTask = [] := by
  refine List.filter_eq_nil_iff.mpr fun shown hshown => ?_
  obtain ⟨a, _, rfl⟩ := List.mem_map.mp hshown
  exact Bool.eq_false_iff.mp (hline a)

/-- The page of a history has a line for each task, in the order of the tasks. -/
theorem taskLines_historyPage (method : Method) (h : MethodHistory) :
    (historyPage method h).taskLines = h.tasks.map fun t => marker h t :: taskText t := by
  have htask (t : Task) :
      (linesOnTask h t).filter Page.isOfTask = [marker h t :: taskText t] := by
    unfold linesOnTask
    rw [List.filter_append, List.filter_cons_of_pos rfl, filter_isOfTask_map _ fun _ => rfl,
      filter_isOfTask_map _ fun _ => rfl]
    rfl
  unfold Page.taskLines
  rw [historyPage_eq, Page.lines_ofLines fun line => lineEnd_notMem_of_linesOnHistory]
  unfold linesOnHistory
  rw [List.filter_append, List.filter_append, List.filter_cons_of_neg Bool.false_ne_true,
    List.filter_flatMap, filter_isOfTask_map _ fun _ => rfl]
  simp only [htask]
  rw [← List.map_eq_flatMap]
  simp [Page.isOfTask]

/-! ### The stars -/

/-- The line of a task has a star if the task is marked. -/
theorem isStarred_marker (h : MethodHistory) (t : Task) (rest : Page) :
    Page.isStarred (marker h t :: rest) = isMarked h t := by
  unfold Page.isStarred marker
  cases isMarked h t <;> rfl

/-- The lines that have a star are those of the marked tasks. -/
theorem starred_historyPage (method : Method) (h : MethodHistory) :
    (historyPage method h).starred =
      (List.range h.tasks.length).filter fun i => h.tasks[i]?.any (isMarked h) := by
  unfold Page.starred
  rw [taskLines_historyPage, List.length_map]
  refine List.filter_congr fun i _ => ?_
  rw [List.getElem?_map]
  cases h.tasks[i]? with
  | none => rfl
  | some t => exact isStarred_marker h t _

/-- These are the tasks with the number of the task whose code is in service. -/
theorem mem_starred_iff {method : Method} {h : MethodHistory} {i : Nat} :
    i ∈ (historyPage method h).starred ↔ ∃ c t, h.currentTask? = some c ∧
      h.tasks[i]? = some t ∧ t.compileId = c.compileId := by
  rw [starred_historyPage, List.mem_filter, List.mem_range]
  unfold isMarked
  cases ht : h.tasks[i]? with
  | none => simp
  | some t =>
    have hi : i < h.tasks.length := (List.getElem?_eq_some_iff.mp ht).1
    cases h.currentTask? with
    | none => simp
    | some c => simp [hi, eq_comm]

/-- No line has two places. -/
theorem nodup_starred (page : Page) : page.starred.Nodup := List.nodup_range.filter _

section

variable {method : Method} {h : MethodHistory} (hservice : InService h.tasks h.current)
include hservice

/-- The code in service is that of a task. -/
theorem exists_currentTask {i : Nat} (hi : h.current = some i) :
    ∃ c, h.tasks[i]? = some c ∧ h.currentTask? = some c := by
  rw [hi] at hservice
  obtain ⟨c, hc, _⟩ := hservice.liveAt
  refine ⟨c, hc, ?_⟩
  unfold MethodHistory.currentTask?
  rw [hi]
  exact hc

/-- The line of the code in service has a star. -/
theorem current_mem_starred {i : Nat} (hi : h.current = some i) :
    i ∈ (historyPage method h).starred := by
  obtain ⟨c, hc, hcurrent⟩ := exists_currentTask hservice hi
  exact mem_starred_iff.mpr ⟨c, c, hcurrent, hc, rfl⟩

/-- Only the line of the code in service has a star if and only if no other task has its number. -/
theorem starred_eq_iff : (historyPage method h).starred = h.current.toList ↔
    ∀ i j c t, h.current = some i → h.tasks[i]? = some c → h.tasks[j]? = some t →
      t.compileId = c.compileId → j = i := by
  constructor
  · intro heq i j c t hi hc ht hid
    obtain ⟨c', hc', hcurrent⟩ := exists_currentTask hservice hi
    obtain rfl := Option.some.inj (hc.symm.trans hc')
    have hj : j ∈ (historyPage method h).starred := mem_starred_iff.mpr ⟨c, t, hcurrent, ht, hid⟩
    rw [heq, hi] at hj
    exact List.mem_singleton.mp hj
  · intro hunique
    cases hi : h.current with
    | none =>
      refine List.eq_nil_iff_forall_not_mem.mpr fun j hj => ?_
      obtain ⟨c, _, hcurrent, _⟩ := mem_starred_iff.mp hj
      unfold MethodHistory.currentTask? at hcurrent
      rw [hi] at hcurrent
      cases hcurrent
    | some i =>
      obtain ⟨c, hc, hcurrent⟩ := exists_currentTask hservice hi
      refine List.perm_singleton.mp ?_
      refine (List.perm_ext_iff_of_nodup (nodup_starred _) (List.nodup_singleton i)).mpr fun j => ?_
      rw [List.mem_singleton]
      constructor
      · intro hj
        obtain ⟨c', t, hcurrent', ht, hid⟩ := mem_starred_iff.mp hj
        obtain rfl := Option.some.inj (hcurrent.symm.trans hcurrent')
        exact hunique i j c t hi hc ht hid
      · rintro rfl
        exact current_mem_starred hservice hi

end

/-! ### Numbers that are used once -/

/-- Two tasks with one number are two uses of it. -/
theorem two_le_uses {h : MethodHistory} {i j : Nat} {c t : Task} (hij : i < j)
    (hc : h.tasks[i]? = some c) (ht : h.tasks[j]? = some t) (hid : t.compileId = c.compileId) :
    2 ≤ h.uses c.compileId := by
  unfold MethodHistory.uses
  rw [← List.take_append_drop j h.tasks, List.countP_append]
  have hbefore : 0 < (h.tasks.take j).countP fun t => decide (t.compileId = c.compileId) := by
    refine List.countP_pos_iff.mpr ⟨c, ?_, decide_eq_true rfl⟩
    exact List.mem_of_getElem? (i := i) (by rwa [List.getElem?_take_of_lt hij])
  have hbehind : 0 < (h.tasks.drop j).countP fun t => decide (t.compileId = c.compileId) := by
    refine List.countP_pos_iff.mpr ⟨t, ?_, decide_eq_true hid⟩
    exact List.mem_of_getElem? (i := 0) (by rwa [List.getElem?_drop])
  omega

/-- A history that uses the number of the code in service twice is flagged for it. -/
theorem eq_of_not_isFlagged {a : Archive} (hreuse : ∀ id, a.FlagsReuse id) {h : MethodHistory}
    (hh : h ∈ a.histories.values) {i j : Nat} {c t : Task} (hc : h.tasks[i]? = some c)
    (ht : h.tasks[j]? = some t) (hid : t.compileId = c.compileId)
    (hflag : ¬ h.IsFlagged c.compileId) : j = i := by
  by_contra hne
  refine hflag ((hreuse _).flagged_of_two hh ?_)
  rcases Nat.lt_or_gt_of_ne hne with hlt | hgt
  · rw [← hid]
    exact two_le_uses hlt ht hc hid.symm
  · exact two_le_uses hgt hc ht hid

/-- A page has a line for each task of a history, and stars the number of the task whose code is in
service. -/
structure StarsNumberInService (page : Page) (h : MethodHistory) : Prop where
  /-- The lines that begin with a marker are those of the tasks, in their order. -/
  taskLines_eq : page.taskLines = h.tasks.map fun t => marker h t :: taskText t
  /-- No other line has a star. -/
  taskLine_of_isStarred : ∀ line ∈ page.lines, line.isStarred = true → line ∈ page.taskLines
  /-- The lines with a star are those of the tasks that have the number of the task whose code is in
  service. -/
  starred_iff : ∀ j, j ∈ page.starred ↔ ∃ c t, h.currentTask? = some c ∧ h.tasks[j]? = some t ∧
    t.compileId = c.compileId
  /-- Its own line is one of them. -/
  current_starred : ∀ i, h.current = some i → i ∈ page.starred
  /-- Where no code is in service there is none. -/
  none_starred : h.current = none → page.starred = []
  /-- Its own line is the only one if and only if no other task of the history has its number. -/
  alone_iff : page.starred = h.current.toList ↔ ∀ i j c t, h.current = some i →
    h.tasks[i]? = some c → h.tasks[j]? = some t → t.compileId = c.compileId → j = i
  /-- So it is wherever the history is not flagged for this number. -/
  alone_of_unflagged : (∀ c, h.currentTask? = some c → .duplicate c.compileId ∉ h.flags) →
    page.starred = h.current.toList

/-- The page of a history does so, where flags tell of the numbers that are used again. -/
theorem starsNumberInService {a : Archive} {method : Method} {h : MethodHistory}
    (hservice : InService h.tasks h.current) (hreuse : ∀ id, a.FlagsReuse id)
    (hh : h ∈ a.histories.values) : StarsNumberInService (historyPage method h) h where
  taskLines_eq := taskLines_historyPage method h
  taskLine_of_isStarred _ := Page.mem_taskLines_of_isStarred
  starred_iff _ := mem_starred_iff
  current_starred _ := current_mem_starred hservice
  none_starred hnone := by
    have halone : (historyPage method h).starred = h.current.toList := by
      refine (starred_eq_iff hservice).mpr fun i j c t hi => ?_
      rw [hnone] at hi
      cases hi
    rw [halone, hnone]
    rfl
  alone_iff := starred_eq_iff hservice
  alone_of_unflagged hunflagged := by
    refine (starred_eq_iff hservice).mpr fun i j c t hi hc ht hid => ?_
    obtain ⟨c', hc', hcurrent⟩ := exists_currentTask hservice hi
    obtain rfl := Option.some.inj (hc.symm.trans hc')
    exact eq_of_not_isFlagged hreuse hh hc ht hid (hunflagged c hcurrent)

/-! ### The command -/

/-- Where something goes on after a step that may fail, and succeeds, so did the step. -/
theorem exists_of_mapError_bind {ε δ α β : Type} {x : Except ε α} {g : ε → δ}
    {f : α → Except δ β} {b : β} (h : (x.mapError g >>= f) = .ok b) :
    ∃ a, x = .ok a ∧ f a = .ok b := by
  cases x with
  | error e => cases h
  | ok a => exact ⟨a, rfl, h⟩

/-- What holds before anything is filed, and is kept, holds of the archive that a command reads. -/
theorem archive_of_readArchive {P : Archive → Prop} (hP : ArchiveInvariant Task.Linked P)
    (hempty : P .empty) {files : Files} {o : Options} {log : String} {a : Archive}
    {r : SessionReport} (h : Performance.readArchive files o log = .ok (a, r)) : P a := by
  obtain ⟨config, _, h⟩ := exists_of_mapError_bind h
  obtain ⟨s, hstart, h⟩ := exists_of_mapError_bind h
  obtain ⟨s', hread, h⟩ := exists_of_mapError_bind h
  have hs : P s.index.toArchive := by
    rw [Session.index_of_withIndex hstart]
    exact hempty
  have hs' : P s'.index.toArchive := by
    unfold Session.readFrom at hread
    simp only at hread
    split at hread
    · cases hread
    · cases hread
    · obtain rfl := Except.ok.inj hread
      exact hP.take hs _ _
    · obtain rfl := Except.ok.inj hread
      exact hP.take hs _ _
  have ha : s'.finish.1 = a := congrArg Prod.fst (Except.ok.inj h)
  exact ha ▸ hP.finish hs'

/-- Where there is no configuration, a log that is there is read in the usual way. -/
theorem readArchive_usual {files : Files} {log : String} {bytes : List UInt8}
    (hconfig : files Config.fileName = .missing) (hlog : files log = .file bytes)
    (color : ColorChoice) :
    let s := (Session.fresh .usual .builtin).readLog log .never bytes
    Performance.readArchive files ⟨none, color, false⟩ log = .ok (s.finish.1, s.finish.2) := by
  intro s
  have hload : Config.load files none = .ok .usual := by
    unfold Config.load
    rw [hconfig]
  have hstart : Session.start .usual = .ok (.fresh .usual .builtin) := rfl
  have hread : (Session.fresh .usual .builtin).readFrom files log false .never =
      .ok ((Session.fresh .usual .builtin).readLog log .never bytes) := by
    unfold Session.readFrom
    rw [hlog]
    rfl
  unfold Performance.readArchive
  rw [hload]
  simp only [Except.mapError, bind, Except.bind, hstart, hread]
  rfl

/-- A method that a text names has a history. -/
theorem exists_history_of_resolve {a : Archive} (hkeyed : a.Keyed) {query : String} {m : Method}
    (hm : a.resolve query = .ok m) : ∃ h, a.historyOf? m = some h := by
  unfold Archive.resolve at hm
  split at hm
  · next m' hexact =>
    obtain rfl := Except.ok.inj hm
    exact Option.isSome_iff_exists.mp (Option.filter_eq_some_iff.mp hexact).2
  · split at hm
    · cases hm
    · next only hfound =>
      obtain rfl := Except.ok.inj hm
      have hmem : only ∈ a.findMethods query := hfound ▸ List.mem_cons_self
      obtain ⟨h, hh, rfl⟩ := List.mem_map.mp (List.mem_of_mem_filter hmem)
      exact ⟨h, hkeyed.get?_method hh⟩
    · cases hm

/-- The page of a history stars the number of the task whose code is in service. Whatever log is
read, and whatever method is asked for, the page is printed, and it has a line for each task. The
line of the task whose code is in service has a star, and so have the lines of all tasks with its
number, but no others. -/
theorem history_stars_number_in_service {files : Files} {o : Options} {log query : String}
    {a : Archive} {r : SessionReport} {m : Method}
    (hread : Performance.readArchive files o log = .ok (a, r)) (hm : a.resolve query = .ok m) :
    ∃ h page, a.historyOf? m = some h ∧ InService h.tasks h.current ∧
      ((Command.history log query).perform files o).result = .ok ⟨page, none⟩ ∧
      StarsNumberInService page h := by
  obtain ⟨hsound, hreuse⟩ := archive_of_readArchive
    (Archive.FlagsReuse.archiveInvariant.weaken fun _ _ => trivial) ⟨.empty, .empty⟩ hread
  obtain ⟨h, hh⟩ := exists_history_of_resolve hsound.keyed hm
  have hvalue : h ∈ a.histories.values := KeyMap.mem_values_of_get? hh
  have hservice := hsound.inService h hvalue
  refine ⟨h, historyPage m h, hh, hservice, ?_, starsNumberInService hservice hreuse hvalue⟩
  show (Performance.withLog files o log _).result = _
  unfold Performance.withLog Performance.showHistory
  rw [hread]
  simp only [hm, hh]
  rfl

/-- A method is compiled twice, under two numbers, and only the second task has the star. -/
theorem history_stars_number_in_service_second :
    let log := Text.Utf8.encode ("<task compile_id='1' method='A a ()V'><task_done/></task>" ++
      "<task compile_id='2' method='A a ()V'><task_done/></task>")
    let files : Files := fun name => if name = "in.log" then .file log else .missing
    let o : Options := ⟨none, .never, false⟩
    let m : Method := ⟨"A", "a", "()V"⟩
    ∃ a r, Performance.readArchive files o "in.log" = .ok (a, r) ∧ a.resolve "A a ()V" = .ok m ∧
      ∃ page, ((Command.history "in.log" "A a ()V").perform files o).result = .ok ⟨page, none⟩ ∧
        page.starred = [1] := by
  intro log files o m
  let s := (Session.fresh .usual .builtin).readLog "in.log" .never log
  have hread : Performance.readArchive files o "in.log" = .ok (s.finish.1, s.finish.2) :=
    readArchive_usual rfl rfl .never
  have hfacts : s.finish.1.resolve "A a ()V" = .ok m ∧
      (s.finish.1.historyOf? m).map (fun h => (h.current, h.flags)) = some (some 1, []) := by
    decide +kernel
  obtain ⟨hm, hhistory⟩ := hfacts
  obtain ⟨h, page, hh, _, hpage, hstars⟩ := history_stars_number_in_service hread hm
  rw [hh, Option.map_some] at hhistory
  obtain ⟨hcurrent, hflags⟩ := Prod.mk.inj (Option.some.inj hhistory)
  refine ⟨_, _, hread, hm, page, hpage, ?_⟩
  rw [hstars.alone_of_unflagged (fun c _ => hflags ▸ List.not_mem_nil), hcurrent]
  rfl

/-- A method is compiled twice under one number. The code of the second task is in service, and both
have the star. -/
theorem history_stars_both_tasks_of_one_number :
    let log := Text.Utf8.encode ("<task compile_id='1' method='A a ()V'><task_done/></task>" ++
      "<task compile_id='1' method='A a ()V'><task_done/></task>")
    let files : Files := fun name => if name = "in.log" then .file log else .missing
    let o : Options := ⟨none, .never, false⟩
    let m : Method := ⟨"A", "a", "()V"⟩
    ∃ a r h, Performance.readArchive files o "in.log" = .ok (a, r) ∧
      a.resolve "A a ()V" = .ok m ∧ a.historyOf? m = some h ∧ h.current = some 1 ∧
      (historyPage m h).starred = [0, 1] := by
  intro log files o m
  let s := (Session.fresh .usual .builtin).readLog "in.log" .never log
  have hread : Performance.readArchive files o "in.log" = .ok (s.finish.1, s.finish.2) :=
    readArchive_usual rfl rfl .never
  have hfacts : s.finish.1.resolve "A a ()V" = .ok m ∧
      (s.finish.1.historyOf? m).map (fun h => (h.current,
        (List.range h.tasks.length).filter fun i => h.tasks[i]?.any (isMarked h))) =
        some (some 1, [0, 1]) := by
    decide +kernel
  obtain ⟨hm, hhistory⟩ := hfacts
  obtain ⟨h, hh, heq⟩ := Option.map_eq_some_iff.mp hhistory
  obtain ⟨hcurrent, hstars⟩ := Prod.mk.inj heq
  exact ⟨_, _, h, hread, hm, hh, hcurrent, (starred_historyPage m h).trans hstars⟩

end CompileLog.Console
