import CompileLog.Proofs.Collect.Reconstruction

/-!
# Tags that the vocabulary does not know

A tag that the vocabulary does not know is counted and else passed over. But any event other than
printed machine code puts an end to what is printed, and so does such a tag: between two pieces of
printed machine code it does what the end of a printed listing does there, and anywhere else
nothing. For the proof, the machine code printed so far and the count of such tags are set aside:
no operation on tasks looks at either.
-/

namespace CompileLog.Collect.Collector

/-- A collector with other machine code printed, that met more tags which the vocabulary does not
know. -/
def aside (c : Collector) (text : String) (more : Nat) : Collector :=
  { c with printed := text, counts := { c.counts with unknown := c.counts.unknown + more } }

/-- A collector set aside, with what it hands over. -/
def setAside (text : String) (more : Nat) (r : Collector × List Item) : Collector × List Item :=
  (r.1.aside text more, r.2)

/-! ### What is set aside is not looked at -/

variable (c : Collector) (text : String) (more : Nat)

/-- Setting nothing aside. -/
@[simp] theorem aside_self : c.aside c.printed 0 = c := rfl

/-- The task under way is not set aside. -/
@[simp] theorem active_aside : (c.aside text more).active = c.active := rfl

/-- No open task is set aside. -/
@[simp] theorem openTask?_aside (id : UInt64) :
    (c.aside text more).openTask? id = c.openTask? id := rfl

/-- The numbers of the tasks handed over are not set aside. -/
@[simp] theorem isHandedOver_aside (id : UInt64) :
    (c.aside text more).isHandedOver id = c.isHandedOver id := rfl

/-- A task is handed over. -/
theorem handOver_aside (t : Task) :
    (c.aside text more).handOver t = setAside text more (c.handOver t) := by
  unfold handOver setAside aside count
  simp only
  split <;> rfl

/-- One thing after another, if none of them looks. By induction on them. -/
theorem each_aside {α : Type} {f : Collector → α → Collector × List Item}
    (hf : ∀ c a, f (aside c text more) a = setAside text more (f c a)) (l : List α) :
    (c.aside text more).each f l = setAside text more (c.each f l) := by
  induction l generalizing c with
  | nil => rfl
  | cons a rest ih =>
    have hrest := ih (f c a).1
    simp only [each, hf, setAside] at hrest ⊢
    rw [hrest]

/-- The task under way is cut short. -/
theorem abandonActive_aside :
    (c.aside text more).abandonActive = setAside text more c.abandonActive := by
  unfold abandonActive
  rw [active_aside]
  cases c.active with
  | none => rfl
  | some a => exact handOver_aside { c with active := none } text more (cutShort a.task)

/-- A changed task is put back. -/
theorem putTask_aside (id : UInt64) (t : Task) :
    (c.aside text more).putTask id t = (c.putTask id t).aside text more := by
  unfold putTask
  have hactive : (c.aside text more).activeWith? id = c.activeWith? id := rfl
  rw [hactive]
  cases c.activeWith? id <;> rfl

/-- More is told of a task. -/
theorem onTask_aside (id : UInt64) (method : Option Method) (f : Task → Task) :
    (c.aside text more).onTask id method f = (c.onTask id method f).aside text more := by
  unfold onTask
  rw [openTask?_aside]
  cases c.openTask? id with
  | some t => exact c.putTask_aside text more id (f t)
  | none =>
    exact putTask_aside (c.count fun n => { n with implicit := n.implicit + 1 }) text more id
      (f (implicitTask id method))

/-- A task is queued. -/
theorem queueTask_aside (facts : TaskFacts) (flags : List TaskFlag) :
    (c.aside text more).queueTask facts flags = (c.queueTask facts flags).aside text more := by
  unfold queueTask
  cases facts.compileId with
  | none => rfl
  | some id =>
    simp only
    rw [isHandedOver_aside]
    cases c.isHandedOver id with
    | true => rfl
    | false => exact c.onTask_aside text more id facts.method _

/-- The task that begins is taken. -/
theorem takeWaiting_aside (id : UInt64) :
    (c.aside text more).takeWaiting id =
      ((c.takeWaiting id).1.aside text more, (c.takeWaiting id).2) := by
  unfold takeWaiting
  have hwaiting : (c.aside text more).waiting = c.waiting := rfl
  rw [hwaiting]
  cases c.waiting.get? id with
  | some t => rfl
  | none =>
    simp only
    rw [isHandedOver_aside]
    cases c.isHandedOver id <;> rfl

/-- A task begins. -/
theorem startTask_aside (facts : TaskFacts) (flags : List TaskFlag) :
    (c.aside text more).startTask facts flags =
      setAside text more (c.startTask facts flags) := by
  have hcounted : ∀ c : Collector, (if facts.compileId.isNone = true then
      (c.aside text more).countStray else c.aside text more) =
      (if facts.compileId.isNone = true then c.countStray else c).aside text more := by
    intro c
    split <;> rfl
  unfold startTask
  simp only [abandonActive_aside, setAside, hcounted, takeWaiting_aside]
  rfl

/-- The task under way is finished. -/
theorem finishTask_aside (success : Option Bool) (nativeSize inlinedBytes : Option UInt64)
    (stamp : Option Stamp) (flags : List TaskFlag) :
    (c.aside text more).finishTask success nativeSize inlinedBytes stamp flags =
      setAside text more (c.finishTask success nativeSize inlinedBytes stamp flags) := by
  cases hactive : c.active with
  | none =>
    unfold finishTask
    rw [active_aside, hactive]
    rfl
  | some a =>
    have haside : (c.aside text more).active = some a := hactive
    have hhanded := handOver_aside { c with active := none } text more
      (a.finished success nativeSize inlinedBytes stamp flags)
    have hidle : ({ c.aside text more with active := none } : Collector) =
        aside { c with active := none } text more := rfl
    rw [finishTask_eq_of_active hactive, finishTask_eq_of_active haside, hidle, hhanded]
    rfl

/-- Code is installed. -/
theorem installCode_aside (facts : NativeFacts) (flags : List TaskFlag) :
    (c.aside text more).installCode facts flags =
      setAside text more (c.installCode facts flags) := by
  cases hid : facts.compileId with
  | none =>
    unfold installCode
    rw [hid]
    rfl
  | some id =>
    -- The address is noted before, beside what is set aside.
    have hnoted : ∀ c : Collector,
        (if (c.aside text more).isHandedOver id then
          (c.aside text more, [.lateNative id (nativeOf facts)])
        else if CompileKind.ofLog facts.compileKind none = .nativeWrapper ∧
            ((c.aside text more).openTask? id).isNone then
          (c.aside text more).handOver (wrapperTask id facts flags)
        else ((c.aside text more).onTask id facts.method (install facts flags), [])) =
        setAside text more (if c.isHandedOver id then (c, [.lateNative id (nativeOf facts)])
        else if CompileKind.ofLog facts.compileKind none = .nativeWrapper ∧
            (c.openTask? id).isNone then
          c.handOver (wrapperTask id facts flags)
        else (c.onTask id facts.method (install facts flags), [])) := by
      intro c
      rw [isHandedOver_aside, openTask?_aside, handOver_aside, onTask_aside]
      split_ifs <;> rfl
    unfold installCode
    rw [hid]
    cases facts.address with
    | none => exact hnoted c
    | some address => exact hnoted { c with addresses := c.addresses.insert address id }

/-- A listing is placed. -/
theorem placeListing_aside (l : Listing) :
    (c.aside text more).placeListing l = setAside text more (c.placeListing l) := by
  unfold placeListing
  have haddresses : (c.aside text more).addresses = c.addresses := rfl
  rw [haddresses]
  cases l.compileId.or (l.codeAddress.bind c.addresses.get?) with
  | none => rfl
  | some id =>
    simp only [openTask?_aside]
    cases c.openTask? id with
    | none => rfl
    | some t =>
      have hretain : (c.aside text more).retainListings = c.retainListings := rfl
      simp only [hretain, putTask_aside]
      rfl

/-- Something is said about the task under way. -/
theorem takeInTask_aside (shape : Shape) (e : Event) (flags : List TaskFlag) :
    (c.aside text more).takeInTask shape e flags =
      (c.takeInTask shape e flags).aside text more := by
  unfold takeInTask
  rw [active_aside]
  cases c.active with
  | some a => rfl
  | none =>
    simp only
    split <;> rfl

/-- A frame is told. -/
theorem takeFrame_aside (bci : Option UInt32) (method : Option Method)
    (methodId : Option UInt64) :
    (c.aside text more).takeFrame bci method methodId =
      (c.takeFrame bci method methodId).aside text more := by
  unfold takeFrame
  have htrap : (c.aside text more).trap = c.trap := rfl
  rw [htrap]
  cases c.trap with
  | none => rfl
  | some d =>
    simp only
    split <;> rfl

/-- The trap whose frames are being told is released. -/
theorem releaseTrap_aside :
    (c.aside text more).releaseTrap = setAside text more c.releaseTrap := by
  unfold releaseTrap
  have htrap : (c.aside text more).trap = c.trap := rfl
  rw [htrap]
  cases c.trap <;> rfl

/-- The tasks that never began are handed over. -/
theorem abandonWaiting_aside :
    (c.aside text more).abandonWaiting = setAside text more c.abandonWaiting :=
  each_aside { c with waiting := ∅ } text more
    (fun c t => c.handOver_aside text more (cutShort t)) _

/-- No event looks at what is set aside, except for printed machine code and its end. -/
theorem take_aside (shape : Shape) (flags : List TaskFlag) {e : Event}
    (hprinting : isPrinting e = false) (hlisting : e ≠ .close .printNmethod) :
    (c.aside text more).take shape flags e = setAside text more (c.take shape flags e) := by
  have htell : ∀ e', ((c.aside text more).takeInTask shape e' flags, []) =
      setAside text more (c.takeInTask shape e' flags, []) := by
    intro e'
    rw [takeInTask_aside]
    rfl
  cases e with
  | taskQueued facts =>
    show ((c.aside text more).queueTask facts flags, []) = _
    rw [queueTask_aside]
    rfl
  | taskStart facts => exact c.startTask_aside text more facts flags
  | taskDone success nativeSize inlinedBytes stamp =>
    exact c.finishTask_aside text more success nativeSize inlinedBytes stamp flags
  | nmethod facts => exact c.installCode_aside text more facts flags
  | jvms bci method methodId =>
    show ((c.aside text more).takeFrame bci method methodId, []) = _
    rw [takeFrame_aside]
    rfl
  | close of =>
    cases of with
    | printNmethod => exact absurd rfl hlisting
    | threadLog =>
      unfold take
      simp only [abandonActive_aside]
      rfl
    | taskStart => exact c.abandonActive_aside text more
    | uncommonTrap => exact c.releaseTrap_aside text more
    | _ => exact htell _
  | uncommonTrap id bci reason action stamp =>
    cases id with
    | none => exact htell _
    | some id =>
      unfold take hitTrap
      simp only
      split <;> rfl
  | deoptimized id reason pc stamp =>
    cases id with
    | none => exact htell _
    | some id => rfl
  | madeNotEntrant id compiler level stamp =>
    cases id with
    | none => exact htell _
    | some id => rfl
  | unknown tag attributes closing =>
    cases closing with
    | true => rfl
    | false =>
      unfold take setAside aside count
      simp only [Bool.false_eq_true, if_false, Nat.add_right_comm]
  | assemblyText text => cases hprinting
  | logStart => rfl
  | headerText => rfl
  | compilerThread => rfl
  | threadLog => rfl
  | _ => exact htell _

/-- An event that is neither printed machine code nor its end leaves what is printed. -/
theorem printed_take (shape : Shape) (flags : List TaskFlag) {e : Event}
    (hprinting : isPrinting e = false) (hlisting : e ≠ .close .printNmethod) :
    (c.take shape flags e).1.printed = c.printed := by
  have htake := c.take_aside c.printed 0 shape flags hprinting hlisting
  rw [aside_self] at htake
  rw [htake]
  rfl

/-! ### Reading what is printed -/

/-- Reading what is printed does not look at the count. -/
theorem flush_aside : (c.aside c.printed more).flush = setAside "" more c.flush :=
  each_aside { c with printed := "" } "" more (fun c l => c.placeListing_aside "" more l)
    (listingsOf c.printed)

variable {c}

/-- Where nothing is printed there is nothing to read. -/
theorem flush_eq (hprinted : c.printed = "") : c.flush = (c, []) := by
  have hnone : listingsOf "" = [] := by decide +kernel
  unfold flush
  rw [hprinted, hnone, ← hprinted]
  rfl

/-- Any event but printed machine code has what is printed read before it. -/
theorem flushBefore_eq_flush {e : Event} (hprinting : isPrinting e = false) :
    c.flushBefore e = c.flush := by
  unfold flushBefore
  rw [hprinting, Bool.false_or]
  split
  · next hempty => exact (flush_eq (String.isEmpty_iff.mp hempty)).symm
  · rfl

/-- Reading what is printed may as well come before any event but printed machine code. -/
theorem accept_of_flush {e : LogEvent} (hprinting : isPrinting e.event = false) :
    c.accept e = ((c.flush.1.accept e).1, c.flush.2 ++ (c.flush.1.accept e).2) := by
  unfold accept
  rw [flushBefore_eq_flush hprinting, flushBefore_eq c.printed_flush]
  rfl

/-- Reading what is printed may as well come before the end of a log. -/
theorem finish_of_flush : c.finish = (c.flush.1.finish.1, c.flush.2 ++ c.flush.1.finish.2) := by
  unfold finish
  rw [flush_eq c.printed_flush]
  simp only [List.nil_append, List.append_assoc]

/-- After any event but printed machine code nothing is printed. -/
theorem printed_accept {e : LogEvent} (hprinting : isPrinting e.event = false) :
    (c.accept e).1.printed = "" := by
  unfold accept
  rw [flushBefore_eq_flush hprinting]
  simp only
  by_cases hlisting : e.event = .close .printNmethod
  · rw [hlisting]
    exact printed_flush _
  · rw [printed_take _ _ _ hprinting hlisting]
    exact c.printed_flush

/-- The end of a printed listing has what is printed read. -/
theorem accept_close {e : LogEvent} (he : e.event = .close .printNmethod) (hread : e.unread = []) :
    c.accept e = c.flush := by
  have hprinting : isPrinting e.event = false := by rw [he]; rfl
  unfold accept
  rw [flushBefore_eq_flush hprinting, he, hread]
  show ((c.flush.1.count _).flush.1, c.flush.2 ++ (c.flush.1.count _).flush.2) = _
  rw [flush_eq (c := c.flush.1.count _) c.printed_flush, List.append_nil]
  rfl

/-- A tag that the vocabulary does not know does as much, and is counted unless it is an end
tag. -/
theorem accept_unknown {e : LogEvent} {tag : String} {attributes : List (String × String)}
    {closing : Bool} (he : e.event = .unknown tag attributes closing) (hread : e.unread = []) :
    c.accept e =
      (c.flush.1.aside c.flush.1.printed (if closing then 0 else 1), c.flush.2) := by
  have hprinting : isPrinting e.event = false := by rw [he]; rfl
  unfold accept
  rw [flushBefore_eq_flush hprinting, he, hread]
  cases closing <;> exact Prod.ext rfl (List.append_nil _)

/-- Where nothing is printed, no event but printed machine code looks at what is set aside. -/
theorem take_aside_of_printed (hprinted : c.printed = "") (shape : Shape) (flags : List TaskFlag)
    {e : Event} (hprinting : isPrinting e = false) :
    (c.aside "" more).take shape flags e = setAside "" more (c.take shape flags e) := by
  by_cases hlisting : e = .close .printNmethod
  · subst hlisting
    show (c.aside "" more).flush = setAside "" more c.flush
    rw [flush_eq rfl, flush_eq hprinted]
    rfl
  · exact c.take_aside "" more shape flags hprinting hlisting

/-- What an event does, it does whatever the count of tags that the vocabulary does not know. -/
theorem accept_aside (e : LogEvent) :
    (c.aside c.printed more).accept e = setAside (c.accept e).1.printed more (c.accept e) := by
  cases hprinting : isPrinting e.event with
  | true =>
    unfold accept flushBefore
    rw [hprinting]
    cases he : e.event with
    | assemblyText text => rfl
    | _ => rw [he] at hprinting; cases hprinting
  | false =>
    have hprinted := printed_accept (c := c) hprinting
    rw [hprinted]
    unfold accept
    rw [flushBefore_eq_flush hprinting, flushBefore_eq_flush hprinting, flush_aside]
    have htake := take_aside_of_printed (c := c.flush.1.count fun n =>
      { n with unreadAttributes := n.unreadAttributes + e.unread.length }) more c.printed_flush
      e.shape (unreadFlags e) hprinting
    exact congrArg (fun r => (r.1, c.flush.2 ++ r.2)) htake

/-! ### Reading on to the end -/

variable (c)

/-- All that a collector yields from the rest of a log. -/
def conclude (rest : List LogEvent) : Collector × List Item :=
  ((c.acceptAll rest).1.finish.1, (c.acceptAll rest).2 ++ (c.acceptAll rest).1.finish.2)

/-- A log is collected by reading its first part and then reading on to the end. -/
theorem collect_append (retain : Bool) (first rest : List LogEvent) :
    collect retain (first ++ rest) =
      ((((start retain).acceptAll first).1.conclude rest).1,
        ((start retain).acceptAll first).2 ++
          (((start retain).acceptAll first).1.conclude rest).2) := by
  unfold collect conclude
  simp only [acceptAll_append, List.append_assoc]

/-- Reading on with one event first. -/
theorem conclude_cons (e : LogEvent) (rest : List LogEvent) :
    c.conclude (e :: rest) =
      (((c.accept e).1.conclude rest).1, (c.accept e).2 ++ ((c.accept e).1.conclude rest).2) := by
  have hall : c.acceptAll (e :: rest) =
      (((c.accept e).1.acceptAll rest).1,
        (c.accept e).2 ++ ((c.accept e).1.acceptAll rest).2) := rfl
  unfold conclude
  simp only [hall, List.append_assoc]

/-- The end of a log hands over the same whatever the count of tags that the vocabulary does not
know. -/
theorem finish_aside : (c.aside c.printed more).finish = setAside "" more c.finish := by
  unfold finish
  simp only [flush_aside, setAside, releaseTrap_aside, abandonActive_aside, abandonWaiting_aside]

/-- The rest of a log yields the same whatever the count of tags that the vocabulary does not
know. By induction on the rest. -/
theorem conclude_aside (rest : List LogEvent) :
    (c.aside c.printed more).conclude rest = setAside "" more (c.conclude rest) := by
  induction rest generalizing c with
  | nil => exact congrArg (fun r => (r.1, [] ++ r.2)) (c.finish_aside more)
  | cons e rest ih =>
    rw [conclude_cons, conclude_cons, accept_aside]
    simp only [setAside]
    rw [ih]
    rfl

/-- Whether an event is printed machine code. -/
def prints (e : LogEvent) : Bool := isPrinting e.event

variable {c}

/-- What is printed may as well be read at once if no more of it follows. -/
theorem conclude_of_flush {rest : List LogEvent} (hrest : rest.head?.any prints = false) :
    c.conclude rest = ((c.flush.1.conclude rest).1, c.flush.2 ++ (c.flush.1.conclude rest).2) := by
  cases rest with
  | nil => exact finish_of_flush
  | cons e rest =>
    rw [conclude_cons, conclude_cons, accept_of_flush (e := e) hrest, List.append_assoc]

/-- Once something else than printed machine code was told last, nothing is printed. -/
theorem printed_acceptAll (retain : Bool) {first : List LogEvent}
    (hfirst : first.getLast?.any prints = false) :
    ((start retain).acceptAll first).1.printed = "" := by
  rcases List.eq_nil_or_concat first with rfl | ⟨earlier, e, rfl⟩
  · rfl
  · rw [List.concat_eq_append, List.getLast?_concat] at hfirst
    rw [List.concat_eq_append, acceptAll_append]
    exact printed_accept (c := ((start retain).acceptAll earlier).1) (e := e) hfirst

/-- Whether something told between the two parts of a log comes between two pieces of printed
machine code. -/
def splitsListing (first rest : List LogEvent) : Bool :=
  first.getLast?.any prints && rest.head?.any prints

/-- The end of a printed listing is of no account where it does not come between two pieces of
printed machine code. -/
theorem collect_close (retain : Bool) {first rest : List LogEvent}
    (hsplits : splitsListing first rest = false) {e : LogEvent}
    (he : e.event = .close .printNmethod) (hread : e.unread = []) :
    collect retain (first ++ e :: rest) = collect retain (first ++ rest) := by
  rw [collect_append, collect_append, conclude_cons, accept_close he hread]
  rcases Bool.and_eq_false_iff.mp hsplits with hfirst | hrest
  · rw [flush_eq (printed_acceptAll retain hfirst)]
    rfl
  · rw [← conclude_of_flush hrest]

/-- A tag that the vocabulary does not know does what the end of a printed listing does, and is
counted unless it is an end tag. -/
theorem collect_unknown (retain : Bool) (first rest : List LogEvent) {e e' : LogEvent}
    {tag : String} {attributes : List (String × String)} {closing : Bool}
    (he : e.event = .unknown tag attributes closing) (hread : e.unread = [])
    (he' : e'.event = .close .printNmethod) (hread' : e'.unread = []) :
    collect retain (first ++ e :: rest) =
      setAside "" (if closing then 0 else 1) (collect retain (first ++ e' :: rest)) := by
  rw [collect_append, collect_append, conclude_cons, conclude_cons, accept_unknown he hread,
    accept_close he' hread', conclude_aside]
  rfl

/-- Tags that the vocabulary does not know are inert, save that they put an end to a printed
listing. Anywhere in a log but between two pieces of printed machine code, such a tag changes
nothing of what is handed over, of the header and of the counts but the count of such tags; there
it does no more than the end of the listing would. -/
theorem unknown_tags_inert (retain : Bool) (first rest : List LogEvent) (place : LogEvent)
    (tag : String) (attributes : List (String × String)) (closing : Bool) :
    let told := collect retain
      (first ++ { place with event := .unknown tag attributes closing, unread := [] } :: rest)
    let untold := collect retain
      (first ++ (if splitsListing first rest then
        [{ place with event := .close .printNmethod, unread := [] }] else []) ++ rest)
    told.2 = untold.2 ∧ told.1.header = untold.1.header ∧
      told.1.counts = { untold.1.counts with
        unknown := untold.1.counts.unknown + if closing then 0 else 1 } := by
  intro told untold
  have hcloses : untold = collect retain
      (first ++ { place with event := .close .printNmethod, unread := [] } :: rest) := by
    cases hsplits : splitsListing first rest with
    | true => simp [untold, hsplits]
    | false => simpa [untold, hsplits] using (collect_close retain hsplits rfl rfl).symm
  have htold : told = setAside "" (if closing then 0 else 1) untold := by
    rw [hcloses]
    exact collect_unknown retain first rest rfl rfl rfl rfl
  rw [htold]
  exact ⟨rfl, rfl, rfl⟩

/-- Between two pieces of printed machine code such a tag is not inert: what is one listing without
it is two with it, and the second belongs to no task. -/
theorem listing_split_by_unknown_tag :
    let piece (text : String) : LogEvent :=
      ⟨.text, "print_nmethod", .assemblyText text, [], 1, some "print_nmethod", 0⟩
    let tag : LogEvent :=
      ⟨.empty, "future", .unknown "future" [] false, [], 1, some "print_nmethod", 0⟩
    let first := [piece "Compiled method (c1) 2 7 1 A::a (1 bytes)\n 0x10: 44"]
    let rest := [piece " 0x11: 45"]
    (collect false (first ++ tag :: rest)).2.length = 2 ∧
      (collect false (first ++ rest)).2.length = 1 ∧
      (collect false (first ++ tag :: rest)).1.counts.orphanListings = 1 ∧
      (collect false (first ++ rest)).1.counts.orphanListings = 0 := by
  decide +kernel

end CompileLog.Collect.Collector
