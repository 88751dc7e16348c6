import CompileLog.Event.Decode
import CompileLog.Markup.Reading
import CompileLog.Proofs.Collect.Traps
import CompileLog.Proofs.Collect.Waiting

/-!
# The frame that a trap names

A trap that is hit at run time names one frame, by its bytecode index and its method. The log tells
its frames innermost first, and each may leave out the one or the other. A trap takes in frame after
frame until it has a method, and the first index among them. So it names the innermost frame if that
frame tells its method, but the index of one frame and the method of another if it does not.
-/

namespace CompileLog

/-- A frame as it is told. -/
structure ToldFrame where
  /-- The bytecode index, if it could be read. -/
  bci : Option UInt32
  /-- The method, if it could be read. -/
  method : Option Method
  deriving DecidableEq

/-- The trap once one more frame is told: it takes in frames until it has a method. -/
def Deopt.takeFrame (d : Deopt) (f : ToldFrame) : Deopt :=
  if d.method.isSome then d else { d with bci := d.bci.or f.bci, method := f.method }

namespace Collect

/-- The frame that an event tells. -/
def toldFrame? : Event → Option ToldFrame
  | .jvms bci method _ => some ⟨bci, method⟩
  | _ => none

/-- The frames that a log tells, innermost first. -/
def toldFrames (events : List LogEvent) : List ToldFrame :=
  events.filterMap fun e => toldFrame? e.event

/-- The frames up to the first one that tells its method. -/
def takenIn : List ToldFrame → List ToldFrame
  | [] => []
  | f :: rest => f :: if f.method.isSome then [] else takenIn rest

/-! ### Frames of one trap -/

variable {d : Deopt} {frames rest : List ToldFrame} {first : ToldFrame}

/-- A trap that has a method takes in no more frames. -/
theorem foldl_takeFrame_of_isSome (h : d.method.isSome = true) (frames : List ToldFrame) :
    frames.foldl Deopt.takeFrame d = d := by
  induction frames with
  | nil => rfl
  | cons f rest ih =>
    have hfirst : d.takeFrame f = d := if_pos h
    rw [List.foldl_cons, hfirst, ih]

/-- A trap without a method gets the first one that its frames tell, and the first bytecode index
up to there unless it has one. By induction on the frames: the first one with a method is the last
that it takes in. -/
theorem foldl_takeFrame (hmethod : d.method = none) (frames : List ToldFrame) :
    frames.foldl Deopt.takeFrame d =
      { d with
        bci := d.bci.or ((takenIn frames).findSome? ToldFrame.bci)
        method := frames.findSome? ToldFrame.method } := by
  induction frames generalizing d with
  | nil =>
    obtain ⟨id, kind, bci, method, reason, action, stamp⟩ := d
    obtain rfl : method = none := hmethod
    simp [takenIn]
  | cons f rest ih =>
    have hfirst : d.takeFrame f = { d with bci := d.bci.or f.bci, method := f.method } := by
      unfold Deopt.takeFrame
      rw [hmethod]
      rfl
    rw [List.foldl_cons, hfirst]
    cases hfound : f.method with
    | some m =>
      rw [foldl_takeFrame_of_isSome rfl]
      simp [takenIn, hfound, List.findSome?_cons]
      cases f.bci <;> rfl
    | none =>
      rw [ih rfl]
      simp [takenIn, hfound, List.findSome?_cons, Option.or_assoc]
      cases f.bci <;> rfl

/-- Where no frame tells its method a trap takes in all of them. -/
theorem takenIn_of_forall_eq_none (h : ∀ f ∈ frames, f.method = none) : takenIn frames = frames := by
  induction frames with
  | nil => rfl
  | cons f rest ih =>
    have hnone : f.method.isSome = false := by rw [h f List.mem_cons_self]; rfl
    rw [takenIn, if_neg (by simp [hnone]), ih fun f' hf' => h f' (List.mem_cons_of_mem f hf')]

/-- Without a method and an index of its own a trap names the innermost frame in two cases only: that
frame tells its method, or no frame does and no other one tells an index in its place. -/
theorem names_first_iff (first : ToldFrame) (rest : List ToldFrame) :
    (takenIn (first :: rest)).findSome? ToldFrame.bci = first.bci ∧
        (first :: rest).findSome? ToldFrame.method = first.method ↔
      first.method.isSome = true ∨ (∀ f ∈ rest, f.method = none) ∧
        (first.bci.isSome = true ∨ ∀ f ∈ rest, f.bci = none) := by
  cases hmethod : first.method with
  | some m =>
    refine iff_of_true ⟨?_, ?_⟩ (.inl rfl)
    · simp [takenIn, hmethod, List.findSome?_cons]
      cases first.bci <;> rfl
    · simp [hmethod]
  | none =>
    have htaken : takenIn (first :: rest) = first :: takenIn rest := by simp [takenIn, hmethod]
    rw [htaken]
    simp only [List.findSome?_cons, hmethod, Option.isSome_none, Bool.false_eq_true, false_or]
    rw [List.findSome?_eq_none_iff, and_comm]
    refine and_congr_right fun hnone => ?_
    rw [takenIn_of_forall_eq_none hnone]
    cases first.bci with
    | some bci => simp
    | none => simp [List.findSome?_eq_none_iff]

/-! ### The trap that is kept -/

namespace Collector

variable (c : Collector)

/-- The task under way is cut short. -/
theorem trap_abandonActive : c.abandonActive.1.trap = c.trap := by
  unfold abandonActive
  split <;> rfl

/-- A task is taken to begin. -/
theorem trap_takeWaiting (id : UInt64) : (c.takeWaiting id).1.trap = c.trap := by
  unfold takeWaiting
  split
  · rfl
  · simp only
    split <;> rfl

/-- A task begins. -/
theorem trap_startTask (facts : TaskFacts) (flags : List TaskFlag) :
    (c.startTask facts flags).1.trap = c.trap := by
  unfold startTask
  simp only [trap_takeWaiting]
  split <;> exact c.trap_abandonActive

/-- The task under way is finished. -/
theorem trap_finishTask (success : Option Bool) (nativeSize inlinedBytes : Option UInt64)
    (stamp : Option Stamp) (flags : List TaskFlag) :
    (c.finishTask success nativeSize inlinedBytes stamp flags).1.trap = c.trap := by
  unfold finishTask
  split <;> rfl

/-- Code is installed. -/
theorem trap_installCode (facts : NativeFacts) (flags : List TaskFlag) :
    (c.installCode facts flags).1.trap = c.trap := by
  obtain heq | ⟨id, addresses, ⟨_, heq⟩ | ⟨_, _, heq⟩ | ⟨_, heq⟩⟩ := c.installCode_cases facts flags
  · rw [heq]
    rfl
  · rw [heq]
  · rw [heq]
    rfl
  · rw [heq]
    exact trap_onTask { c with addresses } _ _ _

/-- A listing is placed. -/
theorem trap_placeListing (l : Listing) : (c.placeListing l).1.trap = c.trap := by
  unfold placeListing
  split
  · rfl
  · split
    · exact c.trap_putTask _ _
    · rfl

/-- The printed machine code is read. -/
theorem trap_flush : c.flush.1.trap = c.trap :=
  each_preserves (P := fun c' => c'.trap = c.trap)
    (fun c' l h => (c'.trap_placeListing l).trans h) (c := { c with printed := "" }) rfl
    (listingsOf c.printed)

/-- The printed machine code is read before an event. -/
theorem trap_flushBefore (e : Event) : (c.flushBefore e).1.trap = c.trap := by
  unfold flushBefore
  split
  · rfl
  · exact c.trap_flush

/-- A frame is told. -/
theorem trap_takeFrame (bci : Option UInt32) (method : Option Method)
    (methodId : Option UInt64) :
    (c.takeFrame bci method methodId).trap = c.trap.map (·.takeFrame ⟨bci, method⟩) := by
  unfold takeFrame
  cases htrap : c.trap with
  | none => rfl
  | some d =>
    simp only [Option.map_some, Deopt.takeFrame]
    split
    · exact htrap
    · rfl

/-- What neither opens nor closes a trap leaves it, but for a frame that it tells. -/
theorem trap_take {e : LogEvent} (hopens : opensTrap? e = none)
    (hcloses : closesTrap e.event = false) (flags : List TaskFlag) :
    (c.take e.shape flags e.event).1.trap =
      c.trap.map fun d => (toldFrame? e.event).elim d d.takeFrame := by
  have hkept : ∀ {t : Option Deopt}, t = c.trap → t = c.trap.map fun d => d := by simp
  have htell : ∀ e' : Event, (c.takeInTask e.shape e' flags).trap = c.trap.map fun d => d :=
    fun e' => hkept (c.trap_takeInTask e.shape e' flags)
  obtain ⟨shape, tag, event, unread, depth, parent, position⟩ := e
  cases event with
  | jvms bci method methodId => exact c.trap_takeFrame bci method methodId
  | taskQueued facts => exact hkept (c.trap_queueTask facts flags)
  | taskStart facts => exact hkept (c.trap_startTask facts flags)
  | taskDone success nativeSize inlinedBytes stamp =>
    exact hkept (c.trap_finishTask success nativeSize inlinedBytes stamp flags)
  | nmethod facts => exact hkept (c.trap_installCode facts flags)
  | uncommonTrap id bci reason action stamp =>
    cases id with
    | none => exact htell _
    | some id =>
      have hshape : shape ≠ .opening := by
        intro hopening
        simp [opensTrap?, hopening] at hopens
      have hpassed : ∀ d, (c.hitTrap shape d).1 = c := fun d => by rw [hitTrap, if_neg hshape]
      exact hkept (congrArg Collector.trap (hpassed _))
  | deoptimized id reason pc stamp => cases id <;> first | exact hkept rfl | exact htell _
  | madeNotEntrant id compiler level stamp =>
    cases id <;> first | exact hkept rfl | exact htell _
  | close of =>
    cases of with
    | uncommonTrap => cases hcloses
    | threadLog => exact hkept c.trap_abandonActive
    | taskStart => exact hkept c.trap_abandonActive
    | printNmethod => exact hkept c.trap_flush
    | _ => exact htell _
  | unknown tag attributes closing => cases closing <;> exact hkept rfl
  | logStart version process timeMs => exact hkept rfl
  | headerText field text => exact hkept rfl
  | compilerThread name thread stamp => exact hkept rfl
  | threadLog thread => exact hkept rfl
  | assemblyText text => exact hkept rfl
  | _ => exact htell _

/-- The next event leaves the trap, but for a frame that it tells. -/
theorem trap_accept_of_apart {e : LogEvent} (hopens : opensTrap? e = none)
    (hcloses : closesTrap e.event = false) :
    (c.accept e).1.trap = c.trap.map fun d => (toldFrame? e.event).elim d d.takeFrame := by
  have htaken := trap_take ((c.flushBefore e.event).1.count fun n =>
    { n with unreadAttributes := n.unreadAttributes + e.unread.length }) hopens hcloses
    (unreadFlags e)
  rw [show (count _ _).trap = (c.flushBefore e.event).1.trap from rfl, c.trap_flushBefore] at htaken
  exact htaken

/-- While no trap opens or closes, the one that is kept takes in the frames that are told. By
induction on the events. -/
theorem trap_acceptAll {events : List LogEvent}
    (h : ∀ e ∈ events, opensTrap? e = none ∧ closesTrap e.event = false) :
    (c.acceptAll events).1.trap =
      c.trap.map fun d => (toldFrames events).foldl Deopt.takeFrame d := by
  induction events generalizing c with
  | nil => simp [acceptAll, each, toldFrames]
  | cons e rest ih =>
    obtain ⟨hopens, hcloses⟩ := h e List.mem_cons_self
    have hrest := ih (c.accept e).1 fun e' he' => h e' (List.mem_cons_of_mem e he')
    have hlast : (c.acceptAll (e :: rest)).1 = ((c.accept e).1.acceptAll rest).1 := rfl
    rw [hlast, hrest, c.trap_accept_of_apart hopens hcloses, Option.map_map]
    congr 1
    funext d
    cases hframe : toldFrame? e.event <;> simp [toldFrames, hframe]

/-- A trap opens. -/
theorem trap_accept_opening {e : LogEvent} {id : UInt64} {bci : Option UInt32}
    {reason action : Option String} {stamp : Option Stamp}
    (he : e.event = .uncommonTrap (some id) bci reason action stamp)
    (hshape : e.shape = .opening) :
    (c.accept e).1.trap = some ⟨id, .uncommonTrap, bci, none, reason, action, stamp⟩ := by
  unfold accept
  rw [he, hshape]
  rfl

/-- A trap closes and is handed over, with no other event. -/
theorem deoptsOf_accept_closing {e : LogEvent} (he : e.event = .close .uncommonTrap) :
    deoptsOf (c.accept e).2 = c.trap.toList := by
  have hflushed : deoptsOf (c.flushBefore e.event).2 = [] := by
    unfold flushBefore
    split
    · rfl
    · exact c.keepsTrap_flush.2
  have hkept := c.trap_flushBefore e.event
  unfold accept
  simp only [deoptsOf_append, hflushed, List.nil_append]
  rw [he] at hkept ⊢
  rw [← hkept]
  unfold take count
  simp only
  cases (c.flushBefore (.close .uncommonTrap)).1.trap <;> rfl

/-- What a trap names. Where a trap that is hit at run time closes, it has the first method that its
frames tell, and the first bytecode index up to that frame unless it told one itself. So a trap
without an index of its own names its innermost frame if and only if that frame tells its method, or
no frame does and no other one tells an index in its place. -/
theorem trap_names_frames {opening closing : LogEvent} {between : List LogEvent} {id : UInt64}
    {bci : Option UInt32} {reason action : Option String} {stamp : Option Stamp}
    (hopening : opening.event = .uncommonTrap (some id) bci reason action stamp)
    (hshape : opening.shape = .opening) (hclosing : closing.event = .close .uncommonTrap)
    (hbetween : ∀ e ∈ between, opensTrap? e = none ∧ closesTrap e.event = false) :
    ∃ d, deoptsOf ((c.acceptAll (opening :: between)).1.accept closing).2 = [d] ∧
      d = ⟨id, .uncommonTrap,
        bci.or ((takenIn (toldFrames between)).findSome? ToldFrame.bci),
        (toldFrames between).findSome? ToldFrame.method, reason, action, stamp⟩ ∧
      ∀ first rest, toldFrames between = first :: rest → bci = none →
        (d.bci = first.bci ∧ d.method = first.method ↔
          first.method.isSome = true ∨ (∀ f ∈ rest, f.method = none) ∧
            (first.bci.isSome = true ∨ ∀ f ∈ rest, f.bci = none)) := by
  have hopened := c.trap_accept_opening hopening hshape
  have htaken := trap_acceptAll (c.accept opening).1 hbetween
  rw [hopened, Option.map_some, foldl_takeFrame rfl] at htaken
  refine ⟨_, ?_, rfl, fun first rest hframes hown => ?_⟩
  · rw [deoptsOf_accept_closing _ hclosing]
    show ((c.accept opening).1.acceptAll between).1.trap.toList = _
    rw [htaken]
    rfl
  · rw [hframes, hown]
    exact names_first_iff first rest

/-- The innermost frame tells its method but no index, so the trap names that frame, whatever is told
of the frames around it and of other tasks before the trap closes. -/
theorem trap_names_frames_innermost :
    let told (shape : Shape) (tag : String) (e : Event) : LogEvent :=
      ⟨shape, tag, e, [], 1, some "log", 0⟩
    let opening := told .opening "uncommon_trap" (.uncommonTrap (some 9) none none none none)
    let inner : Method := ⟨"Foo", "baz", "()I"⟩
    let between := [told .empty "jvms" (.jvms none (some inner) none),
      told .empty "make_not_entrant" (.madeNotEntrant (some 7) none none none),
      told .empty "jvms" (.jvms (some 4) (some ⟨"Foo", "bar", "(I)V"⟩) none)]
    let closing := told .closing "uncommon_trap" (.close .uncommonTrap)
    (∀ e ∈ between, opensTrap? e = none ∧ closesTrap e.event = false) ∧
      deoptsOf (((start true).acceptAll (opening :: between)).1.accept closing).2 =
        [⟨9, .uncommonTrap, none, some inner, none, none, none⟩] := by
  intro told opening inner between closing
  have hbetween : ∀ e ∈ between, opensTrap? e = none ∧ closesTrap e.event = false := by decide
  have hopening : opening.event = .uncommonTrap (some 9) none none none none := rfl
  have hclosing : closing.event = .close .uncommonTrap := rfl
  obtain ⟨d, hdeopts, hnames, _⟩ :=
    (start true).trap_names_frames hopening rfl hclosing hbetween
  refine ⟨hbetween, ?_⟩
  rw [hdeopts, hnames]
  rfl

/-- A trap names the bytecode index of one frame and the method of another: the innermost frame tells
an index but no method, the one around it both. -/
theorem trap_mixes_frames :
    let log := Text.Utf8.encode ("<uncommon_trap compile_id='9'><jvms bci='12'/>" ++
      "<jvms bci='4' method='Foo bar (I)V'/></uncommon_trap>")
    let events := (Markup.read .never log).fragments.map (decode .builtin)
    toldFrames events = [⟨some 12, none⟩, ⟨some 4, some ⟨"Foo", "bar", "(I)V"⟩⟩] ∧
      (deoptsOf (collect true events).2).map (fun d => (d.bci, d.method)) =
        [(some 12, some ⟨"Foo", "bar", "(I)V"⟩)] := by
  decide +kernel

end Collector

end Collect

end CompileLog
