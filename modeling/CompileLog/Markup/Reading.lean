import CompileLog.Markup.Fragment

/-!
# Reading a log

A log is read from its first byte to where it ends, becomes unreadable or the reading is
cancelled. A writer that was killed leaves a log cut anywhere, so the reading never fails:
it delivers every fragment that is complete and says how it ended.
-/

namespace CompileLog.Markup

/-- How far a reading has come. -/
structure Progress where
  /-- Fragments delivered so far. -/
  fragments : Nat
  /-- Bytes of the source asked for so far. -/
  requested : Nat

/-- Decides, before each piece, whether the reading is cancelled. -/
abbrev Cancellation := Progress → Bool

/-- The reading runs to its end. -/
def Cancellation.never : Cancellation := fun _ => false

/-- The reading is cancelled before it begins. -/
def Cancellation.always : Cancellation := fun _ => true

/-- The reading is cancelled before fragment number `n` is asked for. -/
def Cancellation.beforeFragment (n : Nat) : Cancellation := fun p => n ≤ p.fragments

/-- The reading is cancelled once byte number `n` of the source was asked for. The end of the
input is asked for like one more byte. -/
def Cancellation.atByte (n : Nat) : Cancellation := fun p => n < p.requested

/-- What stopped a log before its natural end. -/
inductive Truncation where
  /-- The input ended while these elements were open, outermost first. -/
  | unclosed (names : List String)
  /-- The input could not be read behind this position. -/
  | unreadable (position : Nat) (message : String)
  deriving DecidableEq

/-- How a reading ended. -/
inductive Ending where
  /-- The input ended with these elements open, innermost first. -/
  | ended (opened : List String)
  /-- The input could not be read further. -/
  | unreadable (position : Nat) (fault : Fault)
  /-- The reading was cancelled. -/
  | cancelled
  deriving DecidableEq

/-- What an ending leaves to report: nothing for a log that closes all its elements, and
nothing for a cancelled reading. -/
def Ending.truncation? : Ending → Option Truncation
  | .ended opened => if opened.isEmpty then none else some (.unclosed opened.reverse)
  | .unreadable position fault => some (.unreadable position fault.message)
  | .cancelled => none

/-- The state of a reading between two pieces. -/
structure Cursor where
  /-- The input not read yet. -/
  input : List UInt8
  /-- Number of bytes in front of the log that do not count, a byte order mark. -/
  preface : Nat
  /-- Number of bytes read. -/
  position : Nat
  /-- Whether what follows was looked at already, because it ended a text: a byte, or the end
  of the input. -/
  peeked : Bool
  /-- Open elements, innermost first. -/
  opened : List String
  /-- Fragments delivered. -/
  fragments : Nat

/-- How far a cursor has come. -/
def Cursor.progress (c : Cursor) : Progress :=
  ⟨c.fragments, c.preface + c.position + c.peeked.toNat⟩

/-- The cursor in front of the first byte. -/
def Cursor.front (input : List UInt8) : Cursor := ⟨input, 0, 0, false, [], 0⟩

/-- The cursor at the start of a log, behind a byte order mark if there is one. -/
def Cursor.start : List UInt8 → Cursor
  | 0xEF :: 0xBB :: 0xBF :: input => { Cursor.front input with preface := 3 }
  | input => .front input

/-- The outcome of reading one piece. -/
inductive Step where
  /-- A piece that delivers nothing. -/
  | passed (next : Cursor)
  /-- A fragment. -/
  | delivered (fragment : Fragment) (next : Cursor)
  /-- The end. -/
  | stopped (ending : Ending)

/-- The cursor behind a piece. -/
def Cursor.behind (c : Cursor) (piece : Piece) (width : Nat) (rest : List UInt8) : Cursor :=
  let peeked :=
    match piece with
    | .text _ => true
    | _ => false
  { c with input := rest, position := c.position + width, peeked }

/-- Reads one piece. -/
def Cursor.step (c : Cursor) : Step :=
  match scan c.input with
  | .ended => .stopped (.ended c.opened)
  | .broken fault width => .stopped (.unreadable (c.position + width) fault)
  | .piece piece width rest =>
    let next := c.behind piece width rest
    match piece.content? with
    | none => .passed next
    | some content =>
      let (fragment, opened) := place content c.opened next.position
      .delivered fragment { next with opened, fragments := c.fragments + 1 }

/-- What a step does, told by the piece that it reads. -/
inductive Cursor.Steps (c : Cursor) : Step → Prop where
  /-- The input ends. -/
  | ended (hscan : scan c.input = .ended) : Steps c (.stopped (.ended c.opened))
  /-- The input cannot be read further. -/
  | broken {fault : Fault} {width : Nat} (hscan : scan c.input = .broken fault width) :
      Steps c (.stopped (.unreadable (c.position + width) fault))
  /-- The cursor is behind a piece that delivers nothing. -/
  | passed {piece : Piece} {width : Nat} {rest : List UInt8}
      (hscan : scan c.input = .piece piece width rest) (hnone : piece.content? = none) :
      Steps c (.passed (c.behind piece width rest))
  /-- The cursor is behind a piece, and its fragment is placed among the open elements. -/
  | delivered {piece : Piece} {width : Nat} {rest : List UInt8} {content : Content}
      {fragment : Fragment} {opened : List String}
      (hscan : scan c.input = .piece piece width rest) (hcontent : piece.content? = some content)
      (hplace : place content c.opened (c.position + width) = (fragment, opened)) :
      Steps c (.delivered fragment
        { c.behind piece width rest with opened, fragments := c.fragments + 1 })

/-- A step does what its piece tells. -/
theorem Cursor.steps (c : Cursor) : c.Steps c.step := by
  unfold step
  split
  · next hscan => exact .ended hscan
  · next fault width hscan => exact .broken hscan
  · next piece width rest hscan =>
    simp only
    split
    · next hnone => exact .passed hscan hnone
    · next content hcontent => exact .delivered hscan hcontent rfl

/-- A step leaves less input. -/
theorem Cursor.length_step_lt {c next : Cursor}
    (h : c.step = .passed next ∨ ∃ fragment, c.step = .delivered fragment next) :
    next.input.length < c.input.length := by
  have hsteps := c.steps
  rcases h with h | ⟨fragment, h⟩
  all_goals
    rw [h] at hsteps
    cases hsteps with
    | _ hscan => exact length_scan_lt hscan

/-- All that a reading gives. -/
structure Reading where
  /-- The fragments, in order. -/
  fragments : List Fragment
  /-- How it ended. -/
  ending : Ending

/-- Reads on from a cursor. Whether the reading is cancelled is asked before each piece. -/
def Cursor.readOn (cancel : Cancellation) (c : Cursor) : Reading :=
  if cancel c.progress then ⟨[], .cancelled⟩
  else
    match _step : c.step with
    | .stopped ending => ⟨[], ending⟩
    | .passed next => next.readOn cancel
    | .delivered fragment next =>
      let later := next.readOn cancel
      { later with fragments := fragment :: later.fragments }
termination_by c.input.length
decreasing_by
  · exact length_step_lt (.inl _step)
  · exact length_step_lt (.inr ⟨_, _step⟩)

/-- Reads a log. -/
def read (cancel : Cancellation) (log : List UInt8) : Reading :=
  (Cursor.start log).readOn cancel

/-- Reads a log that arrives byte by byte. A byte order mark is known only where its three
bytes arrive together, so here it begins a text. -/
def readBytewise (cancel : Cancellation) (log : List UInt8) : Reading :=
  (Cursor.front log).readOn cancel

/-- Reads a log of which the system gives no bytes, for this reason. -/
def readWithheld (cancel : Cancellation) (reason : String) : Reading :=
  if cancel ⟨0, 0⟩ then ⟨[], .cancelled⟩ else ⟨[], .unreadable 0 (.withheld reason)⟩

/-- What a reading leaves to report about the end of its log. -/
def Reading.truncation? (r : Reading) : Option Truncation := r.ending.truncation?

/-- Whether a reading was cancelled. -/
def Reading.isCancelled (r : Reading) : Bool := r.ending == .cancelled

end CompileLog.Markup
