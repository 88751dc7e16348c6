import CompileLog.Markup.Reading

/-!
# Which elements are open

A reading keeps the names of the open elements. The fragments that it delivers tell as much: a
start tag opens its element, and an end tag closes the innermost open element of its name with
everything opened inside. So the open elements are those of the start tags that are still open, and
the depth of every fragment is the number of those around it.
-/

namespace CompileLog.Markup

/-! ### Open start tags -/

/-- Whether a fragment has a name. -/
def Fragment.isNamed (name : String) (f : Fragment) : Bool := f.name = name

/-- The start tags that are open after another fragment, innermost first. -/
def openAfter (opened : List Fragment) (f : Fragment) : List Fragment :=
  match f.content with
  | .opening _ _ => f :: opened
  | .closing name =>
    match opened.dropWhile (fun g => !g.isNamed name) with
    | [] => opened
    | _ :: outer => outer
  | .empty _ _ | .text _ => opened

/-- The start tags that are open after these fragments, innermost first. -/
def openTags (fragments : List Fragment) : List Fragment := fragments.foldl openAfter []

/-- Whether an element has no content. -/
def Fragment.isEmpty (f : Fragment) : Bool :=
  match f.content with
  | .empty _ _ => true
  | _ => false

/-- Whether a fragment is an end tag. -/
def Fragment.isClosing (f : Fragment) : Bool :=
  match f.content with
  | .closing _ => true
  | _ => false

/-- The depths of fragments are the numbers of start tags open around them. A tag stands outside
its own element. -/
def Placed (opened : List Fragment) : List Fragment → Prop
  | [] => True
  | f :: rest =>
    f.depth = (if f.isClosing then openAfter opened f else opened).length ∧
      Placed (openAfter opened f) rest

/-- The depths of later fragments are the numbers of start tags that the first ones left open. -/
theorem Placed.of_append {opened first later : List Fragment} (h : Placed opened (first ++ later)) :
    Placed (first.foldl openAfter opened) later := by
  induction first generalizing opened with
  | nil => exact h
  | cons f rest ih => exact ih h.2

/-- The names of the elements left open by an end tag are those of the start tags left open. -/
theorem closeElement_map (name : String) (opened : List Fragment) (f : Fragment)
    (hf : f.content = .closing name) :
    closeElement name (opened.map Fragment.name) = (openAfter opened f).map Fragment.name := by
  have hdropped : (opened.map Fragment.name).dropWhile (· ≠ name) =
      (opened.dropWhile fun g => !g.isNamed name).map Fragment.name := by
    induction opened with
    | nil => rfl
    | cons g rest ih =>
      rw [List.map_cons, List.dropWhile_cons, List.dropWhile_cons]
      by_cases hname : g.name = name
      · simp [hname, Fragment.isNamed]
      · simpa [hname, Fragment.isNamed] using ih
  unfold closeElement openAfter
  rw [hdropped, hf]
  simp only
  cases opened.dropWhile fun g => !g.isNamed name <;> rfl

/-- A fragment that is placed among open elements has their number as its depth, and opens and
closes as its start tags say. -/
theorem place_eq (content : Content) (opened : List Fragment) (position : Nat) :
    let (f, left) := place content (opened.map Fragment.name) position
    left = (openAfter opened f).map Fragment.name ∧
      f.depth = (if f.isClosing then openAfter opened f else opened).length := by
  cases content with
  | opening name attributes => exact ⟨rfl, List.length_map _⟩
  | empty name attributes => exact ⟨rfl, List.length_map _⟩
  | text text => exact ⟨rfl, List.length_map _⟩
  | closing name =>
    have hclosed := closeElement_map name opened
      (place (.closing name) (opened.map Fragment.name) position).1 rfl
    refine ⟨hclosed, ?_⟩
    show (closeElement name (opened.map Fragment.name)).length = _
    rw [hclosed]
    exact List.length_map _

/-! ### Readings -/

/-- A cursor delivers these fragments on its way to another one. -/
inductive Cursor.Reads : Cursor → List Fragment → Cursor → Prop where
  /-- It has not moved. -/
  | stay {c : Cursor} : Reads c [] c
  /-- It passed a piece that delivers nothing. -/
  | passed {c next last : Cursor} {fragments : List Fragment} (h : c.step = .passed next)
      (hrest : Reads next fragments last) : Reads c fragments last
  /-- It delivered a fragment. -/
  | delivered {c next last : Cursor} {f : Fragment} {fragments : List Fragment}
      (h : c.step = .delivered f next) (hrest : Reads next fragments last) :
      Reads c (f :: fragments) last

namespace Cursor

/-- A reading delivers each of its first fragments on its way. By induction on what is left to
read. -/
theorem reads_of_prefix (c : Cursor) {fragments : List Fragment}
    (h : fragments <+: (c.readOn .never).fragments) : ∃ last, c.Reads fragments last := by
  induction hlength : c.input.length using Nat.strongRecOn generalizing c fragments with
  | ind n ih =>
    subst hlength
    rw [readOn] at h
    simp only [Cancellation.never, Bool.false_eq_true, if_false] at h
    split at h
    · rw [List.prefix_nil.mp h]
      exact ⟨c, .stay⟩
    · next next hstep =>
      obtain ⟨last, hrest⟩ := ih _ (length_step_lt (.inl hstep)) next h rfl
      exact ⟨last, .passed hstep hrest⟩
    · next f next hstep =>
      cases fragments with
      | nil => exact ⟨c, .stay⟩
      | cons g rest =>
        obtain ⟨rfl, hrest⟩ := List.cons_prefix_cons.mp h
        obtain ⟨last, hreads⟩ := ih _ (length_step_lt (.inr ⟨_, hstep⟩)) next hrest rfl
        exact ⟨last, .delivered hstep hreads⟩

/-- Passing a piece opens and closes nothing. -/
theorem opened_of_passed {c next : Cursor} (h : c.step = .passed next) :
    next.opened = c.opened := by
  have hsteps := c.steps
  rw [h] at hsteps
  cases hsteps
  rfl

/-- A fragment that is delivered is placed among the open elements. -/
theorem place_of_delivered {c next : Cursor} {f : Fragment} (h : c.step = .delivered f next) :
    ∃ content position, place content c.opened position = (f, next.opened) := by
  have hsteps := c.steps
  rw [h] at hsteps
  cases hsteps with
  | delivered _ _ hplace => exact ⟨_, _, hplace⟩

/-- Wherever a reading has come, the open elements are those of the open start tags, and the
fragments are placed as their depths say. By induction on the reading. -/
theorem Reads.opened_eq {c last : Cursor} {fragments : List Fragment}
    (h : c.Reads fragments last) {opened : List Fragment}
    (hopened : c.opened = opened.map Fragment.name) :
    last.opened = (fragments.foldl openAfter opened).map Fragment.name ∧
      Placed opened fragments := by
  induction h generalizing opened with
  | stay => exact ⟨hopened, trivial⟩
  | passed hstep hrest ih => exact ih ((opened_of_passed hstep).trans hopened)
  | delivered hstep hrest ih =>
    obtain ⟨content, position, hplace⟩ := place_of_delivered hstep
    have heq := place_eq content opened position
    rw [← hopened, hplace] at heq
    obtain ⟨hlast, hplaced⟩ := ih heq.1
    exact ⟨hlast, heq.2, hplaced⟩

/-- No element is open in front of a log. -/
theorem opened_start (log : List UInt8) : (start log).opened = [] := by
  unfold start
  split <;> rfl

end Cursor

end CompileLog.Markup
