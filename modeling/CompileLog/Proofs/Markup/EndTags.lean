import CompileLog.Proofs.Markup.Nesting
import Mathlib.Data.List.Induction
import Mathlib.Data.List.TakeWhile

/-!
# End tags and their start tags

An end tag stands where the start tag stands that it closes, however badly a log is nested: as many
elements are around it, and the same one is the innermost. It closes the innermost open element of
its name and with it all that was opened inside. An end tag of which no element is open stands among
the open elements and closes none. Where a log ends, the start tags that no end tag closed are the
elements that are reported as unclosed.
-/

namespace CompileLog.Markup

/-! ### One end tag -/

/-- What an end tag leaves open of the start tags that are open in front of it, innermost first. -/
inductive Closes (opened : List Fragment) (f : Fragment) : List Fragment → Prop where
  /-- It closes the innermost element of its name and all that was opened inside, and stands where
  the start tag of that element stands. -/
  | element {inner outer : List Fragment} {start : Fragment}
      (hopened : opened = inner ++ start :: outer) (hname : start.name = f.name)
      (hinner : ∀ g ∈ inner, g.name ≠ f.name) (hdepth : f.depth = start.depth)
      (hparent : f.parent = start.parent) : Closes opened f outer
  /-- No element of its name is open. It stands inside the innermost one and closes none. -/
  | nothing (hstray : ∀ g ∈ opened, g.name ≠ f.name) (hdepth : f.depth = opened.length)
      (hparent : f.parent = opened.head?.map Fragment.name) : Closes opened f opened

/-- Open start tags stand inside one another: around each are those behind it, and the next of them
is the innermost. -/
def Stacked : List Fragment → Prop
  | [] => True
  | f :: outer =>
    f.depth = outer.length ∧ f.parent = outer.head?.map Fragment.name ∧ Stacked outer

/-- Without the innermost ones open start tags stand inside one another still. -/
theorem Stacked.of_append {inner outer : List Fragment} (h : Stacked (inner ++ outer)) :
    Stacked outer := by
  induction inner with
  | nil => exact h
  | cons f rest ih => exact ih h.2.2

/-- What an end tag leaves open are the start tags around the innermost one of its name, if one of
its name is open. -/
theorem openAfter_closing_cases {f : Fragment} (hclosing : f.isClosing = true)
    (opened : List Fragment) :
    (∃ inner start outer, opened = inner ++ start :: outer ∧ start.name = f.name ∧
        (∀ g ∈ inner, g.name ≠ f.name) ∧ openAfter opened f = outer) ∨
      (∀ g ∈ opened, g.name ≠ f.name) ∧ openAfter opened f = opened := by
  obtain ⟨content, depth, parent, position⟩ := f
  cases content with
  | closing name =>
    have hsplit := List.takeWhile_append_dropWhile (p := fun g : Fragment => !g.isNamed name)
      (l := opened)
    have hinner : ∀ g ∈ opened.takeWhile fun g => !g.isNamed name, g.name ≠ name := by
      intro g hg
      have := List.mem_takeWhile_imp hg
      simpa [Fragment.isNamed] using this
    unfold openAfter
    simp only
    cases hrest : opened.dropWhile fun g => !g.isNamed name with
    | nil =>
      rw [hrest, List.append_nil] at hsplit
      exact .inr ⟨hsplit ▸ hinner, rfl⟩
    | cons start outer =>
      have hstart : start.name = name := by
        have hfirst := List.head?_dropWhile_not (fun g : Fragment => !g.isNamed name) opened
        rw [hrest, List.head?_cons] at hfirst
        simpa [Fragment.isNamed] using hfirst
      rw [hrest] at hsplit
      exact .inl ⟨_, start, outer, hsplit.symm, hstart, hinner, rfl⟩
  | _ => cases hclosing

/-- An end tag that is placed among open start tags closes as its name says. -/
theorem closes_of_place {content : Content} {opened : List Fragment} {position : Nat}
    {f : Fragment} {left : List String} (hstacked : Stacked opened)
    (hplace : place content (opened.map Fragment.name) position = (f, left))
    (hclosing : f.isClosing = true) : Closes opened f (openAfter opened f) := by
  cases content with
  | closing name =>
    have hcontent : f.content = .closing name := by
      cases hplace
      rfl
    have hleft := closeElement_map name opened f hcontent
    have hdepth : f.depth = (closeElement name (opened.map Fragment.name)).length := by
      cases hplace
      rfl
    have hparent : f.parent = (closeElement name (opened.map Fragment.name)).head? := by
      cases hplace
      rfl
    rw [hleft, List.length_map] at hdepth
    rw [hleft, List.head?_map] at hparent
    rcases openAfter_closing_cases hclosing opened with
      ⟨inner, start, outer, hopened, hname, hinner, hafter⟩ | ⟨hstray, hafter⟩
    · obtain ⟨hdepth', hparent', _⟩ := (hopened ▸ hstacked).of_append
      rw [hafter] at hdepth hparent ⊢
      exact .element hopened hname hinner (hdepth.trans hdepth'.symm) (hparent.trans hparent'.symm)
    · rw [hafter] at hdepth hparent ⊢
      exact .nothing hstray hdepth hparent
  | _ =>
    cases hplace
    cases hclosing

/-- Start tags that are open stand inside one another after every fragment. -/
theorem Stacked.place {content : Content} {opened : List Fragment} {position : Nat}
    {f : Fragment} {left : List String} (hstacked : Stacked opened)
    (hplace : Markup.place content (opened.map Fragment.name) position = (f, left)) :
    Stacked (openAfter opened f) := by
  cases content with
  | opening name attributes =>
    cases hplace
    exact ⟨List.length_map _, List.head?_map, hstacked⟩
  | empty name attributes =>
    cases hplace
    exact hstacked
  | text text =>
    cases hplace
    exact hstacked
  | closing name =>
    have hclosing : f.isClosing = true := by
      cases hplace
      rfl
    rcases openAfter_closing_cases hclosing opened with
      ⟨inner, start, outer, hopened, _, _, hafter⟩ | ⟨_, hafter⟩
    · rw [hafter]
      exact (hopened ▸ hstacked).of_append.2.2
    · rw [hafter]
      exact hstacked

/-- Start tags that are open were read, in the order in which they are reported. By induction on the
fragments from the last one on. -/
theorem reverse_openTags_sublist (fragments : List Fragment) :
    (openTags fragments).reverse.Sublist fragments := by
  induction fragments using List.reverseRecOn with
  | nil => exact List.Sublist.refl _
  | append_singleton before f ih =>
    have hnext : openTags (before ++ [f]) = openAfter (openTags before) f := List.foldl_append
    have hstill : (openTags before).reverse.Sublist (before ++ [f]) :=
      ih.trans (List.sublist_append_left before [f])
    rw [hnext]
    by_cases hclosing : f.isClosing = true
    · rcases openAfter_closing_cases hclosing (openTags before) with
        ⟨inner, start, outer, hopened, _, _, hafter⟩ | ⟨_, hafter⟩
      · rw [hafter]
        refine List.Sublist.trans ?_ hstill
        rw [hopened, List.reverse_append, List.reverse_cons, List.append_assoc]
        exact List.sublist_append_left _ _
      · rw [hafter]
        exact hstill
    · obtain ⟨content, depth, parent, position⟩ := f
      cases content with
      | opening name attributes =>
        show (_ :: openTags before).reverse.Sublist _
        rw [List.reverse_cons]
        exact ih.append (List.Sublist.refl _)
      | empty name attributes => exact hstill
      | text text => exact hstill
      | closing name => exact absurd rfl hclosing

/-! ### Whole readings -/

namespace Cursor

/-- However a reading is cancelled, it delivers its fragments on its way; where the input ends, the
elements that it reports are those open there. By induction on what is left to read. -/
theorem reads_readOn (cancel : Cancellation) (c : Cursor) :
    ∃ last, c.Reads (c.readOn cancel).fragments last ∧
      ∀ opened, (c.readOn cancel).ending = .ended opened → last.opened = opened := by
  fun_induction readOn cancel c with
  | case1 c hcancel => exact ⟨c, .stay, fun _ h => nomatch h⟩
  | case2 c hcancel ending hstep =>
    refine ⟨c, .stay, ?_⟩
    rintro opened rfl
    have hsteps := c.steps
    rw [hstep] at hsteps
    cases hsteps
    rfl
  | case3 c hcancel next hstep ih =>
    obtain ⟨last, hreads, hlast⟩ := ih
    exact ⟨last, .passed hstep hreads, hlast⟩
  | case4 c hcancel f next hstep later ih =>
    obtain ⟨last, hreads, hlast⟩ := ih
    exact ⟨last, .delivered hstep hreads, hlast⟩

/-- Each fragment is delivered at a cursor that the fragments before it lead to. By induction on the
reading. -/
theorem Reads.split {c last : Cursor} {before after : List Fragment} {f : Fragment}
    (h : c.Reads (before ++ f :: after) last) :
    ∃ here next, c.Reads before here ∧ here.step = .delivered f next := by
  generalize hall : before ++ f :: after = fragments at h
  induction h generalizing before with
  | stay => simp at hall
  | passed hstep _ ih =>
    obtain ⟨here, next, hreads, hdelivered⟩ := ih hall
    exact ⟨here, next, .passed hstep hreads, hdelivered⟩
  | @delivered c next last g rest hstep _ ih =>
    cases before with
    | nil =>
      obtain ⟨rfl, -⟩ := List.cons.inj hall
      exact ⟨c, next, .stay, hstep⟩
    | cons g' before =>
      obtain ⟨rfl, hrest⟩ := List.cons.inj hall
      obtain ⟨here, next', hreads, hdelivered⟩ := ih hrest
      exact ⟨here, next', .delivered hstep hreads, hdelivered⟩

/-- Wherever a reading has come, the open start tags stand inside one another. By induction on the
reading. -/
theorem Reads.stacked {c last : Cursor} {fragments : List Fragment} (h : c.Reads fragments last)
    {opened : List Fragment} (hopened : c.opened = opened.map Fragment.name)
    (hstacked : Stacked opened) : Stacked (fragments.foldl openAfter opened) := by
  induction h generalizing opened with
  | stay => exact hstacked
  | passed hstep _ ih => exact ih ((opened_of_passed hstep).trans hopened) hstacked
  | delivered hstep _ ih =>
    obtain ⟨content, position, hplace⟩ := place_of_delivered hstep
    rw [hopened] at hplace
    have heq := place_eq content opened position
    rw [hplace] at heq
    exact ih heq.1 (hstacked.place hplace)

end Cursor

/-- End tags restore the place of their start tags. However badly a log is nested and wherever its
reading is cancelled, every end tag closes the innermost open element of its name with all that was
opened inside, and has the depth and the parent of that element's start tag; if none is open it
stands among the open elements and closes none. Where the input ends, the reading is cut short if
and only if start tags are left that no end tag closed, and reports their names in the order in
which they were opened. -/
theorem end_tags_restore_place (cancel : Cancellation) (log : List UInt8) :
    (∀ before f after, (read cancel log).fragments = before ++ f :: after → f.isClosing = true →
      Closes (openTags before) f (openTags (before ++ [f]))) ∧
    (openTags (read cancel log).fragments).reverse.Sublist (read cancel log).fragments ∧
    ∀ opened, (read cancel log).ending = .ended opened →
      (read cancel log).truncation? =
        if openTags (read cancel log).fragments = [] then none
        else some (.unclosed ((openTags (read cancel log).fragments).reverse.map Fragment.name)) := by
  have hstart : (Cursor.start log).opened = [].map Fragment.name := Cursor.opened_start log
  obtain ⟨last, hreads, hlast⟩ := (Cursor.start log).reads_readOn cancel
  refine ⟨fun before f after hsplit hclosing => ?_, reverse_openTags_sublist _,
    fun opened hended => ?_⟩
  · unfold read at hsplit
    rw [hsplit] at hreads
    obtain ⟨here, next, hbefore, hdelivered⟩ := hreads.split
    obtain ⟨content, position, hplace⟩ := Cursor.place_of_delivered hdelivered
    rw [(hbefore.opened_eq hstart).1] at hplace
    have hnext : openTags (before ++ [f]) = openAfter (openTags before) f := List.foldl_append
    rw [hnext]
    exact closes_of_place (hbefore.stacked hstart trivial) hplace hclosing
  · have hnames : opened = (openTags (read cancel log).fragments).map Fragment.name :=
      (hlast opened hended).symm.trans (hreads.opened_eq hstart).1
    unfold Reading.truncation?
    rw [hended, hnames]
    generalize openTags (read cancel log).fragments = tags
    cases tags with
    | nil => rfl
    | cons f outer => simp [Ending.truncation?]

/-- An end tag that closes two elements, and one that closes none. -/
example : (read .never (Text.Utf8.encode "<a><b></a></c>")).fragments.map Fragment.depth =
    [0, 1, 0, 0] := by
  decide +kernel

end CompileLog.Markup
