import CompileLog.Markup.Reading
import Mathlib.Tactic.SplitIfs

/-!
# Reading a log that was cut

A writer that was killed leaves the front part of a log. A piece of markup ends where its own bytes
say so, so whatever bytes would have come behind the cut, every piece in front of it is read as it
stands. Only a text that runs up to the cut may be a part of a longer one. So a cut log gives the
first fragments of the whole log, and behind them at most one text.
-/

namespace CompileLog.Markup

/-! ### Pieces stay as they are -/

/-- The content of a tag that is closed stays the same whatever follows. -/
theorem tagContent?_append {quote : Option UInt8} {input content rest : List UInt8}
    (h : tagContent? quote input = some (content, rest)) (more : List UInt8) :
    tagContent? quote (input ++ more) = some (content, rest ++ more) := by
  induction input generalizing quote content with
  | nil => simp [tagContent?] at h
  | cons b input ih =>
    rw [List.cons_append]
    unfold tagContent? at h ⊢
    cases quote with
    | none =>
      simp only at h ⊢
      split_ifs at h ⊢ with hclose
      · cases h
        rfl
      all_goals
        obtain ⟨⟨inner, after⟩, hinner, heq⟩ := Option.map_eq_some_iff.mp h
        cases heq
        rw [ih hinner, Option.map_some]
    | some q =>
      simp only at h ⊢
      obtain ⟨⟨inner, after⟩, hinner, heq⟩ := Option.map_eq_some_iff.mp h
      cases heq
      rw [ih hinner, Option.map_some]

/-- What ends at an angle ends there whatever follows. -/
theorem upToAngle?_append {ends : List UInt8 → Bool} {before input content rest : List UInt8}
    (h : upToAngle? ends before input = some (content, rest)) (more : List UInt8) :
    upToAngle? ends before (input ++ more) = some (content, rest ++ more) := by
  induction input generalizing before with
  | nil => simp [upToAngle?] at h
  | cons b input ih =>
    rw [List.cons_append]
    unfold upToAngle? at h ⊢
    split_ifs at h ⊢ with hends
    · cases h
      rfl
    · exact ih h

/-- The content of a document type that is closed stays the same whatever follows. -/
theorem doctypeContent?_append {depth : Nat} {input content rest : List UInt8}
    (h : doctypeContent? depth input = some (content, rest)) (more : List UInt8) :
    doctypeContent? depth (input ++ more) = some (content, rest ++ more) := by
  induction input generalizing depth content with
  | nil => simp [doctypeContent?] at h
  | cons b input ih =>
    rw [List.cons_append]
    unfold doctypeContent? at h ⊢
    by_cases hends : b = closeAngle ∧ depth = 0
    · rw [if_pos hends] at h ⊢
      cases h
      rfl
    · rw [if_neg hends] at h ⊢
      obtain ⟨⟨inner, after⟩, hinner, heq⟩ := Option.map_eq_some_iff.mp h
      cases heq
      simp only [ih hinner, Option.map_some]

/-- A declaration that is closed is read alike whatever follows. -/
theorem declared_append {found found' : Option (List UInt8 × List UInt8)} {more : List UInt8}
    (hfound : ∀ content rest, found = some (content, rest) →
      found' = some (content, rest ++ more))
    {fault : Fault} {read : List UInt8 → Except Fault Piece} {width end₁ end₂ w : Nat}
    {piece : Piece} {rest : List UInt8}
    (h : (match found with
      | none => Outcome.broken fault end₁
      | some (content, rest) =>
        match read content with
        | .ok piece => .piece piece (width + content.length + 1) rest
        | .error fault => .broken fault (width + content.length + 1)) = .piece piece w rest) :
    (match found' with
      | none => Outcome.broken fault end₂
      | some (content, rest) =>
        match read content with
        | .ok piece => .piece piece (width + content.length + 1) rest
        | .error fault => .broken fault (width + content.length + 1)) =
      .piece piece w (rest ++ more) := by
  cases found with
  | none => cases h
  | some closed =>
    obtain ⟨content, after⟩ := closed
    rw [hfound content after rfl]
    simp only at h ⊢
    cases hread : read content with
    | error fault =>
      rw [hread] at h
      cases h
    | ok piece =>
      rw [hread] at h
      cases h
      rfl

/-- A declaration that is a piece stays that piece whatever follows. -/
theorem declaration_append {width w : Nat} {input rest : List UInt8} {piece : Piece}
    (h : declaration width input = .piece piece w rest) (more : List UInt8) :
    declaration width (input ++ more) = .piece piece w (rest ++ more) := by
  match input, h with
  | mark :: b :: tail, h =>
    unfold declaration at h ⊢
    simp only [List.cons_append, List.drop_succ_cons, List.drop_zero] at h ⊢
    rw [← List.cons_append, ← List.cons_append]
    split_ifs at h ⊢ with hsection hcomment hdoctype
    · exact declared_append (fun _ _ hfound => upToAngle?_append hfound more) h
    · exact declared_append (fun _ _ hfound => upToAngle?_append hfound more) h
    · exact declared_append (fun _ _ hfound => doctypeContent?_append hfound more) h

/-- Markup that is a piece stays that piece whatever follows. -/
theorem markup_append {width w : Nat} {input rest : List UInt8} {piece : Piece}
    (h : markup width input = .piece piece w rest) (more : List UInt8) :
    markup width (input ++ more) = .piece piece w (rest ++ more) := by
  cases input with
  | nil => cases h
  | cons b tail =>
    unfold markup at h ⊢
    simp only [List.cons_append] at h ⊢
    rw [← List.cons_append]
    split_ifs at h ⊢ with hdeclaration hinstruction hend
    · exact declaration_append h more
    · cases hfound : upToAngle? endsInstruction [] (b :: tail) with
      | none =>
        rw [hfound] at h
        cases h
      | some closed =>
        rw [upToAngle?_append hfound more]
        rw [hfound] at h
        simp only at h ⊢
        split_ifs at h ⊢
        cases h
        rfl
    all_goals
      cases hfound : tagContent? none (b :: tail) with
      | none =>
        rw [hfound] at h
        cases h
      | some closed =>
        rw [tagContent?_append hfound more]
        rw [hfound] at h
        cases h
        rfl

/-- Whether a piece is a text, which only the next tag ends. -/
def Piece.isText : Piece → Bool
  | .text _ => true
  | _ => false

/-- A run that ends inside a list ends there whatever follows. -/
theorem run_append {α : Type} {p : α → Bool} {xs : List α} (h : xs.dropWhile p ≠ [])
    (more : List α) :
    (xs ++ more).takeWhile p = xs.takeWhile p ∧
      (xs ++ more).dropWhile p = xs.dropWhile p ++ more := by
  induction xs with
  | nil => exact absurd rfl h
  | cons x xs ih =>
    rw [List.cons_append, List.takeWhile_cons, List.takeWhile_cons, List.dropWhile_cons,
      List.dropWhile_cons]
    by_cases hx : p x = true
    · rw [List.dropWhile_cons, if_pos hx] at h
      obtain ⟨htake, hdrop⟩ := ih h
      simp only [if_pos hx, htake, hdrop, and_self]
    · simp only [if_neg hx, List.cons_append, and_self]

/-- A piece stays that piece whatever follows, except a text that runs to the end of the input. -/
theorem scan_append {w : Nat} {input rest : List UInt8} {piece : Piece}
    (h : scan input = .piece piece w rest) (hended : piece.isText = true → rest ≠ [])
    (more : List UInt8) : scan (input ++ more) = .piece piece w (rest ++ more) := by
  unfold scan at h ⊢
  simp only at h ⊢
  cases hfront : input.dropWhile isSpace with
  | nil =>
    rw [hfront] at h
    cases h
  | cons b tail =>
    obtain ⟨htake, hdrop⟩ := run_append (hfront ▸ List.cons_ne_nil b tail) more
    rw [htake, hdrop]
    rw [hfront] at h ⊢
    simp only [List.cons_append] at h ⊢
    split_ifs at h ⊢ with hopen
    · exact markup_append h more
    · cases h
      obtain ⟨htake', hdrop'⟩ := run_append (hended rfl) more
      rw [htake', hdrop']

/-! ### Pieces use up the input -/

/-- A declaration that is closed and what follows make up the input. -/
theorem declared_width {found : Option (List UInt8 × List UInt8)} {input : List UInt8}
    (hfound : ∀ content rest, found = some (content, rest) → input = content ++ closeAngle :: rest)
    {fault : Fault} {read : List UInt8 → Except Fault Piece} {width limit w : Nat} {piece : Piece}
    {rest : List UInt8}
    (h : (match found with
      | none => Outcome.broken fault limit
      | some (content, rest) =>
        match read content with
        | .ok piece => .piece piece (width + content.length + 1) rest
        | .error fault => .broken fault (width + content.length + 1)) = .piece piece w rest) :
    w + rest.length = width + input.length := by
  cases found with
  | none => cases h
  | some closed =>
    obtain ⟨content, after⟩ := closed
    have hlength := congrArg List.length (hfound content after rfl)
    rw [List.length_append, List.length_cons] at hlength
    simp only at h
    split at h
    · cases h
      omega
    · cases h

/-- A declaration that is a piece uses up the bytes that its width tells. -/
theorem declaration_width {width w : Nat} {input rest : List UInt8} {piece : Piece}
    (h : declaration width input = .piece piece w rest) :
    w + rest.length = width + input.length := by
  unfold declaration at h
  simp only at h
  split at h
  · cases h
  · split_ifs at h with hsection hcomment hdoctype
    · exact declared_width (fun _ _ hfound => eq_of_upToAngle? hfound) h
    · exact declared_width (fun _ _ hfound => eq_of_upToAngle? hfound) h
    · exact declared_width (fun _ _ hfound => eq_of_doctypeContent? hfound) h

/-- Markup that is a piece uses up the bytes that its width tells. -/
theorem markup_width {width w : Nat} {input rest : List UInt8} {piece : Piece}
    (h : markup width input = .piece piece w rest) : w + rest.length = width + input.length := by
  cases input with
  | nil => cases h
  | cons b tail =>
    unfold markup at h
    simp only at h
    split_ifs at h with hdeclaration hinstruction
    · exact declaration_width h
    · cases hfound : upToAngle? endsInstruction [] (b :: tail) with
      | none =>
        rw [hfound] at h
        cases h
      | some closed =>
        have hlength := congrArg List.length (eq_of_upToAngle? hfound)
        rw [hfound] at h
        simp only at h
        split_ifs at h
        cases h
        simp only [List.reverse_nil, List.nil_append, List.length_append, List.length_cons]
          at hlength ⊢
        omega
    all_goals
      cases hfound : tagContent? none (b :: tail) with
      | none =>
        rw [hfound] at h
        cases h
      | some closed =>
        have hlength := congrArg List.length (eq_of_tagContent? hfound)
        rw [hfound] at h
        cases h
        simp only [List.length_append, List.length_cons] at hlength ⊢
        omega

/-- A piece uses up the bytes that its width tells. -/
theorem scan_width {w : Nat} {input rest : List UInt8} {piece : Piece}
    (h : scan input = .piece piece w rest) : w + rest.length = input.length := by
  have hblanks := congrArg List.length (List.takeWhile_append_dropWhile (p := isSpace) (l := input))
  rw [List.length_append] at hblanks
  unfold scan at h
  simp only at h
  cases hfront : input.dropWhile isSpace with
  | nil =>
    rw [hfront] at h
    cases h
  | cons b tail =>
    rw [hfront] at h hblanks
    simp only at h
    rw [List.length_cons] at hblanks
    split_ifs at h with hopen
    · have := markup_width h
      omega
    · cases h
      have hrun := congrArg List.length
        (List.takeWhile_append_dropWhile (p := fun c : UInt8 => c ≠ openAngle) (l := tail))
      rw [List.length_append] at hrun
      rw [List.length_cons]
      omega

/-! ### Fragments stay as they are -/

/-- Whether a fragment is a text. -/
def Fragment.IsText (f : Fragment) : Prop := ∃ text, f.content = .text text

/-- The fragments of a log that was cut: the first ones of the whole log, and then perhaps one
text. -/
inductive CutOff (whole : List Fragment) : List Fragment → Prop where
  /-- The cut left fragments of the whole log only. -/
  | clean {kept : List Fragment} (h : kept <+: whole) : CutOff whole kept
  /-- The cut went through a text. -/
  | ragged {kept : List Fragment} (h : kept <+: whole) {last : Fragment} (htext : last.IsText) :
    CutOff whole (kept ++ [last])

/-- The fragments of a log that was cut at a position: the first ones of the whole log, and then
perhaps one text, which runs up to the cut. -/
inductive CutAt (limit : Nat) (whole : List Fragment) : List Fragment → Prop where
  /-- The cut left fragments of the whole log only. -/
  | clean {kept : List Fragment} (h : kept <+: whole) : CutAt limit whole kept
  /-- The cut went through a text. -/
  | ragged {kept : List Fragment} (h : kept <+: whole) {last : Fragment} (htext : last.IsText)
      (hlast : last.position = limit) : CutAt limit whole (kept ++ [last])

namespace CutAt

variable {limit : Nat} {whole cut : List Fragment}

/-- Where nothing was delivered, nothing was cut off but the rest. -/
theorem nil (limit : Nat) (whole : List Fragment) : CutAt limit whole [] := .clean List.nil_prefix

/-- A fragment that both logs begin with. -/
theorem cons (h : CutAt limit whole cut) (f : Fragment) :
    CutAt limit (f :: whole) (f :: cut) := by
  cases h with
  | clean h => exact .clean ((List.prefix_cons_inj f).mpr h)
  | ragged h htext hlast =>
    rw [← List.cons_append]
    exact .ragged ((List.prefix_cons_inj f).mpr h) htext hlast

/-- Wherever the cut was. -/
theorem cutOff (h : CutAt limit whole cut) : CutOff whole cut := by
  cases h with
  | clean h => exact .clean h
  | ragged h htext _ => exact .ragged h htext

end CutAt

namespace Cursor

/-- The cursor with more input behind. -/
def followedBy (c : Cursor) (more : List UInt8) : Cursor := { c with input := c.input ++ more }

/-- The position where the input ends. -/
def limit (c : Cursor) : Nat := c.position + c.input.length

/-- Reading on does not move the end of the input. -/
theorem limit_behind {c : Cursor} {piece : Piece} {width : Nat} {rest : List UInt8}
    (h : scan c.input = .piece piece width rest) : (c.behind piece width rest).limit = c.limit := by
  have hwidth := scan_width h
  unfold limit behind
  simp only
  omega

/-- A step does not move the end of the input. -/
theorem limit_step {c next : Cursor}
    (h : c.step = .passed next ∨ ∃ fragment, c.step = .delivered fragment next) :
    next.limit = c.limit := by
  have hsteps := c.steps
  rcases h with h | ⟨fragment, h⟩
  all_goals
    rw [h] at hsteps
    cases hsteps with
    | _ hscan => exact limit_behind hscan

/-- What is delivered of a piece of text is a text. -/
theorem isText_of_content? {piece : Piece} (h : piece.isText = true) {content : Content}
    (hcontent : piece.content? = some content) : ∃ text, content = .text text := by
  cases piece with
  | text raw =>
    simp only [Piece.content?] at hcontent
    split_ifs at hcontent
    cases hcontent
    exact ⟨_, rfl⟩
  | _ => cases h

/-- What a reading that runs to its end delivers, piece by piece. -/
theorem fragments_readOn (c : Cursor) :
    (c.readOn .never).fragments =
      match c.step with
      | .stopped _ => []
      | .passed next => (next.readOn .never).fragments
      | .delivered fragment next => fragment :: (next.readOn .never).fragments := by
  rw [readOn]
  simp only [Cancellation.never, Bool.false_eq_true, if_false]
  split <;> rename_i hstep <;> rw [hstep]

/-- Where no input is left, nothing is delivered. -/
theorem fragments_readOn_of_input_eq_nil {c : Cursor} (h : c.input = []) :
    (c.readOn .never).fragments = [] := by
  have hstep : c.step = .stopped (.ended c.opened) := by
    unfold step
    rw [h]
    rfl
  rw [fragments_readOn, hstep]

/-- A step over a piece goes alike whatever follows, unless the piece is a text that may go on. -/
theorem step_followedBy {c : Cursor} {piece : Piece} {width : Nat} {rest : List UInt8}
    (hscan : scan c.input = .piece piece width rest)
    (hended : piece.isText = true → rest ≠ []) (more : List UInt8) :
    (c.followedBy more).step =
      match c.step with
      | .passed next => .passed (next.followedBy more)
      | .delivered fragment next => .delivered fragment (next.followedBy more)
      | .stopped ending => .stopped ending := by
  have hmore : scan (c.followedBy more).input = .piece piece width (rest ++ more) :=
    scan_append hscan hended more
  unfold step
  rw [hscan, hmore]
  simp only
  cases piece.content? with
  | none => rfl
  | some content => rfl

/-- A step over a text that runs to the end of the input delivers at most that text. -/
theorem cutAt_of_text {c : Cursor} {piece : Piece} {width : Nat}
    (hscan : scan c.input = .piece piece width []) (htext : piece.isText = true)
    (whole : List Fragment) : CutAt c.limit whole (c.readOn .never).fragments := by
  have hlast : (c.behind piece width []).position = c.limit := limit_behind hscan
  rw [fragments_readOn]
  unfold step
  rw [hscan]
  simp only
  cases hcontent : piece.content? with
  | none =>
    simp only
    rw [fragments_readOn_of_input_eq_nil rfl]
    exact .nil _ whole
  | some content =>
    obtain ⟨text, rfl⟩ := isText_of_content? htext hcontent
    simp only [place]
    rw [fragments_readOn_of_input_eq_nil rfl]
    exact .ragged List.nil_prefix ⟨text, rfl⟩ hlast

/-- Reading up to a cut delivers what reading on would have delivered, up to a text that the cut
went through. By induction on what is left to read. -/
theorem cutAt_readOn (c : Cursor) (more : List UInt8) :
    CutAt c.limit ((c.followedBy more).readOn .never).fragments (c.readOn .never).fragments := by
  induction hlength : c.input.length using Nat.strongRecOn generalizing c with
  | ind n ih =>
    subst hlength
    cases hscan : scan c.input with
    | ended =>
      have hstep : c.step = .stopped (.ended c.opened) := by
        unfold step
        rw [hscan]
      rw [c.fragments_readOn, hstep]
      exact .nil _ _
    | broken fault width =>
      have hstep : c.step = .stopped (.unreadable (c.position + width) fault) := by
        unfold step
        rw [hscan]
      rw [c.fragments_readOn, hstep]
      exact .nil _ _
    | piece piece width rest =>
      by_cases hcut : piece.isText = true ∧ rest = []
      · obtain ⟨htext, rfl⟩ := hcut
        exact cutAt_of_text hscan htext _
      · have hended : piece.isText = true → rest ≠ [] := fun htext hrest => hcut ⟨htext, hrest⟩
        have hstep := step_followedBy hscan hended more
        rw [c.fragments_readOn, (c.followedBy more).fragments_readOn, hstep]
        cases hnow : c.step with
        | stopped ending => exact .nil _ _
        | passed next =>
          rw [← limit_step (.inl hnow)]
          exact ih _ (length_step_lt (.inl hnow)) next rfl
        | delivered fragment next =>
          have hdelivered : ∃ f, c.step = .delivered f next := ⟨fragment, hnow⟩
          rw [← limit_step (.inr hdelivered)]
          exact (ih _ (length_step_lt (.inr hdelivered)) next rfl).cons fragment

end Cursor

/-- Whether a log begins with the three bytes of a byte order mark. -/
def HasMark (log : List UInt8) : Prop := ∃ rest, log = 0xEF :: 0xBB :: 0xBF :: rest

/-- Without a byte order mark a log is read from its first byte. -/
theorem Cursor.start_eq_front {log : List UInt8} (h : ¬ HasMark log) :
    Cursor.start log = .front log := by
  unfold Cursor.start
  split
  · next rest => exact absurd ⟨rest, rfl⟩ h
  · rfl

/-- Reading the front part of a log gives the first fragments of the whole log, and behind them at
most one text, which runs up to the cut. -/
theorem cutAt_read (log : List UInt8) (n : Nat) :
    CutAt (Cursor.start (log.take n)).limit (read .never log).fragments
      (read .never (log.take n)).fragments := by
  unfold read
  by_cases hmark : HasMark log
  · obtain ⟨rest, rfl⟩ := hmark
    -- A cut inside the mark leaves bytes that are read as a text that the whole log has not.
    match n with
    | 0 =>
      have hnone : ((Cursor.start []).readOn .never).fragments = [] :=
        Cursor.fragments_readOn_of_input_eq_nil rfl
      rw [List.take_zero, hnone]
      exact .nil _ _
    | 1 =>
      have hscan : scan (Cursor.front [0xEF]).input = .piece (.text [0xEF]) 1 [] := rfl
      exact Cursor.cutAt_of_text hscan rfl _
    | 2 =>
      have hscan : scan (Cursor.front [0xEF, 0xBB]).input = .piece (.text [0xEF, 0xBB]) 2 [] := rfl
      exact Cursor.cutAt_of_text hscan rfl _
    | n + 3 =>
      have hcut := Cursor.cutAt_readOn { Cursor.front (rest.take n) with preface := 3 }
        (rest.drop n)
      have hwhole : Cursor.followedBy { Cursor.front (rest.take n) with preface := 3 }
          (rest.drop n) = { Cursor.front rest with preface := 3 } := by
        unfold Cursor.followedBy Cursor.front
        simp only [List.take_append_drop]
      rw [hwhole] at hcut
      exact hcut
  · have hmark' : ¬ HasMark (log.take n) := by
      rintro ⟨rest, hrest⟩
      refine hmark ⟨rest ++ log.drop n, ?_⟩
      have hlog := List.take_append_drop n log
      rw [hrest] at hlog
      exact hlog.symm
    rw [Cursor.start_eq_front hmark, Cursor.start_eq_front hmark']
    have hcut := Cursor.cutAt_readOn (.front (log.take n)) (log.drop n)
    have hwhole : (Cursor.front (log.take n)).followedBy (log.drop n) = .front log := by
      unfold Cursor.followedBy Cursor.front
      simp only [List.take_append_drop]
    rw [hwhole] at hcut
    exact hcut

/-- Reading the front part of a log gives the first fragments of the whole log, and behind them at
most one text. -/
theorem cutOff_read (log : List UInt8) (n : Nat) :
    CutOff (read .never log).fragments (read .never (log.take n)).fragments :=
  (cutAt_read log n).cutOff

end CompileLog.Markup
