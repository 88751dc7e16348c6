import CompileLog.Proofs.Markup.Cut

/-!
# Readings that stop early

A log may be cut by its writer, and a reading may be cancelled by whoever asked for it. Both only
end the fragments earlier. What was delivered until then is what the whole reading delivers first,
place and position included, except a text that the cut may have shortened. A cancelled reading
says that it was cancelled and never that the log is truncated.
-/

namespace CompileLog.Markup

/-! ### Where a log was cut -/

/-- Whether a fragment is a text behind which the input ends. -/
def Fragment.isTextUpTo (limit : Nat) (f : Fragment) : Bool :=
  match f.content with
  | .text _ => f.position == limit
  | _ => false

/-- Fragments without the last one, if that is a text behind which the input ends. -/
def withoutTextUpTo (limit : Nat) (fragments : List Fragment) : List Fragment :=
  if fragments.getLast?.any (Fragment.isTextUpTo limit) then fragments.dropLast else fragments

/-- Without a last text nothing is added. -/
theorem isPrefix_withoutTextUpTo (limit : Nat) (fragments : List Fragment) :
    withoutTextUpTo limit fragments <+: fragments := by
  unfold withoutTextUpTo
  split_ifs
  · exact List.dropLast_prefix fragments
  · exact List.prefix_rfl

/-- A text behind which the input ends is left out. -/
theorem withoutTextUpTo_concat {last : Fragment} (htext : last.IsText)
    (kept : List Fragment) : withoutTextUpTo last.position (kept ++ [last]) = kept := by
  obtain ⟨text, hcontent⟩ := htext
  have hlast : last.isTextUpTo last.position = true := by
    unfold Fragment.isTextUpTo
    rw [hcontent]
    exact beq_self_eq_true _
  unfold withoutTextUpTo
  rw [List.getLast?_concat, Option.any_some, if_pos hlast, List.dropLast_concat]

/-- Without the text that the cut went through, the fragments of a cut log are the first ones of
the whole log. -/
theorem CutAt.isPrefix_withoutTextUpTo {limit : Nat} {whole cut : List Fragment}
    (h : CutAt limit whole cut) : withoutTextUpTo limit cut <+: whole := by
  cases h with
  | clean h => exact (Markup.isPrefix_withoutTextUpTo limit cut).trans h
  | ragged h htext hlast =>
    subst hlast
    rw [withoutTextUpTo_concat htext]
    exact h

/-! ### Where a reading was cancelled -/

/-- A piece that delivers nothing leaves the number of delivered fragments. -/
theorem Cursor.fragments_of_passed {c next : Cursor} (h : c.step = .passed next) :
    next.fragments = c.fragments := by
  have hsteps := c.steps
  rw [h] at hsteps
  cases hsteps
  rfl

/-- A fragment is counted. -/
theorem Cursor.fragments_of_delivered {c next : Cursor} {fragment : Fragment}
    (h : c.step = .delivered fragment next) : next.fragments = c.fragments + 1 := by
  have hsteps := c.steps
  rw [h] at hsteps
  cases hsteps
  rfl

/-- A reading to which this many fragments may still be delivered: it gives those, and if there are
fewer, all that the whole reading gives. -/
def Reading.allowed (whole : Reading) (n : Nat) : Reading :=
  if n ≤ whole.fragments.length then ⟨whole.fragments.take n, .cancelled⟩ else whole

/-- To a reading to which no fragment may be delivered, none is. -/
theorem Reading.allowed_zero (whole : Reading) : whole.allowed 0 = ⟨[], .cancelled⟩ := by
  unfold allowed
  rw [if_pos (Nat.zero_le _), List.take_zero]

/-- The first fragment is one of those that may be delivered. -/
theorem Reading.allowed_succ (later : Reading) (fragment : Fragment) (n : Nat) :
    Reading.allowed { later with fragments := fragment :: later.fragments } (n + 1) =
      { later.allowed n with fragments := fragment :: (later.allowed n).fragments } := by
  unfold allowed
  simp only [List.length_cons, Nat.add_le_add_iff_right, List.take_succ_cons]
  split_ifs <;> rfl

/-- A reading that is cancelled before a fragment goes as the whole reading until then. By
induction on the pieces: one that delivers nothing leaves as many fragments to be delivered, and a
fragment is one of them. -/
theorem Cursor.readOn_beforeFragment (c : Cursor) (n : Nat) :
    c.readOn (.beforeFragment (c.fragments + n)) = (c.readOn .never).allowed n := by
  induction hlength : c.input.length using Nat.strongRecOn generalizing c n with
  | ind length ih =>
    subst hlength
    cases n with
    | zero =>
      have hcancelled : Cancellation.beforeFragment (c.fragments + 0) c.progress = true :=
        decide_eq_true (Nat.le_refl _)
      rw [Reading.allowed_zero, readOn, if_pos hcancelled]
    | succ n =>
      have hbefore : ¬ c.fragments + (n + 1) ≤ c.progress.fragments := by
        show ¬ c.fragments + (n + 1) ≤ c.fragments
        omega
      have hgoes : Cancellation.beforeFragment (c.fragments + (n + 1)) c.progress = false :=
        decide_eq_false hbefore
      have hnever : Cancellation.never c.progress = false := rfl
      rw [readOn, if_neg (Bool.eq_false_iff.mp hgoes), readOn, if_neg (Bool.eq_false_iff.mp hnever)]
      split
      · rfl
      · next next hstep =>
        have := ih _ (length_step_lt (.inl hstep)) next (n + 1) rfl
        rwa [fragments_of_passed hstep] at this
      · next fragment next hstep =>
        have := ih _ (length_step_lt (.inr ⟨fragment, hstep⟩)) next n rfl
        rw [fragments_of_delivered hstep, Nat.add_right_comm, Nat.add_assoc] at this
        simp only
        rw [this, Reading.allowed_succ]

/-- The cursor at the start of a log has delivered nothing. -/
theorem Cursor.fragments_start (log : List UInt8) : (Cursor.start log).fragments = 0 := by
  unfold start
  split <;> rfl

/-- A reading that is cancelled before a fragment goes as the whole reading until then. -/
theorem read_beforeFragment (n : Nat) (log : List UInt8) :
    read (.beforeFragment n) log = (read .never log).allowed n := by
  have h := Cursor.readOn_beforeFragment (Cursor.start log) n
  rwa [Cursor.fragments_start, Nat.zero_add] at h

/-! ### Both -/

/-- A reading that stops early only delivers less. The fragments of a front part of a log, without
a last text behind which the front part ends, are the first ones of the whole log. A reading that
is cancelled before a fragment delivers the fragments in front of that one. Was it cancelled in
time, it says so and nothing of a truncation, else it ends as the whole reading ends. -/
theorem stopped_readings_deliver_first_fragments (log : List UInt8) :
    (∀ front, front <+: log →
      withoutTextUpTo (Cursor.start front).limit (read .never front).fragments <+:
        (read .never log).fragments) ∧
    ∀ n,
      (read (.beforeFragment n) log).fragments = (read .never log).fragments.take n ∧
      (n ≤ (read .never log).fragments.length →
        (read (.beforeFragment n) log).isCancelled = true ∧
        (read (.beforeFragment n) log).truncation? = none) ∧
      ((read .never log).fragments.length < n →
        (read (.beforeFragment n) log).ending = (read .never log).ending) := by
  constructor
  · intro front hfront
    rw [List.prefix_iff_eq_take.mp hfront]
    exact (cutAt_read log front.length).isPrefix_withoutTextUpTo
  · intro n
    rw [read_beforeFragment]
    unfold Reading.allowed
    by_cases hn : n ≤ (read .never log).fragments.length
    · rw [if_pos hn]
      exact ⟨rfl, fun _ => ⟨rfl, rfl⟩, fun hlt => absurd hn (Nat.not_le.mpr hlt)⟩
    · rw [if_neg hn]
      exact ⟨(List.take_of_length_le (Nat.le_of_not_le hn)).symm, fun h => absurd h hn,
        fun _ => rfl⟩

/-- A cut inside a reference leaves a text that the whole log does not have. -/
example : (read .never (Text.Utf8.encode "<a>x&l")).fragments.map Fragment.content =
      [.opening "a" [], .text "x&l"] ∧
    (read .never (Text.Utf8.encode "<a>x&lt;</a>")).fragments.map Fragment.content =
      [.opening "a" [], .text "x<", .closing "a"] := by
  decide +kernel

end CompileLog.Markup
