import CompileLog.Text.Blank
import Mathlib.Data.List.Basic
import Mathlib.Data.List.TakeWhile

/-!
# Lines that are put together

Lines that each end with a line feed are cut into the same lines again, up to one carriage return
before each line feed. No line holds a line feed, and a text is blank exactly if all its lines are.
-/

namespace CompileLog.Text

/-- A line without the carriage return that belongs to the end of it. -/
def withoutReturn (line : List Char) : List Char :=
  if line.getLast? = some '\r' then line.dropLast else line

/-- A line is what stays of it and perhaps a carriage return. -/
theorem withoutReturn_cases (line : List Char) :
    withoutReturn line = line ∨ line = withoutReturn line ++ ['\r'] := by
  unfold withoutReturn
  split
  · next hlast => exact .inr (List.dropLast_append_getLast? '\r' hlast).symm
  · exact .inl rfl

/-- Text up to the first line feed is the first line. -/
theorem lines_append {line : List Char} (h : '\n' ∉ line) (rest : List Char) :
    lines (line ++ '\n' :: rest) = withoutReturn line :: lines rest := by
  have hkept : ∀ c ∈ line, decide (c ≠ '\n') = true := fun c hc =>
    decide_eq_true (ne_of_mem_of_not_mem hc h)
  have htake : (line ++ '\n' :: rest).takeWhile (fun d => decide (d ≠ '\n')) = line := by
    rw [List.takeWhile_append_of_pos hkept]
    simp
  have hdrop : (line ++ '\n' :: rest).dropWhile (fun d => decide (d ≠ '\n')) = '\n' :: rest := by
    rw [List.dropWhile_append_of_pos hkept]
    simp
  obtain ⟨c, tail, hfull⟩ := List.exists_cons_of_ne_nil (List.append_ne_nil_of_right_ne_nil line
    (List.cons_ne_nil '\n' rest))
  rw [hfull] at htake hdrop ⊢
  rw [lines, htake]
  split
  · next hnil =>
    rw [hdrop] at hnil
    cases hnil
  · next hcons =>
    rw [hdrop] at hcons
    obtain ⟨-, rfl⟩ := List.cons.inj hcons
    rfl

/-- Text without a line feed is one line. -/
theorem lines_eq_singleton {line : List Char} (h : '\n' ∉ line) (hne : line ≠ []) :
    lines line = [line] := by
  have hkept : ∀ c ∈ line, decide (c ≠ '\n') = true := fun c hc =>
    decide_eq_true (ne_of_mem_of_not_mem hc h)
  have htake := List.takeWhile_eq_self_iff.mpr hkept
  have hdrop := List.dropWhile_eq_nil_iff.mpr hkept
  obtain ⟨c, tail, rfl⟩ := List.exists_cons_of_ne_nil hne
  rw [lines, htake]
  split
  · rfl
  · next hcons =>
    rw [hdrop] at hcons
    cases hcons

/-- A text is empty, or one line without a line feed, or a line in front of a line feed and text
behind it. -/
@[elab_as_elim]
theorem lines_induction {motive : List Char → Prop} (nil : motive [])
    (last : ∀ line, '\n' ∉ line → line ≠ [] → motive line)
    (cons : ∀ line rest, '\n' ∉ line → motive rest → motive (line ++ '\n' :: rest))
    (cs : List Char) : motive cs := by
  induction hlength : cs.length using Nat.strongRecOn generalizing cs with
  | ind n ih =>
    by_cases hfeed : '\n' ∈ cs
    · obtain ⟨line, rest, rfl, hline⟩ := List.eq_append_cons_of_mem hfeed
      refine cons line rest hline (ih rest.length ?_ rest rfl)
      rw [← hlength, List.length_append, List.length_cons]
      omega
    · by_cases hempty : cs = []
      · exact hempty ▸ nil
      · exact last cs hfeed hempty

/-- No line holds a line feed. By induction on the lines. -/
theorem newline_notMem_of_mem_lines {cs line : List Char} (h : line ∈ lines cs) : '\n' ∉ line := by
  induction cs using lines_induction with
  | nil => simp [lines] at h
  | last only honly hne =>
    rw [lines_eq_singleton honly hne, List.mem_singleton] at h
    rwa [h]
  | cons first rest hfirst ih =>
    rw [lines_append hfirst] at h
    rcases List.mem_cons.mp h with rfl | hrest
    · rcases withoutReturn_cases first with hkept | hreturn
      · rwa [hkept]
      · intro hfeed
        exact hfirst (hreturn ▸ List.mem_append_left _ hfeed)
    · exact ih hrest

/-- A line is blank exactly if it is without its carriage return. -/
theorem isBlankText_withoutReturn (line : List Char) :
    isBlankText (withoutReturn line) = isBlankText line := by
  rcases withoutReturn_cases line with hkept | hreturn
  · rw [hkept]
  · have hblank : isBlank '\r' = true := rfl
    conv_rhs => rw [hreturn]
    simp [isBlankText, hblank]

/-- A text is blank exactly if its lines are. By induction on the lines. -/
theorem all_isBlankText_lines (cs : List Char) : (lines cs).all isBlankText = isBlankText cs := by
  induction cs using lines_induction with
  | nil => simp [lines, isBlankText]
  | last only honly hne => simp [lines_eq_singleton honly hne]
  | cons first rest hfirst ih =>
    have hblank : isBlank '\n' = true := rfl
    rw [lines_append hfirst, List.all_cons, ih, isBlankText_withoutReturn]
    simp [isBlankText, hblank]

/-- Lines in front of line feeds are cut again where they were put together. By induction on the
lines. -/
theorem lines_flatMap {ls : List (List Char)} (h : ∀ line ∈ ls, '\n' ∉ line) :
    lines (ls.flatMap fun line => line ++ ['\n']) = ls.map withoutReturn := by
  induction ls with
  | nil => simp [lines]
  | cons line rest ih =>
    obtain ⟨hline, hrest⟩ := List.forall_mem_cons.mp h
    rw [List.flatMap_cons, List.append_assoc, List.singleton_append, lines_append hline, ih hrest,
      List.map_cons]

/-- Lines in front of line feeds are a blank text exactly if all of them are blank. -/
theorem isBlankText_flatMap (ls : List (List Char)) :
    isBlankText (ls.flatMap fun line => line ++ ['\n']) = ls.all isBlankText := by
  have hblank : isBlank '\n' = true := rfl
  induction ls with
  | nil => rfl
  | cons line rest ih =>
    rw [List.flatMap_cons, List.all_cons, ← ih]
    simp [isBlankText, hblank]

end CompileLog.Text
