import CompileLog.Listing.Split
import CompileLog.Proofs.Text.Lines

/-!
# Splitting loses nothing

Printed output is cut between its lines and nothing of it is lost, unless it is blank. Each piece
holds something, has no more than one header line, and does not say behind code that other code is
decoded.
-/

namespace CompileLog.Listing

open Text

/-! ### Lines of one method -/

/-- Lines that can all belong to the listing of one method: no more than one heads it, and none
behind code says which code is decoded. -/
structure OneMethod (ls : List (List Char)) : Prop where
  /-- There is no second header line. -/
  header : ls.countP isHeaderLine ≤ 1
  /-- No code stands in front of a line that says which code is decoded. -/
  decoding : ls.Pairwise fun before behind =>
    isCodeLine before = true → isDecodingLine behind = false

/-- Whether a text starts with a spelling does not depend on a carriage return behind it. -/
theorem isPrefixOf_trimStart_withoutReturn {start : List Char} (hstart : '\r' ∉ start)
    (line : List Char) :
    start.isPrefixOf (trimStart (withoutReturn line)) = start.isPrefixOf (trimStart line) := by
  rcases withoutReturn_cases line with hkept | happended
  · rw [hkept]
  · generalize withoutReturn line = short at happended
    subst happended
    have hreturn : trimStart ['\r'] = [] := rfl
    rw [Bool.eq_iff_iff, List.isPrefixOf_iff_prefix, List.isPrefixOf_iff_prefix]
    unfold trimStart at hreturn ⊢
    rw [List.dropWhile_append, hreturn]
    split
    · next hempty => rw [List.isEmpty_iff.mp hempty]
    · rw [List.prefix_concat_iff]
      refine ⟨.inr, ?_⟩
      rintro (rfl | hprefix)
      · exact absurd (List.mem_append_right _ (List.mem_singleton_self _)) hstart
      · exact hprefix

/-- Lines belong to one method if they do so without their carriage returns. -/
theorem OneMethod.withoutReturns {ls : List (List Char)} (h : OneMethod ls) :
    OneMethod (ls.map withoutReturn) := by
  have hheader : isHeaderLine ∘ withoutReturn = isHeaderLine :=
    funext (isPrefixOf_trimStart_withoutReturn (by decide))
  have hcode : ∀ line, isCodeLine (withoutReturn line) = isCodeLine line :=
    isPrefixOf_trimStart_withoutReturn (by decide)
  have hdecoding : ∀ line, isDecodingLine (withoutReturn line) = isDecodingLine line :=
    isPrefixOf_trimStart_withoutReturn (by decide)
  constructor
  · rw [List.countP_map, hheader]
    exact h.header
  · rw [List.pairwise_map]
    exact h.decoding.imp fun hbefore => by rwa [hcode, hdecoding]

/-- Another line behind lines of one method belongs to it too, unless it heads a second listing or
says behind code which code is decoded. -/
theorem OneMethod.concat {ls : List (List Char)} (h : OneMethod ls) {line : List Char}
    (hheader : isHeaderLine line = false ∨ ls.any isHeaderLine = false)
    (hdecoding : isDecodingLine line = false ∨ ls.any isCodeLine = false) :
    OneMethod (ls ++ [line]) := by
  constructor
  · rw [List.countP_append, List.countP_singleton]
    rcases hheader with hother | hnone
    · rw [hother]
      exact h.header
    · have hzero : ls.countP isHeaderLine = 0 :=
        List.countP_eq_zero.mpr (List.any_eq_false.mp hnone)
      rw [hzero]
      split <;> omega
  · rw [List.pairwise_append]
    refine ⟨h.decoding, List.pairwise_singleton _ _, fun before hbefore behind hbehind => ?_⟩
    obtain rfl := List.mem_singleton.mp hbehind
    intro hcode
    rcases hdecoding with hother | hnone
    · exact hother
    · exact absurd hcode (List.any_eq_false.mp hnone before hbefore)

/-- A line that starts with something but blanks is not blank. -/
theorem isBlankText_eq_false_of_isPrefixOf {start line : List Char} (hne : start ≠ [])
    (h : start.isPrefixOf (trimStart line) = true) : isBlankText line = false := by
  rw [Bool.eq_false_iff]
  intro hblank
  have hempty : trimStart line = [] :=
    List.dropWhile_eq_nil_iff.mpr (List.all_eq_true.mp hblank)
  rw [hempty, List.isPrefixOf_iff_prefix, List.prefix_nil] at h
  exact hne h

/-! ### The listing being collected -/

namespace Pending

/-- A listing being collected knows of its lines whether there is a header and code among them, and
they belong to one method. -/
structure IsKept (p : Pending) : Prop where
  /-- A header was seen if one is there. -/
  header : p.header = p.lines.any isHeaderLine
  /-- Code was seen if some is there. -/
  code : p.code = p.lines.any isCodeLine
  /-- The lines belong to one method. -/
  one : OneMethod p.lines.reverse

/-- Nothing has been collected. -/
theorem isKept_none : none.IsKept :=
  ⟨rfl, rfl, ⟨Nat.zero_le 1, .nil⟩⟩

/-- A line that opens no new listing is collected with the others. -/
theorem IsKept.add {p : Pending} (hp : p.IsKept) {line : List Char}
    (hline : p.opensNew line = false) : (p.add line).IsKept := by
  unfold opensNew at hline
  rw [Bool.or_eq_false_iff, Bool.and_eq_false_iff, Bool.and_eq_false_iff,
    Bool.or_eq_false_iff, hp.header, hp.code] at hline
  obtain ⟨hheader, hdecoding⟩ := hline
  refine ⟨?_, ?_, ?_⟩
  · show (p.header || isHeaderLine line) = (line :: p.lines).any isHeaderLine
    rw [hp.header, List.any_cons, Bool.or_comm]
  · show (p.code || isCodeLine line) = (line :: p.lines).any isCodeLine
    rw [hp.code, List.any_cons, Bool.or_comm]
  · show OneMethod (line :: p.lines).reverse
    rw [List.reverse_cons]
    apply hp.one.concat
    · rw [List.any_reverse]
      exact hheader.imp_right And.left
    · rw [List.any_reverse]
      exact hdecoding

/-- A line that opens a new listing is not blank. -/
theorem isBlankText_of_opensNew {p : Pending} {line : List Char} (h : p.opensNew line = true) :
    isBlankText line = false := by
  unfold opensNew at h
  rw [Bool.or_eq_true, Bool.and_eq_true, Bool.and_eq_true] at h
  rcases h with ⟨hheader, -⟩ | ⟨hdecoding, -⟩
  · exact isBlankText_eq_false_of_isPrefixOf (by decide) hheader
  · exact isBlankText_eq_false_of_isPrefixOf (by decide) hdecoding

/-- As long as all lines are blank, no line opens a new listing. -/
theorem IsKept.opensNew_of_isBlank {p : Pending} (hp : p.IsKept) (hblank : p.isBlank = true)
    (line : List Char) : p.opensNew line = false := by
  have hnone : ∀ start : List Char, start ≠ [] →
      p.lines.any (fun line => start.isPrefixOf (trimStart line)) = false := by
    intro start hne
    rw [List.any_eq_false]
    intro seen hseen hprefix
    have hother := isBlankText_eq_false_of_isPrefixOf hne hprefix
    rw [List.all_eq_true.mp hblank seen hseen] at hother
    cases hother
  have hheader : p.header = false := hp.header.trans (hnone _ (by decide))
  have hcode : p.code = false := hp.code.trans (hnone _ (by decide))
  unfold opensNew
  rw [hheader, hcode]
  simp

end Pending

/-! ### The pieces -/

/-- The pieces are the lines put together in groups: all lines in order unless they are all blank,
each group with something in it and of one method. By induction on the lines left. -/
theorem exists_groups_splitFrom {p : Pending} (hp : p.IsKept) (ls : List (List Char)) :
    ∃ groups : List (List (List Char)),
      splitFrom p ls = groups.map (fun group => group.flatMap fun line => line ++ ['\n']) ∧
      groups.flatten = (if (p.lines.reverse ++ ls).all isBlankText then [] else
        p.lines.reverse ++ ls) ∧
      ∀ group ∈ groups, group.all isBlankText = false ∧ OneMethod group := by
  induction ls generalizing p with
  | nil =>
    rw [splitFrom, List.append_nil, List.all_reverse]
    by_cases hblank : p.isBlank = true
    · rw [if_pos hblank]
      exact ⟨[], rfl, (if_pos hblank).symm, List.forall_mem_nil _⟩
    · rw [if_neg hblank]
      refine ⟨[p.lines.reverse], rfl, ?_, ?_⟩
      · rw [List.flatten_singleton]
        exact (if_neg hblank).symm
      · rw [List.forall_mem_singleton, List.all_reverse]
        exact ⟨Bool.eq_false_iff.mpr hblank, hp.one⟩
  | cons line rest ih =>
    rw [splitFrom]
    by_cases hopens : (p.opensNew line && !p.isBlank) = true
    · rw [if_pos hopens]
      rw [Bool.and_eq_true, Bool.not_eq_true'] at hopens
      have hfirst : Pending.none.opensNew line = false := by simp [Pending.opensNew, Pending.none]
      obtain ⟨groups, hpieces, hflatten, hgroups⟩ := ih (Pending.isKept_none.add hfirst)
      have hline := Pending.isBlankText_of_opensNew hopens.1
      have hshort : (Pending.none.add line).lines.reverse ++ rest = line :: rest := rfl
      rw [hshort, if_neg (by simp [hline])] at hflatten
      refine ⟨p.lines.reverse :: groups, ?_, ?_, ?_⟩
      · rw [hpieces, List.map_cons]
        rfl
      · rw [List.flatten_cons, hflatten, if_neg (by simp [hline])]
      · refine List.forall_mem_cons.mpr ⟨⟨?_, hp.one⟩, hgroups⟩
        rw [List.all_reverse]
        exact hopens.2
    · rw [if_neg hopens]
      have hkept : p.opensNew line = false := by
        cases hblank : p.isBlank with
        | true => exact hp.opensNew_of_isBlank hblank line
        | false => simpa [hblank] using hopens
      have hlines : (p.add line).lines.reverse ++ rest = p.lines.reverse ++ line :: rest := by
        show (line :: p.lines).reverse ++ rest = _
        rw [List.reverse_cons, List.append_assoc, List.singleton_append]
      rw [← hlines]
      exact ih (hp.add hkept)

/-- The pieces of a text are its lines put together in groups. -/
theorem exists_groups_split (text : List Char) : ∃ groups : List (List (List Char)),
    split text = groups.map (fun group => group.flatMap fun line => line ++ ['\n']) ∧
    groups.flatten = (if isBlankText text then [] else lines text) ∧
    ∀ group ∈ groups, (∀ line ∈ group, '\n' ∉ line) ∧ group.all isBlankText = false ∧
      OneMethod group := by
  obtain ⟨groups, hpieces, hflatten, hgroups⟩ :=
    exists_groups_splitFrom Pending.isKept_none (lines text)
  have hlines : Pending.none.lines.reverse ++ lines text = lines text := rfl
  rw [hlines, all_isBlankText_lines] at hflatten
  refine ⟨groups, hpieces, hflatten, fun group hgroup => ⟨?_, hgroups group hgroup⟩⟩
  intro line hline
  have hmem : line ∈ groups.flatten := List.mem_flatten.mpr ⟨group, hgroup, hline⟩
  rw [hflatten] at hmem
  split at hmem
  · cases hmem
  · exact newline_notMem_of_mem_lines hmem

/-- Splitting loses nothing and separates methods. The pieces of a text, one behind the other, are
its lines, each with a line feed, unless it is blank; there are none exactly if it is blank. Each
piece has something in it, and its lines belong to one method. -/
theorem split_loses_nothing (text : List Char) :
    (split text).flatten =
      (if isBlankText text then [] else (lines text).flatMap fun line => line ++ ['\n']) ∧
    (split text = [] ↔ isBlankText text = true) ∧
    ∀ piece ∈ split text, isBlankText piece = false ∧ OneMethod (lines piece) := by
  obtain ⟨groups, hpieces, hflatten, hgroups⟩ := exists_groups_split text
  refine ⟨?_, ?_, ?_⟩
  · rw [hpieces, ← List.flatMap_def, ← List.flatMap_assoc, List.flatMap_id', hflatten]
    split <;> rfl
  · rw [hpieces, List.map_eq_nil_iff]
    constructor
    · rintro rfl
      by_contra hne
      rw [if_neg hne, List.flatten_nil] at hflatten
      rw [← all_isBlankText_lines, ← hflatten] at hne
      exact hne rfl
    · intro hblank
      rw [if_pos hblank, List.flatten_eq_nil_iff] at hflatten
      rw [List.eq_nil_iff_forall_not_mem]
      intro group hgroup
      have hfull := (hgroups group hgroup).2.1
      rw [hflatten group hgroup] at hfull
      cases hfull
  · intro piece hpiece
    rw [hpieces] at hpiece
    obtain ⟨group, hgroup, rfl⟩ := List.mem_map.mp hpiece
    obtain ⟨hfeed, hfull, hone⟩ := hgroups group hgroup
    refine ⟨(isBlankText_flatMap group).trans hfull, ?_⟩
    rw [lines_flatMap hfeed]
    exact hone.withoutReturns

example : splitFrom .none ["0x1: 90".toList, "Decoding compiled method 0x2:".toList,
      "Compiled method (c1)".toList] =
    ["0x1: 90\n".toList, "Decoding compiled method 0x2:\nCompiled method (c1)\n".toList] := by
  decide

end CompileLog.Listing
