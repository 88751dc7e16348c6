import CompileLog.Proofs.Correlation.Stretches

/-!
# Every anchor offset is accounted for

The walk passes each group of anchors once. A group that it passes governs an instruction, or is
passed over together with a later one and counted as misaligned; a group that it never reaches is
counted at the end. So the groups that govern an instruction and those that are counted make up all
groups, and where every anchor stands at an instruction none is counted.
-/

namespace CompileLog.Correlation

/-- The anchors of a group govern one of some instructions. -/
def AnchorGroup.governs (anchors : List Anchor) (instructions : List NativeInstruction)
    (g : AnchorGroup) : Bool :=
  instructions.any fun i => governing? anchors i.offset = some g.offset

variable {anchors : List Anchor} {instructions seen : List NativeInstruction}
  {passed : List AnchorGroup} {w : Walk}

/-- A group governs one of some instructions if one of them finds its offset. -/
theorem AnchorGroup.governs_iff {g : AnchorGroup} : g.governs anchors instructions = true ↔
    ∃ i ∈ instructions, governing? anchors i.offset = some g.offset := by
  simp only [governs, List.any_eq_true, decide_eq_true_eq]

/-- A group also governs an instruction that comes later if its offset is found there. -/
theorem AnchorGroup.governs_concat (g : AnchorGroup) (i : NativeInstruction) :
    g.governs anchors (seen ++ [i]) =
      (g.governs anchors seen || decide (governing? anchors i.offset = some g.offset)) := by
  simp only [governs, List.any_append, List.any_cons, List.any_nil, Bool.or_false]

/-- A group behind all of some instructions governs none of them. -/
theorem AnchorGroup.governs_eq_false_of_behind {g : AnchorGroup}
    (h : ∀ i ∈ instructions, ¬ g.offset ≤ i.offset) : g.governs anchors instructions = false := by
  refine Bool.eq_false_iff.mpr fun hgoverns => ?_
  obtain ⟨i, hi, hsome⟩ := governs_iff.mp hgoverns
  exact h i hi (governing?_eq_some_iff.mp hsome).2.1

/-- A walk over some instructions has counted the groups passed that govern none of them. -/
structure Walk.Accounts (anchors : List Anchor) (seen : List NativeInstruction)
    (passed : List AnchorGroup) (w : Walk) : Prop extends w.Past anchors passed where
  /-- The groups ahead lie behind all instructions seen. -/
  ahead_behind : ∀ g ∈ w.ahead, ∀ k ∈ seen, ¬ g.offset ≤ k.offset
  /-- The last group passed governs an instruction. -/
  last_governs : ∀ g ∈ passed.getLast?, g.governs anchors seen = true
  /-- Each group passed governs an instruction or is counted. -/
  counted : passed.countP (AnchorGroup.governs anchors seen) + w.misaligned = passed.length

/-- Before the first instruction nothing is passed. -/
theorem Walk.accounts_start (anchors : List Anchor) :
    Accounts anchors [] [] (.start (groupAnchors anchors)) where
  toPast := past_start anchors
  ahead_behind _ _ k hk := absurd hk List.not_mem_nil
  last_governs g hg := by cases hg
  counted := rfl

/-- Where no group is reached, the last one passed governs the instruction, as it governs another
one already. -/
theorem Walk.Accounts.countP_of_none_reached (h : w.Accounts anchors seen passed)
    {i : NativeInstruction}
    (hgoverns : passed.getLast? = (governing? anchors i.offset).map (groupAt anchors)) :
    passed.countP (AnchorGroup.governs anchors (seen ++ [i])) =
      passed.countP (AnchorGroup.governs anchors seen) := by
  refine List.countP_congr fun g hg => ?_
  rw [g.governs_concat]
  by_cases hfound : governing? anchors i.offset = some g.offset
  · rw [hfound, Option.map_some] at hgoverns
    have hgroup : g = groupAt anchors g.offset :=
      h.grouping.eq_groupAt g (List.mem_append_left _ hg)
    have hlast : g.governs anchors seen = true := by
      rw [hgroup]
      exact h.last_governs _ hgoverns
    rw [hlast, Bool.true_or]
  · rw [decide_eq_false hfound, Bool.or_false]

/-- Of the groups reached at once the last alone governs an instruction, the first one that it does
govern. -/
theorem Walk.Accounts.countP_of_reached (h : w.Accounts anchors seen passed)
    {i : NativeInstruction} {before behind : List AnchorGroup} {last : AnchorGroup}
    (hahead : w.ahead = before ++ last :: behind)
    (hgoverns : governing? anchors i.offset = some last.offset) :
    (passed ++ (before ++ [last])).countP (AnchorGroup.governs anchors (seen ++ [i])) =
      passed.countP (AnchorGroup.governs anchors seen) + 1 := by
  have hincreasing := h.grouping.increasing
  rw [hahead, ← List.append_assoc] at hincreasing
  have hother : ∀ g ∈ passed ++ before,
      g.governs anchors (seen ++ [i]) = g.governs anchors seen := by
    intro g hg
    have hlt : g.offset < last.offset :=
      (List.pairwise_append.mp hincreasing).2.2 g hg last List.mem_cons_self
    have hne : ¬ governing? anchors i.offset = some g.offset := by
      rw [hgoverns]
      intro heq
      exact UInt64.ne_of_lt hlt (Option.some.inj heq).symm
    rw [g.governs_concat, decide_eq_false hne, Bool.or_false]
  have hpassed : passed.countP (AnchorGroup.governs anchors (seen ++ [i])) =
      passed.countP (AnchorGroup.governs anchors seen) :=
    List.countP_congr fun g hg => by rw [hother g (List.mem_append_left _ hg)]
  have hbefore : before.countP (AnchorGroup.governs anchors (seen ++ [i])) = 0 := by
    refine List.countP_eq_zero.mpr fun g hg => ?_
    have hbehind := h.ahead_behind g (hahead ▸ List.mem_append_left _ hg)
    rw [hother g (List.mem_append_right _ hg), AnchorGroup.governs_eq_false_of_behind hbehind]
    exact Bool.false_ne_true
  have hlast : last.governs anchors (seen ++ [i]) = true := by
    rw [last.governs_concat, decide_eq_true hgoverns, Bool.or_true]
  rw [List.countP_append, List.countP_append, hpassed, hbefore, List.countP_singleton, hlast,
    if_pos rfl, Nat.zero_add]

/-- A step accounts for the groups that it passes. -/
theorem Walk.Accounts.step (h : w.Accounts anchors seen passed) {i : NativeInstruction}
    (hpassed : ∀ g ∈ passed, g.offset ≤ i.offset) (hseen : ∀ k ∈ seen, k.offset ≤ i.offset) :
    (w.step (!anchors.isEmpty) i).Accounts anchors (seen ++ [i]) (passed ++ w.reachedAt i) := by
  obtain ⟨hpast, _, hbehind, hlast⟩ := h.toPast.reach hpassed
  refine ⟨hpast, ?_, ?_, ?_⟩
  · intro g hg k hk hle
    refine hbehind g hg ?_
    rcases List.mem_append.mp hk with hk | hk
    · exact UInt64.le_trans hle (hseen k hk)
    · rwa [List.mem_singleton.mp hk] at hle
  · intro g hg
    obtain ⟨o, ho, rfl⟩ := Option.map_eq_some_iff.mp (hlast.symm.trans hg)
    exact AnchorGroup.governs_iff.mpr ⟨i, by simp, ho⟩
  · show _ + (w.misaligned + ((w.reachedAt i).length - 1)) = _
    have hcounted := h.counted
    have hahead := w.reachedAt_append_leftAt i
    rcases List.eq_nil_or_concat' (w.reachedAt i) with hnone | ⟨before, last, hreached⟩
    · rw [hnone, List.append_nil] at hlast ⊢
      rw [h.countP_of_none_reached hlast]
      exact hcounted
    · rw [hreached, ← List.append_assoc, List.getLast?_concat] at hlast
      obtain ⟨o, ho, hgroup⟩ := Option.map_eq_some_iff.mp hlast.symm
      have hgoverns : governing? anchors i.offset = some last.offset := by
        rw [ho, ← hgroup]
        rfl
      rw [hreached, List.append_assoc, List.singleton_append] at hahead
      rw [hreached, h.countP_of_reached hahead.symm hgoverns]
      simp only [List.length_append, List.length_singleton]
      omega

/-- A walk over instructions in offset order accounts for all groups that it passes. By induction on
the instructions. -/
theorem Walk.Accounts.foldl (h : w.Accounts anchors seen passed)
    (hsorted : instructions.Pairwise fun i j => i.offset ≤ j.offset)
    (hpassed : ∀ g ∈ passed, ∀ i ∈ instructions, g.offset ≤ i.offset)
    (hseen : ∀ k ∈ seen, ∀ i ∈ instructions, k.offset ≤ i.offset) :
    ∃ passed', (instructions.foldl (Walk.step (!anchors.isEmpty)) w).Accounts anchors
      (seen ++ instructions) passed' := by
  induction instructions generalizing w passed seen with
  | nil => exact ⟨passed, by rwa [List.append_nil]⟩
  | cons i rest ih =>
    obtain ⟨hfirst, hrest⟩ := List.pairwise_cons.mp hsorted
    have hpassedFirst : ∀ g ∈ passed, g.offset ≤ i.offset := fun g hg =>
      hpassed g hg i List.mem_cons_self
    have hstep := h.step hpassedFirst fun k hk => hseen k hk i List.mem_cons_self
    obtain ⟨_, hbefore, _⟩ := h.toPast.reach hpassedFirst
    have hnext : ∀ k ∈ seen ++ [i], ∀ j ∈ rest, k.offset ≤ j.offset := by
      intro k hk j hj
      rcases List.mem_append.mp hk with hk | hk
      · exact hseen k hk j (List.mem_cons_of_mem i hj)
      · rw [List.mem_singleton.mp hk]
        exact hfirst j hj
    rw [List.foldl_cons, ← List.singleton_append, ← List.append_assoc]
    exact ih hstep hrest (fun g hg j hj => UInt64.le_trans (hbefore g hg) (hfirst j hj)) hnext

/-- The groups that govern an instruction, those that a walk has counted and those still ahead of it
are all groups. -/
theorem Walk.Accounts.total (h : w.Accounts anchors seen passed) :
    (groupAnchors anchors).countP (AnchorGroup.governs anchors seen) + w.misaligned +
      w.ahead.length = (groupAnchors anchors).length := by
  have hahead : w.ahead.countP (AnchorGroup.governs anchors seen) = 0 :=
    List.countP_eq_zero.mpr fun g hg => by
      rw [AnchorGroup.governs_eq_false_of_behind (h.ahead_behind g hg)]
      exact Bool.false_ne_true
  have hcounted := h.counted
  rw [(isGrouping_groupAnchors anchors).unique h.grouping, List.countP_append, hahead,
    List.length_append]
  omega

/-- The groups that govern an instruction, those counted as misaligned and those counted past the
end are all groups. -/
theorem accounted_correlate (instructions : List NativeInstruction) (anchors : List Anchor) :
    (groupAnchors anchors).countP (AnchorGroup.governs anchors instructions) +
        (correlate instructions anchors).anomalies.misaligned +
        (correlate instructions anchors).anomalies.pastEnd =
      (groupAnchors anchors).length := by
  have hsorted := pairwise_mergeSort_key NativeInstruction.offset instructions
  obtain ⟨passed, hwalk⟩ := (Walk.accounts_start anchors).foldl hsorted (by simp) (by simp)
  have hsame : AnchorGroup.governs anchors
      ([] ++ instructions.mergeSort fun i j => i.offset ≤ j.offset) =
        AnchorGroup.governs anchors instructions :=
    funext fun _ => (List.mergeSort_perm _ _).any_eq
  have htotal := hwalk.total
  rw [hsame] at htotal
  simp only [correlate]
  rw [← htotal, Nat.add_assoc, Nat.add_assoc, Nat.add_assoc,
    Nat.sub_add_cancel (List.length_filter_le _ _)]

/-- Where an instruction starts at each anchor offset, no anchor is counted. -/
theorem none_idle_of_at_instructions
    (h : ∀ a ∈ anchors, ∃ i ∈ instructions, i.offset = a.offset) :
    (correlate instructions anchors).anomalies.misaligned = 0 ∧
      (correlate instructions anchors).anomalies.pastEnd = 0 := by
  have hall : (groupAnchors anchors).countP (AnchorGroup.governs anchors instructions) =
      (groupAnchors anchors).length := by
    refine List.countP_eq_length.mpr fun g hg => AnchorGroup.governs_iff.mpr ?_
    obtain ⟨a, ha, hoffset⟩ := ((isGrouping_groupAnchors anchors).mem_offsets_iff _).mp ⟨g, hg, rfl⟩
    obtain ⟨i, hi, hstart⟩ := h a ha
    refine ⟨i, hi, governing?_eq_some_iff.mpr ⟨⟨a, ha, hoffset⟩, ?_, fun b _ hle => ?_⟩⟩
    · rw [hstart, hoffset]
      exact UInt64.le_refl _
    · rwa [hstart, hoffset] at hle
  have haccounted := accounted_correlate instructions anchors
  omega

end CompileLog.Correlation
