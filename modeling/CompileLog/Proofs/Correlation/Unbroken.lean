import CompileLog.Proofs.Correlation.Anchored
import CompileLog.Proofs.Correlation.Coverage

/-!
# Code without gaps

Instructions of which each starts where the one before it ends leave no room for a gap and none
starts inside another. So a correlation of such code has entries with instructions only, each from
where the one before it ends, and where every anchor stands at an instruction it counts no problem.
-/

namespace CompileLog.Correlation

/-- Instructions run on from an offset: each has a byte, and starts where the one before it ends. -/
def RunsFrom : Nat → List NativeInstruction → Prop
  | _, [] => True
  | start, i :: rest => i.offset.toNat = start ∧ start < i.stop ∧ RunsFrom i.stop rest

namespace RunsFrom

variable {start : Nat} {instructions : List NativeInstruction}

/-- No instruction starts in front of where the code starts. By induction on the instructions. -/
theorem start_le (h : RunsFrom start instructions) :
    ∀ k ∈ instructions, start ≤ k.offset.toNat := by
  induction instructions generalizing start with
  | nil => simp
  | cons i rest ih =>
    obtain ⟨hstart, hlt, hrest⟩ := h
    intro k hk
    rcases List.mem_cons.mp hk with rfl | hk
    · exact hstart.ge
    · exact hlt.le.trans (ih hrest k hk)

/-- The offsets increase. By induction on the instructions. -/
theorem increasing (h : RunsFrom start instructions) :
    instructions.Pairwise fun i j => i.offset < j.offset := by
  induction instructions generalizing start with
  | nil => exact .nil
  | cons i rest ih =>
    obtain ⟨hstart, hlt, hrest⟩ := h
    refine List.pairwise_cons.mpr ⟨fun j hj => UInt64.lt_iff_toNat_lt.mpr ?_, ih hrest⟩
    exact hstart.trans_lt (hlt.trans_le (hrest.start_le j hj))

/-- Code in front of an instruction is covered up to its start. By induction on the code in front.
-/
theorem coveredBy_eq_offset {before behind : List NativeInstruction} {i : NativeInstruction}
    (h : RunsFrom start (before ++ i :: behind)) : coveredBy start before = i.offset.toNat := by
  induction before generalizing start with
  | nil => exact h.1.symm
  | cons first before ih =>
    obtain ⟨_, hlt, hrest⟩ := h
    rw [coveredBy, List.foldl_cons, max_eq_right hlt.le]
    exact ih hrest

/-- The code is covered up to the end of its last instruction. By induction on the code in front of
it. -/
theorem coveredBy_eq_stop {before : List NativeInstruction} {last : NativeInstruction}
    (h : RunsFrom start (before ++ [last])) : coveredBy start (before ++ [last]) = last.stop := by
  induction before generalizing start with
  | nil =>
    obtain ⟨_, hlt, _⟩ := h
    exact max_eq_right hlt.le
  | cons first before ih =>
    obtain ⟨_, hlt, hrest⟩ := h
    rw [List.cons_append, coveredBy, List.foldl_cons, max_eq_right hlt.le]
    exact ih hrest

/-- No instruction starts inside another. By induction on the instructions. -/
theorem overlapsFrom_eq_zero (h : RunsFrom start instructions) :
    overlapsFrom start instructions = 0 := by
  induction instructions generalizing start with
  | nil => rfl
  | cons i rest ih =>
    obtain ⟨hstart, hlt, hrest⟩ := h
    rw [overlapsFrom, if_neg hstart.not_lt, max_eq_right hlt.le, ih hrest]

/-- Such code is in offset order. -/
theorem mergeSort_eq (h : RunsFrom start instructions) :
    (instructions.mergeSort fun i j => i.offset ≤ j.offset) = instructions :=
  List.mergeSort_of_pairwise (h.increasing.imp fun hlt => decide_eq_true (UInt64.le_of_lt hlt))

section Correlate

variable (h : RunsFrom 0 instructions) (anchors : List Anchor)
include h

/-- The entries list the instructions as they stand. -/
theorem flatMap_instructions :
    (correlate instructions anchors).entries.flatMap Entry.instructions = instructions := by
  rw [flatMap_instructions_correlate, h.mergeSort_eq]

/-- No instruction is counted as starting inside another. -/
theorem none_overlapping : (correlate instructions anchors).anomalies.overlapping = 0 := by
  rw [overlapping_correlate, h.mergeSort_eq, h.overlapsFrom_eq_zero]

/-- Every entry has instructions. -/
theorem instructions_ne_nil {e : Entry} (he : e ∈ (correlate instructions anchors).entries) :
    e.instructions ≠ [] := by
  intro hbare
  obtain ⟨before, i, behind, hsplit, hlt, _⟩ :=
    (mem_entries_correlate_iff_of_bare hbare instructions anchors).mp he
  rw [h.mergeSort_eq] at hsplit
  rw [hsplit] at h
  exact hlt.ne h.coveredBy_eq_offset

/-- The entries go from zero to the end of the last instruction. -/
theorem tiles {last : NativeInstruction} (hlast : instructions.getLast? = some last) :
    Tiles 0 last.stop (correlate instructions anchors).entries := by
  have htiles : Tiles 0 (coveredBy 0 instructions)
      (entriesOf (stretchesOf anchors 0 instructions)) :=
    tiles_entriesOf h.overlapsFrom_eq_zero
  obtain ⟨before, rfl⟩ := List.getLast?_eq_some_iff.mp hlast
  rw [entries_correlate, h.mergeSort_eq, ← h.coveredBy_eq_stop]
  exact htiles

/-- The first entry starts at zero, if there is code. -/
theorem head?_start (hcode : instructions ≠ []) :
    (correlate instructions anchors).entries.head?.map Entry.start = some 0 := by
  have hinstructions := h.flatMap_instructions anchors
  have htiles := h.tiles anchors (List.getLast?_eq_some_getLast hcode)
  cases hentries : (correlate instructions anchors).entries with
  | nil =>
    rw [hentries] at hinstructions
    exact absurd hinstructions.symm hcode
  | cons e entries =>
    rw [hentries] at htiles
    exact congrArg some htiles.1

/-- Where an instruction starts at each anchor, nothing is counted. -/
theorem anomalies_eq {anchors : List Anchor}
    (hanchors : ∀ a ∈ anchors, ∃ i ∈ instructions, i.offset = a.offset) :
    (correlate instructions anchors).anomalies = ⟨0, 0, 0⟩ := by
  obtain ⟨hmisaligned, hpastEnd⟩ := none_idle_of_at_instructions hanchors
  have hoverlapping := h.none_overlapping anchors
  cases hanomalies : (correlate instructions anchors).anomalies with
  | mk misaligned pastEnd overlapping =>
    rw [hanomalies] at hmisaligned hpastEnd hoverlapping
    subst hmisaligned hpastEnd hoverlapping
    rfl

end Correlate

end RunsFrom

end CompileLog.Correlation
