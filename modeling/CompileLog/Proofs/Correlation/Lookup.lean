import CompileLog.Proofs.Correlation.Coverage
import CompileLog.Proofs.Search

/-!
# The entry found at an offset

The entry at an offset is looked up by halving over the ends of the entries. What is found covers
the offset. Entries start in order, so that the search finds an entry wherever one covers the offset
and none behind that one ends at or in front of it. That is so at every offset where the
instructions end in the order in which they start, as they do where none starts inside another. An
instruction that ends inside an earlier one can hide the rest of that one from the search.
-/

namespace CompileLog.Correlation

variable {anchors : List Anchor} {covered : Nat} {i : NativeInstruction}
  {rest : List NativeInstruction}

/-- Of two instructions that start at different offsets the later one does not end first. -/
def EndsInOrder (instructions : List NativeInstruction) : Prop :=
  ∀ i ∈ instructions, ∀ j ∈ instructions, i.offset < j.offset → i.stop ≤ j.stop

/-! ### The search -/

/-- The search parts the entries: the last of those in front ends at or before the offset, the first
of those behind it ends after the offset, and that one is found if it covers the offset. -/
theorem entryAt_parts (c : Correlation) (offset : Nat) :
    ∃ before behind, c.entries = before ++ behind ∧
      (∀ e ∈ before.getLast?, e.stop ≤ offset) ∧ (∀ e ∈ behind.head?, offset < e.stop) ∧
      c.entryAt offset = behind.head?.filter fun e => e.contains offset := by
  obtain ⟨ends, hfound, hends⟩ : ∃ ends : Nat → Bool,
      c.entryAt offset = c.entries.toArray[turningPoint ends c.entries.length]?.filter
        (fun e => e.contains offset) ∧
      ∀ n (e : Entry), c.entries[n]? = some e → ends n = decide (e.stop ≤ offset) := by
    refine ⟨_, rfl, fun n e he => ?_⟩
    simp only [List.getElem?_toArray, he]
  rw [List.getElem?_toArray] at hfound
  obtain ⟨hbefore, hbehind⟩ := turningPoint_turns ends c.entries.length
  have hle := turningPoint_le ends c.entries.length
  generalize turningPoint ends c.entries.length = point at hfound hbefore hbehind hle
  refine ⟨c.entries.take point, c.entries.drop point, (List.take_append_drop _ _).symm, ?_, ?_, ?_⟩
  · intro e he
    cases point with
    | zero => cases he
    | succ n =>
      have hlast : c.entries[n]? = some e := by
        rw [List.getLast?_take] at he
        simpa [List.getElem?_eq_getElem hle] using he
      exact of_decide_eq_true ((hends n e hlast).symm.trans (hbefore n rfl))
  · intro e he
    rw [List.head?_drop] at he
    obtain ⟨hlt, _⟩ := List.getElem?_eq_some_iff.mp he
    have hfalse := (hends point e he).symm.trans (hbehind hlt)
    exact Nat.not_le.mp (of_decide_eq_false hfalse)
  · rw [List.head?_drop, hfound]

/-- What is found is an entry that covers the offset. -/
theorem contains_of_entryAt {c : Correlation} {offset : Nat} {e : Entry}
    (h : c.entryAt offset = some e) : e ∈ c.entries ∧ e.contains offset = true := by
  obtain ⟨before, behind, hentries, _, _, hfound⟩ := entryAt_parts c offset
  obtain ⟨hhead, hcontains⟩ := Option.filter_eq_some_iff.mp (hfound.symm.trans h)
  rw [hentries]
  exact ⟨List.mem_append_right _ (List.mem_of_mem_head? hhead), hcontains⟩

/-- Where entries start in order, one is found if one covers the offset and all behind that one end
behind the offset. -/
theorem isSome_entryAt {c : Correlation} {offset : Nat} {front back : List Entry} {e : Entry}
    (hstarts : c.entries.Pairwise fun e f => e.start ≤ f.start)
    (hentries : c.entries = front ++ e :: back) (he : e.contains offset = true)
    (hback : ∀ f ∈ back, offset < f.stop) : (c.entryAt offset).isSome = true := by
  obtain ⟨hstart, hstop⟩ : e.start ≤ offset ∧ offset < e.stop := by
    simpa [Entry.contains] using he
  have hends : ∀ f ∈ e :: back, offset < f.stop := fun f hf => by
    rcases List.mem_cons.mp hf with rfl | hf
    · exact hstop
    · exact hback f hf
  obtain ⟨before, behind, hparts, hlast, hfirst, hfound⟩ := entryAt_parts c offset
  -- The entries behind begin with the one that covers the offset, or with an earlier one.
  obtain ⟨f, hf, hfstart⟩ : ∃ f ∈ behind.head?, f.start ≤ offset := by
    rcases List.append_eq_append_iff.mp (hentries.symm.trans hparts) with
      ⟨between, hbefore, hrest⟩ | ⟨between, hfront, hbehind⟩
    · rcases List.eq_nil_or_concat' between with rfl | ⟨_, last, rfl⟩
      · exact ⟨e, by rw [← List.nil_append behind, ← hrest]; rfl, hstart⟩
      · have hin : last ∈ e :: back := by simp [hrest]
        have hle := hlast last (by simp [hbefore])
        exact absurd (hends last hin) (Nat.not_lt.mpr hle)
    · cases between with
      | nil => exact ⟨e, by simp [hbehind], hstart⟩
      | cons f between =>
        rw [hentries, hfront] at hstarts
        have hle : f.start ≤ e.start :=
          (List.pairwise_append.mp hstarts).2.2 f (by simp) e List.mem_cons_self
        exact ⟨f, by simp [hbehind], hle.trans hstart⟩
  have hcovers : f.contains offset = true := by
    simp [Entry.contains, hfstart, hfirst f hf]
  rw [hfound, Option.mem_def.mp hf, Option.filter_some, if_pos hcovers]
  rfl

/-! ### The order of the entries -/

/-- No entry from an instruction on starts in front of it, and they start in order. By induction on
the instructions behind it. -/
theorem pairwise_start_entriesFrom (hsorted : (i :: rest).Pairwise fun i j => i.offset ≤ j.offset)
    (hcovered : i.stop ≤ covered) :
    (∀ e ∈ entriesFrom anchors covered i rest, i.offset.toNat ≤ e.start) ∧
      (entriesFrom anchors covered i rest).Pairwise fun e f => e.start ≤ f.start := by
  induction rest generalizing covered i with
  | nil => simp [entriesFrom, alone]
  | cons j rest ih =>
    obtain ⟨hfirst, hrest⟩ := List.pairwise_cons.mp hsorted
    have hle : i.offset.toNat ≤ j.offset.toNat :=
      UInt64.le_iff_toNat_le.mp (hfirst j List.mem_cons_self)
    have hstart : i.offset.toNat ≤ covered := (Nat.le_add_right _ _).trans hcovered
    obtain ⟨hlower, hlater⟩ := ih hrest (le_max_right covered j.stop)
    obtain ⟨e, entries, hentries, _⟩ := entriesFrom_eq_cons anchors (max covered j.stop) j rest
    have hlower' : ∀ f ∈ entriesFrom anchors (max covered j.stop) j rest,
        i.offset.toNat ≤ f.start := fun f hf => hle.trans (hlower f hf)
    unfold entriesFrom
    split_ifs with hgap hgoverned
    · have hbehind : ∀ f ∈ entriesFrom anchors (max covered j.stop) j rest, covered ≤ f.start :=
        fun f hf => hgap.le.trans (hlower f hf)
      simp only [List.forall_mem_cons, List.pairwise_cons]
      exact ⟨⟨le_rfl, hstart, hlower'⟩, ⟨hstart, hlower'⟩, hbehind, hlater⟩
    · rw [hentries] at hlower' hlater ⊢
      obtain ⟨_, htail⟩ := List.forall_mem_cons.mp hlower'
      simp only [joinFirst, List.forall_mem_cons, List.pairwise_cons]
      exact ⟨⟨le_rfl, htail⟩, htail, (List.pairwise_cons.mp hlater).2⟩
    · simp only [List.forall_mem_cons, List.pairwise_cons]
      exact ⟨⟨le_rfl, hlower'⟩, hlower', hlater⟩

/-- The entries of a correlation start in order. -/
theorem pairwise_start_correlate (instructions : List NativeInstruction) (anchors : List Anchor) :
    (correlate instructions anchors).entries.Pairwise fun e f => e.start ≤ f.start := by
  have hsorted := pairwise_mergeSort_key NativeInstruction.offset instructions
  rw [entries_correlate]
  revert hsorted
  cases instructions.mergeSort fun i j => i.offset ≤ j.offset with
  | nil => exact fun _ => .nil
  | cons i rest =>
    intro hsorted
    have hstarts : (entriesFrom anchors i.stop i rest).Pairwise fun e f => e.start ≤ f.start :=
      (pairwise_start_entriesFrom hsorted le_rfl).2
    rcases entriesOf_stretchesOf_cons anchors i rest with h | h
    · rwa [h]
    · rw [h]
      exact List.pairwise_cons.mpr ⟨fun f _ => Nat.zero_le f.start, hstarts⟩

/-- In offset order no instruction ends in front of where the first one starts. -/
theorem offset_le_stop_of_mem (hsorted : (i :: rest).Pairwise fun i j => i.offset ≤ j.offset) :
    ∀ k ∈ i :: rest, i.offset.toNat ≤ k.stop := by
  intro k hk
  have hle : i.offset ≤ k.offset := by
    rcases List.mem_cons.mp hk with rfl | hk
    · exact UInt64.le_refl _
    · exact (List.pairwise_cons.mp hsorted).1 k hk
  exact (UInt64.le_iff_toNat_le.mp hle).trans (Nat.le_add_right _ _)

/-- No entry ends in front of a bound that neither the bytes covered nor an instruction end in front
of. By induction on the instructions. -/
theorem le_stop_of_mem_entriesFrom {bound : Nat} (hcovered : bound ≤ covered)
    (hstops : ∀ k ∈ i :: rest, bound ≤ k.stop) :
    ∀ e ∈ entriesFrom anchors covered i rest, bound ≤ e.stop := by
  induction rest generalizing covered i with
  | nil =>
    intro e he
    obtain rfl := List.mem_singleton.mp he
    exact hstops i List.mem_cons_self
  | cons j rest ih =>
    obtain ⟨hfirst, hrest⟩ := List.forall_mem_cons.mp hstops
    have hlater := ih (hcovered.trans (le_max_left _ j.stop)) hrest
    obtain ⟨e, entries, hentries, _⟩ := entriesFrom_eq_cons anchors (max covered j.stop) j rest
    unfold entriesFrom
    split_ifs with hgap hgoverned
    · simp only [List.forall_mem_cons]
      exact ⟨hfirst, hcovered.trans hgap.le, hlater⟩
    · rw [hentries] at hlater ⊢
      simp only [joinFirst, List.forall_mem_cons] at hlater ⊢
      exact ⟨hfirst.trans (le_max_left _ _), hlater.2⟩
    · simp only [List.forall_mem_cons]
      exact ⟨hfirst, hlater⟩

/-- For the entries behind the first one it is enough that no instruction that starts behind the
first ends in front of the bound: those that start with the first share its entry. By induction on
the instructions. -/
theorem le_stop_of_mem_tail_entriesFrom {bound : Nat}
    (hsorted : (i :: rest).Pairwise fun i j => i.offset ≤ j.offset) (hfrom : i.stop ≤ covered)
    (hcovered : bound ≤ covered) (hstops : ∀ k ∈ rest, i.offset < k.offset → bound ≤ k.stop) :
    ∀ e ∈ (entriesFrom anchors covered i rest).tail, bound ≤ e.stop := by
  induction rest generalizing covered i with
  | nil => exact fun e he => absurd he List.not_mem_nil
  | cons j rest ih =>
    obtain ⟨hfirst, hrest⟩ := List.pairwise_cons.mp hsorted
    have hbound : bound ≤ max covered j.stop := hcovered.trans (le_max_left _ _)
    -- Where the next instruction starts later, so do all of those behind it.
    have hlater (hlt : i.offset < j.offset) :
        ∀ e ∈ entriesFrom anchors (max covered j.stop) j rest, bound ≤ e.stop := by
      refine le_stop_of_mem_entriesFrom hbound fun k hk => hstops k hk ?_
      rcases List.mem_cons.mp hk with rfl | hk
      · exact hlt
      · exact UInt64.lt_of_lt_of_le hlt ((List.pairwise_cons.mp hrest).1 k hk)
    unfold entriesFrom
    split_ifs with hgap hgoverned
    · have hstart : i.offset.toNat ≤ i.stop := Nat.le_add_right _ _
      have hlt : i.offset < j.offset := UInt64.lt_iff_toNat_lt.mpr (by omega)
      simp only [List.tail_cons, List.forall_mem_cons]
      exact ⟨hcovered.trans hgap.le, hlater hlt⟩
    · have hle := hfirst j List.mem_cons_self
      have htail := ih hrest (le_max_right _ _) hbound fun k hk hlt =>
        hstops k (List.mem_cons_of_mem j hk) (UInt64.lt_of_le_of_lt hle hlt)
      obtain ⟨e, entries, hentries, _⟩ := entriesFrom_eq_cons anchors (max covered j.stop) j rest
      rw [hentries] at htail ⊢
      exact htail
    · have hne : i.offset ≠ j.offset := fun heq => hgoverned (congrArg (governing? anchors) heq)
      exact hlater (UInt64.lt_of_le_of_ne (hfirst j List.mem_cons_self) hne)

/-- Where instructions end in order, so do the entries from one of them on. By induction on the
instructions behind it. -/
theorem pairwise_stop_entriesFrom (hsorted : (i :: rest).Pairwise fun i j => i.offset ≤ j.offset)
    (hends : (i :: rest).Pairwise fun i j => i.offset < j.offset → i.stop ≤ j.stop)
    (hcovered : i.stop ≤ covered) :
    (entriesFrom anchors covered i rest).Pairwise fun e f => e.stop ≤ f.stop := by
  induction rest generalizing covered i with
  | nil => exact List.pairwise_singleton _ _
  | cons j rest ih =>
    have hbehind : ∀ e ∈ (entriesFrom anchors covered i (j :: rest)).tail, i.stop ≤ e.stop :=
      le_stop_of_mem_tail_entriesFrom hsorted hcovered hcovered (List.pairwise_cons.mp hends).1
    obtain ⟨hfirst, hrest⟩ := List.pairwise_cons.mp hsorted
    have hlater := ih hrest (List.pairwise_cons.mp hends).2 (le_max_right covered j.stop)
    unfold entriesFrom at hbehind ⊢
    split_ifs at hbehind ⊢ with hgap hgoverned
    · have hnext : ∀ e ∈ entriesFrom anchors (max covered j.stop) j rest,
          j.offset.toNat ≤ e.stop := by
        refine le_stop_of_mem_entriesFrom ?_ (offset_le_stop_of_mem hrest)
        exact (Nat.le_add_right _ _).trans (le_max_right _ _)
      exact List.pairwise_cons.mpr ⟨hbehind, List.pairwise_cons.mpr ⟨hnext, hlater⟩⟩
    · obtain ⟨e, entries, hentries, _⟩ := entriesFrom_eq_cons anchors (max covered j.stop) j rest
      rw [hentries] at hbehind hlater ⊢
      obtain ⟨hfirst', hrest'⟩ := List.pairwise_cons.mp hlater
      exact List.pairwise_cons.mpr ⟨fun f hf => max_le (hbehind f hf) (hfirst' f hf), hrest'⟩
    · exact List.pairwise_cons.mpr ⟨hbehind, hlater⟩

/-- Where the instructions end in order, so do the entries of their correlation. -/
theorem pairwise_stop_correlate {instructions : List NativeInstruction}
    (hends : EndsInOrder instructions) (anchors : List Anchor) :
    (correlate instructions anchors).entries.Pairwise fun e f => e.stop ≤ f.stop := by
  have hsorted := pairwise_mergeSort_key NativeInstruction.offset instructions
  have hordered : (instructions.mergeSort fun i j => i.offset ≤ j.offset).Pairwise
      fun i j => i.offset < j.offset → i.stop ≤ j.stop :=
    List.pairwise_of_forall_mem_list fun i hi j hj =>
      hends i (List.mem_mergeSort.mp hi) j (List.mem_mergeSort.mp hj)
  rw [entries_correlate]
  revert hsorted hordered
  cases instructions.mergeSort fun i j => i.offset ≤ j.offset with
  | nil => exact fun _ _ => .nil
  | cons i rest =>
    intro hsorted hordered
    have hstops : (entriesFrom anchors i.stop i rest).Pairwise fun e f => e.stop ≤ f.stop :=
      pairwise_stop_entriesFrom hsorted hordered le_rfl
    rcases entriesOf_stretchesOf_cons anchors i rest with h | h
    · rwa [h]
    · rw [h]
      refine List.pairwise_cons.mpr ⟨?_, hstops⟩
      exact le_stop_of_mem_entriesFrom (Nat.le_add_right _ _) (offset_le_stop_of_mem hsorted)

/-- Where no instruction starts inside the bytes covered before it, each ends before the later ones
start. By induction on the instructions. -/
theorem apart_of_overlapsFrom_eq_zero {covered : Nat} {instructions : List NativeInstruction}
    (h : overlapsFrom covered instructions = 0) :
    (∀ k ∈ instructions, covered ≤ k.offset.toNat) ∧
      instructions.Pairwise fun i j => i.stop ≤ j.offset.toNat := by
  induction instructions generalizing covered with
  | nil => exact ⟨fun k hk => absurd hk List.not_mem_nil, .nil⟩
  | cons i rest ih =>
    rw [overlapsFrom, Nat.add_eq_zero_iff] at h
    have hstart : covered ≤ i.offset.toNat := by
      by_contra hlt
      rw [if_pos (Nat.not_le.mp hlt)] at h
      exact Nat.one_ne_zero h.1
    obtain ⟨hbehind, hrest⟩ := ih h.2
    refine ⟨List.forall_mem_cons.mpr ⟨hstart, fun k hk => ?_⟩, List.pairwise_cons.mpr ⟨?_, hrest⟩⟩
    · exact (le_max_left _ _).trans (hbehind k hk)
    · exact fun k hk => (le_max_right _ _).trans (hbehind k hk)

/-- Where no instruction starts inside an earlier one, they end in order. -/
theorem endsInOrder_of_none_overlapping {instructions : List NativeInstruction}
    {anchors : List Anchor} (h : (correlate instructions anchors).anomalies.overlapping = 0) :
    EndsInOrder instructions := by
  rw [overlapping_correlate] at h
  obtain ⟨_, hapart⟩ := apart_of_overlapsFrom_eq_zero h
  intro i hi j hj hlt
  have hlt' := UInt64.lt_iff_toNat_lt.mp hlt
  have hin : i ∈ instructions.mergeSort fun i j => i.offset ≤ j.offset :=
    List.mem_mergeSort.mpr hi
  have hjn : j ∈ instructions.mergeSort fun i j => i.offset ≤ j.offset :=
    List.mem_mergeSort.mpr hj
  obtain ⟨before, behind, hsplit⟩ := List.append_of_mem hjn
  rw [hsplit] at hapart hin
  obtain ⟨_, hfrom, hbefore⟩ := List.pairwise_append.mp hapart
  rcases List.mem_append.mp hin with hi | hi
  · exact (hbefore i hi j List.mem_cons_self).trans (Nat.le_add_right _ _)
  · rcases List.mem_cons.mp hi with rfl | hi
    · exact absurd hlt' (Nat.lt_irrefl _)
    · have hle : j.stop ≤ i.offset.toNat := (List.pairwise_cons.mp hfrom).1 i hi
      have hstart : j.offset.toNat ≤ j.stop := Nat.le_add_right _ _
      omega

/-! ### Looking up an offset -/

/-- What is found at an offset is an entry that covers it. An entry is found if one covers the
offset and none behind that one ends at or in front of it. So where the instructions end in the
order in which they start, an entry is found exactly at the offsets that one covers, and
instructions of which none starts inside an earlier one do end so. The ends of instructions are not
bounded here. -/
theorem entryAt_covers (instructions : List NativeInstruction) (anchors : List Anchor)
    (offset : Nat) :
    let c := correlate instructions anchors
    (∀ e, c.entryAt offset = some e → e ∈ c.entries ∧ e.contains offset = true) ∧
      (∀ front e back, c.entries = front ++ e :: back → e.contains offset = true →
        (∀ f ∈ back, offset < f.stop) → (c.entryAt offset).isSome = true) ∧
      (EndsInOrder instructions →
        ((c.entryAt offset).isSome = true ↔ ∃ e ∈ c.entries, e.contains offset = true)) ∧
      (c.anomalies.overlapping = 0 → EndsInOrder instructions) := by
  intro c
  have hstarts := pairwise_start_correlate instructions anchors
  refine ⟨fun e => contains_of_entryAt, fun front e back => isSome_entryAt hstarts, fun hends => ?_,
    endsInOrder_of_none_overlapping⟩
  constructor
  · intro hfound
    obtain ⟨e, he⟩ := Option.isSome_iff_exists.mp hfound
    exact ⟨e, contains_of_entryAt he⟩
  · rintro ⟨e, he, hcontains⟩
    obtain ⟨front, back, hentries⟩ := List.append_of_mem he
    have hstops := pairwise_stop_correlate hends anchors
    rw [hentries] at hstops
    have hback := (List.pairwise_cons.mp (List.pairwise_append.mp hstops).2.1).1
    have hstop : offset < e.stop := by
      simp only [Entry.contains, Bool.and_eq_true, decide_eq_true_eq] at hcontains
      exact hcontains.2
    exact isSome_entryAt hstarts hentries hcontains fun f hf => hstop.trans_le (hback f hf)

/-- In code whose second instruction starts inside the first and ends behind it, under an anchor of
its own, an entry is found at an offset that both cover. -/
theorem entryAt_covers_shared :
    EndsInOrder [⟨0, 4, "mov", ""⟩, ⟨2, 4, "ret", ""⟩] ∧
      ((correlate [⟨0, 4, "mov", ""⟩, ⟨2, 4, "ret", ""⟩] [⟨0, 0, none⟩, ⟨1, 2, none⟩]).entryAt
        3).isSome = true := by
  have hends : EndsInOrder [⟨0, 4, "mov", ""⟩, ⟨2, 4, "ret", ""⟩] := by
    unfold EndsInOrder
    decide
  obtain ⟨_, _, hiff, _⟩ := entryAt_covers [⟨0, 4, "mov", ""⟩, ⟨2, 4, "ret", ""⟩]
    [⟨0, 0, none⟩, ⟨1, 2, none⟩] 3
  have hcovered : Covered [⟨0, 4, "mov", ""⟩, ⟨2, 4, "ret", ""⟩] 3 :=
    ⟨⟨0, 4, "mov", ""⟩, List.mem_cons_self, by decide⟩
  obtain ⟨e, he, hfrom, hto⟩ := exists_entry_of_covered [⟨0, 0, none⟩, ⟨1, 2, none⟩] hcovered
  exact ⟨hends, (hiff hends).mpr ⟨e, he, by simp [Entry.contains, hfrom, hto]⟩⟩

/-- An instruction of ten bytes, and one of two that starts inside it and ends inside it too. -/
def codeWithin : List NativeInstruction := [⟨0, 10, "mov", ""⟩, ⟨2, 2, "ret", ""⟩]

/-- Behind the end of the inner instruction, which has an anchor of its own, nothing is found,
though the entry of the outer one goes on. -/
theorem entryAt_misses_outer :
    ∃ e ∈ (correlate codeWithin [⟨0, 0, none⟩, ⟨1, 2, none⟩]).entries,
      e.contains 5 = true ∧
        (correlate codeWithin [⟨0, 0, none⟩, ⟨1, 2, none⟩]).entryAt 5 = none := by
  have hentries : (correlate codeWithin [⟨0, 0, none⟩, ⟨1, 2, none⟩]).entries =
      [⟨0, 10, .bytecode 0 0, [⟨0, 10, "mov", ""⟩], none⟩,
        ⟨2, 4, .bytecode 1 1, [⟨2, 2, "ret", ""⟩], none⟩] := by
    rw [entries_correlate, List.mergeSort_of_pairwise (by decide)]
    rfl
  rw [hentries]
  refine ⟨_, List.mem_cons_self, rfl, ?_⟩
  simp [entryAt, hentries, turningPoint, bisect, Entry.contains]

end CompileLog.Correlation
