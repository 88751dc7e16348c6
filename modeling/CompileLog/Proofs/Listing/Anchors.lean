import CompileLog.Listing.Anchors

/-!
# Where the anchors of a listing lie

The offset of an anchor counts from the lowest address of its listing, so the two together are the
address of a line that the listing prints. Of another listing nothing of the kind can be said: its
lowest address may be another.
-/

namespace CompileLog

/-- An anchor lies at a line of a listing, if its offset counts from the listing's base. -/
def Anchor.LiesIn (a : Anchor) (l : Listing) : Prop :=
  ∃ base ∈ l.base?, ∃ line ∈ l.lines, base.toNat + a.offset.toNat = line.address.toNat

instance (a : Anchor) (l : Listing) : Decidable (a.LiesIn l) :=
  inferInstanceAs (Decidable (∃ base ∈ l.base?, ∃ line ∈ l.lines,
    base.toNat + a.offset.toNat = line.address.toNat))

namespace Listing

/-- A listing without a base has no lines. -/
theorem lines_eq_nil {l : Listing} (hbase : l.base? = none) : l.lines = [] :=
  List.map_eq_nil_iff.mp (List.min?_eq_none_iff.mp hbase)

/-- No line lies in front of the base. -/
theorem base_le_address {l : Listing} {base : UInt64} (hbase : l.base? = some base) {line : Line}
    (hline : line ∈ l.lines) : base ≤ line.address :=
  (List.min?_eq_some_iff.mp hbase).2 line.address (List.mem_map_of_mem hline)

/-- What counts at its offset is one of the anchors. By induction on the anchors. -/
theorem mem_of_mem_lastOfEach {a : Anchor} {anchors : List Anchor} (h : a ∈ lastOfEach anchors) :
    a ∈ anchors := by
  fun_induction lastOfEach anchors with
  | case1 => exact h
  | case2 b => exact h
  | case3 b c rest heq ih => exact List.mem_cons_of_mem b (ih h)
  | case4 b c rest hne ih =>
    rcases List.mem_cons.mp h with rfl | hlater
    · exact List.mem_cons_self
    · exact List.mem_cons_of_mem b (ih hlater)

/-- Every anchor of a listing lies at one of its lines. -/
theorem liesIn_of_mem_anchors {l : Listing} {a : Anchor} (h : a ∈ l.anchors) : a.LiesIn l := by
  unfold anchors at h
  cases hbase : l.base? with
  | none =>
    rw [hbase] at h
    exact absurd h List.not_mem_nil
  | some base =>
    rw [hbase] at h
    have hmem := mem_of_mem_lastOfEach (List.mem_mergeSort.mp h)
    obtain ⟨line, hline, hanchor⟩ := List.mem_filterMap.mp hmem
    obtain ⟨frame, _, rfl⟩ := Option.map_eq_some_iff.mp hanchor
    refine ⟨base, hbase, line, hline, ?_⟩
    have hle := UInt64.le_iff_toNat_le.mp (base_le_address hbase hline)
    show base.toNat + (line.address - base).toNat = line.address.toNat
    rw [UInt64.toNat_sub_of_le _ _ (base_le_address hbase hline)]
    omega

end Listing

end CompileLog
