import CompileLog.Proofs.History.Filing

/-!
# What waits

Remarks wait in the order in which they came, each under the number of its task. The counts beside
them only save a look through the table: they say of each number how many remarks wait for it, so a
task that is filed finds all that wait for it and leaves the others as they are. Every operation
keeps them right, and lets no more remarks wait than there is room for.
-/

namespace CompileLog

/-! ### Counting -/

/-- How often a number stands in the table. -/
def waitsFor (pending : List (UInt64 × Remark)) (id : UInt64) : Nat :=
  pending.countP fun p => p.1 = id

/-- The count that is kept for a number: none where nothing waits. -/
def keptCount (n : Nat) : Option Nat := if n = 0 then none else some n

/-- A count is kept exactly where something waits. -/
theorem keptCount_eq_none_iff {n : Nat} : keptCount n = none ↔ n = 0 := by
  unfold keptCount
  split_ifs with h
  · simp [h]
  · simp [h]

/-- What is kept tells the number. -/
theorem getD_keptCount (n : Nat) : (keptCount n).getD 0 = n := by
  unfold keptCount
  split_ifs with h
  · simp [h]
  · rfl

/-- The counts are those of the table. -/
def Counted (counts : KeyMap UInt64 Nat) (pending : List (UInt64 × Remark)) : Prop :=
  ∀ id, counts.get? id = keptCount (waitsFor pending id)

/-- A remark that comes is counted. -/
theorem Counted.push {counts : KeyMap UInt64 Nat} {pending : List (UInt64 × Remark)}
    (h : Counted counts pending) (id : UInt64) (r : Remark) :
    Counted (Index.countUp counts id) (pending ++ [(id, r)]) := by
  intro k
  have hsum : waitsFor (pending ++ [(id, r)]) k = waitsFor pending k + if id = k then 1 else 0 := by
    simp [waitsFor, List.countP_append, List.countP_cons]
  rw [hsum, Index.countUp, KeyMap.get?_insert, h id, getD_keptCount]
  by_cases hk : id = k
  · subst hk
    simp [keptCount]
  · simp [hk, h k]

/-- The oldest remark that goes is no longer counted. -/
theorem Counted.tail {counts : KeyMap UInt64 Nat} {oldest : UInt64 × Remark}
    {rest : List (UInt64 × Remark)} (h : Counted counts (oldest :: rest)) :
    Counted (Index.countDown counts oldest.1) rest := by
  have hsum : ∀ k, waitsFor (oldest :: rest) k =
      waitsFor rest k + if oldest.1 = k then 1 else 0 := by
    intro k
    simp [waitsFor, List.countP_cons]
  have hoften : counts.get? oldest.1 = some (waitsFor rest oldest.1 + 1) := by
    rw [h oldest.1, hsum, if_pos rfl]
    exact if_neg (Nat.succ_ne_zero _)
  intro k
  have hbefore := h k
  rw [hsum] at hbefore
  unfold Index.countDown
  rw [hoften]
  simp only [Nat.add_sub_cancel]
  by_cases hk : oldest.1 = k
  · subst hk
    split_ifs with hlast
    · have hnone : waitsFor rest oldest.1 = 0 := by omega
      rw [KeyMap.get?_erase, if_pos rfl]
      exact (keptCount_eq_none_iff.mpr hnone).symm
    · have hsome : waitsFor rest oldest.1 ≠ 0 := by omega
      rw [KeyMap.get?_insert, if_pos rfl]
      exact (if_neg hsome).symm
  · rw [if_neg hk, Nat.add_zero] at hbefore
    split_ifs with hlast
    · rw [KeyMap.get?_erase, if_neg hk, hbefore]
    · rw [KeyMap.get?_insert, if_neg hk, hbefore]

/-- All remarks for a task go at once. -/
theorem Counted.erase {counts : KeyMap UInt64 Nat} {pending : List (UInt64 × Remark)}
    (h : Counted counts pending) (id : UInt64) :
    Counted (counts.erase id) (pending.filter fun p => p.1 ≠ id) := by
  intro k
  rw [KeyMap.get?_erase]
  by_cases hk : id = k
  · subst hk
    have hnone : waitsFor (pending.filter fun p => p.1 ≠ id) id = 0 := by
      simp [waitsFor, List.countP_eq_zero]
    rw [if_pos rfl, hnone]
    rfl
  · have hsame : waitsFor (pending.filter fun p => p.1 ≠ id) k = waitsFor pending k := by
      unfold waitsFor
      rw [List.countP_filter]
      refine List.countP_congr fun p _ => ?_
      have hne : k ≠ id := fun heq => hk heq.symm
      constructor
      · intro hp
        exact (Bool.and_eq_true_iff.mp hp).1
      · intro hp
        have hpk : p.1 = k := of_decide_eq_true hp
        simp [hpk, hne]
    rw [if_neg hk, hsame, h k]

/-! ### The table -/

/-- The table of what waits is in order, with room for some remarks. -/
structure Index.Tidy (x : Index) (room : Nat) : Prop where
  /-- The room is what it is taken for. -/
  capacity_eq : x.capacity = room
  /-- No more remarks wait than there is room for. -/
  bounded : x.pending.size ≤ room
  /-- The counts are those of the table. -/
  counted : Counted x.pendingCounts x.pending.toList
  /-- An event waits under its own number. -/
  addressed : ∀ p ∈ x.pending.toList, ∀ d, p.2 = .deopt d → d.compileId = p.1
  /-- While an archive is written, an event whose task was not found waits and is no orphan. -/
  unorphaned : x.orphanDeopts = []

namespace Index

variable {x y : Index} {room : Nat}

/-- An index that holds nothing has an empty table. -/
theorem tidy_empty (room : Nat) : (Index.empty room).Tidy room :=
  ⟨rfl, Nat.zero_le room, fun _ => rfl, by simp [Index.empty], rfl⟩

/-- What leaves the table and the orphans alone leaves it in order. -/
theorem Tidy.congr (h : x.Tidy room) (hcapacity : y.capacity = x.capacity)
    (hpending : y.pending = x.pending) (hcounts : y.pendingCounts = x.pendingCounts)
    (horphans : y.orphanDeopts = x.orphanDeopts) : y.Tidy room where
  capacity_eq := hcapacity.trans h.capacity_eq
  bounded := hpending ▸ h.bounded
  counted := by
    rw [hpending, hcounts]
    exact h.counted
  addressed := hpending ▸ h.addressed
  unorphaned := horphans.trans h.unorphaned

/-- Giving up a remark leaves the table alone. -/
theorem Tidy.giveUp (h : x.Tidy room) (r : Remark) : (x.giveUp r).Tidy room := by
  unfold Index.giveUp
  split
  · exact h.congr rfl rfl rfl rfl
  · exact h

/-- Without remarks there is nothing to drop. -/
theorem dropOldest_of_nil (h : x.pending.toList = []) : x.dropOldest = x := by
  have hnone : x.pending[0]? = none := by
    rw [← Array.getElem?_toList, h]
    rfl
  unfold dropOldest
  rw [hnone]

/-- The oldest of the remarks is dropped. -/
theorem dropOldest_of_cons {oldest : UInt64 × Remark} {rest : List (UInt64 × Remark)}
    (h : x.pending.toList = oldest :: rest) :
    x.dropOldest = Index.giveUp { x with
      pending := rest.toArray, pendingCounts := countDown x.pendingCounts oldest.1 } oldest.2 := by
  have holdest : x.pending[0]? = some oldest := by
    rw [← Array.getElem?_toList, h]
    rfl
  have hrest : x.pending.extract 1 x.pending.size = rest.toArray := by
    have hlist : (x.pending.extract 1 x.pending.size).toList = rest := by
      rw [Array.toList_extract, List.extract_eq_take_drop, h]
      have hlength : x.pending.size = rest.length + 1 := by
        rw [← Array.length_toList, h, List.length_cons]
      simp [hlength]
    rw [← hlist]
  unfold dropOldest
  rw [holdest]
  simp only [hrest]

/-- Giving up a remark leaves those that wait alone. -/
theorem pending_giveUp (x : Index) (r : Remark) : (x.giveUp r).pending = x.pending := by
  unfold giveUp
  split <;> rfl

/-- Dropping the oldest remark keeps the table in order and makes room, if there is any at all. -/
theorem Tidy.dropOldest (h : x.Tidy room) :
    x.dropOldest.Tidy room ∧ (0 < room → x.dropOldest.pending.size < room) := by
  cases hpending : x.pending.toList with
  | nil =>
    rw [dropOldest_of_nil hpending]
    have hsize : x.pending.size = 0 := by rw [← Array.length_toList, hpending, List.length_nil]
    exact ⟨h, fun hroom => by omega⟩
  | cons oldest rest =>
    have hsize : x.pending.size = rest.length + 1 := by
      rw [← Array.length_toList, hpending, List.length_cons]
    have hbounded := h.bounded
    rw [dropOldest_of_cons hpending]
    have hdropped : Index.Tidy { x with
        pending := rest.toArray, pendingCounts := countDown x.pendingCounts oldest.1 } room := by
      refine ⟨h.capacity_eq, ?_, ?_, ?_, h.unorphaned⟩
      · rw [List.size_toArray]
        omega
      · have hcounted := h.counted
        rw [hpending] at hcounted
        exact hcounted.tail
      · intro p hp
        exact h.addressed p (hpending ▸ List.mem_cons_of_mem oldest hp)
    refine ⟨hdropped.giveUp oldest.2, fun _ => ?_⟩
    rw [pending_giveUp, List.size_toArray]
    omega

/-- A remark that is held joins those that wait, out of which others may fall. -/
theorem sublist_pending_hold (x : Index) (id : UInt64) (r : Remark) :
    (x.hold id r).pending.toList.Sublist (x.pending.toList ++ [(id, r)]) := by
  have hdropOldest : x.dropOldest.pending.toList.Sublist x.pending.toList := by
    cases hpending : x.pending.toList with
    | nil => rw [dropOldest_of_nil hpending, hpending]
    | cons oldest rest =>
      rw [dropOldest_of_cons hpending, pending_giveUp]
      exact List.sublist_cons_self oldest rest
  unfold hold
  split
  · rw [pending_giveUp]
    exact List.sublist_append_left _ _
  · simp only [Array.toList_push]
    split
    · exact hdropOldest.append_right _
    · exact .refl _

/-- Where there is room, a remark that is held joins the table at its end. -/
theorem hold_of_room (hroom : x.pending.size < x.capacity) (id : UInt64) (r : Remark) :
    x.hold id r = { x with
      pending := x.pending.push (id, r), pendingCounts := countUp x.pendingCounts id } := by
  unfold hold
  rw [if_neg (by omega), if_neg (by omega)]

/-- Holding a remark keeps the table in order. -/
theorem Tidy.hold (h : x.Tidy room) {id : UInt64} {r : Remark}
    (hr : ∀ d, r = .deopt d → d.compileId = id) : (x.hold id r).Tidy room := by
  have hpush : ∀ y : Index, y.Tidy room → y.pending.size < room →
      Index.Tidy { y with
        pending := y.pending.push (id, r), pendingCounts := countUp y.pendingCounts id } room := by
    intro y hy hroom
    refine ⟨hy.capacity_eq, ?_, ?_, ?_, hy.unorphaned⟩
    · rw [Array.size_push]
      omega
    · rw [Array.toList_push]
      exact hy.counted.push id r
    · intro p hp d hd
      rw [Array.toList_push, List.mem_append, List.mem_singleton] at hp
      rcases hp with hp | rfl
      · exact hy.addressed p hp d hd
      · exact hr d hd
  have hcapacity := h.capacity_eq
  have hbounded := h.bounded
  unfold Index.hold
  split_ifs with hnone hfull
  · exact h.giveUp r
  · obtain ⟨hdropped, hmade⟩ := h.dropOldest
    exact hpush _ hdropped (hmade (by omega))
  · exact hpush x h (by omega)

/-- What waits for a task is taken out, oldest first, and all else is left as it is. -/
theorem takePending_of_tidy (h : x.Tidy room) (id : UInt64) :
    (x.takePending id).1.pending.toList = x.pending.toList.filter (fun p => p.1 ≠ id) ∧
      (x.takePending id).2 = (x.pending.toList.filter fun p => p.1 = id).map Prod.snd := by
  unfold takePending
  split_ifs with hcount
  · have hnone : waitsFor x.pending.toList id = 0 := by
      rw [Option.isNone_iff_eq_none, h.counted id] at hcount
      exact keptCount_eq_none_iff.mp hcount
    have hother : ∀ p ∈ x.pending.toList, p.1 ≠ id := by
      intro p hp
      have hp' := List.countP_eq_zero.mp hnone p hp
      simpa using hp'
    constructor
    · exact (List.filter_eq_self.mpr fun p hp => decide_eq_true (hother p hp)).symm
    · have hnil : x.pending.toList.filter (fun p => p.1 = id) = [] :=
        List.filter_eq_nil_iff.mpr fun p hp => by simpa using hother p hp
      rw [hnil]
      rfl
  · constructor
    · exact Array.toList_filter
    · rw [Array.toList_map, Array.toList_filter]

/-- Taking out what waits for a task keeps the table in order. -/
theorem Tidy.takePending (h : x.Tidy room) (id : UInt64) : (x.takePending id).1.Tidy room := by
  unfold Index.takePending
  split_ifs
  · exact h
  · have hlist : (x.pending.filter fun p => p.1 ≠ id).toList =
        x.pending.toList.filter fun p => p.1 ≠ id := Array.toList_filter
    refine ⟨h.capacity_eq, ?_, ?_, ?_, h.unorphaned⟩
    · exact Nat.le_trans Array.size_filter_le h.bounded
    · simp only [hlist]
      exact h.counted.erase id
    · simp only [hlist]
      intro p hp
      exact h.addressed p (List.mem_of_mem_filter hp)

/-! ### Recording -/

/-- Filing a task keeps the table in order. -/
theorem Tidy.recordTask (h : x.Tidy room) (t : Task) : (x.recordTask t).Tidy room := by
  rw [x.recordTask_eq t]
  exact (h.takePending t.compileId).congr rfl rfl rfl rfl

/-- Filing an event keeps the table in order. -/
theorem Tidy.recordDeopt (h : x.Tidy room) (d : Deopt) : (x.recordDeopt d).Tidy room := by
  rcases x.recordDeopt_cases d with ⟨_, _, _, _, _, heq⟩ | heq
  · rw [heq]
    exact h.congr rfl rfl rfl rfl
  · rw [heq]
    refine h.hold ?_
    intro d' hd
    cases hd
    rfl

/-- Filing installed code or a listing keeps the table in order. -/
theorem Tidy.recordRemark (h : x.Tidy room) (id : UInt64) {r : Remark} (hr : r.isDeopt = false) :
    (x.recordRemark id r).Tidy room := by
  rcases x.recordRemark_cases id r with ⟨_, _, _, _, _, heq⟩ | heq
  · rw [heq]
    exact h.congr rfl rfl rfl rfl
  · rw [heq]
    refine h.hold ?_
    rintro d rfl
    cases hr

/-- Filing what a log yields keeps the table in order. -/
theorem Tidy.record (h : x.Tidy room) (item : Collect.Item) : (x.record item).Tidy room := by
  cases item with
  | task t => exact h.recordTask t
  | deopt d => exact h.recordDeopt d
  | lateNative id n => exact h.recordRemark id rfl
  | lateListing id l => exact h.recordRemark id rfl
  | orphanListing l => exact h.congr rfl rfl rfl rfl
  | codeCache sample => exact h.congr rfl rfl rfl rfl

/-- A header keeps the table in order. -/
theorem Tidy.recordHeader (h : x.Tidy room) (header : LogHeader) :
    (x.recordHeader header).Tidy room := by
  unfold Index.recordHeader
  split_ifs
  · exact h
  · exact h.congr rfl rfl rfl rfl

end Index

/-- Where writing resumes, the table is in order. -/
theorem Archive.tidy_thaw (a : Archive) (room : Nat) : (a.thaw room).Tidy room := by
  unfold thaw
  refine List.foldlRecOn (motive := fun x : Index => x.Tidy room) a.orphanDeopts _ ?_ ?_
  · exact ⟨rfl, Nat.zero_le room, fun _ => rfl, by simp, rfl⟩
  · intro x h d _
    refine h.hold ?_
    intro d' hd
    cases hd
    rfl

end CompileLog
