import CompileLog.Proofs.History.Rest
import CompileLog.Proofs.History.Unclaimed

/-!
# The table is a queue

What waits is a queue with room for some remarks: one that comes joins at the end, the oldest makes
room, and a task that is filed takes its own out from anywhere. A rest keeps the events among them
in their order. So whatever was done before, reading after reading and across rests, what waits
stands in the order in which it came, there is never more of it than there is room for, and the
counts beside the table are those of the table. A task finds exactly what waits for it, although the
table is not looked through where the counts say that nothing does.
-/

namespace CompileLog

/-! ### What comes and what waits -/

/-- The remarks that wait, oldest first. At rest these are the events whose task was not found,
which wait again once writing resumes. -/
def Store.queue : Store → List (UInt64 × Remark)
  | writing x => x.pending.toList
  | atRest a => a.orphanDeopts.map fun d => (d.compileId, .deopt d)

/-- The remarks that an act tells of apart from a task, while histories are written. -/
def Store.tells : Store → Act → List (UInt64 × Remark)
  | writing _, a => a.remarks
  | atRest _, _ => []

/-- The remarks that a sequence of acts tells of, in the order in which they come. -/
def Store.told (s : Store) : List Act → List (UInt64 × Remark)
  | [] => []
  | a :: rest => s.tells a ++ (s.act a).told rest

/-! ### Joining and leaving -/

namespace Index

variable {x : Index} {room : Nat}

/-- The room that a table is in order with is its own. -/
theorem Tidy.self (h : x.Tidy room) : x.Tidy x.capacity := by
  rw [h.capacity_eq]
  exact h

/-- A remark that is held joins at the end. Where there is no room the oldest falls out for it, and
where there never is any, the remark does not join. -/
theorem Tidy.toList_pending_hold (h : x.Tidy room) (id : UInt64) (r : Remark) :
    (x.hold id r).pending.toList =
      if x.capacity = 0 then x.pending.toList
      else if x.pending.size = x.capacity then x.pending.toList.tail ++ [(id, r)]
      else x.pending.toList ++ [(id, r)] := by
  have hcapacity := h.capacity_eq
  have hbounded := h.bounded
  unfold Index.hold
  split_ifs with hnone hfull hexact hexact
  · rw [pending_giveUp]
  · have hoverflow : x.dropOldest.pending.toList = x.pending.toList.tail := by
      cases hpending : x.pending.toList with
      | nil => rw [dropOldest_of_nil hpending, hpending, List.tail_nil]
      | cons oldest rest => rw [dropOldest_of_cons hpending, pending_giveUp, List.tail_cons]
    rw [Array.toList_push, hoverflow]
  · omega
  · omega
  · exact Array.toList_push

/-- What is taken out for a task leaves the rest as it stands. -/
theorem Tidy.sublist_pending_takePending (h : x.Tidy room) (id : UInt64) :
    (x.takePending id).1.pending.toList.Sublist x.pending.toList := by
  rw [(takePending_of_tidy h id).1]
  exact List.filter_sublist

/-- A remark that finds its task or is held stands at the end, if anywhere. -/
theorem sublist_pending_recordRemark (x : Index) (id : UInt64) (r : Remark) :
    (x.recordRemark id r).pending.toList.Sublist (x.pending.toList ++ [(id, r)]) := by
  rcases x.recordRemark_cases id r with ⟨_, _, _, _, _, heq⟩ | heq
  · rw [heq]
    exact List.sublist_append_left _ _
  · rw [heq]
    exact x.sublist_pending_hold id r

/-- An event that finds its task or is held stands at the end, if anywhere. -/
theorem sublist_pending_recordDeopt (x : Index) (d : Deopt) :
    (x.recordDeopt d).pending.toList.Sublist
      (x.pending.toList ++ [(d.compileId, .deopt d)]) := by
  rcases x.recordDeopt_cases d with ⟨_, _, _, _, _, heq⟩ | heq
  · rw [heq]
    exact List.sublist_append_left _ _
  · rw [heq]
    exact x.sublist_pending_hold d.compileId (.deopt d)

/-- Events that are held one after the other stand in their order. By induction on the events. -/
theorem sublist_pending_foldl_hold (deopts : List Deopt) (x : Index) :
    (deopts.foldl (fun x d => x.hold d.compileId (.deopt d)) x).pending.toList.Sublist
      (x.pending.toList ++ deopts.map fun d => (d.compileId, .deopt d)) := by
  induction deopts generalizing x with
  | nil => exact (List.append_nil _).symm ▸ .refl _
  | cons d rest ih =>
    rw [List.foldl_cons, List.map_cons, ← List.singleton_append, ← List.append_assoc]
    exact (ih _).trans ((x.sublist_pending_hold d.compileId (.deopt d)).append_right _)

/-- What a log yields leaves the table in the order in which the remarks came. -/
theorem Tidy.sublist_pending_record (h : x.Tidy room) (item : Collect.Item) :
    (x.record item).pending.toList.Sublist (x.pending.toList ++ (Act.record item).remarks) := by
  have hkept : x.pending.toList.Sublist (x.pending.toList ++ []) :=
    List.sublist_append_left _ _
  cases item with
  | task t =>
    have htaken : (x.recordTask t).pending.toList.Sublist x.pending.toList := by
      rw [x.recordTask_eq t]
      exact h.sublist_pending_takePending t.compileId
    exact htaken.trans hkept
  | deopt d => exact x.sublist_pending_recordDeopt d
  | lateNative id n => exact x.sublist_pending_recordRemark id _
  | lateListing id l => exact x.sublist_pending_recordRemark id _
  | orphanListing l => exact hkept
  | codeCache sample => exact hkept

end Index

/-! ### Whole runs -/

/-- While histories are written their table is in order, with the room that it has, and what waits
is what came, some of it left out. -/
structure Store.Queued (s : Store) (came : List (UInt64 × Remark)) : Prop where
  /-- The table is in order. -/
  tidy : ∀ x, s = writing x → x.Tidy x.capacity
  /-- What waits stands in the order in which it came. -/
  sublist : s.queue.Sublist came

namespace Store

variable {s : Store} {came : List (UInt64 × Remark)}

/-- Every act keeps the table in order, and adds what comes at its end. -/
theorem Queued.act (h : s.Queued came) (a : Act) : (s.act a).Queued (came ++ s.tells a) := by
  obtain ⟨htidy, hsublist⟩ := h
  have hkept : s.queue.Sublist (came ++ s.tells a) :=
    hsublist.trans (List.sublist_append_left _ _)
  cases s with
  | writing x =>
    have hx : x.Tidy x.capacity := htidy x rfl
    have hwriting : ∀ y, (writing x).act a = writing y → y.Tidy y.capacity :=
      fun y hy => (hx.act hy).self
    refine ⟨hwriting, ?_⟩
    cases a with
    | freeze =>
      -- The events become orphans in the order in which they waited.
      have hevents : (atRest x.freeze).queue = x.pending.toList.filter fun p => p.2.isDeopt := by
        rw [queue, x.freeze_eq, hx.unorphaned]
        exact hx.map_waiting
      have hfewer : (atRest x.freeze).queue.Sublist x.pending.toList := by
        rw [hevents]
        exact List.filter_sublist
      exact hfewer.trans hkept
    | beginPass => exact hkept
    | thaw capacity => exact hkept
    | recordHeader header =>
      have hsame : (x.recordHeader header).pending = x.pending := by
        unfold Index.recordHeader
        split <;> rfl
      change (x.recordHeader header).pending.toList.Sublist _
      rw [hsame]
      exact hkept
    | record item => exact (hx.sublist_pending_record item).trans (hsublist.append_right _)
  | atRest archive =>
    cases a with
    | thaw capacity =>
      refine ⟨?_, ?_⟩
      · rintro y hy
        obtain rfl := writing.inj hy
        exact (archive.tidy_thaw capacity).self
      · have hwait : (archive.thaw capacity).pending.toList.Sublist (atRest archive).queue :=
          Index.sublist_pending_foldl_hold archive.orphanDeopts _
        exact hwait.trans hkept
    | _ => exact ⟨htidy, hkept⟩

/-- So does every sequence of acts. By induction on the acts. -/
theorem Queued.run (h : s.Queued came) (acts : List Act) :
    (s.run acts).Queued (came ++ s.told acts) := by
  induction acts generalizing s came with
  | nil =>
    rw [told, List.append_nil]
    exact h
  | cons a rest ih =>
    rw [told, ← List.append_assoc]
    exact ih (h.act a)

/-- At the beginning the table is in order. -/
theorem queued_origin (o : Origin) : o.store.Queued o.store.queue := by
  refine ⟨fun x hx => ?_, .refl _⟩
  cases o with
  | empty capacity =>
    obtain rfl := writing.inj hx
    exact Index.tidy_empty capacity
  | stored snapshot => cases hx

/-- The table is consistent and bounded. Whatever was done to histories that began empty or came
from a snapshot: while they are written, no more remarks wait than there is room for; a count is
kept for a number exactly where something waits for it, and it is the number of remarks that do; and
what waits stands in the order in which it came, behind what had come before. A remark that is to
wait joins at the end, and where there is some room but none is left exactly the oldest falls out.
Taking out what waits for a task gives all of that and nothing else, oldest first, and leaves the
others in order. -/
theorem pending_consistent (o : Origin) (acts : List Act) {x : Index}
    (hrun : o.store.run acts = .writing x) :
    x.pending.size ≤ x.capacity ∧
      (∀ id n, x.pendingCounts.get? id = some n ↔ n ≠ 0 ∧ waitsFor x.pending.toList id = n) ∧
      x.pending.toList.Sublist (o.store.queue ++ o.store.told acts) ∧
      (∀ id r, (x.hold id r).pending.toList =
        if x.capacity = 0 then x.pending.toList
        else if x.pending.size = x.capacity then x.pending.toList.tail ++ [(id, r)]
        else x.pending.toList ++ [(id, r)]) ∧
      ∀ id, (x.takePending id).2 = (x.pending.toList.filter fun p => p.1 = id).map Prod.snd ∧
        (x.takePending id).1.pending.toList = x.pending.toList.filter fun p => p.1 ≠ id := by
  have hqueued : (writing x).Queued (o.store.queue ++ o.store.told acts) :=
    hrun ▸ (queued_origin o).run acts
  have htidy : x.Tidy x.capacity := hqueued.tidy x rfl
  refine ⟨htidy.bounded, fun id n => ?_, hqueued.sublist, htidy.toList_pending_hold, fun id => ?_⟩
  · rw [htidy.counted id, keptCount]
    split_ifs with hnone
    · simp [hnone, eq_comm]
    · simp only [Option.some.injEq]
      constructor
      · rintro rfl
        exact ⟨hnone, rfl⟩
      · exact fun h => h.2
  · obtain ⟨hkept, htaken⟩ := Index.takePending_of_tidy htidy id
    exact ⟨htaken, hkept⟩

/-- With room for three remarks, four come, and writing rests. It resumes with room for two, and one
more comes. -/
def crowdedTwice : List Act :=
  [.record (.deopt (bareDeopt 7)), .record (.lateListing 8 (bareListing 8)),
    .record (.deopt (bareDeopt 9)), .record (.deopt (bareDeopt 9)), .freeze, .thaw 2, .beginPass,
    .record (.deopt (bareDeopt 7))]

/-- The first event and then the listing are gone, one of the two on the same task has made room for
the last one, and what waits is counted. -/
theorem pending_consistent_crowdedTwice :
    ∃ x, (Origin.empty 3).store.run crowdedTwice = .writing x ∧
      x.pending.toList = [(9, .deopt (bareDeopt 9)), (7, .deopt (bareDeopt 7))] ∧
      x.pendingCounts.get? 9 = some 1 ∧ x.pendingCounts.get? 8 = none ∧
      (x.takePending 9).2 = [.deopt (bareDeopt 9)] ∧
      (x.takePending 9).1.pending.toList = [(7, .deopt (bareDeopt 7))] := by
  obtain ⟨x, hrun, hpending⟩ : ∃ x, (Origin.empty 3).store.run crowdedTwice = .writing x ∧
      x.pending.toList = [(9, .deopt (bareDeopt 9)), (7, .deopt (bareDeopt 7))] := ⟨_, rfl, rfl⟩
  obtain ⟨_, hcounts, _, _, htakes⟩ := pending_consistent (.empty 3) crowdedTwice hrun
  obtain ⟨htaken, hkept⟩ := htakes 9
  rw [hpending] at hcounts htaken hkept
  refine ⟨x, hrun, hpending, (hcounts 9 1).mpr (by decide), ?_, htaken, hkept⟩
  rw [Option.eq_none_iff_forall_ne_some]
  intro n hn
  obtain ⟨hsome, hnone⟩ := (hcounts 8 n).mp hn
  exact hsome hnone.symm

end Store

end CompileLog
