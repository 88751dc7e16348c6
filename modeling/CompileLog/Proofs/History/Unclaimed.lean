import CompileLog.Proofs.History.Late
import Mathlib.Data.List.Flatten
import Mathlib.Data.List.Induction
import Mathlib.Data.List.Infix

/-!
# Remarks that no task claims

A remark that finds no task of its number in the reading under way waits, and the first task of that
number that is filed later claims it. Where none comes, the remark is unclaimed. What waits is the
newest of what is unclaimed, so the listings among it stay as orphans where writing ends. Where more
is unclaimed at once than there is room for, the older remarks are crowded out: the events among
them are counted, listings and installed code are not.
-/

namespace CompileLog

/-! ### What is unclaimed -/

namespace Act

/-- The remark that an act makes apart from a task, if it does, with the number of the task. -/
def remarks : Act → List (UInt64 × Remark)
  | record (.deopt d) => [(d.compileId, .deopt d)]
  | record (.lateNative id n) => [(id, .native n)]
  | record (.lateListing id l) => [(id, .listing l)]
  | _ => []

/-- The number of the task that an act files. -/
def task? : Act → Option UInt64
  | record (.task t) => some t.compileId
  | _ => none

/-- The listing that an act files as one of no task, if it does. -/
def orphanListings : Act → List Listing
  | record (.orphanListing l) => [l]
  | _ => []

end Act

/-- The numbers of the tasks that a reading has filed, after one act more. -/
def filedAfter (numbers : List UInt64) : Act → List UInt64
  | .beginPass => []
  | .record (.task t) => t.compileId :: numbers
  | _ => numbers

/-- The numbers of the tasks that the reading under way has filed. -/
def filedNow (acts : List Act) : List UInt64 := acts.foldl filedAfter []

/-- The remarks among some acts that no task claims, where the reading has filed some tasks before:
none of these has the number of the remark, and none that is filed later does. -/
def unclaimedFrom (numbers : List UInt64) : List Act → List (UInt64 × Remark)
  | [] => []
  | a :: rest =>
    (a.remarks.filter fun p => p.1 ∉ numbers ∧ ∀ b ∈ rest, b.task? ≠ some p.1) ++
      unclaimedFrom (filedAfter numbers a) rest

/-- The remarks that no task claims, oldest first. -/
def unclaimed (acts : List Act) : List (UInt64 × Remark) := unclaimedFrom [] acts

/-- The reading under way has filed what it had filed before, and what the last act files. -/
theorem filedNow_concat (acts : List Act) (a : Act) :
    filedNow (acts ++ [a]) = filedAfter (filedNow acts) a := by
  unfold filedNow
  rw [List.foldl_append, List.foldl_cons, List.foldl_nil]

/-- One act more claims what is of its task, and may make a remark that is unclaimed. By induction
on the acts before. -/
theorem unclaimedFrom_concat (numbers : List UInt64) (acts : List Act) (a : Act) :
    unclaimedFrom numbers (acts ++ [a]) =
      (unclaimedFrom numbers acts).filter (fun p => a.task? ≠ some p.1) ++
        a.remarks.filter fun p => p.1 ∉ acts.foldl filedAfter numbers := by
  induction acts generalizing numbers with
  | nil =>
    refine (List.append_nil _).trans (List.filter_congr fun p _ => ?_)
    exact decide_eq_decide.mpr (by simp)
  | cons b rest ih =>
    rw [List.cons_append, unclaimedFrom, unclaimedFrom, ih, List.filter_append, List.filter_filter,
      List.append_assoc, List.foldl_cons]
    congr 1
    refine List.filter_congr fun p _ => ?_
    simp only [List.forall_mem_append, List.forall_mem_singleton, Bool.decide_and]
    exact (Bool.and_assoc _ _ _).symm.trans (Bool.and_comm _ _)

/-- One act more claims what is of its task, and may make a remark that is unclaimed. -/
theorem unclaimed_concat (acts : List Act) (a : Act) :
    unclaimed (acts ++ [a]) =
      (unclaimed acts).filter (fun p => a.task? ≠ some p.1) ++
        a.remarks.filter fun p => p.1 ∉ filedNow acts :=
  unclaimedFrom_concat [] acts a

/-- The events among some remarks. -/
def eventsOf (remarks : List (UInt64 × Remark)) : List Deopt := remarks.flatMap fun p => p.2.deopts

/-- Of one remark there is its event. -/
@[simp]
theorem eventsOf_singleton (p : UInt64 × Remark) : eventsOf [p] = p.2.deopts :=
  List.flatMap_singleton ..

/-- The events among two lists of remarks are those among each. -/
@[simp]
theorem eventsOf_append (front back : List (UInt64 × Remark)) :
    eventsOf (front ++ back) = eventsOf front ++ eventsOf back :=
  List.flatMap_append

/-- Among fewer remarks there are no more events. -/
theorem length_eventsOf_filter_le (keep : UInt64 × Remark → Bool)
    (remarks : List (UInt64 × Remark)) :
    (eventsOf (remarks.filter keep)).length ≤ (eventsOf remarks).length :=
  (List.filter_sublist.flatMap _).length_le

/-! ### Numbers of the reading -/

namespace Index

variable {x y : Index} {room : Nat} {offered gone : List (UInt64 × Remark)}

/-- After a task is filed, the numbers of the reading are those before and that of the task. -/
theorem ownsNow_recordTask_iff (x : Index) (t : Task) (id : UInt64) :
    (x.recordTask t).OwnsNow id ↔ id = t.compileId ∨ x.OwnsNow id := by
  constructor
  · rintro ⟨o, howner, hpass⟩
    by_cases hid : id = t.compileId
    · exact .inl hid
    · right
      rw [x.pass_recordTask t] at hpass
      rw [x.recordTask_eq t] at howner
      simp only at howner
      split_ifs at howner
      · exact ⟨o, howner, hpass⟩
      · rw [KeyMap.get?_insert, if_neg (Ne.symm hid)] at howner
        exact ⟨o, howner, hpass⟩
  · rintro (rfl | hid)
    · exact x.ownsNow_recordTask_self t
    · exact hid.recordTask t

/-- In a reading that has just begun, no number means a task of it. -/
theorem not_ownsNow_beginPass (h : x.OwnersBegun) (id : UInt64) : ¬ x.beginPass.OwnsNow id := by
  rintro ⟨o, howner, hpass⟩
  have hle : o.pass ≤ x.pass := h id o howner
  have hnext : o.pass = x.pass + 1 := hpass
  omega

/-! ### What falls out -/

/-- Of the remarks that are to wait, an index keeps the newest. The older ones fall out where there
is no room for all, and the events among them are counted. -/
structure KeepsNewest (x : Index) (room : Nat) (offered gone : List (UInt64 × Remark))
    (y : Index) : Prop where
  /-- What falls out comes before what waits. -/
  parts : offered = gone ++ y.pending.toList
  /-- The events that fall out are counted. -/
  counted : y.dropped = x.dropped + (eventsOf gone).length
  /-- Where anything falls out, no room is left. -/
  full : gone ≠ [] → y.pending.size = room

/-- Where all that is to wait does, nothing falls out. -/
theorem KeepsNewest.of_eq (hpending : offered = y.pending.toList)
    (hdropped : y.dropped = x.dropped) : x.KeepsNewest room offered [] y :=
  ⟨hpending, hdropped, fun hgone => absurd rfl hgone⟩

/-- Where there is room for all, nothing falls out. -/
theorem KeepsNewest.fits (h : x.KeepsNewest room offered gone y) (hroom : offered.length ≤ room) :
    gone = [] := by
  by_contra hgone
  have hfull := h.full hgone
  have hsome : 0 < gone.length := List.length_pos_of_ne_nil hgone
  have hsize : y.pending.toList.length = y.pending.size := Array.length_toList
  rw [h.parts, List.length_append] at hroom
  omega

/-- Giving up a remark counts its event. -/
theorem dropped_giveUp (x : Index) (r : Remark) :
    (x.giveUp r).dropped = x.dropped + r.deopts.length := by
  cases r <;> rfl

/-- A remark that is held joins those that wait, and the oldest makes room for it. -/
theorem Tidy.hold_keepsNewest (h : x.Tidy room) (id : UInt64) (r : Remark) :
    ∃ gone, x.KeepsNewest room (x.pending.toList ++ [(id, r)]) gone (x.hold id r) := by
  have hcapacity := h.capacity_eq
  have hbounded := h.bounded
  by_cases hroom : x.pending.size < room
  · refine ⟨[], ?_⟩
    rw [hold_of_room (hcapacity ▸ hroom)]
    exact .of_eq Array.toList_push.symm rfl
  · have hfull : x.pending.toList.length = room := by
      rw [Array.length_toList]
      omega
    cases hpending : x.pending.toList with
    | nil =>
      -- Only where there is no room at all, the table is empty and full.
      have hnone : x.capacity = 0 := by
        rw [hpending, List.length_nil] at hfull
        omega
      refine ⟨[(id, r)], ?_, ?_, fun _ => ?_⟩
      · rw [Index.hold, if_pos hnone, pending_giveUp, hpending]
        rfl
      · rw [Index.hold, if_pos hnone, dropped_giveUp]
        simp
      · rw [Index.hold, if_pos hnone, pending_giveUp, ← Array.length_toList]
        exact hfull
    | cons oldest rest =>
      rw [hpending, List.length_cons] at hfull
      have hsome : x.capacity ≠ 0 := by omega
      refine ⟨[oldest], ?_, ?_, fun _ => ?_⟩
      · rw [Index.hold, if_neg hsome, if_pos (by omega), dropOldest_of_cons hpending]
        simp [pending_giveUp]
      · rw [Index.hold, if_neg hsome, if_pos (by omega), dropOldest_of_cons hpending]
        simp [dropped_giveUp]
      · rw [Index.hold, if_neg hsome, if_pos (by omega), dropOldest_of_cons hpending]
        simpa [pending_giveUp] using hfull

/-- A remark that comes finds the task of its number in the reading, or is held. -/
inductive Meets (x : Index) (p : UInt64 × Remark) : Index → Prop where
  /-- The history of the task is put back with the remark. -/
  | task (hnow : x.OwnsNow p.1) (key : Method) (h : MethodHistory) : Meets x p (x.putHistory key h)
  /-- No task of the reading has the number. -/
  | none (hnow : ¬ x.OwnsNow p.1) : Meets x p (x.hold p.1 p.2)

/-- Installed code or a listing finds its task, or is held. -/
theorem meets_recordRemark (howned : x.OwnedSince x.pass) (id : UInt64) (r : Remark) :
    x.Meets (id, r) (x.recordRemark id r) := by
  by_cases hid : x.OwnsNow id
  · obtain ⟨o, h, t, hheld, ht⟩ := heldNow?_of_ownsNow howned hid
    rw [recordRemark_of_heldNow? hheld ht r]
    exact .task hid _ _
  · rw [recordRemark_eq, heldNow?_of_not_ownsNow hid]
    exact .none hid

/-- An event finds its task, or is held. -/
theorem meets_recordDeopt (howned : x.OwnedSince x.pass) (d : Deopt) :
    x.Meets (d.compileId, .deopt d) (x.recordDeopt d) := by
  by_cases hid : x.OwnsNow d.compileId
  · obtain ⟨o, h, _, hheld, _⟩ := heldNow?_of_ownsNow howned hid
    rw [recordDeopt_eq, hheld]
    exact .task hid _ _
  · rw [recordDeopt_eq, heldNow?_of_not_ownsNow hid]
    exact .none hid

/-! ### One act -/

/-- What an act that goes on writing makes of an index. -/
inductive Becomes (x : Index) : Act → Index → Prop where
  /-- Another reading begins. -/
  | beginPass : Becomes x .beginPass x.beginPass
  /-- A task is filed. -/
  | task (t : Task) : Becomes x (.record (.task t)) (x.recordTask t)
  /-- A remark comes apart from its task. -/
  | remark {a : Act} {p : UInt64 × Remark} {y : Index} (hremarks : a.remarks = [p])
    (htask : a.task? = none) (hfiled : ∀ numbers, filedAfter numbers a = numbers)
    (horphans : a.orphanListings = []) (hmeets : x.Meets p y) : Becomes x a y
  /-- Something comes that is of no task. -/
  | aside {a : Act} {y : Index} (hremarks : a.remarks = []) (htask : a.task? = none)
    (hfiled : ∀ numbers, filedAfter numbers a = numbers) (hsame : SameFiled y.toArchive x.toArchive)
    (hpending : y.pending = x.pending) (hdropped : y.dropped = x.dropped)
    (horphans : y.orphanListings = x.orphanListings ++ a.orphanListings) : Becomes x a y

/-- An index becomes what the acts make of it, as long as writing goes on. -/
theorem becomes_of_act (howned : x.OwnedSince x.pass) {a : Act}
    (hact : (Store.writing x).act a = .writing y) : x.Becomes a y := by
  have hnil : x.orphanListings = x.orphanListings ++ [] := (List.append_nil _).symm
  cases a with
  | freeze => cases hact
  | beginPass =>
    obtain rfl := Store.writing.inj hact
    exact .beginPass
  | thaw capacity =>
    obtain rfl := Store.writing.inj hact
    exact .aside rfl rfl (fun _ => rfl) (.refl _) rfl rfl hnil
  | recordHeader header =>
    obtain rfl := Store.writing.inj hact
    refine .aside rfl rfl (fun _ => rfl) (x.sameFiled_recordHeader header) ?_ ?_ ?_ <;>
      unfold recordHeader <;> split
    all_goals first | rfl | exact hnil
  | record item =>
    obtain rfl := Store.writing.inj hact
    cases item with
    | task t => exact .task t
    | deopt d => exact .remark rfl rfl (fun _ => rfl) rfl (meets_recordDeopt howned d)
    | lateNative id n => exact .remark rfl rfl (fun _ => rfl) rfl (meets_recordRemark howned id _)
    | lateListing id l => exact .remark rfl rfl (fun _ => rfl) rfl (meets_recordRemark howned id _)
    | orphanListing l => exact .aside rfl rfl (fun _ => rfl) ⟨rfl, rfl, rfl⟩ rfl rfl rfl
    | codeCache sample => exact .aside rfl rfl (fun _ => rfl) ⟨rfl, rfl, rfl⟩ rfl rfl hnil

/-- A number means a task of the reading in one archive if it does in another that has filed the
same. -/
theorem ownsNow_iff_of_sameFiled (hsame : SameFiled y.toArchive x.toArchive) (id : UInt64) :
    y.OwnsNow id ↔ x.OwnsNow id :=
  ⟨fun h => h.congr hsame.owners_eq.symm hsame.pass_eq.symm,
    fun h => h.congr hsame.owners_eq hsame.pass_eq⟩

/-- Taking out what waits for a task counts nothing, and makes no listing an orphan. -/
theorem takePending_keeps (x : Index) (id : UInt64) :
    (x.takePending id).1.dropped = x.dropped ∧
      (x.takePending id).1.orphanListings = x.orphanListings := by
  unfold takePending
  split <;> exact ⟨rfl, rfl⟩

/-- Letting a remark wait makes no listing an orphan. -/
theorem orphanListings_hold (x : Index) (id : UInt64) (r : Remark) :
    (x.hold id r).orphanListings = x.orphanListings := by
  have hgiveUp : ∀ (y : Index) (r : Remark), (y.giveUp r).orphanListings = y.orphanListings := by
    intro y r
    cases r <;> rfl
  have hdropOldest : x.dropOldest.orphanListings = x.orphanListings := by
    cases hpending : x.pending.toList with
    | nil => rw [dropOldest_of_nil hpending]
    | cons oldest rest => rw [dropOldest_of_cons hpending, hgiveUp]
  unfold hold
  split_ifs
  · exact hgiveUp x r
  · exact hdropOldest
  · rfl

namespace Becomes

variable {a : Act} {numbers : List UInt64} (h : x.Becomes a y)
include h

/-- The numbers of the reading are those of the tasks that it has filed. -/
theorem ownsNow_iff (hbegun : x.OwnersBegun) (hnow : ∀ id, x.OwnsNow id ↔ id ∈ numbers)
    (id : UInt64) : y.OwnsNow id ↔ id ∈ filedAfter numbers a := by
  cases h with
  | beginPass => simp [filedAfter, x.not_ownsNow_beginPass hbegun id]
  | task t =>
    rw [filedAfter, List.mem_cons, ← hnow id]
    exact x.ownsNow_recordTask_iff t id
  | remark _ _ hfiled _ hmeets =>
    rw [hfiled, ← hnow id]
    cases hmeets with
    | task => exact Iff.rfl
    | none => exact ownsNow_iff_of_sameFiled (x.sameFiled_hold _ _) id
  | aside _ _ hfiled hsame =>
    rw [hfiled, ← hnow id]
    exact ownsNow_iff_of_sameFiled hsame id

/-- While an archive is written, the orphans among the listings are those filed as such. -/
theorem orphanListings_eq : y.orphanListings = x.orphanListings ++ a.orphanListings := by
  cases h with
  | beginPass => exact (List.append_nil _).symm
  | task t =>
    rw [x.recordTask_eq t]
    exact (x.takePending_keeps t.compileId).2.trans (List.append_nil _).symm
  | remark _ _ _ horphans hmeets =>
    rw [horphans, List.append_nil]
    cases hmeets with
    | task => rfl
    | none => exact x.orphanListings_hold _ _
  | aside _ _ _ _ _ _ horphans => exact horphans

/-- A task claims what waits for it, and a remark waits where no task of the reading has its
number. -/
theorem keepsNewest (htidy : x.Tidy room) (hnow : ∀ id, x.OwnsNow id ↔ id ∈ numbers) :
    ∃ gone, x.KeepsNewest room
      (x.pending.toList.filter (fun p => a.task? ≠ some p.1) ++
        a.remarks.filter fun p => p.1 ∉ numbers) gone y := by
  have hnone : x.pending.toList.filter (fun p => none ≠ some p.1) = x.pending.toList := by simp
  cases h with
  | beginPass => exact ⟨[], .of_eq ((List.append_nil _).trans hnone) rfl⟩
  | task t =>
    refine ⟨[], .of_eq ?_ ?_⟩
    · rw [x.recordTask_eq t]
      simp only [(takePending_of_tidy htidy t.compileId).1]
      simp [Act.task?, Act.remarks, eq_comm]
    · rw [x.recordTask_eq t]
      exact (x.takePending_keeps t.compileId).1
  | @remark _ p _ hremarks htask _ _ hmeets =>
    rw [hremarks, htask, hnone]
    cases hmeets with
    | task hid =>
      refine ⟨[], .of_eq ?_ rfl⟩
      simp [(hnow p.1).mp hid, putHistory]
    | none hid =>
      have hnew : p.1 ∉ numbers := fun hmem => hid ((hnow p.1).mpr hmem)
      have hkept : [p].filter (fun p => p.1 ∉ numbers) = [p] := by simp [hnew]
      rw [hkept]
      exact htidy.hold_keepsNewest p.1 p.2
  | aside hremarks htask _ _ hpending hdropped =>
    rw [hremarks, htask, hnone]
    exact ⟨[], .of_eq (by rw [hpending]; exact List.append_nil _) hdropped⟩

end Becomes

/-- An act after which writing goes on keeps the table in order. -/
theorem Tidy.act (h : x.Tidy room) {a : Act} (hact : (Store.writing x).act a = .writing y) :
    y.Tidy room := by
  cases a with
  | freeze => cases hact
  | beginPass =>
    obtain rfl := Store.writing.inj hact
    exact h.congr rfl rfl rfl rfl
  | thaw capacity =>
    obtain rfl := Store.writing.inj hact
    exact h
  | recordHeader header =>
    obtain rfl := Store.writing.inj hact
    exact h.recordHeader header
  | record item =>
    obtain rfl := Store.writing.inj hact
    exact h.record item

end Index

/-! ### Many acts -/

/-- What an index holds after some acts on one that held nothing, some unclaimed remarks having been
crowded out. -/
structure Index.After (room : Nat) (acts : List Act) (crowdedOut : List (UInt64 × Remark))
    (x : Index) : Prop where
  /-- The table is in order. -/
  tidy : x.Tidy room
  /-- Each number leads to its task. -/
  owned : x.Owned
  /-- The numbers are of readings that have begun. -/
  begun : x.OwnersBegun
  /-- The numbers of the reading are those of the tasks that it has filed. -/
  ownsNow_iff : ∀ id, x.OwnsNow id ↔ id ∈ filedNow acts
  /-- The orphans among the listings are those filed as such. -/
  orphans : x.orphanListings = acts.flatMap Act.orphanListings
  /-- The unclaimed remarks are those crowded out and, behind these, those that wait. -/
  parts : unclaimed acts = crowdedOut ++ x.pending.toList
  /-- The events crowded out are counted. -/
  counted : (eventsOf crowdedOut).length ≤ x.dropped
  /-- Nothing but events is counted. -/
  onlyEvents : (eventsOf x.pending.toList).length + x.dropped ≤
    (eventsOf (acts.flatMap Act.remarks)).length
  /-- Where there was room for all that was unclaimed at any time, nothing is crowded out. -/
  fits : (∀ earlier, earlier <+: acts → (unclaimed earlier).length ≤ room) → crowdedOut = []

namespace Index.After

variable {x y : Index} {room : Nat} {acts : List Act} {crowdedOut : List (UInt64 × Remark)}

/-- Before the first act. -/
theorem nil (room : Nat) : (Index.empty room).After room [] [] where
  tidy := Index.tidy_empty room
  owned := Index.owned_empty room
  begun id o ho := by cases ho
  ownsNow_iff id := by
    constructor
    · rintro ⟨o, ho, _⟩
      cases ho
    · intro hmem
      cases hmem
  orphans := rfl
  parts := rfl
  counted := Nat.le_refl 0
  onlyEvents := Nat.le_refl 0
  fits _ := rfl

/-- An index becomes what one act more makes of it. -/
theorem becomes (h : x.After room acts crowdedOut) {a : Act}
    (hact : (Store.writing x).act a = .writing y) : x.Becomes a y :=
  Index.becomes_of_act (fun id o ho _ => h.owned id o ho) hact

/-- With one act more, some of what is to wait may fall out, and is unclaimed behind what was
crowded out before and is still unclaimed. -/
theorem keepsNewest (h : x.After room acts crowdedOut) {a : Act}
    (hact : (Store.writing x).act a = .writing y) :
    ∃ gone, x.KeepsNewest room
        (x.pending.toList.filter (fun p => a.task? ≠ some p.1) ++
          a.remarks.filter fun p => p.1 ∉ filedNow acts) gone y ∧
      unclaimed (acts ++ [a]) =
        crowdedOut.filter (fun p => a.task? ≠ some p.1) ++ (gone ++ y.pending.toList) := by
  obtain ⟨gone, hkeeps⟩ := (h.becomes hact).keepsNewest h.tidy h.ownsNow_iff
  refine ⟨gone, hkeeps, ?_⟩
  rw [unclaimed_concat, h.parts, List.filter_append, List.append_assoc, hkeeps.parts]

/-- One act more. -/
theorem concat (h : x.After room acts crowdedOut) {a : Act}
    (hact : (Store.writing x).act a = .writing y) :
    ∃ crowdedOut', y.After room (acts ++ [a]) crowdedOut' := by
  have hbecomes : x.Becomes a y := h.becomes hact
  obtain ⟨gone, hkeeps, hparts⟩ := h.keepsNewest hact
  have howned : y.Owned := by
    have hkept := Archive.Owned.act (s := .writing x) h.owned a
    rwa [hact] at hkept
  have hbegun : y.OwnersBegun := by
    have hkept := Archive.OwnersBegun.archiveInvariant.act (s := .writing x) h.begun a.files_true
    rwa [hact] at hkept
  refine ⟨crowdedOut.filter (fun p => a.task? ≠ some p.1) ++ gone,
    h.tidy.act hact, howned, hbegun, ?_, ?_, ?_, ?_, ?_, ?_⟩
  · intro id
    rw [filedNow_concat]
    exact hbecomes.ownsNow_iff h.begun h.ownsNow_iff id
  · rw [hbecomes.orphanListings_eq, h.orphans, List.flatMap_append, List.flatMap_singleton]
  · rw [hparts, List.append_assoc]
  · have hfewer := length_eventsOf_filter_le (fun p => a.task? ≠ some p.1) crowdedOut
    have hcounted := h.counted
    rw [hkeeps.counted, eventsOf_append, List.length_append]
    omega
  · have hwaiting := length_eventsOf_filter_le (fun p => a.task? ≠ some p.1) x.pending.toList
    have hremarks := length_eventsOf_filter_le (fun p => p.1 ∉ filedNow acts) a.remarks
    have hoffered := congrArg (fun remarks => (eventsOf remarks).length) hkeeps.parts
    simp only [eventsOf_append, List.length_append] at hoffered
    have hbefore := h.onlyEvents
    rw [hkeeps.counted, List.flatMap_append, List.flatMap_singleton, eventsOf_append,
      List.length_append]
    omega
  · intro hroom
    have hnone : crowdedOut = [] :=
      h.fits fun earlier hearlier => hroom earlier (hearlier.trans (List.prefix_append acts [a]))
    have hall := hroom (acts ++ [a]) (List.prefix_refl _)
    rw [hparts, hnone, List.filter_nil, List.nil_append, ← hkeeps.parts] at hall
    rw [hnone, hkeeps.fits hall]
    rfl

end Index.After

/-- Acts among which writing never ends go on writing. By induction on the acts, from the last. -/
theorem Store.exists_after (room : Nat) {acts : List Act} (hacts : Act.freeze ∉ acts) :
    ∃ x crowdedOut, (writing (.empty room)).run acts = writing x ∧
      x.After room acts crowdedOut := by
  induction acts using List.reverseRecOn with
  | nil => exact ⟨_, _, rfl, .nil room⟩
  | append_singleton acts a ih =>
    obtain ⟨x, crowdedOut, hrun, hafter⟩ := ih fun hmem => hacts (List.mem_append_left _ hmem)
    obtain ⟨y, hact⟩ : ∃ y, (writing x).act a = writing y := by
      cases a with
      | freeze => exact absurd (List.mem_append_right acts List.mem_cons_self) hacts
      | _ => exact ⟨_, rfl⟩
    obtain ⟨crowdedOut', hafter'⟩ := hafter.concat hact
    refine ⟨y, crowdedOut', ?_, hafter'⟩
    rw [run_append, hrun]
    exact hact

/-- Where writing ends, the unclaimed remarks are those that were crowded out and, behind these,
those that still waited, of which there are no more than there is room for. Listings that still
waited stay as orphans, behind those filed as such, and so do events. Events that were crowded out
are counted, and nothing but events is. Where there was room for all that was unclaimed at any time,
nothing was crowded out. -/
theorem Store.unclaimed_crowded_or_kept (room : Nat) (acts : List Act)
    (hacts : Act.freeze ∉ acts) :
    ∃ a crowdedOut kept, (writing (.empty room)).run (acts ++ [.freeze]) = atRest a ∧
      unclaimed acts = crowdedOut ++ kept ∧ kept.length ≤ room ∧
      a.orphanListings =
        acts.flatMap Act.orphanListings ++ kept.flatMap (fun p => p.2.listings) ∧
      a.orphanDeopts = eventsOf kept ∧
      (eventsOf crowdedOut).length ≤ a.dropped ∧
      a.dropped ≤ (eventsOf (acts.flatMap Act.remarks)).length ∧
      ((∀ earlier, earlier <+: acts → (unclaimed earlier).length ≤ room) → crowdedOut = []) := by
  obtain ⟨x, crowdedOut, hrun, hafter⟩ := exists_after room hacts
  refine ⟨x.freeze, crowdedOut, x.pending.toList, ?_, hafter.parts, ?_, ?_, ?_, ?_, ?_,
    hafter.fits⟩
  · unfold run at hrun ⊢
    rw [List.foldl_append, hrun]
    rfl
  · rw [Array.length_toList]
    exact hafter.tidy.bounded
  · rw [x.freeze_eq, ← hafter.orphans]
  · rw [x.freeze_eq, hafter.tidy.unorphaned]
    rfl
  · rw [x.freeze_eq]
    exact hafter.counted
  · rw [x.freeze_eq]
    exact Nat.le_trans (Nat.le_add_left _ _) hafter.onlyEvents

/-- The listing of a number of which nothing else is printed. -/
def bareListing (id : UInt64) : Listing := { (default : Listing) with compileId := some id }

/-- An event on the task with a number, of which nothing else is known. -/
def bareDeopt (id : UInt64) : Deopt := { (default : Deopt) with compileId := id }

/-- Three listings, of which at most two wait: the task of the first comes before the third. -/
def listingsAroundTask : List Act :=
  [.record (.lateListing 7 (bareListing 7)), .record (.lateListing 8 (bareListing 8)),
    .record (.task (.new 7 ⟨"A", "a", "()V"⟩)), .record (.lateListing 9 (bareListing 9))]

/-- With room for two remarks the listings that no task claims are orphans in the end. -/
theorem Store.unclaimed_kept_around_task :
    Act.freeze ∉ listingsAroundTask ∧
      ∃ a, (writing (.empty 2)).run (listingsAroundTask ++ [.freeze]) = atRest a ∧
        a.orphanListings = [bareListing 8, bareListing 9] := by
  have hacts : Act.freeze ∉ listingsAroundTask := by simp [listingsAroundTask]
  have hroom : ∀ earlier, earlier <+: listingsAroundTask → (unclaimed earlier).length ≤ 2 := by
    have hinits : ∀ earlier ∈ listingsAroundTask.inits, (unclaimed earlier).length ≤ 2 := by decide
    exact fun earlier hearlier => hinits earlier ((List.mem_inits _ _).mpr hearlier)
  obtain ⟨a, crowdedOut, kept, hrun, hparts, _, horphans, _, _, _, hfits⟩ :=
    unclaimed_crowded_or_kept 2 listingsAroundTask hacts
  have hkept : kept = [(8, .listing (bareListing 8)), (9, .listing (bareListing 9))] := by
    rw [hfits hroom] at hparts
    exact hparts.symm
  refine ⟨hacts, a, hrun, ?_⟩
  rw [horphans, hkept]
  rfl

/-- With room for one remark, the first of two listings that no task claims is crowded out. It is no
orphan in the end, and nothing is counted. -/
theorem Store.unclaimed_listing_vanishes :
    unclaimed [.record (.lateListing 7 (bareListing 7)), .record (.lateListing 8 (bareListing 8))] =
        [(7, .listing (bareListing 7)), (8, .listing (bareListing 8))] ∧
      ∃ a, (writing (.empty 1)).run [.record (.lateListing 7 (bareListing 7)),
          .record (.lateListing 8 (bareListing 8)), .freeze] = atRest a ∧
        a.orphanListings = [bareListing 8] ∧ bareListing 7 ≠ bareListing 8 ∧ a.dropped = 0 :=
  ⟨rfl, _, rfl, rfl, by decide, rfl⟩

end CompileLog
