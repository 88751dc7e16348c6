import CompileLog.Proofs.History.Listings
import CompileLog.Proofs.History.Tasks

/-!
# Where listings come from

The listing of a task may come with the task, with code that was installed late, or by itself. An
index changes no listing and moves none to another number, so every listing that it has filed was
told under the number of its task.
-/

namespace CompileLog

open Collect

/-- The listing of the code of a task, if it is kept. -/
def Task.listing? (t : Task) : Option Listing := t.native.bind NativeCode.listing

/-- The listing that comes with a remark. -/
def Remark.listing? : Remark → Option Listing
  | .deopt _ => none
  | .native n => n.listing
  | .listing l => some l

/-- Whether a listing is handed over by itself. -/
def Collect.Item.isLateListing : Item → Bool
  | .lateListing .. => true
  | _ => false

/-! ### One task -/

/-- A listing that is added to code becomes its listing. -/
theorem NativeCode.listing_of_attachListing {n n' : NativeCode} {l : Listing}
    (h : n.attachListing l = .ok n') : n'.listing = some l := by
  unfold attachListing at h
  cases hcode : l.code n.spanLimit with
  | error e =>
    rw [hcode] at h
    cases h
  | ok code =>
    rw [hcode] at h
    obtain rfl := Except.ok.inj h
    rfl

/-- The listing of a task to which a remark is added comes with the remark, or was there before. -/
theorem Task.listing?_addRemark {t : Task} {r : Remark} {l : Listing}
    (h : (t.addRemark r).listing? = some l) : r.listing? = some l ∨ t.listing? = some l := by
  cases r with
  | deopt d => exact .inr h
  | native n =>
    cases hbefore : t.native with
    | none =>
      left
      simpa [addRemark, attachNative, listing?, hbefore, Remark.listing?] using h
    | some before =>
      have hor : n.listing.or before.listing = some l := by
        simpa [addRemark, attachNative, listing?, hbefore, NativeCode.inherit] using h
      rcases Option.or_eq_some_iff.mp hor with hnew | ⟨_, hold⟩
      · exact .inl hnew
      · right
        simpa [listing?, hbefore] using hold
  | listing added =>
    simp only [addRemark, attachListing] at h
    cases hattached : (t.native.getD .unknown).attachListing added with
    | ok native =>
      left
      rw [hattached] at h
      have hkept : native.listing = some l := h
      rw [← hkept, NativeCode.listing_of_attachListing hattached]
      rfl
    | error e =>
      right
      rw [hattached] at h
      obtain ⟨flags, heq, _⟩ := Task.flag_eq t (.oversizedListing (UInt64.ofNat e.span))
      simp only [heq] at h
      exact h

variable {told : UInt64 → Listing → Prop}

/-- The listing of a task, if it has one, was told under its number. -/
def Task.ListedBy (told : UInt64 → Listing → Prop) (t : Task) : Prop :=
  ∀ l, t.listing? = some l → told t.compileId l

/-- The listing that comes with a remark, if one does, was told under the number of its task. -/
def Remark.ListedBy (told : UInt64 → Listing → Prop) (id : UInt64) (r : Remark) : Prop :=
  ∀ l, r.listing? = some l → told id l

/-- A remark that is added to a task of its number. -/
theorem Task.ListedBy.addRemark {t : Task} (h : t.ListedBy told) {r : Remark}
    (hr : r.ListedBy told t.compileId) : (t.addRemark r).ListedBy told := by
  intro l hl
  rw [(t.addRemark_keeps r).1]
  rcases Task.listing?_addRemark hl with hcame | hbefore
  · exact hr l hcame
  · exact h l hbefore

/-- Remarks that are added to a task of their number. By induction on them. -/
theorem Task.ListedBy.foldl_addRemark {t : Task} (h : t.ListedBy told) {remarks : List Remark}
    (hall : ∀ r ∈ remarks, r.ListedBy told t.compileId) :
    (remarks.foldl Task.addRemark t).ListedBy told := by
  induction remarks generalizing t with
  | nil => exact h
  | cons r rest ih =>
    obtain ⟨hfirst, hrest⟩ := List.forall_mem_cons.mp hall
    refine ih (h.addRemark hfirst) ?_
    rw [(t.addRemark_keeps r).1]
    exact hrest

/-! ### What is filed -/

/-- What a log yields brings only listings that were told under their numbers. -/
def Collect.Item.ListedBy (told : UInt64 → Listing → Prop) : Item → Prop
  | .task t => t.ListedBy told
  | .lateNative id n => (Remark.native n).ListedBy told id
  | .lateListing id l => (Remark.listing l).ListedBy told id
  | _ => True

/-- Every listing on a task of an index, and every one that waits in it, was told under the number
of the task. -/
structure Index.ListedBy (told : UInt64 → Listing → Prop) (x : Index) : Prop where
  /-- Those of the tasks that are filed. -/
  filed : ∀ h ∈ x.histories.values, ∀ t ∈ h.tasks, t.ListedBy told
  /-- Those that wait. -/
  waiting : ∀ p ∈ x.pending.toList, p.2.ListedBy told p.1

namespace Index.ListedBy

variable {x : Index}

/-- Before anything is filed. -/
theorem empty (capacity : Nat) : (Index.empty capacity).ListedBy told where
  filed _ hmem := absurd hmem List.not_mem_nil
  waiting _ hmem := absurd hmem List.not_mem_nil

/-- A remark that waits. -/
theorem hold (h : x.ListedBy told) {id : UInt64} {r : Remark} (hr : r.ListedBy told id) :
    (x.hold id r).ListedBy told where
  filed := (x.sameFiled_hold id r).forall_histories h.filed
  waiting p hp := by
    rcases List.mem_append.mp ((x.sublist_pending_hold id r).subset hp) with hbefore | hlast
    · exact h.waiting p hbefore
    · obtain rfl := List.mem_singleton.mp hlast
      exact hr

/-- What waits for a task was told under its number, and so was what waits on. -/
theorem takePending (h : x.ListedBy told) (id : UInt64) :
    (∀ p ∈ (x.takePending id).1.pending.toList, p.2.ListedBy told p.1) ∧
      ∀ r ∈ (x.takePending id).2, r.ListedBy told id := by
  unfold Index.takePending
  split
  · exact ⟨h.waiting, fun r hr => absurd hr List.not_mem_nil⟩
  · simp only [Array.toList_filter, Array.toList_map]
    refine ⟨fun p hp => h.waiting p (List.mem_of_mem_filter hp), fun r hr => ?_⟩
    obtain ⟨p, hp, rfl⟩ := List.mem_map.mp hr
    obtain ⟨hmem, hid⟩ := List.mem_filter.mp hp
    obtain rfl : p.1 = id := of_decide_eq_true hid
    exact h.waiting p hmem

/-- A task that is filed. -/
theorem recordTask (h : x.ListedBy told) {t : Task} (ht : t.ListedBy told) :
    (x.recordTask t).ListedBy told := by
  obtain ⟨hleft, htaken⟩ := h.takePending t.compileId
  have hnumbered : ({ t with pass := x.pass } : Task).ListedBy told := ht
  have hcompleted : (x.completed t).ListedBy told := hnumbered.foldl_addRemark htaken
  constructor
  · exact forall_recordTask h.filed (fun m t' ht' => absurd ht' List.not_mem_nil) t
      fun m duplicate hm => m.forall_tasks_insert hm hcompleted duplicate
  · rw [x.recordTask_eq t]
    exact hleft

/-- An event brings no listing. -/
theorem recordDeopt (h : x.ListedBy told) (d : Deopt) : (x.recordDeopt d).ListedBy told := by
  constructor
  · refine forall_recordDeopt h.filed (fun m d hm => ?_) d
    rw [MethodHistory.tasks_bindDeopt]
    exact m.forall_tasks_modifyTask hm d.compileId x.pass fun t ht =>
      ht.addRemark fun l hl => by cases hl
  · rcases x.recordDeopt_cases d with ⟨_, _, _, _, _, heq⟩ | heq
    · rw [heq]
      exact h.waiting
    · rw [heq]
      exact (h.hold fun l hl => by cases hl).waiting

/-- Installed code or a listing that is filed goes to a task of its number. -/
theorem recordRemark (h : x.ListedBy told) {id : UInt64} {r : Remark} (hr : r.ListedBy told id) :
    (x.recordRemark id r).ListedBy told := by
  constructor
  · refine forall_recordRemark h.filed fun o m _ _ _ hm t ht => ?_
    rcases m.modifyTask_cases id x.pass (fun t => t.addRemark r) with
      ⟨_, hsame⟩ | ⟨before, named, behind, htasks, hnamed, hchanged⟩
    · rw [hsame] at ht
      exact hm t ht
    · rw [hchanged] at ht
      rw [htasks] at hm
      simp only [List.mem_append, List.mem_cons] at ht hm
      obtain rfl : named.compileId = id := (Task.isNamed_iff.mp hnamed).1
      rcases ht with hbefore | rfl | hbehind
      · exact hm t (.inl hbefore)
      · exact (hm named (.inr (.inl rfl))).addRemark hr
      · exact hm t (.inr (.inr hbehind))
  · rcases x.recordRemark_cases id r with ⟨_, _, _, _, _, heq⟩ | heq
    · rw [heq]
      exact h.waiting
    · rw [heq]
      exact (h.hold hr).waiting

/-- Something that a log yields and that is filed. -/
theorem record (h : x.ListedBy told) {item : Item} (hitem : item.ListedBy told) :
    (x.record item).ListedBy told := by
  cases item with
  | task t => exact h.recordTask hitem
  | deopt d => exact h.recordDeopt d
  | lateNative id n => exact h.recordRemark hitem
  | lateListing id l => exact h.recordRemark hitem
  | orphanListing l => exact ⟨h.filed, h.waiting⟩
  | codeCache sample => exact ⟨h.filed, h.waiting⟩

/-- All that a log yields. By induction on it. -/
theorem foldl_record (h : x.ListedBy told) {items : List Item}
    (hitems : ∀ item ∈ items, item.ListedBy told) :
    (items.foldl Index.record x).ListedBy told := by
  induction items generalizing x with
  | nil => exact h
  | cons item rest ih =>
    obtain ⟨hfirst, hrest⟩ := List.forall_mem_cons.mp hitems
    exact ih (h.record hfirst) hrest

/-- What is known of the virtual machine. -/
theorem recordHeader (h : x.ListedBy told) (header : LogHeader) :
    (x.recordHeader header).ListedBy told := by
  unfold Index.recordHeader
  split
  · exact h
  · exact ⟨h.filed, h.waiting⟩

/-- Once writing ends, of the tasks of the archive. -/
theorem freeze (h : x.ListedBy told) : ∀ t ∈ x.freeze.tasks, t.ListedBy told := by
  intro t ht
  obtain ⟨m, hm, hmem⟩ := List.mem_flatMap.mp ht
  exact x.sameFiled_freeze.forall_histories h.filed m hm t hmem

end Index.ListedBy

/-- What is yielded without listings brings only those that are told by themselves. -/
theorem Collect.Item.listedBy_withoutListing {item : Item}
    (h : ∀ id l, item = .lateListing id l → told id l) : item.withoutListing.ListedBy told := by
  cases item with
  | task t =>
    intro l hl
    cases hnative : t.native <;>
      simp [Task.withoutListing, Task.listing?, hnative, NativeCode.withoutListing] at hl
  | lateNative id n =>
    intro l hl
    cases hl
  | lateListing id l =>
    intro l' hl
    obtain rfl := Option.some.inj hl
    exact h id l rfl
  | _ => trivial

/-- An archive of which no task has a listing is the same without listings. -/
theorem Archive.withoutListings_eq_self {a : Archive} (h : ∀ t ∈ a.tasks, t.listing? = none) :
    a.withoutListings = a := by
  have hkept : ∀ t ∈ a.tasks, t.withoutListing = t := by
    intro t ht
    have hnone : t.native.bind NativeCode.listing = none := h t ht
    have hnative : t.native.map NativeCode.withoutListing = t.native := by
      cases hcode : t.native with
      | none => rfl
      | some n =>
        rw [hcode, Option.bind_some] at hnone
        unfold NativeCode.withoutListing
        rw [Option.map_some, ← hnone]
    unfold Task.withoutListing
    rw [hnative]
  have hhistories : a.histories.map (fun _ h => h.withoutListings) = a.histories := by
    refine KeyMap.ext_get? fun key => ?_
    rw [KeyMap.get?_map]
    cases hfound : a.histories.get? key with
    | none => rfl
    | some m =>
      have hmem : m ∈ a.allHistories := KeyMap.mem_values_of_get? hfound
      have htasks : m.tasks.map Task.withoutListing = m.tasks :=
        (List.map_congr_left fun t ht => hkept t (List.mem_flatMap.mpr ⟨m, hmem, ht⟩)).trans
          (List.map_id' m.tasks)
      unfold MethodHistory.withoutListings
      rw [Option.map_some, htasks]
  unfold withoutListings
  rw [hhistories]

end CompileLog
