import CompileLog.Proofs.History.Owners
import CompileLog.Session

/-!
# The order of a timeline

A task joins its history behind all tasks that do not come after it, so a history that was in order
stays in order. Events at run time and listings leave the places of the tasks on the timeline alone.
Code that is installed late may give a task without a start stamp a new stamp, and the task is not
moved then: a timeline is in order as long as no late code does that.
-/

namespace CompileLog

/-! ### Places -/

/-- What places a task on a timeline. -/
def Task.place (t : Task) : Option Stamp × UInt64 := (t.timelineStamp, t.compileId)

/-- Microseconds and one more, where there is a stamp, so that tasks without one come first. -/
def stampRank (stamp : Option Stamp) : Nat := stamp.elim 0 fun s => s.micros.toNat + 1

/-- One place comes before another, or is as far along: its stamp is earlier, or the stamps are
equal and its number is not greater. -/
def Before (p q : Option Stamp × UInt64) : Prop :=
  stampRank p.1 < stampRank q.1 ∨ stampRank p.1 = stampRank q.1 ∧ p.2.toNat ≤ q.2.toNat

/-- Tasks stand as their places do. -/
theorem Task.notAfter_iff {a b : Task} : a.notAfter b = true ↔ Before a.place b.place := by
  unfold notAfter Before place stampRank
  cases a.timelineStamp with
  | none =>
    cases b.timelineStamp with
    | none => simp [UInt64.le_iff_toNat_le]
    | some t => simp
  | some s =>
    cases b.timelineStamp with
    | none => simp
    | some t =>
      have heq : s = t ↔ s.micros.toNat = t.micros.toNat := by
        cases s
        cases t
        simp [UInt64.toNat_inj]
      simp [heq, UInt64.le_iff_toNat_le, UInt64.lt_iff_toNat_lt]

/-- The order of tasks on a timeline is transitive. -/
theorem Task.notAfter_trans {a b c : Task} (hab : a.notAfter b = true)
    (hbc : b.notAfter c = true) : a.notAfter c = true := by
  rw [notAfter_iff] at hab hbc ⊢
  unfold Before at hab hbc ⊢
  omega

/-- Of two tasks one does not come after the other. -/
theorem Task.notAfter_of_notAfter_eq_false {a b : Task} (h : a.notAfter b = false) :
    b.notAfter a = true := by
  have hnot : ¬ a.notAfter b = true := Bool.eq_false_iff.mp h
  rw [notAfter_iff] at hnot ⊢
  unfold Before at hnot ⊢
  omega

namespace MethodHistory

/-- The tasks of a history stand in order: by their stamps, those without one first, and by their
numbers where the stamps are equal. -/
def InOrder (h : MethodHistory) : Prop := h.tasks.Pairwise fun a b => a.notAfter b = true

/-- The places of the tasks of a history. -/
def places (h : MethodHistory) : List (Option Stamp × UInt64) := h.tasks.map Task.place

/-- The tasks stand in order if their places do. -/
theorem inOrder_iff {h : MethodHistory} : h.InOrder ↔ h.places.Pairwise Before := by
  unfold InOrder places
  rw [List.pairwise_map]
  simp only [Task.notAfter_iff]

/-- What leaves the places alone keeps the order. -/
theorem InOrder.of_places_eq {h h' : MethodHistory} (horder : h.InOrder)
    (hplaces : h'.places = h.places) : h'.InOrder := by
  rw [inOrder_iff] at horder ⊢
  rwa [hplaces]

/-! ### Joining -/

/-- An element that follows all in front of a position and precedes all from there on joins a list
in order. By induction on the list. -/
theorem pairwise_insertIdx {α : Type} {R : α → α → Prop} {l : List α} (hl : l.Pairwise R) {i : Nat}
    (hi : i ≤ l.length) {x : α} (hfront : ∀ j < i, ∀ y, l[j]? = some y → R y x)
    (hback : ∀ j, i ≤ j → ∀ y, l[j]? = some y → R x y) : (l.insertIdx i x).Pairwise R := by
  induction l generalizing i with
  | nil =>
    obtain rfl : i = 0 := Nat.le_zero.mp hi
    exact List.pairwise_singleton R x
  | cons head rest ih =>
    obtain ⟨hhead, hrest⟩ := List.pairwise_cons.mp hl
    cases i with
    | zero =>
      refine List.pairwise_cons.mpr ⟨fun y hy => ?_, hl⟩
      obtain ⟨j, hj⟩ := List.mem_iff_getElem?.mp hy
      exact hback j (Nat.zero_le j) y hj
    | succ i =>
      have hi' : i ≤ rest.length := Nat.le_of_succ_le_succ hi
      rw [List.insertIdx_succ_cons]
      refine List.pairwise_cons.mpr ⟨fun y hy => ?_, ?_⟩
      · rcases (List.mem_insertIdx hi').mp hy with rfl | hy
        · exact hfront 0 (Nat.succ_pos i) head rfl
        · exact hhead y hy
      · refine ih hrest hi' (fun j hj y hy => ?_) (fun j hj y hy => ?_)
        · exact hfront (j + 1) (Nat.succ_lt_succ hj) y hy
        · exact hback (j + 1) (Nat.succ_le_succ hj) y hy

/-- On a timeline in order, a task joins behind all that do not come after it, and in front of all
that do. -/
theorem positionOf_spec {h : MethodHistory} (horder : h.InOrder) (t : Task) :
    (∀ j < h.positionOf t, ∀ o, h.tasks[j]? = some o → o.notAfter t = true) ∧
      ∀ j, h.positionOf t ≤ j → ∀ o, h.tasks[j]? = some o → o.notAfter t = false := by
  have hturns : ∀ i j, i ≤ j → j < h.tasks.length →
      (h.tasks[j]?.any fun o => o.notAfter t) = true →
      (h.tasks[i]?.any fun o => o.notAfter t) = true := by
    intro i j hij hj hafter
    rcases Nat.lt_or_eq_of_le hij with hlt | rfl
    · have hi : i < h.tasks.length := Nat.lt_trans hlt hj
      have hordered := List.pairwise_iff_getElem.mp horder i j hi hj hlt
      rw [List.getElem?_eq_getElem hj, Option.any_some] at hafter
      rw [List.getElem?_eq_getElem hi, Option.any_some]
      exact Task.notAfter_trans hordered hafter
    · exact hafter
  obtain ⟨hfront, hback⟩ := turningPoint_spec hturns
  constructor
  · intro j hj o ho
    have hholds := hfront j hj
    rwa [ho, Option.any_some] at hholds
  · intro j hj o ho
    have hlength : j < h.tasks.length := (List.getElem?_eq_some_iff.mp ho).1
    have hfails := hback j hj hlength
    rwa [ho, Option.any_some] at hfails

/-- A task that joins a timeline in order stands in order. -/
theorem inOrder_insert {h : MethodHistory} (horder : h.InOrder) (t : Task) (duplicate : Bool) :
    (h.insert t duplicate).InOrder := by
  obtain ⟨hfront, hback⟩ := positionOf_spec horder t
  unfold InOrder
  rw [tasks_insert]
  refine pairwise_insertIdx horder (h.positionOf_le t) hfront fun j hj o ho => ?_
  exact Task.notAfter_of_notAfter_eq_false (hback j hj o ho)

end MethodHistory

/-! ### Staying in place -/

/-- Code that is installed late leaves a task with a start stamp in its place. -/
theorem Task.timelineStamp_attachNative {t : Task} (h : t.startedAt.isSome = true)
    (n : NativeCode) : (t.attachNative n).timelineStamp = t.timelineStamp := by
  obtain ⟨s, hs⟩ := Option.isSome_iff_exists.mp h
  unfold timelineStamp attachNative
  simp only [hs, Option.some_or]

/-- A listing tells no stamp. -/
theorem Task.place_attachListing (t : Task) (l : Listing) :
    (t.attachListing l).place = t.place := by
  unfold attachListing
  split
  · next native hattached =>
    have hemitted : native.emittedAt = (t.native.getD .unknown).emittedAt := by
      unfold NativeCode.attachListing at hattached
      split at hattached
      · cases hattached
      · cases hattached
        rfl
    unfold place timelineStamp
    simp only [Option.bind_some, hemitted]
    cases t.native <;> rfl
  · unfold flag
    split <;> rfl

namespace MethodHistory

/-- A remark that leaves the task of its number in its place leaves all places alone. -/
theorem places_addRemark {h : MethodHistory} {id : UInt64} {pass : Nat} {r : Remark}
    (hr : ∀ t, h.taskIn? id pass = some t → (t.addRemark r).place = t.place) :
    (h.modifyTask id pass fun t => t.addRemark r).places = h.places := by
  unfold taskIn? at hr
  rw [List.find?_eq_bind_findIdx?_getElem?] at hr
  unfold modifyTask places
  cases hfound : h.tasks.findIdx? (Task.isNamed id pass) with
  | none => rfl
  | some i =>
    rw [hfound, Option.bind_some] at hr
    refine List.ext_getElem? fun j => ?_
    simp only [List.getElem?_map, List.getElem?_modify]
    by_cases hij : i = j
    · subst hij
      cases hnamed : h.tasks[i]? with
      | none => rfl
      | some t => simp [hr t hnamed]
    · cases h.tasks[j]? <;> simp [hij]

/-- Changing a task leaves what looks wrong. -/
theorem flags_modifyTask (h : MethodHistory) (id : UInt64) (pass : Nat) (f : Task → Task) :
    (h.modifyTask id pass f).flags = h.flags := by
  unfold modifyTask
  split <;> rfl

/-- An event at run time leaves what looks wrong. -/
theorem flags_bindDeopt (h : MethodHistory) (pass : Nat) (d : Deopt) :
    (h.bindDeopt pass d).flags = h.flags := by
  unfold bindDeopt
  split
  · rfl
  · simp only
    split <;> rfl

/-- A remark leaves what looks wrong. -/
theorem Remarked.flags_eq {h changed : MethodHistory} (hremarked : h.Remarked changed) :
    changed.flags = h.flags := by
  cases hremarked with
  | bound pass d => exact h.flags_bindDeopt pass d
  | added id pass r => exact h.flags_modifyTask id pass _

/-- An event at run time leaves all places alone. -/
theorem places_bindDeopt (h : MethodHistory) (pass : Nat) (d : Deopt) :
    (h.bindDeopt pass d).places = h.places := by
  unfold places
  rw [tasks_bindDeopt]
  exact places_addRemark fun t _ => rfl

end MethodHistory

/-! ### Every act -/

/-- Whether an act leaves filed tasks in their places: code that is installed late, where it finds
its task filed in this reading, must not give it another stamp. -/
def Store.leavesPlaces : Store → Act → Bool
  | writing x, .record (.lateNative id n) =>
    (x.task? id).all fun t =>
      t.pass ≠ x.pass || (t.attachNative n).timelineStamp = t.timelineStamp
  | _, _ => true

/-- Code that is installed late leaves a filed task with a start stamp in its place. -/
theorem Store.leavesPlaces_of_startedAt {x : Index} {id : UInt64}
    (h : ∀ t, x.task? id = some t → t.startedAt.isSome = true) (n : NativeCode) :
    (Store.writing x).leavesPlaces (.record (.lateNative id n)) = true := by
  refine (Option.all_eq_true _ _).mpr fun t ht => ?_
  rw [Task.timelineStamp_attachNative (h t ht) n]
  simp

/-- Whether each of a sequence of acts leaves the tasks filed until then in their places. -/
def Store.leavesAllPlaces (s : Store) : List Act → Bool
  | [] => true
  | a :: rest => s.leavesPlaces a && (s.act a).leavesAllPlaces rest

/-- A property of histories that depends on the places of their tasks and on what looks wrong, and
that a task keeps that joins. -/
structure PlacesInvariant (P : MethodHistory → Prop) : Prop where
  /-- It holds before the first task. -/
  empty : ∀ m, P (.empty m)
  /-- Filing a task keeps it. -/
  insert : ∀ h t duplicate, P h → P (h.insert t duplicate)
  /-- What leaves the places and the flags alone keeps it. -/
  of_places : ∀ {h h' : MethodHistory}, h'.places = h.places → h'.flags = h.flags → P h → P h'

namespace PlacesInvariant

variable {P : MethodHistory → Prop} (hP : PlacesInvariant P)
include hP

/-- A remark that leaves the task of its number in its place keeps an invariant of places. -/
theorem recordRemark {x : Index} (h : ∀ m ∈ x.histories.values, P m) (id : UInt64) {r : Remark}
    (hr : ∀ t, x.task? id = some t → t.pass = x.pass → (t.addRemark r).place = t.place) :
    ∀ m ∈ (x.recordRemark id r).histories.values, P m := by
  refine Index.forall_recordRemark h fun o m howner hpass hfound hm => ?_
  refine hP.of_places (MethodHistory.places_addRemark fun t ht => ?_) (m.flags_modifyTask _ _ _) hm
  have htask : x.task? id = some t := by
    unfold Archive.task? Archive.historyOf?
    rw [howner, Option.bind_some, hfound, Option.bind_some, hpass]
    exact ht
  exact hr t htask (Task.isNamed_iff.mp (List.find?_some ht)).2

/-- An act that leaves filed tasks in their places keeps an invariant of places. -/
theorem act {s : Store} (h : ∀ m ∈ s.histories, P m) {a : Act} (ha : s.leavesPlaces a = true) :
    ∀ m ∈ (s.act a).histories, P m := by
  cases s with
  | writing x =>
    cases a with
    | beginPass => exact h
    | record item =>
      cases item with
      | task t => exact Index.forall_recordTask h hP.empty t fun m duplicate => hP.insert m _ duplicate
      | deopt d =>
        exact Index.forall_recordDeopt h
          (fun m d hm => hP.of_places (m.places_bindDeopt x.pass d) (m.flags_bindDeopt x.pass d) hm) d
      | lateNative id n =>
        refine hP.recordRemark h id fun t ht hpass => Prod.ext ?_ rfl
        simp only [Store.leavesPlaces, ht, Option.all_some, hpass, ne_eq, not_true, decide_false,
          Bool.false_or, decide_eq_true_eq] at ha
        exact ha
      | lateListing id l => exact hP.recordRemark h id fun t _ _ => t.place_attachListing l
      | orphanListing l => exact h
      | codeCache sample => exact h
    | recordHeader header => exact (x.sameFiled_recordHeader header).forall_histories h
    | freeze => exact x.sameFiled_freeze.forall_histories h
    | thaw capacity => exact h
  | atRest archive =>
    cases a with
    | thaw capacity => exact (archive.sameFiled_thaw capacity).forall_histories h
    | _ => exact h

/-- A sequence of acts that leave filed tasks in their places keeps an invariant of places. By
induction on the acts. -/
theorem run {s : Store} (h : ∀ m ∈ s.histories, P m) {acts : List Act}
    (hacts : s.leavesAllPlaces acts = true) : ∀ m ∈ (s.run acts).histories, P m := by
  induction acts generalizing s with
  | nil => exact h
  | cons a rest ih =>
    obtain ⟨hfirst, hrest⟩ := Bool.and_eq_true_iff.mp hacts
    exact ih (hP.act h hfirst) hrest

/-- It holds of all histories that began empty. -/
theorem run_empty (capacity : Nat) {acts : List Act}
    (hacts : (Store.writing (.empty capacity)).leavesAllPlaces acts = true) :
    ∀ m ∈ ((Store.writing (.empty capacity)).run acts).histories, P m := by
  refine hP.run ?_ hacts
  simp [Store.histories, Store.archive, Index.empty, Archive.empty]

end PlacesInvariant

/-- That the tasks stand in order depends on their places, and a task that joins keeps it. -/
theorem MethodHistory.InOrder.placesInvariant : PlacesInvariant MethodHistory.InOrder where
  empty _ := List.Pairwise.nil
  insert _ t duplicate h := inOrder_insert h t duplicate
  of_places hplaces _ h := h.of_places_eq hplaces

/-- Whatever is done to histories that began empty, every timeline is in order, as long as no code
that is installed late gives a filed task another stamp. -/
theorem timelines_inOrder (capacity : Nat) (acts : List Act)
    (hacts : (Store.writing (.empty capacity)).leavesAllPlaces acts = true) :
    ∀ h ∈ ((Store.writing (.empty capacity)).run acts).histories,
      h.tasks.Pairwise fun a b => a.notAfter b = true :=
  MethodHistory.InOrder.placesInvariant.run_empty capacity hacts

/-- Tasks with start stamps are told out of order and the code of one is installed late: the
timeline is in order. -/
theorem timelines_inOrder_startStamps :
    let method : Method := ⟨"A", "a", "()V"⟩
    let first : Task := { Task.new 1 method with startedAt := some ⟨5⟩ }
    let second : Task := { Task.new 2 method with startedAt := some ⟨3⟩ }
    let late : NativeCode := { NativeCode.unknown with emittedAt := some ⟨9⟩ }
    let acts : List Act :=
      [.beginPass, .record (.task first), .record (.task second), .record (.lateNative 1 late)]
    (Store.writing (.empty 16)).leavesAllPlaces acts = true ∧
      ∀ h ∈ ((Store.writing (.empty 16)).run acts).histories,
        h.tasks.Pairwise fun a b => a.notAfter b = true := by
  intro method first second late acts
  have hacts : (Store.writing (.empty 16)).leavesAllPlaces acts = true := by decide +kernel
  exact ⟨hacts, timelines_inOrder 16 acts hacts⟩

/-- Without start stamps, code that is installed late gives the first of two tasks a stamp, and the
task then stands in front of one that has none. -/
theorem timeline_disordered_by_late_code :
    let log := Text.Utf8.encode
      ("<task compile_id='1' method='A a ()V'></task>" ++
        "<task compile_id='2' method='A a ()V'></task>" ++
        "<nmethod compile_id='1' stamp='5.0'/>")
    ∃ s, Session.start .usual = .ok s ∧
      ¬ ∀ h ∈ (s.readLog "<memory>" .never log).index.histories.values,
        h.tasks.Pairwise fun a b => a.notAfter b = true := by
  intro log
  refine ⟨⟨.usual, .builtin, .empty Index.defaultCapacity, []⟩, rfl, ?_⟩
  decide +kernel

end CompileLog
