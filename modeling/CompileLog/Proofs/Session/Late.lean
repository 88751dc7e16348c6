import CompileLog.Proofs.Collect.Duplicates
import CompileLog.Proofs.History.Late
import CompileLog.Proofs.Session.Provenance

/-!
# Installed code finds its task

A collector hands over installed code by itself only for a number under which it has handed over a
task. Where a reading is filed that task was filed before, in the same order, so its number means a
task of the reading, and the code is added to it at once. So in no session does installed code wait
for its task, and none is lost where writing ends.
-/

namespace CompileLog

open Collect Markup

/-- The first part of what a reading yields is filed. -/
structure Index.Filing (items : List Item) (x : Index) : Prop where
  /-- Each number leads to its task in this reading. -/
  owned : x.OwnedSince x.pass
  /-- The numbers of the tasks filed mean tasks of this reading. -/
  owns : ∀ t ∈ tasksOf items, x.OwnsNow t.compileId
  /-- No installed code waits. -/
  codeFree : x.CodeFree

namespace Index.Filing

variable {x : Index} {items : List Item}

/-- Nothing is filed where a reading begins. No number means a task of it yet. -/
theorem beginPass (hbegun : x.OwnersBegun) (hfree : x.CodeFree) : Filing [] x.beginPass := by
  refine ⟨fun id o ho hsince => ?_, fun t ht => absurd ht List.not_mem_nil, hfree⟩
  have hle : o.pass ≤ x.pass := hbegun id o ho
  have hlt : x.pass + 1 ≤ o.pass := hsince
  omega

/-- Something more is filed. Late code belongs to a task that was filed. -/
theorem record (h : x.Filing items) {item : Item}
    (hlate : ∀ id n, item = .lateNative id n → ∃ t ∈ tasksOf items, t.compileId = id) :
    (x.record item).Filing (items ++ [item]) := by
  have hnow : ∀ id n, item = .lateNative id n → x.OwnsNow id := fun id n heq => by
    obtain ⟨t, ht, rfl⟩ := hlate id n heq
    exact h.owns t ht
  refine ⟨?_, fun t ht => ?_, h.codeFree.record h.owned hnow⟩
  · have hkept := (Archive.OwnedSince.archiveInvariant x.pass).act (s := .writing x) h.owned
      (Act.record item).files_true
    rw [x.pass_record item]
    exact hkept
  · rw [tasksOf_append, List.mem_append] at ht
    rcases ht with hbefore | hlast
    · exact (h.owns t hbefore).record item
    · cases item with
      | task t' =>
        obtain rfl := List.mem_singleton.mp hlast
        exact x.ownsNow_recordTask_self t
      | _ => cases hlast

/-- All that a reading yields is filed part by part. By induction on what is left. -/
theorem run (h : x.Filing items) {rest : List Item} (hlate : LateOwned (items ++ rest)) :
    (rest.foldl Index.record x).Filing (items ++ rest) := by
  induction rest generalizing x items with
  | nil => rwa [List.append_nil]
  | cons item rest ih =>
    have hfirst := h.record fun id n heq => hlate items id n rest (heq ▸ rfl)
    rw [← List.singleton_append, ← List.append_assoc] at hlate ⊢
    exact ih hfirst hlate

end Index.Filing

/-- What comes first of a log that hands over late code behind its tasks does so too. -/
theorem Collect.LateOwned.of_append {first second : List Item}
    (h : LateOwned (first ++ second)) : LateOwned first := by
  rintro before id native after rfl
  exact h before id native (after ++ second) (by simp)

namespace Session

/-- Late code comes behind its task in what a session files of a reading. -/
theorem lateOwned_yields (s : Session) (r : Reading) : LateOwned (s.yields r) := by
  unfold yields
  rw [Collector.collect_eq_feed]
  exact (Collector.numbered_feed _ _).recorded.late

/-- While a reading is filed, each number of its tasks leads to one, and no code waits. -/
theorem filing_yields {s : Session} (hbegun : s.index.OwnersBegun) (hfree : s.index.CodeFree)
    (r : Reading) {first second : List Item} (h : s.yields r = first ++ second) :
    (first.foldl Index.record s.index.beginPass).Filing first := by
  have hlate := s.lateOwned_yields r
  rw [h] at hlate
  have hbegin : s.index.beginPass.Filing [] := .beginPass hbegun hfree
  exact hbegin.run hlate.of_append

/-- A reading lets no code wait. -/
theorem codeFree_take {s : Session} (hbegun : s.index.OwnersBegun) (hfree : s.index.CodeFree)
    (name : String) (r : Reading) : (s.take name r).index.CodeFree := by
  have hfiled := (filing_yields hbegun hfree r (List.append_nil _).symm).codeFree
  exact hfiled.recordHeader _

/-- In a session, no number means a task of a reading that has not begun. -/
theorem Arises.ownersBegun {s : Session} (h : s.Arises) : s.index.OwnersBegun := by
  have hlinked := Archive.OwnersBegun.archiveInvariant.weaken fun (t : Task) (_ : t.Linked) =>
    trivial
  refine h.of_invariant hlinked ?_ Snapshot.ownersBegun_toArchive
  intro id o ho
  cases ho

/-- Readings let no code wait. -/
theorem codeFree_readSources {s : Session} (hbegun : s.index.OwnersBegun)
    (hfree : s.index.CodeFree) (sources : List (LogSource × Cancellation)) :
    (s.readSources sources).index.CodeFree := by
  have hlinked := Archive.OwnersBegun.archiveInvariant.weaken fun (t : Task) (_ : t.Linked) =>
    trivial
  have hkept := readSources_keeps (P := fun s => s.index.OwnersBegun ∧ s.index.CodeFree)
    (fun _ name r h => ⟨hlinked.take h.1 name r, codeFree_take h.1 h.2 name r⟩)
    ⟨hbegun, hfree⟩ sources
  exact hkept.2

/-- In no session does code wait. By induction on how the session arises. -/
theorem Arises.codeFree {s : Session} (h : s.Arises) : s.index.CodeFree := by
  induction h with
  | start hs =>
    rw [index_of_withIndex hs]
    intro id n hmem
    cases hmem
  | load snapshot hs =>
    rw [index_of_withIndex hs]
    exact Archive.codeFree_thaw _ _
  | goOn _ hs _ =>
    rw [index_of_withIndex hs]
    exact Archive.codeFree_thaw _ _
  | read h sources ih => exact codeFree_readSources h.ownersBegun ih sources

end Session

/-- Installed code never waits for its task. Whatever a session has read, no code waits in its
index, and all that waits where writing ends stays as an orphan; every task filed belongs to a
reading that has begun. As long as there is room for the number of one more reading, no code waits
while this is filed either. Where it yields late code, the index finds a task of this reading under
its number at once and the code is added to that task. -/
theorem installed_code_never_waits {s : Session} (h : s.HasRoom 0) (r : Reading) :
    (∀ id n, (id, Remark.native n) ∉ s.index.pending.toList) ∧
    s.finish.1.orphanDeopts.length + s.finish.1.orphanListings.length =
      s.index.orphanDeopts.length + s.index.orphanListings.length + s.index.pending.size ∧
    (∀ m ∈ s.index.histories.values, ∀ t ∈ m.tasks, t.pass ≤ s.index.pass) ∧
    (s.HasRoom 1 →
      (∀ before after, s.yields r = before ++ after → ∀ id n,
        (id, Remark.native n) ∉
          (before.foldl Index.record s.index.beginPass).pending.toList) ∧
      ∀ before id n after, s.yields r = before ++ .lateNative id n :: after →
        let x := before.foldl Index.record s.index.beginPass
        ∃ t, x.task? id = some t ∧ t.compileId = id ∧
          (t.pass = s.index.pass + 1 ∧ t.pass < UInt32.size) ∧
          (x.record (.lateNative id n)).task? id = some (t.attachNative n) ∧
          (x.record (.lateNative id n)).pending = x.pending) := by
  have hfree := h.arises.codeFree
  have hbegun := h.arises.ownersBegun
  refine ⟨hfree, hfree.length_orphans_freeze, h.arises.pass_le, fun hroom => ⟨?_, ?_⟩⟩
  · intro before after heq
    exact (Session.filing_yields hbegun hfree r heq).codeFree
  · intro before id n after heq x
    have hfiling : x.Filing before := Session.filing_yields hbegun hfree r heq
    have hnow : x.OwnsNow id := by
      obtain ⟨t, ht, rfl⟩ := s.lateOwned_yields r before id n after heq
      exact hfiling.owns t ht
    obtain ⟨t, ht, hid, hpass, hrecorded, hpending⟩ :=
      Index.recordRemark_of_ownsNow hfiling.owned hnow (.native n)
    have hreading : x.pass = s.index.pass + 1 := Index.pass_foldl_record before s.index.beginPass
    have hnumber := hpass.trans hreading
    exact ⟨t, ht, hid, ⟨hnumber, hnumber ▸ hroom.fits⟩, hrecorded, hpending⟩

/-- A session that is resumed on what another one finished reads a log with the same number again:
its code is late, and is added to the task of the second log. -/
theorem installed_code_never_waits_resumed :
    let first := Text.Utf8.encode "<task compile_id='7' method='A a ()V'><task_done/></task>"
    let second := Text.Utf8.encode
      ("<task compile_id='7' method='A a ()V'><task_done/></task>" ++
        "<nmethod compile_id='7' address='0x10' size='4'/>")
    let finished := ((Session.fresh .usual .builtin).readSources
      [(.memory "first" first, .never)]).finish.1
    let r := read .never second
    ∃ s, Session.resume .usual finished = .ok s ∧ (s.HasRoom 0 ∧ s.HasRoom 1) ∧
      ∃ before id n after, s.yields r = before ++ .lateNative id n :: after ∧
        ∃ t, (before.foldl Index.record s.index.beginPass).task? id = some t ∧
          t.compileId = id ∧ t.pass = s.index.pass + 1 := by
  intro first second finished r
  have hstart : Session.start .usual = .ok (Session.fresh .usual .builtin) := rfl
  have hread := Session.Arises.read (.start hstart) [(.memory "first" first, .never)]
  let s : Session := ⟨.usual, .builtin, finished.thaw Config.usual.pendingCapacity, []⟩
  have hresumed : Session.resume .usual finished = .ok s := rfl
  have harises : s.Arises := .goOn hread hresumed
  have hroom : s.HasRoom 0 ∧ s.HasRoom 1 :=
    ⟨⟨harises, by decide +kernel⟩, ⟨harises, by decide +kernel⟩⟩
  have hlate : (s.yields r).any fun i => match i with
      | .lateNative .. => true
      | .task _ | .deopt _ | .lateListing .. | .orphanListing _ | .codeCache _ => false := by
    decide +kernel
  obtain ⟨i, hi, hnative⟩ := List.any_eq_true.mp hlate
  obtain ⟨before, after, heq⟩ := List.append_of_mem hi
  refine ⟨s, hresumed, hroom, ?_⟩
  cases i with
  | lateNative id n =>
    obtain ⟨_, _, _, hreading⟩ := installed_code_never_waits hroom.1 r
    obtain ⟨t, ht, hid, ⟨hpass, _⟩, _⟩ := (hreading hroom.2).2 before id n after heq
    exact ⟨before, id, n, after, heq, t, ht, hid, hpass⟩
  | _ => cases hnative

end CompileLog
