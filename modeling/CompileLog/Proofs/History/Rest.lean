import CompileLog.Proofs.History.Alike
import CompileLog.Proofs.History.Ledger
import CompileLog.Proofs.History.Numbers

/-!
# What a rest changes

Where writing ends, what waits is sorted: events become orphans, listings become orphans of their
own, and installed code is lost. Where writing resumes, only the events wait again. A snapshot in
between does not hold the number of the last reading either; it is found again as that of the last
reading that filed a task. What numbers meant may change too, but no further reading can tell.
-/

namespace CompileLog

/-- Number of the last reading that filed a task, zero if none did. -/
def Archive.lastFiling (a : Archive) : Nat := (a.tasks.map Task.pass).foldl max 0

/-- The index as a rest leaves it: readings are counted on from the last one that filed a task, only
events still wait, and listings that waited are orphans. -/
def Index.settled (x : Index) : Index :=
  let events := x.pending.toList.filter fun p => p.2.isDeopt
  { x with
    pass := x.lastFiling
    pending := events.toArray
    pendingCounts := events.foldl (fun counts p => Index.countUp counts p.1) ∅
    orphanListings := x.orphanListings ++ x.pending.toList.flatMap fun p => p.2.listings }

/-! ### The last reading -/

/-- The greatest number is at least the first, and at least each other one. By induction on the
numbers. -/
theorem le_foldl_max (numbers : List Nat) (first : Nat) :
    first ≤ numbers.foldl max first ∧ ∀ n ∈ numbers, n ≤ numbers.foldl max first := by
  induction numbers generalizing first with
  | nil => exact ⟨Nat.le_refl first, fun n hn => absurd hn List.not_mem_nil⟩
  | cons n rest ih =>
    obtain ⟨hfirst, hrest⟩ := ih (max first n)
    rw [List.foldl_cons]
    refine ⟨by omega, fun k hk => ?_⟩
    rcases List.mem_cons.mp hk with rfl | hk
    · omega
    · exact hrest k hk

/-- Tasks are of the last reading that filed one or of earlier ones. -/
theorem Archive.pass_le_lastFiling {a : Archive} {t : Task} (ht : t ∈ a.tasks) :
    t.pass ≤ a.lastFiling :=
  (le_foldl_max (a.tasks.map Task.pass) 0).2 t.pass (List.mem_map_of_mem ht)

/-- Numbers mean tasks of the last reading that filed one or of earlier ones. -/
theorem Archive.Owned.pass_le_lastFiling {a : Archive} (h : a.Owned) {id : UInt64} {o : Owner}
    (ho : a.owners.get? id = some o) : o.pass ≤ a.lastFiling := by
  obtain ⟨m, hm, t, ht, _, hpass⟩ := h id o ho
  have hmem : t ∈ a.tasks := List.mem_flatMap.mpr ⟨m, KeyMap.mem_values_of_get? hm, ht⟩
  have hle := Archive.pass_le_lastFiling hmem
  omega

/-- Adding stored histories raises the last reading to that of their tasks. By induction on the
histories. -/
theorem Archive.pass_foldl_addHistory (histories : List MethodHistory) (a : Archive) :
    (histories.foldl addHistory a).pass =
      ((histories.flatMap MethodHistory.tasks).map Task.pass).foldl max a.pass := by
  have hnoted : ∀ (method : Method) (tasks : List Task) (a : Archive),
      (tasks.foldl (noteOwner method) a).pass = (tasks.map Task.pass).foldl max a.pass := by
    intro method tasks a
    induction tasks generalizing a with
    | nil => rfl
    | cons t rest ih => exact ih (a.noteOwner method t)
  induction histories generalizing a with
  | nil => rfl
  | cons m rest ih =>
    have hfirst : (a.addHistory m).pass = (m.tasks.map Task.pass).foldl max a.pass :=
      hnoted m.method m.tasks a
    rw [List.foldl_cons, ih, hfirst, List.flatMap_cons, List.map_append, List.foldl_append]

/-- Once a snapshot is loaded, the last reading is the last one that filed a task. -/
theorem Archive.pass_reloaded (a : Archive) : a.reloaded.pass = a.lastFiling :=
  Archive.pass_foldl_addHistory a.allHistories .empty

/-- A sound archive is what its snapshot holds, but for what numbers mean and the number of the last
reading. -/
theorem Archive.reloaded_eq {a : Archive} (h : a.reloaded.Same a) :
    a.reloaded = { a with owners := a.reloaded.owners, pass := a.lastFiling } := by
  obtain ⟨hhistories, hdeopts, hcache, hheaders, hdropped, hlistings⟩ := h
  have hpass := a.pass_reloaded
  generalize a.reloaded = b at hhistories hdeopts hcache hheaders hdropped hlistings hpass
  cases b
  simp only at hhistories hdeopts hcache hheaders hdropped hlistings hpass
  subst hhistories hdeopts hcache hheaders hdropped hlistings hpass
  rfl

/-! ### Ending and resuming -/

namespace Index

variable {x : Index} {room : Nat}

/-- Events for which there is room wait one behind the other. By induction on the events. -/
theorem foldl_hold (deopts : List Deopt) (h : x.pending.size + deopts.length ≤ x.capacity) :
    deopts.foldl (fun x d => x.hold d.compileId (.deopt d)) x = { x with
      pending := x.pending ++ (deopts.map fun d => (d.compileId, Remark.deopt d)).toArray
      pendingCounts := deopts.foldl (fun counts d => countUp counts d.compileId)
        x.pendingCounts } := by
  induction deopts generalizing x with
  | nil => simp
  | cons d rest ih =>
    rw [List.length_cons] at h
    rw [List.foldl_cons, hold_of_room (by omega), ih (by simp only [Array.size_push]; omega)]
    simp

end Index

/-- Where there is room for all orphans, they wait one behind the other once writing resumes. -/
theorem Archive.thaw_of_le {a : Archive} {room : Nat} (h : a.orphanDeopts.length ≤ room) :
    a.thaw room =
      ⟨{ a with orphanDeopts := [] },
        (a.orphanDeopts.map fun d => (d.compileId, Remark.deopt d)).toArray,
        a.orphanDeopts.foldl (fun counts d => Index.countUp counts d.compileId) ∅, room⟩ := by
  unfold thaw
  rw [Index.foldl_hold]
  · simp
  · simpa using h

namespace Index

variable {x : Index} {room : Nat}

/-- The events that wait, each under its own number, are the remarks that are on events. -/
theorem Tidy.map_waiting (h : x.Tidy room) :
    x.waiting.map (fun d => (d.compileId, Remark.deopt d)) =
      x.pending.toList.filter fun p => p.2.isDeopt := by
  have haddressed := h.addressed
  unfold waiting
  generalize x.pending.toList = pending at haddressed
  induction pending with
  | nil => rfl
  | cons p rest ih =>
    obtain ⟨id, r⟩ := p
    obtain ⟨hfirst, hrest⟩ := List.forall_mem_cons.mp haddressed
    rw [List.flatMap_cons, List.map_append, ih hrest, List.filter_cons]
    cases r with
    | deopt d =>
      have hid : d.compileId = id := hfirst d rfl
      simp [Remark.deopts, Remark.isDeopt, hid]
    | native n => rfl
    | listing l => rfl

/-- Ending writing and resuming it, with the readings counted on from the last one that filed a task,
leaves the index settled. -/
theorem Tidy.thaw_freeze (h : x.Tidy room) (owners : KeyMap UInt64 Owner) :
    Archive.thaw { x.freeze with owners := owners, pass := x.lastFiling } room =
      x.settled.withOwners owners := by
  have hevents := h.map_waiting
  have hfew : x.waiting.length ≤ room := by
    have hlength := congrArg List.length hevents
    have hfilter := List.length_filter_le (fun p : UInt64 × Remark => p.2.isDeopt) x.pending.toList
    have hsize : x.pending.toList.length = x.pending.size := Array.length_toList
    have hbounded := h.bounded
    rw [List.length_map] at hlength
    omega
  have hcounts : x.waiting.foldl (fun counts d => countUp counts d.compileId) ∅ =
      (x.pending.toList.filter fun p => p.2.isDeopt).foldl
        (fun counts p => countUp counts p.1) ∅ := by
    rw [← hevents, List.foldl_map]
  rw [freeze_eq, h.unorphaned, List.nil_append, Archive.thaw_of_le hfew]
  simp only
  rw [hevents, hcounts]
  unfold settled withOwners
  simp only [h.unorphaned, h.capacity_eq]

/-- Counting the remarks of a table one after the other gives its counts. By induction on the
remarks. -/
theorem counted_foldl_countUp {counts : KeyMap UInt64 Nat} {counted : List (UInt64 × Remark)}
    (h : Counted counts counted) (pending : List (UInt64 × Remark)) :
    Counted (pending.foldl (fun counts p => countUp counts p.1) counts) (counted ++ pending) := by
  induction pending generalizing counts counted with
  | nil =>
    rw [List.append_nil]
    exact h
  | cons p rest ih =>
    have hrest := ih (h.push p.1 p.2)
    rw [List.append_assoc, List.singleton_append] at hrest
    exact hrest

/-- A rest leaves an index as it is where only events wait and the last reading filed a task. -/
theorem Tidy.settled_eq (h : x.Tidy room) (hpass : x.pass = x.lastFiling)
    (hevents : ∀ p ∈ x.pending.toList, p.2.isDeopt = true) : x.settled = x := by
  have hall : (x.pending.toList.filter fun p => p.2.isDeopt) = x.pending.toList :=
    List.filter_eq_self.mpr hevents
  have hlistings : (x.pending.toList.flatMap fun p => p.2.listings) = [] := by
    rw [List.flatMap_eq_nil_iff]
    intro p hp
    have hdeopt := hevents p hp
    cases hr : p.2 with
    | deopt d => rfl
    | native n => rfl
    | listing l =>
      rw [hr] at hdeopt
      cases hdeopt
  have hcounts : x.pending.toList.foldl (fun counts p => countUp counts p.1) ∅ =
      x.pendingCounts := by
    have hnone : Counted ∅ [] := fun _ => rfl
    have hcounted := counted_foldl_countUp hnone x.pending.toList
    refine KeyMap.ext_get? fun id => ?_
    rw [hcounted id, h.counted id, List.nil_append]
  unfold settled
  simp only [hall, hlistings, hcounts, ← hpass, List.append_nil, Array.toArray_toList]

/-! ### A snapshot in between -/

/-- An index that is settled, and one that goes on with the snapshot of the same archive, are
alike. -/
theorem Tidy.alike_thaw_reloaded (h : x.Tidy room) (howned : x.Owned) (hnumbered : x.Numbered)
    (hsame : x.freeze.reloaded.Same x.freeze) :
    x.settled.Alike (x.freeze.reloaded.thaw room) := by
  have hfiled := x.sameFiled_freeze
  have hlast : x.freeze.lastFiling = x.lastFiling := by
    unfold Archive.lastFiling Archive.tasks Archive.allHistories
    rw [hfiled.histories_eq]
  have hresumed : x.freeze.reloaded.thaw room =
      x.settled.withOwners x.freeze.reloaded.owners := by
    rw [Archive.reloaded_eq hsame, hlast]
    exact h.thaw_freeze _
  have howned' : x.freeze.Owned := howned.congr hfiled
  have hnumbered' : x.freeze.Numbered :=
    Archive.Numbered.archiveInvariant.congr hfiled hnumbered
  have hpass := Archive.pass_owners_reloaded howned' hnumbered'
  rw [hresumed]
  refine ⟨rfl, fun id => ?_, fun id o ho => howned.pass_le_lastFiling ho, fun id o ho => ?_⟩
  · have hsome := congrArg Option.isSome (hpass id)
    rw [Option.isSome_map, Option.isSome_map, hfiled.owners_eq] at hsome
    exact hsome
  · have hreloaded : x.freeze.reloaded.owners.get? id = some o := ho
    have hbefore := hpass id
    rw [hreloaded, hfiled.owners_eq, Option.map_some] at hbefore
    obtain ⟨o', ho', hsamePass⟩ := Option.map_eq_some_iff.mp hbefore.symm
    have hle := howned.pass_le_lastFiling ho'
    show o.pass ≤ x.lastFiling
    omega

end Index

end CompileLog
