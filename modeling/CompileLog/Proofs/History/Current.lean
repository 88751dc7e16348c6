import CompileLog.Proofs.History.InService
import CompileLog.Proofs.History.Run

/-!
# Keeping the code in service

Filing a task moves the tasks behind it and lets it stand against the present choice; an event
at run time can only take the task that it hit out of the choice. Each of these keeps the best
choice the best, so the position that a history keeps is the one in service after every sequence
of acts, from an empty archive or from a stored one.
-/

namespace CompileLog

/-! ### Fewer to choose from -/

/-- A choice among fewer positions is still the best if it is still among them. -/
theorem BestOf.subset {tasks : List Task} {among among' : Set Nat} {c : Option Nat}
    (h : BestOf tasks among c) (hsub : among' ⊆ among) (hstill : ∀ i, c = some i → i ∈ among') :
    BestOf tasks among' c := by
  cases c with
  | none => exact fun j hj => h j (hsub hj)
  | some i => exact ⟨hstill i rfl, fun j hj => h.2 j (hsub hj)⟩

/-- A choice depends on the ranks only. -/
theorem BestOf.congr {tasks tasks' : List Task} {among : Set Nat} {c : Option Nat}
    (hrank : ∀ j, rank tasks' j = rank tasks j) (h : BestOf tasks among c) :
    BestOf tasks' among c := by
  cases c with
  | none => exact h
  | some i =>
    refine ⟨h.1, fun j hj => ?_⟩
    rw [hrank, hrank]
    exact h.2 j hj

/-- Changing a task without changing what is compiled keeps all ranks. -/
theorem rank_modify {f : Task → Task} (hkind : ∀ t, (f t).kind = t.kind) (tasks : List Task)
    (i j : Nat) : rank (tasks.modify i f) j = rank tasks j := by
  unfold rank
  rw [List.getElem?_modify]
  cases tasks[j]? with
  | none => rfl
  | some t =>
    by_cases hij : i = j
    · simp [hij, hkind]
    · simp [hij]

/-- A task at another position is as live as before. -/
theorem liveAt_modify_of_ne {f : Task → Task} {tasks : List Task} {i j : Nat} (h : i ≠ j) :
    LiveAt (tasks.modify i f) j ↔ LiveAt tasks j := by
  rw [liveAt_iff, liveAt_iff, List.getElem?_modify_ne f tasks h]

/-- A changed task is live if the change leaves it so. -/
theorem liveAt_modify_self {f : Task → Task} {tasks : List Task} {i : Nat} :
    LiveAt (tasks.modify i f) i ↔ ∃ t, tasks[i]? = some t ∧ (f t).isLive = true := by
  rw [liveAt_iff, List.getElem?_modify_eq]
  cases tasks[i]? with
  | none => simp
  | some t => simp

/-! ### Events at run time -/

/-- With one event more a task is live if it was and the event leaves its code in service. -/
theorem Task.isLive_addDeopt (t : Task) (d : Deopt) :
    (t.addRemark (.deopt d)).isLive = (t.isLive && !d.invalidates) := by
  unfold isLive succeeded isInvalidated
  simp only [addRemark, List.any_append, List.any_cons, List.any_nil, Bool.or_false, Bool.not_or,
    Bool.and_assoc]
  rfl

/-- Binding an event keeps the right task in service. The choice can only be wrong if it was hit
itself, and then it is looked up anew. -/
theorem inService_bindDeopt (h : MethodHistory) (pass : Nat) (d : Deopt)
    (hbest : InService h.tasks h.current) :
    InService (h.bindDeopt pass d).tasks (h.bindDeopt pass d).current := by
  unfold MethodHistory.bindDeopt
  cases h.tasks.findIdx? (Task.isNamed d.compileId pass) with
  | none => exact hbest
  | some i =>
    simp only
    split_ifs with hhit
    · exact inService_findCurrent? _
    · rw [inService_iff_bestOf] at hbest ⊢
      have hrank := rank_modify (fun _ => rfl) h.tasks i (f := fun t => t.addRemark (.deopt d))
      -- The choice was not hit, so the live tasks are at most fewer and it is still one of them.
      refine BestOf.congr hrank (hbest.subset ?_ ?_)
      · intro j hj
        by_cases hij : i = j
        · subst hij
          obtain ⟨t, ht, hlive⟩ := liveAt_modify_self.mp hj
          have hboth := (t.isLive_addDeopt d).symm.trans hlive
          rw [Bool.and_eq_true] at hboth
          exact liveAt_iff.mpr (by rw [ht]; exact hboth.1)
        · exact (liveAt_modify_of_ne hij).mp hj
      · intro c hc
        have hlive : LiveAt h.tasks c := by
          simp only [hc] at hbest
          exact hbest.1
        by_cases hij : i = c
        · subst hij
          obtain ⟨t, ht, hclosed, hsucceeded, _⟩ := hlive
          refine liveAt_modify_self.mpr ⟨t, ht, ?_⟩
          have hsound := fun hinvalid => hhit ⟨hc, hinvalid⟩
          rw [List.getElem?_modify_eq, ht] at hsound
          unfold Task.isLive Task.succeeded
          rw [Bool.and_eq_true, Bool.not_eq_true']
          exact ⟨by simp [hclosed, hsucceeded], by simpa using hsound⟩
        · exact (liveAt_modify_of_ne hij).mpr hlive

/-! ### Installed code and listings -/

/-- Adding installed code or a listing keeps the right task in service. -/
theorem inService_addRemark (h : MethodHistory) (id : UInt64) (pass : Nat) {r : Remark}
    (hr : r.isDeopt = false) (hbest : InService h.tasks h.current) :
    InService (h.modifyTask id pass fun t => t.addRemark r).tasks
      (h.modifyTask id pass fun t => t.addRemark r).current := by
  unfold MethodHistory.modifyTask
  cases h.tasks.findIdx? (Task.isNamed id pass) with
  | none => exact hbest
  | some i =>
    have hkeeps : ∀ t : Task,
        (t.addRemark r).isLive = t.isLive ∧ (t.addRemark r).kind = t.kind := by
      intro t
      obtain ⟨size, native, flags, heq⟩ := t.addRemark_eq_of_not_isDeopt hr
      rw [heq]
      exact ⟨rfl, rfl⟩
    have hsame : ∀ j, LiveAt (h.tasks.modify i fun t => t.addRemark r) j ↔ LiveAt h.tasks j := by
      intro j
      by_cases hij : i = j
      · subst hij
        rw [liveAt_modify_self, liveAt_iff]
        cases h.tasks[i]? with
        | none => simp
        | some t => simp [(hkeeps t).1]
      · exact liveAt_modify_of_ne hij
    rw [inService_iff_bestOf] at hbest ⊢
    simp only [hsame]
    exact hbest.congr (rank_modify (fun t => (hkeeps t).2) h.tasks i)

/-! ### One task more -/

/-- A moved position still holds its task. -/
theorem getElem?_insertIdx_shifted (tasks : List Task) (t : Task) (i c : Nat) :
    (tasks.insertIdx i t)[shifted i c]? = tasks[c]? := by
  rw [List.getElem?_insertIdx]
  unfold shifted
  by_cases hic : i ≤ c
  · rw [if_pos hic, if_neg (by omega), if_neg (by omega), Nat.add_sub_cancel]
  · rw [if_neg hic, if_pos (by omega)]

/-- Every position but the new one was moved there. -/
theorem exists_shifted_eq {i j : Nat} (h : j ≠ i) : ∃ c, shifted i c = j := by
  unfold shifted
  by_cases hij : j < i
  · exact ⟨j, if_neg (by omega)⟩
  · exact ⟨j - 1, by rw [if_pos (by omega)]; omega⟩

/-- A moved position is not the new one. -/
theorem shifted_ne (i c : Nat) : shifted i c ≠ i := by
  unfold shifted
  split <;> omega

/-- A moved task is as live as before. -/
theorem liveAt_insertIdx_shifted {tasks : List Task} {t : Task} {i c : Nat} :
    LiveAt (tasks.insertIdx i t) (shifted i c) ↔ LiveAt tasks c := by
  unfold LiveAt
  rw [getElem?_insertIdx_shifted]

/-- Moving tasks keeps the order of their ranks. -/
theorem rank_insertIdx_shifted_le {tasks : List Task} {t : Task} {i c c' : Nat}
    (h : rank tasks c ≤ rank tasks c') :
    rank (tasks.insertIdx i t) (shifted i c) ≤ rank (tasks.insertIdx i t) (shifted i c') := by
  have hmoved : ∀ k, StandardAt (tasks.insertIdx i t) (shifted i k) ↔ StandardAt tasks k := by
    intro k
    unfold StandardAt
    rw [getElem?_insertIdx_shifted]
  rw [rank_le_rank_iff] at h ⊢
  rw [hmoved, hmoved]
  refine h.imp_right (And.imp_right ?_)
  intro hle
  unfold shifted
  split_ifs <;> omega

/-- The choice moves with its task, and is the best of all but the new one. -/
theorem BestOf.insertIdx {tasks : List Task} {c : Option Nat}
    (h : BestOf tasks {j | LiveAt tasks j} c) (i : Nat) (t : Task) :
    BestOf (tasks.insertIdx i t) {j | LiveAt (tasks.insertIdx i t) j ∧ j ≠ i}
      (c.map (shifted i)) := by
  have hbefore : ∀ j, LiveAt (tasks.insertIdx i t) j ∧ j ≠ i →
      ∃ k, shifted i k = j ∧ LiveAt tasks k := by
    rintro j ⟨hlive, hne⟩
    obtain ⟨k, rfl⟩ := exists_shifted_eq hne
    exact ⟨k, rfl, liveAt_insertIdx_shifted.mp hlive⟩
  cases c with
  | none =>
    intro j hj
    obtain ⟨k, _, hk⟩ := hbefore j hj
    exact h k hk
  | some c =>
    refine ⟨⟨liveAt_insertIdx_shifted.mpr h.1, shifted_ne i c⟩, fun j hj => ?_⟩
    obtain ⟨k, rfl, hk⟩ := hbefore j hj
    exact rank_insertIdx_shifted_le (h.2 k hk)

/-- Letting one task stand against the best of all others gives the best of all. -/
theorem inService_promote {h : MethodHistory} {i : Nat}
    (hbest : BestOf h.tasks {j | LiveAt h.tasks j ∧ j ≠ i} h.current) :
    InService (h.promote i).tasks (h.promote i).current := by
  rw [inService_iff_bestOf]
  unfold MethodHistory.promote
  by_cases hlive : LiveAt h.tasks i
  · rw [liveAt_iff.mp hlive, Bool.true_and]
    cases hc : h.current with
    | none =>
      rw [hc] at hbest
      refine ⟨hlive, fun j hj => ?_⟩
      by_cases hji : j = i
      · rw [hji]
      · exact absurd ⟨hj, hji⟩ (hbest j)
    | some c =>
      rw [hc] at hbest
      obtain ⟨⟨hclive, _⟩, hcbest⟩ := hbest
      rw [Option.all_some]
      -- The new task outranks the best of the others, and so all of them, or stands behind it.
      split_ifs with houtranks
      · have hlt := outranks_iff.mp houtranks
        refine ⟨hlive, fun j hj => ?_⟩
        by_cases hji : j = i
        · rw [hji]
        · exact (hcbest j ⟨hj, hji⟩).trans hlt.le
      · have hle := le_of_not_gt (mt outranks_iff.mpr houtranks)
        show BestOf h.tasks _ h.current
        rw [hc]
        refine ⟨hclive, fun j hj => ?_⟩
        by_cases hji : j = i
        · rw [hji]
          exact hle
        · exact hcbest j ⟨hj, hji⟩
  · rw [eq_false_of_ne_true (mt liveAt_iff.mpr hlive), Bool.false_and, if_neg Bool.false_ne_true]
    refine hbest.subset (fun j hj => ⟨hj, ?_⟩) ?_
    · rintro rfl
      exact hlive hj
    · intro c hc
      rw [hc] at hbest
      exact hbest.1.1

/-- Filing a task keeps the right task in service. -/
theorem inService_insert (h : MethodHistory) (t : Task) (duplicate : Bool)
    (hbest : InService h.tasks h.current) :
    InService (h.insert t duplicate).tasks (h.insert t duplicate).current := by
  obtain ⟨joined, htasks, hcurrent, heq⟩ := h.insert_eq_promote t duplicate
  rw [heq]
  refine inService_promote ?_
  rw [htasks, hcurrent]
  exact (inService_iff_bestOf.mp hbest).insertIdx _ t

/-! ### Every sequence of acts -/

/-- No way in which a history changes breaks the choice of the code in service. -/
theorem historyInvariant_inService :
    HistoryInvariant fun h => InService h.tasks h.current where
  empty _ := .none (by simp [LiveAt, MethodHistory.empty])
  insert h t duplicate := inService_insert h t duplicate
  bindDeopt h pass d := inService_bindDeopt h pass d
  addRemark h id pass _ hr := inService_addRemark h id pass hr

/-- From an empty or a stored archive, after every sequence of acts the code in service that a
history keeps is what looking at all its tasks gives: the last live standard compilation, or
else the last live task, or none. It is a finished task that gave code and was not hit by an
event that takes it out of service. -/
theorem current_agrees_with_scan (o : Origin) (acts : List Act) :
    ∀ h ∈ (o.store.run acts).histories,
      h.current = h.refreshCurrent.current ∧ InService h.tasks h.current ∧
        ∀ i, h.current = some i → ∃ t, h.tasks[i]? = some t ∧ t.state = .closed ∧
          t.outcome = .succeeded ∧ t.isInvalidated = false := by
  intro h hmem
  have hbest := historyInvariant_inService.origin (fun h => inService_findCurrent? h.tasks)
    o acts h hmem
  refine ⟨hbest.unique (inService_findCurrent? h.tasks), hbest, fun i hi => ?_⟩
  rw [hi] at hbest
  exact hbest.liveAt

/-- A method is entered at a loop, and after a rest another reading tells that the code with the
same number there takes no more calls. -/
def sameNumberLater : List Act :=
  [.record (.task { Task.new 7 ⟨"Main", "loop", "()V"⟩ with
      state := .closed, outcome := .succeeded, kind := .osr none }),
    .freeze, .thaw 1, .beginPass,
    .record (.deopt ⟨7, .madeNotEntrant, none, none, none, none, none⟩)]

/-- The event is not of the task that was filed, so its code stays in service. -/
theorem current_agrees_with_scan_sameNumberLater :
    ∃ h ∈ ((Origin.empty 2).store.run sameNumberLater).histories,
      h.current = some 0 ∧ InService h.tasks (some 0) := by
  refine ⟨_, List.mem_singleton.mpr rfl, by rfl, ?_⟩
  exact (current_agrees_with_scan (.empty 2) sameNumberLater _ (List.mem_singleton.mpr rfl)).2.1

end CompileLog
