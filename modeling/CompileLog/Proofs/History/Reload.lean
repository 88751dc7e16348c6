import CompileLog.Proofs.History.InService

/-!
# Snapshots and back

An archive keeps each history under its own method. So where the choice of the code in service
agrees with a look at all tasks, what a snapshot leaves out of an archive follows from what it
holds, and the archive of its snapshot is the same.
-/

namespace CompileLog

/-! ### Histories under their methods -/

namespace MethodHistory

/-- Noting a flag keeps the method. -/
theorem method_flag (h : MethodHistory) (f : HistoryFlag) : (h.flag f).method = h.method := by
  unfold flag
  split <;> rfl

/-- Letting a task stand against the choice keeps the method. -/
theorem method_promote (h : MethodHistory) (i : Nat) : (h.promote i).method = h.method := by
  unfold promote
  split <;> rfl

/-- Adding a task keeps the method. -/
theorem method_insert (h : MethodHistory) (t : Task) (duplicate : Bool) :
    (h.insert t duplicate).method = h.method := by
  have hbefore : ∀ (h : MethodHistory) before, (h.flagBefore before t).method = h.method := by
    intro h before
    unfold flagBefore
    repeat' split
    all_goals first | rfl | exact method_flag _ _
  have hbehind : ∀ (h : MethodHistory) behind, (h.flagBehind behind t).method = h.method := by
    intro h behind
    unfold flagBehind
    repeat' split
    all_goals first | rfl | exact method_flag _ _
  simp only [insert, method_promote]
  split_ifs <;> simp only [hbefore, hbehind, method_flag]

/-- Binding an event keeps the method. -/
theorem method_bindDeopt (h : MethodHistory) (pass : Nat) (d : Deopt) :
    (h.bindDeopt pass d).method = h.method := by
  unfold bindDeopt
  split
  · rfl
  · simp only
    split <;> rfl

/-- Changing a task keeps the method. -/
theorem method_modifyTask (h : MethodHistory) (id : UInt64) (pass : Nat) (f : Task → Task) :
    (h.modifyTask id pass f).method = h.method := by
  unfold modifyTask
  split <;> rfl

/-- A remark keeps the method. -/
theorem Remarked.method_eq {h changed : MethodHistory} (hremarked : h.Remarked changed) :
    changed.method = h.method := by
  cases hremarked with
  | bound pass d => exact h.method_bindDeopt pass d
  | added id pass r => exact h.method_modifyTask id pass _

end MethodHistory

/-- Each history is kept under its method. -/
def Archive.Keyed (a : Archive) : Prop :=
  ∀ key h, a.histories.get? key = some h → h.method = key

namespace Archive.Keyed

/-- An archive that holds nothing keeps each history under its method. -/
theorem empty : Archive.empty.Keyed := by
  intro key h hfound
  cases hfound

/-- Each history is found under its method. -/
theorem get?_method {a : Archive} (h : a.Keyed) {m : MethodHistory} (hm : m ∈ a.allHistories) :
    a.histories.get? m.method = some m := by
  obtain ⟨⟨key, found⟩, hentry, rfl⟩ := List.mem_map.mp hm
  have hfound := KeyMap.get?_of_mem_entries hentry
  have hkey : found.method = key := h key found hfound
  rwa [hkey]

/-- Where the same is filed, histories are kept under the same methods. -/
theorem congr {a b : Archive} (h : a.Keyed) (hsame : SameFiled b a) : b.Keyed := by
  unfold Keyed
  rw [hsame.histories_eq]
  exact h

/-- Setting a history under its method keeps each under its own. -/
theorem insert {a : Archive} (h : a.Keyed) {key : Method} {changed : MethodHistory}
    (hchanged : changed.method = key) (b : Archive)
    (hb : b.histories = a.histories.insert key changed) : b.Keyed := by
  intro k m hm
  rw [hb, KeyMap.get?_insert] at hm
  split_ifs at hm with hk
  · obtain rfl := Option.some.inj hm
    exact hchanged.trans hk
  · exact h k m hm

/-- Filing a task keeps each history under its method. -/
theorem recordTask {x : Index} (h : x.Keyed) (t : Task) : (x.recordTask t).Keyed := by
  have hjoined : (x.historyFor (x.completed t)).method = (x.completed t).method := by
    unfold Index.historyFor
    cases hfound : x.historyOf? (x.completed t).method with
    | none => rfl
    | some m => exact h _ m hfound
  rw [x.recordTask_eq t]
  exact h.insert ((MethodHistory.method_insert _ _ _).trans hjoined) _ rfl

/-- No act moves a history away from its method. -/
theorem archiveInvariant : ArchiveInvariant (fun _ => True) Archive.Keyed := by
  refine .of_remarked (fun hsame h => h.congr hsame) (fun _ h => h) (fun _ t _ h => h.recordTask t) ?_
  intro x y hremarked h
  cases hremarked with
  | putBack hfound hchanged => exact h.insert (hchanged.method_eq.trans (h _ _ hfound)) _ rfl
  | held hsame => exact h.congr hsame

/-- The archive of a snapshot keeps each history under its method. -/
theorem toArchive (s : Snapshot) : s.toArchive.Keyed := by
  unfold Snapshot.toArchive
  refine List.foldlRecOn (motive := Archive.Keyed) s.histories _ empty ?_
  intro a h stored _
  exact h.insert (by rfl) _ (a.histories_addHistory stored)

end Archive.Keyed

/-! ### Snapshots -/

/-- The histories of a snapshot's archive are set one after the other. -/
theorem Snapshot.histories_toArchive (s : Snapshot) :
    s.toArchive.histories =
      s.histories.foldl (fun m h => m.insert h.method h.refreshCurrent) ∅ :=
  (List.foldl_hom Archive.histories fun a h => (a.histories_addHistory h).symm).symm

/-- An archive that keeps each history under its method, with the right code in service, is what its
snapshot holds. -/
theorem Archive.Keyed.same_toArchive {a : Archive} (h : a.Keyed)
    (hcurrent : ∀ m ∈ a.histories.values, m.refreshCurrent = m) :
    (Snapshot.ofArchive a).toArchive.Same a := by
  refine ⟨?_, rfl, rfl, rfl, rfl, rfl⟩
  have hset : ∀ (built : KeyMap Method MethodHistory), ∀ e ∈ a.histories.entries,
      built.insert e.2.method e.2.refreshCurrent = built.insert e.1 e.2 := by
    intro built e he
    rw [h e.1 e.2 (KeyMap.get?_of_mem_entries he),
      hcurrent e.2 (List.mem_map_of_mem (f := Prod.snd) he)]
  rw [Snapshot.histories_toArchive]
  show (a.histories.entries.map Prod.snd).foldl _ _ = _
  rw [List.foldl_map, List.foldl_ext _ _ _ hset, KeyMap.foldl_insert_entries]

/-- Where the choice of the code in service agrees with a look at all tasks, looking it up anew
changes nothing. -/
theorem Archive.Keyed.same_of_inService {a : Archive} (h : a.Keyed)
    (hservice : ∀ m ∈ a.histories.values, InService m.tasks m.current) :
    (Snapshot.ofArchive a).toArchive.Same a := by
  refine h.same_toArchive fun m hm => ?_
  have hcurrent : m.current = MethodHistory.findCurrent? m.tasks :=
    (hservice m hm).unique (inService_findCurrent? m.tasks)
  rw [MethodHistory.refreshCurrent, ← hcurrent]

end CompileLog
