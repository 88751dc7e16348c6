import CompileLog.Proofs.History.Timeline
import Mathlib.Data.List.InsertIdx

/-!
# Numbers against stamps

Numbers are given out as compilations begin, so along a timeline they should grow with the stamps.
A task that joins is compared with its two neighbours alone. That is enough to notice whether there
are two tasks at all of which the earlier has the greater number: where the neighbour of the new
task is not such a one, the neighbour and the far task were inverted before. The tasks are left
where their stamps put them.
-/

namespace CompileLog

/-! ### Inverted places -/

/-- Of two places with stamps, the first has the earlier stamp and the greater number. -/
def Inverted (p q : Option Stamp × UInt64) : Prop :=
  ∃ s u, p.1 = some s ∧ q.1 = some u ∧ s.micros < u.micros ∧ q.2 < p.2

/-- Stamps are compared by rank, where the first is known. -/
theorem inverted_iff {p q : Option Stamp × UInt64} :
    Inverted p q ↔
      0 < stampRank p.1 ∧ stampRank p.1 < stampRank q.1 ∧ q.2.toNat < p.2.toNat := by
  obtain ⟨_ | s, id⟩ := p
  · simp [Inverted, stampRank]
  · obtain ⟨_ | u, id'⟩ := q
    · simp [Inverted, stampRank]
    · simp [Inverted, stampRank, UInt64.lt_iff_toNat_lt]

/-- There is a stamp where its rank says so. -/
theorem stampRank_pos_iff {stamp : Option Stamp} : 0 < stampRank stamp ↔ stamp.isSome = true := by
  cases stamp <;> simp [stampRank]

/-- A task in front of another is inverted with it where it has a stamp and the greater number:
equal stamps would put them the other way round. -/
theorem Task.inverted_of_notAfter {a b : Task} (horder : a.notAfter b = true)
    (hstamp : a.timelineStamp.isSome = true) (hid : b.compileId < a.compileId) :
    Inverted a.place b.place := by
  rw [notAfter_iff] at horder
  rw [← stampRank_pos_iff] at hstamp
  rw [UInt64.lt_iff_toNat_lt] at hid
  rw [inverted_iff]
  unfold Before place at *
  simp only at *
  omega

/-- Of two tasks that are inverted the first stands in front. -/
theorem Task.notAfter_of_inverted {a b : Task} (h : Inverted a.place b.place) :
    a.notAfter b = true ∧ b.notAfter a = false := by
  rw [inverted_iff] at h
  rw [← Bool.not_eq_true, notAfter_iff, notAfter_iff]
  unfold Before
  omega

/-- A task between two that are inverted is inverted with one of them. -/
theorem Task.inverted_of_between {a n b : Task} (h : Inverted a.place b.place)
    (hleft : a.notAfter n = true) (hright : n.notAfter b = true) :
    Inverted a.place n.place ∨ Inverted n.place b.place := by
  rw [notAfter_iff] at hleft hright
  rw [inverted_iff] at h ⊢
  rw [inverted_iff]
  unfold Before at hleft hright
  omega

namespace MethodHistory

/-! ### The neighbours of a task that joins -/

/-- The task behind which a task joins the timeline. -/
def before? (h : MethodHistory) (t : Task) : Option Task :=
  if h.positionOf t = 0 then none else h.tasks[h.positionOf t - 1]?

/-- The task in front of which a task joins the timeline. -/
def behind? (h : MethodHistory) (t : Task) : Option Task := h.tasks[h.positionOf t]?

/-- On a timeline in order, a task joins behind a task that does not come after it. -/
theorem InOrder.notAfter_of_before? {h : MethodHistory} (horder : h.InOrder) {t o : Task}
    (ho : h.before? t = some o) : o ∈ h.tasks ∧ o.notAfter t = true := by
  unfold before? at ho
  split_ifs at ho with hfirst
  exact ⟨List.mem_of_getElem? ho, (positionOf_spec horder t).1 _ (by omega) o ho⟩

/-- On a timeline in order, a task joins in front of a task that comes after it. -/
theorem InOrder.notAfter_of_behind? {h : MethodHistory} (horder : h.InOrder) {t o : Task}
    (ho : h.behind? t = some o) : o ∈ h.tasks ∧ o.notAfter t = false :=
  ⟨List.mem_of_getElem? ho, (positionOf_spec horder t).2 _ (Nat.le_refl _) o ho⟩

/-- A task on a timeline in order is not behind a later one, nor behind itself. -/
theorem InOrder.notAfter_of_le {h : MethodHistory} (horder : h.InOrder) {i j : Nat} (hij : i ≤ j)
    {a b : Task} (ha : h.tasks[i]? = some a) (hb : h.tasks[j]? = some b) :
    a.notAfter b = true := by
  rcases Nat.lt_or_eq_of_le hij with hlt | rfl
  · obtain ⟨hi, rfl⟩ := List.getElem?_eq_some_iff.mp ha
    obtain ⟨hj, rfl⟩ := List.getElem?_eq_some_iff.mp hb
    exact List.pairwise_iff_getElem.mp horder i j hi hj hlt
  · obtain rfl := Option.some.inj (ha.symm.trans hb)
    rw [Task.notAfter_iff]
    exact .inr ⟨rfl, Nat.le_refl _⟩

/-- Where a task on a timeline in order does not come after a new one, the new one joins behind it
or behind a task further on. -/
theorem InOrder.exists_before? {h : MethodHistory} (horder : h.InOrder) {t o : Task}
    (ho : o ∈ h.tasks) (hfront : o.notAfter t = true) :
    ∃ n, h.before? t = some n ∧ o.notAfter n = true := by
  obtain ⟨j, hj⟩ := List.mem_iff_getElem?.mp ho
  have hlt : j < h.positionOf t := by
    by_contra hge
    have hback := (positionOf_spec horder t).2 j (by omega) o hj
    rw [hfront] at hback
    cases hback
  have hle := h.positionOf_le t
  have hlast : h.positionOf t - 1 < h.tasks.length := by omega
  have hn := List.getElem?_eq_getElem hlast
  refine ⟨_, ?_, horder.notAfter_of_le (by omega) hj hn⟩
  unfold before?
  rw [if_neg (by omega), hn]

/-- Where a task on a timeline in order comes after a new one, the new one joins in front of it or
in front of a task further ahead. -/
theorem InOrder.exists_behind? {h : MethodHistory} (horder : h.InOrder) {t o : Task}
    (ho : o ∈ h.tasks) (hback : o.notAfter t = false) :
    ∃ n, h.behind? t = some n ∧ n.notAfter o = true := by
  obtain ⟨j, hj⟩ := List.mem_iff_getElem?.mp ho
  have hle : h.positionOf t ≤ j := by
    by_contra hlt
    have hfront := (positionOf_spec horder t).1 j (by omega) o hj
    rw [hback] at hfront
    cases hfront
  have hlength : j < h.tasks.length := (List.getElem?_eq_some_iff.mp hj).1
  have hn := List.getElem?_eq_getElem (Nat.lt_of_le_of_lt hle hlength)
  exact ⟨_, hn, horder.notAfter_of_le hle hn hj⟩

/-! ### The flags of a task that joins -/

/-- Noting a flag adds that flag. -/
theorem mem_flags_flag (h : MethodHistory) (f g : HistoryFlag) :
    g ∈ (h.flag f).flags ↔ g ∈ h.flags ∨ g = f := by
  unfold flag
  split
  · next hmem =>
    refine ⟨.inl, fun hg => hg.elim id fun heq => ?_⟩
    rw [heq]
    exact hmem
  · rw [List.mem_append, List.mem_singleton]

/-- A look at the task before adds at most one flag. -/
theorem mem_flags_flagBefore (h : MethodHistory) (before : Option Task) (t : Task)
    (g : HistoryFlag) :
    g ∈ (h.flagBefore before t).flags ↔ g ∈ h.flags ∨
      ∃ o, before = some o ∧ o.timelineStamp.isSome = true ∧ t.compileId < o.compileId ∧
        g = .outOfOrder t.compileId o.compileId := by
  cases before with
  | none => simp [flagBefore]
  | some o =>
    unfold flagBefore
    by_cases hwrong : (o.timelineStamp.isSome && t.compileId < o.compileId) = true
    · simp only [hwrong, if_true, mem_flags_flag]
      rw [Bool.and_eq_true, decide_eq_true_eq] at hwrong
      simp [hwrong.1, hwrong.2]
    · simp only [hwrong]
      rw [Bool.and_eq_true, decide_eq_true_eq] at hwrong
      refine ⟨.inl, ?_⟩
      rintro (hg | ⟨o', ho', hstamp, hid, _⟩)
      · exact hg
      · obtain rfl := Option.some.inj ho'
        exact absurd ⟨hstamp, hid⟩ hwrong

/-- A look at the task behind adds at most one flag. -/
theorem mem_flags_flagBehind (h : MethodHistory) (behind : Option Task) (t : Task)
    (g : HistoryFlag) :
    g ∈ (h.flagBehind behind t).flags ↔ g ∈ h.flags ∨
      ∃ o, behind = some o ∧ o.compileId < t.compileId ∧
        g = .outOfOrder o.compileId t.compileId := by
  cases behind with
  | none => simp [flagBehind]
  | some o =>
    unfold flagBehind
    by_cases hwrong : o.compileId < t.compileId
    · simp [hwrong, mem_flags_flag]
    · simp [hwrong]

/-- The code in service is no matter of flags. -/
theorem flags_promote (h : MethodHistory) (i : Nat) : (h.promote i).flags = h.flags := by
  unfold promote
  split <;> rfl

/-- A task that joins a timeline in order is flagged with a neighbour where the two are inverted, and
with no other task. -/
theorem InOrder.outOfOrder_mem_insert {h : MethodHistory} (horder : h.InOrder) (t : Task)
    (duplicate : Bool) (e l : UInt64) :
    .outOfOrder e l ∈ (h.insert t duplicate).flags ↔ .outOfOrder e l ∈ h.flags ∨
      (∃ o, h.before? t = some o ∧ Inverted o.place t.place ∧
        t.compileId = e ∧ o.compileId = l) ∨
      ∃ o, h.behind? t = some o ∧ Inverted t.place o.place ∧
        o.compileId = e ∧ t.compileId = l := by
  have hflags : .outOfOrder e l ∈ (h.insert t duplicate).flags ↔ .outOfOrder e l ∈ h.flags ∨
      t.timelineStamp.isSome = true ∧
        ((∃ o, h.before? t = some o ∧ o.timelineStamp.isSome = true ∧ t.compileId < o.compileId ∧
          HistoryFlag.outOfOrder e l = .outOfOrder t.compileId o.compileId) ∨
        ∃ o, h.behind? t = some o ∧ o.compileId < t.compileId ∧
          HistoryFlag.outOfOrder e l = .outOfOrder o.compileId t.compileId) := by
    unfold insert before? behind?
    rw [flags_promote]
    cases duplicate <;> cases t.timelineStamp <;>
      simp [mem_flags_flag, mem_flags_flagBefore, mem_flags_flagBehind, or_assoc]
  rw [hflags]
  refine or_congr_right ⟨?_, ?_⟩
  · rintro ⟨hstamp, ⟨o, ho, hstamped, hid, hnames⟩ | ⟨o, ho, hid, hnames⟩⟩
    · obtain ⟨rfl, rfl⟩ := HistoryFlag.outOfOrder.inj hnames
      have hfront := (horder.notAfter_of_before? ho).2
      exact .inl ⟨o, ho, Task.inverted_of_notAfter hfront hstamped hid, rfl, rfl⟩
    · obtain ⟨rfl, rfl⟩ := HistoryFlag.outOfOrder.inj hnames
      have hback := Task.notAfter_of_notAfter_eq_false (horder.notAfter_of_behind? ho).2
      exact .inr ⟨o, ho, Task.inverted_of_notAfter hback hstamp hid, rfl, rfl⟩
  · rintro (⟨o, ho, ⟨s, u, hs, hu, _, hid⟩, rfl, rfl⟩ | ⟨o, ho, ⟨s, u, hs, hu, _, hid⟩, rfl, rfl⟩)
    · exact ⟨Option.isSome_of_eq_some hu, .inl ⟨o, ho, Option.isSome_of_eq_some hs, hid, rfl⟩⟩
    · exact ⟨Option.isSome_of_eq_some hs, .inr ⟨o, ho, hid, rfl⟩⟩

/-! ### Every inversion is noticed -/

/-- The tasks of a history stand in order, each flag on their numbers names two that are inverted,
and there is such a flag where any two are. -/
structure InversionsFlagged (h : MethodHistory) : Prop where
  /-- The tasks stand in order. -/
  inOrder : h.InOrder
  /-- A flag names two inverted places. -/
  sound : ∀ e l, .outOfOrder e l ∈ h.flags →
    ∃ p ∈ h.places, ∃ q ∈ h.places, Inverted p q ∧ q.2 = e ∧ p.2 = l
  /-- Where two places are inverted there is a flag. -/
  complete : ∀ p ∈ h.places, ∀ q ∈ h.places, Inverted p q → ∃ e l, .outOfOrder e l ∈ h.flags

/-- A task of a history stands at one of its places. -/
theorem place_mem_places {h : MethodHistory} {t : Task} (ht : t ∈ h.tasks) : t.place ∈ h.places :=
  List.mem_map_of_mem ht

/-- The places of a history once a task has joined. -/
theorem mem_places_insert (h : MethodHistory) (t : Task) (duplicate : Bool)
    {p : Option Stamp × UInt64} :
    p ∈ (h.insert t duplicate).places ↔ p = t.place ∨ p ∈ h.places := by
  unfold places
  rw [tasks_insert, List.map_insertIdx]
  exact List.mem_insertIdx (by rw [List.length_map]; exact h.positionOf_le t)

namespace InversionsFlagged

variable {h : MethodHistory} (hflagged : h.InversionsFlagged) (t : Task) (duplicate : Bool)
include hflagged

/-- What was flagged before a task joins stays flagged. -/
theorem exists_flag_insert (hold : ∃ e l, .outOfOrder e l ∈ h.flags) :
    ∃ e l, .outOfOrder e l ∈ (h.insert t duplicate).flags := by
  obtain ⟨e, l, hmem⟩ := hold
  exact ⟨e, l, (hflagged.inOrder.outOfOrder_mem_insert t duplicate e l).mpr (.inl hmem)⟩

/-- Where a new task is inverted with one in front of it there is a flag: the task before it is
inverted with it, or with the one further ahead. -/
theorem exists_flag_of_front {o : Task} (ho : o ∈ h.tasks) (hinverted : Inverted o.place t.place) :
    ∃ e l, .outOfOrder e l ∈ (h.insert t duplicate).flags := by
  have horder := hflagged.inOrder
  obtain ⟨n, hn, hon⟩ := horder.exists_before? ho (Task.notAfter_of_inverted hinverted).1
  obtain ⟨hmem, hnt⟩ := horder.notAfter_of_before? hn
  rcases Task.inverted_of_between hinverted hon hnt with hfar | hnear
  · exact hflagged.exists_flag_insert t duplicate (hflagged.complete _ (place_mem_places ho) _
      (place_mem_places hmem) hfar)
  · exact ⟨_, _, (horder.outOfOrder_mem_insert t duplicate _ _).mpr
      (.inr (.inl ⟨n, hn, hnear, rfl, rfl⟩))⟩

/-- Where a new task is inverted with one behind it there is a flag: it is inverted with the task
behind it, or that one with the one further on. -/
theorem exists_flag_of_back {o : Task} (ho : o ∈ h.tasks) (hinverted : Inverted t.place o.place) :
    ∃ e l, .outOfOrder e l ∈ (h.insert t duplicate).flags := by
  have horder := hflagged.inOrder
  obtain ⟨n, hn, hno⟩ := horder.exists_behind? ho (Task.notAfter_of_inverted hinverted).2
  obtain ⟨hmem, htn⟩ := horder.notAfter_of_behind? hn
  have htn' := Task.notAfter_of_notAfter_eq_false htn
  rcases Task.inverted_of_between hinverted htn' hno with hnear | hfar
  · exact ⟨_, _, (horder.outOfOrder_mem_insert t duplicate _ _).mpr
      (.inr (.inr ⟨n, hn, hnear, rfl, rfl⟩))⟩
  · exact hflagged.exists_flag_insert t duplicate (hflagged.complete _ (place_mem_places hmem) _
      (place_mem_places ho) hfar)

/-- A task that joins leaves all inversions flagged. -/
theorem insert : (h.insert t duplicate).InversionsFlagged := by
  have horder := hflagged.inOrder
  refine ⟨inOrder_insert horder t duplicate, fun e l hmem => ?_, fun p hp q hq hinverted => ?_⟩
  · simp only [mem_places_insert]
    rcases (horder.outOfOrder_mem_insert t duplicate e l).mp hmem with
      hold | ⟨o, ho, hinverted, hnames⟩ | ⟨o, ho, hinverted, hnames⟩
    · obtain ⟨p, hp, q, hq, hinverted⟩ := hflagged.sound e l hold
      exact ⟨p, .inr hp, q, .inr hq, hinverted⟩
    · have hplace := place_mem_places (horder.notAfter_of_before? ho).1
      exact ⟨o.place, .inr hplace, t.place, .inl rfl, hinverted, hnames⟩
    · have hplace := place_mem_places (horder.notAfter_of_behind? ho).1
      exact ⟨t.place, .inl rfl, o.place, .inr hplace, hinverted, hnames⟩
  · rcases (h.mem_places_insert t duplicate).mp hp with rfl | hp <;>
      rcases (h.mem_places_insert t duplicate).mp hq with rfl | hq
    · exact absurd (inverted_iff.mp hinverted).2.1 (Nat.lt_irrefl _)
    · obtain ⟨o, ho, rfl⟩ := List.mem_map.mp hq
      exact hflagged.exists_flag_of_back t duplicate ho hinverted
    · obtain ⟨o, ho, rfl⟩ := List.mem_map.mp hp
      exact hflagged.exists_flag_of_front t duplicate ho hinverted
    · exact hflagged.exists_flag_insert t duplicate (hflagged.complete p hp q hq hinverted)

omit hflagged in
/-- Whether inversions are flagged depends on the places of the tasks and on the flags, and a task
that joins keeps it. -/
theorem placesInvariant : PlacesInvariant InversionsFlagged where
  empty _ :=
    ⟨List.Pairwise.nil, fun _ _ hmem => absurd hmem List.not_mem_nil,
      fun _ hp => absurd hp List.not_mem_nil⟩
  insert _ t duplicate hflagged := hflagged.insert t duplicate
  of_places hplaces hflags hflagged := by
    refine ⟨hflagged.inOrder.of_places_eq hplaces, ?_, ?_⟩
    · rw [hplaces, hflags]
      exact hflagged.sound
    · rw [hplaces, hflags]
      exact hflagged.complete

end InversionsFlagged

/-! ### No task changes its place -/

/-- The numbers and readings of the tasks along the timeline, by which they are told apart. -/
def names (h : MethodHistory) : List (UInt64 × Nat) := h.tasks.map fun t => (t.compileId, t.pass)

/-- A task that joins stands among the others, and they stand as before. -/
theorem names_insert (h : MethodHistory) (t : Task) (duplicate : Bool) :
    h.names.Sublist (h.insert t duplicate).names := by
  unfold names
  rw [tasks_insert]
  exact (List.sublist_insertIdx _ _ _).map _

/-- Installed code and listings leave the tasks where they are. -/
theorem names_addRemark (h : MethodHistory) (id : UInt64) (pass : Nat) (r : Remark) :
    (h.modifyTask id pass fun t => t.addRemark r).names = h.names := by
  unfold names
  rcases h.modifyTask_cases id pass (fun t => t.addRemark r) with
    ⟨_, hsame⟩ | ⟨before, t, behind, htasks, _, hchanged⟩
  · rw [hsame]
  · obtain ⟨hid, hpass⟩ := t.addRemark_keeps r
    rw [hchanged, htasks, List.map_append, List.map_append, List.map_cons, List.map_cons, hid,
      hpass]

/-- An event at run time leaves the tasks where they are. -/
theorem names_bindDeopt (h : MethodHistory) (pass : Nat) (d : Deopt) :
    (h.bindDeopt pass d).names = h.names := by
  have hnames := h.names_addRemark d.compileId pass (.deopt d)
  unfold names at hnames ⊢
  rw [tasks_bindDeopt]
  exact hnames

/-- A remark leaves the tasks where they are. -/
theorem Remarked.names_eq {h changed : MethodHistory} (hremarked : h.Remarked changed) :
    changed.names = h.names := by
  cases hremarked with
  | bound pass d => exact h.names_bindDeopt pass d
  | added id pass r => exact h.names_addRemark id pass r

end MethodHistory

/-- An archive has the histories of an earlier one, and in each the tasks stand as they did, with
others among them. -/
def Archive.KeepsOrder (earlier a : Archive) : Prop :=
  ∀ key h, earlier.histories.get? key = some h →
    ∃ h', a.histories.get? key = some h' ∧ h.names.Sublist h'.names

namespace Archive.KeepsOrder

variable {earlier : Archive}

/-- The order of the tasks depends on what is filed alone. -/
theorem congr {a b : Archive} (hkept : earlier.KeepsOrder a) (hsame : SameFiled b a) :
    earlier.KeepsOrder b := by
  unfold KeepsOrder
  rw [hsame.histories_eq]
  exact hkept

/-- Putting back a history in which the tasks stand as before keeps the order. -/
theorem putHistory {x : Index} (hkept : earlier.KeepsOrder x.toArchive) {key : Method}
    {changed : MethodHistory}
    (hchanged : ∀ old, x.histories.get? key = some old → old.names.Sublist changed.names) :
    earlier.KeepsOrder (x.putHistory key changed).toArchive := by
  intro key' h hfound
  exact KeyMap.exists_get?_insert (hkept key' h hfound) fun old hold hsub =>
    hsub.trans (hchanged old hold)

/-- Nothing that is done to histories changes the order of the tasks in them. -/
theorem archiveInvariant (earlier : Archive) :
    ArchiveInvariant (fun _ => True) earlier.KeepsOrder := by
  refine .of_remarked (fun hsame hkept => hkept.congr hsame) (fun _ hkept => hkept) ?_ ?_
  · intro x t _ hkept
    rw [x.recordTask_eq t]
    refine hkept.putHistory fun old hold => ?_
    rw [Index.historyFor_of_get? hold]
    exact old.names_insert _ _
  · intro x y hremarked hkept
    cases hremarked with
    | putBack hfound hchanged =>
      refine hkept.putHistory fun old hold => ?_
      obtain rfl := Option.some.inj (hfound.symm.trans hold)
      rw [hchanged.names_eq]
    | held hsame => exact hkept.congr hsame

end Archive.KeepsOrder

/-- Whatever is done to histories that began empty, as long as no code that is installed late gives
a filed task another stamp, be it that none reaches one: a history is flagged for its numbers exactly
where it holds two tasks of which the earlier has the greater number; each such flag names two of
them; the tasks stand in the order of their stamps all the same, and none has ever changed its place
among the others. -/
theorem inversions_flagged_not_reordered (capacity : Nat) (acts : List Act)
    (hacts : (Store.writing (.empty capacity)).leavesAllPlaces acts = true) :
    (∀ h ∈ ((Store.writing (.empty capacity)).run acts).histories,
      ((∃ e l, .outOfOrder e l ∈ h.flags) ↔
        ∃ a ∈ h.tasks, ∃ b ∈ h.tasks, Inverted a.place b.place) ∧
      (∀ e l, .outOfOrder e l ∈ h.flags →
        e < l ∧ ∃ a ∈ h.tasks, ∃ b ∈ h.tasks,
          Inverted a.place b.place ∧ b.compileId = e ∧ a.compileId = l) ∧
      h.tasks.Pairwise fun a b => a.notAfter b = true) ∧
    ∀ first rest, acts = first ++ rest →
      ((Store.writing (.empty capacity)).run first).archive.KeepsOrder
        ((Store.writing (.empty capacity)).run acts).archive := by
  constructor
  · intro h hmem
    have hflagged := MethodHistory.InversionsFlagged.placesInvariant.run_empty capacity hacts h hmem
    have hsound : ∀ e l, .outOfOrder e l ∈ h.flags → ∃ a ∈ h.tasks, ∃ b ∈ h.tasks,
        Inverted a.place b.place ∧ b.compileId = e ∧ a.compileId = l := by
      intro e l hflag
      obtain ⟨p, hp, q, hq, hinverted⟩ := hflagged.sound e l hflag
      obtain ⟨a, ha, rfl⟩ := List.mem_map.mp hp
      obtain ⟨b, hb, rfl⟩ := List.mem_map.mp hq
      exact ⟨a, ha, b, hb, hinverted⟩
    refine ⟨⟨?_, ?_⟩, ?_, hflagged.inOrder⟩
    · rintro ⟨e, l, hflag⟩
      obtain ⟨a, ha, b, hb, hinverted, _⟩ := hsound e l hflag
      exact ⟨a, ha, b, hb, hinverted⟩
    · rintro ⟨a, ha, b, hb, hinverted⟩
      exact hflagged.complete _ (MethodHistory.place_mem_places ha) _
        (MethodHistory.place_mem_places hb) hinverted
    · intro e l hflag
      obtain ⟨a, ha, b, hb, hinverted, rfl, rfl⟩ := hsound e l hflag
      obtain ⟨s, u, hs, hu, hstamps, hid⟩ := hinverted
      exact ⟨hid, a, ha, b, hb, ⟨s, u, hs, hu, hstamps, hid⟩, rfl, rfl⟩
  · rintro first rest rfl
    have hnow : ((Store.writing (.empty capacity)).run first).archive.KeepsOrder
        ((Store.writing (.empty capacity)).run first).archive :=
      fun key h hfound => ⟨h, hfound, List.Sublist.refl _⟩
    unfold Store.run at hnow ⊢
    rw [List.foldl_append]
    exact (Archive.KeepsOrder.archiveInvariant _).run hnow fun a _ => a.files_true

/-- Code is installed before its task is told of, then two tasks come with smaller numbers and later
stamps, the second of them in another reading: the first and the last task are flagged, and they are
inverted. -/
theorem inversions_flagged_not_reordered_two_readings :
    let method : Method := ⟨"A", "a", "()V"⟩
    let late : NativeCode := { NativeCode.unknown with emittedAt := some ⟨100⟩ }
    let nine : Task := Task.new 9 method
    let five : Task := { Task.new 5 method with startedAt := some ⟨300⟩ }
    let two : Task := { Task.new 2 method with startedAt := some ⟨200⟩ }
    let acts : List Act :=
      [.beginPass, .record (.lateNative 9 late), .record (.task nine), .record (.task five),
        .beginPass, .record (.task two)]
    (Store.writing (.empty 16)).leavesAllPlaces acts = true ∧
      ∃ h ∈ ((Store.writing (.empty 16)).run acts).histories, .outOfOrder 2 9 ∈ h.flags ∧
        ∃ a ∈ h.tasks, ∃ b ∈ h.tasks,
          Inverted a.place b.place ∧ b.compileId = 2 ∧ a.compileId = 9 := by
  intro method late nine five two acts
  have hacts : (Store.writing (.empty 16)).leavesAllPlaces acts = true := by decide +kernel
  have hflagged : ∃ h ∈ ((Store.writing (.empty 16)).run acts).histories,
      .outOfOrder 2 9 ∈ h.flags := by decide +kernel
  obtain ⟨h, hmem, hflag⟩ := hflagged
  have hall := inversions_flagged_not_reordered 16 acts hacts
  exact ⟨hacts, h, hmem, hflag, ((hall.1 h hmem).2.1 2 9 hflag).2⟩

end CompileLog
