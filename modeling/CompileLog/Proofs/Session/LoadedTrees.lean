import CompileLog.Proofs.InlineTree.Circles
import CompileLog.Proofs.Session.Snapshots
import CompileLog.Proofs.Snapshot.Read

/-!
# Walks over trees that are loaded

Loading takes the links of a tree as they are. So whether the tree of a loaded task can be walked
lies with the links in the snapshot: the walk ends, and visits no call site twice, if no position is
named twice. The snapshots of what sessions read are such. In others a position may be named again,
and then the walk comes to it again, or never to its end.
-/

namespace CompileLog

/-- No link of a forest leads out of it. -/
theorem InlineTree.Linked.leadsInside {t : InlineTree} (h : t.Linked) : t.LeadsInside := by
  intro i hi
  cases hi with
  | @link place _ _ hi =>
    have hsite := (h.sublist_sitesAt place).subset hi
    exact List.mem_range.mp (List.mem_of_mem_filter hsite)

/-- The trees of the tasks that a snapshot is loaded with fit the stored form. -/
theorem Snapshot.Fits.tree {s : Snapshot} (h : s.Fits) {t : Task} (ht : t ∈ s.toArchive.tasks) :
    t.tree.Fits := by
  obtain ⟨m, hm, htm⟩ := List.mem_flatMap.mp ht
  have hall := s.forall_tasks_toArchive fun m hm t ht => ((h.histories m hm).tasks t ht).tree
  exact (hall m hm t htm).1

/-- Whatever bytes are read as a snapshot, the tree of each task that it is loaded with has
positions of 32 bits, and the walk over it ends if no call site that is reached along the links
leads back to itself, and visits no call site twice if no position is named twice by what is
reached. Where all these links lead to call sites, it does so only then. It does so for all tasks if
the snapshot is that of an archive which sessions and snapshots give. -/
theorem loaded_trees_walked_once {bytes : List UInt8} {s : Snapshot}
    (hread : Snapshot.read bytes = .ok s) {t : Task} (ht : t ∈ s.toArchive.tasks) :
    t.tree.Fits ∧ (¬ t.tree.Circular → t.tree.Ends) ∧ (t.tree.NamedOnce → t.tree.WalksOnce) ∧
      (t.tree.LeadsInside →
        (t.tree.Ends → ¬ t.tree.Circular) ∧ (t.tree.WalksOnce → t.tree.NamedOnce)) ∧
      ∀ a : Archive, a.Reachable → s = Snapshot.ofArchive a → t.tree.WalksOnce := by
  obtain ⟨_, hfits⟩ := Snapshot.exists_read_iff.mp ⟨bytes, hread⟩
  refine ⟨hfits.tree ht, InlineTree.ends_of_not_circular, fun hnamed => hnamed.walksOnce,
    fun hinside => ?_, ?_⟩
  · exact ⟨fun hends => hends.not_circular hinside, fun hwalks => hwalks.namedOnce hinside⟩
  · rintro a ha rfl
    exact (ha.reloaded.linked ht).namedOnce.walksOnce

/-- A task that inlines a call with a call of its own, and then rejects another one, is read from a
log. In its snapshot the walk goes from call site to call site, and no position is named twice or
leads back to itself. -/
theorem loaded_trees_walked_once_nested :
    let log := Text.Utf8.encode
      ("<task compile_id='1'><parse><call/><inline_success/><parse><call/><inline_fail/></parse>" ++
        "<call/><inline_fail/></parse></task>")
    ∃ s, Session.start .usual = .ok s ∧
      let archive := (s.readLog "log" .never log).finish.1
      let snapshot := Snapshot.ofArchive archive
      Snapshot.read snapshot.bytes = .ok snapshot ∧
        snapshot.toArchive.tasks.map (fun t => t.tree.preorder.map fun n => (n.id, n.depth)) =
          [[(0, 1), (1, 2), (2, 1)]] ∧
        ∀ t ∈ snapshot.toArchive.tasks,
          t.tree.WalksOnce ∧ t.tree.NamedOnce ∧ ¬ t.tree.Circular := by
  intro log
  have hstart : Session.start .usual =
      .ok ⟨.usual, .builtin, .empty Index.defaultCapacity, []⟩ := rfl
  refine ⟨_, hstart, ?_⟩
  intro archive snapshot
  have hreach : archive.Reachable := .readLog hstart "log" log
  have hmet : archive.Countable ∧
      snapshot.toArchive.tasks.map (fun t => t.tree.preorder.map fun n => (n.id, n.depth)) =
        [[(0, 1), (1, 2), (2, 1)]] := by decide +kernel
  have hread : Snapshot.read snapshot.bytes = .ok snapshot :=
    Snapshot.read_bytes rfl (hreach.sound.fits hmet.1)
  refine ⟨hread, hmet.2, fun t ht => ?_⟩
  obtain ⟨_, _, _, honly, hlogs⟩ := loaded_trees_walked_once hread ht
  obtain ⟨hcircle, hnamed⟩ := honly (hreach.reloaded.linked ht).leadsInside
  have hwalks := hlogs archive hreach rfl
  exact ⟨hwalks, hnamed hwalks, hcircle hwalks.ends⟩

/-! ### Links of other snapshots -/

/-- The tree with one call site whose links are these. -/
def InlineTree.loneSite (topLevel children : List Nat) : InlineTree :=
  let site : CallSite := ⟨⟨"B", "b", "()V"⟩, none, .inlined, none, none, none, none⟩
  ⟨⟨"A", "a", "()V"⟩, none, topLevel, #[⟨0, none, children, site, 1⟩]⟩

/-- It is in a snapshot that is read. -/
theorem Snapshot.read_loneSite {topLevel children : List Nat}
    (htop : ∀ i ∈ topLevel, i < UInt32.size) (hchildren : ∀ i ∈ children, i < UInt32.size) :
    read (holding (.loneSite topLevel children)).bytes =
      .ok (holding (.loneSite topLevel children)) := by
  have hsmall : 0 < UInt32.size ∧ 1 < UInt32.size := by decide
  refine read_holding ⟨htop, fun n hn => ?_⟩
  obtain rfl := Array.mem_singleton.mp hn
  exact ⟨hsmall.1, by simp, hchildren, hsmall.2⟩

/-- One snapshot that is read has a task whose tree names its call site twice: the walk visits that
twice. In another one the call site names itself: the walk does not end, whatever room it is
given. -/
theorem loaded_links_repeat_or_run_in_circle :
    let twice := Snapshot.holding (.loneSite [0, 0] [])
    let circle := Snapshot.holding (.loneSite [0] [0])
    (Snapshot.read twice.bytes = .ok twice ∧ ∃ t ∈ twice.toArchive.tasks,
        t.tree.Visits t.tree.topLevel [0, 0] ∧ ¬ t.tree.WalksOnce) ∧
      Snapshot.read circle.bytes = .ok circle ∧ ∃ t ∈ circle.toArchive.tasks,
        (∀ visited, ¬ t.tree.Visits t.tree.topLevel visited) ∧
          ∀ room, (t.tree.walkFrom room t.tree.topLevel []).length = room := by
  intro twice circle
  have hzero : ∀ i ∈ [0], i < UInt32.size := by decide
  have hinside : (InlineTree.loneSite [0] [0]).LeadsInside := by
    intro i hi
    obtain htop | ⟨n, hn, hchild⟩ := InlineTree.named_of_reached hi
    · obtain rfl := List.mem_singleton.mp htop
      exact Nat.one_pos
    · obtain rfl := Array.mem_singleton.mp hn
      obtain rfl := List.mem_singleton.mp hchild
      exact Nat.one_pos
  have hcircle : (InlineTree.loneSite [0] [0]).Circular :=
    ⟨0, .link .root List.mem_cons_self, .single List.mem_cons_self⟩
  have hnever : ∀ visited, ¬ (InlineTree.loneSite [0] [0]).Visits [0] visited :=
    fun _ hvisits => hvisits.ends.not_circular hinside hcircle
  have hvisits : (InlineTree.loneSite [0, 0] []).Visits [0, 0] [0, 0] :=
    .visit rfl (.visit rfl .done)
  refine ⟨⟨Snapshot.read_loneSite (by decide) (by simp), _, List.mem_singleton_self _, hvisits, ?_⟩,
    Snapshot.read_loneSite hzero hzero, _, List.mem_singleton_self _, hnever, fun room => ?_⟩
  · rintro ⟨visited, hvisits', hnodup, _⟩
    obtain rfl := hvisits'.unique hvisits
    exact absurd hnodup (by decide)
  · have hlength := InlineTree.length_walkFrom_of_endless hnever room []
    rwa [List.length_nil, Nat.zero_add] at hlength

end CompileLog
