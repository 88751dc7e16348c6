import CompileLog.Analysis.Ranking
import CompileLog.Proofs.Analysis.CallSites
import CompileLog.Proofs.KeyMap.Gathering
import CompileLog.Proofs.Sorting
import Mathlib.Algebra.BigOperators.Group.List.Lemmas

/-!
# What rankings tell

A ranking shows the first of its entries, the greatest value first and entries of one value in the
order of their labels. A ranking that counts has an entry for each label that occurs, with the
number of its occurrences. No two of these are of one value and one label, so it does not matter in
which order they are found before they are sorted.
-/

namespace CompileLog

open scoped List

namespace Ranking

/-! ### What is counted -/

/-- The call sites of a task that were decided in one way, in the order of the decisions. -/
def decided (decision : Decision) (t : Task) : List CallSite :=
  (t.tree.nodes.toList.map InlineNode.site).filter fun s => s.decision = decision

/-- What a ranking that counts finds under labels, among some of the call sites of all tasks: the
call sites that were not inlined, the intrinsics, or the throws. -/
def occurrences? (sites : Decision → Task → List CallSite) (a : Archive) :
    Ranking → Option (List (String × Option Method))
  | .inlineFailureReasons =>
    some (a.tasks.flatMap fun t => (sites .notInlined t).map failureLabel)
  | .intrinsics => some (a.tasks.flatMap fun t => (sites .intrinsic t).map intrinsicLabel)
  | .hotThrows => some (a.tasks.flatMap fun t => t.hotThrows.map throwLabel)
  | .largestNative | .largestBytecode | .slowestCompiles | .mostDecompiled => none

/-- Whether a ranking is found on walks over the trees of all tasks. -/
def walksTrees : Ranking → Bool
  | .inlineFailureReasons | .intrinsics => true
  | .largestNative | .largestBytecode | .slowestCompiles | .mostDecompiled | .hotThrows => false

/-- Where the links are those of a forest, the walks find everything. -/
theorem perm_of_wellLinked {a : Archive} {r : Ranking} {all : List (String × Option Method)}
    (hlinked : a.WellLinked) (hall : r.occurrences? decided a = some all) :
    ∃ met, r.occurrences? sitesOf a = some met ∧ met ~ all := by
  have hsites (decision : Decision) (label : CallSite → String × Option Method) :
      (a.tasks.flatMap fun t => (sitesOf decision t).map label) ~
        a.tasks.flatMap fun t => (decided decision t).map label := by
    refine List.Perm.flatMap_left _ fun t ht => ?_
    exact (((hlinked.preorder_perm ht).map _).filter _).map _
  cases r with
  | inlineFailureReasons =>
    cases hall
    exact ⟨_, rfl, hsites .notInlined failureLabel⟩
  | intrinsics =>
    cases hall
    exact ⟨_, rfl, hsites .intrinsic intrinsicLabel⟩
  | hotThrows => exact ⟨all, hall, .refl all⟩
  | largestNative | largestBytecode | slowestCompiles | mostDecompiled => cases hall

/-! ### Counting -/

/-- Entries count labels: none has two entries, and its entry tells how often it occurs. -/
structure Counts (entries : List Entry) (labels : List String) : Prop where
  /-- No label has two entries. -/
  distinct : (entries.map Entry.label).Nodup
  /-- The value of an entry is the number of occurrences. -/
  value_eq : ∀ e ∈ entries, e.value = labels.count e.label
  /-- The label of an entry occurs. -/
  occurs : ∀ e ∈ entries, e.label ∈ labels

/-- They count all of them. -/
structure CountsAll (entries : List Entry) (labels : List String) : Prop
    extends Counts entries labels where
  /-- Each label has an entry. -/
  covered : ∀ label ∈ labels, ∃ e ∈ entries, e.label = label
  /-- The values add up to the number of all occurrences. -/
  sum_eq : (entries.map Entry.value).sum = labels.length

namespace Counts

variable {entries : List Entry} {labels : List String}

/-- Some of the entries count as well. -/
theorem of_sublist (h : Counts entries labels) {shown : List Entry} (hsub : shown <+ entries) :
    Counts shown labels where
  distinct := h.distinct.sublist (hsub.map _)
  value_eq e he := h.value_eq e (hsub.subset he)
  occurs e he := h.occurs e (hsub.subset he)

/-- Where each label has an entry, the values add up to the number of all occurrences: the entries
have the labels without repeats, whose numbers of occurrences do. -/
theorem countsAll (h : Counts entries labels)
    (hcovered : ∀ label ∈ labels, ∃ e ∈ entries, e.label = label) : CountsAll entries labels where
  toCounts := h
  covered := hcovered
  sum_eq := by
    have hlabels : entries.map Entry.label ~ labels.dedup := by
      refine (List.perm_ext_iff_of_nodup h.distinct (List.nodup_dedup labels)).mpr fun label => ?_
      rw [List.mem_dedup, List.mem_map]
      exact ⟨fun ⟨e, he, hlabel⟩ => hlabel ▸ h.occurs e he, hcovered label⟩
    have hvalues : entries.map Entry.value = (entries.map Entry.label).map labels.count := by
      rw [List.map_map]
      exact List.map_congr_left h.value_eq
    rw [hvalues, (hlabels.map _).sum_eq, List.sum_map_count_dedup_eq_length]

end Counts

/-- It does not matter in which order the labels occur, nor in which order the entries are. -/
theorem CountsAll.of_perm {entries entries' : List Entry} {labels labels' : List String}
    (h : CountsAll entries labels) (hentries : entries ~ entries') (hlabels : labels ~ labels') :
    CountsAll entries' labels' := by
  refine Counts.countsAll ⟨(hentries.map _).nodup_iff.mp h.distinct, fun e he => ?_,
    fun e he => ?_⟩ fun label hlabel => ?_
  · rw [← hlabels.count_eq]
    exact h.value_eq e (hentries.mem_iff.mpr he)
  · exact hlabels.mem_iff.mp (h.occurs e (hentries.mem_iff.mpr he))
  · obtain ⟨e, he, hlabel'⟩ := h.covered label (hlabels.mem_iff.mpr hlabel)
    exact ⟨e, hentries.mem_iff.mp he, hlabel'⟩

/-- The entry of an occurrence, without any. -/
def Entry.uncounted (occurrence : String × Option Method) : Entry :=
  ⟨occurrence.1, occurrence.2, none, 0⟩

/-- An entry with one more occurrence. -/
def Entry.count (e : Entry) (_ : String × Option Method) : Entry := { e with value := e.value + 1 }

/-- Counting occurrences only adds to the value. By induction on the occurrences. -/
theorem foldl_count (occurrences : List (String × Option Method)) (e : Entry) :
    occurrences.foldl Entry.count e = { e with value := e.value + occurrences.length } := by
  induction occurrences generalizing e with
  | nil => rfl
  | cons o rest ih =>
    rw [List.foldl_cons, ih, List.length_cons, Nat.add_comm rest.length, ← Nat.add_assoc]
    rfl

/-- What is gathered under a label is its entry, with the number of its occurrences. -/
theorem of_gathered {occurrences : List (String × Option Method)} {label : String} {e : Entry}
    (h : KeyMap.gathered Entry.uncounted Entry.count
      (occurrences.filter fun o => o.1 = label) = some e) :
    e.label = label ∧ e.value = (occurrences.map Prod.fst).count label ∧
      label ∈ occurrences.map Prod.fst := by
  have hcount : (occurrences.map Prod.fst).count label =
      (occurrences.filter fun o => o.1 = label).length := by
    rw [List.count, List.countP_map, List.countP_eq_length_filter]
    rfl
  obtain ⟨o, rest, hfound, ho, rfl, rfl⟩ :=
    KeyMap.exists_first_of_gathered Prod.fst Entry.uncounted Entry.count h
  rw [foldl_count, hcount, hfound, List.length_cons, Nat.add_comm rest.length]
  exact ⟨rfl, rfl, List.mem_map_of_mem ho⟩

/-- An entry is counted where it is gathered under its label. -/
theorem mem_countLabels {occurrences : List (String × Option Method)} {e : Entry} :
    e ∈ countLabels occurrences ↔ KeyMap.gathered Entry.uncounted Entry.count
      (occurrences.filter fun o => o.1 = e.label) = some e := by
  refine (KeyMap.mem_values_gather Prod.fst Entry.uncounted Entry.count).trans ?_
  exact ⟨fun ⟨label, h⟩ => (of_gathered h).1 ▸ h, fun h => ⟨e.label, h⟩⟩

/-- Labels are counted without loss. -/
theorem countsAll_countLabels (occurrences : List (String × Option Method)) :
    CountsAll (countLabels occurrences) (occurrences.map Prod.fst) := by
  have hordered : (countLabels occurrences).Pairwise fun e f => e.label < f.label := by
    refine KeyMap.pairwise_values (m := occurrences.foldl countLabel ∅) fun label e he => ?_
    exact (of_gathered ((KeyMap.get?_foldl_gather Prod.fst Entry.uncounted Entry.count
      occurrences ∅ label).symm.trans he)).1
  refine Counts.countsAll ⟨?_, fun e he => ?_, fun e he => ?_⟩ fun label hlabel => ?_
  · exact List.pairwise_map.mpr (hordered.imp Std.ne_of_lt)
  · exact (of_gathered (mem_countLabels.mp he)).2.1
  · exact (of_gathered (mem_countLabels.mp he)).2.2
  · obtain ⟨o, ho, rfl⟩ := List.mem_map.mp hlabel
    obtain ⟨e, he⟩ := KeyMap.exists_gathered Prod.fst Entry.uncounted Entry.count ho
    have hlabel' := (of_gathered he).1
    exact ⟨e, mem_countLabels.mpr (hlabel'.symm ▸ he), hlabel'⟩

/-- The entries of a ranking that counts count what it finds on its walks. -/
theorem countsAll_entries {a : Archive} {r : Ranking} {met : List (String × Option Method)}
    (hmet : r.occurrences? sitesOf a = some met) : CountsAll (r.entries a) (met.map Prod.fst) := by
  cases r <;> cases hmet <;> exact countsAll_countLabels _

/-- So do they count everything where the links are those of a forest. -/
theorem countsAll_entries_of_wellLinked {a : Archive} {r : Ranking}
    {all : List (String × Option Method)} (hlinked : a.WellLinked)
    (hall : r.occurrences? decided a = some all) :
    CountsAll (r.entries a) (all.map Prod.fst) := by
  obtain ⟨met, hmet, hperm⟩ := perm_of_wellLinked hlinked hall
  exact (countsAll_entries hmet).of_perm (.refl _) (hperm.map _)

/-! ### The order -/

/-- The greater value comes first, and of one value the smaller label. -/
theorem Entry.notAfter_iff {e f : Entry} : e.notAfter f = true ↔
    f.value < e.value ∨ e.value = f.value ∧ e.label ≤ f.label := by
  simp [notAfter]

/-- An entry that does not stand after one that does not stand after a third does not stand after
the third. -/
theorem Entry.notAfter_trans (e f g : Entry) (hef : e.notAfter f = true)
    (hfg : f.notAfter g = true) : e.notAfter g = true := by
  rw [notAfter_iff] at hef hfg ⊢
  obtain hef | ⟨hef, hlabel⟩ := hef <;> obtain hfg | ⟨hfg, hlabel'⟩ := hfg
  · exact .inl (by omega)
  · exact .inl (by omega)
  · exact .inl (by omega)
  · exact .inr ⟨hef.trans hfg, Std.le_trans hlabel hlabel'⟩

/-- Of two entries, one does not stand after the other. -/
theorem Entry.notAfter_total (e f : Entry) : (e.notAfter f || f.notAfter e) = true := by
  rw [Bool.or_eq_true, notAfter_iff, notAfter_iff]
  rcases Nat.lt_trichotomy e.value f.value with hlt | heq | hgt
  · exact .inr (.inl hlt)
  · rcases String.le_total e.label f.label with hle | hle
    · exact .inl (.inr ⟨heq, hle⟩)
    · exact .inr (.inr ⟨heq.symm, hle⟩)
  · exact .inl (.inl hgt)

/-- Two entries that both do not stand after the other have one label. -/
theorem Entry.label_eq_of_notAfter {e f : Entry} (hef : e.notAfter f = true)
    (hfe : f.notAfter e = true) : e.label = f.label := by
  rw [notAfter_iff] at hef hfe
  obtain hef | ⟨hef, hlabel⟩ := hef <;> obtain hfe | ⟨hfe, hlabel'⟩ := hfe
  · omega
  · omega
  · omega
  · exact Std.le_antisymm hlabel hlabel'

end Ranking

namespace Archive

open Ranking

variable (a : Archive) (r : Ranking)

/-- What is shown of a ranking is in order. -/
theorem pairwise_top (limit : Nat) : (a.top r limit).Pairwise fun e f =>
    f.value < e.value ∨ e.value = f.value ∧ e.label ≤ f.label := by
  have hsorted := List.pairwise_mergeSort Entry.notAfter_trans Entry.notAfter_total (r.entries a)
  exact (hsorted.imp Entry.notAfter_iff.mp).sublist (List.take_sublist limit _)

/-- As many entries as asked for are shown, or all. -/
theorem length_top (limit : Nat) : (a.top r limit).length = min limit (r.entries a).length := by
  unfold top
  rw [List.length_take, List.length_mergeSort]

/-- Where fewer are asked for, the first of them are shown. -/
theorem top_prefix_top {limit more : Nat} (h : limit ≤ more) : a.top r limit <+: a.top r more := by
  unfold top
  exact List.take_prefix_take_left h

/-- All entries are shown where as many are asked for. -/
theorem top_perm {limit : Nat} (h : (r.entries a).length ≤ limit) :
    a.top r limit ~ r.entries a := by
  unfold top
  rw [List.take_of_length_le (by rwa [List.length_mergeSort])]
  exact List.mergeSort_perm _ _

variable {a r} {labels : List String}

/-- Where the entries count labels, what is shown is the same in whatever order they are found. -/
theorem top_of_perm (h : CountsAll (r.entries a) labels) {found : List Entry}
    (hfound : found ~ r.entries a) (limit : Nat) :
    (found.mergeSort Entry.notAfter).take limit = a.top r limit := by
  unfold top
  congr 1
  refine mergeSort_eq_of_perm Entry.notAfter_trans Entry.notAfter_total hfound ?_
  intro e he f hf hef hfe
  exact List.inj_on_of_nodup_map h.distinct (hfound.mem_iff.mp he) (hfound.mem_iff.mp hf)
    (Entry.label_eq_of_notAfter hef hfe)

/-- Where the entries count labels, so do those that are shown. -/
theorem counts_top (h : CountsAll (r.entries a) labels) (limit : Nat) :
    Counts (a.top r limit) labels :=
  (h.of_perm (List.mergeSort_perm _ _).symm (.refl _)).of_sublist (List.take_sublist limit _)

end Archive

open Ranking

/-- Rankings rank, and count without loss. What is shown of a ranking is in order, as long as asked
for or as there are entries, and begins what is shown where more is asked for. Where the ranking
counts, each label has one entry, with the number of its occurrences, and all of them add up to
what there is to count, in whatever order the entries are found. Where that is to be found on walks,
these have to end. It is what they come to, as often as they do, and that is all, each once, where
the links of the tasks are those of a forest. -/
theorem rankings_count_without_loss (a : Archive) (r : Ranking)
    (hends : r.walksTrees = true → ∀ t ∈ a.tasks, t.tree.Ends) :
    (r.walksTrees = true → ∀ t ∈ a.tasks, t.tree.WalksThrough) ∧
    (∀ limit,
      ((a.top r limit).Pairwise fun e f =>
        f.value < e.value ∨ e.value = f.value ∧ e.label ≤ f.label) ∧
      (a.top r limit).length = min limit (r.entries a).length ∧
      (∀ more, limit ≤ more → a.top r limit <+: a.top r more) ∧
      ((r.entries a).length ≤ limit → a.top r limit ~ r.entries a)) ∧
    ∀ found, (r.occurrences? sitesOf a = some found ∨
        a.WellLinked ∧ r.occurrences? decided a = some found) → ∀ limit,
      Counts (a.top r limit) (found.map Prod.fst) ∧
      ((r.entries a).length ≤ limit → CountsAll (a.top r limit) (found.map Prod.fst)) ∧
      ∀ entries, entries ~ r.entries a →
        (entries.mergeSort Entry.notAfter).take limit = a.top r limit := by
  refine ⟨fun hwalks t ht => (hends hwalks t ht).walksThrough, ?_, ?_⟩
  · intro limit
    exact ⟨a.pairwise_top r limit, a.length_top r limit, fun _ => a.top_prefix_top r, a.top_perm r⟩
  · intro found hfound limit
    have hcounts : CountsAll (r.entries a) (found.map Prod.fst) := by
      rcases hfound with hmet | ⟨hlinked, hall⟩
      · exact countsAll_entries hmet
      · exact countsAll_entries_of_wellLinked hlinked hall
    refine ⟨Archive.counts_top hcounts limit, fun hlimit => ?_, fun entries hentries => ?_⟩
    · exact hcounts.of_perm (a.top_perm r hlimit).symm (.refl _)
    · exact Archive.top_of_perm hcounts hentries limit

/-- A task gives one reason once and another one, which is not logged, twice. -/
theorem rankings_count_without_loss_twice :
    let log := Text.Utf8.encode ("<task compile_id='1' method='A a ()V'><inline_fail/>" ++
      "<inline_fail reason='cold'/><inline_fail/><task_done/></task>")
    ∃ s, Session.start .usual = .ok s ∧
      let archive := (s.readLog "log" .never log).finish.1
      let found := [("unknown", none), ("cold", none), ("unknown", none)]
      (archive.WellLinked ∧
        Ranking.inlineFailureReasons.occurrences? decided archive = some found) ∧
        (∀ t ∈ archive.tasks, t.tree.Ends) ∧
        Counts (archive.top .inlineFailureReasons 1) (found.map Prod.fst) := by
  intro log
  have hstart : Session.start .usual =
      .ok ⟨.usual, .builtin, .empty Index.defaultCapacity, []⟩ := rfl
  refine ⟨_, hstart, ?_⟩
  intro archive found
  have hread : archive.Reachable := .readLog hstart "log" log
  have hmet : (∀ t ∈ archive.tasks, t.tree.nodes.size < UInt32.size) ∧
      Ranking.inlineFailureReasons.occurrences? decided archive = some found := by decide +kernel
  have hfound := And.intro (hread.wellLinked hmet.1) hmet.2
  have hends : ∀ t ∈ archive.tasks, t.tree.Ends := fun _ ht => hfound.1.ends ht
  obtain ⟨_, _, hcounted⟩ :=
    rankings_count_without_loss archive .inlineFailureReasons fun _ => hends
  exact ⟨hfound, hends, (hcounted found (.inr hfound) 1).1⟩

/-- A snapshot whose only task rejects a call on no link is loaded, and the reason is not
counted. -/
theorem call_without_link_not_counted :
    Snapshot.read Snapshot.withoutLinks.bytes = .ok Snapshot.withoutLinks ∧
      Ranking.inlineFailureReasons.occurrences? decided Snapshot.withoutLinks.toArchive =
        some [("unknown", none)] ∧
      ¬ CountsAll (Snapshot.withoutLinks.toArchive.top .inlineFailureReasons 10) ["unknown"] := by
  have htop : Snapshot.withoutLinks.toArchive.top .inlineFailureReasons 10 = [] := by
    decide +kernel
  refine ⟨Snapshot.read_withoutLinks, by decide +kernel, fun h => ?_⟩
  obtain ⟨e, he, _⟩ := h.covered "unknown" List.mem_cons_self
  exact absurd (htop ▸ he) List.not_mem_nil

end CompileLog
