import CompileLog.Proofs.History.LateListings
import CompileLog.Proofs.Session.Acts

/-!
# Sessions that keep no listings

A configuration may ask that listings are not kept once their bytes and anchors are taken from
them. A session that is asked so finishes with the archive that it would else finish with, but for
the listings on its tasks, and with the same report. The collector drops the listing of a task that
it still holds. The index is not asked: a listing that comes late is attached to its task and kept.
-/

namespace CompileLog

open Collect Markup

namespace Session

/-! ### Reading without listings -/

/-- Two sessions read the same but for listings, and the second keeps none. -/
structure Spares (s s' : Session) : Prop where
  /-- The second is asked to keep none. -/
  keepsNone : s'.config.keepListings = false
  /-- Tags mean the same. -/
  vocabulary_eq : s'.vocabulary = s.vocabulary
  /-- The indexes hold the same but for the listings of the tasks. -/
  index_eq : s'.index.withoutListings = s.index.withoutListings
  /-- The same is reported. -/
  report_eq : s'.report = s.report

variable {s s' : Session}

/-- A reading without listings delivers the same but for them. -/
theorem Spares.take (h : s.Spares s') (name : String) (r : Reading) :
    (s.take name r).Spares (s'.take name r) := by
  have hcollected := Collector.collect_withoutListings s.config.keepListings
    (r.fragments.map (decode s.vocabulary))
  unfold Session.take
  rw [h.keepsNone, h.vocabulary_eq, h.report_eq]
  simp only [hcollected]
  refine ⟨h.keepsNone, rfl, ?_, rfl⟩
  have hbegun : s'.index.beginPass.withoutListings = s.index.beginPass.withoutListings :=
    congrArg Index.beginPass h.index_eq
  have hrecorded := Index.withoutListings_foldl_record hbegun
    (Collector.collect s.config.keepListings (r.fragments.map (decode s.vocabulary))).2
  simp only [file, Collector.unlisted, Index.withoutListings_recordHeader, hrecorded]
  rfl

/-- Readings without listings deliver the same but for them. -/
theorem Spares.readSources (h : s.Spares s') (sources : List (LogSource × Cancellation)) :
    (s.readSources sources).Spares (s'.readSources sources) :=
  readSources_rel (fun _ _ name r h => h.take name r) h sources

/-- The archives in the end hold the same but for the listings of the tasks. -/
theorem Spares.finish_withoutListings (h : s.Spares s') :
    s'.finish.1.withoutListings = s.finish.1.withoutListings := by
  unfold finish
  rw [Index.withoutListings_freeze, Index.withoutListings_freeze, h.index_eq]

/-! ### Listings that are kept all the same -/

variable {told : UInt64 → Listing → Prop}

/-- Where no listings are kept, a log yields those alone that come late. -/
theorem listedBy_yields (hspares : s.config.keepListings = false) (r : Reading)
    (htold : ∀ id l, .lateListing id l ∈ s.yields r → told id l) :
    ∀ item ∈ s.yields r, item.ListedBy told := by
  intro item hitem
  unfold yields at hitem htold
  rw [hspares, Collector.collect_withoutListings false] at hitem htold
  obtain ⟨whole, hwhole, rfl⟩ := List.mem_map.mp hitem
  refine Item.listedBy_withoutListing fun id l heq => htold id l ?_
  subst heq
  exact List.mem_map.mpr ⟨_, hwhole, rfl⟩

/-- Where each reading yields only listings that were told under their numbers, every listing on a
task was told under its number. By induction on the sources. -/
theorem listedBy_readSources (h : s.index.ListedBy told)
    {sources : List (LogSource × Cancellation)}
    (hyields : ∀ source ∈ sources, ∀ r, source.1.opened source.2 = .ok r →
      ∀ item ∈ s.yields r, item.ListedBy told) :
    (s.readSources sources).index.ListedBy told := by
  induction sources generalizing s with
  | nil => exact h
  | cons source rest ih =>
    obtain ⟨hfirst, hrest⟩ := List.forall_mem_cons.mp hyields
    unfold Session.readSources
    rw [List.foldl_cons]
    unfold readSource
    cases hopened : source.1.opened source.2 with
    | error reason => exact ih h hrest
    | ok r =>
      have hbegun : s.index.beginPass.ListedBy told := ⟨h.filed, h.waiting⟩
      have hfiled := (hbegun.foldl_record (hfirst r hopened)).recordHeader
        (Collector.collect s.config.keepListings (r.fragments.map (decode s.vocabulary))).1.header
      exact ih (s := s.take source.1.name r) hfiled hrest

end Session

/-- What becomes of listings where a session is asked not to keep them. It reports the same as one
that keeps them, and finishes with the same archive but for the listings on the tasks. Every listing
that is on a task all the same came late: some reading yielded it by itself, under the number of
the task. Where none came late, the archive is the one with all listings dropped. -/
theorem listings_kept_only_late (config : Config) (vocabulary : Vocabulary)
    (sources : List (LogSource × Cancellation)) :
    let keeping := Session.fresh { config with keepListings := true } vocabulary
    let sparing := Session.fresh { config with keepListings := false } vocabulary
    let kept := (keeping.readSources sources).finish
    let spared := (sparing.readSources sources).finish
    spared.2 = kept.2 ∧
    spared.1.withoutListings = kept.1.withoutListings ∧
    (∀ t ∈ spared.1.tasks, ∀ l, t.listing? = some l →
      ∃ source ∈ sources, ∃ r, source.1.opened source.2 = .ok r ∧
        .lateListing t.compileId l ∈ sparing.yields r) ∧
    ((∀ source ∈ sources, ∀ r, source.1.opened source.2 = .ok r →
        ∀ item ∈ sparing.yields r, item.isLateListing = false) →
      (∀ t ∈ spared.1.tasks, t.listing? = none) ∧ spared.1 = kept.1.withoutListings) := by
  intro keeping sparing kept spared
  have hbegin : keeping.Spares sparing := ⟨rfl, rfl, rfl, rfl⟩
  have hspares := hbegin.readSources sources
  let late (id : UInt64) (l : Listing) : Prop :=
    ∃ source ∈ sources, ∃ r, source.1.opened source.2 = .ok r ∧
      .lateListing id l ∈ sparing.yields r
  have hlisted : (sparing.readSources sources).index.ListedBy late := by
    refine Session.listedBy_readSources (.empty _) fun source hsource r hr => ?_
    exact Session.listedBy_yields rfl r fun id l hl => ⟨source, hsource, r, hr, hl⟩
  refine ⟨hspares.report_eq, hspares.finish_withoutListings, hlisted.freeze, fun hnone => ?_⟩
  have hbare : ∀ t ∈ spared.1.tasks, t.listing? = none := by
    intro t ht
    refine Option.eq_none_iff_forall_ne_some.mpr fun l hl => ?_
    obtain ⟨source, hsource, r, hr, hmem⟩ := hlisted.freeze t ht l hl
    exact Bool.noConfusion (hnone source hsource r hr _ hmem)
  refine ⟨hbare, ?_⟩
  rw [← hspares.finish_withoutListings]
  exact (Archive.withoutListings_eq_self hbare).symm

/-- A listing that is printed while its task is under way is kept where it is asked for, and dropped
where it is not. -/
theorem listings_kept_only_late_inTime :
    let log := Text.Utf8.encode
      ("<task compile_id='7' method='A a ()V'><print_nmethod>\n" ++
        "Compiled method (c1) 2 7 1 A::a (1 bytes)\n 0x10: 44\n" ++
        "</print_nmethod><task_done/></task>")
    let sources : List (LogSource × Cancellation) := [(.memory "<memory>" log, .never)]
    let keeping := Session.fresh { Config.usual with keepListings := true } .builtin
    let sparing := Session.fresh { Config.usual with keepListings := false } .builtin
    let kept := (keeping.readSources sources).finish
    let spared := (sparing.readSources sources).finish
    (∃ t ∈ kept.1.tasks, t.listing?.isSome = true) ∧
      (∀ t ∈ spared.1.tasks, t.listing? = none) ∧ spared.1 = kept.1.withoutListings := by
  intro log sources keeping sparing kept spared
  have hkept : ∃ t ∈ kept.1.tasks, t.listing?.isSome = true := by decide +kernel
  have hnone : ∀ item ∈ sparing.yields (read .never log), item.isLateListing = false := by
    decide +kernel
  obtain ⟨_, _, _, hdropped⟩ := listings_kept_only_late .usual .builtin sources
  refine ⟨hkept, hdropped fun source hsource r hr => ?_⟩
  obtain rfl := List.mem_singleton.mp hsource
  obtain rfl := Except.ok.inj hr
  exact hnone

/-- A listing that is printed after its task was finished is kept although it is not asked for. -/
theorem listing_kept_unasked :
    let log := Text.Utf8.encode
      ("<task compile_id='7' method='A a ()V'><task_done/></task><print_nmethod>\n" ++
        "Compiled method (c1) 2 7 1 A::a (1 bytes)\n 0x10: 44\n</print_nmethod>")
    ∃ s, Session.start { Config.usual with keepListings := false } = .ok s ∧
      ∃ t ∈ (s.readLog "<memory>" .never log).finish.1.task? 7, t.listing?.isSome = true := by
  intro log
  refine ⟨Session.fresh { Config.usual with keepListings := false } .builtin, rfl, ?_⟩
  decide +kernel

end CompileLog
