import CompileLog.Proofs.Vocabulary.Overlay

/-!
# Overlays that are taken and overlays that are refused

What an overlay says of a tag is checked against the kind that the tag has under it. The tags are
laid over the vocabulary one by one, but none of them changes what another one is checked against:
so an overlay is refused exactly if it has a problem with the vocabulary as it was, for the first
problem in the order of tags and attributes. One that is taken says all that it has to say at once,
and laying it over again changes nothing.
-/

namespace CompileLog

/-! ### Problems and their order -/

namespace OverlayError

/-- The tag that a problem is about. -/
def tag : OverlayError → String
  | missingKind tag => tag
  | roleNotUsed tag _ _ _ => tag

/-- The attribute that it is about, if it is about one. -/
def attribute? : OverlayError → Option String
  | missingKind _ => none
  | roleNotUsed _ attr _ _ => some attr

/-- Problems come in the order of their tags, and those of one tag in the order of its
attributes. -/
def ComesBefore (e f : OverlayError) : Prop :=
  e.tag < f.tag ∨ e.tag = f.tag ∧ e.attribute? < f.attribute?

end OverlayError

namespace Vocabulary

/-- What an overlay says that cannot be laid over a vocabulary. -/
inductive Refuses (v : Vocabulary) (o : Overlay) : OverlayError → Prop where
  /-- A tag that is not known comes without a kind. -/
  | missingKind {tag : String} (hnamed : (o.tags.get? tag).isSome = true)
      (hkind : o.kindOf tag = none) (hunknown : v.kindOf tag = none) :
      Refuses v o (.missingKind tag)
  /-- An attribute is mapped to a role that the kind which its tag then has is not read for. -/
  | roleNotUsed {tag attr : String} {role : Role} {kind : EventKind}
      (hrole : o.roleOf tag attr = some role)
      (hkind : (o.kindOf tag).or (v.kindOf tag) = some kind) (hunread : role ∉ kind.roles) :
      Refuses v o (.roleNotUsed tag attr role kind)

variable {v w : Vocabulary} {o : Overlay} {tag : String} {entry : TagOverlay} {e f : OverlayError}

/-! ### The problem of one tag -/

/-- The first problem with what an overlay says of a tag. -/
def objection? (v : Vocabulary) (tag : String) (entry : TagOverlay) : Option OverlayError :=
  match v.effectiveKind tag entry with
  | none => some (.missingKind tag)
  | some kind =>
    (strayAttribute? kind entry).map fun (attr, role) => .roleNotUsed tag attr role kind

/-- A tag is refused for its first problem. -/
theorem applyTag_eq_error_iff :
    v.applyTag tag entry = .error e ↔ v.objection? tag entry = some e := by
  unfold applyTag objection?
  cases v.effectiveKind tag entry with
  | none => simp
  | some kind => cases hstray : strayAttribute? kind entry <;> simp [hstray]

/-- Whether there is one depends on the kind that the tag has already. -/
theorem objection?_congr (h : w.kindOf tag = v.kindOf tag) :
    w.objection? tag entry = v.objection? tag entry := by
  unfold objection? effectiveKind
  rw [h]

/-- The kind that a tag of an overlay has under it. -/
theorem effectiveKind_eq (hentry : o.tags.get? tag = some entry) :
    v.effectiveKind tag entry = (o.kindOf tag).or (v.kindOf tag) := by
  unfold effectiveKind Overlay.kindOf
  rw [hentry, Option.bind_some]

/-- A problem is about a tag that the overlay names. -/
theorem Refuses.exists_entry (h : v.Refuses o f) : ∃ entry, o.tags.get? f.tag = some entry := by
  cases h with
  | missingKind hnamed => exact Option.isSome_iff_exists.mp hnamed
  | roleNotUsed hrole =>
    obtain ⟨entry, hentry, _⟩ := Option.bind_eq_some_iff.mp hrole
    exact ⟨entry, hentry⟩

/-- A tag without a problem is in none of the overlay's problems. -/
theorem tag_ne_of_objection?_eq_none (hentry : o.tags.get? tag = some entry)
    (h : v.objection? tag entry = none) (hf : v.Refuses o f) : f.tag ≠ tag := by
  rintro rfl
  unfold objection? at h
  rw [effectiveKind_eq hentry] at h
  cases hf with
  | missingKind _ hkind hunknown =>
    rw [OverlayError.tag, hkind, hunknown] at h
    cases h
  | @roleNotUsed tag attr role kind hrole hkind hunread =>
    rw [OverlayError.tag] at h hentry
    rw [hkind] at h
    unfold Overlay.roleOf at hrole
    rw [hentry, Option.bind_some] at hrole
    exact hunread (strayAttribute?_eq_none_iff.mp (Option.map_eq_none_iff.mp h) attr role hrole)

/-- The first attribute that is not read for is mapped so, and no attribute in front of it is. -/
theorem strayAttribute?_spec {kind : EventKind} {attr : String} {role : Role}
    (h : strayAttribute? kind entry = some (attr, role)) :
    entry.attributes.get? attr = some role ∧ role ∉ kind.roles ∧
      ∀ attr' role', entry.attributes.get? attr' = some role' → role' ∉ kind.roles →
        attr' = attr ∨ attr < attr' := by
  obtain ⟨hunread, before, behind, hentries, hbefore⟩ := List.find?_eq_some_iff_append.mp h
  have hordered := entry.attributes.ordered
  rw [hentries, List.pairwise_append, List.pairwise_cons] at hordered
  refine ⟨KeyMap.get?_of_mem_entries (by simp [hentries]), by simpa using hunread, ?_⟩
  intro attr' role' hrole' hunread'
  have hmem := KeyMap.mem_entries_of_get? hrole'
  rw [hentries, List.mem_append, List.mem_cons] at hmem
  rcases hmem with hfront | heq | hback
  · have hread := hbefore _ hfront
    simp only [Bool.not_not] at hread
    exact absurd (List.contains_iff_mem.mp hread) hunread'
  · exact .inl (Prod.mk.inj heq).1
  · exact .inr (hordered.2.1.1 _ hback)

/-- The problem of a tag is one of the overlay's, and the first of those that are about the tag. -/
theorem refuses_of_objection? (hentry : o.tags.get? tag = some entry)
    (h : v.objection? tag entry = some e) :
    v.Refuses o e ∧ e.tag = tag ∧
      ∀ f, v.Refuses o f → f.tag = tag → f = e ∨ e.attribute? < f.attribute? := by
  have hroleOf (attr : String) : o.roleOf tag attr = entry.attributes.get? attr := by
    unfold Overlay.roleOf
    rw [hentry, Option.bind_some]
  unfold objection? at h
  rw [effectiveKind_eq hentry] at h
  cases hkind : (o.kindOf tag).or (v.kindOf tag) with
  | none =>
    rw [hkind] at h
    obtain rfl := Option.some.inj h
    obtain ⟨hgiven, hknown⟩ := Option.or_eq_none_iff.mp hkind
    refine ⟨.missingKind (by simp [hentry]) hgiven hknown, rfl, fun f hf htag => ?_⟩
    cases hf with
    | missingKind => exact .inl (congrArg _ htag)
    | roleNotUsed _ hkind' =>
      obtain rfl := htag
      exact absurd (hkind.symm.trans hkind') (by simp)
  | some kind =>
    rw [hkind] at h
    obtain ⟨⟨attr, role⟩, hstray, rfl⟩ := Option.map_eq_some_iff.mp h
    obtain ⟨hrole, hunread, hfirst⟩ := strayAttribute?_spec hstray
    refine ⟨.roleNotUsed ((hroleOf attr).trans hrole) hkind hunread, rfl, fun f hf htag => ?_⟩
    cases hf with
    | missingKind _ hgiven hknown =>
      obtain rfl := htag
      rw [OverlayError.tag, hgiven, hknown] at hkind
      cases hkind
    | @roleNotUsed tag' attr' role' kind' hrole' hkind' hunread' =>
      obtain rfl : tag' = tag := htag
      obtain rfl : kind' = kind := Option.some.inj (hkind'.symm.trans hkind)
      rw [hroleOf] at hrole'
      rcases hfirst attr' role' hrole' hunread' with rfl | hlt
      · obtain rfl : role' = role := Option.some.inj (hrole'.symm.trans hrole)
        exact .inl rfl
      · exact .inr (Option.some_lt_some.mpr hlt)

/-! ### The problems of all tags -/

/-- The first problem with what an overlay says. -/
def firstObjection? (v : Vocabulary) (o : Overlay) : Option OverlayError :=
  o.tags.entries.findSome? fun (tag, entry) => v.objection? tag entry

/-- Tags laid over a vocabulary one by one are refused for the first problem with what the
vocabulary was before. By induction on the tags: one that is taken leaves the kinds of the
others. -/
theorem foldlM_eq_error_iff {entries : List (String × TagOverlay)}
    (hordered : entries.Pairwise fun a b => a.1 < b.1)
    (hkinds : ∀ a ∈ entries, w.kindOf a.1 = v.kindOf a.1) :
    entries.foldlM (fun w (tag, entry) => w.applyTag tag entry) w = .error e ↔
      entries.findSome? (fun (tag, entry) => v.objection? tag entry) = some e := by
  induction entries generalizing w with
  | nil =>
    constructor
    · intro h
      cases h
    · intro h
      cases h
  | cons first rest ih =>
    obtain ⟨tag, entry⟩ := first
    obtain ⟨hfirst, hrest⟩ := List.pairwise_cons.mp hordered
    obtain ⟨hkind, hkindsRest⟩ := List.forall_mem_cons.mp hkinds
    have hobjection : w.objection? tag entry = v.objection? tag entry := objection?_congr hkind
    rw [List.foldlM_cons, List.findSome?_cons]
    cases happly : w.applyTag tag entry with
    | error problem =>
      have hproblem := applyTag_eq_error_iff.mp happly
      rw [hobjection] at hproblem
      simp only [happly, hproblem]
      exact ⟨fun h => congrArg some (Except.error.inj h),
        fun h => congrArg Except.error (Option.some.inj h)⟩
    | ok u =>
      have hnone : v.objection? tag entry = none := by
        rw [← hobjection]
        refine Option.eq_none_iff_forall_ne_some.mpr fun problem hproblem => ?_
        rw [applyTag_eq_error_iff.mpr hproblem] at happly
        cases happly
      have hkindsBehind : ∀ a ∈ rest, u.kindOf a.1 = v.kindOf a.1 := by
        intro a ha
        rw [kindOf_applyTag happly, if_neg (Std.ne_of_lt (hfirst a ha))]
        exact hkindsRest a ha
      simp only [happly, hnone]
      exact ih hrest hkindsBehind

/-- An overlay is refused for its first problem. -/
theorem overlay_eq_error_iff : v.overlay o = .error e ↔ v.firstObjection? o = some e := by
  unfold overlay firstObjection?
  exact foldlM_eq_error_iff o.tags.ordered fun _ _ => rfl

/-- The first problem that is met is a problem, and comes before all others. -/
theorem refuses_of_firstObjection? (h : v.firstObjection? o = some e) :
    v.Refuses o e ∧ ∀ f, v.Refuses o f → f = e ∨ e.ComesBefore f := by
  obtain ⟨before, ⟨tag, entry⟩, behind, hentries, hobjection, hbefore⟩ :=
    List.findSome?_eq_some_iff.mp h
  have hordered := o.tags.ordered
  rw [hentries, List.pairwise_append, List.pairwise_cons] at hordered
  have hentry : o.tags.get? tag = some entry := KeyMap.get?_of_mem_entries (by simp [hentries])
  obtain ⟨hrefuses, htag, hfirst⟩ := refuses_of_objection? hentry hobjection
  refine ⟨hrefuses, fun f hf => ?_⟩
  obtain ⟨entry', hentry'⟩ := hf.exists_entry
  have hmem := KeyMap.mem_entries_of_get? hentry'
  rw [hentries, List.mem_append, List.mem_cons] at hmem
  rcases hmem with hfront | heq | hback
  · exact absurd rfl (tag_ne_of_objection?_eq_none hentry' (hbefore _ hfront) hf)
  · have hsame : f.tag = tag := (Prod.mk.inj heq).1
    exact (hfirst f hf hsame).imp_right fun hlt => .inr ⟨htag.trans hsame.symm, hlt⟩
  · exact .inr (.inl (htag ▸ hordered.2.1.1 _ hback))

/-- An overlay in which no problem is met has none. -/
theorem not_refuses_of_firstObjection?_eq_none (h : v.firstObjection? o = none) :
    ¬ v.Refuses o f := by
  intro hf
  obtain ⟨entry, hentry⟩ := hf.exists_entry
  have hnone := List.findSome?_eq_none_iff.mp h _ (KeyMap.mem_entries_of_get? hentry)
  exact tag_ne_of_objection?_eq_none hentry hnone hf rfl

/-- An overlay is refused exactly if it has a problem. -/
theorem exists_overlay_eq_error_iff :
    (∃ e, v.overlay o = .error e) ↔ ∃ e, v.Refuses o e := by
  constructor
  · rintro ⟨e, he⟩
    exact ⟨e, (refuses_of_firstObjection? (overlay_eq_error_iff.mp he)).1⟩
  · rintro ⟨f, hf⟩
    cases hfirst : v.firstObjection? o with
    | none => exact absurd hf (not_refuses_of_firstObjection?_eq_none hfirst)
    | some e => exact ⟨e, overlay_eq_error_iff.mpr hfirst⟩

/-! ### What is taken -/

/-- Two vocabularies of one version that answer every look-up alike are the same. -/
theorem ext_lookUp (hversion : w.version = v.version) (hkind : ∀ tag, w.kindOf tag = v.kindOf tag)
    (hrole : ∀ tag attr, w.roleOf tag attr = v.roleOf tag attr) : w = v := by
  have htags : w.tags = v.tags := by
    refine KeyMap.ext_get? fun tag => ?_
    have hkind := hkind tag
    have hrole := hrole tag
    unfold kindOf at hkind
    unfold roleOf at hrole
    cases hw : w.tags.get? tag with
    | none =>
      rw [hw] at hkind
      exact (Option.map_eq_none_iff.mp hkind.symm).symm
    | some meaning =>
      rw [hw, Option.map_some] at hkind
      obtain ⟨meaning', hv, hsame⟩ := Option.map_eq_some_iff.mp hkind.symm
      simp only [hw, hv, Option.bind_some] at hrole
      have hattributes : meaning.attributes = meaning'.attributes := KeyMap.ext_get? hrole
      rw [hv]
      cases meaning
      cases meaning'
      simp only at hsame hattributes
      rw [hsame, hattributes]
  cases w
  cases v
  simp only at hversion htags
  rw [hversion, htags]

/-- A tag that is taken leaves the version and all other tags. -/
theorem applyTag_keeps (h : v.applyTag tag entry = .ok w) :
    w.version = v.version ∧ ∀ t, t ≠ tag → w.tags.get? t = v.tags.get? t := by
  obtain ⟨kind, _, _, rfl⟩ := applyTag_cases h
  refine ⟨rfl, fun t ht => ?_⟩
  rw [KeyMap.get?_insert, if_neg ht.symm]

/-- Tags that are laid over a vocabulary leave its version and all other tags. By induction on the
tags. -/
theorem foldlM_keeps {entries : List (String × TagOverlay)}
    (h : entries.foldlM (fun w (tag, entry) => w.applyTag tag entry) v = .ok w) :
    w.version = v.version ∧
      ∀ t, (∀ a ∈ entries, a.1 ≠ t) → w.tags.get? t = v.tags.get? t := by
  induction entries generalizing v with
  | nil =>
    cases h
    exact ⟨rfl, fun _ _ => rfl⟩
  | cons first rest ih =>
    obtain ⟨tag, entry⟩ := first
    rw [List.foldlM_cons] at h
    cases happly : v.applyTag tag entry with
    | error problem =>
      simp only [happly] at h
      cases h
    | ok u =>
      simp only [happly] at h
      obtain ⟨hversion, hothers⟩ := ih h
      obtain ⟨hversionFirst, hothersFirst⟩ := applyTag_keeps happly
      refine ⟨hversion.trans hversionFirst, fun t ht => ?_⟩
      obtain ⟨hne, hrest⟩ := List.forall_mem_cons.mp ht
      exact (hothers t hrest).trans (hothersFirst t hne.symm)

/-- An overlay that is taken sets the version, if it gives one, and leaves the tags that it does not
name. -/
theorem overlay_keeps (h : v.overlay o = .ok w) :
    w.version = o.version.getD v.version ∧
      ∀ tag, o.tags.get? tag = none → w.tags.get? tag = v.tags.get? tag := by
  obtain ⟨hversion, hothers⟩ := foldlM_keeps h
  refine ⟨hversion, fun tag hnone => hothers tag ?_⟩
  rintro a ha rfl
  rw [KeyMap.get?_of_mem_entries ha] at hnone
  cases hnone

/-- An overlay that is taken has no problem with what it gives: the kinds that it is checked against
are the same. -/
theorem LaidOver.not_refuses (hlaid : v.LaidOver o w) (h : v.overlay o = .ok w) :
    ¬ w.Refuses o f := by
  have hnone : ∀ e, ¬ v.Refuses o e := by
    intro e he
    obtain ⟨problem, hproblem⟩ := exists_overlay_eq_error_iff.mpr ⟨e, he⟩
    rw [hproblem] at h
    cases h
  intro hf
  cases hf with
  | missingKind hnamed hkind hunknown =>
    rw [hlaid.kindOf, hkind, Option.none_or] at hunknown
    exact hnone _ (.missingKind hnamed hkind hunknown)
  | @roleNotUsed tag attr role kind hrole hkind hunread =>
    have hsame : (o.kindOf tag).or (w.kindOf tag) = (o.kindOf tag).or (v.kindOf tag) := by
      rw [hlaid.kindOf, ← Option.or_assoc, Option.or_self]
    exact hnone _ (.roleNotUsed hrole (hsame.symm.trans hkind) hunread)

/-- An overlay that is taken is taken again, and changes nothing then. -/
theorem overlay_again (h : v.overlay o = .ok w) : w.overlay o = .ok w := by
  have hlaid := laidOver_of_overlay h
  cases hagain : w.overlay o with
  | error e =>
    obtain ⟨f, hf⟩ := exists_overlay_eq_error_iff.mp ⟨e, hagain⟩
    exact absurd hf (hlaid.not_refuses h)
  | ok u =>
    have hlaidAgain := laidOver_of_overlay hagain
    congr 1
    apply ext_lookUp
    · rw [(overlay_keeps hagain).1, (overlay_keeps h).1]
      cases o.version <;> rfl
    · intro tag
      rw [hlaidAgain.kindOf, hlaid.kindOf, ← Option.or_assoc, Option.or_self]
    · intro tag attr
      rw [hlaidAgain.roleOf, hlaid.roleOf, ← Option.or_assoc, Option.or_self]

end Vocabulary

/-- Overlays are laid over pointwise. An overlay is refused exactly if it has a problem: a tag that
is not known and comes without a kind, or an attribute in a role that is not read for the kind which
its tag then has. What is told is the first problem in the order of tags and attributes. In what an
overlay gives that is taken, each tag has the overlay's kind, else the one that it had, each
attribute the overlay's role, else the one that it had, the tags that are not named are as they
were, and the same overlay changes nothing more. -/
theorem overlay_pointwise (v : Vocabulary) (o : Overlay) :
    ((∃ e, v.overlay o = .error e) ↔ ∃ e, v.Refuses o e) ∧
      (∀ e, v.overlay o = .error e →
        v.Refuses o e ∧ ∀ f, v.Refuses o f → f = e ∨ e.ComesBefore f) ∧
      ∀ w, v.overlay o = .ok w →
        v.LaidOver o w ∧ w.version = o.version.getD v.version ∧
          (∀ tag, o.tags.get? tag = none → w.tags.get? tag = v.tags.get? tag) ∧
          w.overlay o = .ok w := by
  refine ⟨Vocabulary.exists_overlay_eq_error_iff, fun e he => ?_, fun w hw => ?_⟩
  · exact Vocabulary.refuses_of_firstObjection? (Vocabulary.overlay_eq_error_iff.mp he)
  · obtain ⟨hversion, hothers⟩ := Vocabulary.overlay_keeps hw
    exact ⟨Vocabulary.laidOver_of_overlay hw, hversion, hothers, Vocabulary.overlay_again hw⟩

/-- An overlay that brings a new tag, gives a known one another kind, and maps attributes of a third
one anew. -/
def mixedOverlay : Overlay where
  version := some "hotspot-2"
  tags := .ofList [
    ("task_done", ⟨none, .ofList [("nmsize", .inlinedBytes), ("native_bytes", .nativeSize)]⟩),
    ("compile_task", ⟨some .taskStart, .ofList [("id", .compileId)]⟩),
    ("parse_done", ⟨some .structural, ∅⟩)]

/-- An overlay with three problems, of which the last one that it is given with comes first. -/
def troubledOverlay : Overlay where
  version := none
  tags := .ofList [
    ("mystery", ⟨none, ∅⟩),
    ("bc", ⟨none, .ofList [("x", .address), ("b", .success)]⟩)]

/-- The first overlay is taken: the new tag has its kind, an attribute has the role that it is
mapped to although it had another one, and what is passed over stays. The second is refused for the
first attribute of the first tag. -/
theorem overlay_pointwise_mixed :
    (∃ w, Vocabulary.builtin.overlay mixedOverlay = .ok w ∧
      w.version = "hotspot-2" ∧ w.kindOf "compile_task" = some .taskStart ∧
      w.kindOf "task_done" = some .taskDone ∧
      w.roleOf "task_done" "nmsize" = some .inlinedBytes ∧
      w.roleOf "task_done" "success" = some .success ∧
      w.tags.get? "task" = Vocabulary.builtin.tags.get? "task" ∧
      w.overlay mixedOverlay = .ok w) ∧
    Vocabulary.builtin.overlay troubledOverlay =
        .error (.roleNotUsed "bc" "b" .success .bytecode) ∧
      ∀ f, Vocabulary.builtin.Refuses troubledOverlay f →
        f = .roleNotUsed "bc" "b" .success .bytecode ∨
          OverlayError.ComesBefore (.roleNotUsed "bc" "b" .success .bytecode) f := by
  constructor
  · obtain ⟨w, hw⟩ : ∃ w, Vocabulary.builtin.overlay mixedOverlay = .ok w := ⟨_, rfl⟩
    obtain ⟨hlaid, hversion, hothers, hagain⟩ :=
      (overlay_pointwise .builtin mixedOverlay).2.2 w hw
    refine ⟨w, hw, hversion, ?_, ?_, ?_, ?_, hothers "task" (by decide), hagain⟩
    · rw [hlaid.kindOf]
      decide
    · rw [hlaid.kindOf]
      decide
    · rw [hlaid.roleOf]
      decide
    · rw [hlaid.roleOf]
      decide
  · have hrefused : Vocabulary.builtin.overlay troubledOverlay =
        .error (.roleNotUsed "bc" "b" .success .bytecode) := rfl
    exact ⟨hrefused, ((overlay_pointwise .builtin troubledOverlay).2.1 _ hrefused).2⟩

end CompileLog
