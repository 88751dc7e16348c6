import CompileLog.Proofs.KeyMap
import CompileLog.Vocabulary.Table

/-!
# Looking up under overlays

An overlay that is taken changes what it names and nothing else: a tag has the overlay's kind if
the overlay gives one, and an attribute the overlay's role if it maps the attribute. What the
overlay maps itself is read for the kind that the tag then has.
-/

namespace CompileLog

/-! ### What an overlay says -/

namespace Overlay

/-- The kind that an overlay gives a tag. -/
def kindOf (o : Overlay) (tag : String) : Option EventKind :=
  (o.tags.get? tag).bind TagOverlay.kind

/-- The role that an overlay gives an attribute of a tag. -/
def roleOf (o : Overlay) (tag attr : String) : Option Role :=
  (o.tags.get? tag).bind fun entry => entry.attributes.get? attr

section Entries

variable (version : Option String) {tag : String} {entry : TagOverlay}
  {rest : List (String × TagOverlay)} (h : ((tag, entry) :: rest).Pairwise fun a b => a.1 < b.1)

/-- The kind of a tag is told by the first entry or by the others. -/
theorem kindOf_cons (t : String) : (Overlay.mk version ⟨(tag, entry) :: rest, h⟩).kindOf t =
    if tag = t then entry.kind
    else (Overlay.mk version ⟨rest, (List.pairwise_cons.mp h).2⟩).kindOf t := by
  unfold kindOf
  rw [KeyMap.get?_cons]
  split <;> rfl

/-- The role of an attribute is told by the first entry or by the others. -/
theorem roleOf_cons (t attr : String) :
    (Overlay.mk version ⟨(tag, entry) :: rest, h⟩).roleOf t attr =
      if tag = t then entry.attributes.get? attr
      else (Overlay.mk version ⟨rest, (List.pairwise_cons.mp h).2⟩).roleOf t attr := by
  unfold roleOf
  rw [KeyMap.get?_cons]
  split <;> rfl

/-- The others tell nothing of the first entry's tag. -/
theorem of_rest_first :
    (Overlay.mk version ⟨rest, (List.pairwise_cons.mp h).2⟩).kindOf tag = none ∧
      ∀ attr, (Overlay.mk version ⟨rest, (List.pairwise_cons.mp h).2⟩).roleOf tag attr = none := by
  have hnone := KeyMap.get?_rest_first h
  unfold kindOf roleOf
  simp only [hnone]
  exact ⟨rfl, fun _ => rfl⟩

end Entries

end Overlay

namespace Vocabulary

variable {v w : Vocabulary} {tag : String} {entry : TagOverlay}

/-! ### One tag -/

/-- No attribute is stray, exactly if all roles are read for the kind. -/
theorem strayAttribute?_eq_none_iff {kind : EventKind} :
    strayAttribute? kind entry = none ↔
      ∀ attr role, entry.attributes.get? attr = some role → role ∈ kind.roles := by
  unfold strayAttribute?
  rw [List.find?_eq_none]
  constructor
  · intro h attr role hrole
    simpa using h (attr, role) (KeyMap.mem_entries_of_get? hrole)
  · intro h e he
    simpa using h e.1 e.2 (KeyMap.get?_of_mem_entries he)

/-- A tag that is taken has a kind, for which its roles are read, and its meaning is set. -/
theorem applyTag_cases (h : v.applyTag tag entry = .ok w) :
    ∃ kind, v.effectiveKind tag entry = some kind ∧ strayAttribute? kind entry = none ∧
      w = { v with tags := v.tags.insert tag ⟨kind, mergeAttributes
        (((v.tags.get? tag).map TagMeaning.attributes).getD .empty) entry.attributes⟩ } := by
  unfold applyTag at h
  cases hkind : v.effectiveKind tag entry with
  | none =>
    rw [hkind] at h
    cases h
  | some kind =>
    rw [hkind] at h
    cases hstray : strayAttribute? kind entry with
    | none =>
      simp only [hstray] at h
      exact ⟨kind, rfl, hstray, (Except.ok.inj h).symm⟩
    | some stray =>
      simp only [hstray] at h
      cases h

/-- A tag that is taken has its own kind, and every other tag the kind that it had. -/
theorem kindOf_applyTag (h : v.applyTag tag entry = .ok w) (t : String) :
    w.kindOf t = if tag = t then v.effectiveKind tag entry else v.kindOf t := by
  obtain ⟨kind, hkind, _, rfl⟩ := applyTag_cases h
  unfold kindOf
  rw [KeyMap.get?_insert]
  split
  · rw [hkind]
    rfl
  · rfl

/-- A tag that is taken has its own roles and those that it had, and every other tag those that it
had. -/
theorem roleOf_applyTag (h : v.applyTag tag entry = .ok w) (t attr : String) :
    w.roleOf t attr =
      if tag = t then (entry.attributes.get? attr).or (v.roleOf t attr) else v.roleOf t attr := by
  obtain ⟨kind, _, _, rfl⟩ := applyTag_cases h
  unfold roleOf
  rw [KeyMap.get?_insert]
  by_cases ht : tag = t
  · subst ht
    rw [if_pos rfl, if_pos rfl, Option.bind_some]
    refine (KeyMap.get?_foldl_insert entry.attributes _ attr).trans ?_
    cases v.tags.get? tag <;> rfl
  · rw [if_neg ht, if_neg ht]

/-! ### All tags -/

/-- What is known of a vocabulary once the tags of an overlay are laid over it. -/
structure LaidOver (v : Vocabulary) (o : Overlay) (w : Vocabulary) : Prop where
  /-- A tag has the overlay's kind, else the one that it had. -/
  kindOf : ∀ tag, w.kindOf tag = (o.kindOf tag).or (v.kindOf tag)
  /-- An attribute has the overlay's role, else the one that it had. -/
  roleOf : ∀ tag attr, w.roleOf tag attr = (o.roleOf tag attr).or (v.roleOf tag attr)
  /-- The kind of a tag is read for every role that the overlay gives an attribute of it. -/
  read : ∀ tag attr role, o.roleOf tag attr = some role →
    ∃ kind, w.kindOf tag = some kind ∧ role ∈ kind.roles

/-- Laying the first tag over a vocabulary, and then the others. -/
theorem LaidOver.cons {u : Vocabulary} {version : Option String} {rest : List (String × TagOverlay)}
    (hordered : ((tag, entry) :: rest).Pairwise fun a b => a.1 < b.1)
    (hfirst : v.applyTag tag entry = .ok u)
    (hrest : u.LaidOver ⟨version, ⟨rest, (List.pairwise_cons.mp hordered).2⟩⟩ w) :
    v.LaidOver ⟨version, ⟨(tag, entry) :: rest, hordered⟩⟩ w := by
  obtain ⟨hnoKind, hnoRole⟩ := Overlay.of_rest_first version hordered
  have hkind : w.kindOf tag = v.effectiveKind tag entry := by
    rw [hrest.kindOf, hnoKind, kindOf_applyTag hfirst, if_pos rfl]
    rfl
  refine ⟨fun t => ?_, fun t attr => ?_, fun t attr role hrole => ?_⟩
  · rw [Overlay.kindOf_cons]
    by_cases ht : tag = t
    · subst ht
      rw [if_pos rfl, hkind]
      rfl
    · rw [if_neg ht, hrest.kindOf, kindOf_applyTag hfirst, if_neg ht]
  · rw [Overlay.roleOf_cons, hrest.roleOf, roleOf_applyTag hfirst]
    by_cases ht : tag = t
    · subst ht
      rw [if_pos rfl, if_pos rfl, hnoRole]
      rfl
    · rw [if_neg ht, if_neg ht]
  · rw [Overlay.roleOf_cons] at hrole
    by_cases ht : tag = t
    · subst ht
      rw [if_pos rfl] at hrole
      obtain ⟨kind, heffective, hstray, _⟩ := applyTag_cases hfirst
      exact ⟨kind, hkind.trans heffective, strayAttribute?_eq_none_iff.mp hstray attr role hrole⟩
    · rw [if_neg ht] at hrole
      exact hrest.read t attr role hrole

/-- Laying tags over a vocabulary one by one. By induction on the tags. -/
theorem laidOver_of_foldlM (version : Option String) {entries : List (String × TagOverlay)}
    (hordered : entries.Pairwise fun a b => a.1 < b.1)
    (h : entries.foldlM (fun w (tag, entry) => w.applyTag tag entry) v = .ok w) :
    v.LaidOver ⟨version, ⟨entries, hordered⟩⟩ w := by
  induction entries generalizing v with
  | nil =>
    cases h
    exact ⟨fun _ => rfl, fun _ _ => rfl, fun _ _ _ h => by cases h⟩
  | cons first rest ih =>
    obtain ⟨tag, entry⟩ := first
    rw [List.foldlM_cons] at h
    cases hfirst : v.applyTag tag entry with
    | error e =>
      simp only [hfirst] at h
      cases h
    | ok u =>
      simp only [hfirst] at h
      exact .cons hordered hfirst (ih (List.pairwise_cons.mp hordered).2 h)

/-- What an overlay that is taken gives. -/
theorem laidOver_of_overlay {o : Overlay} (h : v.overlay o = .ok w) : v.LaidOver o w := by
  -- The version plays no part in a look-up.
  obtain ⟨hkind, hrole, hread⟩ := laidOver_of_foldlM o.version o.tags.ordered h
  exact ⟨hkind, hrole, hread⟩

end Vocabulary

end CompileLog
