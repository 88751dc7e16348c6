import CompileLog.Event.Decode
import Mathlib.Data.List.Basic

/-!
# Attributes that fit their roles

An attribute counts for the event of its tag if the vocabulary maps it and its text fits the role
that it is mapped to. All others might as well be missing: the event is that of the tag without
them, and one that does not fit does not hide a later one in the same role. Those that are mapped
and do not fit are reported.
-/

namespace CompileLog

open Markup

/-- The fragment with other attributes, if it is a tag that can have some. -/
def Markup.Fragment.withAttributes (f : Fragment) (attributes : List (String × String)) :
    Fragment :=
  match f.content with
  | .opening name _ => { f with content := .opening name attributes }
  | .empty name _ => { f with content := .empty name attributes }
  | .closing _ | .text _ => f

/-! ### One attribute -/

namespace Vocabulary

variable (v : Vocabulary) (tag : String)

/-- Whether an attribute of a tag has a role, and a text that fits it. -/
def fits (a : String × String) : Bool :=
  (v.roleOf tag a.1).any fun role => (role.form.read? a.2).isSome

/-- Whether an attribute of a tag has a role, but a text that does not fit it. -/
def misfits (a : String × String) : Bool :=
  (v.roleOf tag a.1).any fun role => (role.form.read? a.2).isNone

/-- What an attribute of a tag says, if it fits: its role and its value. -/
def read? (a : String × String) : Option (Role × AttrValue) :=
  (v.roleOf tag a.1).bind fun role => (role.form.read? a.2).map fun value => (role, value)

/-- The report on an attribute of a tag, if it misfits. -/
def unread? (a : String × String) : Option UnreadAttr :=
  (v.roleOf tag a.1).bind fun role =>
    if (role.form.read? a.2).isNone then some ⟨a.1, role, a.2⟩ else none

variable {v tag} {a : String × String} {role : Role}

/-- An attribute that fits says its value in its role, and is not reported. -/
theorem read?_of_fits (hrole : v.roleOf tag a.1 = some role) {value : AttrValue}
    (hvalue : role.form.read? a.2 = some value) :
    v.read? tag a = some (role, value) ∧ v.unread? tag a = none := by
  unfold read? unread?
  rw [hrole, Option.bind_some, Option.bind_some, hvalue]
  exact ⟨rfl, rfl⟩

/-- An attribute that misfits says nothing, and is reported. -/
theorem read?_of_misfits (hrole : v.roleOf tag a.1 = some role)
    (hvalue : role.form.read? a.2 = none) :
    v.read? tag a = none ∧ v.unread? tag a = some ⟨a.1, role, a.2⟩ := by
  unfold read? unread?
  rw [hrole, Option.bind_some, Option.bind_some, hvalue]
  exact ⟨rfl, rfl⟩

/-- An attribute without a role says nothing, and is not reported. -/
theorem read?_of_unknown (hrole : v.roleOf tag a.1 = none) :
    v.read? tag a = none ∧ v.unread? tag a = none := by
  unfold read? unread?
  rw [hrole]
  exact ⟨rfl, rfl⟩

/-- Leaving out what does not fit leaves out nothing that says something. -/
theorem read?_eq_ite : (if v.fits tag a then v.read? tag a else none) = v.read? tag a := by
  unfold fits read?
  cases v.roleOf tag a.1 with
  | none => rfl
  | some role => cases hvalue : role.form.read? a.2 <;> simp [hvalue]

/-- What fits is not reported. -/
theorem unread?_eq_ite : (if v.fits tag a then v.unread? tag a else none) = none := by
  unfold fits unread?
  cases v.roleOf tag a.1 with
  | none => rfl
  | some role => cases hvalue : role.form.read? a.2 <;> simp [hvalue]

/-- An attribute is reported by its name and text, exactly if it misfits. -/
theorem map_unread? : ((v.unread? tag a).map fun u => (u.name, u.raw)) =
    if v.misfits tag a then some a else none := by
  unfold unread? misfits
  cases v.roleOf tag a.1 with
  | none => rfl
  | some role => cases hvalue : role.form.read? a.2 <;> simp [hvalue]

/-- An attribute is reported in the role that it has. -/
theorem role_of_unread? {u : UnreadAttr} (h : v.unread? tag a = some u) :
    v.roleOf tag u.name = some u.role := by
  obtain ⟨role, hrole, hreport⟩ := Option.bind_eq_some_iff.mp h
  split at hreport
  · cases hreport
    exact hrole
  · cases hreport

end Vocabulary

/-! ### The attributes of a tag -/

section

variable {v : Vocabulary} {tag : String} {kind : EventKind}

/-- Attributes say what each of them says, in document order, and each that misfits is reported. By
induction on the attributes. -/
theorem readAttributes_eq {meaning : TagMeaning} (hmeaning : v.tags.get? tag = some meaning)
    (attributes : List (String × String)) :
    readAttributes meaning.attributes attributes =
      (attributes.filterMap (v.read? tag), attributes.filterMap (v.unread? tag)) := by
  induction attributes with
  | nil => rfl
  | cons a rest ih =>
    have hrole : v.roleOf tag a.1 = meaning.attributes.get? a.1 := by
      unfold Vocabulary.roleOf
      rw [hmeaning, Option.bind_some]
    rw [readAttributes, ih, ← hrole]
    cases hrole' : v.roleOf tag a.1 with
    | none =>
      obtain ⟨hread, hunread⟩ := Vocabulary.read?_of_unknown hrole'
      rw [List.filterMap_cons_none hread, List.filterMap_cons_none hunread]
    | some role =>
      simp only
      cases hvalue : role.form.read? a.2 with
      | none =>
        obtain ⟨hread, hunread⟩ := Vocabulary.read?_of_misfits hrole' hvalue
        rw [List.filterMap_cons_none hread, List.filterMap_cons_some hunread]
      | some value =>
        obtain ⟨hread, hunread⟩ := Vocabulary.read?_of_fits hrole' hvalue
        rw [List.filterMap_cons_some hread, List.filterMap_cons_none hunread]

/-- The event of a tag that the vocabulary knows, and the report on its attributes. -/
theorem ofTag_eq (hkind : v.kindOf tag = some kind) (attributes : List (String × String)) :
    Event.ofTag v tag attributes =
      (.ofValues kind (attributes.filterMap (v.read? tag)),
        attributes.filterMap (v.unread? tag)) := by
  obtain ⟨meaning, hmeaning, rfl⟩ := Option.map_eq_some_iff.mp hkind
  unfold Event.ofTag
  rw [hmeaning]
  simp only [readAttributes_eq hmeaning]

/-- Without the attributes that do not fit, a tag has the same event and nothing to report. -/
theorem ofTag_filter (hkind : v.kindOf tag = some kind) (attributes : List (String × String)) :
    Event.ofTag v tag (attributes.filter (v.fits tag)) =
      ((Event.ofTag v tag attributes).1, []) := by
  rw [ofTag_eq hkind, ofTag_eq hkind, List.filterMap_filter, List.filterMap_filter]
  simp only [Vocabulary.read?_eq_ite, Vocabulary.unread?_eq_ite, List.filterMap_none]

/-- The report on the attributes of a tag names those that misfit, in document order. -/
theorem report_ofTag (hkind : v.kindOf tag = some kind) (attributes : List (String × String)) :
    ((Event.ofTag v tag attributes).2.map fun u => (u.name, u.raw)) =
      attributes.filter (v.misfits tag) := by
  rw [ofTag_eq hkind, List.map_filterMap]
  simp only [Vocabulary.map_unread?]
  exact congrFun List.filterMap_eq_filter attributes

/-- The value of a role is that of the first attribute in the role whose text fits. By induction on
the attributes. -/
theorem first?_filterMap_read? (role : Role) (attributes : List (String × String)) :
    AttrValues.first? (attributes.filterMap (v.read? tag)) role =
      (attributes.filter fun a => v.roleOf tag a.1 = some role).findSome?
        fun a => role.form.read? a.2 := by
  induction attributes with
  | nil => rfl
  | cons a rest ih =>
    rw [List.filter_cons]
    cases hrole : v.roleOf tag a.1 with
    | none =>
      rw [List.filterMap_cons_none (Vocabulary.read?_of_unknown hrole).1, ih]
      rfl
    | some other =>
      cases hvalue : other.form.read? a.2 with
      | none =>
        rw [List.filterMap_cons_none (Vocabulary.read?_of_misfits hrole hvalue).1, ih]
        by_cases hsame : other = role
        · subst hsame
          simp [hvalue]
        · simp [hsame]
      | some value =>
        rw [List.filterMap_cons_some (Vocabulary.read?_of_fits hrole hvalue).1]
        by_cases hsame : other = role
        · subst hsame
          simp [AttrValues.first?, hvalue]
        · have hother : (role == other) = false := by simpa using Ne.symm hsame
          simpa [AttrValues.first?, List.lookup_cons, hsame, hother] using ih

end

/-- Only attributes that fit count. Let a tag be known to the vocabulary, with any attributes: some
of them not mapped, some with texts that do not fit, several with one name or in one role. Then
without those that are not mapped or do not fit it is decoded to the same, but for the report; the
report names exactly those that are mapped and do not fit, one by one and in document order, each
with its role. The event is that of values of which each is the first that can be read in its
role. -/
theorem decode_reads_fitting_attributes {v : Vocabulary} {f : Fragment} {tag : String}
    {attributes : List (String × String)} {kind : EventKind}
    (hcontent : f.content = .opening tag attributes ∨ f.content = .empty tag attributes)
    (hkind : v.kindOf tag = some kind) :
    decode v (f.withAttributes (attributes.filter (v.fits tag))) =
        { decode v f with unread := [] } ∧
      ((decode v f).unread.map fun u => (u.name, u.raw)) = attributes.filter (v.misfits tag) ∧
      (∀ u ∈ (decode v f).unread, v.roleOf tag u.name = some u.role) ∧
      ∃ values, (decode v f).event = .ofValues kind values ∧
        ∀ role, values.first? role =
          (attributes.filter fun a => v.roleOf tag a.1 = some role).findSome?
            fun a => role.form.read? a.2 := by
  obtain ⟨content, depth, parent, position⟩ := f
  have hevent : (decode v ⟨content, depth, parent, position⟩).event =
      (Event.ofTag v tag attributes).1 := by
    rcases hcontent with rfl | rfl <;> rfl
  have hunread : (decode v ⟨content, depth, parent, position⟩).unread =
      (Event.ofTag v tag attributes).2 := by
    rcases hcontent with rfl | rfl <;> rfl
  refine ⟨?_, ?_, ?_, attributes.filterMap (v.read? tag), ?_, fun role => ?_⟩
  · have hkept := ofTag_filter hkind attributes
    rcases hcontent with rfl | rfl <;>
      simp only [Fragment.withAttributes, decode, hkept, Fragment.name]
  · rw [hunread, report_ofTag hkind]
  · rw [hunread, ofTag_eq hkind]
    intro u hu
    obtain ⟨a, _, ha⟩ := List.mem_filterMap.mp hu
    exact Vocabulary.role_of_unread? ha
  · rw [hevent, ofTag_eq hkind]
  · exact first?_filterMap_read? role attributes

/-- A vocabulary that gives two attributes of a tag the same role. -/
def twiceNumbered : Vocabulary where
  version := "twice"
  tags := .ofList [("task",
    ⟨.taskStart, .ofList [("compile_id", .compileId), ("id", .compileId), ("level", .level)]⟩)]

/-- A number that cannot be read does not hide the one behind it under another name, and a level
that cannot be read does not hide the one behind it under the same name. -/
theorem decode_reads_fitting_attributes_secondFits :
    let attributes :=
      [("id", "seven"), ("shiny", "yes"), ("compile_id", "9"), ("level", "high"), ("level", "4")]
    let f : Fragment := ⟨.opening "task" attributes, 1, some "log", 60⟩
    f.content = .opening "task" attributes ∧ twiceNumbered.kindOf "task" = some .taskStart ∧
      decode twiceNumbered (f.withAttributes [("compile_id", "9"), ("level", "4")]) =
        { decode twiceNumbered f with unread := [] } ∧
      ((decode twiceNumbered f).unread.map fun u => (u.name, u.raw)) =
        [("id", "seven"), ("level", "high")] ∧
      ∃ values, (decode twiceNumbered f).event = .ofValues .taskStart values ∧
        values.first? .compileId = some (.integer 9) ∧
        values.first? .level = some (.integer 4) := by
  intro attributes f
  have hkind : twiceNumbered.kindOf "task" = some .taskStart := by decide
  obtain ⟨hkept, hreport, _, values, hevent, hfirst⟩ :=
    decode_reads_fitting_attributes (f := f) (.inl rfl) hkind
  have hfits : attributes.filter (twiceNumbered.fits "task") =
      [("compile_id", "9"), ("level", "4")] := by decide
  have hmisfits : attributes.filter (twiceNumbered.misfits "task") =
      [("id", "seven"), ("level", "high")] := by decide
  rw [hfits] at hkept
  rw [hmisfits] at hreport
  refine ⟨rfl, hkind, hkept, hreport, values, hevent, ?_, ?_⟩
  · rw [hfirst]
    decide
  · rw [hfirst]
    decide

end CompileLog
