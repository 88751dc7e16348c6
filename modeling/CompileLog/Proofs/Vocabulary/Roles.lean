import CompileLog.Proofs.Vocabulary.Overlay
import Mathlib.Data.List.Induction

/-!
# Roles that are read

Every attribute that the built-in vocabulary maps has a role that the kind of its tag is read for.
Overlays keep it so for what they map themselves, but not for all that they find: an overlay that
gives a tag another kind leaves the attributes that it does not name in the roles that they had.
-/

namespace CompileLog

namespace Vocabulary

/-- Every entry of the built-in vocabulary gives its attributes roles that its kind is read for. -/
theorem roles_builtinTags :
    ∀ t ∈ builtinTags, ∀ a ∈ t.2.2, a.2 ∈ t.2.1.roles := by
  decide

/-- The built-in vocabulary reads the role of every attribute that it maps. -/
theorem role_read_builtin {tag attr : String} {kind : EventKind} {role : Role}
    (hkind : builtin.kindOf tag = some kind) (hrole : builtin.roleOf tag attr = some role) :
    role ∈ kind.roles := by
  obtain ⟨meaning, hmeaning, hattr⟩ := Option.bind_eq_some_iff.mp hrole
  rw [kindOf, hmeaning, Option.map_some] at hkind
  obtain ⟨⟨t, k, attributes⟩, hmem, hentry⟩ :=
    List.mem_map.mp (KeyMap.mem_of_get?_ofList hmeaning)
  cases hentry
  cases hkind
  exact roles_builtinTags _ hmem _ (KeyMap.mem_of_get?_ofList hattr)

/-- The last of several overlays is laid over what those in front of it give. -/
theorem exists_foldlM_overlay {base w : Vocabulary} {before : List Overlay} {o : Overlay}
    (h : (before ++ [o]).foldlM overlay base = .ok w) :
    ∃ v, before.foldlM overlay base = .ok v ∧ v.overlay o = .ok w := by
  rw [List.foldlM_append] at h
  cases hbefore : before.foldlM overlay base with
  | error e =>
    rw [hbefore] at h
    cases h
  | ok v =>
    have hlast : [o].foldlM overlay v = .ok w := by
      rw [hbefore] at h
      exact h
    simp only [List.foldlM_cons, List.foldlM_nil, bind_pure] at hlast
    exact ⟨v, rfl, hlast⟩

end Vocabulary

/-- Where roles come from that are not read. Let overlays be laid one after the other over the
built-in vocabulary, and all of them be taken. Then every attribute of every tag has a role that the
tag's kind is read for, unless one of the overlays has given the tag this kind, which it did not
have, and has passed over the attribute, which had this role. -/
theorem role_read_unless_kind_changed {os : List Overlay} {w : Vocabulary}
    (hlaid : os.foldlM Vocabulary.overlay .builtin = .ok w) {tag attr : String} {kind : EventKind}
    {role : Role} (hkind : w.kindOf tag = some kind) (hrole : w.roleOf tag attr = some role) :
    role ∈ kind.roles ∨
      ∃ before o after v, os = before ++ o :: after ∧
        before.foldlM Vocabulary.overlay .builtin = .ok v ∧
        v.kindOf tag ≠ some kind ∧ o.kindOf tag = some kind ∧
        v.roleOf tag attr = some role ∧ o.roleOf tag attr = none := by
  induction os using List.reverseRecOn generalizing w with
  | nil =>
    cases hlaid
    exact .inl (Vocabulary.role_read_builtin hkind hrole)
  | append_singleton before o ih =>
    obtain ⟨v, hbefore, ho⟩ := Vocabulary.exists_foldlM_overlay hlaid
    have hover := Vocabulary.laidOver_of_overlay ho
    cases hmapped : o.roleOf tag attr with
    | some mapped =>
      -- What the overlay maps itself was checked against the kind that the tag has now.
      obtain ⟨kind', hkind', hread⟩ := hover.read tag attr mapped hmapped
      rw [hover.roleOf, hmapped] at hrole
      cases hrole
      cases hkind.symm.trans hkind'
      exact .inl hread
    | none =>
      rw [hover.roleOf, hmapped, Option.none_or] at hrole
      by_cases hsame : v.kindOf tag = some kind
      · rcases ih hbefore hsame hrole with hread | ⟨before', o', after, u, rfl, hrest⟩
        · exact .inl hread
        · exact .inr ⟨before', o', after ++ [o], u, by simp, hrest⟩
      · have hgiven : o.kindOf tag = some kind := by
          rw [hover.kindOf] at hkind
          exact (Option.or_eq_some_iff.mp hkind).resolve_right fun h => hsame h.2
        exact .inr ⟨before, o, [], v, rfl, hbefore, hsame, hgiven, hrole, hmapped⟩

/-- An overlay that brings a tag for compilations that begin. -/
def startTag : Overlay where
  version := none
  tags := .ofList [("compile_task",
    ⟨some .taskStart, .ofList [("id", .compileId), ("passes", .count)]⟩)]

/-- An overlay that gives that tag the kind of installed code, and maps one more attribute. -/
def startTagInstalls : Overlay where
  version := none
  tags := .ofList [("compile_task", ⟨some .nmethod, .ofList [("bytes", .size)]⟩)]

/-- The second overlay leaves a count on a tag of installed code, which is not read for one. -/
theorem role_read_unless_kind_changed_twice :
    ∃ w, [startTag, startTagInstalls].foldlM Vocabulary.overlay .builtin = .ok w ∧
      w.kindOf "compile_task" = some .nmethod ∧ w.roleOf "compile_task" "passes" = some .count ∧
      ∃ before o after v, [startTag, startTagInstalls] = before ++ o :: after ∧
        before.foldlM Vocabulary.overlay .builtin = .ok v ∧
        v.kindOf "compile_task" ≠ some .nmethod ∧ o.kindOf "compile_task" = some .nmethod ∧
        v.roleOf "compile_task" "passes" = some .count ∧
        o.roleOf "compile_task" "passes" = none := by
  obtain ⟨v, hv⟩ : ∃ v, Vocabulary.builtin.overlay startTag = .ok v := ⟨_, rfl⟩
  obtain ⟨w, hw⟩ : ∃ w, v.overlay startTagInstalls = .ok w := ⟨_, rfl⟩
  have hlaid : [startTag, startTagInstalls].foldlM Vocabulary.overlay .builtin = .ok w := by
    simp only [List.foldlM_cons, List.foldlM_nil, bind_pure, hv]
    exact hw
  have hfirst := Vocabulary.laidOver_of_overlay hv
  have hsecond := Vocabulary.laidOver_of_overlay hw
  have hkind : w.kindOf "compile_task" = some .nmethod := by
    rw [hsecond.kindOf, show startTagInstalls.kindOf "compile_task" = some .nmethod by decide]
    rfl
  have hrole : w.roleOf "compile_task" "passes" = some .count := by
    rw [hsecond.roleOf, hfirst.roleOf,
      show startTagInstalls.roleOf "compile_task" "passes" = none by decide,
      show startTag.roleOf "compile_task" "passes" = some .count by decide]
    rfl
  have hcause := role_read_unless_kind_changed hlaid hkind hrole
  exact ⟨w, hlaid, hkind, hrole, hcause.resolve_left (by decide)⟩

/-- An overlay that has removed allocations frame others only, and maps nothing. -/
def removalsFrame : Overlay where
  version := none
  tags := .ofList [("eliminate_allocation", ⟨some .structural, ∅⟩)]

/-- The overlay is taken, and the class stays mapped on a tag whose kind is read for nothing. -/
theorem role_left_after_kind_changed :
    ∃ w, Vocabulary.builtin.overlay removalsFrame = .ok w ∧
      w.kindOf "eliminate_allocation" = some .structural ∧
      w.roleOf "eliminate_allocation" "type" = some .klassRef ∧
      Role.klassRef ∉ EventKind.structural.roles := by
  obtain ⟨w, hw⟩ : ∃ w, Vocabulary.builtin.overlay removalsFrame = .ok w := ⟨_, rfl⟩
  have hover := Vocabulary.laidOver_of_overlay hw
  refine ⟨w, hw, ?_, ?_, by decide⟩
  · rw [hover.kindOf,
      show removalsFrame.kindOf "eliminate_allocation" = some .structural by decide]
    rfl
  · rw [hover.roleOf, show removalsFrame.roleOf "eliminate_allocation" "type" = none by decide]
    decide

/-- An overlay that names the attribute as well is refused for it. -/
example : Vocabulary.builtin.overlay ⟨none, .ofList
    [("eliminate_allocation", ⟨some .structural, .ofList [("type", .klassRef)]⟩)]⟩ =
      .error (.roleNotUsed "eliminate_allocation" "type" .klassRef .structural) := by
  rfl

end CompileLog
