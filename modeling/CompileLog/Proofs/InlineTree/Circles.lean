import CompileLog.Proofs.InlineTree.Links
import Mathlib.Logic.Relation

/-!
# Links that run in a circle

Where no call site that is reached leads back to itself, a walk ends: on the way down no position
comes again, so the way is no longer than there are call sites. It may still visit a call site
several times that is named at several places. Where one does, and all links lead to call sites, the
walk never ends, as nothing tells it that it has been there.
-/

namespace CompileLog.InlineTree

variable {t : InlineTree} {i c : Nat} {waiting visited : List Nat}

/-! ### Where there is no circle -/

/-- A position is named by a call site, or by one that it leads to. -/
def LeadsTo (t : InlineTree) : Nat → Nat → Prop :=
  Relation.TransGen fun i c => c ∈ t.linksAt (some i)

/-- A call site that is reached leads back to itself. -/
def Circular (t : InlineTree) : Prop := ∃ i, t.Reached (some i) ∧ t.LeadsTo i i

/-- A walk over some positions, and then over the rest, ends if it ends over the rest, and from each
of these positions on if it ends over what waits behind it. By induction on the positions. -/
theorem exists_visits_append {ahead : List Nat}
    (hahead : ∀ c ∈ ahead, ∀ waiting, (∃ visited, t.Visits waiting visited) →
      ∃ visited, t.Visits (c :: waiting) visited)
    (h : ∃ visited, t.Visits waiting visited) : ∃ visited, t.Visits (ahead ++ waiting) visited := by
  induction ahead with
  | nil => exact h
  | cons c ahead ih =>
    obtain ⟨hfirst, hrest⟩ := List.forall_mem_cons.mp hahead
    exact hfirst _ (ih hrest)

/-- Where the links run in no circle, a walk from a position on ends: the call sites on the way to it
are different ones, and it is none of them. By induction on how many others there are. -/
theorem exists_visits_of_path (hcircle : ¬ t.Circular) {path : List Nat} (hnodup : path.Nodup)
    (hpath : ∀ p ∈ path, t.LeadsTo p i) (hi : t.Reached (some i)) (waiting : List Nat)
    (h : ∃ visited, t.Visits waiting visited) : ∃ visited, t.Visits (i :: waiting) visited := by
  induction hleft : t.nodes.size - path.length using Nat.strongRecOn
    generalizing path i waiting with
  | ind left ih =>
    cases hn : t.node? i with
    | none => exact ⟨[], .missing hn⟩
    | some n =>
      have hsize := lt_size_of_node? hn
      have hnew : i ∉ path := fun hmem => hcircle ⟨i, hi, hpath i hmem⟩
      have hlonger : (i :: path).Nodup := List.nodup_cons.mpr ⟨hnew, hnodup⟩
      have hinside : ∀ p ∈ i :: path, p < t.nodes.size := by
        refine List.forall_mem_cons.mpr ⟨hsize, fun p hp => ?_⟩
        obtain ⟨c, hc, _⟩ := Relation.TransGen.head'_iff.mp (hpath p hp)
        exact lt_size_of_mem_linksAt hc
      have hlength := length_le_of_nodup hlonger hinside
      rw [List.length_cons] at hlength
      suffices hchildren : ∃ visited, t.Visits (n.children ++ waiting) visited by
        obtain ⟨visited, hvisited⟩ := hchildren
        exact ⟨i :: visited, .visit hn hvisited⟩
      refine exists_visits_append (fun c hc waiting hwaiting => ?_) h
      have hlink : c ∈ t.linksAt (some i) := linksAt_of_node? hn ▸ hc
      refine ih (t.nodes.size - (i :: path).length) (by rw [List.length_cons]; omega) hlonger ?_
        (.link hi hlink) waiting hwaiting rfl
      exact List.forall_mem_cons.mpr ⟨.single hlink, fun p hp => (hpath p hp).tail hlink⟩

/-- Where the links run in no circle, the walk ends. -/
theorem ends_of_not_circular (h : ¬ t.Circular) : t.Ends := by
  have heach : ∀ c ∈ t.topLevel, ∀ waiting, (∃ visited, t.Visits waiting visited) →
      ∃ visited, t.Visits (c :: waiting) visited := fun c hc =>
    exists_visits_of_path h List.nodup_nil (by simp) (reached_topLevel hc)
  obtain ⟨visited, hvisited⟩ := exists_visits_append heach ⟨[], .done⟩
  rw [List.append_nil] at hvisited
  exact hvisited.ends

/-! ### Where there is one -/

/-- From a position that is reached a walk visits more than from each one that is named there, where
all links lead to call sites. -/
theorem Visits.exists_shorter (h : t.Visits [i] visited) (hinside : t.LeadsInside)
    (hi : t.Reached (some i)) (hc : c ∈ t.linksAt (some i)) :
    ∃ part, t.Visits [c] part ∧ part.length < visited.length := by
  cases h with
  | missing hnone => simp [linksAt, hnone] at hc
  | @visit _ n _ rest hn hrest =>
    have hnext := reached_children_append hn (List.forall_mem_singleton.mpr hi)
    rw [linksAt_of_node? hn] at hc
    have hvisited : c ∈ rest := (hrest.perm hinside hnext).mem_iff.mpr (by simp [hc])
    obtain ⟨part, hpart, hwithin⟩ := hrest.exists_part hvisited
    exact ⟨part, hpart, Nat.lt_succ_of_le hwithin.length_le⟩

/-- So it does than from each position that it leads to. By induction on the links on the way. -/
theorem Visits.exists_shorter_of_leadsTo (h : t.Visits [i] visited) (hinside : t.LeadsInside)
    (hi : t.Reached (some i)) (hc : t.LeadsTo i c) :
    ∃ part, t.Reached (some c) ∧ t.Visits [c] part ∧ part.length < visited.length := by
  induction hc with
  | single hlink =>
    obtain ⟨part, hpart, hlt⟩ := h.exists_shorter hinside hi hlink
    exact ⟨part, .link hi hlink, hpart, hlt⟩
  | tail _ hlink ih =>
    obtain ⟨between, hreached, hbetween, hlt⟩ := ih
    obtain ⟨part, hpart, hlt'⟩ := hbetween.exists_shorter hinside hreached hlink
    exact ⟨part, .link hreached hlink, hpart, Nat.lt_trans hlt' hlt⟩

/-- Where all links lead to call sites, a walk that ends has met no circle: from a position that
leads back to itself it would visit more than it does. -/
theorem Ends.not_circular (h : t.Ends) (hinside : t.LeadsInside) : ¬ t.Circular := by
  obtain ⟨visited, hvisits, _⟩ := h
  rintro ⟨i, hi, hself⟩
  obtain ⟨part, hpart, _⟩ := hvisits.exists_part (hvisits.mem_of_reached hinside hi i rfl)
  obtain ⟨again, _, hagain, hlt⟩ := hpart.exists_shorter_of_leadsTo hinside hi hself
  obtain rfl := hagain.unique hpart
  exact Nat.lt_irrefl _ hlt

end CompileLog.InlineTree
