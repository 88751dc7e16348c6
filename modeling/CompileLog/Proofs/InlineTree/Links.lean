import CompileLog.Proofs.InlineTree
import Mathlib.Algebra.Order.BigOperators.Group.Finset
import Mathlib.Data.List.Flatten
import Mathlib.Data.List.Nodup
import Mathlib.Data.List.Pairwise
import Mathlib.Data.List.Perm.Subperm
import Mathlib.Tactic.Tauto

/-!
# Walks along any links

The links of a tree that call sites were added to are those of a forest. Other trees have any links:
these may name a call site twice, run in a circle, or lead out of the tree. A walk takes no note of
where it has been, so whether it ends lies with the links that it comes to. If it does, it needs no
more room than it is given. It ends, with no call site visited twice, if none of them are to one
position; and where they all lead to call sites, only then.
-/

namespace CompileLog.InlineTree

open scoped List

variable {t : InlineTree} {i c : Nat} {n : InlineNode} {waiting visited : List Nat}

/-! ### What a walk visits -/

/-- A walk over the positions that are still to visit ends, with call sites visited at some
positions. A position that is not in the tree ends it. -/
inductive Visits (t : InlineTree) : List Nat → List Nat → Prop where
  /-- Nothing is left. -/
  | done : Visits t [] []
  /-- The next position is not in the tree. -/
  | missing {i : Nat} {waiting : List Nat} (h : t.node? i = none) : Visits t (i :: waiting) []
  /-- The next position is visited, then what it names, then what was left. -/
  | visit {i : Nat} {n : InlineNode} {waiting visited : List Nat} (hn : t.node? i = some n)
      (h : Visits t (n.children ++ waiting) visited) : Visits t (i :: waiting) (i :: visited)

/-- A walk visits one list of positions. By induction on the walk. -/
theorem Visits.unique {other : List Nat} (h : t.Visits waiting visited)
    (h' : t.Visits waiting other) : visited = other := by
  induction h generalizing other with
  | done =>
    cases h'
    rfl
  | missing hnone =>
    cases h' with
    | missing => rfl
    | visit hn => exact absurd (hnone.symm.trans hn) (by simp)
  | visit hn _ ih =>
    cases h' with
    | missing hnone => exact absurd (hnone.symm.trans hn) (by simp)
    | visit hn' hrest =>
      obtain rfl := Option.some.inj (hn.symm.trans hn')
      rw [ih hrest]

/-- The call sites at the positions visited are what the walk gives, if it has room enough. By
induction on the walk. -/
theorem Visits.walkFrom_eq (h : t.Visits waiting visited) (room : Nat) (before : List InlineNode)
    (hroom : visited.length ≤ room) :
    t.walkFrom room waiting before = before.reverse ++ visited.filterMap t.node? := by
  induction h generalizing room before with
  | done => cases room <;> simp [walkFrom]
  | missing hnone => cases room <;> simp [walkFrom, hnone]
  | @visit i n waiting visited hn _ ih =>
    rw [List.length_cons] at hroom
    obtain ⟨left, rfl⟩ := Nat.exists_eq_succ_of_ne_zero (Nat.ne_zero_of_lt hroom)
    rw [walkFrom, hn]
    simp only
    rw [ih left _ (Nat.le_of_succ_le_succ hroom), List.filterMap_cons, hn]
    simp

/-- There is a call site at each of them. By induction on the walk. -/
theorem Visits.map_node? (h : t.Visits waiting visited) :
    (visited.filterMap t.node?).map some = visited.map t.node? := by
  induction h with
  | done => rfl
  | missing => rfl
  | visit hn _ ih => rw [List.filterMap_cons, hn, List.map_cons, ih, List.map_cons, hn]

/-- A walk that does not end takes all the room that it is given. By induction on the room. -/
theorem length_walkFrom_of_endless (h : ∀ visited, ¬ t.Visits waiting visited) (room : Nat)
    (before : List InlineNode) :
    (t.walkFrom room waiting before).length = before.length + room := by
  induction room generalizing waiting before with
  | zero => simp [walkFrom]
  | succ room ih =>
    cases waiting with
    | nil => exact absurd .done (h [])
    | cons i waiting =>
      cases hn : t.node? i with
      | none => exact absurd (.missing hn) (h [])
      | some n =>
        rw [walkFrom, hn]
        simp only
        rw [ih fun visited hvisited => h _ (.visit hn hvisited), List.length_cons]
        omega

/-- The walk over a tree ends, and given room for what it visits it gives the call sites there. -/
def Ends (t : InlineTree) : Prop :=
  ∃ visited, t.Visits t.topLevel visited ∧ ∀ room, visited.length ≤ room →
    (t.walkFrom room t.topLevel []).map some = visited.map t.node?

/-- It ends if there is an end to what is visited. -/
theorem Visits.ends (h : t.Visits t.topLevel visited) : t.Ends := by
  refine ⟨visited, h, fun room hroom => ?_⟩
  rw [h.walkFrom_eq room [] hroom]
  exact h.map_node?

/-- The walk over a tree ends, and visits no call site twice. -/
def WalksOnce (t : InlineTree) : Prop :=
  ∃ visited, t.Visits t.topLevel visited ∧ visited.Nodup ∧
    t.preorder.map some = visited.map t.node?

/-- A walk that visits no call site twice ends. -/
theorem WalksOnce.ends (h : t.WalksOnce) : t.Ends := by
  obtain ⟨visited, hvisits, _⟩ := h
  exact hvisits.ends

/-! ### The links that a walk comes to -/

/-- The positions that are named at a place: by the tree itself or by a call site. -/
def linksAt (t : InlineTree) : Option Nat → List Nat
  | none => t.topLevel
  | some i => ((t.node? i).map InlineNode.children).getD []

/-- The places that can be reached along the links. -/
inductive Reached (t : InlineTree) : Option Nat → Prop where
  /-- The tree itself. -/
  | root : Reached t none
  /-- What is named at a place that is reached. -/
  | link {place : Option Nat} {c : Nat} (h : Reached t place) (hc : c ∈ t.linksAt place) :
      Reached t (some c)

/-- No position is named twice by what is reached. -/
structure NamedOnce (t : InlineTree) : Prop where
  /-- Not twice at one place. -/
  nodup : ∀ place, t.Reached place → (t.linksAt place).Nodup
  /-- Not at two places. -/
  unique : ∀ p q c, t.Reached p → t.Reached q → c ∈ t.linksAt p → c ∈ t.linksAt q → p = q

/-- There is a call site wherever a link leads that is reached. -/
def LeadsInside (t : InlineTree) : Prop := ∀ i, t.Reached (some i) → i < t.nodes.size

/-- A call site names its children. -/
theorem linksAt_of_node? (hn : t.node? i = some n) : t.linksAt (some i) = n.children := by
  rw [linksAt, hn]
  rfl

/-- A call site that leads somewhere is there. -/
theorem lt_size_of_mem_linksAt (h : c ∈ t.linksAt (some i)) : i < t.nodes.size := by
  cases hn : t.node? i with
  | none => simp [linksAt, hn] at h
  | some n => exact lt_size_of_node? hn

/-- What is reached is named by the tree itself or by a call site. -/
theorem named_of_reached (h : t.Reached (some i)) :
    i ∈ t.topLevel ∨ ∃ n ∈ t.nodes, i ∈ n.children := by
  cases h with
  | @link place _ _ hi =>
    cases place with
    | none => exact .inl hi
    | some p =>
      cases hn : t.node? p with
      | none => simp [linksAt, hn] at hi
      | some n =>
        rw [linksAt_of_node? hn] at hi
        exact .inr ⟨n, Array.mem_of_getElem? hn, hi⟩

/-- There is a call site at each position that is reached, if all links lead to some. -/
theorem LeadsInside.node?_ne_none (h : t.LeadsInside) (hi : t.Reached (some i)) :
    t.node? i ≠ none := by
  have hlt := h i hi
  simp [node?, hlt]

/-- A walk goes on with what is reached. -/
theorem reached_children_append (hn : t.node? i = some n)
    (h : ∀ c ∈ i :: waiting, t.Reached (some c)) :
    ∀ c ∈ n.children ++ waiting, t.Reached (some c) := by
  obtain ⟨hfirst, hlater⟩ := List.forall_mem_cons.mp h
  intro c hc
  rcases List.mem_append.mp hc with hchild | hold
  · exact .link hfirst (linksAt_of_node? hn ▸ hchild)
  · exact hlater c hold

/-- What is visited is reached, if what is still to visit is. By induction on the walk. -/
theorem Visits.reached (h : t.Visits waiting visited)
    (hwaiting : ∀ i ∈ waiting, t.Reached (some i)) : ∀ i ∈ visited, t.Reached (some i) := by
  induction h with
  | done => exact hwaiting
  | missing =>
    intro i hi
    cases hi
  | visit hn _ ih =>
    exact List.forall_mem_cons.mpr ⟨hwaiting _ List.mem_cons_self,
      ih (reached_children_append hn hwaiting)⟩

/-- What the tree itself names is reached. -/
theorem reached_topLevel (hi : i ∈ t.topLevel) : t.Reached (some i) := .link .root hi

/-! ### How much a walk visits -/

/-- A walk over some positions and then over others visits what it visits over the first alone, and
then, unless one of these is not in the tree, what it visits over the others. By induction on the
walk. -/
theorem Visits.exists_append {ahead behind : List Nat} (h : t.Visits (ahead ++ behind) visited) :
    ∃ first later, visited = first ++ later ∧ t.Visits ahead first ∧
      (later = [] ∨ t.Visits behind later) := by
  generalize hwaiting : ahead ++ behind = waiting at h
  induction h generalizing ahead with
  | done =>
    obtain ⟨rfl, rfl⟩ := List.append_eq_nil_iff.mp hwaiting
    exact ⟨[], [], rfl, .done, .inl rfl⟩
  | missing hnone =>
    cases ahead with
    | nil => exact ⟨[], [], rfl, .done, .inl rfl⟩
    | cons a ahead =>
      obtain ⟨rfl, _⟩ := List.cons.inj hwaiting
      exact ⟨[], [], rfl, .missing hnone, .inl rfl⟩
  | visit hn hrest ih =>
    cases ahead with
    | nil =>
      obtain rfl := hwaiting
      exact ⟨[], _, rfl, .done, .inr (.visit hn hrest)⟩
    | cons a ahead =>
      obtain ⟨rfl, rfl⟩ := List.cons.inj hwaiting
      obtain ⟨first, later, rfl, hfirst, hlater⟩ := ih (List.append_assoc ..)
      exact ⟨a :: first, later, rfl, .visit hn hfirst, hlater⟩

/-- What a walk visits from a position that it comes to is a part of what it visits. By induction on
the walk. -/
theorem Visits.exists_part (h : t.Visits waiting visited) (hi : i ∈ visited) :
    ∃ part, t.Visits [i] part ∧ part <:+: visited := by
  induction h with
  | done => cases hi
  | missing => cases hi
  | @visit j _ waiting _ hn hrest ih =>
    rcases List.mem_cons.mp hi with rfl | hlater
    · have hwalk : t.Visits ([i] ++ waiting) _ := .visit hn hrest
      obtain ⟨first, later, heq, hfirst, _⟩ := hwalk.exists_append
      exact ⟨first, hfirst, heq ▸ (List.prefix_append first later).isInfix⟩
    · obtain ⟨part, hpart, hwithin⟩ := ih hlater
      exact ⟨part, hpart, hwithin.trans (List.suffix_cons ..).isInfix⟩

/-- A walk that ends does not come back to the position that it starts from: it would visit the same
again, and so more than it visits. -/
theorem Visits.notMem_of_cons (h : t.Visits [i] (i :: visited)) : i ∉ visited := by
  intro hi
  cases h with
  | visit hn hrest =>
    obtain ⟨part, hpart, hwithin⟩ := hrest.exists_part hi
    obtain rfl := hpart.unique (.visit hn hrest)
    have hlength := hwithin.length_le
    rw [List.length_cons] at hlength
    omega

/-- A walk visits no more than so many times what it visits at most from one position. By induction
on the positions. -/
theorem Visits.length_le_mul (h : t.Visits waiting visited) {bound : Nat}
    (hbound : ∀ c part, t.Visits [c] part → part <:+: visited → part.length ≤ bound) :
    visited.length ≤ waiting.length * bound := by
  induction waiting generalizing visited with
  | nil =>
    cases h
    exact Nat.zero_le _
  | cons c waiting ih =>
    have hwalk : t.Visits ([c] ++ waiting) visited := h
    obtain ⟨first, later, rfl, hfirst, hlater⟩ := hwalk.exists_append
    have hone := hbound c first hfirst (List.prefix_append first later).isInfix
    have hrest : later.length ≤ waiting.length * bound := by
      rcases hlater with rfl | hlater
      · exact Nat.zero_le _
      · exact ih hlater fun c part hpart hwithin =>
          hbound c part hpart (hwithin.trans (List.suffix_append first later).isInfix)
    rw [List.length_append, List.length_cons, Nat.succ_mul]
    omega

/-- The number of links from some call sites. -/
def linksFrom (t : InlineTree) (positions : List Nat) : Nat :=
  ∑ i ∈ positions.toFinset, (t.linksAt (some i)).length

/-- More call sites have more links. -/
theorem linksFrom_le_of_subset {positions more : List Nat} (h : positions ⊆ more) :
    t.linksFrom positions ≤ t.linksFrom more :=
  Finset.sum_le_sum_of_subset fun _ hi => List.mem_toFinset.mpr (h (List.mem_toFinset.mp hi))

/-- A call site that is not among others adds its links to theirs. -/
theorem linksFrom_cons {positions : List Nat} (h : i ∉ positions) :
    t.linksFrom (i :: positions) = (t.linksAt (some i)).length + t.linksFrom positions := by
  unfold linksFrom
  rw [List.toFinset_cons, Finset.sum_insert (by rwa [List.mem_toFinset])]

/-- No call sites have more links than there are. -/
theorem linksFrom_le (t : InlineTree) (positions : List Nat) :
    t.topLevel.length + t.linksFrom positions ≤ t.links.length := by
  have hinside : t.linksFrom positions ≤
      ∑ i ∈ (List.range t.nodes.size).toFinset, (t.linksAt (some i)).length := by
    refine Finset.sum_le_sum_of_ne_zero fun i _ hlinks => ?_
    obtain ⟨c, hc⟩ := List.exists_mem_of_length_pos (Nat.pos_of_ne_zero hlinks)
    exact List.mem_toFinset.mpr (List.mem_range.mpr (lt_size_of_mem_linksAt hc))
  have hall : (List.range t.nodes.size).map (fun i => (t.linksAt (some i)).length) =
      t.nodes.toList.map fun n => n.children.length := by
    refine List.ext_getElem (by simp) fun i hi _ => ?_
    have hsize : i < t.nodes.size := by simpa using hi
    have hn : t.node? i = some t.nodes[i] := Array.getElem?_eq_getElem hsize
    simp [linksAt_of_node? hn]
  rw [List.sum_toFinset _ List.nodup_range, hall] at hinside
  rw [links, List.length_append, List.length_flatMap]
  exact Nat.add_le_add_left hinside _

/-- From one position a walk that ends visits no more than there are sets of links from what it
visits. By induction on how much it visits: it does not come back, so its first call site has links
that the rest of the walk has not. -/
theorem Visits.length_le_two_pow (h : t.Visits [i] visited) :
    visited.length ≤ 2 ^ t.linksFrom visited := by
  induction hlength : visited.length using Nat.strongRecOn generalizing i visited with
  | ind length ih =>
    cases h with
    | missing => exact hlength ▸ Nat.zero_le _
    | @visit _ n _ rest hn hrest =>
      have hnew := (Visits.visit hn hrest).notMem_of_cons
      have hlinks := linksFrom_cons (t := t) hnew
      rw [linksAt_of_node? hn] at hlinks
      rw [List.append_nil] at hrest
      rw [List.length_cons] at hlength
      have hchildren : rest.length ≤ n.children.length * 2 ^ t.linksFrom rest := by
        refine hrest.length_le_mul fun c part hpart hwithin => ?_
        have hshorter := hwithin.length_le
        have hpower : 2 ^ t.linksFrom part ≤ 2 ^ t.linksFrom rest :=
          Nat.pow_le_pow_right Nat.two_pos (linksFrom_le_of_subset hwithin.subset)
        exact (ih part.length (by omega) hpart rfl).trans hpower
      calc length = rest.length + 1 := hlength.symm
        _ ≤ n.children.length * 2 ^ t.linksFrom rest + 2 ^ t.linksFrom rest :=
          Nat.add_le_add hchildren Nat.one_le_two_pow
        _ = (n.children.length + 1) * 2 ^ t.linksFrom rest := (Nat.succ_mul _ _).symm
        _ ≤ 2 ^ n.children.length * 2 ^ t.linksFrom rest :=
          Nat.mul_le_mul_right _ Nat.lt_two_pow_self
        _ = 2 ^ t.linksFrom (i :: rest) := by rw [hlinks, Nat.pow_add]

/-- A walk that ends visits no more than it has room for. -/
theorem Visits.length_le_walkLimit (h : t.Visits t.topLevel visited) :
    visited.length ≤ t.walkLimit := by
  have hfirst : visited.length ≤ t.topLevel.length * 2 ^ t.linksFrom visited := by
    refine h.length_le_mul fun c part hpart hwithin => hpart.length_le_two_pow.trans ?_
    exact Nat.pow_le_pow_right Nat.two_pos (linksFrom_le_of_subset hwithin.subset)
  calc visited.length ≤ t.topLevel.length * 2 ^ t.linksFrom visited := hfirst
    _ ≤ 2 ^ t.topLevel.length * 2 ^ t.linksFrom visited :=
      Nat.mul_le_mul_right _ Nat.lt_two_pow_self.le
    _ = 2 ^ (t.topLevel.length + t.linksFrom visited) := (Nat.pow_add ..).symm
    _ ≤ t.walkLimit := Nat.pow_le_pow_right Nat.two_pos (t.linksFrom_le visited)

/-- So the walk over a tree gives the call sites at all positions that it visits, if it ends. -/
theorem Visits.preorder_eq (h : t.Visits t.topLevel visited) :
    t.preorder = visited.filterMap t.node? :=
  h.walkFrom_eq _ [] h.length_le_walkLimit

/-- The walk over a tree gives the call sites at the positions that are visited where it goes on to
its end, each as often as it is visited. -/
def WalksThrough (t : InlineTree) : Prop :=
  ∃ visited, t.Visits t.topLevel visited ∧ t.preorder.map some = visited.map t.node?

/-- It does, if it ends. -/
theorem Ends.walksThrough (h : t.Ends) : t.WalksThrough := by
  obtain ⟨visited, hvisits, _⟩ := h
  exact ⟨visited, hvisits, hvisits.preorder_eq ▸ hvisits.map_node?⟩

/-! ### Where no position is named twice -/

/-- A walk is on its way: what it has visited and what is still to visit are different positions of
the tree, each named by the tree itself or by what it has visited. -/
structure Underway (t : InlineTree) (visited waiting : List Nat) : Prop where
  nodup : (visited ++ waiting).Nodup
  inside : ∀ i ∈ visited, i < t.nodes.size
  named : ∀ c ∈ visited ++ waiting,
    ∃ place ∈ none :: visited.map some, t.Reached place ∧ c ∈ t.linksAt place

/-- There are no more different positions below a bound than the bound. -/
theorem length_le_of_nodup {positions : List Nat} (hnodup : positions.Nodup) {bound : Nat}
    (hbound : ∀ i ∈ positions, i < bound) : positions.length ≤ bound := by
  have hsub : positions ⊆ List.range bound := fun i hi => List.mem_range.mpr (hbound i hi)
  have hle := (List.subperm_of_subset hnodup hsub).length_le
  rwa [List.length_range] at hle

/-- It has visited no more call sites than there are. -/
theorem Underway.length_le (h : t.Underway visited waiting) : visited.length ≤ t.nodes.size :=
  length_le_of_nodup (List.nodup_append.mp h.nodup).1 h.inside

/-- A walk begins. -/
theorem NamedOnce.underway (h : t.NamedOnce) : t.Underway [] t.topLevel where
  nodup := h.nodup none .root
  inside i hi := by cases hi
  named c hc := ⟨none, List.mem_cons_self, .root, hc⟩

/-- A walk goes on: what the next position names is new, as it would be named at two places. -/
theorem NamedOnce.underway_visit (h : t.NamedOnce) (hway : t.Underway visited (i :: waiting))
    (hn : t.node? i = some n) : t.Underway (visited ++ [i]) (n.children ++ waiting) := by
  have hlinks := linksAt_of_node? hn
  have hreached : t.Reached (some i) := by
    obtain ⟨place, _, hplace, hi⟩ := hway.named i (by simp)
    exact .link hplace hi
  have hnew : ∀ c ∈ n.children, c ∉ visited ++ i :: waiting := by
    intro c hc hold
    obtain ⟨place, hmem, hplace, hnamed⟩ := hway.named c hold
    obtain rfl := h.unique place (some i) c hplace hreached hnamed (hlinks ▸ hc)
    have hvisited : i ∈ visited := by simpa using hmem
    have hapart := (List.nodup_append.mp hway.nodup).2.2
    exact hapart i hvisited i List.mem_cons_self rfl
  refine ⟨?_, ?_, ?_⟩
  · have hperm : (visited ++ [i]) ++ (n.children ++ waiting) ~
        n.children ++ (visited ++ i :: waiting) := by
      simpa using List.perm_append_comm_assoc (visited ++ [i]) n.children waiting
    rw [hperm.nodup_iff, List.nodup_append]
    refine ⟨hlinks ▸ h.nodup (some i) hreached, hway.nodup, ?_⟩
    rintro c hc _ hold rfl
    exact hnew c hc hold
  · intro c hc
    rcases List.mem_append.mp hc with hvisited | hlast
    · exact hway.inside c hvisited
    · obtain rfl := List.mem_singleton.mp hlast
      exact lt_size_of_node? hn
  · intro c hc
    by_cases hchild : c ∈ n.children
    · exact ⟨some i, by simp, hreached, hlinks ▸ hchild⟩
    · have hold : c ∈ visited ++ i :: waiting := by
        simp only [List.mem_append, List.mem_cons] at hc ⊢
        tauto
      obtain ⟨place, hmem, hplace, hnamed⟩ := hway.named c hold
      refine ⟨place, ?_, hplace, hnamed⟩
      simp only [List.map_append, List.mem_cons, List.mem_append] at hmem ⊢
      tauto

/-- It comes to its end. By induction on how many call sites it has not visited. -/
theorem NamedOnce.exists_visits (h : t.NamedOnce) (hway : t.Underway visited waiting) :
    ∃ more, t.Visits waiting more ∧ (visited ++ more).Nodup := by
  induction hleft : t.nodes.size - visited.length using Nat.strongRecOn
    generalizing visited waiting with
  | ind left ih =>
    have hvisited : (visited ++ []).Nodup := by
      rw [List.append_nil]
      exact (List.nodup_append.mp hway.nodup).1
    cases waiting with
    | nil => exact ⟨[], .done, hvisited⟩
    | cons i waiting =>
      cases hn : t.node? i with
      | none => exact ⟨[], .missing hn, hvisited⟩
      | some n =>
        have hnext := h.underway_visit hway hn
        have hlength := hnext.length_le
        rw [List.length_append, List.length_singleton] at hlength
        obtain ⟨more, hmore, hnodup⟩ := ih (t.nodes.size - (visited ++ [i]).length)
          (by rw [List.length_append, List.length_singleton]; omega) hnext rfl
        rw [List.append_assoc, List.singleton_append] at hnodup
        exact ⟨i :: more, .visit hn hmore, hnodup⟩

/-- Where no position is named twice, the walk ends and visits no call site twice. -/
theorem NamedOnce.walksOnce (h : t.NamedOnce) : t.WalksOnce := by
  obtain ⟨visited, hvisits, hnodup⟩ := h.exists_visits h.underway
  rw [List.nil_append] at hnodup
  exact ⟨visited, hvisits, hnodup, hvisits.preorder_eq ▸ hvisits.map_node?⟩

/-! ### Where no call site is visited twice -/

/-- Where all links lead to call sites, a walk visits what was still to visit and what is named by
what it visits, and nothing else. By induction on the walk. -/
theorem Visits.perm (h : t.Visits waiting visited) (hinside : t.LeadsInside)
    (hwaiting : ∀ i ∈ waiting, t.Reached (some i)) :
    visited ~ waiting ++ visited.flatMap fun i => t.linksAt (some i) := by
  induction h with
  | done => rfl
  | missing hnone =>
    exact absurd hnone (hinside.node?_ne_none (hwaiting _ List.mem_cons_self))
  | @visit i n waiting visited hn _ ih =>
    have hnext := reached_children_append hn hwaiting
    rw [List.flatMap_cons, linksAt_of_node? hn, List.cons_append]
    refine ((ih hnext).trans ?_).cons i
    rw [List.append_assoc]
    exact List.perm_append_comm_assoc _ _ _

/-- Where all links lead to call sites, a walk that ends has visited all that is reached. By
induction on how it is reached. -/
theorem Visits.mem_of_reached (h : t.Visits t.topLevel visited) (hinside : t.LeadsInside)
    {place : Option Nat} (hplace : t.Reached place) : ∀ i ∈ place, i ∈ visited := by
  induction hplace with
  | root =>
    intro i hi
    cases hi
  | @link place c _ hc ih =>
    intro i hi
    obtain rfl := Option.some.inj hi
    refine (h.perm hinside fun _ => reached_topLevel).mem_iff.mpr (List.mem_append.mpr ?_)
    cases place with
    | none => exact .inl hc
    | some j => exact .inr (List.mem_flatMap.mpr ⟨j, ih j rfl, hc⟩)

/-- Where all links lead to call sites and none is visited twice, no position is named twice: the
walk visits each position as often as it is named. -/
theorem WalksOnce.namedOnce (h : t.WalksOnce) (hinside : t.LeadsInside) : t.NamedOnce := by
  obtain ⟨visited, hvisits, hnodup, _⟩ := h
  have hperm := hvisits.perm hinside fun _ => reached_topLevel
  obtain ⟨htop, hlinks, hapart⟩ := List.nodup_append.mp (hperm.nodup_iff.mp hnodup)
  obtain ⟨heach, hpairs⟩ := List.nodup_flatMap.mp hlinks
  have : Std.Symm (Function.onFun List.Disjoint fun i => t.linksAt (some i)) :=
    ⟨fun _ _ hdisjoint _ hc hc' => hdisjoint hc' hc⟩
  have hvisited : ∀ i, t.Reached (some i) → i ∈ visited := fun i hi =>
    hvisits.mem_of_reached hinside hi i rfl
  have hroot : ∀ i c, t.Reached (some i) → c ∈ t.linksAt none → c ∉ t.linksAt (some i) := by
    intro i c hi hc hchild
    exact hapart c hc c (List.mem_flatMap.mpr ⟨i, hvisited i hi, hchild⟩) rfl
  refine ⟨fun place hplace => ?_, fun p q c hp hq hcp hcq => ?_⟩
  · cases place with
    | none => exact htop
    | some i => exact heach i (hvisited i hplace)
  · cases p with
    | none =>
      cases q with
      | none => rfl
      | some j => exact absurd hcq (hroot j c hq hcp)
    | some i =>
      cases q with
      | none => exact absurd hcp (hroot i c hp hcq)
      | some j =>
        by_contra hne
        have hdisjoint := hpairs.forall (hvisited i hp) (hvisited j hq)
          fun heq => hne (congrArg some heq)
        exact hdisjoint hcp hcq

/-! ### The links of a forest -/

/-- The call sites named at a place are those that are there. -/
theorem Linked.sublist_sitesAt (h : t.Linked) (place : Option Nat) :
    t.linksAt place <+ t.sitesAt place := by
  cases place with
  | none =>
    rw [← h.topLevel_eq]
    exact .refl _
  | some i =>
    cases hn : t.node? i with
    | none => simp [linksAt, hn]
    | some n =>
      rw [linksAt_of_node? hn, h.children_eq hn]

/-- Each call site is at one place, so no position is named twice. -/
theorem Linked.namedOnce (h : t.Linked) : t.NamedOnce where
  nodup place _ := (List.nodup_range.filter _).sublist (h.sublist_sitesAt place)
  unique p q c _ _ hp hq := by
    have hat := List.of_mem_filter ((h.sublist_sitesAt p).subset hp)
    have hat' := List.of_mem_filter ((h.sublist_sitesAt q).subset hq)
    exact Option.some.inj ((of_decide_eq_true hat).symm.trans (of_decide_eq_true hat'))

end CompileLog.InlineTree
