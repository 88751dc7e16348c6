import CompileLog.InlineTree

/-!
# The links of an inlining tree

Call sites refer to each other by their positions. Wherever they are added, under a call site or
under one that is not there, the positions stay those of a forest: each call site bears its own
position, comes behind the one that contains it, and is named by it once, in order. So no link
leaves the tree, and no call site lies deeper than there are call sites.
-/

namespace CompileLog.InlineTree

/-- Where a call site is put for which a parent is named: under that parent, if it is there. -/
def place (t : InlineTree) (parent : Option Nat) : Option Nat :=
  parent.filter fun p => decide (p < t.nodes.size)

/-- The positions of the call sites at a place, in order. -/
def sitesAt (t : InlineTree) (place : Option Nat) : List Nat :=
  (List.range t.nodes.size).filter fun i => (t.node? i).map InlineNode.parent = some place

/-- The level of the call sites at a place. -/
def levelAt (t : InlineTree) (place : Option Nat) : Nat :=
  (place.bind t.node?).elim 1 fun n => n.depth + 1

/-- The links of a tree are those of a forest. -/
structure Linked (t : InlineTree) : Prop where
  /-- A call site bears its position. -/
  id_eq : ∀ {i n}, t.node? i = some n → n.id = i
  /-- It comes behind the one that contains it. -/
  parent_lt : ∀ {i n p}, t.node? i = some n → n.parent = some p → p < i
  /-- It names those that it contains. -/
  children_eq : ∀ {i n}, t.node? i = some n → n.children = t.sitesAt (some i)
  /-- It lies one level below the one that contains it. -/
  depth_eq : ∀ {i n}, t.node? i = some n → n.depth = t.levelAt n.parent
  /-- The tree names those of the compiled method itself. -/
  topLevel_eq : t.topLevel = t.sitesAt none

/-! ### Adding a call site -/

/-- The position of a call site is one of the tree. -/
theorem lt_size_of_node? {t : InlineTree} {i : Nat} {n : InlineNode} (h : t.node? i = some n) :
    i < t.nodes.size := by
  obtain ⟨hi, _⟩ := Array.getElem?_eq_some_iff.mp h
  exact hi

/-- A call site is put under one that is there. -/
theorem lt_size_of_place {t : InlineTree} {parent : Option Nat} {p : Nat}
    (h : t.place parent = some p) : p < t.nodes.size := by
  obtain ⟨_, hp⟩ := Option.filter_eq_some_iff.mp h
  exact of_decide_eq_true hp

/-- A call site that is put nowhere else is one of the compiled method itself. -/
theorem add_of_place_eq_none {t : InlineTree} {parent : Option Nat} (h : t.place parent = none)
    (site : CallSite) :
    (t.add parent site).1 =
      { t with
        nodes := t.nodes.push ⟨t.nodes.size, none, [], site, 1⟩
        topLevel := t.topLevel ++ [t.nodes.size] } := by
  have hnone : parent.bind t.node? = none := by
    refine Option.bind_eq_none_iff.mpr fun p hp => Array.getElem?_eq_none_iff.mpr ?_
    have hout := Option.filter_eq_none_iff.mp h p hp
    rw [decide_eq_true_eq] at hout
    omega
  unfold add
  rw [hnone]

/-- A call site that is put under another is named by that one. -/
theorem add_of_place_eq_some {t : InlineTree} {parent : Option Nat} {p : Nat}
    (h : t.place parent = some p) (site : CallSite) :
    (t.add parent site).1 =
      { t with
        nodes := (t.nodes.modify p (addChild t.nodes.size)).push
          ⟨t.nodes.size, some p, [], site, t.levelAt (some p)⟩ } := by
  have hp := lt_size_of_place h
  obtain ⟨rfl, _⟩ := Option.filter_eq_some_iff.mp h
  have hfound : t.node? p = some t.nodes[p] := Array.getElem?_eq_getElem hp
  unfold add levelAt
  rw [Option.bind_some, hfound]
  rfl

/-- One call site is added. -/
@[simp] theorem size_nodes_add (t : InlineTree) (parent : Option Nat) (site : CallSite) :
    (t.add parent site).1.nodes.size = t.nodes.size + 1 := by
  cases h : t.place parent with
  | none => rw [add_of_place_eq_none h, Array.size_push]
  | some p => rw [add_of_place_eq_some h, Array.size_push, Array.size_modify]

/-- The tree names another call site of the compiled method itself. -/
theorem topLevel_add (t : InlineTree) (parent : Option Nat) (site : CallSite) :
    (t.add parent site).1.topLevel =
      t.topLevel ++ if t.place parent = none then [t.nodes.size] else [] := by
  cases h : t.place parent with
  | none => rw [add_of_place_eq_none h, if_pos rfl]
  | some p =>
    rw [add_of_place_eq_some h, if_neg (by simp), List.append_nil]

/-- A call site is added behind all others at its place, and the one that contains it names it. -/
theorem node?_add (t : InlineTree) (parent : Option Nat) (site : CallSite) (i : Nat) :
    (t.add parent site).1.node? i =
      if i = t.nodes.size then
        some ⟨t.nodes.size, t.place parent, [], site, t.levelAt (t.place parent)⟩
      else (t.node? i).map fun n =>
        if t.place parent = some i then addChild t.nodes.size n else n := by
  unfold node?
  cases h : t.place parent with
  | none =>
    rw [add_of_place_eq_none h, Array.getElem?_push]
    simp only [reduceCtorEq, if_false, Option.map_id']
    rfl
  | some p =>
    rw [add_of_place_eq_some h, Array.getElem?_push, Array.size_modify, Array.getElem?_modify]
    simp only [Option.some.injEq]
    by_cases hp : p = i <;> simp [hp]

/-- Each call site is the one that was added, or was there and may contain that one now. -/
theorem node?_add_cases {t : InlineTree} {parent : Option Nat} {site : CallSite} {i : Nat}
    {n : InlineNode} (h : (t.add parent site).1.node? i = some n) :
    (i = t.nodes.size ∧
        n = ⟨t.nodes.size, t.place parent, [], site, t.levelAt (t.place parent)⟩) ∨
      i ≠ t.nodes.size ∧ ∃ m, t.node? i = some m ∧
        n = if t.place parent = some i then addChild t.nodes.size m else m := by
  rw [node?_add] at h
  by_cases hi : i = t.nodes.size
  · rw [if_pos hi] at h
    exact .inl ⟨hi, (Option.some.inj h).symm⟩
  · rw [if_neg hi] at h
    obtain ⟨m, hm, heq⟩ := Option.map_eq_some_iff.mp h
    exact .inr ⟨hi, m, hm, heq.symm⟩

/-! ### The links -/

/-- A call site that was there keeps its place. -/
theorem parent_node?_add {t : InlineTree} {parent : Option Nat} {site : CallSite} {i : Nat}
    (hi : i ≠ t.nodes.size) :
    ((t.add parent site).1.node? i).map InlineNode.parent =
      (t.node? i).map InlineNode.parent := by
  rw [node?_add, if_neg hi, Option.map_map]
  congr 1
  funext n
  simp only [Function.comp_apply]
  split <;> rfl

/-- The call site that is added is the last one at its place. -/
theorem sitesAt_add (t : InlineTree) (parent : Option Nat) (site : CallSite)
    (place : Option Nat) :
    (t.add parent site).1.sitesAt place =
      t.sitesAt place ++ if t.place parent = place then [t.nodes.size] else [] := by
  have hlast : ((t.add parent site).1.node? t.nodes.size).map InlineNode.parent =
      some (t.place parent) := by
    rw [node?_add, if_pos rfl, Option.map_some]
  unfold sitesAt
  rw [size_nodes_add, List.range_succ, List.filter_append]
  congr 1
  · refine List.filter_congr fun i hi => ?_
    rw [parent_node?_add (Nat.ne_of_lt (List.mem_range.mp hi))]
  · rw [List.filter_cons, List.filter_nil, hlast]
    by_cases h : t.place parent = place <;> simp [h]

/-- The levels stay as they are. -/
theorem levelAt_add (t : InlineTree) (parent : Option Nat) (site : CallSite) {place : Option Nat}
    (h : ∀ p ∈ place, p < t.nodes.size) :
    (t.add parent site).1.levelAt place = t.levelAt place := by
  unfold levelAt
  cases place with
  | none => rfl
  | some p =>
    rw [Option.bind_some, Option.bind_some, node?_add, if_neg (Nat.ne_of_lt (h p rfl))]
    cases t.node? p with
    | none => rfl
    | some n =>
      simp only [Option.map_some, Option.elim_some]
      split <;> rfl

namespace Linked

variable {t : InlineTree}

/-- The tree without any call site. -/
theorem empty (rootMethod : Method) (rootSize : Option UInt32) :
    (InlineTree.empty rootMethod rootSize).Linked where
  id_eq h := by cases h
  parent_lt h := by cases h
  children_eq h := by cases h
  depth_eq h := by cases h
  topLevel_eq := rfl

/-- The links depend on the call sites alone. -/
theorem congr (h : t.Linked) {t' : InlineTree} (htop : t'.topLevel = t.topLevel)
    (hnodes : t'.nodes = t.nodes) : t'.Linked := by
  obtain ⟨rootMethod, rootSize, topLevel, nodes⟩ := t'
  obtain rfl : topLevel = t.topLevel := htop
  obtain rfl : nodes = t.nodes := hnodes
  exact ⟨h.id_eq, h.parent_lt, h.children_eq, h.depth_eq, h.topLevel_eq⟩

/-- Nothing lies under a position that is not there. -/
theorem sitesAt_size (h : t.Linked) : t.sitesAt (some t.nodes.size) = [] := by
  refine List.filter_eq_nil_iff.mpr fun i hi hplace => ?_
  obtain ⟨n, hn, hparent⟩ := Option.map_eq_some_iff.mp (of_decide_eq_true hplace)
  have hbefore := h.parent_lt hn hparent
  have hinside := List.mem_range.mp hi
  omega

/-- Wherever a call site is added, the links stay those of a forest. -/
theorem add (h : t.Linked) (parent : Option Nat) (site : CallSite) :
    (t.add parent site).1.Linked where
  id_eq hn := by
    rcases node?_add_cases hn with ⟨rfl, rfl⟩ | ⟨_, m, hm, rfl⟩
    · rfl
    · rw [← h.id_eq hm]
      split <;> rfl
  parent_lt hn hparent := by
    rcases node?_add_cases hn with ⟨rfl, rfl⟩ | ⟨_, m, hm, rfl⟩
    · exact lt_size_of_place hparent
    · refine h.parent_lt hm ?_
      rw [← hparent]
      split <;> rfl
  children_eq hn := by
    rw [sitesAt_add]
    rcases node?_add_cases hn with ⟨rfl, rfl⟩ | ⟨_, m, hm, rfl⟩
    · have hself : t.place parent ≠ some t.nodes.size := fun hp => absurd (lt_size_of_place hp)
        (Nat.lt_irrefl _)
      rw [h.sitesAt_size, if_neg hself]
      rfl
    · rw [← h.children_eq hm]
      split
      · rfl
      · exact (List.append_nil _).symm
  depth_eq hn := by
    rcases node?_add_cases hn with ⟨rfl, rfl⟩ | ⟨_, m, hm, rfl⟩
    · exact (levelAt_add t parent site fun p hp => lt_size_of_place hp).symm
    · have hparent : ∀ p ∈ m.parent, p < t.nodes.size := fun p hp =>
        Nat.lt_trans (h.parent_lt hm hp) (lt_size_of_node? hm)
      have hdepth := (h.depth_eq hm).trans (levelAt_add t parent site hparent).symm
      split
      · exact hdepth
      · exact hdepth
  topLevel_eq := by rw [topLevel_add, sitesAt_add, h.topLevel_eq]

/-! ### Bounds -/

/-- The one that contains a call site is in the tree. -/
theorem parent_lt_size (h : t.Linked) {i p : Nat} {n : InlineNode} (hn : t.node? i = some n)
    (hp : n.parent = some p) : p < t.nodes.size :=
  Nat.lt_trans (h.parent_lt hn hp) (lt_size_of_node? hn)

/-- Those that a call site contains are in the tree. -/
theorem child_lt_size (h : t.Linked) {i c : Nat} {n : InlineNode} (hn : t.node? i = some n)
    (hc : c ∈ n.children) : c < t.nodes.size := by
  rw [h.children_eq hn] at hc
  exact List.mem_range.mp (List.mem_filter.mp hc).1

/-- Those of the compiled method itself are in the tree. -/
theorem topLevel_lt_size (h : t.Linked) {i : Nat} (hi : i ∈ t.topLevel) : i < t.nodes.size := by
  rw [h.topLevel_eq] at hi
  exact List.mem_range.mp (List.mem_filter.mp hi).1

/-- A call site that lies outside its caller is in the tree. -/
theorem misplaced_lt_size (h : t.Linked) {m : Misplaced} (hm : m ∈ t.validate) :
    m.node < t.nodes.size := by
  obtain ⟨n, hn, hmisplaced⟩ := List.mem_filterMap.mp hm
  obtain ⟨i, hi⟩ := List.mem_iff_getElem?.mp hn
  rw [Array.getElem?_toList] at hi
  have hnode : m.node = n.id := by
    unfold misplaced? at hmisplaced
    split at hmisplaced
    · split at hmisplaced
      · rw [← Option.some.inj hmisplaced]
      · cases hmisplaced
    · cases hmisplaced
  rw [hnode, h.id_eq hi]
  exact lt_size_of_node? hi

/-- No call site lies deeper than there are call sites up to it. By induction on its position. -/
theorem depth_le (h : t.Linked) {i : Nat} {n : InlineNode} (hn : t.node? i = some n) :
    n.depth ≤ i + 1 := by
  induction i using Nat.strongRecOn generalizing n with
  | ind i ih =>
    rw [h.depth_eq hn]
    unfold levelAt
    cases hplace : n.parent.bind t.node? with
    | none => exact Nat.le_add_left 1 i
    | some m =>
      obtain ⟨p, hp, hm⟩ := Option.bind_eq_some_iff.mp hplace
      have hbefore := h.parent_lt hn hp
      have hdepth := ih p hbefore hm
      show m.depth + 1 ≤ i + 1
      omega

end Linked

end CompileLog.InlineTree
