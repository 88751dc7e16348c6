import CompileLog.Proofs.InlineTree.Links
import Mathlib.Logic.Relation

/-!
# The walk over an inlining tree

A walk keeps the positions still to visit on a stack. What it should visit is said here without the
stack and without the links of the tree, from the additions alone: each call site, then those that
it contains, one after the other as they were added. Such a listing ends because a call site comes
behind the one that contains it, and the walk ends with it.
-/

namespace CompileLog.InlineTree

open scoped List

/-! ### What is added to a tree -/

/-- A call site that is added to a tree. -/
structure Addition where
  /-- The call site under which it is to be put. -/
  parent : Option Nat
  /-- What was decided there. -/
  site : CallSite

/-- The tree with one call site after the other added. -/
def addAll (t : InlineTree) (as : List Addition) : InlineTree :=
  as.foldl (fun t a => (t.add a.parent a.site).1) t

/-- The call site under which an addition is put: the one that it names, if that was added before. -/
def placeOf (as : List Addition) (i : Nat) : Option Nat :=
  as[i]?.bind fun a => a.parent.filter fun p => decide (p < i)

/-- The positions of what is added at a place, in order. -/
def addedAt (as : List Addition) (place : Option Nat) : List Nat :=
  (List.range as.length).filter fun i => placeOf as i = place

variable {as : List Addition} {place : Option Nat} {a b i : Nat}

/-- What is added comes behind the call site that contains it. -/
theorem lt_of_placeOf (h : placeOf as b = some a) : a < b ∧ b < as.length := by
  obtain ⟨addition, hfound, hplace⟩ := Option.bind_eq_some_iff.mp h
  obtain ⟨hb, _⟩ := List.getElem?_eq_some_iff.mp hfound
  obtain ⟨_, hlt⟩ := Option.filter_eq_some_iff.mp hplace
  exact ⟨of_decide_eq_true hlt, hb⟩

/-- What is added at a place is one of the additions. -/
theorem mem_addedAt_iff : i ∈ addedAt as place ↔ i < as.length ∧ placeOf as i = place := by
  simp [addedAt]

/-- The positions of all that is added at a place and below it, depth first: each call site, then
those that it contains. -/
def depthFirst (as : List Addition) (place : Option Nat) : List Nat :=
  (addedAt as place).attach.flatMap fun i => i.1 :: depthFirst as (some i.1)
termination_by as.length - place.elim 0 (· + 1)
decreasing_by
  obtain ⟨hi, hplace⟩ := mem_addedAt_iff.mp i.2
  cases place with
  | none => simp only [Option.elim]; omega
  | some p =>
    have hlt := (lt_of_placeOf hplace).1
    simp only [Option.elim]
    omega

/-- A call site and those that it contains, depth first. -/
def subtree (as : List Addition) (i : Nat) : List Nat := i :: depthFirst as (some i)

/-- The listing of a place joins those of what is added there. -/
theorem depthFirst_eq (as : List Addition) (place : Option Nat) :
    depthFirst as place = (addedAt as place).flatMap (subtree as) := by
  have hattach := List.flatMap_map Subtype.val (subtree as) (addedAt as place).attach
  rw [List.attach_map_subtype_val] at hattach
  rw [depthFirst, hattach]
  rfl

/-! ### The tree that results -/

/-- A tree that holds what was added, and nothing else. -/
structure Holds (t : InlineTree) (as : List Addition) : Prop where
  /-- There is a call site for each addition. -/
  size_eq : t.nodes.size = as.length
  /-- It lies where it was put, with what was decided. -/
  node_eq : ∀ i, (t.node? i).map (fun n => (n.parent, n.site)) =
    as[i]?.map fun a => (placeOf as i, a.site)
  /-- The links are those of a forest. -/
  linked : t.Linked

namespace Holds

variable {t : InlineTree} {n : InlineNode}

/-- The place of a call site. -/
theorem parent_eq (h : t.Holds as) (hn : t.node? i = some n) : n.parent = placeOf as i := by
  have hnode := h.node_eq i
  rw [hn, Option.map_some] at hnode
  obtain ⟨addition, _, heq⟩ := Option.map_eq_some_iff.mp hnode.symm
  exact (congrArg Prod.fst heq).symm

/-- There is a call site for each addition. -/
theorem exists_node (h : t.Holds as) (hi : i < as.length) : ∃ n, t.node? i = some n := by
  rw [← h.size_eq] at hi
  exact ⟨_, Array.getElem?_eq_getElem hi⟩

/-- The call sites at a place are those that were added there. -/
theorem sitesAt_eq (h : t.Holds as) (place : Option Nat) : t.sitesAt place = addedAt as place := by
  unfold sitesAt addedAt
  rw [h.size_eq]
  refine List.filter_congr fun i hi => ?_
  obtain ⟨n, hn⟩ := h.exists_node (List.mem_range.mp hi)
  simp [hn, h.parent_eq hn]

/-- The call sites that another names are those that were added under it. -/
theorem children_eq (h : t.Holds as) (hn : t.node? i = some n) :
    n.children = addedAt as (some i) := by
  rw [h.linked.children_eq hn, h.sitesAt_eq]

/-- The empty tree. -/
theorem empty (rootMethod : Method) (rootSize : Option UInt32) :
    (InlineTree.empty rootMethod rootSize).Holds [] where
  size_eq := rfl
  node_eq _ := rfl
  linked := .empty rootMethod rootSize

/-- The places of what was added before stay. -/
theorem placeOf_append (addition : Addition) (hi : i < as.length) :
    placeOf (as ++ [addition]) i = placeOf as i := by
  unfold placeOf
  rw [List.getElem?_append_left hi]

/-- One more call site is added. -/
theorem add (h : t.Holds as) (addition : Addition) :
    (t.add addition.parent addition.site).1.Holds (as ++ [addition]) where
  size_eq := by rw [size_nodes_add, h.size_eq, List.length_append, List.length_singleton]
  node_eq i := by
    rw [node?_add, h.size_eq]
    by_cases hi : i = as.length
    · have hplace : placeOf (as ++ [addition]) i = t.place addition.parent := by
        simp [placeOf, place, hi, h.size_eq]
      rw [if_pos hi, hplace, hi, List.getElem?_concat_length]
      rfl
    · rw [if_neg hi, Option.map_map]
      have hsame : ((fun n : InlineNode => (n.parent, n.site)) ∘ fun n =>
          if t.place addition.parent = some i then addChild as.length n else n) =
          fun n => (n.parent, n.site) := by
        funext n
        simp only [Function.comp_apply]
        split <;> rfl
      rw [hsame, h.node_eq]
      by_cases hbefore : i < as.length
      · rw [List.getElem?_append_left hbefore, placeOf_append addition hbefore]
      · have hbehind : (as ++ [addition]).length ≤ i := by
          rw [List.length_append, List.length_singleton]
          omega
        rw [List.getElem?_eq_none hbehind, List.getElem?_eq_none (by omega)]
        rfl
  linked := h.linked.add addition.parent addition.site

/-- A tree holds what is added to it. By induction on the additions. -/
theorem addAll (h : t.Holds as) (more : List Addition) : (t.addAll more).Holds (as ++ more) := by
  induction more generalizing t as with
  | nil => rwa [List.append_nil]
  | cons addition rest ih =>
    have hadded := ih (h.add addition)
    rwa [List.append_assoc, List.singleton_append] at hadded

end Holds

/-! ### The walk -/

/-- A walk visits what is still to visit, each call site with those below it. By induction on how
much that is. -/
theorem Holds.visits {t : InlineTree} (h : t.Holds as) {waiting : List Nat}
    (hwaiting : ∀ i ∈ waiting, i < as.length) :
    t.Visits waiting (waiting.flatMap (subtree as)) := by
  induction hleft : (waiting.flatMap (subtree as)).length using Nat.strongRecOn
    generalizing waiting with
  | ind left ih =>
    cases waiting with
    | nil => exact .done
    | cons i rest =>
      obtain ⟨hi, hrest⟩ := List.forall_mem_cons.mp hwaiting
      obtain ⟨n, hn⟩ := h.exists_node hi
      have hnext : (i :: rest).flatMap (subtree as) =
          i :: (n.children ++ rest).flatMap (subtree as) := by
        rw [h.children_eq hn, List.flatMap_append, ← depthFirst_eq]
        rfl
      rw [hnext, List.length_cons] at hleft
      rw [hnext]
      refine .visit hn (ih _ (by omega) (fun j hj => ?_) rfl)
      rcases List.mem_append.mp hj with hchild | hlater
      · rw [h.children_eq hn] at hchild
        exact (mem_addedAt_iff.mp hchild).1
      · exact hrest j hlater

/-- The walk over a tree visits the depth-first listing of what was added to it. -/
theorem Holds.visits_topLevel {t : InlineTree} (h : t.Holds as) :
    t.Visits t.topLevel (depthFirst as none) := by
  have htop : t.topLevel = addedAt as none := h.linked.topLevel_eq.trans (h.sitesAt_eq none)
  rw [htop, depthFirst_eq]
  exact h.visits fun i hi => (mem_addedAt_iff.mp hi).1

/-! ### What lies below what -/

/-- A call site lies directly below another. -/
def Contains (as : List Addition) (a b : Nat) : Prop := placeOf as b = some a

/-- A call site is another or lies below it. -/
def AtOrBelow (as : List Addition) : Nat → Nat → Prop := Relation.ReflTransGen (Contains as)

/-- A call site lies below another. -/
def Below (as : List Addition) : Nat → Nat → Prop := Relation.TransGen (Contains as)

/-- What lies below a call site comes behind it. -/
theorem AtOrBelow.le (h : AtOrBelow as a b) : a ≤ b := by
  induction h with
  | refl => exact Nat.le_refl a
  | tail _ hlast ih => exact Nat.le_trans ih (Nat.le_of_lt (lt_of_placeOf hlast).1)

/-- The subtree of a call site is all that lies at it or below it. -/
theorem mem_subtree_iff : b ∈ subtree as a ↔ AtOrBelow as a b := by
  constructor
  · intro h
    induction hleft : as.length - a using Nat.strongRecOn generalizing a with
    | ind left ih =>
      rcases List.mem_cons.mp h with rfl | hbelow
      · exact .refl
      · rw [depthFirst_eq] at hbelow
        obtain ⟨c, hc, hb⟩ := List.mem_flatMap.mp hbelow
        obtain ⟨hsize, hplace⟩ := mem_addedAt_iff.mp hc
        have hlt := (lt_of_placeOf hplace).1
        exact .head hplace (ih (as.length - c) (by omega) hb rfl)
  · intro h
    induction h using Relation.ReflTransGen.head_induction_on with
    | refl => exact List.mem_cons_self
    | head hfirst _ ih =>
      apply List.mem_cons_of_mem
      rw [depthFirst_eq]
      exact List.mem_flatMap.mpr ⟨_, mem_addedAt_iff.mpr ⟨(lt_of_placeOf hfirst).2, hfirst⟩, ih⟩

/-- Two call sites of which each has a third below it or at it lie below each other. -/
theorem AtOrBelow.total {c : Nat} (ha : AtOrBelow as a c) (hb : AtOrBelow as b c) :
    AtOrBelow as a b ∨ AtOrBelow as b a := by
  have hunique : Relator.RightUnique (Function.swap (Contains as)) := fun x y z hy hz =>
    Option.some.inj (hy.symm.trans hz)
  rcases Relation.ReflTransGen.total_of_right_unique hunique ha.swap hb.swap with h | h
  · exact .inr h.swap
  · exact .inl h.swap

/-- Of two call sites at one place none lies below the other. -/
theorem AtOrBelow.eq_of_placeOf_eq (h : AtOrBelow as a b) (hplace : placeOf as a = placeOf as b) :
    a = b := by
  rcases Relation.ReflTransGen.cases_tail h with heq | ⟨c, hc, hlast⟩
  · exact heq.symm
  · have hback : Contains as c a := hplace.trans hlast
    have hle := AtOrBelow.le hc
    have hlt := (lt_of_placeOf hback).1
    omega

/-! ### The listing -/

/-- Nothing is listed twice. By induction on how many call sites come behind the place. -/
theorem nodup_depthFirst (as : List Addition) (place : Option Nat) :
    (depthFirst as place).Nodup := by
  induction hleft : as.length - place.elim 0 (· + 1) using Nat.strongRecOn generalizing place with
  | ind left ih =>
    rw [depthFirst_eq, List.nodup_flatMap]
    constructor
    · intro i hi
      obtain ⟨hsize, hplace⟩ := mem_addedAt_iff.mp hi
      refine List.nodup_cons.mpr ⟨fun hself => ?_, ih _ ?_ (some i) rfl⟩
      · rw [depthFirst_eq] at hself
        obtain ⟨c, hc, hi⟩ := List.mem_flatMap.mp hself
        have hlt := (lt_of_placeOf (mem_addedAt_iff.mp hc).2).1
        have hle := (mem_subtree_iff.mp hi).le
        omega
      · cases place with
        | none => simp only [Option.elim] at hleft ⊢; omega
        | some p =>
          have hlt := (lt_of_placeOf hplace).1
          simp only [Option.elim] at hleft ⊢
          omega
    · refine List.Pairwise.imp_of_mem ?_ (List.nodup_range.filter _)
      intro a b ha hb hne c hca hcb
      have hplace : placeOf as a = placeOf as b :=
        (mem_addedAt_iff.mp ha).2.trans (mem_addedAt_iff.mp hb).2.symm
      rcases (mem_subtree_iff.mp hca).total (mem_subtree_iff.mp hcb) with h | h
      · exact hne (h.eq_of_placeOf_eq hplace)
      · exact hne (h.eq_of_placeOf_eq hplace.symm).symm

/-- The listing of a place has the subtrees of what is added there, in order. -/
theorem flatMap_subtree_sublist {l : List Nat} (h : l <+ addedAt as place) :
    l.flatMap (subtree as) <+ depthFirst as place := by
  rw [depthFirst_eq]
  exact h.flatMap (subtree as)

/-- The whole listing has the subtree of each call site. By induction on its position: the one that
contains it comes before. -/
theorem subtree_sublist (ha : a < as.length) : subtree as a <+ depthFirst as none := by
  induction a using Nat.strongRecOn with
  | ind a ih =>
    have hhere : subtree as a <+ depthFirst as (placeOf as a) := by
      have hself : [a] <+ addedAt as (placeOf as a) :=
        List.singleton_sublist.mpr (mem_addedAt_iff.mpr ⟨ha, rfl⟩)
      simpa using flatMap_subtree_sublist hself
    cases hplace : placeOf as a with
    | none => rwa [hplace] at hhere
    | some p =>
      have hlt := (lt_of_placeOf hplace).1
      rw [hplace] at hhere
      exact (hhere.trans (List.sublist_cons_self p _)).trans (ih p hlt (by omega))

/-- So it has the listing of each place. -/
theorem depthFirst_sublist (hplace : ∀ p ∈ place, p < as.length) :
    depthFirst as place <+ depthFirst as none := by
  cases place with
  | none => exact .refl _
  | some p => exact (List.sublist_cons_self p _).trans (subtree_sublist (hplace p rfl))

/-- The whole listing has each call site once. -/
theorem depthFirst_perm (as : List Addition) :
    (depthFirst as none).Perm (List.range as.length) := by
  refine (List.perm_ext_iff_of_nodup (nodup_depthFirst as none) List.nodup_range).mpr fun i => ?_
  rw [List.mem_range]
  constructor
  · intro h
    rw [depthFirst_eq] at h
    obtain ⟨root, hroot, hi⟩ := List.mem_flatMap.mp h
    rcases Relation.ReflTransGen.cases_tail (mem_subtree_iff.mp hi) with heq | ⟨_, _, hlast⟩
    · rw [heq]
      exact (mem_addedAt_iff.mp hroot).1
    · exact (lt_of_placeOf hlast).2
  · intro hi
    exact (subtree_sublist hi).subset List.mem_cons_self

/-- A call site is listed before those below it. -/
theorem pair_sublist_of_below (h : Below as a b) : [a, b] <+ depthFirst as none := by
  obtain ⟨c, hfirst, hrest⟩ := Relation.TransGen.head'_iff.mp h
  obtain ⟨hlt, hsize⟩ := lt_of_placeOf hfirst
  have hb : b ∈ depthFirst as (some a) := by
    rw [depthFirst_eq]
    exact List.mem_flatMap.mpr ⟨c, mem_addedAt_iff.mpr ⟨hsize, hfirst⟩, mem_subtree_iff.mpr hrest⟩
  have hhere : [a, b] <+ subtree as a := (List.singleton_sublist.mpr hb).cons_cons a
  exact hhere.trans (subtree_sublist (by omega))

/-- What is added at a place before something else stands before it. -/
theorem pair_sublist_addedAt (ha : a ∈ addedAt as place) (hb : b ∈ addedAt as place)
    (hlt : a < b) : [a, b] <+ addedAt as place := by
  obtain ⟨_, haplace⟩ := mem_addedAt_iff.mp ha
  obtain ⟨hsize, hbplace⟩ := mem_addedAt_iff.mp hb
  have hupTo : List.range (b + 1) <+ List.range as.length := List.range_sublist.mpr hsize
  have hbefore : a ∈ (List.range b).filter fun i => placeOf as i = place := by simp [hlt, haplace]
  have hpair := (List.singleton_sublist.mpr hbefore).append (List.Sublist.refl [b])
  refine List.Sublist.trans ?_ (hupTo.filter _)
  rw [List.range_succ, List.filter_append]
  simpa [hbplace] using hpair

/-- A call site and all below it are listed before what is added at the same place after it. -/
theorem pair_sublist_of_siblings {d : Nat} (hlt : a < b) (hb : b < as.length)
    (hplace : placeOf as a = placeOf as b) (hd : AtOrBelow as a d) :
    [d, b] <+ depthFirst as none := by
  have hboth : [a, b] <+ addedAt as (placeOf as b) :=
    pair_sublist_addedAt (mem_addedAt_iff.mpr ⟨by omega, hplace⟩) (mem_addedAt_iff.mpr ⟨hb, rfl⟩)
      hlt
  have hsubtrees := flatMap_subtree_sublist hboth
  have hfirst : [d] <+ subtree as a := List.singleton_sublist.mpr (mem_subtree_iff.mpr hd)
  have hsecond : [b] <+ subtree as b := List.singleton_sublist.mpr List.mem_cons_self
  have hpair : [d, b] <+ [a, b].flatMap (subtree as) := by
    simpa using hfirst.append hsecond
  refine (hpair.trans hsubtrees).trans (depthFirst_sublist fun p hp => ?_)
  obtain ⟨hbefore, _⟩ := lt_of_placeOf hp
  omega

/-! ### The walk of a tree that was built -/

/-- A walk over a tree is the depth-first listing of what was added to it. -/
structure WalksDepthFirst (t : InlineTree) (as : List Addition) : Prop where
  /-- The walk ends by itself, however much room is left. -/
  ends : ∀ room, as.length ≤ room → t.walkFrom room t.topLevel [] = t.preorder
  /-- It visits call sites of the tree. -/
  nodes_eq : t.preorder.map some = (t.preorder.map InlineNode.id).map t.node?
  /-- It visits them as the listing has them. -/
  order_eq : t.preorder.map InlineNode.id = depthFirst as none
  /-- Each call site is visited once. -/
  once : t.preorder.map InlineNode.id ~ List.range as.length
  /-- It is visited before those below it. -/
  before_below : ∀ a b, Below as a b → [a, b] <+ t.preorder.map InlineNode.id
  /-- It and all those below it are visited before what is added at the same place after it. -/
  before_siblings : ∀ a b d, a < b → b < as.length → placeOf as a = placeOf as b →
    AtOrBelow as a d → [d, b] <+ t.preorder.map InlineNode.id

/-- Positions of a tree are those of the call sites found there. -/
theorem Holds.map_id_filterMap_node? {t : InlineTree} (h : t.Holds as) {l : List Nat}
    (hl : ∀ i ∈ l, i < as.length) : (l.filterMap t.node?).map InlineNode.id = l := by
  induction l with
  | nil => rfl
  | cons i rest ih =>
    obtain ⟨hi, hrest⟩ := List.forall_mem_cons.mp hl
    obtain ⟨n, hn⟩ := h.exists_node hi
    rw [List.filterMap_cons, hn]
    simp only
    rw [List.map_cons, h.linked.id_eq hn, ih hrest]

/-- A tree is walked depth first. -/
theorem Holds.walksDepthFirst {t : InlineTree} (h : t.Holds as) : t.WalksDepthFirst as := by
  have hvisits := h.visits_topLevel
  have hperm := depthFirst_perm as
  have hids : t.preorder.map InlineNode.id = depthFirst as none := by
    rw [hvisits.preorder_eq]
    exact h.map_id_filterMap_node? fun i hi => List.mem_range.mp (hperm.subset hi)
  refine ⟨fun room hroom => ?_, ?_, hids, ?_, ?_, ?_⟩
  · have hlength : (depthFirst as none).length ≤ room := by
      rwa [hperm.length_eq, List.length_range]
    rw [hvisits.preorder_eq]
    exact hvisits.walkFrom_eq room [] hlength
  · rw [hids, hvisits.preorder_eq]
    exact hvisits.map_node?
  · rwa [hids]
  · intro a b hbelow
    rw [hids]
    exact pair_sublist_of_below hbelow
  · intro a b d hlt hb hplace hd
    rw [hids]
    exact pair_sublist_of_siblings hlt hb hplace hd

/-- The walk is depth first. Whatever call sites are added to an empty tree, under others or under
positions that are not there, the tree holds them, and the walk over it ends with each of them
visited once: before those below it, these before what follows at its place, and in the order of the
additions. There are fewer of these than there are positions, which have 32 bits. -/
theorem preorder_depth_first (rootMethod : Method) (rootSize : Option UInt32)
    (as : List Addition) (_hsize : as.length < UInt32.size) :
    (addAll (.empty rootMethod rootSize) as).Holds as ∧
      (addAll (.empty rootMethod rootSize) as).WalksDepthFirst as := by
  have hholds := (Holds.empty rootMethod rootSize).addAll as
  rw [List.nil_append] at hholds
  exact ⟨hholds, hholds.walksDepthFirst⟩

/-- Two call sites are put under the first, and one names a position that is not there. -/
theorem preorder_depth_first_outside :
    let site : CallSite := ⟨.unresolved, none, .inlined, none, none, none, none⟩
    let as : List Addition :=
      [⟨none, site⟩, ⟨some 0, site⟩, ⟨some 42, site⟩, ⟨some 1, site⟩, ⟨some 0, site⟩]
    let t := addAll (.empty .unresolved none) as
    as.length < UInt32.size ∧ t.preorder.map InlineNode.id = [0, 1, 3, 4, 2] ∧
      t.Holds as ∧ t.WalksDepthFirst as := by
  intro site as t
  exact ⟨by decide, by decide +kernel, preorder_depth_first .unresolved none as (by decide)⟩

end CompileLog.InlineTree
