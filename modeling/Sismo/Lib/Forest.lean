import Mathlib.Algebra.BigOperators.Group.List.Basic
import Mathlib.Algebra.Ring.Int.Defs
import Mathlib.Logic.Relation

namespace Sismo

/-! Trees given as lists of nodes, each with its parent's id. -/

variable {N P : Type}

section

variable (id : N → Nat) (parentId : N → Option Nat) (nodes : List N)

def ChildOf (child parent : Nat) : Prop :=
  ∃ node ∈ nodes, id node = child ∧ parentId node = some parent

def InSubtree (node root : Nat) : Prop :=
  Relation.ReflTransGen (ChildOf id parentId nodes) node root

def Acyclic : Prop :=
  ∀ node, ¬Relation.TransGen (ChildOf id parentId nodes) node node

open Classical in
noncomputable def subtreeSum (value : N → Int) (root : Nat) : Int :=
  ((nodes.filter fun node => InSubtree id parentId nodes (id node) root).map
    value).sum

end

/-- Places that are linked upwards, and fall in rank on the way. -/
structure Forest (P : Type) where
  places : List P
  Link : P → P → Prop
  rank : P → Nat
  rank_link : ∀ p ∈ places, ∀ q ∈ places, Link p q → rank q < rank p

namespace Forest

variable (forest : Forest P)

def Reaches (p q : P) : Prop :=
  Relation.ReflTransGen (fun p q => q ∈ forest.places ∧ forest.Link p q) p q

/-- What is below a root, where each link to it or past it is known. -/
theorem reaches_iff {root : P} {within : P → Prop} (atRoot : within root)
    (down : ∀ p ∈ forest.places, ∀ q ∈ forest.places, forest.Link p q →
      within q → within p)
    (up : ∀ p ∈ forest.places, within p →
      p = root ∨ ∃ q ∈ forest.places, forest.Link p q ∧ within q)
    {p : P} (member : p ∈ forest.places) :
    forest.Reaches p root ↔ within p := by
  constructor
  · intro reaches
    induction reaches using Relation.ReflTransGen.head_induction_on with
    | refl => exact atRoot
    | head link _ ih =>
        exact down _ member _ link.1 link.2 (ih link.1)
  · intro inside
    induction rank : forest.rank p using Nat.strong_induction_on
      generalizing p with
    | _ rank ih =>
        subst rank
        rcases up p member inside with rfl | ⟨q, qMem, link, above⟩
        · exact Relation.ReflTransGen.refl
        · exact Relation.ReflTransGen.head ⟨qMem, link⟩
            (ih _ (forest.rank_link p member q qMem link) qMem above rfl)

variable {id : N → Nat} {parentId : N → Option Nat} {nodes : List N}
  {node : P → N}

structure Lists (id : N → Nat) (parentId : N → Option Nat) (node : P → N)
    (nodes : List N) : Prop where
  nodes_eq : nodes = forest.places.map node
  id_injective : ∀ p ∈ forest.places, ∀ q ∈ forest.places,
    id (node p) = id (node q) → p = q
  parentId_iff : ∀ p ∈ forest.places, ∀ above,
    parentId (node p) = some above ↔
      ∃ q ∈ forest.places, forest.Link p q ∧ id (node q) = above

variable {forest}

theorem Lists.mem_iff (lists : forest.Lists id parentId node nodes) {n : N} :
    n ∈ nodes ↔ ∃ p ∈ forest.places, node p = n := by
  rw [lists.nodes_eq, List.mem_map]

theorem Lists.childOf_iff (lists : forest.Lists id parentId node nodes) {p : P}
    (member : p ∈ forest.places) {above : Nat} :
    ChildOf id parentId nodes (id (node p)) above ↔
      ∃ q ∈ forest.places, forest.Link p q ∧ id (node q) = above := by
  rw [← lists.parentId_iff p member]
  constructor
  · rintro ⟨other, otherMem, same, link⟩
    obtain ⟨q, qMem, rfl⟩ := lists.mem_iff.mp otherMem
    rwa [← lists.id_injective q qMem p member same]
  · intro link
    exact ⟨node p, lists.mem_iff.mpr ⟨p, member, rfl⟩, rfl, link⟩

theorem Lists.parent_exists (lists : forest.Lists id parentId node nodes)
    {child : N} (member : child ∈ nodes) {above : Nat}
    (link : parentId child = some above) :
    ∃ other ∈ nodes, id other = above := by
  obtain ⟨p, pMem, rfl⟩ := lists.mem_iff.mp member
  obtain ⟨q, qMem, _, rfl⟩ := (lists.parentId_iff p pMem above).mp link
  exact ⟨node q, lists.mem_iff.mpr ⟨q, qMem, rfl⟩, rfl⟩

theorem Lists.acyclic (lists : forest.Lists id parentId node nodes) :
    Acyclic id parentId nodes := by
  have falls : ∀ below above,
      Relation.TransGen (ChildOf id parentId nodes) below above →
      ∃ p ∈ forest.places, ∃ q ∈ forest.places, id (node p) = below ∧
        id (node q) = above ∧ forest.rank q < forest.rank p := by
    intro below above path
    induction path with
    | single link =>
        have linked := link
        obtain ⟨child, childMem, rfl, _⟩ := linked
        obtain ⟨p, pMem, rfl⟩ := lists.mem_iff.mp childMem
        obtain ⟨q, qMem, above, rfl⟩ := (lists.childOf_iff pMem).mp link
        exact ⟨p, pMem, q, qMem, rfl, rfl,
          forest.rank_link p pMem q qMem above⟩
    | tail _ link ih =>
        obtain ⟨p, pMem, q, qMem, rfl, rfl, less⟩ := ih
        obtain ⟨r, rMem, above, rfl⟩ := (lists.childOf_iff qMem).mp link
        exact ⟨p, pMem, r, rMem, rfl, rfl,
          (forest.rank_link q qMem r rMem above).trans less⟩
  intro below path
  obtain ⟨p, pMem, q, qMem, same, here, less⟩ := falls below below path
  cases lists.id_injective p pMem q qMem (same.trans here.symm)
  exact Nat.lt_irrefl _ less

theorem Lists.inSubtree_iff (lists : forest.Lists id parentId node nodes)
    {p root : P} (pMem : p ∈ forest.places) (rootMem : root ∈ forest.places) :
    InSubtree id parentId nodes (id (node p)) (id (node root)) ↔
      forest.Reaches p root := by
  constructor
  · intro path
    generalize below : id (node p) = start at path
    induction path using Relation.ReflTransGen.head_induction_on
      generalizing p with
    | refl =>
        cases lists.id_injective p pMem root rootMem below
        exact Relation.ReflTransGen.refl
    | head link _ ih =>
        subst below
        obtain ⟨q, qMem, above, same⟩ := (lists.childOf_iff pMem).mp link
        exact Relation.ReflTransGen.head ⟨qMem, above⟩ (ih qMem same)
  · intro reaches
    induction reaches using Relation.ReflTransGen.head_induction_on with
    | refl => exact Relation.ReflTransGen.refl
    | head link _ ih =>
        exact Relation.ReflTransGen.head
          ((lists.childOf_iff pMem).mpr ⟨_, link.1, link.2, rfl⟩) (ih link.1)

theorem Lists.subtreeSum_eq (lists : forest.Lists id parentId node nodes)
    (value : N → Int) {root : P} (rootMem : root ∈ forest.places)
    (within : P → Bool) (atRoot : within root = true)
    (down : ∀ p ∈ forest.places, ∀ q ∈ forest.places, forest.Link p q →
      within q = true → within p = true)
    (up : ∀ p ∈ forest.places, within p = true →
      p = root ∨ ∃ q ∈ forest.places, forest.Link p q ∧ within q = true) :
    subtreeSum id parentId nodes value (id (node root)) =
      ((forest.places.filter within).map fun p => value (node p)).sum := by
  classical
  have inside : ∀ p ∈ forest.places,
      decide (InSubtree id parentId nodes (id (node p)) (id (node root))) =
        within p := by
    intro p member
    rw [Bool.eq_iff_iff, decide_eq_true_eq,
      lists.inSubtree_iff member rootMem]
    have below : forest.Reaches p root ↔ (within · = true) p :=
      forest.reaches_iff atRoot down up member
    exact below
  unfold subtreeSum
  conv_lhs =>
    rw [lists.nodes_eq, List.filter_map, List.map_map]
  rw [← List.filter_congr inside]
  simp only [lists.nodes_eq]
  congr

end Forest

end Sismo
