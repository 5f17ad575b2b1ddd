import Mathlib.Data.List.ProdSigma
import Sismo.Views.Butterfly

namespace Sismo.Views.FocusView

/-! The stack of a callsite, and the descendants of one. -/

open RecursiveUnion

namespace Tables

variable {tables : Tables}

theorem callsite_iff {id : Nat} {c : Callsite} :
    tables.callsite id = some c ↔ c ∈ tables.callsites ∧ c.id = id :=
  find?_key_iff tables.callsite_ids

theorem callsite_id {c : Callsite} (member : c ∈ tables.callsites) :
    tables.callsite c.id = some c := callsite_iff.mpr ⟨member, rfl⟩

variable (tables) in
def parentOf (c : Callsite) : Option Callsite :=
  c.parentId.bind tables.callsite

variable (tables) in
def stackOf (id : Nat) : List Callsite :=
  match _found : tables.callsite id with
  | none => []
  | some c =>
      c :: match _link : c.parentId with
        | none => []
        | some parent => stackOf parent
termination_by tables.rank id
decreasing_by
  obtain ⟨member, same⟩ := callsite_iff.mp _found
  exact same ▸ tables.rank_parent c member parent _link

theorem stackOf_none {id : Nat} (missing : tables.callsite id = none) :
    tables.stackOf id = [] := by
  rw [stackOf]
  split
  · rfl
  · next found => rw [missing] at found; cases found

theorem stackOf_some {id : Nat} {c : Callsite}
    (found : tables.callsite id = some c) :
    tables.stackOf id = c :: (c.parentId.map tables.stackOf).getD [] := by
  rw [stackOf]
  split
  · next missing => rw [missing] at found; cases found
  · next other found' =>
      rw [found] at found'
      cases found'
      congr 1
      split
      · next root => rw [root]; rfl
      · next parent link => rw [link]; rfl

/-- The rank carries the induction up a stack. -/
theorem stack_induction {holds : Nat → Prop}
    (missing : ∀ id, tables.callsite id = none → holds id)
    (root : ∀ id c, tables.callsite id = some c → c.parentId = none → holds id)
    (above : ∀ id c parent, tables.callsite id = some c →
      c.parentId = some parent → holds parent → holds id)
    (id : Nat) : holds id := by
  induction height : tables.rank id using Nat.strong_induction_on
    generalizing id with
  | _ height induction =>
      subst height
      cases found : tables.callsite id with
      | none => exact missing id found
      | some c =>
          cases link : c.parentId with
          | none => exact root id c found link
          | some parent =>
              obtain ⟨member, same⟩ := callsite_iff.mp found
              have falls := tables.rank_parent c member parent link
              rw [same] at falls
              exact above id c parent found link (induction _ falls parent rfl)

theorem stackOf_root {id : Nat} {c : Callsite}
    (found : tables.callsite id = some c) (root : c.parentId = none) :
    tables.stackOf id = [c] := by
  rw [stackOf_some found, root]
  rfl

theorem stackOf_above {id parent : Nat} {c : Callsite}
    (found : tables.callsite id = some c) (link : c.parentId = some parent) :
    tables.stackOf id = c :: tables.stackOf parent := by
  rw [stackOf_some found, link]
  rfl

theorem mem_callsites_of_mem_stackOf {id : Nat} {c : Callsite}
    (member : c ∈ tables.stackOf id) : c ∈ tables.callsites := by
  induction id using @stack_induction tables _ with
  | missing id missing =>
      rw [stackOf_none missing] at member
      cases member
  | root id first found root =>
      rw [stackOf_root found root, List.mem_singleton] at member
      subst member
      exact (callsite_iff.mp found).1
  | above id first parent found link induction =>
      rw [stackOf_above found link] at member
      rcases List.mem_cons.mp member with rfl | later
      · exact (callsite_iff.mp found).1
      · exact induction later

theorem rank_le_of_mem_stackOf {id : Nat} {c : Callsite}
    (member : c ∈ tables.stackOf id) : tables.rank c.id ≤ tables.rank id := by
  induction id using @stack_induction tables _ with
  | missing id missing =>
      rw [stackOf_none missing] at member
      cases member
  | root id first found root =>
      rw [stackOf_root found root, List.mem_singleton] at member
      subst member
      rw [(callsite_iff.mp found).2]
  | above id first parent found link induction =>
      rw [stackOf_above found link] at member
      obtain ⟨inside, same⟩ := callsite_iff.mp found
      have falls := tables.rank_parent first inside parent link
      rcases List.mem_cons.mp member with rfl | later
      · rw [same]
      · have := induction later
        rw [same] at falls
        omega

theorem stackOf_nodup (id : Nat) : (tables.stackOf id).Nodup := by
  induction id using @stack_induction tables _ with
  | missing id missing =>
      rw [stackOf_none missing]
      exact List.nodup_nil
  | root id c found root =>
      rw [stackOf_root found root]
      exact List.nodup_singleton c
  | above id c parent found link induction =>
      rw [stackOf_above found link]
      refine List.nodup_cons.mpr ⟨fun again => ?_, induction⟩
      obtain ⟨inside, same⟩ := callsite_iff.mp found
      have falls := tables.rank_parent c inside parent link
      have le := rank_le_of_mem_stackOf again
      omega

/-! What the recursive queries reach. -/

theorem mem_children {id child : Nat} : child ∈ tables.children id ↔
    ∃ c, tables.callsite child = some c ∧ c.parentId = some id := by
  unfold children
  simp only [List.mem_map, List.mem_filter, sqlEq_iff]
  constructor
  · rintro ⟨c, ⟨member, link, -⟩, rfl⟩
    exact ⟨c, callsite_id member, link⟩
  · rintro ⟨c, found, link⟩
    obtain ⟨member, same⟩ := callsite_iff.mp found
    exact ⟨c, ⟨member, link, Option.some_ne_none id⟩, same⟩

theorem steps_children_iff {root id : Nat} {c : Callsite}
    (known : tables.callsite root = some c) :
    Steps tables.children root id ↔ c ∈ tables.stackOf id := by
  constructor
  · intro path
    induction path with
    | refl =>
        rw [stackOf_some known]
        exact List.mem_cons_self
    | tail _ link induction =>
        obtain ⟨child, found, parent⟩ := mem_children.mp link
        rw [stackOf_above found parent]
        exact List.mem_cons_of_mem child induction
  · intro member
    induction id using @stack_induction tables _ with
    | missing id missing =>
        rw [stackOf_none missing] at member
        cases member
    | root id first found root =>
        rw [stackOf_root found root, List.mem_singleton] at member
        subst member
        rw [← (callsite_iff.mp known).2, (callsite_iff.mp found).2]
        exact .refl
    | above id first parent found link induction =>
        rw [stackOf_above found link] at member
        rcases List.mem_cons.mp member with rfl | later
        · rw [← (callsite_iff.mp known).2, (callsite_iff.mp found).2]
          exact .refl
        · exact .tail (induction later)
            (mem_children.mpr ⟨first, found, link⟩)

variable (tables) in
def ids : List Nat := tables.callsites.map (·.id)

theorem mem_ids_of_mem_children {id child : Nat}
    (member : child ∈ tables.children id) : child ∈ tables.ids := by
  obtain ⟨c, found, -⟩ := mem_children.mp member
  obtain ⟨inside, same⟩ := callsite_iff.mp found
  exact List.mem_map.mpr ⟨c, inside, same⟩

theorem mem_sub {roots : List Nat} (known : ∀ root ∈ roots, root ∈ tables.ids)
    {pair : Nat × Nat} : pair ∈ tables.sub roots ↔
      pair.1 ∈ roots ∧ Steps tables.children pair.1 pair.2 := by
  have closed : ∀ a ∈ roots ×ˢ tables.ids,
      ∀ b ∈ (tables.children a.2).map (a.1, ·), b ∈ roots ×ˢ tables.ids := by
    rintro ⟨root, id⟩ inside b member
    obtain ⟨child, link, rfl⟩ := List.mem_map.mp member
    exact List.mem_product.mpr ⟨(List.mem_product.mp inside).1,
      mem_ids_of_mem_children link⟩
  have start : ∀ a ∈ (roots.map fun root => (root, root)).dedup,
      a ∈ roots ×ˢ tables.ids := by
    intro a member
    obtain ⟨root, inside, rfl⟩ := List.mem_map.mp (List.mem_dedup.mp member)
    exact List.mem_product.mpr ⟨inside, known root inside⟩
  have rounds : (roots ×ˢ tables.ids).length ≤
      (roots.map fun root => (root, root)).dedup.length +
        roots.length * tables.callsites.length := by
    rw [List.length_product, ids, List.length_map]
    omega
  unfold sub
  rw [mem_iff closed (List.nodup_dedup _) start rounds]
  constructor
  · rintro ⟨a, member, path⟩
    obtain ⟨root, inside, rfl⟩ := List.mem_map.mp (List.mem_dedup.mp member)
    induction path with
    | refl => exact ⟨inside, .refl⟩
    | tail _ link induction =>
        obtain ⟨child, step, rfl⟩ := List.mem_map.mp link
        exact ⟨induction.1, induction.2.tail step⟩
  · rintro ⟨inside, path⟩
    refine ⟨(pair.1, pair.1), List.mem_dedup.mpr
      (List.mem_map_of_mem inside), ?_⟩
    have lifted : ∀ id, Steps tables.children pair.1 id →
        Steps (fun su => (tables.children su.2).map (su.1, ·))
          (pair.1, pair.1) (pair.1, id) := by
      intro id path
      induction path with
      | refl => exact .refl
      | tail _ link induction =>
          exact induction.tail (List.mem_map_of_mem link)
    exact lifted pair.2 path

theorem sub_nodup (roots : List Nat) : (tables.sub roots).Nodup :=
  nodup (List.nodup_dedup _)

end Tables

end Sismo.Views.FocusView
