import Mathlib.Data.List.AList
import Mathlib.Algebra.BigOperators.Group.List.Basic
import Mathlib.Algebra.GroupWithZero.Nat

namespace Sismo

/-! Finite maps with unique keys, as the program's hash maps are used: lookup,
overwriting insertion, removal, and folds over all entries. -/

abbrev HashMap (κ α : Type) := AList (fun _ : κ => α)

namespace HashMap

variable {κ α : Type} [DecidableEq κ]

theorem lookup_insert_eq (map : HashMap κ α) (key other : κ) (value : α) :
    (map.insert key value).lookup other =
      if other = key then some value else map.lookup other := by
  split
  · next equal =>
      subst equal
      exact AList.lookup_insert map
  · next distinct => exact AList.lookup_insert_ne distinct

theorem lookup_erase_eq (map : HashMap κ α) (key other : κ) :
    (map.erase key).lookup other =
      if other = key then none else map.lookup other := by
  split
  · next equal =>
      subst equal
      exact AList.lookup_erase _ map
  · next distinct => exact AList.lookup_erase_ne distinct

theorem keys_length_insert (map : HashMap κ α) (key : κ) (value : α) :
    (map.insert key value).keys.length =
      if map.lookup key = none then map.keys.length + 1
      else map.keys.length := by
  rw [AList.keys_insert, List.length_cons]
  split
  · next fresh =>
      rw [List.erase_of_not_mem (AList.lookup_eq_none.mp fresh)]
  · next known =>
      have member : key ∈ map.keys := AList.lookup_isSome.mp
        (Option.isSome_iff_ne_none.mpr known)
      rw [List.length_erase_of_mem member]
      have := List.length_pos_of_mem member
      omega

def total (weight : κ → α → Nat) (map : HashMap κ α) : Nat :=
  (map.entries.map fun entry => weight entry.1 entry.2).sum

theorem total_erase (weight : κ → α → Nat) {map : HashMap κ α} {key : κ}
    {value : α} (found : map.lookup key = some value) :
    total weight map = weight key value + total weight (map.erase key) := by
  have member : (⟨key, value⟩ : Sigma fun _ : κ => α) ∈ map.entries :=
    List.of_mem_dlookup found
  obtain ⟨stored, left, right, _, entries, erased⟩ :=
    List.exists_of_kerase (List.mem_keys_of_mem member)
  have storedEq : stored = value :=
    map.nodupKeys.eq_of_mk_mem (by rw [entries]; simp) member
  subst storedEq
  have left : (map.erase key).entries = map.entries.kerase key := rfl
  simp only [total, left]
  rw [erased, entries]
  simp only [List.map_append, List.map_cons, List.sum_append, List.sum_cons]
  omega

theorem total_erase_of_none (weight : κ → α → Nat) {map : HashMap κ α}
    {key : κ} (missing : map.lookup key = none) :
    total weight (map.erase key) = total weight map := by
  have absent : key ∉ map.entries.keys := AList.lookup_eq_none.mp missing
  have left : (map.erase key).entries = map.entries.kerase key := rfl
  simp only [total, left]
  rw [List.kerase_of_notMem_keys absent]

/-- The total splits into the weight stored at one key and all the rest, when
a missing entry weighs as much as the default. -/
theorem total_eq_getD_add (weight : κ → α → Nat) (map : HashMap κ α) (key : κ)
    (default : α) (weightless : weight key default = 0) :
    total weight map =
      weight key ((map.lookup key).getD default) +
        total weight (map.erase key) := by
  cases found : map.lookup key with
  | none => simp [weightless, total_erase_of_none weight found]
  | some value => exact total_erase weight found

theorem total_insert (weight : κ → α → Nat) (map : HashMap κ α) (key : κ)
    (value : α) :
    total weight (map.insert key value) =
      weight key value + total weight (map.erase key) := by
  have left : (map.erase key).entries = map.entries.kerase key := rfl
  simp [total, AList.entries_insert, left]

end HashMap

end Sismo
