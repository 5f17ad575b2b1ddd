import Mathlib.Data.List.Infix
import Sismo.Lib.HashMap

namespace Sismo

/-! Maps from strings that are looked up by the longest stored prefix of an
input. -/

namespace HashMap

variable {σ α : Type} [DecidableEq σ]

/-- The value under the longest prefix of the input that has one. -/
def lookupLongest (map : HashMap (List σ) α) (input : List σ) : Option α :=
  (List.range (input.length + 1)).reverse.findSome? fun length =>
    map.lookup (input.take length)

variable {map : HashMap (List σ) α} {input : List σ} {value : α}

theorem exists_prefix_of_lookupLongest
    (found : map.lookupLongest input = some value) :
    ∃ key, key <+: input ∧ map.lookup key = some value := by
  obtain ⟨length, _, entry⟩ := List.exists_of_findSome?_eq_some found
  exact ⟨_, List.take_prefix length input, entry⟩

theorem lookupLongest_isSome {key : List σ} (stored : key <+: input)
    (entry : map.lookup key = some value) :
    ∃ other, map.lookupLongest input = some other := by
  cases found : map.lookupLongest input with
  | some other => exact ⟨other, rfl⟩
  | none =>
      have missing := List.findSome?_eq_none_iff.mp found key.length
        (List.mem_reverse.mpr
          (List.mem_range.mpr (Nat.lt_succ_of_le stored.length_le)))
      rw [← List.prefix_iff_eq_take.mp stored, entry] at missing
      cases missing

/-- Where all stored prefixes of an input have one value, it is found. -/
theorem lookupLongest_eq_some {key : List σ} (stored : key <+: input)
    (entry : map.lookup key = some value)
    (only : ∀ other found, other <+: input → map.lookup other = some found →
      found = value) : map.lookupLongest input = some value := by
  obtain ⟨found, result⟩ := lookupLongest_isSome stored entry
  obtain ⟨other, isPrefix, same⟩ := exists_prefix_of_lookupLongest result
  rw [result, only other found isPrefix same]

def insertAll {κ : Type} [DecidableEq κ] (map : HashMap κ α)
    (entries : List (κ × α)) : HashMap κ α :=
  entries.foldl (fun map entry => map.insert entry.1 entry.2) map

section

variable {κ : Type} [DecidableEq κ] {entries : List (κ × α)} {key : κ}

theorem insertAll_append (map : HashMap κ α) (first second : List (κ × α)) :
    map.insertAll (first ++ second) =
      (map.insertAll first).insertAll second :=
  List.foldl_append

theorem mem_of_lookup_insertAll {map : HashMap κ α}
    (found : (map.insertAll entries).lookup key = some value) :
    (key, value) ∈ entries ∨ map.lookup key = some value := by
  induction entries using List.reverseRecOn with
  | nil => exact .inr found
  | append_singleton entries entry induction =>
      rw [insertAll_append] at found
      have last := lookup_insert_eq (map.insertAll entries) entry.1 key
        entry.2
      rw [insertAll, List.foldl_cons, List.foldl_nil, last] at found
      split at found
      · next same =>
          cases found
          subst same
          exact .inl (by simp)
      · rcases induction found with inserted | before
        · exact .inl (List.mem_append_left _ inserted)
        · exact .inr before

theorem lookup_insertAll {map : HashMap κ α} (member : (key, value) ∈ entries) :
    ∃ other, (map.insertAll entries).lookup key = some other := by
  induction entries using List.reverseRecOn with
  | nil => exact absurd member List.not_mem_nil
  | append_singleton entries entry induction =>
      rw [insertAll_append]
      have last := lookup_insert_eq (map.insertAll entries) entry.1 key
        entry.2
      rw [insertAll, List.foldl_cons, List.foldl_nil, last]
      split
      · exact ⟨entry.2, rfl⟩
      · next distinct =>
          rcases List.mem_append.mp member with before | new
          · exact induction before
          · cases List.mem_singleton.mp new
            exact absurd rfl distinct

end

end HashMap

end Sismo
