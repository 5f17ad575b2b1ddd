import Mathlib.Data.List.Basic

namespace Sismo

/-! A buffer of fixed length: ranges of it, and writes to them. -/

variable {α : Type*}

def slice (buffer : List α) (start size : Nat) : List α :=
  (buffer.drop start).take size

def patch (buffer : List α) (start : Nat) (written : List α) : List α :=
  buffer.mapIdx fun i old =>
    if start ≤ i then (written[i - start]?).getD old else old

variable {buffer written other : List α} {start first size : Nat}

@[simp] theorem length_patch :
    (patch buffer start written).length = buffer.length :=
  List.length_mapIdx

theorem getElem?_slice (i : Nat) :
    (slice buffer start size)[i]? =
      if i < size then buffer[start + i]? else none := by
  rw [slice, List.getElem?_take, List.getElem?_drop]

theorem slice_add (buffer : List α) (start size count : Nat) :
    slice buffer start (size + count) =
      slice buffer start size ++ slice buffer (start + size) count := by
  rw [slice, slice, slice, List.take_add, List.drop_drop]

theorem getElem?_patch_of_apart {i : Nat}
    (apart : i < start ∨ start + written.length ≤ i) :
    (patch buffer start written)[i]? = buffer[i]? := by
  rw [patch, List.getElem?_mapIdx]
  split
  · rw [List.getElem?_eq_none (show written.length ≤ i - start by omega)]
    exact Option.map_id'
  · exact Option.map_id'

theorem getElem?_patch_of_within {i : Nat} (low : start ≤ i)
    (high : i < start + written.length) (inside : i < buffer.length) :
    (patch buffer start written)[i]? = written[i - start]? := by
  rw [patch, List.getElem?_mapIdx, List.getElem?_eq_getElem inside,
    Option.map_some, if_pos low,
    List.getElem?_eq_getElem (show i - start < written.length by omega)]
  rfl

theorem slice_patch_self (inside : start + written.length ≤ buffer.length) :
    slice (patch buffer start written) start written.length = written := by
  apply List.ext_getElem?
  intro i
  rw [getElem?_slice]
  split
  · next low =>
      rw [getElem?_patch_of_within (by omega) (by omega) (by omega),
        Nat.add_sub_cancel_left]
  · next high => rw [List.getElem?_eq_none (by omega)]

theorem slice_patch_of_apart
    (apart : first + size ≤ start ∨ start + written.length ≤ first) :
    slice (patch buffer start written) first size =
      slice buffer first size := by
  apply List.ext_getElem?
  intro i
  rw [getElem?_slice, getElem?_slice]
  split
  · next low => exact getElem?_patch_of_apart (by omega)
  · rfl

/-- What is written later hides what it covers. -/
theorem patch_patch_of_covered (low : first ≤ start)
    (high : start + written.length ≤ first + other.length) :
    patch (patch buffer start written) first other =
      patch buffer first other := by
  apply List.ext_getElem?
  intro i
  by_cases apart : i < first ∨ first + other.length ≤ i
  · rw [getElem?_patch_of_apart apart, getElem?_patch_of_apart apart]
    exact getElem?_patch_of_apart (by omega)
  · obtain inside | outside := Nat.lt_or_ge i buffer.length
    · rw [getElem?_patch_of_within (by omega) (by omega) inside,
        getElem?_patch_of_within (by omega) (by omega)
          (by rw [length_patch]; exact inside)]
    · rw [List.getElem?_eq_none (by simpa using outside),
        List.getElem?_eq_none (by simpa using outside)]

end Sismo
