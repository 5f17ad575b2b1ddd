import Sismo.Lib.LittleEndian
import Sismo.Lib.Word

namespace Sismo.Elf

/-! Byte slices of files and images, and the numbers in them. -/

structure Slice where
  data : List UInt8
  short : data.length < 2 ^ 63

namespace Slice

def len (s : Slice) : Nat :=
  s.data.length

theorem len_lt (s : Slice) : s.len < 2 ^ 63 :=
  s.short

theorem short_range (s : Slice) (start count : Nat) :
    ((s.data.drop start).take count).length < 2 ^ 63 := by
  rw [List.length_take, List.length_drop]
  have := s.short
  omega

def get (s : Slice) (start stop : Nat) : Option Slice :=
  if start ≤ stop ∧ stop ≤ s.len then
    some ⟨(s.data.drop start).take (stop - start),
      s.short_range start (stop - start)⟩
  else none

/-- The little-endian number of `size` bytes at an offset. -/
def numberAt (s : Slice) (size off : Nat) : Nat :=
  leValue ((s.data.drop off).take size)

def u16At (s : Slice) (off : Nat) : Nat := s.numberAt 2 off

def u32At (s : Slice) (off : Nat) : Nat := s.numberAt 4 off

def u64At (s : Slice) (off : Nat) : Nat := s.numberAt 8 off

variable {s t : Slice} {start stop : Nat}

theorem ext_data (same : s.data = t.data) : s = t := by
  cases s
  cases t
  cases same
  rfl

theorem get_isSome_iff :
    (s.get start stop).isSome ↔ start ≤ stop ∧ stop ≤ s.len := by
  rw [get]
  split
  · next within => simp [within]
  · next outside => simp [outside]

theorem get_eq_some (found : s.get start stop = some t) :
    start ≤ stop ∧ stop ≤ s.len ∧
      t.data = (s.data.drop start).take (stop - start) := by
  rw [get] at found
  split at found
  · next within =>
      cases found
      exact ⟨within.1, within.2, rfl⟩
  · cases found

theorem map_data_get (le : start ≤ stop) (within : stop ≤ s.len) :
    (s.get start stop).map data =
      some ((s.data.drop start).take (stop - start)) := by
  rw [get, if_pos ⟨le, within⟩]
  rfl

theorem len_of_get (found : s.get start stop = some t) :
    t.len = stop - start := by
  obtain ⟨le, within, data⟩ := get_eq_some found
  rw [len, data, List.length_take, List.length_drop]
  have : stop ≤ s.data.length := within
  omega

theorem numberAt_lt (s : Slice) (size off : Nat) :
    s.numberAt size off < 256 ^ size := by
  refine (leValue_lt _).trans_le (Nat.pow_le_pow_right (by decide) ?_)
  exact List.length_take_le _ _

theorem u16At_lt (s : Slice) (off : Nat) : s.u16At off < 2 ^ 16 :=
  s.numberAt_lt 2 off

theorem u32At_lt (s : Slice) (off : Nat) : s.u32At off < 2 ^ 32 :=
  s.numberAt_lt 4 off

theorem u64At_lt (s : Slice) (off : Nat) : s.u64At off < 2 ^ 64 :=
  s.numberAt_lt 8 off

end Slice

end Sismo.Elf
