import Mathlib.Data.List.Basic

namespace Sismo

/-! Binary search of the range that contains an address. -/

variable {α : Type*} (range : α → Nat × Nat) (items : List α) (addr : Nat)

def findRangeLoop : (fuel lo hi : Nat) → Option α
  | 0, _, _ => none
  | fuel + 1, lo, hi =>
      if lo < hi then
        let mid := lo + (hi - lo) / 2
        match items[mid]? with
        | none => none
        | some item =>
            if addr < (range item).1 then findRangeLoop fuel lo mid
            else if (range item).2 ≤ addr then findRangeLoop fuel (mid + 1) hi
            else some item
      else none

def findRange : Option α :=
  findRangeLoop range items addr (items.length + 1) 0 items.length

variable {range items addr}

theorem findRangeLoop_sound {fuel lo hi : Nat} {item : α}
    (found : findRangeLoop range items addr fuel lo hi = some item) :
    item ∈ items ∧ (range item).1 ≤ addr ∧ addr < (range item).2 := by
  induction fuel generalizing lo hi with
  | zero => cases found
  | succ fuel induction =>
      unfold findRangeLoop at found
      split at found
      · dsimp only at found
        split at found
        · cases found
        · next middle here =>
            split at found
            · exact induction found
            · next low =>
                split at found
                · exact induction found
                · next high =>
                    cases found
                    exact ⟨List.mem_of_getElem? here, Nat.le_of_not_lt low,
                      Nat.lt_of_not_le high⟩
      · cases found

theorem findRange_sound {item : α}
    (found : findRange range items addr = some item) :
    item ∈ items ∧ (range item).1 ≤ addr ∧ addr < (range item).2 :=
  findRangeLoop_sound found

end Sismo
