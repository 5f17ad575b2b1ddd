import Mathlib.Algebra.Order.Ring.Nat

namespace Sismo

/-! Results of code that may return an error, and may panic. -/

inductive Fallible (ε α : Type) where
  | ok (value : α)
  | err (error : ε)
  | panics

namespace Fallible

variable {ε α β : Type}

def bind (result : Fallible ε α) (next : α → Fallible ε β) : Fallible ε β :=
  match result with
  | ok value => next value
  | err error => err error
  | panics => panics

instance : Monad (Fallible ε) where
  pure := ok
  bind := bind

-- In parentheses: as definitional rewrites they make the kernel evaluate what
-- the code computes.
@[simp] theorem ok_bind (value : α) (next : α → Fallible ε β) :
    (ok value >>= next) = next value :=
  (rfl)

end Fallible

/-- A sum of 64-bit words, which panics where it overflows. -/
def addWords {ε : Type} (a b : Nat) : Fallible ε Nat :=
  if a + b < 2 ^ 64 then .ok (a + b) else .panics

theorem addWords_of_lt {ε : Type} {a b : Nat} (fits : a + b < 2 ^ 64) :
    (addWords a b : Fallible ε Nat) = .ok (a + b) :=
  if_pos fits

end Sismo
