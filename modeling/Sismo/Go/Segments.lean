import Sismo.Go.Pclntab

namespace Sismo.Go

/-! The steps of a pcsp table, decoded once, under both loops that walk it. -/

/-- The value and the pc delta of each step. A table cut inside a pc delta
leaves a last value without one. -/
structure Table where
  steps : List (Int32 × Nat)
  cut : Option Int32
  deriving DecidableEq

def decodeLoop (table : Bytes) (val : Int32) (first : Bool) : Table :=
  match _value : readUvarint table with
  | none => ⟨[], none⟩
  | some (uvdelta, deltas) =>
      if uvdelta = 0 ∧ first = false then ⟨[], none⟩
      else
        let val := val + zigzag uvdelta
        match _step : readUvarint deltas with
        | none => ⟨[], some val⟩
        | some (pcdelta, rest) =>
            let later := decodeLoop rest val false
            { later with steps := (val, pcdelta.toNat) :: later.steps }
termination_by table.length
decreasing_by
  exact (readUvarint_length _step).trans (readUvarint_length _value)

def valueAt : List (Int32 × Nat) → Nat → Nat → Option Int32
  | [], _, _ => none
  | (val, delta) :: rest, pc, target =>
      if target < u32 (pc + delta) then some val
      else valueAt rest (u32 (pc + delta)) target

/-- The start of each step with its value, and the end marker. -/
def rowsFrom (cut : Option Int32) :
    List (Int32 × Nat) → Nat → List (Nat × Option Int)
  | [], pc =>
      (cut.map fun val => (pc, some val.toInt)).toList ++ [(pc, none)]
  | (val, delta) :: rest, pc =>
      (pc, some val.toInt) :: rowsFrom cut rest (u32 (pc + delta))

theorem pcvalueLoop_eq (table : Bytes) (val : Int32) (pc : Nat) (first : Bool)
    (target : Nat) :
    pcvalueLoop table val pc first target =
      valueAt (decodeLoop table val first).steps pc target := by
  fun_induction decodeLoop table val first generalizing pc with
  | case1 table val first ended =>
      rw [pcvalueLoop]
      split
      · rfl
      · next read => rw [ended] at read; cases read
  | case2 table val first uvdelta deltas read stop =>
      rw [pcvalueLoop]
      split
      · rfl
      · next read' =>
          rw [read] at read'
          cases read'
          exact if_pos stop
  | case3 table val first uvdelta deltas read go next ended =>
      rw [pcvalueLoop]
      split
      · rfl
      · next read' =>
          rw [read] at read'
          cases read'
          rw [if_neg go]
          dsimp only
          split
          · rfl
          · next read' => rw [ended] at read'; cases read'
  | case4 table val first uvdelta deltas read go next pcdelta rest step later
      induction =>
      rw [pcvalueLoop]
      split
      · next read' => rw [read] at read'; cases read'
      · next read' =>
          rw [read] at read'
          cases read'
          rw [if_neg go]
          dsimp only
          split
          · next read' => rw [step] at read'; cases read'
          · next read' =>
              rw [step] at read'
              cases read'
              rw [valueAt, ← induction]

theorem pcspRowsLoop_eq (table : Bytes) (val : Int32) (pc : Nat)
    (first : Bool) :
    pcspRowsLoop table val pc first =
      rowsFrom (decodeLoop table val first).cut
        (decodeLoop table val first).steps pc := by
  fun_induction decodeLoop table val first generalizing pc with
  | case1 table val first ended =>
      rw [pcspRowsLoop]
      split
      · rfl
      · next read => rw [ended] at read; cases read
  | case2 table val first uvdelta deltas read stop =>
      rw [pcspRowsLoop]
      split
      · rfl
      · next read' =>
          rw [read] at read'
          cases read'
          exact if_pos stop
  | case3 table val first uvdelta deltas read go next ended =>
      rw [pcspRowsLoop]
      split
      · next read' => rw [read] at read'; cases read'
      · next read' =>
          rw [read] at read'
          cases read'
          rw [if_neg go]
          dsimp only
          split
          · rfl
          · next read' => rw [ended] at read'; cases read'
  | case4 table val first uvdelta deltas read go next pcdelta rest step later
      induction =>
      rw [pcspRowsLoop]
      split
      · next read' => rw [read] at read'; cases read'
      · next read' =>
          rw [read] at read'
          cases read'
          rw [if_neg go]
          dsimp only
          split
          · next read' => rw [step] at read'; cases read'
          · next read' =>
              rw [step] at read'
              cases read'
              rw [rowsFrom, ← induction]

/-- The value changes only where a step starts or the table ends. -/
theorem valueAt_of_clear {cut : Option Int32} {steps : List (Int32 × Nat)}
    (pc : Nat) {q target : Nat} (le : q ≤ target)
    (clear : ∀ row ∈ rowsFrom cut steps pc,
      ¬ (q < row.1 ∧ row.1 ≤ target)) :
    valueAt steps pc q = valueAt steps pc target := by
  induction steps generalizing pc with
  | nil => rfl
  | cons step rest induction =>
      obtain ⟨val, delta⟩ := step
      have next := induction (u32 (pc + delta)) fun row member =>
        clear row (List.mem_cons_of_mem _ member)
      have start : ∃ row ∈ rowsFrom cut rest (u32 (pc + delta)),
          row.1 = u32 (pc + delta) := by
        cases rest with
        | nil => exact ⟨_, List.mem_append_right _ List.mem_cons_self, rfl⟩
        | cons step rest => exact ⟨_, List.mem_cons_self, rfl⟩
      obtain ⟨row, member, same⟩ := start
      have outside := clear row (List.mem_cons_of_mem _ member)
      rw [same] at outside
      unfold valueAt
      by_cases inside : target < u32 (pc + delta)
      · rw [if_pos inside, if_pos (by omega)]
      · rw [if_neg inside, if_neg (by omega), next]

/-! A table whose steps do not wrap around. -/

def endOf (steps : List (Int32 × Nat)) (pc : Nat) : Nat :=
  pc + (steps.map Prod.snd).sum

theorem endOf_cons (val : Int32) (delta : Nat) (steps : List (Int32 × Nat))
    (pc : Nat) : endOf ((val, delta) :: steps) pc = endOf steps (pc + delta) := by
  unfold endOf
  rw [List.map_cons, List.sum_cons, Nat.add_assoc]

theorem le_endOf (steps : List (Int32 × Nat)) (pc : Nat) :
    pc ≤ endOf steps pc := Nat.le_add_right _ _

structure Table.Closed (table : Table) : Prop where
  whole : table.cut = none
  last : ∀ step ∈ table.steps.getLast?, 0 < step.2

theorem Table.Closed.tail {cut : Option Int32} {step : Int32 × Nat}
    {rest : List (Int32 × Nat)} (closed : Table.Closed ⟨step :: rest, cut⟩) :
    Table.Closed ⟨rest, cut⟩ := by
  refine ⟨closed.whole, fun last member => closed.last last ?_⟩
  cases rest with
  | nil => cases member
  | cons next rest =>
      change last ∈ (step :: next :: rest).getLast?
      rw [List.getLast?_cons_cons]
      exact member

theorem Table.Closed.lt_endOf {cut : Option Int32}
    {steps : List (Int32 × Nat)} (closed : Table.Closed ⟨steps, cut⟩)
    (nonempty : steps ≠ []) (pc : Nat) : pc < endOf steps pc := by
  induction steps generalizing pc with
  | nil => exact absurd rfl nonempty
  | cons step rest induction =>
      obtain ⟨val, delta⟩ := step
      rw [endOf_cons]
      cases rest with
      | nil =>
          have positive : 0 < delta := closed.last (val, delta) rfl
          exact Nat.lt_of_lt_of_le (by omega) (le_endOf [] (pc + delta))
      | cons next rest =>
          have later := induction closed.tail (List.cons_ne_nil _ _)
            (pc + delta)
          omega

section

variable {cut : Option Int32} {steps : List (Int32 × Nat)} {pc q : Nat}

theorem u32_step {val : Int32} {delta : Nat}
    (fits : endOf ((val, delta) :: steps) pc < 2 ^ 32) :
    u32 (pc + delta) = pc + delta := by
  rw [endOf_cons] at fits
  exact Nat.mod_eq_of_lt (Nat.lt_of_le_of_lt (le_endOf steps _) fits)

theorem rowsFrom_bounds (fits : endOf steps pc < 2 ^ 32)
    {row : Nat × Option Int} (member : row ∈ rowsFrom cut steps pc) :
    pc ≤ row.1 ∧ row.1 ≤ endOf steps pc := by
  induction steps generalizing pc with
  | nil =>
      unfold rowsFrom at member
      obtain value | marker := List.mem_append.mp member
      · obtain ⟨val, -, rfl⟩ := Option.map_eq_some_iff.mp
          (Option.mem_toList.mp value)
        exact ⟨Nat.le_refl _, le_endOf [] pc⟩
      · cases List.mem_singleton.mp marker
        exact ⟨Nat.le_refl _, le_endOf [] pc⟩
  | cons step rest induction =>
      obtain ⟨val, delta⟩ := step
      unfold rowsFrom at member
      rw [u32_step fits] at member
      obtain rfl | later := List.mem_cons.mp member
      · exact ⟨Nat.le_refl _, le_endOf _ pc⟩
      · rw [endOf_cons] at fits ⊢
        have bounds := induction fits later
        exact ⟨by omega, bounds.2⟩

theorem valueAt_of_endOf_le (fits : endOf steps pc < 2 ^ 32)
    (ended : endOf steps pc ≤ q) : valueAt steps pc q = none := by
  induction steps generalizing pc with
  | nil => rfl
  | cons step rest induction =>
      obtain ⟨val, delta⟩ := step
      unfold valueAt
      have whole := u32_step fits
      rw [endOf_cons] at fits ended
      have le := le_endOf rest (pc + delta)
      rw [whole, if_neg (by omega)]
      exact induction fits ended

/-- Only a table left open has a value at its very end. -/
theorem rowsFrom_value_lt (closed : Table.Closed ⟨steps, cut⟩)
    (fits : endOf steps pc < 2 ^ 32) {row : Nat × Option Int}
    (member : row ∈ rowsFrom cut steps pc) (value : row.2.isSome) :
    row.1 < endOf steps pc := by
  induction steps generalizing pc with
  | nil =>
      unfold rowsFrom at member
      rw [show cut = none from closed.whole] at member
      cases List.mem_singleton.mp member
      cases value
  | cons step rest induction =>
      obtain ⟨val, delta⟩ := step
      have first := closed.lt_endOf (List.cons_ne_nil _ _) pc
      unfold rowsFrom at member
      rw [u32_step fits] at member
      obtain rfl | later := List.mem_cons.mp member
      · exact first
      · rw [endOf_cons] at fits ⊢
        exact induction closed.tail fits later

/-- Among the rows of one table, the row of the value at `q`, or the end
marker when there is none, is the last one at or below `q`. -/
theorem rowsFrom_cover (fits : endOf steps pc < 2 ^ 32) (above : pc ≤ q)
    (closed : q < endOf steps pc ∨ Table.Closed ⟨steps, cut⟩) :
    ∃ before row after, rowsFrom cut steps pc = before ++ row :: after ∧
      row.2 = (valueAt steps pc q).map Int32.toInt ∧
      pc ≤ row.1 ∧ row.1 ≤ q ∧ (row.2 = none → row.1 = endOf steps pc) ∧
      (∀ other ∈ before, rowLe other row) ∧
      ∀ other ∈ after, q < other.1 := by
  induction steps generalizing pc with
  | nil =>
      have whole : cut = none := by
        obtain before | closed := closed
        · exact absurd before (Nat.not_lt.mpr above)
        · exact closed.whole
      rw [whole]
      exact ⟨[], (pc, none), [], rfl, rfl, Nat.le_refl _, above, fun _ => rfl,
        fun _ member => (List.not_mem_nil member).elim,
        fun _ member => (List.not_mem_nil member).elim⟩
  | cons step rest induction =>
      obtain ⟨val, delta⟩ := step
      have whole := u32_step fits
      have positive : Table.Closed ⟨(val, delta) :: rest, cut⟩ →
          pc < endOf ((val, delta) :: rest) pc :=
        fun closed => closed.lt_endOf (List.cons_ne_nil _ _) pc
      unfold rowsFrom valueAt
      rw [whole]
      rw [endOf_cons] at fits closed positive ⊢
      by_cases inside : q < pc + delta
      · rw [if_pos inside]
        refine ⟨[], (pc, some val.toInt), _, rfl, rfl, Nat.le_refl _, above,
          fun none => (Option.some_ne_none _ none).elim,
          fun _ member => (List.not_mem_nil member).elim, ?_⟩
        intro other member
        exact Nat.lt_of_lt_of_le inside (rowsFrom_bounds fits member).1
      · rw [if_neg inside]
        obtain ⟨before, row, after, rows, value, low, high, marker, reaches,
          later⟩ := induction fits (Nat.not_lt.mp inside)
            (closed.imp_right Table.Closed.tail)
        refine ⟨(pc, some val.toInt) :: before, row, after, ?_, value,
          by omega, high, marker, ?_, later⟩
        · rw [rows]
          rfl
        · intro other member
          obtain rfl | member := List.mem_cons.mp member
          · unfold rowLe
            by_cases below : pc < row.1
            · exact .inl below
            · refine .inr ⟨by dsimp only; omega, fun _ => ?_⟩
              -- A marker would end a table whose steps are all empty.
              rw [Option.isSome_iff_ne_none]
              intro none
              have ended := marker none
              obtain before | closed := closed
              · omega
              · have := positive closed
                omega
          · exact reaches other member

end

end Sismo.Go
