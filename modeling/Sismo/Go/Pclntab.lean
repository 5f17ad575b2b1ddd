import Mathlib.Data.List.Sort
import Sismo.Lib.Word

namespace Sismo.Go

/-! The `.gopclntab` of a Go binary: its functions and the frame sizes of their
pcsp tables. -/

abbrev Bytes := List UInt8

def fromLe (bytes : Bytes) : Nat :=
  bytes.foldr (fun b n => b.toNat + 256 * n) 0

def readLe (data : Bytes) (size pos : Nat) : Option Nat :=
  if pos + size ≤ data.length then some (fromLe ((data.drop pos).take size))
  else none

def magic118 : Nat := 0xfffffff0

def magic120 : Nat := 0xfffffff1

/-- A parsed table. The functab is inside the section. -/
structure GoPclntab where
  data : Bytes
  textOff : Nat
  nfunc : Nat
  funcnameOff : Nat
  functabOff : Nat
  pctabOff : Nat
  textOff_lt : textOff < 2 ^ 64
  nfunc_pos : 0 < nfunc
  functab_le : functabOff + (nfunc + 1) * 8 ≤ data.length
  small : data.length ≤ 256 * 1024 * 1024

def GoPclntab.fromSection (data : Bytes) (textVaddr imageBase : Nat) :
    Option GoPclntab := do
  let textOff ← if imageBase ≤ textVaddr then some (textVaddr - imageBase)
    else none
  if inside : textOff < 2 ^ 64 ∧ 64 ≤ data.length ∧
      data.length ≤ 256 * 1024 * 1024 then
    let magic ← readLe data 4 0
    let ptrSize ← readLe data 1 7
    if (magic ≠ magic118 ∧ magic ≠ magic120) ∨ ptrSize ≠ 8 then none
    else
      let nfunc ← readLe data 8 8
      let funcnameOff ← readLe data 8 32
      let pctabOff ← readLe data 8 56
      let functabOff ← readLe data 8 64
      if parses : 0 < nfunc ∧ funcnameOff < data.length ∧
          pctabOff < data.length ∧
          functabOff + (nfunc + 1) * 8 ≤ data.length then
        some
          { data := data
            textOff := textOff
            nfunc := nfunc
            funcnameOff := funcnameOff
            functabOff := functabOff
            pctabOff := pctabOff
            textOff_lt := inside.1
            nfunc_pos := parses.1
            functab_le := parses.2.2.2
            small := inside.2.2 }
      else none
  else none

/-! The varints of the pc-value tables. A table is the rest of the section from
its cursor on. -/

def readUvarintLoop : Bytes → UInt32 → Nat → Option (UInt32 × Bytes)
  | [], _, _ => none
  | b :: rest, result, shift =>
      let result := result ||| ((b &&& 0x7f).toUInt32 <<< UInt32.ofNat shift)
      if b &&& 0x80 = 0 then some (result, rest)
      else if 32 ≤ shift + 7 then none
      else readUvarintLoop rest result (shift + 7)

def readUvarint (table : Bytes) : Option (UInt32 × Bytes) :=
  readUvarintLoop table 0 0

theorem readUvarintLoop_length {table rest : Bytes} {result uv : UInt32}
    {shift : Nat} (read : readUvarintLoop table result shift = some (uv, rest)) :
    rest.length < table.length := by
  induction table generalizing result shift with
  | nil => cases read
  | cons b table induction =>
      unfold readUvarintLoop at read
      dsimp only at read
      split at read
      · cases read
        exact Nat.lt_succ_self _
      · split at read
        · cases read
        · exact Nat.lt_succ_of_lt (induction read)

/-- Each varint takes at least one byte. -/
theorem readUvarint_length {table rest : Bytes} {uv : UInt32}
    (read : readUvarint table = some (uv, rest)) :
    rest.length < table.length :=
  readUvarintLoop_length read

def zigzag (uvdelta : UInt32) : Int32 :=
  if uvdelta &&& 1 ≠ 0 then (~~~(uvdelta >>> 1)).toInt32
  else (uvdelta >>> 1).toInt32

def pcvalueLoop (table : Bytes) (val : Int32) (pc : Nat) (first : Bool)
    (target : Nat) : Option Int32 :=
  match _value : readUvarint table with
  | none => none
  | some (uvdelta, deltas) =>
      if uvdelta = 0 ∧ first = false then none
      else
        let val := val + zigzag uvdelta
        match _step : readUvarint deltas with
        | none => none
        | some (pcdelta, rest) =>
            let pc := u32 (pc + pcdelta.toNat)
            if target < pc then some val
            else pcvalueLoop rest val pc false target
termination_by table.length
decreasing_by
  exact (readUvarint_length _step).trans (readUvarint_length _value)

def pcvalue (data : Bytes) (tableOff entry target : Nat) : Option Int32 :=
  pcvalueLoop (data.drop tableOff) (-1) entry true target

def pcspRowsLoop (table : Bytes) (val : Int32) (pc : Nat) (first : Bool) :
    List (Nat × Option Int) :=
  match _value : readUvarint table with
  | none => [(pc, none)]
  | some (uvdelta, deltas) =>
      if uvdelta = 0 ∧ first = false then [(pc, none)]
      else
        let val := val + zigzag uvdelta
        (pc, some val.toInt) ::
          match _step : readUvarint deltas with
          | none => [(pc, none)]
          | some (pcdelta, rest) =>
              pcspRowsLoop rest val (u32 (pc + pcdelta.toNat)) false
termination_by table.length
decreasing_by
  exact (readUvarint_length _step).trans (readUvarint_length _value)

/-- The order of the rows: by pc, and an end marker before a value. -/
def rowLe (row other : Nat × Option Int) : Prop :=
  row.1 < other.1 ∨ row.1 = other.1 ∧ (row.2.isSome → other.2.isSome)

instance : DecidableRel rowLe := fun row other => by
  unfold rowLe
  infer_instance

namespace GoPclntab

variable (go : GoPclntab)

def functab (i : Nat) : Nat × Nat :=
  let base := go.functabOff + i * 8
  (fromLe ((go.data.drop base).take 4), fromLe ((go.data.drop (base + 4)).take 4))

def findFuncLoop (q lo hi : Nat) : Nat :=
  if lo + 1 < hi then
    let mid := (lo + hi) / 2
    if (go.functab mid).1 ≤ q then findFuncLoop q mid hi
    else findFuncLoop q lo mid
  else lo
termination_by hi - lo

def findFunc (q : Nat) : Option (Nat × Nat) :=
  if q < (go.functab 0).1 ∨ (go.functab go.nfunc).1 ≤ q then none
  else some (go.functab (go.findFuncLoop q 0 go.nfunc))

def pcspOff (funcoff : Nat) : Option Nat := do
  let pcsp ← readLe go.data 4 (go.functabOff + funcoff + 16)
  some (go.pctabOff + pcsp)

def frameSize (addr : Nat) : Option Int := do
  let q ← if go.textOff ≤ addr then some (addr - go.textOff) else none
  if q < 2 ^ 32 then
    let (entryoff, funcoff) ← go.findFunc q
    let tableOff ← go.pcspOff funcoff
    (pcvalue go.data tableOff entryoff q).map Int32.toInt
  else none

def functionRows (i : Nat) : List (Nat × Option Int) :=
  let (entryoff, funcoff) := go.functab i
  match go.pcspOff funcoff with
  | none => []
  | some tableOff => pcspRowsLoop (go.data.drop tableOff) (-1) entryoff true

def pcspRows : List (Nat × Option Int) :=
  (((List.range go.nfunc).flatMap go.functionRows).map fun row =>
    (u64 (go.textOff + row.1), row.2)).insertionSort rowLe

def unwindLoop (moduleBaseAvma : Nat) (readStack : Nat → Option Nat) :
    (left pc sp : Nat) → List Nat
  | 0, _, _ => []
  | left + 1, pc, sp =>
      pc ::
        match go.frameSize (wrappingSub pc moduleBaseAvma) with
        | none => []
        | some frameSize =>
            if frameSize < 0 then []
            else
              let callerSp := u64 (sp + frameSize.toNat)
              match readStack callerSp with
              | none => []
              | some ret =>
                  if ret = 0 then []
                  else unwindLoop moduleBaseAvma readStack left ret
                    (u64 (callerSp + 8))

def unwind (moduleBaseAvma pc0 sp0 : Nat) (readStack : Nat → Option Nat)
    (maxPcs : Nat) : List Nat :=
  go.unwindLoop moduleBaseAvma readStack maxPcs pc0 sp0

end GoPclntab

end Sismo.Go
