import Mathlib.Logic.Function.Basic
import Sismo.Unwind.Format

namespace Sismo.Unwind

/-! The walker: one step up the stack and the tail-call driver. -/

def maxStack : Nat := 64

inductive UnwindStatus where
  | running | done | failed | notRun
  deriving DecidableEq, Repr

inductive UnwindError where
  | none | mapping | anon | page | search | cfa | read | truncated
  deriving DecidableEq, Repr

/-- The memory `bpf_probe_read_user` reads eight bytes of at a time; only user
addresses can be read. -/
structure UserMemory where
  read : Nat → Option Nat
  user : ∀ address value, read address = some value → address < 2 ^ 63
  word : ∀ address value, read address = some value → value < 2 ^ 64

structure UnwindRun where
  ip : Nat
  sp : Nat
  bp : Nat
  pid : Nat
  n : Nat := 0
  status : UnwindStatus := .running
  err : UnwindError := .none
  pcs : Nat → Nat

def UnwindRun.fail (run : UnwindRun) (err : UnwindError) : UnwindRun :=
  { run with err := err, status := .failed }

def unwindPushIp (run : UnwindRun) : UnwindRun :=
  if run.n < maxStack then
    { run with
      pcs := Function.update run.pcs (run.n &&& (maxStack - 1)) run.ip
      n := run.n + 1 }
  else run

section

variable (mem : UserMemory)

/-- A step's result: the run, and whether it is finished. -/
def unwindLeafGuess (run : UnwindRun) (err : UnwindError) : UnwindRun × Bool :=
  let ra := (mem.read run.sp).getD 0
  if run.n = 0 ∧ ra ≠ 0 then
    ({ run with
        pcs := Function.update run.pcs 0 run.ip
        n := 1
        ip := ra - 1
        sp := u64 (run.sp + 8) }, false)
  else
    let run := if 0 < run.n then unwindPushIp run else run
    (run.fail err, true)

def previousRsp (run : UnwindRun) (row : StackUnwindRow) :
    Except UnwindError Nat :=
  match row.cfaType with
  | .rbp => .ok (u64 (run.bp + row.cfaOffset))
  | .rsp => .ok (u64 (run.sp + row.cfaOffset))
  | .derefAndAdd =>
      match mem.read (u64 (run.sp + row.cfaOffset / 256)) with
      | none => .error .read
      | some value => .ok (u64 (value + row.cfaOffset % 256))
  | .plt1 => .ok (u64 (run.sp + 8 + if 11 ≤ run.ip % 16 then 8 else 0))
  | .plt2 => .ok (u64 (run.sp + 8 + if 10 ≤ run.ip % 16 then 8 else 0))
  | _ => .error .cfa

def unwindCaller (run : UnwindRun) (row : StackUnwindRow) :
    UnwindRun × Bool :=
  if row.rbpType = .register ∨ row.rbpType = .expression then
    (run.fail .cfa, true)
  else
    match previousRsp mem run row with
    | .error err => (run.fail err, true)
    | .ok previousRsp =>
        if previousRsp = 0 then (run.fail .read, true)
        else
          let previousRbp :=
            if row.rbpType = .unchanged then some run.bp
            else mem.read (wrappingAddSigned previousRsp row.rbpOffset)
          match previousRbp with
          | none => (run.fail .read, true)
          | some previousRbp =>
              match mem.read (wrappingSub previousRsp 8) with
              | none => (run.fail .read, true)
              | some previousRip =>
                  if previousRip = 0 then ({ run with status := .done }, true)
                  else
                    ({ run with
                        ip := previousRip - 1
                        sp := previousRsp
                        bp := previousRbp }, false)

def unwindRow (run : UnwindRun) (row : StackUnwindRow) : UnwindRun × Bool :=
  if row.cfaType = .endOfFdeMarker then
    if run.n = 0 then unwindLeafGuess mem run .search
    else ({ unwindPushIp run with status := .done }, true)
  else if row.rbpType = .undefinedReturnAddress then
    ({ run with status := .done }, true)
  else if row.cfaType = .offsetDidNotFit ∨ row.rbpType = .offsetDidNotFit then
    if run.n = 0 then unwindLeafGuess mem run .cfa
    else (run.fail .cfa, true)
  else if run.n < maxStack then unwindCaller mem (unwindPushIp run) row
  else (run.fail .truncated, true)

variable (maps : Maps)

def unwindStep (run : UnwindRun) : UnwindRun × Bool :=
  match maps.unwindFindMapping run.pid run.ip with
  | none => unwindLeafGuess mem run .mapping
  | some mapping =>
      if run.ip < mapping.begin ∨ mapping.end_ ≤ run.ip then
        (run.fail .mapping, true)
      else if mapping.type = .anon then (run.fail .anon, true)
      else
        match maps.lookupRow mapping run.ip with
        | .noPage => unwindLeafGuess mem run .page
        | .notFound => (run.fail .search, true)
        | .found index =>
            match maps.row index with
            | none => ({ run with status := .failed }, true)
            | some row => unwindRow mem run row

def framesPerProg : Nat := 7

def maxTailCalls : Nat := 12

def unwindLoop : (iterations : Nat) → UnwindRun → UnwindRun
  | 0, run => run
  | iterations + 1, run =>
      match unwindStep mem maps run with
      | (run, true) => run
      | (run, false) => unwindLoop iterations run

/-- The walker program, up to the emit. A tail call returns only on failure. -/
def unwindWalk (tailCall : Nat → Bool) (tailCalls : Nat) (run : UnwindRun) :
    UnwindRun :=
  let run := unwindLoop mem maps framesPerProg run
  if run.status = .running then
    if run.n < maxStack ∧ tailCalls < maxTailCalls ∧
        tailCall (tailCalls + 1) = true then
      unwindWalk tailCall (tailCalls + 1) run
    else run.fail .truncated
  else run
termination_by maxTailCalls - tailCalls

end

end Sismo.Unwind
