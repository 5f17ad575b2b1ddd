import Mathlib.Logic.Function.Basic
import Sismo.Lib.Machine
import Sismo.Sched.Waits

namespace Sismo.Sched.Offcpu

open Samples

/-! Threads that run, block, exit and get each other's ids, the hooks that
follow them, and the off-CPU samples that come of it. -/

inductive CallKind where
  | futex | recv | read
  deriving DecidableEq, Repr

/-- A call that a thread may wait in; a read carries the id of its file, 0 when
it has none. -/
inductive Call where
  | futex (uaddr : Nat)
  | recv (peer : Option (Nat × Nat))
  | read (id : Nat)
  deriving DecidableEq, Repr

def Call.kind : Call → CallKind
  | .futex _ => .futex
  | .recv _ => .recv
  | .read _ => .read

def Call.identity : Call → Nat
  | .futex uaddr => uaddr
  | .recv (some (port, daddr)) => peerTag port daddr
  | .recv none => 0
  | .read id => fileTag id

def enterHook (w : Waits) (tid : Nat) : Call → Waits
  | .futex uaddr => w.onFutexEnter tid uaddr
  | .recv peer => w.onTcpRecvmsg tid peer
  | .read id => w.onVfsRead tid id

def exitHook (w : Waits) (tid : Nat) : CallKind → Waits
  | .futex => w.onFutexExit tid
  | .recv => w.onTcpRecvmsgRet tid
  | .read => w.onVfsReadRet tid

structure Block where
  outTime : Nat
  ustack : List StackBuildId
  kids : List Nat
  inside : List Call

inductive Status where
  | unborn | ready | running | dead
  deriving DecidableEq, Repr

structure Thread where
  tid : Nat := 0
  tgid : Nat := 0
  status : Status := .unborn
  /-- It has been on a CPU. -/
  ran : Bool := false
  /-- The calls it is inside, the innermost first. -/
  inside : List Call := []
  /-- The voluntary switch-out after which it has not been on a CPU. -/
  block : Option Block := none

/-- A voluntary switch-out and the thread's next switch-in. -/
structure Pair where
  tid : Nat
  tgid : Nat
  block : Block
  inTime : Nat

structure State where
  threads : Nat → Thread := fun _ => {}
  /-- The live threads by id. -/
  pids : HashMap Nat Nat := ∅
  waits : Waits := {}
  clock : Nat := 0
  pairs : List Pair := []
  samples : List SampleRec := []

/-- Why a thread leaves its CPU: it may also be preempted when it has just set
its state to sleep. -/
inductive SwitchOut where
  | preempted | preemptedAsleep | blocks | exits
  deriving DecidableEq, Repr

/-- What the hook sees as a voluntary block: the state is not `TASK_RUNNING`. -/
def SwitchOut.notRunning : SwitchOut → Bool
  | .preempted => false
  | _ => true

inductive Event where
  /-- A new thread gets a free id. -/
  | spawn (thread tid tgid : Nat)
  | enter (thread : Nat) (call : Call)
  /-- The thread leaves its innermost call. -/
  | exit (thread : Nat)
  /-- An entry falls out of one of the LRU maps. -/
  | evict (tid : Nat) (kind : CallKind)
  | evictBlock (tid : Nat)
  /-- `sched_switch` from `prev` to `next`, where no thread is the idle one; the
  helper captures the stacks of `prev`. -/
  | switch (cpu : Nat) (prev : Option (Nat × SwitchOut)) (next : Option Nat)
      (outTime inTime : Nat) (ustack : List StackBuildId) (kids : List Nat)
      (room : Bool)

variable (tgt : Nat)

def targeted (thread : Thread) : Bool :=
  tgt = 0 ∨ thread.tgid = tgt

def State.setThread (s : State) (thread : Nat) (value : Thread) : State :=
  { s with threads := Function.update s.threads thread value }

def spawn (s : State) (thread tid tgid : Nat) : Option State :=
  if (s.threads thread).status = .unborn ∧ s.pids.lookup tid = none then
    some ({ s with pids := s.pids.insert tid thread }.setThread thread
      { tid := tid, tgid := tgid, status := .ready })
  else none

def enter (s : State) (thread : Nat) (call : Call) : Option State :=
  let t := s.threads thread
  if t.status = .running then
    let waits := if targeted tgt t then enterHook s.waits t.tid call else s.waits
    some ({ s with waits := waits }.setThread thread
      { t with inside := call :: t.inside })
  else none

def exit (s : State) (thread : Nat) : Option State :=
  let t := s.threads thread
  match t.inside with
  | call :: rest =>
      if t.status = .running then
        let waits :=
          if targeted tgt t then exitHook s.waits t.tid call.kind else s.waits
        some ({ s with waits := waits }.setThread thread
          { t with inside := rest })
      else none
  | [] => none

/-- The outgoing thread: its stacks are recorded when its state is not
`TASK_RUNNING`. -/
def switchOut (s : State) (prev : Option (Nat × SwitchOut)) (outTime : Nat)
    (ustack : List StackBuildId) (kids : List Nat) : Option State :=
  match prev with
  | none => some s
  | some (thread, why) =>
      let t := s.threads thread
      if t.status = .running then
        let waits :=
          if targeted tgt t ∧ why.notRunning then
            s.waits.offcpuRecordBlock t.tid outTime ustack kids
          else s.waits
        let moved :=
          match why with
          | .blocks =>
              { t with
                status := .ready
                block := some ⟨outTime, ustack, kids, t.inside⟩ }
          | .exits => { t with status := .dead }
          | _ => { t with status := .ready }
        let pids := if why = .exits then s.pids.erase t.tid else s.pids
        some ({ s with waits := waits, pids := pids }.setThread thread moved)
      else none

/-- The incoming thread: a block recorded under its id ends. -/
def switchIn (s : State) (cpu : Nat) (next : Option Nat) (inTime : Nat)
    (room : Bool) : Option State :=
  match next with
  | none => some s
  | some thread =>
      let t := s.threads thread
      if t.status = .ready then
        let pair := t.block.map fun block => ⟨t.tid, t.tgid, block, inTime⟩
        let running := { t with status := .running, ran := true, block := none }
        let s :=
          { s with pairs := s.pairs ++ pair.toList }.setThread thread running
        if targeted tgt t then
          let emitted :=
            if room then offcpuWake s.waits t.tid t.tgid cpu inTime else none
          some
            { s with
              samples := s.samples ++ emitted.toList
              waits := s.waits.clearBlock t.tid }
        else some s
      else none

def onSchedSwitch (s : State) (cpu : Nat) (prev : Option (Nat × SwitchOut))
    (next : Option Nat) (outTime inTime : Nat) (ustack : List StackBuildId)
    (kids : List Nat) (room : Bool) : Option State :=
  if s.clock ≤ outTime ∧ outTime ≤ inTime ∧ inTime < 2 ^ 64 ∧
      prev.map Prod.fst ≠ next then do
    let s ← switchOut tgt s prev outTime ustack kids
    let s ← switchIn tgt s cpu next inTime room
    some { s with clock := inTime }
  else none

def step (s : State) : Event → Option State
  | .spawn thread tid tgid => spawn s thread tid tgid
  | .enter thread call => enter tgt s thread call
  | .exit thread => exit tgt s thread
  | .evict tid kind => some { s with waits := exitHook s.waits tid kind }
  | .evictBlock tid => some { s with waits := s.waits.clearBlock tid }
  | .switch cpu prev next outTime inTime ustack kids room =>
      onSchedSwitch tgt s cpu prev next outTime inTime ustack kids room

/-! ### What is claimed of the samples -/

/-- The sample shows the pair. -/
structure Matches (rec : SampleRec) (pair : Pair) : Prop where
  tid : rec.tid = pair.tid
  pid : rec.pid = pair.tgid
  ts : rec.ts = pair.inTime
  duration : rec.dataAddr = pair.inTime - pair.block.outTime
  longEnough : minOffcpuNs ≤ rec.dataAddr
  stack : rec.stack = pair.block.ustack.take maxStack
  kernelIds : rec.kernelIds = pair.block.kids.take maxKernelStack
  identity : rec.counters 0 = 0 ∨
    ∃ call ∈ pair.block.inside, rec.counters 0 = call.identity

/-- Each sample shows a pair of its own. -/
def SamplesArePairs (s : State) : Prop :=
  ∃ shown, shown.Sublist s.pairs ∧ List.Forall₂ Matches s.samples shown

end Sismo.Sched.Offcpu
