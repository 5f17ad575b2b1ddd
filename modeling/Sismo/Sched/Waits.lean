import Sismo.Lib.HashMap
import Sismo.Samples.Records

namespace Sismo.Sched

open Samples

/-! What the hooks know of waiting threads, in maps keyed by thread id. -/

structure BlockState where
  startNs : Nat
  blockId : Nat
  nrFrames : Nat
  ustack : List StackBuildId
  kids : List Nat

structure Waits where
  futexWait : HashMap Nat Nat := ∅
  netPeer : HashMap Nat Nat := ∅
  diskFile : HashMap Nat Nat := ∅
  offcpu : HashMap Nat BlockState := ∅

def minOffcpuNs : Nat := 10000

/-- Bit 63 tags a block identity as a TCP peer. -/
def peerTag (port daddr : Nat) : Nat :=
  2 ^ 63 ||| port <<< 32 ||| daddr

/-- Bit 62 tags a block identity as a file id. -/
def fileTag (id : Nat) : Nat :=
  2 ^ 62 ||| id

def fileId (blockId : Nat) : Option Nat :=
  if blockId.testBit 62 then some (u32 blockId) else none

namespace Waits

def onFutexEnter (w : Waits) (tid uaddr : Nat) : Waits :=
  { w with futexWait := w.futexWait.insert tid uaddr }

def onFutexExit (w : Waits) (tid : Nat) : Waits :=
  { w with futexWait := w.futexWait.erase tid }

/-- A peer that is not IPv4 is stored as 0. -/
def onTcpRecvmsg (w : Waits) (tid : Nat) (peer : Option (Nat × Nat)) : Waits :=
  let value :=
    match peer with
    | some (port, daddr) => peerTag port daddr
    | none => 0
  { w with netPeer := w.netPeer.insert tid value }

def onTcpRecvmsgRet (w : Waits) (tid : Nat) : Waits :=
  { w with netPeer := w.netPeer.erase tid }

def onVfsRead (w : Waits) (tid id : Nat) : Waits :=
  if id = 0 then w
  else { w with diskFile := w.diskFile.insert tid (fileTag id) }

def onVfsReadRet (w : Waits) (tid : Nat) : Waits :=
  { w with diskFile := w.diskFile.erase tid }

end Waits

inductive WaitHook where
  | futexEnter (uaddr : Nat)
  | futexExit
  | recvEnter (peer : Option (Nat × Nat))
  | recvExit
  | readExit

namespace Waits

def hook (w : Waits) (tid : Nat) : WaitHook → Waits
  | .futexEnter uaddr => w.onFutexEnter tid uaddr
  | .futexExit => w.onFutexExit tid
  | .recvEnter peer => w.onTcpRecvmsg tid peer
  | .recvExit => w.onTcpRecvmsgRet tid
  | .readExit => w.onVfsReadRet tid

/-- A block names at most one thing: a futex before a peer before a file. -/
def blockId (w : Waits) (tid : Nat) : Nat :=
  match w.futexWait.lookup tid, w.netPeer.lookup tid,
      w.diskFile.lookup tid with
  | some uaddr, _, _ => uaddr
  | none, some peer, _ => peer
  | none, none, some file => file
  | none, none, none => 0

def offcpuRecordBlock (w : Waits) (tid now : Nat) (ustack : List StackBuildId)
    (kids : List Nat) : Waits :=
  let state :=
    { startNs := now
      blockId := w.blockId tid
      nrFrames := min ustack.length maxStack
      ustack := ustack
      kids := kids.take maxKernelStack }
  { w with offcpu := w.offcpu.insert tid state }

end Waits

def offcpuRec (state : BlockState) (tid tgid cpu now : Nat) : SampleRec where
  ts := now
  cpu := cpu
  pid := tgid
  tid := tid
  nrFrames := state.nrFrames
  nrKernelFrames := state.kids.length
  nrPyFrames := 0
  dataAddr := wrappingSub now state.startNs
  counters slot := if slot = 0 then state.blockId else 0
  stack := state.ustack.take state.nrFrames
  kernelIds := state.kids

/-- Switched in: the record of the block that ends, unless it was too short. -/
def offcpuWake (w : Waits) (tid tgid cpu now : Nat) : Option SampleRec :=
  match w.offcpu.lookup tid with
  | some state =>
      if minOffcpuNs ≤ wrappingSub now state.startNs then
        some (offcpuRec state tid tgid cpu now)
      else none
  | none => none

theorem offcpuWake_cases {w : Waits} {tid tgid cpu now : Nat}
    {rec : SampleRec} (woken : offcpuWake w tid tgid cpu now = some rec) :
    ∃ state, w.offcpu.lookup tid = some state ∧
      minOffcpuNs ≤ wrappingSub now state.startNs ∧
      rec = offcpuRec state tid tgid cpu now := by
  unfold offcpuWake at woken
  split at woken
  · next state found =>
      split at woken
      · next long => exact ⟨state, found, long, (Option.some.inj woken).symm⟩
      · cases woken
  · cases woken

def Waits.clearBlock (w : Waits) (tid : Nat) : Waits :=
  { w with offcpu := w.offcpu.erase tid }

/-! ### The block identities stored in the maps -/

inductive Waits.Stores (w : Waits) : Nat → Prop where
  | futex {tid value : Nat} (found : w.futexWait.lookup tid = some value) :
      Waits.Stores w value
  | peer {tid value : Nat} (found : w.netPeer.lookup tid = some value) :
      Waits.Stores w value
  | file {tid value : Nat} (found : w.diskFile.lookup tid = some value) :
      Waits.Stores w value
  | block {tid : Nat} {state : BlockState}
      (found : w.offcpu.lookup tid = some state) :
      Waits.Stores w state.blockId

/-- A futex address is one of user space, and a peer is IPv4. -/
def WaitHook.wellFormed : WaitHook → Bool
  | .futexEnter uaddr => uaddr < 2 ^ 48
  | .recvEnter (some (port, daddr)) => port < 2 ^ 16 ∧ daddr < 2 ^ 32
  | _ => true

theorem fileId_of_lt {value : Nat} (small : value < 2 ^ 62) :
    fileId value = none := by
  rw [fileId, Nat.testBit_lt_two_pow small]
  rfl

theorem fileId_peerTag {port daddr : Nat} (portSmall : port < 2 ^ 16)
    (daddrSmall : daddr < 2 ^ 32) : fileId (peerTag port daddr) = none := by
  have shifted : port <<< 32 < 2 ^ 62 := by
    rw [Nat.shiftLeft_eq]
    omega
  have small : daddr < 2 ^ 62 := by omega
  have tag : (2 ^ 63).testBit 62 = false :=
    Nat.testBit_two_pow_of_ne (by decide)
  rw [fileId, peerTag, Nat.testBit_or, Nat.testBit_or, tag,
    Nat.testBit_lt_two_pow shifted, Nat.testBit_lt_two_pow small]
  rfl

theorem fileId_fileTag (id : Nat) : fileId (fileTag id) = some (u32 id) := by
  have tagged : (fileTag id).testBit 62 = true := by
    rw [fileTag, Nat.testBit_or, Nat.testBit_two_pow_self, Bool.true_or]
  have low : u32 (fileTag id) = u32 id := by
    rw [u32, fileTag, Nat.or_mod_two_pow]
    exact Nat.zero_or _
  rw [fileId, if_pos tagged, low]

namespace Waits

variable {w : Waits} {tid value : Nat}

theorem stores_hook {hook : WaitHook} (wellFormed : hook.wellFormed = true)
    (stores : (w.hook tid hook).Stores value) :
    w.Stores value ∨ fileId value = none := by
  cases hook with
  | futexEnter uaddr =>
      have small : uaddr < 2 ^ 48 := of_decide_eq_true wellFormed
      cases stores with
      | futex found =>
          rw [Waits.hook, onFutexEnter, HashMap.lookup_insert_eq] at found
          split at found
          · cases found
            exact .inr (fileId_of_lt (by omega))
          · exact .inl (.futex found)
      | peer found => exact .inl (.peer found)
      | file found => exact .inl (.file found)
      | block found => exact .inl (.block found)
  | futexExit =>
      cases stores with
      | futex found =>
          rw [Waits.hook, onFutexExit, HashMap.lookup_erase_eq] at found
          split at found
          · cases found
          · exact .inl (.futex found)
      | peer found => exact .inl (.peer found)
      | file found => exact .inl (.file found)
      | block found => exact .inl (.block found)
  | recvEnter peer =>
      cases stores with
      | futex found => exact .inl (.futex found)
      | peer found =>
          simp only [Waits.hook, onTcpRecvmsg, HashMap.lookup_insert_eq]
            at found
          split at found
          · cases found
            cases peer with
            | none => exact .inr (fileId_of_lt (by decide))
            | some address =>
                have small := of_decide_eq_true wellFormed
                exact .inr (fileId_peerTag small.1 small.2)
          · exact .inl (.peer found)
      | file found => exact .inl (.file found)
      | block found => exact .inl (.block found)
  | recvExit =>
      cases stores with
      | futex found => exact .inl (.futex found)
      | peer found =>
          rw [Waits.hook, onTcpRecvmsgRet, HashMap.lookup_erase_eq] at found
          split at found
          · cases found
          · exact .inl (.peer found)
      | file found => exact .inl (.file found)
      | block found => exact .inl (.block found)
  | readExit =>
      cases stores with
      | futex found => exact .inl (.futex found)
      | peer found => exact .inl (.peer found)
      | file found =>
          rw [Waits.hook, onVfsReadRet, HashMap.lookup_erase_eq] at found
          split at found
          · cases found
          · exact .inl (.file found)
      | block found => exact .inl (.block found)

theorem stores_onVfsRead {id : Nat}
    (stores : (w.onVfsRead tid id).Stores value) :
    w.Stores value ∨ value = fileTag id := by
  unfold onVfsRead at stores
  split at stores
  · exact .inl stores
  · cases stores with
    | futex found => exact .inl (.futex found)
    | peer found => exact .inl (.peer found)
    | file found =>
        rw [HashMap.lookup_insert_eq] at found
        split at found
        · exact .inr (Option.some.inj found).symm
        · exact .inl (.file found)
    | block found => exact .inl (.block found)

theorem blockId_stored (tid : Nat) :
    w.Stores (w.blockId tid) ∨ w.blockId tid = 0 := by
  unfold blockId
  cases futex : w.futexWait.lookup tid with
  | some uaddr => exact .inl (.futex futex)
  | none =>
      cases peer : w.netPeer.lookup tid with
      | some address => exact .inl (.peer peer)
      | none =>
          cases file : w.diskFile.lookup tid with
          | some tag => exact .inl (.file file)
          | none => exact .inr rfl

theorem stores_offcpuRecordBlock {now : Nat} {ustack : List StackBuildId}
    {kids : List Nat}
    (stores : (w.offcpuRecordBlock tid now ustack kids).Stores value) :
    w.Stores value ∨ value = 0 := by
  cases stores with
  | futex found => exact .inl (.futex found)
  | peer found => exact .inl (.peer found)
  | file found => exact .inl (.file found)
  | block found =>
      rw [offcpuRecordBlock, HashMap.lookup_insert_eq] at found
      split at found
      · cases found
        exact blockId_stored tid
      · exact .inl (.block found)

theorem stores_clearBlock (stores : (w.clearBlock tid).Stores value) :
    w.Stores value := by
  cases stores with
  | futex found => exact .futex found
  | peer found => exact .peer found
  | file found => exact .file found
  | block found =>
      rw [clearBlock, HashMap.lookup_erase_eq] at found
      split at found
      · cases found
      · exact .block found

end Waits

end Sismo.Sched
