import Mathlib.Data.List.Basic
import Sismo.Lib.Doorbell

namespace Sismo.Kdebug.RingHost

/-! The host of the shared kdebug ring: the SDK's callbacks store into the
control blocks and set the event, the one worker drains and acknowledges. -/

def drainCapacityEvents : Nat := 256 * 1024

/-- A source's control block.  `hosted`: its consumer exists once the ring is
open.  The rest is history, with events numbered as the kernel logs them: where
it last began to run, where the pending stop came, the batches its consumer
got, the stoppers a later stop replaced. -/
structure ConsumerCtl where
  running : Bool := false
  pendingStopper : Nat := 0
  hosted : Bool := false
  startedAt : Nat := 0
  stopAt : Nat := 0
  fed : List (Nat × Nat) := []
  replaced : List Nat := []
  deriving DecidableEq, Repr

namespace ConsumerCtl

variable (ctl : ConsumerCtl)

def start (logged : Nat) : ConsumerCtl :=
  { ctl with
    running := true
    startedAt := if ctl.running then ctl.startedAt else logged }

def stop (handle logged : Nat) : ConsumerCtl :=
  { ctl with
    pendingStopper := handle
    stopAt := logged
    replaced :=
      if ctl.pendingStopper = 0 then ctl.replaced
      else ctl.replaced ++ [ctl.pendingStopper] }

def swap : ConsumerCtl :=
  { ctl with pendingStopper := 0 }

def clear : ConsumerCtl :=
  { ctl with running := false }

def onDrain (batch : Nat × Nat) : ConsumerCtl :=
  if ctl.hosted && ctl.running then { ctl with fed := ctl.fed ++ [batch] }
  else ctl

end ConsumerCtl

/-- The kernel's buffer holds the events from `head` up to `tail`. -/
structure KernelRing where
  head : Nat := 0
  tail : Nat := 0
  overwritten : List Nat := []
  deriving DecidableEq, Repr

/-- One more event, for which the `lost` oldest give way: at least as many as
leave it room. -/
def KernelRing.log (room lost : Nat) (ring : KernelRing) :
    Option KernelRing :=
  if ring.head + lost ≤ ring.tail ∧ ring.tail < ring.head + lost + room then
    some ⟨ring.head + lost, ring.tail + 1,
      ring.overwritten ++ List.range' ring.head lost⟩
  else none

def KernelRing.upTo (ring : KernelRing) : Nat :=
  min ring.tail (ring.head + drainCapacityEvents)

structure Stopper where
  handle : Nat
  source : Nat
  stopAt : Nat
  deriving DecidableEq, Repr

/-- The loop's drain, and the one before the acknowledgements. -/
inductive Drain where
  | interval
  | final (stoppers : List Stopper)
  deriving DecidableEq, Repr

/-- What `any_running` is asked for. -/
inductive Use where
  | drain | rest
  deriving DecidableEq, Repr

inductive Place where
  | setupWhile
  | setupCount
  | setupReset
  | setupAgain
  | setupAgainCount
  | setupWait
  | setupEnd
  | opening
  | loopReset
  | checkExit
  | scan (use : Use) (source : Nat)
  | reading (drain : Drain)
  | feeding (drain : Drain) (batch : Nat × Nat) (source : Nat)
  | collecting (source : Nat) (stoppers : List Stopper)
  | acking (stoppers : List Stopper)
  | clearing (source : Nat) (rest : List Stopper)
  | lastExit
  | waiting (timed : Bool)
  | exited
  deriving DecidableEq, Repr

/-- `live`: the stop handles the SDK has allocated and the host not yet given
back. -/
structure State where
  exitRequested : Bool := false
  setupsNeeded : Nat := 0
  setupsReceived : Nat := 0
  ctls : List ConsumerCtl := []
  ring : KernelRing := {}
  issued : List Nat := []
  live : List Nat := []
  acked : List Nat := []
  place : Place := .setupWhile
  deriving DecidableEq, Repr

/-- What the callbacks and `shutdown` store before they set the event. -/
inductive Request where
  | setup
  | start (source : Nat)
  | stop (source : Nat) (stopper : Nat)
  | exit
  deriving DecidableEq, Repr

/-- Whether the ring opens, and whether a read of it succeeds. -/
inductive Outcome where
  | done | failed
  deriving DecidableEq, Repr

/-- The SDK's handles are pointers to what it has just allocated. -/
def apply (s : State) : Request → Option State
  | .setup => some { s with setupsReceived := s.setupsReceived + 1 }
  | .start source =>
      some { s with
        ctls := s.ctls.modify source fun ctl => ctl.start s.ring.tail }
  | .stop source stopper =>
      if stopper = 0 then some s
      else if stopper ∈ s.live ∨ s.ctls.length ≤ source then none
      else some { s with
        ctls := s.ctls.modify source fun ctl => ctl.stop stopper s.ring.tail
        issued := s.issued ++ [stopper]
        live := s.live ++ [stopper] }
  | .exit => some { s with exitRequested := true }

def footing (s : State) : Footing :=
  match s.place with
  | .setupReset => .reset
  | .loopReset => .reset
  | .setupWait => .wait false
  | .waiting timed => .wait timed
  | _ => .plain

def afterScan (running : Bool) : Use → Place
  | .drain => if running then .reading .interval else .collecting 0 []
  | .rest => .waiting running

def afterDrain : Drain → Place
  | .interval => .collecting 0 []
  | .final stoppers => .acking stoppers

def afterCollect : List Stopper → Place
  | [] => .lastExit
  | stoppers => .reading (.final stoppers)

def work (s : State) (outcome : Outcome) : Option State :=
  match s.place with
  | .setupWhile =>
      if s.exitRequested then some { s with place := .setupEnd }
      else some { s with place := .setupCount }
  | .setupCount =>
      if s.setupsReceived < s.setupsNeeded then
        some { s with place := .setupReset }
      else some { s with place := .setupEnd }
  | .setupReset => some { s with place := .setupAgain }
  | .setupAgain =>
      if s.exitRequested then some { s with place := .setupEnd }
      else some { s with place := .setupAgainCount }
  | .setupAgainCount =>
      if s.setupsNeeded ≤ s.setupsReceived then
        some { s with place := .setupEnd }
      else some { s with place := .setupWait }
  | .setupWait => some { s with place := .setupWhile }
  | .setupEnd =>
      if s.exitRequested then some { s with place := .exited }
      else some { s with place := .opening }
  | .opening =>
      match outcome with
      | .done => some { s with place := .loopReset }
      | .failed => some { s with place := .exited }
  | .loopReset => some { s with place := .checkExit }
  | .checkExit =>
      if s.exitRequested then some { s with place := .exited }
      else some { s with place := .scan .drain 0 }
  | .scan use source =>
      match s.ctls[source]? with
      | none => some { s with place := afterScan false use }
      | some ctl =>
          if ctl.running then some { s with place := afterScan true use }
          else some { s with place := .scan use (source + 1) }
  | .reading drain =>
      match outcome with
      | .done =>
          some { s with
            ring := { s.ring with head := s.ring.upTo }
            place := .feeding drain (s.ring.head, s.ring.upTo) 0 }
      | .failed =>
          some { s with
            place := .feeding drain (s.ring.head, s.ring.head) 0 }
  | .feeding drain batch source =>
      if source < s.ctls.length then
        some { s with
          ctls := s.ctls.modify source fun ctl => ctl.onDrain batch
          place := .feeding drain batch (source + 1) }
      else some { s with place := afterDrain drain }
  | .collecting source stoppers =>
      match s.ctls[source]? with
      | none => some { s with place := afterCollect stoppers }
      | some ctl =>
          let stoppers :=
            if ctl.pendingStopper = 0 then stoppers
            else stoppers ++ [⟨ctl.pendingStopper, source, ctl.stopAt⟩]
          some { s with
            ctls := s.ctls.modify source fun ctl => ctl.swap
            place := .collecting (source + 1) stoppers }
  | .acking [] => some { s with place := .lastExit }
  | .acking (stopper :: rest) =>
      some { s with
        live := s.live.erase stopper.handle
        acked := s.acked ++ [stopper.handle]
        place := .clearing stopper.source rest }
  | .clearing source rest =>
      some { s with
        ctls := s.ctls.modify source fun ctl => ctl.clear
        place := .acking rest }
  | .lastExit =>
      if s.exitRequested then some { s with place := .exited }
      else some { s with place := .scan .rest 0 }
  | .waiting _ => some { s with place := .loopReset }
  | .exited => none

/-- The program of the host, over a kernel buffer of `room` events; what else
happens is that an event is logged. -/
def program (room : Nat) : Program State Request Nat Outcome where
  apply := apply
  disturb := fun s lost =>
    (s.ring.log room lost).map fun ring => { s with ring := ring }
  footing := footing
  work := work

/-- `start`, with the sources whose consumers the opened ring will have. -/
def initial (hosted : List Bool) : Served State Request where
  memory :=
    { ctls := hosted.map fun hosted => { hosted }
      setupsNeeded := hosted.length }

def Reachable (room : Nat) (hosted : List Bool) (s : Served State Request) :
    Prop :=
  Machine.Reachable (program room).step (initial hosted) s

end Sismo.Kdebug.RingHost
