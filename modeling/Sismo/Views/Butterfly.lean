import Mathlib.Data.Rat.Defs
import Mathlib.Data.String.Basic
import Sismo.Lib.Counting
import Sismo.Lib.Relational
import Sismo.Lib.RecursiveUnion
import Sismo.Views.OffcpuWaits

namespace Sismo.Views.FocusView

/-! The callers and callees of one function, as the queries count them. -/

structure Callsite where
  id : Nat
  parentId : Option Nat
  frameId : Nat
  deriving DecidableEq, Repr

structure Frame where
  id : Nat
  name : Option String
  mapping : Option Nat
  symbolSetId : Option Nat
  deriving DecidableEq, Repr

structure Mapping where
  id : Nat
  name : Option String
  deriving DecidableEq, Repr

structure ProfileSymbol where
  id : Nat
  symbolSetId : Nat
  name : Option String
  deriving DecidableEq, Repr

structure Thread where
  utid : Nat
  upid : Option Nat
  deriving DecidableEq, Repr

/-- The ids are keys, and the callsites are a forest: the rank is any measure
that falls along the parents. -/
structure Tables where
  callsites : List Callsite
  frames : List Frame
  mappings : List Mapping
  symbols : List ProfileSymbol
  threads : List Thread
  samples : List PerfSample
  callsite_ids : (callsites.map (·.id)).Nodup
  frame_ids : (frames.map (·.id)).Nodup
  mapping_ids : (mappings.map (·.id)).Nodup
  rank : Nat → Nat
  rank_parent : ∀ c ∈ callsites, ∀ parent, c.parentId = some parent →
    rank parent < rank c.id

def splitLimit : Nat := 50

structure ButterflyEdge where
  name : String
  mapping : Option String
  samples : Nat
  share : ℚ

structure Butterfly where
  name : String
  selfSamples : Nat
  inclusiveSamples : Nat
  scopeSamples : Nat
  callers : List ButterflyEdge
  callees : List ButterflyEdge

/-- A function as the rows are grouped: its name and its mapping's name. -/
abbrev Shown := String × Option String

namespace Tables

section

-- The SQL function `demangle`, and the processes of the privileged set.
variable (demangle : String → Option String) (upids : List Nat)
  (tables : Tables)

/-- `sampleScopePredicate` -/
def inScope (s : PerfSample) : Bool :=
  upids = [] ∨ s.utid ∈ (tables.threads.filter fun t =>
    upids.any fun upid => sqlEq t.upid (some upid)).map (·.utid)

/-! An id is a key, so a join on one finds a row at most. -/

def callsite (id : Nat) : Option Callsite :=
  tables.callsites.find? (·.id = id)

def frameOf (c : Callsite) : Option Frame :=
  tables.frames.find? (·.id = c.frameId)

def mappingName (f : Frame) : Option String :=
  (tables.mappings.find? fun m => sqlEq (some m.id) f.mapping).bind (·.name)

def symbolName (f : Frame) : Option String :=
  ((tables.symbols.filter fun s =>
    sqlEq (some s.symbolSetId) f.symbolSetId).insertionSort
      fun first second => first.id ≤ second.id).head?.bind (·.name)

/-- `frameNameExpr` without a fallback. -/
def frameName (f : Frame) : Option String :=
  let sym := tables.symbolName f
  let name := f.name.filter (· ≠ "")
  (((sym.or name).bind demangle).or sym).or name

def shown (c : Callsite) : Option Shown :=
  (tables.frameOf c).map fun f =>
    ((tables.frameName demangle f).getD "[unsymbolised]",
      tables.mappingName f)

def named (name : String) (c : Callsite) : Bool :=
  match tables.frameOf c with
  | some f => sqlEq (tables.frameName demangle f) (some name)
  | none => false

def matchcs (name : String) : List Nat :=
  (tables.callsites.filter (tables.named demangle name)).map (·.id)

def children (id : Nat) : List Nat :=
  (tables.callsites.filter fun c => sqlEq c.parentId (some id)).map (·.id)

def descendants (name : String) : List Nat :=
  recursiveUnion tables.children tables.callsites.length
    (tables.matchcs demangle name).dedup

/-- `sub`: each root with the callsites at and below it. -/
def sub (roots : List Nat) : List (Nat × Nat) :=
  recursiveUnion (fun su => (tables.children su.2).map (su.1, ·))
    (roots.length * tables.callsites.length)
    (roots.map fun root => (root, root)).dedup

abbrev Site := Nat × Shown

def parents (name : String) : List Site :=
  (tables.matchcs demangle name).filterMap fun m => do
    let c ← tables.callsite m
    let pc ← c.parentId.bind tables.callsite
    let edge ← tables.shown demangle pc
    some (m, edge)

def kids (name : String) : List Site :=
  tables.callsites.flatMap fun c =>
    ((tables.matchcs demangle name).filter fun m =>
      sqlEq c.parentId (some m)).filterMap fun _ =>
      (tables.shown demangle c).map fun edge => (c.id, edge)

def samplesAt (id : Nat) : List PerfSample :=
  tables.samples.filter fun s =>
    sqlEq s.callsiteId (some id) && tables.inScope upids s

def siteSamples (roots : List Nat) (site : Site) : List PerfSample :=
  ((tables.sub roots).filter fun su => su.1 = site.1).flatMap fun su =>
    tables.samplesAt upids su.2

def edgeCounts (roots : List Nat) (sites : List Site) : List (Shown × Nat) :=
  countBy (sites.flatMap fun site =>
    (tables.siteSamples upids roots site).map fun _ => site.2)

end

end Tables

section

variable (demangle : String → Option String) (upids : List Nat)
  (order : CountOrder Shown) (tables : Tables) (name : String)

def collectEdges (res : List (Shown × Nat)) (denom : Nat) :
    List ButterflyEdge :=
  ((order.sort res).take splitLimit).map fun row =>
    { name := row.1.1
      mapping := row.1.2
      samples := row.2
      share := (row.2 : ℚ) / denom }

def loadCallers (denom : Nat) : List ButterflyEdge :=
  let matchcs := tables.matchcs demangle name
  collectEdges order
    (tables.edgeCounts upids matchcs (tables.parents demangle name)) denom

def loadCallees (denom : Nat) : List ButterflyEdge :=
  let kids := tables.kids demangle name
  collectEdges order (tables.edgeCounts upids (kids.map (·.1)) kids) denom

def scopeSamples : List PerfSample :=
  tables.samples.filter fun s => s.callsiteId.isSome && tables.inScope upids s

def selfSamples : List PerfSample :=
  (scopeSamples upids tables).filter fun s =>
    ((s.callsiteId.bind tables.callsite).map
      (tables.named demangle name)).getD false

def inclusiveSamples : List PerfSample :=
  tables.samples.filter fun s =>
    (tables.descendants demangle name).any (fun id =>
      sqlEq s.callsiteId (some id)) && tables.inScope upids s

def loadButterfly : Butterfly :=
  let inclusive := (inclusiveSamples demangle upids tables name).length
  let denom := if inclusive > 0 then inclusive else 1
  { name := name
    selfSamples := (selfSamples demangle upids tables name).length
    inclusiveSamples := inclusive
    scopeSamples := (scopeSamples upids tables).length
    callers :=
      if inclusive > 0 then loadCallers demangle upids order tables name denom
      else []
    callees :=
      if inclusive > 0 then loadCallees demangle upids order tables name denom
      else [] }

end

end Sismo.Views.FocusView
