import Mathlib.Data.List.Infix
import Sismo.Lib.Relational
import Sismo.Views.StackTimeline

namespace Sismo.Views

/-! The call tree broken down by groups, stage by stage as the statement that
builds it. -/

/-! ### Groups -/

inductive GroupKind where
  | dataRegion
  | thread
  | process
  | processThread
  deriving DecidableEq, Repr

inductive GroupValue where
  | id (value : Nat)
  | symbol (name : String)
  deriving DecidableEq, Ord, Repr

structure ThreadRow where
  utid : Nat
  tid : Nat
  name : Option String
  upid : Option Nat

structure ProcessRow where
  upid : Nat
  pid : Nat
  name : Option String

structure ThreadTables where
  thread : Nat → Option ThreadRow
  process : Nat → Option ProcessRow
  thread_utid : ∀ utid th, thread utid = some th → th.utid = utid
  process_upid : ∀ upid pr, process upid = some pr → pr.upid = upid

structure WeightedSample where
  utid : Nat
  dataSymbol : Option String
  callsiteId : Nat
  w : Int
  deriving DecidableEq, Repr

structure JoinedSample where
  p : WeightedSample
  th : Option ThreadRow
  pr : Option ProcessRow

def alwaysJoin (tables : ThreadTables) (p : WeightedSample) : JoinedSample :=
  let th := tables.thread p.utid
  ⟨p, th, (th.bind (·.upid)).bind tables.process⟩

structure BreakdownGroup where
  grp : JoinedSample → Option GroupValue
  label : JoinedSample → Option String
  pgrp : JoinedSample → Option Nat
  plabel : JoinedSample → Option String

def threadLabel (row : JoinedSample) : Option String :=
  row.th.map fun th =>
    th.name.getD ("utid " ++ toString th.utid) ++
      (" (tid " ++ toString th.tid ++ ")")

def processLabel (row : JoinedSample) : Option String := do
  let th ← row.th
  let upid ← th.upid
  let pr ← row.pr
  return pr.name.getD ("upid " ++ toString upid) ++
    (" (pid " ++ toString pr.pid ++ ")")

/-- The one group of an axis that is off. -/
def noneGroup : BreakdownGroup where
  grp _ := some (.id 0)
  label _ := some ""
  pgrp _ := none
  plabel _ := none

def breakdownGroupCols : GroupKind → BreakdownGroup
  | .dataRegion => {
      grp := fun row => row.p.dataSymbol.map .symbol
      label := fun row => some (row.p.dataSymbol.getD "[no data]")
      pgrp := fun _ => none
      plabel := fun _ => none }
  | .thread => {
      grp := fun row => row.th.map fun th => .id th.utid
      label := threadLabel
      pgrp := fun _ => none
      plabel := fun _ => none }
  | .process => {
      grp := fun row => (row.th.bind (·.upid)).map .id
      label := processLabel
      pgrp := fun _ => none
      plabel := fun _ => none }
  | .processThread => {
      grp := fun row => row.th.map fun th => .id th.utid
      label := threadLabel
      pgrp := fun row => row.th.bind (·.upid)
      plabel := processLabel }

def axisGroup (dim : Option GroupKind) : BreakdownGroup :=
  dim.elim noneGroup breakdownGroupCols

structure StreamRow where
  grp : Option GroupValue
  label : Option String
  pgrp : Option Nat
  plabel : Option String
  blabel : Option String
  bplabel : Option String
  cs : Nat
  w : Int
  deriving DecidableEq, Repr

def streamRow (top bottom : BreakdownGroup) (row : JoinedSample) :
    StreamRow where
  grp := top.grp row
  label := top.label row
  pgrp := top.pgrp row
  plabel := top.plabel row
  blabel := bottom.label row
  bplabel := bottom.plabel row
  cs := row.p.callsiteId
  w := row.p.w

def sampleStream (tables : ThreadTables) (top bottom : BreakdownGroup)
    (samples : List WeightedSample) : List StreamRow :=
  samples.map fun p => streamRow top bottom (alwaysJoin tables p)

/-! ### Stages -/

structure GroupRow where
  grp : Option GroupValue
  label : Option String
  pgrp : Option Nat
  deriving DecidableEq, Repr

structure ParentRow where
  pgrp : Option Nat
  plabel : Option String
  deriving DecidableEq, Repr

structure NodeKey where
  grp : Option GroupValue
  cs : Nat
  deriving DecidableEq, Ord, Repr

structure OuterKey where
  grp : Option GroupValue
  cs : Nat
  bplabel : Option String
  deriving DecidableEq, Ord, Repr

structure LeafKey where
  grp : Option GroupValue
  cs : Nat
  bplabel : Option String
  blabel : Option String
  deriving DecidableEq, Ord, Repr

def StreamRow.groupRow (row : StreamRow) : GroupRow :=
  ⟨row.grp, row.label, row.pgrp⟩

def StreamRow.parentRow (row : StreamRow) : ParentRow :=
  ⟨row.pgrp, row.plabel⟩

def StreamRow.nodeKey (row : StreamRow) : NodeKey :=
  ⟨row.grp, row.cs⟩

def StreamRow.leafKey (row : StreamRow) : LeafKey :=
  ⟨row.grp, row.cs, row.bplabel, row.blabel⟩

def LeafKey.outerKey (key : LeafKey) : OuterKey :=
  ⟨key.grp, key.cs, key.bplabel⟩

def grpIdx (base : List StreamRow) : List (GroupRow × Nat) :=
  numbered (·.grp) (base.map (·.groupRow)).dedup

def pgrpIdx (base : List StreamRow) : List (ParentRow × Nat) :=
  numbered (·.pgrp)
    ((base.filter (·.pgrp.isSome)).map (·.parentRow)).dedup

/-- The weight of each callsite that ends a sample, in each group. -/
def selfW (base : List StreamRow) : List (NodeKey × Int) :=
  sumBy (·.nodeKey) (·.w) base

def selfWBottom (base : List StreamRow) : List (LeafKey × Int) :=
  sumBy (·.leafKey) (·.w) base

def walk (callsites : Callsites) (base : List StreamRow) : List NodeKey :=
  (base.map (·.nodeKey)).dedup.flatMap fun key =>
    (callsites.ancestors key.cs).map fun cur => ⟨key.grp, cur⟩

def nodeIds (callsites : Callsites) (base : List StreamRow) :
    List (NodeKey × Nat) :=
  numbered id (walk callsites base).dedup

def bouterIdx (base : List StreamRow) : List (OuterKey × Nat) :=
  numbered id ((((selfWBottom base).map (·.1.outerKey)).filter
    (·.bplabel.isSome)).dedup)

/-! ### Joined rows -/

structure CodeRow where
  ni : NodeKey × Nat
  gi : Option (GroupRow × Nat)
  pn : Option (NodeKey × Nat)
  sw : Option (NodeKey × Int)
  deriving DecidableEq, Repr

structure RootRow where
  gi : GroupRow × Nat
  pi : Option (ParentRow × Nat)
  deriving DecidableEq, Repr

structure LeafRow where
  lw : LeafKey × Int
  ni : NodeKey × Nat
  bo : Option (OuterKey × Nat)
  deriving DecidableEq, Repr

structure OuterRow where
  bo : OuterKey × Nat
  ni : NodeKey × Nat
  deriving DecidableEq, Repr

/-! ### Nodes -/

structure TreeNode where
  id : Nat
  parentId : Option Nat
  name : Option String
  mappingName : Option String
  codeType : Option String
  sourceLocation : Option String
  value : Int
  deriving DecidableEq, Repr

def labelNode (id : Nat) (parentId : Option Nat) (name : Option String)
    (value : Int) : TreeNode :=
  ⟨id, parentId, name, none, none, none, value⟩

/-- `like '%[kernel.kallsyms]%'`, which ignores the case of letters. -/
def kernelCodeType (mappingName : Option String) : String :=
  if mappingName.any fun name =>
    "[kernel.kallsyms]".toList <:+: name.toLower.toList
  then "Kernel" else "User"

section

variable (profile : Profile) (base : List StreamRow) (hasTop hasBottom : Bool)

def nodeCount : Nat :=
  (nodeIds profile.callsites base).length

def groupRootId (gidx : Nat) : Nat :=
  nodeCount profile base + gidx

def parentRootId (pidx : Nat) : Nat :=
  nodeCount profile base + (grpIdx base).length + pidx

def leafBase : Nat :=
  if hasTop then
    nodeCount profile base + (grpIdx base).length + (pgrpIdx base).length
  else nodeCount profile base

def outerBase : Nat :=
  leafBase profile base hasTop + (selfWBottom base).length

def joinedGroups (key : NodeKey) : List (Option (GroupRow × Nat)) :=
  if hasTop then
    ((grpIdx base).filter fun gi => sqlEq gi.1.grp key.grp).map some
  else [none]

def joinedParents (key : NodeKey) : List (Option (NodeKey × Nat)) :=
  leftJoin (nodeIds profile.callsites base) fun pn =>
    sqlEq pn.1.grp key.grp &&
      sqlEq (some pn.1.cs) (profile.callsites.parentId key.cs)

def joinedSelf (key : NodeKey) : List (Option (NodeKey × Int)) :=
  if hasBottom then [none]
  else leftJoin (selfW base) fun sw =>
    sqlEq sw.1.grp key.grp && sqlEq (some sw.1.cs) (some key.cs)

def codeRows : List CodeRow :=
  (nodeIds profile.callsites base).flatMap fun ni =>
    (joinedGroups base hasTop ni.1).flatMap fun gi =>
      (joinedParents profile base ni.1).flatMap fun pn =>
        (joinedSelf base hasBottom ni.1).map fun sw => ⟨ni, gi, pn, sw⟩

def codeNode (row : CodeRow) : TreeNode :=
  let f := profile.frames (profile.callsites.frameId row.ni.1.cs)
  { id := row.ni.2
    parentId :=
      if profile.callsites.parentId row.ni.1.cs = none then
        row.gi.map fun gi => groupRootId profile base gi.2
      else row.pn.map (·.2)
    name := some (f.frameName.getD "[unsymbolised]")
    mappingName := f.mappingName
    codeType := some (kernelCodeType f.mappingName)
    sourceLocation := none
    value := (row.sw.map (·.2)).getD 0 }

def rootRows : List RootRow :=
  (grpIdx base).flatMap fun gi =>
    (leftJoin (pgrpIdx base) fun pi => sqlEq pi.1.pgrp gi.1.pgrp).map
      fun pi => ⟨gi, pi⟩

def groupRoot (row : RootRow) : TreeNode :=
  labelNode (groupRootId profile base row.gi.2)
    (if row.gi.1.pgrp = none then none
      else row.pi.map fun pi => parentRootId profile base pi.2)
    row.gi.1.label 0

def parentRoot (pi : ParentRow × Nat) : TreeNode :=
  labelNode (parentRootId profile base pi.2) none pi.1.plabel 0

def leafRows : List LeafRow :=
  (selfWBottom base).flatMap fun lw =>
    ((nodeIds profile.callsites base).filter fun ni =>
        sqlEq ni.1.grp lw.1.grp && sqlEq (some ni.1.cs) (some lw.1.cs)).flatMap
      fun ni =>
        (leftJoin (bouterIdx base) fun bo =>
          sqlEq bo.1.grp lw.1.grp && sqlEq (some bo.1.cs) (some lw.1.cs) &&
            sqlEq bo.1.bplabel lw.1.bplabel).map fun bo => ⟨lw, ni, bo⟩

def innerLeaf (row : LeafRow × Nat) : TreeNode :=
  labelNode (leafBase profile base hasTop + row.2)
    (if row.1.lw.1.bplabel = none then some row.1.ni.2
      else row.1.bo.map fun bo => outerBase profile base hasTop + bo.2)
    (some (row.1.lw.1.blabel.getD "[none]")) row.1.lw.2

def outerRows : List OuterRow :=
  (bouterIdx base).flatMap fun bo =>
    ((nodeIds profile.callsites base).filter fun ni =>
        sqlEq ni.1.grp bo.1.grp && sqlEq (some ni.1.cs) (some bo.1.cs)).map
      fun ni => ⟨bo, ni⟩

def outerLeaf (row : OuterRow) : TreeNode :=
  labelNode (outerBase profile base hasTop + row.bo.2) (some row.ni.2)
    row.bo.1.bplabel 0

def breakdownTreeStatement : List TreeNode :=
  (codeRows profile base hasTop hasBottom).map (codeNode profile base) ++
    (if hasTop then
      (rootRows base).map (groupRoot profile base) ++
        (pgrpIdx base).map (parentRoot profile base)
      else []) ++
    (if hasBottom then
      (numbered (·.lw.1) (leafRows profile base)).map
          (innerLeaf profile base hasTop) ++
        (outerRows profile base).map (outerLeaf profile base hasTop)
      else [])

end

/-- The stream and the tree of one setting of the two axes. -/
def breakdownStream (tables : ThreadTables) (top bottom : Option GroupKind)
    (samples : List WeightedSample) : List StreamRow :=
  sampleStream tables (axisGroup top) (axisGroup bottom) samples

def breakdownTree (tables : ThreadTables) (profile : Profile)
    (top bottom : Option GroupKind) (samples : List WeightedSample) :
    List TreeNode :=
  breakdownTreeStatement profile (breakdownStream tables top bottom samples)
    top.isSome bottom.isSome

end Sismo.Views
