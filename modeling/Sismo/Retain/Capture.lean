import Mathlib.Data.Finset.Basic
import Sismo.Lib.FindRange
import Sismo.Retain.RegistrySteps

namespace Sismo.Retain

open Samples (Bytes UserFrame buildIdSize)
open ModuleRegistry (namesInode)

/-! The part of the Linux capture that retains the modules of samples: map
snapshots, the ids and mappings that samples show, and the registry. -/

structure Mapping where
  start : Nat
  end_ : Nat
  offset : Nat
  baseAvma : Nat
  devMajor : Nat
  devMinor : Nat
  inode : Nat
  path : String
  deriving DecidableEq, Repr

def Mapping.key (m : Mapping) (pid : Nat) : ModuleKey :=
  .mapping pid m.baseAvma m.devMajor m.devMinor m.inode

/-- How a file is opened: as the target's mapping of a range, or by its path. -/
inductive OpenName where
  | mapFile (pid start end_ : Nat)
  | path (path : String)
  deriving DecidableEq, Repr

/-- What each read of the target and of its files gives; the reads are
numbered. -/
structure World where
  opens : Nat → OpenName → Option File
  maps : Nat → Option (List Mapping)

/-- What has been seen so far. -/
inductive Note where
  /-- A frame of a user stack carries the id. -/
  | frame (buildId : Bytes)
  /-- A raw pc of a user stack of a process is looked up in a snapshot. -/
  | pc (pid pc : Nat) (maps : List Mapping)
  /-- The file of a mapping is opened and its id read. -/
  | read (mapping : Mapping) (file : File)
  /-- The id, cached or read, that is taken for a mapping. -/
  | identified (mapping : Mapping) (buildId : Bytes)

structure Capture where
  targetPid : Nat
  maps : Option (List Mapping) := none
  mapsTried : Bool := false
  lastMapsNs : Nat := 0
  buildIdPaths : HashMap Bytes String := ∅
  observedBuildIds : Finset Bytes := ∅
  pendingBuildIds : Finset Bytes := ∅
  observedMappings : Finset ModuleKey := ∅
  mappingRetryNs : HashMap ModuleKey Nat := ∅
  mappingBuildIds : HashMap ModuleKey Bytes := ∅
  modules : ModuleRegistry
  /-- The number of reads so far. -/
  reads : Nat := 0
  log : List Note := []

def retryNs : Nat := 1000000000

namespace Capture

def mappingKey (c : Capture) (m : Mapping) : ModuleKey :=
  m.key c.targetPid

def note (c : Capture) (note : Note) : Capture :=
  { c with log := c.log ++ [note] }

variable (numbers : DeviceNumbers) (world : World)

/-- A file that still is the one that the mapping maps. -/
def isExact (m : Mapping) (pid : Nat) (file : File) : Bool :=
  match file.metadata with
  | none => false
  | some inode => namesInode numbers (m.key pid) inode

def openCandidate (c : Capture) (m : Mapping) (name : OpenName) :
    Option File × Capture :=
  ((world.opens c.reads name).filter (isExact numbers m c.targetPid),
    { c with reads := c.reads + 1 })

/-- The mapped file by the target's mapping, or else by its path, and its id. -/
def openExactMapping (c : Capture) (m : Mapping) :
    Option (File × Bytes) × Capture :=
  let (file, c) :=
    match c.openCandidate numbers world m
        (.mapFile c.targetPid m.start m.end_) with
    | (some file, c) => (some file, c)
    | (none, c) => c.openCandidate numbers world m (.path m.path)
  match file with
  | some file =>
      (some (file, file.buildId.getD []), c.note (.read m file))
  | none => (none, c)

/-- The first path of a 20-byte id stays. -/
def notePath (c : Capture) (id : Bytes) (path : String) : Capture :=
  if id.length = buildIdSize ∧ c.buildIdPaths.lookup id = none then
    { c with buildIdPaths := c.buildIdPaths.insert id path }
  else c

/-- The id of a mapping: cached, or read when there is any demand for ids. -/
def identify (c : Capture) (m : Mapping) :
    Option (File × Bytes) × Bytes × Capture :=
  let key := c.mappingKey m
  match c.mappingBuildIds.lookup key with
  | some id => (none, id, c)
  | none =>
      if c.observedBuildIds ≠ ∅ ∨ key ∈ c.observedMappings then
        match c.openExactMapping numbers world m with
        | (some (file, id), c) =>
            (some (file, id), id,
              { c with mappingBuildIds := c.mappingBuildIds.insert key id })
        | (none, c) => (none, [], c)
      else (none, [], c)

def mappingWasSampled (c : Capture) (key : ModuleKey) (buildId : Bytes) :
    Bool :=
  key ∈ c.observedMappings ∨
    buildId.length = buildIdSize ∧ buildId ∈ c.observedBuildIds

/-- The registry gets the exact file, or else the path to try. -/
def registerMapping (c : Capture) (m : Mapping) (buildId : Bytes)
    (exact : Option (File × Bytes)) : Capture :=
  let key := c.mappingKey m
  match exact with
  | some (file, exactId) =>
      { c with
        modules :=
          (c.modules.registerExactFile numbers key exactId m.path file).2 }
  | none =>
      let opened := world.opens c.reads (.path m.path)
      { c with
        reads := c.reads + 1
        modules :=
          (c.modules.registerExact numbers key buildId m.path opened).2 }

def retain (c : Capture) (m : Mapping) (buildId : Bytes)
    (exact : Option (File × Bytes)) : Capture :=
  if c.modules.needsExactRetry (c.mappingKey m) buildId m.path then
    let (exact, c) :=
      match exact with
      | some opened => (some opened, c)
      | none => c.openExactMapping numbers world m
    c.registerMapping numbers world m buildId exact
  else c

def catalog (state : Capture × Finset Bytes) (m : Mapping) :
    Capture × Finset Bytes :=
  let (c, pending) := state
  let (exact, buildId, c) := c.identify numbers world m
  let c := (c.notePath buildId m.path).note (.identified m buildId)
  let key := c.mappingKey m
  if c.mappingWasSampled key buildId then
    let c := c.retain numbers world m buildId exact
    if buildId.length = buildIdSize then
      if c.modules.needsExactRetry key buildId m.path then
        (c, insert buildId pending)
      else (c, pending.erase buildId)
    else (c, pending)
  else (c, pending)

def installMaps (c : Capture) (maps : List Mapping) : Capture :=
  let (c, pending) :=
    maps.foldl (catalog numbers world) (c, c.pendingBuildIds)
  { c with pendingBuildIds := pending, maps := some maps }

def refreshMaps (c : Capture) (nowNs : Nat) (force : Bool) : Capture :=
  if force = false ∧ wrappingSub nowNs c.lastMapsNs < retryNs then c
  else
    let fresh := world.maps c.reads
    let c :=
      { c with mapsTried := true, lastMapsNs := nowNs, reads := c.reads + 1 }
    match fresh with
    | some maps => c.installMaps numbers world maps
    | none => c

def ensureMaps (c : Capture) (nowNs : Nat) : Capture :=
  if c.mapsTried then c else c.refreshMaps numbers world nowNs true

/-- One frame's id, with whether any so far is new and whether any has no path
or is pending. -/
def markFrame (state : Capture × Bool × Bool) :
    UserFrame → Capture × Bool × Bool
  | .rawIp _ => state
  | .buildIdOffset buildId _ =>
      let (c, newlyObserved, unresolved) := state
      ({ c with observedBuildIds := insert buildId c.observedBuildIds }.note
          (.frame buildId),
        newlyObserved || decide (buildId ∉ c.observedBuildIds),
        unresolved || decide (c.buildIdPaths.lookup buildId = none ∨
          buildId ∈ c.pendingBuildIds))

def markFrames (c : Capture) (frames : List UserFrame) :
    Capture × Bool × Bool :=
  frames.foldl markFrame (c, false, false)

def observeBuildIds (c : Capture) (frames : List UserFrame) (nowNs : Nat) :
    Capture :=
  let (marked, newlyObserved, unresolved) := c.markFrames frames
  if newlyObserved then marked.refreshMaps numbers world nowNs true
  else if unresolved then marked.refreshMaps numbers world nowNs false
  else marked

/-- A 20-byte id read for the mapping of a raw pc is observed. -/
def learn (c : Capture) (m : Mapping) (buildId : Bytes) : Capture :=
  if buildId.length = buildIdSize then
    ({ c with
      observedBuildIds := insert buildId c.observedBuildIds }.notePath buildId
        m.path).note (.identified m buildId)
  else c

/-- The mapping of a raw pc has been seen in a sample for the first time, or is
due for another try. -/
def openSampled (c : Capture) (m : Mapping) (nowNs : Nat) : Bytes × Capture :=
  let key := c.mappingKey m
  let c :=
    { c with mappingRetryNs := c.mappingRetryNs.insert key nowNs }
  match c.openExactMapping numbers world m with
  | (none, c) => ([], c.registerMapping numbers world m [] none)
  | (some (file, buildId), c) =>
      let c :=
        { c with
          mappingBuildIds := c.mappingBuildIds.insert key buildId }.learn m
            buildId
      (buildId,
        c.registerMapping numbers world m buildId (some (file, buildId)))

def cachedId (c : Capture) (m : Mapping) : Bytes :=
  (c.mappingBuildIds.lookup (c.mappingKey m)).getD []

def isDue (c : Capture) (m : Mapping) (nowNs : Nat) : Bool :=
  let key := c.mappingKey m
  let first := key ∉ c.observedMappings
  let last := (c.mappingRetryNs.lookup key).getD 0
  first ∨ c.modules.needsExactRetry key (c.cachedId m) m.path = true ∧
    retryNs ≤ wrappingSub nowNs last

/-- The mapping of a raw pc; its id, if one is known. -/
def observeMapping (c : Capture) (m : Mapping) (nowNs : Nat) :
    Bytes × Capture :=
  let observed :=
    { c with
      observedMappings := insert (c.mappingKey m) c.observedMappings }
  if c.isDue m nowNs then observed.openSampled numbers world m nowNs
  else (c.cachedId m, observed)

def findMapping (c : Capture) (pc : Nat) : Option Mapping :=
  findRange (fun m => (m.start, m.end_)) (c.maps.getD []) pc

/-- A raw pc in a mapping: the registry names it when it has no 20-byte id or
no file offset. -/
def resolveMapped (c : Capture) (pid pc nowNs : Nat) (m : Mapping) : Capture :=
  let (localId, c) := c.observeMapping numbers world m nowNs
  let c := c.notePath localId m.path
  if localId.length = buildIdSize ∧ m.start ≤ pc ∧
      m.offset + (pc - m.start) < 2 ^ 64 then c
  else { c with modules := (c.modules.idFor (m.key pid) localId).2 }

/-- The maps are read again, once for a stack, if a pc is in no mapping. -/
def reparse (c : Capture) (pc nowNs : Nat) (reparsed : Bool) : Capture :=
  if (c.findMapping pc).isNone ∧ reparsed = false then
    c.refreshMaps numbers world nowNs false
  else c

def resolveFrame (pid nowNs : Nat) (state : Capture × Bool) :
    UserFrame → Capture × Bool
  | .buildIdOffset _ _ => state
  | .rawIp pc =>
      if pc = 0 then state
      else
        let (c, reparsed) := state
        let missing := (c.findMapping pc).isNone
        let c := c.reparse numbers world pc nowNs reparsed
        let c := c.note (.pc pid pc (c.maps.getD []))
        match c.findMapping pc with
        | none => (c, reparsed || missing)
        | some m =>
            (c.resolveMapped numbers world pid pc nowNs m, reparsed || missing)

def isRawIp : UserFrame → Bool
  | .rawIp _ => true
  | .buildIdOffset _ _ => false

def internCallstack (c : Capture) (frames : List UserFrame) (pid nowNs : Nat) :
    Capture :=
  let c := c.observeBuildIds numbers world frames nowNs
  let c :=
    if frames.any isRawIp then c.ensureMaps numbers world nowNs else c
  (frames.foldl (resolveFrame numbers world pid nowNs) (c, false)).1

end Capture

inductive Event where
  | installMaps (maps : List Mapping)
  | refreshMaps (nowNs : Nat) (force : Bool)
  | observeBuildIds (frames : List UserFrame) (nowNs : Nat)
  | internCallstack (frames : List UserFrame) (pid nowNs : Nat)

def Capture.act (numbers : DeviceNumbers) (world : World) (c : Capture) :
    Event → Capture
  | .installMaps maps => c.installMaps numbers world maps
  | .refreshMaps nowNs force => c.refreshMaps numbers world nowNs force
  | .observeBuildIds frames nowNs =>
      c.observeBuildIds numbers world frames nowNs
  | .internCallstack frames pid nowNs =>
      c.internCallstack numbers world frames pid nowNs

end Sismo.Retain
