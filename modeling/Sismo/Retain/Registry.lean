import Sismo.Samples.Records

namespace Sismo.Retain

open Samples

/-! The registry of sampled module files: the build id that the trace carries
for each module, and the descriptors held for their files. -/

/-- Which sampled module files to hold a descriptor of. -/
inductive KeepPolicy where
  | none | auto | all
  deriving DecidableEq, Repr

def stablePrefixes : List String :=
  ["/usr/", "/lib/", "/lib64/", "/bin/", "/sbin/", "/opt/"]

def isUnstable (path : String) : Bool :=
  !stablePrefixes.any fun start => path.startsWith start

inductive ModuleKey where
  | mapping (pid base devMajor devMinor ino : Nat)
  | file (dev ino : Nat)
  deriving DecidableEq, Repr

abbrev Inode := Nat × Nat

/-- `major` and `minor` of the C library, which determine the device. -/
structure DeviceNumbers where
  major : Nat → Nat
  minor : Nat → Nat
  determine : ∀ dev other, major dev = major other → minor dev = minor other →
    dev = other

def smallDevices : DeviceNumbers where
  major dev := dev / 256
  minor dev := dev % 256
  determine dev other majors minors := by omega

/-- An open file: what its metadata say, if they can be read, and the build id
of its ELF. -/
structure File where
  fd : Nat
  metadata : Option Inode
  buildId : Option Bytes
  deriving DecidableEq, Repr

def synthMagic : Bytes :=
  [0x53, 0x49, 0x53, 0x4d, 0x4f, 0x53, 0x59, 0x4e]

def isSynthetic (buildId : Bytes) : Bool :=
  synthMagic.isPrefixOf buildId

def toLeBytes (word : BitVec 64) : Bytes :=
  (List.range 8).map fun i => UInt8.ofNat (word.toNat / 2 ^ (8 * i))

def syntheticBuildId (rand : BitVec 64) : Bytes :=
  synthMagic ++ toLeBytes rand

structure Entry where
  buildId : Bytes
  /-- Further ids verified against the held inode. -/
  aliases : List Bytes := []
  inode : Option Inode := none
  pinDone : Bool := false

def defaultFdCap : Nat := 1024

structure ModuleRegistry where
  policy : KeepPolicy
  entries : HashMap ModuleKey Entry := ∅
  fds : HashMap Inode File := ∅
  rng : BitVec 64
  fdCap : Nat := defaultFdCap
  pathsById : HashMap Bytes String := ∅

def mix (state : BitVec 64) : BitVec 64 :=
  let z := (state ^^^ (state >>> 30)) * 0xbf58476d1ce4e5b9
  let z := (z ^^^ (z >>> 27)) * 0x94d049bb133111eb
  z ^^^ (z >>> 31)

namespace ModuleRegistry

def new (policy : KeepPolicy) (seed : BitVec 64) : ModuleRegistry where
  policy := policy
  rng := seed

def nextRand (r : ModuleRegistry) : BitVec 64 × ModuleRegistry :=
  let rng := r.rng + 0x9e3779b97f4a7c15
  (mix rng, { r with rng := rng })

def mint (r : ModuleRegistry) (hint : Bytes) : Bytes × ModuleRegistry :=
  if hint = [] then
    let (rand, r) := r.nextRand
    (syntheticBuildId rand, r)
  else (hint, r)

def idFor (r : ModuleRegistry) (key : ModuleKey) (idHint : Bytes) :
    Bytes × ModuleRegistry :=
  match r.entries.lookup key with
  | some e => (e.buildId, r)
  | none =>
      let (buildId, r) := r.mint idHint
      (buildId, { r with
        entries := r.entries.insert key { buildId := buildId } })

def entry (r : ModuleRegistry) (key : ModuleKey) : Entry :=
  (r.entries.lookup key).getD { buildId := [] }

def notePath (r : ModuleRegistry) (id : Bytes) (path : String) :
    ModuleRegistry :=
  if (r.pathsById.lookup id).isSome then r
  else { r with pathsById := r.pathsById.insert id path }

def prepareRegistration (r : ModuleRegistry) (key : ModuleKey) (idHint : Bytes)
    (displayPath : String) (verifyElfId : Bool) : Bytes × ModuleRegistry :=
  let (buildId, r) := r.idFor key idHint
  let r :=
    if displayPath = "" then r
    else
      let r := r.notePath buildId displayPath
      if verifyElfId ∧ idHint ≠ [] then r.notePath idHint displayPath else r
  (buildId, r)

instance : LawfulBEq Bytes := inferInstance

def needsAlias (r : ModuleRegistry) (key : ModuleKey) (buildId idHint : Bytes)
    (verifyElfId : Bool) : Bool :=
  verifyElfId ∧ idHint ≠ [] ∧ idHint ≠ buildId ∧
    idHint ∉ (r.entry key).aliases

def finishRegistration (r : ModuleRegistry) (key : ModuleKey) (idHint : Bytes)
    (needAlias hold : Bool) (inode : Option Inode) : ModuleRegistry :=
  let e := r.entry key
  let finished :=
    { e with
      inode := inode.or e.inode
      aliases :=
        if inode.isSome ∧ needAlias then e.aliases ++ [idHint] else e.aliases
      pinDone := e.pinDone || !hold || inode.isSome }
  { r with entries := r.entries.insert key finished }

def shouldHold (r : ModuleRegistry) (displayPath : String) : Bool :=
  match r.policy with
  | .all => true
  | .auto => isUnstable displayPath
  | .none => false

/-- Another exact open could still add a descriptor or a verified alias. -/
def needsExactRetry (r : ModuleRegistry) (key : ModuleKey) (idHint : Bytes)
    (displayPath : String) : Bool :=
  if r.shouldHold displayPath then
    match r.entries.lookup key with
    | none => true
    | some e =>
        !e.pinDone ||
          (idHint ≠ [] ∧ idHint ≠ e.buildId ∧ idHint ∉ e.aliases)
  else false

variable (numbers : DeviceNumbers)

def namesInode (key : ModuleKey) (inode : Inode) : Bool :=
  match key with
  | .mapping _ _ devMajor devMinor ino =>
      numbers.major inode.1 = devMajor ∧ numbers.minor inode.1 = devMinor ∧
        inode.2 = ino
  | .file _ _ => true

def pinOpenFile (r : ModuleRegistry) (key : ModuleKey) (file : File)
    (idHint : Bytes) (verifyMapping verifyElfId : Bool) :
    Option Inode × ModuleRegistry :=
  match file.metadata with
  | none => (none, r)
  | some inode =>
      if verifyMapping ∧ namesInode numbers key inode = false then (none, r)
      else if verifyElfId ∧ idHint ≠ [] ∧ file.buildId ≠ some idHint then
        (none, r)
      else if (r.fds.lookup inode).isSome then (some inode, r)
      else if r.fdCap ≤ r.fds.keys.length then (none, r)
      else (some inode, { r with fds := r.fds.insert inode file })

/-- `opened` is what opening the path gives. -/
def pinFd (r : ModuleRegistry) (key : ModuleKey) (opened : Option File)
    (idHint : Bytes) (verifyElfId : Bool) : Option Inode × ModuleRegistry :=
  match opened with
  | none => (none, r)
  | some file => r.pinOpenFile numbers key file idHint verifyElfId verifyElfId

/-- What the registrations share: each pins the file in its own way. -/
def registerWith (r : ModuleRegistry) (key : ModuleKey) (idHint : Bytes)
    (displayPath : String) (verifyElfId : Bool)
    (pin : ModuleRegistry → Option Inode × ModuleRegistry) :
    Bytes × ModuleRegistry :=
  let (buildId, r) := r.prepareRegistration key idHint displayPath verifyElfId
  let needAlias := r.needsAlias key buildId idHint verifyElfId
  if (r.entry key).pinDone = false ∨ needAlias then
    let hold := r.shouldHold displayPath
    let (inode, r) := if hold then pin r else (none, r)
    (buildId, r.finishRegistration key idHint needAlias hold inode)
  else (buildId, r)

def registerExactFile (r : ModuleRegistry) (key : ModuleKey) (idHint : Bytes)
    (displayPath : String) (file : File) : Bytes × ModuleRegistry :=
  r.registerWith key idHint displayPath true fun r =>
    r.pinOpenFile numbers key file idHint true false

def registerOpenPath (r : ModuleRegistry) (key : ModuleKey) (idHint : Bytes)
    (displayPath : String) (opened : Option File) (verifyElfId : Bool) :
    Bytes × ModuleRegistry :=
  r.registerWith key idHint displayPath verifyElfId fun r =>
    r.pinFd numbers key opened idHint verifyElfId

def register (r : ModuleRegistry) (key : ModuleKey) (idHint : Bytes)
    (path : String) (opened : Option File) : Bytes × ModuleRegistry :=
  r.registerOpenPath numbers key idHint path opened false

def registerExact (r : ModuleRegistry) (key : ModuleKey) (idHint : Bytes)
    (displayPath : String) (opened : Option File) : Bytes × ModuleRegistry :=
  r.registerOpenPath numbers key idHint displayPath opened true

def fdPath (file : File) : String :=
  "/proc/self/fd/" ++ toString file.fd

/-- The body of the loop of `held_fd_paths`. -/
def offerFd (r : ModuleRegistry) (out : HashMap Bytes String) (e : Entry) :
    HashMap Bytes String :=
  if e.buildId = [] then out
  else
    match e.inode.bind r.fds.lookup with
    | none => out
    | some file =>
        let path := fdPath file
        e.aliases.foldl (fun out id => out.insert id path)
          (out.insert e.buildId path)

/-- The entries come in the order in which the hash map is traversed. -/
def heldFdPaths (r : ModuleRegistry) (order : List Entry) :
    HashMap Bytes String :=
  order.foldl r.offerFd ∅

end ModuleRegistry

end Sismo.Retain
