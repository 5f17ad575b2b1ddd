import Sismo.Kdebug.PerfEmitter
import Sismo.Lib.LittleEndian
import Sismo.Retain.Registry

namespace Sismo.Kdebug

/-! The images of a task as modules: what their headers in memory say, and the
build ids that the registry has for their files. -/

open Samples (bytes)
open Retain (ModuleRegistry ModuleKey DeviceNumbers Inode File)

def mhMagic64 : Nat := 0xfeedfacf

def lcSegment64 : Nat := 0x19

def lcUuid : Nat := 0x1b

def readLe (size : Nat) (b : Bytes) (off : Nat) : Nat :=
  leValue ((b.drop off).take size)

/-- The UUID and the size of `__TEXT` after `n` more load commands. -/
def scanCommands (cmds : Bytes) :
    (n off : Nat) → (uuid : Bytes) → (textVmsize : UInt64) → Bytes × UInt64
  | 0, _, uuid, textVmsize => (uuid, textVmsize)
  | n + 1, off, uuid, textVmsize =>
      if cmds.length < off + 8 then (uuid, textVmsize)
      else
        let cmd := readLe 4 cmds off
        let cmdsize := readLe 4 cmds (off + 4)
        if cmdsize = 0 ∨ cmds.length < off + cmdsize then (uuid, textVmsize)
        else if cmd = lcSegment64 ∧ 72 ≤ cmdsize then
          let segname := ((cmds.drop (off + 8)).take 16).takeWhile (· ≠ 0)
          scanCommands cmds n (off + cmdsize) uuid
            (if segname = bytes "__TEXT" then
              UInt64.ofNat (readLe 8 cmds (off + 32))
            else textVmsize)
        else if cmd = lcUuid ∧ 24 ≤ cmdsize then
          scanCommands cmds n (off + cmdsize) ((cmds.drop (off + 8)).take 16)
            textVmsize
        else scanCommands cmds n (off + cmdsize) uuid textVmsize

def parseUuidAndTextVmsize (cmds : Bytes) (ncmds : Nat) :
    Option (Bytes × UInt64) :=
  let scanned := scanCommands cmds ncmds 0 (List.replicate 16 0) 0
  if scanned.2 = 0 then none else some scanned

section

-- The bytes of a task at an address, as many as can be read.
variable (vmRead : UInt64 → Nat → Option Bytes)

def readMachoMeta (baseAvma : UInt64) : Option (Bytes × UInt64) :=
  match vmRead baseAvma 32 with
  | none => none
  | some hdr =>
      if hdr.length < 32 then none
      else if readLe 4 hdr 0 ≠ mhMagic64 then none
      else
        let ncmds := readLe 4 hdr 16
        let sizeofcmds := readLe 4 hdr 20
        match vmRead (baseAvma + 32) sizeofcmds with
        | none => none
        | some cmds =>
            if cmds.length < sizeofcmds then none
            else parseUuidAndTextVmsize cmds ncmds

structure ImageFiles where
  metadata : String → Option Inode
  pathHash : String → Nat
  opened : String → Option File

def ImageFiles.forFile (files : ImageFiles) (path : String) : ModuleKey :=
  match files.metadata path with
  | some (dev, ino) => .file dev ino
  | none => .file 0 (files.pathHash path)

variable (numbers : DeviceNumbers) (files : ImageFiles)

def imageBuildId (r : ModuleRegistry) (path real : Bytes) :
    Bytes × ModuleRegistry :=
  match String.fromUTF8? ⟨path.toArray⟩ with
  | some p => r.register numbers (files.forFile p) real p (files.opened p)
  | none => (real, r)

/-- The modules of the images with readable headers. The end wraps at 2⁶⁴ and
does not regard the next image. -/
def imageModules : (r : ModuleRegistry) → List (UInt64 × Bytes) →
    List Module × ModuleRegistry
  | r, [] => ([], r)
  | r, (base, path) :: rest =>
      match readMachoMeta vmRead base with
      | none => imageModules r rest
      | some (uuid, textVmsize) =>
          let real := if uuid.any (· ≠ 0) then uuid else []
          let registered := imageBuildId numbers files r path real
          let loaded := imageModules registered.2 rest
          (⟨base, base + textVmsize, path, registered.1⟩ :: loaded.1, loaded.2)

/-- The images and the main executable, which is the first of them; nothing
where they cannot be enumerated. -/
def readImages (r : ModuleRegistry) (list : Option (List (UInt64 × Bytes))) :
    (List Module × Bytes) × ModuleRegistry :=
  match list with
  | none => (([], []), r)
  | some images =>
      let loaded := imageModules vmRead numbers files r images
      ((loaded.1, (images.head?.map (·.2)).getD []), loaded.2)

end

def Module.range (m : Module) : Nat × Nat := (m.base.toNat, m.end_.toNat)

def Module.Holds (m : Module) (pc : UInt64) : Prop :=
  m.base ≤ pc ∧ pc < m.end_

instance (m : Module) (pc : UInt64) : Decidable (m.Holds pc) :=
  inferInstanceAs (Decidable (m.base ≤ pc ∧ pc < m.end_))

end Sismo.Kdebug
