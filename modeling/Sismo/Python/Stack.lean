import Sismo.Lib.Utf8

namespace Sismo.Python

/-! The host's walk of a CPython interpreter's frames. -/

abbrev Bytes := List UInt8

def maxNameLen : Nat := 512

def maxFrames : Nat := 64

structure PyDebugOffsets where
  interpretersHead : UInt64
  threadsHead : UInt64
  currentFrame : UInt64
  framePrevious : UInt64
  frameExecutable : UInt64
  codeQualname : UInt64
  unicodeLength : UInt64
  unicodeAsciiobjectSize : UInt64
  deriving DecidableEq, Repr

/-- Another process's memory, with the bytes that can be read. -/
structure RemoteMem where
  byteAt : Nat → Option UInt8

def u64FromLeBytes (bytes : Bytes) : UInt64 :=
  bytes.foldr (fun byte rest => rest * 256 + byte.toUInt64) 0

namespace RemoteMem

variable (mem : RemoteMem)

def readExactAt (addr : UInt64) (len : Nat) : Option Bytes :=
  (List.range len).mapM fun i => mem.byteAt (addr.toNat + i)

def readU64 (addr : UInt64) : Option UInt64 :=
  (mem.readExactAt addr 8).map u64FromLeBytes

end RemoteMem

variable (mem : RemoteMem) (offs : PyDebugOffsets)

/-- The text of a unicode object; a length of 0, a negative one and one beyond
the limit are not trusted. -/
def readPyUnicode (obj : UInt64) : Option Bytes := do
  let len ← mem.readU64 (obj + offs.unicodeLength)
  if len.toInt64 ≤ 0 ∨ maxNameLen < len.toInt64.toInt then none
  else
    let text ← mem.readExactAt (obj + offs.unicodeAsciiobjectSize) len.toNat
    some (Utf8.lossy text)

/-- The names along the chain of frames, for a number of steps; a frame without
code is skipped. -/
def walkFrames : (steps : Nat) → (frame : UInt64) → List Bytes
  | 0, _ => []
  | steps + 1, frame =>
      if frame = 0 then []
      else
        match mem.readU64 (frame + offs.frameExecutable) with
        | none => []
        | some code =>
            if code = 0 then
              match mem.readU64 (frame + offs.framePrevious) with
              | none => []
              | some prev => walkFrames steps prev
            else
              match mem.readU64 (code + offs.codeQualname) with
              | none => []
              | some qual =>
                  if qual = 0 then []
                  else
                    match readPyUnicode mem offs qual with
                    | none => []
                    | some name =>
                        name ::
                          match mem.readU64 (frame + offs.framePrevious) with
                          | none => []
                          | some prev => walkFrames steps prev

def currentFrame (pyRuntimeAvma : UInt64) : Option UInt64 := do
  let interp ← mem.readU64 (pyRuntimeAvma + offs.interpretersHead)
  if interp = 0 then none
  else
    let tstate ← mem.readU64 (interp + offs.threadsHead)
    if tstate = 0 then none else mem.readU64 (tstate + offs.currentFrame)

def walkPythonStackMem (pyRuntimeAvma : UInt64) : List Bytes :=
  match currentFrame mem offs pyRuntimeAvma with
  | none => []
  | some frame => walkFrames mem offs maxFrames frame

end Sismo.Python
