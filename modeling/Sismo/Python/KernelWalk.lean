import Sismo.Python.Stack
import Sismo.Samples.Capture

namespace Sismo.Python

/-! The kernel's walk of the same frames: it ships ids, and a record with the
name of each id. -/

def pyNameMax : Nat := 128

def maxPyframeIds : Nat := 16384

/-- The offsets and the runtime they are for, 0 when there is none. -/
structure PyCfg where
  runtime : UInt64
  offs : PyDebugOffsets

structure PyframeRec where
  id : Nat
  name : Bytes

structure PyframeState where
  ids : HashMap UInt64 Nat := ∅
  next : Nat := 0
  records : List PyframeRec := []

section

variable (mem : RemoteMem) (offs : PyDebugOffsets)

/-- The text as far as the masked length goes, and a zero byte. What cannot be
read is left as zeros. -/
def recordName (qual : UInt64) : Bytes :=
  let len := (mem.readU64 (qual + offs.unicodeLength)).getD 0 &&&
    (UInt64.ofNat pyNameMax - 1)
  let text :=
    if len = 0 then []
    else
      (mem.readExactAt (qual + offs.unicodeAsciiobjectSize) len.toNat).getD
        (List.replicate len.toNat 0)
  text ++ [0]

def resolvePyframe (qual : UInt64) (s : PyframeState) : Nat × PyframeState :=
  match s.ids.lookup qual with
  | some id => (id, s)
  | none =>
      let id := s.next + 1
      (id, {
        ids :=
          if s.ids.keys.length < maxPyframeIds then s.ids.insert qual id
          else s.ids
        next := id
        records := s.records ++ [⟨id, recordName mem offs qual⟩] })

def namePyframe (code : UInt64) (pyIds : List Nat) (s : PyframeState) :
    List Nat × PyframeState :=
  if code = 0 then (pyIds, s)
  else
    match mem.readU64 (code + offs.codeQualname) with
    | none => (pyIds, s)
    | some qual =>
        if qual = 0 then (pyIds, s)
        else
          let (id, s) := resolvePyframe mem offs qual s
          (if id = 0 then pyIds else pyIds ++ [id], s)

def walkPythonLoop : (steps : Nat) → (frame : UInt64) → (pyIds : List Nat) →
    PyframeState → List Nat × PyframeState
  | 0, _, pyIds, s => (pyIds, s)
  | steps + 1, frame, pyIds, s =>
      if frame = 0 ∨ Samples.maxPyFrames ≤ pyIds.length then (pyIds, s)
      else
        match mem.readU64 (frame + offs.frameExecutable) with
        | none => (pyIds, s)
        | some code =>
            let (pyIds, s) := namePyframe mem offs code pyIds s
            match mem.readU64 (frame + offs.framePrevious) with
            | none => (pyIds, s)
            | some next => walkPythonLoop steps next pyIds s

end

def walkPython (mem : RemoteMem) (cfg : PyCfg) (s : PyframeState) :
    List Nat × PyframeState :=
  if cfg.runtime = 0 then ([], s)
  else
    match currentFrame mem cfg.offs cfg.runtime with
    | none => ([], s)
    | some frame =>
        walkPythonLoop mem cfg.offs Samples.maxPyFrames frame [] s

def learnRecords (records : List PyframeRec) : HashMap Nat Bytes :=
  records.foldl (fun names record =>
    Samples.learnName names record.id record.name) ∅

/-- The names of a walk after some earlier walks of the same memory. -/
def walkNames (mem : RemoteMem) (cfg : PyCfg) (earlier : Nat) : List Bytes :=
  let s := (fun s => (walkPython mem cfg s).2)^[earlier] {}
  let (pyIds, s) := walkPython mem cfg s
  pyIds.filterMap (learnRecords s.records).lookup

/-! ### Frames visited -/

inductive Visit where
  | shim
  | unnamed
  | named (qual : UInt64)
  deriving DecidableEq, Repr

def Visit.qual? : Visit → Option UInt64
  | .named qual => some qual
  | _ => none

section

variable (mem : RemoteMem) (offs : PyDebugOffsets)

def visitOf (code : UInt64) : Visit :=
  if code = 0 then .shim
  else
    match mem.readU64 (code + offs.codeQualname) with
    | none => .unnamed
    | some qual => if qual = 0 then .unnamed else .named qual

def visits : (steps : Nat) → (frame : UInt64) → List Visit
  | 0, _ => []
  | steps + 1, frame =>
      if frame = 0 then []
      else
        match mem.readU64 (frame + offs.frameExecutable) with
        | none => []
        | some code =>
            visitOf mem offs code ::
              match mem.readU64 (frame + offs.framePrevious) with
              | none => []
              | some next => visits steps next

theorem visits_take {fewer steps : Nat} (le : fewer ≤ steps)
    (frame : UInt64) :
    (visits mem offs steps frame).take fewer = visits mem offs fewer frame := by
  induction fewer generalizing steps frame with
  | zero => rfl
  | succ fewer ih =>
      cases steps with
      | zero => omega
      | succ steps =>
          unfold visits
          split
          · rfl
          · cases mem.readU64 (frame + offs.frameExecutable) with
            | none => rfl
            | some code =>
                dsimp only
                rw [List.take_succ_cons]
                cases mem.readU64 (frame + offs.framePrevious) with
                | none => rw [List.take_nil]
                | some next => rw [ih (Nat.le_of_succ_le_succ le)]

/-! ### Ids and names -/

def learnedName (qual : UInt64) : Bytes :=
  (recordName mem offs qual).takeWhile (· ≠ 0)

/-- Every id has its name, and later ids are free. -/
structure Interned (s : PyframeState) : Prop where
  named : ∀ qual id, s.ids.lookup qual = some id → 1 ≤ id ∧
    (learnRecords s.records).lookup id = some (learnedName mem offs qual)
  fresh : ∀ id, s.next < id → (learnRecords s.records).lookup id = none

variable {mem offs}

theorem interned_empty : Interned mem offs {} where
  named qual id known := by cases known
  fresh id _ := rfl

theorem learnRecords_snoc {records : List PyframeRec} {id : Nat} (name : Bytes)
    (free : (learnRecords records).lookup id = none) (other : Nat) :
    (learnRecords (records ++ [⟨id, name⟩])).lookup other =
      if other = id then some (name.takeWhile (· ≠ 0))
      else (learnRecords records).lookup other := by
  have step : learnRecords (records ++ [⟨id, name⟩]) =
      Samples.learnName (learnRecords records) id name := by
    unfold learnRecords
    rw [List.foldl_append]
    rfl
  rw [step, Samples.learnName, free]
  exact HashMap.lookup_insert_eq _ _ _ _

def Extends (s s' : PyframeState) : Prop :=
  ∀ id name, (learnRecords s.records).lookup id = some name →
    (learnRecords s'.records).lookup id = some name

theorem resolvePyframe_interned {s : PyframeState}
    (interned : Interned mem offs s) (qual : UInt64) :
    Interned mem offs (resolvePyframe mem offs qual s).2 ∧
      Extends s (resolvePyframe mem offs qual s).2 ∧
      (resolvePyframe mem offs qual s).1 ≠ 0 ∧
      (learnRecords (resolvePyframe mem offs qual s).2.records).lookup
          (resolvePyframe mem offs qual s).1 =
        some (learnedName mem offs qual) := by
  unfold resolvePyframe
  cases known : s.ids.lookup qual with
  | some id =>
      obtain ⟨positive, name⟩ := interned.named qual id known
      exact ⟨interned, fun _ _ before => before, Nat.ne_of_gt positive, name⟩
  | none =>
      dsimp only
      have free := interned.fresh (s.next + 1) (Nat.lt_succ_self _)
      have learned := learnRecords_snoc (recordName mem offs qual) free
      have keeps : Extends s { s with
          records := s.records ++
            [⟨s.next + 1, recordName mem offs qual⟩] } := by
        intro id name before
        rw [learned, if_neg]
        · exact before
        · rintro rfl
          rw [free] at before
          cases before
      have own : (learnRecords (s.records ++
          [⟨s.next + 1, recordName mem offs qual⟩])).lookup (s.next + 1) =
            some (learnedName mem offs qual) := by
        rw [learned, if_pos rfl]
        rfl
      refine ⟨⟨?_, ?_⟩, keeps, Nat.succ_ne_zero _, own⟩
      · intro other id found
        dsimp only at found
        split at found
        · rw [HashMap.lookup_insert_eq] at found
          split at found
          · next same =>
              cases found
              rw [same]
              exact ⟨Nat.succ_pos _, own⟩
          · obtain ⟨positive, name⟩ := interned.named other id found
            exact ⟨positive, keeps _ _ name⟩
        · obtain ⟨positive, name⟩ := interned.named other id found
          exact ⟨positive, keeps _ _ name⟩
      · intro id later
        have past : s.next + 1 < id := later
        rw [learned, if_neg (by omega)]
        exact interned.fresh id (by omega)

/-- A frame's code adds the name of what it says, if anything. -/
theorem namePyframe_interned {s : PyframeState}
    (interned : Interned mem offs s) (code : UInt64) (pyIds : List Nat) :
    Interned mem offs (namePyframe mem offs code pyIds s).2 ∧
      Extends s (namePyframe mem offs code pyIds s).2 ∧
      ∃ ids, (namePyframe mem offs code pyIds s).1 = pyIds ++ ids ∧
        ids.length ≤ 1 ∧
        ids.map (learnRecords
            (namePyframe mem offs code pyIds s).2.records).lookup =
          (visitOf mem offs code).qual?.toList.map
            fun qual => some (learnedName mem offs qual) := by
  have unchanged : Interned mem offs s ∧ Extends s s ∧
      ∃ ids, pyIds = pyIds ++ ids ∧ ids.length ≤ 1 ∧
        ids.map (learnRecords s.records).lookup = [] :=
    ⟨interned, fun _ _ before => before, [], (List.append_nil _).symm, by simp, rfl⟩
  unfold namePyframe visitOf
  split
  · exact unchanged
  · cases mem.readU64 (code + offs.codeQualname) with
    | none => exact unchanged
    | some qual =>
        dsimp only
        split
        · exact unchanged
        · obtain ⟨interned', extends_, nonzero, name⟩ :=
            resolvePyframe_interned interned qual
          rw [if_neg nonzero]
          refine ⟨interned', extends_, [_], rfl, Nat.le_refl 1, ?_⟩
          exact congrArg (fun name => [name]) name

theorem walkPythonLoop_interned {steps : Nat} (frame : UInt64)
    {pyIds : List Nat} {s : PyframeState} (interned : Interned mem offs s)
    (room : pyIds.length + steps ≤ Samples.maxPyFrames) :
    Interned mem offs (walkPythonLoop mem offs steps frame pyIds s).2 ∧
      Extends s (walkPythonLoop mem offs steps frame pyIds s).2 ∧
      ∃ ids, (walkPythonLoop mem offs steps frame pyIds s).1 = pyIds ++ ids ∧
        ids.map (learnRecords
            (walkPythonLoop mem offs steps frame pyIds s).2.records).lookup =
          ((visits mem offs steps frame).filterMap Visit.qual?).map
            fun qual => some (learnedName mem offs qual) := by
  have unchanged : ∀ (pyIds : List Nat) (s : PyframeState),
      Interned mem offs s → Interned mem offs s ∧ Extends s s ∧
        ∃ ids, pyIds = pyIds ++ ids ∧
          ids.map (learnRecords s.records).lookup = [] :=
    fun _ _ interned =>
      ⟨interned, fun _ _ before => before, [], (List.append_nil _).symm, rfl⟩
  induction steps generalizing frame pyIds s with
  | zero => exact unchanged pyIds s interned
  | succ steps ih =>
      unfold walkPythonLoop visits
      have below : ¬Samples.maxPyFrames ≤ pyIds.length := by omega
      by_cases null : frame = 0
      · rw [if_pos (.inl null), if_pos null]
        exact unchanged pyIds s interned
      · rw [if_neg (not_or.mpr ⟨null, below⟩), if_neg null]
        cases mem.readU64 (frame + offs.frameExecutable) with
        | none => exact unchanged pyIds s interned
        | some code =>
            obtain ⟨interned', extends_, first, listed, one, names⟩ :=
              namePyframe_interned interned code pyIds
            dsimp only
            cases mem.readU64 (frame + offs.framePrevious) with
            | none =>
                refine ⟨interned', extends_, first, listed, ?_⟩
                rw [names]
                cases visitOf mem offs code <;> rfl
            | some next =>
                have room' : (namePyframe mem offs code pyIds s).1.length +
                    steps ≤ Samples.maxPyFrames := by
                  rw [listed, List.length_append]
                  omega
                obtain ⟨interned'', extends', later, appended, rest⟩ :=
                  ih next interned' room'
                refine ⟨interned'', fun id name known =>
                  extends' id name (extends_ id name known),
                  first ++ later, ?_, ?_⟩
                · dsimp only
                  rw [appended, listed, List.append_assoc]
                · dsimp only
                  rw [List.map_append, rest]
                  have kept : first.map (learnRecords (walkPythonLoop mem offs
                      steps next (namePyframe mem offs code pyIds s).1
                      (namePyframe mem offs code pyIds s).2).2.records).lookup =
                      (visitOf mem offs code).qual?.toList.map
                        fun qual => some (learnedName mem offs qual) := by
                    rw [← names]
                    apply List.map_congr_left
                    intro id member
                    have named : (learnRecords (namePyframe mem offs code pyIds
                        s).2.records).lookup id ∈
                        (visitOf mem offs code).qual?.toList.map
                          fun qual => some (learnedName mem offs qual) := by
                      rw [← names]
                      exact List.mem_map_of_mem member
                    obtain ⟨qual, _, same⟩ := List.mem_map.mp named
                    rw [← same, extends' id _ same.symm]
                  rw [kept]
                  cases visitOf mem offs code <;> rfl

theorem walkPython_interned {cfg : PyCfg} {s : PyframeState}
    (interned : Interned mem cfg.offs s) :
    Interned mem cfg.offs (walkPython mem cfg s).2 := by
  unfold walkPython
  split
  · exact interned
  · cases currentFrame mem cfg.offs cfg.runtime with
    | none => exact interned
    | some frame =>
        exact (walkPythonLoop_interned frame interned (Nat.le_refl _)).1

theorem interned_iterate {cfg : PyCfg} (earlier : Nat) :
    Interned mem cfg.offs
      ((fun s => (walkPython mem cfg s).2)^[earlier] {}) := by
  induction earlier with
  | zero => exact interned_empty
  | succ earlier ih =>
      rw [Function.iterate_succ_apply']
      exact walkPython_interned ih

end

def walkVisits (mem : RemoteMem) (cfg : PyCfg) (steps : Nat) : List Visit :=
  match currentFrame mem cfg.offs cfg.runtime with
  | none => []
  | some frame => visits mem cfg.offs steps frame

theorem filterMap_of_map_eq {α β : Type} {f : α → Option β} {list : List α}
    {values : List β} (found : list.map f = values.map some) :
    list.filterMap f = values := by
  have through := congrArg (List.filterMap id) found
  rwa [List.filterMap_map, List.filterMap_map, Function.id_comp,
    Function.id_comp, List.filterMap_some] at through

/-- The kernel names every qualname on the first frames of the chain. -/
theorem walkNames_eq (mem : RemoteMem) (cfg : PyCfg) (earlier : Nat) :
    walkNames mem cfg earlier =
      if cfg.runtime = 0 then []
      else ((walkVisits mem cfg Samples.maxPyFrames).filterMap
        Visit.qual?).map (learnedName mem cfg.offs) := by
  have interned : Interned mem cfg.offs _ := interned_iterate earlier
  unfold walkNames walkVisits
  generalize ((fun s => (walkPython mem cfg s).2)^[earlier] {}) = s at interned
  unfold walkPython
  split
  · rfl
  · cases currentFrame mem cfg.offs cfg.runtime with
    | none => rfl
    | some frame =>
        have room : ([] : List Nat).length + Samples.maxPyFrames ≤
            Samples.maxPyFrames := Nat.le_refl _
        obtain ⟨_, _, ids, listed, names⟩ :=
          walkPythonLoop_interned frame interned room
        dsimp only
        rw [listed, List.nil_append]
        apply filterMap_of_map_eq
        rw [names, List.map_map]
        rfl

end Sismo.Python
