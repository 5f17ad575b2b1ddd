import Sismo.Kdebug.PerfEmitter
import Sismo.Samples.StreamDecodes

namespace Sismo.Kdebug

/-! While the keys of the mappings used stay apart, the interner writes what
the Linux one does, which files a mapping under all that it is. -/

open Samples (bytes StringField MappingMsg MappingKey Interns SkipsMappings
  Tables DecodedFrame DecodedMapping decode InSync)

inductive Use where
  | image (m : Module)
  | label (label : Bytes)
  deriving DecidableEq, Repr

def Use.path : Use → Bytes
  | .image m => m.path
  | .label text => text

def addPath (table : InternTable Bytes) (u : Use) : InternTable Bytes :=
  if table.iids.lookup u.path = none then table.insert u.path else table

/-- The ids of the paths, in the order in which they are first used. -/
def pathTable (uses : List Use) : InternTable Bytes :=
  uses.foldl addPath {}

def Use.pathIid (uses : List Use) (u : Use) : Nat :=
  ((pathTable uses).iids.lookup u.path).getD 0

def Use.key (uses : List Use) : Use → Nat
  | .image m => m.base.toNat
  | .label text => u64Max - (Use.label text).pathIid uses

/-- Mappings of one key are the same. -/
def KeysApart (uses : List Use) : Prop :=
  ∀ u ∈ uses, ∀ v ∈ uses, u.key uses = v.key uses → u = v

/-! ### The ids of paths -/

theorem pathTable_snoc (uses : List Use) (u : Use) :
    pathTable (uses ++ [u]) = addPath (pathTable uses) u := by
  rw [pathTable, List.foldl_append]
  rfl

theorem addPath_known {table : InternTable Bytes} {u : Use}
    (known : table.iids.lookup u.path ≠ none) : addPath table u = table := by
  rw [addPath, if_neg known]

theorem addPath_lookup (table : InternTable Bytes) (u : Use) {path : Bytes}
    {iid : Nat} (found : table.iids.lookup path = some iid) :
    (addPath table u).iids.lookup path = some iid := by
  unfold addPath
  split
  · next unknown =>
      have distinct : path ≠ u.path := by
        rintro rfl
        rw [unknown] at found
        cases found
      rw [InternTable.insert, HashMap.lookup_insert_eq, if_neg distinct]
      exact found
  · exact found

theorem addPath_self (table : InternTable Bytes) (u : Use) :
    (addPath table u).iids.lookup u.path ≠ none := by
  unfold addPath
  split
  · rw [InternTable.insert, HashMap.lookup_insert_eq, if_pos rfl]
    simp
  · next known => exact known

theorem pathTable_lookup {done all : List Use} (pre : done <+: all)
    {path : Bytes} {iid : Nat}
    (found : (pathTable done).iids.lookup path = some iid) :
    (pathTable all).iids.lookup path = some iid := by
  obtain ⟨later, rfl⟩ := pre
  induction later using List.reverseRecOn with
  | nil =>
      rw [List.append_nil]
      exact found
  | append_singleton later u induction =>
      rw [← List.append_assoc, pathTable_snoc]
      exact addPath_lookup _ _ induction

/-! ### The two interners -/

def Use.linuxKey (uses : List Use) : Use → MappingKey
  | .image m =>
      .virtual m.base.toNat m.end_.toNat 0 m.base.toNat m.path m.buildId
  | .label text => .residual ((Use.label text).pathIid uses)

theorem key_eq_of_linuxKey_eq {uses : List Use} {u v : Use}
    (same : u.linuxKey uses = v.linuxKey uses) :
    u.key uses = v.key uses := by
  cases u <;> cases v <;> simp_all [Use.linuxKey, Use.key]

/-- Of the uses of a run some are done, and the writers agree. -/
structure Mirrors (all done : List Use) (w : Writer) (r : Samples.Writer) :
    Prop where
  strings : w.interner.strings = r.interner.strings
  paths : r.interner.strings .mappingPath = pathTable done
  next : w.interner.mappings.next = r.interner.mappings.next
  mappings : ∀ u ∈ all, w.interner.mappings.iids.lookup (u.key all) =
    r.interner.mappings.iids.lookup (u.linuxKey all)
  known : ∀ u ∈ all,
    r.interner.mappings.iids.lookup (u.linuxKey all) ≠ none →
    (pathTable done).iids.lookup u.path ≠ none
  frames : w.interner.frames = r.interner.frames
  callstacks : w.interner.callstacks = r.interner.callstacks
  idw : w.idw = r.idw

theorem Mirrors.empty (all : List Use) : Mirrors all [] ⟨{}, []⟩ ⟨{}, []⟩ where
  strings := rfl
  paths := rfl
  next := rfl
  mappings _ _ := rfl
  known _ _ known := absurd rfl known
  frames := rfl
  callstacks := rfl
  idw := rfl

/-- The step and the Linux step do the same, and need the mappings. -/
def Alike {α : Type} (all used : List Use) (step : Writer → α × Writer)
    (linux : Samples.Writer → α × Samples.Writer) : Prop :=
  ∀ done w r, done ++ used <+: all → Mirrors all done w r →
    (step w).1 = (linux r).1 ∧
      Mirrors all (done ++ used) (step w).2 (linux r).2

section

variable {α β : Type} {all used later : List Use}
variable {step : Writer → α × Writer}
variable {linux : Samples.Writer → α × Samples.Writer}

theorem Alike.pure (value : α) :
    Alike all [] (fun w => (value, w)) fun r => (value, r) := by
  intro done w r _ mirrors
  rw [List.append_nil]
  exact ⟨rfl, mirrors⟩

theorem Alike.bind (first : Alike all used step linux)
    (next : α → Writer → β × Writer)
    (linuxNext : α → Samples.Writer → β × Samples.Writer)
    (second : ∀ value, Alike all later (next value) (linuxNext value)) :
    Alike all (used ++ later) (fun w => next (step w).1 (step w).2)
      fun r => linuxNext (linux r).1 (linux r).2 := by
  intro done w r pre mirrors
  rw [← List.append_assoc] at pre ⊢
  obtain ⟨same, middle⟩ := first done w r
    ((List.prefix_append _ _).trans pre) mirrors
  beta_reduce
  rw [same]
  exact second _ (done ++ used) _ _ pre middle

end

section

variable {all : List Use}

theorem internString_alike {field : StringField}
    (other : field ≠ .mappingPath) (s : Bytes) :
    Alike all [] (·.internString field s) (·.internString field s) := by
  intro done w r _ mirrors
  rw [List.append_nil]
  unfold Writer.internString Samples.Writer.internString
  simp only [mirrors.strings]
  cases (r.interner.strings field).iids.lookup s with
  | some iid => exact ⟨rfl, mirrors⟩
  | none =>
      refine ⟨rfl, { mirrors with
        strings := rfl
        paths := ?_
        idw := congrArg (· ++ _) mirrors.idw }⟩
      exact (Function.update_of_ne other.symm _ _).trans mirrors.paths

theorem internFrame_alike (mappingIid pc nameIid : Nat) :
    Alike all [] (·.internFrame mappingIid pc nameIid)
      (·.internFrame ⟨mappingIid, pc, nameIid⟩) := by
  intro done w r _ mirrors
  rw [List.append_nil]
  unfold Writer.internFrame Samples.Writer.internFrame
  simp only [mirrors.frames]
  cases r.interner.frames.iids.lookup ⟨mappingIid, pc, nameIid⟩ with
  | some iid => exact ⟨rfl, mirrors⟩
  | none =>
      exact ⟨rfl, { mirrors with
        frames := rfl
        idw := congrArg (· ++ _) mirrors.idw }⟩

theorem internCallstack_alike (fids : List Nat) :
    Alike all [] (·.internCallstack fids) (·.internCallstackIids fids) := by
  intro done w r _ mirrors
  rw [List.append_nil]
  unfold Writer.internCallstack Samples.Writer.internCallstackIids
  simp only [mirrors.callstacks]
  cases r.interner.callstacks.iids.lookup fids with
  | some iid => exact ⟨rfl, mirrors⟩
  | none =>
      exact ⟨rfl, { mirrors with
        callstacks := rfl
        idw := congrArg (· ++ _) mirrors.idw }⟩

variable (all) in
theorem internPath_alike (u : Use) :
    Alike all [u] (·.internString .mappingPath u.path)
      (·.internString .mappingPath u.path) ∧
    ∀ done w r, done ++ [u] <+: all → Mirrors all done w r →
      (w.internString .mappingPath u.path).1 = u.pathIid all := by
  have step : ∀ done w r, done ++ [u] <+: all → Mirrors all done w r →
      ((w.internString .mappingPath u.path).1 =
        (r.internString .mappingPath u.path).1 ∧
      Mirrors all (done ++ [u]) (w.internString .mappingPath u.path).2
        (r.internString .mappingPath u.path).2) ∧
      (w.internString .mappingPath u.path).1 = u.pathIid all := by
    intro done w r pre mirrors
    have given : ∀ iid,
        (pathTable (done ++ [u])).iids.lookup u.path = some iid →
        iid = u.pathIid all := by
      intro iid found
      rw [Use.pathIid, pathTable_lookup pre found, Option.getD_some]
    have later : ∀ v : Use, (pathTable done).iids.lookup v.path ≠ none →
        (pathTable (done ++ [u])).iids.lookup v.path ≠ none := by
      intro v known
      obtain ⟨iid, found⟩ := Option.ne_none_iff_exists'.mp known
      rw [pathTable_snoc, addPath_lookup _ _ found]
      simp
    have known : ∀ v ∈ all,
        r.interner.mappings.iids.lookup (v.linuxKey all) ≠ none →
        (pathTable (done ++ [u])).iids.lookup v.path ≠ none :=
      fun v member filed => later v (mirrors.known v member filed)
    unfold Writer.internString Samples.Writer.internString
    simp only [mirrors.strings, mirrors.paths]
    cases found : (pathTable done).iids.lookup u.path with
    | some iid =>
        have same : pathTable (done ++ [u]) = pathTable done := by
          rw [pathTable_snoc]
          apply addPath_known
          rw [found]
          simp
        refine ⟨⟨rfl, { mirrors with known := known, paths := ?_ }⟩, ?_⟩
        · exact mirrors.paths.trans same.symm
        · apply given
          rw [same, found]
    | none =>
        have same : pathTable (done ++ [u]) =
            (pathTable done).insert u.path := by
          rw [pathTable_snoc, addPath, if_pos found]
        refine ⟨⟨rfl, { mirrors with
          strings := rfl
          paths := ?_
          known := known
          idw := congrArg (· ++ _) mirrors.idw }⟩, ?_⟩
        · change Function.update r.interner.strings .mappingPath
            ((pathTable done).insert u.path) .mappingPath = _
          rw [Function.update_self, same]
        · apply given
          rw [same, InternTable.insert, HashMap.lookup_insert_eq, if_pos rfl]
  exact ⟨fun done w r pre mirrors => (step done w r pre mirrors).1,
    fun done w r pre mirrors => (step done w r pre mirrors).2⟩

theorem Mirrors.newMapping {done : List Use} {w : Writer} {r : Samples.Writer}
    (mirrors : Mirrors all done w r) (apart : KeysApart all) {u : Use}
    (member : u ∈ all)
    (known : (pathTable done).iids.lookup u.path ≠ none)
    (msg : MappingMsg) :
    (w.newMapping (u.key all) msg).1 = r.interner.mappings.next ∧
      Mirrors all done (w.newMapping (u.key all) msg).2
        ((r.setMappings (r.interner.mappings.insert (u.linuxKey all))).emit
          (.mapping r.interner.mappings.next msg)) := by
  refine ⟨mirrors.next, { mirrors with
    next := congrArg (· + 1) mirrors.next
    mappings := ?_
    known := ?_
    idw := ?_ }⟩
  · intro v vMember
    simp only [Writer.newMapping, Writer.emit, Samples.Writer.emit,
      Samples.Writer.setMappings, InternTable.insert,
      HashMap.lookup_insert_eq]
    have iff : v.key all = u.key all ↔ v.linuxKey all = u.linuxKey all :=
      ⟨fun same => by rw [apart v vMember u member same],
        key_eq_of_linuxKey_eq⟩
    simp only [iff, mirrors.next, mirrors.mappings v vMember]
  · intro v vMember filed
    simp only [Samples.Writer.emit, Samples.Writer.setMappings,
      InternTable.insert, HashMap.lookup_insert_eq] at filed
    split at filed
    · next same =>
        have key := key_eq_of_linuxKey_eq same
        rw [apart v vMember u member key]
        exact known
    · exact mirrors.known v vMember filed
  · simp only [Writer.newMapping, Writer.emit, Samples.Writer.emit,
      Samples.Writer.setMappings, mirrors.idw, mirrors.next]

/-- A mapping that has its path already. -/
theorem Mirrors.again {done : List Use} {w : Writer} {r : Samples.Writer}
    (mirrors : Mirrors all done w r) {u : Use}
    (known : (pathTable done).iids.lookup u.path ≠ none) :
    Mirrors all (done ++ [u]) w r := by
  have same : pathTable (done ++ [u]) = pathTable done := by
    rw [pathTable_snoc, addPath_known known]
  exact { mirrors with
    paths := mirrors.paths.trans same.symm
    known := fun v member filed => same ▸ mirrors.known v member filed }

theorem internBuildIdOpt_alike (raw : Bytes) :
    Alike all []
      (fun w => if raw ≠ [] then w.internString .buildId raw else (0, w))
      (·.internBuildIdOpt raw) := by
  unfold Samples.Writer.internBuildIdOpt
  split
  · exact internString_alike (by decide) raw
  · exact .pure 0

def Module.message (m : Module) (pathIid buildIid : Nat) : MappingMsg where
  buildId := buildIid
  start := m.base.toNat
  end_ := m.end_.toNat
  loadBias := m.base.toNat
  path := pathIid

def moduleMessage (m : Module) (w : Writer) : MappingMsg × Writer :=
  let (pathIid, w) := w.internString .mappingPath m.path
  let (buildIid, w) :=
    if m.buildId ≠ [] then w.internString .buildId m.buildId else (0, w)
  (m.message pathIid buildIid, w)

def linuxMessage (m : Module) (r : Samples.Writer) :
    MappingMsg × Samples.Writer :=
  let (pathIid, r) := r.internPath m.path
  let (buildIid, r) := r.internBuildIdOpt m.buildId
  (m.message pathIid buildIid, r)

theorem moduleMessage_alike (m : Module) :
    Alike all [.image m] (moduleMessage m) (linuxMessage m) :=
  (internPath_alike all (.image m)).1.bind
    (fun pathIid w =>
      let (buildIid, w) :=
        if m.buildId ≠ [] then w.internString .buildId m.buildId else (0, w)
      (m.message pathIid buildIid, w))
    (fun pathIid r =>
      let (buildIid, r) := r.internBuildIdOpt m.buildId
      (m.message pathIid buildIid, r))
    fun pathIid => (internBuildIdOpt_alike m.buildId).bind
      (fun buildIid w => (m.message pathIid buildIid, w))
      (fun buildIid r => (m.message pathIid buildIid, r)) fun _ => .pure _

theorem linuxMessage_skipsMappings (m : Module) :
    SkipsMappings (linuxMessage m) :=
  (Samples.internString_skipsMappings .mappingPath m.path).bind
    (fun pathIid r =>
      let (buildIid, r) := r.internBuildIdOpt m.buildId
      (m.message pathIid buildIid, r))
    fun pathIid => (Samples.internBuildIdOpt_skipsMappings m.buildId).bind
      (fun buildIid r => (m.message pathIid buildIid, r)) fun _ => .pure _

theorem internMapping_alike (apart : KeysApart all) (m : Module) :
    Alike all [.image m] (·.internMapping m)
      (·.internMapping m.base.toNat m.end_.toNat 0 m.base.toNat m.path
        m.buildId) := by
  intro done w r pre mirrors
  have member : Use.image m ∈ all := pre.subset (by simp)
  have found : w.interner.mappings.iids.lookup m.base.toNat =
      r.interner.mappings.iids.lookup ((Use.image m).linuxKey all) :=
    mirrors.mappings _ member
  have linux : r.internMapping m.base.toNat m.end_.toNat 0 m.base.toNat
      m.path m.buildId =
        r.internMappingKey ((Use.image m).linuxKey all) (linuxMessage m) := rfl
  beta_reduce
  rw [linux]
  unfold Writer.internMapping Samples.Writer.internMappingKey
  simp only [found]
  cases filed : r.interner.mappings.iids.lookup
      ((Use.image m).linuxKey all) with
  | some iid =>
      refine ⟨rfl, mirrors.again (mirrors.known _ member ?_)⟩
      rw [filed]
      simp
  | none =>
      have skips := linuxMessage_skipsMappings m
      obtain ⟨sameMsg, later⟩ := moduleMessage_alike m done w r pre mirrors
      have known : (pathTable (done ++ [Use.image m])).iids.lookup
          (Use.image m).path ≠ none := by
        rw [pathTable_snoc]
        exact addPath_self _ _
      have new := later.newMapping apart member known (moduleMessage m w).1
      rw [skips.keeps] at new
      simp only [skips.commutes]
      rw [← sameMsg]
      exact new

theorem internResidualMapping_alike (apart : KeysApart all) (text : Bytes) :
    Alike all [.label text] (·.internResidualMapping text)
      (·.internResidualMapping text) := by
  intro done w r pre mirrors
  have member : Use.label text ∈ all := pre.subset (by simp)
  obtain ⟨path, given⟩ := internPath_alike all (.label text)
  obtain ⟨same, later⟩ := path done w r pre mirrors
  have iid := given done w r pre mirrors
  have found :
      (w.internString .mappingPath text).2.interner.mappings.iids.lookup
          ((Use.label text).key all) =
        (r.internString .mappingPath text).2.interner.mappings.iids.lookup
          ((Use.label text).linuxKey all) := later.mappings _ member
  have known : (pathTable (done ++ [Use.label text])).iids.lookup
      (Use.label text).path ≠ none := by
    rw [pathTable_snoc]
    exact addPath_self _ _
  have mac : u64Max - (w.internString .mappingPath text).1 =
      (Use.label text).key all := congrArg (u64Max - ·) iid
  have linux : r.internResidualMapping text =
      (r.internString .mappingPath text).2.internMappingKey
        ((Use.label text).linuxKey all)
        fun r' => ({ path := (r.internString .mappingPath text).1 }, r') := by
    have key : (Use.label text).linuxKey all =
        .residual (r.internString .mappingPath text).1 :=
      congrArg MappingKey.residual (iid.symm.trans same)
    rw [key]
    rfl
  beta_reduce
  rw [linux]
  unfold Writer.internResidualMapping Samples.Writer.internMappingKey
  dsimp only
  rw [mac, found]
  cases filed : (r.internString .mappingPath text).2.interner.mappings.iids.lookup
      ((Use.label text).linuxKey all) with
  | some iid => exact ⟨rfl, later⟩
  | none =>
      have new := later.newMapping apart member known
        { path := (w.internString .mappingPath text).1 }
      have path : (w.internString .mappingPath text).1 =
          (r.internString .mappingPath text).1 := same
      rw [path] at new ⊢
      exact new

end

end Sismo.Kdebug
