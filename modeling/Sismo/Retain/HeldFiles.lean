import Sismo.Retain.History

namespace Sismo.Retain

open Samples ModuleRegistry

/-! The files that the registry hands out are verified, as long as no file is
pinned for a key that an earlier call settled with another file's id. -/

variable (numbers : DeviceNumbers)

def MapsInode (key : ModuleKey) (inode : Inode) : Prop :=
  ∃ pid base, key =
    .mapping pid base (numbers.major inode.1) (numbers.minor inode.1) inode.2

/-- In whatever order the entries come, each real id that is offered is the one
of the file behind the descriptor, and a mapping of its inode was registered
with it. -/
def HandsOutVerified (h : History) : Prop :=
  ∀ order : List Entry,
    order.Perm (h.registry.entries.entries.map Sigma.snd) →
    ∀ id path, (h.registry.heldFdPaths order).lookup id = some path →
      isSynthetic id = false →
      ∃ inode file, h.registry.fds.lookup inode = some file ∧
        path = fdPath file ∧ file.metadata = some inode ∧
        file.buildId = some id ∧
        ∃ answer ∈ h.answers, answer.idHint = id ∧
          MapsInode numbers answer.key inode

def ModuleKey.isMapping : ModuleKey → Bool
  | .mapping _ _ _ _ _ => true
  | .file _ _ => false

def Unchanged (r : ModuleRegistry) (file : File) : Prop :=
  ∀ inode held, file.metadata = some inode → r.fds.lookup inode = some held →
    file.buildId = held.buildId

/-- An exact registration of a mapping; the hint of one that brings its file
is the id read from that file. -/
structure Admissible (h : History) (call : Call) : Prop where
  exact : call.exact = true
  mapping : call.key.isMapping = true
  unchanged : ∀ file, call.offered = some file → Unchanged h.registry file
  trusted : call.checksElfId = false → ∀ file, call.offered = some file →
    call.idHint = file.buildId.getD []

/-- A file is pinned for a key only if the id that the key was settled with is
synthetic or the file's own. -/
def Agrees (h : History) (call : Call) : Prop :=
  ∀ e file inode, h.registry.entries.lookup call.key = some e →
    h.registry.shouldHold call.displayPath = true → Lacks call e →
    Accepts numbers h.registry call file inode →
    isSynthetic e.buildId = true ∨ file.buildId = some e.buildId

variable {numbers}

/-! ### What is offered -/

theorem lookup_foldl_insert {path found : String} {id : Bytes}
    {aliases : List Bytes} {out : HashMap Bytes String}
    (offered : (aliases.foldl (fun out id => out.insert id path) out).lookup id =
      some found) :
    id ∈ aliases ∧ found = path ∨ out.lookup id = some found := by
  induction aliases generalizing out with
  | nil => exact .inr offered
  | cons first rest induction =>
      cases induction offered with
      | inl rest => exact .inl ⟨List.mem_cons_of_mem _ rest.1, rest.2⟩
      | inr earlier =>
          rw [HashMap.lookup_insert_eq] at earlier
          split at earlier
          · next same =>
              exact .inl ⟨by rw [same]; exact List.mem_cons_self,
                (Option.some.inj earlier).symm⟩
          · exact .inr earlier

theorem lookup_offerFd {r : ModuleRegistry} {out : HashMap Bytes String}
    {e : Entry} {id : Bytes} {path : String}
    (offered : (r.offerFd out e).lookup id = some path) :
    out.lookup id = some path ∨
      ∃ inode file, e.inode = some inode ∧ r.fds.lookup inode = some file ∧
        path = fdPath file ∧ (id = e.buildId ∨ id ∈ e.aliases) := by
  unfold offerFd at offered
  split at offered
  · exact .inl offered
  · split at offered
    · exact .inl offered
    · next file bound =>
        obtain ⟨inode, pinned, held⟩ := Option.bind_eq_some_iff.mp bound
        obtain ⟨member, same⟩ | earlier := lookup_foldl_insert offered
        · exact .inr ⟨inode, file, pinned, held, same, .inr member⟩
        · rw [HashMap.lookup_insert_eq] at earlier
          split at earlier
          · next settled =>
              exact .inr ⟨inode, file, pinned, held,
                (Option.some.inj earlier).symm, .inl settled⟩
          · exact .inl earlier

theorem lookup_foldl_offerFd {r : ModuleRegistry} {order : List Entry}
    {out : HashMap Bytes String} {id : Bytes} {path : String}
    (offered : (order.foldl r.offerFd out).lookup id = some path) :
    out.lookup id = some path ∨
      ∃ e ∈ order, ∃ inode file, e.inode = some inode ∧
        r.fds.lookup inode = some file ∧ path = fdPath file ∧
        (id = e.buildId ∨ id ∈ e.aliases) := by
  induction order generalizing out with
  | nil => exact .inl offered
  | cons e rest induction =>
      obtain here | ⟨e', member, held⟩ := induction offered
      · obtain earlier | held := lookup_offerFd here
        · exact .inl earlier
        · exact .inr ⟨e, List.mem_cons_self, held⟩
      · exact .inr ⟨e', List.mem_cons_of_mem _ member, held⟩

/-! ### The invariant -/

/-- The ids of an entry were hints for its key, and those of a pinned entry are
the file's own. -/
structure VerifiedEntry (numbers : DeviceNumbers) (h : History)
    (key : ModuleKey) (e : Entry) : Prop where
  mapping : key.isMapping = true
  settled : isSynthetic e.buildId = true ∨
    ∃ answer ∈ h.answers, answer.key = key ∧ answer.idHint = e.buildId
  hinted : ∀ id ∈ e.aliases,
    ∃ answer ∈ h.answers, answer.key = key ∧ answer.idHint = id
  unpinned : e.inode = none → e.aliases = []
  pinned : ∀ inode, e.inode = some inode →
    namesInode numbers key inode = true ∧
    ∃ file, h.registry.fds.lookup inode = some file ∧
      (isSynthetic e.buildId = true ∨ file.buildId = some e.buildId) ∧
      ∀ id ∈ e.aliases, file.buildId = some id

structure Verified (numbers : DeviceNumbers) (h : History) : Prop where
  entries : ∀ key e, h.registry.entries.lookup key = some e →
    VerifiedEntry numbers h key e
  fds : ∀ inode file, h.registry.fds.lookup inode = some file →
    file.metadata = some inode

namespace Verified

variable {h next : History} {call : Call} {id : Bytes}

theorem initial (registry : ModuleRegistry) (empty : registry.entries = ∅)
    (closed : registry.fds = ∅) : Verified numbers { registry := registry } where
  entries key e found := by
    dsimp only at found
    rw [empty] at found
    cases found
  fds inode file found := by
    dsimp only at found
    rw [closed] at found
    cases found

/-- Entries stay verified as answers and descriptors are added. -/
theorem entry_grows {key : ModuleKey} {e : Entry}
    (verified : VerifiedEntry numbers h key e)
    (answers : h.answers ⊆ next.answers)
    (held : ∀ inode file, h.registry.fds.lookup inode = some file →
      next.registry.fds.lookup inode = some file) :
    VerifiedEntry numbers next key e where
  mapping := verified.mapping
  settled := verified.settled.imp_right fun ⟨answer, member, about⟩ =>
    ⟨answer, answers member, about⟩
  hinted id member := by
    obtain ⟨answer, member, about⟩ := verified.hinted id member
    exact ⟨answer, answers member, about⟩
  unpinned := verified.unpinned
  pinned inode pinned := by
    obtain ⟨named, file, found, ids⟩ := verified.pinned inode pinned
    exact ⟨named, file, held inode file found, ids⟩

theorem namesInode_unique {key : ModuleKey} {inode other : Inode}
    (mapping : key.isMapping = true)
    (first : namesInode numbers key inode = true)
    (second : namesInode numbers key other = true) : inode = other := by
  cases key with
  | mapping pid base devMajor devMinor ino =>
      simp only [namesInode, decide_eq_true_eq] at first second
      have dev := numbers.determine inode.1 other.1
        (first.1.trans second.1.symm) (first.2.1.trans second.2.1.symm)
      exact Prod.ext dev (first.2.2.trans second.2.2.symm)
  | file dev ino => cases mapping

theorem settle (verified : Verified numbers h) (mapping : call.key.isMapping)
    (paths : HashMap Bytes String) (id : Bytes) (minted : List Bytes) :
    Verified numbers
      { registry := (h.registry.idFor call.key call.idHint).2.withPaths paths
        answers := h.answers ++ [⟨call.key, call.idHint, id⟩]
        minted := minted } where
  entries key e found := by
    have fds := (idFor_frame h.registry call.key call.idHint).1
    obtain kept | ⟨rfl, -, fresh⟩ :=
      lookup_idFor_cases h.registry call.key call.idHint key
    · have grown := verified.entries key e (kept.symm.trans found)
      refine entry_grows grown (List.subset_append_left _ _) ?_
      intro inode file held
      exact (congrArg (AList.lookup inode) fds).trans held
    · cases fresh.symm.trans found
      refine
        { mapping := mapping
          settled := ?_
          hinted := fun id member => by cases member
          unpinned := fun _ => rfl
          pinned := fun inode pinned => by cases pinned }
      refine (mint_cases h.registry call.idHint).imp_right fun ⟨_, same⟩ => ?_
      exact ⟨_, List.mem_append_right _ List.mem_cons_self, rfl, same.symm⟩
  fds inode file found := by
    have fds := (idFor_frame h.registry call.key call.idHint).1
    exact verified.fds inode file
      ((congrArg (AList.lookup inode) fds).symm.trans found)

/-- The id of the file is a hint that has been checked or trusted. -/
theorem hint_of_accepts {s : ModuleRegistry} {file : File} {inode : Inode}
    (admissible : Admissible h call)
    (accepts : Accepts numbers s call file inode) (hinted : call.idHint ≠ []) :
    file.buildId = some call.idHint := by
  cases checks : call.checksElfId with
  | true => exact accepts.checked checks hinted
  | false =>
      have trusted := admissible.trusted checks file accepts.offered
      cases read : file.buildId with
      | none =>
          rw [read] at trusted
          exact absurd trusted hinted
      | some id =>
          rw [read] at trusted
          rw [trusted]
          rfl

/-- The file whose descriptor is held after a pin has the same id. -/
theorem held_of_holds {s : ModuleRegistry} {file : File} {inode : Inode}
    {fds : HashMap Inode File} (holds : Holds s inode file fds)
    (metadata : file.metadata = some inode) (unchanged : Unchanged s file) :
    ∃ held, fds.lookup inode = some held ∧ held.buildId = file.buildId := by
  cases holds with
  | already found => exact ⟨_, found, (unchanged _ _ metadata found).symm⟩
  | new free room => exact ⟨file, AList.lookup_insert _, rfl⟩

theorem fds_of_holds {s : ModuleRegistry} {file : File} {inode : Inode}
    {fds : HashMap Inode File} (holds : Holds s inode file fds)
    (metadata : file.metadata = some inode)
    (known : ∀ inode file, s.fds.lookup inode = some file →
      file.metadata = some inode) :
    ∀ inode file, fds.lookup inode = some file →
      file.metadata = some inode := by
  cases holds with
  | already found => exact known
  | new free room =>
      intro other held found
      rw [HashMap.lookup_insert_eq] at found
      split at found
      · next same =>
          cases found
          rw [same, metadata]
      · exact known other held found

theorem pinnedEntry_verified {mid : History} {e : Entry} {file held : File}
    {inode : Inode} {fds : HashMap Inode File}
    (verified : VerifiedEntry numbers mid call.key e)
    (asked : ∃ answer ∈ mid.answers, answer.key = call.key ∧
      answer.idHint = call.idHint)
    (named : namesInode numbers call.key inode = true)
    (settled : isSynthetic e.buildId = true ∨ file.buildId = some e.buildId)
    (hinted : call.idHint ≠ [] → file.buildId = some call.idHint)
    (kept : ∀ inode file, mid.registry.fds.lookup inode = some file →
      fds.lookup inode = some file)
    (found : fds.lookup inode = some held)
    (same : held.buildId = file.buildId) :
    VerifiedEntry numbers
      { mid with
        registry := (mid.registry.withFds fds).setEntry call.key
          (pinnedEntry call e inode) }
      call.key (pinnedEntry call e inode) := by
  have aliases : ∀ id ∈ (pinnedEntry call e inode).aliases,
      id ∈ e.aliases ∨ call.idHint ≠ [] ∧ id = call.idHint := by
    intro id member
    unfold pinnedEntry at member
    dsimp only at member
    split at member
    · next new =>
        rw [List.mem_append, List.mem_singleton] at member
        exact member.imp_right fun same => ⟨new.2.1, same⟩
    · exact .inl member
  refine
    { mapping := verified.mapping
      settled := verified.settled
      hinted := fun id member => ?_
      unpinned := fun unpinned => by cases unpinned
      pinned := fun other pinned => ?_ }
  · obtain old | ⟨-, rfl⟩ := aliases id member
    · exact verified.hinted id old
    · exact asked
  · cases pinned
    refine ⟨named, held, found, ?_, fun id member => ?_⟩
    · rw [same]
      exact settled
    · obtain old | ⟨real, rfl⟩ := aliases id member
      · cases pinned : e.inode with
        | none =>
            rw [verified.unpinned pinned] at old
            cases old
        | some earlier =>
            obtain ⟨named', held', found', -, ids⟩ :=
              verified.pinned earlier pinned
            cases namesInode_unique verified.mapping named' named
            cases (kept _ _ found').symm.trans found
            exact ids id old
      · rw [same]
        exact hinted real

theorem effect {mid : History} {after : ModuleRegistry} {e : Entry}
    (verified : Verified numbers mid)
    (found : mid.registry.entries.lookup call.key = some e)
    (effect : Effect numbers call mid.registry e after)
    (exact_ : call.exact = true)
    (asked : ∃ answer ∈ mid.answers, answer.key = call.key ∧
      answer.idHint = call.idHint)
    (unchanged : ∀ file, call.offered = some file →
      Unchanged mid.registry file)
    (hinted : ∀ file inode, Accepts numbers mid.registry call file inode →
      call.idHint ≠ [] → file.buildId = some call.idHint)
    (settled : ∀ file inode,
      mid.registry.shouldHold call.displayPath = true → Lacks call e →
      Accepts numbers mid.registry call file inode →
      isSynthetic e.buildId = true ∨ file.buildId = some e.buildId) :
    Verified numbers { mid with registry := after } := by
  have own := verified.entries _ e found
  cases effect with
  | kept => exact verified
  | declined policy =>
      refine ⟨fun key later known => ?_, verified.fds⟩
      dsimp only [setEntry] at known
      rw [HashMap.lookup_insert_eq] at known
      split at known
      · next same =>
          cases known
          rw [same]
          exact { own with }
      · exact { verified.entries key later known with }
  | failed =>
      refine ⟨fun key later known => ?_, verified.fds⟩
      dsimp only [setEntry] at known
      rw [HashMap.lookup_insert_eq] at known
      split at known
      · next same =>
          cases known
          rw [same]
          exact { own with }
      · exact { verified.entries key later known with }
  | pinned policy lacks accepts holds =>
      next file inode fds =>
      have kept := holds.extends.held
      obtain ⟨held, known, same⟩ := held_of_holds holds accepts.metadata
        (unchanged file accepts.offered)
      refine ⟨fun key later stored => ?_,
        fds_of_holds holds accepts.metadata verified.fds⟩
      dsimp only [setEntry] at stored
      rw [HashMap.lookup_insert_eq] at stored
      split at stored
      · next equal =>
          cases stored
          rw [equal]
          exact pinnedEntry_verified own asked (accepts.named exact_)
            (settled file inode policy lacks accepts)
            (hinted file inode accepts) kept known same
      · exact entry_grows (verified.entries key later stored)
          (fun _ member => member) kept

theorem step (verified : Verified numbers h)
    (admissible : Admissible h call) (agrees : Agrees numbers h call)
    (stepped : h.step numbers call = some next) : Verified numbers next := by
  obtain ⟨id, applied, -, answers, -⟩ := History.step_cases stepped
  obtain ⟨same, paths, e, found, settled, effect⟩ := Call.apply_effect applied
  obtain ⟨fds, fdCap, policy⟩ :=
    idFor_frame h.registry call.key call.idHint
  have mid := verified.settle admissible.mapping paths id next.minted
  rw [← answers] at mid
  have asked : ∃ answer ∈ next.answers, answer.key = call.key ∧
      answer.idHint = call.idHint := by
    rw [answers]
    exact ⟨_, List.mem_append_right _ List.mem_cons_self, rfl, rfl⟩
  have hinted : ∀ file inode, Accepts numbers
      ((h.registry.idFor call.key call.idHint).2.withPaths paths) call file
        inode → call.idHint ≠ [] → file.buildId = some call.idHint :=
    fun file inode accepts => hint_of_accepts admissible accepts
  refine mid.effect found effect admissible.exact asked ?_ hinted ?_
  · intro file offered inode held metadata known
    exact admissible.unchanged file offered inode held metadata
      ((congrArg (AList.lookup inode) fds).symm.trans known)
  · intro file inode holds lacks accepts
    have before : Accepts numbers h.registry call file inode :=
      { accepts with
        room := fun free => by
          have room := accepts.room
            ((congrArg (AList.lookup inode) fds).trans free)
          dsimp only [withPaths] at room
          rwa [fds, fdCap] at room }
    obtain kept | ⟨-, fresh, new⟩ :=
      lookup_idFor_cases h.registry call.key call.idHint call.key
    · refine agrees e file inode (kept.symm.trans found) ?_ lacks before
      unfold shouldHold at holds ⊢
      dsimp only [withPaths] at holds
      rwa [policy] at holds
    · cases new.symm.trans found
      refine (mint_cases h.registry call.idHint).imp_right
        fun ⟨real, same⟩ => ?_
      dsimp only
      rw [same]
      exact hinted file inode accepts real

theorem handsOut (verified : Verified numbers h) :
    HandsOutVerified numbers h := by
  intro order perm id path offered real
  obtain none | ⟨e, member, inode, file, pinned, held, rfl, which⟩ :=
    lookup_foldl_offerFd offered
  · cases none
  · obtain ⟨⟨key, e'⟩, stored, rfl⟩ :=
      List.mem_map.mp (perm.mem_iff.mp member)
    have entry := verified.entries key e' (AList.mem_lookup_iff.mpr stored)
    obtain ⟨named, file', held', settled, aliases⟩ := entry.pinned inode pinned
    cases held.symm.trans held'
    have own : file.buildId = some id ∧
        ∃ answer ∈ h.answers, answer.key = key ∧ answer.idHint = id := by
      obtain rfl | alias_ := which
      · dsimp only at real
        have answer := entry.settled
        rw [real] at settled answer
        exact ⟨settled.resolve_left Bool.false_ne_true,
          answer.resolve_left Bool.false_ne_true⟩
      · exact ⟨aliases id alias_, entry.hinted id alias_⟩
    obtain ⟨buildId, answer, among, rfl, hint⟩ := own
    refine ⟨inode, file, held, rfl, verified.fds inode file held, buildId,
      answer, among, hint, ?_⟩
    have mapping := entry.mapping
    cases known : answer.key with
    | file dev ino =>
        rw [known] at mapping
        cases mapping
    | mapping pid base devMajor devMinor ino =>
        rw [known] at named
        simp only [namesInode, decide_eq_true_eq] at named
        obtain ⟨rfl, rfl, rfl⟩ := named
        exact ⟨pid, base, rfl⟩

end Verified

/-- Where no file is pinned for a key that was settled with another real id,
the registry hands out verified files only. -/
theorem held_files_verified (numbers : DeviceNumbers) (policy : KeepPolicy)
    (seed : BitVec 64) (fdCap : Nat) (calls : List Call) (final : History)
    (admissible : Machine.Along (History.step numbers) Admissible
      { registry := { new policy seed with fdCap := fdCap } } calls)
    (agrees : Machine.Along (History.step numbers) (Agrees numbers)
      { registry := { new policy seed with fdCap := fdCap } } calls)
    (reached : Machine.run (History.step numbers)
      { registry := { new policy seed with fdCap := fdCap } } calls =
        some final) :
    HandsOutVerified numbers final := by
  have verified : Verified numbers final :=
    Machine.run_invariant_along
      (fun _ _ _ verified both stepped =>
        Verified.step verified both.1 both.2 stepped)
      (.initial _ rfl rfl) (admissible.and agrees) reached
  exact verified.handsOut

def mappedFile : File := ⟨5, some (2049, 42), some [4, 5, 6]⟩

/-- The mapping has no id at first; then its file is opened. -/
def lateIdCalls : List Call :=
  [.registerExact (.mapping 7 4096 8 1 42) [] "/home/a.out" none,
    .registerExactFile (.mapping 7 4096 8 1 42) [4, 5, 6] "/home/a.out"
      mappedFile]

theorem held_files_verified_lateIdCalls :
    ∃ final, Machine.run (History.step smallDevices)
        { registry := { new .all 0 with fdCap := 16 } } lateIdCalls =
          some final ∧
      final.registry.fds.keys = [(2049, 42)] ∧
      HandsOutVerified smallDevices final := by
  refine ⟨_, rfl, rfl, held_files_verified smallDevices .all 0 16 lateIdCalls _
    ?_ ?_ rfl⟩
  · refine Machine.along_cons ⟨rfl, rfl, ?_, ?_⟩ rfl ?_
    · intro file offered
      cases offered
    · intro checks
      cases checks
    refine Machine.along_cons ⟨rfl, rfl, ?_, ?_⟩ rfl trivial
    · intro file offered inode held metadata known
      cases known
    · intro checks file offered
      cases offered
      rfl
  · refine Machine.along_cons ?_ rfl ?_
    · intro e file inode found
      cases found
    refine Machine.along_cons ?_ rfl trivial
    intro e file inode found policy lacks accepts
    cases found
    exact .inl rfl

/-- The mapping is first registered with an id that its file does not have. -/
def wrongIdCalls : List Call :=
  [.registerExact (.mapping 7 4096 8 1 42) [1, 2, 3] "/home/a.out"
      (some mappedFile),
    .registerExact (.mapping 7 4096 8 1 42) [4, 5, 6] "/home/a.out"
      (some mappedFile)]

theorem not_held_files_verified_wrongIdCalls :
    Machine.Along (History.step smallDevices) Admissible
        { registry := { new .all 0 with fdCap := 16 } } wrongIdCalls ∧
      ∃ final, Machine.run (History.step smallDevices)
          { registry := { new .all 0 with fdCap := 16 } } wrongIdCalls =
            some final ∧
        ¬ HandsOutVerified smallDevices final := by
  constructor
  · refine Machine.along_cons ⟨rfl, rfl, ?_, ?_⟩ rfl ?_
    · intro file offered inode held metadata known
      cases known
    · intro checks
      cases checks
    refine Machine.along_cons ⟨rfl, rfl, ?_, ?_⟩ rfl trivial
    · intro file offered inode held metadata known
      cases known
    · intro checks
      cases checks
  · refine ⟨_, rfl, fun verified => ?_⟩
    obtain ⟨inode, file, found, -, metadata, buildId, -⟩ :=
      verified _ (List.Perm.refl _) [1, 2, 3] "/proc/self/fd/5" rfl rfl
    have only : file = mappedFile := by
      obtain rfl | other := eq_or_ne inode (2049, 42)
      · exact (Option.some.inj found).symm
      · cases (AList.lookup_insert_ne other).symm.trans found
    rw [only] at buildId
    cases buildId

end Sismo.Retain
