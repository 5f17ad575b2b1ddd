import Sismo.Lib.Machine
import Sismo.Retain.Registry

namespace Sismo.Retain

open Samples

/-! What one call can do to the registry. -/

/-- A lookup or a registration; `opened` is what opening the path gives. -/
inductive Call where
  | idFor (key : ModuleKey) (idHint : Bytes)
  | register (key : ModuleKey) (idHint : Bytes) (path : String)
      (opened : Option File)
  | registerExact (key : ModuleKey) (idHint : Bytes) (displayPath : String)
      (opened : Option File)
  | registerExactFile (key : ModuleKey) (idHint : Bytes)
      (displayPath : String) (file : File)

namespace Call

def key : Call → ModuleKey
  | .idFor key _ | .register key _ _ _ | .registerExact key _ _ _
  | .registerExactFile key _ _ _ => key

def idHint : Call → Bytes
  | .idFor _ idHint | .register _ idHint _ _ | .registerExact _ idHint _ _
  | .registerExactFile _ idHint _ _ => idHint

def displayPath : Call → String
  | .idFor _ _ => ""
  | .register _ _ path _ | .registerExact _ _ path _
  | .registerExactFile _ _ path _ => path

def offered : Call → Option File
  | .idFor _ _ => none
  | .register _ _ _ opened | .registerExact _ _ _ opened => opened
  | .registerExactFile _ _ _ file => some file

/-- The inode must be the one of the mapping, and the hint is an ELF id. -/
def exact : Call → Bool
  | .registerExact _ _ _ _ | .registerExactFile _ _ _ _ => true
  | _ => false

def checksElfId : Call → Bool
  | .registerExact _ _ _ _ => true
  | _ => false

def apply (numbers : DeviceNumbers) (r : ModuleRegistry) :
    Call → Bytes × ModuleRegistry
  | .idFor key idHint => r.idFor key idHint
  | .register key idHint path opened =>
      r.register numbers key idHint path opened
  | .registerExact key idHint displayPath opened =>
      r.registerExact numbers key idHint displayPath opened
  | .registerExactFile key idHint displayPath file =>
      r.registerExactFile numbers key idHint displayPath file

end Call

namespace ModuleRegistry

variable {numbers : DeviceNumbers} {r next : ModuleRegistry} {key : ModuleKey}
  {idHint id : Bytes}

def setEntry (r : ModuleRegistry) (key : ModuleKey) (e : Entry) :
    ModuleRegistry :=
  { r with entries := r.entries.insert key e }

def withFds (r : ModuleRegistry) (fds : HashMap Inode File) : ModuleRegistry :=
  { r with fds := fds }

def withPaths (r : ModuleRegistry) (paths : HashMap Bytes String) :
    ModuleRegistry :=
  { r with pathsById := paths }

theorem mint_frame (r : ModuleRegistry) (idHint : Bytes) :
    (r.mint idHint).2 = { r with rng := (r.mint idHint).2.rng } := by
  unfold mint
  split
  · rfl
  · rfl

theorem isSynthetic_syntheticBuildId (rand : BitVec 64) :
    isSynthetic (syntheticBuildId rand) = true := by
  rw [isSynthetic, List.isPrefixOf_iff_prefix]
  exact List.prefix_append _ _

theorem mint_cases (r : ModuleRegistry) (idHint : Bytes) :
    isSynthetic (r.mint idHint).1 = true ∨
      idHint ≠ [] ∧ (r.mint idHint).1 = idHint := by
  unfold mint
  split
  · exact .inl (isSynthetic_syntheticBuildId _)
  · next hinted => exact .inr ⟨hinted, rfl⟩

theorem idFor_of_some {e : Entry} (found : r.entries.lookup key = some e) :
    r.idFor key idHint = (e.buildId, r) := by
  rw [idFor, found]

theorem idFor_of_none (fresh : r.entries.lookup key = none) :
    r.idFor key idHint =
      ((r.mint idHint).1,
        (r.mint idHint).2.setEntry key { buildId := (r.mint idHint).1 }) := by
  rw [idFor, fresh]
  rfl

theorem lookup_idFor (r : ModuleRegistry) (key : ModuleKey) (idHint : Bytes) :
    ∃ e, (r.idFor key idHint).2.entries.lookup key = some e ∧
      e.buildId = (r.idFor key idHint).1 := by
  cases found : r.entries.lookup key with
  | some e =>
      rw [idFor_of_some found]
      exact ⟨e, found, rfl⟩
  | none =>
      rw [idFor_of_none found]
      exact ⟨_, AList.lookup_insert _, rfl⟩

/-- Settling an id adds at most one entry. -/
theorem lookup_idFor_cases (r : ModuleRegistry) (key : ModuleKey)
    (idHint : Bytes) (other : ModuleKey) :
    (r.idFor key idHint).2.entries.lookup other = r.entries.lookup other ∨
      other = key ∧ r.entries.lookup key = none ∧
        (r.idFor key idHint).2.entries.lookup key =
          some { buildId := (r.mint idHint).1 } := by
  cases found : r.entries.lookup key with
  | some e =>
      rw [idFor_of_some found]
      exact .inl rfl
  | none =>
      rw [idFor_of_none found, mint_frame]
      by_cases same : other = key
      · exact .inr ⟨same, rfl, AList.lookup_insert _⟩
      · exact .inl (AList.lookup_insert_ne same)

theorem idFor_frame (r : ModuleRegistry) (key : ModuleKey) (idHint : Bytes) :
    (r.idFor key idHint).2.fds = r.fds ∧
      (r.idFor key idHint).2.fdCap = r.fdCap ∧
      (r.idFor key idHint).2.policy = r.policy := by
  cases found : r.entries.lookup key with
  | some e =>
      rw [idFor_of_some found]
      exact ⟨rfl, rfl, rfl⟩
  | none =>
      rw [idFor_of_none found, mint_frame]
      exact ⟨rfl, rfl, rfl⟩

theorem notePath_eq (r : ModuleRegistry) (id : Bytes) (path : String) :
    ∃ paths, r.notePath id path = r.withPaths paths := by
  unfold notePath
  split
  · exact ⟨r.pathsById, rfl⟩
  · exact ⟨_, rfl⟩

theorem prepareRegistration_eq (r : ModuleRegistry) (key : ModuleKey)
    (idHint : Bytes) (displayPath : String) (verifyElfId : Bool) :
    ∃ paths, r.prepareRegistration key idHint displayPath verifyElfId =
      ((r.idFor key idHint).1, (r.idFor key idHint).2.withPaths paths) := by
  unfold prepareRegistration
  dsimp only
  split
  · exact ⟨(r.idFor key idHint).2.pathsById, rfl⟩
  · split
    · obtain ⟨paths, first⟩ := notePath_eq (r.idFor key idHint).2
        (r.idFor key idHint).1 displayPath
      obtain ⟨more, second⟩ := notePath_eq
        ((r.idFor key idHint).2.withPaths paths) idHint displayPath
      refine ⟨more, ?_⟩
      rw [first, second]
      rfl
    · obtain ⟨paths, first⟩ := notePath_eq (r.idFor key idHint).2
        (r.idFor key idHint).1 displayPath
      exact ⟨paths, by rw [first]⟩

/-- The file's descriptor is held, if the inode has none yet. -/
inductive Holds (r : ModuleRegistry) (inode : Inode) (file : File) :
    HashMap Inode File → Prop where
  | already {held : File} (found : r.fds.lookup inode = some held) :
      Holds r inode file r.fds
  | new (free : r.fds.lookup inode = none)
      (room : r.fds.keys.length < r.fdCap) :
      Holds r inode file (r.fds.insert inode file)

structure Accepts (numbers : DeviceNumbers) (r : ModuleRegistry) (call : Call)
    (file : File) (inode : Inode) : Prop where
  offered : call.offered = some file
  metadata : file.metadata = some inode
  named : call.exact = true → namesInode numbers call.key inode = true
  checked : call.checksElfId = true → call.idHint ≠ [] →
    file.buildId = some call.idHint
  room : r.fds.lookup inode = none → r.fds.keys.length < r.fdCap

def pinCall (numbers : DeviceNumbers) (call : Call) (r : ModuleRegistry) :
    Option Inode × ModuleRegistry :=
  match call.offered with
  | none => (none, r)
  | some file =>
      r.pinOpenFile numbers call.key file call.idHint call.exact
        call.checksElfId

theorem pinOpenFile_cases {file : File} {inode : Option Inode}
    {verifyMapping verifyElfId : Bool}
    (pinned : r.pinOpenFile numbers key file idHint verifyMapping verifyElfId =
      (inode, next)) :
    (inode = none ∧ next = r) ∨
      ∃ found, inode = some found ∧ file.metadata = some found ∧
        (verifyMapping = true → namesInode numbers key found = true) ∧
        (verifyElfId = true → idHint ≠ [] → file.buildId = some idHint) ∧
        ∃ fds, Holds r found file fds ∧ next = r.withFds fds := by
  unfold pinOpenFile at pinned
  cases metadata : file.metadata with
  | none =>
      rw [metadata] at pinned
      cases pinned
      exact .inl ⟨rfl, rfl⟩
  | some found =>
      rw [metadata] at pinned
      dsimp only at pinned
      split at pinned
      · cases pinned
        exact .inl ⟨rfl, rfl⟩
      · next named =>
          split at pinned
          · cases pinned
            exact .inl ⟨rfl, rfl⟩
          · next checked =>
              have named : verifyMapping = true →
                  namesInode numbers key found = true := by
                intro verify
                cases names : namesInode numbers key found with
                | true => rfl
                | false => exact absurd ⟨verify, names⟩ named
              have checked : verifyElfId = true → idHint ≠ [] →
                  file.buildId = some idHint := by
                intro verify hinted
                by_contra other
                exact checked ⟨verify, hinted, other⟩
              split at pinned
              · next held =>
                  cases pinned
                  obtain ⟨other, held⟩ := Option.isSome_iff_exists.mp held
                  exact .inr ⟨found, rfl, rfl, named, checked, r.fds,
                    .already held, rfl⟩
              · next free =>
                  split at pinned
                  · cases pinned
                    exact .inl ⟨rfl, rfl⟩
                  · next room =>
                      cases pinned
                      have free : r.fds.lookup found = none :=
                        Option.not_isSome_iff_eq_none.mp free
                      exact .inr ⟨found, rfl, rfl, named, checked, _,
                        .new free (Nat.lt_of_not_le room), rfl⟩

theorem Holds.room {inode : Inode} {file : File} {fds : HashMap Inode File}
    (holds : Holds r inode file fds) (free : r.fds.lookup inode = none) :
    r.fds.keys.length < r.fdCap := by
  cases holds with
  | already found => cases free.symm.trans found
  | new _ room => exact room

theorem pinCall_cases {call : Call} {inode : Option Inode}
    (pinned : pinCall numbers call r = (inode, next)) :
    (inode = none ∧ next = r) ∨
      ∃ file found, inode = some found ∧ Accepts numbers r call file found ∧
        ∃ fds, Holds r found file fds ∧ next = r.withFds fds := by
  unfold pinCall at pinned
  cases offered : call.offered with
  | none =>
      rw [offered] at pinned
      cases pinned
      exact .inl ⟨rfl, rfl⟩
  | some file =>
      rw [offered] at pinned
      obtain kept | ⟨found, some, metadata, named, checked, fds, holds, same⟩ :=
        pinOpenFile_cases pinned
      · exact .inl kept
      · exact .inr ⟨file, found, some,
          { offered, metadata, named, checked, room := holds.room }, fds, holds,
          same⟩

def Lacks (call : Call) (e : Entry) : Prop :=
  e.pinDone = false ∨
    call.exact = true ∧ call.idHint ≠ [] ∧ call.idHint ≠ e.buildId ∧
      call.idHint ∉ e.aliases

def pinnedEntry (call : Call) (e : Entry) (inode : Inode) : Entry :=
  { e with
    inode := some inode
    aliases :=
      if call.exact = true ∧ call.idHint ≠ [] ∧ call.idHint ≠ e.buildId ∧
          call.idHint ∉ e.aliases then
        e.aliases ++ [call.idHint]
      else e.aliases
    pinDone := true }

/-- What a call does once the id of its key is settled in an entry. -/
inductive Effect (numbers : DeviceNumbers) (call : Call) (s : ModuleRegistry)
    (e : Entry) : ModuleRegistry → Prop where
  | kept : Effect numbers call s e s
  | declined (policy : s.shouldHold call.displayPath = false) :
      Effect numbers call s e (s.setEntry call.key { e with pinDone := true })
  | failed : Effect numbers call s e (s.setEntry call.key e)
  | pinned {file : File} {inode : Inode} {fds : HashMap Inode File}
      (policy : s.shouldHold call.displayPath = true) (lacks : Lacks call e)
      (accepts : Accepts numbers s call file inode)
      (holds : Holds s inode file fds) :
      Effect numbers call s e
        ((s.withFds fds).setEntry call.key (pinnedEntry call e inode))

theorem entry_of_some {e : Entry} (found : r.entries.lookup key = some e) :
    r.entry key = e := by
  rw [entry, found]
  rfl

theorem needsAlias_iff (call : Call) {e : Entry}
    (found : r.entries.lookup call.key = some e) :
    r.needsAlias call.key e.buildId call.idHint call.exact = true ↔
      call.exact = true ∧ call.idHint ≠ [] ∧ call.idHint ≠ e.buildId ∧
        call.idHint ∉ e.aliases := by
  rw [needsAlias, entry_of_some found, decide_eq_true_iff]

theorem finishRegistration_pinned (call : Call) {e : Entry}
    (found : r.entries.lookup call.key = some e) (inode : Inode) :
    r.finishRegistration call.key call.idHint
        (r.needsAlias call.key e.buildId call.idHint call.exact) true
        (some inode) =
      r.setEntry call.key (pinnedEntry call e inode) := by
  unfold finishRegistration setEntry pinnedEntry
  simp only [entry_of_some found, needsAlias_iff call found, Option.isSome_some,
    Bool.or_true, Option.some_or, true_and]

theorem registerWith_effect {call : Call}
    (stepped : r.registerWith call.key call.idHint call.displayPath call.exact
      (pinCall numbers call) = (id, next)) :
    id = (r.idFor call.key call.idHint).1 ∧
      ∃ paths e,
        (r.idFor call.key call.idHint).2.entries.lookup call.key = some e ∧
        e.buildId = id ∧
        Effect numbers call ((r.idFor call.key call.idHint).2.withPaths paths) e
          next := by
  obtain ⟨paths, prepared⟩ := prepareRegistration_eq r call.key call.idHint
    call.displayPath call.exact
  obtain ⟨e, found, settled⟩ := lookup_idFor r call.key call.idHint
  unfold registerWith at stepped
  rw [prepared] at stepped
  generalize (r.idFor call.key call.idHint) = settledFor at *
  obtain ⟨buildId, s⟩ := settledFor
  have found' : (s.withPaths paths).entries.lookup call.key = some e := found
  dsimp only at settled stepped ⊢
  subst settled
  rw [entry_of_some found'] at stepped
  split at stepped
  · next lacks =>
      have lacks : Lacks call e := lacks.imp_right (needsAlias_iff call found').mp
      cases policy : (s.withPaths paths).shouldHold call.displayPath with
      | false =>
          rw [policy] at stepped
          cases stepped
          refine ⟨rfl, paths, e, found, rfl, ?_⟩
          have finished : (s.withPaths paths).finishRegistration call.key
              call.idHint ((s.withPaths paths).needsAlias call.key e.buildId
                call.idHint call.exact) false none =
              (s.withPaths paths).setEntry call.key { e with pinDone := true } := by
            simp [finishRegistration, setEntry, entry_of_some found']
          rw [if_neg (by decide), finished]
          exact .declined policy
      | true =>
          rw [policy] at stepped
          cases pinned : pinCall numbers call (s.withPaths paths) with
          | mk inode after =>
              rw [if_pos rfl, pinned] at stepped
              cases stepped
              refine ⟨rfl, paths, e, found, rfl, ?_⟩
              obtain ⟨rfl, rfl⟩ | ⟨file, inode, rfl, accepts, fds, holds, rfl⟩ :=
                pinCall_cases pinned
              · have finished : (s.withPaths paths).finishRegistration call.key
                    call.idHint ((s.withPaths paths).needsAlias call.key
                      e.buildId call.idHint call.exact) true none =
                    (s.withPaths paths).setEntry call.key e := by
                  simp [finishRegistration, setEntry, entry_of_some found']
                rw [finished]
                exact .failed
              · have found : ((s.withPaths paths).withFds fds).entries.lookup
                    call.key = some e := found
                have finished := finishRegistration_pinned call found inode
                have same : ((s.withPaths paths).withFds fds).needsAlias call.key
                    e.buildId call.idHint call.exact =
                    (s.withPaths paths).needsAlias call.key e.buildId call.idHint
                      call.exact := rfl
                rw [same] at finished
                rw [finished]
                exact .pinned policy lacks accepts holds
  · cases stepped
    exact ⟨rfl, paths, e, found, rfl, .kept⟩

end ModuleRegistry

namespace Call

open ModuleRegistry

variable {numbers : DeviceNumbers} {r next : ModuleRegistry} {call : Call}
  {id : Bytes}

theorem registers (numbers : DeviceNumbers) (r : ModuleRegistry) (call : Call) :
    (∃ key idHint, call = .idFor key idHint) ∨
      call.apply numbers r = r.registerWith call.key call.idHint
        call.displayPath call.exact (pinCall numbers call) := by
  cases call with
  | idFor key idHint => exact .inl ⟨key, idHint, rfl⟩
  | register key idHint path opened =>
      cases opened with
      | none => exact .inr rfl
      | some file => exact .inr rfl
  | registerExact key idHint path opened =>
      cases opened with
      | none => exact .inr rfl
      | some file => exact .inr rfl
  | registerExactFile key idHint path file => exact .inr rfl

/-- A call settles the id of its key and returns it; then it may change the
key's entry. -/
theorem apply_effect (applied : call.apply numbers r = (id, next)) :
    id = (r.idFor call.key call.idHint).1 ∧
      ∃ paths e,
        (r.idFor call.key call.idHint).2.entries.lookup call.key = some e ∧
        e.buildId = id ∧
        Effect numbers call ((r.idFor call.key call.idHint).2.withPaths paths) e
          next := by
  obtain ⟨key, idHint, rfl⟩ | registers := registers numbers r call
  · obtain ⟨e, found, settled⟩ := lookup_idFor r key idHint
    have same : r.idFor key idHint = (id, next) := applied
    refine ⟨(congrArg Prod.fst same).symm, (r.idFor key idHint).2.pathsById, e,
      found, settled.trans (congrArg Prod.fst same), ?_⟩
    have kept : next = (r.idFor key idHint).2 := (congrArg Prod.snd same).symm
    rw [kept]
    exact .kept
  · rw [registers] at applied
    exact registerWith_effect applied

end Call

end Sismo.Retain
