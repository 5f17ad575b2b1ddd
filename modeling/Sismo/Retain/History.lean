import Sismo.Retain.RegistrySteps

namespace Sismo.Retain

open Samples

/-! The registry through a sequence of calls: what it never gives up. -/

structure Answer where
  key : ModuleKey
  idHint : Bytes
  id : Bytes

structure History where
  registry : ModuleRegistry
  answers : List Answer := []
  /-- The synthetic ids, in the order in which they were minted. -/
  minted : List Bytes := []

namespace History

def mints (h : History) (call : Call) : Bool :=
  h.registry.entries.lookup call.key = none ∧ call.idHint = []

/-- A map with more entries than a `usize` counts panics. -/
def step (numbers : DeviceNumbers) (h : History) (call : Call) :
    Option History :=
  let (id, registry) := call.apply numbers h.registry
  if registry.entries.keys.length < 2 ^ 64 then
    some
      { registry := registry
        answers := h.answers ++ [⟨call.key, call.idHint, id⟩]
        minted := if h.mints call then h.minted ++ [id] else h.minted }
  else none

theorem step_cases {numbers : DeviceNumbers} {h next : History} {call : Call}
    (stepped : h.step numbers call = some next) :
    ∃ id, call.apply numbers h.registry = (id, next.registry) ∧
      next.registry.entries.keys.length < 2 ^ 64 ∧
      next.answers = h.answers ++ [⟨call.key, call.idHint, id⟩] ∧
      next.minted = if h.mints call then h.minted ++ [id] else h.minted := by
  unfold step at stepped
  cases applied : call.apply numbers h.registry with
  | mk id registry =>
      rw [applied] at stepped
      dsimp only at stepped
      split at stepped
      · next fits =>
          cases stepped
          exact ⟨id, rfl, fits, rfl, rfl⟩
      · cases stepped

end History

namespace ModuleRegistry

variable {numbers : DeviceNumbers} {r next : ModuleRegistry} {call : Call}
  {id : Bytes}

structure Extends (r next : ModuleRegistry) : Prop where
  entry : ∀ key e, r.entries.lookup key = some e →
    ∃ later, next.entries.lookup key = some later ∧
      later.buildId = e.buildId ∧ e.aliases ⊆ later.aliases ∧
      (e.pinDone = true → later.pinDone = true)
  held : ∀ inode file, r.fds.lookup inode = some file →
    next.fds.lookup inode = some file
  policy : next.policy = r.policy
  fdCap : next.fdCap = r.fdCap

theorem Extends.refl (r : ModuleRegistry) : Extends r r where
  entry _ e found := ⟨e, found, rfl, fun _ member => member, fun done => done⟩
  held _ _ found := found
  policy := rfl
  fdCap := rfl

theorem Extends.trans {middle : ModuleRegistry} (first : Extends r middle)
    (second : Extends middle next) : Extends r next where
  entry key e found := by
    obtain ⟨e', found', same, kept, done⟩ := first.entry key e found
    obtain ⟨later, final, same', kept', done'⟩ := second.entry key e' found'
    exact ⟨later, final, same'.trans same, fun _ member => kept' (kept member),
      done' ∘ done⟩
  held inode file found := second.held inode file (first.held inode file found)
  policy := second.policy.trans first.policy
  fdCap := second.fdCap.trans first.fdCap

theorem Extends.idFor (r : ModuleRegistry) (key : ModuleKey)
    (idHint : Bytes) : Extends r (r.idFor key idHint).2 := by
  cases found : r.entries.lookup key with
  | some e =>
      rw [idFor_of_some found]
      exact .refl r
  | none =>
      rw [idFor_of_none found, mint_frame]
      refine { Extends.refl r with entry := fun other e known => ?_ }
      have distinct : other ≠ key := by
        intro same
        subst same
        cases found.symm.trans known
      refine ⟨e, ?_, rfl, fun _ member => member, fun done => done⟩
      exact (AList.lookup_insert_ne distinct).trans known

theorem Extends.setEntry {key : ModuleKey} {e later : Entry}
    (found : r.entries.lookup key = some e) (same : later.buildId = e.buildId)
    (kept : e.aliases ⊆ later.aliases)
    (done : e.pinDone = true → later.pinDone = true) :
    Extends r (r.setEntry key later) := by
  refine { Extends.refl r with entry := fun other e' known => ?_ }
  by_cases equal : other = key
  · subst equal
    cases found.symm.trans known
    exact ⟨later, AList.lookup_insert _, same, kept, done⟩
  · exact ⟨e', (AList.lookup_insert_ne equal).trans known, rfl,
      fun _ member => member, fun done => done⟩

theorem Holds.extends {inode : Inode} {file : File} {fds : HashMap Inode File}
    (holds : Holds r inode file fds) : Extends r (r.withFds fds) := by
  cases holds with
  | already found => exact .refl r
  | new free room =>
      refine { Extends.refl r with held := fun other held known => ?_ }
      have distinct : other ≠ inode := by
        intro same
        subst same
        cases free.symm.trans known
      exact (AList.lookup_insert_ne distinct).trans known

theorem pinnedEntry_aliases (call : Call) (e : Entry) (inode : Inode) :
    e.aliases ⊆ (pinnedEntry call e inode).aliases := by
  unfold pinnedEntry
  dsimp only
  split
  · exact List.subset_append_left _ _
  · exact fun _ member => member

theorem Effect.extends {settled : ModuleRegistry} {e : Entry}
    (found : settled.entries.lookup call.key = some e)
    (effect : Effect numbers call settled e next) : Extends settled next := by
  cases effect with
  | kept => exact .refl next
  | declined policy =>
      exact .setEntry found rfl (fun _ member => member) fun _ => rfl
  | failed =>
      exact .setEntry found rfl (fun _ member => member) fun done => done
  | pinned policy lacks accepts holds =>
      refine holds.extends.trans (.setEntry found rfl ?_ fun _ => rfl)
      exact pinnedEntry_aliases _ _ _

theorem apply_extends (applied : call.apply numbers r = (id, next)) :
    Extends r next := by
  obtain ⟨-, paths, e, found, -, effect⟩ := Call.apply_effect applied
  have settled := Extends.idFor r call.key call.idHint
  have noted : Extends r ((r.idFor call.key call.idHint).2.withPaths paths) :=
    { settled with }
  have known : ((r.idFor call.key call.idHint).2.withPaths
      paths).entries.lookup call.key = some e := found
  exact noted.trans (effect.extends known)

/-- After a call its key has an entry, with the returned id. -/
theorem apply_settles (applied : call.apply numbers r = (id, next)) :
    ∃ e, next.entries.lookup call.key = some e ∧ e.buildId = id := by
  obtain ⟨-, paths, e, found, settled, effect⟩ := Call.apply_effect applied
  have known : ((r.idFor call.key call.idHint).2.withPaths
      paths).entries.lookup call.key = some e := found
  obtain ⟨later, known, same, -⟩ := (effect.extends known).entry _ e known
  exact ⟨later, known, same.trans settled⟩

/-- Each id of an entry has been one of it before, or is synthetic, or is the
hint of the call on its key. -/
theorem apply_ids (applied : call.apply numbers r = (id, next))
    {key : ModuleKey} {later : Entry}
    (found : next.entries.lookup key = some later) :
    ((r.entries.lookup key).isSome ∨ key = call.key) ∧
      ∀ known ∈ later.buildId :: later.aliases,
        (∃ e, r.entries.lookup key = some e ∧
          known ∈ e.buildId :: e.aliases) ∨
        isSynthetic known = true ∨
        key = call.key ∧ call.idHint ≠ [] ∧ known = call.idHint := by
  obtain ⟨-, paths, e, settled, -, effect⟩ := Call.apply_effect applied
  have before : ∀ other e,
      (r.idFor call.key call.idHint).2.entries.lookup other = some e →
      ((r.entries.lookup other).isSome ∨ other = call.key) ∧
        ∀ known ∈ e.buildId :: e.aliases,
          (∃ e, r.entries.lookup other = some e ∧
            known ∈ e.buildId :: e.aliases) ∨
          isSynthetic known = true ∨
          other = call.key ∧ call.idHint ≠ [] ∧ known = call.idHint := by
    intro other e stored
    obtain kept | ⟨rfl, -, fresh⟩ :=
      lookup_idFor_cases r call.key call.idHint other
    · have stored := kept.symm.trans stored
      exact ⟨.inl (Option.isSome_iff_exists.mpr ⟨e, stored⟩),
        fun known member => .inl ⟨e, stored, member⟩⟩
    · cases fresh.symm.trans stored
      refine ⟨.inr rfl, fun known member => ?_⟩
      cases List.mem_singleton.mp member
      exact .inr ((mint_cases r call.idHint).imp_right fun hinted =>
        ⟨rfl, hinted⟩)
  have replaced : ∀ (map : HashMap ModuleKey Entry) (changed : Entry),
      (map.insert call.key changed).lookup key = some later →
      (∀ known ∈ changed.buildId :: changed.aliases,
        known ∈ e.buildId :: e.aliases ∨
          call.idHint ≠ [] ∧ known = call.idHint) →
      (map.lookup key = some later →
        (r.idFor call.key call.idHint).2.entries.lookup key = some later) →
      ((r.entries.lookup key).isSome ∨ key = call.key) ∧
        ∀ known ∈ later.buildId :: later.aliases,
          (∃ e, r.entries.lookup key = some e ∧
            known ∈ e.buildId :: e.aliases) ∨
          isSynthetic known = true ∨
          key = call.key ∧ call.idHint ≠ [] ∧ known = call.idHint := by
    intro map changed stored ids others
    rw [HashMap.lookup_insert_eq] at stored
    split at stored
    · next same =>
        cases stored
        subst same
        refine ⟨.inr rfl, fun known member => ?_⟩
        obtain old | hinted := ids known member
        · exact (before _ _ settled).2 known old
        · exact .inr (.inr ⟨rfl, hinted⟩)
    · exact before key later (others stored)
  cases effect with
  | kept => exact before key later found
  | declined policy =>
      exact replaced _ _ found (fun _ member => .inl member)
        fun stored => stored
  | failed =>
      exact replaced _ _ found (fun _ member => .inl member)
        fun stored => stored
  | pinned policy lacks accepts holds =>
      refine replaced _ _ found (fun known member => ?_) fun stored => stored
      unfold pinnedEntry at member
      dsimp only at member
      split at member
      · next new =>
          rw [← List.cons_append, List.mem_append, List.mem_singleton] at member
          exact member.imp_right fun same => ⟨new.2.1, same⟩
      · exact .inl member

theorem shouldHold_of_extends (extended : Extends r next) (path : String) :
    next.shouldHold path = r.shouldHold path := by
  unfold shouldHold
  rw [extended.policy]

theorem needsExactRetry_of_extends {key : ModuleKey} {path : String}
    (extended : Extends r next)
    (settled : r.needsExactRetry key id path = false) :
    next.needsExactRetry key id path = false := by
  unfold needsExactRetry at settled ⊢
  rw [shouldHold_of_extends extended]
  split at settled
  · next holds =>
      rw [if_pos holds]
      cases found : r.entries.lookup key with
      | none =>
          rw [found] at settled
          cases settled
      | some e =>
          rw [found] at settled
          obtain ⟨later, found', same, aliases, done⟩ :=
            extended.entry key e found
          rw [found']
          simp only [Bool.or_eq_false_iff, Bool.not_eq_false',
            decide_eq_false_iff_not, same] at settled ⊢
          exact ⟨done settled.1, fun ⟨real, new, missing⟩ =>
            settled.2 ⟨real, new, fun member => missing (aliases member)⟩⟩
  · next declines => rw [if_neg declines]

/-- A file that can be opened fails to be held only for want of room. -/
def HasRoom (r : ModuleRegistry) (inode : Inode) : Prop :=
  (r.fds.lookup inode).isSome ∨ r.fds.keys.length < r.fdCap

instance (r : ModuleRegistry) (inode : Inode) : Decidable (r.HasRoom inode) :=
  inferInstanceAs (Decidable (_ ∨ _))

theorem pinOpenFile_of_hasRoom (id : Bytes) {key : ModuleKey} {file : File}
    {inode : Inode}
    (metadata : file.metadata = some inode)
    (named : namesInode numbers key inode = true) (room : r.HasRoom inode) :
    (r.pinOpenFile numbers key file id true false).1 = some inode := by
  unfold pinOpenFile
  rw [metadata]
  dsimp only
  rw [if_neg (by simp [named]), if_neg (by simp)]
  split
  · rfl
  · next free =>
      have room := Nat.not_le.mpr (room.resolve_left free)
      rw [if_neg room]

theorem needsExactRetry_pinnedEntry (call : Call) {e : Entry} {inode : Inode}
    (exact : call.exact = true) (path : String) :
    (r.setEntry call.key (pinnedEntry call e inode)).needsExactRetry call.key
      call.idHint path = false := by
  unfold needsExactRetry
  split
  · have found : (r.setEntry call.key
        (pinnedEntry call e inode)).entries.lookup call.key =
        some (pinnedEntry call e inode) := AList.lookup_insert _
    rw [found]
    simp only [pinnedEntry, exact, Bool.not_true, Bool.false_or,
      decide_eq_false_iff_not, true_and]
    rintro ⟨real, other, missing⟩
    apply missing
    split
    · exact List.mem_append_right _ List.mem_cons_self
    · next old =>
        by_contra new
        exact old ⟨real, other, new⟩
  · rfl

/-- Once the exact file of a mapping has been registered, with room for it, it
needs no retry. -/
theorem registerExactFile_settles {key : ModuleKey} {file : File}
    {inode : Inode} {path : String} (metadata : file.metadata = some inode)
    (named : namesInode numbers key inode = true)
    (settles : r.needsExactRetry key id path = false ∨ r.HasRoom inode) :
    (r.registerExactFile numbers key id path file).2.needsExactRetry key id
      path = false := by
  have applied : (Call.registerExactFile key id path file).apply numbers r =
      r.registerExactFile numbers key id path file := rfl
  have kept : r.needsExactRetry key id path = false →
      (r.registerExactFile numbers key id path file).2.needsExactRetry key id
        path = false :=
    needsExactRetry_of_extends (apply_extends applied)
  obtain settled | room := settles
  · exact kept settled
  cases policy : r.shouldHold path with
  | false =>
      refine kept (if_neg ?_)
      rw [policy]
      decide
  | true =>
      let call : Call := .registerExactFile key id path file
      obtain ⟨paths, prepared⟩ := prepareRegistration_eq r key id path true
      obtain ⟨e, found, same⟩ := lookup_idFor r key id
      obtain ⟨fds, cap, policies⟩ := idFor_frame r key id
      unfold registerExactFile registerWith
      rw [prepared]
      generalize r.idFor key id = settledFor at *
      obtain ⟨buildId, s⟩ := settledFor
      dsimp only at same fds cap policies ⊢
      subst same
      have found : (s.withPaths paths).entries.lookup key = some e := found
      have room : (s.withPaths paths).HasRoom inode := by
        change (s.fds.lookup inode).isSome ∨ s.fds.keys.length < s.fdCap
        rwa [fds, cap]
      have policy : (s.withPaths paths).shouldHold path = true := by
        rw [← policy]
        unfold shouldHold
        rw [show (s.withPaths paths).policy = r.policy from policies]
      generalize s.withPaths paths = s at found room policy ⊢
      rw [entry_of_some found, policy, if_pos rfl]
      split
      · have held := pinOpenFile_of_hasRoom id metadata named room
        obtain ⟨⟨pinned, after⟩, pins⟩ : ∃ result,
            s.pinOpenFile numbers key file id true false = result := ⟨_, rfl⟩
        rw [pins] at held ⊢
        cases held
        obtain ⟨none, -⟩ | ⟨found', some, -, -, -, fds, -, rfl⟩ :=
          pinOpenFile_cases pins
        · cases none
        · cases some
          have found : (s.withFds fds).entries.lookup key = some e := found
          have finished := finishRegistration_pinned call found inode
          have unchanged : (s.withFds fds).needsAlias key e.buildId id true =
              s.needsAlias key e.buildId id true := rfl
          change ((s.withFds fds).finishRegistration key id
            (s.needsAlias key e.buildId id true) true
            (Option.some inode)).needsExactRetry key id path = false
          rw [← unchanged]
          refine (congrArg (fun r : ModuleRegistry =>
            r.needsExactRetry key id path) finished).trans ?_
          exact needsExactRetry_pinnedEntry call rfl path
      · next complete =>
          obtain ⟨done, unaliased⟩ := not_or.mp complete
          have unaliased := unaliased ∘ (needsAlias_iff call found).mpr
          change s.needsExactRetry key id path = false
          unfold needsExactRetry
          rw [policy, if_pos rfl, found]
          simp only [Bool.or_eq_false_iff, Bool.not_eq_false',
            decide_eq_false_iff_not]
          exact ⟨Bool.not_eq_false _ ▸ done, fun needed => unaliased ⟨rfl, needed⟩⟩

end ModuleRegistry

end Sismo.Retain
