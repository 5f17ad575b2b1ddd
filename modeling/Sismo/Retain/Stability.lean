import Mathlib.Data.List.Nodup
import Mathlib.Data.List.Range
import Sismo.Lib.Mixing
import Sismo.Retain.History

namespace Sismo.Retain

open Samples ModuleRegistry

/-! The registry is stable: settled ids stay, minted ids are distinct, and the
held descriptors are bounded and kept. -/

def Entry.ids (e : Entry) : Bytes × List Bytes × Option Inode :=
  (e.buildId, e.aliases, e.inode)

structure SameIds (r next : ModuleRegistry) : Prop where
  entries : ∀ key, (next.entries.lookup key).map Entry.ids =
    (r.entries.lookup key).map Entry.ids
  fds : next.fds = r.fds

def Call.isRegistration : Call → Bool
  | .idFor _ _ => false
  | _ => true

structure Stable (numbers : DeviceNumbers) (h : History) : Prop where
  /-- All answers for one key are the same. -/
  agreed : ∀ first ∈ h.answers, ∀ later ∈ h.answers,
    first.key = later.key → first.id = later.id
  distinct : h.minted.Nodup
  capped : h.registry.fds.keys.length ≤ h.registry.fdCap
  /-- The descriptor held for an inode is one of that inode. -/
  deduped : ∀ inode file, h.registry.fds.lookup inode = some file →
    file.metadata = some inode
  /-- Calls to come lose no held descriptor, and no inode of an entry unless
  another one is pinned in its place. -/
  kept : ∀ (call : Call) id next, call.apply numbers h.registry = (id, next) →
    (∀ inode file, h.registry.fds.lookup inode = some file →
      next.fds.lookup inode = some file) ∧
    ∀ key e inode, h.registry.entries.lookup key = some e →
      e.inode = some inode →
      ∃ later, next.entries.lookup key = some later ∧
        (later.inode = some inode ∨
          ∃ file other, key = call.key ∧
            Accepts numbers h.registry call file other ∧
            later.inode = some other ∧ next.fds.lookup other ≠ none)
  /-- A registration that a retry would not help changes nothing. -/
  settled : ∀ (call : Call) id next, call.isRegistration = true →
    h.registry.entries.lookup call.key ≠ none →
    h.registry.needsExactRetry call.key call.idHint call.displayPath = false →
    call.apply numbers h.registry = (id, next) → SameIds h.registry next

/-! ### Distinct synthetic ids -/

theorem mix_injective : Function.Injective mix := by
  have first : Function.Injective fun z : BitVec 64 => z ^^^ (z >>> 30) :=
    Mixing.xor_ushiftRight_injective (by decide)
  have firstFactor : Function.Injective
      fun z : BitVec 64 => z * 0xbf58476d1ce4e5b9 :=
    Mixing.mul_injective _ 0x96de1b173f119089 (by decide)
  have second : Function.Injective fun z : BitVec 64 => z ^^^ (z >>> 27) :=
    Mixing.xor_ushiftRight_injective (by decide)
  have secondFactor : Function.Injective
      fun z : BitVec 64 => z * 0x94d049bb133111eb :=
    Mixing.mul_injective _ 0x319642b2d24d8ec3 (by decide)
  have third : Function.Injective fun z : BitVec 64 => z ^^^ (z >>> 31) :=
    Mixing.xor_ushiftRight_injective (by decide)
  intro x y same
  exact first (firstFactor (second (secondFactor (third same))))

theorem toLeBytes_injective : Function.Injective toLeBytes := by
  intro x y same
  apply BitVec.eq_of_toNat_eq
  have digit : ∀ i, i < 8 →
      x.toNat / 2 ^ (8 * i) % 256 = y.toNat / 2 ^ (8 * i) % 256 := by
    intro i small
    have bytes := congrArg (·[i]?) same
    simp only [toLeBytes, List.getElem?_map, List.getElem?_range small,
      Option.map_some, Option.some.injEq] at bytes
    simpa using congrArg UInt8.toNat bytes
  have low : ∀ n ≤ 8, x.toNat % 2 ^ (8 * n) = y.toNat % 2 ^ (8 * n) := by
    intro n le
    induction n with
    | zero => simp [Nat.mod_one]
    | succ n induction =>
        rw [Nat.mul_succ, Nat.pow_add, Nat.mod_mul, Nat.mod_mul,
          induction (by omega)]
        exact congrArg _ (congrArg _ (digit n (by omega)))
  have whole := low 8 (Nat.le_refl 8)
  rwa [Nat.mod_eq_of_lt x.isLt, Nat.mod_eq_of_lt y.isLt] at whole

theorem syntheticBuildId_injective : Function.Injective syntheticBuildId :=
  fun _ _ same => toLeBytes_injective (List.append_cancel_left same)

def counter (seed : BitVec 64) (count : Nat) : BitVec 64 :=
  seed + BitVec.ofNat 64 count * 0x9e3779b97f4a7c15

theorem counter_succ (seed : BitVec 64) (count : Nat) :
    counter seed (count + 1) = counter seed count + 0x9e3779b97f4a7c15 := by
  rw [counter, counter, BitVec.ofNat_add, BitVec.add_mul, BitVec.one_mul,
    BitVec.add_assoc]

theorem counter_injective {seed : BitVec 64} {m n : Nat}
    (firstFits : m < 2 ^ 64) (secondFits : n < 2 ^ 64)
    (same : counter seed m = counter seed n) : m = n :=
  Mixing.counter_injective 0x9e3779b97f4a7c15 0xf1de83e19937733d (by decide)
    firstFits secondFits same

def mintedId (seed : BitVec 64) (count : Nat) : Bytes :=
  syntheticBuildId (mix (counter seed (count + 1)))

theorem nodup_mintedIds (seed : BitVec 64) {count : Nat}
    (fits : count < 2 ^ 64) :
    ((List.range count).map (mintedId seed)).Nodup := by
  apply List.Nodup.map_on _ List.nodup_range
  intro m mIn n nIn same
  have mLt := List.mem_range.mp mIn
  have nLt := List.mem_range.mp nIn
  have counters := mix_injective (syntheticBuildId_injective same)
  have equal := counter_injective (by omega) (by omega) counters
  omega

/-! ### What every call preserves -/

/-- The answers are those of the entries, the minted ids are the first of the
generator, and each descriptor is held for its own inode. -/
structure Sound (seed : BitVec 64) (h : History) : Prop where
  answered : ∀ answer ∈ h.answers, ∃ e,
    h.registry.entries.lookup answer.key = some e ∧ e.buildId = answer.id
  counted : h.registry.rng = counter seed h.minted.length
  minted : h.minted = (List.range h.minted.length).map (mintedId seed)
  fewer : h.minted.length ≤ h.registry.entries.keys.length
  fits : h.registry.entries.keys.length < 2 ^ 64
  capped : h.registry.fds.keys.length ≤ h.registry.fdCap
  deduped : ∀ inode file, h.registry.fds.lookup inode = some file →
    file.metadata = some inode

namespace Sound

variable {numbers : DeviceNumbers} {seed : BitVec 64} {h next : History}
  {call : Call} {id : Bytes}

theorem initial (policy : KeepPolicy) (seed : BitVec 64) (fdCap : Nat) :
    Sound seed { registry := { new policy seed with fdCap := fdCap } } where
  answered _ member := by cases member
  counted := by simp [counter, new]
  minted := rfl
  fewer := Nat.le_refl 0
  fits := Nat.two_pow_pos 64
  capped := Nat.zero_le _
  deduped _ _ found := by cases found

theorem holds_capped {s : ModuleRegistry} {inode : Inode} {file : File}
    {fds : HashMap Inode File} (holds : Holds s inode file fds)
    (capped : s.fds.keys.length ≤ s.fdCap) : fds.keys.length ≤ s.fdCap := by
  cases holds with
  | already found => exact capped
  | new free room =>
      rw [HashMap.keys_length_insert, if_pos free]
      exact room

theorem holds_deduped {s : ModuleRegistry} {inode : Inode} {file : File}
    {fds : HashMap Inode File} (holds : Holds s inode file fds)
    (metadata : file.metadata = some inode)
    (deduped : ∀ inode file, s.fds.lookup inode = some file →
      file.metadata = some inode) :
    ∀ inode file, fds.lookup inode = some file →
      file.metadata = some inode := by
  cases holds with
  | already found => exact deduped
  | new free room =>
      intro other held found
      rw [HashMap.lookup_insert_eq] at found
      split at found
      · next same =>
          cases found
          rw [same, metadata]
      · exact deduped other held found

/-- Once the id is settled, a call touches neither the generator nor the number
of entries. -/
theorem effect_frame {s after : ModuleRegistry} {e : Entry}
    (found : s.entries.lookup call.key = some e)
    (effect : Effect numbers call s e after) :
    after.rng = s.rng ∧ after.entries.keys.length = s.entries.keys.length := by
  have replaced (later : Entry) :
      (s.entries.insert call.key later).keys.length = s.entries.keys.length := by
    rw [HashMap.keys_length_insert, found, if_neg (by simp)]
  cases effect with
  | kept => exact ⟨rfl, rfl⟩
  | declined policy => exact ⟨rfl, replaced _⟩
  | failed => exact ⟨rfl, replaced _⟩
  | pinned policy lacks accepts holds => exact ⟨rfl, replaced _⟩

theorem effect_fds {s after : ModuleRegistry} {e : Entry}
    (effect : Effect numbers call s e after)
    (capped : s.fds.keys.length ≤ s.fdCap)
    (deduped : ∀ inode file, s.fds.lookup inode = some file →
      file.metadata = some inode) :
    after.fds.keys.length ≤ after.fdCap ∧
      ∀ inode file, after.fds.lookup inode = some file →
        file.metadata = some inode := by
  cases effect with
  | kept => exact ⟨capped, deduped⟩
  | declined policy => exact ⟨capped, deduped⟩
  | failed => exact ⟨capped, deduped⟩
  | pinned policy lacks accepts holds =>
      have few := holds_capped holds capped
      exact ⟨few, holds_deduped holds accepts.metadata deduped⟩

theorem idFor_mints (r : ModuleRegistry) (key : ModuleKey) (idHint : Bytes) :
    if r.entries.lookup key = none ∧ idHint = [] then
      (r.idFor key idHint).1 =
          syntheticBuildId (mix (r.rng + 0x9e3779b97f4a7c15)) ∧
        (r.idFor key idHint).2.rng = r.rng + 0x9e3779b97f4a7c15 ∧
        (r.idFor key idHint).2.entries.keys.length =
          r.entries.keys.length + 1
    else
      (r.idFor key idHint).2.rng = r.rng ∧
        r.entries.keys.length ≤
          (r.idFor key idHint).2.entries.keys.length := by
  cases found : r.entries.lookup key with
  | some e =>
      rw [idFor_of_some found, if_neg (by simp)]
      exact ⟨rfl, Nat.le_refl _⟩
  | none =>
      rw [idFor_of_none found]
      have more (value : Entry) : (r.entries.insert key value).keys.length =
          r.entries.keys.length + 1 := by
        rw [HashMap.keys_length_insert, if_pos found]
      by_cases hinted : idHint = []
      · rw [if_pos ⟨rfl, hinted⟩]
        simp only [mint, hinted, if_true, nextRand, setEntry, more, and_self]
      · rw [if_neg (fun both => hinted both.2)]
        simp only [mint, hinted, if_false, setEntry, more, Nat.le_succ,
          and_self]

theorem step (sound : Sound seed h)
    (stepped : h.step numbers call = some next) : Sound seed next := by
  obtain ⟨id, applied, fits, answers, minted⟩ := History.step_cases stepped
  obtain ⟨same, paths, e, found, settled, effect⟩ := Call.apply_effect applied
  have extended := apply_extends applied
  have known : ((h.registry.idFor call.key call.idHint).2.withPaths
      paths).entries.lookup call.key = some e := found
  obtain ⟨rng, count⟩ := effect_frame known effect
  obtain ⟨fds, fdCap, -⟩ := idFor_frame h.registry call.key call.idHint
  have frame := idFor_mints h.registry call.key call.idHint
  have held := effect_fds effect
    (show (h.registry.idFor call.key call.idHint).2.fds.keys.length ≤
      (h.registry.idFor call.key call.idHint).2.fdCap by
        rw [fds, fdCap]; exact sound.capped)
    (show ∀ inode file,
      (h.registry.idFor call.key call.idHint).2.fds.lookup inode = some file →
        file.metadata = some inode by rw [fds]; exact sound.deduped)
  have answered : ∀ answer ∈ next.answers, ∃ e,
      next.registry.entries.lookup answer.key = some e ∧
        e.buildId = answer.id := by
    intro answer member
    rw [answers, List.mem_append, List.mem_singleton] at member
    cases member with
    | inl member =>
        obtain ⟨e, found, same⟩ := sound.answered answer member
        obtain ⟨later, found, same', -⟩ := extended.entry _ e found
        exact ⟨later, found, same'.trans same⟩
    | inr member =>
        subst member
        exact apply_settles applied
  have rng : next.registry.rng =
      (h.registry.idFor call.key call.idHint).2.rng := rng
  have count : next.registry.entries.keys.length =
      (h.registry.idFor call.key call.idHint).2.entries.keys.length := count
  by_cases mints : h.registry.entries.lookup call.key = none ∧ call.idHint = []
  · rw [if_pos mints] at frame
    obtain ⟨fresh, stepped, more⟩ := frame
    have minted : next.minted = h.minted ++ [id] := by
      rw [minted, History.mints, if_pos (decide_eq_true mints)]
    have idEq : id = mintedId seed h.minted.length := by
      rw [same, fresh, sound.counted, mintedId, counter_succ]
    refine ⟨answered, ?_, ?_, ?_, fits, held.1, held.2⟩
    · rw [rng, stepped, sound.counted, minted, List.length_append,
        List.length_singleton, counter_succ]
    · rw [minted, List.length_append, List.length_singleton,
        List.range_succ, List.map_append, ← sound.minted, idEq]
      rfl
    · rw [minted, List.length_append, List.length_singleton, count, more]
      exact Nat.add_le_add_right sound.fewer 1
  · rw [if_neg mints] at frame
    have minted : next.minted = h.minted := by
      rw [minted, History.mints,
        if_neg (fun yes => mints (of_decide_eq_true yes))]
    refine ⟨answered, ?_, ?_, ?_, fits, held.1, held.2⟩
    · rw [rng, frame.1, sound.counted, minted]
    · rw [minted]
      exact sound.minted
    · rw [minted, count]
      exact sound.fewer.trans frame.2

end Sound

/-! ### Calls that change no id -/

theorem setEntry_sameIds {s : ModuleRegistry} {key : ModuleKey}
    {e later : Entry} (found : s.entries.lookup key = some e)
    (same : later.ids = e.ids) : SameIds s (s.setEntry key later) where
  fds := rfl
  entries other := by
    unfold setEntry
    rw [HashMap.lookup_insert_eq]
    split
    · next equal =>
        rw [equal, found]
        exact congrArg some same
    · rfl

/-- A registration that a retry would not help pins nothing. -/
theorem settled_sameIds {numbers : DeviceNumbers} {r next : ModuleRegistry}
    {call : Call} {id : Bytes}
    (known : r.entries.lookup call.key ≠ none)
    (settled : r.needsExactRetry call.key call.idHint call.displayPath = false)
    (applied : call.apply numbers r = (id, next)) : SameIds r next := by
  obtain ⟨e, found⟩ := Option.ne_none_iff_exists'.mp known
  obtain ⟨-, paths, e', found', -, effect⟩ := Call.apply_effect applied
  rw [idFor_of_some found] at found' effect
  cases found.symm.trans found'
  have noted : (r.withPaths paths).entries.lookup call.key = some e := found
  have same : SameIds r (r.withPaths paths) := ⟨fun _ => rfl, rfl⟩
  cases effect with
  | kept => exact same
  | declined policy =>
      have kept : SameIds (r.withPaths paths)
          ((r.withPaths paths).setEntry call.key { e with pinDone := true }) :=
        setEntry_sameIds noted rfl
      exact ⟨kept.entries, kept.fds⟩
  | failed =>
      have kept := setEntry_sameIds noted rfl
      exact ⟨kept.entries, kept.fds⟩
  | pinned policy lacks accepts holds =>
      exfalso
      have policy : r.shouldHold call.displayPath = true := policy
      rw [needsExactRetry, if_pos policy, found] at settled
      simp only [Bool.or_eq_false_iff, Bool.not_eq_false',
        decide_eq_false_iff_not] at settled
      obtain pending | ⟨-, new⟩ := lacks
      · rw [settled.1] at pending
        cases pending
      · exact settled.2 new

/-- An entry loses its inode only to one that has been pinned in its place. -/
theorem apply_keeps_inode {numbers : DeviceNumbers} {r next : ModuleRegistry}
    {call : Call} {id : Bytes} (applied : call.apply numbers r = (id, next))
    {key : ModuleKey} {e : Entry} {inode : Inode}
    (found : r.entries.lookup key = some e) (pinned : e.inode = some inode) :
    ∃ later, next.entries.lookup key = some later ∧
      (later.inode = some inode ∨
        ∃ file other, key = call.key ∧ Accepts numbers r call file other ∧
          later.inode = some other ∧ next.fds.lookup other ≠ none) := by
  obtain ⟨-, paths, settled, found', -, effect⟩ := Call.apply_effect applied
  by_cases same : key = call.key
  · subst same
    rw [idFor_of_some found] at found' effect
    cases found.symm.trans found'
    cases effect with
    | kept => exact ⟨e, found, .inl pinned⟩
    | declined policy => exact ⟨_, AList.lookup_insert _, .inl pinned⟩
    | failed => exact ⟨_, AList.lookup_insert _, .inl pinned⟩
    | pinned policy lacks accepts holds =>
        refine ⟨_, AList.lookup_insert _, .inr ⟨_, _, rfl,
          ⟨accepts.offered, accepts.metadata, accepts.named, accepts.checked,
            accepts.room⟩, rfl, ?_⟩⟩
        cases holds with
        | already held => exact Option.ne_none_iff_exists'.mpr ⟨_, held⟩
        | new free room =>
            exact Option.ne_none_iff_exists'.mpr ⟨_, AList.lookup_insert _⟩
  · have others : next.entries.lookup key =
        (r.idFor call.key call.idHint).2.entries.lookup key := by
      cases effect with
      | kept => rfl
      | declined policy => exact AList.lookup_insert_ne same
      | failed => exact AList.lookup_insert_ne same
      | pinned policy lacks accepts holds => exact AList.lookup_insert_ne same
    obtain kept | ⟨equal, -⟩ :=
      lookup_idFor_cases r call.key call.idHint key
    · exact ⟨e, others.trans (kept.trans found), .inl pinned⟩
    · exact absurd equal same

/-- After every sequence of calls the registry is stable. -/
theorem registry_stable (numbers : DeviceNumbers) (policy : KeepPolicy)
    (seed : BitVec 64) (fdCap : Nat) (calls : List Call) (final : History)
    (reached : Machine.run (History.step numbers)
      { registry := { new policy seed with fdCap := fdCap } } calls =
        some final) :
    Stable numbers final := by
  have reachable : Machine.Reachable (History.step numbers)
      { registry := { new policy seed with fdCap := fdCap } } final :=
    ⟨calls, reached⟩
  have sound : Sound seed final :=
    reachable.invariant (fun _ _ _ sound stepped => sound.step stepped)
      (.initial policy seed fdCap)
  refine
    { capped := sound.capped
      deduped := sound.deduped
      agreed := fun first firstIn later laterIn same => ?_
      distinct := ?_
      kept := fun call id next applied => ?_
      settled := fun call id next _ known settled applied =>
        settled_sameIds known settled applied }
  · obtain ⟨e, found, id⟩ := sound.answered first firstIn
    obtain ⟨e', found', id'⟩ := sound.answered later laterIn
    rw [same, found'] at found
    cases found
    exact id.symm.trans id'
  · rw [sound.minted]
    exact nodup_mintedIds seed (sound.fewer.trans_lt sound.fits)
  · exact ⟨(apply_extends applied).held, fun key e inode found pinned =>
      apply_keeps_inode applied found pinned⟩

/-- A mapping that has no id at first, one whose file is opened later, and one
with no id at all. -/
def registerCalls : List Call :=
  let file : File := ⟨5, some (2049, 42), some [1, 2, 3]⟩
  [.registerExact (.mapping 7 4096 8 1 42) [] "/home/a.out" none,
    .registerExactFile (.mapping 7 4096 8 1 42) [1, 2, 3] "/home/a.out" file,
    .idFor (.mapping 7 8192 8 1 43) []]

theorem registry_stable_registerCalls :
    ∃ final, Machine.run (History.step smallDevices)
        { registry := { new .all 0 with fdCap := 16 } } registerCalls =
          some final ∧
      final.minted.length = 2 ∧ final.registry.fds.keys = [(2049, 42)] ∧
      Stable smallDevices final :=
  ⟨_, rfl, rfl, rfl, registry_stable smallDevices .all 0 16 registerCalls _ rfl⟩

end Sismo.Retain
