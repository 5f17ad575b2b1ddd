import Sismo.Sched.Ids

namespace Sismo.Sched

open Samples

/-! The interleavings that go well, and that in them no key gets two ids. -/

/-- The CPU has missed on the key, and has not put its id in the map yet. -/
def Resolve.Claims (resolve : Resolve) (key : Nat) : Prop :=
  resolve = .missed key ∨ ∃ id, resolve = .minted key id

@[simp] theorem claims_idle (key : Nat) : ¬ Resolve.idle.Claims key := by
  simp [Resolve.Claims]

@[simp] theorem claims_missed {key other : Nat} :
    (Resolve.missed key).Claims other ↔ key = other := by
  simp [Resolve.Claims]

@[simp] theorem claims_minted {key id other : Nat} :
    (Resolve.minted key id).Claims other ↔ key = other := by
  simp [Resolve.Claims]

@[simp] theorem claims_published (key id other : Nat) :
    ¬ (Resolve.published key id).Claims other := by
  simp [Resolve.Claims]

@[simp] theorem claims_reserved (key id slot other : Nat) :
    ¬ (Resolve.reserved key id slot).Claims other := by
  simp [Resolve.Claims]

@[simp] theorem claims_returned (id other : Nat) :
    ¬ (Resolve.returned id).Claims other := by
  simp [Resolve.Claims]

def State.Unclaimed (s : State) (kind : IdKind) (key : Nat) : Prop :=
  ∀ cpu, ¬ (s.resolving (cpu, kind)).Claims key

/-- The id is in the map, and its definition still has to be reserved. -/
def State.Pending (s : State) (kind : IdKind) (id : Nat) : Prop :=
  ∃ cpu key, s.resolving (cpu, kind) = .published key id

def HasRoom (maxEntries : Nat) (map : HashMap Nat Nat) (key : Nat) : Prop :=
  (map.lookup key).isSome ∨ map.entries.length < maxEntries

/-- The map takes the id, and the ring its definition. -/
def State.Completes (s : State) (kind : IdKind) (cpu : Nat) :
    ResolveStep → Prop
  | .update => ∀ key id, s.resolving (cpu, kind) = .minted key id →
      HasRoom kind.maxEntries (s.ids kind) key
  | .reserve _ room => room = true
  | _ => True

/-- No lookup falls between another CPU's lookup of the same key and its map
update, maps and ring have room, no record is reserved with an id whose
definition is not, and Python frames are walked for staged samples only. -/
def Undisturbed (unwindEnabled : Bool) (s : State) : Action → Prop
  | .readEnter _ _ inode => s.Unclaimed .file inode
  | .resolveFile cpu step => s.Completes .file cpu step
  | .wake _ tid _ _ room => room = true →
      ∀ block, s.waits.offcpu.lookup tid = some block →
        ∀ id, fileId block.blockId = some id → ¬ s.Pending .file id
  | .walkFrame _ qual => unwindEnabled = true ∧ s.Unclaimed .pyframe qual
  | .resolvePyframe cpu step => s.Completes .pyframe cpu step
  | .tickEmit cpu _ room => room = true →
      ∀ rec ids slot, s.ticks cpu = .walking rec ids slot →
        ∀ id ∈ ids, ¬ s.Pending .pyframe id
  | _ => True

theorem State.setResolving_eq (s : State) (owner other : Nat × IdKind)
    (resolve : Resolve) :
    (s.setResolving owner resolve).resolving other =
      if other = owner then resolve else s.resolving other :=
  Function.update_apply _ _ _ _

theorem lookup_mapUpdate {maxEntries : Nat} {map : HashMap Nat Nat}
    {key : Nat} (room : HasRoom maxEntries map key) (value other : Nat) :
    (mapUpdate maxEntries map key value).lookup other =
      if other = key then some value else map.lookup other := by
  unfold HasRoom at room
  rw [mapUpdate, if_pos room]
  exact HashMap.lookup_insert_eq map key other value

/-! ### The steps of a resolution -/

section

variable {kind : IdKind} {cpu : Nat} {s next : State}

theorem resolve_increment
    (stepped : resolve kind cpu s .increment = some next) :
    ∃ key, s.resolving (cpu, kind) = .missed key ∧
      next = ({ s with
        next := Function.update s.next kind (u64 (s.next kind + 1))
        minted := Function.update s.minted kind
          ((key, u32 (s.next kind + 1)) :: s.minted kind)
        }.setResolving (cpu, kind) (.minted key (u32 (s.next kind + 1)))) := by
  unfold resolve at stepped
  dsimp only at stepped
  split at stepped
  · next key missed => exact ⟨key, missed, (Option.some.inj stepped).symm⟩
  · cases stepped

theorem resolve_update (stepped : resolve kind cpu s .update = some next) :
    ∃ key id, s.resolving (cpu, kind) = .minted key id ∧
      next = ({ s with
        ids := Function.update s.ids kind
          (mapUpdate kind.maxEntries (s.ids kind) key id)
        }.setResolving (cpu, kind) (.published key id)) := by
  unfold resolve at stepped
  dsimp only at stepped
  split at stepped
  · next key id minted =>
      exact ⟨key, id, minted, (Option.some.inj stepped).symm⟩
  · cases stepped

theorem resolve_reserve {name : Bytes} {room : Bool}
    (stepped : resolve kind cpu s (.reserve name room) = some next) :
    ∃ key id, s.resolving (cpu, kind) = .published key id ∧
      next = if room then
        (s.reserve (kind.definition id name)).setResolving (cpu, kind)
          (.reserved key id s.ring.length)
      else s.setResolving (cpu, kind) (.returned id) := by
  unfold resolve at stepped
  dsimp only at stepped
  split at stepped
  · next key id published =>
      refine ⟨key, id, published, Option.some.inj (stepped.symm.trans ?_)⟩
      split
      · rfl
      · rfl
  · cases stepped

theorem resolve_submit (stepped : resolve kind cpu s .submit = some next) :
    ∃ key id slot, s.resolving (cpu, kind) = .reserved key id slot ∧
      next = (s.submit slot).setResolving (cpu, kind) (.returned id) := by
  unfold resolve at stepped
  dsimp only at stepped
  split at stepped
  · next key id slot reserved =>
      exact ⟨key, id, slot, reserved, (Option.some.inj stepped).symm⟩
  · cases stepped

end

/-! ### One id for each key -/

/-- A key has its one id in the map or at a CPU that is about to put it
there. -/
structure Unique (s : State) : Prop where
  exclusive : ∀ cpu other kind key, (s.resolving (cpu, kind)).Claims key →
    (s.resolving (other, kind)).Claims key → cpu = other
  unpublished : ∀ cpu kind key, (s.resolving (cpu, kind)).Claims key →
    (s.ids kind).lookup key = none
  denoted : ∀ kind key id, (key, id) ∈ s.minted kind →
    (s.ids kind).lookup key = some id ∨
      ∃ cpu, s.resolving (cpu, kind) = .minted key id

namespace Unique

theorem empty : Unique {} where
  exclusive _ _ _ key claims := absurd claims (claims_idle key)
  unpublished _ _ _ _ := rfl
  denoted _ _ _ member := nomatch member

variable {s : State} {owner : Nat × IdKind} {moved : Resolve}

theorem uniqueIds (unique : Unique s) : UniqueIds s := by
  intro kind key id other first second
  rcases unique.denoted kind key id first with found | ⟨cpu, minted⟩
  · rcases unique.denoted kind key other second with found' | ⟨cpu', minted'⟩
    · exact Option.some.inj (found.symm.trans found')
    · rw [unique.unpublished cpu' kind key (.inr ⟨other, minted'⟩)] at found
      cases found
  · have unpublished :=
      unique.unpublished cpu kind key (.inr ⟨id, minted⟩)
    rcases unique.denoted kind key other second with found' | ⟨cpu', minted'⟩
    · rw [unpublished] at found'
      cases found'
    · have same := unique.exclusive cpu cpu' kind key (.inr ⟨id, minted⟩)
        (.inr ⟨other, minted'⟩)
      rw [same, minted'] at minted
      cases minted
      rfl

/-- A CPU that has no claim moves on without one. -/
theorem setResolving (unique : Unique s)
    (before : ∀ key, ¬ (s.resolving owner).Claims key)
    (after : ∀ key, ¬ moved.Claims key) :
    Unique (s.setResolving owner moved) where
  exclusive cpu other kind key first second := by
    rw [State.setResolving_eq] at first second
    split at first
    · exact absurd first (after key)
    · split at second
      · exact absurd second (after key)
      · exact unique.exclusive cpu other kind key first second
  unpublished cpu kind key claims := by
    rw [State.setResolving_eq] at claims
    split at claims
    · exact absurd claims (after key)
    · exact unique.unpublished cpu kind key claims
  denoted kind key id member := by
    refine (unique.denoted kind key id member).imp_right ?_
    intro ⟨cpu, minted⟩
    refine ⟨cpu, ?_⟩
    rw [State.setResolving_eq, if_neg, minted]
    intro same
    exact before key (.inr ⟨id, same ▸ minted⟩)

theorem resolveLookup (unique : Unique s) {kind : IdKind} {cpu key : Nat}
    (idle : s.resolving (cpu, kind) = .idle)
    (unclaimed : s.Unclaimed kind key) :
    Unique (resolveLookup kind cpu key s) := by
  unfold Sched.resolveLookup
  split
  · exact unique.setResolving (by simp [idle]) (by simp)
  · next unknown =>
      refine ⟨?_, ?_, ?_⟩
      · intro first second otherKind other firstClaims secondClaims
        rw [State.setResolving_eq] at firstClaims secondClaims
        split at firstClaims
        · next same =>
            cases same
            split at secondClaims
            · next same => cases same; rfl
            · rw [← claims_missed.mp firstClaims] at secondClaims
              exact absurd secondClaims (unclaimed second)
        · split at secondClaims
          · next same =>
              cases same
              rw [← claims_missed.mp secondClaims] at firstClaims
              exact absurd firstClaims (unclaimed first)
          · exact unique.exclusive first second otherKind other firstClaims
              secondClaims
      · intro other otherKind otherKey claims
        rw [State.setResolving_eq] at claims
        split at claims
        · next same =>
            cases same
            exact claims_missed.mp claims ▸ unknown
        · exact unique.unpublished other otherKind otherKey claims
      · intro otherKind otherKey id member
        refine (unique.denoted otherKind otherKey id member).imp_right ?_
        intro ⟨other, minted⟩
        refine ⟨other, ?_⟩
        rw [State.setResolving_eq, if_neg, minted]
        intro same
        rw [same, idle] at minted
        cases minted

theorem claims_setResolving
    (kept : ∀ key, moved.Claims key ↔ (s.resolving owner).Claims key)
    (other : Nat × IdKind) (key : Nat) :
    ((s.setResolving owner moved).resolving other).Claims key ↔
      (s.resolving other).Claims key := by
  rw [State.setResolving_eq]
  split
  · next same => rw [same, kept]
  · rfl

variable {kind : IdKind} {cpu : Nat} {next : State}

theorem increment (unique : Unique s)
    (stepped : resolve kind cpu s .increment = some next) : Unique next := by
  obtain ⟨key, missed, rfl⟩ := resolve_increment stepped
  have kept : ∀ other,
      (Resolve.minted key (u32 (s.next kind + 1))).Claims other ↔
        (s.resolving (cpu, kind)).Claims other := by simp [missed]
  refine ⟨?_, ?_, ?_⟩
  · intro first second otherKind other firstClaims secondClaims
    exact unique.exclusive first second otherKind other
      ((claims_setResolving kept _ _).mp firstClaims)
      ((claims_setResolving kept _ _).mp secondClaims)
  · intro other otherKind otherKey claims
    exact unique.unpublished other otherKind otherKey
      ((claims_setResolving kept _ _).mp claims)
  · intro otherKind otherKey id member
    have keep : (otherKey, id) ∈ s.minted otherKind →
        (s.ids otherKind).lookup otherKey = some id ∨
          ∃ other, Function.update s.resolving (cpu, kind)
            (.minted key (u32 (s.next kind + 1))) (other, otherKind) =
              .minted otherKey id := by
      intro old
      refine (unique.denoted otherKind otherKey id old).imp_right ?_
      intro ⟨other, minted⟩
      refine ⟨other, ?_⟩
      rw [Function.update_of_ne, minted]
      intro same
      rw [same, missed] at minted
      cases minted
    have member : (otherKey, id) ∈ Function.update s.minted kind
        ((key, u32 (s.next kind + 1)) :: s.minted kind) otherKind := member
    by_cases same : otherKind = kind
    · subst same
      rw [Function.update_self] at member
      rcases List.mem_cons.mp member with new | old
      · cases new
        exact .inr ⟨cpu, Function.update_self _ _ _⟩
      · exact keep old
    · rw [Function.update_of_ne same] at member
      exact keep member

theorem update (unique : Unique s)
    (room : ∀ key id, s.resolving (cpu, kind) = .minted key id →
      HasRoom kind.maxEntries (s.ids kind) key)
    (stepped : resolve kind cpu s .update = some next) : Unique next := by
  obtain ⟨key, id, minted, rfl⟩ := resolve_update stepped
  -- only the CPU that publishes loses its claim
  have released : ∀ other otherKind otherKey,
      (Function.update s.resolving (cpu, kind) (.published key id)
        (other, otherKind)).Claims otherKey →
      (s.resolving (other, otherKind)).Claims otherKey ∧
        (other, otherKind) ≠ (cpu, kind) := by
    intro other otherKind otherKey claims
    rw [Function.update_apply] at claims
    split at claims
    · exact absurd claims (claims_published key id otherKey)
    · next distinct => exact ⟨claims, distinct⟩
  have lookup : ∀ otherKind otherKey,
      (Function.update s.ids kind (mapUpdate kind.maxEntries (s.ids kind) key
        id) otherKind).lookup otherKey =
      if otherKind = kind ∧ otherKey = key then some id
      else (s.ids otherKind).lookup otherKey := by
    intro otherKind otherKey
    by_cases same : otherKind = kind
    · subst same
      rw [Function.update_self, lookup_mapUpdate (room key id minted)]
      simp
    · rw [Function.update_of_ne same, if_neg (fun both => same both.1)]
  have claimed : (Resolve.minted key id).Claims key := claims_minted.mpr rfl
  rw [← minted] at claimed
  refine ⟨?_, ?_, ?_⟩
  · intro first second otherKind other firstClaims secondClaims
    exact unique.exclusive first second otherKind other
      (released _ _ _ firstClaims).1 (released _ _ _ secondClaims).1
  · intro other otherKind otherKey claims
    obtain ⟨old, distinct⟩ := released _ _ _ claims
    refine (lookup otherKind otherKey).trans ?_
    rw [if_neg]
    · exact unique.unpublished other otherKind otherKey old
    · intro ⟨sameKind, sameKey⟩
      subst sameKind sameKey
      exact distinct (congrArg (·, otherKind)
        (unique.exclusive other cpu otherKind otherKey old claimed))
  · intro otherKind otherKey otherId member
    have found : ((s.ids otherKind).lookup otherKey = some otherId ∨
        ∃ other, s.resolving (other, otherKind) = .minted otherKey otherId) :=
      unique.denoted otherKind otherKey otherId member
    rcases found with found | ⟨other, otherMinted⟩
    · refine .inl ((lookup otherKind otherKey).trans ?_)
      rw [if_neg, found]
      intro ⟨sameKind, sameKey⟩
      subst sameKind sameKey
      rw [unique.unpublished cpu otherKind otherKey claimed] at found
      cases found
    · by_cases same : (other, otherKind) = (cpu, kind)
      · cases same
        rw [minted] at otherMinted
        cases otherMinted
        exact .inl ((lookup kind key).trans (if_pos ⟨rfl, rfl⟩))
      · exact .inr ⟨other, (Function.update_of_ne same _ _).trans otherMinted⟩

theorem resolve (unique : Unique s) {step : ResolveStep}
    (completes : s.Completes kind cpu step)
    (stepped : resolve kind cpu s step = some next) : Unique next := by
  cases step with
  | increment => exact unique.increment stepped
  | update => exact unique.update completes stepped
  | reserve name room =>
      obtain ⟨key, id, published, rfl⟩ := resolve_reserve stepped
      split
      · have reserved : Unique (s.reserve (kind.definition id name)) :=
          ⟨unique.exclusive, unique.unpublished, unique.denoted⟩
        exact reserved.setResolving (by simp [State.reserve, published])
          (by simp)
      · exact unique.setResolving (by simp [published]) (by simp)
  | submit =>
      obtain ⟨key, id, slot, reserved, rfl⟩ := resolve_submit stepped
      have submitted : Unique (s.submit slot) :=
        ⟨unique.exclusive, unique.unpublished, unique.denoted⟩
      exact submitted.setResolving (by simp [State.submit, reserved])
        (by simp)

end Unique

/-! ### The other steps -/

section

variable {s next : State} {cpu : Nat}

theorem onVfsReadTag_cases (stepped : onVfsReadTag s cpu = some next) :
    ∃ id, s.resolving (cpu, .file) = .returned id ∧
      next = { s with
        waits := s.waits.onVfsRead (s.reader cpu) id
        }.setResolving (cpu, .file) .idle := by
  unfold onVfsReadTag at stepped
  split at stepped
  · next id returned => exact ⟨id, returned, (Option.some.inj stepped).symm⟩
  · cases stepped

theorem offcpuEmitWake_cases {tid tgid now : Nat} {room : Bool}
    (stepped : offcpuEmitWake s cpu tid tgid now room = some next) :
    ∃ rec, offcpuWake s.waits tid tgid cpu now = some rec ∧
      next = if room then
        { s with
          waking := Function.update s.waking cpu (some (tid, s.ring.length))
          }.reserve (.offcpu rec)
      else { s with waits := s.waits.clearBlock tid } := by
  unfold offcpuEmitWake at stepped
  split at stepped
  · next rec _ woken =>
      refine ⟨rec, woken, Option.some.inj (stepped.symm.trans ?_)⟩
      split
      · rfl
      · rfl
  · cases stepped

theorem offcpuSubmitWake_cases (stepped : offcpuSubmitWake s cpu = some next) :
    ∃ tid slot, s.waking cpu = some (tid, slot) ∧
      next = { s with
        waits := s.waits.clearBlock tid
        waking := Function.update s.waking cpu none }.submit slot := by
  unfold offcpuSubmitWake at stepped
  split at stepped
  · next tid slot waking =>
      exact ⟨tid, slot, waking, (Option.some.inj stepped).symm⟩
  · cases stepped

theorem onTickEnter_cases {unwindEnabled : Bool} {rec : SampleRec}
    {room : Bool}
    (stepped : onTickEnter unwindEnabled s cpu rec room = some next) :
    s.ticks cpu = .idle ∧
      next = if unwindEnabled then s.setTick cpu (.walking rec [] none)
      else if room then
        (s.reserve (.sample (sampleWith rec []))).setTick cpu
          (.walking rec [] (some s.ring.length))
      else s := by
  unfold onTickEnter at stepped
  split at stepped
  · next idle =>
      refine ⟨idle, Option.some.inj (stepped.symm.trans ?_)⟩
      split
      · rfl
      · split
        · rfl
        · rfl
  · cases stepped

theorem walkPythonFrame_cases {qual : Nat}
    (stepped : walkPythonFrame s cpu qual = some next) :
    ∃ rec ids slot, s.ticks cpu = .walking rec ids slot ∧
      s.resolving (cpu, .pyframe) = .idle ∧ ids.length < maxPyFrames ∧
      next = resolveLookup .pyframe cpu qual s := by
  unfold walkPythonFrame at stepped
  split at stepped
  · next rec ids slot walking idle =>
      split at stepped
      · next short =>
          exact ⟨rec, ids, slot, walking, idle, short,
            (Option.some.inj stepped).symm⟩
      · cases stepped
  · cases stepped

theorem walkPythonTake_cases (stepped : walkPythonTake s cpu = some next) :
    ∃ rec ids slot id taken, s.ticks cpu = .walking rec ids slot ∧
      s.resolving (cpu, .pyframe) = .returned id ∧
      taken = (if id = 0 then ids else ids ++ [id]) ∧
      next = ({ s with
        ring := match slot with
          | some slot => s.ring.set slot (.sample (sampleWith rec taken))
          | none => s.ring
        }.setTick cpu (.walking rec taken slot)).setResolving
          (cpu, .pyframe) .idle := by
  unfold walkPythonTake at stepped
  split at stepped
  · next rec ids slot id walking returned =>
      exact ⟨rec, ids, slot, id, _, walking, returned, rfl,
        (Option.some.inj stepped).symm⟩
  · cases stepped

theorem onTickEmit_cases {unwound : Option (Nat × List Nat)} {room : Bool}
    (stepped : onTickEmit s cpu unwound room = some next) :
    ∃ rec ids slot, s.ticks cpu = .walking rec ids slot ∧
      next = match slot with
        | some slot => (s.submit slot).setTick cpu .idle
        | none =>
            if room then
              (s.reserve (stagedRecord (sampleWith rec ids) unwound)).setTick
                cpu (.emitting s.ring.length)
            else s.setTick cpu .idle := by
  unfold onTickEmit at stepped
  split at stepped
  · next rec ids slot walking _ =>
      exact ⟨rec, ids, some slot, walking, (Option.some.inj stepped).symm⟩
  · next rec ids walking _ =>
      refine ⟨rec, ids, none, walking, Option.some.inj (stepped.symm.trans ?_)⟩
      dsimp only
      split
      · rfl
      · rfl
  · cases stepped

theorem onTickSubmit_cases (stepped : onTickSubmit s cpu = some next) :
    ∃ slot, s.ticks cpu = .emitting slot ∧
      next = (s.submit slot).setTick cpu .idle := by
  unfold onTickSubmit at stepped
  split at stepped
  · next slot emitting => exact ⟨slot, emitting, (Option.some.inj stepped).symm⟩
  · cases stepped

theorem consume_cases (stepped : consume s = some next) :
    s.consumed < s.ring.length ∧ s.submitted s.consumed = true ∧
      next = { s with consumed := s.consumed + 1 } := by
  unfold consume at stepped
  split at stepped
  · next ready => exact ⟨ready.1, ready.2, (Option.some.inj stepped).symm⟩
  · cases stepped

end

namespace Unique

variable {s next : State} {unwindEnabled : Bool}

theorem step (unique : Unique s) {action : Action}
    (undisturbed : Undisturbed unwindEnabled s action)
    (stepped : step unwindEnabled s action = some next) : Unique next := by
  cases action with
  | readEnter cpu tid inode =>
      simp only [Sched.step, Option.ite_none_right_eq_some] at stepped
      obtain ⟨idle, rfl⟩ := stepped.imp_right Option.some.inj
      have entered : Unique
          { s with reader := Function.update s.reader cpu tid } :=
        ⟨unique.exclusive, unique.unpublished, unique.denoted⟩
      exact entered.resolveLookup idle undisturbed
  | resolveFile cpu step => exact unique.resolve undisturbed stepped
  | readTag cpu =>
      obtain ⟨id, returned, rfl⟩ := onVfsReadTag_cases stepped
      have tagged : Unique
          { s with waits := s.waits.onVfsRead (s.reader cpu) id } :=
        ⟨unique.exclusive, unique.unpublished, unique.denoted⟩
      exact tagged.setResolving (by simp [returned]) (by simp)
  | hook tid hook =>
      simp only [Sched.step, Option.ite_none_right_eq_some] at stepped
      obtain ⟨-, rfl⟩ := stepped.imp_right Option.some.inj
      exact ⟨unique.exclusive, unique.unpublished, unique.denoted⟩
  | block tid now ustack kids =>
      cases stepped
      exact ⟨unique.exclusive, unique.unpublished, unique.denoted⟩
  | unblock tid =>
      cases stepped
      exact ⟨unique.exclusive, unique.unpublished, unique.denoted⟩
  | wake cpu tid tgid now room =>
      obtain ⟨rec, -, rfl⟩ := offcpuEmitWake_cases stepped
      split
      · exact ⟨unique.exclusive, unique.unpublished, unique.denoted⟩
      · exact ⟨unique.exclusive, unique.unpublished, unique.denoted⟩
  | wakeSubmit cpu =>
      obtain ⟨tid, slot, -, rfl⟩ := offcpuSubmitWake_cases stepped
      exact ⟨unique.exclusive, unique.unpublished, unique.denoted⟩
  | tickEnter cpu rec room =>
      obtain ⟨-, rfl⟩ := onTickEnter_cases stepped
      split_ifs
      · exact ⟨unique.exclusive, unique.unpublished, unique.denoted⟩
      · exact ⟨unique.exclusive, unique.unpublished, unique.denoted⟩
      · exact unique
  | walkFrame cpu qual =>
      obtain ⟨rec, ids, slot, -, idle, -, rfl⟩ :=
        walkPythonFrame_cases stepped
      exact unique.resolveLookup idle undisturbed.2
  | resolvePyframe cpu step => exact unique.resolve undisturbed stepped
  | takeFrame cpu =>
      obtain ⟨rec, ids, slot, id, taken, -, returned, -, rfl⟩ :=
        walkPythonTake_cases stepped
      have free : ∀ key, ¬ (s.resolving (cpu, .pyframe)).Claims key := by
        simp [returned]
      have moved := unique.setResolving free claims_idle
      exact ⟨moved.exclusive, moved.unpublished, moved.denoted⟩
  | tickEmit cpu unwound room =>
      obtain ⟨rec, ids, slot, -, rfl⟩ := onTickEmit_cases stepped
      split
      · exact ⟨unique.exclusive, unique.unpublished, unique.denoted⟩
      · split
        · exact ⟨unique.exclusive, unique.unpublished, unique.denoted⟩
        · exact ⟨unique.exclusive, unique.unpublished, unique.denoted⟩
  | tickSubmit cpu =>
      obtain ⟨slot, -, rfl⟩ := onTickSubmit_cases stepped
      exact ⟨unique.exclusive, unique.unpublished, unique.denoted⟩
  | consume =>
      obtain ⟨-, -, rfl⟩ := consume_cases stepped
      exact ⟨unique.exclusive, unique.unpublished, unique.denoted⟩

end Unique

end Sismo.Sched
