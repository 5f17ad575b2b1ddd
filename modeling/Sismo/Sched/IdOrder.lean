import Sismo.Sched.IdUnique

namespace Sismo.Sched

open Samples

/-! In the interleavings that go well, an id's definition comes before every
record that uses it. -/

def Resolve.yields : Resolve → Option Nat
  | .published _ id => some id
  | .reserved _ id _ => some id
  | .returned id => some id
  | _ => none

/-- The id is a word whose definition is in the ring, or still to come. -/
def State.Known (s : State) (kind : IdKind) (id : Nat) : Prop :=
  id < 2 ^ 32 ∧ (s.Pending kind id ∨ ∃ place, s.Defines place kind id)

/-- Every id that a lookup, a block or a tick may still put in a record is
known, and the ids of the records so far are defined before them. -/
structure Ordered (unwindEnabled : Bool) (s : State) : Prop where
  published : ∀ kind key id, (s.ids kind).lookup key = some id →
    s.Known kind id
  resolved : ∀ cpu kind id, (s.resolving (cpu, kind)).yields = some id →
    s.Known kind id
  waiting : ∀ value id, s.waits.Stores value → fileId value = some id →
    s.Known .file id
  walked : ∀ cpu rec ids slot, s.ticks cpu = .walking rec ids slot →
    ∀ id ∈ ids, s.Known .pyframe id
  minted : ∀ cpu kind key id, s.resolving (cpu, kind) = .minted key id →
    id < 2 ^ 32
  staged : unwindEnabled = true →
    ∀ cpu rec ids slot, s.ticks cpu = .walking rec ids slot → slot = none
  unwalked : unwindEnabled = false →
    ∀ cpu, s.resolving (cpu, .pyframe) = .idle
  ring : ∀ place record kind id, s.ring[place]? = some record →
    (kind, id) ∈ carried record → ∃ earlier < place, s.Defines earlier kind id

/-! ### What the steps keep known -/

section

variable {s : State} {kind : IdKind} {id : Nat}

theorem State.Known.setResolving {cpu : Nat} {ownKind : IdKind}
    {moved : Resolve}
    (defined : ∀ key id, s.resolving (cpu, ownKind) = .published key id →
      ∃ place, s.Defines place ownKind id)
    (known : s.Known kind id) :
    (s.setResolving (cpu, ownKind) moved).Known kind id := by
  refine ⟨known.1, ?_⟩
  rcases known.2 with ⟨other, key, published⟩ | defines
  · by_cases same : (other, kind) = (cpu, ownKind)
    · cases same
      exact .inr (defined key id published)
    · refine .inl ⟨other, key, ?_⟩
      rw [State.setResolving_eq, if_neg same, published]
  · exact .inr defines

theorem State.Defines.reserve {place : Nat} (defines : s.Defines place kind id)
    (record : Record) : (s.reserve record).Defines place kind id := by
  obtain ⟨name, found⟩ := defines
  obtain ⟨inside, -⟩ := List.getElem?_eq_some_iff.mp found
  exact ⟨name, (List.getElem?_append_left inside).trans found⟩

theorem State.Known.reserve (known : s.Known kind id) (record : Record) :
    (s.reserve record).Known kind id :=
  ⟨known.1, known.2.imp_right fun ⟨place, defines⟩ =>
    ⟨place, defines.reserve record⟩⟩

theorem State.Defines.lt {place : Nat} (defines : s.Defines place kind id) :
    place < s.ring.length := by
  obtain ⟨name, found⟩ := defines
  exact (List.getElem?_eq_some_iff.mp found).1

theorem ring_reserve {record : Record}
    (ring : ∀ place record kind id, s.ring[place]? = some record →
      (kind, id) ∈ carried record →
      ∃ earlier < place, s.Defines earlier kind id)
    (defined : ∀ kind id, (kind, id) ∈ carried record →
      ∃ place, s.Defines place kind id)
    (place : Nat) (found : Record) (kind : IdKind) (id : Nat)
    (at_ : (s.reserve record).ring[place]? = some found)
    (member : (kind, id) ∈ carried found) :
    ∃ earlier < place, (s.reserve record).Defines earlier kind id := by
  simp only [State.reserve] at at_
  rw [List.getElem?_append] at at_
  split at at_
  · obtain ⟨earlier, before, defines⟩ := ring place found kind id at_ member
    exact ⟨earlier, before, defines.reserve record⟩
  · next outside =>
      rw [List.getElem?_singleton] at at_
      split at at_
      · cases at_
        obtain ⟨earlier, defines⟩ := defined kind id member
        exact ⟨earlier, Nat.lt_of_lt_of_le defines.lt (by omega),
          defines.reserve record⟩
      · cases at_

end

/-! ### What each step keeps -/

namespace Ordered

variable {s next : State} {unwindEnabled : Bool}

theorem empty (unwindEnabled : Bool) : Ordered unwindEnabled {} where
  published _ _ _ found := nomatch found
  resolved _ _ _ yields := nomatch yields
  waiting _ _ stores := by
    cases stores with
    | futex found => cases found
    | peer found => cases found
    | file found => cases found
    | block found => cases found
  walked _ _ _ _ walking := nomatch walking
  minted _ _ _ _ minted := nomatch minted
  staged _ _ _ _ _ walking := nomatch walking
  unwalked _ _ := rfl
  ring _ _ _ _ found := nomatch found

theorem setWaits (ordered : Ordered unwindEnabled s) (waits : Waits)
    (stores : ∀ value id, waits.Stores value → fileId value = some id →
      s.Known .file id) :
    Ordered unwindEnabled { s with waits := waits } :=
  { ordered with waiting := stores }

/-- A resolution moves on to an id that is known, and away from a published one
only when it is defined. -/
theorem setResolving (ordered : Ordered unwindEnabled s) (cpu : Nat)
    (kind : IdKind) (moved : Resolve)
    (defined : ∀ key id, s.resolving (cpu, kind) = .published key id →
      ∃ place, s.Defines place kind id)
    (yields : ∀ id, moved.yields = some id →
      (s.setResolving (cpu, kind) moved).Known kind id)
    (minted : ∀ key id, moved = .minted key id → id < 2 ^ 32)
    (walks : kind = .pyframe → moved ≠ .idle → unwindEnabled = true) :
    Ordered unwindEnabled (s.setResolving (cpu, kind) moved) where
  published otherKind key id found :=
    (ordered.published otherKind key id found).setResolving defined
  resolved other otherKind id otherYields := by
    rw [State.setResolving_eq] at otherYields
    split at otherYields
    · next same =>
        cases same
        exact yields id otherYields
    · exact (ordered.resolved other otherKind id otherYields).setResolving defined
  waiting value id stores tagged :=
    (ordered.waiting value id stores tagged).setResolving defined
  walked other rec ids slot walking id member :=
    (ordered.walked other rec ids slot walking id member).setResolving defined
  minted other otherKind key id otherMinted := by
    rw [State.setResolving_eq] at otherMinted
    split at otherMinted
    · exact minted key id otherMinted
    · exact ordered.minted other otherKind key id otherMinted
  staged := ordered.staged
  unwalked off other := by
    rw [State.setResolving_eq]
    split
    · next same =>
        cases same
        by_contra walking
        exact absurd (walks rfl walking) (by simp [off])
    · exact ordered.unwalked off other
  ring := ordered.ring

theorem reserve (ordered : Ordered unwindEnabled s) (record : Record)
    (defined : ∀ kind id, (kind, id) ∈ carried record →
      ∃ place, s.Defines place kind id) :
    Ordered unwindEnabled (s.reserve record) where
  published kind key id found :=
    (ordered.published kind key id found).reserve record
  resolved cpu kind id yields :=
    (ordered.resolved cpu kind id yields).reserve record
  waiting value id stores tagged :=
    (ordered.waiting value id stores tagged).reserve record
  walked cpu rec ids slot walking id member :=
    (ordered.walked cpu rec ids slot walking id member).reserve record
  minted := ordered.minted
  staged := ordered.staged
  unwalked := ordered.unwalked
  ring := ring_reserve ordered.ring defined

theorem setTick (ordered : Ordered unwindEnabled s) (cpu : Nat) (tick : Tick)
    (known : ∀ rec ids slot, tick = .walking rec ids slot →
      (unwindEnabled = true → slot = none) ∧
        ∀ id ∈ ids, s.Known .pyframe id) :
    Ordered unwindEnabled (s.setTick cpu tick) :=
  { ordered with
    walked := by
      intro other rec ids slot walking
      simp only [State.setTick, Function.update_apply] at walking
      split at walking
      · exact (known rec ids slot walking).2
      · exact ordered.walked other rec ids slot walking
    staged := by
      intro on other rec ids slot walking
      simp only [State.setTick, Function.update_apply] at walking
      split at walking
      · exact (known rec ids slot walking).1 on
      · exact ordered.staged on other rec ids slot walking }

theorem resolveLookup (ordered : Ordered unwindEnabled s) {kind : IdKind}
    {cpu key : Nat} (idle : s.resolving (cpu, kind) = .idle)
    (walks : kind = .pyframe → unwindEnabled = true) :
    Ordered unwindEnabled (resolveLookup kind cpu key s) := by
  unfold Sched.resolveLookup
  apply ordered.setResolving
  · simp [idle]
  · intro id yields
    split at yields
    · next found known =>
        cases yields
        exact (ordered.published _ _ _ known).setResolving (by simp [idle])
    · cases yields
  · intro otherKey id minted
    split at minted
    · cases minted
    · cases minted
  · exact fun pyframe _ => walks pyframe

variable {kind : IdKind} {cpu : Nat}

theorem walks (ordered : Ordered unwindEnabled s) {resolve : Resolve}
    (found : s.resolving (cpu, kind) = resolve) (busy : resolve ≠ .idle)
    (pyframe : kind = .pyframe) : unwindEnabled = true := by
  subst pyframe
  by_contra off
  exact busy (found ▸ ordered.unwalked (by simpa using off) cpu)

theorem increment (ordered : Ordered unwindEnabled s)
    (stepped : resolve kind cpu s .increment = some next) :
    Ordered unwindEnabled next := by
  obtain ⟨key, missed, rfl⟩ := resolve_increment stepped
  have minted : ∀ other id,
      Resolve.minted key (u32 (s.next kind + 1)) = .minted other id →
      id < 2 ^ 32 := by
    intro other id same
    cases same
    exact Nat.mod_lt _ (Nat.two_pow_pos 32)
  have moved := ordered.setResolving cpu kind
    (.minted key (u32 (s.next kind + 1))) (by simp [missed])
    (by simp [Resolve.yields]) minted
    (fun pyframe _ => ordered.walks missed (by simp) pyframe)
  exact { moved with }

theorem update (ordered : Ordered unwindEnabled s)
    (room : ∀ key id, s.resolving (cpu, kind) = .minted key id →
      HasRoom kind.maxEntries (s.ids kind) key)
    (stepped : resolve kind cpu s .update = some next) :
    Ordered unwindEnabled next := by
  obtain ⟨key, id, minted, rfl⟩ := resolve_update stepped
  -- the id just published is still to be defined
  have pending : (s.setResolving (cpu, kind) (.published key id)).Known
      kind id :=
    ⟨ordered.minted cpu kind key id minted,
      .inl ⟨cpu, key, Function.update_self _ _ _⟩⟩
  have moved := ordered.setResolving cpu kind (.published key id)
    (by simp [minted])
    (fun other yields => Option.some.inj yields ▸ pending)
    (by simp) (fun pyframe _ => ordered.walks minted (by simp) pyframe)
  have published : ∀ otherKind otherKey otherId,
      (Function.update s.ids kind (mapUpdate kind.maxEntries (s.ids kind) key
        id) otherKind).lookup otherKey = some otherId →
      (s.setResolving (cpu, kind) (.published key id)).Known otherKind
        otherId := by
    intro otherKind otherKey otherId found
    by_cases same : otherKind = kind
    · subst same
      rw [Function.update_self, lookup_mapUpdate (room key id minted)] at found
      split at found
      · cases found
        exact pending
      · exact moved.published _ _ _ found
    · rw [Function.update_of_ne same] at found
      exact moved.published _ _ _ found
  exact { moved with published := published }

theorem define (ordered : Ordered unwindEnabled s) {key id : Nat}
    (published : s.resolving (cpu, kind) = .published key id) (name : Bytes) :
    Ordered unwindEnabled ((s.reserve (kind.definition id name)).setResolving
      (cpu, kind) (.reserved key id s.ring.length)) := by
  have nothing : carried (kind.definition id name) = [] := by
    cases kind
    · rfl
    · rfl
  have defines : (s.reserve (kind.definition id name)).Defines s.ring.length
      kind id := ⟨name, List.getElem?_concat_length⟩
  have reserved := ordered.reserve (kind.definition id name)
    (by simp [nothing])
  apply reserved.setResolving
  · intro otherKey otherId found
    have same : Resolve.published key id = .published otherKey otherId :=
      published.symm.trans found
    cases same
    exact ⟨_, defines⟩
  · intro otherId yields
    cases yields
    have small := (ordered.resolved cpu kind id (by rw [published]; rfl)).1
    exact ⟨small, .inr ⟨_, defines⟩⟩
  · simp
  · exact fun pyframe _ => ordered.walks published (by simp) pyframe

theorem resolve (ordered : Ordered unwindEnabled s) {step : ResolveStep}
    (completes : s.Completes kind cpu step)
    (stepped : resolve kind cpu s step = some next) :
    Ordered unwindEnabled next := by
  cases step with
  | increment => exact ordered.increment stepped
  | update => exact ordered.update completes stepped
  | reserve name room =>
      obtain ⟨key, id, published, rfl⟩ := resolve_reserve stepped
      have room : room = true := completes
      rw [if_pos room]
      exact ordered.define published name
  | submit =>
      obtain ⟨key, id, slot, reserved, rfl⟩ := resolve_submit stepped
      have known := ordered.resolved cpu kind id (by rw [reserved]; rfl)
      have submitted : Ordered unwindEnabled (s.submit slot) :=
        { ordered with }
      apply submitted.setResolving
      · simp [State.submit, reserved]
      · intro other yields
        cases yields
        exact known.setResolving (s := s.submit slot)
          (by simp [State.submit, reserved])
      · simp
      · exact fun pyframe _ => ordered.walks reserved (by simp) pyframe

end Ordered

/-! ### What a record carries -/

theorem carried_offcpuRec {state : BlockState} {tid tgid cpu now : Nat}
    {kind : IdKind} {id : Nat}
    (member : (kind, id) ∈ carried (.offcpu (offcpuRec state tid tgid cpu
      now))) : kind = .file ∧ fileId state.blockId = some id := by
  simp only [carried, offcpuRec, if_pos, List.mem_map, Option.mem_toList]
    at member
  obtain ⟨found, tagged, same⟩ := member
  cases same
  exact ⟨rfl, tagged⟩

theorem carried_stagedRecord {rec : SampleRec} {ids : List Nat}
    {unwound : Option (Nat × List Nat)} {kind : IdKind} {id : Nat}
    (member : (kind, id) ∈ carried (stagedRecord (sampleWith rec ids)
      unwound)) : kind = .pyframe ∧ id ∈ ids := by
  have taken : (kind, id) ∈
      (ids.take (min ids.length maxPyFrames)).map (IdKind.pyframe, ·) := by
    unfold stagedRecord at member
    split at member
    · exact member
    · exact member
  obtain ⟨found, inside, same⟩ := List.mem_map.mp taken
  cases same
  exact ⟨rfl, List.mem_of_mem_take inside⟩

theorem State.Known.defined {s : State} {kind : IdKind} {id : Nat}
    (known : s.Known kind id) (settled : ¬ s.Pending kind id) :
    ∃ place, s.Defines place kind id :=
  known.2.resolve_left settled

namespace Ordered

variable {s next : State} {unwindEnabled : Bool} {cpu : Nat}

theorem readTag (ordered : Ordered unwindEnabled s)
    (stepped : onVfsReadTag s cpu = some next) :
    Ordered unwindEnabled next := by
  obtain ⟨id, returned, rfl⟩ := onVfsReadTag_cases stepped
  have known := ordered.resolved cpu .file id (by rw [returned]; rfl)
  have tagged := ordered.setWaits (s.waits.onVfsRead (s.reader cpu) id)
    (by
      intro value other stores found
      rcases Waits.stores_onVfsRead stores with old | rfl
      · exact ordered.waiting value other old found
      · rw [fileId_fileTag, u32, Nat.mod_eq_of_lt known.1] at found
        cases found
        exact known)
  refine tagged.setResolving cpu .file .idle (by simp [returned]) ?_
    (by simp) (by simp)
  intro _ yields
  cases yields

theorem wake (ordered : Ordered unwindEnabled s) {tid tgid now : Nat}
    {room : Bool}
    (settled : room = true →
      ∀ block, s.waits.offcpu.lookup tid = some block →
        ∀ id, fileId block.blockId = some id → ¬ s.Pending .file id)
    (stepped : offcpuEmitWake s cpu tid tgid now room = some next) :
    Ordered unwindEnabled next := by
  obtain ⟨rec, woken, rfl⟩ := offcpuEmitWake_cases stepped
  obtain ⟨state, found, -, rfl⟩ := offcpuWake_cases woken
  split
  · next fits =>
      have reserved := ordered.reserve
        (.offcpu (offcpuRec state tid tgid cpu now))
        (by
          intro kind id member
          obtain ⟨rfl, tagged⟩ := carried_offcpuRec member
          exact (ordered.waiting _ id (.block found) tagged).defined
            (settled fits state found id tagged))
      exact { reserved with }
  · exact ordered.setWaits _ fun value id stores =>
      ordered.waiting value id (Waits.stores_clearBlock stores)

theorem tickEnter (ordered : Ordered unwindEnabled s) {rec : SampleRec}
    {room : Bool}
    (stepped : onTickEnter unwindEnabled s cpu rec room = some next) :
    Ordered unwindEnabled next := by
  obtain ⟨-, rfl⟩ := onTickEnter_cases stepped
  split_ifs with on fits
  · apply ordered.setTick
    intro _ _ _ same
    cases same
    exact ⟨fun _ => rfl, by simp⟩
  · have reserved := ordered.reserve
      (.sample (sampleWith rec [])) (by simp [carried, sampleWith])
    apply reserved.setTick
    intro _ _ _ same
    cases same
    exact ⟨fun off => absurd off on, by simp⟩
  · exact ordered

theorem takeFrame (ordered : Ordered unwindEnabled s)
    (stepped : walkPythonTake s cpu = some next) :
    Ordered unwindEnabled next := by
  obtain ⟨rec, ids, slot, id, taken, walking, returned, takenEq, rfl⟩ :=
    walkPythonTake_cases stepped
  -- a frame is only walked for a staged sample, which has no slot yet
  have on := ordered.walks returned (by simp) rfl
  have slotNone := ordered.staged on cpu rec ids slot walking
  subst slotNone
  have known := ordered.resolved cpu .pyframe id (by rw [returned]; rfl)
  have moved := ordered.setTick cpu (.walking rec taken none)
    (by
      intro _ _ _ same
      cases same
      refine ⟨fun _ => rfl, fun other member => ?_⟩
      rw [takenEq] at member
      split at member
      · exact ordered.walked cpu rec ids none walking other member
      · rcases List.mem_append.mp member with old | new
        · exact ordered.walked cpu rec ids none walking other old
        · rw [List.mem_singleton.mp new]
          exact known)
  exact moved.setResolving cpu .pyframe .idle (by simp [State.setTick, returned])
    (fun _ yields => nomatch yields) (by simp) (by simp)

theorem tickEmit (ordered : Ordered unwindEnabled s)
    {unwound : Option (Nat × List Nat)} {room : Bool}
    (settled : room = true →
      ∀ rec ids slot, s.ticks cpu = .walking rec ids slot →
        ∀ id ∈ ids, ¬ s.Pending .pyframe id)
    (stepped : onTickEmit s cpu unwound room = some next) :
    Ordered unwindEnabled next := by
  obtain ⟨rec, ids, slot, walking, rfl⟩ := onTickEmit_cases stepped
  split
  · next slot =>
      have submitted : Ordered unwindEnabled (s.submit slot) :=
        { ordered with }
      exact submitted.setTick cpu _ fun _ _ _ same => nomatch same
  · split
    · next fits =>
        have reserved := ordered.reserve
          (stagedRecord (sampleWith rec ids) unwound)
          (by
            intro kind id member
            obtain ⟨rfl, inside⟩ := carried_stagedRecord member
            exact (ordered.walked cpu rec ids none walking id inside).defined
              (settled fits rec ids none walking id inside))
        exact reserved.setTick cpu _ fun _ _ _ same => nomatch same
    · exact ordered.setTick cpu _ fun _ _ _ same => nomatch same

theorem step (ordered : Ordered unwindEnabled s) {action : Action}
    (undisturbed : Undisturbed unwindEnabled s action)
    (stepped : step unwindEnabled s action = some next) :
    Ordered unwindEnabled next := by
  cases action with
  | readEnter cpu tid inode =>
      simp only [Sched.step, Option.ite_none_right_eq_some] at stepped
      obtain ⟨idle, rfl⟩ := stepped.imp_right Option.some.inj
      have entered : Ordered unwindEnabled
          { s with reader := Function.update s.reader cpu tid } :=
        { ordered with }
      apply entered.resolveLookup idle
      intro pyframe
      cases pyframe
  | resolveFile cpu step => exact ordered.resolve undisturbed stepped
  | readTag cpu => exact ordered.readTag stepped
  | hook tid hook =>
      simp only [Sched.step, Option.ite_none_right_eq_some] at stepped
      obtain ⟨wellFormed, rfl⟩ := stepped.imp_right Option.some.inj
      apply ordered.setWaits
      intro value id stores tagged
      rcases Waits.stores_hook wellFormed stores with old | untagged
      · exact ordered.waiting value id old tagged
      · rw [untagged] at tagged
        cases tagged
  | block tid now ustack kids =>
      cases stepped
      apply ordered.setWaits
      intro value id stores tagged
      rcases Waits.stores_offcpuRecordBlock stores with old | rfl
      · exact ordered.waiting value id old tagged
      · rw [fileId_of_lt (by decide)] at tagged
        cases tagged
  | unblock tid =>
      cases stepped
      exact ordered.setWaits _ fun value id stores =>
        ordered.waiting value id (Waits.stores_clearBlock stores)
  | wake cpu tid tgid now room => exact ordered.wake undisturbed stepped
  | wakeSubmit cpu =>
      obtain ⟨tid, slot, -, rfl⟩ := offcpuSubmitWake_cases stepped
      have cleared := ordered.setWaits (s.waits.clearBlock tid)
        fun value id stores =>
          ordered.waiting value id (Waits.stores_clearBlock stores)
      exact { cleared with }
  | tickEnter cpu rec room => exact ordered.tickEnter stepped
  | walkFrame cpu qual =>
      obtain ⟨rec, ids, slot, -, idle, -, rfl⟩ :=
        walkPythonFrame_cases stepped
      exact ordered.resolveLookup idle (fun _ => undisturbed.1)
  | resolvePyframe cpu step => exact ordered.resolve undisturbed stepped
  | takeFrame cpu => exact ordered.takeFrame stepped
  | tickEmit cpu unwound room => exact ordered.tickEmit undisturbed stepped
  | tickSubmit cpu =>
      obtain ⟨slot, -, rfl⟩ := onTickSubmit_cases stepped
      have submitted : Ordered unwindEnabled (s.submit slot) :=
        { ordered with }
      apply submitted.setTick
      intro _ _ _ same
      cases same
  | consume =>
      obtain ⟨-, -, rfl⟩ := consume_cases stepped
      exact { ordered with }

theorem definedBeforeUse (ordered : Ordered unwindEnabled s) :
    DefinedBeforeUse s := by
  intro place record _ found kind id member _
  exact ordered.ring place record kind id found member

end Ordered

/-- In a run that nothing disturbs, the host has consumed an id's definition
before any record that uses the id, and no key has two ids. -/
theorem ids_defined_before_use (unwindEnabled : Bool) (actions : List Action)
    (final : State)
    (undisturbed : Machine.Along (step unwindEnabled)
      (Undisturbed unwindEnabled) {} actions)
    (reached : Machine.run (step unwindEnabled) {} actions = some final) :
    DefinedBeforeUse final ∧ UniqueIds final := by
  have invariant : Ordered unwindEnabled final ∧ Unique final :=
    Machine.run_invariant_along
      (fun s _ _ (holds : Ordered unwindEnabled s ∧ Unique s) settled stepped =>
        ⟨holds.1.step settled stepped, holds.2.step settled stepped⟩)
      ⟨.empty unwindEnabled, .empty⟩ undisturbed reached
  exact ⟨invariant.1.definedBeforeUse, invariant.2.uniqueIds⟩

def readActions : List Action :=
  [.readEnter 0 7 100, .resolveFile 0 .increment, .resolveFile 0 .update,
    .resolveFile 0 (.reserve (bytes "log") true), .resolveFile 0 .submit,
    .readTag 0, .block 7 1000 [] []]

/-- The thread wakes on CPU 1, and the host consumes both records. -/
def wakeActions : List Action :=
  [.wake 1 7 70 90000 true, .wakeSubmit 1, .consume, .consume]

theorem readActions_idle {s : State}
    (reached : Machine.run (step true) {} readActions = some s) (cpu : Nat) :
    s.resolving (cpu, .file) = .idle := by
  have moves : (Machine.run (step true) {} readActions).map State.resolving =
      some ([.missed 100, .minted 100 1, .published 100 1,
        .reserved 100 1 0, .returned 1, .idle].foldl
          (fun resolving resolve =>
            Function.update resolving (0, .file) resolve)
          fun _ => .idle) := rfl
  rw [reached] at moves
  rw [Option.some.inj moves]
  simp

theorem ids_defined_before_use_read :
    ∃ final, Machine.run (step true) {} (readActions ++ wakeActions) =
        some final ∧
      final.consumed = 2 ∧ DefinedBeforeUse final ∧ UniqueIds final := by
  refine ⟨_, rfl, rfl,
    ids_defined_before_use true (readActions ++ wakeActions) _ ?_ rfl⟩
  apply Machine.along_append
  · refine Machine.along_cons (fun cpu => claims_idle _) rfl ?_
    refine Machine.along_cons trivial rfl ?_
    refine Machine.along_cons (fun _ _ _ => .inr (by decide)) rfl ?_
    refine Machine.along_cons rfl rfl ?_
    exact ⟨trivial, fun _ _ => ⟨trivial, fun _ _ => ⟨trivial, fun _ _ =>
      trivial⟩⟩⟩
  · intro middle reached
    refine ⟨fun _ block _ id _ pending => ?_, fun _ _ => ⟨trivial, fun _ _ =>
      ⟨trivial, fun _ _ => ⟨trivial, fun _ _ => trivial⟩⟩⟩⟩
    obtain ⟨cpu, key, published⟩ := pending
    rw [readActions_idle reached cpu] at published
    cases published

/-- CPU 1 has put the id of a qualname in the map when CPU 2 samples a thread
that runs the same code; CPU 0 gives the qualname another id. -/
def raceRun : List Action :=
  [.tickEnter 0 {} true, .tickEnter 1 {} true, .tickEnter 2 {} true,
    .walkFrame 0 500, .walkFrame 1 500,
    .resolvePyframe 0 .increment, .resolvePyframe 1 .increment,
    .resolvePyframe 1 .update, .walkFrame 2 500, .takeFrame 2,
    .tickEmit 2 none true, .tickSubmit 2, .consume]

theorem not_ids_defined_before_use_raceRun :
    ∃ final, Machine.run (step true) {} raceRun = some final ∧
      ¬ DefinedBeforeUse final ∧ ¬ UniqueIds final := by
  refine ⟨_, rfl, ?_, ?_⟩
  · intro defined
    obtain ⟨earlier, before, -⟩ := defined 0
      (.sample (sampleWith {} [2])) (by decide) rfl .pyframe 2 (by decide)
      (by decide)
    exact Nat.not_lt_zero earlier before
  · intro unique
    exact absurd (unique .pyframe 500 2 1 (by decide) (by decide)) (by decide)

end Sismo.Sched
