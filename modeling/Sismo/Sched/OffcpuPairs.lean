import Mathlib.Data.List.Forall2
import Sismo.Sched.Offcpu

namespace Sismo.Sched.Offcpu

open Samples

/-! Every off-CPU sample is a block and the wake that ends it, as long as no
thread starts with entries left by another and no sleeper is preempted. -/

/-! ### The identities in the maps -/

def entry (w : Waits) (tid : Nat) : CallKind → Option Nat
  | .futex => w.futexWait.lookup tid
  | .recv => w.netPeer.lookup tid
  | .read => w.diskFile.lookup tid

theorem entry_enterHook {w : Waits} {tid other value : Nat} {call : Call}
    {kind : CallKind}
    (found : entry (enterHook w tid call) other kind = some value) :
    entry w other kind = some value ∨
      other = tid ∧ call.kind = kind ∧ call.identity = value := by
  cases call with
  | futex uaddr =>
      cases kind with
      | futex =>
          simp only [entry, enterHook, Waits.onFutexEnter,
            HashMap.lookup_insert_eq] at found
          split at found
          · next same => exact .inr ⟨same, rfl, Option.some.inj found⟩
          · exact .inl found
      | recv => exact .inl found
      | read => exact .inl found
  | recv peer =>
      cases kind with
      | futex => exact .inl found
      | recv =>
          simp only [entry, enterHook, Waits.onTcpRecvmsg,
            HashMap.lookup_insert_eq] at found
          split at found
          · next same =>
              refine .inr ⟨same, rfl, ?_⟩
              rw [← Option.some.inj found]
              cases peer with
              | none => rfl
              | some address => rfl
          · exact .inl found
      | read => exact .inl found
  | read id =>
      simp only [enterHook, Waits.onVfsRead] at found
      split at found
      · exact .inl found
      · cases kind with
        | futex => exact .inl found
        | recv => exact .inl found
        | read =>
            simp only [entry, HashMap.lookup_insert_eq] at found
            split at found
            · next same => exact .inr ⟨same, rfl, Option.some.inj found⟩
            · exact .inl found

theorem entry_enterHook_of_ne {tid other : Nat} (distinct : other ≠ tid)
    (w : Waits) (call : Call) (kind : CallKind) :
    entry (enterHook w tid call) other kind = entry w other kind := by
  cases call with
  | futex uaddr =>
      cases kind with
      | futex => exact (HashMap.lookup_insert_eq _ _ _ _).trans (if_neg distinct)
      | recv => rfl
      | read => rfl
  | recv peer =>
      cases kind with
      | futex => rfl
      | recv => exact (HashMap.lookup_insert_eq _ _ _ _).trans (if_neg distinct)
      | read => rfl
  | read id =>
      simp only [enterHook, Waits.onVfsRead]
      split
      · rfl
      · cases kind with
        | futex => rfl
        | recv => rfl
        | read =>
            exact (HashMap.lookup_insert_eq _ _ _ _).trans (if_neg distinct)

theorem entry_exitHook (w : Waits) (tid other : Nat)
    (exited kind : CallKind) :
    entry (exitHook w tid exited) other kind =
      if other = tid ∧ kind = exited then none else entry w other kind := by
  by_cases same : kind = exited
  · subst same
    simp only [and_true]
    cases kind with
    | futex => exact HashMap.lookup_erase_eq _ _ _
    | recv => exact HashMap.lookup_erase_eq _ _ _
    | read => exact HashMap.lookup_erase_eq _ _ _
  · rw [if_neg (fun both => same both.2)]
    cases kind with
    | futex =>
        cases exited with
        | futex => exact absurd rfl same
        | recv => rfl
        | read => rfl
    | recv =>
        cases exited with
        | futex => rfl
        | recv => exact absurd rfl same
        | read => rfl
    | read =>
        cases exited with
        | futex => rfl
        | recv => rfl
        | read => exact absurd rfl same

theorem blockId_entry (w : Waits) (tid : Nat) :
    w.blockId tid = 0 ∨ ∃ kind, entry w tid kind = some (w.blockId tid) := by
  unfold Waits.blockId
  cases futex : w.futexWait.lookup tid with
  | some uaddr => exact .inr ⟨.futex, futex⟩
  | none =>
      cases peer : w.netPeer.lookup tid with
      | some address => exact .inr ⟨.recv, peer⟩
      | none =>
          cases file : w.diskFile.lookup tid with
          | some tag => exact .inr ⟨.read, file⟩
          | none => exact .inl rfl

theorem enterHook_offcpu (w : Waits) (tid : Nat) (call : Call) :
    (enterHook w tid call).offcpu = w.offcpu := by
  cases call with
  | futex uaddr => rfl
  | recv peer => rfl
  | read id =>
      unfold enterHook Waits.onVfsRead
      dsimp only
      split
      · rfl
      · rfl

theorem exitHook_offcpu (w : Waits) (tid : Nat) (kind : CallKind) :
    (exitHook w tid kind).offcpu = w.offcpu := by
  cases kind <;> rfl

theorem setThread_self (s : State) (thread : Nat) (value : Thread) :
    (s.setThread thread value).threads thread = value :=
  Function.update_self _ _ _

theorem setThread_of_ne {thread other : Nat} (distinct : other ≠ thread)
    (s : State) (value : Thread) :
    (s.setThread thread value).threads other = s.threads other :=
  Function.update_of_ne distinct _ _

/-! ### The invariant -/

structure Records (state : BlockState) (block : Block) : Prop where
  startNs : state.startNs = block.outTime
  nrFrames : state.nrFrames = min block.ustack.length maxStack
  ustack : state.ustack = block.ustack
  kids : state.kids = block.kids.take maxKernelStack
  identity : state.blockId = 0 ∨
    ∃ call ∈ block.inside, state.blockId = call.identity

/-- The maps hold nothing under the thread's id but what it left there. -/
structure Tracked (w : Waits) (t : Thread) : Prop where
  entries : ∀ kind value, entry w t.tid kind = some value →
    ∃ call ∈ t.inside, call.kind = kind ∧ call.identity = value
  block : ∀ state, w.offcpu.lookup t.tid = some state →
    ∃ block, t.block = some block ∧ Records state block

def Thread.Live (t : Thread) : Prop :=
  t.status = .ready ∨ t.status = .running

structure Paired (tgt now : Nat) (s : State) : Prop where
  listed : ∀ thread, (s.threads thread).Live →
    s.pids.lookup (s.threads thread).tid = some thread
  tracked : ∀ thread, (s.threads thread).Live →
    targeted tgt (s.threads thread) = true → (s.threads thread).ran = true →
    Tracked s.waits (s.threads thread)
  running : ∀ thread, (s.threads thread).status = .running →
    (s.threads thread).ran = true ∧ (s.threads thread).block = none
  times : ∀ thread block, (s.threads thread).block = some block →
    block.outTime ≤ now
  shown : SamplesArePairs s

def Untouched (w : Waits) (tid : Nat) : Prop :=
  (∀ kind, entry w tid kind = none) ∧ w.offcpu.lookup tid = none

/-- No thread of the target is preempted with its state set to sleep, and each
starts without entries under its id. -/
def Undisturbed (tgt : Nat) (s : State) : Event → Prop
  | .switch _ prev next _ _ _ _ _ =>
      (∀ thread, prev = some (thread, .preemptedAsleep) →
        targeted tgt (s.threads thread) = false) ∧
      ∀ thread, next = some thread →
        targeted tgt (s.threads thread) = true →
        (s.threads thread).ran = false →
        Untouched s.waits (s.threads thread).tid
  | _ => True

namespace Paired

variable {tgt now : Nat} {s next : State}

theorem empty (tgt now : Nat) : Paired tgt now {} where
  listed thread live := by
    rcases live with ready | running
    · cases ready
    · cases running
  tracked thread live := by
    rcases live with ready | running
    · cases ready
    · cases running
  running thread running := by cases running
  times thread block found := by cases found
  shown := ⟨[], .slnil, .nil⟩

theorem later (paired : Paired tgt now s) {then_ : Nat} (le : now ≤ then_) :
    Paired tgt then_ s :=
  { paired with
    times := fun thread block found =>
      (paired.times thread block found).trans le }

theorem eq_of_tid (paired : Paired tgt now s) {thread other : Nat}
    (live : (s.threads thread).Live) (otherLive : (s.threads other).Live)
    (same : (s.threads thread).tid = (s.threads other).tid) :
    thread = other := by
  have found := paired.listed thread live
  rw [same, paired.listed other otherLive] at found
  exact (Option.some.inj found).symm

/-- Entries may fall out of the maps at any time. -/
theorem forget (paired : Paired tgt now s) (waits : Waits)
    (entries : ∀ tid kind value, entry waits tid kind = some value →
      entry s.waits tid kind = some value)
    (blocks : ∀ tid state, waits.offcpu.lookup tid = some state →
      s.waits.offcpu.lookup tid = some state) :
    Paired tgt now { s with waits := waits } :=
  { paired with
    tracked := fun thread live target ran =>
      have old := paired.tracked thread live target ran
      ⟨fun kind value found => old.entries kind value (entries _ _ _ found),
        fun state found => old.block state (blocks _ _ found)⟩ }

/-- One thread moves, and what changes in the maps is under its id. -/
theorem move (paired : Paired tgt now s) {thread : Nat} {moved : Thread}
    {waits : Waits} {pids : HashMap Nat Nat}
    (apart : ∀ other, other ≠ thread → (s.threads other).Live →
      (s.threads other).tid ≠ moved.tid)
    (pidsApart : ∀ tid, tid ≠ moved.tid → pids.lookup tid = s.pids.lookup tid)
    (entriesApart : ∀ tid, tid ≠ moved.tid → ∀ kind,
      entry waits tid kind = entry s.waits tid kind)
    (blocksApart : ∀ tid, tid ≠ moved.tid →
      waits.offcpu.lookup tid = s.waits.offcpu.lookup tid)
    (listed : moved.Live → pids.lookup moved.tid = some thread)
    (tracked : moved.Live → targeted tgt moved = true → moved.ran = true →
      Tracked waits moved)
    (running : moved.status = .running → moved.ran = true ∧ moved.block = none)
    (times : ∀ block, moved.block = some block → block.outTime ≤ now) :
    Paired tgt now
      ({ s with waits := waits, pids := pids }.setThread thread moved) where
  listed other := by
    by_cases same : other = thread
    · subst same
      rw [setThread_self]
      exact listed
    · rw [setThread_of_ne same]
      intro live
      exact (pidsApart _ (apart other same live)).trans
        (paired.listed other live)
  tracked other := by
    by_cases same : other = thread
    · subst same
      rw [setThread_self]
      exact tracked
    · rw [setThread_of_ne same]
      intro live target ran
      have old := paired.tracked other live target ran
      have elsewhere := apart other same live
      exact
        ⟨fun kind value found => old.entries kind value
            ((entriesApart _ elsewhere kind).symm.trans found),
          fun state found => old.block state
            ((blocksApart _ elsewhere).symm.trans found)⟩
  running other := by
    by_cases same : other = thread
    · subst same
      rw [setThread_self]
      exact running
    · rw [setThread_of_ne same]
      exact paired.running other
  times other := by
    by_cases same : other = thread
    · subst same
      rw [setThread_self]
      exact times
    · rw [setThread_of_ne same]
      exact paired.times other
  shown := paired.shown

theorem spawn (paired : Paired tgt now s) {thread tid tgid : Nat}
    (stepped : spawn s thread tid tgid = some next) :
    Paired tgt now next := by
  unfold Offcpu.spawn at stepped
  split at stepped
  · next free =>
      cases stepped
      refine paired.move ?_ ?_ (fun _ _ _ => rfl) (fun _ _ => rfl) ?_ ?_ ?_ ?_
      · intro other _ live same
        have found := paired.listed other live
        rw [same, free.2] at found
        cases found
      · intro other distinct
        rw [HashMap.lookup_insert_eq, if_neg distinct]
      · intro _
        rw [HashMap.lookup_insert_eq, if_pos rfl]
      · intro _ _ ran
        cases ran
      · intro running
        cases running
      · intro block found
        cases found
  · cases stepped

theorem apart (paired : Paired tgt now s) {thread : Nat}
    (live : (s.threads thread).Live) (other : Nat) (distinct : other ≠ thread)
    (otherLive : (s.threads other).Live) :
    (s.threads other).tid ≠ (s.threads thread).tid :=
  fun same => distinct (paired.eq_of_tid otherLive live same)

theorem enter (paired : Paired tgt now s) {thread : Nat} {call : Call}
    (stepped : enter tgt s thread call = some next) : Paired tgt now next := by
  unfold Offcpu.enter at stepped
  dsimp only at stepped
  split at stepped
  · next running =>
      cases stepped
      have live : (s.threads thread).Live := .inr running
      refine paired.move (paired.apart live) (fun _ _ => rfl) ?_ ?_ ?_ ?_ ?_ ?_
      · intro other distinct kind
        split
        · exact entry_enterHook_of_ne distinct _ call kind
        · rfl
      · intro other _
        split
        · rw [enterHook_offcpu]
        · rfl
      · exact fun _ => paired.listed thread live
      · intro _ target ran
        have old := paired.tracked thread live target ran
        have hooked : targeted tgt (s.threads thread) = true := target
        rw [if_pos hooked]
        refine ⟨fun kind value found => ?_, fun state found => ?_⟩
        · rcases entry_enterHook found with before | ⟨-, kindEq, valueEq⟩
          · obtain ⟨inner, member, meaning⟩ := old.entries kind value before
            exact ⟨inner, List.mem_cons_of_mem _ member, meaning⟩
          · exact ⟨call, List.mem_cons_self, kindEq, valueEq⟩
        · rw [enterHook_offcpu] at found
          exact old.block state found
      · exact fun _ => paired.running thread running
      · exact paired.times thread
  · cases stepped

theorem exit (paired : Paired tgt now s) {thread : Nat}
    (stepped : exit tgt s thread = some next) : Paired tgt now next := by
  unfold Offcpu.exit at stepped
  dsimp only at stepped
  split at stepped
  · next call rest inside =>
      split at stepped
      · next running =>
          cases stepped
          have live : (s.threads thread).Live := .inr running
          refine paired.move (paired.apart live) (fun _ _ => rfl) ?_ ?_ ?_ ?_
            ?_ ?_
          · intro other distinct kind
            split
            · rw [entry_exitHook, if_neg (fun both => distinct both.1)]
            · rfl
          · intro other _
            split
            · rw [exitHook_offcpu]
            · rfl
          · exact fun _ => paired.listed thread live
          · intro _ target ran
            have old := paired.tracked thread live target ran
            have hooked : targeted tgt (s.threads thread) = true := target
            rw [if_pos hooked]
            refine ⟨fun kind value found => ?_, fun state found => ?_⟩
            · -- what the call itself left is erased
              rw [entry_exitHook] at found
              split at found
              · cases found
              · next kept =>
                  obtain ⟨inner, member, kindEq, valueEq⟩ :=
                    old.entries kind value found
                  rw [inside] at member
                  rcases List.mem_cons.mp member with rfl | outer
                  · exact absurd ⟨rfl, kindEq.symm⟩ kept
                  · exact ⟨inner, outer, kindEq, valueEq⟩
            · rw [exitHook_offcpu] at found
              exact old.block state found
          · exact fun _ => paired.running thread running
          · exact paired.times thread
      · cases stepped
  · cases stepped

end Paired

theorem entry_offcpuRecordBlock (w : Waits) (tid now other : Nat)
    (ustack : List StackBuildId) (kids : List Nat) (kind : CallKind) :
    entry (w.offcpuRecordBlock tid now ustack kids) other kind =
      entry w other kind := by
  cases kind <;> rfl

theorem offcpuRecordBlock_of_ne {tid other : Nat} (distinct : other ≠ tid)
    (w : Waits) (now : Nat) (ustack : List StackBuildId) (kids : List Nat) :
    (w.offcpuRecordBlock tid now ustack kids).offcpu.lookup other =
      w.offcpu.lookup other :=
  (HashMap.lookup_insert_eq _ _ _ _).trans (if_neg distinct)

theorem Tracked.record {w : Waits} {t : Thread} (tracked : Tracked w t)
    (outTime : Nat) (ustack : List StackBuildId) (kids : List Nat) :
    Tracked (w.offcpuRecordBlock t.tid outTime ustack kids)
      { t with
        status := .ready
        block := some ⟨outTime, ustack, kids, t.inside⟩ } where
  entries kind value found := by
    rw [entry_offcpuRecordBlock] at found
    exact tracked.entries kind value found
  block state found := by
    have found := (HashMap.lookup_insert_eq _ _ _ _).symm.trans found
    rw [if_pos rfl] at found
    cases found
    refine ⟨_, rfl, rfl, rfl, rfl, rfl, ?_⟩
    rcases blockId_entry w t.tid with unnamed | ⟨kind, named⟩
    · exact .inl unnamed
    · obtain ⟨call, member, -, identity⟩ := tracked.entries kind _ named
      exact .inr ⟨call, member, identity.symm⟩

namespace Paired

variable {tgt now : Nat} {s next : State}

theorem switchOut (paired : Paired tgt now s) {thread : Nat}
    {why : SwitchOut} {outTime : Nat} {ustack : List StackBuildId}
    {kids : List Nat} (le : now ≤ outTime)
    (awake : why = .preemptedAsleep →
      targeted tgt (s.threads thread) = false)
    (stepped : switchOut tgt s (some (thread, why)) outTime ustack kids =
      some next) : Paired tgt outTime next := by
  unfold Offcpu.switchOut at stepped
  dsimp only at stepped
  split at stepped
  · next running =>
      have paired := paired.later le
      have live : (s.threads thread).Live := .inr running
      have idle := paired.running thread running
      have entries : ∀ tid kind,
          entry (if targeted tgt (s.threads thread) = true ∧ why.notRunning
            then s.waits.offcpuRecordBlock (s.threads thread).tid outTime
              ustack kids
            else s.waits) tid kind = entry s.waits tid kind := by
        intro tid kind
        split
        · exact entry_offcpuRecordBlock ..
        · rfl
      have blocks : ∀ tid, tid ≠ (s.threads thread).tid →
          (if targeted tgt (s.threads thread) = true ∧ why.notRunning
            then s.waits.offcpuRecordBlock (s.threads thread).tid outTime
              ustack kids
            else s.waits).offcpu.lookup tid = s.waits.offcpu.lookup tid := by
        intro tid distinct
        split
        · exact offcpuRecordBlock_of_ne distinct ..
        · rfl
      cases why with
      | preempted =>
          cases stepped
          refine paired.move (paired.apart live) (fun _ _ => rfl)
            (fun tid _ => entries tid) blocks
            (fun _ => paired.listed thread live) ?_ (fun no => nomatch no)
            (paired.times thread)
          intro _ target ran
          have old := paired.tracked thread live target ran
          rw [if_neg (by simp [SwitchOut.notRunning])]
          exact ⟨old.entries, old.block⟩
      | preemptedAsleep =>
          cases stepped
          refine paired.move (paired.apart live) (fun _ _ => rfl)
            (fun tid _ => entries tid) blocks
            (fun _ => paired.listed thread live) ?_ (fun no => nomatch no)
            (paired.times thread)
          intro _ target _
          have hooked : targeted tgt (s.threads thread) = true := target
          rw [awake rfl] at hooked
          cases hooked
      | blocks =>
          cases stepped
          refine paired.move (paired.apart live) (fun _ _ => rfl)
            (fun tid _ => entries tid) blocks
            (fun _ => paired.listed thread live) ?_ (fun no => nomatch no) ?_
          · intro _ target _
            have old := paired.tracked thread live target idle.1
            have hooked : targeted tgt (s.threads thread) = true := target
            rw [if_pos ⟨hooked, rfl⟩]
            exact old.record outTime ustack kids
          · intro block found
            cases found
            exact Nat.le_refl _
      | exits =>
          cases stepped
          refine paired.move (paired.apart live) ?_
            (fun tid _ => entries tid) blocks ?_ ?_ (fun no => nomatch no)
            (paired.times thread)
          · intro tid distinct
            rw [if_pos rfl, HashMap.lookup_erase_eq, if_neg distinct]
          · rintro (no | no)
            · cases no
            · cases no
          · rintro (no | no)
            · cases no
            · cases no
  · cases stepped

end Paired

/-! ### Switching in -/

theorem matches_offcpuRec {state : BlockState} {block : Block}
    {tid tgid cpu inTime : Nat} (records : Records state block)
    (before : block.outTime ≤ inTime) (fits : inTime < 2 ^ 64)
    (long : minOffcpuNs ≤ wrappingSub inTime state.startNs) :
    Matches (offcpuRec state tid tgid cpu inTime)
      ⟨tid, tgid, block, inTime⟩ := by
  have duration : wrappingSub inTime state.startNs =
      inTime - block.outTime := by
    have wrapped := wrappingSub_u64 before (by omega) (by omega)
    rw [u64_of_lt fits] at wrapped
    rw [records.startNs, wrapped]
  exact
    { tid := rfl
      pid := rfl
      ts := rfl
      duration := duration
      longEnough := long
      stack := by
        change state.ustack.take state.nrFrames = _
        rw [records.nrFrames, records.ustack, Nat.min_comm,
          ← List.take_eq_take_min]
      kernelIds := records.kids
      identity := records.identity }

theorem entry_clearBlock (w : Waits) (tid other : Nat) (kind : CallKind) :
    entry (w.clearBlock tid) other kind = entry w other kind := by
  cases kind <;> rfl

theorem clearBlock_lookup (w : Waits) (tid other : Nat) :
    (w.clearBlock tid).offcpu.lookup other =
      if other = tid then none else w.offcpu.lookup other :=
  HashMap.lookup_erase_eq _ _ _

/-- A pair that is shown by a sample, or by none. -/
theorem shown_snoc {samples : List SampleRec} {pairs : List Pair}
    {emitted : Option SampleRec} {pair : Option Pair}
    (shown : ∃ shown, List.Sublist shown pairs ∧
      List.Forall₂ Matches samples shown)
    (fits : ∀ rec, emitted = some rec →
      ∃ shownPair, pair = some shownPair ∧ Matches rec shownPair) :
    ∃ shown, List.Sublist shown (pairs ++ pair.toList) ∧
      List.Forall₂ Matches (samples ++ emitted.toList) shown := by
  obtain ⟨shown, sublist, matched⟩ := shown
  cases emitted with
  | none =>
      refine ⟨shown, sublist.trans (List.sublist_append_left _ _), ?_⟩
      rwa [Option.toList_none, List.append_nil]
  | some rec =>
      obtain ⟨shownPair, rfl, fit⟩ := fits rec rfl
      exact ⟨shown ++ [shownPair], sublist.append (.refl _),
        List.rel_append matched (.cons fit .nil)⟩

namespace Paired

variable {tgt now : Nat} {s next : State}

theorem switchIn (paired : Paired tgt now s) {thread cpu inTime : Nat}
    {room : Bool} (le : now ≤ inTime) (fits : inTime < 2 ^ 64)
    (clean : targeted tgt (s.threads thread) = true →
      (s.threads thread).ran = false →
      Untouched s.waits (s.threads thread).tid)
    (stepped : switchIn tgt s cpu (some thread) inTime room = some next) :
    Paired tgt inTime next := by
  unfold Offcpu.switchIn at stepped
  dsimp only at stepped
  split at stepped
  · next ready =>
      have paired := paired.later le
      have live : (s.threads thread).Live := .inl ready
      have running : ∀ waits,
          (targeted tgt (s.threads thread) = true →
            waits = s.waits.clearBlock (s.threads thread).tid) →
          (targeted tgt (s.threads thread) = false → waits = s.waits) →
          Paired tgt inTime ({ s with waits := waits }.setThread thread
            { s.threads thread with
              status := .running, ran := true, block := none }) := by
        intro waits hooked unhooked
        have entries : ∀ tid kind, entry waits tid kind =
            entry s.waits tid kind := by
          intro tid kind
          cases target : targeted tgt (s.threads thread) with
          | true => rw [hooked target, entry_clearBlock]
          | false => rw [unhooked target]
        refine paired.move (paired.apart live) (fun _ _ => rfl)
          (fun tid _ => entries tid) ?_ (fun _ => paired.listed thread live)
          ?_ (fun _ => ⟨rfl, rfl⟩) (fun _ none => nomatch none)
        · intro tid distinct
          cases target : targeted tgt (s.threads thread) with
          | true => rw [hooked target, clearBlock_lookup, if_neg distinct]
          | false => rw [unhooked target]
        · intro _ target _
          have target : targeted tgt (s.threads thread) = true := target
          refine ⟨fun kind value found => ?_, fun state found => ?_⟩
          · rw [entries] at found
            cases ran : (s.threads thread).ran with
            | true =>
                exact (paired.tracked thread live target ran).entries kind
                  value found
            | false =>
                rw [(clean target ran).1 kind] at found
                cases found
          · rw [hooked target, clearBlock_lookup, if_pos rfl] at found
            cases found
      split at stepped
      · next target =>
          cases stepped
          have moved := running _ (fun _ => rfl)
            (fun no => by rw [target] at no; cases no)
          refine { moved with shown := shown_snoc paired.shown ?_ }
          intro rec emitted
          split at emitted
          · obtain ⟨state, found, long, rfl⟩ := offcpuWake_cases emitted
            cases ran : (s.threads thread).ran with
            | true =>
                obtain ⟨block, blocked, records⟩ :=
                  (paired.tracked thread live target ran).block state found
                have before := paired.times thread block blocked
                rw [blocked]
                exact ⟨_, rfl, matches_offcpuRec records before fits long⟩
            | false =>
                have impossible := (clean target ran).2.symm.trans found
                cases impossible
          · cases emitted
      · next untargeted =>
          cases stepped
          have moved := running s.waits (fun yes => absurd yes untargeted)
            (fun _ => rfl)
          obtain ⟨shown, sublist, matched⟩ := paired.shown
          exact { moved with
            shown := ⟨shown, sublist.trans (List.sublist_append_left _ _),
              matched⟩ }
  · cases stepped

/-- The outgoing thread leaves all that is kept of another one. -/
theorem untouched_switchOut {prev : Option (Nat × SwitchOut)}
    (paired : Paired tgt now s) {thread outTime : Nat}
    {ustack : List StackBuildId} {kids : List Nat}
    (distinct : prev.map Prod.fst ≠ some thread)
    (stepped : Offcpu.switchOut tgt s prev outTime ustack kids = some next)
    (ready : (next.threads thread).status = .ready) :
    next.threads thread = s.threads thread ∧
      (Untouched s.waits (s.threads thread).tid →
        Untouched next.waits (s.threads thread).tid) := by
  cases prev with
  | none =>
      cases stepped
      exact ⟨rfl, fun untouched => untouched⟩
  | some move =>
      obtain ⟨other, why⟩ := move
      have distinct : thread ≠ other := fun same =>
        distinct (congrArg some same.symm)
      unfold Offcpu.switchOut at stepped
      dsimp only at stepped
      split at stepped
      · next running =>
          cases stepped
          rw [setThread_of_ne distinct] at ready ⊢
          refine ⟨rfl, fun untouched => ?_⟩
          have elsewhere := paired.apart (.inr running) thread distinct
            (.inl ready)
          change Untouched (if _ then _ else _) _
          split
          · refine ⟨fun kind => ?_, ?_⟩
            · rw [entry_offcpuRecordBlock]
              exact untouched.1 kind
            · exact (offcpuRecordBlock_of_ne elsewhere _ _ _ _).trans
                untouched.2
          · exact untouched
      · cases stepped

theorem onSchedSwitch (paired : Paired tgt s.clock s) {cpu : Nat}
    {prev : Option (Nat × SwitchOut)} {incoming : Option Nat}
    {outTime inTime : Nat} {ustack : List StackBuildId} {kids : List Nat}
    {room : Bool}
    (undisturbed : Undisturbed tgt s
      (.switch cpu prev incoming outTime inTime ustack kids room))
    (stepped : Offcpu.onSchedSwitch tgt s cpu prev incoming outTime inTime
      ustack kids room = some next) :
    Paired tgt next.clock next := by
  unfold Offcpu.onSchedSwitch at stepped
  split at stepped
  · next guard =>
      obtain ⟨clockLe, le, fits, distinct⟩ := guard
      simp only [Option.bind_eq_bind, Option.bind_eq_some_iff] at stepped
      obtain ⟨middle, out, final, in_, same⟩ := stepped
      cases same
      have middlePaired : Paired tgt outTime middle := by
        cases prev with
        | none =>
            cases out
            exact paired.later clockLe
        | some move =>
            obtain ⟨thread, why⟩ := move
            refine paired.switchOut clockLe (fun asleep => ?_) out
            exact undisturbed.1 thread (by rw [asleep])
      have finalPaired : Paired tgt inTime final := by
        cases incoming with
        | none =>
            cases in_
            exact middlePaired.later le
        | some thread =>
            refine middlePaired.switchIn le fits (fun target fresh => ?_) in_
            have ready : (middle.threads thread).status = .ready := by
              unfold Offcpu.switchIn at in_
              dsimp only at in_
              split at in_
              · assumption
              · cases in_
            obtain ⟨same, kept⟩ := paired.untouched_switchOut distinct out ready
            rw [same] at target fresh ⊢
            exact kept (undisturbed.2 thread rfl target fresh)
      exact { finalPaired with }
  · cases stepped

theorem step (paired : Paired tgt s.clock s) {event : Event}
    (undisturbed : Undisturbed tgt s event)
    (stepped : Offcpu.step tgt s event = some next) :
    Paired tgt next.clock next := by
  cases event with
  | spawn thread tid tgid =>
      have moved := paired.spawn stepped
      have clock : next.clock = s.clock := by
        simp only [Offcpu.step, Offcpu.spawn] at stepped
        split at stepped
        · cases stepped; rfl
        · cases stepped
      rwa [clock]
  | enter thread call =>
      have moved := paired.enter stepped
      have clock : next.clock = s.clock := by
        simp only [Offcpu.step, Offcpu.enter] at stepped
        split at stepped
        · cases stepped; rfl
        · cases stepped
      rwa [clock]
  | exit thread =>
      have moved := paired.exit stepped
      have clock : next.clock = s.clock := by
        simp only [Offcpu.step, Offcpu.exit] at stepped
        split at stepped
        · split at stepped
          · cases stepped; rfl
          · cases stepped
        · cases stepped
      rwa [clock]
  | evict tid kind =>
      cases stepped
      refine paired.forget _ (fun other otherKind value found => ?_)
        (fun other state found => ?_)
      · rw [entry_exitHook] at found
        split at found
        · cases found
        · exact found
      · rwa [exitHook_offcpu] at found
  | evictBlock tid =>
      cases stepped
      refine paired.forget _ (fun other kind value found => ?_)
        (fun other state found => ?_)
      · rwa [entry_clearBlock] at found
      · rw [clearBlock_lookup] at found
        split at found
        · cases found
        · exact found
  | switch cpu prev incoming outTime inTime ustack kids room =>
      exact paired.onSchedSwitch undisturbed stepped

end Paired

/-- In a run that nothing disturbs, each off-CPU sample shows a voluntary
switch-out and the thread's next switch-in, and no two show the same. -/
theorem offcpu_samples_are_pairs (tgt : Nat) (events : List Event)
    (final : State)
    (undisturbed : Machine.Along (step tgt) (Undisturbed tgt) {} events)
    (reached : Machine.run (step tgt) {} events = some final) :
    SamplesArePairs final := by
  have invariant : Paired tgt final.clock final :=
    Machine.run_invariant_along
      (fun s _ _ (paired : Paired tgt s.clock s) settled stepped =>
        paired.step settled stepped)
      (.empty tgt 0) undisturbed reached
  exact invariant.shown

/-- A thread of process 5 waits for a futex from time 100 to time 20200. -/
def futexRun : List Event :=
  [.spawn 1 7 5, .switch 0 none (some 1) 10 10 [] [] true,
    .enter 1 (.futex 4096),
    .switch 0 (some (1, .blocks)) none 100 150 [] [3] true,
    .switch 2 none (some 1) 20000 20200 [] [] true]

theorem offcpu_samples_are_pairs_futexRun :
    ∃ final, Machine.run (step 5) {} futexRun = some final ∧
      final.samples.length = 1 ∧ SamplesArePairs final := by
  refine ⟨_, rfl, rfl, offcpu_samples_are_pairs 5 futexRun _ ?_ rfl⟩
  refine Machine.along_cons trivial rfl ?_
  refine Machine.along_cons ⟨fun thread same => ?_, fun thread same _ _ => ?_⟩
    rfl ?_
  · cases same
  · cases same
    exact ⟨fun kind => by cases kind <;> rfl, rfl⟩
  refine Machine.along_cons trivial rfl ?_
  refine Machine.along_cons ⟨fun thread same => ?_, fun thread same => ?_⟩
    rfl ?_
  · cases same
  · cases same
  refine Machine.along_cons ⟨fun thread same => ?_, fun thread same _ ran => ?_⟩
    rfl trivial
  · cases same
  · cases same
    cases ran

theorem samples_le_pairs {s : State} (pairs : SamplesArePairs s) :
    s.samples.length ≤ s.pairs.length := by
  obtain ⟨shown, sublist, matched⟩ := pairs
  calc s.samples.length = shown.length := matched.length_eq
    _ ≤ s.pairs.length := sublist.length_le

/-- The block that the exit of thread 1 records is shown as one of thread 2,
which has got its id. -/
def reuseRun : List Event :=
  [.spawn 1 7 5, .switch 0 none (some 1) 10 10 [] [] true,
    .switch 0 (some (1, .exits)) none 100 150 [] [3] true,
    .spawn 2 7 5, .switch 2 none (some 2) 20000 20200 [] [] true]

theorem not_offcpu_samples_are_pairs_reuseRun :
    ∃ final, Machine.run (step 5) {} reuseRun = some final ∧
      ¬ SamplesArePairs final := by
  refine ⟨_, rfl, fun pairs => ?_⟩
  exact absurd (samples_le_pairs pairs) (by decide)

end Sismo.Sched.Offcpu
