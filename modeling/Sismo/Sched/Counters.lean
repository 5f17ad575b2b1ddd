import Mathlib.Data.List.Induction
import Mathlib.Logic.Function.Basic
import Sismo.Lib.Word

namespace Sismo.Sched

/-! The counters a tick reads and credits to the thread it interrupts. -/

def maxCounters : Nat := 12

structure Reading where
  counter : Nat := 0
  enabled : Nat := 0
  running : Nat := 0
  deriving DecidableEq, Repr

/-- The slots whose event opened, as user space collects them on CPU 0. -/
def activeSlots (opened : Nat → Nat → Bool) : List Nat :=
  (List.range maxCounters).filter (opened 0)

/-- What user space puts into `cfg[2]`. -/
def nslots (opened : Nat → Nat → Bool) : Nat :=
  (activeSlots opened).length

def counterSlots (cfg : Nat) : Nat :=
  min cfg maxCounters

/-- The growth of a count, scaled up when the event was off for a part of the
time, by at most 8. -/
def scaledDelta (last val : Reading) : Nat :=
  let dcount := wrappingSub val.counter last.counter
  let den := wrappingSub val.enabled last.enabled
  let drun := wrappingSub val.running last.running
  if 0 < drun ∧ drun < den then
    u64 (dcount * min den (u64 (drun * 8))) / drun
  else dcount

/-- A tick on a CPU: the thread it interrupts, whether it is the target's and
its storage is there, and what the parked events read. -/
structure CounterTick where
  cpu : Nat
  thread : Nat
  target : Bool
  storage : Bool
  readings : Nat → Option Reading

def CounterTick.credited (tick : CounterTick) : Bool :=
  tick.target && tick.storage

/-- A slot without a parked event reads back an error. -/
def CounterTick.reading (opened : Nat → Nat → Bool) (tick : CounterTick)
    (slot : Nat) : Option Reading :=
  if opened tick.cpu slot then tick.readings slot else none

/-- The last readings by CPU and slot, and the counters of each thread; a value
that was never written is `none`. -/
structure Counters where
  last : Nat → Nat → Reading := fun _ _ => {}
  threads : Nat → Nat → Option Nat := fun _ _ => some 0

structure Scratch where
  dc : Nat → Option Nat
  last : Nat → Reading

def readSlot (reading : Nat → Option Reading) (scratch : Scratch)
    (slot : Nat) : Scratch :=
  match reading slot with
  | none => { scratch with dc := Function.update scratch.dc slot (some 0) }
  | some val =>
      { dc := Function.update scratch.dc slot
          (some (scaledDelta (scratch.last slot) val))
        last := Function.update scratch.last slot val }

/-- The slots are read by index, up to the number of live ones. -/
def readAdvance (cfg : Nat) (reading : Nat → Option Reading)
    (last : Nat → Reading) : Scratch :=
  (List.range (counterSlots cfg)).foldl (readSlot reading)
    { dc := fun _ => none, last := last }

def credit (values dc : Nat → Option Nat) (slot : Nat) : Option Nat :=
  if slot < maxCounters then
    match values slot, dc slot with
    | some value, some delta => some (u64 (value + delta))
    | _, _ => none
  else values slot

variable (opened : Nat → Nat → Bool)

def onTick (c : Counters) (tick : CounterTick) : Counters :=
  let scratch := readAdvance (nslots opened) (tick.reading opened)
    (c.last tick.cpu)
  let last := Function.update c.last tick.cpu scratch.last
  if tick.credited then
    { last := last
      threads := Function.update c.threads tick.thread
        (credit (c.threads tick.thread) scratch.dc) }
  else { c with last := last }

/-! ### What is claimed of the counters -/

/-- The reading before, newest tick first. -/
def lastReading (cpu slot : Nat) : List CounterTick → Reading
  | [] => {}
  | tick :: earlier =>
      if tick.cpu = cpu then
        (tick.reading opened slot).getD (lastReading cpu slot earlier)
      else lastReading cpu slot earlier

/-- The growth of a slot over the credited ticks of a thread, newest first. -/
def grown (thread slot : Nat) : List CounterTick → Nat
  | [] => 0
  | tick :: earlier =>
      if tick.credited ∧ tick.thread = thread then
        match tick.reading opened slot with
        | none => grown thread slot earlier
        | some val =>
            u64 (grown thread slot earlier +
              scaledDelta (lastReading opened tick.cpu slot earlier) val)
      else grown thread slot earlier

/-- Each opened slot has grown by its deltas, and no other slot has. -/
def CreditsExactly (ticks : List CounterTick) : Prop :=
  ∀ thread slot, slot < maxCounters →
    (ticks.foldl (onTick opened) {}).threads thread slot =
      some (if opened 0 slot then grown opened thread slot ticks.reverse
        else 0)

/-! ### Reading the slots -/

section

variable {opened : Nat → Nat → Bool} {reading : Nat → Option Reading}
variable {last : Nat → Reading}

theorem readSlots_eq (count slot : Nat) :
    ((List.range count).foldl (readSlot reading)
      { dc := fun _ => none, last := last }).dc slot =
        (if slot < count then
          some (match reading slot with
            | none => 0
            | some val => scaledDelta (last slot) val)
        else none) ∧
    ((List.range count).foldl (readSlot reading)
      { dc := fun _ => none, last := last }).last slot =
        if slot < count then (reading slot).getD (last slot)
        else last slot := by
  induction count with
  | zero => exact ⟨rfl, rfl⟩
  | succ count induction =>
      rw [List.range_succ, List.foldl_append, List.foldl_cons, List.foldl_nil]
      generalize earlier : (List.range count).foldl (readSlot reading)
        { dc := fun _ => none, last := last } = scratch at induction ⊢
      obtain ⟨dcEq, lastEq⟩ := induction
      unfold readSlot
      by_cases same : slot = count
      · subst same
        rw [if_neg (Nat.lt_irrefl slot)] at dcEq lastEq
        rw [if_pos (Nat.lt_succ_self slot), if_pos (Nat.lt_succ_self slot)]
        cases read : reading slot with
        | none =>
            exact ⟨Function.update_self _ _ _, lastEq⟩
        | some val =>
            simp only [Function.update_self, lastEq, Option.getD_some,
              and_self]
      · have kept : slot < count + 1 ↔ slot < count := by omega
        simp only [kept]
        cases reading count with
        | none =>
            simp only [Function.update_of_ne same]
            exact ⟨dcEq, lastEq⟩
        | some val =>
            simp only [Function.update_of_ne same]
            exact ⟨dcEq, lastEq⟩

end

section

variable {opened : Nat → Nat → Bool}

theorem nslots_le : nslots opened ≤ maxCounters := by
  have le := List.length_filter_le (opened 0) (List.range maxCounters)
  rwa [List.length_range] at le

theorem counterSlots_nslots : counterSlots (nslots opened) = nslots opened :=
  Nat.min_eq_left nslots_le

/-- All slots are live only when each one opened. -/
theorem nslots_eq_iff :
    nslots opened = maxCounters ↔
      ∀ slot < maxCounters, opened 0 slot = true := by
  have filtered := List.length_filter_eq_length_iff
    (p := opened 0) (l := List.range maxCounters)
  rw [List.length_range] at filtered
  unfold nslots activeSlots
  rw [filtered]
  simp only [List.mem_range]

theorem onTick_last (c : Counters) (tick : CounterTick) :
    (onTick opened c tick).last = Function.update c.last tick.cpu
      (readAdvance (nslots opened) (tick.reading opened)
        (c.last tick.cpu)).last := by
  unfold onTick
  dsimp only
  split
  · rfl
  · rfl

theorem onTick_threads (c : Counters) (tick : CounterTick) :
    (onTick opened c tick).threads =
      if tick.credited then
        Function.update c.threads tick.thread (credit (c.threads tick.thread)
          (readAdvance (nslots opened) (tick.reading opened)
            (c.last tick.cpu)).dc)
      else c.threads := by
  unfold onTick
  dsimp only
  split
  · rfl
  · rfl

theorem last_eq_lastReading (ticks : List CounterTick) (cpu : Nat)
    {slot : Nat} (live : slot < nslots opened) :
    (ticks.foldl (onTick opened) {}).last cpu slot =
      lastReading opened cpu slot ticks.reverse := by
  induction ticks using List.reverseRecOn with
  | nil => rfl
  | append_singleton earlier tick induction =>
      rw [List.foldl_append, List.foldl_cons, List.foldl_nil,
        List.reverse_append, List.reverse_singleton,
        List.singleton_append, lastReading, onTick_last, Function.update_apply]
      by_cases same : cpu = tick.cpu
      · subst same
        rw [if_pos rfl, if_pos rfl, readAdvance, counterSlots_nslots,
          (readSlots_eq _ _).2, if_pos live, induction]
      · rw [if_neg same, if_neg (fun eq => same eq.symm), induction]

end

/-! ### When the credit is exact -/

section

variable {opened : Nat → Nat → Bool}

theorem threads_eq_of_uncredited {ticks : List CounterTick}
    (uncredited : ∀ tick ∈ ticks, tick.credited = false) :
    (ticks.foldl (onTick opened) {}).threads = fun _ _ => some 0 := by
  induction ticks using List.reverseRecOn with
  | nil => rfl
  | append_singleton earlier tick induction =>
      rw [List.foldl_append, List.foldl_cons, List.foldl_nil, onTick_threads,
        uncredited tick (by simp), if_neg (by simp)]
      exact induction fun other member =>
        uncredited other (List.mem_append_left _ member)

theorem grown_of_uncredited {ticks : List CounterTick}
    (uncredited : ∀ tick ∈ ticks, tick.credited = false) (thread slot : Nat) :
    grown opened thread slot ticks = 0 := by
  induction ticks with
  | nil => rfl
  | cons tick earlier induction =>
      rw [grown, if_neg]
      · exact induction fun other member =>
          uncredited other (List.mem_cons_of_mem _ member)
      · intro credited
        rw [uncredited tick List.mem_cons_self] at credited
        exact Bool.false_ne_true credited.1

theorem grown_lt (opened : Nat → Nat → Bool) (thread slot : Nat)
    (ticks : List CounterTick) : grown opened thread slot ticks < 2 ^ 64 := by
  induction ticks with
  | nil => exact Nat.two_pow_pos 64
  | cons tick earlier induction =>
      unfold grown
      split
      · split
        · exact induction
        · exact u64_lt _
      · exact induction

theorem threads_eq_grown (live : nslots opened = maxCounters)
    (ticks : List CounterTick) (thread : Nat) {slot : Nat}
    (inside : slot < maxCounters) :
    (ticks.foldl (onTick opened) {}).threads thread slot =
      some (grown opened thread slot ticks.reverse) := by
  induction ticks using List.reverseRecOn with
  | nil => rfl
  | append_singleton earlier tick induction =>
      rw [List.foldl_append, List.foldl_cons, List.foldl_nil,
        List.reverse_append, List.reverse_singleton,
        List.singleton_append, grown, onTick_threads]
      by_cases credited : tick.credited = true
      · by_cases same : tick.thread = thread
        · subst same
          have last := last_eq_lastReading earlier tick.cpu (live ▸ inside)
          rw [if_pos credited, if_pos ⟨credited, rfl⟩, Function.update_self,
            credit, if_pos inside, induction, readAdvance,
            counterSlots_nslots, (readSlots_eq _ _).1,
            if_pos (live ▸ inside), last]
          have fits := grown_lt opened tick.thread slot earlier.reverse
          cases tick.reading opened slot with
          | none => exact congrArg some (u64_of_lt fits)
          | some val => rfl
        · rw [if_pos credited, if_neg (fun both => same both.2),
            Function.update_of_ne (fun eq => same eq.symm), induction]
      · rw [if_neg credited, if_neg (fun both => credited both.1), induction]

/-- A slot past the live ones holds no value once its thread is credited. -/
theorem threads_eq_none {slot : Nat} (dead : nslots opened ≤ slot)
    (inside : slot < maxCounters) {ticks : List CounterTick}
    {tick : CounterTick} (member : tick ∈ ticks)
    (credited : tick.credited = true) :
    (ticks.foldl (onTick opened) {}).threads tick.thread slot = none := by
  induction ticks using List.reverseRecOn with
  | nil => cases member
  | append_singleton earlier newest induction =>
      rw [List.foldl_append, List.foldl_cons, List.foldl_nil, onTick_threads]
      have unwritten : ∀ last, (readAdvance (nslots opened)
          (newest.reading opened) last).dc slot = none := by
        intro last
        rw [readAdvance, counterSlots_nslots, (readSlots_eq _ _).1,
          if_neg (Nat.not_lt.mpr dead)]
      rcases List.mem_append.mp member with old | new
      · split
        · rw [Function.update_apply]
          split
          · rw [credit, if_pos inside, unwritten]
            split
            · next wrong => cases wrong
            · rfl
          · exact induction old
        · exact induction old
      · cases List.mem_singleton.mp new
        rw [if_pos credited, Function.update_self, credit, if_pos inside,
          unwritten]
        split
        · next wrong => cases wrong
        · rfl

/-- The counters grow by exactly the deltas of the opened slots when all slots
opened, or when no tick is credited. -/
theorem creditsExactly_iff (opened : Nat → Nat → Bool)
    (ticks : List CounterTick) :
    CreditsExactly opened ticks ↔
      (∀ slot < maxCounters, opened 0 slot = true) ∨
        ∀ tick ∈ ticks, tick.credited = false := by
  constructor
  · intro exactly
    by_contra neither
    rw [not_or] at neither
    obtain ⟨someClosed, someCredited⟩ := neither
    rw [← nslots_eq_iff] at someClosed
    have dead : nslots opened ≤ 11 := by
      have le := @nslots_le opened
      rw [maxCounters] at le someClosed
      omega
    apply someCredited
    intro tick member
    by_contra credited
    have none := threads_eq_none dead (by decide) member
      (by simpa using credited)
    rw [exactly tick.thread 11 (by decide)] at none
    cases none
  · rintro (all | uncredited)
    · intro thread slot inside
      rw [threads_eq_grown (nslots_eq_iff.mpr all) ticks thread inside,
        all slot inside, if_pos rfl]
    · intro thread slot _
      rw [threads_eq_of_uncredited uncredited, grown_of_uncredited]
      · simp
      · exact fun tick member => uncredited tick (List.mem_reverse.mp member)

/-- Slots 0 and 2 opened, the event of slot 1 failed to open, and the target's
thread 7 is sampled once. -/
def gapOpened (_cpu slot : Nat) : Bool :=
  slot = 0 ∨ slot = 2

def gapTick : CounterTick where
  cpu := 0
  thread := 7
  target := true
  storage := true
  readings slot := some ⟨100 + slot, 10, 10⟩

/-- Slot 2 is not counted: its index is past the number of live slots. -/
theorem not_creditsExactly_gap : ¬ CreditsExactly gapOpened [gapTick] := by
  intro exactly
  have missed := exactly 7 2 (by decide)
  revert missed
  decide

end

end Sismo.Sched
