import Mathlib.Algebra.Order.Ring.Nat
import Mathlib.Data.Nat.Bitwise
import Sismo.Kdebug.SwitchPairs
import Sismo.Kdebug.ThreadView

namespace Sismo.Kdebug

/-! The typefilter: a bitmap of the classes and subclasses the kernel records
into the ring, the union of what the ring's consumers ask for. -/

def typefilterBitmapSize : Nat := 256 * 256 / 8

def setCsc (bitmap : List UInt8) (csc : Nat) : List UInt8 :=
  bitmap.modify (csc >>> 3) (· ||| (1 <<< UInt8.ofNat (csc &&& 7)))

def setRange (bitmap : List UInt8) (range : UInt16 × UInt16) : List UInt8 :=
  (List.range' range.1.toNat (range.2.toNat + 1 - range.1.toNat)).foldl setCsc
    bitmap

/-- The bitmap that `install_typefilter` hands to the kernel. -/
def installTypefilter (cscRanges : List (UInt16 × UInt16)) : List UInt8 :=
  cscRanges.foldl setRange (List.replicate typefilterBitmapSize 0)

def schedRanges : List (UInt16 × UInt16) := [(0x0140, 0x0140)]

def dbgPerfCscRange : UInt16 × UInt16 := (0x2500, 0x25ff)

/-- The ranges `RingHost::run` opens the ring with. -/
def cscRanges (sched wantOffcpu wantOncpu : Bool) : List (UInt16 × UInt16) :=
  (if sched then schedRanges else []) ++
    if wantOffcpu || wantOncpu then [dbgPerfCscRange] else []

def ringBitmap (sched wantOffcpu wantOncpu : Bool) : List UInt8 :=
  installTypefilter (cscRanges sched wantOffcpu wantOncpu)

def cscBit (bitmap : List UInt8) (csc : Nat) : Bool :=
  (bitmap.getD (csc / 8) 0).toNat.testBit (csc % 8)

def recorded (bitmap : List UInt8) (events : List KdEvent) : List KdEvent :=
  events.filter fun e => cscBit bitmap e.csc.toNat

theorem toNat_bit (offset : Nat) :
    ((1 : UInt8) <<< UInt8.ofNat (offset &&& 7)).toNat = 2 ^ (offset % 8) := by
  have low : offset &&& 7 = offset % 8 := Nat.and_two_pow_sub_one_eq_mod offset 3
  have small : offset % 8 < 8 := Nat.mod_lt _ (by decide)
  have fits : 2 ^ (offset % 8) < 256 :=
    Nat.pow_lt_pow_right (show 1 < 2 by decide) small
  have amount : (UInt8.ofNat (offset % 8)).toNat % 8 = offset % 8 := by
    rw [UInt8.toNat_ofNat']
    omega
  rw [low, UInt8.toNat_shiftLeft, amount, Nat.shiftLeft_eq]
  exact (congrArg (· % 256) (Nat.one_mul _)).trans (Nat.mod_eq_of_lt fits)

@[simp]
theorem length_setCsc (bitmap : List UInt8) (csc : Nat) :
    (setCsc bitmap csc).length = bitmap.length := by
  simp [setCsc]

theorem cscBit_setCsc {bitmap : List UInt8} {set csc : Nat}
    (inside : csc / 8 < bitmap.length) :
    cscBit (setCsc bitmap set) csc = (decide (set = csc) || cscBit bitmap csc) := by
  have shift : set >>> 3 = set / 8 := Nat.shiftRight_eq_div_pow set 3
  rw [cscBit, cscBit, setCsc, shift, List.getD_eq_getElem?_getD,
    List.getD_eq_getElem?_getD, List.getElem?_modify,
    List.getElem?_eq_getElem inside]
  by_cases byte : set / 8 = csc / 8
  · simp only [if_pos byte, Option.map_eq_map, Option.map_some,
      Option.getD_some, UInt8.toNat_or, toNat_bit, Nat.testBit_or,
      Nat.testBit_two_pow]
    have same : set % 8 = csc % 8 ↔ set = csc := by omega
    rw [decide_eq_decide.mpr same, Bool.or_comm]
  · have apart : set ≠ csc := fun same => byte (by rw [same])
    simp [byte, apart]

theorem length_foldl_setCsc (cscs : List Nat) (bitmap : List UInt8) :
    (cscs.foldl setCsc bitmap).length = bitmap.length := by
  induction cscs generalizing bitmap with
  | nil => rfl
  | cons csc rest induction =>
      rw [List.foldl_cons, induction, length_setCsc]

theorem cscBit_foldl_setCsc (cscs : List Nat) {bitmap : List UInt8} {csc : Nat}
    (inside : csc / 8 < bitmap.length) :
    cscBit (cscs.foldl setCsc bitmap) csc =
      (decide (csc ∈ cscs) || cscBit bitmap csc) := by
  induction cscs generalizing bitmap with
  | nil => simp
  | cons set rest induction =>
      rw [List.foldl_cons, induction (by simpa using inside),
        cscBit_setCsc inside]
      by_cases same : set = csc
      · simp [same]
      · simp [same, Ne.symm same]

def Within (csc : Nat) (range : UInt16 × UInt16) : Prop :=
  range.1.toNat ≤ csc ∧ csc ≤ range.2.toNat

theorem cscBit_setRange {bitmap : List UInt8} {csc : Nat}
    (inside : csc / 8 < bitmap.length) (range : UInt16 × UInt16) :
    cscBit (setRange bitmap range) csc = true ↔
      Within csc range ∨ cscBit bitmap csc = true := by
  rw [setRange, cscBit_foldl_setCsc _ inside, Bool.or_eq_true,
    decide_eq_true_eq, List.mem_range'_1, Within]
  refine or_congr_left ?_
  omega

theorem cscBit_foldl_setRange (ranges : List (UInt16 × UInt16))
    {bitmap : List UInt8} {csc : Nat} (inside : csc / 8 < bitmap.length) :
    cscBit (ranges.foldl setRange bitmap) csc = true ↔
      (∃ range ∈ ranges, Within csc range) ∨ cscBit bitmap csc = true := by
  induction ranges generalizing bitmap with
  | nil => simp
  | cons range rest induction =>
      have still : csc / 8 < (setRange bitmap range).length := by
        rwa [setRange, length_foldl_setCsc]
      rw [List.foldl_cons, induction still, cscBit_setRange inside, ← or_assoc]
      simp only [List.mem_cons, exists_eq_or_imp]
      exact or_congr_left or_comm

/-- The bitmap has the bits of its ranges, and no others. -/
theorem cscBit_installTypefilter (ranges : List (UInt16 × UInt16)) {csc : Nat}
    (fits : csc < 2 ^ 16) :
    cscBit (installTypefilter ranges) csc = true ↔
      ∃ range ∈ ranges, Within csc range := by
  have inside : csc / 8 <
      (List.replicate typefilterBitmapSize (0 : UInt8)).length := by
    rw [List.length_replicate, typefilterBitmapSize]
    omega
  have clear : cscBit (List.replicate typefilterBitmapSize 0) csc = false := by
    rw [cscBit, List.getD_replicate _ (by simpa using inside)]
    exact Nat.zero_testBit _
  rw [installTypefilter, cscBit_foldl_setRange ranges inside, clear]
  simp

/-! ### What the consumers see -/

theorem csc_lt (e : KdEvent) : e.csc.toNat < 2 ^ 16 := by
  rw [KdEvent.csc, UInt32.toNat_and]
  exact Nat.lt_of_le_of_lt Nat.and_le_right (by decide)

theorem csc_eq_div (e : KdEvent) : e.csc.toNat = e.debugid.toNat / 2 ^ 16 := by
  have low : (e.debugid >>> 16).toNat = e.debugid.toNat / 2 ^ 16 := by
    rw [UInt32.toNat_shiftRight, Nat.shiftRight_eq_div_pow]
    rfl
  have mask : ((0xffff : UInt32)).toNat = 2 ^ 16 - 1 := rfl
  rw [KdEvent.csc, UInt32.toNat_and, low, mask, Nat.and_two_pow_sub_one_eq_mod,
    Nat.mod_eq_of_lt]
  have := e.debugid.toNat_lt
  omega

theorem classOf_eq_div (e : KdEvent) :
    (classOf e.debugid).toNat = e.csc.toNat / 2 ^ 8 := by
  have low : (e.debugid >>> 24).toNat = e.debugid.toNat / 2 ^ 24 := by
    rw [UInt32.toNat_shiftRight, Nat.shiftRight_eq_div_pow]
    rfl
  have mask : ((0xff : UInt32)).toNat = 2 ^ 8 - 1 := rfl
  rw [csc_eq_div, classOf, UInt32.toNat_and, low, mask,
    Nat.and_two_pow_sub_one_eq_mod, Nat.mod_eq_of_lt]
  · omega
  · have := e.debugid.toNat_lt
    omega

theorem within_sched (e : KdEvent) :
    Within e.csc.toNat (0x0140, 0x0140) ↔ e.csc = schedCsc := by
  have value : schedCsc.toNat = 0x140 := rfl
  rw [← UInt32.toNat_inj, value]
  exact ⟨fun within => Nat.le_antisymm within.2 within.1,
    fun same => ⟨same.ge, same.le⟩⟩

theorem within_dbgPerf (e : KdEvent) :
    Within e.csc.toNat dbgPerfCscRange ↔ classOf e.debugid = dbgPerf := by
  have value : dbgPerf.toNat = 0x25 := rfl
  have low : dbgPerfCscRange.1.toNat = 0x2500 := rfl
  have high : dbgPerfCscRange.2.toNat = 0x25ff := rfl
  rw [← UInt32.toNat_inj, value, classOf_eq_div, Within, low, high]
  omega

theorem recorded_iff (sched wantOffcpu wantOncpu : Bool) (e : KdEvent) :
    cscBit (ringBitmap sched wantOffcpu wantOncpu) e.csc.toNat = true ↔
      (sched = true ∧ e.csc = schedCsc) ∨
        ((wantOffcpu || wantOncpu) = true ∧ classOf e.debugid = dbgPerf) := by
  rw [ringBitmap, cscBit_installTypefilter _ (csc_lt e), ← within_sched,
    ← within_dbgPerf, cscRanges, schedRanges]
  generalize (wantOffcpu || wantOncpu) = want
  cases sched <;> cases want <;> simp

theorem OffCpuConsumer.onDrain_filter (ticksToNs : UInt64 → UInt64)
    {keep : KdEvent → Bool}
    (perf : ∀ e, classOf e.debugid = dbgPerf → keep e = true)
    (consumer : OffCpuConsumer) (events : List KdEvent) :
    consumer.onDrain ticksToNs (events.filter keep) =
      consumer.onDrain ticksToNs events := by
  induction events generalizing consumer with
  | nil => rfl
  | cons e rest induction =>
      by_cases kept : keep e = true
      · rw [List.filter_cons_of_pos kept]
        simp only [onDrain, induction]
      · have foreign : classOf e.debugid ≠ dbgPerf := fun own =>
          kept (perf e own)
        rw [List.filter_cons_of_neg kept, induction]
        simp [onDrain, consumer.decode_foreign ticksToNs foreign, recycle]

theorem OnCpuConsumer.onDrain_filter {keep : KdEvent → Bool}
    (perf : ∀ e, classOf e.debugid = dbgPerf → keep e = true)
    (consumer : OnCpuConsumer) (events : List KdEvent) :
    consumer.onDrain (events.filter keep) = consumer.onDrain events := by
  induction events generalizing consumer with
  | nil => rfl
  | cons e rest induction =>
      by_cases kept : keep e = true
      · rw [List.filter_cons_of_pos kept]
        simp only [onDrain, induction]
      · have foreign : classOf e.debugid ≠ dbgPerf := fun own =>
          kept (perf e own)
        rw [List.filter_cons_of_neg kept, induction]
        simp [onDrain, consumer.decode_foreign foreign, recycle]

theorem emitBatch_keep (tb : Timebase) {keep : KdEvent → Bool}
    (own : ∀ e, e.csc = schedCsc → keep e = true) (pending : Pending)
    (events : List KdEvent) :
    emitBatch tb pending (events.filter keep) = emitBatch tb pending events := by
  rw [← emitBatch_filter pending (events.filter keep), List.filter_filter,
    ← emitBatch_filter pending events]
  congr 2
  funext e
  by_cases sched : e.csc = schedCsc
  · simp [sched, own e sched]
  · simp [sched]

variable (tb : Timebase) (ticksToNs : UInt64 → UInt64)

theorem onDrains_keep {keep : KdEvent → Bool}
    (own : ∀ e, e.csc = schedCsc → keep e = true) (consumer : SchedConsumer)
    (drains : List Drain) :
    onDrains tb consumer (drains.map fun drain =>
        { drain with events := drain.events.filter keep }) =
      onDrains tb consumer drains := by
  induction drains generalizing consumer with
  | nil => rfl
  | cons drain rest induction =>
      simp only [List.map_cons, onDrains, onDrain, emitBatch_keep tb own,
        induction]

/-- The kernel's filter records what the consumers of the ring read and nothing
else, and none of them can tell the ring from one with no filter. -/
theorem typefilter_transparent (sched wantOffcpu wantOncpu : Bool) :
    (∀ e events, e ∈ recorded (ringBitmap sched wantOffcpu wantOncpu) events ↔
      e ∈ events ∧ ((sched = true ∧ e.csc = schedCsc) ∨
        ((wantOffcpu || wantOncpu) = true ∧ classOf e.debugid = dbgPerf))) ∧
    (sched = true → ∀ consumer drains,
      onDrains tb consumer (drains.map fun drain =>
        { drain with
          events := recorded (ringBitmap sched wantOffcpu wantOncpu)
            drain.events }) =
        onDrains tb consumer drains) ∧
    (wantOffcpu = true → ∀ (consumer : OffCpuConsumer) events,
      consumer.onDrain ticksToNs (recorded
          (ringBitmap sched wantOffcpu wantOncpu) events) =
        consumer.onDrain ticksToNs events) ∧
    (wantOncpu = true → ∀ (consumer : OnCpuConsumer) events,
      consumer.onDrain (recorded
          (ringBitmap sched wantOffcpu wantOncpu) events) =
        consumer.onDrain events) := by
  have bit := recorded_iff sched wantOffcpu wantOncpu
  refine ⟨?_, ?_, ?_, ?_⟩
  · intro e events
    rw [recorded, List.mem_filter, bit]
  · intro on consumer drains
    exact onDrains_keep tb (fun e own => (bit e).mpr (.inl ⟨on, own⟩)) consumer
      drains
  · intro on consumer events
    exact consumer.onDrain_filter ticksToNs
      (fun e own => (bit e).mpr (.inr ⟨by simp [on], own⟩)) events
  · intro on consumer events
    exact consumer.onDrain_filter
      (fun e own => (bit e).mpr (.inr ⟨by simp [on], own⟩)) events

theorem one_ne_zero_word : (1 : UInt64) ≠ 0 := by decide

/-- A kperf record whose code is that of a switch, beside a switch. -/
def collidingEvents : List KdEvent :=
  [{ debugid := 0x25030000 }, { debugid := 0x01400000 }]

theorem typefilter_transparent_cpuOnly :
    OnCpuConsumer.onDrain {} (recorded (ringBitmap false false true)
        collidingEvents) =
      OnCpuConsumer.onDrain {} collidingEvents :=
  (typefilter_transparent ⟨1, 1, one_ne_zero_word⟩ id false false true).2.2.2 rfl {}
    collidingEvents

end Sismo.Kdebug
