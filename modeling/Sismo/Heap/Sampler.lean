import Mathlib.Data.Set.Card
import Mathlib.Order.Interval.Finset.Nat
import Sismo.Lib.Word

namespace Sismo.Heap

/-! The allocation sampler against the byte stream it counts down. -/

/-- The results of `next_interval`, an i64 each. -/
structure Draws where
  draw : Nat → Nat
  pos : ∀ i, 1 ≤ draw i
  lt : ∀ i, draw i < 2 ^ 63

structure Sampler where
  samplingInterval : Nat
  intervalToNext : Int
  /-- Results of `next_interval` taken so far. -/
  drawn : Nat

def asI64 (n : Nat) : Int :=
  if n < 2 ^ 63 then n else (n : Int) - 2 ^ 64

namespace Draws

variable (draws : Draws)

def newSampler (interval : Nat) : Sampler where
  samplingInterval := interval
  intervalToNext := draws.draw 0
  drawn := 1

/-- The loop over crossings. A countdown at or below 0 plus an i64 does not
overflow. -/
def crossLoop (countdown : Int) (drawn numSamples : Nat) :
    Int × Nat × Nat :=
  if countdown ≤ 0 then
    crossLoop (countdown + draws.draw drawn) (drawn + 1) (numSamples + 1)
  else (countdown, drawn, numSamples)
termination_by (1 - countdown).toNat
decreasing_by
  have := draws.pos drawn
  omega

def sampleSize (s : Sampler) (allocSz : Nat) : Nat × Sampler :=
  if s.samplingInterval ≤ allocSz then (allocSz, s)
  else
    let crossed := draws.crossLoop (s.intervalToNext - asI64 allocSz) s.drawn 0
    (u64 (s.samplingInterval * crossed.2.2),
      { s with intervalToNext := crossed.1, drawn := crossed.2.1 })

def sampleAll (s : Sampler) : List Nat → List (Nat × Nat) × Sampler
  | [] => ([], s)
  | size :: rest =>
      let (reported, next) := draws.sampleSize s size
      let (others, last) := sampleAll next rest
      ((size, reported) :: others, last)

/-! The stream: where its prefix sums lie. -/

def prefixSum : Nat → Nat
  | 0 => 0
  | n + 1 => prefixSum n + draws.draw n

/-- Number of nonempty prefix sums of the draws that are at most the total. -/
noncomputable def crossings (total : Nat) : Nat :=
  {n : Nat | 0 < n ∧ draws.prefixSum n ≤ total}.ncard

variable {draws} {total n m : Nat}

theorem prefixSum_succ (draws : Draws) (n : Nat) :
    draws.prefixSum (n + 1) = draws.prefixSum n + draws.draw n := rfl

theorem prefixSum_strictMono : StrictMono draws.prefixSum := by
  apply strictMono_nat_of_lt_succ
  intro n
  have := draws.pos n
  rw [prefixSum_succ]
  omega

theorem crossings_eq (reached : draws.prefixSum n ≤ total)
    (next : total < draws.prefixSum (n + 1)) : draws.crossings total = n := by
  have crossed : {k : Nat | 0 < k ∧ draws.prefixSum k ≤ total} =
      Finset.Icc 1 n := by
    ext k
    simp only [Set.mem_ofPred_eq, Finset.coe_Icc, Set.mem_Icc]
    constructor
    · intro ⟨pos, le⟩
      have := prefixSum_strictMono.lt_iff_lt.mp (Nat.lt_of_le_of_lt le next)
      omega
    · intro ⟨pos, le⟩
      exact ⟨pos, (prefixSum_strictMono.monotone le).trans reached⟩
  rw [crossings, crossed, Set.ncard_coe_finset, Nat.card_Icc,
    Nat.add_sub_cancel]

/-- From a countdown to the next prefix sum the loop goes on to the first prefix
sum past the total. -/
theorem crossLoop_eq (reached : draws.prefixSum n ≤ total)
    (numSamples : Nat) :
    ∃ m, n ≤ m ∧ draws.prefixSum m ≤ total ∧
      total < draws.prefixSum (m + 1) ∧
      draws.crossLoop (draws.prefixSum (n + 1) - total) (n + 1) numSamples =
        ((draws.prefixSum (m + 1) : Int) - total, m + 1,
          numSamples + (m - n)) := by
  generalize away : total + 1 - n = fuel
  induction fuel generalizing n numSamples with
  | zero =>
      have := (@prefixSum_strictMono draws).le_apply (x := n)
      omega
  | succ fuel induction =>
      rw [crossLoop]
      split
      · next crossed =>
          obtain ⟨m, le, atMost, past, result⟩ :=
            @induction (n + 1) (by omega) (numSamples + 1) (by omega)
          refine ⟨m, by omega, atMost, past, ?_⟩
          have countdown : (draws.prefixSum (n + 1) : Int) - total +
              draws.draw (n + 1) = draws.prefixSum (n + 1 + 1) - total := by
            rw [prefixSum_succ draws (n + 1)]
            omega
          have count : numSamples + 1 + (m - (n + 1)) =
              numSamples + (m - n) := by omega
          rw [countdown, result, count]
      · next past =>
          have none : numSamples + (n - n) = numSamples := by omega
          refine ⟨n, Nat.le_refl n, reached, by omega, ?_⟩
          rw [none]

theorem crossings_mono {other : Nat} (le : total ≤ other) :
    draws.crossings total ≤ draws.crossings other := by
  have none : ∀ total, draws.prefixSum 0 ≤ total := Nat.zero_le
  obtain ⟨n, _, atMost, past, _⟩ := crossLoop_eq (none total) 0
  obtain ⟨m, _, otherAtMost, otherPast, _⟩ := crossLoop_eq (none other) 0
  rw [crossings_eq atMost past, crossings_eq otherAtMost otherPast]
  have := prefixSum_strictMono.lt_iff_lt.mp
    ((atMost.trans le).trans_lt otherPast)
  omega

end Draws

/-- The sampler has counted the crossings of a stream of `total` bytes and
counts down to the next. -/
structure CountsDown (draws : Draws) (interval total : Nat) (s : Sampler) :
    Prop where
  interval_eq : s.samplingInterval = interval
  reached : draws.prefixSum (s.drawn - 1) ≤ total
  drawn_pos : 0 < s.drawn
  countdown : s.intervalToNext = draws.prefixSum s.drawn - total
  positive : 1 ≤ s.intervalToNext

namespace CountsDown

variable {draws : Draws} {interval total size : Nat} {s : Sampler}

theorem newSampler (draws : Draws) (interval : Nat) :
    CountsDown draws interval 0 (draws.newSampler interval) where
  interval_eq := rfl
  reached := Nat.le_refl 0
  drawn_pos := Nat.one_pos
  countdown := by
    simp [Draws.newSampler, Draws.prefixSum]
  positive := by
    have := draws.pos 0
    simp only [Draws.newSampler]
    omega

theorem crossings_eq (counts : CountsDown draws interval total s) :
    draws.crossings total = s.drawn - 1 := by
  have pos := counts.drawn_pos
  have countdown := counts.countdown
  have positive := counts.positive
  apply Draws.crossings_eq counts.reached
  rw [Nat.sub_add_cancel pos]
  omega

theorem large (counts : CountsDown draws interval total s)
    (large : interval ≤ size) : draws.sampleSize s size = (size, s) := by
  rw [Draws.sampleSize, counts.interval_eq, if_pos large]

theorem asI64_of_lt {n : Nat} (fits : n < 2 ^ 63) : asI64 n = n :=
  if_pos fits

theorem small (counts : CountsDown draws interval total s)
    (intervalLe : interval ≤ 2 ^ 63) (small : size < interval) :
    (draws.sampleSize s size).1 = u64 (interval *
        (draws.crossings (total + size) - draws.crossings total)) ∧
      CountsDown draws interval (total + size) (draws.sampleSize s size).2 := by
  have pos := counts.drawn_pos
  have reached : draws.prefixSum (s.drawn - 1) ≤ total + size :=
    counts.reached.trans (Nat.le_add_right _ _)
  obtain ⟨m, le, atMost, past, result⟩ := Draws.crossLoop_eq reached 0
  have countdown : s.intervalToNext - asI64 size =
      draws.prefixSum (s.drawn - 1 + 1) - ((total + size : Nat) : Int) := by
    rw [asI64_of_lt (by omega), counts.countdown, Nat.sub_add_cancel pos]
    omega
  rw [← countdown, Nat.sub_add_cancel pos] at result
  have sampled : draws.sampleSize s size =
      (u64 (interval * (0 + (m - (s.drawn - 1)))),
        { s with
          intervalToNext := draws.prefixSum (m + 1) - ((total + size : Nat) : Int)
          drawn := m + 1 }) := by
    rw [Draws.sampleSize, counts.interval_eq, if_neg (by omega)]
    simp only [result]
  rw [sampled, counts.crossings_eq, Draws.crossings_eq atMost past,
    Nat.zero_add]
  refine ⟨rfl, counts.interval_eq, atMost, Nat.succ_pos m, rfl, ?_⟩
  simp only
  omega

end CountsDown

def smallTotal (interval : Nat) : List Nat → Nat
  | [] => 0
  | size :: rest =>
      if size < interval then size + smallTotal interval rest
      else smallTotal interval rest

def smallReported (interval : Nat) : List (Nat × Nat) → Nat
  | [] => 0
  | (size, reported) :: rest =>
      if size < interval then reported + smallReported interval rest
      else smallReported interval rest

section

variable {draws : Draws} {interval total : Nat} {s : Sampler}

theorem CountsDown.sampleAll (intervalLe : interval ≤ 2 ^ 63)
    (counts : CountsDown draws interval total s) (sizes : List Nat) :
    CountsDown draws interval (total + smallTotal interval sizes)
      (draws.sampleAll s sizes).2 := by
  induction sizes generalizing total s with
  | nil => exact counts
  | cons size rest induction =>
      rw [smallTotal, Draws.sampleAll]
      split
      · next small =>
          rw [← Nat.add_assoc]
          exact induction (counts.small intervalLe small).2
      · next large =>
          rw [counts.large (Nat.not_lt.mp large)]
          exact induction counts

/-- As long as the sum fits a word, the crossings of the whole stream are
reported. -/
theorem CountsDown.smallReported_eq (intervalLe : interval ≤ 2 ^ 63)
    (counts : CountsDown draws interval total s) (sizes : List Nat)
    (fits : interval * draws.crossings (total + smallTotal interval sizes) <
      2 ^ 64) :
    smallReported interval (draws.sampleAll s sizes).1 =
      interval * (draws.crossings (total + smallTotal interval sizes) -
        draws.crossings total) := by
  induction sizes generalizing total s with
  | nil => simp [Draws.sampleAll, smallReported, smallTotal]
  | cons size rest induction =>
      rw [smallTotal] at fits ⊢
      rw [Draws.sampleAll, smallReported]
      split
      · next small =>
          rw [if_pos small, ← Nat.add_assoc] at fits
          rw [← Nat.add_assoc]
          obtain ⟨reported, next⟩ := counts.small intervalLe small
          have first : draws.crossings total ≤
              draws.crossings (total + size) :=
            Draws.crossings_mono (Nat.le_add_right _ _)
          have last : draws.crossings (total + size) ≤
              draws.crossings (total + size + smallTotal interval rest) :=
            Draws.crossings_mono (Nat.le_add_right _ _)
          have own : interval * (draws.crossings (total + size) -
              draws.crossings total) < 2 ^ 64 :=
            (Nat.mul_le_mul_left _ (by omega)).trans_lt fits
          rw [induction next fits, reported, u64_of_lt own, ← Nat.mul_add]
          congr 1
          omega
      · next large =>
          rw [if_neg large] at fits
          rw [counts.large (Nat.not_lt.mp large)]
          exact induction counts fits

/-- What the sampler reports and keeps after any allocations. -/
structure CountsCrossings (draws : Draws) (interval : Nat) (sizes : List Nat)
    (reports : List (Nat × Nat)) (s : Sampler) : Prop where
  positive : 1 ≤ s.intervalToNext
  large : ∀ size, interval ≤ size → draws.sampleSize s size = (size, s)
  small : ∀ size, size < interval → (draws.sampleSize s size).1 =
    u64 (interval * (draws.crossings (smallTotal interval sizes + size) -
      draws.crossings (smallTotal interval sizes)))
  counted : s.drawn = draws.crossings (smallTotal interval sizes) + 1
  reported : interval * draws.crossings (smallTotal interval sizes) < 2 ^ 64 →
    smallReported interval reports =
      interval * draws.crossings (smallTotal interval sizes)

/-- The sampler counts the crossings of the byte stream of its small
allocations, however it is cut. -/
theorem sampler_counts_crossings (draws : Draws) {interval : Nat}
    (intervalLe : interval ≤ 2 ^ 63) :
    (∀ sizes, CountsCrossings draws interval sizes
        (draws.sampleAll (draws.newSampler interval) sizes).1
        (draws.sampleAll (draws.newSampler interval) sizes).2) ∧
      ∀ sizes other,
        smallTotal interval sizes = smallTotal interval other →
        interval * draws.crossings (smallTotal interval sizes) < 2 ^ 63 →
        smallReported interval
            (draws.sampleAll (draws.newSampler interval) sizes).1 =
          smallReported interval
            (draws.sampleAll (draws.newSampler interval) other).1 := by
  have start := CountsDown.newSampler draws interval
  have none : draws.crossings 0 = 0 := by
    rw [start.crossings_eq]
    rfl
  have reported : ∀ sizes,
      interval * draws.crossings (smallTotal interval sizes) < 2 ^ 64 →
      smallReported interval
          (draws.sampleAll (draws.newSampler interval) sizes).1 =
        interval * draws.crossings (smallTotal interval sizes) := by
    intro sizes fits
    have sum := start.smallReported_eq intervalLe sizes
    rw [Nat.zero_add, none, Nat.sub_zero] at sum
    exact sum fits
  constructor
  · intro sizes
    have counts := start.sampleAll intervalLe sizes
    rw [Nat.zero_add] at counts
    exact
      { positive := counts.positive
        large := fun size large => counts.large large
        small := fun size small => (counts.small intervalLe small).1
        counted := by
          have := counts.drawn_pos
          rw [counts.crossings_eq]
          omega
        reported := reported sizes }
  · intro sizes other same fits
    have fits : interval * draws.crossings (smallTotal interval sizes) <
        2 ^ 64 := fits.trans (by decide)
    rw [reported sizes fits, reported other (same ▸ fits), same]

def steadyDraws : Draws where
  draw := fun _ => 100
  pos := fun _ => by decide
  lt := fun _ => by decide

theorem crossings_steadyDraws : steadyDraws.crossings 128 = 1 :=
  Draws.crossings_eq (show steadyDraws.prefixSum 1 ≤ 128 by decide)
    (by decide)

theorem sampler_counts_crossings_steady :
    CountsCrossings steadyDraws 4096 [64, 4096, 64]
        (steadyDraws.sampleAll (steadyDraws.newSampler 4096) [64, 4096, 64]).1
        (steadyDraws.sampleAll (steadyDraws.newSampler 4096)
          [64, 4096, 64]).2 ∧
      smallReported 4096 (steadyDraws.sampleAll (steadyDraws.newSampler 4096)
          [64, 4096, 64]).1 =
        smallReported 4096 (steadyDraws.sampleAll
          (steadyDraws.newSampler 4096) [128]).1 := by
  have counts := @sampler_counts_crossings steadyDraws 4096 (by decide)
  refine ⟨counts.1 _, counts.2 _ [128] rfl ?_⟩
  have total : smallTotal 4096 [64, 4096, 64] = 128 := rfl
  rw [total, crossings_steadyDraws]
  decide

end

end Sismo.Heap
