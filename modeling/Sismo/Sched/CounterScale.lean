import Sismo.Sched.Counters

namespace Sismo.Sched

/-! The readings of one slot on one CPU, and the growth credited for them. -/

def slotStep (last : Reading) : Option Reading → Nat × Reading
  | none => (0, last)
  | some val => (scaledDelta last val, val)

theorem readAdvance_slotStep (cfg : Nat) (reading : Nat → Option Reading)
    (last : Nat → Reading) {slot : Nat} (live : slot < counterSlots cfg) :
    (readAdvance cfg reading last).dc slot =
        some (slotStep (last slot) (reading slot)).1 ∧
      (readAdvance cfg reading last).last slot =
        (slotStep (last slot) (reading slot)).2 := by
  unfold readAdvance
  rw [(readSlots_eq _ _).1, (readSlots_eq _ _).2, if_pos live, if_pos live]
  cases reading slot with
  | none => exact ⟨rfl, rfl⟩
  | some val => exact ⟨rfl, rfl⟩

def creditedDeltas (last : Reading) : List (Option Reading) → List Nat
  | [] => []
  | reading :: rest =>
      (slotStep last reading).1 ::
        creditedDeltas (slotStep last reading).2 rest

def tickDeltas (cfg slot : Nat) (last : Nat → Reading) :
    List (Nat → Option Reading) → List (Option Nat)
  | [] => []
  | reading :: rest =>
      (readAdvance cfg reading last).dc slot ::
        tickDeltas cfg slot (readAdvance cfg reading last).last rest

theorem tickDeltas_eq {cfg slot : Nat} (live : slot < counterSlots cfg)
    (last : Nat → Reading) (ticks : List (Nat → Option Reading)) :
    tickDeltas cfg slot last ticks =
      (creditedDeltas (last slot) (ticks.map (· slot))).map some := by
  induction ticks generalizing last with
  | nil => rfl
  | cons reading rest induction =>
      obtain ⟨delta, next⟩ := readAdvance_slotStep cfg reading last live
      rw [tickDeltas, delta, induction, next, List.map_cons, creditedDeltas,
        List.map_cons]

def finalReading (last : Reading) (readings : List (Option Reading)) :
    Reading :=
  readings.foldl (fun last reading => (slotStep last reading).2) last

/-- The interval of each tick, from the last reading that succeeded; a failed
read has none. -/
def intervals (last : Reading) :
    List (Option Reading) → List (Option (Reading × Reading))
  | [] => []
  | none :: rest => none :: intervals last rest
  | some val :: rest => some (last, val) :: intervals val rest

/-! ### What is claimed of the deltas -/

/-- 64-bit counts that do not go back. -/
structure Follows (last val : Reading) : Prop where
  counter : last.counter ≤ val.counter
  enabled : last.enabled ≤ val.enabled
  running : last.running ≤ val.running
  ran : val.running ≤ val.enabled
  counter_lt : val.counter < 2 ^ 64
  enabled_lt : val.enabled < 2 ^ 64

def Advancing (last : Reading) : List (Option Reading) → Prop
  | [] => True
  | none :: rest => Advancing last rest
  | some val :: rest => Follows last val ∧ Advancing val rest

/-- The estimate for the whole interval, without overflow. -/
def scaledExactly (raw den drun : Nat) : Nat :=
  if 0 < drun ∧ drun < den then raw * min den (drun * 8) / drun else raw

/-- The delta of an interval is raw unless the event was off for a part of it,
and then scaled by at most 8, with no overflow. -/
structure Scaled (last val : Reading) (delta : Nat) : Prop where
  raw : val.enabled - last.enabled ≤ val.running - last.running →
    delta = val.counter - last.counter
  low : val.counter - last.counter ≤ delta
  high : delta ≤ 8 * (val.counter - last.counter)
  whole : delta = scaledExactly (val.counter - last.counter)
    (val.enabled - last.enabled) (val.running - last.running)

/-- A failed read credits nothing. -/
def Credits (interval : Option (Reading × Reading)) (delta : Nat) : Prop :=
  match interval with
  | none => delta = 0
  | some (last, val) => Scaled last val delta

def rawDelta : Option (Reading × Reading) → Nat
  | none => 0
  | some (last, val) => wrappingSub val.counter last.counter

/-! ### When the product does not wrap -/

/-- The product of a scaled interval fits in 64 bits, and so does the cap, or
it makes no difference. -/
def ProductFits (last val : Reading) : Prop :=
  let raw := val.counter - last.counter
  let den := val.enabled - last.enabled
  let drun := val.running - last.running
  0 < drun → drun < den →
    raw * min den (u64 (drun * 8)) < 2 ^ 64 ∧
      (drun * 8 < 2 ^ 64 ∨
        raw * min den (u64 (drun * 8)) / drun = raw * den / drun)

section

variable {raw den drun : Nat}

theorem le_scaledExactly : raw ≤ scaledExactly raw den drun := by
  unfold scaledExactly
  split
  · next multiplexed =>
      rw [Nat.le_div_iff_mul_le multiplexed.1]
      apply Nat.mul_le_mul_left
      omega
  · exact Nat.le_refl raw

theorem scaledExactly_le : scaledExactly raw den drun ≤ 8 * raw := by
  unfold scaledExactly
  split
  · apply Nat.div_le_of_le_mul
    calc
      raw * min den (drun * 8) ≤ raw * (drun * 8) :=
        Nat.mul_le_mul_left raw (Nat.min_le_right _ _)
      _ = drun * (8 * raw) := by ring
  · omega

/-- A product that wraps loses at least one unit of the quotient. -/
theorem div_u64_lt {n : Nat} (positive : 0 < drun) (small : drun < 2 ^ 64)
    (wraps : 2 ^ 64 ≤ n) : u64 n / drun < n / drun := by
  have less : u64 n + drun ≤ n := by
    have split := Nat.div_add_mod n (2 ^ 64)
    have quotient : 1 ≤ n / 2 ^ 64 :=
      (Nat.one_le_div_iff (Nat.two_pow_pos 64)).mpr wraps
    unfold u64
    omega
  calc
    u64 n / drun < u64 n / drun + 1 := Nat.lt_succ_self _
    _ = (u64 n + drun) / drun := (Nat.add_div_right _ positive).symm
    _ ≤ n / drun := Nat.div_le_div_right less

variable (raw) in
theorem scaled_eq_iff (positive : 0 < drun) (multiplexed : drun < den)
    (fits : den < 2 ^ 64) :
    u64 (raw * min den (u64 (drun * 8))) / drun = scaledExactly raw den drun ↔
      raw * min den (u64 (drun * 8)) < 2 ^ 64 ∧
        (drun * 8 < 2 ^ 64 ∨
          raw * min den (u64 (drun * 8)) / drun = raw * den / drun) := by
  have small : drun < 2 ^ 64 := multiplexed.trans fits
  unfold scaledExactly
  rw [if_pos ⟨positive, multiplexed⟩]
  obtain cap | wrapped := Nat.lt_or_ge (drun * 8) (2 ^ 64)
  · rw [u64_of_lt cap]
    constructor
    · intro same
      refine ⟨?_, .inl cap⟩
      by_contra wraps
      have less := div_u64_lt positive small (Nat.not_lt.mp wraps)
      exact less.ne same
    · intro product
      rw [u64_of_lt product.1]
  · have uncapped : min den (drun * 8) = den := by omega
    rw [uncapped]
    constructor
    · intro same
      have product : raw * min den (u64 (drun * 8)) < 2 ^ 64 := by
        by_contra wraps
        have less := div_u64_lt positive small (Nat.not_lt.mp wraps)
        have le : raw * min den (u64 (drun * 8)) / drun ≤ raw * den / drun :=
          Nat.div_le_div_right
            (Nat.mul_le_mul_left raw (Nat.min_le_left _ _))
        omega
      rw [u64_of_lt product] at same
      exact ⟨product, .inr same⟩
    · intro product
      rw [u64_of_lt product.1]
      exact product.2.resolve_left (Nat.not_lt.mpr wrapped)

end

section

variable {last val : Reading}

theorem Follows.scaledDelta_eq (follows : Follows last val) :
    scaledDelta last val =
      if 0 < val.running - last.running ∧
          val.running - last.running < val.enabled - last.enabled then
        u64 ((val.counter - last.counter) *
          min (val.enabled - last.enabled)
            (u64 ((val.running - last.running) * 8))) /
          (val.running - last.running)
      else val.counter - last.counter := by
  have counter : wrappingSub val.counter last.counter =
      val.counter - last.counter := by
    have := follows.counter
    have := follows.counter_lt
    unfold wrappingSub u64
    omega
  have enabled : wrappingSub val.enabled last.enabled =
      val.enabled - last.enabled := by
    have := follows.enabled
    have := follows.enabled_lt
    unfold wrappingSub u64
    omega
  have running : wrappingSub val.running last.running =
      val.running - last.running := by
    have := follows.running
    have := follows.ran
    have := follows.enabled_lt
    unfold wrappingSub u64
    omega
  unfold scaledDelta
  dsimp only
  rw [counter, enabled, running]

theorem Follows.scaled_iff (follows : Follows last val) :
    Scaled last val (scaledDelta last val) ↔ ProductFits last val := by
  have fits : val.enabled - last.enabled < 2 ^ 64 := by
    have := follows.enabled_lt
    omega
  have bounds : scaledDelta last val = scaledExactly
      (val.counter - last.counter) (val.enabled - last.enabled)
      (val.running - last.running) → Scaled last val (scaledDelta last val) := by
    intro whole
    refine ⟨fun steady => ?_, ?_, ?_, whole⟩
    · rw [whole]
      exact if_neg (by omega)
    · rw [whole]
      exact le_scaledExactly
    · rw [whole]
      exact scaledExactly_le
  unfold ProductFits
  dsimp only
  by_cases multiplexed : 0 < val.running - last.running ∧
      val.running - last.running < val.enabled - last.enabled
  · have iff := scaled_eq_iff (val.counter - last.counter) multiplexed.1
      multiplexed.2 fits
    have delta := follows.scaledDelta_eq
    rw [if_pos multiplexed] at delta
    constructor
    · intro scaled _ _
      exact iff.mp (delta.symm.trans scaled.whole)
    · intro product
      exact bounds (delta.trans
        (iff.mpr (product multiplexed.1 multiplexed.2)))
  · constructor
    · intro _ positive less
      exact absurd ⟨positive, less⟩ multiplexed
    · intro _
      apply bounds
      rw [follows.scaledDelta_eq, if_neg multiplexed]
      exact (if_neg multiplexed).symm

end

/-! ### Sequences of ticks -/

section

variable {last : Reading} {readings : List (Option Reading)}

theorem credits_iff (advancing : Advancing last readings) :
    List.Forall₂ Credits (intervals last readings)
        (creditedDeltas last readings) ↔
      ∀ earlier later, some (earlier, later) ∈ intervals last readings →
        ProductFits earlier later := by
  induction readings generalizing last with
  | nil =>
      constructor
      · intro _ earlier later member
        cases member
      · intro _
        exact .nil
  | cons reading rest induction =>
      cases reading with
      | none =>
          have rest := induction (show Advancing last rest from advancing)
          unfold intervals creditedDeltas
          rw [List.forall₂_cons]
          constructor
          · intro credits earlier later member
            obtain impossible | member := List.mem_cons.mp member
            · cases impossible
            · exact rest.mp credits.2 earlier later member
          · intro fits
            exact ⟨rfl, rest.mpr fun earlier later member =>
              fits earlier later (List.mem_cons_of_mem _ member)⟩
      | some val =>
          obtain ⟨follows, advancing⟩ := advancing
          have rest := induction advancing
          unfold intervals creditedDeltas
          rw [List.forall₂_cons]
          constructor
          · intro credits earlier later member
            obtain first | member := List.mem_cons.mp member
            · cases first
              exact follows.scaled_iff.mp credits.1
            · exact rest.mp credits.2 earlier later member
          · intro fits
            refine ⟨follows.scaled_iff.mpr (fits last val List.mem_cons_self),
              rest.mpr fun earlier later member =>
                fits earlier later (List.mem_cons_of_mem _ member)⟩

/-- The raw deltas add up whatever reads fail. -/
theorem sum_rawDelta (advancing : Advancing last readings) :
    last.counter ≤ (finalReading last readings).counter ∧
      ((intervals last readings).map rawDelta).sum =
        (finalReading last readings).counter - last.counter := by
  induction readings generalizing last with
  | nil => exact ⟨Nat.le_refl _, (Nat.sub_self _).symm⟩
  | cons reading rest induction =>
      cases reading with
      | none =>
          obtain ⟨le, sum⟩ :=
            induction (show Advancing last rest from advancing)
          refine ⟨le, ?_⟩
          unfold intervals
          rw [List.map_cons, List.sum_cons, sum]
          exact Nat.zero_add _
      | some val =>
          obtain ⟨follows, advancing⟩ := advancing
          obtain ⟨le, sum⟩ := induction advancing
          have final : finalReading last (some val :: rest) =
              finalReading val rest := rfl
          have raw : rawDelta (some (last, val)) =
              val.counter - last.counter := by
            have := follows.counter
            have := follows.counter_lt
            change wrappingSub val.counter last.counter = _
            unfold wrappingSub u64
            omega
          have grown := follows.counter
          rw [final]
          refine ⟨grown.trans le, ?_⟩
          unfold intervals
          rw [List.map_cons, List.sum_cons, sum, raw]
          omega

/-- Every tick leaves the scaled delta in a live slot exactly when no product
wraps, and the raw deltas add up to the growth of the counter. -/
theorem credits_scaled_iff {cfg slot : Nat} (live : slot < counterSlots cfg)
    {before : Nat → Reading} {ticks : List (Nat → Option Reading)}
    (advancing : Advancing (before slot) (ticks.map (· slot))) :
    ∃ deltas, tickDeltas cfg slot before ticks = deltas.map some ∧
      (List.Forall₂ Credits (intervals (before slot) (ticks.map (· slot)))
          deltas ↔
        ∀ earlier later, some (earlier, later) ∈
          intervals (before slot) (ticks.map (· slot)) →
          ProductFits earlier later) ∧
      ((intervals (before slot) (ticks.map (· slot))).map rawDelta).sum =
        (finalReading (before slot) (ticks.map (· slot))).counter -
          (before slot).counter :=
  ⟨_, tickDeltas_eq live before ticks, credits_iff advancing,
    (sum_rawDelta advancing).2⟩

end

/-- Ten seconds between two ticks of a CPU, a quarter of them with the event
on; a failed read in between. -/
def idleReadings (counted : Nat) : List (Option Reading) :=
  [none, some ⟨counted, 10000000000, 2500000000⟩]

theorem advancing_idle :
    ∀ counted ∈ [1000000000, 40000000000],
      Advancing {} (idleReadings counted) := by
  intro counted member
  have small : counted < 2 ^ 64 := by
    revert counted
    decide
  exact ⟨⟨Nat.zero_le _, Nat.zero_le _, Nat.zero_le _,
    show 2500000000 ≤ 10000000000 by decide, small,
    show 10000000000 < 2 ^ 64 by decide⟩, trivial⟩

def idleTicks (counted : Nat) : List (Nat → Option Reading) :=
  (idleReadings counted).map fun reading _ => reading

theorem credits_scaled_idle : ∃ deltas,
    tickDeltas 2 1 (fun _ => {}) (idleTicks 1000000000) = deltas.map some ∧
      (List.Forall₂ Credits (intervals {} (idleReadings 1000000000)) deltas ↔
        ∀ earlier later,
          some (earlier, later) ∈ intervals {} (idleReadings 1000000000) →
            ProductFits earlier later) ∧
      ((intervals {} (idleReadings 1000000000)).map rawDelta).sum =
        (finalReading {} (idleReadings 1000000000)).counter - 0 :=
  @credits_scaled_iff 2 1 (by decide) (fun _ => {}) (idleTicks 1000000000)
    (advancing_idle _ (by decide))

/-- With 40 billion counts the product wraps, and less than the raw delta is
credited. -/
theorem not_credits_idle :
    ¬ ∀ before ticks, Advancing (before 1) (ticks.map (· 1)) →
      ∃ deltas, tickDeltas 2 1 before ticks = deltas.map some ∧
        List.Forall₂ Credits (intervals (before 1) (ticks.map (· 1)))
          deltas := by
  intro credits
  obtain ⟨deltas, left, all⟩ := credits (fun _ => {}) (idleTicks 40000000000)
    (advancing_idle 40000000000 (by decide))
  have live : 1 < counterSlots 2 := by decide
  rw [tickDeltas_eq live] at left
  obtain rfl := List.map_inj_right (fun _ _ => Option.some.inj) |>.mp left
  obtain ⟨-, scaled⟩ := List.forall₂_cons.mp all
  have low := (List.forall₂_cons.mp scaled).1.low
  revert low
  decide

end Sismo.Sched
