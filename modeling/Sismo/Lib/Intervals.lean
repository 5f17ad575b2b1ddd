import Mathlib.Algebra.Order.BigOperators.Group.List
import Mathlib.Algebra.Order.Ring.Int
import Mathlib.Data.Finset.Card

namespace Sismo

/-! Spans of whole instants, and the time they share. -/

/-- The instants from one on and before another. -/
def between (lo hi : Int) : Finset Int :=
  (Finset.range (hi - lo).toNat).image fun i : Nat => lo + i

theorem mem_between {lo hi t : Int} :
    t ∈ between lo hi ↔ lo ≤ t ∧ t < hi := by
  unfold between
  rw [Finset.mem_image]
  constructor
  · rintro ⟨i, below, rfl⟩
    rw [Finset.mem_range] at below
    omega
  · rintro ⟨low, high⟩
    refine ⟨(t - lo).toNat, ?_, by omega⟩
    rw [Finset.mem_range]
    omega

theorem card_between (lo hi : Int) :
    (between lo hi).card = (hi - lo).toNat := by
  unfold between
  rw [Finset.card_image_of_injective, Finset.card_range]
  intro i j same
  exact Int.ofNat.inj (Int.add_left_cancel same)

@[simp] theorem between_self (t : Int) : between t t = ∅ := by
  rw [← Finset.card_eq_zero, card_between, Int.sub_self]
  rfl

theorem between_inter_between (lo hi lo' hi' : Int) :
    between lo hi ∩ between lo' hi' = between (max lo lo') (min hi hi') := by
  ext t
  rw [Finset.mem_inter, mem_between, mem_between, mem_between]
  omega

theorem between_union_between {lo mid hi : Int} (below : lo ≤ mid)
    (above : mid ≤ hi) : between lo mid ∪ between mid hi = between lo hi := by
  ext t
  rw [Finset.mem_union, mem_between, mem_between, mem_between]
  omega

/-- From its start up to its end, which it does not hold. -/
structure Span where
  start : Int
  stop : Int
  deriving DecidableEq, Repr

namespace Span

def Apart (first second : Span) : Prop :=
  first.stop ≤ second.start ∨ second.stop ≤ first.start

def overlap (lo hi : Int) (span : Span) : Int :=
  max 0 (min span.stop hi - max span.start lo)

def instants (span : Span) : Finset Int := between span.start span.stop

theorem mem_instants {span : Span} {t : Int} :
    t ∈ span.instants ↔ span.start ≤ t ∧ t < span.stop := mem_between

theorem overlap_nonneg (lo hi : Int) (span : Span) :
    0 ≤ span.overlap lo hi := le_max_left _ _

theorem overlap_add {lo mid hi : Int} (below : lo ≤ mid) (above : mid ≤ hi)
    (span : Span) :
    span.overlap lo mid + span.overlap mid hi = span.overlap lo hi := by
  unfold overlap
  omega

theorem overlap_eq_card (lo hi : Int) (span : Span) :
    span.overlap lo hi =
      ((span.instants ∩ between lo hi).card : Int) := by
  unfold overlap instants
  rw [between_inter_between, card_between]
  omega

theorem disjoint_instants {first second : Span} (apart : first.Apart second) :
    Disjoint first.instants second.instants := by
  rw [Finset.disjoint_left]
  intro t inFirst inSecond
  rw [mem_instants] at inFirst inSecond
  unfold Apart at apart
  omega

/-- Sets apart from each other share no more with a set than it has. -/
theorem sum_card_inter_le {sets : List (Finset Int)}
    (apart : sets.Pairwise Disjoint) (whole : Finset Int) :
    (sets.map fun set => (set ∩ whole).card).sum ≤ whole.card := by
  induction sets generalizing whole with
  | nil => exact Nat.zero_le _
  | cons first sets induction =>
      obtain ⟨alone, apart⟩ := List.pairwise_cons.mp apart
      have rest : (sets.map fun set => (set ∩ whole).card) =
          sets.map fun set => (set ∩ (whole \ first)).card := by
        apply List.map_congr_left
        intro set member
        congr 1
        ext t
        simp only [Finset.mem_inter, Finset.mem_sdiff]
        constructor
        · rintro ⟨inSet, inWhole⟩
          exact ⟨inSet, inWhole, fun inFirst =>
            Finset.disjoint_left.mp (alone set member) inFirst inSet⟩
        · rintro ⟨inSet, inWhole, -⟩
          exact ⟨inSet, inWhole⟩
      have left := induction apart (whole \ first)
      have split := Finset.card_inter_add_card_sdiff whole first
      rw [List.map_cons, List.sum_cons, rest, Finset.inter_comm]
      omega

/-- Spans apart from each other take no more time than there is. -/
theorem sum_overlap_le {spans : List Span} (apart : spans.Pairwise Apart)
    {lo hi : Int} (forward : lo ≤ hi) :
    (spans.map (overlap lo hi)).sum ≤ hi - lo := by
  have cards : (spans.map (overlap lo hi)).sum =
      (((spans.map instants).map fun set =>
        (set ∩ between lo hi).card).sum : Int) := by
    rw [List.map_map]
    clear apart
    induction spans with
    | nil => rfl
    | cons first spans induction =>
        simp only [List.map_cons, List.sum_cons, induction, overlap_eq_card,
          Function.comp_apply, Nat.cast_add]
  have le := sum_card_inter_le (List.pairwise_map.mpr
    (apart.imp disjoint_instants)) (between lo hi)
  rw [card_between] at le
  rw [cards]
  omega

/-- The times of equal steps add up. -/
theorem sum_overlap_steps (span : Span) (lo : Int) {width : Int}
    (positive : 0 < width) (n : Nat) :
    ((List.range n).map fun b : Nat =>
        span.overlap (lo + b * width) (lo + (b + 1) * width)).sum =
      span.overlap lo (lo + n * width) := by
  induction n with
  | zero =>
      change 0 = _
      unfold overlap
      omega
  | succ n induction =>
      have forward : 0 ≤ (n : Int) * width :=
        mul_nonneg (Int.natCast_nonneg n) positive.le
      have next : ((n + 1 : Nat) : Int) * width = n * width + width := by
        rw [Nat.cast_succ, add_mul, one_mul]
      rw [List.range_succ, List.map_append, List.sum_append, induction,
        List.map_singleton, List.sum_singleton, ← Nat.cast_succ, next]
      exact overlap_add (by omega) (by omega) span

theorem sum_overlap_eq_zero_iff {spans : List Span} {lo hi : Int} :
    (spans.map (overlap lo hi)).sum = 0 ↔
      ∀ span ∈ spans, span.overlap lo hi = 0 := by
  induction spans with
  | nil => simp
  | cons first spans induction =>
      have here := overlap_nonneg lo hi first
      have later : 0 ≤ (spans.map (overlap lo hi)).sum :=
        List.sum_nonneg fun time member => by
          obtain ⟨span, -, rfl⟩ := List.mem_map.mp member
          exact overlap_nonneg lo hi span
      rw [List.map_cons, List.sum_cons, List.forall_mem_cons, ← induction]
      omega

end Span

end Sismo
