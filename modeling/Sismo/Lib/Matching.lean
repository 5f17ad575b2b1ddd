import Mathlib.Data.Finset.Card
import Mathlib.Data.Finset.Max
import Mathlib.Order.Defs.LinearOrder

namespace Sismo

/-! Matching releases to acquisitions on a linear order, where a release takes
the newest outstanding acquisition older than itself. -/

variable {α : Type*} [LinearOrder α]

/-- Above every threshold at least as many releases as acquisitions are still
pending, so no pending acquisition can be left without a release. -/
def Covers (releases acquisitions : Finset α) : Prop :=
  ∀ threshold,
    (acquisitions.filter (threshold ≤ ·)).card ≤
      (releases.filter (threshold < ·)).card

namespace Covers

variable {releases acquisitions : Finset α}

/-- Pairing each acquisition with a later release of its own is enough. -/
theorem of_pairing (release : α → α)
    (mem : ∀ a ∈ acquisitions, release a ∈ releases)
    (later : ∀ a ∈ acquisitions, a < release a)
    (injective : Set.InjOn release acquisitions) :
    Covers releases acquisitions := by
  intro threshold
  apply Finset.card_le_card_of_injOn release
  · intro a member
    obtain ⟨aMem, above⟩ := Finset.mem_filter.mp member
    exact Finset.mem_filter.mpr
      ⟨mem a aMem, lt_of_le_of_lt above (later a aMem)⟩
  · exact injective.mono fun a member => (Finset.mem_filter.mp member).1

theorem eq_empty (covers : Covers ∅ acquisitions) : acquisitions = ∅ := by
  apply Finset.eq_empty_of_forall_notMem
  intro a member
  have bound := covers a
  rw [Finset.filter_empty, Finset.card_empty, Nat.le_zero,
    Finset.card_eq_zero] at bound
  have : a ∈ acquisitions.filter (a ≤ ·) := by simp [member]
  simp [bound] at this

theorem anti (covers : Covers releases acquisitions)
    {fewer : Finset α} (subset : fewer ⊆ acquisitions) :
    Covers releases fewer := fun threshold =>
  (Finset.card_le_card (Finset.filter_subset_filter _ subset)).trans
    (covers threshold)

/-- A release that finds nothing older pending can be dropped. -/
theorem erase_release (covers : Covers releases acquisitions) {release : α}
    (stale : ∀ a ∈ acquisitions, release ≤ a) :
    Covers (releases.erase release) acquisitions := by
  intro threshold
  rcases lt_or_ge threshold release with below | above
  · -- Nothing is pending between the threshold and the release.
    calc
      (acquisitions.filter (threshold ≤ ·)).card ≤
          (acquisitions.filter (release ≤ ·)).card :=
        Finset.card_le_card fun a member => by
          have aMem := (Finset.mem_filter.mp member).1
          exact Finset.mem_filter.mpr ⟨aMem, stale a aMem⟩
      _ ≤ (releases.filter (release < ·)).card := covers release
      _ ≤ ((releases.erase release).filter (threshold < ·)).card :=
        Finset.card_le_card fun other member => by
          obtain ⟨otherMem, after⟩ := Finset.mem_filter.mp member
          exact Finset.mem_filter.mpr
            ⟨Finset.mem_erase.mpr ⟨after.ne', otherMem⟩, below.trans after⟩
  · have unchanged : (releases.erase release).filter (threshold < ·) =
        releases.filter (threshold < ·) := by
      ext other
      simp only [Finset.mem_filter, Finset.mem_erase]
      constructor
      · exact fun member => ⟨member.1.2, member.2⟩
      · exact fun member =>
          ⟨⟨(above.trans_lt member.2).ne', member.1⟩, member.2⟩
    rw [unchanged]
    exact covers threshold

/-- A release takes the newest pending acquisition older than itself. -/
theorem retire (covers : Covers releases acquisitions) {release taken : α}
    (releaseMem : release ∈ releases) (takenMem : taken ∈ acquisitions)
    (older : taken < release)
    (newest : ∀ a ∈ acquisitions, a < release → a ≤ taken) :
    Covers (releases.erase release) (acquisitions.erase taken) := by
  intro threshold
  rcases le_or_gt threshold taken with below | above
  · have takenFiltered : taken ∈ acquisitions.filter (threshold ≤ ·) := by
      simp [takenMem, below]
    have releaseFiltered : release ∈ releases.filter (threshold < ·) := by
      simp [releaseMem, below.trans_lt older]
    rw [Finset.filter_erase, Finset.filter_erase,
      Finset.card_erase_of_mem takenFiltered,
      Finset.card_erase_of_mem releaseFiltered]
    exact Nat.sub_le_sub_right (covers threshold) 1
  · -- Above the taken acquisition the rest behaves as if it were not there.
    have upper : Covers releases (acquisitions.filter (taken < ·)) :=
      covers.anti (Finset.filter_subset _ _)
    have stale : ∀ a ∈ acquisitions.filter (taken < ·), release ≤ a := by
      intro a member
      obtain ⟨aMem, after⟩ := Finset.mem_filter.mp member
      exact le_of_not_gt fun before =>
        absurd (newest a aMem before) (not_le_of_gt after)
    refine le_trans (Finset.card_le_card ?_) (upper.erase_release stale threshold)
    intro a member
    obtain ⟨aMem, reached⟩ := Finset.mem_filter.mp member
    simp only [Finset.mem_filter]
    exact ⟨⟨Finset.mem_of_mem_erase aMem, above.trans_le reached⟩, reached⟩

end Covers

end Sismo
