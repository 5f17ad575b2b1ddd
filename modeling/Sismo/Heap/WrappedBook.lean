import Mathlib.Algebra.Order.Ring.Nat
import Sismo.Heap.BookTotals

namespace Sismo.Heap

/-! The recorder's book keeps its totals in 64 bits.  It follows the book with
true totals, and its own are these modulo 2^64. -/

def SiteStats.wrapped (s : SiteStats Nat) : SiteStats UInt64 :=
  ⟨.ofNat s.allocated, .ofNat s.freed, .ofNat s.allocCount,
    .ofNat s.freeCount⟩

/-- The numbers that 64-bit totals stand for. -/
def SiteStats.unwrapped (s : SiteStats UInt64) : SiteStats Nat :=
  ⟨s.allocated.toNat, s.freed.toNat, s.allocCount.toNat, s.freeCount.toNat⟩

/-- The callstack's recorded bytes and allocations can be counted in 64 bits. -/
def SiteStats.Fits (s : SiteStats Nat) : Prop :=
  s.allocated < 2 ^ 64 ∧ s.allocCount < 2 ^ 64

instance (s : SiteStats Nat) : Decidable s.Fits :=
  inferInstanceAs (Decidable (_ ∧ _))

theorem SiteStats.unwrapped_wrapped {s : SiteStats Nat}
    (allocated : s.allocated < 2 ^ 64) (freed : s.freed < 2 ^ 64)
    (allocCount : s.allocCount < 2 ^ 64) (freeCount : s.freeCount < 2 ^ 64) :
    s.wrapped.unwrapped = s := by
  ext1 <;>
    simp only [SiteStats.wrapped, SiteStats.unwrapped, UInt64.toNat_ofNat'] <;>
    exact Nat.mod_eq_of_lt ‹_›

namespace HeapBook

/-- The two books agree but for the totals, which the second wraps. -/
structure Wraps (book : HeapBook Nat) (code : HeapBook UInt64) : Prop where
  live : code.live = book.live
  sites : ∀ pcs, code.sites.lookup pcs =
    (book.sites.lookup pcs).map SiteStats.wrapped

namespace Wraps

variable {book : HeapBook Nat} {code : HeapBook UInt64}

theorem empty : Wraps {} {} := ⟨rfl, fun _ => rfl⟩

theorem liveAt (wraps : Wraps book code) (addr : Nat) :
    code.liveAt addr = book.liveAt addr := by
  rw [HeapBook.liveAt, HeapBook.liveAt, wraps.live]

theorem liveEntries (wraps : Wraps book code) :
    code.liveEntries = book.liveEntries := by
  rw [HeapBook.liveEntries, HeapBook.liveEntries, wraps.live]

theorem liveTotal (wraps : Wraps book code) (weight : LiveAlloc → Nat) :
    code.liveTotal weight = book.liveTotal weight := by
  rw [HeapBook.liveTotal, HeapBook.liveTotal, wraps.liveEntries]

theorem siteAt (wraps : Wraps book code) (pcs : List Nat) :
    code.siteAt pcs = (book.siteAt pcs).wrapped := by
  rw [HeapBook.siteAt, HeapBook.siteAt, wraps.sites]
  cases book.sites.lookup pcs with
  | none => rfl
  | some s => rfl

theorem applyAlloc (wraps : Wraps book code) (record : AllocRecord) :
    Wraps (book.applyAlloc record) (code.applyAlloc record) where
  live := by
    simp only [HeapBook.applyAlloc, wraps.live]
  sites pcs := by
    have site := wraps.siteAt record.pcs
    simp only [HeapBook.siteAt] at site
    simp only [HeapBook.applyAlloc, HashMap.lookup_insert_eq, site]
    split
    · simp only [Option.map_some, SiteStats.wrapped, Counter.add_nat,
        UInt64.ofNat_add]
      rfl
    · exact wraps.sites pcs

theorem applyFree (wraps : Wraps book code) (entry : FreeEntry) :
    Wraps (book.applyFree entry) (code.applyFree entry) := by
  unfold HeapBook.applyFree
  rw [wraps.live]
  cases book.live.lookup entry.addr with
  | none => exact wraps
  | some list =>
      dsimp only
      split
      · exact wraps
      · cases list[partitionPoint (fun l => l.seq < entry.seq) list - 1]? with
        | none => exact wraps
        | some taken =>
            refine ⟨rfl, fun pcs => ?_⟩
            dsimp only
            rw [wraps.sites]
            cases book.sites.lookup taken.pcs with
            | none => exact wraps.sites pcs
            | some s =>
                simp only [Option.map_some, HashMap.lookup_insert_eq]
                split
                · simp only [Option.map_some, SiteStats.wrapped,
                    Counter.add_nat, UInt64.ofNat_add]
                  rfl
                · exact wraps.sites pcs

theorem apply (wraps : Wraps book code) (record : HeapRecord) :
    Wraps (book.apply record) (code.apply record) := by
  cases record with
  | alloc record => exact wraps.applyAlloc record
  | free entry => exact wraps.applyFree entry

theorem applyAll (wraps : Wraps book code) (records : List HeapRecord) :
    Wraps (book.applyAll records) (code.applyAll records) := by
  induction records generalizing book code with
  | nil => exact wraps
  | cons record rest induction => exact induction (wraps.apply record)

end Wraps

/-- The 64-bit book of any records beside the true one. -/
theorem wraps_applyAll (records : List HeapRecord) :
    Wraps (({} : HeapBook Nat).applyAll records)
      (({} : HeapBook UInt64).applyAll records) :=
  Wraps.empty.applyAll records

/-- As long as a callstack's allocations fit, its totals are the true ones. -/
theorem Wraps.unwrapped_siteAt {book : HeapBook Nat} {code : HeapBook UInt64}
    (wraps : Wraps book code) (balanced : book.Balanced) {pcs : List Nat}
    (fits : (book.siteAt pcs).Fits) :
    (code.siteAt pcs).unwrapped = book.siteAt pcs := by
  have bytes := balanced.bytes pcs
  have counts := balanced.counts pcs
  have allocated := fits.1
  have allocCount := fits.2
  rw [wraps.siteAt, SiteStats.unwrapped_wrapped allocated (by omega) allocCount
    (by omega)]

end HeapBook

end Sismo.Heap
