import Sismo.Lib.Bisect
import Sismo.Lib.HashMap

namespace Sismo.Heap

/-! The recorder's bookkeeping of sampled allocations. -/

/-- What the totals are counted in: the code's u64, whose plain additions wrap
around, or the true numbers. -/
class Counter (ν : Type) where
  zero : ν
  add : ν → Nat → ν

instance : Counter UInt64 where
  zero := 0
  add total amount := total + UInt64.ofNat amount

instance : Counter Nat where
  zero := 0
  add total amount := total + amount

namespace Counter

@[simp] theorem zero_nat : (zero : Nat) = 0 := rfl

@[simp] theorem add_nat (total amount : Nat) :
    add total amount = total + amount := rfl

end Counter

/-- An allocation site's totals, keyed by its leaf-first callstack. -/
@[ext] structure SiteStats (ν : Type) where
  allocated : ν
  freed : ν
  allocCount : ν
  freeCount : ν
  deriving DecidableEq, Repr

def SiteStats.zero {ν : Type} [Counter ν] : SiteStats ν :=
  ⟨Counter.zero, Counter.zero, Counter.zero, Counter.zero⟩

structure LiveAlloc where
  seq : Nat
  sampleSize : Nat
  pcs : List Nat
  deriving DecidableEq, Repr

structure HeapBook (ν : Type) where
  sites : HashMap (List Nat) (SiteStats ν) := ∅
  live : HashMap Nat (List LiveAlloc) := ∅

/-- An allocation record once its stack snapshot has been walked. -/
structure AllocRecord where
  seq : Nat
  addr : Nat
  sampleSize : Nat
  pcs : List Nat
  deriving DecidableEq, Repr, Inhabited

structure FreeEntry where
  seq : Nat
  addr : Nat
  deriving DecidableEq, Repr, Inhabited

inductive HeapRecord where
  | alloc (record : AllocRecord)
  | free (entry : FreeEntry)
  deriving DecidableEq, Repr

def HeapRecord.seq : HeapRecord → Nat
  | .alloc record => record.seq
  | .free entry => entry.seq

def HeapRecord.addr : HeapRecord → Nat
  | .alloc record => record.addr
  | .free entry => entry.addr

def AllocRecord.live (record : AllocRecord) : LiveAlloc :=
  ⟨record.seq, record.sampleSize, record.pcs⟩

namespace HeapBook

section

variable {ν : Type} [Counter ν]

def applyAlloc (book : HeapBook ν) (record : AllocRecord) : HeapBook ν :=
  let s := (book.sites.lookup record.pcs).getD .zero
  { sites := book.sites.insert record.pcs
      { s with
        allocated := Counter.add s.allocated record.sampleSize
        allocCount := Counter.add s.allocCount 1 }
    live := book.live.insert record.addr
      ((book.live.lookup record.addr).getD [] ++ [record.live]) }

def applyFree (book : HeapBook ν) (entry : FreeEntry) : HeapBook ν :=
  match book.live.lookup entry.addr with
  | none => book
  | some list =>
      let i := partitionPoint (fun l => l.seq < entry.seq) list
      -- Stale: older than every live allocation at this address.
      if i = 0 then book
      else
        match list[i - 1]? with
        | none => book
        | some l =>
            let rest := list.eraseIdx (i - 1)
            { sites :=
                match book.sites.lookup l.pcs with
                | none => book.sites
                | some s => book.sites.insert l.pcs
                    { s with
                      freed := Counter.add s.freed l.sampleSize
                      freeCount := Counter.add s.freeCount 1 }
              live :=
                if rest.isEmpty then book.live.erase entry.addr
                else book.live.insert entry.addr rest }

def apply (book : HeapBook ν) : HeapRecord → HeapBook ν
  | .alloc record => book.applyAlloc record
  | .free entry => book.applyFree entry

def applyAll (book : HeapBook ν) (records : List HeapRecord) : HeapBook ν :=
  records.foldl apply book

@[simp] theorem applyAll_nil (book : HeapBook ν) : book.applyAll [] = book :=
  rfl

@[simp] theorem applyAll_concat (book : HeapBook ν) (records : List HeapRecord)
    (record : HeapRecord) :
    book.applyAll (records ++ [record]) =
      (book.applyAll records).apply record := by
  simp [applyAll]

/-! Views of the book by address and by callstack. -/

def liveAt (book : HeapBook ν) (addr : Nat) : List LiveAlloc :=
  (book.live.lookup addr).getD []

def siteAt (book : HeapBook ν) (pcs : List Nat) : SiteStats ν :=
  (book.sites.lookup pcs).getD .zero

omit [Counter ν] in
@[simp] theorem liveAt_empty (addr : Nat) :
    ({} : HeapBook ν).liveAt addr = [] := rfl

@[simp] theorem siteAt_empty (pcs : List Nat) :
    ({} : HeapBook ν).siteAt pcs = .zero := rfl

theorem liveAt_applyAlloc (book : HeapBook ν) (record : AllocRecord)
    (addr : Nat) :
    (book.applyAlloc record).liveAt addr =
      if addr = record.addr then book.liveAt addr ++ [record.live]
      else book.liveAt addr := by
  simp only [applyAlloc, liveAt, HashMap.lookup_insert_eq]
  split
  · next equal =>
      subst equal
      rfl
  · rfl

theorem siteAt_applyAlloc (book : HeapBook ν) (record : AllocRecord)
    (pcs : List Nat) :
    (book.applyAlloc record).siteAt pcs =
      if pcs = record.pcs then
        { book.siteAt pcs with
          allocated :=
            Counter.add (book.siteAt pcs).allocated record.sampleSize
          allocCount := Counter.add (book.siteAt pcs).allocCount 1 }
      else book.siteAt pcs := by
  simp only [applyAlloc, siteAt, HashMap.lookup_insert_eq]
  split
  · next equal =>
      subst equal
      rfl
  · rfl

/-- A free either changes nothing, because no live allocation at its address
leads the list with an older number, or takes the last one of the older run. -/
theorem applyFree_cases (book : HeapBook ν) (entry : FreeEntry) :
    (book.applyFree entry = book ∧
      (book.liveAt entry.addr = [] ∨ ∃ head tail,
        book.liveAt entry.addr = head :: tail ∧ entry.seq ≤ head.seq)) ∨
    ∃ before taken after,
      book.liveAt entry.addr = before ++ taken :: after ∧
      taken.seq < entry.seq ∧
      (after = [] ∨ ∃ head tail,
        after = head :: tail ∧ entry.seq ≤ head.seq) ∧
      (∀ addr, (book.applyFree entry).liveAt addr =
        if addr = entry.addr then before ++ after else book.liveAt addr) ∧
      (book.applyFree entry).live =
        (if (before ++ after).isEmpty then book.live.erase entry.addr
        else book.live.insert entry.addr (before ++ after)) ∧
      (book.applyFree entry).sites =
        match book.sites.lookup taken.pcs with
        | none => book.sites
        | some s => book.sites.insert taken.pcs
            { s with
              freed := Counter.add s.freed taken.sampleSize
              freeCount := Counter.add s.freeCount 1 } := by
  cases found : book.live.lookup entry.addr with
  | none =>
      left
      exact ⟨by simp [applyFree, found], .inl (by simp [liveAt, found])⟩
  | some list =>
      have listEq : book.liveAt entry.addr = list := by simp [liveAt, found]
      cases point : partitionPoint (fun l => l.seq < entry.seq) list with
      | zero =>
          left
          refine ⟨?_, ?_⟩
          · simp [applyFree, found, point]
          · rw [listEq]
            rcases partitionPoint_eq_zero point with empty | ⟨head, tail, eq, stops⟩
            · exact .inl empty
            · exact .inr ⟨head, tail, eq, by simpa using stops⟩
      | succ n =>
          right
          obtain ⟨before, taken, after, eq, length, older, rest⟩ :=
            partitionPoint_succ point
          have at_ : list[n]? = some taken := by
            rw [eq, ← length]
            simp
          have erased : list.eraseIdx n = before ++ after := by
            rw [eq, ← length]
            simp [List.eraseIdx_append_of_length_le]
          have applied : book.applyFree entry =
              { sites :=
                  match book.sites.lookup taken.pcs with
                  | none => book.sites
                  | some s => book.sites.insert taken.pcs
                      { s with
                        freed := Counter.add s.freed taken.sampleSize
                        freeCount := Counter.add s.freeCount 1 }
                live :=
                  if (before ++ after).isEmpty then
                    book.live.erase entry.addr
                  else book.live.insert entry.addr (before ++ after) } := by
            simp [applyFree, found, point, at_, erased]
          refine ⟨before, taken, after, listEq.trans eq, by simpa using older,
            by simpa using rest, ?_, by rw [applied], by rw [applied]⟩
          intro addr
          rw [applied]
          simp only [liveAt]
          cases empty : (before ++ after).isEmpty with
          | true =>
              rw [if_pos rfl, HashMap.lookup_erase_eq]
              split
              · simpa using (List.isEmpty_iff.mp empty).symm
              · rfl
          | false =>
              rw [if_neg (by simp), HashMap.lookup_insert_eq]
              split <;> rfl

end

end HeapBook

end Sismo.Heap
