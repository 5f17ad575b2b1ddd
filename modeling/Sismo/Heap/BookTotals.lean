import Mathlib.Algebra.Order.BigOperators.Group.List
import Mathlib.Algebra.Order.Group.Nat
import Mathlib.Data.List.Induction
import Sismo.Heap.Book

namespace Sismo.Heap

/-! The book's totals against its live entries, for any records in any order. -/

def allocs (records : List HeapRecord) : List AllocRecord :=
  records.filterMap fun
    | .alloc record => some record
    | .free _ => none

def frees (records : List HeapRecord) : List FreeEntry :=
  records.filterMap fun
    | .alloc _ => none
    | .free entry => some entry

@[simp] theorem mem_allocs {records : List HeapRecord} {record : AllocRecord} :
    record ∈ allocs records ↔ .alloc record ∈ records := by
  simp only [allocs, List.mem_filterMap]
  constructor
  · rintro ⟨source, member, same⟩
    cases source with
    | alloc found => exact (Option.some.inj same) ▸ member
    | free _ => cases same
  · exact fun member => ⟨_, member, rfl⟩

@[simp] theorem mem_frees {records : List HeapRecord} {entry : FreeEntry} :
    entry ∈ frees records ↔ .free entry ∈ records := by
  simp only [frees, List.mem_filterMap]
  constructor
  · rintro ⟨source, member, same⟩
    cases source with
    | alloc _ => cases same
    | free found => exact (Option.some.inj same) ▸ member
  · exact fun member => ⟨_, member, rfl⟩

theorem allocs_nodup {records : List HeapRecord} (nodup : records.Nodup) :
    (allocs records).Nodup := by
  apply nodup.filterMap
  intro first second record firstIs secondIs
  cases first <;> cases second <;> simp_all

namespace HeapBook

section

variable {ν : Type}

def liveEntries (book : HeapBook ν) : List (Nat × LiveAlloc) :=
  book.live.entries.flatMap fun entry => entry.2.map fun l => (entry.1, l)

theorem mem_liveEntries {book : HeapBook ν} {addr : Nat} {l : LiveAlloc} :
    (addr, l) ∈ book.liveEntries ↔ l ∈ book.liveAt addr := by
  simp only [liveEntries, List.mem_flatMap, List.mem_map, Prod.mk.injEq,
    liveAt]
  constructor
  · rintro ⟨⟨key, list⟩, stored, found, member, rfl, rfl⟩
    have : book.live.lookup key = some list :=
      List.mem_dlookup book.live.nodupKeys stored
    simpa [this] using member
  · intro member
    cases found : book.live.lookup addr with
    | none => simp [found] at member
    | some list =>
        rw [found] at member
        exact ⟨⟨addr, list⟩, List.of_mem_dlookup found, l, member, rfl, rfl⟩

theorem liveEntries_nodup {book : HeapBook ν}
    (nodup : ∀ addr, (book.liveAt addr).Nodup) : book.liveEntries.Nodup := by
  apply List.nodup_flatMap.mpr
  constructor
  · rintro ⟨addr, list⟩ stored
    have found : book.live.lookup addr = some list :=
      List.mem_dlookup book.live.nodupKeys stored
    have listNodup : list.Nodup := by simpa [liveAt, found] using nodup addr
    exact listNodup.map fun _ _ same => (Prod.mk.inj same).2
  · have keys : book.live.entries.Pairwise fun first second =>
        first.1 ≠ second.1 := by
      have := book.live.keys_nodup
      simpa [AList.keys, List.keys, List.Nodup, List.pairwise_map] using this
    refine keys.imp fun {first second} distinct => ?_
    apply List.disjoint_left.mpr
    rintro ⟨addr, l⟩ inFirst inSecond
    obtain ⟨_, _, firstEq⟩ := List.mem_map.mp inFirst
    obtain ⟨_, _, secondEq⟩ := List.mem_map.mp inSecond
    exact distinct ((Prod.mk.inj firstEq).1.trans (Prod.mk.inj secondEq).1.symm)

def liveTotal (book : HeapBook ν) (weight : LiveAlloc → Nat) : Nat :=
  (book.liveEntries.map fun entry => weight entry.2).sum

theorem liveTotal_eq_total (book : HeapBook ν) (weight : LiveAlloc → Nat) :
    book.liveTotal weight =
      HashMap.total (fun _ list => (list.map weight).sum) book.live := by
  rw [liveTotal, liveEntries, HashMap.total, List.map_flatMap,
    List.flatMap_def, List.sum_flatten, List.map_map]
  simp [Function.comp_def]

def liveBytes (book : HeapBook ν) (pcs : List Nat) : Nat :=
  book.liveTotal fun l => if l.pcs = pcs then l.sampleSize else 0

def liveCount (book : HeapBook ν) (pcs : List Nat) : Nat :=
  book.liveTotal fun l => if l.pcs = pcs then 1 else 0

end

theorem liveTotal_applyAlloc (book : HeapBook Nat) (record : AllocRecord)
    (weight : LiveAlloc → Nat) :
    (book.applyAlloc record).liveTotal weight =
      book.liveTotal weight + weight record.live := by
  rw [liveTotal_eq_total, liveTotal_eq_total,
    HashMap.total_eq_getD_add _ book.live record.addr [] rfl]
  simp only [applyAlloc, HashMap.total_insert, List.map_append, List.sum_append,
    List.map_cons, List.map_nil, List.sum_cons, List.sum_nil]
  omega

/-- Each site's totals exceed its freed totals by exactly its live entries. -/
structure Balanced (book : HeapBook Nat) : Prop where
  bytes : ∀ pcs, (book.siteAt pcs).allocated =
    (book.siteAt pcs).freed + book.liveBytes pcs
  counts : ∀ pcs, (book.siteAt pcs).allocCount =
    (book.siteAt pcs).freeCount + book.liveCount pcs

theorem balanced_empty : ({} : HeapBook Nat).Balanced where
  bytes _ := rfl
  counts _ := rfl

theorem Balanced.applyAlloc {book : HeapBook Nat} (balanced : book.Balanced)
    (record : AllocRecord) : (book.applyAlloc record).Balanced where
  bytes pcs := by
    have before := balanced.bytes pcs
    rw [liveBytes] at before ⊢
    rw [siteAt_applyAlloc, liveTotal_applyAlloc]
    by_cases same : pcs = record.pcs
    · subst same
      simp only [AllocRecord.live, ↓reduceIte, Counter.add_nat]
      omega
    · simp only [AllocRecord.live, same, Ne.symm same, ↓reduceIte]
      omega
  counts pcs := by
    have before := balanced.counts pcs
    rw [liveCount] at before ⊢
    rw [siteAt_applyAlloc, liveTotal_applyAlloc]
    by_cases same : pcs = record.pcs
    · subst same
      simp only [AllocRecord.live, ↓reduceIte, Counter.add_nat]
      omega
    · simp only [AllocRecord.live, same, Ne.symm same, ↓reduceIte]
      omega

/-- What retiring one live entry does to the totals. -/
structure Retires (book next : HeapBook Nat) (taken : LiveAlloc) : Prop where
  total : ∀ weight, book.liveTotal weight = next.liveTotal weight + weight taken
  site : ∀ pcs, next.siteAt pcs =
    if pcs = taken.pcs then
      { book.siteAt pcs with
        freed := (book.siteAt pcs).freed + taken.sampleSize
        freeCount := (book.siteAt pcs).freeCount + 1 }
    else book.siteAt pcs

theorem Balanced.retires {book next : HeapBook Nat} (balanced : book.Balanced)
    {taken : LiveAlloc} (retires : Retires book next taken) :
    next.Balanced where
  bytes pcs := by
    have before := balanced.bytes pcs
    rw [liveBytes, retires.total] at before
    rw [retires.site, liveBytes]
    by_cases same : pcs = taken.pcs
    · subst same
      simp only [↓reduceIte] at before ⊢
      omega
    · simp only [same, Ne.symm same, ↓reduceIte] at before ⊢
      omega
  counts pcs := by
    have before := balanced.counts pcs
    rw [liveCount, retires.total] at before
    rw [retires.site, liveCount]
    by_cases same : pcs = taken.pcs
    · subst same
      simp only [↓reduceIte] at before ⊢
      omega
    · simp only [same, Ne.symm same, ↓reduceIte] at before ⊢
      omega

/-- The site of a live entry is present in a balanced book, so a free that
takes the entry reaches the site's counters. -/
theorem Balanced.site_present {book : HeapBook Nat} (balanced : book.Balanced)
    {addr : Nat} {l : LiveAlloc} (live : l ∈ book.liveAt addr) :
    ∃ s, book.sites.lookup l.pcs = some s := by
  cases found : book.sites.lookup l.pcs with
  | some s => exact ⟨s, rfl⟩
  | none =>
      have counted : 1 ≤ book.liveCount l.pcs := by
        rw [liveCount, liveTotal]
        exact List.le_sum_of_mem (List.mem_map.mpr
          ⟨(addr, l), mem_liveEntries.mpr live, by simp⟩)
      have := balanced.counts l.pcs
      simp only [siteAt, found, Option.getD_none, SiteStats.zero,
        Counter.zero_nat] at this
      omega

theorem Balanced.applyFree_cases {book : HeapBook Nat} (balanced : book.Balanced)
    (entry : FreeEntry) :
    (book.applyFree entry = book ∧
      (book.liveAt entry.addr = [] ∨ ∃ head tail,
        book.liveAt entry.addr = head :: tail ∧ entry.seq ≤ head.seq)) ∨
    ∃ before taken after,
      book.liveAt entry.addr = before ++ taken :: after ∧
      taken.seq < entry.seq ∧
      (after = [] ∨ ∃ head tail,
        after = head :: tail ∧ entry.seq ≤ head.seq) ∧
      (∀ addr, (book.applyFree entry).liveAt addr =
        if addr = entry.addr then before ++ after else book.liveAt addr) ∧
      Retires book (book.applyFree entry) taken := by
  rcases HeapBook.applyFree_cases book entry with stale |
    ⟨before, taken, after, eq, older, rest, live, liveMap, sites⟩
  · exact .inl stale
  · right
    refine ⟨before, taken, after, eq, older, rest, live, ?_, ?_⟩
    · intro weight
      have taken_total :=
        HashMap.total_eq_getD_add
          (fun (_ : Nat) (list : List LiveAlloc) => (list.map weight).sum)
          book.live entry.addr [] rfl
      rw [← liveTotal_eq_total] at taken_total
      have eq' : (book.live.lookup entry.addr).getD [] =
          before ++ taken :: after := eq
      rw [taken_total, eq', liveTotal_eq_total, liveMap]
      cases empty : (before ++ after).isEmpty with
      | true =>
          obtain ⟨rfl, rfl⟩ := List.append_eq_nil_iff.mp
            (List.isEmpty_iff.mp empty)
          simp only [if_pos, List.nil_append, List.map_cons, List.map_nil,
            List.sum_cons, List.sum_nil]
          omega
      | false =>
          rw [if_neg (by simp), HashMap.total_insert]
          simp only [List.map_append, List.map_cons, List.sum_append,
            List.sum_cons]
          omega
    · intro pcs
      have live : taken ∈ book.liveAt entry.addr := by
        rw [eq]
        simp
      obtain ⟨s, present⟩ := balanced.site_present live
      rw [siteAt, siteAt, sites]
      simp only [present, HashMap.lookup_insert_eq]
      split
      · next same =>
          subst same
          simp [present]
      · rfl

theorem Balanced.apply {book : HeapBook Nat} (balanced : book.Balanced)
    (record : HeapRecord) : (book.apply record).Balanced := by
  cases record with
  | alloc record => exact balanced.applyAlloc record
  | free entry =>
      rcases balanced.applyFree_cases entry with ⟨same, _⟩ |
        ⟨_, _, _, _, _, _, _, retires⟩
      · rwa [HeapBook.apply, same]
      · exact balanced.retires retires

theorem Balanced.applyAll {book : HeapBook Nat} (balanced : book.Balanced)
    (records : List HeapRecord) : (book.applyAll records).Balanced := by
  induction records generalizing book with
  | nil => exact balanced
  | cons record rest induction => exact induction (balanced.apply record)

theorem allocated_apply {book : HeapBook Nat} (balanced : book.Balanced)
    (record : HeapRecord) (pcs : List Nat) :
    ((book.apply record).siteAt pcs).allocated =
        (book.siteAt pcs).allocated +
          (((allocs [record]).filter (·.pcs = pcs)).map (·.sampleSize)).sum ∧
      ((book.apply record).siteAt pcs).allocCount =
        (book.siteAt pcs).allocCount +
          ((allocs [record]).filter (·.pcs = pcs)).length := by
  cases record with
  | alloc record =>
      rw [apply, siteAt_applyAlloc]
      by_cases same : pcs = record.pcs
      · simp [allocs, same]
      · simp [allocs, same, Ne.symm same]
  | free entry =>
      simp only [allocs, apply, List.filterMap_cons, List.filterMap_nil,
        List.filter_nil, List.map_nil, List.sum_nil, List.length_nil]
      rcases balanced.applyFree_cases entry with ⟨same, _⟩ |
        ⟨_, taken, _, _, _, _, _, retires⟩
      · rw [same]
        exact ⟨rfl, rfl⟩
      · rw [retires.site]
        split <;> exact ⟨rfl, rfl⟩

theorem allocated_applyAll (records : List HeapRecord) (pcs : List Nat) :
    ((({} : HeapBook Nat).applyAll records).siteAt pcs).allocated =
        (((allocs records).filter (·.pcs = pcs)).map (·.sampleSize)).sum ∧
      ((({} : HeapBook Nat).applyAll records).siteAt pcs).allocCount =
        ((allocs records).filter (·.pcs = pcs)).length := by
  induction records using List.reverseRecOn with
  | nil => exact ⟨rfl, rfl⟩
  | append_singleton records record induction =>
      obtain ⟨bytes, counts⟩ := allocated_apply
        (balanced_empty.applyAll records) record pcs
      have split : allocs (records ++ [record]) =
          allocs records ++ allocs [record] := by simp [allocs]
      rw [applyAll_concat, bytes, counts, induction.1, induction.2, split]
      simp

end HeapBook

end Sismo.Heap
