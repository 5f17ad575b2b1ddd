import Sismo.Heap.BookTotals
import Sismo.Lib.Reorder

namespace Sismo.Heap

/-! The book does not depend on the order in which late records arrive. -/

/-- The book as the live list of each address and the totals of each callstack,
apart from how the maps store them. -/
@[ext] structure Ledger where
  live : Nat → List LiveAlloc
  sites : List Nat → SiteStats Nat

def HeapBook.ledger (book : HeapBook Nat) : Ledger where
  live := book.liveAt
  sites := book.siteAt

def SiteStats.addAlloc (s : SiteStats Nat) (record : AllocRecord) : SiteStats Nat :=
  { s with
    allocated := s.allocated + record.sampleSize
    allocCount := s.allocCount + 1 }

def SiteStats.addFree (s : SiteStats Nat) (l : LiveAlloc) : SiteStats Nat :=
  { s with freed := s.freed + l.sampleSize, freeCount := s.freeCount + 1 }

/-- The live allocations older than a free, on a list in sequence order. -/
def older (seq : Nat) (list : List LiveAlloc) : List LiveAlloc :=
  list.takeWhile fun l => l.seq < seq

def newer (seq : Nat) (list : List LiveAlloc) : List LiveAlloc :=
  list.dropWhile fun l => l.seq < seq

def pop (seq : Nat) (list : List LiveAlloc) : List LiveAlloc :=
  (older seq list).dropLast ++ newer seq list

namespace Ledger

def alloc (ledger : Ledger) (record : AllocRecord) : Ledger where
  live := modify ledger.live record.addr (· ++ [record.live])
  sites := modify ledger.sites record.pcs (·.addAlloc record)

def retire (sites : List Nat → SiteStats Nat) :
    Option LiveAlloc → List Nat → SiteStats Nat
  | none => sites
  | some l => modify sites l.pcs (·.addFree l)

def free (ledger : Ledger) (entry : FreeEntry) : Ledger where
  live := modify ledger.live entry.addr (pop entry.seq)
  sites := retire ledger.sites
    (older entry.seq (ledger.live entry.addr)).getLast?

def apply (ledger : Ledger) : HeapRecord → Ledger
  | .alloc record => ledger.alloc record
  | .free entry => ledger.free entry

@[simp] theorem alloc_live (ledger : Ledger) (record : AllocRecord) :
    (ledger.alloc record).live =
      modify ledger.live record.addr (· ++ [record.live]) := rfl

@[simp] theorem alloc_sites (ledger : Ledger) (record : AllocRecord) :
    (ledger.alloc record).sites =
      modify ledger.sites record.pcs (·.addAlloc record) := rfl

@[simp] theorem free_live (ledger : Ledger) (entry : FreeEntry) :
    (ledger.free entry).live = modify ledger.live entry.addr (pop entry.seq) :=
  rfl

@[simp] theorem free_sites (ledger : Ledger) (entry : FreeEntry) :
    (ledger.free entry).sites = retire ledger.sites
      (older entry.seq (ledger.live entry.addr)).getLast? := rfl

end Ledger

/-! ### Lists split at a free's number -/

section

variable {seq : Nat} {before after : List LiveAlloc}

def SplitAt (seq : Nat) (before after : List LiveAlloc) : Prop :=
  (∀ l ∈ before, l.seq < seq) ∧ ∀ l ∈ after, seq ≤ l.seq

theorem SplitAt.older_eq (split : SplitAt seq before after) :
    older seq (before ++ after) = before := by
  unfold older
  rw [List.takeWhile_append_of_pos fun l member =>
    decide_eq_true (split.1 l member)]
  cases after with
  | nil => exact List.append_nil before
  | cons l after =>
      have stop := split.2 l List.mem_cons_self
      rw [List.takeWhile_cons, if_neg (by simpa using stop), List.append_nil]

theorem SplitAt.newer_eq (split : SplitAt seq before after) :
    newer seq (before ++ after) = after := by
  unfold newer
  rw [List.dropWhile_append_of_pos fun l member =>
    decide_eq_true (split.1 l member)]
  cases after with
  | nil => rfl
  | cons l after =>
      have stop := split.2 l List.mem_cons_self
      rw [List.dropWhile_cons, if_neg (by simpa using stop)]

theorem older_concat {list : List LiveAlloc} {l : LiveAlloc}
    (later : seq ≤ l.seq) : older seq (list ++ [l]) = older seq list := by
  have stop : ¬ l.seq < seq := Nat.not_lt.mpr later
  induction list with
  | nil => simp [older, stop]
  | cons head rest induction =>
      unfold older at induction ⊢
      rw [List.cons_append, List.takeWhile_cons, List.takeWhile_cons, induction]

theorem newer_concat {list : List LiveAlloc} {l : LiveAlloc}
    (later : seq ≤ l.seq) :
    newer seq (list ++ [l]) = newer seq list ++ [l] := by
  have stop : ¬ l.seq < seq := Nat.not_lt.mpr later
  induction list with
  | nil => simp [newer, stop]
  | cons head rest induction =>
      unfold newer at induction ⊢
      rw [List.cons_append, List.dropWhile_cons, List.dropWhile_cons, induction]
      split
      · rfl
      · rfl

theorem SplitAt.pop_eq (split : SplitAt seq before after) :
    pop seq (before ++ after) = before.dropLast ++ after := by
  unfold pop
  rw [split.older_eq, split.newer_eq]

def Ascending (list : List LiveAlloc) : Prop :=
  list.Pairwise fun first second => first.seq < second.seq

theorem Ascending.exists_split {list : List LiveAlloc}
    (ascending : Ascending list) (seq : Nat) :
    ∃ before after, list = before ++ after ∧ SplitAt seq before after := by
  induction list with
  | nil => exact ⟨[], [], rfl, by simp [SplitAt]⟩
  | cons l rest induction =>
      obtain ⟨first, ascending⟩ := List.pairwise_cons.mp ascending
      by_cases low : l.seq < seq
      · obtain ⟨before, after, rfl, below, above⟩ := induction ascending
        refine ⟨l :: before, after, rfl, ?_, above⟩
        intro other member
        obtain rfl | member := List.mem_cons.mp member
        · exact low
        · exact below other member
      · refine ⟨[], l :: rest, rfl, by simp, ?_⟩
        intro other member
        obtain rfl | member := List.mem_cons.mp member
        · exact Nat.not_lt.mp low
        · have := first other member
          omega

end

/-! ### The ledger follows the book -/

theorem HeapBook.ledger_applyAlloc (book : HeapBook Nat) (record : AllocRecord) :
    (book.applyAlloc record).ledger = book.ledger.alloc record := by
  apply Ledger.ext
  · funext addr
    refine (book.liveAt_applyAlloc record addr).trans ?_
    rw [Ledger.alloc_live]
    by_cases same : addr = record.addr
    · subst same
      rw [if_pos rfl, modify_self]
      rfl
    · rw [if_neg same, modify_of_ne same]
      rfl
  · funext pcs
    refine (book.siteAt_applyAlloc record pcs).trans ?_
    rw [Ledger.alloc_sites]
    by_cases same : pcs = record.pcs
    · subst same
      rw [if_pos rfl, modify_self]
      rfl
    · rw [if_neg same, modify_of_ne same]
      rfl

theorem Ledger.free_eq_of_split {ledger next : Ledger} {entry : FreeEntry}
    {before after : List LiveAlloc} (split : SplitAt entry.seq before after)
    (list : ledger.live entry.addr = before ++ after)
    (live : ∀ addr, next.live addr =
      if addr = entry.addr then before.dropLast ++ after else ledger.live addr)
    (sites : next.sites = Ledger.retire ledger.sites before.getLast?) :
    next = ledger.free entry := by
  apply Ledger.ext
  · funext addr
    rw [live, Ledger.free_live]
    by_cases same : addr = entry.addr
    · subst same
      rw [if_pos rfl, modify_self, list, split.pop_eq]
    · rw [if_neg same, modify_of_ne same]
  · rw [sites, Ledger.free_sites, list, split.older_eq]

theorem HeapBook.ledger_applyFree {book : HeapBook Nat} (balanced : book.Balanced)
    {entry : FreeEntry} (ascending : Ascending (book.liveAt entry.addr)) :
    (book.applyFree entry).ledger = book.ledger.free entry := by
  obtain ⟨same, stale⟩ | ⟨before, taken, after, list, low, rest, live, retires⟩ :=
    balanced.applyFree_cases entry
  · have split : SplitAt entry.seq [] (book.liveAt entry.addr) := by
      refine ⟨by simp, ?_⟩
      obtain empty | ⟨head, tail, list, high⟩ := stale
      · simp [empty]
      · rw [list] at ascending ⊢
        have above := (List.pairwise_cons.mp ascending).1
        intro l member
        obtain rfl | member := List.mem_cons.mp member
        · exact high
        · exact high.trans (above l member).le
    rw [same]
    apply Ledger.free_eq_of_split split rfl
    · intro addr
      split
      · next same => exact congrArg book.liveAt same
      · rfl
    · rfl
  · have ordered := list ▸ ascending
    obtain ⟨-, later, first⟩ := List.pairwise_append.mp ordered
    have split : SplitAt entry.seq (before ++ [taken]) after := by
      constructor
      · intro l member
        obtain member | last := List.mem_append.mp member
        · exact (first l member taken List.mem_cons_self).trans low
        · exact List.mem_singleton.mp last ▸ low
      · obtain rfl | ⟨head, tail, rfl, high⟩ := rest
        · simp
        · have above := (List.pairwise_cons.mp
            (List.pairwise_cons.mp later).2).1
          intro l member
          obtain rfl | member := List.mem_cons.mp member
          · exact high
          · exact high.trans (above l member).le
    have list' : book.ledger.live entry.addr = (before ++ [taken]) ++ after :=
      list.trans (by simp)
    apply Ledger.free_eq_of_split split list'
    · intro addr
      rw [List.dropLast_concat]
      exact live addr
    · rw [List.getLast?_concat]
      funext pcs
      refine (retires.site pcs).trans ?_
      change _ = modify book.siteAt taken.pcs (·.addFree taken) pcs
      by_cases same : pcs = taken.pcs
      · subst same
        rw [if_pos rfl, modify_self]
        rfl
      · rw [if_neg same, modify_of_ne same]

/-! ### Which records may be applied in either order -/

/-- An allocation comes after the older allocations of its address, and before
the later frees. -/
def MayPrecede (earlier later : HeapRecord) : Prop :=
  ∀ record : AllocRecord, later = .alloc record →
    earlier.addr = record.addr →
    (∀ first, earlier = .alloc first → first.seq < record.seq) ∧
      ∀ entry, earlier = .free entry → entry.seq ≤ record.seq

/-- The live lists are in sequence order, and an allocation that is still to
come is newer than those at its address. -/
structure Ready (ledger : Ledger) (record : HeapRecord) : Prop where
  ascending : ∀ addr, Ascending (ledger.live addr)
  newest : ∀ alloc : AllocRecord, record = .alloc alloc →
    ∀ l ∈ ledger.live alloc.addr, l.seq < alloc.seq

namespace Ledger

theorem free_live_sublist (ledger : Ledger) (entry : FreeEntry) (addr : Nat) :
    ((ledger.free entry).live addr).Sublist (ledger.live addr) := by
  rw [free_live]
  by_cases same : addr = entry.addr
  · subst same
    have whole : older entry.seq (ledger.live entry.addr) ++
        newer entry.seq (ledger.live entry.addr) =
          ledger.live entry.addr := List.takeWhile_append_dropWhile
    rw [modify_self, pop]
    conv_rhs => rw [← whole]
    exact (List.dropLast_sublist _).append_right _
  · rw [modify_of_ne same]

theorem keeps_ready {ledger : Ledger} {first second : HeapRecord}
    (readyFirst : Ready ledger first) (readySecond : Ready ledger second)
    (allowed : MayPrecede first second) :
    Ready (ledger.apply first) second := by
  cases first with
  | free entry =>
      refine ⟨fun addr => ?_, fun record same l member => ?_⟩
      · exact (readySecond.ascending addr).sublist
          (ledger.free_live_sublist entry addr)
      · exact readySecond.newest record same l
          ((ledger.free_live_sublist entry record.addr).subset member)
  | alloc first =>
      change Ready (ledger.alloc first) second
      constructor
      · intro addr
        rw [alloc_live]
        by_cases same : addr = first.addr
        · subst same
          rw [modify_self]
          unfold Ascending
          rw [List.pairwise_append]
          refine ⟨readyFirst.ascending _, List.pairwise_singleton _ _, ?_⟩
          intro l member last isLast
          cases List.mem_singleton.mp isLast
          exact readyFirst.newest first rfl l member
        · rw [modify_of_ne same]
          exact readyFirst.ascending addr
      · intro record same l member
        rw [alloc_live] at member
        by_cases address : record.addr = first.addr
        · rw [address, modify_self] at member
          obtain member | last := List.mem_append.mp member
          · exact readySecond.newest record same l (address ▸ member)
          · cases List.mem_singleton.mp last
            exact (allowed record same address.symm).1 first rfl
        · rw [modify_of_ne address] at member
          exact readySecond.newest record same l member

theorem retire_comm (sites : List Nat → SiteStats Nat)
    (first second : Option LiveAlloc) :
    retire (retire sites first) second =
      retire (retire sites second) first := by
  cases first with
  | none => rfl
  | some first =>
      cases second with
      | none => rfl
      | some second =>
          unfold retire
          apply modify_comm
          intro _
          unfold SiteStats.addFree
          simp only [Nat.add_right_comm]

theorem retire_addAlloc (sites : List Nat → SiteStats Nat) (record : AllocRecord)
    (taken : Option LiveAlloc) :
    retire (modify sites record.pcs (·.addAlloc record)) taken =
      modify (retire sites taken) record.pcs (·.addAlloc record) := by
  cases taken with
  | none => rfl
  | some l =>
      unfold retire
      exact modify_comm fun _ => rfl

theorem alloc_comm {ledger : Ledger} {first second : AllocRecord}
    (apart : first.addr ≠ second.addr) :
    (ledger.alloc first).alloc second = (ledger.alloc second).alloc first := by
  apply Ledger.ext
  · simp only [alloc_live]
    exact modify_comm fun same => absurd same apart
  · simp only [alloc_sites]
    apply modify_comm
    intro _
    unfold SiteStats.addAlloc
    simp only [Nat.add_right_comm]

/-- An allocation that is not older than a free makes no difference to it. -/
theorem free_alloc_comm {ledger : Ledger} {record : AllocRecord}
    {entry : FreeEntry}
    (later : entry.addr = record.addr → entry.seq ≤ record.seq) :
    (ledger.alloc record).free entry = (ledger.free entry).alloc record := by
  have taken : older entry.seq ((ledger.alloc record).live entry.addr) =
      older entry.seq (ledger.live entry.addr) := by
    rw [alloc_live]
    by_cases same : entry.addr = record.addr
    · rw [same, modify_self]
      exact older_concat (later same)
    · rw [modify_of_ne same]
  apply Ledger.ext
  · rw [free_live, alloc_live, alloc_live, free_live]
    apply modify_comm
    intro same
    unfold pop
    rw [older_concat (later same.symm), newer_concat (later same.symm),
      List.append_assoc]
  · rw [free_sites, taken]
    exact retire_addAlloc _ _ _

theorem free_comm_of_ne {ledger : Ledger} {first second : FreeEntry}
    (apart : first.addr ≠ second.addr) :
    (ledger.free first).free second = (ledger.free second).free first := by
  apply Ledger.ext
  · simp only [free_live]
    exact modify_comm fun same => absurd same apart
  · have atFirst : (ledger.free second).live first.addr =
        ledger.live first.addr := by
      rw [free_live, modify_of_ne apart]
    have atSecond : (ledger.free first).live second.addr =
        ledger.live second.addr := by
      rw [free_live, modify_of_ne (Ne.symm apart)]
    rw [free_sites, free_sites, free_sites, free_sites, atFirst, atSecond]
    exact retire_comm _ _ _

/-- Two frees of one address leave the same list and take the same allocations
in either order. -/
theorem pop_comm {list : List LiveAlloc} (ascending : Ascending list)
    {first second : Nat} (le : first ≤ second)
    (sites : List Nat → SiteStats Nat) :
    pop second (pop first list) = pop first (pop second list) ∧
      retire (retire sites (older first list).getLast?)
          (older second (pop first list)).getLast? =
        retire (retire sites (older second list).getLast?)
          (older first (pop second list)).getLast? := by
  obtain ⟨low, rest, rfl, below, above⟩ := ascending.exists_split first
  obtain ⟨-, ascendingRest, -⟩ := List.pairwise_append.mp ascending
  obtain ⟨middle, high, rfl, belowSecond, aboveSecond⟩ :=
    Ascending.exists_split ascendingRest second
  have belowFirst : ∀ l ∈ low.dropLast, l.seq < first := fun l member =>
    below l (List.dropLast_subset low member)
  have aboveHigh : ∀ l ∈ high, first ≤ l.seq := fun l member =>
    above l (List.mem_append_right middle member)
  obtain rfl | ⟨kept, last, rfl⟩ := List.eq_nil_or_concat middle
  · -- No allocation lies between the two frees.
    have atFirst : SplitAt first low high := ⟨below, aboveHigh⟩
    have atSecond : SplitAt second low high :=
      ⟨fun l member => (below l member).trans_le le, aboveSecond⟩
    have atFirst' : SplitAt first low.dropLast high := ⟨belowFirst, aboveHigh⟩
    have atSecond' : SplitAt second low.dropLast high :=
      ⟨fun l member => (belowFirst l member).trans_le le, aboveSecond⟩
    rw [List.nil_append, atFirst.pop_eq, atSecond.pop_eq,
      atFirst'.pop_eq, atSecond'.pop_eq, atFirst.older_eq,
      atSecond.older_eq, atFirst'.older_eq, atSecond'.older_eq]
    exact ⟨rfl, rfl⟩
  · rw [List.concat_eq_append] at above belowSecond ⊢
    have atFirst : SplitAt first low ((kept ++ [last]) ++ high) :=
      ⟨below, above⟩
    have atFirst' : SplitAt first low (kept ++ high) := by
      refine ⟨below, fun l member => above l ?_⟩
      have sublist : (kept ++ high).Sublist ((kept ++ [last]) ++ high) :=
        (List.sublist_append_left kept [last]).append_right high
      exact sublist.subset member
    have atSecond : ∀ part, (∀ l ∈ part, l ∈ low) →
        SplitAt second ((part ++ kept) ++ [last]) high := by
      intro part inside
      refine ⟨fun l member => ?_, aboveSecond⟩
      rw [List.append_assoc] at member
      obtain member | member := List.mem_append.mp member
      · exact (below l (inside l member)).trans_le le
      · exact belowSecond l member
    have whole := atSecond low fun _ member => member
    have popped := atSecond low.dropLast fun l member =>
      List.dropLast_subset low member
    have list : low ++ ((kept ++ [last]) ++ high) =
        ((low ++ kept) ++ [last]) ++ high := by simp
    have list' : low.dropLast ++ ((kept ++ [last]) ++ high) =
        ((low.dropLast ++ kept) ++ [last]) ++ high := by simp
    rw [atFirst.pop_eq, atFirst.older_eq, list', popped.pop_eq,
      popped.older_eq, list, whole.pop_eq, whole.older_eq,
      List.dropLast_concat, List.dropLast_concat, List.append_assoc low,
      atFirst'.pop_eq, atFirst'.older_eq, List.getLast?_concat,
      List.getLast?_concat, List.append_assoc]
    exact ⟨rfl, retire_comm sites _ _⟩

theorem free_comm_of_le {ledger : Ledger} {first second : FreeEntry}
    (ascending : Ascending (ledger.live first.addr))
    (same : first.addr = second.addr) (le : first.seq ≤ second.seq) :
    (ledger.free first).free second = (ledger.free second).free first := by
  obtain ⟨live, sites⟩ := pop_comm ascending le ledger.sites
  apply Ledger.ext
  · simp only [free_live]
    exact modify_comm fun _ => live
  · simp only [free_sites, free_live, ← same, modify_self]
    exact sites

theorem free_comm {ledger : Ledger} {first second : FreeEntry}
    (ascending : ∀ addr, Ascending (ledger.live addr)) :
    (ledger.free first).free second = (ledger.free second).free first := by
  by_cases same : first.addr = second.addr
  · obtain le | le := Nat.le_total first.seq second.seq
    · exact free_comm_of_le (ascending _) same le
    · exact (free_comm_of_le (ascending _) same.symm le).symm
  · exact free_comm_of_ne same

theorem reorderable : Reorderable Ledger.apply MayPrecede Ready where
  keeps := keeps_ready
  commutes {ledger first second} readyFirst readySecond allowed allowed' := by
    cases first with
    | free first =>
        cases second with
        | free second => exact free_comm readyFirst.ascending
        | alloc second =>
            exact (free_alloc_comm fun same =>
              (allowed second rfl same).2 first rfl).symm
    | alloc first =>
        cases second with
        | free second =>
            exact free_alloc_comm fun same =>
              (allowed' first rfl same).2 second rfl
        | alloc second =>
            apply alloc_comm
            intro same
            have below := (allowed second rfl same).1 first rfl
            have above := (allowed' first rfl same.symm).1 second rfl
            exact Nat.lt_asymm below above

end Ledger

/-! ### Two orders of the same records -/

/-- The allocations of one address come in sequence order, and before each free
of the address with a larger number. -/
structure InOrder (records : List HeapRecord) : Prop where
  allocs : records.Pairwise fun earlier later =>
    ∀ first second : AllocRecord, earlier = .alloc first →
      later = .alloc second → first.addr = second.addr →
      first.seq < second.seq
  frees : records.Pairwise fun earlier later =>
    ∀ (entry : FreeEntry) (record : AllocRecord), earlier = .free entry →
      later = .alloc record → entry.addr = record.addr →
      ¬ record.seq < entry.seq

theorem InOrder.mayPrecede {records : List HeapRecord}
    (inOrder : InOrder records) : records.Pairwise MayPrecede := by
  refine (inOrder.allocs.and inOrder.frees).imp ?_
  intro earlier later both record isAlloc same
  constructor
  · intro first isFirst
    subst isFirst
    exact both.1 first record rfl isAlloc same
  · intro entry isFree
    subst isFree
    exact Nat.not_lt.mp (both.2 entry record rfl isAlloc same)

theorem HeapBook.ledger_applyAll {records : List HeapRecord} {book : HeapBook Nat}
    (balanced : book.Balanced) (order : records.Pairwise MayPrecede)
    (ready : ∀ record ∈ records, Ready book.ledger record) :
    (book.applyAll records).ledger = records.foldl Ledger.apply book.ledger := by
  induction records generalizing book with
  | nil => rfl
  | cons record rest induction =>
      obtain ⟨first, order⟩ := List.pairwise_cons.mp order
      have readyRecord := ready record List.mem_cons_self
      have step : (book.apply record).ledger = book.ledger.apply record := by
        cases record with
        | alloc record => exact book.ledger_applyAlloc record
        | free entry =>
            exact ledger_applyFree balanced (readyRecord.ascending entry.addr)
      rw [List.foldl_cons, ← step]
      refine induction (balanced.apply record) order fun other member => ?_
      rw [step]
      exact Ledger.keeps_ready readyRecord
        (ready other (List.mem_cons_of_mem record member)) (first other member)

theorem ready_empty (record : HeapRecord) :
    Ready ({} : HeapBook Nat).ledger record where
  ascending _ := List.Pairwise.nil
  newest _ _ _ member := absurd member List.not_mem_nil

/-- The final book is the same for any two such orders of the same records. -/
theorem applyAll_order_independent {first second : List HeapRecord}
    (perm : first.Perm second) (inOrderFirst : InOrder first)
    (inOrderSecond : InOrder second) :
    (∀ addr seq,
      (∃ l, (addr, l) ∈ (({} : HeapBook Nat).applyAll first).liveEntries ∧
        l.seq = seq) ↔
      ∃ l, (addr, l) ∈ (({} : HeapBook Nat).applyAll second).liveEntries ∧
        l.seq = seq) ∧
      ∀ pcs, (({} : HeapBook Nat).applyAll first).siteAt pcs =
        (({} : HeapBook Nat).applyAll second).siteAt pcs := by
  have same : (({} : HeapBook Nat).applyAll first).ledger =
      (({} : HeapBook Nat).applyAll second).ledger := by
    rw [HeapBook.ledger_applyAll HeapBook.balanced_empty
        inOrderFirst.mayPrecede fun record _ => ready_empty record,
      HeapBook.ledger_applyAll HeapBook.balanced_empty
        inOrderSecond.mayPrecede fun record _ => ready_empty record]
    exact Ledger.reorderable.foldl_eq_of_perm perm inOrderFirst.mayPrecede
      inOrderSecond.mayPrecede fun record _ => ready_empty record
  have live := congrArg Ledger.live same
  constructor
  · intro addr seq
    simp only [HeapBook.mem_liveEntries]
    rw [show (({} : HeapBook Nat).applyAll first).liveAt addr =
      (({} : HeapBook Nat).applyAll second).liveAt addr from congrFun live addr]
  · exact congrFun (congrArg Ledger.sites same)

/-- An address reused at every step, with its frees in sequence. -/
def churnInSequence : List HeapRecord :=
  [.alloc ⟨1, 0x1000, 100, [0xa]⟩, .free ⟨2, 0x1000⟩,
    .alloc ⟨3, 0x1000, 200, [0xa]⟩, .free ⟨4, 0x1000⟩]

/-- The same records, the frees late and the other way round. -/
def churnLate : List HeapRecord :=
  [.alloc ⟨1, 0x1000, 100, [0xa]⟩, .alloc ⟨3, 0x1000, 200, [0xa]⟩,
    .free ⟨4, 0x1000⟩, .free ⟨2, 0x1000⟩]

theorem inOrder_churn : InOrder churnInSequence ∧ InOrder churnLate := by
  have order : ∀ records ∈ [churnInSequence, churnLate],
      records.Pairwise fun earlier later =>
        ∀ record ∈ Sismo.Heap.allocs [later], earlier.seq < record.seq := by
    decide
  have inOrder : ∀ records ∈ [churnInSequence, churnLate],
      InOrder records := by
    intro records member
    constructor
    · refine (order records member).imp ?_
      intro earlier later less first second isFirst isSecond _
      subst isFirst isSecond
      exact less second List.mem_cons_self
    · refine (order records member).imp ?_
      intro earlier later less entry record isFree isAlloc _
      subst isFree isAlloc
      exact Nat.lt_asymm (less record List.mem_cons_self)
  exact ⟨inOrder _ List.mem_cons_self, inOrder _ (by simp)⟩

theorem applyAll_order_independent_churn :
    (({} : HeapBook Nat).applyAll churnInSequence).siteAt [0xa] =
      (({} : HeapBook Nat).applyAll churnLate).siteAt [0xa] :=
  (applyAll_order_independent (by decide) inOrder_churn.1
    inOrder_churn.2).2 [0xa]

end Sismo.Heap
