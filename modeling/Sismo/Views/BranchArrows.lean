import Mathlib.Data.List.Induction
import Mathlib.Data.List.Sort
import Mathlib.Logic.Function.Basic
import Sismo.Lib.FirstFit

namespace Sismo.Views.BranchArrows

/-! Lane assignment for the branch arrows of a disassembly. Each local jump is
an arc from its row to the row of its target. -/

structure Insn where
  relPc : Int
  branchTargetRelPc : Option Int
  deriving DecidableEq, Repr

structure Pending where
  fromIdx : Nat
  toIdx : Nat
  backEdge : Bool
  deriving DecidableEq, Repr

structure Arc extends Pending where
  lane : Nat
  deriving DecidableEq, Repr

structure ArcLayout where
  arcs : List Arc
  laneCount : Nat
  deriving DecidableEq, Repr

def ArcLayout.empty : ArcLayout := ⟨[], 0⟩

/-- The rows by their addresses; a later row replaces an earlier one. -/
def idxByRel (insns : List Insn) : Int → Option Nat :=
  insns.zipIdx.foldl
    (fun rows entry => Function.update rows entry.1.relPc (some entry.2))
    fun _ => none

def resolve (idxByRel : Int → Option Nat) (i : Nat) (insn : Insn) :
    Option Pending :=
  match insn.branchTargetRelPc with
  | none => none
  | some target =>
      match idxByRel target with
      | none => none
      | some toIdx =>
          if toIdx = i then none else some ⟨i, toIdx, decide (toIdx ≤ i)⟩

def pending (insns : List Insn) : List Pending :=
  insns.zipIdx.filterMap fun entry =>
    resolve (idxByRel insns) entry.2 entry.1

namespace Pending

def span (a : Pending) : Nat := ((a.fromIdx : Int) - a.toIdx).natAbs

def Shorter (a b : Pending) : Prop := a.span ≤ b.span

instance : DecidableRel Shorter := fun a b =>
  inferInstanceAs (Decidable (a.span ≤ b.span))

def lo (a : Pending) : Nat := min a.fromIdx a.toIdx

def hi (a : Pending) : Nat := max a.fromIdx a.toIdx

end Pending

/-- No row of one interval is in the other. -/
def clear (rows other : Nat × Nat) : Bool :=
  decide (rows.2 < other.1) || decide (other.2 < rows.1)

structure Placing where
  arcs : List Arc
  laneIntervals : List (List (Nat × Nat))
  deriving DecidableEq, Repr

/-- The arc goes to the lowest lane where it overlaps no other; the search
tries at most `fuel` lanes. -/
def placeArc (fuel : Nat) (placing : Placing) (p : Pending) : Option Placing :=
  (FirstFit.place clear (p.lo, p.hi) fuel placing.laneIntervals 0).map
    fun placed => ⟨placing.arcs ++ [⟨p, placed.2⟩], placed.1⟩

def layoutArcs (fuel : Nat) (insns : List Insn) : Option ArcLayout :=
  if insns = [] then some .empty
  else if pending insns = [] then some .empty
  else
    (((pending insns).insertionSort Pending.Shorter).foldlM (placeArc fuel)
      ⟨[], []⟩).map fun placing =>
        ⟨placing.arcs, placing.laneIntervals.length⟩

def LastAt (insns : List Insn) (target : Int) (row : Nat) : Prop :=
  (∃ insn, insns[row]? = some insn ∧ insn.relPc = target) ∧
    ∀ later insn, row < later → insns[later]? = some insn →
      insn.relPc ≠ target

def Branches (insns : List Insn) (fromIdx toIdx : Nat) : Prop :=
  ∃ insn target, insns[fromIdx]? = some insn ∧
    insn.branchTargetRelPc = some target ∧ LastAt insns target toIdx ∧
      toIdx ≠ fromIdx

theorem idxByRel_concat (insns : List Insn) (last : Insn) :
    idxByRel (insns ++ [last]) =
      Function.update (idxByRel insns) last.relPc (some insns.length) := by
  unfold idxByRel
  rw [List.zipIdx_append, List.foldl_append, Nat.zero_add]
  rfl

theorem lastAt_concat {insns : List Insn} {last : Insn} {target : Int}
    {row : Nat} :
    LastAt (insns ++ [last]) target row ↔
      if target = last.relPc then row = insns.length
      else LastAt insns target row := by
  have final : (insns ++ [last])[insns.length]? = some last := by
    rw [List.getElem?_append_right (Nat.le_refl _), Nat.sub_self]
    rfl
  have before : ∀ {i : Nat} {insn : Insn}, insns[i]? = some insn →
      (insns ++ [last])[i]? = some insn := by
    intro i insn found
    rw [List.getElem?_append_left (List.getElem?_eq_some_iff.mp found).1, found]
  have split : ∀ {i : Nat} {insn : Insn}, (insns ++ [last])[i]? = some insn →
      insns[i]? = some insn ∨ (i = insns.length ∧ insn = last) := by
    intro i insn found
    rcases Nat.lt_trichotomy i insns.length with less | rfl | more
    · rw [List.getElem?_append_left less] at found
      exact .inl found
    · rw [final] at found
      exact .inr ⟨rfl, (Option.some.inj found).symm⟩
    · rw [List.getElem?_eq_none] at found
      · cases found
      · rw [List.length_append, List.length_singleton]
        exact more
  split_ifs with same
  · constructor
    · rintro ⟨⟨insn, found, -⟩, none⟩
      have below := (List.getElem?_eq_some_iff.mp found).1
      rw [List.length_append, List.length_singleton] at below
      rcases Nat.lt_or_eq_of_le (Nat.le_of_lt_succ below) with less | rfl
      · exact absurd same.symm (none _ last less final)
      · rfl
    · rintro rfl
      refine ⟨⟨last, final, same.symm⟩, ?_⟩
      intro later insn above found
      have below := (List.getElem?_eq_some_iff.mp found).1
      rw [List.length_append, List.length_singleton] at below
      omega
  · constructor
    · rintro ⟨⟨insn, found, there⟩, none⟩
      rcases split found with inside | ⟨-, rfl⟩
      · refine ⟨⟨insn, inside, there⟩, ?_⟩
        intro later other above found'
        exact none later other above (before found')
      · exact absurd there.symm same
    · rintro ⟨⟨insn, found, there⟩, none⟩
      refine ⟨⟨insn, before found, there⟩, ?_⟩
      intro later other above found'
      rcases split found' with inside | ⟨-, rfl⟩
      · exact none later other above inside
      · exact fun equal => same equal.symm

theorem idxByRel_eq_some_iff {insns : List Insn} {target : Int} {row : Nat} :
    idxByRel insns target = some row ↔ LastAt insns target row := by
  induction insns using List.reverseRecOn generalizing row with
  | nil =>
      apply iff_of_false
      · intro found
        cases found
      · intro last
        obtain ⟨insn, found, -⟩ := last.1
        cases found
  | append_singleton insns last induction =>
      rw [idxByRel_concat, lastAt_concat, Function.update_apply]
      split
      · constructor
        · intro same
          exact (Option.some.inj same).symm
        · intro same
          rw [same]
      · exact induction

theorem resolve_eq_some {rows : Int → Option Nat} {i : Nat} {insn : Insn}
    {p : Pending} (resolved : resolve rows i insn = some p) :
    p.fromIdx = i ∧ p.toIdx ≠ i ∧
      ∃ target, insn.branchTargetRelPc = some target ∧
        rows target = some p.toIdx := by
  unfold resolve at resolved
  split at resolved
  · cases resolved
  · next target branch =>
      split at resolved
      · cases resolved
      · next toIdx found =>
          split at resolved
          · cases resolved
          · next other =>
              cases resolved
              exact ⟨rfl, other, target, branch, found⟩

theorem mem_pending {insns : List Insn} {fromIdx toIdx : Nat} :
    (∃ p ∈ pending insns, p.fromIdx = fromIdx ∧ p.toIdx = toIdx) ↔
      Branches insns fromIdx toIdx := by
  constructor
  · rintro ⟨p, member, rfl, rfl⟩
    obtain ⟨entry, inside, resolved⟩ := List.mem_filterMap.mp member
    obtain ⟨there, other, target, branch, found⟩ := resolve_eq_some resolved
    have row := List.mem_zipIdx_iff_getElem?.mp inside
    rw [← there] at row other
    exact ⟨entry.1, target, row, branch, idxByRel_eq_some_iff.mp found, other⟩
  · rintro ⟨insn, target, row, branch, last, other⟩
    have found := idxByRel_eq_some_iff.mpr last
    refine ⟨⟨fromIdx, toIdx, decide (toIdx ≤ fromIdx)⟩, ?_, rfl, rfl⟩
    apply List.mem_filterMap.mpr
    refine ⟨(insn, fromIdx), List.mem_zipIdx_iff_getElem?.mpr row, ?_⟩
    unfold resolve
    simp only [branch, found, if_neg other]

/-- A row has one arc. -/
theorem pending_nodup (insns : List Insn) :
    ((pending insns).map (·.fromIdx)).Nodup := by
  have ascending : insns.zipIdx.Pairwise fun a b => a.2 < b.2 := by
    apply List.pairwise_map.mp
    rw [List.zipIdx_map_snd]
    exact List.pairwise_lt_range'
  apply List.pairwise_map.mpr
  apply ascending.filterMap
  intro first second less p resolved q resolved'
  rw [(resolve_eq_some resolved).1, (resolve_eq_some resolved').1]
  exact Nat.ne_of_lt less

theorem length_pending (insns : List Insn) :
    (pending insns).length ≤ insns.length := by
  have filtered := List.length_filterMap_le
    (fun entry : Insn × Nat => resolve (idxByRel insns) entry.2 entry.1)
    insns.zipIdx
  rwa [List.length_zipIdx] at filtered

structure Placed (placing : Placing) (done : List Pending) : Prop where
  arcs : placing.arcs.map (·.toPending) = done
  lanes : FirstFit.Packed clear
    (placing.arcs.map fun arc => ((arc.lo, arc.hi), arc.lane))
    placing.laneIntervals

theorem Placed.placeArc {placing : Placing} {done : List Pending}
    (placed : Placed placing done) (p : Pending) {fuel : Nat}
    (enough : done.length < fuel) :
    ∃ next, placeArc fuel placing p = some next ∧ Placed next (done ++ [p]) := by
  have few := placed.lanes.few
  rw [List.length_map] at few
  have count : placing.arcs.length = done.length := by
    rw [← placed.arcs, List.length_map]
  have room : placing.laneIntervals.length < 0 + fuel := by omega
  obtain ⟨lane, within, found, free⟩ :=
    @FirstFit.place_eq_some _ clear (p.lo, p.hi) _ _ _ (Nat.zero_le _) room
  refine ⟨_, by rw [BranchArrows.placeArc, found]; rfl, ?_, ?_⟩
  · rw [List.map_append, placed.arcs]
    rfl
  · rw [List.map_append]
    exact placed.lanes.place within free

theorem Placed.foldlM (todo : List Pending) {placing : Placing}
    {done : List Pending} (placed : Placed placing done) {fuel : Nat}
    (enough : done.length + todo.length ≤ fuel) :
    ∃ last, todo.foldlM (BranchArrows.placeArc fuel) placing = some last ∧
      Placed last (done ++ todo) := by
  induction todo generalizing placing done with
  | nil =>
      rw [List.append_nil]
      exact ⟨placing, rfl, placed⟩
  | cons p todo induction =>
      rw [List.length_cons] at enough
      have room : done.length < fuel := by omega
      obtain ⟨next, found, step⟩ := placed.placeArc p room
      obtain ⟨last, run, final⟩ := induction step (by
        rw [List.length_append, List.length_singleton]
        omega)
      rw [List.append_assoc] at final
      refine ⟨last, ?_, final⟩
      rw [List.foldlM_cons, found]
      exact run

theorem placeArc_mono {fuel more : Nat} (le : fuel ≤ more)
    {placing next : Placing} {p : Pending}
    (placed : placeArc fuel placing p = some next) :
    placeArc more placing p = some next := by
  unfold placeArc at placed ⊢
  obtain ⟨result, found, rfl⟩ := Option.map_eq_some_iff.mp placed
  rw [FirstFit.place_mono le found]
  rfl

theorem foldlM_placeArc_mono {fuel more : Nat} (le : fuel ≤ more)
    {todo : List Pending} {placing last : Placing}
    (run : todo.foldlM (placeArc fuel) placing = some last) :
    todo.foldlM (placeArc more) placing = some last := by
  induction todo generalizing placing with
  | nil => exact run
  | cons p todo induction =>
      rw [List.foldlM_cons] at run ⊢
      obtain ⟨next, found, rest⟩ := Option.bind_eq_some_iff.mp run
      apply Option.bind_eq_some_iff.mpr
      exact ⟨next, placeArc_mono le found, induction rest⟩

theorem clear_iff {rows other : Nat × Nat} :
    clear rows other = true ↔ rows.2 < other.1 ∨ other.2 < rows.1 := by
  rw [clear, Bool.or_eq_true, decide_eq_true_iff, decide_eq_true_iff]

/-- The layout of any listing, from what its last arc leaves. -/
theorem exists_layout (insns : List Insn) :
    ∃ placing, Placed placing
        ((pending insns).insertionSort Pending.Shorter) ∧
      ∀ fuel, insns.length ≤ fuel → layoutArcs fuel insns =
        some ⟨placing.arcs, placing.laneIntervals.length⟩ := by
  have start : Placed ⟨[], []⟩ [] := ⟨rfl, FirstFit.Packed.nil⟩
  have count := List.length_insertionSort Pending.Shorter (pending insns)
  have few := length_pending insns
  have room : ([] : List Pending).length +
      ((pending insns).insertionSort Pending.Shorter).length ≤
        insns.length := by
    rw [count, List.length_nil, Nat.zero_add]
    exact few
  obtain ⟨placing, run, placed⟩ := start.foldlM _ room
  refine ⟨placing, placed, ?_⟩
  intro fuel enough
  unfold layoutArcs
  split
  · next none =>
      subst none
      cases run
      rfl
  · split
    · next none =>
        rw [none] at run
        cases run
        rfl
    · rw [foldlM_placeArc_mono enough run]
      rfl

/-- Every branch to another row has one arc, arcs in one lane share no row,
and the lanes are those up to the last one used. -/
theorem arcs_never_overlap (insns : List Insn) :
    ∃ layout : ArcLayout,
      (∀ fuel, insns.length ≤ fuel → layoutArcs fuel insns = some layout) ∧
      (layout.arcs.map (·.fromIdx)).Nodup ∧
      (∀ fromIdx toIdx,
        (∃ arc ∈ layout.arcs, arc.fromIdx = fromIdx ∧ arc.toIdx = toIdx) ↔
          Branches insns fromIdx toIdx) ∧
      (layout.arcs.Pairwise fun first second => first.lane = second.lane →
        first.hi < second.lo ∨ second.hi < first.lo) ∧
      ((layout.arcs = [] ∧ layout.laneCount = 0) ∨
        ∃ last ∈ layout.arcs, layout.laneCount = last.lane + 1 ∧
          ∀ arc ∈ layout.arcs, arc.lane ≤ last.lane) := by
  obtain ⟨placing, placed, run⟩ := exists_layout insns
  have sorted : (placing.arcs.map (·.toPending)).Perm (pending insns) := by
    rw [placed.arcs]
    exact List.perm_insertionSort Pending.Shorter (pending insns)
  refine ⟨⟨placing.arcs, placing.laneIntervals.length⟩, run, ?_, ?_, ?_, ?_⟩
  · have rows := sorted.map (·.fromIdx)
    rw [List.map_map] at rows
    exact rows.nodup_iff.mpr (pending_nodup insns)
  · intro fromIdx toIdx
    rw [← mem_pending]
    constructor
    · rintro ⟨arc, member, there⟩
      have inside := List.mem_map_of_mem (f := (·.toPending)) member
      exact ⟨arc.toPending, sorted.mem_iff.mp inside, there⟩
    · rintro ⟨p, member, there⟩
      obtain ⟨arc, inside, rfl⟩ := List.mem_map.mp (sorted.mem_iff.mpr member)
      exact ⟨arc, inside, there⟩
  · apply (List.pairwise_map.mp placed.lanes.apart).imp
    intro first second apart same
    exact (clear_iff.mp (apart same)).symm
  · rcases placed.lanes.length_eq with ⟨none, zero⟩ | ⟨last, member, count, top⟩
    · exact .inl ⟨List.map_eq_nil_iff.mp none, zero⟩
    · obtain ⟨arc, inside, rfl⟩ := List.mem_map.mp member
      refine .inr ⟨arc, inside, count, ?_⟩
      intro other member'
      exact top _ (List.mem_map_of_mem member')

/-- Two loops to one row take two lanes, the tighter one the first. -/
example : layoutArcs 4 [⟨0, none⟩, ⟨8, some 0⟩, ⟨4, some 0⟩, ⟨12, some 12⟩] =
    some ⟨[⟨⟨1, 0, true⟩, 0⟩, ⟨⟨2, 0, true⟩, 1⟩], 2⟩ := by
  decide

end Sismo.Views.BranchArrows
