import Sismo.Samples.Interner
import Sismo.Symbolize.Kallsyms

namespace Sismo.Symbolize

/-! Kernel frames from the capture to the symbolizer: the rebase onto the
synthetic base, and the way back. -/

open Samples (KernelFrame kernelFrame kernelSynthBase)

def frameRelPc : KernelFrame → Nat
  | .rebased relPc => relPc
  | .bare => 0

def relPcs (kbase : Nat) (pcs : List Nat) : List Nat :=
  ((pcs.filter (· ≠ 0)).filterMap (kernelFrame kbase)).map frameRelPc

/-- `add_kernel_module` without a vmlinux image, over the sampled addresses. -/
def kernelModule (search : BinarySearch) (kallsyms : List Char)
    (addresses : List Nat) : SymModule where
  baseAvma := kernelSynthBase
  endAvma := endOf addresses kernelSynthBase
  fallbacks := kernelFallbacks search kallsyms

/-- What is promised of one captured pc. -/
structure PcRight (search : BinarySearch) (kallsyms : List Char)
    (pcs : List Nat) (pc : Nat) : Prop where
  rebased : (∃ relPc, kernelFrame (kernelTextBase kallsyms) pc =
      some (.rebased relPc)) ↔
    kernelTextBase kallsyms ≠ 0 ∧ kernelTextBase kallsyms ≤ pc
  address : ∀ relPc, kernelFrame (kernelTextBase kallsyms) pc =
      some (.rebased relPc) → kernelSynthBase ≤ relPc ∧ relPc < 2 ^ 64
  distinct : ∀ relPc other, kernelFrame (kernelTextBase kallsyms) pc =
      some (.rebased relPc) → kernelFrame (kernelTextBase kallsyms) other =
      some (.rebased relPc) → other = pc
  named : ∀ relPc, kernelFrame (kernelTextBase kallsyms) pc =
      some (.rebased relPc) → (∀ stop, etext kallsyms = some stop → pc < stop) →
    ∃ line offset, NearestText kallsyms pc line ∧
      resolve [kernelModule search kallsyms
        (relPcs (kernelTextBase kallsyms) pcs)] relPc =
        some (some (String.ofList line.name, offset))
  unnamed : ∀ relPc stop, kernelFrame (kernelTextBase kallsyms) pc =
      some (.rebased relPc) → etext kallsyms = some stop → stop ≤ pc →
    resolve [kernelModule search kallsyms
      (relPcs (kernelTextBase kallsyms) pcs)] relPc = some none

def FramesRight (search : BinarySearch) (kallsyms : List Char)
    (pcs : List Nat) : Prop :=
  ∀ pc ∈ pcs, pc ≠ 0 → PcRight search kallsyms pcs pc

/-- A pc that is rebased is less than 2 GiB above the base; below `_etext` it
has a text symbol from the base on, and is not the last of these addresses;
from `_etext` on it has none, is the last of them, or has an `_etext` that is
not below the base. -/
structure PcNear (kallsyms : List Char) (base pc : Nat) : Prop where
  near : pc - base < 2 ^ 31
  covered : (∀ stop, etext kallsyms = some stop → pc < stop) →
    TextBelow kallsyms base pc ∧ pc - base ≠ 2 ^ 31 - 1
  ended : ∀ stop, etext kallsyms = some stop → stop ≤ pc →
    (∃ ending, etextFrom kallsyms base = some ending ∧ ending ≤ pc) ∨
      ¬ TextBelow kallsyms base pc ∨ pc - base = 2 ^ 31 - 1

/-- Every captured pc that is rebased is near the base. -/
def FramesNear (kallsyms : List Char) (pcs : List Nat) : Prop :=
  ∀ pc ∈ pcs, pc ≠ 0 → kernelTextBase kallsyms ≠ 0 →
    kernelTextBase kallsyms ≤ pc →
    PcNear kallsyms (kernelTextBase kallsyms) pc

section

variable {kbase pc relPc : Nat}

theorem kernelFrame_eq_rebased :
    kernelFrame kbase pc = some (.rebased relPc) ↔
      (kbase ≠ 0 ∧ kbase ≤ pc) ∧ pc - kbase < 2 ^ 31 ∧
        relPc = pc - kbase + kernelSynthBase := by
  have synth : kernelSynthBase = 2 ^ 64 - 2 ^ 31 := rfl
  rw [kernelFrame]
  split
  · next above =>
      split
      · next wide => exact iff_of_false (by simp) fun both => by omega
      · next fits =>
          rw [Option.some.injEq, KernelFrame.rebased.injEq]
          exact ⟨fun same => ⟨above, by omega, same.symm⟩,
            fun both => both.2.2.symm⟩
  · next below => exact iff_of_false (by simp) fun both => below both.1

theorem mem_relPcs {pcs : List Nat} (member : pc ∈ pcs) (nonzero : pc ≠ 0)
    (frame : kernelFrame kbase pc = some (.rebased relPc)) :
    relPc ∈ relPcs kbase pcs := by
  refine List.mem_map.mpr ⟨.rebased relPc, ?_, rfl⟩
  refine List.mem_filterMap.mpr ⟨pc, ?_, frame⟩
  exact List.mem_filter.mpr ⟨member, by simpa using nonzero⟩

theorem textBaseOf_of_ne_zero {kallsyms : List Char}
    (known : kernelTextBase kallsyms ≠ 0) :
    textBaseOf kallsyms = some (kernelTextBase kallsyms) := by
  rw [kernelTextBase] at known ⊢
  cases found : textBaseOf kallsyms with
  | none =>
      rw [found] at known
      exact absurd rfl known
  | some base => rfl

theorem resolve_kernelModule (search : BinarySearch) (kallsyms : List Char)
    {pcs : List Nat} (member : pc ∈ pcs) (nonzero : pc ≠ 0)
    (frame : kernelFrame kbase pc = some (.rebased relPc)) :
    resolve [kernelModule search kallsyms (relPcs kbase pcs)] relPc =
      if pc - kbase = 2 ^ 31 - 1 then some none
      else firstAnswer (kernelFallbacks search kallsyms) (pc - kbase) := by
  obtain ⟨_, near, same⟩ := kernelFrame_eq_rebased.mp frame
  have synth : kernelSynthBase = 2 ^ 64 - 2 ^ 31 := rfl
  have inRange := @lt_endOf _ kernelSynthBase _
    (mem_relPcs member nonzero frame)
  rw [resolve_single (show kernelSynthBase ≤ relPc by omega)]
  have difference : relPc - kernelSynthBase = pc - kbase := by omega
  by_cases last : pc - kbase = 2 ^ 31 - 1
  · rw [if_pos last, if_neg]
    intro inside
    have := inRange.mp inside
    omega
  · rw [if_neg last, if_pos]
    · rw [← difference]
      rfl
    · exact inRange.mpr (by omega)

end

section

variable (search : BinarySearch) {kallsyms : List Char} {pcs : List Nat}
  {pc : Nat}

theorem etextFrom_of_etext {base stop : Nat}
    (last : etext kallsyms = some stop) (le : base ≤ stop) :
    etextFrom kallsyms base = some stop := by
  rw [etext, Option.map_eq_some_iff] at last
  obtain ⟨line, last, rfl⟩ := last
  obtain ⟨before, split⟩ := List.getLast?_eq_some_iff.mp last
  have both : (kallsymsLines kallsyms).filter (fun line =>
      base ≤ line.addr ∧ line.name = etextName) =
      ((kallsymsLines kallsyms).filter (·.name = etextName)).filter
        fun line => base ≤ line.addr := by
    rw [List.filter_filter]
    exact List.filter_congr fun line _ => by simp
  rw [etextFrom, both, split, List.filter_append]
  simp [le]

theorem lt_etextFrom {base : Nat} (above : base ≤ pc)
    (running : ∀ stop, etext kallsyms = some stop → pc < stop) {ending : Nat}
    (found : etextFrom kallsyms base = some ending) : pc < ending := by
  have named : ∃ stop, etext kallsyms = some stop := by
    rw [etextFrom, Option.map_eq_some_iff] at found
    obtain ⟨line, last, _⟩ := found
    have member := List.mem_of_getLast? last
    rw [List.mem_filter, decide_eq_true_eq] at member
    have listed : line ∈ (kallsymsLines kallsyms).filter
        (·.name = etextName) :=
      List.mem_filter.mpr ⟨member.1, by simpa using member.2.2⟩
    rw [etext, List.getLast?_eq_some_getLast (List.ne_nil_of_mem listed)]
    exact ⟨_, rfl⟩
  obtain ⟨stop, last⟩ := named
  have before := running stop last
  have same := etextFrom_of_etext last (above.trans before.le)
  rw [found, Option.some.injEq] at same
  rw [same]
  exact before

theorem pcRight_of_near (member : pc ∈ pcs) (nonzero : pc ≠ 0)
    (near : kernelTextBase kallsyms ≠ 0 → kernelTextBase kallsyms ≤ pc →
      PcNear kallsyms (kernelTextBase kallsyms) pc) :
    PcRight search kallsyms pcs pc := by
  have synth : kernelSynthBase = 2 ^ 64 - 2 ^ 31 := rfl
  refine ⟨?_, ?_, ?_, ?_, ?_⟩
  · constructor
    · rintro ⟨relPc, frame⟩
      exact (kernelFrame_eq_rebased.mp frame).1
    · intro above
      have close := (near above.1 above.2).near
      exact ⟨_, kernelFrame_eq_rebased.mpr ⟨above, close, rfl⟩⟩
  · intro relPc frame
    have := kernelFrame_eq_rebased.mp frame
    omega
  · intro relPc other frame otherFrame
    have first := kernelFrame_eq_rebased.mp frame
    have second := kernelFrame_eq_rebased.mp otherFrame
    omega
  · intro relPc frame running
    obtain ⟨⟨known, above⟩, _⟩ := kernelFrame_eq_rebased.mp frame
    obtain ⟨covered, notLast⟩ := (near known above).covered running
    have close := (near known above).near
    obtain ⟨line, offset, nearest, answer⟩ := answer_of_covered search
      (textBaseOf_of_ne_zero known) covered (by omega)
      fun stop => lt_etextFrom above running
    refine ⟨line, offset, nearest, ?_⟩
    rw [resolve_kernelModule search kallsyms member nonzero frame,
      if_neg notLast, answer]
  · intro relPc stop frame last past
    obtain ⟨⟨known, above⟩, _⟩ := kernelFrame_eq_rebased.mp frame
    have base := textBaseOf_of_ne_zero known
    rw [resolve_kernelModule search kallsyms member nonzero frame]
    rcases (near known above).ended stop last past with
      ⟨ending, found, le⟩ | uncovered | top
    · rw [answer_of_ended search base found le]
      split <;> rfl
    · rw [answer_of_uncovered search base above uncovered]
      split <;> rfl
    · rw [if_pos top]

theorem near_of_pcRight (member : pc ∈ pcs) (nonzero : pc ≠ 0)
    (right : PcRight search kallsyms pcs pc)
    (known : kernelTextBase kallsyms ≠ 0)
    (above : kernelTextBase kallsyms ≤ pc) :
    PcNear kallsyms (kernelTextBase kallsyms) pc := by
  obtain ⟨relPc, frame⟩ := right.rebased.mpr ⟨known, above⟩
  have base := textBaseOf_of_ne_zero known
  have close := (kernelFrame_eq_rebased.mp frame).2.1
  have result := resolve_kernelModule search kallsyms member nonzero frame
  refine ⟨close, ?_, ?_⟩
  · intro running
    obtain ⟨line, offset, _, found⟩ := right.named relPc frame running
    rw [result] at found
    split at found
    · cases found
    · next notLast =>
        refine ⟨?_, notLast⟩
        by_contra uncovered
        rw [answer_of_uncovered search base above uncovered] at found
        cases found
  · intro stop last past
    have none := right.unnamed relPc stop frame last past
    rw [result] at none
    by_contra named
    rw [not_or, not_or, not_not] at named
    obtain ⟨unbounded, covered, notLast⟩ := named
    obtain ⟨line, offset, _, answer⟩ := answer_of_covered search base covered
      (by omega) fun ending found => by
        by_contra le
        exact unbounded ⟨ending, found, Nat.not_lt.mp le⟩
    rw [if_neg notLast, answer] at none
    cases none

end

/-- Kernel frames get the names of their symbols exactly where every captured
pc is near the base. -/
theorem framesRight_iff_near (search : BinarySearch) (kallsyms : List Char)
    (pcs : List Nat) :
    FramesRight search kallsyms pcs ↔ FramesNear kallsyms pcs := by
  constructor
  · intro right pc member nonzero known above
    exact near_of_pcRight search member nonzero (right pc member nonzero) known
      above
  · intro near pc member nonzero
    exact pcRight_of_near search member nonzero (near pc member nonzero)

/-- A kernel whose modules lie 2 GiB above its text. -/
def distantKallsyms : List Char :=
  "ffff800080000000 T _text\nffff800081200000 D _etext\n".toList ++
    "ffff800100000000 t hook_entry\t[hook]\n".toList

/-- The rebase of a pc in a module overflows. -/
theorem not_framesRight_distant :
    ¬ FramesRight partitionSearch distantKallsyms [0xffff800100000000] := by
  intro right
  have base : kernelTextBase distantKallsyms = 0xffff800080000000 := by
    decide +kernel
  have panics : kernelFrame 0xffff800080000000 0xffff800100000000 = none := by
    decide
  have rebased := (right 0xffff800100000000 List.mem_cons_self
    (by decide)).rebased
  rw [base, panics] at rebased
  obtain ⟨relPc, frame⟩ := rebased.mpr (by decide)
  cases frame

end Sismo.Symbolize
