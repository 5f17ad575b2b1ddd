import Sismo.Elf.DynSyms
import Sismo.Go.FuncNames
import Sismo.Symbolize.Symbolizer

/-! The names-only sources of a file, and the named ranges behind their
answers. -/

namespace Sismo.Elf.DynSyms

variable {d : DynSyms} {rel : Nat}

/-- Where a symbol ends: by its size, or without one at the next greater
value. -/
def stopOf (d : DynSyms) (s : Sym) : Nat :=
  if 0 < s.size then s.value + s.size
  else ((d.syms.map Sym.value).filter (s.value < ·)).min?.getD (2 ^ 64 - 1)

/-- Symbols end below 2⁶⁴, and two that meet have the same range. -/
structure Flat (d : DynSyms) : Prop where
  ends : ∀ s ∈ d.syms, s.value + s.size < 2 ^ 64
  apart : d.syms.Pairwise fun first second =>
    first.value < second.value ∧ first.value + first.size ≤ second.value ∨
      first.value = second.value ∧ first.size = second.size ∧ 0 < first.size

theorem lt_stopOf_of_unsized {s : Sym} (unsized : ¬ 0 < s.size) :
    rel < d.stopOf s ↔ rel < 2 ^ 64 - 1 ∧
      ∀ t ∈ d.syms, s.value < t.value → rel < t.value := by
  have greater : ∀ value, value ∈ (d.syms.map Sym.value).filter (s.value < ·) ↔
      (∃ t ∈ d.syms, t.value = value) ∧ s.value < value := by
    simp
  rw [stopOf, if_neg unsized]
  cases least : ((d.syms.map Sym.value).filter (s.value < ·)).min? with
  | none =>
      have empty := List.min?_eq_none_iff.mp least
      refine ⟨fun lt => ⟨lt, fun t member above => ?_⟩, fun both => both.1⟩
      have listed := (greater t.value).mpr ⟨⟨t, member, rfl⟩, above⟩
      rw [empty] at listed
      cases listed
  | some stop =>
      obtain ⟨listed, lowest⟩ := List.min?_eq_some_iff.mp least
      obtain ⟨⟨t, member, rfl⟩, above⟩ := (greater stop).mp listed
      have small := t.value_lt
      constructor
      · intro lt
        change rel < t.value at lt
        refine ⟨by omega, fun u among beyond => lt.trans_le ?_⟩
        exact lowest u.value ((greater u.value).mpr ⟨⟨u, among, rfl⟩, beyond⟩)
      · exact fun both => both.2 t member above

/-- At an index, in a flat table, the lookup's bound is the symbol's end. -/
theorem Flat.reaches_iff (flat : d.Flat) {index : Nat} {s : Sym}
    (found : d.syms[index]? = some s) :
    Reaches d rel index s ↔ rel < d.stopOf s := by
  rw [Reaches]
  split
  · next sized => rw [stopOf, if_pos sized]
  · next unsized =>
      rw [lt_stopOf_of_unsized unsized]
      obtain ⟨within, here⟩ := List.getElem?_eq_some_iff.mp found
      cases after : d.syms[index + 1]? with
      | none =>
          refine ⟨fun lt => ⟨lt, fun t member above => ?_⟩, fun both => both.1⟩
          obtain ⟨j, atJ⟩ := List.mem_iff_getElem?.mp member
          have before : j ≤ index := by
            have := (List.getElem?_eq_some_iff.mp atJ).1
            have := List.getElem?_eq_none_iff.mp after
            omega
          have := SearchAnswer.getElem?_le d.values_sorted before
            (getElem?_values atJ) (getElem?_values found)
          omega
      | some next =>
          obtain ⟨afterWithin, there⟩ := List.getElem?_eq_some_iff.mp after
          have small := next.value_lt
          have above : s.value < next.value := by
            have apart := List.pairwise_iff_getElem.mp flat.apart index
              (index + 1) within afterWithin (Nat.lt_succ_self index)
            rw [here, there] at apart
            rcases apart with less | same
            · exact less.1
            · exact absurd same.2.2 unsized
          constructor
          · intro lt
            change rel < next.value at lt
            refine ⟨by omega, fun t member beyond => ?_⟩
            obtain ⟨j, atJ⟩ := List.mem_iff_getElem?.mp member
            have order : index + 1 ≤ j := by
              by_contra before
              have := SearchAnswer.getElem?_le d.values_sorted
                (show j ≤ index by omega) (getElem?_values atJ)
                (getElem?_values found)
              omega
            exact lt.trans_le (SearchAnswer.getElem?_le d.values_sorted order
              (getElem?_values after) (getElem?_values atJ))
          · intro both
            exact both.2 next (List.mem_of_getElem? after) above

/-- If the symbol the search arrives at does not have the address, none has. -/
theorem Flat.lt_stopOf_of_lands (flat : d.Flat) {index : Nat} {s t : Sym}
    (lands : SearchAnswer.Lands d.values rel index)
    (found : d.syms[index]? = some s) (member : t ∈ d.syms)
    (le : t.value ≤ rel) (lt : rel < d.stopOf t) : rel < d.stopOf s := by
  have greatest := (lands.greatest d.values_sorted (getElem?_values found)).2
    t.value (List.mem_map_of_mem member) le
  have low := (lands.greatest d.values_sorted (getElem?_values found)).1
  obtain ⟨j, atJ⟩ := List.mem_iff_getElem?.mp member
  have pair : ∀ {i k : Nat} {first second : Sym}, i < k →
      d.syms[i]? = some first → d.syms[k]? = some second →
      first.value < second.value ∧ first.value + first.size ≤ second.value ∨
        first.value = second.value ∧ first.size = second.size ∧
          0 < first.size := by
    intro i k first second order atI atK
    obtain ⟨iLt, rfl⟩ := List.getElem?_eq_some_iff.mp atI
    obtain ⟨kLt, rfl⟩ := List.getElem?_eq_some_iff.mp atK
    exact List.pairwise_iff_getElem.mp flat.apart i k iLt kLt order
  have sameStop : t.value = s.value → t.size = s.size → 0 < t.size →
      rel < d.stopOf s := by
    intro value size sized
    rw [stopOf, if_pos sized] at lt
    rw [stopOf, if_pos (size ▸ sized)]
    omega
  rcases Nat.lt_trichotomy j index with before | rfl | after
  · rcases pair before atJ found with ⟨less, ends⟩ | ⟨value, size, sized⟩
    · exfalso
      by_cases sized : 0 < t.size
      · rw [stopOf, if_pos sized] at lt
        omega
      · have := ((lt_stopOf_of_unsized sized).mp lt).2 s
          (List.mem_of_getElem? found) less
        omega
    · exact sameStop value size sized
  · cases atJ.symm.trans found
    exact lt
  · rcases pair after found atJ with ⟨less, _⟩ | ⟨value, size, sized⟩
    · omega
    · exact sameStop value.symm size.symm (size ▸ sized)

end Sismo.Elf.DynSyms

namespace Sismo.Symbolize

open Elf Go

/-- A found symbol has one of the names, and one is found if there is any. -/
structure Right (Named : String → Prop) (found : Option (String × Nat)) :
    Prop where
  sound : ∀ result, found = some result → Named result.1
  complete : ∀ name, Named name → found ≠ none

inductive Fallback where
  | goPclntab (go : GoPclntab)
  | dynSyms (d : DynSyms)

/-- `load_fallbacks`: the Go names before the dynamic symbols. -/
def loadFallbacks (go : Option GoPclntab) (dyn : Option DynSyms) :
    List Fallback :=
  (go.map Fallback.goPclntab).toList ++ (dyn.map Fallback.dynSyms).toList

namespace Fallback

def source (search : BinarySearch) : Fallback → SymbolSource
  | goPclntab go => fun rel => some (go.resolve rel)
  | dynSyms d => fun rel => d.resolve rel (search.run d.values rel)

def HasRange : Fallback → String → Nat → Nat → Prop
  | goPclntab go, name, lo, hi => ∃ i < go.nfunc,
      go.funcName (go.functab i).2 = some name ∧
        lo = go.textOff + go.entry i ∧ hi = go.textOff + go.entry (i + 1)
  | dynSyms d, name, lo, hi => ∃ s ∈ d.syms,
      s.name = name ∧ lo = s.value ∧ hi = d.stopOf s

/-- No two symbols of a table share a part of their ranges, and the table is
one of a file with this image base. -/
def WellFormed (base : Nat) : Fallback → Prop
  | goPclntab go => go.Ascending ∧ base + go.textOff < 2 ^ 64
  | dynSyms d => d.Flat ∧ ∀ s ∈ d.syms, base + s.value < 2 ^ 64

def Names (f : Fallback) (rel : Nat) (name : String) : Prop :=
  ∃ lo hi, f.HasRange name lo hi ∧ lo ≤ rel ∧ rel < hi

theorem source_right (search : BinarySearch) {base : Nat} {f : Fallback}
    (wellFormed : f.WellFormed base) (rel : Nat) :
    ∃ found, f.source search rel = some found ∧ Right (f.Names rel) found := by
  cases f with
  | goPclntab go =>
      have iff := @GoPclntab.resolve_eq_some go wellFormed.1 rel
      refine ⟨_, rfl, ⟨?_, ?_⟩⟩
      · intro result resolved
        obtain ⟨i, covers, _⟩ := iff.mp resolved
        exact ⟨_, _, ⟨i, covers.inside, covers.named, rfl, rfl⟩, covers.le,
          covers.lt⟩
      · rintro name ⟨_, _, ⟨i, inside, named, rfl, rfl⟩, le, lt⟩
        have resolved := (@iff (name, rel - (go.textOff + go.entry i))).mpr
          ⟨i, ⟨inside, named, le, lt⟩, rfl⟩
        rw [resolved]
        exact Option.some_ne_none _
  | dynSyms d =>
      obtain ⟨flat, _⟩ := wellFormed
      have of := search.right d.values rel d.values_sorted
      change ∃ found, d.resolve rel (search.run d.values rel) = some found ∧ _
      rw [DynSyms.resolve]
      cases arrives : (search.run d.values rel).atOrBelow with
      | none =>
          refine ⟨none, rfl, ⟨fun _ same => (by cases same), ?_⟩⟩
          rintro name ⟨_, _, ⟨s, member, _, rfl, rfl⟩, le, _⟩
          have := of.above arrives s.value (List.mem_map_of_mem member)
          omega
      | some index =>
          have lands := of.lands arrives
          obtain ⟨key, present, _⟩ := of.lands arrives
          obtain ⟨le, _⟩ := lands.greatest d.values_sorted present
          rw [DynSyms.values, List.getElem?_map, Option.map_eq_some_iff]
            at present
          obtain ⟨s, found, rfl⟩ := present
          have member := List.mem_of_getElem? found
          obtain ⟨reached, missed⟩ :=
            @DynSyms.boundedAt_eq d rel index s found (flat.ends s member)
          rw [flat.reaches_iff found] at reached missed
          by_cases lt : rel < d.stopOf s
          · refine ⟨_, reached lt, ⟨?_, fun _ _ => Option.some_ne_none _⟩⟩
            intro result same
            cases same
            exact ⟨_, _, ⟨s, member, rfl, rfl, rfl⟩, le, lt⟩
          · refine ⟨_, missed lt, ⟨fun _ same => (by cases same), ?_⟩⟩
            rintro name ⟨_, _, ⟨t, among, _, rfl, rfl⟩, tLe, tLt⟩
            exact absurd (flat.lt_stopOf_of_lands lands found among tLe tLt) lt

end Fallback

theorem firstAnswer_right (search : BinarySearch) {base : Nat}
    {fallbacks : List Fallback}
    (wellFormed : ∀ f ∈ fallbacks, f.WellFormed base) (rel : Nat) :
    ∃ found, firstAnswer (fallbacks.map (Fallback.source search)) rel =
        some found ∧
      Right (fun name => ∃ f ∈ fallbacks, f.Names rel name) found := by
  induction fallbacks with
  | nil => exact ⟨none, rfl, ⟨fun _ same => (by cases same), by simp⟩⟩
  | cons f rest induction =>
      obtain ⟨head, tail⟩ := List.forall_mem_cons.mp wellFormed
      obtain ⟨first, answered, right⟩ := Fallback.source_right search head rel
      rw [List.map_cons, firstAnswer, answered]
      cases first with
      | none =>
          obtain ⟨found, answered, later⟩ := induction tail
          refine ⟨found, answered, ⟨?_, ?_⟩⟩
          · intro result same
            obtain ⟨g, member, names⟩ := later.sound result same
            exact ⟨g, List.mem_cons_of_mem f member, names⟩
          · rintro name ⟨g, member, names⟩
            rcases List.mem_cons.mp member with rfl | among
            · exact absurd rfl (right.complete name names)
            · exact later.complete name ⟨g, among, names⟩
      | some answer =>
          refine ⟨_, rfl, ⟨?_, fun _ _ => Option.some_ne_none _⟩⟩
          intro result same
          cases same
          exact ⟨f, List.mem_cons_self, right.sound answer rfl⟩

end Sismo.Symbolize
