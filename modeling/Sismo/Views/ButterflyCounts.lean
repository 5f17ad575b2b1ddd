import Mathlib.Algebra.Order.Field.Rat
import Mathlib.Algebra.Order.Field.Basic
import Sismo.Views.ButterflyEdges

namespace Sismo.Views.FocusView

/-! The samples of an edge, and what the queries count of them. -/

def links (stack : List Callsite) : List (Callsite × Callsite) :=
  stack.zip stack.tail

namespace Tables

open RecursiveUnion

variable (demangle : String → Option String) (upids : List Nat)
  (tables : Tables) (name : String)

def stack (s : PerfSample) : List Callsite :=
  (s.callsiteId.map tables.stackOf).getD []

def callerLink (edge : Shown) (link : Callsite × Callsite) : Bool :=
  tables.named demangle name link.1 &&
    decide (tables.shown demangle link.2 = some edge)

def calleeLink (edge : Shown) (link : Callsite × Callsite) : Bool :=
  tables.named demangle name link.2 &&
    decide (tables.shown demangle link.1 = some edge)

theorem countP_links (related : Callsite → Callsite → Bool) (id : Nat) :
    (tables.stackOf id).countP
        (fun c => (tables.parentOf c).any (related c)) =
      (links (tables.stackOf id)).countP fun link =>
        related link.1 link.2 := by
  induction id using @stack_induction tables _ with
  | missing id missing =>
      rw [stackOf_none missing]
      rfl
  | root id c found root =>
      have top : tables.parentOf c = none := by
        rw [parentOf, root]
        rfl
      rw [stackOf_root found root, List.countP_singleton, top]
      rfl
  | above id c parent found link induction =>
      have up : tables.parentOf c = tables.callsite parent := by
        rw [parentOf, link]
        rfl
      rw [stackOf_above found link, List.countP_cons, induction, up]
      cases known : tables.callsite parent with
      | none =>
          rw [stackOf_none known]
          rfl
      | some p =>
          rw [stackOf_some known]
          exact (List.countP_cons (a := (c, p))).symm

/-! The call sites that the queries start from. -/

section

variable {tables} (key : Callsite → Option Shown)

variable (tables) in
def sitesOf : List Site :=
  tables.callsites.filterMap fun c => (key c).map fun edge => (c.id, edge)

theorem callsites_nodup : tables.callsites.Nodup :=
  .of_map (·.id) tables.callsite_ids

theorem mem_stackIds {c : Callsite} (member : c ∈ tables.callsites)
    (id : Nat) : c.id ∈ (tables.stackOf id).map (·.id) ↔
      c ∈ tables.stackOf id := by
  constructor
  · intro inside
    obtain ⟨other, inStack, same⟩ := List.mem_map.mp inside
    rwa [← List.inj_on_of_nodup_map tables.callsite_ids
      (mem_callsites_of_mem_stackOf inStack) member same]
  · exact List.mem_map_of_mem

theorem countP_sitesOf (edge : Shown) (id : Nat) :
    ((tables.sitesOf key).filter fun site => site.2 = edge).countP
        (fun site => decide (site.1 ∈ (tables.stackOf id).map (·.id))) =
      (tables.stackOf id).countP fun c => decide (key c = some edge) := by
  rw [List.countP_filter, sitesOf, List.countP_filterMap,
    ← countP_and_mem callsites_nodup (stackOf_nodup id)
      fun c => mem_callsites_of_mem_stackOf]
  apply List.countP_congr
  intro c member
  have onStack := mem_stackIds member id
  cases key c with
  | none => simp
  | some other =>
      simp only [Option.map_some, Option.getD_some, Bool.and_eq_true,
        decide_eq_true_eq, onStack, Option.some.injEq]
      exact and_comm

end

/-! The rows that are joined for an edge. -/

section

variable {upids tables} {roots : List Nat}

theorem countP_sub (known : ∀ root ∈ roots, root ∈ tables.ids) {root : Nat}
    (inside : root ∈ roots) (s : PerfSample) :
    ((tables.sub roots).filter fun su => su.1 = root).countP (fun su =>
        sqlEq s.callsiteId (some su.2) && tables.inScope upids s) =
      if (s.callsiteId.isSome && tables.inScope upids s) &&
          decide (root ∈ (tables.stack s).map (·.id)) then 1 else 0 := by
  cases leaf : s.callsiteId with
  | none =>
      rw [List.countP_eq_zero.mpr (by simp [sqlEq])]
      simp
  | some id =>
      cases seen : tables.inScope upids s with
      | false =>
          rw [List.countP_eq_zero.mpr (by simp)]
          simp
      | true =>
          have one : ((tables.sub roots).filter fun su => su.1 = root).countP
              (fun su => sqlEq (some id) (some su.2) && true) =
              (tables.sub roots).count (root, id) := by
            rw [List.countP_filter]
            apply List.countP_congr
            rintro ⟨first, second⟩ -
            simp only [sqlEq, Bool.and_true, Bool.and_eq_true,
              decide_eq_true_eq, beq_iff_eq, Prod.mk.injEq]
            constructor
            · rintro ⟨rfl, rfl⟩
              exact ⟨rfl, rfl⟩
            · rintro ⟨rfl, rfl⟩
              exact ⟨rfl, rfl⟩
          obtain ⟨c, member, same⟩ := List.mem_map.mp (known root inside)
          have reached : (root, id) ∈ tables.sub roots ↔
              root ∈ (tables.stack s).map (·.id) := by
            rw [mem_sub known, stack, leaf, ← same]
            have found := callsite_id member
            exact (and_iff_right (same ▸ inside)).trans
              ((steps_children_iff found).trans (mem_stackIds member id).symm)
          rw [one, (sub_nodup roots).count]
          simp only [reached, Option.isSome_some, Bool.true_and,
            decide_eq_true_eq]

theorem length_siteSamples (known : ∀ root ∈ roots, root ∈ tables.ids)
    {site : Site} (inside : site.1 ∈ roots) :
    (tables.siteSamples upids roots site).length =
      (scopeSamples upids tables).countP fun s =>
        decide (site.1 ∈ (tables.stack s).map (·.id)) := by
  unfold siteSamples samplesAt scopeSamples
  rw [List.length_flatMap, List.countP_filter, countP_eq_sum]
  simp only [← List.countP_eq_length_filter]
  rw [sum_countP_comm]
  congr 1
  apply List.map_congr_left
  intro s _
  rw [countP_sub known inside, Bool.and_comm]

variable {key : Callsite → Option Shown}

theorem edgeCounts_eq (known : ∀ root ∈ roots, root ∈ tables.ids)
    (inside : ∀ site ∈ tables.sitesOf key, site.1 ∈ roots) {edge : Shown}
    {n : Nat}
    (counted : (edge, n) ∈ tables.edgeCounts upids roots (tables.sitesOf key)) :
    n = ((scopeSamples upids tables).map fun s =>
      (tables.stack s).countP fun c => decide (key c = some edge)).sum := by
  rw [(mem_countBy.mp counted).2, count_flatMap_map]
  have joined : (((tables.sitesOf key).filter fun site => site.2 = edge).map
      fun site => (tables.siteSamples upids roots site).length) =
      ((tables.sitesOf key).filter fun site => site.2 = edge).map fun site =>
        (scopeSamples upids tables).countP fun s =>
          decide (site.1 ∈ (tables.stack s).map (·.id)) := by
    apply List.map_congr_left
    intro site member
    exact length_siteSamples known (inside site (List.mem_filter.mp member).1)
  rw [joined, sum_countP_comm]
  congr 1
  apply List.map_congr_left
  intro s _
  unfold stack
  cases s.callsiteId with
  | none => simp
  | some id => exact countP_sitesOf key edge id

end

/-! The call sites of the two queries. -/

def callerKey (c : Callsite) : Option Shown :=
  if tables.named demangle name c then
    (tables.parentOf c).bind (tables.shown demangle)
  else none

def calleeKey (c : Callsite) : Option Shown :=
  if (tables.parentOf c).any (tables.named demangle name) then
    tables.shown demangle c
  else none

variable {demangle tables name}

theorem mem_matchcs {id : Nat} : id ∈ tables.matchcs demangle name ↔
    ∃ c, tables.callsite id = some c ∧
      tables.named demangle name c = true := by
  unfold matchcs
  simp only [List.mem_map, List.mem_filter]
  constructor
  · rintro ⟨c, ⟨member, focus⟩, rfl⟩
    exact ⟨c, callsite_id member, focus⟩
  · rintro ⟨c, found, focus⟩
    obtain ⟨member, same⟩ := callsite_iff.mp found
    exact ⟨c, ⟨member, focus⟩, same⟩

theorem matchcs_nodup : (tables.matchcs demangle name).Nodup := by
  unfold matchcs
  exact (List.filter_sublist.map _).nodup tables.callsite_ids

theorem matchcs_known {id : Nat} (member : id ∈ tables.matchcs demangle name) :
    id ∈ tables.ids := by
  obtain ⟨c, found, -⟩ := mem_matchcs.mp member
  obtain ⟨inside, same⟩ := callsite_iff.mp found
  exact List.mem_map.mpr ⟨c, inside, same⟩

theorem mem_sitesOf {key : Callsite → Option Shown} {site : Site}
    (member : site ∈ tables.sitesOf key) :
    ∃ c ∈ tables.callsites, key c = some site.2 ∧ c.id = site.1 := by
  obtain ⟨c, inside, made⟩ := List.mem_filterMap.mp member
  obtain ⟨edge, known, rfl⟩ := Option.map_eq_some_iff.mp made
  exact ⟨c, inside, known, rfl⟩

theorem parents_eq : tables.parents demangle name =
    tables.sitesOf (tables.callerKey demangle name) := by
  unfold parents matchcs sitesOf
  rw [List.filterMap_map, List.filterMap_filter]
  apply List.filterMap_congr
  intro c member
  unfold callerKey
  split
  · have found := callsite_id member
    simp only [Function.comp_apply, found, Option.bind_eq_bind,
      Option.bind_some]
    change (tables.parentOf c).bind _ = _
    cases tables.parentOf c with
    | none => rfl
    | some pc =>
        simp only [Option.bind_some]
        cases tables.shown demangle pc with
        | none => rfl
        | some edge => rfl
  · rfl

theorem filter_matchcs (c : Callsite) :
    (tables.matchcs demangle name).filter
        (fun m => sqlEq c.parentId (some m)) =
      if (tables.parentOf c).any (tables.named demangle name) then
        c.parentId.toList
      else [] := by
  cases link : c.parentId with
  | none =>
      have top : tables.parentOf c = none := by
        rw [parentOf, link]
        rfl
      rw [top]
      exact List.filter_eq_nil_iff.mpr fun m _ => by simp [sqlEq]
  | some parent =>
      have up : tables.parentOf c = tables.callsite parent := by
        rw [parentOf, link]
        rfl
      have focus : (tables.parentOf c).any (tables.named demangle name) =
          decide (parent ∈ tables.matchcs demangle name) := by
        rw [up, Bool.eq_iff_iff, decide_eq_true_eq, mem_matchcs]
        cases tables.callsite parent with
        | none => simp
        | some p => simp
      have equal : (fun m => sqlEq (some parent) (some m)) =
          (· == parent) := by
        funext m
        rw [Bool.eq_iff_iff, beq_iff_eq]
        exact decide_eq_true_iff.trans eq_comm
      rw [focus, equal, List.filter_beq, (matchcs_nodup).count]
      by_cases member : parent ∈ tables.matchcs demangle name
      · simp [member]
      · simp [member]

theorem kids_eq : tables.kids demangle name =
    tables.sitesOf (tables.calleeKey demangle name) := by
  unfold kids sitesOf
  rw [List.filterMap_eq_flatMap_toList]
  apply List.flatMap_congr
  intro c _
  rw [filter_matchcs]
  unfold calleeKey
  split
  · next focus =>
      have called : ∃ parent, c.parentId = some parent := by
        cases link : c.parentId with
        | none => simp [parentOf, link] at focus
        | some parent => exact ⟨parent, rfl⟩
      obtain ⟨parent, link⟩ := called
      rw [link]
      cases tables.shown demangle c with
      | none => rfl
      | some edge => rfl
  · rfl

theorem mem_descendants {id : Nat} : id ∈ tables.descendants demangle name ↔
    ∃ c ∈ tables.stackOf id, tables.named demangle name c = true := by
  have closed : ∀ a ∈ tables.ids, ∀ b ∈ tables.children a, b ∈ tables.ids :=
    fun _ _ _ member => mem_ids_of_mem_children member
  have start : ∀ a ∈ (tables.matchcs demangle name).dedup, a ∈ tables.ids :=
    fun a member => matchcs_known (List.mem_dedup.mp member)
  have rounds : tables.ids.length ≤
      (tables.matchcs demangle name).dedup.length +
        tables.callsites.length := by
    rw [ids, List.length_map]
    omega
  unfold descendants
  rw [mem_iff closed (List.nodup_dedup _) start rounds]
  constructor
  · rintro ⟨root, member, path⟩
    obtain ⟨c, found, focus⟩ := mem_matchcs.mp (List.mem_dedup.mp member)
    exact ⟨c, (steps_children_iff found).mp path, focus⟩
  · rintro ⟨c, member, focus⟩
    have found := callsite_id (mem_callsites_of_mem_stackOf member)
    exact ⟨c.id, List.mem_dedup.mpr (mem_matchcs.mpr ⟨c, found, focus⟩),
      (steps_children_iff found).mpr member⟩

end Tables

open Tables

section

variable (demangle : String → Option String) (upids : List Nat)
  (order : CountOrder Shown) (tables : Tables) (name : String)

def throughFocus (s : PerfSample) : Bool :=
  (tables.stack s).any (tables.named demangle name)

theorem inclusiveSamples_eq : inclusiveSamples demangle upids tables name =
    (scopeSamples upids tables).filter (throughFocus demangle tables name) := by
  unfold inclusiveSamples scopeSamples
  rw [List.filter_filter]
  apply List.filter_congr
  intro s _
  cases leaf : s.callsiteId with
  | none => simp [sqlEq, throughFocus, stack, leaf]
  | some id =>
      have below : (tables.descendants demangle name).any
          (fun other => sqlEq (some id) (some other)) =
          throughFocus demangle tables name s := by
        rw [Bool.eq_iff_iff, throughFocus, stack, leaf]
        simp only [List.any_eq_true, sqlEq, decide_eq_true_eq, exists_eq_right',
          Option.map_some, Option.getD_some]
        exact mem_descendants
      rw [below]
      simp only [Option.isSome_some, Bool.true_and]

def timesInStack (link : Callsite × Callsite → Bool) (s : PerfSample) : Nat :=
  (links (tables.stack s)).countP link

/-- No sample in scope has the link twice in its stack. -/
def OncePerSample (link : Callsite × Callsite → Bool) : Prop :=
  ∀ s ∈ scopeSamples upids tables, timesInStack tables link s ≤ 1

/-- The edge counts the samples with the link, each once, and its share of the
inclusive samples is one. -/
def CountsSamples (link : Callsite × Callsite → Bool) (edge : ButterflyEdge) :
    Prop :=
  edge.samples = (scopeSamples upids tables).countP
      (fun s => (links (tables.stack s)).any link) ∧
    0 ≤ edge.share ∧ edge.share ≤ 1

theorem countP_keys {key : Callsite → Option Shown} {edge : Shown}
    {related : Callsite → Callsite → Bool}
    (same : ∀ c, decide (key c = some edge) =
      (tables.parentOf c).any (related c)) (s : PerfSample) :
    (tables.stack s).countP (fun c => decide (key c = some edge)) =
      timesInStack tables (fun link => related link.1 link.2) s := by
  simp only [same]
  unfold timesInStack stack
  cases s.callsiteId with
  | none => rfl
  | some id => exact countP_links tables related id

theorem callerKey_iff (edge : Shown) (c : Callsite) :
    decide (tables.callerKey demangle name c = some edge) =
      (tables.parentOf c).any fun p =>
        tables.callerLink demangle name edge (c, p) := by
  unfold callerKey callerLink
  cases focus : tables.named demangle name c with
  | false => simp [focus]
  | true => cases tables.parentOf c <;> simp [focus]

theorem calleeKey_iff (edge : Shown) (c : Callsite) :
    decide (tables.calleeKey demangle name c = some edge) =
      (tables.parentOf c).any fun p =>
        tables.calleeLink demangle name edge (c, p) := by
  unfold calleeKey calleeLink
  cases tables.parentOf c with
  | none => simp
  | some p => cases focus : tables.named demangle name p <;> simp [focus]

theorem mem_collectEdges {res : List (Shown × Nat)} {denom : Nat}
    {edge : ButterflyEdge} (member : edge ∈ collectEdges order res denom) :
    ((edge.name, edge.mapping), edge.samples) ∈ res ∧
      edge.share = (edge.samples : ℚ) / denom := by
  obtain ⟨row, taken, rfl⟩ := List.mem_map.mp member
  exact ⟨(order.perm res).mem_iff.mp (List.mem_of_mem_take taken), rfl⟩

theorem any_iff_timesInStack (link : Callsite × Callsite → Bool)
    (s : PerfSample) : (links (tables.stack s)).any link =
      decide (0 < timesInStack tables link s) := by
  rw [Bool.eq_iff_iff, List.any_eq_true, decide_eq_true_eq, timesInStack,
    List.countP_pos_iff]

theorem countsSamples_iff {link : Callsite × Callsite → Bool}
    {edge : ButterflyEdge}
    (focus : ∀ s, ∀ l ∈ links (tables.stack s), link l = true →
      throughFocus demangle tables name s = true)
    (total : edge.samples =
      ((scopeSamples upids tables).map (timesInStack tables link)).sum)
    (share : edge.share = (edge.samples : ℚ) /
      (inclusiveSamples demangle upids tables name).length) :
    CountsSamples upids tables link edge ↔
      OncePerSample upids tables link := by
  have counted : (scopeSamples upids tables).countP
      (fun s => (links (tables.stack s)).any link) =
      (scopeSamples upids tables).countP
        (0 < timesInStack tables link ·) := by
    simp only [any_iff_timesInStack]
  unfold CountsSamples OncePerSample
  rw [counted, ← sum_eq_countP_iff, total]
  refine and_iff_left_of_imp fun exact_ => ?_
  have le : edge.samples ≤
      (inclusiveSamples demangle upids tables name).length := by
    rw [total, exact_, inclusiveSamples_eq, ← List.countP_eq_length_filter]
    apply List.countP_mono_left
    intro s _ positive
    obtain ⟨l, member, here⟩ :=
      List.countP_pos_iff.mp (of_decide_eq_true positive)
    exact focus s l member here
  rw [share]
  exact ⟨div_nonneg (Nat.cast_nonneg _) (Nat.cast_nonneg _),
    div_le_one_of_le₀ (Nat.cast_le.mpr le) (Nat.cast_nonneg _)⟩

variable {demangle upids order tables name}

theorem throughFocus_of_mem {s : PerfSample} {c : Callsite}
    (member : c ∈ tables.stack s)
    (focus : tables.named demangle name c = true) :
    throughFocus demangle tables name s = true :=
  List.any_eq_true.mpr ⟨c, member, focus⟩

theorem callers_iff {edge : ButterflyEdge}
    (member : edge ∈ loadCallers demangle upids order tables name
      (inclusiveSamples demangle upids tables name).length) :
    CountsSamples upids tables
        (tables.callerLink demangle name (edge.name, edge.mapping)) edge ↔
      OncePerSample upids tables
        (tables.callerLink demangle name (edge.name, edge.mapping)) := by
  unfold loadCallers at member
  dsimp only at member
  rw [parents_eq] at member
  obtain ⟨counted, share⟩ := mem_collectEdges order member
  have inside : ∀ site ∈ tables.sitesOf (tables.callerKey demangle name),
      site.1 ∈ tables.matchcs demangle name := by
    intro site inSites
    obtain ⟨c, known, key, same⟩ := mem_sitesOf inSites
    refine mem_matchcs.mpr ⟨c, same ▸ callsite_id known, ?_⟩
    by_contra other
    rw [callerKey, if_neg other] at key
    cases key
  have total := edgeCounts_eq (fun _ => matchcs_known) inside counted
  simp only [countP_keys tables (callerKey_iff demangle tables name _)]
    at total
  refine countsSamples_iff demangle upids tables name ?_ total share
  intro s l inLinks here
  exact throughFocus_of_mem (List.of_mem_zip inLinks).1
    (Bool.and_eq_true_iff.mp here).1

theorem callees_iff {edge : ButterflyEdge}
    (member : edge ∈ loadCallees demangle upids order tables name
      (inclusiveSamples demangle upids tables name).length) :
    CountsSamples upids tables
        (tables.calleeLink demangle name (edge.name, edge.mapping)) edge ↔
      OncePerSample upids tables
        (tables.calleeLink demangle name (edge.name, edge.mapping)) := by
  unfold loadCallees at member
  dsimp only at member
  rw [kids_eq] at member
  obtain ⟨counted, share⟩ := mem_collectEdges order member
  have known : ∀ root ∈ (tables.sitesOf (tables.calleeKey demangle name)).map
      (·.1), root ∈ tables.ids := by
    intro root inSites
    obtain ⟨site, inside, rfl⟩ := List.mem_map.mp inSites
    obtain ⟨c, known, -, same⟩ := mem_sitesOf inside
    exact List.mem_map.mpr ⟨c, known, same⟩
  have total := edgeCounts_eq known
    (fun site inSites => List.mem_map_of_mem inSites) counted
  simp only [countP_keys tables (calleeKey_iff demangle tables name _)]
    at total
  refine countsSamples_iff demangle upids tables name ?_ total share
  intro s l inLinks here
  exact throughFocus_of_mem (List.mem_of_mem_tail (List.of_mem_zip inLinks).2)
    (Bool.and_eq_true_iff.mp here).1

/-- The inclusive count is right, and an edge counts its samples, each once,
exactly when no sample's stack has the edge twice. -/
theorem butterfly_counts (demangle : String → Option String)
    (upids : List Nat) (order : CountOrder Shown) (tables : Tables)
    (name : String) :
    (loadButterfly demangle upids order tables name).inclusiveSamples =
      (scopeSamples upids tables).countP
        (throughFocus demangle tables name) ∧
    (∀ edge ∈ (loadButterfly demangle upids order tables name).callers,
      CountsSamples upids tables
          (tables.callerLink demangle name (edge.name, edge.mapping)) edge ↔
        OncePerSample upids tables
          (tables.callerLink demangle name (edge.name, edge.mapping))) ∧
    ∀ edge ∈ (loadButterfly demangle upids order tables name).callees,
      CountsSamples upids tables
          (tables.calleeLink demangle name (edge.name, edge.mapping)) edge ↔
        OncePerSample upids tables
          (tables.calleeLink demangle name (edge.name, edge.mapping)) := by
  unfold loadButterfly
  dsimp only
  refine ⟨?_, ?_, ?_⟩
  · rw [inclusiveSamples_eq, ← List.countP_eq_length_filter]
  · split
    · exact fun edge => callers_iff
    · exact fun edge member => absurd member List.not_mem_nil
  · split
    · exact fun edge => callees_iff
    · exact fun edge member => absurd member List.not_mem_nil

/-! ### A function that calls itself -/

def recursiveCallsites : List Callsite :=
  [⟨1, none, 1⟩, ⟨2, some 1, 1⟩, ⟨3, some 2, 1⟩]

theorem recursive_rank : ∀ c ∈ recursiveCallsites, ∀ parent,
    c.parentId = some parent → parent < c.id := by
  intro c member
  simp only [recursiveCallsites, List.mem_cons, List.not_mem_nil,
    or_false] at member
  obtain rfl | rfl | rfl := member <;> intro parent link <;> cases link <;>
    decide

theorem recursive_ids : (recursiveCallsites.map (·.id)).Nodup := by decide

theorem single_nodup (id : Nat) : [id].Nodup := List.nodup_singleton id

def recursion : Tables where
  callsites := recursiveCallsites
  frames := [⟨1, some "f", none, none⟩]
  mappings := []
  symbols := []
  threads := []
  samples := [⟨1, 0, some 3, 0, none⟩]
  callsite_ids := recursive_ids
  frame_ids := single_nodup 1
  mapping_ids := List.nodup_nil
  rank := id
  rank_parent := recursive_rank

/-- `f` is twice above `f` in the one sample, which counts twice. -/
theorem not_butterfly_counts : ¬∀ (demangle : String → Option String)
    (upids : List Nat) (order : CountOrder Shown) (tables : Tables)
    (name : String),
    ∀ edge ∈ (loadButterfly demangle upids order tables name).callers,
      edge.samples = (scopeSamples upids tables).countP fun s =>
        (links (tables.stack s)).any
          (tables.callerLink demangle name (edge.name, edge.mapping)) := by
  intro all
  have edges : ((loadButterfly (fun _ => none) [] .stable recursion
      "f").callers.map (·.samples)) = [2] := by decide
  have member : 2 ∈ (loadButterfly (fun _ => none) [] .stable recursion
      "f").callers.map (·.samples) := edges ▸ List.mem_singleton.mpr rfl
  obtain ⟨edge, inside, two⟩ := List.mem_map.mp member
  have counted := all _ _ _ _ _ edge inside
  have le := List.countP_le_length (l := scopeSamples [] recursion)
    (p := fun s => (links (recursion.stack s)).any
      (recursion.callerLink (fun _ => none) "f" (edge.name, edge.mapping)))
  have one : (scopeSamples [] recursion).length = 1 := by decide
  omega

end

end Sismo.Views.FocusView
