import Sismo.Symbolize.Pass

namespace Sismo.Symbolize.Pass

/-! What a row of the query stands for by itself, and that the pass over the
modules finds nothing else. -/

/-! ### The modules of the rows -/

section

variable {rows : List Row} {modules : List Module} {mapping : Mapping}
variable {pc : UInt64}

theorem hit_toMapping (m : Module) (relPc : UInt64) :
    (m.hit relPc).toMapping = m.toMapping := by
  unfold Module.hit
  split
  · rfl
  · rfl

theorem mem_hit {m : Module} {relPc : UInt64} :
    pc ∈ (m.hit relPc).relPcs ↔ pc ∈ m.relPcs ∨ pc = relPc := by
  unfold Module.hit
  split
  · next seen =>
      exact ⟨.inl, fun either => either.elim id fun same => same ▸ seen⟩
  · simp

theorem mem_start {relPc : UInt64} :
    pc ∈ ((Module.start mapping).hit relPc).relPcs ↔ pc = relPc := by
  rw [mem_hit, Module.start]
  simp

/-- The row extends the last module or starts one of its own. -/
theorem onRow_concat (front : List Module) (m : Module) (row : Row) :
    onRow (front ++ [m]) row =
      if m.toMapping = row.mapping then front ++ [m.hit row.relPc]
      else front ++ [m, (Module.start row.mapping).hit row.relPc] := by
  rw [onRow, List.getLast?_concat]
  simp only [List.dropLast_concat, List.append_assoc]
  rfl

theorem collect_concat (rows : List Row) (row : Row) :
    collect (rows ++ [row]) = onRow (collect rows) row :=
  List.foldl_concat ..

def Module.Has (mapping : Mapping) (pc : UInt64) (m : Module) : Prop :=
  m.toMapping = mapping ∧ pc ∈ m.relPcs

theorem exists_onRow {row : Row} :
    (∃ m ∈ onRow modules row, m.Has mapping pc) ↔
      (∃ m ∈ modules, m.Has mapping pc) ∨
        row.mapping = mapping ∧ row.relPc = pc := by
  have own : ((Module.start row.mapping).hit row.relPc).Has mapping pc ↔
      row.mapping = mapping ∧ row.relPc = pc := by
    rw [Module.Has, hit_toMapping, mem_start, eq_comm (a := pc)]
    rfl
  rcases List.eq_nil_or_concat modules with rfl | ⟨front, m, rfl⟩
  · simp [onRow, own]
  · rw [List.concat_eq_append, onRow_concat]
    split
    · next same =>
        have extended : (m.hit row.relPc).Has mapping pc ↔
            m.Has mapping pc ∨ row.mapping = mapping ∧ row.relPc = pc := by
          rw [Module.Has, Module.Has, hit_toMapping, mem_hit, and_or_left,
            same, eq_comm (a := pc)]
        simp [or_and_right, exists_or, extended, or_assoc]
    · simp [or_and_right, exists_or, own, or_assoc]

theorem exists_collect :
    (∃ m ∈ collect rows, m.Has mapping pc) ↔
      ∃ row ∈ rows, row.mapping = mapping ∧ row.relPc = pc := by
  induction rows using List.reverseRecOn with
  | nil => simp [collect]
  | append_singleton rows row induction =>
      rw [collect_concat, exists_onRow, induction]
      simp [or_and_right, exists_or]

theorem onRow_sampled {row : Row}
    (sampled : ∀ m ∈ modules, m.relPcs ≠ []) :
    ∀ m ∈ onRow modules row, m.relPcs ≠ [] := by
  have hit : ∀ m : Module, (m.hit row.relPc).relPcs ≠ [] := fun m =>
    List.ne_nil_of_mem (mem_hit.mpr (.inr rfl))
  rcases List.eq_nil_or_concat modules with rfl | ⟨front, m, rfl⟩
  · intro m member
    rw [List.mem_singleton.mp member]
    exact hit _
  · rw [List.concat_eq_append] at sampled ⊢
    rw [onRow_concat]
    intro other member
    split at member
    · rcases List.mem_append.mp member with before | last
      · exact sampled other (List.mem_append_left _ before)
      · rw [List.mem_singleton.mp last]
        exact hit m
    · rw [← List.singleton_append, ← List.append_assoc] at member
      rcases List.mem_append.mp member with before | last
      · exact sampled other before
      · rw [List.mem_singleton.mp last]
        exact hit _

/-- A module is started for an address. -/
theorem collect_sampled : ∀ m ∈ collect rows, m.relPcs ≠ [] := by
  induction rows using List.reverseRecOn with
  | nil => exact nofun
  | append_singleton rows row induction =>
      rw [collect_concat]
      exact onRow_sampled induction

/-- The order of the query: the rows of a mapping are not interrupted. -/
def Grouped (rows : List Row) : Prop :=
  ∀ first between last, [first, between, last].Sublist rows →
    first.mapping = last.mapping → between.mapping = first.mapping

theorem collect_last (rows : List Row) (row : Row) :
    ∃ front m, collect (rows ++ [row]) = front ++ [m] ∧
      m.toMapping = row.mapping := by
  rw [collect_concat]
  rcases List.eq_nil_or_concat (collect rows) with none | ⟨front, m, some⟩
  · rw [none]
    exact ⟨[], _, rfl, hit_toMapping _ _⟩
  · rw [some, List.concat_eq_append, onRow_concat]
    split
    · next same => exact ⟨front, _, rfl, (hit_toMapping _ _).trans same⟩
    · exact ⟨front ++ [m], _, by rw [List.append_assoc]; rfl,
        hit_toMapping _ _⟩

theorem collect_nodup (grouped : Grouped rows) :
    ((collect rows).map Module.toMapping).Nodup := by
  induction rows using List.reverseRecOn with
  | nil => exact .nil
  | append_singleton rows row induction =>
      have before : Grouped rows := fun first between last sub =>
        grouped first between last (sub.trans (List.sublist_append_left ..))
      have nodup := induction before
      rcases List.eq_nil_or_concat rows with rfl | ⟨earlier, newest, rfl⟩
      · exact List.nodup_singleton _
      · rw [List.concat_eq_append] at grouped before nodup ⊢
        rw [collect_concat]
        obtain ⟨front, m, collected, last⟩ := collect_last earlier newest
        rw [collected] at nodup ⊢
        rw [onRow_concat]
        split
        · rw [List.map_append, List.map_singleton, hit_toMapping]
          rwa [List.map_append, List.map_singleton] at nodup
        · next other =>
            rw [← List.singleton_append, ← List.append_assoc,
              List.map_append, List.map_singleton, hit_toMapping]
            refine List.nodup_append_comm.mp (List.nodup_cons.mpr ⟨?_, nodup⟩)
            intro member
            obtain ⟨found, among, same⟩ := List.mem_map.mp member
            rw [← collected] at among
            obtain ⟨pc, here⟩ := List.exists_mem_of_ne_nil _
              (collect_sampled found among)
            obtain ⟨first, present, mapped, -⟩ :=
              exists_collect.mp ⟨found, among, same, here⟩
            have mapped : first.mapping = row.mapping := mapped
            rcases List.mem_append.mp present with early | now
            · have sub : [first, newest, row].Sublist
                  (earlier ++ [newest] ++ [row]) := by
                exact ((List.singleton_sublist.mpr early).append
                  (.refl [newest])).append (.refl [row])
              have := grouped _ _ _ sub mapped
              exact other (last.trans (this.trans mapped))
            · rw [List.mem_singleton.mp now] at mapped
              exact other (last.trans mapped)

end

/-! ### The names of an address -/

section

variable (host : Host) (m : Mapping)

def kernelNames (rel : Nat) : Option Resolved :=
  if host.linux then
    (host.addKernelModule 0 0 (uuidDisambiguator m.bid)).1.resolveAt rel
  else none

def fileNames (source : Bytes) (rel : Nat) : Option Resolved :=
  (host.addModule 0 0 source (host.conventionalDebug m.bid)
    (uuidDisambiguator m.bid)).1.resolveAt rel

def aboveBias (pc : UInt64) : Option Nat :=
  if m.loadBias.toNat ≤ pc.toNat ∧ pc.toNat < 2 ^ 64 - 1 then
    some (pc.toNat - m.loadBias.toNat)
  else none

def fileAddress (source : Bytes) (pc : UInt64) : Option Nat :=
  match m.addressKind with
  | .virtualAddress => aboveBias m pc
  | .fileOffset =>
      if host.present source ∧ host.isUtf8 source then
        (Module.fileOffsetToVaddr host source pc.toNat).filter
          (· < 2 ^ 64 - 1)
      else none

def resolved (pc : UInt64) : Option Resolved :=
  if m.isKernel then (aboveBias m pc).bind (kernelNames host m)
  else
    (host.byteSource m.name m.bid).bind fun source =>
      (fileAddress host m source pc).bind (fileNames host m source)

end

/-- The frames of an answer that have names. -/
def named : Option Resolved → List Frame
  | none => []
  | some r => r.frames.filter (·.name ≠ [])

def entry (pc : UInt64) (answer : Option Resolved) :
    Option (UInt64 × List Frame) :=
  if named answer = [] then none else some (pc, named answer)

def Module.entries (host : Host) (m : Module) : List (UInt64 × List Frame) :=
  m.relPcs.filterMap fun pc => entry pc (resolved host m.toMapping pc)

/-! ### The registered ranges have these names -/

section

variable {host : Host} {m : Module} {pc : UInt64}

theorem resolve_one (sym : SymModule) (avma : Nat) :
    resolve [sym] avma =
      if sym.baseAvma ≤ avma ∧ avma < sym.endAvma then
        sym.resolveAt (avma - sym.baseAvma)
      else none := by
  rw [resolve, List.find?_singleton]
  by_cases inside : sym.baseAvma ≤ avma ∧ avma < sym.endAvma
  · rw [if_pos inside, if_pos (by simpa using inside)]
    rfl
  · rw [if_neg inside, if_neg (by simpa using inside)]
    rfl

theorem resolve_sampled {sym : SymModule} {addresses : List Nat}
    {avma default : Nat} (stops : sym.endAvma = endOf addresses default)
    (member : avma ∈ addresses) :
    resolve [sym] avma =
      if sym.baseAvma ≤ avma ∧ avma < 2 ^ 64 - 1 then
        sym.resolveAt (avma - sym.baseAvma)
      else none := by
  rw [resolve_one, stops]
  simp only [lt_endOf member]

theorem resolve_aboveBias {sym : SymModule}
    (base : sym.baseAvma = m.loadBias.toNat)
    (stops : sym.endAvma = endOf m.pcs m.loadBias.toNat)
    (member : pc ∈ m.relPcs) :
    resolve [sym] pc.toNat =
      (aboveBias m.toMapping pc).bind sym.resolveAt := by
  rw [resolve_sampled stops (List.mem_map_of_mem member), aboveBias, base]
  split
  · rfl
  · rfl

/-- All sampled addresses are looked up, and found by what they stand for. -/
def Registers (host : Host) (m : Module) : Option Registered → Prop
  | none => ∀ pc ∈ m.relPcs, resolved host m.toMapping pc = none
  | some (sym, lookupPcs) =>
      ∃ lookup : UInt64 → Option Nat, lookupPcs = m.relPcs.map lookup ∧
        ∀ pc ∈ m.relPcs,
          (lookup pc).bind (resolve sym) = resolved host m.toMapping pc

theorem pcs_map (f : Nat → Option Nat) :
    m.pcs.map f = m.relPcs.map fun pc => f pc.toNat :=
  List.map_map

theorem registers_kernel (kernel : m.isKernel = true) :
    Registers host m (some (m.registerKernel host).2) := by
  have masked : ∀ rel, host.linux = true →
      host.vmlinux.isNone = true ∧ host.kallsyms.isNone = true →
      kernelNames host m.toMapping rel = none := by
    intro rel linux none
    rw [kernelNames, if_pos linux, Host.addKernelModule,
      Option.isNone_iff_eq_none.mp none.1, Option.isNone_iff_eq_none.mp none.2]
    rfl
  have nothing : ∀ pc ∈ m.relPcs,
      (some pc.toNat).bind (resolve [⟨m.loadBias.toNat,
        endOf m.pcs m.loadBias.toNat, none, []⟩]) = none := by
    intro pc member
    rw [Option.bind_some, resolve_aboveBias rfl rfl member]
    cases aboveBias m.toMapping pc with
    | none => rfl
    | some rel => rfl
  unfold Module.registerKernel
  split
  · next other =>
      refine ⟨fun pc => some pc.toNat, pcs_map _, fun pc member => ?_⟩
      rw [nothing pc member, resolved, if_pos kernel]
      cases aboveBias m.toMapping pc with
      | none => rfl
      | some rel => exact (if_neg other).symm
  · next linux =>
      have linux := not_not.mp linux
      split
      · next none =>
          refine ⟨fun pc => some pc.toNat, pcs_map _, fun pc member => ?_⟩
          rw [nothing pc member, resolved, if_pos kernel]
          cases aboveBias m.toMapping pc with
          | none => rfl
          | some rel => exact (masked rel linux none).symm
      · refine ⟨fun pc => some pc.toNat, pcs_map _, fun pc member => ?_⟩
        rw [Option.bind_some, resolve_aboveBias rfl rfl member, resolved,
          if_pos kernel]
        have names : kernelNames host m.toMapping =
            (host.addKernelModule 0 0
              (uuidDisambiguator m.bid)).1.resolveAt := by
          funext rel
          exact if_pos linux
        rw [names]
        rfl

theorem registerAt_eq (source : Bytes) (base : Nat)
    (lookupPcs : List (Option Nat)) :
    (m.registerAt host source base lookupPcs).2 =
      ([(host.addModule base (endOf (lookupPcs.filterMap id) base) source
        (host.conventionalDebug m.bid) (uuidDisambiguator m.bid)).1],
        lookupPcs) :=
  rfl

theorem registers_virtual {source : Bytes} (file : m.isKernel = false)
    (trusted : host.byteSource m.name m.bid = some source)
    (kind : m.addressKind = .virtualAddress) :
    Registers host m (some (m.registerAt host source m.loadBias.toNat
      (m.pcs.map some)).2) := by
  have stops : (m.pcs.map some).filterMap id = m.pcs := by
    rw [List.filterMap_map]
    exact List.filterMap_some
  rw [registerAt_eq, stops]
  refine ⟨fun pc => some pc.toNat, pcs_map _, fun pc member => ?_⟩
  rw [Option.bind_some, resolve_aboveBias rfl rfl member, resolved,
    if_neg (by simp [file]), trusted, Option.bind_some, fileAddress, kind]
  rfl

theorem registers_fileOffset {source : Bytes} (file : m.isKernel = false)
    (trusted : host.byteSource m.name m.bid = some source)
    (kind : m.addressKind = .fileOffset)
    (readable : host.present source = true ∧ host.isUtf8 source = true) :
    Registers host m (some (m.registerAt host source 0
      (m.pcs.map (Module.fileOffsetToVaddr host source))).2) := by
  rw [registerAt_eq]
  refine ⟨fun pc => Module.fileOffsetToVaddr host source pc.toNat, pcs_map _,
    fun pc member => ?_⟩
  rw [resolved, if_neg (by simp [file]), trusted, Option.bind_some,
    fileAddress, kind]
  simp only [if_pos readable]
  cases translated : Module.fileOffsetToVaddr host source pc.toNat with
  | none => rfl
  | some vaddr =>
      have listed : vaddr ∈ (m.pcs.map
          (Module.fileOffsetToVaddr host source)).filterMap id := by
        refine List.mem_filterMap.mpr ⟨some vaddr, ?_, rfl⟩
        rw [pcs_map]
        exact List.mem_map.mpr ⟨pc, member, translated⟩
      rw [Option.bind_some, resolve_sampled rfl listed, Option.filter_some]
      by_cases small : vaddr < 2 ^ 64 - 1
      · rw [if_pos ⟨Nat.zero_le _, small⟩, if_pos (by simpa using small)]
        rfl
      · rw [if_neg fun both => small both.2, if_neg (by simpa using small)]
        rfl

theorem registers_file (file : m.isKernel = false) :
    Registers host m (m.registerFile host).2 := by
  have here : ∀ pc, resolved host m.toMapping pc =
      (host.byteSource m.name m.bid).bind fun source =>
        (fileAddress host m.toMapping source pc).bind
          (fileNames host m.toMapping source) := fun pc => by
    rw [resolved, if_neg (by simp [file])]
  unfold Module.registerFile
  split
  · next changed =>
      intro pc _
      rw [here, changed]
      rfl
  · next source trusted =>
      split
      · next kind => exact registers_virtual file trusted kind
      · next kind =>
          have refused : ¬(host.present source ∧ host.isUtf8 source) →
              ∀ pc ∈ m.relPcs, resolved host m.toMapping pc = none := by
            intro unreadable pc _
            rw [here, trusted, Option.bind_some, fileAddress, kind]
            simp only [if_neg unreadable]
            rfl
          split
          · next absent => exact refused fun both => absent both.1
          · next present =>
              split
              · next other => exact refused fun both => other both.2
              · next text =>
                  have readable := And.intro (not_not.mp present)
                    (not_not.mp text)
                  have registers :=
                    registers_fileOffset file trusted kind readable
                  dsimp only
                  split
                  · next untranslated =>
                      intro pc member
                      have missing := List.filterMap_eq_nil_iff.mp untranslated
                        _ (List.mem_map_of_mem (List.mem_map_of_mem member))
                      rw [here, trusted, Option.bind_some, fileAddress, kind]
                      simp only [if_pos readable]
                      rw [show Module.fileOffsetToVaddr host source pc.toNat =
                        none from missing]
                      rfl
                  · exact registers

theorem registers (host : Host) (m : Module) :
    Registers host m (m.register host).2 := by
  unfold Module.register
  split
  · next kernel => exact registers_kernel kernel
  · next other => exact registers_file (by simpa using other)

end

end Sismo.Symbolize.Pass
