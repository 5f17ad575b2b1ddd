import Mathlib.Data.List.TakeWhile
import Sismo.Python.KernelWalk

namespace Sismo.Python

/-! When the kernel's walk and the host's give the same names. -/

/-! ### The host's walk along the visits -/

section

variable (mem : RemoteMem) (offs : PyDebugOffsets)

def qualnameText (qual : UInt64) : Option Bytes :=
  (mem.readU64 (qual + offs.unicodeLength)).bind fun len =>
    if len.toInt64 ≤ 0 ∨ maxNameLen < len.toInt64.toInt then none
    else mem.readExactAt (qual + offs.unicodeAsciiobjectSize) len.toNat

theorem readPyUnicode_eq (qual : UInt64) :
    readPyUnicode mem offs qual = (qualnameText mem offs qual).map Utf8.lossy := by
  unfold readPyUnicode qualnameText
  cases mem.readU64 (qual + offs.unicodeLength) with
  | none => rfl
  | some len =>
      change (if _ then none else _) = Option.map Utf8.lossy (if _ then none else _)
      split
      · rfl
      · cases mem.readExactAt (qual + offs.unicodeAsciiobjectSize) len.toNat <;>
          rfl

/-- The host goes on past a frame, with its name or without code. -/
def Visit.goesOn : Visit → Bool
  | .shim => true
  | .unnamed => false
  | .named qual => (qualnameText mem offs qual).isSome

def hostName (qual : UInt64) : Bytes :=
  Utf8.lossy ((qualnameText mem offs qual).getD [])

theorem walkFrames_eq (steps : Nat) (frame : UInt64) :
    walkFrames mem offs steps frame =
      (((visits mem offs steps frame).takeWhile
        (Visit.goesOn mem offs)).filterMap Visit.qual?).map
          (hostName mem offs) := by
  induction steps generalizing frame with
  | zero => rfl
  | succ steps ih =>
      unfold walkFrames visits
      split
      · rfl
      · cases mem.readU64 (frame + offs.frameExecutable) with
        | none => rfl
        | some code =>
            dsimp only
            unfold visitOf
            split
            · cases mem.readU64 (frame + offs.framePrevious) with
              | none => rfl
              | some next => exact ih next
            · cases mem.readU64 (code + offs.codeQualname) with
              | none => rfl
              | some qual =>
                  dsimp only
                  split
                  · rfl
                  · rw [readPyUnicode_eq, List.takeWhile_cons]
                    cases text : qualnameText mem offs qual with
                    | none =>
                        have stops : Visit.goesOn mem offs (.named qual) =
                            false := by rw [Visit.goesOn, text]; rfl
                        rw [stops]
                        rfl
                    | some text' =>
                        have goes : Visit.goesOn mem offs (.named qual) =
                            true := by rw [Visit.goesOn, text]; rfl
                        have name : hostName mem offs qual =
                            Utf8.lossy text' := by rw [hostName, text]; rfl
                        rw [goes, if_pos rfl]
                        change Utf8.lossy text' :: _ =
                          hostName mem offs qual :: _
                        rw [name]
                        apply congrArg (Utf8.lossy text' :: ·)
                        cases mem.readU64 (frame + offs.framePrevious) with
                        | none => rfl
                        | some next => exact ih next

theorem walkPythonStackMem_eq (cfg : PyCfg) :
    walkPythonStackMem mem cfg.offs cfg.runtime =
      (((walkVisits mem cfg maxFrames).takeWhile
        (Visit.goesOn mem cfg.offs)).filterMap Visit.qual?).map
          (hostName mem cfg.offs) := by
  unfold walkPythonStackMem walkVisits
  cases currentFrame mem cfg.offs cfg.runtime with
  | none => rfl
  | some frame => exact walkFrames_eq mem cfg.offs maxFrames frame

end

/-! ### One name -/

/-- A text that its record holds: short enough or cut where the record ends,
without a zero byte, and valid as far as the record goes. -/
structure FitsRecord (text : Bytes) : Prop where
  length : text.length < pyNameMax ∨ text.length % pyNameMax = pyNameMax - 1
  noZero : 0 ∉ text.take (pyNameMax - 1)
  decoded : (Utf8.lossy text).take (pyNameMax - 1) = text.take (pyNameMax - 1)

theorem mapM_eq_some_iff {α β : Type} {f : α → Option β} {list : List α}
    {values : List β} :
    list.mapM f = some values ↔ list.map f = values.map some := by
  induction list generalizing values with
  | nil => cases values <;> simp
  | cons a list ih =>
      rw [List.mapM_cons]
      simp only [Option.bind_eq_bind, Option.bind_eq_some_iff, ih,
        List.map_cons]
      constructor
      · rintro ⟨first, head, rest, tail, same⟩
        cases same
        rw [head, tail]
        rfl
      · intro listed
        cases values with
        | nil => cases listed
        | cons first rest =>
            obtain ⟨head, tail⟩ := List.cons.inj listed
            exact ⟨first, head, rest, tail, rfl⟩

theorem readExactAt_length {mem : RemoteMem} {addr : UInt64} {len : Nat}
    {text : Bytes} (found : mem.readExactAt addr len = some text) :
    text.length = len := by
  have listed := congrArg List.length (mapM_eq_some_iff.mp found)
  simpa using listed.symm

theorem readExactAt_take {mem : RemoteMem} {addr : UInt64} {len fewer : Nat}
    {text : Bytes} (found : mem.readExactAt addr len = some text)
    (le : fewer ≤ len) :
    mem.readExactAt addr fewer = some (text.take fewer) := by
  apply mapM_eq_some_iff.mpr
  have listed := congrArg (List.take fewer) (mapM_eq_some_iff.mp found)
  rw [← List.map_take, ← List.map_take, List.take_range,
    Nat.min_eq_left le] at listed
  exact listed

theorem scanChar_le (first : UInt8) (rest : Bytes)
    (broken : (Utf8.scanChar first rest).1 = false) :
    (Utf8.scanChar first rest).2 ≤ Utf8.replacement.length := by
  unfold Utf8.scanChar at broken ⊢
  dsimp only at broken ⊢
  split_ifs at broken ⊢ <;> decide

theorem length_le_lossy (text : Bytes) :
    text.length ≤ (Utf8.lossy text).length := by
  fun_induction Utf8.lossy text with
  | case1 => exact Nat.le_refl 0
  | case2 first rest whole count ih =>
      rw [List.length_drop] at ih
      rw [List.length_append]
      cases scanned : whole with
      | true =>
          rw [if_pos rfl, List.length_take]
          omega
      | false =>
          have short : count ≤ Utf8.replacement.length :=
            scanChar_le first rest scanned
          rw [if_neg Bool.false_ne_true]
          omega

/-- The record holds the text as far as its length, masked, goes. -/
theorem learnedName_eq {mem : RemoteMem} {offs : PyDebugOffsets}
    {qual : UInt64} {text : Bytes}
    (found : qualnameText mem offs qual = some text) :
    learnedName mem offs qual =
      (text.take (text.length % pyNameMax)).takeWhile (· ≠ 0) := by
  unfold qualnameText at found
  obtain ⟨len, lenFound, textFound⟩ := Option.bind_eq_some_iff.mp found
  split at textFound
  · cases textFound
  · have length := readExactAt_length textFound
    have masked : (len &&& (UInt64.ofNat pyNameMax - 1)).toNat =
        text.length % pyNameMax := by
      rw [UInt64.toNat_and, length]
      exact Nat.and_two_pow_sub_one_eq_mod len.toNat 7
    have le : text.length % pyNameMax ≤ len.toNat := by
      rw [← length]
      exact Nat.mod_le _ _
    have record : recordName mem offs qual =
        text.take (text.length % pyNameMax) ++ [0] := by
      unfold recordName
      rw [lenFound, Option.getD_some]
      dsimp only
      split
      · next zero =>
          rw [zero] at masked
          rw [← masked]
          rfl
      · rw [masked, readExactAt_take textFound le]
        rfl
    unfold learnedName
    rw [record, List.takeWhile_append]
    split
    · next whole =>
        have all := (List.takeWhile_prefix (p := fun b => decide (b ≠ 0))
          (l := text.take (text.length % pyNameMax))).eq_of_length whole
        rw [all]
        exact List.append_nil _
    · rfl

theorem fitsRecord_iff (text : Bytes) :
    (text.take (text.length % pyNameMax)).takeWhile (· ≠ 0) =
        (Utf8.lossy text).take (pyNameMax - 1) ↔ FitsRecord text := by
  have longer := length_le_lossy text
  unfold pyNameMax
  constructor
  · intro same
    have held := List.takeWhile_prefix (p := fun b : UInt8 => decide (b ≠ 0))
      (l := text.take (text.length % 128))
    have bound := held.length_le
    have lengths := congrArg List.length same
    rw [List.length_take] at lengths bound
    have reach : text.length % 128 = min 127 text.length := by omega
    have taken : text.take (text.length % 128) = text.take 127 := by
      rw [reach]
      exact List.take_eq_take_min.symm
    have whole := held.eq_of_length (by
      rw [List.length_take]
      omega)
    rw [whole, taken] at same
    refine ⟨by unfold pyNameMax; omega, ?_, same.symm⟩
    intro zero
    rw [taken] at whole
    have nonzero := List.takeWhile_eq_self_iff.mp whole 0 zero
    exact absurd rfl (of_decide_eq_true nonzero)
  · intro fits
    have length := fits.length
    unfold pyNameMax at length
    have reach : text.length % 128 = min 127 text.length := by omega
    have taken : text.take (text.length % 128) = text.take 127 := by
      rw [reach]
      exact List.take_eq_take_min.symm
    have decoded := fits.decoded
    unfold pyNameMax at decoded
    rw [taken, decoded]
    apply List.takeWhile_eq_self_iff.mpr
    intro b member
    apply decide_eq_true
    rintro rfl
    exact fits.noZero member

/-! ### All names -/

theorem length_quals_le (list : List Visit) :
    (list.filterMap Visit.qual?).length ≤ list.length :=
  List.length_filterMap_le _ _

/-- Each visit has a qualname when there are as many. -/
theorem length_quals_eq_iff (list : List Visit) :
    (list.filterMap Visit.qual?).length = list.length ↔
      ∀ v ∈ list, v.qual? ≠ none := by
  induction list with
  | nil => simp
  | cons v list ih =>
      have le := length_quals_le list
      cases named : v.qual? with
      | none =>
          rw [List.filterMap_cons_none named, List.length_cons]
          constructor
          · intro same
            omega
          · exact fun all => absurd named (all v List.mem_cons_self)
      | some qual =>
          rw [List.filterMap_cons_some named, List.length_cons,
            List.length_cons, List.forall_mem_cons, ← ih]
          simp [named]

theorem quals_eq_nil_iff {list : List Visit} :
    list.filterMap Visit.qual? = [] ↔ ∀ v ∈ list, v.qual? = none :=
  List.filterMap_eq_nil_iff

/-- Two lists of names agree when one goes on past a stop of the other. -/
theorem append_eq_iff {kernel host : UInt64 → Bytes} (first more : List UInt64) :
    (first ++ more).map kernel = first.map host ↔
      (∀ qual ∈ first, kernel qual = host qual) ∧ more = [] := by
  constructor
  · intro same
    have lengths := congrArg List.length same
    simp only [List.length_map, List.length_append] at lengths
    have nothing : more = [] := List.eq_nil_of_length_eq_zero (by omega)
    rw [nothing, List.append_nil] at same
    exact ⟨List.map_inj_left.mp same, nothing⟩
  · rintro ⟨each, rfl⟩
    rw [List.append_nil]
    exact List.map_inj_left.mpr each

theorem mem_quals {list : List Visit} {qual : UInt64} :
    qual ∈ list.filterMap Visit.qual? ↔ .named qual ∈ list := by
  rw [List.mem_filterMap]
  constructor
  · rintro ⟨v, member, named⟩
    cases v with
    | shim => cases named
    | unnamed => cases named
    | named other =>
        cases named
        exact member
  · exact fun member => ⟨_, member, rfl⟩

section

variable {goesOn : Visit → Bool} {kernel host : UInt64 → Bytes} {count : Nat}
  {all : List Visit}

/-- The host stops within the first frames: nothing more may be named. -/
theorem names_agree_of_stop (stop : (all.take count).dropWhile goesOn ≠ []) :
    ((all.take count).filterMap Visit.qual?).map kernel =
        (((all.takeWhile goesOn).filterMap Visit.qual?).map host).take count ↔
      (∀ qual, .named qual ∈ (all.take count).takeWhile goesOn →
        kernel qual = host qual) ∧
      ∀ v ∈ (all.take count).dropWhile goesOn, v.qual? = none := by
  have split : (all.take count).takeWhile goesOn ++
      (all.take count).dropWhile goesOn = all.take count :=
    List.takeWhile_append_dropWhile
  have stopped : all.takeWhile goesOn = (all.take count).takeWhile goesOn := by
    conv_lhs => rw [← List.take_append_drop count all]
    rw [List.takeWhile_append, if_neg]
    intro whole
    have lengths := congrArg List.length split
    rw [List.length_append, whole] at lengths
    exact stop (List.eq_nil_of_length_eq_zero (by omega))
  have short : ((((all.take count).takeWhile goesOn).filterMap
      Visit.qual?).map host).length ≤ count := by
    have named := length_quals_le ((all.take count).takeWhile goesOn)
    have first := (List.takeWhile_prefix goesOn (l := all.take count)).length_le
    have taken := List.length_take_le count all
    rw [List.length_map]
    omega
  have quals : (all.take count).filterMap Visit.qual? =
      ((all.take count).takeWhile goesOn).filterMap Visit.qual? ++
        ((all.take count).dropWhile goesOn).filterMap Visit.qual? := by
    rw [← List.filterMap_append, split]
  rw [stopped, List.take_of_length_le short, quals, append_eq_iff,
    quals_eq_nil_iff]
  simp only [mem_quals]

/-- The host goes on past the first frames: it names more when one of them had
no code. -/
theorem names_agree_of_goesOn
    (goes : ∀ v, goesOn v = true → (v.qual? = none ↔ v = .shim))
    (head : ∀ v ∈ all.take count, goesOn v = true) :
    ((all.take count).filterMap Visit.qual?).map kernel =
        (((all.takeWhile goesOn).filterMap Visit.qual?).map host).take count ↔
      (∀ qual, .named qual ∈ all.take count → kernel qual = host qual) ∧
      ((∀ v ∈ all.take count, v ≠ .shim) ∨
        ∀ v ∈ (all.drop count).takeWhile goesOn, v.qual? = none) := by
  have whole : (all.take count).takeWhile goesOn = all.take count :=
    List.takeWhile_eq_self_iff.mpr head
  have extended : all.takeWhile goesOn =
      all.take count ++ (all.drop count).takeWhile goesOn := by
    conv_lhs => rw [← List.take_append_drop count all]
    rw [List.takeWhile_append, if_pos (by rw [whole])]
  have named := length_quals_le (all.take count)
  have taken := List.length_take_le count all
  have full : count ≤ ((all.take count).filterMap Visit.qual?).length ∨
        ((all.drop count).takeWhile goesOn).filterMap Visit.qual? = [] ↔
      (∀ v ∈ all.take count, v ≠ .shim) ∨
        ∀ v ∈ (all.drop count).takeWhile goesOn, v.qual? = none := by
    have noShim : (∀ v ∈ all.take count, v ≠ .shim) ↔
        ((all.take count).filterMap Visit.qual?).length =
          (all.take count).length := by
      rw [length_quals_eq_iff]
      exact forall₂_congr fun v member => not_congr (goes v (head v member)).symm
    rw [quals_eq_nil_iff, noShim]
    constructor
    · rintro (enough | nothing)
      · exact .inl (by omega)
      · exact .inr nothing
    · rintro (named | nothing)
      · by_cases reached : count ≤ all.length
        · rw [List.length_take, Nat.min_eq_left reached] at named
          exact .inl named.ge
        · right
          rw [List.drop_eq_nil_of_le (by omega)]
          exact fun v member => by cases member
      · exact .inr nothing
  have short : (((all.take count).filterMap Visit.qual?).map host).length ≤
      count := by
    rw [List.length_map]
    omega
  rw [extended, List.filterMap_append, List.map_append, List.take_append,
    List.take_of_length_le short, List.length_map, ← full]
  constructor
  · intro same
    have lengths := congrArg List.length same
    rw [List.length_append, List.length_map, List.length_map] at lengths
    have nothing := List.eq_nil_of_length_eq_zero (Nat.left_eq_add.mp lengths)
    rw [nothing, List.append_nil] at same
    refine ⟨fun qual member => List.map_inj_left.mp same qual
      (mem_quals.mpr member), ?_⟩
    rcases List.take_eq_nil_iff.mp nothing with zero | unnamed
    · exact .inl (by omega)
    · exact .inr (List.map_eq_nil_iff.mp unnamed)
  · rintro ⟨each, enough⟩
    have nothing : ((((all.drop count).takeWhile goesOn).filterMap
        Visit.qual?).map host).take (count -
          ((all.take count).filterMap Visit.qual?).length) = [] := by
      rw [List.take_eq_nil_iff, List.map_eq_nil_iff]
      exact enough.imp (by omega) fun unnamed => unnamed
    rw [nothing, List.append_nil]
    exact List.map_inj_left.mpr fun qual member =>
      each qual (mem_quals.mp member)

end

/-! ### The two walks -/

/-- The chain of frames and the texts of the names on which the walks agree:
what the kernel names before the host stops has texts that fit a record, after
the host has stopped within the kernel's steps there is nothing to name, and
when a step was spent on a frame without code there is nothing more to name
after the kernel's steps. -/
structure WalksAlike (mem : RemoteMem) (cfg : PyCfg) : Prop where
  disabled : cfg.runtime = 0 → ∀ v ∈ (walkVisits mem cfg maxFrames).takeWhile
    (Visit.goesOn mem cfg.offs), v.qual? = none
  fits : cfg.runtime ≠ 0 → ∀ qual text,
    .named qual ∈ ((walkVisits mem cfg maxFrames).take
      Samples.maxPyFrames).takeWhile (Visit.goesOn mem cfg.offs) →
    qualnameText mem cfg.offs qual = some text → FitsRecord text
  stopped : cfg.runtime ≠ 0 →
    ∀ v ∈ ((walkVisits mem cfg maxFrames).take
      Samples.maxPyFrames).dropWhile (Visit.goesOn mem cfg.offs),
      v.qual? = none
  reached : cfg.runtime ≠ 0 →
    (∀ v ∈ (walkVisits mem cfg maxFrames).take Samples.maxPyFrames,
      v.goesOn mem cfg.offs = true) →
    (∀ v ∈ (walkVisits mem cfg maxFrames).take Samples.maxPyFrames,
      v ≠ .shim) ∨
    ∀ v ∈ ((walkVisits mem cfg maxFrames).drop
      Samples.maxPyFrames).takeWhile (Visit.goesOn mem cfg.offs),
      v.qual? = none

theorem walkVisits_take (mem : RemoteMem) (cfg : PyCfg) :
    (walkVisits mem cfg maxFrames).take Samples.maxPyFrames =
      walkVisits mem cfg Samples.maxPyFrames := by
  unfold walkVisits
  cases currentFrame mem cfg.offs cfg.runtime with
  | none => rfl
  | some frame => exact visits_take mem cfg.offs (by decide) frame

theorem fits_iff (mem : RemoteMem) (offs : PyDebugOffsets) (list : List Visit) :
    (∀ qual, .named qual ∈ list.takeWhile (Visit.goesOn mem offs) →
      learnedName mem offs qual =
        (hostName mem offs qual).take (pyNameMax - 1)) ↔
      ∀ qual text, .named qual ∈ list.takeWhile (Visit.goesOn mem offs) →
        qualnameText mem offs qual = some text → FitsRecord text := by
  constructor
  · intro same qual text member found
    rw [← fitsRecord_iff, ← learnedName_eq found, same qual member, hostName,
      found]
    rfl
  · intro fits qual member
    have goes := List.mem_takeWhile_imp member
    obtain ⟨text, found⟩ := Option.isSome_iff_exists.mp goes
    rw [learnedName_eq found, (fitsRecord_iff text).mpr
      (fits qual text member found), hostName, found]
    rfl

/-- The kernel's names are the host's, cut to what a sample and a record hold,
exactly when the chain and the texts allow it. -/
theorem walks_agree_iff (mem : RemoteMem) (cfg : PyCfg) (earlier : Nat) :
    walkNames mem cfg earlier =
        ((walkPythonStackMem mem cfg.offs cfg.runtime).take
          Samples.maxPyFrames).map (·.take (pyNameMax - 1)) ↔
      WalksAlike mem cfg := by
  rw [walkNames_eq, walkPythonStackMem_eq, ← walkVisits_take, List.map_take,
    List.map_map]
  by_cases off : cfg.runtime = 0
  · rw [if_pos off, eq_comm, List.take_eq_nil_iff, List.map_eq_nil_iff,
      quals_eq_nil_iff]
    constructor
    · rintro (impossible | nothing)
      · cases impossible
      · exact ⟨fun _ => nothing, fun on => absurd off on, fun on => absurd off on,
          fun on => absurd off on⟩
    · exact fun alike => .inr (alike.disabled off)
  · rw [if_neg off]
    have goes : ∀ v, Visit.goesOn mem cfg.offs v = true →
        (v.qual? = none ↔ v = .shim) := by
      intro v going
      cases v with
      | shim => simp [Visit.qual?]
      | unnamed => cases going
      | named qual => simp [Visit.qual?]
    have fits := fits_iff mem cfg.offs
      ((walkVisits mem cfg maxFrames).take Samples.maxPyFrames)
    by_cases stop : ((walkVisits mem cfg maxFrames).take
        Samples.maxPyFrames).dropWhile (Visit.goesOn mem cfg.offs) = []
    · have head := List.dropWhile_eq_nil_iff.mp stop
      have whole := List.takeWhile_eq_self_iff.mpr head
      rw [whole] at fits
      rw [names_agree_of_goesOn goes head]
      constructor
      · rintro ⟨same, reached⟩
        refine ⟨fun on => absurd on off, fun _ => ?_, fun _ => ?_,
          fun _ _ => reached⟩
        · rw [whole]
          exact fits.mp same
        · rw [stop]
          exact fun v member => by cases member
      · intro alike
        have texts := alike.fits off
        rw [whole] at texts
        exact ⟨fits.mpr texts, alike.reached off head⟩
    · rw [names_agree_of_stop stop]
      constructor
      · rintro ⟨same, stopped⟩
        refine ⟨fun on => absurd on off, fun _ => fits.mp same, fun _ => stopped,
          fun _ head => ?_⟩
        exact absurd (List.dropWhile_eq_nil_iff.mpr head) stop
      · intro alike
        exact ⟨fits.mpr (alike.fits off), alike.stopped off⟩

/-! A function whose name has 128 bytes. -/

/-- The pointers of one frame, all to the same place, and its name. -/
def longNameWord : Nat → UInt64
  | 0 => 0x1000
  | 1 => 0
  | 2 => 128
  | _ => 0x6161616161616161

def longNameMem : RemoteMem where
  byteAt addr :=
    if 0x1000 ≤ addr ∧ addr < 0x1000 + 8 * 19 then
      some ((longNameWord ((addr - 0x1000) / 8)).toNat /
        256 ^ ((addr - 0x1000) % 8)).toUInt8
    else none

def longNameCfg : PyCfg where
  runtime := 0x1000
  offs := {
    interpretersHead := 0
    threadsHead := 0
    currentFrame := 0
    framePrevious := 8
    frameExecutable := 0
    codeQualname := 0
    unicodeLength := 16
    unicodeAsciiobjectSize := 24 }

theorem not_walks_agree_longName :
    walkNames longNameMem longNameCfg 0 ≠
      ((walkPythonStackMem longNameMem longNameCfg.offs
        longNameCfg.runtime).take Samples.maxPyFrames).map
          (·.take (pyNameMax - 1)) := by
  decide +kernel

end Sismo.Python
