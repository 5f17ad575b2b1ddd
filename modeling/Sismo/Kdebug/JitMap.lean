import Sismo.Lib.BinarySearch
import Sismo.Lib.Machine
import Sismo.Lib.Ranges
import Sismo.Lib.Text

namespace Sismo.Kdebug.PerfMap

/-! The runtimes' perf-maps: files of method names that only grow, and the
reader that loads one again when its size has changed. -/

abbrev Bytes := List UInt8

structure JitSym where
  start : Nat
  size : Nat
  name : List Char
  deriving DecidableEq, Repr

/-- A line's start, size and name; the name may hold blanks. -/
def parseLine (line : List Char) : Option JitSym :=
  match splitOnce ' ' line with
  | none => none
  | some (a, rest) =>
      match splitOnce ' ' rest with
      | none => none
      | some (sz, name) =>
          match fromStrRadix 16 (2 ^ 64) (a.map Char.toNat),
            fromStrRadix 16 (2 ^ 64) (sz.map Char.toNat) with
          | some start, some size => some ⟨start, size, name⟩
          | _, _ => none

/-- `load_perf_map` of the text. -/
def parseMap (text : List Char) : List JitSym :=
  ((lines text).filterMap parseLine).mergeSort
    fun first second => first.start ≤ second.start

/-- `load_perf_map`; a missing file is an empty one. -/
def loadPerfMap (file : Bytes) : List JitSym :=
  match String.fromUTF8? ⟨file.toArray⟩ with
  | none => []
  | some text => parseMap text.toList

/-- The addresses of an entry; the end wraps. -/
def JitSym.range (sym : JitSym) : Nat × Nat :=
  (sym.start, (sym.start + sym.size) % 2 ^ 64)

def lookup (syms : List JitSym) (pc : Nat) : Option (List Char) :=
  (Ranges.lastStarting JitSym.range syms pc).map JitSym.name

structure JitMap where
  pid : Nat := 0
  syms : Option (List JitSym) := none
  fileSize : Nat := 0

/-- The files of all processes, empty where there is none. -/
abbrev Files := Nat → Bytes

/-- `JitMap::name`: the size is taken at one time, the file read later. -/
def JitMap.refresh (map : JitMap) (atStat atRead : Files) (pid : Nat) :
    JitMap :=
  let size := (atStat pid).length
  if map.syms.isNone || pid ≠ map.pid || size ≠ map.fileSize then
    { syms := some (loadPerfMap (atRead pid)), pid, fileSize := size }
  else map

def JitMap.name (map : JitMap) (atStat atRead : Files) (pid pc : Nat) :
    Option (List Char) :=
  (map.refresh atStat atRead pid).syms.bind fun syms => lookup syms pc

/-- What a runtime has written to its map. -/
structure Append where
  pid : Nat
  bytes : Bytes

def Files.append (files : Files) (write : Append) : Files :=
  fun pid =>
    if pid = write.pid then files pid ++ write.bytes else files pid

/-- The files grow; a lookup may have some of that happen between its two
accesses. -/
inductive Action where
  | append (write : Append)
  | lookup (pid pc : Nat) (during : List Append)

structure State where
  files : Files
  map : JitMap := {}

def step (s : State) : Action → Option State
  | .append write => some { s with files := s.files.append write }
  | .lookup pid _ during =>
      let later := during.foldl Files.append s.files
      some ⟨later, s.map.refresh s.files later pid⟩

/-- What is cached was in the file when it had at least the size noted, and
the file has only grown since. -/
def Cached (s : State) : Prop :=
  ∀ syms, s.map.syms = some syms →
    ∃ seen, syms = loadPerfMap seen ∧ seen <+: s.files s.map.pid ∧
      s.map.fileSize ≤ seen.length

theorem prefix_append (files : Files) (write : Append) (pid : Nat) :
    files pid <+: files.append write pid := by
  unfold Files.append
  split
  · exact List.prefix_append _ _
  · exact List.prefix_refl _

theorem prefix_foldl (writes : List Append) (files : Files) (pid : Nat) :
    files pid <+: writes.foldl Files.append files pid := by
  induction writes generalizing files with
  | nil => exact List.prefix_refl _
  | cons write writes induction =>
      exact (prefix_append files write pid).trans (induction _)

/-- The map is loaded again, or was loaded for this process and size. -/
theorem refresh_cases (map : JitMap) (atStat atRead : Files) (pid : Nat) :
    map.refresh atStat atRead pid =
        ⟨pid, some (loadPerfMap (atRead pid)), (atStat pid).length⟩ ∨
      map.refresh atStat atRead pid = map ∧ map.pid = pid ∧
        map.fileSize = (atStat pid).length ∧
        ∃ syms, map.syms = some syms := by
  unfold JitMap.refresh
  dsimp only
  split
  · exact .inl rfl
  · next fresh =>
      simp only [Bool.or_eq_true, decide_eq_true_eq, not_or, not_not,
        Bool.not_eq_true, Option.isNone_eq_false_iff] at fresh
      obtain ⟨⟨loaded, same⟩, size⟩ := fresh
      exact .inr ⟨rfl, same.symm, size.symm,
        Option.isSome_iff_exists.mp loaded⟩

theorem cached_refresh {s : State} (cached : Cached s) (pid : Nat)
    (during : List Append) :
    Cached ⟨during.foldl Files.append s.files,
      s.map.refresh s.files (during.foldl Files.append s.files) pid⟩ := by
  intro syms found
  dsimp only at found ⊢
  rcases refresh_cases s.map s.files (during.foldl Files.append s.files) pid
    with loaded | ⟨kept, _⟩
  · rw [loaded] at found ⊢
    cases found
    exact ⟨_, rfl, List.prefix_refl _, (prefix_foldl during _ _).length_le⟩
  · rw [kept] at found ⊢
    obtain ⟨seen, loaded, before, size⟩ := cached syms found
    exact ⟨seen, loaded, before.trans (prefix_foldl during _ _), size⟩

theorem cached_step {s next : State} {action : Action} (cached : Cached s)
    (stepped : step s action = some next) : Cached next := by
  cases action with
  | append write =>
      cases stepped
      intro syms found
      obtain ⟨seen, loaded, before, size⟩ := cached syms found
      exact ⟨seen, loaded, before.trans (prefix_append _ write _), size⟩
  | lookup pid pc during =>
      cases stepped
      exact cached_refresh cached pid during

/-- However the runtimes append to their maps, before a lookup or in the middle
of it: the answer is that of a fresh load of the file as it stands when the
lookup takes its size, or when it reads it. -/
theorem cache_fresh {files : Files} {actions : List Action} {s : State}
    (reached : Machine.run step { files } actions = some s)
    (during : List Append) (pid pc : Nat) :
    s.map.name s.files (during.foldl Files.append s.files) pid pc =
        lookup (loadPerfMap (s.files pid)) pc ∨
      s.map.name s.files (during.foldl Files.append s.files) pid pc =
        lookup (loadPerfMap (during.foldl Files.append s.files pid)) pc := by
  have start : Cached { files := files } := fun syms none => by simp at none
  have cached := Machine.Reachable.invariant
    (fun _ _ _ cached stepped => cached_step cached stepped)
    ⟨actions, reached⟩ start
  rw [JitMap.name]
  rcases refresh_cases s.map s.files (during.foldl Files.append s.files) pid
    with loaded | ⟨kept, rfl, size, syms, found⟩
  · rw [loaded]
    exact .inr rfl
  · obtain ⟨seen, loaded, before, small⟩ := cached syms found
    rw [size] at small
    have whole : seen = s.files s.map.pid := before.eq_of_length_le small
    rw [kept, found, loaded, whole]
    exact .inl rfl

/-- A map that grows before, between and in the middle of lookups. -/
def growth : List Action :=
  [.append ⟨7, [0x31]⟩, .lookup 7 0x10 [⟨7, [0x20]⟩], .append ⟨9, [0x33]⟩]

theorem cache_fresh_growth :
    ∃ s, Machine.run step { files := fun _ => [] } growth = some s ∧
      (s.map.name s.files ([⟨7, [0x34]⟩].foldl Files.append s.files) 7 0x10 =
          lookup (loadPerfMap (s.files 7)) 0x10 ∨
        s.map.name s.files ([⟨7, [0x34]⟩].foldl Files.append s.files) 7 0x10 =
          lookup (loadPerfMap
            ([⟨7, [0x34]⟩].foldl Files.append s.files 7)) 0x10) :=
  ⟨_, rfl, @cache_fresh (fun _ => []) growth _ rfl [⟨7, [0x34]⟩] 7 0x10⟩

/-! What a runtime writes, and what is found in it. -/

def JitSym.line (sym : JitSym) : List Char :=
  Nat.toDigits 16 sym.start ++ ' ' ::
    (Nat.toDigits 16 sym.size ++ ' ' :: sym.name)

def perfMapText (syms : List JitSym) : List Char :=
  syms.flatMap fun sym => sym.line ++ ['\n']

def perfMapFile (syms : List JitSym) : Bytes :=
  (String.ofList (perfMapText syms)).toUTF8.data.toList

/-- A method of a runtime: its code is in the address space, and its name on
one line. -/
structure JitSym.Method (sym : JitSym) : Prop where
  fits : sym.start + sym.size < 2 ^ 64
  code : 0 < sym.size
  unbroken : '\n' ∉ sym.name
  unreturned : sym.name.getLast? ≠ some '\r'

theorem blank_free {n : Nat} {c : Char} (outside : ∀ digit < 16,
    Nat.digitChar digit ≠ c) : c ∉ Nat.toDigits 16 n := by
  intro member
  obtain ⟨digit, small, rfl⟩ := exists_digitChar member
  exact outside digit small rfl

theorem parseLine_line {sym : JitSym} (isMethod : sym.Method) :
    parseLine sym.line = some sym := by
  have fits := isMethod.fits
  have blank : ∀ digit < 16, Nat.digitChar digit ≠ ' ' := by decide
  rw [parseLine, JitSym.line, splitOnce_append (blank_free blank)]
  dsimp only
  rw [splitOnce_append (blank_free blank)]
  dsimp only
  rw [fromStrRadix_toDigits (show sym.start < 2 ^ 64 by omega),
    fromStrRadix_toDigits (show sym.size < 2 ^ 64 by omega)]

theorem line_unbroken {sym : JitSym} (isMethod : sym.Method) :
    '\n' ∉ sym.line := by
  have broken : ∀ digit < 16, Nat.digitChar digit ≠ '\n' := by decide
  simp only [JitSym.line, List.mem_append, List.mem_cons, not_or]
  exact ⟨blank_free broken, by decide, blank_free broken, by decide,
    isMethod.unbroken⟩

theorem stripReturn_line {sym : JitSym} (isMethod : sym.Method) :
    stripReturn sym.line = sym.line := by
  apply if_neg
  rw [JitSym.line, List.getLast?_append_cons, ← List.cons_append,
    List.getLast?_append_cons]
  cases name : sym.name with
  | nil => decide
  | cons c rest =>
      rw [List.getLast?_cons_cons, ← name]
      exact isMethod.unreturned

theorem parseMap_text {syms : List JitSym}
    (methods : ∀ sym ∈ syms, sym.Method) :
    parseMap (perfMapText syms) = syms.mergeSort
      fun first second => first.start ≤ second.start := by
  have linewise : perfMapText syms =
      (syms.map JitSym.line).flatMap fun line => line ++ ['\n'] := by
    rw [List.flatMap_map]
    rfl
  have kept : (syms.map JitSym.line).map stripReturn = syms.map JitSym.line := by
    rw [List.map_map]
    exact List.map_congr_left fun sym member =>
      stripReturn_line (methods sym member)
  have parsed : (syms.map JitSym.line).filterMap parseLine = syms := by
    rw [List.filterMap_map]
    exact (List.filterMap_congr fun sym member =>
      parseLine_line (methods sym member)).trans List.filterMap_some
  rw [parseMap, linewise, lines_ended, kept, parsed]
  intro line member
  obtain ⟨sym, inSyms, rfl⟩ := List.mem_map.mp member
  exact line_unbroken (methods sym inSyms)

theorem loadPerfMap_file {syms : List JitSym}
    (methods : ∀ sym ∈ syms, sym.Method) :
    loadPerfMap (perfMapFile syms) = syms.mergeSort
      fun first second => first.start ≤ second.start := by
  have decoded : String.fromUTF8? ⟨(perfMapFile syms).toArray⟩ =
      some (String.ofList (perfMapText syms)) :=
    dif_pos (String.ofList (perfMapText syms)).isValidUTF8
  rw [loadPerfMap, decoded]
  dsimp only
  rw [String.toList_ofList, parseMap_text methods]

theorem range_method {sym : JitSym} (isMethod : sym.Method) :
    sym.range = (sym.start, sym.start + sym.size) := by
  rw [JitSym.range, Nat.mod_eq_of_lt isMethod.fits]

/-- Of a map whose methods do not overlap, in whatever order they were written,
every pc gets the name of the method it is in and no other pc gets one. -/
theorem methods_lookup_exact {syms : List JitSym}
    (methods : ∀ sym ∈ syms, sym.Method)
    (apart : syms.Pairwise fun first second => ∀ pc, first.start ≤ pc →
      pc < first.start + first.size →
      ¬(second.start ≤ pc ∧ pc < second.start + second.size))
    {pc : Nat} {name : List Char} :
    lookup (loadPerfMap (perfMapFile syms)) pc = some name ↔
      ∃ sym ∈ syms, sym.name = name ∧ sym.start ≤ pc ∧
        pc < sym.start + sym.size := by
  have perm := List.mergeSort_perm syms fun first second =>
    decide (first.start ≤ second.start)
  have kept : ∀ sym ∈ syms.mergeSort
      (fun first second => decide (first.start ≤ second.start)),
      sym.Method := fun sym member => methods sym (perm.mem_iff.mp member)
  have sorted : Ranges.StartSorted JitSym.range (syms.mergeSort
      fun first second => decide (first.start ≤ second.start)) :=
    mergeSort_sorted JitSym.start syms
  have disjoint : Ranges.Apart JitSym.range (syms.mergeSort
      fun first second => decide (first.start ≤ second.start)) := by
    refine (perm.pairwise_iff fun apart addr second first =>
      apart addr first second).mpr ?_
    refine apart.imp_of_mem fun first second away addr within other => ?_
    rw [range_method (methods _ first)] at within
    rw [range_method (methods _ second)] at other
    exact away addr within.1 within.2 other
  have inOrder := disjoint.inOrder_of_nonempty sorted fun sym member => by
    have code := (kept sym member).code
    rw [range_method (kept sym member)]
    dsimp only
    omega
  rw [loadPerfMap_file methods, lookup, Option.map_eq_some_iff]
  simp only [Ranges.lastStarting_eq_some_iff sorted inOrder, perm.mem_iff]
  constructor
  · rintro ⟨sym, ⟨member, inside⟩, rfl⟩
    rw [range_method (methods sym member)] at inside
    exact ⟨sym, member, rfl, inside⟩
  · rintro ⟨sym, member, rfl, inside⟩
    refine ⟨sym, ⟨member, ?_⟩, rfl⟩
    rw [range_method (methods sym member)]
    exact inside

def twoMethods : List JitSym :=
  [⟨0x2000, 0x10, ['h', 'o', 't', ' ', 'b']⟩, ⟨0x1000, 0x20, ['a']⟩]

theorem methods_lookup_exact_twoMethods :
    lookup (loadPerfMap (perfMapFile twoMethods)) 0x2008 =
      some ['h', 'o', 't', ' ', 'b'] := by
  have methods : ∀ sym ∈ twoMethods, sym.Method := by
    intro sym member
    simp only [twoMethods, List.mem_cons, List.not_mem_nil, or_false] at member
    rcases member with rfl | rfl
    · exact ⟨by decide, by decide, by decide, by decide⟩
    · exact ⟨by decide, by decide, by decide, by decide⟩
  refine (methods_lookup_exact methods ?_).mpr
    ⟨_, List.mem_cons_self, rfl, by decide, by decide⟩
  refine List.pairwise_pair.mpr fun pc low high other => ?_
  dsimp only at low high other
  omega

end Sismo.Kdebug.PerfMap
