import Sismo.Go.RowTable

namespace Sismo.Go

/-! The names of the functions, and the function of an address. -/

/-- The NUL-terminated UTF-8 string at an offset of the section. -/
def cstrAt (buf : Bytes) (off : Nat) : Option String :=
  let rest := buf.drop off
  if off ≤ buf.length ∧ 0 ∈ rest then
    String.fromUTF8? ⟨(rest.takeWhile (· ≠ 0)).toArray⟩
  else none

namespace GoPclntab

variable (go : GoPclntab)

def funcName (funcoff : Nat) : Option String := do
  let nameoff ← readLe go.data 4 (go.functabOff + funcoff + 4)
  if 2 ^ 31 ≤ nameoff then none
  else cstrAt go.data (go.funcnameOff + nameoff)

def resolve (addr : Nat) : Option (String × Nat) := do
  let q ← if go.textOff ≤ addr then some (addr - go.textOff) else none
  if q < 2 ^ 32 then
    let (entryoff, funcoff) ← go.findFunc q
    let name ← go.funcName funcoff
    some (name, q - entryoff)
  else none

structure Covers (addr i : Nat) (name : String) : Prop where
  inside : i < go.nfunc
  named : go.funcName (go.functab i).2 = some name
  le : go.textOff + go.entry i ≤ addr
  lt : addr < go.textOff + go.entry (i + 1)

variable {go}

theorem resolve_of_inside {addr : Nat} (le : go.textOff + go.entry 0 ≤ addr)
    (lt : addr < go.textOff + go.entry go.nfunc) :
    ∃ f < go.nfunc, go.textOff + go.entry f ≤ addr ∧
      addr < go.textOff + go.entry (f + 1) ∧
      go.resolve addr = (go.funcName (go.functab f).2).map fun name =>
        (name, addr - (go.textOff + go.entry f)) := by
  have small := go.entry_lt go.nfunc
  obtain ⟨f, inside, lower, upper, findFunc⟩ :=
    @findFunc_eq go (addr - go.textOff) (by omega) (by omega)
  refine ⟨f, inside, by omega, by omega, ?_⟩
  rw [resolve, if_pos (by omega), Option.bind_eq_bind, Option.bind_some]
  dsimp only
  rw [if_pos (by omega), findFunc, Option.bind_eq_bind, Option.bind_some,
    Nat.sub_add_eq]
  cases go.funcName (go.functab f).2 with
  | none => rfl
  | some name => rfl

theorem resolve_of_outside {addr : Nat}
    (outside : addr < go.textOff + go.entry 0 ∨
      go.textOff + go.entry go.nfunc ≤ addr) : go.resolve addr = none := by
  rw [resolve]
  split
  · next le =>
      rw [Option.bind_eq_bind, Option.bind_some]
      dsimp only
      split
      · have missing : go.findFunc (addr - go.textOff) = none := by
          unfold GoPclntab.findFunc
          unfold entry at outside
          exact if_pos (by omega)
        rw [missing]
        rfl
      · rfl
  · rfl

theorem resolve_eq_some (ascending : go.Ascending) {addr : Nat}
    {result : String × Nat} : go.resolve addr = some result ↔
      ∃ i, go.Covers addr i result.1 ∧
        result.2 = addr - (go.textOff + go.entry i) := by
  have bounds : ∀ i name, go.Covers addr i name →
      go.textOff + go.entry 0 ≤ addr ∧
        addr < go.textOff + go.entry go.nfunc := by
    intro i name covers
    have first := ascending.entry_le (Nat.zero_le i) covers.inside.le
    have last := ascending.entry_le (show i + 1 ≤ go.nfunc from covers.inside)
      (Nat.le_refl _)
    have := covers.le
    have := covers.lt
    omega
  by_cases inText : go.textOff + go.entry 0 ≤ addr ∧
      addr < go.textOff + go.entry go.nfunc
  · obtain ⟨f, inside, le, lt, resolved⟩ :=
      resolve_of_inside inText.1 inText.2
    rw [resolved, Option.map_eq_some_iff]
    constructor
    · intro ⟨name, named, same⟩
      cases same
      exact ⟨f, ⟨inside, named, le, lt⟩, rfl⟩
    · intro ⟨i, covers, offset⟩
      have := covers.le
      have := covers.lt
      obtain rfl : i = f := by
        apply ascending.function_unique (q := addr - go.textOff)
          covers.inside inside <;> omega
      exact ⟨result.1, covers.named, Prod.ext rfl offset.symm⟩
  · rw [resolve_of_outside (by omega)]
    constructor
    · nofun
    · intro ⟨i, covers, _⟩
      exact absurd (bounds i result.1 covers) inText

/-- What the checks of the header leave for the lookup. -/
theorem fromSection_spec {data : Bytes} {textVaddr imageBase : Nat}
    (parsed : fromSection data textVaddr imageBase = some go) :
    go.funcnameOff < go.data.length := by
  rw [fromSection] at parsed
  split at parsed
  · next above =>
      simp only [Option.bind_eq_bind, Option.bind_some] at parsed
      split at parsed
      · next inside =>
          simp only [Option.bind_eq_some_iff] at parsed
          obtain ⟨magic, -, ptrSize, -, parsed⟩ := parsed
          split at parsed
          · cases parsed
          · simp only [Option.bind_eq_some_iff] at parsed
            obtain ⟨nfunc, -, funcnameOff, -, pctabOff, -, functabOff, -,
              parsed⟩ := parsed
            split at parsed
            · next parses =>
                cases parsed
                exact parses.2.1
            · cases parsed
      · cases parsed
  · cases parsed

end GoPclntab

end Sismo.Go
