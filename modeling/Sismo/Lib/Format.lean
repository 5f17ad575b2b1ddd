import Mathlib.Data.List.Basic

namespace Sismo

/-! Formats give strings of symbols to values; a reader of a format takes the
string of one value off its input. -/

variable {σ α β : Type*}

/-- The strings that stand for each value. -/
def Format (σ α : Type*) := List σ → α → Prop

namespace Format

/-- No string of the format starts another one, and each has one value. -/
def Unambiguous (format : Format σ α) : Prop :=
  ∀ first second rest more a b, format first a → format second b →
    first ++ rest = second ++ more → first = second ∧ a = b

/-- The input starts with no string of the format. -/
def Absent (format : Format σ α) (input : List σ) : Prop :=
  ∀ piece a, format piece a → ¬ piece <+: input

/-- The strings of a value and then those of a second one that depends on it. -/
def andThen (first : Format σ α) (second : α → Format σ β) : Format σ β :=
  fun piece b => ∃ front back a, piece = front ++ back ∧ first front a ∧
    second a back b

def map (f : α → β) (format : Format σ α) : Format σ β :=
  fun piece b => ∃ a, format piece a ∧ b = f a

/-- Any string of `n` symbols, as itself. -/
def exactly (n : Nat) : Format σ (List σ) :=
  fun piece a => piece.length = n ∧ a = piece

def never : Format σ α := fun _ _ => False

/-- Strings of the format one after another, and what follows them. -/
inductive Many (format : Format σ α) : List σ → List α → List σ → Prop
  | nil {input : List σ} : Many format input [] input
  | cons {piece input tail : List σ} {a : α} {items : List α} :
      format piece a → Many format input items tail →
      Many format (piece ++ input) (a :: items) tail

theorem Unambiguous.andThen {first : Format σ α} {second : α → Format σ β}
    (front : Unambiguous first) (back : ∀ a, Unambiguous (second a)) :
    Unambiguous (first.andThen second) := by
  intro piece other rest more b b' read read' same
  obtain ⟨x, y, a, rfl, readX, readY⟩ := read
  obtain ⟨x', y', a', rfl, readX', readY'⟩ := read'
  rw [List.append_assoc, List.append_assoc] at same
  obtain ⟨rfl, rfl⟩ := front _ _ _ _ _ _ readX readX' same
  have same := List.append_cancel_left same
  obtain ⟨rfl, rfl⟩ := back a _ _ _ _ _ _ readY readY' same
  exact ⟨rfl, rfl⟩

theorem Unambiguous.map {format : Format σ α} (once : Unambiguous format)
    (f : α → β) : Unambiguous (format.map f) := by
  intro piece other rest more b b' read read' same
  obtain ⟨a, read, rfl⟩ := read
  obtain ⟨a', read', rfl⟩ := read'
  obtain ⟨rfl, rfl⟩ := once _ _ _ _ _ _ read read' same
  exact ⟨rfl, rfl⟩

theorem unambiguous_exactly (n : Nat) :
    Unambiguous (exactly n : Format σ (List σ)) := by
  intro piece other rest more a b read read' same
  obtain ⟨size, rfl⟩ := read
  obtain ⟨size', rfl⟩ := read'
  obtain ⟨rfl, -⟩ := List.append_inj same (size.trans size'.symm)
  exact ⟨rfl, rfl⟩

theorem unambiguous_never : Unambiguous (never : Format σ α) :=
  fun _ _ _ _ _ _ read => read.elim

/-- What reads the longest row of items reads the only one. -/
theorem Many.unique {format : Format σ α} (once : Unambiguous format)
    {input tail other : List σ} {items more : List α}
    (read : Many format input items tail) (ended : Absent format tail)
    (read' : Many format input more other) (ended' : Absent format other) :
    items = more ∧ tail = other := by
  induction read generalizing more other with
  | nil =>
      cases read' with
      | nil => exact ⟨rfl, rfl⟩
      | cons piece _ => exact absurd ⟨_, rfl⟩ (ended _ _ piece)
  | @cons piece input tail a items first rest induction =>
      generalize whole : piece ++ input = text at read'
      cases read' with
      | nil =>
          rw [← whole] at ended'
          exact absurd ⟨_, rfl⟩ (ended' _ _ first)
      | cons second rest' =>
          obtain ⟨rfl, rfl⟩ := once _ _ _ _ _ _ first second whole
          cases List.append_cancel_left whole
          obtain ⟨rfl, rfl⟩ := induction ended rest' ended'
          exact ⟨rfl, rfl⟩

/-! What a reader of a format may answer: the value of the string the input
starts with and the input after it, or nothing when there is no such string. -/

inductive Answers (format : Format σ α) (input : List σ) :
    Option α → List σ → Prop
  | read {piece rest : List σ} {a : α} : input = piece ++ rest →
      format piece a → Answers format input (some a) rest
  | ended {rest : List σ} : Absent format input →
      Answers format input none rest

theorem Answers.andThen_ended {first : Format σ α} {second : α → Format σ β}
    {input rest : List σ} (ended : Answers first input none rest)
    (later : List σ) : Answers (first.andThen second) input none later := by
  cases ended with
  | ended absent =>
      refine .ended fun piece b read front => ?_
      obtain ⟨x, y, a, rfl, readX, -⟩ := read
      exact absent x a readX ((List.prefix_append x y).trans front)

theorem Answers.andThen {first : Format σ α} {second : α → Format σ β}
    (once : Unambiguous first) {input middle rest : List σ} {a : α}
    {answer : Option β} (front : Answers first input (some a) middle)
    (back : Answers (second a) middle answer rest) :
    Answers (first.andThen second) input answer rest := by
  cases front with
  | @read piece _ _ same readA =>
      subst same
      cases back with
      | @read tail _ _ same readB =>
          subst same
          exact .read (List.append_assoc piece tail rest).symm
            ⟨piece, tail, a, rfl, readA, readB⟩
      | ended absent =>
          refine .ended fun other b read front => ?_
          obtain ⟨x, y, a', rfl, readX, readY⟩ := read
          obtain ⟨more, same⟩ := front
          rw [List.append_assoc] at same
          obtain ⟨rfl, rfl⟩ := once _ _ _ _ _ _ readX readA same
          exact absent y b readY ⟨more, List.append_cancel_left same⟩

theorem Answers.map {format : Format σ α} {input rest : List σ}
    {answer : Option α} (f : α → β) (read : Answers format input answer rest) :
    Answers (format.map f) input (answer.map f) rest := by
  cases read with
  | read same readA => exact .read same ⟨_, readA, rfl⟩
  | ended absent =>
      refine .ended fun piece b read front => ?_
      obtain ⟨a, readA, -⟩ := read
      exact absent piece a readA front

end Format

end Sismo
