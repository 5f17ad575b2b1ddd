import Mathlib.Data.List.Basic
import Mathlib.Data.List.Chain
import Mathlib.Data.List.Nodup
import Mathlib.Logic.Function.Basic

namespace Sismo

/-! The entries of a log that say something new: those whose value is not the
last one known for their key. -/

variable {κ : Type u} {α : Type v} [DecidableEq κ] [DecidableEq α]

/-- The last value of each key after a log. -/
def latest (known : κ → Option α) : List (κ × α) → κ → Option α
  | [] => known
  | (key, value) :: rest => latest (Function.update known key (some value)) rest

def changes (known : κ → Option α) : List (κ × α) → List (κ × α)
  | [] => []
  | (key, value) :: rest =>
      if known key = some value then changes known rest
      else (key, value) :: changes (Function.update known key (some value)) rest

variable {known : κ → Option α} {entries : List (κ × α)} {key : κ} {value : α}

omit [DecidableEq α] in
theorem update_of_known (found : known key = some value) :
    Function.update known key (some value) = known := by
  rw [← found]
  exact Function.update_eq_self key known

omit [DecidableEq α] in
theorem latest_append (known : κ → Option α) (first second : List (κ × α)) :
    latest known (first ++ second) = latest (latest known first) second := by
  induction first generalizing known with
  | nil => rfl
  | cons entry rest induction => exact induction _

theorem changes_append (known : κ → Option α) (first second : List (κ × α)) :
    changes known (first ++ second) =
      changes known first ++ changes (latest known first) second := by
  induction first generalizing known with
  | nil => rfl
  | cons entry rest induction =>
      obtain ⟨key, value⟩ := entry
      rw [List.cons_append, changes, changes, latest]
      split
      · next found => rw [induction, update_of_known found]
      · rw [induction, List.cons_append]

theorem changes_sublist (known : κ → Option α) (entries : List (κ × α)) :
    List.Sublist (changes known entries) entries := by
  induction entries generalizing known with
  | nil => exact List.Sublist.refl _
  | cons entry rest induction =>
      obtain ⟨key, value⟩ := entry
      rw [changes]
      split
      · exact (induction known).cons _
      · exact (induction _).cons_cons _

/-- An entry is new unless it was known before the log. -/
theorem mem_changes (member : (key, value) ∈ entries)
    (unknown : known key ≠ some value) :
    (key, value) ∈ changes known entries := by
  induction entries generalizing known with
  | nil => cases member
  | cons entry rest induction =>
      obtain ⟨first, old⟩ := entry
      rw [changes]
      rcases List.mem_cons.mp member with head | tail
      · cases head
        rw [if_neg unknown]
        exact List.mem_cons_self
      · split
        · exact induction tail unknown
        · by_cases same : first = key ∧ old = value
          · rw [same.1, same.2]
            exact List.mem_cons_self
          · apply List.mem_cons_of_mem
            apply induction tail
            by_cases here : key = first
            · subst here
              simpa using fun equal => same ⟨rfl, equal⟩
            · rwa [Function.update_of_ne here]

omit [DecidableEq α] in
/-- What is known after a log was known before or is in it. -/
theorem mem_of_latest (found : latest known entries key = some value) :
    known key = some value ∨ (key, value) ∈ entries := by
  induction entries generalizing known with
  | nil => exact Or.inl found
  | cons entry rest induction =>
      obtain ⟨first, old⟩ := entry
      rcases induction found with before | member
      · by_cases here : key = first
        · subst here
          rw [Function.update_self, Option.some.injEq] at before
          subst before
          exact Or.inr List.mem_cons_self
        · rw [Function.update_of_ne here] at before
          exact Or.inl before
      · exact Or.inr (List.mem_cons_of_mem _ member)

/-- The new values of one key, after the one known before, all differ from the
value before them. -/
theorem changes_isChain (known : κ → Option α) (entries : List (κ × α))
    (key : κ) :
    List.IsChain (· ≠ ·) ((known key).toList ++
      ((changes known entries).filter (·.1 = key)).map Prod.snd) := by
  induction entries generalizing known with
  | nil => cases known key <;> simp [changes]
  | cons entry rest induction =>
      obtain ⟨first, value⟩ := entry
      rw [changes]
      split
      · exact induction known
      · next unknown =>
          have later := induction (Function.update known first (some value))
          by_cases here : first = key
          · subst here
            rw [Function.update_self] at later
            simp only [List.filter_cons, decide_true, if_true, List.map_cons]
            cases found : known first with
            | none => simpa using later
            | some old =>
                simp only [Option.toList_some, List.singleton_append] at later ⊢
                refine List.isChain_cons_cons.mpr ⟨fun equal => ?_, later⟩
                exact unknown (by rw [found, equal])
          · rw [Function.update_of_ne (Ne.symm here)] at later
            simpa [List.filter_cons, here] using later

/-- With only one value to know, every key is new once. -/
theorem changes_nodup (known : κ → Option Unit) (entries : List (κ × Unit)) :
    ((changes known entries).map Prod.fst).Nodup := by
  rw [List.nodup_iff_count_le_one]
  intro key
  have chain := changes_isChain known entries key
  have counted : List.count key ((changes known entries).map Prod.fst) =
      ((changes known entries).filter (·.1 = key)).length := by
    rw [List.count, List.countP_map, List.countP_eq_length_filter]
    congr 1
  rw [counted, ← List.length_map (f := Prod.snd)]
  have tail := (List.isChain_append.mp chain).2.1
  generalize ((changes known entries).filter (·.1 = key)).map Prod.snd = values
    at tail ⊢
  rcases values with _ | ⟨first, _ | ⟨second, rest⟩⟩
  · simp
  · simp
  · exact absurd rfl (List.isChain_cons_cons.mp tail).1

end Sismo
