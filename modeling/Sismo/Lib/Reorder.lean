import Mathlib.Data.List.Perm.Basic
import Mathlib.Logic.Function.Basic

namespace Sismo

/-! A step over the same items in two orders that a relation allows. -/

section

variable {α σ : Type*} {step : σ → α → σ}
variable {allowed : α → α → Prop} {ready : σ → α → Prop}

/-- Items that may be applied in either order commute, and applying an item
keeps those ready that may follow it. -/
structure Reorderable (step : σ → α → σ) (allowed : α → α → Prop)
    (ready : σ → α → Prop) : Prop where
  keeps : ∀ {s x y}, ready s x → ready s y → allowed x y → ready (step s x) y
  commutes : ∀ {s x y}, ready s x → ready s y → allowed x y → allowed y x →
    step (step s x) y = step (step s y) x

variable (reorderable : Reorderable step allowed ready)

include reorderable in
/-- An item moves in front of the ones before it. -/
theorem Reorderable.foldl_middle {before after : List α} {x : α} {s : σ}
    (order : (before ++ x :: after).Pairwise allowed)
    (free : ∀ y ∈ before, allowed x y)
    (applicable : ∀ y ∈ x :: before, ready s y) :
    (before ++ x :: after).foldl step s =
      (before ++ after).foldl step (step s x) := by
  induction before generalizing s with
  | nil => rfl
  | cons y before induction =>
      obtain ⟨first, order⟩ := List.pairwise_cons.mp order
      have readyX := applicable x List.mem_cons_self
      have readyY := applicable y (List.mem_cons_of_mem x List.mem_cons_self)
      have yBeforeX : allowed y x := first x (by simp)
      have next : ∀ z ∈ x :: before, ready (step s y) z := by
        intro z member
        obtain rfl | member := List.mem_cons.mp member
        · exact reorderable.keeps readyY readyX yBeforeX
        · apply reorderable.keeps readyY
          · exact applicable z
              (List.mem_cons_of_mem x (List.mem_cons_of_mem y member))
          · exact first z (List.mem_append_left _ member)
      calc
        _ = (before ++ x :: after).foldl step (step s y) := rfl
        _ = (before ++ after).foldl step (step (step s y) x) :=
          induction order (fun z member =>
            free z (List.mem_cons_of_mem y member)) next
        _ = (before ++ after).foldl step (step (step s x) y) := by
          rw [reorderable.commutes readyX readyY
            (free y List.mem_cons_self) yBeforeX]
        _ = _ := rfl

include reorderable in
/-- Two allowed orders of the same items end in the same state. -/
theorem Reorderable.foldl_eq_of_perm {first second : List α}
    (perm : first.Perm second) (orderFirst : first.Pairwise allowed)
    (orderSecond : second.Pairwise allowed) {s : σ}
    (applicable : ∀ x ∈ first, ready s x) :
    first.foldl step s = second.foldl step s := by
  induction first generalizing second s with
  | nil =>
      rw [List.nil_perm.mp perm]
  | cons x rest induction =>
      obtain ⟨before, after, rfl⟩ :=
        List.append_of_mem (perm.subset List.mem_cons_self)
      have perm : rest.Perm (before ++ after) :=
        (perm.trans List.perm_middle).cons_inv
      obtain ⟨xFirst, orderFirst⟩ := List.pairwise_cons.mp orderFirst
      have inRest : ∀ y ∈ before, y ∈ rest := fun y member =>
        perm.symm.subset (List.mem_append_left after member)
      have readyX := applicable x List.mem_cons_self
      have readyRest : ∀ y ∈ rest, ready s y := fun y member =>
        applicable y (List.mem_cons_of_mem x member)
      rw [reorderable.foldl_middle orderSecond
        (fun y member => xFirst y (inRest y member))]
      · apply induction perm orderFirst
        · exact orderSecond.sublist
            (List.Sublist.append_left (List.sublist_cons_self x after) before)
        · intro y member
          exact reorderable.keeps readyX (readyRest y member) (xFirst y member)
      · intro y member
        obtain rfl | member := List.mem_cons.mp member
        · exact readyX
        · exact readyRest y (inRest y member)

end

/-! A function changed at one key by a function of its value there. -/

section

variable {κ β : Type*} [DecidableEq κ] {f : κ → β} {key other : κ}
variable {change : β → β}

def modify (f : κ → β) (key : κ) (change : β → β) : κ → β :=
  Function.update f key (change (f key))

theorem modify_self : modify f key change key = change (f key) :=
  Function.update_self _ _ _

theorem modify_of_ne (apart : other ≠ key) :
    modify f key change other = f other :=
  Function.update_of_ne apart _ _

theorem modify_comm {change' : β → β}
    (commute : key = other →
      change' (change (f key)) = change (change' (f key))) :
    modify (modify f key change) other change' =
      modify (modify f other change') key change := by
  by_cases same : key = other
  · subst same
    unfold modify
    rw [Function.update_self, Function.update_self, Function.update_idem,
      Function.update_idem, commute rfl]
  · rw [modify, modify_of_ne (Ne.symm same), modify, Function.update_comm same]
    conv_rhs => rw [modify, modify_of_ne same, modify]

end

end Sismo
