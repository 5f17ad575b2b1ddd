import Sismo.Lib.HashMap

namespace Sismo

/-! Interning tables: a writer's ids for keys, and the definitions a reader has
of those ids. -/

/-- The ids given so far, and the next one; ids start at 1. -/
structure InternTable (κ : Type) where
  iids : HashMap κ Nat := ∅
  next : Nat := 1

section

variable {κ α : Type} [DecidableEq κ]

def InternTable.insert (table : InternTable κ) (key : κ) : InternTable κ where
  iids := table.iids.insert key table.next
  next := table.next + 1

/-- The reader defines every id given, by a content that stands for its key,
and no id to come. -/
structure TableAgrees (table : InternTable κ) (defs : HashMap Nat α)
    (means : κ → α → Prop) : Prop where
  known : ∀ key iid, table.iids.lookup key = some iid →
    iid ≠ 0 ∧ ∃ content, defs.lookup iid = some content ∧ means key content
  fresh : ∀ iid content, defs.lookup iid = some content → iid < table.next
  next_pos : 0 < table.next

variable {table : InternTable κ} {defs : HashMap Nat α}
variable {means : κ → α → Prop}

theorem TableAgrees.empty : TableAgrees {} (∅ : HashMap Nat α) means where
  known key iid found := by cases found
  fresh iid content found := by cases found
  next_pos := Nat.one_pos

theorem TableAgrees.next_undefined (agrees : TableAgrees table defs means) :
    defs.lookup table.next = none := by
  rw [Option.eq_none_iff_forall_ne_some]
  intro content found
  exact Nat.lt_irrefl _ (agrees.fresh _ content found)

theorem TableAgrees.imp {other : κ → α → Prop}
    (agrees : TableAgrees table defs means)
    (implies : ∀ key content, means key content → other key content) :
    TableAgrees table defs other where
  known key iid found := by
    obtain ⟨nonzero, content, defined, meaning⟩ := agrees.known key iid found
    exact ⟨nonzero, content, defined, implies key content meaning⟩
  fresh := agrees.fresh
  next_pos := agrees.next_pos

theorem TableAgrees.insert (agrees : TableAgrees table defs means) {key : κ}
    {content : α} (meaning : means key content) :
    TableAgrees (table.insert key) (defs.insert table.next content) means where
  known other iid found := by
    rw [InternTable.insert, HashMap.lookup_insert_eq] at found
    split at found
    · next same =>
        cases found
        subst same
        exact ⟨agrees.next_pos.ne', content,
          by rw [HashMap.lookup_insert_eq, if_pos rfl], meaning⟩
    · obtain ⟨nonzero, old, defined, oldMeaning⟩ :=
        agrees.known other iid found
      have below := agrees.fresh iid old defined
      refine ⟨nonzero, old, ?_, oldMeaning⟩
      rw [HashMap.lookup_insert_eq, if_neg (Nat.ne_of_lt below)]
      exact defined
  fresh iid old found := by
    rw [HashMap.lookup_insert_eq] at found
    split at found
    · next same => exact same ▸ Nat.lt_succ_self _
    · exact Nat.lt_succ_of_lt (agrees.fresh iid old found)
  next_pos := Nat.succ_pos _

end

/-- Every definition of the one map is in the other. -/
def Extends {α : Type} (defs later : HashMap Nat α) : Prop :=
  ∀ iid content, defs.lookup iid = some content →
    later.lookup iid = some content

section

variable {α : Type} {defs middle later : HashMap Nat α}

theorem Extends.refl (defs : HashMap Nat α) : Extends defs defs :=
  fun _ _ found => found

theorem Extends.trans (first : Extends defs middle)
    (second : Extends middle later) : Extends defs later :=
  fun iid content found => second iid content (first iid content found)

theorem Extends.insert {iid : Nat} (undefined : defs.lookup iid = none)
    (content : α) : Extends defs (defs.insert iid content) := by
  intro other old found
  have distinct : other ≠ iid := by
    rintro rfl
    rw [undefined] at found
    cases found
  rw [HashMap.lookup_insert_eq, if_neg distinct]
  exact found

end

end Sismo
