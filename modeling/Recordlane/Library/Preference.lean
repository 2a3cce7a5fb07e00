import Mathlib.Order.Basic
import Mathlib.Order.Lattice

/-! Preference by a list of criteria: the first one that tells two things apart decides. -/
namespace Preference

variable {α κ : Type*} {r : α → α → Prop} {rs ts : List (α → α → Prop)} {a b : α}

inductive Preferred : List (α → α → Prop) → α → α → Prop
  | decided {r : α → α → Prop} {rs : List (α → α → Prop)} {a b : α} (h : r a b) : Preferred (r :: rs) a b
  | tied {r : α → α → Prop} {rs : List (α → α → Prop)} {a b : α} (h : ¬ r a b) (h' : ¬ r b a)
      (rest : Preferred rs a b) : Preferred (r :: rs) a b

theorem not_preferred_nil : ¬ Preferred [] a b := fun h => nomatch h

theorem preferred_cons : Preferred (r :: rs) a b ↔ r a b ∨ ¬ r a b ∧ ¬ r b a ∧ Preferred rs a b := by
  constructor
  · intro h
    cases h with
    | decided h => exact .inl h
    | tied h h' rest => exact .inr ⟨h, h', rest⟩
  · rintro (h | ⟨h, h', rest⟩)
    · exact .decided h
    · exact .tied h h' rest

/-- Later criteria count where the earlier ones do not tell. -/
theorem preferred_append : Preferred (rs ++ ts) a b ↔
    Preferred rs a b ∨ ¬ Preferred rs a b ∧ ¬ Preferred rs b a ∧ Preferred ts a b := by
  induction rs with
  | nil => simp [not_preferred_nil]
  | cons r rs ih =>
    rw [List.cons_append, preferred_cons, preferred_cons, preferred_cons, ih]
    by_cases hr : r a b
    · simp [hr]
    · by_cases hr' : r b a
      · simp [hr, hr']
      · simp [hr, hr']

/-- Criteria that a rank expresses give way to the later ones at equal ranks. -/
theorem preferred_append_rank [LinearOrder κ] {rank : α → κ} (h : Preferred rs a b ↔ rank b < rank a)
    (h' : Preferred rs b a ↔ rank a < rank b) :
    Preferred (rs ++ ts) a b ↔ rank b < rank a ∨ rank b = rank a ∧ Preferred ts a b := by
  rw [preferred_append, h, h', not_lt, not_lt]
  constructor
  · rintro (hlt | ⟨hle, hge, hrest⟩)
    · exact .inl hlt
    · exact .inr ⟨le_antisymm hge hle, hrest⟩
  · rintro (hlt | ⟨heq, hrest⟩)
    · exact .inl hlt
    · exact .inr ⟨heq.ge, heq.le, hrest⟩

theorem preferred_cons_rank [LinearOrder κ] {rank : α → κ} (h : r a b ↔ rank b < rank a)
    (h' : r b a ↔ rank a < rank b) :
    Preferred (r :: rs) a b ↔ rank b < rank a ∨ rank b = rank a ∧ Preferred rs a b := by
  refine @preferred_append_rank _ _ [r] rs a b _ rank ?_ ?_
  · rw [preferred_cons]
    simp [not_preferred_nil, h]
  · rw [preferred_cons]
    simp [not_preferred_nil, h']

end Preference
