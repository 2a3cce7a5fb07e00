import Mathlib.Data.Finset.Union
import Mathlib.Data.Finset.Lattice.Basic

/-! Changes of a set, applied to the set as it is or to all that it ever held. -/

/-- A set grows, or another one takes its place. -/
inductive Change (α : Type*)
  | add (xs : Finset α)
  | set (xs : Finset α)

namespace Change

variable {α : Type*} [DecidableEq α] {s current ever xs : Finset α} {c : Change α}
  {changes first rest : List (Change α)}

def isAdd : Change α → Bool
  | add _ => true
  | set _ => false

/-- The members a change names. -/
def named : Change α → Finset α
  | add xs | set xs => xs

def apply (s : Finset α) : Change α → Finset α
  | add xs => s ∪ xs
  | set xs => xs

/-- The members that some change names. -/
def allNamed (changes : List (Change α)) : Finset α :=
  changes.foldl (fun names c => names ∪ c.named) ∅

/-- The set, with all that it ever held: an addition adds to the latter. -/
def accumulate (p : Finset α × Finset α) (c : Change α) : Finset α × Finset α :=
  (c.apply p.2, p.2 ∪ p.1 ∪ c.apply p.2)

theorem foldl_named (names : Finset α) :
    changes.foldl (fun names c => names ∪ c.named) names = names ∪ allNamed changes := by
  unfold allNamed
  induction changes generalizing names with
  | nil => simp
  | cons c changes ih =>
    rw [List.foldl_cons, List.foldl_cons, ih, ih (∅ ∪ c.named), Finset.empty_union, Finset.union_assoc]

@[simp] theorem allNamed_nil : allNamed ([] : List (Change α)) = ∅ := rfl

@[simp] theorem allNamed_cons : allNamed (c :: changes) = c.named ∪ allNamed changes := by
  rw [allNamed, List.foldl_cons, foldl_named, Finset.empty_union]

@[simp] theorem allNamed_append :
    allNamed (first ++ rest) = allNamed first ∪ allNamed rest := by
  rw [allNamed, List.foldl_append, foldl_named]
  rfl

theorem foldl_apply_adds (h : ∀ c ∈ changes, c.isAdd) : changes.foldl apply s = s ∪ allNamed changes := by
  induction changes generalizing s with
  | nil => simp
  | cons c changes ih =>
    rw [List.foldl_cons, ih fun c' hc => h c' (List.mem_cons_of_mem _ hc), allNamed_cons]
    cases c with
    | add xs => exact Finset.union_assoc s xs _
    | set xs => cases h _ List.mem_cons_self

theorem accumulate_ever : (accumulate (current, ever) c).2 = ever ∪ current ∪ c.named := by
  cases c with
  | add xs =>
    change ever ∪ current ∪ (ever ∪ xs) = ever ∪ current ∪ xs
    ext x
    simp only [Finset.mem_union]
    tauto
  | set xs => rfl

theorem accumulate_current_subset : (accumulate (current, ever) c).1 ⊆ (accumulate (current, ever) c).2 :=
  Finset.subset_union_right

/-- All that there ever was: what was there at first, and what the changes name. -/
theorem foldl_accumulate_ever (h : current ⊆ ever) :
    (changes.foldl accumulate (current, ever)).2 = ever ∪ allNamed changes := by
  induction changes generalizing current ever with
  | nil => simp
  | cons c changes ih =>
    rw [List.foldl_cons, ← Prod.mk.eta (p := accumulate (current, ever) c), ih accumulate_current_subset,
      accumulate_ever, Finset.union_eq_left.mpr h, allNamed_cons, Finset.union_assoc]

/-- After an addition the set holds all that it ever held. -/
theorem foldl_accumulate_adds (h : current ⊆ ever) (hadds : ∀ c ∈ changes, c.isAdd) (hne : changes ≠ []) :
    (changes.foldl accumulate (current, ever)).1 = ever ∪ allNamed changes := by
  obtain ⟨first, c, rfl⟩ := List.eq_nil_or_concat changes |>.resolve_left hne
  have hc := hadds c (by simp)
  cases c with
  | add xs =>
    rw [List.concat_eq_append, List.foldl_append, allNamed_append]
    change (first.foldl accumulate (current, ever)).2 ∪ xs = _
    rw [foldl_accumulate_ever h, allNamed_cons, allNamed_nil, Finset.union_empty, Finset.union_assoc]
    rfl
  | set xs => cases hc

theorem foldl_accumulate_current_subset (h : current ⊆ ever) :
    (changes.foldl accumulate (current, ever)).1 ⊆ (changes.foldl accumulate (current, ever)).2 := by
  induction changes generalizing current ever with
  | nil => exact h
  | cons c changes ih => exact ih accumulate_current_subset

omit [DecidableEq α] in
/-- Either all changes are additions, or they are from some change on. -/
theorem adds_or_set (changes : List (Change α)) : (∀ c ∈ changes, c.isAdd) ∨
    ∃ first xs rest, changes = first ++ set xs :: rest ∧ ∀ c ∈ rest, c.isAdd := by
  induction changes with
  | nil => exact .inl nofun
  | cons c changes ih =>
    rcases ih with hadds | ⟨first, xs, rest, rfl, hrest⟩
    · cases c with
      | add xs =>
        refine .inl fun c hc => ?_
        rcases List.mem_cons.mp hc with rfl | hc
        · rfl
        · exact hadds c hc
      | set xs => exact .inr ⟨[], xs, changes, rfl, hadds⟩
    · exact .inr ⟨c :: first, xs, rest, rfl, hrest⟩

/-- Additions to all that there ever was come to the same as additions to the set as it is, exactly if
what a set gave up for another one is named again, or nothing is added after it. -/
theorem foldl_accumulate_iff : (changes.foldl accumulate (s, s)).1 = changes.foldl apply s ↔
    ∀ first xs rest, changes = first ++ set xs :: rest → rest ≠ [] → (∀ c ∈ rest, c.isAdd) →
      s ∪ allNamed first ⊆ xs ∪ allNamed rest := by
  have hsplit : ∀ (first : List (Change α)) (xs : Finset α) (rest : List (Change α)), rest ≠ [] →
      (∀ c ∈ rest, c.isAdd) →
      ((first ++ set xs :: rest).foldl accumulate (s, s)).1 = s ∪ allNamed first ∪ (xs ∪ allNamed rest) ∧
        (first ++ set xs :: rest).foldl apply s = xs ∪ allNamed rest := by
    intro first xs rest hne hrest
    constructor
    · have hever : ((first ++ [set xs]).foldl accumulate (s, s)).2 = s ∪ allNamed (first ++ [set xs]) :=
        foldl_accumulate_ever (Finset.Subset.refl s)
      have hcurrent : ((first ++ [set xs]).foldl accumulate (s, s)).1 ⊆
          ((first ++ [set xs]).foldl accumulate (s, s)).2 :=
        foldl_accumulate_current_subset (Finset.Subset.refl s)
      rw [List.append_cons, List.foldl_append]
      refine (foldl_accumulate_adds hcurrent hrest hne).trans ?_
      rw [hever, allNamed_append, allNamed_cons, allNamed_nil, Finset.union_empty]
      simp only [named, Finset.union_assoc]
    · rw [List.foldl_append, List.foldl_cons, foldl_apply_adds hrest]
      rfl
  constructor
  · rintro h first xs rest rfl hne hrest
    obtain ⟨hall, hnow⟩ := hsplit first xs rest hne hrest
    rw [hall, hnow] at h
    exact Finset.union_eq_right.mp h
  · intro h
    rcases adds_or_set changes with hadds | ⟨first, xs, rest, rfl, hrest⟩
    · rw [foldl_apply_adds hadds]
      by_cases hne : changes = []
      · rw [hne]
        exact (Finset.union_empty s).symm
      · exact foldl_accumulate_adds (Finset.Subset.refl s) hadds hne
    · by_cases hne : rest = []
      · rw [hne, List.foldl_append, List.foldl_append]
        rfl
      · obtain ⟨hall, hnow⟩ := hsplit first xs rest hne hrest
        rw [hall, hnow]
        exact Finset.union_eq_right.mpr (h first xs rest rfl hne hrest)

end Change
