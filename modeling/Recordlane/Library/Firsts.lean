import Mathlib.Data.List.Nodup
import Mathlib.Data.List.Perm.Basic

/-! The first row of every key, as a loop finds it that remembers the keys it has seen. -/

variable {α κ : Type*} [DecidableEq κ]

/-- The rows whose key the loop has not seen before. -/
def firsts (key : α → κ) : List κ → List α → List α
  | _, [] => []
  | seen, row :: rows =>
    if seen.contains (key row) then firsts key seen rows
    else row :: firsts key (key row :: seen) rows

variable {key : α → κ} {seen : List κ} {rows rows' : List α} {row : α}

theorem firsts_sublist : (firsts key seen rows).Sublist rows := by
  induction rows generalizing seen with
  | nil => exact .slnil
  | cons row rows ih =>
    rw [firsts]
    split
    · exact ih.cons row
    · exact ih.cons_cons row

theorem key_mem_firsts {k : κ} : k ∈ (firsts key seen rows).map key ↔ k ∉ seen ∧ k ∈ rows.map key := by
  induction rows generalizing seen with
  | nil => simp [firsts]
  | cons row rows ih =>
    rw [firsts]
    split
    · next hseen =>
      rw [List.contains_iff_mem] at hseen
      rw [ih, List.map_cons, List.mem_cons]
      refine and_congr_right fun hk => ?_
      constructor
      · exact .inr
      · rintro (rfl | h)
        · exact absurd hseen hk
        · exact h
    · next hnew =>
      rw [List.contains_iff_mem] at hnew
      simp only [List.map_cons, List.mem_cons, ih, not_or]
      constructor
      · rintro (rfl | ⟨⟨-, hk⟩, h⟩)
        · exact ⟨hnew, .inl rfl⟩
        · exact ⟨hk, .inr h⟩
      · rintro ⟨hk, rfl | h⟩
        · exact .inl rfl
        · by_cases hsame : k = key row
          · exact .inl hsame
          · exact .inr ⟨⟨hsame, hk⟩, h⟩

theorem nodup_firsts : ((firsts key seen rows).map key).Nodup := by
  induction rows generalizing seen with
  | nil => exact List.nodup_nil
  | cons row rows ih =>
    rw [firsts]
    split
    · exact ih
    · rw [List.map_cons, List.nodup_cons]
      refine ⟨fun hmem => ?_, ih⟩
      exact (key_mem_firsts.mp hmem).1 List.mem_cons_self

/-- Where a key has one row only, no row is lost. -/
theorem mem_firsts (hkey : ∀ a ∈ rows, ∀ b ∈ rows, key a = key b → a = b) :
    row ∈ firsts key [] rows ↔ row ∈ rows := by
  constructor
  · intro h
    exact firsts_sublist.subset h
  · intro h
    have hk : key row ∈ (firsts key [] rows).map key :=
      key_mem_firsts.mpr ⟨List.not_mem_nil, List.mem_map_of_mem h⟩
    obtain ⟨first, hfirst, hsame⟩ := List.mem_map.mp hk
    rw [← hkey first (firsts_sublist.subset hfirst) row h hsame]
    exact hfirst

/-- The rows of another order have the same first rows, in another order. -/
theorem firsts_perm (h : rows.Perm rows') (hkey : ∀ a ∈ rows, ∀ b ∈ rows, key a = key b → a = b) :
    (firsts key [] rows).Perm (firsts key [] rows') := by
  have hkey' : ∀ a ∈ rows', ∀ b ∈ rows', key a = key b → a = b := fun a ha b hb =>
    hkey a (h.mem_iff.mpr ha) b (h.mem_iff.mpr hb)
  have hnodup : (firsts key [] rows).Nodup := List.Nodup.of_map key nodup_firsts
  have hnodup' : (firsts key [] rows').Nodup := List.Nodup.of_map key nodup_firsts
  rw [List.perm_ext_iff_of_nodup hnodup hnodup']
  intro row
  rw [mem_firsts hkey, mem_firsts hkey', h.mem_iff]
