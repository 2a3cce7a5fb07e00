import Mathlib.Data.List.MinMax
import Mathlib.Data.List.Nodup

/-! Registers that keep the item of the highest rank, in whatever order the items arrive. -/
namespace Register

variable {α κ : Type*} [LinearOrder κ] {rank : α → κ} {a b : α} {xs ys : List α}

/-- The register after one more item, which it takes where the item outranks the one it holds. -/
def put (rank : α → κ) (held : Option α) (a : α) : Option α :=
  match held with
  | none => some a
  | some b => if rank b < rank a then some a else some b

theorem put_eq_some {held : Option α} (h : put rank held a = some b) : b = a ∨ held = some b := by
  cases held with
  | none => exact .inl (Option.some.inj h).symm
  | some c =>
    rw [put] at h
    split at h
    · exact .inl (Option.some.inj h).symm
    · exact .inr h

/-- What a register holds after some items is the highest of them. -/
theorem foldl_put : xs.foldl (put rank) none = xs.argmax rank := by
  induction xs using List.reverseRecOn with
  | nil => rfl
  | append_singleton xs a ih =>
    rw [List.foldl_append, ih, List.argmax_concat]
    cases xs.argmax rank <;> rfl

theorem argmax_append : (xs ++ [a]).argmax rank = put rank (xs.argmax rank) a := by
  rw [← foldl_put, List.foldl_append, foldl_put]
  rfl

theorem argmax_cons_of_ge (h : ∀ b ∈ xs, rank b ≤ rank a) : (a :: xs).argmax rank = some a := by
  rw [← foldl_put, List.foldl_cons]
  change xs.foldl (put rank) (some a) = some a
  induction xs with
  | nil => rfl
  | cons b xs ih =>
    have hb : put rank (some a) b = some a := if_neg (not_lt.mpr (h b List.mem_cons_self))
    rw [List.foldl_cons, hb]
    exact ih fun c hc => h c (List.mem_cons_of_mem _ hc)

/-- Items of different ranks leave the same register in every order. -/
theorem argmax_perm (h : xs.Perm ys) (hn : (xs.map rank).Nodup) :
    xs.argmax rank = ys.argmax rank := by
  cases hx : xs.argmax rank with
  | none =>
    rw [List.argmax_eq_none.mp hx] at h
    rw [List.nil_perm.mp h]
    rfl
  | some a =>
    cases hy : ys.argmax rank with
    | none =>
      rw [List.argmax_eq_none.mp hy, List.perm_nil] at h
      subst h
      cases hx
    | some b =>
      have ha : a ∈ xs := List.argmax_mem hx
      have hb : b ∈ xs := h.mem_iff.mpr (List.argmax_mem hy)
      have hba : rank b ≤ rank a := List.le_of_mem_argmax hb hx
      have hab : rank a ≤ rank b := List.le_of_mem_argmax (h.mem_iff.mp ha) hy
      rw [List.inj_on_of_nodup_map hn ha hb (le_antisymm hab hba)]

end Register
