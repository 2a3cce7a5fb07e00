import Mathlib.Data.List.MinMax
import Mathlib.Data.List.Nodup
import Mathlib.Data.List.Perm.Subperm

/-! The newest row of every group of a table, as a window function numbers the rows. -/
namespace Window

variable {α κ τ : Type*} [DecidableEq κ] [LinearOrder τ] (key : α → κ) (stamp : α → τ)

/-- The number of a row in its group, the newest first. -/
def rowNumber (rows : List α) (row : α) : Nat :=
  (rows.filter fun x => key x = key row && decide (stamp row < stamp x)).length + 1

/-- The first row of every group. -/
def latest (rows : List α) : List α := rows.filter fun row => rowNumber key stamp rows row = 1

variable {key stamp} {rows : List α} {row : α}

theorem mem_latest : row ∈ latest key stamp rows ↔
    row ∈ rows ∧ ∀ x ∈ rows, key x = key row → stamp x ≤ stamp row := by
  rw [latest, List.mem_filter, decide_eq_true_eq, rowNumber, Nat.add_eq_right, List.length_eq_zero_iff,
    List.filter_eq_nil_iff]
  refine and_congr_right fun _ => forall₂_congr fun x _ => ?_
  rw [Bool.and_eq_true, decide_eq_true_eq, decide_eq_true_eq, not_and, not_lt]

theorem exists_latest (h : row ∈ rows) : ∃ first ∈ latest key stamp rows, key first = key row := by
  cases hmax : (rows.filter fun x => key x = key row).argmax stamp with
  | none =>
    rw [List.argmax_eq_none, List.filter_eq_nil_iff] at hmax
    exact absurd (decide_eq_true rfl) (hmax row h)
  | some first =>
    obtain ⟨hfirst, hkey⟩ := List.mem_filter.mp (List.argmax_mem hmax)
    rw [decide_eq_true_eq] at hkey
    refine ⟨first, mem_latest.mpr ⟨hfirst, fun x hx hx' => ?_⟩, hkey⟩
    have hgroup : x ∈ rows.filter fun x => key x = key row := by
      rw [List.mem_filter, decide_eq_true_eq]
      exact ⟨hx, hx'.trans hkey⟩
    exact List.le_of_mem_argmax hgroup hmax

theorem eq_of_mem_latest (hinj : ∀ x ∈ rows, ∀ y ∈ rows, stamp x = stamp y → x = y) {x y : α}
    (hx : x ∈ latest key stamp rows) (hy : y ∈ latest key stamp rows) (hkey : key x = key y) : x = y := by
  obtain ⟨hx, hmaxx⟩ := mem_latest.mp hx
  obtain ⟨hy, hmaxy⟩ := mem_latest.mp hy
  exact hinj x hx y hy (le_antisymm (hmaxy x hx hkey) (hmaxx y hy hkey.symm))

theorem length_latest_le (hinj : ∀ x ∈ rows, ∀ y ∈ rows, stamp x = stamp y → x = y) (hrows : rows.Nodup)
    {keys : List κ} (hkeys : ∀ x ∈ rows, key x ∈ keys) : (latest key stamp rows).length ≤ keys.length := by
  have hnodup : ((latest key stamp rows).map key).Nodup :=
    (hrows.filter _).map_on fun x hx y hy hkey => eq_of_mem_latest hinj hx hy hkey
  rw [← List.length_map key]
  refine (hnodup.subperm ?_).length_le
  intro k hk
  obtain ⟨x, hx, rfl⟩ := List.mem_map.mp hk
  exact hkeys x (mem_latest.mp hx).1

end Window
