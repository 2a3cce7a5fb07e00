import Recordlane.Library.Scoring
import Mathlib.Data.Int.Log

/-! Binary floating point over the rationals: the number of a format that is nearest to a rational. -/
namespace Floating

/-- Mantissas of so many bits, and the exponent of the smallest number. -/
structure Format where
  precision : Nat
  etiny : Int
  precision_pos : 0 < precision

def binary64 : Format := ⟨53, -1074, by decide⟩

namespace Format

variable {fmt : Format} {p q x : ℚ} {e n : Int} {k : Int}

/-- The exponent of the last bit of a number. -/
def quantum (fmt : Format) (q : ℚ) : Int := max (Int.log 2 |q| + 1 - fmt.precision) fmt.etiny

/-- The nearest number of the format, ties to even, without a bound on the exponent. -/
def round (fmt : Format) (q : ℚ) : ℚ := Scoring.nearest (q / 2 ^ fmt.quantum q) * 2 ^ fmt.quantum q

theorem two_zpow_pos (e : Int) : (0 : ℚ) < 2 ^ e := zpow_pos two_pos e

theorem le_log_iff (hq : 0 < q) : e ≤ Int.log 2 q ↔ (2 : ℚ) ^ e ≤ q := by
  have h := Int.zpow_le_iff_le_log (R := ℚ) (b := 2) one_lt_two (x := e) hq
  exact_mod_cast h.symm

theorem log_lt_iff (hq : 0 < q) : Int.log 2 q < e ↔ q < (2 : ℚ) ^ e := by
  rw [← not_le, le_log_iff hq, not_le]

@[simp] theorem round_zero : fmt.round 0 = 0 := by
  have hzero : Scoring.nearest (0 : ℚ) = 0 := Scoring.nearest_intCast 0
  rw [round, zero_div, hzero, Int.cast_zero, zero_mul]

theorem quantum_of_pos (hx : 0 < x) : fmt.quantum x = max (Int.log 2 x + 1 - fmt.precision) fmt.etiny := by
  rw [quantum, abs_of_pos hx]

theorem nearest_two_zpow (hn : 0 ≤ n) : (Scoring.nearest ((2 : ℚ) ^ n) : ℚ) = 2 ^ n := by
  obtain ⟨m, rfl⟩ := Int.eq_ofNat_of_zero_le hn
  have hcast : (2 : ℚ) ^ (m : Int) = ((2 ^ m : Int) : ℚ) := by push_cast; rfl
  rw [hcast, Scoring.nearest_intCast]

/-- No rounding passes a power of two that the format has. -/
theorem round_le_two_zpow (hx : 0 < x) (hle : x ≤ 2 ^ n) (hn : fmt.etiny ≤ n) : fmt.round x ≤ 2 ^ n := by
  have hlog : Int.log 2 x < n + 1 := by
    rw [log_lt_iff hx, zpow_add_one₀ two_ne_zero]
    linarith [two_zpow_pos n]
  have hquantum : fmt.quantum x ≤ n := by
    have := fmt.precision_pos
    rw [quantum_of_pos hx]
    omega
  have hscaled : x / 2 ^ fmt.quantum x ≤ 2 ^ (n - fmt.quantum x) := by
    rw [zpow_sub₀ two_ne_zero]
    exact (div_le_div_iff_of_pos_right (two_zpow_pos _)).mpr hle
  have hnearest : (Scoring.nearest (x / 2 ^ fmt.quantum x) : ℚ) ≤ 2 ^ (n - fmt.quantum x) := by
    rw [← nearest_two_zpow (sub_nonneg.mpr hquantum)]
    exact Int.cast_le.mpr (Scoring.nearest_mono hscaled)
  calc fmt.round x ≤ 2 ^ (n - fmt.quantum x) * 2 ^ fmt.quantum x :=
        mul_le_mul_of_nonneg_right hnearest (two_zpow_pos _).le
    _ = 2 ^ n := by rw [← zpow_add₀ two_ne_zero, sub_add_cancel]

theorem two_zpow_le_round (hle : 2 ^ n ≤ x) (hn : fmt.quantum x ≤ n) : 2 ^ n ≤ fmt.round x := by
  have hscaled : 2 ^ (n - fmt.quantum x) ≤ x / 2 ^ fmt.quantum x := by
    rw [zpow_sub₀ two_ne_zero]
    exact (div_le_div_iff_of_pos_right (two_zpow_pos _)).mpr hle
  have hnearest : (2 : ℚ) ^ (n - fmt.quantum x) ≤ Scoring.nearest (x / 2 ^ fmt.quantum x) := by
    rw [← nearest_two_zpow (sub_nonneg.mpr hn)]
    exact Int.cast_le.mpr (Scoring.nearest_mono hscaled)
  calc (2 : ℚ) ^ n = 2 ^ (n - fmt.quantum x) * 2 ^ fmt.quantum x := by
        rw [← zpow_add₀ two_ne_zero, sub_add_cancel]
    _ ≤ fmt.round x := mul_le_mul_of_nonneg_right hnearest (two_zpow_pos _).le

theorem round_nonneg (hx : 0 ≤ x) : 0 ≤ fmt.round x := by
  have hscaled : 0 ≤ Scoring.nearest (x / 2 ^ fmt.quantum x) := by
    rw [← Scoring.nearest_intCast (K := ℚ) 0, Int.cast_zero]
    exact Scoring.nearest_mono (div_nonneg hx (two_zpow_pos _).le)
  exact mul_nonneg (Int.cast_nonneg hscaled) (two_zpow_pos _).le

theorem round_mono (hp : 0 ≤ p) (h : p ≤ q) : fmt.round p ≤ fmt.round q := by
  rcases hp.eq_or_lt with rfl | hp
  · rw [round_zero]
    exact round_nonneg h
  · have hq := hp.trans_le h
    have hlog : Int.log 2 p ≤ Int.log 2 q := Int.log_mono_right hp h
    by_cases hsame : fmt.quantum p = fmt.quantum q
    · rw [round, round, hsame]
      refine mul_le_mul_of_nonneg_right (Int.cast_le.mpr (Scoring.nearest_mono ?_)) (two_zpow_pos _).le
      exact (div_le_div_iff_of_pos_right (two_zpow_pos _)).mpr h
    · -- the greater one is from a power of two on that the smaller one does not reach
      rw [quantum_of_pos hp, quantum_of_pos hq] at hsame
      have := fmt.precision_pos
      have hbelow : p ≤ 2 ^ Int.log 2 q := ((log_lt_iff hp).mp (by omega)).le
      have habove : 2 ^ Int.log 2 q ≤ q := (le_log_iff hq).mp le_rfl
      refine (round_le_two_zpow hp hbelow (by omega)).trans (two_zpow_le_round habove ?_)
      rw [quantum_of_pos hq]
      omega

/-- A normal number of the format has a next one, and nothing is rounded into the gap. -/
theorem round_gap (hx : 0 ≤ x) (he : fmt.etiny ≤ e) (hlow : 2 ^ (fmt.precision - 1) ≤ k)
    (hhigh : k < 2 ^ fmt.precision) :
    Scoring.nearest (x / 2 ^ e) ≤ k ∧ fmt.round x ≤ k * 2 ^ e ∨
      k < Scoring.nearest (x / 2 ^ e) ∧ (k + 1) * 2 ^ e ≤ fmt.round x := by
  have hpos := fmt.precision_pos
  have hlow' : (2 : ℚ) ^ (fmt.precision - 1) ≤ k := by exact_mod_cast hlow
  have hhigh' : (k : ℚ) + 1 ≤ 2 ^ fmt.precision := by exact_mod_cast hhigh
  rcases hx.eq_or_lt with rfl | hx
  · have hk : (0 : Int) ≤ k := le_trans (by positivity) hlow
    left
    rw [round_zero, zero_div, ← Int.cast_zero, Scoring.nearest_intCast, Int.cast_zero]
    exact ⟨hk, mul_nonneg (Int.cast_nonneg hk) (two_zpow_pos e).le⟩
  · rcases lt_trichotomy (fmt.quantum x) e with h | rfl | h
    · -- below the numbers that share the last bit of `k`
      rw [quantum_of_pos hx] at h
      have hbelow : x ≤ 2 ^ (e + (fmt.precision - 1 : Nat)) := ((log_lt_iff hx).mp (by omega)).le
      have hbound : (2 : ℚ) ^ (e + (fmt.precision - 1 : Nat)) ≤ k * 2 ^ e := by
        rw [zpow_add₀ two_ne_zero, zpow_natCast, mul_comm]
        exact mul_le_mul_of_nonneg_right hlow' (two_zpow_pos e).le
      refine .inl ⟨?_, (round_le_two_zpow hx hbelow (by omega)).trans hbound⟩
      rw [← Scoring.nearest_intCast (K := ℚ) k]
      exact Scoring.nearest_mono ((div_le_iff₀ (two_zpow_pos e)).mpr (hbelow.trans hbound))
    · rcases le_or_gt (Scoring.nearest (x / 2 ^ fmt.quantum x)) k with h | h
      · exact .inl ⟨h, mul_le_mul_of_nonneg_right (Int.cast_le.mpr h) (two_zpow_pos _).le⟩
      · refine .inr ⟨h, mul_le_mul_of_nonneg_right ?_ (two_zpow_pos _).le⟩
        exact_mod_cast h
    · -- above them
      rw [quantum_of_pos hx] at h
      have hlog : e + fmt.precision ≤ Int.log 2 x := by omega
      have hbound : ((k : ℚ) + 1) * 2 ^ e ≤ 2 ^ Int.log 2 x := by
        refine le_trans ?_ (zpow_le_zpow_right₀ one_le_two hlog)
        rw [zpow_add₀ two_ne_zero, zpow_natCast, mul_comm]
        exact mul_le_mul_of_nonneg_left hhigh' (two_zpow_pos e).le
      have habove : (2 : ℚ) ^ Int.log 2 x ≤ x := (le_log_iff hx).mp le_rfl
      refine .inr ⟨?_, hbound.trans (two_zpow_le_round habove ?_)⟩
      · have hscaled : ((k + 1 : Int) : ℚ) ≤ x / 2 ^ e := by
          push_cast
          exact (le_div_iff₀ (two_zpow_pos e)).mpr (hbound.trans habove)
        have hnearest := Scoring.nearest_mono hscaled
        rw [Scoring.nearest_intCast] at hnearest
        omega
      · rw [quantum_of_pos hx]
        omega

/-- What is rounded to at most such a number: the middle of the gap goes to the even mantissa. -/
theorem round_le_iff (hx : 0 ≤ x) (he : fmt.etiny ≤ e) (hlow : 2 ^ (fmt.precision - 1) ≤ k)
    (hhigh : k < 2 ^ fmt.precision) : fmt.round x ≤ k * 2 ^ e ↔
      if k % 2 = 0 then x ≤ (k + 1 / 2) * 2 ^ e else x < (k + 1 / 2) * 2 ^ e := by
  have hiff : fmt.round x ≤ k * 2 ^ e ↔ Scoring.nearest (x / 2 ^ e) ≤ k := by
    rcases round_gap hx he hlow hhigh with ⟨hnearest, hround⟩ | ⟨hnearest, hround⟩
    · exact iff_of_true hround hnearest
    · refine iff_of_false (not_le.mpr (lt_of_lt_of_le ?_ hround)) (not_le.mpr hnearest)
      exact mul_lt_mul_of_pos_right (lt_add_one _) (two_zpow_pos e)
  rw [hiff, Scoring.nearest_le_iff, div_le_iff₀ (two_zpow_pos e), div_lt_iff₀ (two_zpow_pos e)]

theorem abs_round_sub_le : |fmt.round x - x| ≤ 2 ^ fmt.quantum x / 2 := by
  have hpos := two_zpow_pos (fmt.quantum x)
  have hnearest := Scoring.abs_nearest_sub_le (x / 2 ^ fmt.quantum x)
  have hsplit : fmt.round x - x =
      (Scoring.nearest (x / 2 ^ fmt.quantum x) - x / 2 ^ fmt.quantum x) * 2 ^ fmt.quantum x := by
    rw [round, sub_mul, div_mul_cancel₀ _ hpos.ne']
  rw [hsplit, abs_mul, abs_of_pos hpos]
  calc |(Scoring.nearest (x / 2 ^ fmt.quantum x) : ℚ) - x / 2 ^ fmt.quantum x| * 2 ^ fmt.quantum x
      ≤ 1 / 2 * 2 ^ fmt.quantum x := mul_le_mul_of_nonneg_right hnearest hpos.le
    _ = 2 ^ fmt.quantum x / 2 := by ring

/-- Numbers up to one that are further apart than one bit of one stay apart. -/
theorem round_lt_round (hp : 0 ≤ p) (hq : q ≤ 1) (hetiny : fmt.etiny ≤ 1 - fmt.precision)
    (h : p + 2 ^ (1 - fmt.precision : Int) < q) : fmt.round p < fmt.round q := by
  have hunit {x : ℚ} (hx : 0 ≤ x) (hx' : x ≤ 1) :
      |fmt.round x - x| ≤ 2 ^ (1 - fmt.precision : Int) / 2 := by
    rcases hx.eq_or_lt with rfl | hx
    · rw [round_zero, sub_zero, abs_zero]
      exact half_pos (two_zpow_pos _) |>.le
    · refine abs_round_sub_le.trans (div_le_div_of_nonneg_right ?_ two_pos.le)
      have hlog : Int.log 2 x < 1 := (log_lt_iff hx).mpr (by norm_num; linarith)
      refine zpow_le_zpow_right₀ one_le_two ?_
      rw [quantum_of_pos hx]
      omega
  have hstep := two_zpow_pos (1 - fmt.precision : Int)
  have hbelow := (abs_le.mp (hunit hp (by linarith))).2
  have habove := (abs_le.mp (hunit (by linarith) hq)).1
  linarith

end Format

end Floating
