import Mathlib.Algebra.Order.Floor.Ring
import Mathlib.Data.Rat.Floor
import Mathlib.Algebra.Order.Field.Basic
import Mathlib.Algebra.Order.BigOperators.Group.List
import Mathlib.Tactic.Linarith
import Mathlib.Tactic.FieldSimp
import Mathlib.Tactic.Positivity

/-! Scores over an ordered field: rounding, weighted means and log-odds. -/
namespace Scoring

variable {K : Type*} [Field K] [LinearOrder K]

section Rounding

variable [FloorRing K] {p q : K} {digits : Nat}

/-- The nearest whole number, ties to even. -/
def nearest (q : K) : Int :=
  let low := ⌊q⌋
  let rest := q - low
  if rest < 1 / 2 then low else if 1 / 2 < rest then low + 1
    else if low % 2 = 0 then low else low + 1

/-- The nearest number with so many digits. -/
def roundTo (q : K) (digits : Nat) : K := nearest (q * 10 ^ digits) / 10 ^ digits

theorem floor_le_nearest : ⌊q⌋ ≤ nearest q := by
  unfold nearest
  dsimp only
  split
  · exact le_rfl
  · split
    · omega
    · split <;> omega

theorem nearest_le_floor : nearest q ≤ ⌊q⌋ + 1 := by
  unfold nearest
  dsimp only
  split
  · omega
  · split
    · exact le_rfl
    · split <;> omega

variable [IsStrictOrderedRing K]

theorem nearest_mono (h : p ≤ q) : nearest p ≤ nearest q := by
  have hfloor := Int.floor_mono h
  by_cases he : ⌊p⌋ = ⌊q⌋
  · -- within one unit the larger rest decides
    unfold nearest
    rw [he]
    dsimp only
    have hrest : p - ⌊q⌋ ≤ q - ⌊q⌋ := sub_le_sub_right h _
    by_cases hp : p - ⌊q⌋ < 1 / 2
    · rw [if_pos hp]
      exact floor_le_nearest
    · have hq : ¬ q - ⌊q⌋ < 1 / 2 := fun hq => hp (lt_of_le_of_lt hrest hq)
      rw [if_neg hp, if_neg hq]
      by_cases hp' : 1 / 2 < p - ⌊q⌋
      · rw [if_pos hp', if_pos (lt_of_lt_of_le hp' hrest)]
      · rw [if_neg hp']
        split <;> split <;> omega
  · have hlt : ⌊p⌋ + 1 ≤ ⌊q⌋ := by omega
    exact nearest_le_floor.trans (hlt.trans floor_le_nearest)

/-- Below the middle between two whole numbers the lower one is the nearest. -/
theorem nearest_le_of_lt {n : Int} (h : q < n + 1 / 2) : nearest q ≤ n := by
  have hfloor : ⌊q⌋ < n + 1 := Int.floor_lt.mpr (by push_cast; linarith)
  by_cases he : ⌊q⌋ = n
  · have hrest : q - (⌊q⌋ : Int) < 1 / 2 := by rw [he]; linarith
    unfold nearest
    dsimp only
    rw [if_pos hrest, he]
  · have hle := nearest_le_floor (q := q)
    omega

/-- Above the middle it is not. -/
theorem lt_nearest_of_lt {n : Int} (h : (n : K) + 1 / 2 < q) : n < nearest q := by
  have hfloor : n ≤ ⌊q⌋ := Int.le_floor.mpr (by linarith)
  by_cases he : ⌊q⌋ = n
  · have hrest : 1 / 2 < q - (⌊q⌋ : Int) := by rw [he]; linarith
    unfold nearest
    dsimp only
    rw [if_neg (not_lt.mpr hrest.le), if_pos hrest, he]
    omega
  · have hle := floor_le_nearest (q := q)
    omega

theorem nearest_middle (n : Int) : nearest ((n : K) + 1 / 2) = if n % 2 = 0 then n else n + 1 := by
  have hfloor : ⌊(n : K) + 1 / 2⌋ = n := by
    rw [Int.floor_intCast_add, Int.floor_eq_zero_iff.mpr ⟨by norm_num, by norm_num⟩, add_zero]
  unfold nearest
  dsimp only
  rw [hfloor, add_sub_cancel_left, if_neg (lt_irrefl _), if_neg (lt_irrefl _)]

/-- The middle itself goes to the even one of its neighbours. -/
theorem nearest_le_iff {n : Int} :
    nearest q ≤ n ↔ if n % 2 = 0 then q ≤ n + 1 / 2 else q < n + 1 / 2 := by
  rcases lt_trichotomy q (n + 1 / 2) with h | h | h
  · refine iff_of_true (nearest_le_of_lt h) ?_
    split
    · exact h.le
    · exact h
  · rw [h, nearest_middle]
    split
    · exact iff_of_true le_rfl le_rfl
    · exact iff_of_false (by omega) (lt_irrefl _)
  · refine iff_of_false (not_le.mpr (lt_nearest_of_lt h)) ?_
    split
    · exact not_le.mpr h
    · exact not_lt.mpr h.le

theorem abs_nearest_sub_le (q : K) : |(nearest q : K) - q| ≤ 1 / 2 := by
  have hfloor := Int.floor_le q
  have hceil := Int.lt_floor_add_one q
  unfold nearest
  dsimp only
  split
  · rw [abs_le]
    constructor <;> linarith
  · split
    · push_cast
      rw [abs_le]
      constructor <;> linarith
    · -- the middle is as far from both neighbours
      split
      · rw [abs_le]
        constructor <;> linarith
      · push_cast
        rw [abs_le]
        constructor <;> linarith

theorem nearest_intCast (n : Int) : nearest (n : K) = n := by
  unfold nearest
  have hzero : ((n : K) - (⌊(n : K)⌋ : Int)) < 1 / 2 := by
    rw [Int.floor_intCast, sub_self]
    exact half_pos one_pos
  dsimp only
  rw [if_pos hzero, Int.floor_intCast]

theorem roundTo_mono (h : p ≤ q) : roundTo p digits ≤ roundTo q digits := by
  have hpos : (0 : K) < 10 ^ digits := by positivity
  refine (div_le_div_iff_of_pos_right hpos).mpr (Int.cast_le.mpr (nearest_mono ?_))
  exact (mul_le_mul_iff_left₀ hpos).mpr h

theorem roundTo_intCast (n : Int) : roundTo (n : K) digits = n := by
  have hpos : (0 : K) < 10 ^ digits := by positivity
  have hcast : (n : K) * 10 ^ digits = ((n * 10 ^ digits : Int) : K) := by push_cast; rfl
  rw [roundTo, hcast, nearest_intCast]
  push_cast
  exact mul_div_cancel_right₀ _ hpos.ne'

theorem nearest_cast (q : ℚ) : nearest (q : K) = nearest q := by
  have hrest : (q : K) - (⌊q⌋ : Int) = ((q - ⌊q⌋ : ℚ) : K) := by push_cast; rfl
  have hhalf : (1 / 2 : K) = ((1 / 2 : ℚ) : K) := by norm_num
  unfold nearest
  dsimp only
  rw [Rat.floor_cast, hrest, hhalf]
  simp only [Rat.cast_lt]

theorem roundTo_cast (q : ℚ) (digits : Nat) : roundTo (q : K) digits = ((roundTo q digits : ℚ) : K) := by
  have hscaled : (q : K) * 10 ^ digits = ((q * 10 ^ digits : ℚ) : K) := by push_cast; rfl
  rw [roundTo, roundTo, hscaled, nearest_cast]
  push_cast
  rfl

theorem roundTo_le_one (h : q ≤ 1) : roundTo q digits ≤ 1 := by
  have hone : roundTo q digits ≤ roundTo 1 digits := roundTo_mono h
  have hcast : roundTo ((1 : Int) : K) digits = ((1 : Int) : K) := roundTo_intCast 1
  rw [Int.cast_one] at hcast
  rwa [hcast] at hone

end Rounding

variable [IsStrictOrderedRing K]

/-- The mean of components, each with its weight; nothing has the mean zero. -/
def weightedMean (rows : List (K × K)) : K :=
  (rows.map fun r => r.1 * r.2).sum / (rows.map Prod.snd).sum

section Odds

variable {log exp : K → K} {m u c c' x y : K}

/-- What a component adds to the log-odds of a match, by the chance of agreement among matches and
among the others. -/
def logLikelihood (log : K → K) (m u c : K) : K :=
  log ((1 - m) / (1 - u)) + c * (log (m / u) - log ((1 - m) / (1 - u)))

/-- The probability that has these log-odds. -/
def posterior (exp : K → K) (x : K) : K := 1 / (1 + exp (-x))

/-- Agreement speaks for a match. -/
theorem logLikelihood_mono (hlog : ∀ x y, 0 < x → x ≤ y → log x ≤ log y) (hu : 0 < u) (hum : u < m)
    (hm : m < 1) (h : c ≤ c') : logLikelihood log m u c ≤ logLikelihood log m u c' := by
  have hpos : 0 < (1 - m) / (1 - u) := div_pos (by linarith) (by linarith)
  have hle : (1 - m) / (1 - u) ≤ 1 := (div_le_one (by linarith)).mpr (by linarith)
  have hge : 1 ≤ m / u := (one_le_div hu).mpr hum.le
  have hgain : 0 ≤ log (m / u) - log ((1 - m) / (1 - u)) :=
    sub_nonneg.mpr (hlog _ _ hpos (hle.trans hge))
  exact add_le_add le_rfl (mul_le_mul_of_nonneg_right h hgain)

theorem posterior_mono (hexp : ∀ x y, x ≤ y → exp x ≤ exp y) (hpos : ∀ x, 0 ≤ exp x) (h : x ≤ y) :
    posterior exp x ≤ posterior exp y := by
  have hle := hexp (-y) (-x) (neg_le_neg h)
  exact one_div_le_one_div_of_le (by linarith [hpos (-y)]) (by linarith)

theorem posterior_nonneg (hpos : ∀ x, 0 ≤ exp x) : 0 ≤ posterior exp x :=
  div_nonneg zero_le_one (by linarith [hpos (-x)])

theorem posterior_le_one (hpos : ∀ x, 0 ≤ exp x) : posterior exp x ≤ 1 :=
  (div_le_one (by linarith [hpos (-x)])).mpr (by linarith [hpos (-x)])

end Odds

end Scoring
