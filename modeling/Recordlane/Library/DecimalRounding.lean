import Mathlib.Data.Int.Log
import Mathlib.Tactic.Positivity
import Recordlane.Library.Decimal
import Recordlane.Library.Scoring

/-! Decimal numbers as rational ones: what a context rounds them to, and their shortest form. -/
namespace Decimal

variable {ctx : Context} {d f n : Decimal} {c m : Nat} {e : Int} {q : ℚ}

def magnitude (d : Decimal) : ℚ := d.coefficient * 10 ^ d.exponent

def value (d : Decimal) : ℚ := if d.negative then -d.magnitude else d.magnitude

namespace Context

/-- The context has digits and exponents. -/
structure Valid (ctx : Context) : Prop where
  precision : 1 ≤ ctx.precision
  range : ctx.emin ≤ ctx.emax

theorem standard_valid : standard.Valid := ⟨by decide, by decide⟩

/-- The exponent of the last digit that is kept of a number. -/
def quantum (ctx : Context) (q : ℚ) : Int := max (Int.log 10 q + 1 - ctx.precision) ctx.etiny

/-- The nearest number with the digits of the context, ties to even. -/
def nearest (ctx : Context) (q : ℚ) : ℚ := Scoring.nearest (q / 10 ^ ctx.quantum q) * 10 ^ ctx.quantum q

/-- A number with a sign is rounded without it. -/
def rounded (ctx : Context) (q : ℚ) : ℚ := if q < 0 then -ctx.nearest (-q) else ctx.nearest q

end Context

theorem length_digits_le {k : Nat} (hk : 0 < k) : (digits c).length ≤ k ↔ c < 10 ^ k :=
  Nat.length_toDigits_le_iff (by decide) hk

theorem digits_bounds (hc : 0 < c) : 10 ^ ((digits c).length - 1) ≤ c ∧ c < 10 ^ (digits c).length := by
  have hpos : 0 < (digits c).length := Nat.length_toDigits_pos
  refine ⟨?_, (length_digits_le hpos).mp le_rfl⟩
  by_contra hlt
  rw [not_le] at hlt
  by_cases hone : (digits c).length - 1 = 0
  · rw [hone, pow_zero] at hlt
    omega
  · have hle := (length_digits_le (Nat.pos_of_ne_zero hone)).mpr hlt
    omega

theorem divideHalfEven_eq (hm : 0 < m) : (divideHalfEven c m : Int) = Scoring.nearest (c / m : ℚ) := by
  have hcast : (0 : ℚ) < m := by exact_mod_cast hm
  have hfloor : ⌊(c / m : ℚ)⌋ = ((c / m : Nat) : Int) := by
    rw [Rat.floor_natCast_div_natCast]
    rfl
  have hrest : (c / m : ℚ) - (((c / m : Nat) : Int) : ℚ) = (c % m : Nat) / m := by
    have hsum : (m : ℚ) * (c / m : Nat) + (c % m : Nat) = c := by exact_mod_cast Nat.div_add_mod c m
    rw [Int.cast_natCast, eq_div_iff hcast.ne', sub_mul, div_mul_cancel₀ _ hcast.ne']
    linarith
  have hlow : ((c % m : Nat) : ℚ) / m < 1 / 2 ↔ 2 * (c % m) < m := by
    rw [div_lt_div_iff₀ hcast two_pos, one_mul, mul_comm]
    exact_mod_cast Iff.rfl
  have hhigh : (1 / 2 : ℚ) < (c % m : Nat) / m ↔ m < 2 * (c % m) := by
    rw [div_lt_div_iff₀ two_pos hcast, one_mul, mul_comm]
    exact_mod_cast Iff.rfl
  unfold Scoring.nearest divideHalfEven
  dsimp only
  simp only [hfloor, hrest, hlow, hhigh]
  split
  · rfl
  · split
    · rfl
    · have heven : ((c / m : Nat) : Int) % 2 = 0 ↔ c / m % 2 = 0 := by omega
      simp only [heven]
      split <;> rfl

theorem ten_pow_pos (e : Int) : (0 : ℚ) < 10 ^ e := zpow_pos (by norm_num) e

theorem magnitude_pos (hc : 0 < d.coefficient) : 0 < d.magnitude :=
  mul_pos (by exact_mod_cast hc) (ten_pow_pos _)

theorem magnitude_bounds (hc : 0 < d.coefficient) :
    (10 : ℚ) ^ (((digits d.coefficient).length : Int) - 1 + d.exponent) ≤ d.magnitude ∧
      d.magnitude < 10 ^ (((digits d.coefficient).length : Int) + d.exponent) := by
  obtain ⟨hlow, hhigh⟩ := digits_bounds hc
  have hpos : 1 ≤ (digits d.coefficient).length := Nat.length_toDigits_pos
  have hten : (10 : ℚ) ≠ 0 := by norm_num
  have hlength : ((digits d.coefficient).length : Int) - 1 =
      (((digits d.coefficient).length - 1 : Nat) : Int) := by
    omega
  rw [hlength, zpow_add₀ hten, zpow_add₀ hten, zpow_natCast, zpow_natCast]
  constructor
  · refine mul_le_mul_of_nonneg_right ?_ (ten_pow_pos _).le
    exact_mod_cast hlow
  · refine mul_lt_mul_of_pos_right ?_ (ten_pow_pos _)
    exact_mod_cast hhigh

theorem log_magnitude (hc : 0 < d.coefficient) :
    Int.log 10 d.magnitude = (digits d.coefficient).length - 1 + d.exponent := by
  obtain ⟨hlow, hhigh⟩ := magnitude_bounds hc
  have hpos := magnitude_pos hc
  have hten : ((10 : Nat) : ℚ) = 10 := by norm_num
  rw [← hten] at hlow hhigh
  have hle := (Int.zpow_le_iff_le_log (by decide) hpos).mp hlow
  have hlt := (Int.lt_zpow_iff_log_lt (by decide) hpos).mp hhigh
  omega

theorem quantum_magnitude (hc : 0 < d.coefficient) : ctx.quantum d.magnitude =
    max ((digits d.coefficient).length + d.exponent - ctx.precision) ctx.etiny := by
  rw [Context.quantum, log_magnitude hc]
  congr 1
  omega

theorem nearest_of_le {k : Int} (hk : k ≤ d.exponent) :
    (Scoring.nearest (d.magnitude / 10 ^ k) : ℚ) * 10 ^ k = d.magnitude := by
  obtain ⟨n, hn⟩ := Int.eq_ofNat_of_zero_le (show 0 ≤ d.exponent - k by omega)
  have hten : (10 : ℚ) ≠ 0 := by norm_num
  have hwhole : d.magnitude / 10 ^ k = ((d.coefficient * 10 ^ n : Nat) : Int) := by
    rw [magnitude, mul_div_assoc, ← zpow_sub₀ hten, hn]
    push_cast
    rfl
  rw [hwhole, Scoring.nearest_intCast, ← hwhole, div_mul_cancel₀ _ (ten_pow_pos k).ne']

theorem nearest_of_lt {k : Int} (hk : d.exponent < k) :
    Scoring.nearest (d.magnitude / 10 ^ k) = divideHalfEven d.coefficient (10 ^ (k - d.exponent).toNat) := by
  have hten : (10 : ℚ) ≠ 0 := by norm_num
  have hpower : ((10 ^ (k - d.exponent).toNat : Nat) : ℚ) = 10 ^ (k - d.exponent) := by
    have hnat : ((k - d.exponent).toNat : Int) = k - d.exponent := by omega
    rw [Nat.cast_pow, ← zpow_natCast, hnat]
    rfl
  rw [divideHalfEven_eq (by positivity), hpower, magnitude, zpow_sub₀ hten]
  congr 1
  field_simp

/-- The rounding of a number to its own digits at most has no more digits, or is a power of ten. -/
theorem divideHalfEven_le {k : Nat} (h : c < 10 ^ k * m) (hm : 0 < m) : divideHalfEven c m ≤ 10 ^ k := by
  have hlt : c / m < 10 ^ k := (Nat.div_lt_iff_lt_mul hm).mpr h
  unfold divideHalfEven
  split
  · omega
  · split
    · omega
    · split <;> omega

theorem divideHalfEven_small (h : 10 * c < m) : divideHalfEven c m = 0 := by
  have hlt : c < m := by omega
  unfold divideHalfEven
  rw [Nat.mod_eq_of_lt hlt, Nat.div_eq_of_lt hlt, if_pos (by omega)]

/-- What reaches a power of ten among the numbers of a quantum does so after rounding. -/
theorem power_le_nearest {k : Nat} (h : (10 : ℚ) ^ (k + e) ≤ q) :
    (10 : ℚ) ^ (k + e) ≤ (Scoring.nearest (q / 10 ^ e) : ℚ) * 10 ^ e := by
  have hpower : (10 : ℚ) ^ (k + e) = ((10 ^ k : Nat) : Int) * 10 ^ e := by
    rw [zpow_add₀ (by norm_num), zpow_natCast]
    push_cast
    rfl
  rw [hpower] at h ⊢
  refine mul_le_mul_of_nonneg_right ?_ (ten_pow_pos e).le
  have hle := Scoring.nearest_mono ((le_div_iff₀ (ten_pow_pos e)).mpr h)
  rw [Scoring.nearest_intCast] at hle
  exact Int.cast_le.mpr hle

/-- A coefficient that is divided and rounded by a context, with its carry. -/
theorem carry_spec {k : Nat} {top : Int} (hk : 1 ≤ k) (hc : c ≤ 10 ^ k) (he : e ≤ top) (negative : Bool) :
    match (let (c, e) := if k < (digits c).length then (c / 10, e + 1) else (c, e)
      if top < e then none else some (Decimal.mk negative c e)) with
    | none => (10 : ℚ) ^ (k + top) ≤ c * 10 ^ e
    | some f => f.negative = negative ∧ f.magnitude = c * 10 ^ e ∧ f.magnitude < 10 ^ (k + top) := by
  have hten : (10 : ℚ) ≠ 0 := by norm_num
  by_cases hcarry : k < (digits c).length
  · rw [if_pos hcarry]
    have hfull : c = 10 ^ k := by
      have hnot := mt (length_digits_le hk).mpr (not_le.mpr hcarry)
      omega
    obtain ⟨j, rfl⟩ : ∃ j, k = j + 1 := ⟨k - 1, by omega⟩
    have hpower : (c : ℚ) * 10 ^ e = 10 ^ ((j + 1 : Nat) + e) := by
      rw [hfull, zpow_add₀ hten, zpow_natCast]
      push_cast
      rfl
    have hshort : c / 10 = 10 ^ j := by
      rw [hfull, pow_succ, Nat.mul_div_cancel _ (by decide)]
    dsimp only
    by_cases htop : top < e + 1
    · rw [if_pos htop, hpower]
      exact zpow_le_zpow_right₀ (by norm_num) (by omega)
    · rw [if_neg htop]
      have hmagnitude : magnitude ⟨negative, c / 10, e + 1⟩ = c * 10 ^ e := by
        rw [hpower, magnitude, hshort, Nat.cast_pow, ← zpow_natCast]
        push_cast
        rw [← zpow_add₀ hten]
        congr 1
        omega
      refine ⟨rfl, hmagnitude, ?_⟩
      rw [hmagnitude, hpower]
      exact zpow_lt_zpow_right₀ (by norm_num) (by omega)
  · rw [if_neg hcarry]
    dsimp only
    rw [if_neg (not_lt.mpr he)]
    refine ⟨rfl, rfl, ?_⟩
    have hlt := (length_digits_le hk).mp (not_lt.mp hcarry)
    calc magnitude ⟨negative, c, e⟩ < ((10 ^ k : Nat) : ℚ) * 10 ^ e :=
          mul_lt_mul_of_pos_right (by exact_mod_cast hlt) (ten_pow_pos e)
      _ = 10 ^ (k + e) := by
          rw [zpow_add₀ hten, zpow_natCast]
          push_cast
          rfl
      _ ≤ 10 ^ (k + top) := zpow_le_zpow_right₀ (by norm_num) (by omega)

/-- Rounding within a context is rounding to the nearest number of the context, which a number overflows
if and only if it is out of the range. -/
theorem fix_spec (hctx : ctx.Valid) (hc : 0 < d.coefficient) :
    match fix ctx d with
    | none => (10 : ℚ) ^ (ctx.emax + 1) ≤ ctx.nearest d.magnitude
    | some f => f.negative = d.negative ∧ f.magnitude = ctx.nearest d.magnitude ∧
        f.magnitude < 10 ^ (ctx.emax + 1) := by
  obtain ⟨hlow, hhigh⟩ := magnitude_bounds hc
  have hdigits := (digits_bounds hc).2
  have hprecision := hctx.precision
  have htop : ctx.emax + 1 = ctx.precision + ctx.etop := by
    rw [Context.etop]
    omega
  have htiny : ctx.etiny ≤ ctx.etop := by
    have hrange := hctx.range
    rw [Context.etop, Context.etiny]
    omega
  have hlength : 1 ≤ (digits d.coefficient).length := Nat.length_toDigits_pos
  unfold fix
  dsimp only
  rw [Context.nearest, quantum_magnitude hc]
  generalize (digits d.coefficient).length = l at hlow hhigh hdigits hlength
  by_cases hover : ctx.etop < l + d.exponent - ctx.precision
  · rw [if_pos hover, max_eq_left (by omega)]
    have hsum : (l : Int) - 1 + d.exponent = (ctx.precision - 1 : Nat) +
        (l + d.exponent - ctx.precision) := by
      omega
    rw [hsum] at hlow
    refine le_trans ?_ (power_le_nearest hlow)
    exact zpow_le_zpow_right₀ (by norm_num) (by omega)
  · rw [if_neg hover]
    generalize hq : max (l + d.exponent - ctx.precision) ctx.etiny = least
    have hle : least ≤ ctx.etop := by omega
    by_cases hround : d.exponent < least
    · rw [if_pos hround, nearest_of_lt hround, htop]
      have hpower : (10 : Nat) ^ l ≤ 10 ^ ctx.precision * 10 ^ (least - d.exponent).toNat := by
        rw [← pow_add]
        exact Nat.pow_le_pow_right (by decide) (by omega)
      have hcoefficient : (if (l : Int) + d.exponent < least then 0
          else divideHalfEven d.coefficient (10 ^ (least - d.exponent).toNat)) =
          divideHalfEven d.coefficient (10 ^ (least - d.exponent).toNat) := by
        split
        · refine (divideHalfEven_small ?_).symm
          have hmore : 10 * 10 ^ l ≤ 10 ^ (least - d.exponent).toNat := by
            rw [← pow_succ']
            exact Nat.pow_le_pow_right (by decide) (by omega)
          omega
        · rfl
      rw [hcoefficient, Int.cast_natCast]
      exact carry_spec hprecision (divideHalfEven_le (hdigits.trans_le hpower) (by positivity)) hle _
    · rw [if_neg hround]
      refine ⟨rfl, (nearest_of_le (not_lt.mp hround)).symm, hhigh.trans_le ?_⟩
      exact zpow_le_zpow_right₀ (by norm_num) (by omega)

/-- No zeros at the end, and one form of zero for each sign. -/
def Reduced (d : Decimal) : Prop := d.coefficient % 10 ≠ 0 ∨ (d.coefficient = 0 ∧ d.exponent = 0)

/-- Stripping zeros keeps the number, and ends at a digit that is not zero or at the limit. -/
theorem strip_spec {limit : Int} (fuel : Nat) : ∀ (c : Nat) (e : Int), 0 < c → c < 10 ^ fuel →
    0 < (strip limit fuel c e).1 ∧
      ((strip limit fuel c e).1 : ℚ) * 10 ^ (strip limit fuel c e).2 = c * 10 ^ e ∧
      ((strip limit fuel c e).1 % 10 ≠ 0 ∨ limit ≤ (strip limit fuel c e).2) := by
  induction fuel with
  | zero =>
    intro c e hpos hlt
    rw [pow_zero] at hlt
    omega
  | succ fuel ih =>
    intro c e hpos hlt
    rw [strip]
    split
    · next h =>
      obtain ⟨j, rfl⟩ : ∃ j, c = 10 * j := ⟨c / 10, by omega⟩
      rw [Nat.mul_div_cancel_left j (by decide)]
      rw [pow_succ'] at hlt
      obtain ⟨hkept, hvalue, hend⟩ := ih j (e + 1) (by omega) (by omega)
      refine ⟨hkept, hvalue.trans ?_, hend⟩
      rw [zpow_add_one₀ (by norm_num)]
      push_cast
      ring
    · next h =>
      refine ⟨hpos, rfl, ?_⟩
      by_cases hdigit : c % 10 = 0
      · exact .inr (not_lt.mp fun hlt => h ⟨hdigit, hlt⟩)
      · exact .inl hdigit

theorem magnitude_nonneg : 0 ≤ d.magnitude := mul_nonneg (Nat.cast_nonneg _) (ten_pow_pos _).le

theorem magnitude_eq_zero : d.magnitude = 0 ↔ d.coefficient = 0 := by
  rw [magnitude, mul_eq_zero, Nat.cast_eq_zero]
  exact or_iff_left (ten_pow_pos _).ne'

theorem nearest_zero : ctx.nearest 0 = 0 := by
  rw [Context.nearest, zero_div, ← Int.cast_zero, Scoring.nearest_intCast, Int.cast_zero, zero_mul]

theorem nearest_nonneg (h : 0 ≤ q) : 0 ≤ ctx.nearest q := by
  refine mul_nonneg ?_ (ten_pow_pos _).le
  have hle := Scoring.nearest_mono (div_nonneg h (ten_pow_pos (ctx.quantum q)).le)
  rw [← Int.cast_zero, Scoring.nearest_intCast] at hle
  exact_mod_cast hle

/-- The shortest form of a number is what the context rounds it to, or it overflows. -/
theorem normalize_spec (hctx : ctx.Valid) (d : Decimal) :
    match normalize ctx d with
    | none => (10 : ℚ) ^ (ctx.emax + 1) ≤ ctx.nearest d.magnitude
    | some n => n.negative = d.negative ∧ n.magnitude = ctx.nearest d.magnitude ∧ n.Reduced ∧
        n.magnitude < 10 ^ (ctx.emax + 1) := by
  have hzero : ∀ negative, (mk negative 0 0).magnitude = 0 := fun negative => magnitude_eq_zero.mpr rfl
  unfold normalize
  by_cases hc : d.coefficient = 0
  · rw [if_pos hc, magnitude_eq_zero.mpr hc, nearest_zero]
    exact ⟨rfl, hzero _, .inr ⟨rfl, rfl⟩, (hzero _).trans_lt (ten_pow_pos _)⟩
  · rw [if_neg hc]
    have hfix := fix_spec hctx (Nat.pos_of_ne_zero hc)
    cases h : fix ctx d with
    | none =>
      rw [h] at hfix
      exact hfix
    | some f =>
      rw [h] at hfix
      obtain ⟨hsign, hmagnitude, hlt⟩ := hfix
      dsimp only
      by_cases hf : f.coefficient = 0
      · rw [if_pos hf, ← hmagnitude, magnitude_eq_zero.mpr hf]
        exact ⟨hsign, hzero _, .inr ⟨rfl, rfl⟩, (hzero _).trans_lt (ten_pow_pos _)⟩
      · rw [if_neg hf]
        obtain ⟨hpos, hvalue, hend⟩ := @strip_spec ctx.emax (digits f.coefficient).length f.coefficient
          f.exponent (Nat.pos_of_ne_zero hf) (digits_bounds (Nat.pos_of_ne_zero hf)).2
        generalize strip ctx.emax (digits f.coefficient).length f.coefficient f.exponent =
            s at hpos hvalue hend
        have hsame : magnitude ⟨f.negative, s.1, s.2⟩ = f.magnitude := hvalue
        refine ⟨hsign, hsame.trans hmagnitude, .inl ?_, hsame.trans_lt hlt⟩
        rcases hend with hend | hend
        · exact hend
        · -- at the limit another zero would be out of the range
          intro (hdigit : s.1 % 10 = 0)
          refine absurd (hsame.trans_lt hlt) (not_lt.mpr ?_)
          have hten : (10 : ℚ) ≤ s.1 := by
            have hle : 10 ≤ s.1 := by omega
            exact_mod_cast hle
          calc (10 : ℚ) ^ (ctx.emax + 1) = 10 * 10 ^ ctx.emax := by
                rw [zpow_add_one₀ (by norm_num), mul_comm]
            _ ≤ 10 * 10 ^ s.2 := by
                refine mul_le_mul_of_nonneg_left ?_ (by norm_num)
                exact zpow_le_zpow_right₀ (by norm_num) hend
            _ ≤ s.1 * 10 ^ s.2 := mul_le_mul_of_nonneg_right hten (ten_pow_pos _).le

/-- A reduced number has the least coefficient among the equal ones. -/
theorem Reduced.exponent_le (hd : d.Reduced) (hn : n.Reduced) (h : d.magnitude = n.magnitude) :
    n.exponent ≤ d.exponent := by
  by_contra hlt
  rw [not_le] at hlt
  obtain ⟨k, hk⟩ := Int.eq_ofNat_of_zero_le (show 0 ≤ n.exponent - d.exponent - 1 by omega)
  have hten : (10 : ℚ) ≠ 0 := by norm_num
  have hcoefficient : d.coefficient = n.coefficient * 10 ^ (k + 1) := by
    have hexponent : n.exponent = (k + 1 : Nat) + d.exponent := by omega
    rw [magnitude, magnitude, hexponent, zpow_add₀ hten, zpow_natCast, ← mul_assoc] at h
    exact_mod_cast mul_right_cancel₀ (ten_pow_pos d.exponent).ne' h
  have hdigit : d.coefficient % 10 = 0 := by
    rw [hcoefficient, pow_succ, ← mul_assoc]
    exact Nat.mul_mod_left _ _
  obtain ⟨hzero, hexponent⟩ := hd.resolve_left fun hne => hne hdigit
  have hn0 : n.coefficient = 0 := by
    rw [hcoefficient] at hzero
    exact (Nat.mul_eq_zero.mp hzero).resolve_right (by positivity)
  obtain ⟨-, hexponent'⟩ := hn.resolve_left fun hne => hne (by rw [hn0])
  omega

/-- Equal numbers of a sign have one reduced form. -/
theorem Reduced.unique (hd : d.Reduced) (hn : n.Reduced) (hsign : d.negative = n.negative)
    (h : d.magnitude = n.magnitude) : d = n := by
  have hexponent : d.exponent = n.exponent := le_antisymm (hn.exponent_le hd h.symm) (hd.exponent_le hn h)
  have hcoefficient : d.coefficient = n.coefficient := by
    rw [magnitude, magnitude, hexponent] at h
    exact_mod_cast mul_right_cancel₀ (ten_pow_pos n.exponent).ne' h
  cases d
  cases n
  cases hsign
  cases hexponent
  cases hcoefficient
  rfl

/-- Numbers with different signs are equal only if they are zero. -/
theorem value_eq_of_ne (hsign : d.negative ≠ n.negative) :
    d.value = n.value ↔ d.value = 0 ∧ n.value = 0 := by
  refine ⟨fun h => ?_, fun h => h.1.trans h.2.symm⟩
  have hd := @magnitude_nonneg d
  have hn := @magnitude_nonneg n
  suffices d.value = 0 from ⟨this, h ▸ this⟩
  unfold value at h ⊢
  cases hs : d.negative <;> cases hs' : n.negative <;> simp_all <;> linarith

theorem rounded_value : ctx.rounded d.value = if d.negative then -ctx.nearest d.magnitude
    else ctx.nearest d.magnitude := by
  have hnonneg := @magnitude_nonneg d
  unfold Context.rounded value
  cases d.negative with
  | false => rw [if_neg Bool.false_ne_true, if_neg Bool.false_ne_true, if_neg (not_lt.mpr hnonneg)]
  | true =>
    rw [if_pos rfl, if_pos rfl, neg_neg]
    by_cases hzero : d.magnitude = 0
    · rw [hzero, neg_zero, if_neg (lt_irrefl _), nearest_zero, neg_zero]
    · rw [if_pos (neg_lt_zero.mpr (lt_of_le_of_ne hnonneg (Ne.symm hzero)))]

theorem abs_rounded : |ctx.rounded d.value| = ctx.nearest d.magnitude := by
  have hnonneg := @nearest_nonneg ctx d.magnitude magnitude_nonneg
  rw [rounded_value]
  split
  · rw [abs_neg, abs_of_nonneg hnonneg]
  · exact abs_of_nonneg hnonneg

theorem rounded_eq_iff (hsign : d.negative = n.negative) :
    ctx.rounded d.value = ctx.rounded n.value ↔ ctx.nearest d.magnitude = ctx.nearest n.magnitude := by
  rw [rounded_value, rounded_value, hsign]
  split
  · exact neg_inj
  · rfl

/-- A number has a shortest form if and only if its rounding is in the range. -/
theorem normalize_isSome (hctx : ctx.Valid) :
    (normalize ctx d).isSome ↔ |ctx.rounded d.value| < 10 ^ (ctx.emax + 1) := by
  have hspec := normalize_spec hctx d
  rw [abs_rounded]
  cases h : normalize ctx d with
  | none =>
    rw [h] at hspec
    exact iff_of_false Bool.false_ne_true (not_lt.mpr hspec)
  | some n =>
    rw [h] at hspec
    exact iff_of_true rfl (hspec.2.1 ▸ hspec.2.2.2)

/-- Two shortest forms are the same if and only if the signs are, and the roundings. -/
theorem normalize_eq_iff (hctx : ctx.Valid) {e m : Decimal} (hn : normalize ctx d = some n)
    (hm : normalize ctx e = some m) :
    n = m ↔ d.negative = e.negative ∧ ctx.rounded d.value = ctx.rounded e.value := by
  have hleft := normalize_spec hctx d
  have hright := normalize_spec hctx e
  rw [hn] at hleft
  rw [hm] at hright
  obtain ⟨hsign, hmagnitude, hreduced, -⟩ := hleft
  obtain ⟨hsign', hmagnitude', hreduced', -⟩ := hright
  constructor
  · rintro rfl
    have hsame := hsign.symm.trans hsign'
    exact ⟨hsame, (rounded_eq_iff hsame).mpr (hmagnitude.symm.trans hmagnitude')⟩
  · rintro ⟨hsame, hrounded⟩
    refine hreduced.unique hreduced' (hsign.trans (hsame.trans hsign'.symm)) ?_
    rw [hmagnitude, hmagnitude', (rounded_eq_iff hsame).mp hrounded]

/-! A shortest form is its own shortest form. -/

/-- A number that a context keeps as it is. -/
structure Fits (ctx : Context) (d : Decimal) : Prop where
  short : (digits d.coefficient).length ≤ ctx.precision
  low : ctx.etiny ≤ d.exponent
  high : (digits d.coefficient).length + d.exponent - ctx.precision ≤ ctx.etop

theorem Fits.fix (h : Fits ctx d) : fix ctx d = some d := by
  obtain ⟨hshort, hlow, hhigh⟩ := h
  unfold Decimal.fix
  dsimp only
  rw [if_neg (not_lt.mpr hhigh), if_neg (by omega)]

theorem carry_fits {k : Nat} {top : Int} (hk : 1 ≤ k) (hc : c ≤ 10 ^ k) {negative : Bool}
    (h : (let (c, e) := if k < (digits c).length then (c / 10, e + 1) else (c, e)
      if top < e then none else some (Decimal.mk negative c e)) = some f) :
    (digits f.coefficient).length ≤ k ∧ e ≤ f.exponent ∧ f.exponent ≤ top := by
  by_cases hcarry : k < (digits c).length
  · rw [if_pos hcarry] at h
    dsimp only at h
    split at h
    · cases h
    · next htop =>
      cases h
      refine ⟨(length_digits_le hk).mpr ?_, by dsimp only; omega, not_lt.mp htop⟩
      dsimp only
      have hpos : 0 < 10 ^ k := by positivity
      omega
  · rw [if_neg hcarry] at h
    dsimp only at h
    split at h
    · cases h
    · next htop =>
      cases h
      exact ⟨not_lt.mp hcarry, le_rfl, not_lt.mp htop⟩

theorem fits_of_fix (hctx : ctx.Valid) (hc : 0 < d.coefficient) (h : fix ctx d = some f) : Fits ctx f := by
  have hdigits := (digits_bounds hc).2
  have hprecision := hctx.precision
  unfold fix at h
  dsimp only at h
  generalize hl : (digits d.coefficient).length = l at h hdigits
  by_cases hover : ctx.etop < l + d.exponent - ctx.precision
  · rw [if_pos hover] at h
    cases h
  · rw [if_neg hover] at h
    by_cases hround : d.exponent < max (l + d.exponent - ctx.precision) ctx.etiny
    · rw [if_pos hround] at h
      generalize hq : max (l + d.exponent - ctx.precision) ctx.etiny = least at h hround
      have hle : (if (l : Int) + d.exponent < least then 0
          else divideHalfEven d.coefficient (10 ^ (least - d.exponent).toNat)) ≤ 10 ^ ctx.precision := by
        split
        · positivity
        · refine divideHalfEven_le (hdigits.trans_le ?_) (by positivity)
          rw [← pow_add]
          exact Nat.pow_le_pow_right (by decide) (by omega)
      obtain ⟨hshort, hlow, hhigh⟩ := carry_fits hprecision hle h
      exact ⟨hshort, by omega, by omega⟩
    · rw [if_neg hround] at h
      cases h
      exact ⟨by omega, by omega, by omega⟩

theorem strip_shorter {limit : Int} (fuel : Nat) : ∀ (c : Nat) (e : Int), 0 < c →
    (digits (strip limit fuel c e).1).length ≤ (digits c).length ∧ e ≤ (strip limit fuel c e).2 ∧
      (digits (strip limit fuel c e).1).length + (strip limit fuel c e).2 ≤ (digits c).length + e := by
  induction fuel with
  | zero => exact fun c e _ => ⟨le_rfl, le_rfl, le_rfl⟩
  | succ fuel ih =>
    intro c e hpos
    rw [strip]
    split
    · next h =>
      obtain ⟨hshort, hlow, hsum⟩ := ih (c / 10) (e + 1) (by omega)
      have hless : (digits (c / 10)).length + 1 ≤ (digits c).length := by
        have hlt := (digits_bounds hpos).2
        have hone : ¬ (digits c).length ≤ 1 := by
          rw [length_digits_le (by decide)]
          omega
        obtain ⟨k, hk⟩ : ∃ k, (digits c).length = k + 1 := ⟨(digits c).length - 1, by omega⟩
        rw [hk, pow_succ] at hlt
        have hle := (@length_digits_le (c / 10) k (by omega)).mpr (by omega)
        omega
      exact ⟨by omega, by omega, by omega⟩
    · exact ⟨le_rfl, le_rfl, le_rfl⟩

theorem strip_self {limit : Int} (h : c % 10 ≠ 0) : ∀ fuel, strip limit fuel c e = (c, e)
  | 0 => rfl
  | _ + 1 => if_neg fun hc => h hc.1

theorem normalize_normalize (hctx : ctx.Valid) (h : normalize ctx d = some n) : normalize ctx n = some n := by
  have hspec := normalize_spec hctx d
  rw [h] at hspec
  rcases hspec.2.2.1 with hdigit | ⟨hzero, hexponent⟩
  · have hfits : Fits ctx n := by
      unfold normalize at h
      by_cases hc : d.coefficient = 0
      · rw [if_pos hc] at h
        obtain rfl := Option.some.inj h
        exact absurd rfl hdigit
      · rw [if_neg hc] at h
        cases hf : fix ctx d with
        | none =>
          rw [hf] at h
          cases h
        | some f =>
          rw [hf] at h
          dsimp only at h
          by_cases hf0 : f.coefficient = 0
          · rw [if_pos hf0] at h
            obtain rfl := Option.some.inj h
            exact absurd rfl hdigit
          · rw [if_neg hf0] at h
            obtain ⟨hshort, hlow, hhigh⟩ := fits_of_fix hctx (Nat.pos_of_ne_zero hc) hf
            obtain ⟨hless, hmore, hsum⟩ := @strip_shorter ctx.emax (digits f.coefficient).length f.coefficient
              f.exponent (Nat.pos_of_ne_zero hf0)
            obtain rfl := Option.some.inj h
            exact ⟨hless.trans hshort, hlow.trans hmore, by dsimp only; omega⟩
    have hn0 : n.coefficient ≠ 0 := by
      intro hzero
      rw [hzero] at hdigit
      exact hdigit rfl
    unfold normalize
    rw [if_neg hn0, hfits.fix]
    dsimp only
    rw [if_neg hn0, strip_self hdigit]
  · unfold normalize
    rw [if_pos hzero]
    cases n
    cases hzero
    cases hexponent
    rfl

end Decimal
