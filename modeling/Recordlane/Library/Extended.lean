import Mathlib.Order.WithBot
import Recordlane.Library.Scoring

/-! Numbers with infinities and NaN, calculated as floats are but without rounding. -/

/-- A number, an infinity, or none of them. -/
inductive Extended (K : Type*)
  | finite (x : K)
  | infinite (negative : Bool)
  | nan
  deriving DecidableEq

namespace Extended

variable {K L : Type*}

def map (f : K → L) : Extended K → Extended L
  | finite x => finite (f x)
  | infinite negative => infinite negative
  | nan => nan

@[simp] theorem map_id (x : Extended K) : x.map (fun p => p) = x := by cases x <;> rfl

theorem map_ne_nan {f : K → L} {x : Extended K} : x.map f ≠ nan ↔ x ≠ nan := by
  cases x <;> simp [map]

/-- The number, where there is one. -/
def number [Zero K] : Extended K → K
  | finite x => x
  | _ => 0

/-- The place in the order of numbers and infinities; nothing is below NaN. -/
def rank : Extended K → WithBot (WithTop K)
  | finite x => ((x : WithTop K) : WithBot (WithTop K))
  | infinite false => ((⊤ : WithTop K) : WithBot (WithTop K))
  | infinite true | nan => ⊥

/-- No comparison with NaN holds. -/
instance [LE K] : LE (Extended K) where
  le
    | nan, _ | _, nan => False
    | finite x, finite y => x ≤ y
    | infinite negative, finite _ => negative = true
    | finite _, infinite negative => negative = false
    | infinite a, infinite b => a = true ∨ b = false

instance [LT K] : LT (Extended K) where
  lt
    | nan, _ | _, nan => False
    | finite x, finite y => x < y
    | infinite negative, finite _ => negative = true
    | finite _, infinite negative => negative = false
    | infinite a, infinite b => a = true ∧ b = false

instance [Zero K] : Zero (Extended K) := ⟨finite 0⟩

instance [One K] : One (Extended K) := ⟨finite 1⟩

instance [Add K] : Add (Extended K) where
  add
    | nan, _ | _, nan => nan
    | finite x, finite y => finite (x + y)
    | infinite a, finite _ => infinite a
    | finite _, infinite b => infinite b
    | infinite a, infinite b => if a = b then infinite a else nan

instance [Neg K] : Neg (Extended K) where
  neg
    | nan => nan
    | finite x => finite (-x)
    | infinite negative => infinite !negative

instance [Add K] [Neg K] : Sub (Extended K) := ⟨fun x y => x + -y⟩

/-- An infinity times a number: its sign is that of both, and it is none of zero. -/
def scaled [Zero K] [LT K] [DecidableEq K] [DecidableLT K] (negative : Bool) (x : K) : Extended K :=
  if x = 0 then nan else infinite (negative ^^ decide (x < 0))

instance [Zero K] [Mul K] [LT K] [DecidableEq K] [DecidableLT K] : Mul (Extended K) where
  mul
    | nan, _ | _, nan => nan
    | finite x, finite y => finite (x * y)
    | infinite a, finite y => scaled a y
    | finite x, infinite b => scaled b x
    | infinite a, infinite b => infinite (a ^^ b)

/-- Division, but for the division by zero, which raises. -/
instance [Zero K] [Div K] [LT K] [DecidableEq K] [DecidableLT K] : Div (Extended K) where
  div
    | nan, _ | _, nan => nan
    | finite x, finite y => finite (x / y)
    | infinite a, finite y => scaled a y
    | finite _, infinite _ => finite 0
    | infinite _, infinite _ => nan

/-- The absolute value. -/
def abs [Zero K] [Neg K] [LT K] [DecidableLT K] : Extended K → Extended K
  | finite x => finite (if x < 0 then -x else x)
  | infinite _ => infinite false
  | nan => nan

section Order

variable [LinearOrder K] {x y z : Extended K} {p q : K} {a b : Bool}

instance : DecidableLE (Extended K) := fun x y =>
  match x, y with
  | nan, nan | nan, finite _ | nan, infinite _ | finite _, nan | infinite _, nan => isFalse id
  | finite p, finite q => inferInstanceAs (Decidable (p ≤ q))
  | infinite negative, finite _ => inferInstanceAs (Decidable (negative = true))
  | finite _, infinite negative => inferInstanceAs (Decidable (negative = false))
  | infinite a, infinite b => inferInstanceAs (Decidable (a = true ∨ b = false))

instance : DecidableLT (Extended K) := fun x y =>
  match x, y with
  | nan, nan | nan, finite _ | nan, infinite _ | finite _, nan | infinite _, nan => isFalse id
  | finite p, finite q => inferInstanceAs (Decidable (p < q))
  | infinite negative, finite _ => inferInstanceAs (Decidable (negative = true))
  | finite _, infinite negative => inferInstanceAs (Decidable (negative = false))
  | infinite a, infinite b => inferInstanceAs (Decidable (a = true ∧ b = false))

@[simp] theorem finite_le_finite : finite p ≤ finite q ↔ p ≤ q := Iff.rfl

@[simp] theorem finite_lt_finite : finite p < finite q ↔ p < q := Iff.rfl

@[simp] theorem nan_le : ¬ nan ≤ x := by cases x <;> exact id

@[simp] theorem le_nan : ¬ x ≤ nan := by cases x <;> exact id

@[simp] theorem finite_le_infinite : finite p ≤ infinite a ↔ a = false := Iff.rfl

@[simp] theorem infinite_le_finite : infinite a ≤ finite p ↔ a = true := Iff.rfl

@[simp] theorem infinite_le_infinite : (infinite a : Extended K) ≤ infinite b ↔ a = true ∨ b = false :=
  Iff.rfl

protected theorem le_trans (h : x ≤ y) (h' : y ≤ z) : x ≤ z := by
  cases x with
  | nan => exact (nan_le h).elim
  | finite p =>
    cases y with
    | nan => exact (le_nan h).elim
    | finite q =>
      cases z with
      | nan => exact (le_nan h').elim
      | finite r => exact finite_le_finite.mpr ((finite_le_finite.mp h).trans h')
      | infinite b => exact h'
    | infinite b =>
      cases z <;> simp_all
  | infinite a =>
    cases y with
    | nan => exact (le_nan h).elim
    | finite q => cases z <;> simp_all
    | infinite b =>
      cases z with
      | nan => exact (le_nan h').elim
      | finite r => simp_all
      | infinite c => cases a <;> cases b <;> cases c <;> simp_all

theorem ne_nan_of_le (h : x ≤ y) : x ≠ nan ∧ y ≠ nan := by
  constructor
  · rintro rfl
    exact nan_le h
  · rintro rfl
    exact le_nan h

theorem neg_infinite_le (h : x ≠ nan) : infinite true ≤ x := by
  cases x with
  | nan => exact (h rfl).elim
  | finite p => rfl
  | infinite a => exact .inl rfl

theorem le_infinite (h : x ≠ nan) : x ≤ infinite false := by
  cases x with
  | nan => exact (h rfl).elim
  | finite p => rfl
  | infinite a => exact .inr rfl

theorem le_cases (h : x ≤ y) : (∃ p q, x = finite p ∧ y = finite q ∧ p ≤ q) ∨ x = infinite true ∨
    y = infinite false := by
  cases x with
  | nan => exact (nan_le h).elim
  | finite p =>
    cases y with
    | nan => exact (le_nan h).elim
    | finite q => exact .inl ⟨p, q, rfl, rfl, h⟩
    | infinite b => exact .inr (.inr (congrArg infinite h))
  | infinite a =>
    cases y with
    | nan => exact (le_nan h).elim
    | finite q => exact .inr (.inl (congrArg infinite h))
    | infinite b => exact .inr (h.imp (congrArg infinite) (congrArg infinite))

theorem between (h : finite p ≤ x) (h' : x ≤ finite q) : ∃ r, x = finite r ∧ p ≤ r ∧ r ≤ q := by
  cases x with
  | nan => exact (nan_le h').elim
  | finite r => exact ⟨r, rfl, h, h'⟩
  | infinite a =>
    have hboth : a = false := finite_le_infinite.mp h
    rw [infinite_le_finite.mp h'] at hboth
    cases hboth

/-- Numbers and infinities compare by their rank. -/
theorem lt_iff_rank (hx : x ≠ nan) (hy : y ≠ nan) : x < y ↔ x.rank < y.rank := by
  cases x with
  | nan => exact (hx rfl).elim
  | finite p =>
    cases y with
    | nan => exact (hy rfl).elim
    | finite q => simp [rank]
    | infinite b =>
      change b = false ↔ _
      cases b with
      | true => simp [rank]
      | false => exact iff_of_true rfl (WithBot.coe_lt_coe.mpr (WithTop.coe_lt_top p))
  | infinite a =>
    cases y with
    | nan => exact (hy rfl).elim
    | finite q =>
      change a = true ↔ _
      cases a <;> simp [rank]
    | infinite b =>
      change a = true ∧ b = false ↔ _
      cases a <;> cases b <;> simp [rank]

theorem le_iff_rank (hx : x ≠ nan) (hy : y ≠ nan) : x ≤ y ↔ x.rank ≤ y.rank := by
  cases x with
  | nan => exact (hx rfl).elim
  | finite p =>
    cases y with
    | nan => exact (hy rfl).elim
    | finite q => simp [rank]
    | infinite b =>
      change b = false ↔ _
      cases b <;> simp [rank]
  | infinite a =>
    cases y with
    | nan => exact (hy rfl).elim
    | finite q =>
      change a = true ↔ _
      cases a <;> simp [rank]
    | infinite b =>
      change a = true ∨ b = false ↔ _
      cases a <;> cases b <;> simp [rank]

protected theorem not_lt (h : x ≤ y) : ¬ y < x := by
  obtain ⟨hx, hy⟩ := ne_nan_of_le h
  rw [lt_iff_rank hy hx, not_lt]
  exact (le_iff_rank hx hy).mp h

theorem not_le_iff (hx : x ≠ nan) (hy : y ≠ nan) : ¬ x ≤ y ↔ y < x := by
  rw [le_iff_rank hx hy, lt_iff_rank hy hx, not_le]

end Order

section Sums

variable [Field K] {x y : Extended K} {p q : K} {a b : Bool} {xs : List (Extended K)}

theorem zero_eq : (0 : Extended K) = finite 0 := rfl

theorem one_eq : (1 : Extended K) = finite 1 := rfl

@[simp] theorem zero_lt_finite [LinearOrder K] : 0 < finite p ↔ 0 < p := Iff.rfl

@[simp] theorem finite_lt_one [LinearOrder K] : finite p < 1 ↔ p < 1 := Iff.rfl

@[simp] theorem finite_add : finite p + finite q = finite (p + q) := rfl

@[simp] theorem infinite_add : infinite a + finite q = infinite a := rfl

@[simp] theorem add_infinite : finite p + infinite b = infinite b := rfl

@[simp] theorem infinite_add_infinite :
    (infinite a + infinite b : Extended K) = if a = b then infinite a else nan := rfl

@[simp] theorem nan_add : nan + x = nan := by cases x <;> rfl

@[simp] theorem add_nan : x + nan = nan := by cases x <;> rfl

theorem sum_finite (xs : List K) : (xs.map finite).sum = finite xs.sum := by
  induction xs with
  | nil => rfl
  | cons x xs ih => rw [List.map_cons, List.sum_cons, List.sum_cons, ih, finite_add]

theorem add_eq_finite (h : x + y = finite p) : ∃ q r, x = finite q ∧ y = finite r := by
  cases x with
  | nan => simp at h
  | finite q =>
    cases y with
    | finite r => exact ⟨q, r, rfl, rfl⟩
    | _ => simp at h
  | infinite a =>
    cases y with
    | infinite b =>
      rw [infinite_add_infinite] at h
      split at h <;> cases h
    | _ => simp at h

theorem sum_eq_finite (h : xs.sum = finite p) : ∃ ys : List K, xs = ys.map finite := by
  induction xs generalizing p with
  | nil => exact ⟨[], rfl⟩
  | cons x xs ih =>
    rw [List.sum_cons] at h
    obtain ⟨q, r, rfl, hrest⟩ := add_eq_finite h
    obtain ⟨ys, rfl⟩ := ih hrest
    exact ⟨q :: ys, rfl⟩

theorem add_ne_nan (h : x + y ≠ nan) : x ≠ nan ∧ y ≠ nan := by
  constructor
  · rintro rfl
    exact h nan_add
  · rintro rfl
    exact h add_nan

/-- An infinity outweighs what is added to it, unless there is no sum. -/
theorem infinite_add_of_ne (h : infinite a + x ≠ nan) : infinite a + x = infinite a := by
  cases x with
  | nan => exact (h add_nan).elim
  | finite p => rfl
  | infinite b =>
    rw [infinite_add_infinite] at h ⊢
    split at h
    · next heq => rw [if_pos heq]
    · exact (h rfl).elim

end Sums

section Products

variable [Field K] [LinearOrder K] {x y z t : Extended K} {p q : K} {a b : Bool}

@[simp] theorem finite_mul : finite p * finite q = finite (p * q) := rfl

@[simp] theorem infinite_mul : infinite a * finite q = scaled a q := rfl

@[simp] theorem mul_infinite : finite p * infinite b = scaled b p := rfl

@[simp] theorem infinite_mul_infinite :
    (infinite a * infinite b : Extended K) = infinite (a ^^ b) := rfl

@[simp] theorem nan_mul : nan * x = nan := by cases x <;> rfl

@[simp] theorem mul_nan : x * nan = nan := by cases x <;> rfl

theorem scaled_ne_finite : scaled a q ≠ finite p := by
  unfold scaled
  split <;> exact nofun

theorem mul_eq_finite (h : x * y = finite p) : ∃ q r, x = finite q ∧ y = finite r := by
  cases x with
  | nan => simp at h
  | finite q =>
    cases y with
    | finite r => exact ⟨q, r, rfl, rfl⟩
    | nan => simp at h
    | infinite b => exact (scaled_ne_finite h).elim
  | infinite a =>
    cases y with
    | finite r => exact (scaled_ne_finite h).elim
    | _ => simp at h

theorem zero_le_zero : (0 : Extended K) ≤ 0 := le_refl (0 : K)

theorem not_le_zero (h : ¬ x ≤ 0) : (∃ p, 0 < p ∧ x = finite p) ∨ x = infinite false ∨ x = nan := by
  cases x with
  | nan => exact .inr (.inr rfl)
  | finite p => exact .inl ⟨p, not_le.mp h, rfl⟩
  | infinite a => exact .inr (.inl (congrArg infinite (Bool.not_eq_true _ ▸ h)))

theorem scaled_of_pos (h : 0 < p) : scaled a p = infinite a := by
  rw [scaled, if_neg h.ne', decide_eq_false h.le.not_gt, Bool.xor_false]

theorem div_ne_nan (h : x / t ≠ nan) : x ≠ nan := by
  rintro rfl
  cases t <;> exact h rfl

variable [IsStrictOrderedRing K]

protected theorem add_le_add (h : x ≤ y) (h' : z ≤ t) (hn : x + z ≠ nan) (hn' : y + t ≠ nan) :
    x + z ≤ y + t := by
  rcases le_cases h with ⟨p, q, rfl, rfl, hpq⟩ | rfl | rfl
  · rcases le_cases h' with ⟨p', q', rfl, rfl, hpq'⟩ | rfl | rfl
    · exact add_le_add hpq hpq'
    · exact neg_infinite_le hn'
    · exact le_infinite hn
  · rw [infinite_add_of_ne hn]
    exact neg_infinite_le hn'
  · rw [infinite_add_of_ne hn']
    exact le_infinite hn

protected theorem mul_le_mul (h : x ≤ y) (ht : ¬ t ≤ 0) (hn : x * t ≠ nan) (hn' : y * t ≠ nan) :
    x * t ≤ y * t := by
  rcases not_le_zero ht with ⟨r, hr, rfl⟩ | rfl | rfl
  · rcases le_cases h with ⟨p, q, rfl, rfl, hpq⟩ | rfl | rfl
    · exact mul_le_mul_of_nonneg_right hpq hr.le
    · rw [infinite_mul, scaled_of_pos hr]
      exact neg_infinite_le hn'
    · rw [infinite_mul, scaled_of_pos hr]
      exact le_infinite hn
  · rcases le_cases h with ⟨p, q, rfl, rfl, hpq⟩ | rfl | rfl
    · simp only [mul_infinite, scaled] at hn hn' ⊢
      split at hn
      · exact (hn rfl).elim
      · split at hn'
        · exact (hn' rfl).elim
        · next hp hq =>
          rw [if_neg hp, if_neg hq, Bool.false_xor, Bool.false_xor, infinite_le_infinite,
            decide_eq_true_eq, decide_eq_false_iff_not, not_lt]
          exact (lt_or_ge p 0).imp id fun hp => hp.trans hpq
    · exact neg_infinite_le hn'
    · exact le_infinite hn
  · exact (hn mul_nan).elim

protected theorem div_le_div (h : x ≤ y) (ht : ¬ t ≤ 0) (hn : x / t ≠ nan) (hn' : y / t ≠ nan) :
    x / t ≤ y / t := by
  rcases not_le_zero ht with ⟨r, hr, rfl⟩ | rfl | rfl
  · have hscaled : ∀ c : Bool, (infinite c / finite r : Extended K) = infinite c := fun c => scaled_of_pos hr
    rcases le_cases h with ⟨p, q, rfl, rfl, hpq⟩ | rfl | rfl
    · exact div_le_div_of_nonneg_right hpq hr.le
    · rw [hscaled]
      exact neg_infinite_le hn'
    · rw [hscaled]
      exact le_infinite hn
  · -- only numbers can be divided by an infinity
    cases x with
    | finite p =>
      cases y with
      | finite q => exact le_rfl (a := (0 : K))
      | _ => exact (hn' rfl).elim
    | _ => exact (hn rfl).elim
  · cases x <;> exact (hn rfl).elim

end Products

section Scores

variable [Field K] [LinearOrder K] {rows rows' : List (Extended K × Extended K)} {x y : Extended K} {p : K}

/-- The mean of components, each with its weight; nothing has the mean zero. -/
def mean (rows : List (Extended K × Extended K)) : Extended K :=
  if (rows.map Prod.snd).sum = 0 then 0
  else (rows.map fun r => r.1 * r.2).sum / (rows.map Prod.snd).sum

/-- Rows of numbers. -/
def lift (rows : List (K × K)) : List (Extended K × Extended K) := rows.map fun r => (finite r.1, finite r.2)

omit [LinearOrder K] in
theorem sum_lift_snd (rows : List (K × K)) :
    ((lift rows).map Prod.snd).sum = finite (rows.map Prod.snd).sum := by
  rw [← sum_finite, lift, List.map_map, List.map_map]
  rfl

omit [LinearOrder K] [Field K] in
theorem lift_injective : Function.Injective (lift (K := K)) :=
  List.map_injective_iff.mpr fun _ _ h =>
    Prod.ext (finite.inj (Prod.mk.inj h).1) (finite.inj (Prod.mk.inj h).2)

theorem sum_lift_mul (rows : List (K × K)) : ((lift rows).map fun r => r.1 * r.2).sum =
    finite (rows.map fun r => r.1 * r.2).sum := by
  rw [← sum_finite, lift, List.map_map, List.map_map]
  rfl

theorem mean_lift (rows : List (K × K)) : mean (lift rows) = finite (Scoring.weightedMean rows) := by
  unfold mean Scoring.weightedMean
  rw [sum_lift_snd, sum_lift_mul]
  by_cases hzero : (rows.map Prod.snd).sum = 0
  · rw [hzero, div_zero]
    exact if_pos rfl
  · exact if_neg fun h => hzero (finite.inj h)

theorem div_eq_finite (h : x / y = finite p) : ∃ q, x = finite q := by
  cases x with
  | finite q => exact ⟨q, rfl⟩
  | nan => cases y <;> cases h
  | infinite a =>
    cases y with
    | finite q => exact (scaled_ne_finite h).elim
    | _ => cases h

omit [LinearOrder K] in
theorem eq_lift (h : ∀ r ∈ rows, ∃ q q', r.1 = finite q ∧ r.2 = finite q') : ∃ rows', rows = lift rows' := by
  refine ⟨rows.map fun r => (r.1.number, r.2.number), ?_⟩
  rw [lift, List.map_map]
  refine (List.map_id rows).symm.trans (List.map_congr_left fun r hr => ?_)
  obtain ⟨q, q', hq, hq'⟩ := h r hr
  exact Prod.ext (by simp [hq, number]) (by simp [hq', number])

omit [LinearOrder K] [Field K] in
theorem mem_lift {rows : List (K × K)} {r : Extended K × Extended K} (h : r ∈ lift rows) :
    ∃ q q', r.1 = finite q ∧ r.2 = finite q' := by
  obtain ⟨⟨q, q'⟩, -, rfl⟩ := List.mem_map.mp h
  exact ⟨q, q', rfl, rfl⟩

theorem lift_of_sum (h : (rows.map fun r => r.1 * r.2).sum = finite p) : ∃ rows', rows = lift rows' := by
  obtain ⟨ys, hys⟩ := sum_eq_finite h
  refine eq_lift fun r hr => ?_
  have hmem : r.1 * r.2 ∈ ys.map finite := hys ▸ List.mem_map_of_mem hr
  obtain ⟨y, -, hy⟩ := List.mem_map.mp hmem
  exact mul_eq_finite hy.symm

variable [IsStrictOrderedRing K]

/-- Weights above zero add up to zero where there are none. -/
theorem sum_weights (h : ∀ r ∈ rows, ¬ r.2 ≤ 0) : rows = [] ∨ ¬ (rows.map Prod.snd).sum ≤ 0 := by
  induction rows with
  | nil => exact .inl rfl
  | cons r rows ih =>
    rw [List.forall_mem_cons] at h
    refine .inr ?_
    rw [List.map_cons, List.sum_cons]
    rcases ih h.2 with rfl | hrest
    · rw [List.map_nil, List.sum_nil]
      rcases not_le_zero h.1 with ⟨q, hq, hr⟩ | hr | hr
      · rw [hr, zero_eq, finite_add, add_zero]
        exact not_le.mpr hq
      · rw [hr]
        exact Bool.false_ne_true
      · rw [hr, nan_add]
        exact nan_le
    · rcases not_le_zero h.1 with ⟨q, hq, hr⟩ | hr | hr
      · rw [hr]
        rcases not_le_zero hrest with ⟨q', hq', hr'⟩ | hr' | hr'
        · rw [hr', finite_add]
          exact not_le.mpr (add_pos hq hq')
        · rw [hr']
          exact Bool.false_ne_true
        · rw [hr', add_nan]
          exact nan_le
      · rw [hr]
        rcases not_le_zero hrest with ⟨q', hq', hr'⟩ | hr' | hr'
        · rw [hr']
          exact Bool.false_ne_true
        · rw [hr']
          exact Bool.false_ne_true
        · rw [hr', add_nan]
          exact nan_le
      · rw [hr, nan_add]
        exact nan_le

/-- A mean by weights above zero is a number only where all components and weights are. -/
theorem mean_eq_finite (hpos : ∀ r ∈ rows, ¬ r.2 ≤ 0) (h : mean rows = finite p) :
    ∃ rows', rows = lift rows' ∧ Scoring.weightedMean rows' = p := by
  have hlifted : ∃ rows', rows = lift rows' := by
    rcases sum_weights hpos with rfl | htotal
    · exact ⟨[], rfl⟩
    · unfold mean at h
      have hzero : ¬ (rows.map Prod.snd).sum = 0 := fun hzero => htotal (hzero.symm ▸ zero_le_zero)
      rw [if_neg hzero] at h
      obtain ⟨q, hq⟩ := div_eq_finite h
      exact lift_of_sum hq
  obtain ⟨rows', rfl⟩ := hlifted
  rw [mean_lift] at h
  exact ⟨rows', rfl, finite.inj h⟩

/-- What is no smaller one by one has no smaller sum, if there are sums. -/
theorem sum_le_sum {xs ys : List (Extended K)} (h : List.Forall₂ (fun x y => x ≠ nan → y ≠ nan → x ≤ y) xs ys)
    (hn : xs.sum ≠ nan) (hn' : ys.sum ≠ nan) : xs.sum ≤ ys.sum := by
  induction h with
  | nil => exact zero_le_zero
  | cons hr _ ih =>
    rw [List.sum_cons] at hn hn' ⊢
    rw [List.sum_cons]
    obtain ⟨hfirst, hrest⟩ := add_ne_nan hn
    obtain ⟨hfirst', hrest'⟩ := add_ne_nan hn'
    exact Extended.add_le_add (hr hfirst hfirst') (ih hrest hrest') hn hn'

/-- Larger components have no smaller mean, unless one of them is none. -/
theorem mean_mono (h : List.Forall₂ (fun r r' : Extended K × Extended K => r.1 ≤ r'.1 ∧ r.2 = r'.2 ∧
    ¬ r.2 ≤ 0) rows rows') (hn : mean rows ≠ nan) (hn' : mean rows' ≠ nan) : mean rows ≤ mean rows' := by
  have hweights : rows.map Prod.snd = rows'.map Prod.snd := by
    clear hn hn'
    induction h with
    | nil => rfl
    | cons hr _ ih => rw [List.map_cons, List.map_cons, hr.2.1, ih]
  have hpos : ∀ r ∈ rows, ¬ r.2 ≤ 0 := by
    clear hn hn' hweights
    induction h with
    | nil => exact List.forall_mem_nil _
    | cons hr _ ih => exact List.forall_mem_cons.mpr ⟨hr.2.2, ih⟩
  have hproducts : List.Forall₂ (fun x y : Extended K => x ≠ nan → y ≠ nan → x ≤ y)
      (rows.map fun r => r.1 * r.2) (rows'.map fun r => r.1 * r.2) := by
    refine List.forall₂_map_left_iff.mpr (List.forall₂_map_right_iff.mpr (h.imp ?_))
    rintro ⟨c, w⟩ ⟨c', w'⟩ ⟨hle, rfl, hw⟩
    exact Extended.mul_le_mul hle hw
  unfold mean at hn hn' ⊢
  rw [← hweights] at hn' ⊢
  rcases sum_weights hpos with rfl | htotal
  · cases h
    rw [List.map_nil, List.sum_nil, if_pos rfl]
    exact zero_le_zero
  · have hzero : ¬ (rows.map Prod.snd).sum = 0 := fun hzero => htotal (hzero.symm ▸ zero_le_zero)
    rw [if_neg hzero] at hn hn' ⊢
    rw [if_neg hzero]
    exact Extended.div_le_div (sum_le_sum hproducts (div_ne_nan hn) (div_ne_nan hn')) htotal hn hn'

end Scores

section Maps

variable {x y : Extended K} {x' y' : Extended L} {f : K → L}

theorem map_le_map [LinearOrder K] [LinearOrder L] (hf : ∀ p q, p ≤ q → f p ≤ f q) (h : x ≤ y) :
    x.map f ≤ y.map f := by
  rcases le_cases h with ⟨p, q, rfl, rfl, hpq⟩ | rfl | rfl
  · exact hf p q hpq
  · cases y with
    | nan => exact (le_nan h).elim
    | finite q => rfl
    | infinite b => exact .inl rfl
  · cases x with
    | nan => exact (nan_le h).elim
    | finite p => rfl
    | infinite a => exact .inr rfl

/-- Two that are both numbers, the same infinity or both none. -/
def Alike : Extended K → Extended L → Prop
  | finite _, finite _ => True
  | infinite a, infinite b => a = b
  | nan, nan => True
  | _, _ => False

theorem alike_map (x : Extended K) : Alike (x.map f) x := by
  cases x <;> trivial

theorem Alike.nan_iff (h : Alike x x') : x = nan ↔ x' = nan := by
  cases x <;> cases x' <;> first | exact h.elim | simp

variable [Field K] [Field L]

theorem Alike.add (h : Alike x x') (h' : Alike y y') : Alike (x + y) (x' + y') := by
  cases x <;> cases x' <;> first
    | exact h.elim
    | (cases y <;> cases y' <;> first
        | exact h'.elim
        | trivial
        | exact h
        | exact h'
        | (obtain rfl : _ = _ := h
           obtain rfl : _ = _ := h'
           rw [infinite_add_infinite, infinite_add_infinite]
           split <;> trivial))

theorem Alike.sum {α : Type*} {f : α → Extended K} {g : α → Extended L} {rows : List α}
    (h : ∀ r ∈ rows, Alike (f r) (g r)) : Alike (rows.map f).sum (rows.map g).sum := by
  induction rows with
  | nil => trivial
  | cons r rows ih =>
    rw [List.forall_mem_cons] at h
    rw [List.map_cons, List.map_cons, List.sum_cons, List.sum_cons]
    exact h.1.add (ih h.2)

omit [Field L] in
theorem Alike.finite_add (p : K) (h : Alike x x') : Alike (finite p + x) x' := by
  cases x <;> cases x' <;> first | exact h.elim | exact h

end Maps

section Odds

variable [Field K] [LinearOrder K] {exp : K → K} {x y : Extended K} {d g p : K}

theorem shift_scaled (hg : 0 < g) (x : Extended K) : finite d + x * finite g = x.map fun c => d + c * g := by
  cases x with
  | finite c => rfl
  | nan => rfl
  | infinite a =>
    rw [infinite_mul, scaled_of_pos hg]
    rfl

/-- What a component adds to the log-odds of a match. -/
def logLikelihood (log : K → K) (m u : K) (c : Extended K) : Extended K :=
  finite (log ((1 - m) / (1 - u))) + c * finite (log (m / u) - log ((1 - m) / (1 - u)))

/-- Where agreement counts, an infinite component is one of the log-odds. -/
theorem logLikelihood_eq {log : K → K} {m u : K} (h : log ((1 - m) / (1 - u)) < log (m / u))
    [IsStrictOrderedRing K] (c : Extended K) :
    logLikelihood log m u c = c.map (Scoring.logLikelihood log m u) :=
  shift_scaled (sub_pos.mpr h) c

/-- The probability that has these log-odds. -/
def posterior (exp : K → K) : Extended K → Extended K
  | finite x => finite (Scoring.posterior exp x)
  | infinite negative => finite (if negative then 0 else 1)
  | nan => nan

/-- The exponential function, unless it overflows. -/
def expOf (exp : K → Option K) : Extended K → Option (Extended K)
  | finite x => (exp x).map finite
  | infinite negative => some (if negative then 0 else infinite false)
  | nan => some nan

theorem posterior_eq (exp : K → K) (x : Extended K) :
    (expOf (fun p => some (exp p)) (-x)).map (fun inverse => 1 / (1 + inverse)) = some (posterior exp x) := by
  cases x with
  | finite p => rfl
  | nan => rfl
  | infinite a =>
    cases a with
    | true => rfl
    | false =>
      change some (finite (1 / (1 + 0))) = some (finite 1)
      rw [add_zero, div_one]

variable [IsStrictOrderedRing K]

theorem posterior_mono (hexp : ∀ p q, p ≤ q → exp p ≤ exp q) (hpos : ∀ p, 0 ≤ exp p) (h : x ≤ y) :
    posterior exp x ≤ posterior exp y := by
  have hone : ∀ z : Extended K, z ≠ nan → posterior exp z ≤ finite 1 ∧ finite 0 ≤ posterior exp z := by
    intro z hz
    cases z with
    | nan => exact (hz rfl).elim
    | finite p => exact ⟨Scoring.posterior_le_one hpos, Scoring.posterior_nonneg hpos⟩
    | infinite a => cases a with
      | true => exact ⟨zero_le_one (α := K), le_refl (0 : K)⟩
      | false => exact ⟨le_refl (1 : K), zero_le_one (α := K)⟩
  rcases le_cases h with ⟨p, q, rfl, rfl, hpq⟩ | rfl | rfl
  · exact Scoring.posterior_mono hexp hpos hpq
  · exact (hone y (ne_nan_of_le h).2).2
  · exact (hone x (ne_nan_of_le h).1).1

/-- The posterior is between zero and one, if there is one. -/
theorem posterior_bounds (hpos : ∀ p, 0 ≤ exp p) (h : x ≠ nan) :
    ∃ p, posterior exp x = finite p ∧ 0 ≤ p ∧ p ≤ 1 := by
  cases x with
  | nan => exact (h rfl).elim
  | finite p => exact ⟨_, rfl, Scoring.posterior_nonneg hpos, Scoring.posterior_le_one hpos⟩
  | infinite a => cases a with
    | true => exact ⟨0, rfl, le_rfl, zero_le_one⟩
    | false => exact ⟨1, rfl, zero_le_one, le_rfl⟩

end Odds

end Extended
