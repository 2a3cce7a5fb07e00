import Recordlane.Scores
import Recordlane.Library.Floating
import Mathlib.Tactic.IntervalCases

/-! Agreement probabilities fitted to labelled pairs, and the policies that take them. -/
namespace Recordlane

variable {rt : Runtime} {pairs comparisons fitted : List Dict}
  {comparison rule base matching : Dict} {prior : ℚ}

section Fit

variable (rt)

/-- `_agreement`. -/
def agreement (left right comparator : Json) : Py Bool :=
  if left.blank || right.blank then .ok false
  else if comparator.pyEq (.str "exact") then .ok (left.pyEq right)
  else if comparator.pyEq (.str "sequence_ratio") then
    .ok (decide (17 / 20 ≤ rt.sequenceRatio (rt.strOf left) (rt.strOf right)))
  else .error (.python ("ValueError: unsupported comparator: " ++ rt.strOf comparator))

/-- `row[side].get(field)`. -/
def sideOf (row : Dict) (side : String) (field : Json) : Py Json := do
  let some values := row.get? side | throw (.python "KeyError")
  Json.lookup (← values.asDict) field

/-- How many rows agree on a field. -/
def agreeing (rows : List Dict) (field comparator : Json) : Py Nat := do
  let found ← rows.mapM fun row => do
    agreement rt (← sideOf row "left" field) (← sideOf row "right" field) comparator
  return found.count true

/-- The rows with this label. -/
def labelled (label : Bool) : List Dict → Py (List Dict)
  | [] => .ok []
  | row :: rows => do
    let some mark := row.get? "is_match" | throw (.python "KeyError")
    let rest ← labelled label rows
    return if mark.truthy = label then row :: rest else rest

/-- A number as a float, and an exact result as an operation on floats returns it. -/
def asFloat (q : ℚ) : ℚ := Floating.binary64.round q

/-- `count + amount` for a float. -/
def smoothed (count : Nat) (amount : ℚ) : ℚ := asFloat (asFloat count + amount)

def quotient (p q : ℚ) : Py ℚ :=
  if q = 0 then .error (.python "ZeroDivisionError") else .ok (asFloat (p / q))

def withProbabilities (comparison : Dict) (m u : ℚ) : Dict :=
  (comparison.set "m_probability" (.float (asFloat (roundHalfEven m 6)))).set "u_probability"
      (.float (asFloat (roundHalfEven u 6)))

-- the float next to 147/640 is below the middle that the fraction is
example : asFloat (roundHalfEven (asFloat (147 / 640)) 6) = asFloat (229687 / 1000000) := by decide +kernel

def fitComparison (matched nonmatched : List Dict) (smoothing : ℚ) (comparison : Dict) : Py Dict := do
  let some field := comparison.get? "field" | throw (.python "KeyError")
  let some comparator := comparison.get? "comparator" | throw (.python "KeyError")
  let mAgree ← agreeing rt matched field comparator
  let uAgree ← agreeing rt nonmatched field comparator
  let m ← quotient (smoothed mAgree smoothing) (smoothed matched.length (asFloat (2 * smoothing)))
  let u ← quotient (smoothed uAgree smoothing) (smoothed nonmatched.length (asFloat (2 * smoothing)))
  if m ≤ u then
    throw (.python ("ValueError: field " ++ rt.strOf field ++
        " does not discriminate matches from non-matches"))
  return withProbabilities comparison m u

/-- `fit_parameters`. -/
def fitParameters (pairs comparisons : List Dict) (smoothing : ℚ) : Py (List Dict) := do
  let matched ← labelled true pairs
  let nonmatched ← labelled false pairs
  if matched.isEmpty || nonmatched.isEmpty then
    throw (.python "ValueError: training requires both matched and non-matched labeled pairs")
  comparisons.mapM (fitComparison rt matched nonmatched smoothing)

end Fit

/-- The settings with a matching section of this algorithm, prior and comparisons. -/
def withMatching (base matching : Dict) (algorithm : String) (prior : ℚ) (comparisons : List Dict) : Dict :=
  base.set "matching" (.obj (((matching.set "algorithm" (.str algorithm)).set "prior_match_probability"
    (.float prior)).set "comparisons" (.arr (comparisons.map .obj))))

/-! When the rounded probabilities stay apart. -/

/-- The middle between `j` millionths and the next one. -/
def middle (j : Nat) : ℚ := (2 * j + 1) / 2000000

def middleQuantum (j : Nat) : Int := Floating.binary64.quantum (middle j)

/-- The mantissa of the last float that rounds to at most `j` millionths; the middle goes to the even one. -/
def lastMantissa (j : Nat) : Int :=
  if j % 2 = 0 then ⌊middle j / 2 ^ middleQuantum j⌋ else ⌈middle j / 2 ^ middleQuantum j⌉ - 1

/-- A fraction does not pass the middle between that float and the next one, which goes to the even
mantissa. -/
def AtMost (j : Nat) (x : ℚ) : Prop :=
  if lastMantissa j % 2 = 0 then x ≤ (lastMantissa j + 1 / 2) * 2 ^ middleQuantum j
  else x < (lastMantissa j + 1 / 2) * 2 ^ middleQuantum j

/-- The greater fraction stays below one, the smaller above zero, and they lie on two sides of some
millionth. -/
structure StayApart (x y : ℚ) : Prop where
  positive : ¬ AtMost 0 y
  separated : ∃ j, AtMost j y ∧ ¬ AtMost j x
  proper : AtMost 999999 x

/-- The smoothed counts of a comparison stay apart. -/
def Separable (rt : Runtime) (pairs : List Dict) (comparison : Dict) : Prop :=
  ∃ matched nonmatched m u, labelled true pairs = .ok matched ∧ labelled false pairs = .ok nonmatched ∧
    agreeing rt matched (comparison.get "field") (comparison.get "comparator") = .ok m ∧
    agreeing rt nonmatched (comparison.get "field") (comparison.get "comparator") = .ok u ∧
    StayApart (smoothed m 1 / smoothed matched.length 2) (smoothed u 1 / smoothed nonmatched.length 2)

theorem asFloat_nonneg {x : ℚ} (h : 0 ≤ x) : 0 ≤ asFloat x := Floating.Format.round_nonneg h

theorem asFloat_mono {x y : ℚ} (hx : 0 ≤ x) (h : x ≤ y) : asFloat x ≤ asFloat y :=
  Floating.Format.round_mono hx h

theorem asFloat_le_one {x : ℚ} (hx : 0 ≤ x) (h : x ≤ 1) : asFloat x ≤ 1 := by
  rcases hx.eq_or_lt with rfl | hx
  · exact (Floating.Format.round_zero).trans_le zero_le_one
  · exact Floating.Format.round_le_two_zpow (n := 0) hx h (by decide)

/-- The middle above an odd number of millionths is no power of two. -/
theorem middle_ne_two_zpow {j : Nat} (hj : j % 2 = 1) (t : Int) : middle j ≠ 2 ^ t := by
  intro h
  rw [middle, div_eq_iff (by norm_num)] at h
  rcases Int.le_total 0 t with ht | ht
  · obtain ⟨m, rfl⟩ := Int.eq_ofNat_of_zero_le ht
    have hnat : 2 * j + 1 = 2 ^ m * 2000000 := by exact_mod_cast h
    omega
  · obtain ⟨m, hm⟩ := Int.eq_ofNat_of_zero_le (neg_nonneg.mpr ht)
    obtain rfl : t = -m := by omega
    rw [zpow_neg, zpow_natCast, inv_mul_eq_div, eq_div_iff (by positivity)] at h
    have hnat : (2 * j + 1) * 2 ^ m = 2000000 := by exact_mod_cast h
    have hm : m ≤ 20 := by
      by_contra hlarge
      have hpow : 2 ^ 21 ≤ 2 ^ m := Nat.pow_le_pow_right two_pos (by omega)
      have hmul : 2 ^ m ≤ (2 * j + 1) * 2 ^ m := Nat.le_mul_of_pos_left _ (by omega)
      rw [hnat] at hmul
      exact absurd (hpow.trans hmul) (by decide)
    interval_cases m <;> omega

/-- The middle as a mantissa: it is a normal one. -/
theorem middle_scaled (j : Nat) : Floating.binary64.etiny ≤ middleQuantum j ∧
    (2 : ℚ) ^ 52 ≤ middle j / 2 ^ middleQuantum j ∧ middle j / 2 ^ middleQuantum j < 2 ^ 53 := by
  have hpos : 0 < middle j := by
    unfold middle
    positivity
  have hlog : (-21 : Int) ≤ Int.log 2 (middle j) := by
    rw [Floating.Format.le_log_iff hpos, middle, le_div_iff₀ (by norm_num)]
    have hj : (0 : ℚ) ≤ j := Nat.cast_nonneg j
    norm_num
    linarith
  have hquantum : middleQuantum j = Int.log 2 (middle j) - 52 := by
    have hprecision : (Floating.binary64.precision : Int) = 53 := rfl
    have hetiny : Floating.binary64.etiny = -1074 := rfl
    rw [middleQuantum, Floating.Format.quantum_of_pos hpos, hprecision, hetiny]
    omega
  have hetiny : Floating.binary64.etiny = -1074 := rfl
  have hstep := Floating.Format.two_zpow_pos (middleQuantum j)
  refine ⟨by omega, ?_, ?_⟩
  · rw [le_div_iff₀ hstep, ← zpow_natCast, ← zpow_add₀ two_ne_zero, ← Floating.Format.le_log_iff hpos]
    omega
  · rw [div_lt_iff₀ hstep, ← zpow_natCast, ← zpow_add₀ two_ne_zero, ← Floating.Format.log_lt_iff hpos]
    omega

theorem lastMantissa_bounds (j : Nat) : 2 ^ 52 ≤ lastMantissa j ∧ lastMantissa j < 2 ^ 53 := by
  obtain ⟨-, hlow, hhigh⟩ := middle_scaled j
  unfold lastMantissa
  split
  · exact ⟨Int.le_floor.mpr (by exact_mod_cast hlow), Int.floor_lt.mpr (by exact_mod_cast hhigh)⟩
  · next hodd =>
    have hne : middle j / 2 ^ middleQuantum j ≠ 2 ^ 52 := by
      intro h
      rw [div_eq_iff (Floating.Format.two_zpow_pos _).ne', ← zpow_natCast, ← zpow_add₀ two_ne_zero] at h
      exact middle_ne_two_zpow (by omega) _ h
    have hbelow : (2 : Int) ^ 52 < ⌈middle j / 2 ^ middleQuantum j⌉ :=
      Int.lt_ceil.mpr (by exact_mod_cast lt_of_le_of_ne hlow (Ne.symm hne))
    have habove : ⌈middle j / 2 ^ middleQuantum j⌉ ≤ 2 ^ 53 := Int.ceil_le.mpr (by exact_mod_cast hhigh.le)
    omega

theorem atMost_iff {j : Nat} {x : ℚ} (hx : 0 ≤ x) :
    AtMost j x ↔ Scoring.nearest (asFloat x * 10 ^ 6) ≤ (j : Int) := by
  obtain ⟨hetiny, -, -⟩ := middle_scaled j
  obtain ⟨hlow, hhigh⟩ := lastMantissa_bounds j
  have hstep := Floating.Format.two_zpow_pos (middleQuantum j)
  have hedge : AtMost j x ↔ asFloat x ≤ lastMantissa j * 2 ^ middleQuantum j :=
    (Floating.Format.round_le_iff hx hetiny hlow hhigh).symm
  have hgap := Floating.Format.round_gap hx hetiny hlow hhigh
  have hmiddle : (j : ℚ) + 1 / 2 = middle j * 10 ^ 6 := by
    unfold middle
    ring
  have hparity : (j : Int) % 2 = 0 ↔ j % 2 = 0 := by omega
  rw [hedge, Scoring.nearest_le_iff, Int.cast_natCast, hmiddle, mul_le_mul_iff_left₀ (by norm_num),
    mul_lt_mul_iff_left₀ (by norm_num)]
  simp only [hparity]
  by_cases hj : j % 2 = 0
  · have hlast : lastMantissa j = ⌊middle j / 2 ^ middleQuantum j⌋ := if_pos hj
    have hfloor : lastMantissa j * 2 ^ middleQuantum j ≤ middle j := by
      rw [hlast, ← le_div_iff₀ hstep]
      exact Int.floor_le _
    have hnext : middle j < (lastMantissa j + 1) * 2 ^ middleQuantum j := by
      rw [hlast, ← div_lt_iff₀ hstep]
      exact Int.lt_floor_add_one _
    rw [if_pos hj]
    rcases hgap with ⟨-, h⟩ | ⟨-, h⟩
    · exact iff_of_true h (h.trans hfloor)
    · refine iff_of_false (fun hle => ?_) (not_le.mpr (hnext.trans_le h))
      linarith [h.trans hle]
  · have hlast : lastMantissa j = ⌈middle j / 2 ^ middleQuantum j⌉ - 1 := if_neg hj
    have hfloor : lastMantissa j * 2 ^ middleQuantum j < middle j := by
      rw [← lt_div_iff₀ hstep, ← Int.lt_ceil]
      omega
    have hnext : middle j ≤ (lastMantissa j + 1) * 2 ^ middleQuantum j := by
      rw [← div_le_iff₀ hstep, hlast]
      push_cast
      rw [sub_add_cancel]
      exact Int.le_ceil _
    rw [if_neg hj]
    rcases hgap with ⟨-, h⟩ | ⟨-, h⟩
    · exact iff_of_true h (lt_of_le_of_lt h hfloor)
    · refine iff_of_false (fun hle => ?_) (not_lt.mpr (hnext.trans h))
      linarith [h.trans hle]

/-- Different millionths up to one are different floats. -/
theorem asFloat_millionths_lt {i k : Int} (hi : 0 ≤ i) (hk : 0 ≤ k) (hk' : k ≤ 1000000) :
    asFloat (i / 10 ^ 6) < asFloat (k / 10 ^ 6) ↔ i < k := by
  constructor
  · intro h
    by_contra hle
    refine absurd h (not_lt.mpr (asFloat_mono (div_nonneg (Int.cast_nonneg hk) (by norm_num)) ?_))
    exact (div_le_div_iff_of_pos_right (by norm_num)).mpr (Int.cast_le.mpr (not_lt.mp hle))
  · intro h
    refine Floating.Format.round_lt_round (div_nonneg (Int.cast_nonneg hi) (by norm_num)) ?_ (by decide) ?_
    · rw [div_le_one (by norm_num)]
      exact_mod_cast hk'
    · have hone : (i : ℚ) + 1 ≤ k := by exact_mod_cast h
      have hbit : (2 : ℚ) ^ (1 - Floating.binary64.precision : Int) < 1 / 10 ^ 6 := by decide +kernel
      have hstep : (i : ℚ) / 10 ^ 6 + 1 / 10 ^ 6 ≤ k / 10 ^ 6 := by
        rw [← add_div]
        exact (div_le_div_iff_of_pos_right (by norm_num)).mpr hone
      linarith

/-- The rounded fractions lie strictly between zero and one, in their order. -/
theorem stayApart_iff {x y : ℚ} (hx : 0 ≤ x) (hx' : x ≤ 1) (hy : 0 ≤ y) (hy' : y ≤ 1) : StayApart x y ↔
    0 < asFloat (roundHalfEven (asFloat y) 6) ∧
      asFloat (roundHalfEven (asFloat y) 6) < asFloat (roundHalfEven (asFloat x) 6) ∧
      asFloat (roundHalfEven (asFloat x) 6) < 1 := by
  have hbounds {z : ℚ} (hz : 0 ≤ z) (hz' : z ≤ 1) : 0 ≤ Scoring.nearest (asFloat z * 10 ^ 6) ∧
      Scoring.nearest (asFloat z * 10 ^ 6) ≤ 1000000 := by
    have hzero := Scoring.nearest_intCast (K := ℚ) 0
    have hmillion := Scoring.nearest_intCast (K := ℚ) 1000000
    constructor
    · rw [← hzero]
      refine Scoring.nearest_mono ?_
      rw [Int.cast_zero]
      exact mul_nonneg (asFloat_nonneg hz) (by norm_num)
    · rw [← hmillion]
      refine Scoring.nearest_mono ?_
      push_cast
      linarith [asFloat_le_one hz hz']
  obtain ⟨hlowx, hhighx⟩ := hbounds hx hx'
  obtain ⟨hlowy, hhighy⟩ := hbounds hy hy'
  have hpositive : 0 < asFloat (roundHalfEven (asFloat y) 6) ↔ ¬ AtMost 0 y := by
    have h := asFloat_millionths_lt le_rfl hlowy hhighy
    have hzero : asFloat (((0 : Int) : ℚ) / 10 ^ 6) = 0 := by decide +kernel
    rw [hzero] at h
    rw [atMost_iff hy, not_le]
    exact h
  have hproper : asFloat (roundHalfEven (asFloat x) 6) < 1 ↔ AtMost 999999 x := by
    have h := asFloat_millionths_lt hlowx (k := 1000000) (by norm_num) le_rfl
    have hone : asFloat (((1000000 : Int) : ℚ) / 10 ^ 6) = 1 := by decide +kernel
    rw [hone] at h
    rw [atMost_iff hx]
    exact h.trans (Int.lt_add_one_iff (b := 999999))
  have hseparated : asFloat (roundHalfEven (asFloat y) 6) < asFloat (roundHalfEven (asFloat x) 6) ↔
      ∃ j, AtMost j y ∧ ¬ AtMost j x := by
    simp only [atMost_iff hx, atMost_iff hy, not_le]
    refine (asFloat_millionths_lt hlowy hlowx hhighx).trans ⟨fun h => ?_, ?_⟩
    · exact ⟨(Scoring.nearest (asFloat y * 10 ^ 6)).toNat, by omega, by omega⟩
    · rintro ⟨j, hle, hlt⟩
      omega
  rw [hpositive, hproper, hseparated]
  exact ⟨fun h => ⟨h.positive, h.separated, h.proper⟩, fun h => ⟨h.1, h.2.1, h.2.2⟩⟩

/-! What the compiler makes of fitted comparisons. -/

theorem withProbabilities_get? {k : String} {m u : ℚ} (hm : k ≠ "m_probability") (hu : k ≠ "u_probability") :
    (withProbabilities comparison m u).get? k = comparison.get? k := by
  rw [withProbabilities, Dict.get?_set_of_ne hu, Dict.get?_set_of_ne hm]

theorem mem_keys_set {d : Dict} {j k : String} {v : Json} : j ∈ (d.set k v).keys ↔ j ∈ d.keys ∨ j = k := by
  rw [Dict.keys_set]
  split
  · next hk => exact ⟨.inl, fun h => h.elim id fun hj => hj ▸ hk⟩
  · rw [List.mem_append, List.mem_singleton]

/-- The fitted probabilities are settings that a comparison may have. -/
theorem checkComparison_withProbabilities {m u : ℚ} :
    checkComparison rt (.obj (withProbabilities comparison m u)) = .ok () ↔
      checkComparison rt (.obj comparison) = .ok () := by
  have hknown : unknownKeys (withProbabilities comparison m u) ["field", "comparator", "weight",
        "missing_score", "m_probability", "u_probability"] = [] ↔
      unknownKeys comparison ["field", "comparator", "weight", "missing_score", "m_probability",
        "u_probability"] = [] := by
    rw [unknownKeys_eq_nil, unknownKeys_eq_nil]
    simp only [withProbabilities, mem_keys_set]
    constructor
    · intro h k hk
      exact h k (.inl (.inl hk))
    · rintro h k ((hk | rfl) | rfl)
      · exact h k hk
      · decide
      · decide
  have hcomparator : (withProbabilities comparison m u).get "comparator" = comparison.get "comparator" := by
    rw [Dict.get, withProbabilities_get? (by decide) (by decide)]
    rfl
  unfold checkComparison
  simp only [Json.asDict, bind, Except.bind, hcomparator, withProbabilities_get? (k := "weight")
      (by decide) (by decide)]
  by_cases h : unknownKeys comparison ["field", "comparator", "weight", "missing_score", "m_probability",
      "u_probability"] = []
  · rw [if_neg (not_not.mpr (hknown.mpr h)), if_neg (not_not.mpr h)]
  · rw [if_pos (mt hknown.mp h), if_pos h]
    exact iff_of_false (by simp) (by simp)

theorem checkProbabilities_withProbabilities {m u : ℚ} :
    checkProbabilities rt (.obj (withProbabilities comparison m u)) = .ok () ↔
      0 < asFloat (roundHalfEven u 6) ∧ asFloat (roundHalfEven u 6) < asFloat (roundHalfEven m 6) ∧
        asFloat (roundHalfEven m 6) < 1 := by
  have hm : (withProbabilities comparison m u).get? "m_probability" =
      some (.float (asFloat (roundHalfEven m 6))) := by
    rw [withProbabilities, Dict.get?_set_of_ne (by decide), Dict.get?_set]
  have hu : (withProbabilities comparison m u).get? "u_probability" =
      some (.float (asFloat (roundHalfEven u 6))) := by
    rw [withProbabilities, Dict.get?_set]
  unfold checkProbabilities
  simp only [Json.asDict, bind, Except.bind, hm, hu, Option.getD_some, Json.toFloat, Json.number?]
  split
  · next hbounds =>
    refine iff_of_false (by simp) fun h => ?_
    simp [h.1, h.2.1, h.2.2] at hbounds
  · next hbounds => exact iff_of_true rfl (by simpa [and_assoc] using hbounds)

/-- What a matching section with these entries has to meet. -/
structure MatchingMet (rt : Runtime) (matching : Dict) (algorithm : String) (prior : ℚ)
    (rules : List Json) : Prop where
  known : ∀ k ∈ matching.keys, k ∈ ["blocking", "comparisons", "thresholds", "auto_link", "review",
    "hard_conflicts", "algorithm", "prior_match_probability"]
  blocking : ∃ blocking items, blockingStrategies ((matching.get? "blocking").getD (.arr [])) = .ok blocking ∧
    blocking.iter = .ok items ∧ ∀ item ∈ items, checkStrategy rt item = .ok ()
  compared : ∀ rule ∈ rules, checkComparison rt rule = .ok ()
  listed : algorithm ∈ ["weighted_score", "fellegi_sunter"]
  chances : algorithm = "fellegi_sunter" → 0 < prior ∧ prior < 1 ∧ ∀ rule ∈ rules,
      checkProbabilities rt rule = .ok ()
  thresholds : ∃ thresholds, compileThresholds rt matching = .ok thresholds

theorem compileMatching_isOk {raw : Dict} {algorithm : String} {rules : List Json}
    (hraw : raw.get? "matching" = some (.obj matching))
    (halgorithm : matching.get? "algorithm" = some (.str algorithm))
    (hprior : matching.get? "prior_match_probability" = some (.float prior))
    (hrules : matching.get? "comparisons" = some (.arr rules)) :
    (∃ found, compileMatching rt raw = .ok found) ↔ MatchingMet rt matching algorithm prior rules := by
  have hfs : (Json.str algorithm).pyEq (.str "fellegi_sunter") = true ↔ algorithm = "fellegi_sunter" := by
    rw [Json.pyEq_str, decide_eq_true_iff, Json.str.injEq]
  have hdict : (Json.obj matching).toDict = .ok matching := rfl
  have hiter : (Json.arr rules).iter = .ok rules := rfl
  have hfloat : Json.toFloat rt (.float prior) = .ok (.finite prior) := rfl
  unfold compileMatching
  simp only [hraw, Option.getD_some, hdict, halgorithm, hprior, hrules, hiter, hfloat, Except.bind_eq_ok,
    rejectUnknown_ok, Except.ok.injEq, exists_eq_left']
  constructor
  · rintro ⟨found, ⟨⟩, hknown, blocking, hblocking, items, hitems, ⟨⟩, hchecked, ⟨⟩, hcompared, h⟩
    split at h
    · cases h
    · next hmember =>
      rw [Bool.not_eq_true, Bool.not_eq_false', memberOf, List.contains_iff_mem] at hmember
      change (if _ then _ else _) = _ at h
      have hchances : (algorithm = "fellegi_sunter" → 0 < prior ∧ prior < 1 ∧
          rules.forM (checkProbabilities rt) = .ok ()) ∧ ∃ thresholds,
          compileThresholds rt matching = .ok thresholds := by
        split at h
        · split at h
          · cases h
          · next hbounds =>
            simp only [Except.bind_eq_ok] at h
            obtain ⟨⟨⟩, hprobabilities, thresholds, hthresholds, -⟩ := h
            simp only [Bool.not_eq_true', Bool.and_eq_false_iff, decide_eq_false_iff_not, not_or,
              not_not] at hbounds
            exact ⟨fun _ => ⟨hbounds.1, hbounds.2, hprobabilities⟩, thresholds, hthresholds⟩
        · next hother =>
          simp only [Except.bind_eq_ok] at h
          obtain ⟨thresholds, hthresholds, -⟩ := h
          exact ⟨fun hc => absurd (hfs.mpr hc) hother, thresholds, hthresholds⟩
      refine ⟨hknown, ⟨blocking, items, hblocking, hitems, forM_ok.mp hchecked⟩,
        forM_ok.mp hcompared, hmember, fun hc => ?_, hchances.2⟩
      obtain ⟨hlow, hhigh, hprobabilities⟩ := hchances.1 hc
      exact ⟨hlow, hhigh, forM_ok.mp hprobabilities⟩
  · intro h
    obtain ⟨blocking, items, hblocking, hitems, hchecked⟩ := h.blocking
    obtain ⟨thresholds, hthresholds⟩ := h.thresholds
    have hmember : memberOf (.str algorithm) ["weighted_score", "fellegi_sunter"] = true := by
      rw [memberOf, List.contains_iff_mem]
      exact h.listed
    refine ⟨.obj [("algorithm", .str algorithm), ("prior_match_probability", .float prior),
      ("blocking", blocking), ("comparisons", .arr rules), ("thresholds", thresholds)],
      (), h.known, blocking, hblocking, items, hitems, (), forM_ok.mpr hchecked, (),
      forM_ok.mpr h.compared, ?_⟩
    rw [hmember, Bool.not_true, if_neg Bool.false_ne_true]
    change (if _ then _ else _) = _
    by_cases hc : algorithm = "fellegi_sunter"
    · obtain ⟨hlow, hhigh, hprobabilities⟩ := h.chances hc
      rw [if_pos (hfs.mpr hc), decide_eq_true (Extended.zero_lt_finite.mpr hlow),
        decide_eq_true (Extended.finite_lt_one.mpr hhigh), if_neg (by decide)]
      simp only [Except.bind_eq_ok]
      exact ⟨(), forM_ok.mpr hprobabilities, thresholds, hthresholds, rfl⟩
    · rw [if_neg (mt hfs.mp hc)]
      simp only [Except.bind_eq_ok]
      exact ⟨thresholds, hthresholds, rfl⟩

section Compiled

variable {given trained raw : Dict} {version version' algorithm : String} {policy : CompiledPolicy}

theorem compilePolicy_isOk (hraw : rawDefinition rt given = .ok (raw, version)) :
    (∃ policy, compilePolicy rt (.obj given) = .ok policy) ↔ (∀ k ∈ raw.keys, k ∈ allowedRoot) ∧
      (∃ validation items attributes survivorship, validationByField rt raw = .ok validation ∧
        ((raw.get? "attributes").getD (.arr [])).iter = .ok items ∧
        items.mapM (compileAttribute rt validation) = .ok attributes ∧
        compileSurvivorship rt raw attributes = .ok survivorship) ∧
      (∃ identifiers, compileIdentifiers rt raw = .ok identifiers) ∧
      ∃ matching, compileMatching rt raw = .ok matching := by
  have hdict : (Json.obj given).asDict = .ok given := rfl
  unfold compilePolicy
  simp only [hdict, Except.bind_eq_ok, Except.ok.injEq, exists_eq_left', hraw, Prod.exists, Prod.mk.injEq,
    rejectUnknown_ok, and_assoc]
  constructor
  · rintro ⟨policy, _, _, rfl, rfl, ⟨⟩, hknown, validation, hvalidation, items, hitems, attributes,
      hattributes, identifiers, hidentifiers, matching, hmatching, survivorship, hsurvivorship, -⟩
    exact ⟨hknown, ⟨validation, items, attributes, survivorship, hvalidation, hitems, hattributes,
      hsurvivorship⟩, ⟨identifiers, hidentifiers⟩, matching, hmatching⟩
  · rintro ⟨hknown, ⟨validation, items, attributes, survivorship, hvalidation, hitems, hattributes,
      hsurvivorship⟩, ⟨identifiers, hidentifiers⟩, matching, hmatching⟩
    exact ⟨_, raw, version, rfl, rfl, (), hknown, validation, hvalidation, items, hitems,
      attributes, hattributes,
      identifiers, hidentifiers, matching, hmatching, survivorship, hsurvivorship, rfl⟩

theorem withMatching_get? {k : String} {rules : List Dict} (hk : k ≠ "matching") :
    (withMatching base matching algorithm prior rules).get? k = base.get? k :=
  Dict.get?_set_of_ne hk

theorem withMatching_matching (base matching : Dict) (algorithm : String) (prior : ℚ)
    (rules : List Dict) : ∃ d : Dict,
    (withMatching base matching algorithm prior rules).get? "matching" = some (.obj d) ∧
    d.get? "algorithm" = some (.str algorithm) ∧ d.get? "prior_match_probability" = some (.float prior) ∧
    d.get? "comparisons" = some (.arr (rules.map .obj)) ∧
    (∀ k, k ≠ "algorithm" → k ≠ "prior_match_probability" → k ≠ "comparisons" → d.get? k = matching.get? k) ∧
    ∀ k, k ∈ d.keys ↔ ((k ∈ matching.keys ∨ k = "algorithm") ∨ k = "prior_match_probability") ∨
    k = "comparisons" := by
  refine ⟨_, Dict.get?_set, ?_, ?_, Dict.get?_set, fun k ha hp hc => ?_, fun k => ?_⟩
  · rw [Dict.get?_set_of_ne (by decide), Dict.get?_set_of_ne (by decide), Dict.get?_set]
  · rw [Dict.get?_set_of_ne (by decide), Dict.get?_set]
  · rw [Dict.get?_set_of_ne hc, Dict.get?_set_of_ne hp, Dict.get?_set_of_ne ha]
  · rw [mem_keys_set, mem_keys_set, mem_keys_set]

theorem compileIdentifiers_withMatching {algorithm' : String} {rules rules' : List Dict} :
    compileIdentifiers rt (withMatching base matching algorithm prior rules) =
      compileIdentifiers rt (withMatching base matching algorithm' prior rules') := by
  have hraw : rawIdentifiers (withMatching base matching algorithm prior rules) =
      rawIdentifiers (withMatching base matching algorithm' prior rules') := by
    unfold rawIdentifiers
    rw [Dict.get, Dict.get, withMatching_get? (by decide), withMatching_get? (by decide),
      withMatching_get? (by decide), withMatching_get? (by decide)]
  have hcompiled : compileIdentifier (withMatching base matching algorithm prior rules) =
      compileIdentifier (withMatching base matching algorithm' prior rules') := by
    obtain ⟨d, hd, -, -, -, hget, -⟩ := withMatching_matching base matching algorithm prior rules
    obtain ⟨d', hd', -, -, -, hget', -⟩ := withMatching_matching base matching algorithm' prior rules'
    funext item
    unfold compileIdentifier
    rw [hd, hd', Option.getD_some, Option.getD_some, Json.asDict, Json.asDict]
    dsimp only [bind, Except.bind]
    rw [hget _ (by decide) (by decide) (by decide), hget' _ (by decide) (by decide) (by decide)]
  unfold compileIdentifiers
  rw [hraw, hcompiled]

theorem compileThresholds_congr {d d' : Dict} (h : ∀ k, k ≠ "algorithm" → k ≠ "prior_match_probability" →
    k ≠ "comparisons" → d.get? k = d'.get? k) : compileThresholds rt d = compileThresholds rt d' := by
  unfold compileThresholds
  rw [h _ (by decide) (by decide) (by decide), h _ (by decide) (by decide) (by decide),
    h _ (by decide) (by decide) (by decide)]

/-- Settings that compile with the weighted algorithm compile with probabilities put in when these
are apart. -/
theorem withProbabilities_compiles_iff
    (hrules : List.Forall₂ (fun c rule => ∃ m u, rule = withProbabilities c m u) comparisons fitted)
    (hpositive : 0 < prior) (hproper : prior < 1)
    (hgiven : rawDefinition rt given =
    .ok (withMatching base matching "weighted_score" prior comparisons, version))
    (hcompiles : compilePolicy rt (.obj given) = .ok policy)
    (htrained : rawDefinition rt trained =
      .ok (withMatching base matching "fellegi_sunter" prior fitted, version')) :
    (∃ policy, compilePolicy rt (.obj trained) = .ok policy) ↔
      ∀ rule ∈ fitted, checkProbabilities rt (.obj rule) = .ok () := by
  obtain ⟨d, hd, halgorithm, hprior, hcomparisons, hget, hkeys⟩ :=
    withMatching_matching base matching "weighted_score" prior comparisons
  obtain ⟨d', hd', halgorithm', hprior', hcomparisons', hget', hkeys'⟩ :=
    withMatching_matching base matching "fellegi_sunter" prior fitted
  obtain ⟨hknown, ⟨validation, items, attributes, survivorship, hvalidation, hitems, hattributes,
    hsurvivorship⟩,
    ⟨identifiers, hidentifiers⟩, hmatching⟩ := (compilePolicy_isOk hgiven).mp ⟨policy, hcompiles⟩
  have hmet := (compileMatching_isOk hd halgorithm hprior hcomparisons).mp hmatching
  rw [compilePolicy_isOk htrained, compileMatching_isOk hd' halgorithm' hprior' hcomparisons']
  constructor
  · rintro ⟨-, -, -, h⟩ rule hrule
    exact (h.chances rfl).2.2 _ (List.mem_map_of_mem hrule)
  · intro hchecked
    refine ⟨?_, ⟨validation, items, attributes, survivorship, ?_, ?_, hattributes, ?_⟩, ⟨identifiers, ?_⟩, ?_⟩
    · intro k hk
      exact hknown k (mem_keys_set.mpr (mem_keys_set.mp hk))
    · rw [← hvalidation]
      unfold validationByField
      rw [withMatching_get? (by decide), withMatching_get? (by decide)]
    · rw [← hitems, withMatching_get? (by decide), withMatching_get? (by decide)]
    · rw [← hsurvivorship]
      unfold compileSurvivorship
      rw [withMatching_get? (by decide), withMatching_get? (by decide)]
    · rw [← hidentifiers, compileIdentifiers_withMatching]
    · have hother : ∀ k, k ≠ "algorithm" → k ≠ "prior_match_probability" → k ≠ "comparisons" →
          d'.get? k = d.get? k :=
        fun k ha hp hc => (hget' k ha hp hc).trans (hget k ha hp hc).symm
      refine ⟨fun k hk => hmet.known k ((hkeys k).mpr ((hkeys' k).mp hk)), ?_, ?_, by decide, fun _ => ?_, ?_⟩
      · rw [hother _ (by decide) (by decide) (by decide)]
        exact hmet.blocking
      · intro rule hrule
        obtain ⟨r, hr, rfl⟩ := List.mem_map.mp hrule
        obtain ⟨c, hc, m, u, rfl⟩ := (Except.forall₂_mem hrules).1 r hr
        exact checkComparison_withProbabilities.mpr (hmet.compared _ (List.mem_map_of_mem hc))
      · refine ⟨hpositive, hproper, fun rule hrule => ?_⟩
        obtain ⟨r, hr, rfl⟩ := List.mem_map.mp hrule
        exact hchecked r hr
      · rw [compileThresholds_congr hother]
        exact hmet.thresholds

/-- What fitting one comparison with the default smoothing makes of its counts. -/
theorem fitComparison_ok {matched nonmatched : List Dict}
    (h : fitComparison rt matched nonmatched 1 comparison = .ok rule) :
    ∃ a b, agreeing rt matched (comparison.get "field") (comparison.get "comparator") = .ok a ∧
      agreeing rt nonmatched (comparison.get "field") (comparison.get "comparator") = .ok b ∧
      rule = withProbabilities comparison (asFloat (smoothed a 1 / smoothed matched.length 2))
        (asFloat (smoothed b 1 / smoothed nonmatched.length 2)) := by
  have hquotient {p q r : ℚ} (h : quotient p q = .ok r) : r = asFloat (p / q) := by
    unfold quotient at h
    split at h
    · cases h
    · exact (Except.ok.inj h).symm
  unfold fitComparison at h
  split at h
  · next field hfield =>
    split at h
    · next comparator hcomparator =>
      simp only [Except.bind_eq_ok] at h
      obtain ⟨a, ha, b, hb, m, hm, u, hu, h⟩ := h
      obtain rfl := hquotient hm
      obtain rfl := hquotient hu
      split at h
      · cases h
      · rw [Dict.get, Dict.get, hfield, hcomparator, Option.getD_some, Option.getD_some]
        refine ⟨a, b, ha, hb, ?_⟩
        have htwo : asFloat (2 * 1) = 2 := by decide +kernel
        rw [← Except.pure_eq_ok.mp h, htwo]
    · cases h
  · cases h

/-- A smoothed count is a fraction of the smoothed number of rows. -/
theorem agreeing_fraction {rows : List Dict} {field comparator : Json} {a : Nat}
    (h : agreeing rt rows field comparator = .ok a) :
    0 ≤ smoothed a 1 / smoothed rows.length 2 ∧ smoothed a 1 / smoothed rows.length 2 ≤ 1 := by
  have hle : a ≤ rows.length := by
    unfold agreeing at h
    simp only [Except.bind_eq_ok, Except.pure_eq_ok] at h
    obtain ⟨found, hfound, rfl⟩ := h
    rw [(Except.mapM_forall₂ hfound).length_eq]
    exact List.count_le_length
  have hnonneg (n : Nat) (q : ℚ) (hq : 0 ≤ q) : 0 ≤ asFloat n + q :=
    add_nonneg (asFloat_nonneg (Nat.cast_nonneg n)) hq
  refine ⟨div_nonneg (asFloat_nonneg (hnonneg a 1 zero_le_one)) (asFloat_nonneg (hnonneg _ 2 two_pos.le)), ?_⟩
  refine div_le_one_of_le₀ (asFloat_mono (hnonneg a 1 zero_le_one) ?_) (asFloat_nonneg (hnonneg _ 2 two_pos.le))
  exact add_le_add (asFloat_mono (Nat.cast_nonneg a) (Nat.cast_le.mpr hle)) one_le_two

/-- Each fitted comparison is its comparison with probabilities, which are apart when its counts are. -/
theorem fitParameters_ok (h : fitParameters rt pairs comparisons 1 = .ok fitted) :
    List.Forall₂ (fun c rule => ∃ m u, rule = withProbabilities c m u ∧ (Separable rt pairs c ↔
      checkProbabilities rt (.obj rule) = .ok ())) comparisons fitted := by
  unfold fitParameters at h
  simp only [Except.bind_eq_ok] at h
  obtain ⟨matched, hmatched, nonmatched, hnonmatched, h⟩ := h
  split at h
  · cases h
  · refine (Except.mapM_forall₂ h).imp fun c rule hfit => ?_
    obtain ⟨a, b, ha, hb, rfl⟩ := fitComparison_ok hfit
    refine ⟨_, _, rfl, ?_⟩
    obtain ⟨hm, hm'⟩ := agreeing_fraction ha
    obtain ⟨hu, hu'⟩ := agreeing_fraction hb
    rw [checkProbabilities_withProbabilities, ← stayApart_iff hm hm' hu hu']
    constructor
    · rintro ⟨matched', nonmatched', a', b', hmatched', hnonmatched', ha', hb', hapart⟩
      obtain rfl := Except.ok.inj (hmatched.symm.trans hmatched')
      obtain rfl := Except.ok.inj (hnonmatched.symm.trans hnonmatched')
      obtain rfl := Except.ok.inj (ha.symm.trans ha')
      obtain rfl := Except.ok.inj (hb.symm.trans hb')
      exact hapart
    · intro hapart
      exact ⟨matched, nonmatched, a, b, hmatched, hnonmatched, ha, hb, hapart⟩

/-- A policy that otherwise compiles takes the fitted comparisons just when the smoothed counts of each of
them stay apart in millionths. -/
theorem fitted_compiles_iff (hfit : fitParameters rt pairs comparisons 1 = .ok fitted)
    (hpositive : 0 < prior) (hproper : prior < 1)
    (hgiven : rawDefinition rt given =
    .ok (withMatching base matching "weighted_score" prior comparisons, version))
    (hcompiles : compilePolicy rt (.obj given) = .ok policy)
    (htrained : rawDefinition rt trained =
      .ok (withMatching base matching "fellegi_sunter" prior fitted, version')) :
    (∃ policy, compilePolicy rt (.obj trained) = .ok policy) ↔ ∀ c ∈ comparisons, Separable rt pairs c := by
  have hall := fitParameters_ok hfit
  rw [withProbabilities_compiles_iff (hall.imp fun _ _ ⟨m, u, h, _⟩ => ⟨m, u, h⟩) hpositive hproper
    hgiven hcompiles htrained]
  constructor
  · intro hchecked c hc
    obtain ⟨rule, hrule, -, -, -, hiff⟩ := (Except.forall₂_mem hall).2 c hc
    exact hiff.mpr (hchecked rule hrule)
  · intro hseparable rule hrule
    obtain ⟨c, hc, -, -, -, hiff⟩ := (Except.forall₂_mem hall).1 rule hrule
    exact hiff.mp (hseparable c hc)

end Compiled

namespace Supplier

/-- Names compared letter by letter. -/
def nameComparison : Dict := [("field", .str "name"), ("comparator", .str "exact"), ("weight", .int 1)]

def labelledPair (label : Bool) (left right : String) : Dict := [("is_match", .bool label),
  ("left", .obj [("name", .str left)]), ("right", .obj [("name", .str right)])]

/-- One pair of each label, told apart by the names. -/
theorem fitted_compiles_pairs : ∃ fitted policy,
    fitParameters .plain [labelledPair true "a" "a", labelledPair false "a" "b"]
    [nameComparison] 1 = .ok fitted ∧
    compilePolicy .plain (.obj (withMatching [] [] "weighted_score" (1 / 2) [nameComparison])) = .ok policy ∧
    ((∃ policy, compilePolicy .plain (.obj (withMatching [] [] "fellegi_sunter" (1 / 2) fitted)) =
    .ok policy) ↔
      ∀ c ∈ [nameComparison], Separable .plain
      [labelledPair true "a" "a", labelledPair false "a" "b"] c) := by
  have hchecked : ((fitParameters .plain [labelledPair true "a" "a", labelledPair false "a" "b"]
      [nameComparison] 1).isOk &&
      (compilePolicy .plain
      (.obj (withMatching [] [] "weighted_score" (1 / 2) [nameComparison]))).isOk) = true := by
    decide +kernel
  rw [Bool.and_eq_true] at hchecked
  cases hfit : fitParameters .plain [labelledPair true "a" "a", labelledPair false "a" "b"]
      [nameComparison] 1 with
  | error e =>
    rw [hfit] at hchecked
    cases hchecked.1
  | ok fitted =>
    cases hpolicy :
        compilePolicy .plain (.obj (withMatching [] [] "weighted_score" (1 / 2) [nameComparison])) with
    | error e =>
      rw [hpolicy] at hchecked
      cases hchecked.2
    | ok policy =>
      exact ⟨fitted, policy, rfl, rfl, fitted_compiles_iff hfit (by norm_num) (by norm_num) rfl hpolicy rfl⟩

theorem labelled_append {label : Bool} {pairs pairs' found found' : List Dict}
    (h : labelled label pairs = .ok found)
    (h' : labelled label pairs' = .ok found') : labelled label (pairs ++ pairs') = .ok (found ++ found') := by
  induction pairs generalizing found with
  | nil =>
    obtain rfl := Except.ok.inj h
    exact h'
  | cons row pairs ih =>
    rw [labelled] at h
    rw [List.cons_append, labelled]
    split at h
    · simp only [Except.bind_eq_ok, Except.pure_eq_ok] at h
      obtain ⟨rest, hrest, rfl⟩ := h
      rw [ih hrest]
      dsimp only [bind, Except.bind]
      rw [Except.pure_eq_ok]
      split <;> rfl
    · cases h

theorem labelled_replicate {label label' : Bool} {left right : String} (n : Nat) :
    labelled label (List.replicate n (labelledPair label' left right)) =
      .ok (if label' = label then List.replicate n (labelledPair label' left right) else []) := by
  induction n with
  | zero => split <;> rfl
  | succ n ih =>
    rw [List.replicate_succ, labelled, ih]
    change Except.ok (if label' = label then _ else _) = _
    split <;> rfl

theorem agreeing_replicate {label : Bool} {name : String} (hname : name ≠ "") (n : Nat) :
    agreeing .plain (List.replicate n (labelledPair label name name)) (.str "name") (.str "exact") =
    .ok n := by
  have hagree : (do
      agreement .plain (← sideOf (labelledPair label name name) "left" (.str "name"))
        (← sideOf (labelledPair label name name) "right" (.str "name")) (.str "exact")) = .ok true := by
    have hequal : (Json.str name).pyEq (.str name) = true := Json.pyEq_str.trans (decide_eq_true rfl)
    change (if decide (name = "") || decide (name = "") then Except.ok false else
      if _ then Except.ok ((Json.str name).pyEq (.str name)) else _) = _
    rw [decide_eq_false hname, Bool.or_self, if_neg Bool.false_ne_true, hequal]
    rfl
  have hall : ∀ n, (List.replicate n (labelledPair label name name)).mapM (fun row => do
      agreement .plain (← sideOf row "left" (.str "name")) (← sideOf row "right" (.str "name"))
        (.str "exact")) = .ok (List.replicate n true) := by
    intro n
    induction n with
    | zero => rfl
    | succ n ih =>
      rw [List.replicate_succ, List.mapM_cons, hagree, ih]
      rfl
  rw [agreeing, hall]
  exact congrArg Except.ok List.count_replicate_self

/-- 2000 matches and 1999 other pairs, all with equal names: 2001 of 2002 and 2000 of 2001 round to
the same. -/
theorem fitted_not_compiled : ¬ ∀ (pairs comparisons fitted : List Dict) (base matching given trained : Dict)
    (prior : ℚ) (version version' : String) (policy : CompiledPolicy),
    fitParameters .plain pairs comparisons 1 = .ok fitted → 0 < prior → prior < 1 →
    rawDefinition .plain given = .ok (withMatching base matching "weighted_score" prior comparisons,
    version) → compilePolicy .plain (.obj given) = .ok policy →
    rawDefinition .plain trained = .ok (withMatching base matching "fellegi_sunter" prior fitted, version') →
    ∃ policy, compilePolicy .plain (.obj trained) = .ok policy := by
  intro h
  have hlabelled : ∀ label, labelled label (List.replicate 2000 (labelledPair true "a" "a") ++
      List.replicate 1999 (labelledPair false "a" "a")) = .ok (if label then
        List.replicate 2000 (labelledPair true "a" "a") else List.replicate 1999
            (labelledPair false "a" "a")) := by
    intro label
    rw [labelled_append (labelled_replicate 2000) (labelled_replicate 1999)]
    cases label
    · rfl
    · exact congrArg Except.ok (List.append_nil _)
  have hfit : fitParameters .plain (List.replicate 2000 (labelledPair true "a" "a") ++
      List.replicate 1999 (labelledPair false "a" "a")) [nameComparison] 1 =
        .ok [withProbabilities nameComparison (asFloat (2001 / 2002)) (asFloat (2000 / 2001))] := by
    have hquotient {p q : ℚ} (hq : q ≠ 0) : quotient p q = .ok (asFloat (p / q)) := if_neg hq
    have hsmoothed : smoothed 2000 1 = 2001 ∧ smoothed 2000 (asFloat (2 * 1)) = 2002 ∧
        smoothed 1999 1 = 2000 ∧ smoothed 1999 (asFloat (2 * 1)) = 2001 := by decide +kernel
    have hgreater : ¬ asFloat (2001 / 2002) ≤ asFloat (2000 / 2001) := by decide +kernel
    obtain ⟨hm, hn, hu, hk⟩ := hsmoothed
    have hone : fitComparison .plain (List.replicate 2000 (labelledPair true "a" "a"))
        (List.replicate 1999 (labelledPair false "a" "a")) 1 nameComparison =
          .ok (withProbabilities nameComparison (asFloat (2001 / 2002)) (asFloat (2000 / 2001))) := by
      have hfield : nameComparison.get? "field" = some (.str "name") := rfl
      have hcomparator : nameComparison.get? "comparator" = some (.str "exact") := rfl
      unfold fitComparison
      rw [hfield, hcomparator]
      dsimp only
      rw [agreeing_replicate (by decide), agreeing_replicate (by decide), List.length_replicate,
        List.length_replicate]
      dsimp only [bind, Except.bind]
      rw [hm, hn, hu, hk, hquotient (by norm_num), hquotient (by norm_num)]
      dsimp only
      rw [if_neg hgreater]
      rfl
    unfold fitParameters
    rw [hlabelled, hlabelled]
    dsimp only [bind, Except.bind]
    rw [if_pos rfl, if_neg Bool.false_ne_true, List.isEmpty_replicate, List.isEmpty_replicate,
      if_neg (by decide), List.mapM_cons, hone]
    rfl
  have hcompiled : (compilePolicy .plain (.obj (withMatching [] [] "weighted_score" (1 / 2)
      [nameComparison]))).isOk = true := by
    decide +kernel
  cases hpolicy :
      compilePolicy .plain (.obj (withMatching [] [] "weighted_score" (1 / 2) [nameComparison])) with
  | error e =>
    rw [hpolicy] at hcompiled
    cases hcompiled
  | ok policy =>
    have htrained := h _ _ _ [] [] _ (withMatching [] [] "fellegi_sunter" (1 / 2) _) (1 / 2) _ _ policy hfit
      (by norm_num) (by norm_num) rfl hpolicy rfl
    have hchecked :=
      (withProbabilities_compiles_iff (.cons ⟨_, _, rfl⟩ .nil) (by norm_num) (by norm_num) rfl hpolicy
      rfl).mp htrained _ (List.mem_singleton_self _)
    have hbounds := checkProbabilities_withProbabilities.mp hchecked
    exact absurd hbounds.2.1 (by decide +kernel)

end Supplier

end Recordlane
