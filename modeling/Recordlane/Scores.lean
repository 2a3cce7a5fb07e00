import Recordlane.Recompiling
import Recordlane.Supplier
import Recordlane.Library.Extended
import Mathlib.Analysis.SpecialFunctions.Log.Basic

/-! The comparison of two records in exact numbers: its score before and after rounding, its decision. -/
namespace Recordlane

variable {rt : Runtime} {policy : CompiledPolicy} {left right : Dict} {rule : Dict} {algorithm : Json}

theorem Except.mapM_map {α β τ ε : Type} {f : α → Except ε β} {g : β → τ} (xs : List α) :
    (xs.mapM f).map (List.map g) = xs.mapM fun x => (f x).map g := by
  induction xs with
  | nil => rfl
  | cons x xs ih =>
    rw [List.mapM_cons, List.mapM_cons, ← ih]
    cases f x with
    | error e => rfl
    | ok y => cases xs.mapM f <;> rfl

namespace CompiledPolicy

section Exact

variable (rt) {K : Type} [Field K] [LinearOrder K] [FloorRing K] (log : K → K) (exp : K → Option K)

/-- What the component of a rule adds to the log-odds. -/
def ruleOdds (algorithm : Json) (rule : Dict) (component : Extended ℚ) : Py (Extended K) := do
  if algorithm.pyEq (.str "fellegi_sunter") then
    let m ← (rule.get "m_probability").arith
    let u ← (rule.get "u_probability").arith
    return Extended.logLikelihood log (m : K) u (component.map fun c : ℚ => (c : K))
  else return 0

/-- One comparison rule: its component, its weight and its log-odds. -/
def compareRuleOver (left right : Dict) (algorithm : Json) (rule : Dict) :
    Py (Extended ℚ × Extended ℚ × Extended K) := do
  let (component, weight) ← ruleScore rt left right rule
  return (component, weight, ← ruleOdds log algorithm rule component)

/-- The score of the compared rules before it is rounded, and the digits it is rounded to. -/
def scoreOver (policy : CompiledPolicy) (algorithm : Json)
    (rows : List (Extended ℚ × Extended ℚ × Extended K)) : Py (Extended K × Nat) := do
  if algorithm.pyEq (.str "fellegi_sunter") then
    let prior ← (policy.matching.get "prior_match_probability").arith
    let odds := .finite (log ((prior / (1 - prior) : ℚ) : K)) + (rows.map fun r => r.2.2).sum
    let some inverse := Extended.expOf exp (-odds) | throw (.python "OverflowError")
    return (1 / (1 + inverse), 6)
  else return ((Extended.mean (rows.map fun r => (r.1, r.2.1))).map fun q : ℚ => (q : K), 4)

/-- What a comparison comes to. -/
structure Assessment (K : Type) where
  exact : Extended K
  score : Extended K
  decision : MatchDecision

/-- `CompiledPolicy.compare` with its numbers in a field. -/
def compareOver (policy : CompiledPolicy) (left right : Dict) : Py (Assessment K) := do
  let contradictions ← policy.contradictions left right
  let algorithm := (policy.matching.get? "algorithm").getD (.str "weighted_score")
  let rows ← (maps (policy.matching.get "comparisons")).mapM
    (compareRuleOver rt log left right algorithm)
  let (exact, digits) ← scoreOver log exp policy algorithm rows
  let score := exact.map fun x => Scoring.roundTo x digits
  let thresholds ← (policy.matching.get "thresholds").asDict
  let autoLink ← (thresholds.get "auto_link").arith
  let review ← (thresholds.get "review").arith
  return ⟨exact, score, if !contradictions.isEmpty then .keepSeparate
    else if .finite (autoLink : K) ≤ score then .autoLink
    else if .finite (review : K) ≤ score then .review else .noLink⟩

end Exact

/-- `CompiledPolicy.compare` in real numbers. -/
noncomputable def compareExact (rt : Runtime) (policy : CompiledPolicy) (left right : Dict) :
    Py (Assessment ℝ) := policy.compareOver rt Real.log (fun x => some (Real.exp x)) left right

theorem compareRule_over : (compareRule rt left right algorithm rule).map
    (fun r => (r.1, r.2.1, r.2.2.1)) = compareRuleOver rt rt.log left right algorithm rule := by
  unfold compareRule compareRuleOver ruleOdds
  cases ruleScore rt left right rule with
  | error e => rfl
  | ok score =>
    simp only [bind, Except.bind]
    cases algorithm.pyEq (.str "fellegi_sunter") with
    | false => rfl
    | true =>
      cases (rule.get "m_probability").arith with
      | error e => rfl
      | ok m =>
        cases (rule.get "u_probability").arith with
        | error e => rfl
        | ok u =>
          simp only [Rat.cast_id, Extended.map_id, if_true]
          rfl

theorem roundHalfEven_roundTo {q : ℚ} {digits : Nat} :
    roundHalfEven q digits = Scoring.roundTo q digits := rfl

theorem scoreOf_over {rows : List (Extended ℚ × Extended ℚ × Extended ℚ × Json)} :
    (policy.scoreOf rt algorithm rows).map Prod.fst =
      (scoreOver rt.log rt.exp policy algorithm (rows.map fun r => (r.1, r.2.1, r.2.2.1))).map
        fun r => r.1.map fun x => Scoring.roundTo x r.2 := by
  unfold scoreOf scoreOver
  by_cases hfs : algorithm.pyEq (.str "fellegi_sunter") = true
  · rw [if_pos hfs, if_pos hfs]
    cases (policy.matching.get "prior_match_probability").arith with
    | error e => rfl
    | ok prior =>
      have hsum : (List.map (fun r => r.2.2) (List.map (fun r => (r.1, r.2.1, r.2.2.1)) rows)).sum =
          (rows.map fun r => r.2.2.1).sum := by
        rw [List.map_map]
        rfl
      simp only [bind, Except.bind, hsum, Rat.cast_id]
      cases Extended.expOf rt.exp (-(.finite (rt.log (prior / (1 - prior))) +
        (rows.map fun r => r.2.2.1).sum)) <;> rfl
  · rw [if_neg hfs, if_neg hfs]
    simp only [pure, Except.pure, Except.map, List.map_map, Rat.cast_id, Extended.map_id]
    refine congrArg Except.ok ?_
    have hmean : Extended.mean (rows.map ((fun r : Extended ℚ × Extended ℚ × Extended ℚ => (r.1, r.2.1)) ∘
        fun r => (r.1, r.2.1, r.2.2.1))) = if (rows.map fun r => r.2.1).sum = 0 then 0
          else (rows.map fun r => r.1 * r.2.1).sum / (rows.map fun r => r.2.1).sum := by
      simp only [Extended.mean, List.map_map]
      rfl
    rw [hmean]
    split
    · exact congrArg Extended.finite (Scoring.roundTo_intCast 0).symm
    · rfl

/-- The comparison in rational numbers is the one the service makes. -/
theorem compare_over : (policy.compare rt left right).map (fun e => (e.score, e.decision)) =
    (policy.compareOver rt rt.log rt.exp left right).map fun a => (a.score, a.decision) := by
  unfold compare compareOver
  generalize (policy.matching.get? "algorithm").getD (.str "weighted_score") = algorithm
  cases policy.contradictions left right with
  | error e => rfl
  | ok contradictions =>
    simp only [bind, Except.bind]
    have hrows := Except.mapM_map (f := compareRule rt left right algorithm)
      (g := fun r => (r.1, r.2.1, r.2.2.1)) (maps (policy.matching.get "comparisons"))
    simp only [compareRule_over] at hrows
    rw [← hrows]
    cases (maps (policy.matching.get "comparisons")).mapM (compareRule rt left right algorithm) with
    | error e => rfl
    | ok rows =>
      have hscore := @scoreOf_over rt policy algorithm rows
      simp only [Except.map]
      revert hscore
      cases policy.scoreOf rt algorithm rows with
      | error e =>
        cases scoreOver rt.log rt.exp policy algorithm (rows.map fun r => (r.1, r.2.1, r.2.2.1)) with
        | error e' => exact fun hscore => congrArg Except.error (Except.error.inj hscore)
        | ok r => exact fun hscore => nomatch hscore
      | ok r =>
        cases scoreOver rt.log rt.exp policy algorithm (rows.map fun r => (r.1, r.2.1, r.2.2.1)) with
        | error e => exact fun hscore => nomatch hscore
        | ok r' =>
          intro hscore
          have hrounded : r.1 = r'.1.map fun x => Scoring.roundTo x r'.2 := Except.ok.inj hscore
          dsimp only
          cases (policy.matching.get "thresholds").asDict with
          | error e => rfl
          | ok thresholds =>
            dsimp only
            cases (Dict.get thresholds "auto_link").arith with
            | error e => rfl
            | ok autoLink =>
              dsimp only
              cases (Dict.get thresholds "review").arith with
              | error e => rfl
              | ok review =>
                simp only [hrounded, Rat.cast_id]
                rfl

theorem compareRuleOver_outcome {K K' : Type} [Field K] [LinearOrder K] [Field K'] [LinearOrder K']
    (log : K → K) (log' : K' → K') :
    (compareRuleOver rt log left right algorithm rule).map (fun _ => ()) =
      (compareRuleOver rt log' left right algorithm rule).map fun _ => () := by
  unfold compareRuleOver ruleOdds
  cases ruleScore rt left right rule with
  | error e => rfl
  | ok r =>
    cases algorithm.pyEq (.str "fellegi_sunter") with
    | false => rfl
    | true =>
      cases (rule.get "m_probability").arith with
      | error e => rfl
      | ok m => cases (rule.get "u_probability").arith <;> rfl

/-- But for overflows, whether a comparison fails does not depend on the numbers. -/
theorem compareOver_total {K K' : Type} [Field K] [LinearOrder K] [FloorRing K] [Field K']
    [LinearOrder K'] [FloorRing K'] {log : K → K} {exp : K → Option K} (log' exp' : K' → K')
    {a : Assessment K} (h : policy.compareOver rt log exp left right = .ok a) :
    ∃ a', policy.compareOver rt log' (fun x => some (exp' x)) left right = .ok a' := by
  unfold compareOver at h
  simp only [Except.bind_eq_ok] at h
  obtain ⟨found, hfound, rows, hrows, score, hscore, thresholds, hthresholds, autoLink, hauto, review,
    hreview, -⟩ := h
  obtain ⟨rows', hrows'⟩ := @Except.mapM_isOk Raised _ _ (compareRuleOver rt log' left right
      ((policy.matching.get? "algorithm").getD (.str "weighted_score")))
      (maps (policy.matching.get "comparisons")) fun rule hrule => by
    obtain ⟨row, -, hrow⟩ := (Except.mapM_mem hrows).2 rule hrule
    have houtcome := @compareRuleOver_outcome rt left right rule
      ((policy.matching.get? "algorithm").getD (.str "weighted_score")) _ _ _ _ _ _ log log'
    rw [hrow] at houtcome
    cases hrow' : compareRuleOver rt log' left right
        ((policy.matching.get? "algorithm").getD (.str "weighted_score")) rule with
    | error e =>
      rw [hrow'] at houtcome
      cases houtcome
    | ok row' => exact ⟨row', rfl⟩
  obtain ⟨score', hscore'⟩ : ∃ score', scoreOver log' (fun x => some (exp' x)) policy
      ((policy.matching.get? "algorithm").getD (.str "weighted_score")) rows' = .ok score' := by
    unfold scoreOver at hscore ⊢
    split at hscore
    · next hfs =>
      rw [Except.bind_eq_ok] at hscore
      obtain ⟨prior, hprior, -⟩ := hscore
      rw [if_pos hfs, hprior]
      simp only [bind, Except.bind]
      cases hodds : -(Extended.finite (log' ((prior / (1 - prior) : ℚ) : K')) +
        (rows'.map fun r => r.2.2).sum) <;> exact ⟨_, rfl⟩
    · next hfs =>
      rw [if_neg hfs]
      exact ⟨_, rfl⟩
  unfold compareOver
  simp only [hfound, hrows', hscore', hthresholds, hauto, hreview, bind, Except.bind]
  exact ⟨_, rfl⟩

theorem compareExact_ok (h : (policy.compare rt left right).isOk = true) :
    ∃ a, policy.compareExact rt left right = .ok a := by
  have hover := @compare_over rt policy left right
  cases he : policy.compare rt left right with
  | error e =>
    rw [he] at h
    cases h
  | ok e =>
    rw [he] at hover
    cases ho : policy.compareOver rt rt.log rt.exp left right with
    | error e' =>
      rw [ho] at hover
      cases hover
    | ok a => exact compareOver_total Real.log Real.exp ho

end CompiledPolicy

theorem Json.toFloat_of_arith {v : Json} {x : Extended ℚ} {q : ℚ} (h : v.arith = .ok q)
    (h' : Json.toFloat rt v = .ok x) : x = .finite q := by
  cases v with
  | str s => cases h
  | int i =>
    rw [Json.toFloat] at h'
    split at h'
    · cases h'
    · rw [← Except.ok.inj h', ← Except.ok.inj h]
  | float q =>
    rw [← Except.ok.inj h', ← Except.ok.inj h]
  | bool b =>
    rw [← Except.ok.inj h', ← Except.ok.inj h]
  | _ => cases h

theorem compilePolicy_matching {definition : Json} (h : compilePolicy rt definition = .ok policy) :
    ∃ m : MatchingRules, policy.document.get "matching" = m.json ∧ m.Accepted rt := by
  unfold compilePolicy at h
  simp only [Except.bind_eq_ok, Except.pure_eq_ok] at h
  obtain ⟨_, -, _, -, _, -, _, -, _, -, _, -, _, -, matching, hmatching, _, -, rfl⟩ := h
  obtain ⟨_, m, -, rfl, hm, -⟩ := compileMatching_accepted hmatching
  exact ⟨m, rfl, hm⟩

namespace MatchingRules

variable {m : MatchingRules}

/-- The comparison rules. -/
def rules (m : MatchingRules) : List Dict := CompiledPolicy.maps m.comparisons

theorem mem_maps {v : Json} : rule ∈ CompiledPolicy.maps v ↔ ∃ xs, v = .arr xs ∧ .obj rule ∈ xs := by
  unfold CompiledPolicy.maps
  cases v with
  | arr xs =>
    simp only [List.mem_filterMap, Json.arr.injEq, exists_eq_left']
    constructor
    · rintro ⟨x, hx, hrule⟩
      cases x with
      | obj kvs => exact Option.some.inj hrule ▸ hx
      | _ => cases hrule
    · intro hx
      exact ⟨_, hx, rfl⟩
  | _ => simp

theorem Accepted.weight (h : m.Accepted rt) (hrule : rule ∈ m.rules) :
    ∃ weight, Json.toFloat rt (rule.get "weight") = .ok weight ∧ ¬ weight ≤ 0 := by
  obtain ⟨xs, hxs, hmem⟩ := mem_maps.mp hrule
  obtain ⟨found, hfound, hchecked, -⟩ := h.comparisons
  rw [hxs] at hfound
  obtain rfl := Except.ok.inj hfound
  have hcheck := forM_ok.mp hchecked _ hmem
  unfold checkComparison at hcheck
  simp only [Json.asDict, bind, Except.bind] at hcheck
  split at hcheck
  · cases hcheck
  · split at hcheck
    · cases hcheck
    · cases hweight : Json.toFloat rt ((Dict.get? rule "weight").getD (.int 0)) with
      | error e =>
        rw [hweight] at hcheck
        cases hcheck
      | ok weight =>
        rw [hweight] at hcheck
        dsimp only at hcheck
        split at hcheck
        · cases hcheck
        · next hpos =>
          refine ⟨weight, ?_, hpos⟩
          cases hget : Dict.get? rule "weight" with
          | none =>
            rw [hget] at hweight
            obtain rfl := Json.toFloat_of_arith rfl hweight
            exact absurd Extended.zero_le_zero hpos
          | some v =>
            rw [Dict.get, hget]
            rwa [hget] at hweight

theorem Accepted.chances {p q : ℚ} (h : m.Accepted rt) (hfs : m.algorithm = "fellegi_sunter")
    (hrule : rule ∈ m.rules) (hp : (rule.get "m_probability").arith = .ok p)
    (hq : (rule.get "u_probability").arith = .ok q) : 0 < q ∧ q < p ∧ p < 1 := by
  obtain ⟨xs, hxs, hmem⟩ := mem_maps.mp hrule
  obtain ⟨found, hfound, -, hchecked⟩ := h.comparisons
  rw [hxs] at hfound
  obtain rfl := Except.ok.inj hfound
  have hcheck := forM_ok.mp (hchecked hfs).2.2 _ hmem
  have hread : ∀ k r r', (Dict.get rule k).arith = .ok r →
      Json.toFloat rt ((Dict.get? rule k).getD (.int 0)) = .ok r' → r' = .finite r := by
    intro k r r' hr hr'
    rw [Dict.get] at hr
    cases hget : Dict.get? rule k with
    | none =>
      rw [hget] at hr
      cases hr
    | some v =>
      rw [hget] at hr hr'
      exact Json.toFloat_of_arith hr hr'
  unfold checkProbabilities at hcheck
  simp only [Json.asDict, Except.bind_eq_ok] at hcheck
  obtain ⟨_, hdict, p', hp', q', hq', hbounds⟩ := hcheck
  cases hdict
  obtain rfl := hread _ _ _ hp hp'
  obtain rfl := hread _ _ _ hq hq'
  split at hbounds
  · cases hbounds
  · next hinside => simpa [and_assoc, Extended.zero_eq, Extended.one_eq] using hinside

theorem Accepted.prior_eq (h : m.Accepted rt) (hfs : m.algorithm = "fellegi_sunter") :
    m.prior = .finite m.prior.number := by
  obtain ⟨rules, -, -, hchecked⟩ := h.comparisons
  obtain ⟨hpos, hlt, -⟩ := hchecked hfs
  cases hprior : m.prior with
  | finite p => rfl
  | nan =>
    rw [hprior] at hpos
    exact hpos.elim
  | infinite negative =>
    rw [hprior] at hpos hlt
    cases (hpos : negative = false).symm.trans hlt

section Exact

variable {K : Type} [Field K] [LinearOrder K] {log : K → K} {exp : K → Option K}

/-- The digits a score is rounded to. -/
def digits (m : MatchingRules) : Nat := if m.algorithm = "fellegi_sunter" then 6 else 4

/-- The score of the compared rules before it is rounded; `none` for an overflow. -/
def exactScore (log : K → K) (exp : K → Option K) (m : MatchingRules)
    (rows : List (Extended ℚ × Extended ℚ × Extended K)) : Option (Extended K) :=
  if m.algorithm = "fellegi_sunter" then
    (Extended.expOf exp (-(.finite (log ((m.prior.number / (1 - m.prior.number) : ℚ) : K)) +
      (rows.map fun r => r.2.2).sum))).map fun inverse => 1 / (1 + inverse)
  else some ((Extended.mean (rows.map fun r => (r.1, r.2.1))).map fun q : ℚ => (q : K))

/-- The decision that the thresholds make of a score. -/
def decisionOf (m : MatchingRules) (contradicted : Bool) (score : Extended K) : MatchDecision :=
  if contradicted then .keepSeparate
  else if .finite (m.autoLink : K) ≤ score then .autoLink
  else if .finite (m.review : K) ≤ score then .review else .noLink

theorem matching_entries (hm : policy.document.get "matching" = m.json) :
    policy.matching = [("algorithm", .str m.algorithm), ("prior_match_probability", floatJson m.prior),
      ("blocking", m.blocking), ("comparisons", m.comparisons), ("thresholds", m.thresholds)] := by
  unfold CompiledPolicy.matching CompiledPolicy.part
  rw [hm]
  rfl

/-- A comparison under a compiled policy. -/
theorem compareOver_eq [FloorRing K] (hm : policy.document.get "matching" = m.json)
    (hnumber : m.algorithm = "fellegi_sunter" → m.prior = .finite m.prior.number) :
    policy.compareOver rt log exp left right = (do
      let contradictions ← policy.contradictions left right
      let rows ← m.rules.mapM (CompiledPolicy.compareRuleOver rt log left right (.str m.algorithm))
      let some exact := m.exactScore log exp rows | throw (.python "OverflowError")
      let score := exact.map fun x => Scoring.roundTo x m.digits
      return ⟨exact, score, m.decisionOf (!contradictions.isEmpty) score⟩) := by
  have hscore : ∀ rows : List (Extended ℚ × Extended ℚ × Extended K),
      CompiledPolicy.scoreOver log exp policy (.str m.algorithm) rows = match m.exactScore log exp rows with
      | some exact => .ok (exact, m.digits)
      | none => .error (.python "OverflowError") := by
    intro rows
    unfold CompiledPolicy.scoreOver
    rw [matching_entries hm, exactScore, digits]
    by_cases hfs : m.algorithm = "fellegi_sunter"
    · rw [if_pos (by simp [hfs, Json.pyEq]), if_pos hfs, if_pos hfs]
      have hprior : (Dict.get [("algorithm", .str m.algorithm),
          ("prior_match_probability", floatJson m.prior), ("blocking", m.blocking),
          ("comparisons", m.comparisons), ("thresholds", m.thresholds)]
            "prior_match_probability").arith = .ok m.prior.number := by
        change (floatJson m.prior).arith = _
        rw [hnumber hfs]
        rfl
      simp only [hprior, bind, Except.bind]
      cases Extended.expOf exp (-(.finite (log ((m.prior.number / (1 - m.prior.number) : ℚ) : K)) +
        (rows.map fun r => r.2.2).sum)) <;> rfl
    · rw [if_neg (by simp [hfs, Json.pyEq]), if_neg hfs, if_neg hfs]
      rfl
  have halgorithm : (Dict.get? policy.matching "algorithm").getD (.str "weighted_score") =
      .str m.algorithm := by
    rw [matching_entries hm]
    rfl
  have hrest : Dict.get policy.matching "comparisons" = m.comparisons ∧
      (Dict.get policy.matching "thresholds").asDict =
        .ok [("review", .float m.review), ("auto_link", .float m.autoLink)] := by
    rw [matching_entries hm]
    exact ⟨rfl, rfl⟩
  unfold CompiledPolicy.compareOver
  cases policy.contradictions left right with
  | error e => rfl
  | ok contradictions =>
    simp only [bind, Except.bind, halgorithm, hrest, rules]
    cases (CompiledPolicy.maps m.comparisons).mapM
        (CompiledPolicy.compareRuleOver rt log left right (.str m.algorithm)) with
    | error e => rfl
    | ok rows =>
      simp only [hscore]
      cases m.exactScore log exp rows <;> rfl

theorem compareOver_ok [FloorRing K] {a : CompiledPolicy.Assessment K} (haccepted : m.Accepted rt)
    (hm : policy.document.get "matching" = m.json)
    (h : policy.compareOver rt log exp left right = .ok a) :
    ∃ contradictions rows, policy.contradictions left right = .ok contradictions ∧
      m.rules.mapM (CompiledPolicy.compareRuleOver rt log left right (.str m.algorithm)) = .ok rows ∧
      m.exactScore log exp rows = some a.exact ∧ (a.score = a.exact.map fun x => Scoring.roundTo x m.digits) ∧
      a.decision = m.decisionOf (!contradictions.isEmpty) a.score := by
  rw [compareOver_eq hm haccepted.prior_eq] at h
  simp only [Except.bind_eq_ok] at h
  obtain ⟨contradictions, hcontradictions, rows, hrows, h⟩ := h
  refine ⟨contradictions, rows, hcontradictions, hrows, ?_⟩
  split at h
  · next exact hexact =>
    cases h
    exact ⟨hexact, rfl, rfl⟩
  · cases h

end Exact

end MatchingRules

section Weighted

variable {m : MatchingRules} {K : Type} [Field K] [LinearOrder K]

theorem CompiledPolicy.compareRuleOver_weighted {log : K → K} (hw : m.algorithm ≠ "fellegi_sunter") :
    CompiledPolicy.compareRuleOver rt log left right (.str m.algorithm) rule =
      (CompiledPolicy.ruleScore rt left right rule).map fun r => (r.1, r.2, 0) := by
  unfold CompiledPolicy.compareRuleOver CompiledPolicy.ruleOdds
  cases CompiledPolicy.ruleScore rt left right rule with
  | error e => rfl
  | ok r =>
    dsimp only [bind, Except.bind]
    rw [if_neg (by simp [hw, Json.pyEq])]
    rfl

theorem MatchingRules.compareOver_weighted [FloorRing K] {log : K → K} {exp : K → Option K}
    (hm : policy.document.get "matching" = m.json) (hw : m.algorithm ≠ "fellegi_sunter") :
    policy.compareOver rt log exp left right = (do
      let contradictions ← policy.contradictions left right
      let rows ← m.rules.mapM (CompiledPolicy.ruleScore rt left right)
      let exact := (Extended.mean rows).map fun q : ℚ => (q : K)
      let score := exact.map fun x => Scoring.roundTo x 4
      return ⟨exact, score, m.decisionOf (!contradictions.isEmpty) score⟩) := by
  have hrows : m.rules.mapM (CompiledPolicy.compareRuleOver rt log left right (.str m.algorithm)) =
      (m.rules.mapM (CompiledPolicy.ruleScore rt left right)).map (List.map fun r =>
        (r.1, r.2, (0 : Extended K))) := by
    rw [Except.mapM_map]
    exact congrArg (m.rules.mapM ·) (funext fun _ => CompiledPolicy.compareRuleOver_weighted hw)
  rw [compareOver_eq hm fun hfs => absurd hfs hw, hrows]
  cases policy.contradictions left right with
  | error e => rfl
  | ok contradictions =>
    cases m.rules.mapM (CompiledPolicy.ruleScore rt left right) with
    | error e => rfl
    | ok rows =>
      simp only [bind, Except.bind, Except.map, exactScore, digits, if_neg hw, List.map_map]
      have hsame : rows.map ((fun r : Extended ℚ × Extended ℚ × Extended K => (r.1, r.2.1)) ∘
          fun r => (r.1, r.2, 0)) = rows := List.map_id rows
      rw [hsame]

/-- Weights alone are rational, and the comparison in real numbers is the one the service makes. -/
theorem MatchingRules.compareExact_weighted (hm : policy.document.get "matching" = m.json)
    (hw : m.algorithm ≠ "fellegi_sunter") : policy.compareExact rt left right =
      (policy.compareOver rt rt.log rt.exp left right).map fun a =>
        ⟨a.exact.map fun q : ℚ => (q : ℝ), a.score.map fun q : ℚ => (q : ℝ), a.decision⟩ := by
  have hscore : ∀ x : Extended ℚ, ((x.map fun q : ℚ => (q : ℝ)).map fun y => Scoring.roundTo y 4) =
      (x.map fun q => Scoring.roundTo q 4).map fun q : ℚ => (q : ℝ) := by
    intro x
    cases x with
    | finite q => exact congrArg Extended.finite (Scoring.roundTo_cast q 4)
    | _ => rfl
  have hdecision : ∀ (contradicted : Bool) (x : Extended ℚ),
      m.decisionOf contradicted (x.map fun q : ℚ => (q : ℝ)) = m.decisionOf contradicted x := by
    intro contradicted x
    have hle : ∀ q : ℚ, Extended.finite (q : ℝ) ≤ (x.map fun q : ℚ => (q : ℝ)) ↔ .finite q ≤ x := by
      intro q
      cases x with
      | finite p => exact Rat.cast_le (K := ℝ)
      | _ => exact Iff.rfl
    simp only [decisionOf, hle, Rat.cast_id]
  rw [CompiledPolicy.compareExact, compareOver_weighted hm hw, compareOver_weighted hm hw]
  cases policy.contradictions left right with
  | error e => rfl
  | ok contradictions =>
    cases m.rules.mapM (CompiledPolicy.ruleScore rt left right) with
    | error e => rfl
    | ok rows =>
      simp only [bind, Except.bind, Except.map, hscore, hdecision, Rat.cast_id, Extended.map_id]
      rfl

theorem MatchingRules.exact_weighted [FloorRing K] {log : K → K} {exp : K → Option K}
    {a : CompiledPolicy.Assessment K} (hm : policy.document.get "matching" = m.json)
    (hw : m.algorithm ≠ "fellegi_sunter") (h : policy.compareOver rt log exp left right = .ok a) :
    ∃ rows, m.rules.mapM (CompiledPolicy.ruleScore rt left right) = .ok rows ∧
      a.exact = (Extended.mean rows).map fun q : ℚ => (q : K) := by
  rw [compareOver_weighted hm hw] at h
  simp only [Except.bind_eq_ok, Except.pure_eq_ok] at h
  obtain ⟨contradictions, -, rows, hrows, rfl⟩ := h
  exact ⟨rows, hrows, rfl⟩

theorem CompiledPolicy.exact_ne_nan {definition : Json} {a : CompiledPolicy.Assessment ℝ}
    (h : compilePolicy rt definition = .ok policy)
    (halgorithm : policy.matching.get "algorithm" = .str "weighted_score")
    (hmean : ((CompiledPolicy.maps (policy.matching.get "comparisons")).mapM
      (CompiledPolicy.ruleScore rt left right)).toOption.any (fun rows =>
        decide (Extended.mean rows ≠ .nan)) = true)
    (ha : policy.compareExact rt left right = .ok a) : a.exact ≠ .nan := by
  obtain ⟨m, hmatching, -⟩ := compilePolicy_matching h
  have hentries := MatchingRules.matching_entries hmatching
  have hw : m.algorithm ≠ "fellegi_sunter" := by
    rw [hentries] at halgorithm
    have hname : m.algorithm = "weighted_score" := Json.str.inj halgorithm
    rw [hname]
    decide
  have hrules : CompiledPolicy.maps (policy.matching.get "comparisons") = m.rules := by
    rw [hentries]
    rfl
  obtain ⟨rows, hrows, hexact⟩ := MatchingRules.exact_weighted hmatching hw ha
  rw [hrules, hrows] at hmean
  rw [hexact, Extended.map_ne_nan]
  exact of_decide_eq_true hmean

end Weighted

/-- The order of decisions, from apart to linked. -/
def MatchDecision.strength : MatchDecision → Nat
  | .autoLink => 2
  | .review => 1
  | _ => 0

theorem MatchingRules.decisionOf_mono {K : Type} [Field K] [LinearOrder K] [IsStrictOrderedRing K]
    {m : MatchingRules} {x y : Extended K} (hm : m.review ≤ m.autoLink) (h : x ≤ y) :
    (m.decisionOf false x).strength ≤ (m.decisionOf false y).strength := by
  have hle : (m.review : K) ≤ m.autoLink := Rat.cast_le.mpr hm
  unfold decisionOf
  rw [if_neg Bool.false_ne_true, if_neg Bool.false_ne_true]
  by_cases hx : .finite (m.autoLink : K) ≤ x
  · rw [if_pos hx, if_pos (Extended.le_trans hx h)]
  · rw [if_neg hx]
    by_cases hx' : .finite (m.review : K) ≤ x
    · rw [if_pos hx']
      split
      · decide
      · rw [if_pos (Extended.le_trans hx' h)]
    · rw [if_neg hx']
      exact Nat.zero_le _

namespace CompiledPolicy

variable {left' right' : Dict} {m : MatchingRules}

theorem compareRuleOver_ok {K : Type} [Field K] [LinearOrder K] {log : K → K}
    {row : Extended ℚ × Extended ℚ × Extended K}
    (h : compareRuleOver rt log left right (.str m.algorithm) rule = .ok row) :
    ruleScore rt left right rule = .ok (row.1, row.2.1) ∧
      if m.algorithm = "fellegi_sunter" then
        ∃ p q, (rule.get "m_probability").arith = .ok p ∧ (rule.get "u_probability").arith = .ok q ∧
          row.2.2 = Extended.logLikelihood log (p : K) q (row.1.map fun c : ℚ => (c : K))
      else row.2.2 = 0 := by
  unfold compareRuleOver ruleOdds at h
  simp only [Except.bind_eq_ok, Except.pure_eq_ok, Prod.exists] at h
  obtain ⟨component, weight, hscore, odds, hodds, rfl⟩ := h
  refine ⟨hscore, ?_⟩
  by_cases hfs : m.algorithm = "fellegi_sunter"
  · rw [if_pos (by simp [hfs, Json.pyEq])] at hodds
    simp only [Except.bind_eq_ok, Except.pure_eq_ok] at hodds
    obtain ⟨p, hp, q, hq, rfl⟩ := hodds
    rw [if_pos hfs]
    exact ⟨p, q, hp, hq, rfl⟩
  · rw [if_neg (by simp [hfs, Json.pyEq]), Except.pure_eq_ok] at hodds
    rw [if_neg hfs]
    exact hodds.symm

theorem mapM_ruleScore {K : Type} [Field K] [LinearOrder K] {log : K → K} {rules : List Dict}
    {rows : List (Extended ℚ × Extended ℚ × Extended K)}
    (h : rules.mapM (compareRuleOver rt log left right (.str m.algorithm)) = .ok rows) :
    rules.mapM (ruleScore rt left right) = .ok (rows.map fun r => (r.1, r.2.1)) := by
  induction rules generalizing rows with
  | nil =>
    rw [List.mapM_nil, Except.pure_eq_ok] at h
    rw [← h]
    rfl
  | cons rule rules ih =>
    simp only [List.mapM_cons, Except.bind_eq_ok, Except.pure_eq_ok] at h ⊢
    obtain ⟨row, hrow, rest, hrest, rfl⟩ := h
    exact ⟨_, (compareRuleOver_ok hrow).1, _, ih hrest, rfl⟩

theorem ruleScore_weight {component weight : Extended ℚ}
    (h : ruleScore rt left right rule = .ok (component, weight)) :
    Json.toFloat rt (rule.get "weight") = .ok weight := by
  have hrest : ∀ {found : Py (Extended ℚ)}, (do
      let component ← found
      let weight ← Json.toFloat rt (rule.get "weight")
      return (component, weight)) = .ok (component, weight) →
      Json.toFloat rt (rule.get "weight") = .ok weight := by
    intro found hfound
    simp only [Except.bind_eq_ok, Except.pure_eq_ok, Prod.mk.injEq] at hfound
    obtain ⟨_, -, _, hweight, -, rfl⟩ := hfound
    exact hweight
  unfold ruleScore at h
  split at h
  · simp only [Except.bind_eq_ok] at h
    obtain ⟨a, -, b, -, h⟩ := h
    split at h
    · exact hrest h
    · split at h
      · exact hrest h
      · exact hrest h
      · exact hrest h
  · cases h

/-- A rule of the second algorithm adds a number to the log-odds for each number. -/
theorem logLikelihood_map {p q : ℚ} (hq : 0 < q) (hqp : q < p) (hp : p < 1) (x : Extended ℚ) :
    Extended.logLikelihood Real.log (p : ℝ) q (x.map fun c : ℚ => (c : ℝ)) =
      x.map fun c : ℚ => Scoring.logLikelihood Real.log (p : ℝ) q c := by
  have hgain : Real.log ((1 - p) / (1 - q)) < Real.log (p / q) := by
    have hq' : (0 : ℝ) < q := Rat.cast_pos.mpr hq
    have hqp' : (q : ℝ) < p := Rat.cast_lt.mpr hqp
    have hp' : (p : ℝ) < 1 := by exact_mod_cast hp
    refine Real.log_lt_log (div_pos (by linarith) (by linarith)) (lt_trans ?_ ((one_lt_div hq').mpr hqp'))
    exact (div_lt_one (by linarith)).mpr (by linarith)
  rw [Extended.logLikelihood_eq hgain]
  cases x <;> rfl

/-- A rule that finds more agreement adds no less to the score. -/
theorem compareRuleOver_mono {row row' : Extended ℚ × Extended ℚ × Extended ℝ} (hm : m.Accepted rt)
    (hrule : rule ∈ m.rules)
    (hle : ∀ r r', ruleScore rt left right rule = .ok r → ruleScore rt left' right' rule = .ok r' →
      r.1 ≤ r'.1)
    (h : compareRuleOver rt Real.log left right (.str m.algorithm) rule = .ok row)
    (h' : compareRuleOver rt Real.log left' right' (.str m.algorithm) rule = .ok row') :
    row.1 ≤ row'.1 ∧ row.2.1 = row'.2.1 ∧ ¬ row.2.1 ≤ 0 ∧ row.2.2 ≤ row'.2.2 := by
  obtain ⟨hscore, hodds⟩ := compareRuleOver_ok h
  obtain ⟨hscore', hodds'⟩ := compareRuleOver_ok h'
  have hcomponent : row.1 ≤ row'.1 := hle _ _ hscore hscore'
  obtain ⟨weight, hweight, hpos⟩ := hm.weight hrule
  have hw := Except.ok.inj (hweight.symm.trans (ruleScore_weight hscore))
  have hw' := Except.ok.inj (hweight.symm.trans (ruleScore_weight hscore'))
  refine ⟨hcomponent, hw.symm.trans hw', hw ▸ hpos, ?_⟩
  by_cases hfs : m.algorithm = "fellegi_sunter"
  · rw [if_pos hfs] at hodds hodds'
    obtain ⟨p, q, hp, hq, hrow⟩ := hodds
    obtain ⟨p', q', hp', hq', hrow'⟩ := hodds'
    obtain rfl := Except.ok.inj (hp.symm.trans hp')
    obtain rfl := Except.ok.inj (hq.symm.trans hq')
    obtain ⟨hq0, hqp, hp1⟩ := hm.chances hfs hrule hp hq
    rw [hrow, hrow', logLikelihood_map hq0 hqp hp1, logLikelihood_map hq0 hqp hp1]
    refine Extended.map_le_map (fun c c' hc => ?_) hcomponent
    exact Scoring.logLikelihood_mono (fun _ _ => Real.log_le_log) (Rat.cast_pos.mpr hq0)
      (Rat.cast_lt.mpr hqp) (by exact_mod_cast hp1) (Rat.cast_le.mpr hc)
  · rw [if_neg hfs] at hodds hodds'
    rw [hodds, hodds']
    exact Extended.zero_le_zero

/-- Of two comparisons under one policy, the second finds no less agreement in any rule. -/
def Agrees (rt : Runtime) (policy : CompiledPolicy) (left right left' right' : Dict) : Prop :=
  ∀ rule ∈ maps (policy.matching.get "comparisons"), ∀ r r', ruleScore rt left right rule = .ok r →
    ruleScore rt left' right' rule = .ok r' → r.1 ≤ r'.1

theorem exactScore_mono {rules : List Dict} {rows rows' : List (Extended ℚ × Extended ℚ × Extended ℝ)}
    (hm : m.Accepted rt)
    (hsub : ∀ rule ∈ rules, rule ∈ m.rules)
    (hle : ∀ rule ∈ rules, ∀ r r', ruleScore rt left right rule = .ok r →
      ruleScore rt left' right' rule = .ok r' → r.1 ≤ r'.1)
    (h : rules.mapM (compareRuleOver rt Real.log left right (.str m.algorithm)) = .ok rows)
    (h' : rules.mapM (compareRuleOver rt Real.log left' right' (.str m.algorithm)) = .ok rows') :
    ∀ x y, m.exactScore Real.log (fun x => some (Real.exp x)) rows = some x →
      m.exactScore Real.log (fun x => some (Real.exp x)) rows' = some y → x ≠ .nan → y ≠ .nan →
        x ≤ y := by
  have hrows : List.Forall₂ (fun r r' : Extended ℚ × Extended ℚ × Extended ℝ => r.1 ≤ r'.1 ∧
      r.2.1 = r'.2.1 ∧ ¬ r.2.1 ≤ 0 ∧ r.2.2 ≤ r'.2.2) rows rows' := by
    induction rules generalizing rows rows' with
    | nil =>
      rw [List.mapM_nil, Except.pure_eq_ok] at h h'
      rw [← h, ← h']
      exact .nil
    | cons rule rules ih =>
      rw [List.forall_mem_cons] at hsub hle
      simp only [List.mapM_cons, Except.bind_eq_ok, Except.pure_eq_ok] at h h'
      obtain ⟨row, hrow, rest, hrest, rfl⟩ := h
      obtain ⟨row', hrow', rest', hrest', rfl⟩ := h'
      exact .cons (compareRuleOver_mono hm hsub.1 hle.1 hrow hrow') (ih hsub.2 hle.2 hrest hrest')
  unfold MatchingRules.exactScore
  split
  · rw [Extended.posterior_eq, Extended.posterior_eq]
    rintro _ _ ⟨⟩ ⟨⟩ hn hn'
    have hodds : ∀ {z : Extended ℝ}, Extended.posterior Real.exp z ≠ .nan → z ≠ .nan := by
      rintro z hz rfl
      exact hz rfl
    obtain ⟨hprior, hsum⟩ := Extended.add_ne_nan (hodds hn)
    refine Extended.posterior_mono (fun _ _ => Real.exp_le_exp.mpr) (fun x => (Real.exp_pos x).le) ?_
    refine Extended.add_le_add (le_refl (Real.log _)) ?_ (hodds hn) (hodds hn')
    refine Extended.sum_le_sum ?_ hsum (Extended.add_ne_nan (hodds hn')).2
    exact List.forall₂_map_left_iff.mpr (List.forall₂_map_right_iff.mpr
      (hrows.imp fun r r' hr _ _ => hr.2.2.2))
  · rintro _ _ ⟨⟩ ⟨⟩ hn hn'
    refine Extended.map_le_map (fun _ _ => Rat.cast_le.mpr) ?_
    refine Extended.mean_mono ?_ (Extended.map_ne_nan.mp hn) (Extended.map_ne_nan.mp hn')
    exact List.forall₂_map_left_iff.mpr (List.forall₂_map_right_iff.mpr
      (hrows.imp fun r r' hr => ⟨hr.1, hr.2.1, hr.2.2.1⟩))

/-- More agreement never lowers a score, nor does it weaken a decision. Of scores that are none nothing
is said. -/
theorem agreement_helps {definition : Json} (h : compilePolicy rt definition = .ok policy)
    (hle : Agrees rt policy left right left' right')
    (hno : policy.contradictions left right = .ok [])
    (hno' : policy.contradictions left' right' = .ok []) {a a' : Assessment ℝ}
    (ha : policy.compareExact rt left right = .ok a) (ha' : policy.compareExact rt left' right' = .ok a')
    (hn : a.exact ≠ .nan) (hn' : a'.exact ≠ .nan) :
    a.score ≤ a'.score ∧ a.decision.strength ≤ a'.decision.strength := by
  obtain ⟨m, hmatching, hm⟩ := compilePolicy_matching h
  obtain ⟨found, rows, hfound, hrows, hexact, hscore, hdecision⟩ :=
    MatchingRules.compareOver_ok hm hmatching ha
  obtain ⟨found', rows', hfound', hrows', hexact', hscore', hdecision'⟩ :=
    MatchingRules.compareOver_ok hm hmatching ha'
  obtain rfl := Except.ok.inj (hno.symm.trans hfound)
  obtain rfl := Except.ok.inj (hno'.symm.trans hfound')
  have hrules : maps (policy.matching.get "comparisons") = m.rules := by
    rw [MatchingRules.matching_entries hmatching]
    rfl
  have hmono : a.score ≤ a'.score := by
    rw [hscore, hscore']
    exact Extended.map_le_map (fun _ _ => Scoring.roundTo_mono) (exactScore_mono hm (fun _ => id)
      (hrules ▸ hle) hrows hrows' _ _ hexact hexact' hn hn')
  refine ⟨hmono, ?_⟩
  rw [hdecision, hdecision']
  exact MatchingRules.decisionOf_mono hm.thresholds.2.1 hmono

end CompiledPolicy

namespace Supplier

def first : Dict := [("name", .str "A"), ("city", .str "X")]

def second : Dict := [("name", .str "A"), ("city", .str "Y")]

/-- Two equal suppliers agree no less than two of one name. -/
theorem agreement_helps_twins : ∃ policy a a', compilePolicy .plain (.obj definition) = .ok policy ∧
    policy.compareExact .plain first second = .ok a ∧ policy.compareExact .plain first first = .ok a' ∧
    a.score ≤ a'.score ∧ a.decision.strength ≤ a'.decision.strength := by
  have hchecked : ((compilePolicy .plain (.obj definition)).toOption.any fun policy =>
      (policy.compare .plain first second).isOk && (policy.compare .plain first first).isOk &&
        decide (policy.matching.get "algorithm" = .str "weighted_score") &&
        ((CompiledPolicy.maps (policy.matching.get "comparisons")).mapM
          (CompiledPolicy.ruleScore .plain first second)).toOption.any (fun rows =>
            decide (Extended.mean rows ≠ .nan)) &&
        ((CompiledPolicy.maps (policy.matching.get "comparisons")).mapM
          (CompiledPolicy.ruleScore .plain first first)).toOption.any (fun rows =>
            decide (Extended.mean rows ≠ .nan)) &&
        (policy.contradictions first second).toOption.any List.isEmpty &&
        (policy.contradictions first first).toOption.any List.isEmpty &&
        (CompiledPolicy.maps (policy.matching.get "comparisons")).all fun rule =>
          (CompiledPolicy.ruleScore .plain first second rule).toOption.all fun r =>
            (CompiledPolicy.ruleScore .plain first first rule).toOption.all fun r' =>
              decide (r.1 ≤ r'.1)) = true := by
    decide +kernel
  obtain ⟨policy, hpolicy, hchecked⟩ := Except.of_any hchecked
  simp only [Bool.and_eq_true, List.all_eq_true, decide_eq_true_eq] at hchecked
  obtain ⟨⟨⟨⟨⟨⟨⟨hok, hok'⟩, halgorithm⟩, hmean⟩, hmean'⟩, hnone⟩, hnone'⟩, hagrees⟩ := hchecked
  obtain ⟨a, ha⟩ := CompiledPolicy.compareExact_ok hok
  obtain ⟨a', ha'⟩ := CompiledPolicy.compareExact_ok hok'
  obtain ⟨found, hfound, hempty⟩ := Except.of_any hnone
  obtain ⟨found', hfound', hempty'⟩ := Except.of_any hnone'
  obtain rfl := List.isEmpty_iff.mp hempty
  obtain rfl := List.isEmpty_iff.mp hempty'
  refine ⟨policy, a, a', hpolicy, ha, ha', CompiledPolicy.agreement_helps hpolicy ?_ hfound hfound' ha ha'
    (CompiledPolicy.exact_ne_nan hpolicy halgorithm hmean ha)
    (CompiledPolicy.exact_ne_nan hpolicy halgorithm hmean' ha')⟩
  intro rule hrule r r' hr hr'
  have hle := hagrees rule hrule
  rw [hr, hr'] at hle
  exact of_decide_eq_true hle

end Supplier

/-- The decision that two thresholds make of a score. -/
def DecidedBy (review autoLink : ℚ) (decision : MatchDecision) (score : Extended ℚ) : Prop :=
  (decision = .autoLink ↔ .finite autoLink ≤ score) ∧
    (decision = .review ↔ score < .finite autoLink ∧ .finite review ≤ score) ∧
    (decision = .noLink ↔ ¬ .finite autoLink ≤ score ∧ ¬ .finite review ≤ score)

theorem MatchingRules.decidedBy {m : MatchingRules} {score : Extended ℚ} :
    DecidedBy m.review m.autoLink (m.decisionOf false score) score := by
  have hbelow : .finite m.review ≤ score → (¬ .finite m.autoLink ≤ score ↔ score < .finite m.autoLink) :=
    fun hreview => Extended.not_le_iff nofun (Extended.ne_nan_of_le hreview).2
  unfold decisionOf DecidedBy
  rw [if_neg Bool.false_ne_true, Rat.cast_id, Rat.cast_id]
  by_cases hreview : .finite m.review ≤ score
  · rw [← hbelow hreview]
    by_cases hauto : .finite m.autoLink ≤ score <;> simp [hauto, hreview]
  · by_cases hauto : .finite m.autoLink ≤ score <;> simp [hauto, hreview]

namespace CompiledPolicy

/-- The thresholds are applied to the weighted mean rounded to four digits. -/
theorem decided_by_rounded_mean {definition : Json} {e : MatchEvidence}
    (h : compilePolicy rt definition = .ok policy)
    (halgorithm : policy.matching.get "algorithm" = .str "weighted_score")
    (hno : policy.contradictions left right = .ok []) (he : policy.compare rt left right = .ok e) :
    ∃ rows review autoLink,
      (maps (policy.matching.get "comparisons")).mapM (ruleScore rt left right) = .ok rows ∧
      policy.matching.get "thresholds" =
        .obj [("review", .float review), ("auto_link", .float autoLink)] ∧
      DecidedBy review autoLink e.decision (roundFloat (Extended.mean rows) 4) := by
  obtain ⟨m, hmatching, hm⟩ := compilePolicy_matching h
  have hpart := MatchingRules.matching_entries hmatching
  have hweighted : m.algorithm ≠ "fellegi_sunter" := by
    rw [hpart] at halgorithm
    have hname : m.algorithm = "weighted_score" := Json.str.inj halgorithm
    rw [hname]
    decide
  have hover := @compare_over rt policy left right
  rw [he] at hover
  cases ha : policy.compareOver rt rt.log rt.exp left right with
  | error e' =>
    rw [ha] at hover
    cases hover
  | ok a =>
    rw [ha] at hover
    obtain ⟨hscore, hdecision⟩ := Prod.mk.inj (Except.ok.inj hover)
    obtain ⟨found, rows, hfound, hrows, hexact, hrounded, hdecided⟩ :=
      MatchingRules.compareOver_ok hm hmatching ha
    obtain rfl := Except.ok.inj (hno.symm.trans hfound)
    refine ⟨rows.map fun r => (r.1, r.2.1), m.review, m.autoLink, ?_, ?_, ?_⟩
    · rw [hpart]
      exact mapM_ruleScore hrows
    · rw [hpart]
      rfl
    · have hmean : a.score = roundFloat (Extended.mean (rows.map fun r => (r.1, r.2.1))) 4 := by
        rw [MatchingRules.exactScore, if_neg hweighted] at hexact
        rw [hrounded, ← Option.some.inj hexact, MatchingRules.digits, if_neg hweighted]
        simp only [Rat.cast_id, Extended.map_id]
        rfl
      rw [hdecision, hdecided, ← hmean]
      exact MatchingRules.decidedBy

end CompiledPolicy

namespace Supplier

/-- The name hardly counts, and only a full score links. -/
def lopsided : Dict := [
  ("attributes", .arr [.obj [("key", .str "name")], .obj [("key", .str "city")]]),
  ("matching", .obj [("comparisons", .arr [
      .obj [("field", .str "name"), ("comparator", .str "exact"), ("weight", .int 1)],
      .obj [("field", .str "city"), ("comparator", .str "exact"), ("weight", .int 99999)]]),
    ("review", .float (1 / 2)), ("auto_link", .float 1)])]

def third : Dict := [("name", .str "B"), ("city", .str "X")]

theorem lopsided_run : ∃ policy e rows, compilePolicy .plain (.obj lopsided) = .ok policy ∧
    policy.matching.get "algorithm" = .str "weighted_score" ∧
    policy.contradictions first third = .ok [] ∧ policy.compare .plain first third = .ok e ∧
    (CompiledPolicy.maps (policy.matching.get "comparisons")).mapM
      (CompiledPolicy.ruleScore .plain first third) = .ok rows ∧
    policy.matching.get "thresholds" = .obj [("review", .float (1 / 2)), ("auto_link", .float 1)] ∧
    e.decision = .autoLink ∧ Extended.mean rows < 1 := by
  have hrun : ((compilePolicy .plain (.obj lopsided)).toOption.any fun policy =>
      ((policy.compare .plain first third).toOption.any fun e => decide (e.decision = .autoLink)) &&
        (((CompiledPolicy.maps (policy.matching.get "comparisons")).mapM
          (CompiledPolicy.ruleScore .plain first third)).toOption.any fun rows =>
            decide (Extended.mean rows < 1)) &&
        (policy.contradictions first third).toOption.any List.isEmpty &&
        decide (policy.matching.get "algorithm" = .str "weighted_score") &&
        decide (policy.matching.get "thresholds" =
          .obj [("review", .float (1 / 2)), ("auto_link", .float 1)])) = true := by
    decide +kernel
  obtain ⟨policy, hpolicy, hrun⟩ := Except.of_any hrun
  simp only [Bool.and_eq_true, decide_eq_true_eq] at hrun
  obtain ⟨⟨⟨⟨hcompared, hscored⟩, hnone⟩, halgorithm⟩, hthresholds⟩ := hrun
  obtain ⟨e, he, hlinked⟩ := Except.of_any hcompared
  obtain ⟨rows, hrows, hmean⟩ := Except.of_any hscored
  obtain ⟨found, hfound, hempty⟩ := Except.of_any hnone
  obtain rfl := List.isEmpty_iff.mp hempty
  exact ⟨policy, e, rows, hpolicy, halgorithm, hfound, he, hrows, hthresholds, of_decide_eq_true hlinked,
    of_decide_eq_true hmean⟩

/-- The mean 0.99999 falls short of the threshold, and the pair is linked. -/
theorem rounded_to_link : ¬ ∀ (definition : Json) (policy : CompiledPolicy) (left right : Dict)
    (e : MatchEvidence) (rows : List (Extended ℚ × Extended ℚ)) (review autoLink : ℚ),
    compilePolicy .plain definition = .ok policy →
    policy.matching.get "algorithm" = .str "weighted_score" →
    policy.contradictions left right = .ok [] → policy.compare .plain left right = .ok e →
    (CompiledPolicy.maps (policy.matching.get "comparisons")).mapM
      (CompiledPolicy.ruleScore .plain left right) = .ok rows →
    policy.matching.get "thresholds" = .obj [("review", .float review), ("auto_link", .float autoLink)] →
    DecidedBy review autoLink e.decision (Extended.mean rows) := by
  intro h
  obtain ⟨policy, e, rows, hpolicy, halgorithm, hno, he, hrows, hthresholds, hlinked, hmean⟩ := lopsided_run
  have hdecided := h _ policy first third e rows _ _ hpolicy halgorithm hno he hrows hthresholds
  exact Extended.not_lt (hdecided.1.mp hlinked) hmean

/-- The rounded mean links the pair. -/
theorem decided_by_rounded_mean_lopsided : ∃ policy e, compilePolicy .plain (.obj lopsided) = .ok policy ∧
    policy.compare .plain first third = .ok e ∧ ∃ rows review autoLink,
      (CompiledPolicy.maps (policy.matching.get "comparisons")).mapM
        (CompiledPolicy.ruleScore .plain first third) = .ok rows ∧
      policy.matching.get "thresholds" =
        .obj [("review", .float review), ("auto_link", .float autoLink)] ∧
      DecidedBy review autoLink e.decision (roundFloat (Extended.mean rows) 4) := by
  obtain ⟨policy, e, _, hpolicy, halgorithm, hno, he, -⟩ := lopsided_run
  exact ⟨policy, e, hpolicy, he, CompiledPolicy.decided_by_rounded_mean hpolicy halgorithm hno he⟩

end Supplier

end Recordlane
