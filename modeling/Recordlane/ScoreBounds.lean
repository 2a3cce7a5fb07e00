import Recordlane.Symmetry

/-! When the score of a comparison stays between zero and one. -/
namespace Recordlane

variable {rt : Runtime} {policy : CompiledPolicy} {left right : Dict} {rule : Dict} {m : MatchingRules}

/-- A value that can be looked up in a record. -/
def Json.isKey : Json → Bool
  | .arr _ | .obj _ => false
  | _ => true

theorem Json.lookup_key {field : Json} (h : field.isKey = true) (d : Dict) :
    ∃ v, Json.lookup d field = .ok v := by
  cases field with
  | arr xs => cases h
  | obj kvs => cases h
  | _ => exact ⟨_, rfl⟩

namespace CompiledPolicy

/-- No identifier and no rule stops a comparison from looking up its field, nor does a rule of the second
algorithm from dividing its chances. -/
def Comparable (policy : CompiledPolicy) : Prop :=
  (∀ identifier ∈ policy.identifiers, (identifier.get "field").isKey = true) ∧
    ∀ rule ∈ maps (policy.matching.get "comparisons"),
      (∃ field, rule.get? "field" = some field ∧ field.isKey = true) ∧
      (policy.matching.get "algorithm" = .str "fellegi_sunter" → ∃ m u : ℚ,
        (rule.get "m_probability").arith = .ok m ∧ (rule.get "u_probability").arith = .ok u)

/-- The missing score of a rule, with its weight. -/
def missingRow (rt : Runtime) (rule : Dict) : Py (Extended ℚ × Extended ℚ) := do
  let component ← Json.toFloat rt ((rule.get? "missing_score").getD (.float 0))
  let weight ← Json.toFloat rt (rule.get "weight")
  return (component, weight)

/-- Whether the field of a rule is missing, when these fields are. -/
def absent (missing : String → Bool) (rule : Dict) : Bool :=
  match rule.get "field" with
  | .str k => missing k
  | _ => true

/-- All weights are numbers, and whatever is missing, the missing scores stay within the weights of their
rules. -/
def Confined (rt : Runtime) (policy : CompiledPolicy) : Prop :=
  ∀ (missing : String → Bool) (rows : List (Extended ℚ × Extended ℚ)),
    ((maps (policy.matching.get "comparisons")).filter (absent missing)).mapM (missingRow rt) = .ok rows →
    (∀ rule ∈ maps (policy.matching.get "comparisons"), ∃ q,
      Json.toFloat rt (rule.get "weight") = .ok (.finite q)) ∧
    ∃ numbers, rows = Extended.lift numbers ∧ 0 ≤ (numbers.map fun r => r.1 * r.2).sum ∧
      (numbers.map fun r => r.1 * r.2).sum ≤ (numbers.map Prod.snd).sum

/-- Whatever is missing, the missing scores have a sum. -/
def Summed (rt : Runtime) (policy : CompiledPolicy) : Prop :=
  ∀ (missing : String → Bool) (rows : List (Extended ℚ × Extended ℚ)),
    ((maps (policy.matching.get "comparisons")).filter (absent missing)).mapM (missingRow rt) = .ok rows →
    (rows.map Prod.fst).sum ≠ .nan

/-- The fields that two records do not both have. -/
def missingIn (left right : Dict) (k : String) : Bool := (left.get k).blank || (right.get k).blank

/-- The field of a rule, as far as records can have it. -/
def fieldName (rule : Dict) : String :=
  match rule.get "field" with
  | .str k => k
  | _ => ""

/-- The component of a rule whose field both records have. -/
def presentScore (rt : Runtime) (left right rule : Dict) : ℚ :=
  if rule.get "comparator" = .str "exact" then
    if (left.get (fieldName rule)).pyEq (right.get (fieldName rule)) then 1 else 0
  else rt.sequenceRatio (rt.strOf (left.get (fieldName rule))) (rt.strOf (right.get (fieldName rule)))

theorem ruleScore_eq {field : Json} (hf : rule.get? "field" = some field) (hkey : field.isKey = true)
    (hc : memberOf (rule.get "comparator") ["exact", "sequence_ratio"] = true) :
    ruleScore rt left right rule =
      if absent (missingIn left right) rule then missingRow rt rule
      else (Json.toFloat rt (rule.get "weight")).map fun weight =>
        (.finite (presentScore rt left right rule), weight) := by
  have hget : rule.get "field" = field := by rw [Dict.get, hf, Option.getD_some]
  rcases lookup_cases field with ⟨k, rfl⟩ | hnull | herror
  · have hfound : ∀ d : Dict, Json.lookup d (.str k) = .ok (d.get k) := fun _ => rfl
    have habsent : absent (missingIn left right) rule = ((left.get k).blank || (right.get k).blank) := by
      simp only [absent, hget, missingIn]
    have hname : fieldName rule = k := by rw [fieldName, hget]
    unfold ruleScore
    simp only [hf, hfound, bind, Except.bind]
    rw [habsent]
    by_cases hblank : ((left.get k).blank || (right.get k).blank) = true
    · rw [if_pos hblank, if_pos hblank]
      rfl
    · rw [if_neg hblank, if_neg hblank, presentScore, hname]
      obtain ⟨c, hcomparator, hmem⟩ := memberOf_str hc
      rw [hcomparator]
      simp only [List.mem_cons, List.not_mem_nil, or_false] at hmem
      rcases hmem with rfl | rfl
      · cases Json.toFloat rt (rule.get "weight") <;> rfl
      · cases Json.toFloat rt (rule.get "weight") <;> rfl
  · have habsent : absent (missingIn left right) rule = true := by
      rw [absent, hget]
      split
      · next k =>
        have hk := hnull [(k, .bool true)]
        rw [Json.lookup, Dict.get, Dict.get?, List.find?_cons_of_pos (by simp)] at hk
        cases hk
      · rfl
    rw [habsent, if_pos rfl]
    unfold ruleScore
    simp only [hf, hnull, bind, Except.bind]
    rfl
  · obtain ⟨v, hv⟩ := Json.lookup_key hkey left
    rw [herror] at hv
    cases hv

/-- What a compiled rule has been checked for. -/
structure Compares (rt : Runtime) (rule : Dict) : Prop where
  field : ∃ field, rule.get? "field" = some field ∧ field.isKey = true
  comparator : memberOf (rule.get "comparator") ["exact", "sequence_ratio"] = true
  weight : ∃ weight, Json.toFloat rt (rule.get "weight") = .ok weight ∧ ¬ weight ≤ 0

theorem Compares.ruleScore_cases (h : Compares rt rule) (left right : Dict) :
    (absent (missingIn left right) rule = true ∧ ruleScore rt left right rule = missingRow rt rule) ∨
      absent (missingIn left right) rule = false ∧ ∃ weight, ¬ weight ≤ 0 ∧
        ruleScore rt left right rule = .ok (.finite (presentScore rt left right rule), weight) := by
  obtain ⟨field, hf, hkey⟩ := h.field
  obtain ⟨weight, hweight, hpos⟩ := h.weight
  rw [ruleScore_eq hf hkey h.comparator, hweight]
  cases habsent : absent (missingIn left right) rule with
  | true => exact .inl ⟨rfl, if_pos rfl⟩
  | false => exact .inr ⟨rfl, weight, hpos, if_neg Bool.false_ne_true⟩

/-- The sum of the scores is that of the missing ones and what the records have in common. -/
theorem scores_split {rules : List Dict} {scores : List (Extended ℚ × Extended ℚ)}
    {missing : List (ℚ × ℚ)} {low high : ℚ}
    (hrules : ∀ rule ∈ rules, Compares rt rule)
    (hweights : ∀ rule ∈ rules, ∃ q, Json.toFloat rt (rule.get "weight") = .ok (.finite q))
    (hpresent : ∀ rule ∈ rules, absent (missingIn left right) rule = false →
      low ≤ presentScore rt left right rule ∧ presentScore rt left right rule ≤ high)
    (hmissing : (rules.filter (absent (missingIn left right))).mapM (missingRow rt) =
      .ok (Extended.lift missing))
    (h : rules.mapM (ruleScore rt left right) = .ok scores) :
    ∃ numbers rest, scores = Extended.lift numbers ∧ 0 ≤ rest ∧
      (numbers.map Prod.snd).sum = (missing.map Prod.snd).sum + rest ∧
      (missing.map fun r => r.1 * r.2).sum + low * rest ≤ (numbers.map fun r => r.1 * r.2).sum ∧
      (numbers.map fun r => r.1 * r.2).sum ≤ (missing.map fun r => r.1 * r.2).sum + high * rest := by
  induction rules generalizing scores missing with
  | nil =>
    rw [List.filter_nil, List.mapM_nil, Except.pure_eq_ok] at hmissing
    rw [List.mapM_nil, Except.pure_eq_ok] at h
    rw [List.map_eq_nil_iff.mp hmissing.symm, ← h]
    exact ⟨[], 0, rfl, le_rfl, by simp, by simp, by simp⟩
  | cons rule rules ih =>
    rw [List.forall_mem_cons] at hrules hweights hpresent
    simp only [List.mapM_cons, Except.bind_eq_ok, Except.pure_eq_ok] at h
    obtain ⟨score, hscore, others, hothers, rfl⟩ := h
    rcases hrules.1.ruleScore_cases left right with
      ⟨habsent, hrow⟩ | ⟨habsent, weight, hpos, hrow⟩
    · rw [List.filter_cons_of_pos habsent] at hmissing
      simp only [List.mapM_cons, Except.bind_eq_ok, Except.pure_eq_ok] at hmissing
      obtain ⟨row, hfirst, rows, hrows, hlift⟩ := hmissing
      obtain ⟨number, more, rfl, rfl, rfl⟩ := List.map_eq_cons_iff.mp hlift.symm
      obtain ⟨numbers, rest, rfl, hrest, htotal, hlow, hhigh⟩ :=
        ih hrules.2 hweights.2 hpresent.2 hrows hothers
      refine ⟨number :: numbers, rest, ?_, hrest, ?_, ?_, ?_⟩
      · rw [← Except.ok.inj (hfirst.symm.trans (hrow.symm.trans hscore))]
        rfl
      all_goals
        simp only [List.map_cons, List.sum_cons]
        linarith
    · rw [List.filter_cons_of_neg (by simp [habsent])] at hmissing
      obtain ⟨numbers, rest, rfl, hrest, htotal, hlow, hhigh⟩ :=
        ih hrules.2 hweights.2 hpresent.2 hmissing hothers
      obtain ⟨q, hq⟩ := hweights.1
      obtain rfl := Except.ok.inj (hrow.symm.trans hscore)
      obtain rfl := Except.ok.inj (hq.symm.trans (ruleScore_weight hrow))
      have hpos' : 0 < q := not_le.mp hpos
      obtain ⟨hge, hle⟩ := hpresent.1 habsent
      have hscaled := mul_le_mul_of_nonneg_right hge hpos'.le
      have hscaled' := mul_le_mul_of_nonneg_right hle hpos'.le
      refine ⟨(presentScore rt left right rule, q) :: numbers, rest + q, rfl, by linarith, ?_, ?_, ?_⟩
      all_goals
        simp only [List.map_cons, List.sum_cons]
        linarith

/-- The log-odds of the rules are a number, an infinity or none as the sum of the missing scores is. -/
theorem odds_alike {rules : List Dict} {rows : List (Extended ℚ × Extended ℚ × Extended ℝ)}
    (hm : m.Accepted rt) (hfs : m.algorithm = "fellegi_sunter") (hrules : ∀ rule ∈ rules, Compares rt rule)
    (hsub : ∀ rule ∈ rules, rule ∈ m.rules)
    (h : rules.mapM (compareRuleOver rt Real.log left right (.str m.algorithm)) = .ok rows) :
    ∃ missing, (rules.filter (absent (missingIn left right))).mapM (missingRow rt) = .ok missing ∧
      Extended.Alike (rows.map fun r => r.2.2).sum (missing.map Prod.fst).sum := by
  induction rules generalizing rows with
  | nil =>
    rw [List.mapM_nil, Except.pure_eq_ok] at h
    rw [← h]
    exact ⟨[], rfl, trivial⟩
  | cons rule rules ih =>
    rw [List.forall_mem_cons] at hrules hsub
    simp only [List.mapM_cons, Except.bind_eq_ok, Except.pure_eq_ok] at h
    obtain ⟨row, hrow, others, hothers, rfl⟩ := h
    obtain ⟨missing, hmissing, halike⟩ := ih hrules.2 hsub.2 hothers
    obtain ⟨hscore, hodds⟩ := compareRuleOver_ok hrow
    rw [if_pos hfs] at hodds
    obtain ⟨p, q, hp, hq, hodds⟩ := hodds
    obtain ⟨hq0, hqp, hp1⟩ := hm.chances hfs hsub.1 hp hq
    rw [logLikelihood_map hq0 hqp hp1] at hodds
    rw [List.map_cons, List.sum_cons, hodds]
    rcases hrules.1.ruleScore_cases left right with
      ⟨habsent, hfound⟩ | ⟨habsent, weight, -, hfound⟩
    · refine ⟨(row.1, row.2.1) :: missing, ?_, (Extended.alike_map row.1).add halike⟩
      rw [List.filter_cons_of_pos habsent]
      simp only [List.mapM_cons, Except.bind_eq_ok, Except.pure_eq_ok]
      exact ⟨_, hfound.symm.trans hscore, missing, hmissing, rfl⟩
    · have hnumber : row.1 = .finite (presentScore rt left right rule) :=
        (Prod.mk.inj (Except.ok.inj (hscore.symm.trans hfound))).1
      refine ⟨missing, ?_, ?_⟩
      · rwa [List.filter_cons_of_neg (by simp [habsent])]
      · rw [hnumber]
        exact Extended.Alike.finite_add _ halike

theorem compares_of_accepted (hm : m.Accepted rt) (hmatching : policy.document.get "matching" = m.json)
    (h : Comparable policy) : ∀ rule ∈ m.rules, Compares rt rule := by
  intro rule hrule
  have hrules : maps (policy.matching.get "comparisons") = m.rules := by
    rw [MatchingRules.matching_entries hmatching]
    rfl
  refine ⟨(h.2 rule (hrules ▸ hrule)).1, ?_, hm.weight hrule⟩
  obtain ⟨xs, hxs, hmem⟩ := MatchingRules.mem_maps.mp hrule
  obtain ⟨found, hfound, hchecked, -⟩ := hm.comparisons
  rw [hxs] at hfound
  obtain rfl := Except.ok.inj hfound
  have hcheck := forM_ok.mp hchecked _ hmem
  unfold checkComparison at hcheck
  simp only [Json.asDict, bind, Except.bind] at hcheck
  split at hcheck
  · cases hcheck
  · split at hcheck
    · cases hcheck
    · next hcomparator => simpa using hcomparator

theorem comparable_of_compareOver {K : Type} [Field K] [LinearOrder K] [FloorRing K] {log : K → K}
    {exp : K → Option K} {a : Assessment K} (hm : m.Accepted rt)
    (hmatching : policy.document.get "matching" = m.json)
    (h : policy.compareOver rt log exp left right = .ok a) : Comparable policy := by
  obtain ⟨contradictions, rows, hcontradictions, hrows, -⟩ := MatchingRules.compareOver_ok hm hmatching h
  have hlookup : ∀ {d : Dict} {field v : Json}, Json.lookup d field = .ok v → field.isKey = true := by
    intro d field v hv
    cases field with
    | arr xs => cases hv
    | obj kvs => cases hv
    | _ => rfl
  constructor
  · intro identifier hidentifier
    unfold CompiledPolicy.contradictions at hcontradictions
    simp only [Except.bind_eq_ok] at hcontradictions
    obtain ⟨found, hfound, -⟩ := hcontradictions
    obtain ⟨c, -, hc⟩ := (Except.mapM_mem hfound).2 identifier hidentifier
    unfold contradictionOn at hc
    simp only [Except.bind_eq_ok] at hc
    obtain ⟨v, hv, -⟩ := hc
    exact hlookup hv
  · intro rule hrule
    rw [MatchingRules.matching_entries hmatching] at hrule ⊢
    obtain ⟨row, -, hrow⟩ := (Except.mapM_mem hrows).2 rule hrule
    obtain ⟨hscore, hodds⟩ := compareRuleOver_ok hrow
    constructor
    · unfold ruleScore at hscore
      split at hscore
      · next field hfield =>
        simp only [Except.bind_eq_ok] at hscore
        obtain ⟨v, hv, -⟩ := hscore
        exact ⟨field, hfield, hlookup hv⟩
      · cases hscore
    · intro halgorithm
      have hfs : m.algorithm = "fellegi_sunter" := Json.str.inj halgorithm
      rw [if_pos hfs] at hodds
      obtain ⟨p, q, hp, hq, -⟩ := hodds
      exact ⟨p, q, hp, hq⟩

theorem contradictions_ok (h : Comparable policy) (left right : Dict) :
    ∃ found, policy.contradictions left right = .ok found := by
  have hall : ∀ identifier ∈ policy.identifiers, ∃ c, contradictionOn left right identifier = .ok c := by
    intro identifier hidentifier
    obtain ⟨a, ha⟩ := Json.lookup_key (h.1 identifier hidentifier) left
    obtain ⟨b, hb⟩ := Json.lookup_key (h.1 identifier hidentifier) right
    unfold contradictionOn
    simp only [ha, hb, bind, Except.bind]
    split <;> exact ⟨_, rfl⟩
  obtain ⟨found, hfound⟩ := Except.mapM_isOk hall
  refine ⟨found.filterMap id, ?_⟩
  rw [contradictions, hfound]
  rfl

/-- What is relied on of the texts of numbers and of their similarity. -/
structure ReadsNumbers (rt : Runtime) : Prop where
  text : ∀ s, rt.strOf (.str s) = s
  int : ∀ i : Int, rt.strOf (.int i) = toString i
  decimal : ∀ i : Nat, i < 10 → rt.decimal (toString i) = .finite ⟨false, i, 0⟩
  ratio : ∀ a b, rt.sequenceRatio a b = Difflib.ratio a.toList b.toList

/-- The scores of all comparisons lie between zero and one before they are rounded, and a threshold
above one links nothing. -/
def Bounded (rt : Runtime) (policy : CompiledPolicy) : Prop :=
  ∀ left right a, Normalized rt policy left → Normalized rt policy right →
    policy.compareExact rt left right = .ok a → (∃ x, a.exact = .finite x ∧ 0 ≤ x ∧ x ≤ 1) ∧
      ∀ thresholds autoLink, policy.matching.get "thresholds" = .obj thresholds →
        Dict.get thresholds "auto_link" = .float autoLink → 1 < autoLink → a.decision ≠ .autoLink

theorem presentScore_bounds (hrt : ReadsNumbers rt) (left right rule : Dict) :
    0 ≤ presentScore rt left right rule ∧ presentScore rt left right rule ≤ 1 := by
  unfold presentScore
  split
  · split
    · exact ⟨zero_le_one, le_rfl⟩
    · exact ⟨le_rfl, zero_le_one⟩
  · rw [hrt.ratio]
    exact ⟨Difflib.ratio_nonneg _ _, Difflib.ratio_le_one _ _⟩

/-- The score of a comparison is bounded where its missing scores are. -/
theorem exact_bounds (hrt : ReadsNumbers rt) (hm : m.Accepted rt)
    (hmatching : policy.document.get "matching" = m.json)
    (h : if m.algorithm = "fellegi_sunter" then Summed rt policy else Confined rt policy) {a : Assessment ℝ}
    (ha : policy.compareExact rt left right = .ok a) : ∃ x, a.exact = .finite x ∧ 0 ≤ x ∧ x ≤ 1 := by
  have hrules : maps (policy.matching.get "comparisons") = m.rules := by
    rw [MatchingRules.matching_entries hmatching]
    rfl
  have hcompares := compares_of_accepted hm hmatching (comparable_of_compareOver hm hmatching ha)
  by_cases hfs : m.algorithm = "fellegi_sunter"
  · rw [if_pos hfs] at h
    obtain ⟨contradictions, rows, -, hrows, hexact, -⟩ := MatchingRules.compareOver_ok hm hmatching ha
    obtain ⟨missing, hmissing, halike⟩ := odds_alike hm hfs hcompares (fun _ => id) hrows
    rw [MatchingRules.exactScore, if_pos hfs, Extended.posterior_eq] at hexact
    rw [← Option.some.inj hexact]
    refine Extended.posterior_bounds (fun x => (Real.exp_pos x).le) ?_
    exact mt (halike.finite_add _).nan_iff.mp (h _ missing (hrules ▸ hmissing))
  · rw [if_neg hfs] at h
    obtain ⟨scores, hscores, hexact⟩ := MatchingRules.exact_weighted hmatching hfs ha
    obtain ⟨rows, hrows⟩ : ∃ rows, (m.rules.filter (absent (missingIn left right))).mapM (missingRow rt) =
        .ok rows := by
      refine Except.mapM_isOk fun rule hrule => ?_
      obtain ⟨score, -, hscore⟩ := (Except.mapM_mem hscores).2 rule (List.mem_of_mem_filter hrule)
      rcases (hcompares rule (List.mem_of_mem_filter hrule)).ruleScore_cases left right with
        ⟨-, hrow⟩ | ⟨hpresent, -⟩
      · exact ⟨score, hrow.symm.trans hscore⟩
      · cases hpresent.symm.trans (List.mem_filter.mp hrule).2
    obtain ⟨hweights, missing, rfl, hnonneg, hle⟩ := h (missingIn left right) rows (hrules ▸ hrows)
    obtain ⟨numbers, rest, rfl, hrest, htotal, hlow, hhigh⟩ := scores_split hcompares (hrules ▸ hweights)
      (fun rule _ _ => presentScore_bounds hrt left right rule) hrows hscores
    have hmean : 0 ≤ Scoring.weightedMean numbers ∧ Scoring.weightedMean numbers ≤ 1 := by
      rw [Scoring.weightedMean]
      have htotal' : 0 ≤ (numbers.map Prod.snd).sum := by linarith
      exact ⟨div_nonneg (by linarith) htotal', div_le_one_of_le₀ (by linarith) htotal'⟩
    rw [hexact, Extended.mean_lift]
    refine ⟨_, rfl, ?_⟩
    change (0 : ℝ) ≤ (Scoring.weightedMean numbers : ℚ) ∧ ((Scoring.weightedMean numbers : ℚ) : ℝ) ≤ 1
    exact_mod_cast hmean

theorem digit_form : ∀ i : Nat, i < 10 →
    (Decimal.normalize .standard ⟨false, i, 0⟩).map Decimal.text = some (toString i) := by
  decide +kernel

/-- A digit as the policy leaves it under a key. -/
def numeral (policy : CompiledPolicy) (i : Nat) (k : String) : Json :=
  match policy.attribute? k with
  | some item => if (item.get? "type").getD (.str "string") = .str "decimal" then .str (toString i)
      else .int i
  | none => .int i

/-- The record with one digit under all of these keys. -/
def numerals (policy : CompiledPolicy) (i : Nat) (keys : List String) : Dict :=
  keys.map fun k => (k, numeral policy i k)

theorem numerals_normalized (hrt : ReadsNumbers rt) {i : Nat} (hi : i < 10) (keys : List String) :
    Normalized rt policy (numerals policy i keys) := by
  refine ⟨keys.map fun k => (k, .int i), ?_⟩
  unfold normalize numerals
  refine Except.mapM_map_ok fun k _ => ?_
  dsimp only
  cases hitem : policy.attribute? k with
  | none => simp only [numeral, hitem]; rfl
  | some item =>
    have hvalue : normalizeValue rt item (.int i) = .ok (numeral policy i k) := by
      have hdecimal : decimalForm rt (.int i) = .ok (.str (toString i)) := by
        have hparsed : rt.decimal (rt.strOf (.int i)) = .finite ⟨false, i, 0⟩ := by
          rw [hrt.int]
          exact hrt.decimal i hi
        unfold decimalForm
        rw [hparsed]
        have hform := digit_form i hi
        cases hn : Decimal.normalize .standard ⟨false, i, 0⟩ with
        | none =>
          rw [hn] at hform
          cases hform
        | some n =>
          rw [hn] at hform
          simp only [hn]
          rw [Option.some.inj hform]
      simp only [numeral, hitem]
      unfold normalizeValue
      generalize (item.get? "type").getD (.str "string") = kind
      by_cases hkind : kind = .str "decimal"
      · subst hkind
        simp only [hdecimal, if_true]
      · rw [if_neg hkind]
        dsimp only
        split
        · exact absurd rfl hkind
        · next hvalue => cases hvalue
        · next hvalue => cases hvalue
        · rfl
    simp only [hvalue]
    rfl

theorem numeral_blank (i : Nat) (k : String) : (numeral policy i k).blank = false := by
  unfold numeral
  cases policy.attribute? k with
  | none => rfl
  | some item =>
    dsimp only
    split
    · simp [Json.blank]
    · rfl

theorem numeral_text (hrt : ReadsNumbers rt) (i : Nat) (k : String) :
    rt.strOf (numeral policy i k) = toString i := by
  unfold numeral
  cases policy.attribute? k with
  | none => exact hrt.int i
  | some item =>
    dsimp only
    split
    · exact hrt.text _
    · exact hrt.int i

theorem get_numerals {i : Nat} {keys : List String} {k : String} :
    Dict.get (numerals policy i keys) k = if k ∈ keys then numeral policy i k else .null := by
  induction keys with
  | nil => rfl
  | cons key keys ih =>
    unfold numerals at ih ⊢
    rw [List.map_cons, Dict.get, Dict.get?, List.find?_cons]
    by_cases hk : key = k
    · simp [hk]
    · rw [decide_eq_false hk]
      rw [Dict.get, Dict.get?] at ih
      rw [ih]
      simp [Ne.symm hk]

/-- Two records that have digits under all fields of the rules but the missing ones. -/
def fieldsBut (missing : String → Bool) (m : MatchingRules) : List String :=
  (m.rules.map fieldName).filter fun k => !missing k

theorem absent_numerals {missing : String → Bool} (i j : Nat) (hrule : rule ∈ m.rules) :
    absent (missingIn (numerals policy i (fieldsBut missing m))
      (numerals policy j (fieldsBut missing m))) rule = absent missing rule := by
  unfold absent
  cases hfield : rule.get "field" with
  | str k =>
    have hname : k ∈ m.rules.map fieldName :=
      List.mem_map.mpr ⟨rule, hrule, by rw [fieldName, hfield]⟩
    have hmem : k ∈ fieldsBut missing m ↔ missing k = false := by
      simp [fieldsBut, hname]
    dsimp only
    rw [missingIn, get_numerals, get_numerals]
    by_cases hk : missing k = true
    · rw [if_neg (by simp [hmem, hk]), hk]
      rfl
    · rw [if_pos (hmem.mpr (Bool.not_eq_true _ ▸ hk)), if_pos (hmem.mpr (Bool.not_eq_true _ ▸ hk)),
        numeral_blank, numeral_blank]
      exact (Bool.not_eq_true _ ▸ hk).symm
  | _ => rfl

/-- One digit on both sides is full agreement, and two digits are none. -/
theorem presentScore_numerals (hrt : ReadsNumbers rt) {missing : String → Bool} (hrule : rule ∈ m.rules)
    (hpresent : absent missing rule = false) :
    presentScore rt (numerals policy 1 (fieldsBut missing m))
    (numerals policy 1 (fieldsBut missing m)) rule = 1 ∧
    presentScore rt (numerals policy 1 (fieldsBut missing m))
    (numerals policy 2 (fieldsBut missing m)) rule = 0 := by
  have hmem : fieldName rule ∈ fieldsBut missing m := by
    refine List.mem_filter.mpr ⟨List.mem_map_of_mem hrule, ?_⟩
    unfold absent at hpresent
    unfold fieldName
    cases hfield : rule.get "field" with
    | str k =>
      rw [hfield] at hpresent
      simp only at hpresent
      simp [hpresent]
    | _ =>
      rw [hfield] at hpresent
      cases hpresent
  have heq : (numeral policy 1 (fieldName rule)).pyEq (numeral policy 1 (fieldName rule)) = true ∧
      (numeral policy 1 (fieldName rule)).pyEq (numeral policy 2 (fieldName rule)) = false := by
    unfold numeral
    cases policy.attribute? (fieldName rule) with
    | none => decide
    | some item =>
      dsimp only
      split <;> decide
  have hone : Difflib.ratio (toString 1).toList (toString 1).toList = 1 := by decide +kernel
  have hnone : Difflib.ratio (toString 1).toList (toString 2).toList = 0 := by decide +kernel
  unfold presentScore
  rw [get_numerals, get_numerals, if_pos hmem, if_pos hmem, hrt.ratio, hrt.ratio, numeral_text hrt,
    numeral_text hrt, heq.1, heq.2, hone, hnone]
  simp

theorem compareExact_of_scores (hm : m.Accepted rt) (hmatching : policy.document.get "matching" = m.json)
    (hcomparable : Comparable policy)
    (h : ∀ rule ∈ m.rules, ∃ score, ruleScore rt left right rule = .ok score) :
    ∃ a, policy.compareExact rt left right = .ok a := by
  have hentries := MatchingRules.matching_entries hmatching
  obtain ⟨found, hfound⟩ := contradictions_ok hcomparable left right
  obtain ⟨rows, hrows⟩ := @Except.mapM_isOk Raised _ _
    (compareRuleOver rt Real.log left right (.str m.algorithm)) m.rules fun rule hrule => by
      obtain ⟨score, hscore⟩ := h rule hrule
      have hchances := (hcomparable.2 rule (by rw [hentries]; exact hrule)).2
      rw [hentries] at hchances
      unfold compareRuleOver ruleOdds
      rw [hscore]
      by_cases hfs : m.algorithm = "fellegi_sunter"
      · obtain ⟨p, q, hp, hq⟩ := hchances (congrArg Json.str hfs)
        simp only [bind, Except.bind, hp, hq]
        rw [if_pos (by simp [hfs, Json.pyEq])]
        exact ⟨_, rfl⟩
      · simp only [bind, Except.bind]
        rw [if_neg (by simp [hfs, Json.pyEq])]
        exact ⟨_, rfl⟩
  have hexact : ∃ x, m.exactScore Real.log (fun x => some (Real.exp x)) rows = some x := by
    unfold MatchingRules.exactScore
    split
    · exact ⟨_, Extended.posterior_eq Real.exp _⟩
    · exact ⟨_, rfl⟩
  obtain ⟨x, hx⟩ := hexact
  rw [compareExact, MatchingRules.compareOver_eq hmatching hm.prior_eq, hfound, hrows]
  simp only [bind, Except.bind, hx]
  exact ⟨_, rfl⟩

theorem compareExact_numerals (hm : m.Accepted rt) (hmatching : policy.document.get "matching" = m.json)
    (hcomparable : Comparable policy) (missing : String → Bool) {rows : List (Extended ℚ × Extended ℚ)}
    (hrows : (m.rules.filter (absent missing)).mapM (missingRow rt) = .ok rows) (i : Nat) :
    ∃ a, policy.compareExact rt (numerals policy 1 (fieldsBut missing m))
      (numerals policy i (fieldsBut missing m)) = .ok a ∧
      (m.rules.filter (absent (missingIn (numerals policy 1 (fieldsBut missing m))
        (numerals policy i (fieldsBut missing m))))).mapM (missingRow rt) = .ok rows := by
  have hfilter : m.rules.filter (absent (missingIn (numerals policy 1 (fieldsBut missing m))
      (numerals policy i (fieldsBut missing m)))) = m.rules.filter (absent missing) :=
    List.filter_congr fun rule hrule => absent_numerals 1 i hrule
  have hscores : ∀ rule ∈ m.rules, ∃ score, ruleScore rt (numerals policy 1 (fieldsBut missing m))
      (numerals policy i (fieldsBut missing m)) rule = .ok score := by
    intro rule hrule
    rcases (compares_of_accepted hm hmatching hcomparable rule hrule).ruleScore_cases
        (numerals policy 1 (fieldsBut missing m)) (numerals policy i (fieldsBut missing m)) with
      ⟨habsent, hrow⟩ | ⟨-, weight, -, hrow⟩
    · rw [absent_numerals 1 i hrule] at habsent
      obtain ⟨row, -, hmissing⟩ := (Except.mapM_mem hrows).2 rule (List.mem_filter.mpr ⟨hrule, habsent⟩)
      exact ⟨row, hrow.trans hmissing⟩
    · exact ⟨_, hrow⟩
  obtain ⟨a, ha⟩ := compareExact_of_scores hm hmatching hcomparable hscores
  exact ⟨a, ha, by rw [hfilter, hrows]⟩

/-- A bounded score by weights is that of numbers. -/
theorem numbers_of_bounded (hm : m.Accepted rt) (hmatching : policy.document.get "matching" = m.json)
    (hw : m.algorithm ≠ "fellegi_sunter") (hcompares : ∀ rule ∈ m.rules, Compares rt rule)
    {rows : List (Extended ℚ × Extended ℚ)} {a : Assessment ℝ} {x : ℝ} {component : ℚ}
    (ha : policy.compareExact rt left right = .ok a)
    (hrows : (m.rules.filter (absent (missingIn left right))).mapM (missingRow rt) = .ok rows)
    (hpresent : ∀ rule ∈ m.rules, absent (missingIn left right) rule = false →
      presentScore rt left right rule = component)
    (hexact : a.exact = .finite x) :
    (∀ rule ∈ m.rules, ∃ q, Json.toFloat rt (rule.get "weight") = .ok (.finite q)) ∧
      ∃ missing rest, rows = Extended.lift missing ∧ 0 ≤ rest ∧
        x = (((missing.map fun r => r.1 * r.2).sum + component * rest) /
          ((missing.map Prod.snd).sum + rest) : ℚ) := by
  obtain ⟨scores, hscores, hmean⟩ := MatchingRules.exact_weighted hmatching hw ha
  obtain ⟨hback, hforth⟩ := Except.mapM_mem hscores
  have hpos : ∀ score ∈ scores, ¬ score.2 ≤ 0 := by
    intro score hscore
    obtain ⟨rule, hrule, hfound⟩ := hback score hscore
    obtain ⟨weight, hweight, hpos⟩ := hm.weight hrule
    rwa [Except.ok.inj ((ruleScore_weight hfound).symm.trans hweight)]
  obtain ⟨p, hp⟩ : ∃ p, Extended.mean scores = .finite p := by
    rw [hexact] at hmean
    cases hmean' : Extended.mean scores with
    | finite p => exact ⟨p, rfl⟩
    | _ =>
      rw [hmean'] at hmean
      cases hmean
  obtain ⟨numbers, hnumbers, -⟩ := Extended.mean_eq_finite hpos hp
  have hweights : ∀ rule ∈ m.rules, ∃ q, Json.toFloat rt (rule.get "weight") = .ok (.finite q) := by
    intro rule hrule
    obtain ⟨score, hmem, hfound⟩ := hforth rule hrule
    obtain ⟨q, q', -, hq'⟩ := Extended.mem_lift (hnumbers ▸ hmem)
    exact ⟨q', hq' ▸ ruleScore_weight hfound⟩
  obtain ⟨missing, rfl⟩ : ∃ missing, rows = Extended.lift missing := by
    refine Extended.eq_lift fun row hrow => ?_
    obtain ⟨rule, hrule, hmissing⟩ := (Except.mapM_mem hrows).1 row hrow
    obtain ⟨hrule, habsent⟩ := List.mem_filter.mp hrule
    obtain ⟨score, hmem, hfound⟩ := hforth rule hrule
    rcases (hcompares rule hrule).ruleScore_cases left right with ⟨-, hsame⟩ | ⟨hother, -⟩
    · rw [Except.ok.inj (hmissing.symm.trans (hsame.symm.trans hfound))]
      exact Extended.mem_lift (hnumbers ▸ hmem)
    · cases hother.symm.trans habsent
  refine ⟨hweights, missing, ?_⟩
  obtain ⟨numbers, rest, rfl, hrest, htotal, hlow, hhigh⟩ := scores_split hcompares hweights
    (fun rule hrule habsent => ⟨(hpresent rule hrule habsent).ge, (hpresent rule hrule habsent).le⟩)
    hrows hscores
  refine ⟨rest, rfl, hrest, ?_⟩
  rw [hexact, Extended.mean_lift] at hmean
  rw [Extended.finite.inj hmean, Scoring.weightedMean, htotal, le_antisymm hhigh hlow]

theorem rows_empty {rows : List (ℚ × ℚ)} (hpos : ∀ row ∈ rows, 0 < row.2)
    (htotal : (rows.map Prod.snd).sum = 0) : rows = [] := by
  cases rows with
  | nil => rfl
  | cons row rows =>
    rw [List.forall_mem_cons] at hpos
    have hrest : 0 ≤ (rows.map Prod.snd).sum := List.sum_nonneg fun w hw => by
      obtain ⟨other, hother, rfl⟩ := List.mem_map.mp hw
      exact (hpos.2 other hother).le
    rw [List.map_cons, List.sum_cons] at htotal
    linarith [hpos.1]

/-- Scores by weights are not bounded where the missing scores are not confined. -/
theorem confined_of_bounded (hrt : ReadsNumbers rt) (hm : m.Accepted rt)
    (hmatching : policy.document.get "matching" = m.json) (hw : m.algorithm ≠ "fellegi_sunter")
    (hcomparable : Comparable policy) (hbounded : Bounded rt policy) : Confined rt policy := by
  have hrules : maps (policy.matching.get "comparisons") = m.rules := by
    rw [MatchingRules.matching_entries hmatching]
    rfl
  have hcompares := compares_of_accepted hm hmatching hcomparable
  intro missing rows hrows
  rw [hrules] at hrows ⊢
  have hnormalized : ∀ i, i < 10 → Normalized rt policy (numerals policy i (fieldsBut missing m)) :=
    fun i hi => numerals_normalized hrt hi _
  -- full agreement in all that is present, and none
  obtain ⟨a, ha, hsame⟩ := compareExact_numerals hm hmatching hcomparable missing hrows 1
  obtain ⟨b, hb, hdifferent⟩ := compareExact_numerals hm hmatching hcomparable missing hrows 2
  obtain ⟨x, hx, -, hle⟩ := (hbounded _ _ a (hnormalized 1 (by omega)) (hnormalized 1 (by omega)) ha).1
  obtain ⟨y, hy, hnonneg, -⟩ := (hbounded _ _ b (hnormalized 1 (by omega)) (hnormalized 2 (by omega)) hb).1
  obtain ⟨hweights, numbers, rest, rfl, hrest, rfl⟩ := numbers_of_bounded hm hmatching hw hcompares ha hsame
    (fun rule hrule habsent => (presentScore_numerals hrt hrule (absent_numerals 1 1 hrule ▸ habsent)).1) hx
  obtain ⟨-, numbers', rest', hsame', hrest', rfl⟩ := numbers_of_bounded hm hmatching hw hcompares hb
    hdifferent
    (fun rule hrule habsent => (presentScore_numerals hrt hrule (absent_numerals 1 2 hrule ▸ habsent)).2) hy
  obtain rfl := Extended.lift_injective hsame'
  refine ⟨hweights, numbers, rfl, ?_⟩
  have hpos : ∀ number ∈ numbers, 0 < number.2 := by
    intro number hnumber
    obtain ⟨rule, hrule, hmissing⟩ := (Except.mapM_mem hrows).1 _ (List.mem_map_of_mem hnumber)
    obtain ⟨weight, hweight, hpos⟩ := (hcompares rule (List.mem_of_mem_filter hrule)).weight
    unfold missingRow at hmissing
    simp only [Except.bind_eq_ok, Except.pure_eq_ok, Prod.mk.injEq] at hmissing
    obtain ⟨_, -, weight', hweight', -, rfl⟩ := hmissing
    rw [Except.ok.inj (hweight.symm.trans hweight')] at hpos
    exact not_le.mp hpos
  have htotal : 0 ≤ (numbers.map Prod.snd).sum := List.sum_nonneg fun w hw => by
    obtain ⟨number, hnumber, rfl⟩ := List.mem_map.mp hw
    exact (hpos number hnumber).le
  by_cases hzero : (numbers.map Prod.snd).sum = 0
  · rw [rows_empty hpos hzero]
    simp
  · have htotal' : 0 < (numbers.map Prod.snd).sum := htotal.lt_of_ne' hzero
    constructor
    · have hquotient : 0 ≤ ((numbers.map fun r => r.1 * r.2).sum + 0 * rest') /
          ((numbers.map Prod.snd).sum + rest') := by exact_mod_cast hnonneg
      rw [zero_mul, add_zero] at hquotient
      by_contra hneg
      exact absurd hquotient (not_le.mpr (div_neg_of_neg_of_pos (not_le.mp hneg) (by linarith)))
    · have hquotient : ((numbers.map fun r => r.1 * r.2).sum + 1 * rest) /
          ((numbers.map Prod.snd).sum + rest) ≤ 1 := by exact_mod_cast hle
      rw [one_mul, div_le_one (by linarith)] at hquotient
      linarith

/-- Neither are log-odds of missing scores without a sum. -/
theorem summed_of_bounded (hrt : ReadsNumbers rt) (hm : m.Accepted rt)
    (hmatching : policy.document.get "matching" = m.json) (hfs : m.algorithm = "fellegi_sunter")
    (hcomparable : Comparable policy) (hbounded : Bounded rt policy) : Summed rt policy := by
  have hrules : maps (policy.matching.get "comparisons") = m.rules := by
    rw [MatchingRules.matching_entries hmatching]
    rfl
  intro missing rows hrows
  rw [hrules] at hrows
  obtain ⟨a, ha, hsame⟩ := compareExact_numerals hm hmatching hcomparable missing hrows 1
  obtain ⟨x, hx, -⟩ := (hbounded _ _ a (numerals_normalized hrt (by omega) _)
    (numerals_normalized hrt (by omega) _) ha).1
  obtain ⟨contradictions, compared, -, hcompared, hexact, -⟩ := MatchingRules.compareOver_ok hm hmatching ha
  obtain ⟨found, hfound, halike⟩ := odds_alike hm hfs (compares_of_accepted hm hmatching hcomparable)
    (fun _ => id) hcompared
  obtain rfl := Except.ok.inj (hsame.symm.trans hfound)
  rw [MatchingRules.exactScore, if_pos hfs, Extended.posterior_eq, hx] at hexact
  intro hnan
  rw [(halike.finite_add _).nan_iff.mpr hnan] at hexact
  cases Option.some.inj hexact

/-- Scores are bounded for policies that never compare anything, and where the missing scores are
confined, or have a sum under the second algorithm. -/
theorem bounded_iff (hrt : ReadsNumbers rt) {definition : Json}
    (h : compilePolicy rt definition = .ok policy) :
    Bounded rt policy ↔ ¬ Comparable policy ∨
      if policy.matching.get "algorithm" = .str "fellegi_sunter" then Summed rt policy
      else Confined rt policy := by
  obtain ⟨m, hmatching, hm⟩ := compilePolicy_matching h
  have hentries := MatchingRules.matching_entries hmatching
  have halgorithm : policy.matching.get "algorithm" = .str "fellegi_sunter" ↔
      m.algorithm = "fellegi_sunter" := by
    rw [hentries]
    exact Json.str.injEq _ _ ▸ Iff.rfl
  simp only [halgorithm]
  constructor
  · intro hbounded
    by_cases hcomparable : Comparable policy
    · refine .inr ?_
      split
      · next hfs => exact summed_of_bounded hrt hm hmatching hfs hcomparable hbounded
      · next hw => exact confined_of_bounded hrt hm hmatching hw hcomparable hbounded
    · exact .inl hcomparable
  · intro hcondition left right a _ _ ha
    have hcomparable : Comparable policy := comparable_of_compareOver hm hmatching ha
    obtain ⟨x, hx, hnonneg, hle⟩ := exact_bounds hrt hm hmatching
      (hcondition.resolve_left (not_not.mpr hcomparable)) ha
    refine ⟨⟨x, hx, hnonneg, hle⟩, fun thresholds autoLink hthresholds hauto hlarge hlinked => ?_⟩
    obtain ⟨contradictions, rows, -, -, -, hscore, hdecision⟩ :=
      MatchingRules.compareOver_ok hm hmatching ha
    have hthreshold : m.autoLink = autoLink := by
      rw [hentries] at hthresholds
      cases hthresholds
      exact Json.float.inj hauto
    rw [hdecision, MatchingRules.decisionOf] at hlinked
    split at hlinked
    · cases hlinked
    · split at hlinked
      · next hreached =>
        rw [hthreshold, hscore, hx] at hreached
        have hrounded : (autoLink : ℝ) ≤ Scoring.roundTo x m.digits := hreached
        have hlow : Scoring.roundTo x m.digits ≤ 1 := Scoring.roundTo_le_one hle
        have hone : (1 : ℝ) < autoLink := by exact_mod_cast hlarge
        linarith
      · split at hlinked <;> cases hlinked

end CompiledPolicy

namespace Supplier

/-- A missing name counts five times its weight. -/
def generous : Dict := [
  ("attributes", .arr [.obj [("key", .str "name")]]),
  ("matching", .obj [("comparisons", .arr [.obj [
    ("field", .str "name"), ("comparator", .str "exact"), ("weight", .int 1), ("missing_score", .int 5)]])])]

theorem difflib_readsNumbers : CompiledPolicy.ReadsNumbers .difflib :=
  ⟨fun _ => rfl, fun _ => rfl, by decide +kernel, fun _ _ => rfl⟩

/-- Two records without a name score five, and the default threshold links them. -/
theorem unbounded : ¬ ∀ definition policy, compilePolicy .difflib definition = .ok policy →
    CompiledPolicy.Bounded .difflib policy := by
  intro h
  have hchecked : ((compilePolicy .difflib (.obj generous)).toOption.any fun policy =>
      decide (policy.matching.get "algorithm" = .str "weighted_score") &&
        decide (policy.matching.get "thresholds" =
          .obj [("review", .float (101 / 100)), ("auto_link", .float (101 / 100))]) &&
        decide ((policy.outcome .difflib [] []).toOption = some (.finite 5, .autoLink))) = true := by
    decide +kernel
  obtain ⟨policy, hpolicy, hchecked⟩ := Except.of_any hchecked
  simp only [Bool.and_eq_true, decide_eq_true_eq] at hchecked
  obtain ⟨⟨halgorithm, hthresholds⟩, hrun⟩ := hchecked
  obtain ⟨m, hmatching, -⟩ := compilePolicy_matching hpolicy
  have hw : m.algorithm ≠ "fellegi_sunter" := by
    rw [MatchingRules.matching_entries hmatching] at halgorithm
    rw [Json.str.inj halgorithm]
    decide
  rw [CompiledPolicy.outcome, CompiledPolicy.compare_over] at hrun
  cases ha : policy.compareOver .difflib Runtime.difflib.log Runtime.difflib.exp [] [] with
  | error e =>
    rw [ha] at hrun
    cases hrun
  | ok a =>
    rw [ha] at hrun
    have hexact : policy.compareExact .difflib [] [] = .ok
        ⟨a.exact.map fun q : ℚ => (q : ℝ), a.score.map fun q : ℚ => (q : ℝ), a.decision⟩ := by
      rw [MatchingRules.compareExact_weighted hmatching hw, ha]
      rfl
    have hlink := (h _ policy hpolicy [] [] _ ⟨[], rfl⟩ ⟨[], rfl⟩ hexact).2 _ _ hthresholds rfl (by norm_num)
    exact hlink (congrArg Prod.snd (Option.some.inj hrun))

/-- Without missing scores all means are bounded. -/
theorem bounded_suppliers : ∃ policy, compilePolicy .difflib (.obj definition) = .ok policy ∧
    CompiledPolicy.Bounded .difflib policy := by
  have hchecked : ((compilePolicy .difflib (.obj definition)).toOption.any fun policy =>
      decide (policy.matching.get "algorithm" = .str "weighted_score") &&
        (CompiledPolicy.maps (policy.matching.get "comparisons")).all fun rule =>
          (CompiledPolicy.missingRow .difflib rule).toOption.any fun row =>
            decide (row.1 = 0 ∧ row.2 = .finite row.2.number ∧ 0 ≤ row.2.number)) = true := by
    decide +kernel
  obtain ⟨policy, hpolicy, hchecked⟩ := Except.of_any hchecked
  simp only [Bool.and_eq_true, decide_eq_true_eq, List.all_eq_true] at hchecked
  obtain ⟨halgorithm, hall⟩ := hchecked
  refine ⟨policy, hpolicy, (CompiledPolicy.bounded_iff difflib_readsNumbers hpolicy).mpr (.inr ?_)⟩
  rw [halgorithm, if_neg (by decide)]
  intro missing rows hrows
  have hrow : ∀ row ∈ rows, row.1 = 0 ∧ row.2 = .finite row.2.number ∧ 0 ≤ row.2.number := by
    intro row hrow
    obtain ⟨rule, hrule, hmissing⟩ := (Except.mapM_mem hrows).1 row hrow
    have hchecked := hall rule (List.mem_of_mem_filter hrule)
    rw [hmissing] at hchecked
    exact of_decide_eq_true hchecked
  constructor
  · intro rule hrule
    obtain ⟨row, hfound, hchecked⟩ := Except.of_any (hall rule hrule)
    obtain ⟨-, hweight, -⟩ := of_decide_eq_true hchecked
    unfold CompiledPolicy.missingRow at hfound
    simp only [Except.bind_eq_ok, Except.pure_eq_ok] at hfound
    obtain ⟨component, -, weight, hread, rfl⟩ := hfound
    exact ⟨weight.number, hread.trans (congrArg Except.ok hweight)⟩
  · obtain ⟨numbers, rfl⟩ := Extended.eq_lift fun row hmem =>
      ⟨0, row.2.number, (hrow row hmem).1, (hrow row hmem).2.1⟩
    refine ⟨numbers, rfl, ?_⟩
    have hzeros : ∀ number ∈ numbers, number.1 = 0 ∧ 0 ≤ number.2 := by
      intro number hnumber
      obtain ⟨hzero, -, hnonneg⟩ := hrow _ (List.mem_map_of_mem hnumber)
      exact ⟨Extended.finite.inj hzero, hnonneg⟩
    have hsum : (numbers.map fun r => r.1 * r.2).sum = 0 := List.sum_eq_zero fun x hx => by
      obtain ⟨number, hnumber, rfl⟩ := List.mem_map.mp hx
      rw [(hzeros number hnumber).1, zero_mul]
    rw [hsum]
    refine ⟨le_rfl, List.sum_nonneg fun w hw => ?_⟩
    obtain ⟨number, hnumber, rfl⟩ := List.mem_map.mp hw
    exact (hzeros number hnumber).2

end Supplier

end Recordlane
