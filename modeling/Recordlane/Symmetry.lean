import Recordlane.Scores
import Recordlane.PolicyDocuments
import Recordlane.Library.Difflib

/-! Whether a comparison depends on which of the two records comes first. -/
namespace Recordlane

variable {rt : Runtime} {policy : CompiledPolicy} {left right : Dict} {rule : Dict}

namespace CompiledPolicy

/-- A record as the policy leaves it. -/
def Normalized (rt : Runtime) (policy : CompiledPolicy) (d : Dict) : Prop :=
  ∃ values, policy.normalize rt values = .ok d

/-- The score and the decision of a comparison, or how it fails. -/
def outcome (rt : Runtime) (policy : CompiledPolicy) (left right : Dict) :
    Py (Extended ℚ × MatchDecision) :=
  (policy.compare rt left right).map fun e => (e.score, e.decision)

/-- The policies make the same of two records, whichever comes first. -/
def Symmetric (rt : Runtime) (left right : Dict) : Prop :=
  ∀ definition policy, compilePolicy rt definition = .ok policy → Normalized rt policy left →
    Normalized rt policy right → outcome rt policy left right = outcome rt policy right left

/-- The texts of the fields that both records have are as similar one way as the other. -/
def SimilarBothWays (rt : Runtime) (left right : Dict) : Prop :=
  ∀ field, (left.get field).blank = false → (right.get field).blank = false →
    Difflib.ratio (rt.strOf (left.get field)).toList (rt.strOf (right.get field)).toList =
      Difflib.ratio (rt.strOf (right.get field)).toList (rt.strOf (left.get field)).toList

theorem lookup_cases (field : Json) : (∃ k, field = .str k) ∨ (∀ d, Json.lookup d field = .ok .null) ∨
    ∀ d, Json.lookup d field = .error (.python "TypeError") := by
  cases field with
  | str k => exact .inl ⟨k, rfl⟩
  | arr xs => exact .inr (.inr fun _ => rfl)
  | obj kvs => exact .inr (.inr fun _ => rfl)
  | _ => exact .inr (.inl fun _ => rfl)

theorem ruleScore_swap (hl : Json.unique (.obj left) = true) (hr : Json.unique (.obj right) = true)
    (hratio : ∀ a b, rt.sequenceRatio a b = Difflib.ratio a.toList b.toList)
    (h : SimilarBothWays rt left right) : ruleScore rt left right rule = ruleScore rt right left rule := by
  unfold ruleScore
  cases rule.get? "field" with
  | none => rfl
  | some field =>
    rcases lookup_cases field with ⟨k, rfl⟩ | hnull | herror
    · have hfound : ∀ d : Dict, Json.lookup d (.str k) = .ok (d.get k) := fun _ => rfl
      have heq : (left.get k).pyEq (right.get k) = (right.get k).pyEq (left.get k) :=
        Json.pyEq_comm _ _ (Dict.unique_get hl) (Dict.unique_get hr)
      simp only [hfound, bind, Except.bind]
      rw [Bool.or_comm (right.get k).blank]
      by_cases hblank : ((left.get k).blank || (right.get k).blank) = true
      · rw [if_pos hblank, if_pos hblank]
      · rw [if_neg hblank, if_neg hblank]
        rw [Bool.not_eq_true, Bool.or_eq_false_iff] at hblank
        rw [heq, hratio, hratio, h k hblank.1 hblank.2]
    · simp only [hnull]
    · simp only [herror]

theorem contradictionOn_swap {identifier : Dict} (hl : Json.unique (.obj left) = true)
    (hr : Json.unique (.obj right) = true) :
    (contradictionOn left right identifier).map Option.isSome =
      (contradictionOn right left identifier).map Option.isSome := by
  unfold contradictionOn
  rcases lookup_cases (identifier.get "field") with ⟨k, hk⟩ | hnull | herror
  · have hfound : ∀ d : Dict, Json.lookup d (identifier.get "field") = .ok (d.get k) := by
      intro d
      rw [hk]
      rfl
    have heq : (left.get k).pyEq (right.get k) = (right.get k).pyEq (left.get k) :=
      Json.pyEq_comm _ _ (Dict.unique_get hl) (Dict.unique_get hr)
    simp only [hfound, bind, Except.bind, heq]
    rw [Bool.and_comm (!(left.get k).blank)]
    split <;> rfl
  · simp only [hnull]
  · simp only [herror]

theorem contradictions_swap (hl : Json.unique (.obj left) = true) (hr : Json.unique (.obj right) = true) :
    (policy.contradictions left right).map List.isEmpty =
      (policy.contradictions right left).map List.isEmpty := by
  have hmap : ∀ {l r : Dict}, (policy.contradictions l r).map List.isEmpty =
      (policy.identifiers.mapM fun identifier =>
        (contradictionOn l r identifier).map Option.isSome).map fun found => found.all fun b => !b := by
    intro l r
    rw [← Except.mapM_map]
    unfold contradictions
    cases policy.identifiers.mapM (contradictionOn l r) with
    | error e => rfl
    | ok found =>
      refine congrArg Except.ok ?_
      induction found with
      | nil => rfl
      | cons c found ih =>
        cases c with
        | none => exact ih
        | some c => rfl
  rw [hmap, hmap]
  simp only [contradictionOn_swap hl hr]

/-- Two records are compared alike both ways as far as their texts are as similar one way as the other. -/
theorem compareOver_swap (hl : Json.unique (.obj left) = true) (hr : Json.unique (.obj right) = true)
    (hratio : ∀ a b, rt.sequenceRatio a b = Difflib.ratio a.toList b.toList)
    (h : SimilarBothWays rt left right) :
    policy.compareOver rt rt.log rt.exp left right = policy.compareOver rt rt.log rt.exp right left := by
  have hcontradictions := @contradictions_swap policy left right hl hr
  have hrule : ∀ algorithm, compareRuleOver rt rt.log left right algorithm =
      compareRuleOver rt rt.log right left algorithm := by
    intro algorithm
    funext rule
    rw [compareRuleOver, compareRuleOver, ruleScore_swap hl hr hratio h]
  unfold compareOver
  simp only [hrule]
  revert hcontradictions
  cases policy.contradictions left right with
  | error e =>
    cases policy.contradictions right left with
    | error e' => exact fun he => congrArg Except.error (Except.error.inj he)
    | ok found => exact fun he => nomatch he
  | ok found =>
    cases policy.contradictions right left with
    | error e => exact fun he => nomatch he
    | ok found' =>
      intro he
      have hempty : found.isEmpty = found'.isEmpty := Except.ok.inj he
      simp only [bind, Except.bind, hempty]

theorem normalize_of_no_attributes (h : policy.attributes = []) (d : Dict) :
    policy.normalize rt d = .ok d := by
  unfold normalize
  induction d with
  | nil => rfl
  | cons p d ih =>
    obtain ⟨key, value⟩ := p
    have hnone : policy.attribute? key = none := by
      rw [attribute?, h]
      rfl
    rw [List.mapM_cons, ih]
    dsimp only
    rw [hnone]
    cases value <;> rfl

/-- The rule that compares the texts of a field. -/
def textRule (field : String) : Dict :=
  [("comparator", .str "sequence_ratio"), ("field", .str field), ("weight", .int 1)]

/-- The rule that never finds its field. -/
def blankRule (missing : ℚ) : Dict :=
  [("comparator", .str "exact"), ("field", .null), ("missing_score", .float missing), ("weight", .int 1)]

/-- A definition under which the texts of a field count as much as a rule that never finds its field. -/
def weighing (field : String) (missing : ℚ) : PolicyDocument where
  entity := .str "Entity"
  mode := .str "coexistence"
  attributes := []
  identifiers := []
  relationships := .arr []
  matching := {
    algorithm := "weighted_score"
    prior := .finite (1 / 100)
    blocking := .arr []
    comparisons := .arr [.obj (textRule field), .obj (blankRule missing)]
    review := 1
    autoLink := 1 }
  survivorship := []

theorem sortKeys_rules {field : String} {missing : ℚ} :
    (Json.arr [.obj (textRule field), .obj (blankRule missing)]).sortKeys =
      .arr [.obj (textRule field), .obj (blankRule missing)] := by
  simp [Json.sortKeys, Json.sortKeysList, Json.sortKeysEntries, textRule, blankRule]

theorem weighing_compiled (rt : Runtime) (field : String) (missing : ℚ) :
    (weighing field missing).Compiled rt where
  attributes := nofun
  matching := {
    blocking := rfl
    strategies := ⟨[], rfl, rfl⟩
    comparisons := by
      have hone : ¬ ((1 : Extended ℚ) ≤ 0) := not_le.mpr (zero_lt_one (α := ℚ))
      refine ⟨[.obj (textRule field), .obj (blankRule missing)], ?_, forM_ok.mpr ?_,
        fun hfs => absurd hfs (by simp [weighing])⟩
      · rw [weighing, sortKeys_rules]
        rfl
      · rw [List.forall_mem_cons, List.forall_mem_singleton]
        constructor <;>
          simp [checkComparison, Json.asDict, bind, Except.bind, unknownKeys, Dict.keys, sortedSet,
            memberOf, Dict.get, Dict.get?, Json.toFloat_one, hone, textRule, blankRule] <;> rfl
    algorithm := by simp [weighing]
    thresholds := by norm_num [weighing] }
  survivorship := ⟨nofun, nofun⟩

theorem ruleScore_text {field : String} (hl : (left.get field).blank = false)
    (hr : (right.get field).blank = false) : ruleScore rt left right (textRule field) =
      .ok (.finite (rt.sequenceRatio (rt.strOf (left.get field)) (rt.strOf (right.get field))), 1) := by
  have hfound : ∀ d : Dict, Json.lookup d (.str field) = .ok (d.get field) := fun _ => rfl
  have hget : Dict.get? (textRule field) "field" = some (.str field) := rfl
  have hcomparator : Dict.get (textRule field) "comparator" = .str "sequence_ratio" := rfl
  have hweight : Json.toFloat rt (Dict.get (textRule field) "weight") = .ok 1 := Json.toFloat_one rt
  unfold ruleScore
  simp only [hget, hfound, bind, Except.bind, hl, hr, hcomparator, hweight, Bool.or_false]
  rfl

theorem ruleScore_blank {missing : ℚ} :
    ruleScore rt left right (blankRule missing) = .ok (.finite missing, 1) := by
  have hweight : Json.toFloat rt (Dict.get (blankRule missing) "weight") = .ok 1 := Json.toFloat_one rt
  have hfound : ∀ d : Dict, Json.lookup d .null = .ok .null := fun _ => rfl
  have hget : Dict.get? (blankRule missing) "field" = some .null := rfl
  unfold ruleScore
  simp only [hget, hfound, bind, Except.bind, hweight]
  rfl

theorem weighing_compare (rt : Runtime) {field : String} (missing : ℚ)
    (hl : (left.get field).blank = false) (hr : (right.get field).blank = false) :
    ∃ policy, compilePolicy rt (.obj (weighing field missing).canonical) = .ok policy ∧
      (∀ d, policy.normalize rt d = .ok d) ∧
      (outcome rt policy left right).map Prod.fst = .ok (.finite (roundHalfEven
        ((rt.sequenceRatio (rt.strOf (left.get field)) (rt.strOf (right.get field)) + missing) / 2) 4)) := by
  obtain ⟨policy, hpolicy, hdocument⟩ := (weighing_compiled rt field missing).compiles
  have hmatching : policy.document.get "matching" = (weighing field missing).inOrder.matching.json := by
    rw [hdocument]
    rfl
  refine ⟨policy, hpolicy, normalize_of_no_attributes ?_, ?_⟩
  · rw [attributes, hdocument]
    rfl
  · have hnone : policy.contradictions left right = .ok [] := by
      rw [contradictions, identifiers, hdocument]
      rfl
    have hrules : (weighing field missing).inOrder.matching.rules = [textRule field, blankRule missing] := by
      change maps (Json.arr [.obj (textRule field), .obj (blankRule missing)]).sortKeys = _
      rw [sortKeys_rules]
      rfl
    have halgorithm : (weighing field missing).inOrder.matching.algorithm = "weighted_score" := rfl
    have hmean : Extended.mean
        [(.finite (rt.sequenceRatio (rt.strOf (left.get field)) (rt.strOf (right.get field))), 1),
          (.finite missing, 1)] = .finite
        ((rt.sequenceRatio (rt.strOf (left.get field)) (rt.strOf (right.get field)) + missing) / 2) := by
      change Extended.mean (Extended.lift [(_, 1), (missing, 1)]) = _
      rw [Extended.mean_lift, Scoring.weightedMean]
      norm_num
    rw [outcome, compare_over, MatchingRules.compareOver_weighted hmatching
      (by rw [halgorithm]; decide), hnone, hrules]
    simp only [List.mapM_cons, List.mapM_nil, ruleScore_text hl hr, ruleScore_blank, bind, Except.bind,
      pure, Except.pure, hmean]
    rfl

theorem scores_differ {p q : ℚ} (h : p < q) : ∃ missing : ℚ,
    roundHalfEven ((p + missing) / 2) 4 ≠ roundHalfEven ((q + missing) / 2) 4 := by
  -- the two means lie on either side of 0.50005
  refine ⟨10001 / 10000 - (p + q) / 2, ?_⟩
  rw [roundHalfEven_roundTo, roundHalfEven_roundTo, Scoring.roundTo, Scoring.roundTo]
  have hlow : Scoring.nearest ((p + (10001 / 10000 - (p + q) / 2)) / 2 * 10 ^ 4) ≤ (5000 : Int) :=
    Scoring.nearest_le_of_lt (by push_cast; linarith)
  have hhigh : (5000 : Int) < Scoring.nearest ((q + (10001 / 10000 - (p + q) / 2)) / 2 * 10 ^ 4) :=
    Scoring.lt_nearest_of_lt (by push_cast; linarith)
  intro heq
  have hcast := (div_left_inj' (by norm_num : (10 : ℚ) ^ 4 ≠ 0)).mp heq
  have hint := Int.cast_injective hcast
  omega

/-- A comparison comes out the same both ways under every policy, if and only if the texts of the two
records are as similar one way as the other. -/
theorem symmetric_iff (hratio : ∀ a b, rt.sequenceRatio a b = Difflib.ratio a.toList b.toList)
    (left right : Document) (l r : Dict) (hl : left.value = .obj l) (hr : right.value = .obj r) :
    Symmetric rt l r ↔ SimilarBothWays rt l r := by
  have hul := hl ▸ left.unique
  have hur := hr ▸ right.unique
  constructor
  · intro h field hfl hfr
    by_contra hne
    rw [← hratio, ← hratio] at hne
    have hdiffer : ∃ missing : ℚ,
        roundHalfEven ((rt.sequenceRatio (rt.strOf (l.get field)) (rt.strOf (r.get field)) + missing) / 2) 4 ≠
        roundHalfEven
        ((rt.sequenceRatio (rt.strOf (r.get field)) (rt.strOf (l.get field)) + missing) / 2) 4 := by
      rcases lt_or_gt_of_ne hne with hlt | hgt
      · exact scores_differ hlt
      · exact (scores_differ hgt).imp fun _ hmissing => hmissing.symm
    obtain ⟨missing, hdiffer⟩ := hdiffer
    obtain ⟨policy, hpolicy, hnormal, hforward⟩ := weighing_compare rt missing hfl hfr
    obtain ⟨policy', hpolicy', -, hback⟩ := weighing_compare rt missing hfr hfl
    obtain rfl := Except.ok.inj (hpolicy.symm.trans hpolicy')
    have hsame := h _ policy hpolicy ⟨l, hnormal l⟩ ⟨r, hnormal r⟩
    rw [hsame, hback] at hforward
    exact hdiffer (Extended.finite.inj (Except.ok.inj hforward)).symm
  · intro h definition policy _ _ _
    rw [outcome, outcome, compare_over, compare_over, compareOver_swap hul hur hratio h]

end CompiledPolicy

/-- The plain runtime with the ratio of `difflib`. -/
def Runtime.difflib : Runtime :=
  { Runtime.plain with sequenceRatio := fun a b => Difflib.ratio a.toList b.toList }

namespace Supplier

/-- Names are compared by their similarity, and a ratio of two fifths is reviewed. -/
def fuzzy : Dict := [
  ("attributes", .arr [.obj [("key", .str "name")]]),
  ("matching", .obj [
    ("comparisons", .arr [
      .obj [("field", .str "name"), ("comparator", .str "sequence_ratio"), ("weight", .int 1)]]),
    ("review", .float (2 / 5)), ("auto_link", .float 1)])]

def tide : Document := ⟨.obj [("name", .str "tide")], rfl⟩

def diet : Document := ⟨.obj [("name", .str "diet")], rfl⟩

theorem outcomes_differ : ∃ definition policy, compilePolicy .difflib definition = .ok policy ∧
    CompiledPolicy.Normalized .difflib policy [("name", .str "tide")] ∧
    CompiledPolicy.Normalized .difflib policy [("name", .str "diet")] ∧
    (policy.outcome .difflib [("name", .str "tide")] [("name", .str "diet")]).toOption =
      some (.finite (1 / 4), .noLink) ∧
    (policy.outcome .difflib [("name", .str "diet")] [("name", .str "tide")]).toOption =
      some (.finite (1 / 2), .review) := by
  have hrun : ((compilePolicy .difflib (.obj fuzzy)).toOption.any fun policy =>
        decide ((policy.normalize .difflib [("name", .str "tide")]).toOption =
          some [("name", .str "tide")]) &&
        decide ((policy.normalize .difflib [("name", .str "diet")]).toOption =
          some [("name", .str "diet")]) &&
        decide ((policy.outcome .difflib [("name", .str "tide")] [("name", .str "diet")]).toOption =
          some (.finite (1 / 4), .noLink)) &&
        decide ((policy.outcome .difflib [("name", .str "diet")] [("name", .str "tide")]).toOption =
          some (.finite (1 / 2), .review))) = true := by
    decide +kernel
  have hok : ∀ {τ : Type} {x : Py τ} {y : τ}, x.toOption = some y → x = .ok y := by
    intro τ x y h
    cases x with
    | error e => cases h
    | ok z => exact congrArg Except.ok (Option.some.inj h)
  obtain ⟨policy, hpolicy, hrun⟩ := Except.of_any hrun
  simp only [Bool.and_eq_true, decide_eq_true_eq] at hrun
  obtain ⟨⟨⟨htide, hdiet⟩, hforward⟩, hback⟩ := hrun
  exact ⟨_, policy, hpolicy, ⟨_, hok htide⟩, ⟨_, hok hdiet⟩, hforward, hback⟩

theorem asymmetric : ¬ ∀ (left right : Document) (l r : Dict), left.value = .obj l →
    right.value = .obj r → CompiledPolicy.Symmetric .difflib l r := by
  intro h
  obtain ⟨definition, policy, hpolicy, htide, hdiet, hforward, hback⟩ := outcomes_differ
  have hsame := h tide diet _ _ rfl rfl definition policy hpolicy htide hdiet
  rw [hsame, hback] at hforward
  have hdecision := congrArg Prod.snd (Option.some.inj hforward)
  cases hdecision

def acme : Document := ⟨.obj [("name", .str "acme")], rfl⟩

def acne : Document := ⟨.obj [("name", .str "acne")], rfl⟩

/-- Two names that share three letters of four, one way as the other. -/
theorem symmetric_acme :
    CompiledPolicy.Symmetric .difflib [("name", .str "acme")] [("name", .str "acne")] := by
  refine (CompiledPolicy.symmetric_iff (fun _ _ => rfl) acme acne _ _ rfl rfl).mpr fun field hl _ => ?_
  by_cases hname : field = "name"
  · subst hname
    decide +kernel
  · have hmissing : Dict.get [("name", .str "acme")] field = .null := by
      rw [Dict.get, Dict.get?, List.find?_cons_of_neg (by simpa using Ne.symm hname)]
      rfl
    rw [hmissing] at hl
    cases hl

end Supplier

end Recordlane
