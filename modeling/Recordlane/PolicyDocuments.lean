import Recordlane.Recompiling

/-! Canonical documents: what a definition compiles to, and that it compiles to itself. -/
namespace Recordlane

variable {rt : Runtime} {found : Dict} {v : Json}

/-- The parts of a definition as they are compiled. -/
structure PolicyDocument where
  entity : Json
  mode : Json
  attributes : List Dict
  identifiers : List IdentifierRule
  relationships : Json
  matching : MatchingRules
  survivorship : Dict

namespace PolicyDocument

variable {p : PolicyDocument}

/-- The document as `compile_policy` writes it. -/
def document (p : PolicyDocument) : Dict := [
  ("entity", p.entity), ("mode", p.mode), ("attributes", .arr (p.attributes.map .obj)),
  ("identifiers", .arr (p.identifiers.map IdentifierRule.json)), ("relationships", p.relationships),
  ("matching", p.matching.json), ("survivorship", .obj p.survivorship)]

/-- The document with its keys in order. -/
def canonical (p : PolicyDocument) : Dict := [
  ("attributes", .arr (p.attributes.map fun item => .obj item.sorted)), ("entity", p.entity.sortKeys),
  ("identifiers", .arr (p.identifiers.map IdentifierRule.sorted)), ("matching", .obj p.matching.sorted),
  ("mode", p.mode.sortKeys), ("relationships", p.relationships.sortKeys),
  ("survivorship", .obj p.survivorship.sorted)]

theorem sortKeys_document : (Json.obj p.document).sortKeys = .obj p.canonical := by
  have hattributes : (Json.arr (p.attributes.map .obj)).sortKeys =
      .arr (p.attributes.map fun item => .obj item.sorted) := by
    rw [Json.sortKeys, Json.sortKeysList_eq_map, List.map_map]
    exact congrArg Json.arr (List.map_congr_left fun item _ => Json.sortKeys_obj)
  have hidentifiers : (Json.arr (p.identifiers.map IdentifierRule.json)).sortKeys =
      .arr (p.identifiers.map IdentifierRule.sorted) := by
    rw [Json.sortKeys, Json.sortKeysList_eq_map, List.map_map]
    exact congrArg Json.arr (List.map_congr_left fun r _ => r.sortKeys_json)
  rw [Json.sortKeys_obj, Dict.sorted, document, canonical]
  simp only [Json.sortKeysEntries, hattributes, hidentifiers, MatchingRules.sortKeys_json,
    Json.sortKeys_obj]
  simp [List.orderedInsert]

theorem canonical_set {mode : String} :
    Dict.set p.canonical "mode" (.str mode) = canonical { p with mode := .str mode } := by
  simp [canonical, Dict.set, Dict.contains, Json.sortKeys]

/-- What the parts have been checked for. -/
structure Compiled (rt : Runtime) (p : PolicyDocument) : Prop where
  attributes : ∀ item ∈ p.attributes, CanonicalAttribute item
  matching : p.matching.Checked rt
  survivorship : RulesChecked rt p.attributes p.survivorship

end PolicyDocument

theorem Json.iter_unique {items : List Json} (hu : v.unique = true) (h : v.iter = .ok items) :
    ∀ x ∈ items, x.unique = true := by
  rcases iter_cases h with ⟨xs, rfl, rfl⟩ | hstrs
  · exact unique_arr.mp hu
  · intro x hx
    have hx' := hstrs x hx
    cases x with
    | str s => rfl
    | _ => cases hx'

theorem Json.asDict_ok (h : v.asDict = .ok found) : v = .obj found := by
  cases v with
  | obj kvs => rw [Except.ok.inj h]
  | _ => cases h

theorem validationByField_unique {raw : Dict} (hu : Json.unique (.obj raw) = true)
    (h : validationByField rt raw = .ok found) : Json.unique (.obj found) = true := by
  unfold validationByField at h
  rw [Except.bind_eq_ok] at h
  obtain ⟨rules, hrules, h⟩ := h
  have hur := Json.iter_unique (Dict.unique_getD hu rfl) hrules
  refine Except.foldlM_invariant (P := fun d => Json.unique (.obj d) = true) h rfl ?_
  intro d rule d' hrule hd hstep
  simp only [Except.bind_eq_ok] at hstep
  obtain ⟨settings, hsettings, _, -, hstep⟩ := hstep
  have husettings := hur rule hrule
  rw [Json.asDict_ok hsettings] at husettings
  split at hstep
  · rw [Except.pure_eq_ok] at hstep
    rw [← hstep]
    split
    · exact hd
    · exact Dict.unique_set hd (Dict.unique_get husettings)
  · cases hstep
  · cases hstep
  · rw [Except.pure_eq_ok] at hstep
    rwa [← hstep]

theorem rawDefinition_unique {definition raw : Dict} {version : String}
    (hu : Json.unique (.obj definition) = true) (h : rawDefinition rt definition = .ok (raw, version)) :
    Json.unique (.obj raw) = true := by
  unfold rawDefinition at h
  split at h
  · split at h
    · cases h
    · simp only [Except.bind_eq_ok, Except.pure_eq_ok, Prod.mk.injEq] at h
      obtain ⟨found, hfound, _, -, rfl, -⟩ := h
      exact Json.toDict_unique (Dict.unique_getD hu rfl) hfound
  · rw [Except.pure_eq_ok, Prod.mk.injEq] at h
    rwa [← h.1]

theorem compileIdentifiers_ok {raw : Dict} {found : List Json} (hu : Json.unique (.obj raw) = true)
    (h : compileIdentifiers rt raw = .ok found) :
    ∃ rules : List IdentifierRule, found = rules.map IdentifierRule.json ∧
      ∀ r ∈ rules, r.field.unique = true ∧ r.identifierNamespace.unique = true := by
  unfold compileIdentifiers at h
  simp only [Except.bind_eq_ok] at h
  obtain ⟨listed, hlisted, _, -, h⟩ := h
  have hulisted : ∀ v ∈ listed, v.unique = true := by
    unfold rawIdentifiers at hlisted
    split at hlisted
    · simp only [Except.bind_eq_ok, Except.pure_eq_ok] at hlisted
      obtain ⟨fields, hfields, rfl⟩ := hlisted
      have hufields := Json.iter_unique (Dict.unique_getD hu rfl) hfields
      intro v hv
      obtain ⟨field, hfield, rfl⟩ := List.mem_map.mp hv
      exact Json.unique_obj.mpr ⟨by simp [Dict.keys], by simp [hufields field hfield]⟩
    · exact Json.iter_unique (Dict.unique_get hu) hlisted
  clear hlisted
  induction listed generalizing found with
  | nil =>
    rw [List.mapM_nil, Except.pure_eq_ok] at h
    exact ⟨[], h.symm, by simp⟩
  | cons v listed ih =>
    simp only [List.mapM_cons, Except.bind_eq_ok, Except.pure_eq_ok] at h
    obtain ⟨json, hjson, rest, hrest, rfl⟩ := h
    obtain ⟨r, rfl, hr⟩ := compileIdentifier_ok (hulisted v List.mem_cons_self) hjson
    obtain ⟨rules, rfl, hrules⟩ := ih hrest fun x hx => hulisted x (List.mem_cons_of_mem _ hx)
    exact ⟨r :: rules, rfl, List.forall_mem_cons.mpr ⟨hr, hrules⟩⟩

namespace PolicyDocument

variable {p : PolicyDocument}

theorem unique_document (h : ∀ item ∈ p.attributes, CanonicalAttribute item)
    (hi : ∀ r ∈ p.identifiers, r.field.unique = true ∧ r.identifierNamespace.unique = true)
    (hm : p.matching.blocking.unique = true ∧ p.matching.comparisons.unique = true)
    (hs : Json.unique (.obj p.survivorship) = true)
    (hv : p.entity.unique = true ∧ p.mode.unique = true ∧ p.relationships.unique = true) :
    Json.unique (.obj p.document) = true := by
  have hattributes : Json.unique (.arr (p.attributes.map .obj)) = true := by
    refine Json.unique_arr.mpr fun v hv => ?_
    obtain ⟨item, hitem, rfl⟩ := List.mem_map.mp hv
    exact (h item hitem).unique
  have hidentifiers : Json.unique (.arr (p.identifiers.map IdentifierRule.json)) = true := by
    refine Json.unique_arr.mpr fun v hv => ?_
    obtain ⟨r, hr, rfl⟩ := List.mem_map.mp hv
    exact Json.unique_obj.mpr ⟨by simp [Dict.keys], by simp [hi r hr, Json.unique]⟩
  have hprior : (floatJson p.matching.prior).unique = true := by cases p.matching.prior <;> rfl
  have hmatching : p.matching.json.unique = true :=
    Json.unique_obj.mpr ⟨by simp [Dict.keys], by
      simp [hm, hprior, MatchingRules.thresholds, Json.unique, Json.uniqueEntries]⟩
  refine Json.unique_obj.mpr ⟨by simp [document, Dict.keys], ?_⟩
  simp [document, hattributes, hidentifiers, hmatching, hs, hv]

theorem of_compilePolicy {definition : Json} {policy : CompiledPolicy} (hu : definition.unique = true)
    (h : compilePolicy rt definition = .ok policy) :
    ∃ p : PolicyDocument, policy.document = p.document ∧ p.Compiled rt ∧
      Json.unique (.obj p.document) = true := by
  unfold compilePolicy at h
  simp only [Except.bind_eq_ok, Except.pure_eq_ok, Prod.exists] at h
  obtain ⟨given, hgiven, raw, version, hraw, _, -, validation, hvalidation, items, hitems, attributes,
    hattributes, identifiers, hidentifiers, matching, hmatching, rules, hrules, rfl⟩ := h
  rw [Json.asDict_ok hgiven] at hu
  have hraw := rawDefinition_unique hu hraw
  have hvalidation := validationByField_unique hraw hvalidation
  have hitems := Json.iter_unique (Dict.unique_getD hraw rfl) hitems
  have hcanonical : ∀ item ∈ attributes, CanonicalAttribute item := by
    intro item hitem
    obtain ⟨v, hv, hcompiled⟩ := (Except.mapM_mem hattributes).1 item hitem
    exact compileAttribute_canonical (hitems v hv) hvalidation hcompiled
  obtain ⟨identified, rfl, hidentified⟩ := compileIdentifiers_ok hraw hidentifiers
  obtain ⟨m, rfl, hm, hblocking, hcomparisons⟩ := compileMatching_ok hraw hmatching
  obtain ⟨hfound, hchecked⟩ := compileSurvivorship_iff.mp hrules
  have hurules : Json.unique (.obj rules) = true := by
    rw [← Json.asDict_ok hfound]
    exact Dict.unique_getD hraw rfl
  refine ⟨⟨_, _, attributes, identified, _, m, rules⟩, rfl, ⟨hcanonical, hm, hchecked⟩, ?_⟩
  exact unique_document hcanonical hidentified ⟨hblocking, hcomparisons⟩ hurules
    ⟨Dict.unique_getD hraw rfl, Dict.unique_getD hraw rfl, Dict.unique_getD hraw rfl⟩

/-- The parts with their keys in order. -/
def inOrder (p : PolicyDocument) : PolicyDocument where
  entity := p.entity.sortKeys
  mode := p.mode.sortKeys
  attributes := p.attributes.map Dict.sorted
  identifiers := p.identifiers.map fun r =>
    ⟨r.field.sortKeys, r.identifierNamespace.sortKeys, r.hardConflict⟩
  relationships := p.relationships.sortKeys
  matching := { p.matching with
    blocking := p.matching.blocking.sortKeys
    comparisons := p.matching.comparisons.sortKeys }
  survivorship := p.survivorship.sorted

theorem canonical_inOrder : p.inOrder.canonical = p.canonical := by
  have hsorted : ∀ d : Dict, d.sorted.sorted = d.sorted := by
    intro d
    have hd := Json.sortKeys_sortKeys (.obj d)
    rwa [Json.sortKeys_obj, Json.sortKeys_obj, Json.obj.injEq] at hd
  simp [canonical, inOrder, Function.comp_def, hsorted, Json.sortKeys_sortKeys, IdentifierRule.sorted,
    MatchingRules.sorted]

end PolicyDocument

theorem Except.mapM_map_ok {α β τ ε : Type} {f : β → Except ε τ} {g : α → β} {k : α → τ} {xs : List α}
    (h : ∀ x ∈ xs, f (g x) = .ok (k x)) : (xs.map g).mapM f = .ok (xs.map k) := by
  induction xs with
  | nil => rfl
  | cons x xs ih =>
    rw [List.forall_mem_cons] at h
    simp only [List.map_cons, List.mapM_cons, Except.bind_eq_ok, Except.pure_eq_ok]
    exact ⟨_, h.1, _, ih h.2, rfl⟩

namespace PolicyDocument

variable {p : PolicyDocument}

theorem Compiled.compiles (h : p.Compiled rt) :
    ∃ policy, compilePolicy rt (.obj p.canonical) = .ok policy ∧ policy.document = p.inOrder.document := by
  have hraw : ∃ version, rawDefinition rt p.canonical = .ok (p.canonical, version) := ⟨_, rfl⟩
  obtain ⟨version, hraw⟩ := hraw
  have hknown : rejectUnknown p.canonical allowedRoot "unsupported policy settings" = .ok () :=
    rejectUnknown_ok.mpr (by simp [canonical, Dict.keys, allowedRoot])
  have hvalidation : validationByField rt p.canonical = .ok [] := rfl
  have hattributes : (p.attributes.map fun item => Json.obj item.sorted).mapM (compileAttribute rt []) =
      .ok (p.attributes.map Dict.sorted) :=
    Except.mapM_map_ok fun item hitem => (h.attributes item hitem).sorted.compiles
  have hidentifiers : compileIdentifiers rt p.canonical =
      .ok (p.inOrder.identifiers.map IdentifierRule.json) := by
    have hlisted : rawIdentifiers p.canonical = .ok (p.identifiers.map IdentifierRule.sorted) := rfl
    have hchecked : (p.identifiers.map IdentifierRule.sorted).forM (fun item => do
        let item ← item.asDict
        rejectUnknown item ["field", "key", "namespace", "hard_conflict"]
          ("unsupported identifier settings for " ++ nameOf rt item ["field", "key"])) = .ok () := by
      refine forM_ok.mpr fun v hv => ?_
      obtain ⟨r, -, rfl⟩ := List.mem_map.mp hv
      rw [IdentifierRule.sorted]
      simp only [Json.asDict, bind, Except.bind]
      exact rejectUnknown_ok.mpr (by simp [Dict.keys])
    unfold compileIdentifiers
    simp only [hlisted, bind, Except.bind]
    simp only [bind, Except.bind] at hchecked
    rw [hchecked, inOrder, List.map_map]
    exact Except.mapM_map_ok fun r _ => r.compiles rfl rfl
  have hmatching : compileMatching rt p.canonical = .ok p.inOrder.matching.json :=
    MatchingRules.compiles h.matching rfl
  have hsurvivorship : compileSurvivorship rt p.canonical (p.attributes.map Dict.sorted) =
      .ok p.survivorship.sorted := compileSurvivorship_iff.mpr ⟨rfl, h.survivorship.sorted⟩
  have hitems : ((Dict.get? p.canonical "attributes").getD (.arr [])).iter =
      .ok (p.attributes.map fun item => Json.obj item.sorted) := rfl
  refine ⟨⟨p.inOrder.document, version, canonicalHash rt (.obj p.inOrder.document)⟩, ?_, rfl⟩
  unfold compilePolicy
  simp only [Json.asDict, hraw, hknown, hvalidation, hitems, hattributes, hidentifiers, hmatching,
    hsurvivorship, bind, Except.bind]
  rfl

/-- Whatever mode is set in it, a canonical document compiles to itself. -/
theorem recompiled {definition : Json} {policy : CompiledPolicy} (hu : definition.unique = true)
    (h : compilePolicy rt definition = .ok policy) :
    ∃ canonical : Dict, policy.canonicalDocument = .obj canonical ∧
      Json.unique (.obj canonical) = true ∧ ∀ mode : String, ∃ policy',
        compilePolicy rt (.obj (canonical.set "mode" (.str mode))) = .ok policy' ∧
        policy'.canonicalDocument = .obj (canonical.set "mode" (.str mode)) := by
  obtain ⟨p, hdocument, hp, hunique⟩ := of_compilePolicy hu h
  refine ⟨p.canonical, ?_, ?_, fun mode => ?_⟩
  · rw [CompiledPolicy.canonicalDocument, hdocument, sortKeys_document]
  · rw [← sortKeys_document]
    exact Json.unique_sortKeys _ hunique
  · have hset : Compiled rt { p with mode := .str mode } := ⟨hp.attributes, hp.matching, hp.survivorship⟩
    obtain ⟨policy', hpolicy', hdocument'⟩ := hset.compiles
    rw [canonical_set]
    refine ⟨policy', hpolicy', ?_⟩
    rw [CompiledPolicy.canonicalDocument, hdocument', sortKeys_document, canonical_inOrder]

end PolicyDocument

end Recordlane
