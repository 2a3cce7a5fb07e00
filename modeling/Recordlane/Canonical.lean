import Mathlib.Data.List.Dedup
import Recordlane.Survivors
import Recordlane.PolicyCompiler
import Recordlane.Library.Table

/-! The canonical document of a policy, and survivorship under the policy it compiles to. -/
namespace Recordlane

variable {self : MasteringService} {rt : Runtime} {s t : Store} {d : Dict} {k : String}
  {policy recompiled : CompiledPolicy} {field : String}

theorem mem_sortedSet {xs : List String} {y : String} : y ∈ sortedSet xs ↔ y ∈ xs := by
  rw [sortedSet, List.mem_insertionSort, List.mem_dedup]

theorem sortedSet_nodup (xs : List String) : (sortedSet xs).Nodup :=
  (List.perm_insertionSort _ _).nodup_iff.mpr xs.nodup_dedup

/-- The hash tells all of the documents apart. -/
def CollisionFree (rt : Runtime) (documents : List Json) : Prop :=
  ∀ a ∈ documents, ∀ b ∈ documents, canonicalHash rt a = canonicalHash rt b → a.sortKeys = b.sortKeys

instance (rt : Runtime) (documents : List Json) : Decidable (CollisionFree rt documents) :=
  inferInstanceAs (Decidable (∀ a ∈ documents, ∀ b ∈ documents,
    canonicalHash rt a = canonicalHash rt b → a.sortKeys = b.sortKeys))

/-- The map with its keys in order, at every depth. -/
def Dict.sorted (d : Dict) : Dict := (Json.sortKeysEntries d).insertionSort fun p q => p.1 ≤ q.1

theorem Json.sortKeys_obj : Json.sortKeys (.obj d) = .obj d.sorted := by
  rw [sortKeys, Dict.sorted]

namespace Dict

theorem get?_sortKeysEntries : get? (Json.sortKeysEntries d) k = (d.get? k).map Json.sortKeys := by
  induction d with
  | nil => rfl
  | cons p d ih =>
    obtain ⟨key, v⟩ := p
    by_cases h : key = k
    · simp [get?, Json.sortKeysEntries, h]
    · simpa [get?, Json.sortKeysEntries, h] using ih

theorem get?_sorted : d.sorted.get? k = (d.get? k).map Json.sortKeys := by
  rw [← get?_sortKeysEntries]
  have hfind : Table.find Prod.fst d.sorted k = Table.find Prod.fst (Json.sortKeysEntries d) k :=
    Table.find_sort (fun a b : String => a ≤ b) String.le_refl
  exact congrArg (Option.map Prod.snd) hfind

theorem contains_eq_isSome : d.contains k = (d.get? k).isSome := by
  induction d with
  | nil => rfl
  | cons p d ih =>
    by_cases h : p.1 = k
    · simp [contains, get?, h]
    · simpa [contains, get?, h] using ih

theorem contains_sorted : d.sorted.contains k = d.contains k := by
  rw [contains_eq_isSome, contains_eq_isSome, get?_sorted, Option.isSome_map]

theorem length_sorted : d.sorted.length = d.length := by
  have hentries : (Json.sortKeysEntries d).length = d.length := by
    induction d with
    | nil => rfl
    | cons p d ih =>
      obtain ⟨key, v⟩ := p
      rw [Json.sortKeysEntries, List.length_cons, ih, List.length_cons]
  rw [sorted, List.length_insertionSort, hentries]

end Dict

namespace Json

theorem sortKeysList_eq_map (xs : List Json) : sortKeysList xs = xs.map sortKeys := by
  induction xs with
  | nil => rfl
  | cons x xs ih => rw [sortKeysList, ih, List.map_cons]

theorem sortKeysEntries_eq_map (kvs : List (String × Json)) :
    sortKeysEntries kvs = kvs.map fun p => (p.1, sortKeys p.2) := by
  induction kvs with
  | nil => rfl
  | cons p kvs ih => rw [sortKeysEntries, ih, List.map_cons]

mutual

theorem sortKeys_sortKeys : ∀ v : Json, v.sortKeys.sortKeys = v.sortKeys
  | .arr xs => by rw [sortKeys, sortKeys, sortKeysList_sortKeysList xs]
  | .obj kvs => by
    have hkeys : ((sortKeysEntries kvs).insertionSort fun p q => p.1 ≤ q.1).map
        (fun p => (p.1, sortKeys p.2)) = (sortKeysEntries kvs).insertionSort fun p q => p.1 ≤ q.1 := by
      rw [List.map_insertionSort _ (fun p q : String × Json => p.1 ≤ q.1) _ _ fun _ _ _ _ => Iff.rfl,
        ← sortKeysEntries_eq_map, sortKeysEntries_sortKeysEntries kvs]
    rw [sortKeys, sortKeys, sortKeysEntries_eq_map, hkeys]
    have htotal : Std.Total fun p q : String × Json => p.1 ≤ q.1 := ⟨fun p q => String.le_total p.1 q.1⟩
    have htrans : IsTrans (String × Json) fun p q => p.1 ≤ q.1 := ⟨fun _ _ _ => String.le_trans⟩
    rw [List.Pairwise.insertionSort_eq (List.pairwise_insertionSort _ _)]
  | .null | .bool _ | .int _ | .float _ | .str _ => rfl

theorem sortKeysList_sortKeysList : ∀ xs : List Json, sortKeysList (sortKeysList xs) = sortKeysList xs
  | [] => rfl
  | x :: xs => by rw [sortKeysList, sortKeysList, sortKeys_sortKeys x, sortKeysList_sortKeysList xs]

theorem sortKeysEntries_sortKeysEntries :
    ∀ kvs : List (String × Json), sortKeysEntries (sortKeysEntries kvs) = sortKeysEntries kvs
  | [] => rfl
  | (k, v) :: kvs => by
    rw [sortKeysEntries, sortKeysEntries, sortKeys_sortKeys v, sortKeysEntries_sortKeysEntries kvs]

end

theorem sortKeys_pyEq_str {v : Json} {text : String} :
    (sortKeys v).pyEq (.str text) = v.pyEq (.str text) := by
  cases v with
  | arr xs => simp [sortKeys, pyEq, number?]
  | obj kvs => simp [sortKeys, pyEq, number?]
  | _ => rfl

theorem str_isIn_sortKeys {text : String} {v : Json} :
    (Json.str text).isIn (sortKeys v) = (Json.str text).isIn v := by
  cases v with
  | arr xs =>
    rw [sortKeys, sortKeysList_eq_map]
    simp only [isIn, List.any_map, Function.comp_def, sortKeys_pyEq_str]
  | obj kvs =>
    rw [sortKeys_obj]
    simp only [isIn, Dict.contains_sorted]
  | _ => rfl

end Json

theorem indexOf_sortKeys {text : String} {v : Json} : indexOf text v.sortKeys = indexOf text v := by
  cases v with
  | arr xs =>
    rw [Json.sortKeys, Json.sortKeysList_eq_map]
    simp only [indexOf, List.findIdx?_map, Function.comp_def, Json.sortKeys_pyEq_str]
  | obj kvs => rw [Json.sortKeys_obj]; rfl
  | _ => rfl

theorem lengthOf_sortKeys {v : Json} : lengthOf v.sortKeys = lengthOf v := by
  cases v with
  | arr xs =>
    rw [Json.sortKeys, Json.sortKeysList_eq_map]
    simp only [lengthOf, List.length_map]
  | obj kvs =>
    rw [Json.sortKeys_obj]
    simp only [lengthOf, Dict.length_sorted]
  | _ => rfl

theorem compileSurvivorship_eq {raw rules found : Dict} {attributes : List Dict}
    (h : compileSurvivorship rt raw attributes = .ok rules)
    (hraw : raw.get? "survivorship" = some (.obj found)) : rules = found := by
  unfold compileSurvivorship at h
  rw [hraw, Except.bind_eq_ok] at h
  obtain ⟨_, hfound, h⟩ := h
  cases hfound
  dsimp only at h
  split at h
  · cases h
  · simp only [Except.bind_eq_ok, Except.pure_eq_ok] at h
    obtain ⟨-, -, h⟩ := h
    exact h.symm

/-- What a compiled document holds of the definition it stems from. -/
theorem compilePolicy_document {definition : Json} (h : compilePolicy rt definition = .ok policy) :
    ∃ given raw version attributes, definition = .obj given ∧
      rawDefinition rt given = .ok (raw, version) ∧
      compileSurvivorship rt raw attributes = .ok policy.survivorship ∧
      policy.document.get? "survivorship" = some (.obj policy.survivorship) ∧
      policy.document.get? "kind" = none := by
  cases definition with
  | obj given =>
    unfold compilePolicy at h
    simp only [Json.asDict, Except.bind_eq_ok, Except.pure_eq_ok, Prod.exists] at h
    obtain ⟨_, hgiven, raw, version, hraw, -, -, -, -, -, -, attributes, -, -, -, -, -, rules, hrules,
      rfl⟩ := h
    cases hgiven
    refine ⟨given, raw, version, attributes, rfl, hraw, ?_, ?_, ?_⟩
    · exact hrules
    · rfl
    · rfl
  | _ => cases h

/-- A canonical document compiles to the survivorship it was made from, with its keys in order. -/
theorem survivorship_recompiled {definition : Json} (h : compilePolicy rt definition = .ok policy)
    (hr : compilePolicy rt policy.canonicalDocument = .ok recompiled) :
    recompiled.survivorship = policy.survivorship.sorted := by
  obtain ⟨-, -, -, -, -, -, -, hrules, hkind⟩ := compilePolicy_document h
  obtain ⟨given, raw, version, attributes, hgiven, hraw, hcompiled, -, -⟩ := compilePolicy_document hr
  rw [CompiledPolicy.canonicalDocument, Json.sortKeys_obj, Json.obj.injEq] at hgiven
  -- a canonical document is no domain pack, so that it is compiled as it stands
  have hget : Dict.get given "kind" = .null := by
    rw [← hgiven, Dict.get, Dict.get?_sorted, hkind]
    rfl
  have hsame : raw = given := by
    unfold rawDefinition at hraw
    rw [hget] at hraw
    simp only [Json.pyEq, Json.number?, Bool.false_eq_true, if_false, Except.pure_eq_ok,
      Prod.mk.injEq] at hraw
    exact hraw.1.symm
  refine compileSurvivorship_eq hcompiled ?_
  rw [hsame, ← hgiven, Dict.get?_sorted, hrules, Option.map_some, Json.sortKeys_obj]

namespace MasteringService

theorem fieldRule_sorted (h : recompiled.survivorship = policy.survivorship.sorted) :
    fieldRule recompiled field = (fieldRule policy field).sorted := by
  unfold fieldRule
  rw [h, Dict.get?_sorted]
  cases policy.survivorship.get? field with
  | none => rfl
  | some rule =>
    cases rule with
    | obj rule => rw [Option.map_some, Json.sortKeys_obj]
    | _ => rfl

theorem precedenceRank_sorted {rule : Dict} {source : Source} :
    precedenceRank rule.sorted source = precedenceRank rule source := by
  have hget : (rule.sorted.get? "source_precedence").getD (.arr []) =
      ((rule.get? "source_precedence").getD (.arr [])).sortKeys := by
    rw [Dict.get?_sorted]
    cases rule.get? "source_precedence" <;> rfl
  unfold precedenceRank
  simp only [hget, Json.str_isIn_sortKeys, indexOf_sortKeys, lengthOf_sortKeys]

theorem verifiedRank_sorted (h : recompiled.survivorship = policy.survivorship.sorted) {rule : Dict}
    {verified : Bool} : verifiedRank recompiled rule.sorted verified = verifiedRank policy rule verified := by
  have hget : (rule.sorted.get? "strategy").getD
      ((recompiled.survivorship.get? "default").getD (.str "")) =
      ((rule.get? "strategy").getD ((policy.survivorship.get? "default").getD (.str ""))).sortKeys := by
    rw [h, Dict.get?_sorted, Dict.get?_sorted]
    cases rule.get? "strategy" <;> cases policy.survivorship.get? "default" <;> rfl
  unfold verifiedRank
  rw [hget]
  cases (rule.get? "strategy").getD ((policy.survivorship.get? "default").getD (.str "")) <;> rfl

theorem contender_sorted (h : recompiled.survivorship = policy.survivorship.sorted) {r : SourceRecord} :
    contender s recompiled field r = contender s policy field r := by
  unfold contender
  simp only [fieldRule_sorted h, precedenceRank_sorted, verifiedRank_sorted h]

theorem masterValues_sorted (h : recompiled.survivorship = policy.survivorship.sorted)
    (hs : RanksKept s t) {x : Id} (hc : self.SameContributions s t x) {values provenance : Dict}
    (hv : self.masterValues s x policy = .ok (values, provenance)) :
    ∃ provenance', self.masterValues t x recompiled = .ok (values, provenance') := by
  refine masterValues_of_contenders hc (fun field r r' c hr hcontender => ?_) hv
  rw [contender_sorted h]
  exact contender_agree hs hr hcontender

end MasteringService

end Recordlane
