import Recordlane.PolicyDocuments
import Recordlane.Supplier

/-! The settings of a definition that its compiled policy does not ignore. -/
namespace Recordlane

variable {rt : Runtime} {raw item found validation : Dict} {policy : CompiledPolicy} {key : String} {v : Json}

/-! The settings, as a definition has them. -/

/-- What a list, a map or a text names. -/
def Json.named : Json → List Json
  | .arr xs => xs
  | .obj kvs => (Dict.keys kvs).map .str
  | .str text => [.str text]
  | _ => []

/-- The entries of the `matching` section. -/
def matchingSettings (raw : Dict) : Dict :=
  match ((raw.get? "matching").getD (.obj [])).toDict with
  | .ok matching => matching
  | .error _ => []

def hardConflicts (raw : Dict) : Json := ((matchingSettings raw).get? "hard_conflicts").getD (.arr [])

def givenThresholds (raw : Dict) : Dict :=
  match (matchingSettings raw).get? "thresholds" with
  | some (.obj kvs) => kvs
  | _ => []

def validationRules (raw : Dict) : List Dict := CompiledPolicy.maps (raw.get "validation")

def attributeItems (raw : Dict) : List Dict := CompiledPolicy.maps (raw.get "attributes")

def identifierItems (raw : Dict) : List Dict :=
  match rawIdentifiers raw with
  | .ok items => CompiledPolicy.maps (.arr items)
  | .error _ => []

/-- The list that the last rule on a key has. -/
def lastList (rules : List Dict) (key : String) : Json :=
  match rules.reverse.find? fun rule => rule.get "attribute" = .str key ∧ key ≠ "" with
  | some rule => rule.get "allowedValues"
  | none => .null

/-- The list that applies to an attribute: its own, under either name, before that of the rules. -/
def effectiveList (raw item : Dict) (key : String) : Json :=
  match item.get? "allowedValues" with
  | some list => list
  | none => (item.get? "allowed_values").getD (lastList (validationRules raw) key)

/-! What it is for them to be used. -/

/-- Each named field is an identifier with a hard conflict. -/
def ConflictsUsed (raw : Dict) (policy : CompiledPolicy) : Prop :=
  ∀ field ∈ (hardConflicts raw).named, ∃ identifier ∈ policy.identifiers,
    field.pyEq (identifier.get "field") = true ∧ identifier.get "hard_conflict" = .bool true

/-- No record with this value under the key passes without a report on it. -/
def Reported (rt : Runtime) (policy : CompiledPolicy) (key : String) (v : Json) : Prop :=
  ∀ values errors, Dict.get values key = v → policy.validate rt values = .ok errors →
    ∃ e ∈ errors, e.attributeKey = key ∧ (e.code = "allowed_values" ∨ e.code = "required")

/-- Values outside the list of a rule are reported. -/
def RulesUsed (rt : Runtime) (raw : Dict) (policy : CompiledPolicy) : Prop :=
  ∀ rule ∈ validationRules raw, rule.get "allowedValues" ≠ .null →
    ∃ key, rule.get "attribute" = .str key ∧ ∀ v, v ≠ .null →
      v.isIn (rule.get "allowedValues") = .ok false → Reported rt policy key v

def ThresholdsUsed (raw : Dict) (policy : CompiledPolicy) : Prop :=
  ∀ k ∈ (givenThresholds raw).keys, ∃ thresholds,
    policy.matching.get "thresholds" = .obj thresholds ∧ k ∈ Dict.keys thresholds

/-- No setting of these three kinds is ignored. -/
structure NothingIgnored (rt : Runtime) (raw : Dict) (policy : CompiledPolicy) : Prop where
  conflicts : ConflictsUsed raw policy
  rules : RulesUsed rt raw policy
  thresholds : ThresholdsUsed raw policy

/-! When they are. -/

/-- The pattern of an attribute cannot be used, whatever the value. -/
def Unusable (pattern : Json) : Prop :=
  pattern.truthy = true ∧ CompiledPolicy.patternTooLong pattern ≠ .ok false

/-- An attribute that lets no record pass with the value under the key: it is required, lists other
values, or cannot be checked. -/
def Refuses (rt : Runtime) (raw : Dict) (key : String) (v : Json) (item : Dict) : Prop :=
  item.get "key" = .str key ∧
    ((item.get "required").truthy = true ∧ v = .str "" ∨
      effectiveList raw item key ≠ .null ∧ v.isIn (effectiveList raw item key) ≠ .ok true ∨
      Unusable (item.get "pattern") ∨
      (item.get "pattern").truthy = true ∧ ∀ b, CompiledPolicy.patternHolds rt (item.get "pattern")
      v ≠ .ok b) ∨
  (item.get "required").truthy = false ∧ Unusable (item.get "pattern")

/-- What a definition has to be like for its settings to be used. -/
structure Effective (rt : Runtime) (raw : Dict) : Prop where
  conflicts : ∀ field ∈ (hardConflicts raw).named, ∃ item ∈ identifierItems raw,
    field.pyEq ((item.get? "field").getD (item.get "key")) = true ∧
      ∀ explicit, item.get? "hard_conflict" = some explicit → explicit.truthy = true
  rules : ∀ rule ∈ validationRules raw, rule.get "allowedValues" ≠ .null →
    ∃ key, rule.get "attribute" = .str key ∧ ∀ v, v ≠ .null →
      v.isIn (rule.get "allowedValues") = .ok false → ∃ item ∈ attributeItems raw, Refuses rt raw key v item
  thresholds : ∀ k ∈ (givenThresholds raw).keys, k ∈ ["review", "auto_link"]

/-! What a compiled attribute keeps of the item it stems from. -/

theorem compileRoles_get? {accessKey k : String} (h : compileRoles rt item accessKey = .ok found)
    (hk : k ≠ accessKey) : found.get? k = item.get? k := by
  unfold compileRoles at h
  split at h
  · rw [← Except.ok.inj h]
  · dsimp only at h
    split at h
    · rw [← Except.ok.inj h]
      exact Dict.get?_set_of_ne hk
    · cases h
  · cases h

theorem withAllowedValues_get? {inherited : Json} {k : String} (hk : k ≠ "allowedValues")
    (hk' : k ≠ "allowed_values") : (withAllowedValues item inherited).get? k = item.get? k := by
  unfold withAllowedValues
  cases hget : item.get? "allowedValues" with
  | some w =>
    dsimp only
    split
    · rw [Dict.get?_set_of_ne hk', Dict.get?_set_of_ne hk', Dict.get?_erase, if_neg hk]
    · rw [Dict.get?_set_of_ne hk', Dict.get?_erase, if_neg hk]
  | none =>
    dsimp only
    split
    · exact Dict.get?_set_of_ne hk'
    · rfl

theorem withAllowedValues_list {inherited : Json} : (withAllowedValues item inherited).get "allowed_values" =
    match item.get? "allowedValues" with
    | some list => list
    | none => (item.get? "allowed_values").getD inherited := by
  unfold withAllowedValues
  cases hget : item.get? "allowedValues" with
  | some w =>
    have hcontains : ((item.erase "allowedValues").set "allowed_values" w).contains "allowed_values" =
        true := by
      rw [Dict.contains_eq_isSome, Dict.get?_set, Option.isSome_some]
    dsimp only
    rw [hcontains, Bool.not_true, Bool.and_false, if_neg Bool.false_ne_true, Dict.get, Dict.get?_set,
      Option.getD_some]
  | none =>
    dsimp only
    rw [Dict.contains_eq_isSome]
    cases hlist : item.get? "allowed_values" with
    | some list =>
      rw [Option.isSome_some, Bool.not_true, Bool.and_false, if_neg Bool.false_ne_true, Dict.get, hlist]
      rfl
    | none =>
      by_cases hnull : inherited.pyEq .null = true
      · rw [hnull, Bool.not_true, Bool.false_and, if_neg Bool.false_ne_true, Dict.get, hlist,
          Json.pyEq_null.mp hnull]
      · rw [Bool.not_eq_true] at hnull
        rw [hnull, Option.isSome_none, Bool.not_false, Bool.and_true, if_pos rfl, Dict.get, Dict.get?_set]
        rfl

theorem compileAttribute_reads (h : compileAttribute rt validation v = .ok found) :
    ∃ (item : Dict) (key : String), v = .obj item ∧ item.get "key" = .str key ∧
      found.get "key" = .str key ∧ found.get "required" = item.get "required" ∧
      found.get "pattern" = item.get "pattern" ∧
      found.get "allowed_values" = (match item.get? "allowedValues" with
        | some list => list
        | none => (item.get? "allowed_values").getD (validation.get key)) := by
  obtain ⟨item, reads, writes, key, rfl, -, hreads, hwrites, -, -, hkey, rfl⟩ := compileAttribute_ok h
  have hsame : ∀ k : String, k ≠ "read_roles" → k ≠ "write_roles" → writes.get? k = item.get? k :=
    fun k hr hw => (compileRoles_get? hwrites hw).trans (compileRoles_get? hreads hr)
  have hnamed : ∀ (k : String) (w : Json), k ≠ "name" → k ≠ "read_roles" → k ≠ "write_roles" →
      (writes.set "name" w).get? k = item.get? k :=
    fun k w hn hr hw => (Dict.get?_set_of_ne hn).trans (hsame k hr hw)
  have hread : ∀ (k : String) (w inherited : Json), k ≠ "name" → k ≠ "read_roles" → k ≠ "write_roles" →
      k ≠ "allowedValues" → k ≠ "allowed_values" →
      (withAllowedValues (writes.set "name" w) inherited).get k = item.get k := by
    intro k w inherited hn hr hw ha ha'
    rw [Dict.get, Dict.get, withAllowedValues_get? ha ha', hnamed k w hn hr hw]
  rw [Dict.get, hsame "key" (by decide) (by decide)] at hkey
  refine ⟨item, key, rfl, hkey, ?_, hread _ _ _ (by decide) (by decide) (by decide) (by decide) (by decide),
    hread _ _ _ (by decide) (by decide) (by decide) (by decide) (by decide), ?_⟩
  · rw [hread _ _ _ (by decide) (by decide) (by decide) (by decide) (by decide)]
    exact hkey
  · rw [withAllowedValues_list, hnamed "allowedValues" _ (by decide) (by decide) (by decide),
      hnamed "allowed_values" _ (by decide) (by decide) (by decide)]

theorem maps_of_iter {listing : Json} {items : List Json} (h : listing.iter = .ok items) :
    CompiledPolicy.maps (.arr items) = CompiledPolicy.maps listing := by
  rcases Json.iter_cases h with ⟨xs, rfl, rfl⟩ | hstrs
  · rfl
  · have hnone : CompiledPolicy.maps (.arr items) = [] := by
      refine List.filterMap_eq_nil_iff.mpr fun x hx => ?_
      have hx' := hstrs x hx
      cases x with
      | str text => rfl
      | _ => cases hx'
    rw [hnone]
    cases listing with
    | arr xs =>
      obtain rfl := Except.ok.inj h
      exact hnone.symm
    | _ => rfl

theorem maps_of_section {k : String} {items : List Json}
    (h : ((raw.get? k).getD (.arr [])).iter = .ok items) :
    CompiledPolicy.maps (.arr items) = CompiledPolicy.maps (raw.get k) := by
  rw [maps_of_iter h, Dict.get]
  cases raw.get? k <;> rfl

/-- The validation rules leave each key the list of the last of them. -/
theorem validationByField_get (h : validationByField rt raw = .ok validation) (key : String) :
    validation.get key = lastList (validationRules raw) key := by
  unfold validationByField at h
  rw [Except.bind_eq_ok] at h
  obtain ⟨rules, hrules, h⟩ := h
  rw [validationRules, ← maps_of_section hrules]
  suffices hall : ∀ key, Dict.get validation key =
      lastList (CompiledPolicy.maps (.arr ([] ++ rules))) key from hall key
  refine Except.foldlM_extends (P := fun done found => ∀ key, Dict.get found key =
    lastList (CompiledPolicy.maps (.arr done)) key) h (fun _ => rfl) ?_
  intro done found v found' _ hfound hstep key
  simp only [Except.bind_eq_ok] at hstep
  obtain ⟨rule, hrule, _, -, hstep⟩ := hstep
  have hmaps : CompiledPolicy.maps (.arr (done ++ [v])) = CompiledPolicy.maps (.arr done) ++ [rule] := by
    rw [Json.asDict_ok hrule]
    simp [CompiledPolicy.maps]
  rw [hmaps, lastList, List.reverse_append, List.reverse_singleton, List.singleton_append,
    List.find?_cons]
  split at hstep
  · next field hfield =>
    rw [Except.pure_eq_ok] at hstep
    rw [← hstep, hfield]
    by_cases hblank : field = ""
    · rw [if_pos hblank, decide_eq_false (by simp [hblank]), hfound]
      rfl
    · rw [if_neg hblank]
      by_cases hkey : field = key
      · rw [decide_eq_true ⟨by rw [hkey], hkey ▸ hblank⟩, ← hkey, Dict.get, Dict.get?_set]
        rfl
      · rw [decide_eq_false (by simp [hkey]), Dict.get, Dict.get?_set_of_ne (Ne.symm hkey)]
        exact hfound key
  · cases hstep
  · cases hstep
  · next hstr _ _ =>
    rw [Except.pure_eq_ok] at hstep
    rw [← hstep, decide_eq_false fun hc => hstr key hc.1, hfound]
    rfl

namespace CompiledPolicy

variable {values : Dict} {errors : List QualityError}

/-- A report that a value is not among the allowed ones. -/
def Reports (key : String) (e : QualityError) : Prop :=
  e.attributeKey = key ∧ (e.code = "allowed_values" ∨ e.code = "required")

/-- Whether a value is outside the list of its attribute. -/
def outsideList (item : Dict) (v : Json) : Py Bool :=
  if (item.get "allowed_values").pyEq .null then .ok false
  else (fun b => !b) <$> v.isIn (item.get "allowed_values")

/-- Whether a value does not match the pattern of its attribute. -/
def offPattern (rt : Runtime) (key : String) (item : Dict) (v : Json) : Py Bool :=
  if (item.get "pattern").truthy then do
    let tooLong ← patternTooLong (item.get "pattern")
    if tooLong then .error (.policy ("pattern for " ++ key ++ " exceeds 256 characters"))
    else (fun b => !b) <$> patternHolds rt (item.get "pattern") v
  else .ok false

/-- The errors of an attribute that has a value, and is not a required one with a blank value. -/
theorem validateAttribute_present (rt : Runtime) (hkey : item.get "key" = .str key)
    (hv : values.get key ≠ .null)
    (hblank : ¬ ((item.get "required").truthy = true ∧ values.get key = .str "")) :
    ∃ (name : String) (rest : List QualityError), (∀ e ∈ rest, e.code = "type") ∧
      (rest = [] → hasKind ((item.get? "type").getD (.str "string")) (values.get key) = true) ∧
      validateAttribute rt values item = (do
        let outside ← outsideList item (values.get key)
        let mismatch ← offPattern rt key item (values.get key)
        return (if outside then [⟨key, "allowed_values", name ++ " is not an allowed value"⟩] else []) ++
          (if mismatch then [⟨key, "pattern", name ++ " has an invalid format"⟩] else []) ++ rest) := by
  have hpresent : (!(values.get key).pyEq .null) = true := by
    rw [Bool.not_eq_true', ← Bool.not_eq_true, Json.pyEq_null]
    exact hv
  have hcontains : values.contains key = true := by
    rw [Dict.contains_eq_isSome]
    cases hget : values.get? key with
    | none => exact absurd (by rw [Dict.get, hget]; rfl) hv
    | some w => rfl
  have hmissing : ((item.get "required").truthy &&
      (!values.contains key || (values.get key).pyEq .null || (values.get key).pyEq (.str ""))) = false := by
    rw [Bool.not_eq_true'] at hpresent
    rw [hcontains, hpresent, Json.pyEq_str, Bool.not_true, Bool.false_or, Bool.false_or,
      Bool.and_eq_false_iff, decide_eq_false_iff_not]
    by_cases hrequired : (item.get "required").truthy = true
    · exact .inr fun h => hblank ⟨hrequired, h⟩
    · exact .inl (Bool.not_eq_true _ ▸ hrequired)
  refine ⟨match item.get? "name" with
      | some n => rt.strOf n
      | none => spaced key,
    if !hasKind ((item.get? "type").getD (.str "string")) (values.get key) then
      [⟨key, "type", (match item.get? "name" with
        | some n => rt.strOf n
        | none => spaced key) ++ " must be " ++ rt.strOf ((item.get? "type").getD (.str "string"))⟩]
    else [], ?_, ?_, ?_⟩
  · intro e he
    split at he
    · rw [List.mem_singleton.mp he]
    · cases he
  · intro hrest
    cases hkind : hasKind ((item.get? "type").getD (.str "string")) (values.get key) with
    | true => rfl
    | false =>
      rw [hkind] at hrest
      cases hrest
  · unfold validateAttribute outsideList offPattern
    rw [hkey]
    dsimp only
    rw [hmissing, if_neg Bool.false_ne_true, hpresent]
    by_cases hnull : (item.get "allowed_values").pyEq .null = true
    · by_cases htruthy : (item.get "pattern").truthy = true
      · simp only [hnull, htruthy, Bool.not_true, Bool.and_false, Bool.and_self, Bool.false_eq_true,
          if_false, if_true, pure_bind, bind_assoc]
        cases patternTooLong (item.get "pattern") with
        | error e => rfl
        | ok tooLong => cases tooLong <;> rfl
      · rw [Bool.not_eq_true] at htruthy
        simp only [hnull, htruthy, Bool.not_true, Bool.and_false, Bool.false_eq_true, if_false, if_true]
        rfl
    · rw [Bool.not_eq_true] at hnull
      by_cases htruthy : (item.get "pattern").truthy = true
      · simp only [hnull, htruthy, Bool.not_false, Bool.and_self, Bool.false_eq_true, if_false, if_true]
        cases (values.get key).isIn (item.get "allowed_values") with
        | error e => rfl
        | ok b =>
          cases patternTooLong (item.get "pattern") with
          | error e => rfl
          | ok tooLong => cases tooLong <;> rfl
      · rw [Bool.not_eq_true] at htruthy
        simp only [hnull, htruthy, Bool.not_false, Bool.and_self, Bool.and_false,
            Bool.false_eq_true, if_false, if_true]
        cases (values.get key).isIn (item.get "allowed_values") <;> rfl

theorem outsideList_eq : outsideList item v = .ok false ↔
    item.get "allowed_values" = .null ∨ v.isIn (item.get "allowed_values") = .ok true := by
  unfold outsideList
  by_cases hnull : (item.get "allowed_values").pyEq .null = true
  · rw [if_pos hnull]
    exact iff_of_true rfl (.inl (Json.pyEq_null.mp hnull))
  · rw [if_neg hnull, Except.map_eq_ok]
    rw [Json.pyEq_null] at hnull
    constructor
    · rintro ⟨b, hb, hfalse⟩
      rw [Bool.not_eq_false'] at hfalse
      exact .inr (hfalse ▸ hb)
    · exact fun h => ⟨true, h.resolve_left hnull, rfl⟩

theorem offPattern_isOk : (∃ b, offPattern rt key item v = .ok b) ↔ (item.get "pattern").truthy = true →
    patternTooLong (item.get "pattern") = .ok false ∧ ∃ b, patternHolds rt (item.get "pattern") v =
    .ok b := by
  unfold offPattern
  by_cases htruthy : (item.get "pattern").truthy = true
  · rw [if_pos htruthy]
    simp only [Except.bind_eq_ok, htruthy, true_implies]
    constructor
    · rintro ⟨b, tooLong, hlong, h⟩
      cases tooLong with
      | true => cases h
      | false =>
        rw [if_neg Bool.false_ne_true, Except.map_eq_ok] at h
        obtain ⟨holds, hholds, -⟩ := h
        exact ⟨hlong, holds, hholds⟩
    · rintro ⟨hlong, holds, hholds⟩
      refine ⟨!holds, false, hlong, ?_⟩
      rw [if_neg Bool.false_ne_true, Except.map_eq_ok]
      exact ⟨holds, hholds, rfl⟩
  · rw [if_neg htruthy]
    exact iff_of_true ⟨false, rfl⟩ fun h => absurd h htruthy

theorem validateAttribute_refuses (hkey : item.get "key" = .str key) (hv : values.get key ≠ .null)
    (h : (item.get "required").truthy = true ∧ values.get key = .str "" ∨
      outsideList item (values.get key) ≠ .ok false ∨
      ∀ b, offPattern rt key item (values.get key) ≠ .ok b)
    (hok : validateAttribute rt values item = .ok errors) : ∃ e ∈ errors, Reports key e := by
  by_cases hblank : (item.get "required").truthy = true ∧ values.get key = .str ""
  · unfold validateAttribute at hok
    rw [hkey] at hok
    dsimp only at hok
    rw [hblank.1, hblank.2] at hok
    simp only [Json.pyEq, decide_true, Bool.or_true, Bool.and_self, if_true, Except.pure_eq_ok] at hok
    rw [← hok]
    exact ⟨_, List.mem_singleton_self _, rfl, .inr rfl⟩
  · obtain ⟨name, rest, -, -, heq⟩ := validateAttribute_present rt hkey hv hblank
    rw [heq] at hok
    simp only [Except.bind_eq_ok, Except.pure_eq_ok] at hok
    obtain ⟨outside, houtside, mismatch, hmismatch, rfl⟩ := hok
    rcases h with h | h | h
    · exact absurd h hblank
    · cases outside with
      | false => exact absurd houtside h
      | true => exact ⟨⟨key, "allowed_values", name ++ " is not an allowed value"⟩, by simp, rfl, .inl rfl⟩
    · exact absurd hmismatch (h mismatch)

theorem validateAttribute_passes (hkey : item.get "key" = .str key) (hv : values.get key ≠ .null)
    (hblank : ¬ ((item.get "required").truthy = true ∧ values.get key = .str ""))
    (hlist : outsideList item (values.get key) = .ok false)
    (hpattern : ∃ b, offPattern rt key item (values.get key) = .ok b) :
    ∃ errors, validateAttribute rt values item = .ok errors ∧ ∀ e ∈ errors, ∀ k, ¬ Reports k e := by
  obtain ⟨name, rest, hrest, -, heq⟩ := validateAttribute_present rt hkey hv hblank
  obtain ⟨mismatch, hmismatch⟩ := hpattern
  refine ⟨_, by rw [heq, hlist, hmismatch]; rfl, fun e he k hreport => ?_⟩
  simp only [Bool.false_eq_true, if_false, List.nil_append, List.mem_append] at he
  have hcode : e.code = "pattern" ∨ e.code = "type" := by
    rcases he with he | he
    · split at he
      · rw [List.mem_singleton.mp he]
        exact .inl rfl
      · cases he
    · exact .inr (hrest e he)
  rcases hcode with hcode | hcode <;> rcases hreport.2 with h | h <;> rw [hcode] at h <;> revert h <;> decide

theorem validateAttribute_absent {other : String} (hkey : item.get "key" = .str other)
    (hv : values.contains other = false)
    (husable : ¬ ((item.get "required").truthy = false ∧ Unusable (item.get "pattern"))) :
    ∃ errors, validateAttribute rt values item = .ok errors ∧ ∀ e ∈ errors, e.attributeKey = other := by
  have hnull : values.get other = .null := by
    rw [Dict.contains_eq_isSome, Option.isSome_eq_false_iff, Option.isNone_iff_eq_none] at hv
    rw [Dict.get, hv]
    rfl
  unfold validateAttribute
  rw [hkey]
  dsimp only
  rw [hv, hnull, Bool.not_false, Bool.true_or, Bool.true_or, Bool.and_true]
  by_cases hrequired : (item.get "required").truthy = true
  · rw [if_pos hrequired]
    exact ⟨_, rfl, fun e he => by rw [List.mem_singleton.mp he]⟩
  · rw [if_neg hrequired]
    rw [Bool.not_eq_true] at hrequired
    have hshort : (item.get "pattern").truthy = true → patternTooLong (item.get "pattern") = .ok false := by
      intro htruthy
      by_contra hlong
      exact husable ⟨hrequired, htruthy, hlong⟩
    have habsent : (!Json.pyEq .null .null) = false := rfl
    simp only [habsent, Bool.false_and, Bool.false_eq_true, if_false]
    by_cases htruthy : (item.get "pattern").truthy = true
    · simp only [htruthy, if_true, hshort htruthy, bind, Except.bind, pure, Except.pure, Bool.false_eq_true,
        if_false]
      exact ⟨[], rfl, nofun⟩
    · simp only [htruthy, if_false, bind, Except.bind, pure, Except.pure, Bool.false_eq_true]
      exact ⟨[], rfl, nofun⟩

/-- A pattern that cannot be used stops every validation, where its attribute may be absent. -/
theorem validateAttribute_unusable {other : String} (hkey : item.get "key" = .str other)
    (hrequired : (item.get "required").truthy = false) (hunusable : Unusable (item.get "pattern")) :
    validateAttribute rt values item ≠ .ok errors := by
  intro hok
  by_cases hv : values.get other = .null
  · unfold validateAttribute at hok
    rw [hkey] at hok
    dsimp only at hok
    have habsent : (!(values.get other).pyEq .null) = false := by
      rw [hv]
      rfl
    rw [hrequired, Bool.false_and, if_neg Bool.false_ne_true, habsent, hunusable.1] at hok
    simp only [Bool.false_and, Bool.false_eq_true, if_false, if_true] at hok
    cases hlong : patternTooLong (item.get "pattern") with
    | error e =>
      rw [hlong] at hok
      cases hok
    | ok tooLong =>
      cases tooLong with
      | true =>
        rw [hlong] at hok
        cases hok
      | false => exact hunusable.2 hlong
  · obtain ⟨name, rest, -, -, heq⟩ := validateAttribute_present rt hkey hv (by simp [hrequired])
    rw [heq] at hok
    simp only [Except.bind_eq_ok] at hok
    obtain ⟨-, -, mismatch, hmismatch, -⟩ := hok
    exact hunusable.2 (offPattern_isOk.mp ⟨mismatch, hmismatch⟩ hunusable.1).1

end CompiledPolicy

/-! The three kinds of settings. -/

section Compiled

variable {given : Dict} {version : String}

theorem compilePolicy_parts (hraw : rawDefinition rt given = .ok (raw, version))
    (h : compilePolicy rt (.obj given) = .ok policy) :
    ∃ validation items attributes identifiers matching, validationByField rt raw = .ok validation ∧
      ((raw.get? "attributes").getD (.arr [])).iter = .ok items ∧
      items.mapM (compileAttribute rt validation) = .ok attributes ∧
      compileIdentifiers rt raw = .ok identifiers ∧ compileMatching rt raw = .ok matching ∧
      policy.attributes = attributes ∧ policy.identifiers = CompiledPolicy.maps (.arr identifiers) ∧
      policy.document.get "matching" = matching := by
  unfold compilePolicy at h
  simp only [Json.asDict, Except.bind_eq_ok, Except.pure_eq_ok, Prod.exists] at h
  obtain ⟨_, hgiven, raw', version', hraw', -, -, validation, hvalidation, items, hitems, attributes,
    hattributes, identifiers, hidentifiers, matching, hmatching, rules, -, rfl⟩ := h
  obtain rfl := Except.ok.inj hgiven
  obtain ⟨rfl, rfl⟩ := Prod.mk.inj (Except.ok.inj (hraw.symm.trans hraw'))
  refine ⟨validation, items, attributes, identifiers, matching, hvalidation, hitems, hattributes,
    hidentifiers, hmatching, ?_, rfl, rfl⟩
  change CompiledPolicy.maps (.arr (attributes.map .obj)) = attributes
  rw [CompiledPolicy.maps, List.filterMap_map]
  exact List.filterMap_some

theorem compiled_attribute {definition : Json} {policy : CompiledPolicy} {item : Dict}
    (h : compilePolicy rt definition = .ok policy) (hitem : item ∈ policy.attributes) :
    ∃ validation v, compileAttribute rt validation v = .ok item := by
  obtain ⟨given, raw, version, -, rfl, hraw, -⟩ := compilePolicy_document h
  obtain ⟨validation, items, attributes, -, -, -, -, hattributes, -, -, hpolicy, -⟩ :=
    compilePolicy_parts hraw h
  rw [hpolicy] at hitem
  obtain ⟨v, -, hv⟩ := (Except.mapM_mem hattributes).1 item hitem
  exact ⟨validation, v, hv⟩

theorem attribute_items (hraw : rawDefinition rt given = .ok (raw, version))
    (h : compilePolicy rt (.obj given) = .ok policy) :
    List.Forall₂ (fun item found => ∃ key, item.get "key" = .str key ∧ found.get "key" = .str key ∧
      found.get "required" = item.get "required" ∧ found.get "pattern" = item.get "pattern" ∧
      found.get "allowed_values" = effectiveList raw item key) (attributeItems raw) policy.attributes := by
  obtain ⟨validation, items, attributes, -, -, hvalidation, hitems, hattributes, -, -, hpolicy, -⟩ :=
    compilePolicy_parts hraw h
  rw [attributeItems, ← maps_of_section hitems, hpolicy]
  have hall := Except.mapM_forall₂ hattributes
  clear hattributes hitems hpolicy
  induction hall with
  | nil => exact .nil
  | @cons v found vs rest hfound _ ih =>
    obtain ⟨item, key, rfl, hkey, hfoundKey, hrequired, hpattern, hlist⟩ := compileAttribute_reads hfound
    have hmaps : CompiledPolicy.maps (.arr (.obj item :: vs)) = item :: CompiledPolicy.maps (.arr vs) := rfl
    rw [hmaps]
    refine .cons ⟨key, hkey, hfoundKey, hrequired, hpattern, ?_⟩ ih
    rw [hlist, validationByField_get hvalidation, effectiveList]

/-- A value is reported under a key if and only if an attribute refuses it. -/
theorem reported_of_rule_iff (hraw : rawDefinition rt given = .ok (raw, version))
    (h : compilePolicy rt (.obj given) = .ok policy) (hv : v ≠ .null) :
    Reported rt policy key v ↔ ∃ item ∈ attributeItems raw, Refuses rt raw key v item := by
  obtain ⟨hfounds, hitems⟩ := Except.forall₂_mem (attribute_items hraw h)
  constructor
  · intro hreported
    by_contra hnone
    simp only [not_exists, not_and] at hnone
    have hget : Dict.get [(key, v)] key = v := by simp [Dict.get, Dict.get?]
    have hpass : ∀ found ∈ policy.attributes, ∃ errors,
        CompiledPolicy.validateAttribute rt [(key, v)] found = .ok errors ∧
          ∀ e ∈ errors, ¬ CompiledPolicy.Reports key e := by
      intro found hfound
      obtain ⟨item, hitem, other, hkey, hfoundKey, hrequired, hpattern, hlist⟩ := hfounds found hfound
      have haccepts := hnone item hitem
      simp only [Refuses, not_or, not_and, ← hrequired, ← hpattern] at haccepts
      obtain ⟨hown, husable⟩ := haccepts
      by_cases hother : other = key
      · subst hother
        obtain ⟨hblank, hlisted, hshort, hholds⟩ := hown hkey
        rw [← hlist] at hlisted
        have hinside : CompiledPolicy.outsideList found v = .ok false :=
          CompiledPolicy.outsideList_eq.mpr (or_iff_not_imp_left.mpr fun hc => not_not.mp (hlisted hc))
        have hmatching : ∃ b, CompiledPolicy.offPattern rt other found v = .ok b := by
          refine CompiledPolicy.offPattern_isOk.mpr fun htruthy =>
            ⟨not_not.mp fun hlong => hshort ⟨htruthy, hlong⟩, ?_⟩
          by_contra hfail
          exact hholds htruthy fun b hb => hfail ⟨b, hb⟩
        obtain ⟨errors, herrors, hnot⟩ := CompiledPolicy.validateAttribute_passes hfoundKey
          (hget.symm ▸ hv : Dict.get [(other, v)] other ≠ .null) (by rwa [hget, not_and])
          (by rwa [hget]) (by rwa [hget])
        exact ⟨errors, herrors, fun e he => hnot e he other⟩
      · have habsent : Dict.contains [(key, v)] other = false := by simp [Dict.contains, Ne.symm hother]
        obtain ⟨errors, herrors, hkeys⟩ := CompiledPolicy.validateAttribute_absent hfoundKey habsent
          fun hc => husable hc.1 hc.2
        exact ⟨errors, herrors, fun e he hreport => hother ((hkeys e he).symm.trans hreport.1)⟩
    obtain ⟨reports, hreports⟩ := Except.mapM_isOk fun found hfound => (hpass found hfound).imp fun _ h => h.1
    have hvalidate : policy.validate rt [(key, v)] = .ok reports.flatten := by
      rw [CompiledPolicy.validate, hreports]
      rfl
    obtain ⟨e, he, hreport⟩ := hreported _ _ hget hvalidate
    obtain ⟨errors, herrors, he⟩ := List.mem_flatten.mp he
    obtain ⟨found, hfound, hchecked⟩ := (Except.mapM_mem hreports).1 errors herrors
    obtain ⟨errors', hchecked', hnot⟩ := hpass found hfound
    obtain rfl := Except.ok.inj (hchecked.symm.trans hchecked')
    exact hnot e he hreport
  · rintro ⟨item, hitem, hrefuses⟩ values errors rfl hvalidate
    obtain ⟨found, hfound, other, hkey, hfoundKey, hrequired, hpattern, hlist⟩ := hitems item hitem
    unfold CompiledPolicy.validate at hvalidate
    simp only [Except.bind_eq_ok, Except.pure_eq_ok] at hvalidate
    obtain ⟨reports, hreports, rfl⟩ := hvalidate
    obtain ⟨errors, herrors, hchecked⟩ := (Except.mapM_mem hreports).2 found hfound
    rcases hrefuses with ⟨hown, hrefuses⟩ | ⟨hfree, hunusable⟩
    · rw [hkey, Json.str.injEq] at hown
      subst hown
      rw [← hrequired, ← hpattern, ← hlist] at hrefuses
      obtain ⟨e, he, hreport⟩ := CompiledPolicy.validateAttribute_refuses hfoundKey hv
        (by
          rcases hrefuses with h | ⟨hnull, hout⟩ | hunusable | ⟨htruthy, hfail⟩
          · exact .inl h
          · refine .inr (.inl fun hc => ?_)
            rcases CompiledPolicy.outsideList_eq.mp hc with hc | hc
            · exact hnull hc
            · exact hout hc
          · exact .inr (.inr fun b hb =>
              hunusable.2 (CompiledPolicy.offPattern_isOk.mp ⟨b, hb⟩ hunusable.1).1)
          · refine .inr (.inr fun b hb => ?_)
            obtain ⟨-, b', hb'⟩ := CompiledPolicy.offPattern_isOk.mp ⟨b, hb⟩ htruthy
            exact hfail b' hb') hchecked
      exact ⟨e, List.mem_flatten.mpr ⟨errors, herrors, he⟩, hreport⟩
    · rw [← hrequired] at hfree
      rw [← hpattern] at hunusable
      exact absurd hchecked (CompiledPolicy.validateAttribute_unusable hfoundKey hfree hunusable)

theorem identifier_items (hraw : rawDefinition rt given = .ok (raw, version))
    (h : compilePolicy rt (.obj given) = .ok policy) :
    List.Forall₂ (fun item identifier => identifier.get "field" = (item.get? "field").getD (item.get "key") ∧
      ∃ listed, (identifier.get "field").isIn (hardConflicts raw) = .ok listed ∧
        identifier.get "hard_conflict" = .bool ((item.get? "hard_conflict").getD (.bool listed)).truthy)
      (identifierItems raw) policy.identifiers := by
  obtain ⟨-, -, -, identifiers, -, -, -, -, hidentifiers, -, -, hpolicy, -⟩ := compilePolicy_parts hraw h
  unfold compileIdentifiers at hidentifiers
  simp only [Except.bind_eq_ok] at hidentifiers
  obtain ⟨listed, hlisted, -, -, hmapped⟩ := hidentifiers
  rw [identifierItems, hlisted, hpolicy]
  have hall := Except.mapM_forall₂ hmapped
  clear hmapped hlisted hpolicy
  induction hall with
  | nil => exact .nil
  | @cons v json vs rest hjson _ ih =>
    unfold compileIdentifier at hjson
    simp only [Except.bind_eq_ok, Except.pure_eq_ok] at hjson
    obtain ⟨item, hitem, matching, hmatching, listed, hin, rfl⟩ := hjson
    obtain rfl := Json.asDict_ok hitem
    have hconflicts : hardConflicts raw = (matching.get? "hard_conflicts").getD (.arr []) := by
      rw [hardConflicts, matchingSettings, Json.asDict_ok hmatching]
      rfl
    exact .cons ⟨rfl, listed, hconflicts ▸ hin, rfl⟩ ih

theorem Json.isIn_of_named {conflicts field : Json} (hnamed : v ∈ conflicts.named)
    (hfield : v.pyEq field = true) : field.isIn conflicts = .ok true := by
  have hstr : ∀ text, v = .str text → field = .str text := by
    rintro text rfl
    cases field <;> simp_all [Json.pyEq, Json.number?]
  cases conflicts with
  | arr xs => exact congrArg Except.ok (List.any_eq_true.mpr ⟨v, hnamed, hfield⟩)
  | obj kvs =>
    obtain ⟨k, hk, rfl⟩ := List.mem_map.mp hnamed
    rw [hstr k rfl]
    obtain ⟨p, hp, rfl⟩ := List.mem_map.mp hk
    exact congrArg Except.ok (List.any_eq_true.mpr ⟨p, hp, decide_eq_true rfl⟩)
  | str text =>
    rw [hstr text (List.mem_singleton.mp hnamed)]
    exact congrArg Except.ok (Json.isInfix_self _)
  | _ => cases hnamed

theorem conflictsUsed_iff (hraw : rawDefinition rt given = .ok (raw, version))
    (h : compilePolicy rt (.obj given) = .ok policy) : ConflictsUsed raw policy ↔
    ∀ field ∈ (hardConflicts raw).named, ∃ item ∈ identifierItems raw,
      field.pyEq ((item.get? "field").getD (item.get "key")) = true ∧
        ∀ explicit, item.get? "hard_conflict" = some explicit → explicit.truthy = true := by
  obtain ⟨hidentifiers, hitems⟩ := Except.forall₂_mem (identifier_items hraw h)
  constructor
  · intro hused field hfield
    obtain ⟨identifier, hidentifier, hsame, hhard⟩ := hused field hfield
    obtain ⟨item, hitem, hget, listed, -, htruthy⟩ := hidentifiers identifier hidentifier
    refine ⟨item, hitem, hget ▸ hsame, fun explicit hexplicit => ?_⟩
    rw [hexplicit, hhard] at htruthy
    exact (Json.bool.inj htruthy).symm
  · intro heffective field hfield
    obtain ⟨item, hitem, hsame, hexplicit⟩ := heffective field hfield
    obtain ⟨identifier, hidentifier, hget, listed, hlisted, htruthy⟩ := hitems item hitem
    rw [← hget] at hsame
    refine ⟨identifier, hidentifier, hsame, htruthy.trans (congrArg Json.bool ?_)⟩
    cases hgiven : item.get? "hard_conflict" with
    | some explicit => exact hexplicit explicit hgiven
    | none => exact Except.ok.inj (hlisted.symm.trans (Json.isIn_of_named hfield hsame))

theorem thresholdsUsed_iff (hraw : rawDefinition rt given = .ok (raw, version))
    (h : compilePolicy rt (.obj given) = .ok policy) :
    ThresholdsUsed raw policy ↔ ∀ k ∈ (givenThresholds raw).keys, k ∈ ["review", "auto_link"] := by
  obtain ⟨-, -, -, -, matching, -, -, -, -, hmatching, -, -, hpolicy⟩ := compilePolicy_parts hraw h
  obtain ⟨-, m, -, rfl, -⟩ := compileMatching_accepted hmatching
  have hthresholds : policy.matching.get "thresholds" =
      .obj [("review", .float m.review), ("auto_link", .float m.autoLink)] := by
    rw [CompiledPolicy.matching, CompiledPolicy.part, hpolicy]
    rfl
  refine forall₂_congr fun k _ => ?_
  rw [hthresholds]
  constructor
  · rintro ⟨thresholds, heq, hk⟩
    rw [← Json.obj.inj heq] at hk
    exact hk
  · exact fun hk => ⟨_, rfl, hk⟩

/-- No setting of the three kinds is ignored, if and only if each hard conflict is an identifier that does
not say otherwise, each validation rule's attribute refuses what the rule does not list, and the
thresholds have no other keys. -/
theorem nothing_ignored_iff (hraw : rawDefinition rt given = .ok (raw, version))
    (h : compilePolicy rt (.obj given) = .ok policy) : NothingIgnored rt raw policy ↔ Effective rt raw := by
  have hrules : RulesUsed rt raw policy ↔ ∀ rule ∈ validationRules raw, rule.get "allowedValues" ≠ .null →
      ∃ key, rule.get "attribute" = .str key ∧ ∀ v, v ≠ .null →
        v.isIn (rule.get "allowedValues") = .ok false → ∃ item ∈ attributeItems raw,
        Refuses rt raw key v item := by
    refine forall₂_congr fun rule _ => imp_congr_right fun _ => exists_congr fun key =>
      and_congr_right fun _ => forall_congr' fun v => imp_congr_right fun hv => imp_congr_right fun _ => ?_
    exact reported_of_rule_iff hraw h hv
  constructor
  · rintro ⟨hconflicts, hused, hthresholds⟩
    exact ⟨(conflictsUsed_iff hraw h).mp hconflicts, hrules.mp hused,
        (thresholdsUsed_iff hraw h).mp hthresholds⟩
  · rintro ⟨hconflicts, hused, hthresholds⟩
    exact ⟨(conflictsUsed_iff hraw h).mpr hconflicts, hrules.mpr hused,
      (thresholdsUsed_iff hraw h).mpr hthresholds⟩

end Compiled

namespace Supplier

/-- A conflict without an identifier, a rule that the attribute's own list overrides, and a threshold of
another name. -/
def overridden : Dict := [
  ("attributes", .arr [.obj [("key", .str "name"), ("allowed_values", .arr [.str "A", .str "B"])]]),
  ("validation", .arr [.obj [("attribute", .str "name"), ("allowedValues", .arr [.str "A"])]]),
  ("matching", .obj [("hard_conflicts", .arr [.str "name"]),
    ("thresholds", .obj [("review", .int 0), ("auto_link", .int 1), ("manual", .int 1)])])]

/-- The value B passes, although the rule does not list it. -/
theorem rule_ignored : ¬ ∀ given raw version policy, rawDefinition .plain given = .ok (raw, version) →
    compilePolicy .plain (.obj given) = .ok policy → NothingIgnored .plain raw policy := by
  intro h
  have hchecked : ((compilePolicy .plain (.obj overridden)).toOption.any fun policy =>
      (policy.validate .plain [("name", .str "B")]).toOption.any List.isEmpty) = true := by
    decide +kernel
  obtain ⟨policy, hpolicy, hchecked⟩ := Except.of_any hchecked
  obtain ⟨errors, herrors, hempty⟩ := Except.of_any hchecked
  obtain ⟨key, hkey, hreported⟩ := (h overridden overridden _ policy rfl hpolicy).rules
    [("attribute", .str "name"), ("allowedValues", .arr [.str "A"])] (List.mem_singleton_self _)
    (fun h => by cases h)
  obtain rfl := Json.str.inj hkey
  obtain ⟨e, he, -⟩ := hreported (.str "B") (fun h => by cases h) (by decide +kernel) _ errors rfl herrors
  rw [List.isEmpty_iff.mp hempty] at he
  cases he

/-- A rule on an attribute without a list of its own. -/
def inherited : Dict := [
  ("attributes", .arr [.obj [("key", .str "name")]]),
  ("validation", .arr [.obj [("attribute", .str "name"), ("allowedValues", .arr [.str "A"])]])]

theorem nothing_ignored_inherited : ∃ policy, compilePolicy .plain (.obj inherited) = .ok policy ∧
    (NothingIgnored .plain inherited policy ↔ Effective .plain inherited) := by
  have hok : (compilePolicy .plain (.obj inherited)).isOk = true := by decide +kernel
  cases hpolicy : compilePolicy .plain (.obj inherited) with
  | error e =>
    rw [hpolicy] at hok
    cases hok
  | ok policy =>
    have hraw : rawDefinition .plain inherited = .ok (inherited, "runtime-1") := rfl
    exact ⟨policy, rfl, nothing_ignored_iff hraw hpolicy⟩

end Supplier

end Recordlane
