import Mathlib.Data.List.Dedup
import Recordlane.Documents

/-! The canonical form of a definition: what `compile_policy` makes of one compiles to itself. -/
namespace Recordlane

variable {rt : Runtime} {d item found : Dict} {k accessKey : String} {v : Json} {what : String}
  {allowed names : List String}

theorem Dict.get_sorted : Dict.get d.sorted k = (Dict.get d k).sortKeys := by
  rw [get, get?_sorted, get]
  cases d.get? k <;> rfl

theorem Dict.getD_sorted {w : Json} (hw : w.sortKeys = w) :
    (d.sorted.get? k).getD w = ((d.get? k).getD w).sortKeys := by
  rw [get?_sorted]
  cases d.get? k with
  | none => exact hw.symm
  | some v => rfl

/-! What reads no order reads the same after a sort. -/

namespace Json

theorem toFloat_sortKeys (v : Json) : toFloat rt v.sortKeys = toFloat rt v := by
  cases v with
  | arr xs => simp [sortKeys, toFloat, number?]
  | obj kvs => simp [sortKeys, toFloat, number?]
  | _ => rfl

theorem toInt_sortKeys (v : Json) : toInt rt v.sortKeys = toInt rt v := by
  cases v with
  | arr xs => simp [sortKeys, toInt, number?]
  | obj kvs => simp [sortKeys, toInt, number?]
  | _ => rfl

theorem pyEq_null : v.pyEq .null = true ↔ v = .null := by
  cases v <;> simp [pyEq, number?]

theorem pyEq_str {text : String} : v.pyEq (.str text) = decide (v = .str text) := by
  cases v <;> simp [pyEq, number?]

theorem isInfix_length {sub text : List Char} (h : isInfix sub text = true) : sub.length ≤ text.length := by
  induction text with
  | nil =>
    rw [isInfix, List.isEmpty_iff] at h
    rw [h]
  | cons c text ih =>
    rw [isInfix, Bool.or_eq_true] at h
    rcases h with h | h
    · exact (List.isPrefixOf_iff_prefix.mp h).length_le
    · exact (ih h).trans (Nat.le_succ _)

theorem isInfix_self (text : List Char) : isInfix text text = true := by
  cases text with
  | nil => rfl
  | cons c text =>
    rw [isInfix, Bool.or_eq_true]
    exact .inl (List.isPrefixOf_iff_prefix.mpr List.prefix_rfl)

theorem isStr_sortKeys (v : Json) : v.sortKeys.isStr = v.isStr := by
  cases v <;> simp [sortKeys, isStr]

theorem truthy_sortKeys (v : Json) : v.sortKeys.truthy = v.truthy := by
  cases v with
  | arr xs =>
    rw [sortKeys, sortKeysList_eq_map]
    cases xs <;> rfl
  | obj kvs =>
    rw [sortKeys_obj]
    have hlength := Dict.length_sorted (d := kvs)
    cases kvs with
    | nil => rfl
    | cons p kvs =>
      cases hsorted : Dict.sorted (p :: kvs) with
      | nil =>
        rw [hsorted] at hlength
        cases hlength
      | cons q rest => rfl
  | _ => rfl

theorem sortKeys_strs : (Json.arr (names.map .str)).sortKeys = .arr (names.map .str) := by
  rw [sortKeys, sortKeysList_eq_map, List.map_map]
  rfl

end Json

theorem memberOf_sortKeys : memberOf v.sortKeys names = memberOf v names := by
  cases v with
  | arr xs => simp [Json.sortKeys, memberOf]
  | obj kvs => simp [Json.sortKeys, memberOf]
  | _ => rfl

theorem memberOf_str (h : memberOf v names = true) : ∃ text, v = .str text ∧ text ∈ names := by
  cases v with
  | str text => exact ⟨text, rfl, by simpa [memberOf] using h⟩
  | _ => cases h

theorem sortedSet_eq_nil : sortedSet names = [] ↔ names = [] := by
  rw [sortedSet, ← List.length_eq_zero_iff, List.length_insertionSort, List.length_eq_zero_iff,
    List.dedup_eq_nil]

theorem sortedSet_sortedSet : sortedSet (sortedSet names) = sortedSet names := by
  have htotal : Std.Total fun p q : String => p ≤ q := ⟨String.le_total⟩
  have htrans : IsTrans String fun p q => p ≤ q := ⟨fun _ _ _ => String.le_trans⟩
  have hnodup := sortedSet_nodup names
  conv_lhs => rw [sortedSet, hnodup.dedup]
  rw [List.Pairwise.insertionSort_eq]
  rw [sortedSet]
  exact List.pairwise_insertionSort _ _

theorem unknownKeys_eq_nil : unknownKeys d allowed = [] ↔ ∀ k ∈ d.keys, k ∈ allowed := by
  rw [unknownKeys, sortedSet_eq_nil, List.filter_eq_nil_iff]
  simp

theorem unknownKeys_sorted : unknownKeys d.sorted allowed = [] ↔ unknownKeys d allowed = [] := by
  rw [unknownKeys_eq_nil, unknownKeys_eq_nil]
  exact forall_congr' fun k => by rw [Dict.keys_sorted.mem_iff]

theorem rejectUnknown_ok {u : Unit} :
    rejectUnknown d allowed what = .ok u ↔ ∀ k ∈ d.keys, k ∈ allowed := by
  rw [← unknownKeys_eq_nil, rejectUnknown]
  cases unknownKeys d allowed <;> simp

/-! Attributes. -/

/-- A setting of roles as it is compiled: a sorted list without blanks. -/
def RoleList (v : Json) : Prop := ∃ names : List String, "" ∉ names ∧ v = .arr ((sortedSet names).map .str)

theorem RoleList.sortKeys (h : RoleList v) : v.sortKeys = v := by
  obtain ⟨names, -, rfl⟩ := h
  exact Json.sortKeys_strs

/-- An attribute as it is compiled. -/
structure CanonicalAttribute (item : Dict) : Prop where
  unique : Json.unique (.obj item) = true
  settings : ∀ k ∈ item.keys, k ∈ ["key", "name", "type", "required", "allowed_values", "pattern",
    "normalizer", "read_roles", "write_roles"]
  roles : ∀ accessKey ∈ ["read_roles", "write_roles"], ∀ v, item.get? accessKey = some v → RoleList v
  kind : memberOf ((item.get? "type").getD (.str "string")) attributeTypes = true
  normalizer : memberOf ((item.get? "normalizer").getD (.str "preserve")) normalizers = true
  key : ∃ key, item.get "key" = .str key
  named : (item.get? "name").isSome

theorem CanonicalAttribute.sorted (h : CanonicalAttribute item) : CanonicalAttribute item.sorted where
  unique := by
    rw [← Json.sortKeys_obj]
    exact Json.unique_sortKeys _ h.unique
  settings k hk := h.settings k (Dict.keys_sorted.mem_iff.mp hk)
  roles accessKey ha v hv := by
    rw [Dict.get?_sorted] at hv
    obtain ⟨w, hw, rfl⟩ := Option.map_eq_some_iff.mp hv
    have hroles := h.roles accessKey ha w hw
    rw [hroles.sortKeys]
    exact hroles
  kind := by
    rw [Dict.getD_sorted rfl, memberOf_sortKeys]
    exact h.kind
  normalizer := by
    rw [Dict.getD_sorted rfl, memberOf_sortKeys]
    exact h.normalizer
  key := by
    obtain ⟨key, hkey⟩ := h.key
    exact ⟨key, by rw [Dict.get_sorted, hkey]; rfl⟩
  named := by
    rw [Dict.get?_sorted, Option.isSome_map]
    exact h.named

theorem compileRoles_self (hd : item.keys.Nodup)
    (h : ∀ v, item.get? accessKey = some v → RoleList v) : compileRoles rt item accessKey = .ok item := by
  unfold compileRoles
  cases hget : item.get? accessKey with
  | none => rfl
  | some v =>
    obtain ⟨names, hblank, rfl⟩ := h v hget
    have hnames : (sortedSet names).filterMap (fun text => if text = "" then none else some text) =
        sortedSet names := by
      refine (List.filterMap_congr fun text htext => if_neg ?_).trans List.filterMap_some
      rintro rfl
      exact hblank (mem_sortedSet.mp htext)
    simp only [List.filterMap_map, Function.comp_def, hnames, List.length_map, if_true,
      sortedSet_sortedSet, Dict.set_eq_self hd hget]

theorem compileRoles_spec (hu : Json.unique (.obj item) = true)
    (h : compileRoles rt item accessKey = .ok found) :
    Json.unique (.obj found) = true ∧ (∀ k ∈ found.keys, k ∈ item.keys) ∧
      (∀ k ≠ accessKey, found.get? k = item.get? k) ∧
      ∀ v, found.get? accessKey = some v → RoleList v := by
  unfold compileRoles at h
  split at h
  · next hnone =>
    cases h
    refine ⟨hu, fun _ hk => hk, fun _ _ => rfl, fun v hv => ?_⟩
    rw [hnone] at hv
    cases hv
  · next roles hroles =>
    dsimp only at h
    split at h
    · cases h
      have hmem : accessKey ∈ item.keys := List.mem_map_of_mem (Dict.get?_mem hroles)
      refine ⟨Dict.unique_set hu Json.unique_strs, fun k hk => ?_, fun k hk => Dict.get?_set_of_ne hk,
        fun v hv => ?_⟩
      · rwa [Dict.keys_set, if_pos hmem] at hk
      · rw [Dict.get?_set] at hv
        refine ⟨_, fun hblank => ?_, (Option.some.inj hv).symm⟩
        obtain ⟨role, -, hrole⟩ := List.mem_filterMap.mp hblank
        cases role with
        | str text =>
          dsimp only at hrole
          split at hrole
          · cases hrole
          · next hne => exact hne (Option.some.inj hrole)
        | _ => cases hrole
    · cases h
  · cases h

/-- The allowed values go by one name, and are inherited where there are none. -/
def withAllowedValues (item : Dict) (inherited : Json) : Dict :=
  let item := match item.get? "allowedValues" with
    | some v => Dict.set (Dict.erase item "allowedValues") "allowed_values" v
    | none => item
  if !inherited.pyEq .null && !item.contains "allowed_values" then item.set "allowed_values" inherited
  else item

theorem withAllowedValues_spec {inherited : Json} (hu : Json.unique (.obj item) = true)
    (hi : inherited.unique = true) :
    Json.unique (.obj (withAllowedValues item inherited)) = true ∧
      (∀ k ∈ (withAllowedValues item inherited).keys,
        k ≠ "allowedValues" ∧ (k = "allowed_values" ∨ k ∈ item.keys)) ∧
      ∀ k, k ≠ "allowedValues" → k ≠ "allowed_values" →
        (withAllowedValues item inherited).get? k = item.get? k := by
  have hset : ∀ {e : Dict} {v : Json}, (∀ k ∈ e.keys, k ≠ "allowedValues" ∧ k ∈ item.keys) →
      ∀ k ∈ (e.set "allowed_values" v).keys,
        k ≠ "allowedValues" ∧ (k = "allowed_values" ∨ k ∈ item.keys) := by
    intro e v he k hk
    rw [Dict.keys_set] at hk
    split at hk
    · exact (he k hk).imp_right .inr
    · rcases List.mem_append.mp hk with hk | hk
      · exact (he k hk).imp_right .inr
      · rw [List.mem_singleton.mp hk]
        exact ⟨by decide, .inl rfl⟩
  unfold withAllowedValues
  cases hget : item.get? "allowedValues" with
  | some v =>
    have herased : ∀ k ∈ (item.erase "allowedValues").keys, k ≠ "allowedValues" ∧ k ∈ item.keys := by
      intro k hk
      obtain ⟨p, hp, rfl⟩ := List.mem_map.mp hk
      obtain ⟨hp, hne⟩ := List.mem_filter.mp hp
      exact ⟨by simpa using hne, List.mem_map_of_mem hp⟩
    have hcontains : ((item.erase "allowedValues").set "allowed_values" v).contains "allowed_values" =
        true := by
      rw [Dict.contains_eq_isSome, Dict.get?_set, Option.isSome_some]
    dsimp only
    rw [hcontains, Bool.not_true, Bool.and_false, if_neg Bool.false_ne_true]
    refine ⟨Dict.unique_set (Dict.unique_erase hu) (Dict.unique_get? hu hget), hset herased, ?_⟩
    intro k hk hk'
    rw [Dict.get?_set_of_ne hk', Dict.get?_erase, if_neg hk]
  | none =>
    have hitem : ∀ k ∈ item.keys, k ≠ "allowedValues" ∧ k ∈ item.keys := by
      intro k hk
      refine ⟨?_, hk⟩
      rintro rfl
      obtain ⟨p, hp, hpk⟩ := List.mem_map.mp hk
      have hnone := List.find?_eq_none.mp (Option.map_eq_none_iff.mp hget) p hp
      exact hnone (decide_eq_true hpk)
    dsimp only
    split
    · exact ⟨Dict.unique_set hu hi, hset hitem, fun k _ hk' => Dict.get?_set_of_ne hk'⟩
    · exact ⟨hu, fun k hk => (hitem k hk).imp_right .inr, fun _ _ _ => rfl⟩

/-- The checks of an attribute once its roles are compiled, and what is made of it. -/
theorem compileAttribute_ok {validation found : Dict} (h : compileAttribute rt validation v = .ok found) :
    ∃ (item reads writes : Dict) (key : String), v = .obj item ∧
      (∀ k ∈ item.keys, k ∈ ["key", "name", "type", "required", "allowed_values", "allowedValues",
        "pattern", "normalizer", "read_roles", "write_roles"]) ∧
      compileRoles rt item "read_roles" = .ok reads ∧
      compileRoles rt reads "write_roles" = .ok writes ∧
      memberOf ((writes.get? "type").getD (.str "string")) attributeTypes = true ∧
      memberOf ((writes.get? "normalizer").getD (.str "preserve")) normalizers = true ∧
      writes.get "key" = .str key ∧
      found = withAllowedValues (writes.set "name" ((writes.get? "name").getD
        (.str (rt.capitalize (CompiledPolicy.spaced key))))) (validation.get key) := by
  unfold compileAttribute at h
  rw [Except.bind_eq_ok] at h
  obtain ⟨item, hitem, h⟩ := h
  cases v with
  | obj item' =>
    obtain rfl := Except.ok.inj hitem
    simp only [Except.bind_eq_ok] at h
    obtain ⟨_, hknown, reads, hreads, writes, hwrites, h⟩ := h
    split at h
    · cases h
    · next hkind =>
      split at h
      · cases h
      · next hnormalizer =>
        split at h
        · next key hkey =>
          refine ⟨item', reads, writes, key, rfl, rejectUnknown_ok.mp hknown, hreads, hwrites,
            by simpa using hkind, by simpa using hnormalizer, hkey, (Except.ok.inj h).symm⟩
        · cases h
  | _ => cases hitem

theorem compileAttribute_canonical {validation found : Dict} (hu : v.unique = true)
    (hv : Json.unique (.obj validation) = true) (h : compileAttribute rt validation v = .ok found) :
    CanonicalAttribute found := by
  obtain ⟨item, reads, writes, key, rfl, hknown, hreads, hwrites, hkind, hnormalizer, hkey, rfl⟩ :=
    compileAttribute_ok h
  obtain ⟨hu₁, hkeys₁, hget₁, hroles₁⟩ := compileRoles_spec hu hreads
  obtain ⟨hu₂, hkeys₂, hget₂, hroles₂⟩ := compileRoles_spec hu₁ hwrites
  have hu₃ : Json.unique (.obj (writes.set "name" ((writes.get? "name").getD
      (.str (rt.capitalize (CompiledPolicy.spaced key)))))) = true :=
    Dict.unique_set hu₂ (Dict.unique_getD hu₂ rfl)
  obtain ⟨hunique, hkeys, hget⟩ := withAllowedValues_spec hu₃ (Dict.unique_get hv (k := key))
  refine ⟨hunique, fun k hk => ?_, fun accessKey ha v hv => ?_, ?_, ?_, ⟨key, ?_⟩, ?_⟩
  · obtain ⟨hne, hk⟩ := hkeys k hk
    rcases hk with rfl | hk
    · decide
    rw [Dict.keys_set] at hk
    have hk' : k ∈ item.keys ∨ k = "name" := by
      split at hk
      · exact .inl (hkeys₁ k (hkeys₂ k hk))
      · rcases List.mem_append.mp hk with hk | hk
        · exact .inl (hkeys₁ k (hkeys₂ k hk))
        · exact .inr (List.mem_singleton.mp hk)
    rcases hk' with hk | rfl
    · have hlisted := hknown k hk
      simp only [List.mem_cons, List.not_mem_nil, or_false] at hlisted ⊢
      tauto
    · decide
  · simp only [List.mem_cons, List.not_mem_nil, or_false] at ha
    rcases ha with rfl | rfl
    · rw [hget _ (by decide) (by decide), Dict.get?_set_of_ne (by decide), hget₂ _ (by decide)] at hv
      exact hroles₁ v hv
    · rw [hget _ (by decide) (by decide), Dict.get?_set_of_ne (by decide)] at hv
      exact hroles₂ v hv
  · rw [hget _ (by decide) (by decide), Dict.get?_set_of_ne (by decide)]
    exact hkind
  · rw [hget _ (by decide) (by decide), Dict.get?_set_of_ne (by decide)]
    exact hnormalizer
  · rw [Dict.get, hget _ (by decide) (by decide), Dict.get?_set_of_ne (by decide)]
    exact hkey
  · rw [hget _ (by decide) (by decide), Dict.get?_set, Option.isSome_some]

/-- A compiled attribute compiles to itself. -/
theorem CanonicalAttribute.compiles (h : CanonicalAttribute item) :
    compileAttribute rt [] (.obj item) = .ok item := by
  have hkeys := (Json.unique_obj.mp h.unique).1
  have hknown : rejectUnknown item ["key", "name", "type", "required", "allowed_values", "allowedValues",
      "pattern", "normalizer", "read_roles", "write_roles"]
      ("unsupported attribute settings for " ++ nameOf rt item ["key"]) = .ok () := by
    refine rejectUnknown_ok.mpr fun k hk => ?_
    have hlisted := h.settings k hk
    simp only [List.mem_cons, List.not_mem_nil, or_false] at hlisted ⊢
    tauto
  have hreads := @compileRoles_self rt _ _ hkeys (h.roles "read_roles" (by decide))
  have hwrites := @compileRoles_self rt _ _ hkeys (h.roles "write_roles" (by decide))
  obtain ⟨key, hkey⟩ := h.key
  obtain ⟨name, hname⟩ := Option.isSome_iff_exists.mp h.named
  have hallowed : item.get? "allowedValues" = none := by
    cases hget : item.get? "allowedValues" with
    | none => rfl
    | some v =>
      have hmem : "allowedValues" ∈ item.keys := List.mem_map_of_mem (Dict.get?_mem hget)
      exact absurd (h.settings _ hmem) (by decide)
  unfold compileAttribute
  simp only [Json.asDict, hknown, hreads, hwrites, h.kind, h.normalizer, hkey, hname, hallowed,
    Option.getD_some, Dict.set_eq_self hkeys hname, bind, Except.bind, pure, Except.pure]
  simp [Dict.get, Dict.get?, Json.pyEq]

/-! Identifiers. -/

/-- An identifier as it is compiled. -/
structure IdentifierRule where
  field : Json
  identifierNamespace : Json
  hardConflict : Bool

def IdentifierRule.json (r : IdentifierRule) : Json :=
  .obj [("field", r.field), ("namespace", r.identifierNamespace), ("hard_conflict", .bool r.hardConflict)]

/-- The rule as a canonical document holds it. -/
def IdentifierRule.sorted (r : IdentifierRule) : Json :=
  .obj [("field", r.field.sortKeys), ("hard_conflict", .bool r.hardConflict),
    ("namespace", r.identifierNamespace.sortKeys)]

theorem IdentifierRule.sortKeys_json (r : IdentifierRule) : r.json.sortKeys = r.sorted := by
  rw [json, Json.sortKeys_obj, sorted]
  simp [Dict.sorted, Json.sortKeysEntries, Json.sortKeys, List.orderedInsert]

theorem compileIdentifier_ok {raw : Dict} {found : Json} (hu : v.unique = true)
    (h : compileIdentifier raw v = .ok found) :
    ∃ r : IdentifierRule, found = r.json ∧ r.field.unique = true ∧
      r.identifierNamespace.unique = true := by
  unfold compileIdentifier at h
  rw [Except.bind_eq_ok] at h
  obtain ⟨item, hitem, h⟩ := h
  cases v with
  | obj item' =>
    obtain rfl := Except.ok.inj hitem
    simp only [Except.bind_eq_ok, Except.pure_eq_ok] at h
    obtain ⟨_, -, _, -, rfl⟩ := h
    have hfield : ((Dict.get? item' "field").getD (Dict.get item' "key")).unique = true :=
      Dict.unique_getD hu (Dict.unique_get hu)
    exact ⟨⟨_, _, _⟩, rfl, hfield, Dict.unique_getD hu hfield⟩
  | _ => cases hitem

/-- A compiled identifier compiles to itself, but for the order of its keys. -/
theorem IdentifierRule.compiles {raw : Dict} {matching : Dict} (r : IdentifierRule)
    (hm : raw.get? "matching" = some (.obj matching)) (hc : matching.get? "hard_conflicts" = none) :
    compileIdentifier raw r.sorted = .ok (IdentifierRule.json
      ⟨r.field.sortKeys, r.identifierNamespace.sortKeys, r.hardConflict⟩) := by
  have hisIn : ∀ v : Json, v.isIn (.arr []) = .ok false := by
    intro v
    cases v <;> rfl
  unfold compileIdentifier IdentifierRule.sorted
  simp only [Json.asDict, hm, Option.getD_some, hc, Option.getD_none, hisIn, bind, Except.bind]
  rfl

/-! The matching section. -/

namespace Json

theorem iter_arr_sorted {xs : List Json} : iter (sortKeys (.arr xs)) = .ok (xs.map sortKeys) := by
  rw [sortKeys, sortKeysList_eq_map]
  rfl

theorem iter_obj : iter (.obj d) = .ok (d.keys.map Json.str) := by
  rw [iter, Dict.keys, List.map_map]
  rfl

theorem iter_cases {items : List Json} (h : iter v = .ok items) :
    (∃ xs, v = .arr xs ∧ items = xs) ∨ ∀ x ∈ items, x.isStr = true := by
  cases v with
  | arr xs => exact .inl ⟨xs, rfl, (Except.ok.inj h).symm⟩
  | obj kvs =>
    refine .inr fun x hx => ?_
    rw [← Except.ok.inj h] at hx
    obtain ⟨p, -, rfl⟩ := List.mem_map.mp hx
    rfl
  | str s =>
    refine .inr fun x hx => ?_
    rw [← Except.ok.inj h] at hx
    obtain ⟨c, -, rfl⟩ := List.mem_map.mp hx
    rfl
  | _ => cases h

/-- Members that no text passes as are the members of a list, or there are none. -/
theorem iter_sorted {items : List Json} (h : iter v = .ok items) (hs : ∀ x ∈ items, x.isStr = false) :
    iter v.sortKeys = .ok (items.map sortKeys) := by
  rcases iter_cases h with ⟨xs, rfl, rfl⟩ | hstrs
  · exact iter_arr_sorted
  · have hnil : items = [] := by
      refine List.eq_nil_iff_forall_not_mem.mpr fun x hx => ?_
      have hx' := hstrs x hx
      rw [hs x hx] at hx'
      cases hx'
    subst hnil
    cases v with
    | arr xs =>
      obtain rfl := Except.ok.inj h
      exact iter_arr_sorted
    | obj kvs =>
      have hkvs : kvs = [] := List.map_eq_nil_iff.mp (Except.ok.inj h)
      subst hkvs
      rfl
    | str s => exact h
    | _ => cases h

end Json

/-- The rule of a prefix names its field and a length. -/
structure PrefixRule (rt : Runtime) (rule : Dict) : Prop where
  settings : ∀ k ∈ rule.keys, k ∈ ["field", "length"]
  complete : ∀ k ∈ ["field", "length"], k ∈ rule.keys
  length : ∃ n, Json.toInt rt (rule.get "length") = .ok n ∧ ¬ (n < 1 ∨ 64 < n)

theorem prefixKeys_iff :
    ((!(names.map Json.str).all fun k => memberOf k ["field", "length"]) ||
      !(["field", "length"].all fun k => (names.map Json.str).any fun j => j.pyEq (.str k))) = true ↔
    ¬ ((∀ k ∈ names, k ∈ ["field", "length"]) ∧ ∀ k ∈ ["field", "length"], k ∈ names) := by
  have hall : ((names.map Json.str).all fun k => memberOf k ["field", "length"]) = true ↔
      ∀ k ∈ names, k ∈ ["field", "length"] := by
    simp [memberOf]
  have hany : (["field", "length"].all fun k =>
      (names.map Json.str).any fun j => j.pyEq (.str k)) = true ↔
      ∀ k ∈ ["field", "length"], k ∈ names := by
    simp [Json.pyEq]
  rw [← hall, ← hany, not_and_or, Bool.or_eq_true, Bool.not_eq_true', Bool.not_eq_true',
    Bool.not_eq_true, Bool.not_eq_true]

theorem checkStrategy_iff : checkStrategy rt v = .ok () ↔ ∃ strategy : Dict, v = .obj strategy ∧
    unknownKeys strategy ["fields", "prefix"] = [] ∧ ((strategy.get "prefix").truthy = false ∨
      ∃ rule, strategy.get "prefix" = .obj rule ∧ PrefixRule rt rule) := by
  constructor
  · intro h
    cases v with
    | obj strategy =>
      unfold checkStrategy at h
      dsimp only at h
      split at h
      · cases h
      · next hknown =>
        refine ⟨strategy, rfl, not_not.mp hknown, ?_⟩
        split at h
        · next htruthy =>
          refine .inr ?_
          rw [Except.bind_eq_ok] at h
          obtain ⟨keys, hkeys, h⟩ := h
          split at h
          · cases h
          · next hlisted =>
            rw [Except.bind_eq_ok] at h
            obtain ⟨rule, hrule, h⟩ := h
            cases hleading : Dict.get strategy "prefix" with
            | obj rule' =>
              rw [hleading] at hkeys hrule
              obtain rfl := Except.ok.inj hrule
              rw [Json.iter_obj] at hkeys
              obtain rfl := Except.ok.inj hkeys
              rw [prefixKeys_iff, not_not] at hlisted
              simp only [Except.bind_eq_ok] at h
              obtain ⟨n, hn, h⟩ := h
              split at h
              · cases h
              · next hbound =>
                exact ⟨rule', rfl, hlisted.1, hlisted.2, n, hn, by simpa using hbound⟩
            | _ =>
              rw [hleading] at hrule
              cases hrule
        · next htruthy => exact .inl (by simpa using htruthy)
    | _ => cases h
  · rintro ⟨strategy, rfl, hknown, hleading⟩
    unfold checkStrategy
    dsimp only
    rw [if_neg (not_not.mpr hknown)]
    rcases hleading with hfalse | ⟨rule, hrule, hr⟩
    · rw [hfalse]
      rfl
    · rw [hrule]
      obtain ⟨n, hn, hbound⟩ := hr.length
      have hlisted := mt prefixKeys_iff.mp (not_not.mpr ⟨hr.settings, hr.complete⟩)
      split
      · rw [Json.iter_obj]
        simp only [Json.asDict, bind, Except.bind, if_neg hlisted, hn]
        exact if_neg (by simpa using hbound)
      · rfl

theorem PrefixRule.sorted {rule : Dict} (h : PrefixRule rt rule) : PrefixRule rt rule.sorted where
  settings k hk := h.settings k (Dict.keys_sorted.mem_iff.mp hk)
  complete k hk := Dict.keys_sorted.mem_iff.mpr (h.complete k hk)
  length := by
    rw [Dict.get_sorted, Json.toInt_sortKeys]
    exact h.length

theorem checkStrategy_sorted (h : checkStrategy rt v = .ok ()) :
    v.isStr = false ∧ checkStrategy rt v.sortKeys = .ok () := by
  obtain ⟨strategy, rfl, hknown, hleading⟩ := checkStrategy_iff.mp h
  refine ⟨rfl, checkStrategy_iff.mpr ⟨strategy.sorted, Json.sortKeys_obj, unknownKeys_sorted.mpr hknown, ?_⟩⟩
  rw [Dict.get_sorted, Json.truthy_sortKeys]
  rcases hleading with hfalse | ⟨rule, hrule, hr⟩
  · exact .inl hfalse
  · exact .inr ⟨Dict.sorted rule, by rw [hrule, Json.sortKeys_obj], hr.sorted⟩

theorem checkComparison_sorted (h : checkComparison rt v = .ok ()) :
    v.isStr = false ∧ checkComparison rt v.sortKeys = .ok () := by
  cases v with
  | obj rule =>
    refine ⟨rfl, ?_⟩
    rw [Json.sortKeys_obj]
    unfold checkComparison at h ⊢
    simp only [Json.asDict, bind, Except.bind] at h ⊢
    have hweight : Json.toFloat rt ((Dict.get? (Dict.sorted rule) "weight").getD (.int 0)) =
        Json.toFloat rt ((Dict.get? rule "weight").getD (.int 0)) := by
      rw [Dict.getD_sorted rfl, Json.toFloat_sortKeys]
    split at h
    · cases h
    · next hknown =>
      rw [if_neg (mt (mt unknownKeys_sorted.mpr) hknown), Dict.get_sorted, memberOf_sortKeys, hweight]
      split at h
      · cases h
      · next hcomparator =>
        rw [if_neg hcomparator]
        exact h
  | _ => cases h

theorem checkProbabilities_sorted (h : checkProbabilities rt v = .ok ()) :
    checkProbabilities rt v.sortKeys = .ok () := by
  cases v with
  | obj rule =>
    have hget : ∀ k, Json.toFloat rt ((Dict.get? (Dict.sorted rule) k).getD (.int 0)) =
        Json.toFloat rt ((Dict.get? rule k).getD (.int 0)) := by
      intro k
      rw [Dict.getD_sorted rfl, Json.toFloat_sortKeys]
    rw [Json.sortKeys_obj]
    unfold checkProbabilities at h ⊢
    simp only [Json.asDict, bind, Except.bind, hget] at h ⊢
    exact h
  | _ => cases h

theorem forM_ok {α : Type} {check : α → Py Unit} {items : List α} :
    items.forM check = .ok () ↔ ∀ x ∈ items, check x = .ok () := by
  induction items with
  | nil => simp [pure, Except.pure]
  | cons x items ih =>
    rw [List.forall_mem_cons, ← ih]
    change (check x >>= fun _ => items.forM check) = .ok () ↔ _
    rw [Except.bind_eq_ok]
    exact ⟨fun ⟨⟨⟩, hx, hrest⟩ => ⟨hx, hrest⟩, fun ⟨hx, hrest⟩ => ⟨(), hx, hrest⟩⟩

theorem blockingStrategies_arr {xs : List Json} (h : ∃ x ∈ xs, x.isStr = false) :
    blockingStrategies (.arr xs) = .ok (.arr xs) := by
  obtain ⟨x, hx, hstr⟩ := h
  have hall : xs.all Json.isStr = false := List.all_eq_false.mpr ⟨x, hx, by simp [hstr]⟩
  unfold blockingStrategies
  split
  · rfl
  · simp [Json.iter, hall, bind, Except.bind, pure, Except.pure]

theorem blockingStrategies_sorted {found : Json} (h : blockingStrategies v = .ok found) :
    blockingStrategies found.sortKeys = .ok found.sortKeys := by
  unfold blockingStrategies at h
  split at h
  · next hfalse =>
    cases h
    unfold blockingStrategies
    rw [if_pos (by rw [Json.truthy_sortKeys]; exact hfalse)]
  · rw [Except.bind_eq_ok] at h
    obtain ⟨items, hitems, h⟩ := h
    split at h
    · simp only [Except.bind_eq_ok, Except.pure_eq_ok] at h
      obtain ⟨named, -, rfl⟩ := h
      rw [Json.sortKeys, Json.sortKeysList_eq_map]
      exact blockingStrategies_arr ⟨_, List.mem_cons_self, by rw [Json.isStr_sortKeys]; rfl⟩
    · next hstr =>
      rw [Except.pure_eq_ok] at h
      subst h
      rcases Json.iter_cases hitems with ⟨xs, rfl, rfl⟩ | hstrs
      · rw [Json.sortKeys, Json.sortKeysList_eq_map]
        rw [Bool.not_eq_true, List.all_eq_false] at hstr
        obtain ⟨x, hx, hxs⟩ := hstr
        refine blockingStrategies_arr ⟨_, List.mem_map_of_mem hx, ?_⟩
        rw [Json.isStr_sortKeys]
        exact Bool.not_eq_true _ ▸ hxs
      · exact absurd (List.all_eq_true.mpr hstrs) hstr

theorem iter_checked {check : Json → Py Unit} {items : List Json} (hi : v.iter = .ok items)
    (hs : ∀ x, check x = .ok () → x.isStr = false ∧ check x.sortKeys = .ok ())
    (h : items.forM check = .ok ()) :
    v.sortKeys.iter = .ok (items.map Json.sortKeys) ∧ (items.map Json.sortKeys).forM check = .ok () := by
  rw [forM_ok] at h ⊢
  refine ⟨Json.iter_sorted hi fun x hx => (hs x (h x hx)).1, fun x hx => ?_⟩
  obtain ⟨y, hy, rfl⟩ := List.mem_map.mp hx
  exact (hs y (h y hy)).2

theorem blockingStrategies_unique {found : Json} (hu : v.unique = true)
    (h : blockingStrategies v = .ok found) : found.unique = true := by
  unfold blockingStrategies at h
  split at h
  · rwa [← Except.ok.inj h]
  · rw [Except.bind_eq_ok] at h
    obtain ⟨items, hitems, h⟩ := h
    split at h
    · next hstr =>
      simp only [Except.bind_eq_ok, Except.pure_eq_ok] at h
      obtain ⟨named, -, rfl⟩ := h
      have hfields : Json.unique (.arr (items.filter fun item => !item.pyEq (.str "name_prefix"))) =
          true := by
        refine Json.unique_arr.mpr fun x hx => ?_
        have hx' := List.all_eq_true.mp hstr x (List.mem_of_mem_filter hx)
        cases x with
        | str s => rfl
        | _ => cases hx'
      refine Json.unique_arr.mpr fun x hx => ?_
      rw [List.mem_singleton.mp hx]
      cases named <;> refine Json.unique_obj.mpr ⟨by simp [Dict.keys], ?_⟩
      · simpa using hfields
      · simp only [List.singleton_append, if_true, List.forall_mem_cons]
        exact ⟨hfields, by simp [Json.unique, Json.uniqueEntries]⟩
    · rw [Except.pure_eq_ok] at h
      rwa [← h]

/-- The matching section as it is compiled. -/
structure MatchingRules where
  algorithm : String
  prior : Extended ℚ
  blocking : Json
  comparisons : Json
  review : ℚ
  autoLink : ℚ

namespace MatchingRules

variable {m : MatchingRules}

def thresholds (m : MatchingRules) : Json :=
  .obj [("review", .float m.review), ("auto_link", .float m.autoLink)]

def json (m : MatchingRules) : Json :=
  .obj [("algorithm", .str m.algorithm), ("prior_match_probability", floatJson m.prior),
    ("blocking", m.blocking), ("comparisons", m.comparisons), ("thresholds", m.thresholds)]

/-- The section as a canonical document holds it. -/
def sorted (m : MatchingRules) : Dict :=
  [("algorithm", .str m.algorithm), ("blocking", m.blocking.sortKeys),
    ("comparisons", m.comparisons.sortKeys), ("prior_match_probability", floatJson m.prior),
    ("thresholds", .obj [("auto_link", .float m.autoLink), ("review", .float m.review)])]

theorem sortKeys_json : m.json.sortKeys = .obj m.sorted := by
  have hprior : (floatJson m.prior).sortKeys = floatJson m.prior := by cases m.prior <;> rfl
  rw [json, Json.sortKeys_obj, sorted]
  simp [Dict.sorted, Json.sortKeysEntries, Json.sortKeys, List.orderedInsert, thresholds, hprior]

/-- What the section has been accepted for. -/
structure Accepted (rt : Runtime) (m : MatchingRules) : Prop where
  strategies : ∃ items, m.blocking.iter = .ok items ∧ items.forM (checkStrategy rt) = .ok ()
  comparisons : ∃ rules, m.comparisons.iter = .ok rules ∧ rules.forM (checkComparison rt) = .ok () ∧
    (m.algorithm = "fellegi_sunter" → 0 < m.prior ∧ m.prior < 1 ∧
      rules.forM (checkProbabilities rt) = .ok ())
  algorithm : m.algorithm ∈ ["weighted_score", "fellegi_sunter"]
  thresholds : 0 ≤ m.review ∧ m.review ≤ m.autoLink ∧ m.autoLink ≤ 101 / 100

/-- What the section has been checked for with its keys in order. -/
structure Checked (rt : Runtime) (m : MatchingRules) : Prop where
  blocking : blockingStrategies m.blocking.sortKeys = .ok m.blocking.sortKeys
  strategies : ∃ items, m.blocking.sortKeys.iter = .ok items ∧ items.forM (checkStrategy rt) = .ok ()
  comparisons : ∃ rules, m.comparisons.sortKeys.iter = .ok rules ∧
    rules.forM (checkComparison rt) = .ok () ∧
    (m.algorithm = "fellegi_sunter" → 0 < m.prior ∧ m.prior < 1 ∧
      rules.forM (checkProbabilities rt) = .ok ())
  algorithm : m.algorithm ∈ ["weighted_score", "fellegi_sunter"]
  thresholds : 0 ≤ m.review ∧ m.review ≤ m.autoLink ∧ m.autoLink ≤ 101 / 100

end MatchingRules

theorem compileThresholds_ok {matching : Dict} {found : Json}
    (h : compileThresholds rt matching = .ok found) :
    ∃ review autoLink, found = .obj [("review", .float review), ("auto_link", .float autoLink)] ∧
      0 ≤ review ∧ review ≤ autoLink ∧ autoLink ≤ 101 / 100 := by
  unfold compileThresholds at h
  simp only [Except.bind_eq_ok] at h
  obtain ⟨_, -, _, -, given, -, h⟩ := h
  split at h
  · simp only [Except.bind_eq_ok] at h
    obtain ⟨review, -, h⟩ := h
    split at h
    · simp only [Except.bind_eq_ok] at h
      obtain ⟨autoLink, -, h⟩ := h
      split at h
      · cases h
      · next hbounds =>
        simp only [Bool.not_eq_true', Bool.not_eq_false, Bool.and_eq_true, decide_eq_true_eq] at hbounds
        obtain ⟨⟨hzero, hle⟩, hhigh⟩ := hbounds
        -- what lies between two numbers is one
        obtain ⟨q, rfl, hq⟩ := Extended.between hzero (Extended.le_trans hle hhigh)
        obtain ⟨p, rfl, hp⟩ := Extended.between (Extended.le_trans hzero hle) hhigh
        exact ⟨q, p, (Except.ok.inj h).symm, hq.1, hle, hp.2⟩
    · cases h
  · cases h

theorem compileThresholds_sorted {m : MatchingRules} (h : m.Checked rt) :
    compileThresholds rt m.sorted = .ok m.thresholds := by
  obtain ⟨hreview, hle, hauto⟩ := h.thresholds
  have hget : Dict.get? m.sorted "thresholds" =
      some (.obj [("auto_link", .float m.autoLink), ("review", .float m.review)]) := rfl
  have hnone : Dict.get? m.sorted "auto_link" = none ∧ Dict.get? m.sorted "review" = none := ⟨rfl, rfl⟩
  unfold compileThresholds
  rw [hget, hnone.1, hnone.2]
  have hfloat : ∀ q, Json.toFloat rt (.float q) = .ok (.finite q) := fun _ => rfl
  simp [Json.asDict, hfloat, Dict.get?, bind, Except.bind, pure, Except.pure, Extended.zero_eq]
  rw [if_neg (by simp [hreview, hle, hauto])]
  rfl

theorem Json.toDict_unique (hu : v.unique = true) (h : v.toDict = .ok found) :
    Json.unique (.obj found) = true := by
  cases v with
  | obj kvs => rwa [← Except.ok.inj h]
  | arr xs =>
    refine Except.foldlM_invariant (P := fun d => Json.unique (.obj d) = true) h rfl ?_
    intro d x d' hx hd hstep
    have hux := Json.unique_arr.mp hu x hx
    split at hstep
    · cases hstep
      exact Dict.unique_set hd (Json.unique_arr.mp hux _ (by simp))
    · cases hstep
  | _ => cases h

theorem compileMatching_accepted {raw : Dict} {found : Json} (h : compileMatching rt raw = .ok found) :
    ∃ matching m, ((raw.get? "matching").getD (.obj [])).toDict = .ok matching ∧
      found = MatchingRules.json m ∧ m.Accepted rt ∧
      blockingStrategies ((matching.get? "blocking").getD (.arr [])) = .ok m.blocking ∧
      m.comparisons = (matching.get? "comparisons").getD (.arr []) := by
  unfold compileMatching at h
  rw [Except.bind_eq_ok] at h
  obtain ⟨matching, hmatching, h⟩ := h
  simp only [Except.bind_eq_ok] at h
  obtain ⟨_, -, blocking, hblocking, items, hitems, ⟨⟩, hchecked, rules, hrules, ⟨⟩, hcompared, h⟩ := h
  split at h
  · cases h
  · next halgorithm =>
    simp only [Except.bind_eq_ok] at h
    obtain ⟨prior, hprior, h⟩ := h
    rw [Bool.not_eq_true, Bool.not_eq_false'] at halgorithm
    obtain ⟨algorithm, heq, hlisted⟩ := memberOf_str halgorithm
    rw [heq] at h
    have hfinal : (algorithm = "fellegi_sunter" → 0 < prior ∧ prior < 1 ∧
        rules.forM (checkProbabilities rt) = .ok ()) ∧
        ∃ thresholds, compileThresholds rt matching = .ok thresholds ∧
          Json.obj [("algorithm", .str algorithm), ("prior_match_probability", floatJson prior),
            ("blocking", blocking), ("comparisons", (matching.get? "comparisons").getD (.arr [])),
            ("thresholds", thresholds)] = found := by
      split at h
      · split at h
        · cases h
        · next hprior =>
          simp only [Except.bind_eq_ok, Except.pure_eq_ok] at h
          obtain ⟨⟨⟩, hprobabilities, thresholds, hthresholds, hfound⟩ := h
          refine ⟨fun _ => ?_, thresholds, hthresholds, hfound⟩
          simp only [Bool.not_eq_true', Bool.and_eq_false_iff, decide_eq_false_iff_not, not_or,
            not_not] at hprior
          exact ⟨hprior.1, hprior.2, hprobabilities⟩
      · next hother =>
        simp only [Except.bind_eq_ok, Except.pure_eq_ok] at h
        obtain ⟨thresholds, hthresholds, hfound⟩ := h
        refine ⟨fun hfs => absurd ?_ hother, thresholds, hthresholds, hfound⟩
        rw [hfs]
        rfl
    obtain ⟨hprobabilities, thresholds, hthresholds, rfl⟩ := hfinal
    obtain ⟨review, autoLink, rfl, hbounds⟩ := compileThresholds_ok hthresholds
    exact ⟨matching, ⟨algorithm, prior, blocking, (matching.get? "comparisons").getD (.arr []), review,
      autoLink⟩, hmatching, rfl, ⟨⟨items, hitems, hchecked⟩, ⟨rules, hrules, hcompared, hprobabilities⟩,
      hlisted, hbounds⟩, hblocking, rfl⟩

theorem compileMatching_ok {raw : Dict} {found : Json} (hu : Json.unique (.obj raw) = true)
    (h : compileMatching rt raw = .ok found) :
    ∃ m : MatchingRules, found = m.json ∧ m.Checked rt ∧ m.blocking.unique = true ∧
      m.comparisons.unique = true := by
  obtain ⟨matching, m, hmatching, rfl, hm, hblocking, hcomparisons⟩ := compileMatching_accepted h
  have hum : Json.unique (.obj matching) = true := Json.toDict_unique (Dict.unique_getD hu rfl) hmatching
  obtain ⟨items, hitems, hchecked⟩ := hm.strategies
  obtain ⟨rules, hrules, hcompared, hprobabilities⟩ := hm.comparisons
  have hblocks := iter_checked hitems (fun _ => checkStrategy_sorted) hchecked
  have hrules := iter_checked hrules (fun _ => checkComparison_sorted) hcompared
  refine ⟨m, rfl, ⟨blockingStrategies_sorted hblocking, ⟨_, hblocks⟩, ⟨_, hrules.1, hrules.2, ?_⟩,
    hm.algorithm, hm.thresholds⟩, blockingStrategies_unique (Dict.unique_getD hum rfl) hblocking, ?_⟩
  · intro hfs
    obtain ⟨hpos, hlt, hall⟩ := hprobabilities hfs
    refine ⟨hpos, hlt, forM_ok.mpr fun x hx => ?_⟩
    obtain ⟨y, hy, rfl⟩ := List.mem_map.mp hx
    exact checkProbabilities_sorted (forM_ok.mp hall y hy)
  · rw [hcomparisons]
    exact Dict.unique_getD hum rfl

/-- A compiled matching section compiles to itself, but for the order of its keys. -/
theorem MatchingRules.compiles {m : MatchingRules} {raw : Dict} (h : m.Checked rt)
    (hm : raw.get? "matching" = some (.obj m.sorted)) :
    compileMatching rt raw = .ok (MatchingRules.json
      { m with blocking := m.blocking.sortKeys, comparisons := m.comparisons.sortKeys }) := by
  obtain ⟨items, hitems, hchecked⟩ := h.strategies
  obtain ⟨rules, hrules, hcompared, hprobabilities⟩ := h.comparisons
  have hknown : rejectUnknown m.sorted ["blocking", "comparisons", "thresholds", "auto_link", "review",
      "hard_conflicts", "algorithm", "prior_match_probability"] "unsupported matching settings" =
      .ok () := rejectUnknown_ok.mpr (by simp [sorted, Dict.keys])
  have hblocking : (Dict.get? m.sorted "blocking").getD (.arr []) = m.blocking.sortKeys := rfl
  have hcomparisons : (Dict.get? m.sorted "comparisons").getD (.arr []) = m.comparisons.sortKeys := rfl
  have halgorithm : (Dict.get? m.sorted "algorithm").getD (.str "weighted_score") = .str m.algorithm := rfl
  have hprior : Json.toFloat rt ((Dict.get? m.sorted "prior_match_probability").getD
      (.float (1 / 100))) = .ok m.prior := Json.toFloat_floatJson rt m.prior
  have hlisted : memberOf (.str m.algorithm) ["weighted_score", "fellegi_sunter"] = true := by
    rw [memberOf, List.contains_iff_mem]
    exact h.algorithm
  have hmatching : Json.toDict (.obj m.sorted) = .ok m.sorted := rfl
  unfold compileMatching
  rw [hm, Option.getD_some, hmatching]
  simp only [bind, Except.bind, hknown, hblocking, h.blocking, hitems, hchecked, hcomparisons, hrules,
    hcompared, halgorithm, hlisted, hprior, compileThresholds_sorted h]
  by_cases hfs : m.algorithm = "fellegi_sunter"
  · obtain ⟨hpos, hlt, hall⟩ := hprobabilities hfs
    simp [hfs, hpos, hlt, hall, Json.pyEq]
    rfl
  · simp [hfs, Json.pyEq]
    rfl

/-! Survivorship. -/

/-- The rules are about the attributes there are, and each is one. -/
structure RulesChecked (rt : Runtime) (attributes : List Dict) (rules : Dict) : Prop where
  about : ∀ p ∈ rules, p.1 ≠ "default" → ∃ item ∈ attributes, (item.get "key").pyEq (.str p.1) = true
  each : ∀ p ∈ rules, checkSurvivorshipRule rt p.1 p.2 = .ok ()

theorem compileSurvivorship_iff {raw rules : Dict} {attributes : List Dict} :
    compileSurvivorship rt raw attributes = .ok rules ↔
      ((raw.get? "survivorship").getD (.obj [("default",
        .str "verified_then_source_priority_then_observation_time")])).asDict = .ok rules ∧
      RulesChecked rt attributes rules := by
  have hany : ∀ survivorship : Dict, (survivorship.any fun p => p.1 ≠ "default" &&
      !(attributes.map fun item => item.get "key").any fun k => k.pyEq (.str p.1)) = true ↔
      ¬ ∀ p ∈ survivorship, p.1 ≠ "default" →
        ∃ item ∈ attributes, (item.get "key").pyEq (.str p.1) = true := by
    intro survivorship
    simp
  unfold compileSurvivorship
  rw [Except.bind_eq_ok]
  constructor
  · rintro ⟨survivorship, hfound, h⟩
    dsimp only at h
    split at h
    · cases h
    · next habout =>
      simp only [Except.bind_eq_ok, Except.pure_eq_ok] at h
      obtain ⟨⟨⟩, heach, rfl⟩ := h
      exact ⟨hfound, not_not.mp (mt (hany survivorship).mpr habout), forM_ok.mp heach⟩
  · rintro ⟨hfound, habout, heach⟩
    refine ⟨rules, hfound, ?_⟩
    dsimp only
    rw [if_neg (mt (hany rules).mp (not_not.mpr habout))]
    simp only [Except.bind_eq_ok, Except.pure_eq_ok]
    exact ⟨(), forM_ok.mpr heach, trivial⟩

theorem checkSurvivorshipRule_sorted {field : String} (h : checkSurvivorshipRule rt field v = .ok ()) :
    checkSurvivorshipRule rt field v.sortKeys = .ok () := by
  cases v with
  | str s => exact h
  | obj rule =>
    rw [Json.sortKeys_obj]
    unfold checkSurvivorshipRule at h ⊢
    dsimp only at h ⊢
    split at h
    · cases h
    · next hknown =>
      rw [if_neg (mt (mt unknownKeys_sorted.mpr) hknown), Dict.get_sorted]
      simp only [pure_bind, memberOf_sortKeys] at h ⊢
      split at h
      · cases h
      · next hlisted =>
        rw [if_neg hlisted]
        exact h
  | _ => cases h

theorem RulesChecked.sorted {attributes : List Dict} {rules : Dict}
    (h : RulesChecked rt attributes rules) :
    RulesChecked rt (attributes.map Dict.sorted) rules.sorted where
  about p hp hne := by
    obtain ⟨q, hq, rfl⟩ := Dict.mem_sorted.mp hp
    obtain ⟨item, hitem, hkey⟩ := h.about q hq hne
    refine ⟨item.sorted, List.mem_map_of_mem hitem, ?_⟩
    rw [Dict.get_sorted, Json.sortKeys_pyEq_str]
    exact hkey
  each p hp := by
    obtain ⟨q, hq, rfl⟩ := Dict.mem_sorted.mp hp
    exact checkSurvivorshipRule_sorted (h.each q hq)

end Recordlane
