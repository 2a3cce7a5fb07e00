import Recordlane.Settings

/-! What the validation of a record says about its values. -/
namespace Recordlane

variable {rt : Runtime} {policy : CompiledPolicy} {values item : Dict} {key : String} {v : Json}

/-! The types of values. -/

/-- The attribute type that a policy declares. -/
def declaredType (item : Dict) : Json := (item.get? "type").getD (.str "string")

/-- A text or a number, and one that names a decimal number. -/
def IsDecimal (rt : Runtime) (v : Json) : Prop :=
  ((∃ text, v = .str text) ∨ (∃ n, v = .int n) ∨ ∃ q, v = .float q) ∧ ∃ d, rt.decimal (rt.strOf v) = .finite d

/-- The values that an attribute type is for. -/
def HasType (rt : Runtime) : Json → Json → Prop
  | .str "string", v | .str "reference", v | .str "identifier", v | .str "enum", v => ∃ text, v = .str text
  | .str "integer", v => ∃ n, v = .int n
  | .str "boolean", v => ∃ b, v = .bool b
  | .str "decimal", v => IsDecimal rt v
  | _, _ => True

/-- A required attribute has a value, and one that is not the empty text. -/
def RequiredPresent (values item : Dict) (key : String) : Prop :=
  (item.get "required").truthy = true →
    values.contains key = true ∧ values.get key ≠ .null ∧ values.get key ≠ .str ""

/-- What a record promises about one declared attribute: its type, its list and its pattern. -/
structure AttributeMet (rt : Runtime) (values item : Dict) (key : String) : Prop where
  required : RequiredPresent values item key
  typed : values.get key ≠ .null → HasType rt (declaredType item) (values.get key)
  allowed : values.get key ≠ .null → item.get "allowed_values" ≠ .null →
    (values.get key).isIn (item.get "allowed_values") = .ok true
  pattern : values.get key ≠ .null → (item.get "pattern").truthy = true →
    ∃ p text, item.get "pattern" = .str p ∧ values.get key = .str text ∧ rt.fullmatch p text = some true

/-- The record meets every attribute that the policy declares. -/
def WellTyped (rt : Runtime) (policy : CompiledPolicy) (values : Dict) : Prop :=
  ∀ item ∈ policy.attributes, ∃ key, item.get "key" = .str key ∧ AttributeMet rt values item key

/-- What the validation does not look at: truth values are integers to it, and decimals are anything. -/
def UncheckedTyped (rt : Runtime) (policy : CompiledPolicy) (values : Dict) : Prop :=
  ∀ item ∈ policy.attributes, ∀ key, item.get "key" = .str key →
    (declaredType item = .str "integer" → ∀ b, values.get key ≠ .bool b) ∧
    (declaredType item = .str "decimal" → values.get key ≠ .null → IsDecimal rt (values.get key))

theorem Json.isStr_iff : v.isStr = true ↔ ∃ text, v = .str text := by
  cases v <;> simp [Json.isStr]

theorem hasType_iff (rt : Runtime) {kind : Json} (h : CompiledPolicy.hasKind kind v = true) :
    HasType rt kind v ↔ (kind = .str "integer" → ∀ b, v ≠ .bool b) ∧
      (kind = .str "decimal" → IsDecimal rt v) := by
  cases kind with
  | str name =>
    by_cases hint : name = "integer"
    · subst hint
      cases v <;> simp_all [CompiledPolicy.hasKind, HasType]
    by_cases hdecimal : name = "decimal"
    · subst hdecimal
      simp [HasType]
    simp only [Json.str.injEq, hint, hdecimal, false_implies, and_self, iff_true]
    unfold CompiledPolicy.hasKind at h
    split at h <;> simp_all [HasType, Json.isStr_iff]
  | _ => simp [HasType]

namespace CompiledPolicy

theorem offPattern_holds (h : offPattern rt key item v = .ok false)
    (hpattern : (item.get "pattern").truthy = true) :
    ∃ p text, item.get "pattern" = .str p ∧ v = .str text ∧ rt.fullmatch p text = some true := by
  rw [offPattern, if_pos hpattern, Except.bind_eq_ok] at h
  obtain ⟨tooLong, -, h⟩ := h
  split at h
  · cases h
  · rw [Except.map_eq_ok] at h
    obtain ⟨holds, hholds, hnot⟩ := h
    rw [Bool.not_eq_false'] at hnot
    subst hnot
    unfold patternHolds at hholds
    split at hholds
    · next p text hp =>
      split at hholds
      · next b hmatch =>
        cases hholds
        exact ⟨p, text, hp, rfl, hmatch⟩
      · cases hholds
    · cases hholds
    · cases hholds

theorem validateAttribute_required (hkey : item.get "key" = .str key)
    (h : validateAttribute rt values item = .ok []) : RequiredPresent values item key := by
  intro hrequired
  unfold validateAttribute at h
  rw [hkey] at h
  dsimp only at h
  rw [hrequired, Bool.true_and] at h
  split at h
  · cases h
  · next hpresent =>
    simp only [Bool.not_eq_true, Bool.or_eq_false_iff, Bool.not_eq_false'] at hpresent
    obtain ⟨⟨hcontains, hnull⟩, hblank⟩ := hpresent
    rw [← Bool.not_eq_true, Json.pyEq_null] at hnull
    rw [Json.pyEq_str, decide_eq_false_iff_not] at hblank
    exact ⟨hcontains, hnull, hblank⟩

theorem validateAttribute_silent (hkey : item.get "key" = .str key) (hv : values.get key ≠ .null)
    (h : validateAttribute rt values item = .ok []) :
    outsideList item (values.get key) = .ok false ∧ offPattern rt key item (values.get key) = .ok false ∧
      hasKind (declaredType item) (values.get key) = true := by
  have hblank : ¬ ((item.get "required").truthy = true ∧ values.get key = .str "") :=
    fun hblank => (validateAttribute_required hkey h hblank.1).2.2 hblank.2
  obtain ⟨name, rest, -, hkind, heq⟩ := validateAttribute_present rt hkey hv hblank
  rw [heq] at h
  simp only [Except.bind_eq_ok, Except.pure_eq_ok, List.append_eq_nil_iff] at h
  obtain ⟨outside, houtside, mismatch, hmismatch, ⟨hnone, hmatched⟩, hrest⟩ := h
  refine ⟨?_, ?_, hkind hrest⟩
  · cases outside with
    | false => exact houtside
    | true => cases hnone
  · cases mismatch with
    | false => exact hmismatch
    | true => cases hmatched

theorem validate_silent (h : policy.validate rt values = .ok []) (hitem : item ∈ policy.attributes) :
    validateAttribute rt values item = .ok [] := by
  rw [validate, Except.bind_eq_ok] at h
  obtain ⟨reports, hreports, h⟩ := h
  rw [Except.pure_eq_ok, List.flatten_eq_nil_iff] at h
  obtain ⟨errors, herrors, hchecked⟩ := (Except.mapM_mem hreports).2 item hitem
  rwa [h errors herrors] at hchecked

theorem validateAttribute_key {errors : List QualityError}
    (h : validateAttribute rt values item = .ok errors) : ∃ key, item.get "key" = .str key := by
  unfold validateAttribute at h
  split at h
  · next key hkey => exact ⟨key, hkey⟩
  · cases h

end CompiledPolicy

theorem attributeMet_iff (hkey : item.get "key" = .str key)
    (h : CompiledPolicy.validateAttribute rt values item = .ok []) :
    AttributeMet rt values item key ↔
      (declaredType item = .str "integer" → ∀ b, values.get key ≠ .bool b) ∧
      (declaredType item = .str "decimal" → values.get key ≠ .null → IsDecimal rt (values.get key)) := by
  by_cases hv : values.get key = .null
  · refine iff_of_true ⟨CompiledPolicy.validateAttribute_required hkey h, fun hn => absurd hv hn,
      fun hn => absurd hv hn, fun hn => absurd hv hn⟩ ⟨fun _ b => ?_, fun _ hn => absurd hv hn⟩
    rw [hv]
    exact nofun
  obtain ⟨hlist, hpattern, hkind⟩ := CompiledPolicy.validateAttribute_silent hkey hv h
  have htyped := hasType_iff rt hkind
  constructor
  · intro hmet
    obtain ⟨hint, hdecimal⟩ := htyped.mp (hmet.typed hv)
    exact ⟨hint, fun hd _ => hdecimal hd⟩
  · rintro ⟨hint, hdecimal⟩
    exact ⟨CompiledPolicy.validateAttribute_required hkey h,
      fun _ => htyped.mpr ⟨hint, fun hd => hdecimal hd hv⟩,
      fun _ hallowed => (CompiledPolicy.outsideList_eq.mp hlist).resolve_left hallowed,
      fun _ => CompiledPolicy.offPattern_holds hpattern⟩

/-- A record without a report is well typed just when no truth value stands under an integer attribute and
every value under a decimal attribute names a decimal number. -/
theorem valid_wellTyped_iff (h : policy.validate rt values = .ok []) :
    WellTyped rt policy values ↔ UncheckedTyped rt policy values := by
  constructor
  · intro htyped item hitem key hkey
    obtain ⟨key', hkey', hmet⟩ := htyped item hitem
    obtain rfl := Json.str.inj (hkey.symm.trans hkey')
    exact (attributeMet_iff hkey (CompiledPolicy.validate_silent h hitem)).mp hmet
  · intro hunchecked item hitem
    have hsilent := CompiledPolicy.validate_silent h hitem
    obtain ⟨key, hkey⟩ := CompiledPolicy.validateAttribute_key hsilent
    exact ⟨key, hkey, (attributeMet_iff hkey hsilent).mpr (hunchecked item hitem key hkey)⟩

namespace Supplier

/-- A policy with a count and a price. -/
def counted : Dict := [("attributes", .arr [
  .obj [("key", .str "count"), ("type", .str "integer")],
  .obj [("key", .str "price"), ("type", .str "decimal")]])]

/-- A count and a price that are what they should be pass, and are well typed. -/
theorem valid_wellTyped_counted : ∃ policy, compilePolicy .plain (.obj counted) = .ok policy ∧
    (WellTyped .plain policy [("count", .int 2), ("price", .str "1.5")] ↔
      UncheckedTyped .plain policy [("count", .int 2), ("price", .str "1.5")]) := by
  have hchecked : ((compilePolicy .plain (.obj counted)).toOption.any fun policy =>
      (policy.validate .plain [("count", .int 2), ("price", .str "1.5")]).toOption.any List.isEmpty) =
        true := by
    decide +kernel
  obtain ⟨policy, hpolicy, hchecked⟩ := Except.of_any hchecked
  obtain ⟨errors, herrors, hempty⟩ := Except.of_any hchecked
  obtain rfl := List.isEmpty_iff.mp hempty
  exact ⟨policy, hpolicy, valid_wellTyped_iff herrors⟩

/-- The truth value `true` passes as a count. -/
theorem boolean_passes_as_integer : ¬ ∀ given policy values, compilePolicy .plain given = .ok policy →
    policy.validate .plain values = .ok [] → WellTyped .plain policy values := by
  intro h
  have hchecked : ((compilePolicy .plain (.obj counted)).toOption.any fun policy =>
      (policy.validate .plain [("count", .bool true)]).toOption.any List.isEmpty &&
        policy.attributes.any fun item =>
          (item.get "key").pyEq (.str "count") && (declaredType item).pyEq (.str "integer")) = true := by
    decide +kernel
  obtain ⟨policy, hpolicy, hchecked⟩ := Except.of_any hchecked
  rw [Bool.and_eq_true] at hchecked
  obtain ⟨hsilent, hcount⟩ := hchecked
  obtain ⟨errors, hvalid, hempty⟩ := Except.of_any hsilent
  obtain rfl := List.isEmpty_iff.mp hempty
  obtain ⟨item, hitem, hcount⟩ := List.any_eq_true.mp hcount
  rw [Bool.and_eq_true, Json.pyEq_str, Json.pyEq_str, decide_eq_true_iff, decide_eq_true_iff] at hcount
  obtain ⟨key, hkey, hmet⟩ := h (.obj counted) policy _ hpolicy hvalid item hitem
  obtain rfl := Json.str.inj (hkey.symm.trans hcount.1)
  have htyped := hmet.typed (fun h => by cases h)
  rw [hcount.2] at htyped
  obtain ⟨n, hn⟩ := htyped
  cases hn

end Supplier

end Recordlane
