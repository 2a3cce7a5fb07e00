import Recordlane.Library.Delimited
import Recordlane.Library.Run
import Recordlane.PolicyCompiler
import Recordlane.Supplier

/-! What a blocking strategy says, and the keys that the policy makes of it. -/
namespace Recordlane

/-- What a strategy names: its fields, and the field of which it takes the first characters. A length
that no text can be cut with is `none`. -/
structure Strategy where
  fields : List Json
  lead : Option (Json × Option Nat)

/-- `text[:length]` takes integers, and truth values as integers. -/
def sliceLength : Json → Option Nat
  | .int i => some i.toNat
  | .bool b => some (if b then 1 else 0)
  | _ => none

def readStrategy (strategy : Dict) : Option Strategy :=
  match ((strategy.get? "fields").getD (.arr [])).iter with
  | .error _ => none
  | .ok fields =>
    if !(strategy.get "prefix").truthy then some ⟨fields, none⟩
    else match strategy.get "prefix" with
      | .obj rule => (Dict.get? rule "field").map fun field =>
          ⟨fields, some (field, (Dict.get? rule "length").bind sliceLength)⟩
      | _ => none

/-- A name that a map can be asked for. -/
def Json.hashable : Json → Bool
  | .arr _ | .obj _ => false
  | _ => true

namespace Dict

def valueOf (normalized : Dict) : Json → Json
  | .str key => normalized.get key
  | _ => .null

/-- A field is there, and neither null nor empty. -/
def filled (normalized : Dict) (field : Json) : Bool := !(normalized.valueOf field).blank

/-- `str(normalized.get(field, ""))`. -/
def shown (rt : Runtime) (normalized : Dict) : Json → String
  | .str key => if normalized.contains key then rt.strOf (normalized.get key) else ""
  | _ => ""

end Dict

section

variable {rt : Runtime} {normalized n₁ n₂ : Dict} {field : Json}

theorem Dict.lookup_eq_ok {v : Json} :
    Json.lookup normalized field = .ok v ↔ field.hashable = true ∧ normalized.valueOf field = v := by
  cases field <;> simp [Json.lookup, Json.hashable, Dict.valueOf]

theorem Dict.shown_of_filled (h : normalized.filled field = true) :
    normalized.shown rt field = rt.strOf (normalized.valueOf field) := by
  cases field with
  | str key =>
    have hcontains : normalized.contains key = true := by
      by_contra hnot
      have hnone : normalized.get? key = none := by
        rw [Dict.get?, Option.map_eq_none_iff, List.find?_eq_none]
        intro p hp hkey
        exact hnot (List.any_eq_true.mpr ⟨p, hp, hkey⟩)
      simp [Dict.filled, Dict.valueOf, Dict.get, hnone, Json.blank] at h
    simp [Dict.shown, Dict.valueOf, hcontains]
  | _ => simp [Dict.filled, Dict.valueOf, Json.blank] at h

theorem Dict.shown_ne_of_filled (hstr : ∀ v, rt.strOf v = "" → v = .str "")
    (h : normalized.filled field = true) : normalized.shown rt field ≠ "" := by
  rw [Dict.shown_of_filled h]
  intro hempty
  simp [Dict.filled, hstr _ hempty, Json.blank] at h

end

namespace Strategy

variable (rt : Runtime) (normalized : Dict) (st : Strategy)

/-- Every field that the strategy names is filled, and it names one. -/
def Named : Prop :=
  (∀ field ∈ st.fields, normalized.filled field = true) ∧
    (∀ p ∈ st.lead, normalized.filled p.1 = true) ∧ (st.fields ≠ [] ∨ st.lead ≠ none)

/-- The first characters are there, and some field is not, or they are those of a null. -/
def Slips : Prop :=
  ∃ p ∈ st.lead, normalized.shown rt p.1 ≠ "" ∧
    ¬((∀ field ∈ st.fields, normalized.filled field = true) ∧ normalized.filled p.1 = true)

/-- The names up to the first blank field can be looked up. -/
def legibleFields : List Json → Bool
  | [] => true
  | field :: fields => field.hashable && (!normalized.filled field || legibleFields fields)

/-- The strategy is read without an exception. -/
def Legible : Prop :=
  legibleFields normalized st.fields = true ∧
    ∀ p ∈ st.lead, p.1.hashable = true ∧ (normalized.shown rt p.1 ≠ "" → p.2.isSome = true)

/-- The parts that a key takes from the fields, each with its label. -/
def fieldTexts : List (String × String) :=
  if st.fields.all normalized.filled then
    st.fields.map fun field => (rt.strOf field ++ "=", rt.strOf (normalized.valueOf field))
  else []

def parts : List (String × String) :=
  match st.lead with
  | none => st.fieldTexts rt normalized
  | some (field, length) =>
    if normalized.shown rt field = "" then []
    else st.fieldTexts rt normalized ++
      [(rt.strOf field ++ "^=", takeChars (length.getD 0) (normalized.shown rt field))]

/-- What every key of the strategy with this number starts with. -/
def mark (index : Nat) : String := "p" ++ toString index ++ "|"

def key (index : Nat) : Option String :=
  if st.parts rt normalized = [] then none
  else some (mark index ++ Delimited.text "|" (st.parts rt normalized))

/-- The values that the strategy asks for have no separator in them. -/
def Clean : Prop :=
  ∀ field ∈ st.fields ++ (st.lead.map Prod.fst).toList,
    '|' ∉ (rt.strOf (normalized.valueOf field)).toList ∧
      '=' ∉ (rt.strOf (normalized.valueOf field)).toList

/-- The texts of all fields agree, and so do the first characters. -/
def Agree (n₁ n₂ : Dict) : Prop :=
  (∀ field ∈ st.fields, rt.strOf (n₁.valueOf field) = rt.strOf (n₂.valueOf field)) ∧
    ∀ p ∈ st.lead, takeChars (p.2.getD 0) (rt.strOf (n₁.valueOf p.1)) =
      takeChars (p.2.getD 0) (rt.strOf (n₂.valueOf p.1))

end Strategy

namespace CompiledPolicy

variable (policy : CompiledPolicy) (rt : Runtime) (normalized : Dict)

def strategies : List Dict := maps (policy.matching.get "blocking")

/-- The round of the loop for one strategy. -/
def strategyKey (index : Nat) (strategy : Dict) : Py (Option String) := do
  let fields ← ((strategy.get? "fields").getD (.arr [])).iter
  let parts ← fieldParts rt normalized fields
  let parts ← prefixParts rt normalized (parts.getD []) (strategy.get "prefix")
  return if parts = [] then none
    else some ("p" ++ toString index ++ "|" ++ "|".intercalate parts)

theorem blockingKeys_eq : policy.blockingKeys rt normalized = (do
    let keys ← policy.strategies.zipIdx.mapM fun (strategy, index) =>
      strategyKey rt normalized index strategy
    return keys.filterMap id) := rfl

def strategy? (index : Nat) : Option Strategy := policy.strategies[index]?.bind readStrategy

/-- The strategy with this number contributes a key. -/
def HasKey (index : Nat) (key : String) : Prop :=
  ∃ keys, policy.blockingKeys rt normalized = .ok keys ∧ key ∈ keys ∧
    (Strategy.mark index).toList <+: key.toList

/-- A strategy contributes a key if and only if all that it names is filled. -/
def KeyedAsNamed (index : Nat) : Prop :=
  (∃ key, policy.HasKey rt normalized index key) ↔
    ∃ st, policy.strategy? index = some st ∧ st.Named normalized

/-- Two maps without separators get one key if and only if they agree. -/
def TellsApart (index : Nat) (n₁ n₂ : Dict) : Prop :=
  ∀ st, policy.strategy? index = some st → st.Clean rt n₁ → st.Clean rt n₂ →
    ∀ k₁ k₂, policy.HasKey rt n₁ index k₁ → policy.HasKey rt n₂ index k₂ →
      (k₁ = k₂ ↔ st.Agree rt n₁ n₂)

/-- All strategies of the policy can be read. -/
def AllLegible : Prop :=
  ∀ strategy ∈ policy.strategies, ∃ st, readStrategy strategy = some st ∧ st.Legible rt normalized

/-- The strategies can be read and this one does not slip, or it has nothing to contribute. -/
def Faithful (index : Nat) : Prop :=
  policy.AllLegible rt normalized ∧ (∀ st, policy.strategy? index = some st → ¬st.Slips rt normalized) ∨
    ¬policy.AllLegible rt normalized ∧ ∀ st, policy.strategy? index = some st → ¬st.Named normalized

end CompiledPolicy

section

variable {rt : Runtime} {policy : CompiledPolicy} {normalized n₁ n₂ : Dict} {st : Strategy}
  {index : Nat} {k k₁ k₂ : String}

theorem fieldParts_eq_ok {fields : List Json} {parts : Option (List String)} :
    CompiledPolicy.fieldParts rt normalized fields = .ok parts ↔
      Strategy.legibleFields normalized fields = true ∧
        parts = if fields.all normalized.filled then
          some (fields.map fun field => rt.strOf field ++ "=" ++ rt.strOf (normalized.valueOf field))
        else none := by
  induction fields generalizing parts with
  | nil => simp [CompiledPolicy.fieldParts, Strategy.legibleFields, eq_comm]
  | cons field fields ih =>
    simp only [CompiledPolicy.fieldParts, Except.bind_eq_ok, Dict.lookup_eq_ok]
    by_cases hfilled : normalized.filled field = true
    · have hblank : (normalized.valueOf field).blank = false := by simpa [Dict.filled] using hfilled
      constructor
      · rintro ⟨v, ⟨hhash, rfl⟩, h⟩
        simp only [hblank, Bool.false_eq_true, if_false, Except.bind_eq_ok, Except.pure_eq_ok] at h
        obtain ⟨rest, hrest, rfl⟩ := h
        obtain ⟨hlegible, rfl⟩ := ih.mp hrest
        refine ⟨by simp [Strategy.legibleFields, hhash, hlegible], ?_⟩
        by_cases hall : fields.all normalized.filled = true <;> simp [hfilled, hall]
      · rintro ⟨hlegible, rfl⟩
        simp only [Strategy.legibleFields, hfilled, Bool.not_true, Bool.false_or, Bool.and_eq_true]
          at hlegible
        refine ⟨_, ⟨hlegible.1, rfl⟩, ?_⟩
        simp only [hblank, Bool.false_eq_true, if_false, Except.bind_eq_ok, Except.pure_eq_ok]
        refine ⟨_, ih.mpr ⟨hlegible.2, rfl⟩, ?_⟩
        by_cases hall : fields.all normalized.filled = true <;> simp [hfilled, hall]
    · have hblank : (normalized.valueOf field).blank = true := by simpa [Dict.filled] using hfilled
      constructor
      · rintro ⟨v, ⟨hhash, rfl⟩, h⟩
        simp only [hblank, if_true, Except.pure_eq_ok] at h
        simp [Strategy.legibleFields, hhash, hfilled, ← h]
      · rintro ⟨hlegible, rfl⟩
        rw [Strategy.legibleFields, Bool.and_eq_true] at hlegible
        refine ⟨_, ⟨hlegible.1, rfl⟩, ?_⟩
        simp [hblank, hfilled, pure, Except.pure]

theorem prefixParts_eq {rule : Dict} {field : Json} {parts : List String}
    (hfield : rule.get? "field" = some field) (hhash : field.hashable = true) :
    CompiledPolicy.prefixParts rt normalized parts (.obj rule) =
      if normalized.shown rt field = "" then .ok []
      else match rule.get? "length" with
        | none => .error (.python "KeyError")
        | some length =>
          match sliceLength length with
          | none => .error (.python "TypeError")
          | some n => .ok (parts ++
              [rt.strOf field ++ "^=" ++ takeChars n (normalized.shown rt field)]) := by
  have htruthy : (Json.obj rule).truthy = true := by
    cases rule with
    | nil => cases hfield
    | cons p rule => rfl
  cases field with
  | arr _ | obj _ => cases hhash
  | str key =>
    simp only [CompiledPolicy.prefixParts, htruthy, Json.asDict, hfield, Json.lookup, bind,
      Except.bind, Bool.not_true, Bool.false_eq_true, if_false]
    change (if normalized.shown rt (.str key) = "" then _ else _) = _
    by_cases hempty : normalized.shown rt (.str key) = ""
    · rw [if_pos hempty, if_pos hempty]
      rfl
    · rw [if_neg hempty, if_neg hempty]
      rcases rule.get? "length" with _ | length
      · rfl
      · cases length with
        | bool b => cases b <;> rfl
        | _ => rfl
  | _ =>
    simp only [CompiledPolicy.prefixParts, htruthy, Json.asDict, hfield, Json.lookup, bind,
      Except.bind, Bool.not_true, Bool.false_eq_true, if_false]
    rfl

theorem prefixParts_ne_ok {rule : Json} {parts parts' : List String} (htruthy : rule.truthy = true)
    (h : ∀ (d : Dict) (field : Json), rule = .obj d → d.get? "field" = some field →
      field.hashable = false) :
    CompiledPolicy.prefixParts rt normalized parts rule ≠ .ok parts' := by
  cases rule with
  | obj d =>
    simp only [CompiledPolicy.prefixParts, htruthy, Json.asDict, bind, Except.bind, Bool.not_true,
      Bool.false_eq_true, if_false]
    cases hfield : Dict.get? d "field" with
    | none => nofun
    | some field =>
      have hhash := h d field rfl hfield
      cases field with
      | arr _ | obj _ => nofun
      | _ => cases hhash
  | _ =>
    simp only [CompiledPolicy.prefixParts, htruthy, Json.asDict, bind, Except.bind, Bool.not_true,
      Bool.false_eq_true, if_false]
    nofun

theorem fieldTexts_map : (st.fieldTexts rt normalized).map (fun part => part.1 ++ part.2) =
    (if st.fields.all normalized.filled then some (st.fields.map fun field =>
      rt.strOf field ++ "=" ++ rt.strOf (normalized.valueOf field)) else none).getD [] := by
  rw [Strategy.fieldTexts]
  split
  · rw [List.map_map]
    rfl
  · rfl

theorem Strategy.key_eq {parts : List String}
    (h : (st.parts rt normalized).map (fun part => part.1 ++ part.2) = parts) :
    st.key rt normalized index = if parts = [] then none
      else some ("p" ++ toString index ++ "|" ++ "|".intercalate parts) := by
  subst h
  rw [Strategy.key]
  by_cases hnil : st.parts rt normalized = []
  · simp [hnil]
  · rw [if_neg hnil, if_neg (mt List.map_eq_nil_iff.mp hnil)]
    rfl

/-- A strategy that can be read has the key that its parts make; any other one raises. -/
theorem strategyKey_eq_ok {strategy : Dict} {key : Option String} :
    CompiledPolicy.strategyKey rt normalized index strategy = .ok key ↔
      ∃ st, readStrategy strategy = some st ∧ st.Legible rt normalized ∧
        key = st.key rt normalized index := by
  rw [CompiledPolicy.strategyKey, readStrategy]
  cases hiter : ((strategy.get? "fields").getD (.arr [])).iter with
  | error e => simp [bind, Except.bind]
  | ok fields =>
    simp only [Except.bind_eq_ok, Except.ok.injEq, exists_eq_left', Except.pure_eq_ok, fieldParts_eq_ok]
    by_cases htruthy : (strategy.get "prefix").truthy = true
    · rw [htruthy]
      cases hrule : strategy.get "prefix" with
      | obj rule =>
        rw [hrule] at htruthy
        cases hfield : Dict.get? rule "field" with
        | none =>
          have hne : ∀ parts parts', CompiledPolicy.prefixParts rt normalized parts (.obj rule) ≠
              .ok parts' := fun parts parts' => prefixParts_ne_ok htruthy
            fun d field hd hget => by cases hd; cases hfield.symm.trans hget
          simp [hne, hfield]
        | some field =>
          simp only [hfield, Bool.not_true, Bool.false_eq_true, if_false, Option.map_some,
            Option.some.injEq, exists_eq_left']
          by_cases hhash : field.hashable = true
          · simp only [prefixParts_eq hfield hhash]
            by_cases hempty : normalized.shown rt field = ""
            · constructor
              · rintro ⟨_, ⟨hlegible, rfl⟩, h⟩
                simp only [hempty, if_true, Except.ok.injEq, exists_eq_left'] at h
                refine ⟨⟨hlegible, ?_⟩, ?_⟩
                · rintro p ⟨⟩
                  exact ⟨hhash, fun hne => absurd hempty hne⟩
                · simp [Strategy.key, Strategy.parts, hempty, ← h]
              · rintro ⟨hlegible, rfl⟩
                refine ⟨_, ⟨hlegible.1, rfl⟩, [], if_pos hempty, ?_⟩
                simp [Strategy.key, Strategy.parts, hempty]
            · have hkey : ∀ n, Strategy.key rt normalized ⟨fields, some (field, some n)⟩ index = _ :=
                fun n => Strategy.key_eq (by
                  simp only [Strategy.parts, hempty, if_false, List.map_append]
                  rw [fieldTexts_map])
              cases hlength : Dict.get? rule "length" with
              | none => simp [hempty, Strategy.Legible, hhash]
              | some length =>
                cases hslice : sliceLength length with
                | none => simp [hempty, Strategy.Legible, hhash, hslice]
                | some n =>
                  simp only [hempty, if_false, Except.ok.injEq, exists_eq_left', Option.bind_some, hslice,
                    hkey]
                  constructor
                  · rintro ⟨_, ⟨hlegible, rfl⟩, rfl⟩
                    refine ⟨⟨hlegible, ?_⟩, rfl⟩
                    rintro p ⟨⟩
                    exact ⟨hhash, fun _ => rfl⟩
                  · rintro ⟨hlegible, rfl⟩
                    exact ⟨_, ⟨hlegible.1, rfl⟩, rfl⟩
          · have hne : ∀ parts parts', CompiledPolicy.prefixParts rt normalized parts (.obj rule) ≠
                .ok parts' := fun parts parts' => prefixParts_ne_ok htruthy
              fun d field' hd hget => by
                cases hd
                cases hfield.symm.trans hget
                exact Bool.eq_false_iff.mpr hhash
            simp [hne, Strategy.Legible, hhash]
      | _ =>
        rw [hrule] at htruthy
        have hne : ∀ parts parts', CompiledPolicy.prefixParts rt normalized parts _ ≠
            .ok parts' := fun parts parts' => prefixParts_ne_ok htruthy nofun
        simp [hne]
    · have hpass : ∀ parts, CompiledPolicy.prefixParts rt normalized parts (strategy.get "prefix") =
          .ok parts := fun parts => by simp [CompiledPolicy.prefixParts, htruthy, pure, Except.pure]
      simp only [htruthy, Bool.not_false, if_true, Option.some.injEq, exists_eq_left', hpass,
        Except.ok.injEq]
      have hkey : Strategy.key rt normalized ⟨fields, none⟩ index = _ := Strategy.key_eq fieldTexts_map
      constructor
      · rintro ⟨_, ⟨hlegible, rfl⟩, rfl⟩
        exact ⟨⟨hlegible, nofun⟩, hkey.symm⟩
      · rintro ⟨hlegible, rfl⟩
        exact ⟨_, ⟨hlegible.1, rfl⟩, hkey.symm⟩

theorem fieldTexts_ne_nil : st.fieldTexts rt normalized ≠ [] ↔
    (∀ field ∈ st.fields, normalized.filled field = true) ∧ st.fields ≠ [] := by
  rw [Strategy.fieldTexts]
  by_cases hall : st.fields.all normalized.filled = true
  · rw [if_pos hall, Ne, List.map_eq_nil_iff]
    exact ⟨fun hne => ⟨List.all_eq_true.mp hall, hne⟩, And.right⟩
  · rw [if_neg hall]
    exact ⟨fun hne => absurd rfl hne, fun h => absurd (List.all_eq_true.mpr h.1) hall⟩

theorem key_isSome_iff : (∃ key, st.key rt normalized index = some key) ↔
    st.parts rt normalized ≠ [] := by
  rw [Strategy.key]
  by_cases hnil : st.parts rt normalized = [] <;> simp [hnil]

/-- A strategy is keyed as it says if and only if it does not slip. -/
theorem key_named_iff (hstr : ∀ v, rt.strOf v = "" → v = .str "") :
    ((∃ key, st.key rt normalized index = some key) ↔ st.Named normalized) ↔
      ¬st.Slips rt normalized := by
  rw [key_isSome_iff, Strategy.parts, Strategy.Named, Strategy.Slips]
  cases hlead : st.lead with
  | none => simp [fieldTexts_ne_nil]
  | some p =>
    have hfilled : normalized.filled p.1 = true → normalized.shown rt p.1 ≠ "" :=
      Dict.shown_ne_of_filled hstr
    by_cases hempty : normalized.shown rt p.1 = ""
    · have hnot : ¬normalized.filled p.1 = true := fun h => hfilled h hempty
      simp [hempty, hnot]
    · simp [hempty]

theorem mark_inj {i j : Nat} {a b : String}
    (h : (Strategy.mark i ++ a).toList = (Strategy.mark j ++ b).toList) : i = j := by
  have hdigit : ∀ n : Nat, '|' ∉ ("p" ++ toString n).toList := by
    intro n hmem
    rw [String.toList_append, Nat.toString_eq_repr, Nat.toList_repr] at hmem
    rcases List.mem_append.mp hmem with hp | hp
    · exact absurd hp (by decide)
    · exact absurd (Nat.isDigit_of_mem_toDigits (by decide) (by decide) hp) (by decide)
  have hmark := (Delimited.part_inj (hdigit i) (hdigit j) (String.toList_inj.mp h)).1
  have htext := congrArg String.toList (Delimited.append_left_inj hmark)
  rw [Nat.toString_eq_repr, Nat.toString_eq_repr, Nat.toList_repr, Nat.toList_repr] at htext
  have hnumber := congrArg (fun digits => Nat.ofDigitChars 10 digits 0) htext
  simpa using hnumber

/-- The keys that start with the mark of a strategy are its own. -/
theorem hasKey_iff : policy.HasKey rt normalized index k ↔ policy.AllLegible rt normalized ∧
    ∃ st, policy.strategy? index = some st ∧ st.key rt normalized index = some k := by
  have hindexed : ∀ {strategy : Dict} {j : Nat}, (strategy, j) ∈ policy.strategies.zipIdx ↔
      policy.strategies[j]? = some strategy := List.mk_mem_zipIdx_iff_getElem?
  rw [CompiledPolicy.HasKey]
  simp only [CompiledPolicy.blockingKeys_eq, Except.bind_eq_ok, Except.pure_eq_ok]
  constructor
  · rintro ⟨_, ⟨found, hfound, rfl⟩, hk, hmark⟩
    obtain ⟨hback, hforth⟩ := Except.mapM_mem hfound
    constructor
    · intro strategy hstrategy
      obtain ⟨j, hj⟩ := List.mem_iff_getElem?.mp hstrategy
      obtain ⟨key, -, hkey⟩ := hforth (strategy, j) (hindexed.mpr hj)
      obtain ⟨st, hst, hlegible, -⟩ := strategyKey_eq_ok.mp hkey
      exact ⟨st, hst, hlegible⟩
    · obtain ⟨_, hsome, rfl⟩ := List.mem_filterMap.mp hk
      obtain ⟨⟨strategy, j⟩, hj, hkey⟩ := hback _ hsome
      obtain ⟨st, hst, -, hown⟩ := strategyKey_eq_ok.mp hkey
      have hindex : index = j := by
        rw [Strategy.key] at hown
        split at hown
        · cases hown
        · cases hown
          obtain ⟨rest, hrest⟩ := hmark
          refine mark_inj (a := String.ofList rest) (Eq.trans ?_ hrest)
          rw [String.toList_append, String.toList_ofList]
      subst hindex
      refine ⟨st, ?_, hown.symm⟩
      rw [CompiledPolicy.strategy?, hindexed.mp hj]
      exact hst
  · rintro ⟨hall, st, hst, hkey⟩
    obtain ⟨strategy, hj, hread⟩ := Option.bind_eq_some_iff.mp hst
    have hlegible : st.Legible rt normalized := by
      obtain ⟨st', hread', hlegible⟩ := hall strategy (List.mem_of_getElem? hj)
      cases hread.symm.trans hread'
      exact hlegible
    have hkeys : ∀ p ∈ policy.strategies.zipIdx, ∃ key,
        CompiledPolicy.strategyKey rt normalized p.2 p.1 = .ok key := by
      rintro ⟨strategy, j⟩ hmem
      obtain ⟨st, hst, hlegible⟩ := hall strategy (List.mem_of_getElem? (hindexed.mp hmem))
      exact ⟨_, strategyKey_eq_ok.mpr ⟨st, hst, hlegible, rfl⟩⟩
    obtain ⟨found, hfound⟩ := Except.mapM_isOk hkeys
    obtain ⟨key, hmem, hown⟩ := (Except.mapM_mem hfound).2 (strategy, index) (hindexed.mpr hj)
    rw [strategyKey_eq_ok.mpr ⟨st, hread, hlegible, rfl⟩, Except.ok.injEq, hkey] at hown
    refine ⟨_, ⟨found, hfound, rfl⟩, List.mem_filterMap.mpr ⟨key, hmem, hown.symm⟩, ?_⟩
    rw [Strategy.key] at hkey
    split at hkey
    · cases hkey
    · cases hkey
      rw [String.toList_append]
      exact List.prefix_append _ _

/-- The parts of a strategy whose fields are all filled. -/
theorem parts_of_named (hstr : ∀ v, rt.strOf v = "" → v = .str "") (h : st.Named normalized) :
    st.parts rt normalized =
      st.fields.map (fun field => (rt.strOf field ++ "=", rt.strOf (normalized.valueOf field))) ++
      (st.lead.map fun p => (rt.strOf p.1 ++ "^=",
        takeChars (p.2.getD 0) (rt.strOf (normalized.valueOf p.1)))).toList := by
  obtain ⟨hfields, hlead, -⟩ := h
  have htexts : st.fieldTexts rt normalized = st.fields.map fun field =>
      (rt.strOf field ++ "=", rt.strOf (normalized.valueOf field)) :=
    if_pos (List.all_eq_true.mpr hfields)
  rw [Strategy.parts, htexts]
  cases hp : st.lead with
  | none => exact (List.append_nil _).symm
  | some p =>
    have hfilled := hlead p hp
    have hne := Dict.shown_ne_of_filled hstr hfilled
    refine (if_neg hne).trans ?_
    rw [Dict.shown_of_filled hfilled]
    rfl

theorem parts_clean (hstr : ∀ v, rt.strOf v = "" → v = .str "") (h : st.Named normalized)
    (hclean : st.Clean rt normalized) : ∀ part ∈ st.parts rt normalized, '|' ∉ part.2.toList := by
  intro part hpart
  rw [parts_of_named hstr h] at hpart
  rcases List.mem_append.mp hpart with hpart | hpart
  · obtain ⟨field, hfield, rfl⟩ := List.mem_map.mp hpart
    exact (hclean field (List.mem_append_left _ hfield)).1
  · obtain ⟨p, hp, rfl⟩ := Option.map_eq_some_iff.mp (Option.mem_toList.mp hpart)
    have hfree := (hclean p.1 (List.mem_append_right _ (by simp [hp]))).1
    intro hmem
    rw [takeChars, String.toList_ofList] at hmem
    exact hfree (List.mem_of_mem_take hmem)

/-- Filled fields without separators can be read off a key. -/
theorem key_inj (hstr : ∀ v, rt.strOf v = "" → v = .str "") (h₁ : st.Named n₁) (h₂ : st.Named n₂)
    (hc₁ : st.Clean rt n₁) (hc₂ : st.Clean rt n₂) (hk₁ : st.key rt n₁ index = some k₁)
    (hk₂ : st.key rt n₂ index = some k₂) : k₁ = k₂ ↔ st.Agree rt n₁ n₂ := by
  have hparts : st.parts rt n₁ = st.parts rt n₂ ↔ st.Agree rt n₁ n₂ := by
    rw [parts_of_named hstr h₁, parts_of_named hstr h₂]
    constructor
    · intro h
      obtain ⟨hfields, hlead⟩ := List.append_inj h (by rw [List.length_map, List.length_map])
      constructor
      · intro field hfield
        exact (Prod.mk.inj (List.map_inj_left.mp hfields field hfield)).2
      · intro p hp
        rw [Option.mem_def] at hp
        simp only [hp, Option.map_some, Option.toList_some] at hlead
        exact (Prod.mk.inj (List.cons.inj hlead).1).2
    · rintro ⟨hfields, hlead⟩
      have hmap := List.map_congr_left (l := st.fields) (fun field hfield =>
        congrArg (Prod.mk (rt.strOf field ++ "=")) (hfields field hfield))
      rw [hmap]
      cases hp : st.lead with
      | none => rfl
      | some p =>
        rw [Option.map_some, Option.map_some, hlead p hp]
  rw [← hparts]
  have htext : ∀ {n : Dict} {k : String}, st.key rt n index = some k →
      k = Strategy.mark index ++ Delimited.text "|" (st.parts rt n) := by
    intro n k hk
    rw [Strategy.key] at hk
    split at hk
    · cases hk
    · exact (Option.some.inj hk).symm
  rw [htext hk₁, htext hk₂]
  constructor
  · intro h
    refine Delimited.text_inj ?_ (parts_clean hstr h₁ hc₁) (parts_clean hstr h₂ hc₂)
      (Delimited.append_left_inj h)
    rw [parts_of_named hstr h₁, parts_of_named hstr h₂, List.map_append, List.map_append, List.map_map,
      List.map_map]
    cases st.lead <;> rfl
  · intro h
    rw [h]

theorem keyedAsNamed_iff (hstr : ∀ v, rt.strOf v = "" → v = .str "") :
    policy.KeyedAsNamed rt normalized index ↔ policy.Faithful rt normalized index := by
  have hkeys : (∃ key, policy.HasKey rt normalized index key) ↔ policy.AllLegible rt normalized ∧
      ∃ st, policy.strategy? index = some st ∧ ∃ key, st.key rt normalized index = some key := by
    simp only [hasKey_iff]
    constructor
    · rintro ⟨key, hall, st, hst, hkey⟩
      exact ⟨hall, st, hst, key, hkey⟩
    · rintro ⟨hall, st, hst, key, hkey⟩
      exact ⟨key, hall, st, hst, hkey⟩
  rw [CompiledPolicy.KeyedAsNamed, CompiledPolicy.Faithful, hkeys]
  by_cases hall : policy.AllLegible rt normalized
  · cases hst : policy.strategy? index with
    | none => simp [hall]
    | some st => simpa [hall] using key_named_iff hstr
  · simp [hall]

/-- The keys of a strategy mean what it says for two maps if and only if it slips on neither. -/
theorem blocking_keys_mean_iff (rt : Runtime) (hstr : ∀ v, rt.strOf v = "" → v = .str "")
    (policy : CompiledPolicy) (index : Nat) (n₁ n₂ : Dict) :
    (policy.KeyedAsNamed rt n₁ index ∧ policy.KeyedAsNamed rt n₂ index ∧
      policy.TellsApart rt index n₁ n₂) ↔
    policy.Faithful rt n₁ index ∧ policy.Faithful rt n₂ index := by
  rw [keyedAsNamed_iff hstr, keyedAsNamed_iff hstr]
  constructor
  · rintro ⟨h₁, h₂, -⟩
    exact ⟨h₁, h₂⟩
  · rintro ⟨h₁, h₂⟩
    refine ⟨h₁, h₂, ?_⟩
    -- a strategy that does not slip and has a key names filled fields only
    have hnamed : ∀ {n : Dict} {k : String} {st : Strategy}, policy.Faithful rt n index →
        policy.strategy? index = some st → policy.HasKey rt n index k →
        st.Named n ∧ st.key rt n index = some k := by
      intro n k st hfaithful hst hkey
      obtain ⟨hall, st', hst', hown⟩ := hasKey_iff.mp hkey
      cases hst.symm.trans hst'
      rcases hfaithful with ⟨-, hslips⟩ | ⟨hnot, -⟩
      · exact ⟨((key_named_iff hstr).mpr (hslips st hst)).mp ⟨k, hown⟩, hown⟩
      · exact absurd hall hnot
    intro st hst hc₁ hc₂ k₁ k₂ hk₁ hk₂
    obtain ⟨hnamed₁, hown₁⟩ := hnamed h₁ hst hk₁
    obtain ⟨hnamed₂, hown₂⟩ := hnamed h₂ hst hk₂
    exact key_inj hstr hnamed₁ hnamed₂ hc₁ hc₂ hown₁ hown₂

end

namespace Supplier

theorem plain_strOf_empty (v : Json) (h : Runtime.plain.strOf v = "") : v = .str "" := by
  have hlist := congrArg String.toList h
  cases v with
  | str s => exact congrArg Json.str h
  | bool b => cases b <;> simp [Runtime.plain, Json.render] at hlist
  | int i =>
    cases i with
    | ofNat m => exact absurd h Nat.repr_ne_empty
    | negSucc m => simp [Runtime.plain, Json.render, Int.repr] at hlist
  | null | arr _ | obj _ | float _ => simp [Runtime.plain, Json.render] at hlist

/-- A city and the first three characters of a name make a candidate. -/
def byInitials : Dict := rematched "blocking" (.arr [.obj [("fields", .arr [.str "city"]),
  ("prefix", .obj [("field", .str "name"), ("length", .int 3)])]])

def initials : Strategy := ⟨[.str "city"], some (.str "name", some 3)⟩

theorem byInitials_compiles : ∃ policy, compilePolicy .plain (.obj byInitials) = .ok policy ∧
    policy.strategy? 0 = some initials ∧
    ∀ strategy ∈ policy.strategies, readStrategy strategy = some initials := by
  have hrun : (match compilePolicy .plain (.obj byInitials) with
      | .ok policy => decide (policy.strategies = [[("fields", .arr [.str "city"]),
          ("prefix", .obj [("field", .str "name"), ("length", .int 3)])]])
      | .error _ => false) = true := by decide +kernel
  cases hpolicy : compilePolicy .plain (.obj byInitials) with
  | error e => simp [hpolicy] at hrun
  | ok policy =>
    simp only [hpolicy, decide_eq_true_eq] at hrun
    refine ⟨policy, rfl, ?_, ?_⟩
    · rw [CompiledPolicy.strategy?, hrun]
      rfl
    · rw [hrun]
      rintro strategy (_ | ⟨_, ⟨⟩⟩)
      rfl

/-- Names of one city with the same first characters have one key. -/
theorem blocking_keys_mean_initials : ∃ policy, compilePolicy .plain (.obj byInitials) = .ok policy ∧
    policy.KeyedAsNamed .plain [("city", .str "X"), ("name", .str "acme")] 0 ∧
    policy.KeyedAsNamed .plain [("city", .str "X"), ("name", .str "acmon")] 0 ∧
    policy.TellsApart .plain 0 [("city", .str "X"), ("name", .str "acme")]
      [("city", .str "X"), ("name", .str "acmon")] := by
  obtain ⟨policy, hpolicy, hfirst, hall⟩ := byInitials_compiles
  have hfaithful : ∀ name ≠ "", policy.Faithful .plain [("city", .str "X"), ("name", .str name)] 0 := by
    intro name hname
    refine .inl ⟨fun strategy hstrategy => ⟨initials, hall strategy hstrategy, ?_⟩, ?_⟩
    · refine ⟨rfl, ?_⟩
      rintro p ⟨⟩
      exact ⟨rfl, fun _ => rfl⟩
    · intro st hst
      cases hfirst.symm.trans hst
      rintro ⟨p, ⟨⟩, -, hnot⟩
      refine hnot ⟨?_, ?_⟩
      · rintro field (_ | ⟨_, ⟨⟩⟩)
        rfl
      · change (!decide (name = "")) = true
        simp [hname]
  exact ⟨policy, hpolicy, (blocking_keys_mean_iff .plain plain_strOf_empty policy 0 _ _).mpr
    ⟨hfaithful "acme" (by decide), hfaithful "acmon" (by decide)⟩⟩

/-- A first name without a city makes a key. -/
theorem initials_without_city : ∃ policy, compilePolicy .plain (.obj byInitials) = .ok policy ∧
    ¬policy.KeyedAsNamed .plain [("name", .str "acme")] 0 := by
  obtain ⟨policy, hpolicy, hfirst, hall⟩ := byInitials_compiles
  refine ⟨policy, hpolicy, ?_⟩
  rw [keyedAsNamed_iff plain_strOf_empty]
  rintro (⟨-, hslips⟩ | ⟨hnot, -⟩)
  · refine hslips initials hfirst ⟨_, rfl, by decide, fun h => ?_⟩
    exact absurd (h.1 (.str "city") List.mem_cons_self) (by decide)
  · refine hnot fun strategy hstrategy => ⟨initials, hall strategy hstrategy, rfl, ?_⟩
    rintro p ⟨⟩
    exact ⟨rfl, fun _ => rfl⟩

end Supplier

end Recordlane
