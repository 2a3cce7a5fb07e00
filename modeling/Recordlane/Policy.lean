import Recordlane.Runtime

/-! The compiled domain policy at run time: normalization, validation, blocking, comparison. -/
namespace Recordlane

/-- `CompiledPolicy`: the canonical document with its version and checksum. -/
structure CompiledPolicy where
  document : Dict
  version : String
  checksum : String

structure QualityError where
  attributeKey : String
  code : String
  message : String

inductive MatchDecision
  | noLink | review | autoLink | keepSeparate
  deriving DecidableEq

structure Contradiction where
  field : Json
  identifierNamespace : Json
  left : Json
  right : Json

/-- `MatchEvidence`. -/
structure MatchEvidence where
  score : Extended ℚ
  decision : MatchDecision
  evidence : List Json
  contradictions : List Contradiction
  scoreKind : String
  policyVersion : String

variable (rt : Runtime)

/-- `re.sub(r"\s+", " ", text)`; the flag says that a run of spaces has been written already. -/
def collapseSpace (inRun : Bool) : List Char → List Char
  | [] => []
  | c :: cs =>
    if rt.isSpace c then
      if inRun then collapseSpace true cs else ' ' :: collapseSpace true cs
    else c :: collapseSpace false cs

/-- `text.strip()`. -/
def strip (cs : List Char) : List Char :=
  ((cs.dropWhile rt.isSpace).reverse.dropWhile rt.isSpace).reverse

/-- `_text`. -/
def textForm (value : String) (mode : Json) : Py String :=
  let cleaned := String.ofList (collapseSpace rt false (strip rt (rt.nfkc value).toList))
  match mode with
  | .str "preserve" => .ok cleaned
  | .str "uppercase_trim" => .ok (rt.upper cleaned)
  | .str "unicode_casefold" => .ok (rt.casefold cleaned)
  | mode => .error (.policy ("unsupported normalizer: " ++ rt.strOf mode))

namespace CompiledPolicy

variable (policy : CompiledPolicy)

/-- The maps of a list of maps; the compiler stores nothing else under these keys. -/
def maps : Json → List Dict
  | .arr xs => xs.filterMap fun
    | .obj kvs => some kvs
    | _ => none
  | _ => []

def attributes : List Dict := maps (policy.document.get "attributes")

def identifiers : List Dict := maps (policy.document.get "identifiers")

def part (key : String) : Dict :=
  match policy.document.get key with
  | .obj kvs => kvs
  | _ => []

def matching : Dict := policy.part "matching"

def survivorship : Dict := policy.part "survivorship"

/-- `{item["key"]: item for item in attributes}.get(key)`: the last item of a key counts. -/
def attribute? (key : String) : Option Dict :=
  policy.attributes.reverse.find? fun item => (item.get "key").pyEq (.str key)

/-- `str(Decimal(text).normalize())`, the value itself where that is an `InvalidOperation`. -/
def decimalForm (value : Json) : Py Json :=
  match rt.decimal (rt.strOf value) with
  | .finite d =>
    match d.normalize .standard with
    | some n => .ok (.str n.text)
    | none => .error (.python "Overflow")
  | .special text => .ok (.str text)
  | .invalid => .ok value

/-- The normal form of one value of a declared attribute. -/
def normalizeValue (item : Dict) (value : Json) : Py Json := do
  let kind := (item.get? "type").getD (.str "string")
  match kind, value with
  | .str "decimal", value => decimalForm rt value
  | kind, .str text =>
    let fallback := if kind.pyEq (.str "string") || kind.pyEq (.str "reference")
      then "unicode_casefold" else "preserve"
    return .str (← textForm rt text ((item.get? "normalizer").getD (.str fallback)))
  | _, .arr items =>
    let mode := (item.get? "normalizer").getD (.str "unicode_casefold")
    return .arr (← items.mapM fun
      | .str text => do return .str (← textForm rt text mode)
      | entry => pure entry)
  | _, value => return value

/-- `CompiledPolicy.normalize`. -/
def normalize (values : Dict) : Py Dict :=
  values.mapM fun (key, value) =>
    match value, policy.attribute? key with
    | .null, _ | _, none => pure (key, value)
    | value, some item => do return (key, ← normalizeValue rt item value)

/-- The Python type a value of an attribute kind must have. -/
def hasKind : Json → Json → Bool
  | .str "string", v | .str "reference", v | .str "identifier", v | .str "enum", v => v.isStr
  | .str "integer", .int _ | .str "integer", .bool _ => true
  | .str "integer", _ => false
  | .str "boolean", .bool _ => true
  | .str "boolean", _ => false
  | _, _ => true

/-- `key.replace("_", " ")`. -/
def spaced (key : String) : String :=
  String.ofList (key.toList.map fun c => if c = '_' then ' ' else c)

/-- `len(pattern) > 256`. -/
def patternTooLong : Json → Py Bool
  | .str s => .ok (256 < s.length)
  | .arr xs => .ok (256 < xs.length)
  | .obj kvs => .ok (256 < kvs.length)
  | _ => .error (.python "TypeError")

/-- `isinstance(value, str) and re.fullmatch(pattern, value)`. -/
def patternHolds : Json → Json → Py Bool
  | .str p, .str text =>
    match rt.fullmatch p text with
    | some b => .ok b
    | none => .error (.python "error")
  | _, .str _ => .error (.python "TypeError")
  | _, _ => .ok false

/-- The errors one attribute reports. -/
def validateAttribute (values : Dict) (item : Dict) : Py (List QualityError) := do
  let .str key := item.get "key" | throw (.python "AttributeError")
  let value := values.get key
  let name := match item.get? "name" with
    | some n => rt.strOf n
    | none => spaced key
  if (item.get "required").truthy &&
      (!values.contains key || value.pyEq .null || value.pyEq (.str "")) then
    return [⟨key, "required", name ++ " is required"⟩]
  let present := !value.pyEq .null
  let allowed := item.get "allowed_values"
  let outside ← if present && !allowed.pyEq .null then
    (fun b => !b) <$> value.isIn allowed else pure false
  let pattern := item.get "pattern"
  let tooLong ← if pattern.truthy then patternTooLong pattern else pure false
  if tooLong then
    throw (.policy ("pattern for " ++ key ++ " exceeds 256 characters"))
  let mismatch ← if present && pattern.truthy then
    (fun b => !b) <$> patternHolds rt pattern value else pure false
  let kind := (item.get? "type").getD (.str "string")
  return (if outside then [⟨key, "allowed_values", name ++ " is not an allowed value"⟩] else []) ++
    (if mismatch then [⟨key, "pattern", name ++ " has an invalid format"⟩] else []) ++
    (if present && !hasKind kind value then
      [⟨key, "type", name ++ " must be " ++ rt.strOf kind⟩] else [])

/-- `CompiledPolicy.validate`. -/
def validate (values : Dict) : Py (List QualityError) := do
  return (← policy.attributes.mapM (validateAttribute rt values)).flatten

/-- The field parts of a candidate key; `none` from the first blank field on. -/
def fieldParts (normalized : Dict) : List Json → Py (Option (List String))
  | [] => .ok (some [])
  | field :: fields => do
    let value ← Json.lookup normalized field
    if value.blank then return none
    let rest ← fieldParts normalized fields
    return rest.map fun parts => (rt.strOf field ++ "=" ++ rt.strOf value) :: parts

/-- The parts with the leading characters of the strategy's prefix field. -/
def prefixParts (normalized : Dict) (parts : List String) (rule : Json) : Py (List String) := do
  if !rule.truthy then return parts
  let rule ← rule.asDict
  let some field := rule.get? "field" | throw (.python "KeyError")
  let found ← Json.lookup normalized field
  let value := match field with
    | .str f => if normalized.contains f then rt.strOf found else ""
    | _ => ""
  if value = "" then return []
  let some length := rule.get? "length" | throw (.python "KeyError")
  let n ← match length with
    | .int i => pure i
    | .bool b => pure (if b then 1 else 0)
    | _ => throw (.python "TypeError")
  return parts ++ [rt.strOf field ++ "^=" ++ takeChars n.toNat value]

/-- `CompiledPolicy.blocking_keys`: one key for each strategy that finds its fields. -/
def blockingKeys (normalized : Dict) : Py (List String) := do
  let strategies := maps (policy.matching.get "blocking")
  let keys ← strategies.zipIdx.mapM fun (strategy, index) => do
    let fields ← ((strategy.get? "fields").getD (.arr [])).iter
    let parts ← fieldParts rt normalized fields
    let parts ← prefixParts rt normalized (parts.getD []) (strategy.get "prefix")
    return if parts = [] then none
      else some ("p" ++ toString index ++ "|" ++ "|".intercalate parts)
  return keys.filterMap id

/-- The contradiction two records have on one identifier, if it is a hard conflict. -/
def contradictionOn (left right : Dict) (identifier : Dict) : Py (Option Contradiction) := do
  let field := identifier.get "field"
  let a ← Json.lookup left field
  let b ← Json.lookup right field
  if !a.blank && !b.blank && !a.pyEq b && (identifier.get "hard_conflict").truthy then
    return some ⟨field, identifier.get "namespace", a, b⟩
  else return none

def contradictions (left right : Dict) : Py (List Contradiction) := do
  return (← policy.identifiers.mapM (contradictionOn left right)).filterMap id

/-- The component of one comparison rule and its weight. -/
def ruleScore (left right rule : Dict) : Py (Extended ℚ × Extended ℚ) := do
  let some field := rule.get? "field" | throw (.python "KeyError")
  let a ← Json.lookup left field
  let b ← Json.lookup right field
  let component ← if a.blank || b.blank then
      Json.toFloat rt ((rule.get? "missing_score").getD (.float 0))
    else match rule.get "comparator" with
      | .str "exact" => pure (.finite (if a.pyEq b then 1 else 0))
      | .str "sequence_ratio" => pure (.finite (rt.sequenceRatio (rt.strOf a) (rt.strOf b)))
      | c => throw (.policy ("unsupported comparator: " ++ rt.strOf c))
  let weight ← Json.toFloat rt (rule.get "weight")
  return (component, weight)

/-- One comparison rule: its component, its weight and what it adds to the evidence. -/
def compareRule (left right : Dict) (algorithm : Json) (rule : Dict) :
    Py (Extended ℚ × Extended ℚ × Extended ℚ × Json) := do
  let (component, weight) ← ruleScore rt left right rule
  let item : Dict := [("field", rule.get "field"), ("comparator", rule.get "comparator"),
    ("score", floatJson (roundFloat component 4)), ("weight", floatJson weight)]
  if algorithm.pyEq (.str "fellegi_sunter") then
    let m ← (rule.get "m_probability").arith
    let u ← (rule.get "u_probability").arith
    let agreement := rt.log (m / u)
    let disagreement := rt.log ((1 - m) / (1 - u))
    let contribution := .finite disagreement + component * .finite (agreement - disagreement)
    return (component, weight, contribution,
      .obj (item.set "log_likelihood_ratio" (floatJson (roundFloat contribution 4))))
  else return (component, weight, 0, .obj item)

/-- The score of the compared rules, with its kind. -/
def scoreOf (algorithm : Json) (rows : List (Extended ℚ × Extended ℚ × Extended ℚ × Json)) :
    Py (Extended ℚ × String) := do
  if algorithm.pyEq (.str "fellegi_sunter") then
    let prior ← (policy.matching.get "prior_match_probability").arith
    let odds := .finite (rt.log (prior / (1 - prior))) + (rows.map fun r => r.2.2.1).sum
    let some inverse := Extended.expOf rt.exp (-odds) | throw (.python "OverflowError")
    return (roundFloat (1 / (1 + inverse)) 6, "estimated_match_probability")
  else
    let total := (rows.map fun r => r.2.1).sum
    let score := (rows.map fun r => r.1 * r.2.1).sum
    return (if total = 0 then 0 else roundFloat (score / total) 4, "weighted_similarity")

/-- `CompiledPolicy.compare` as `matching.compare` returns it. -/
def compare (left right : Dict) : Py MatchEvidence := do
  let contradictions ← policy.contradictions left right
  let algorithm := (policy.matching.get? "algorithm").getD (.str "weighted_score")
  let rows ← (maps (policy.matching.get "comparisons")).mapM (compareRule rt left right algorithm)
  let (score, scoreKind) ← policy.scoreOf rt algorithm rows
  let thresholds ← (policy.matching.get "thresholds").asDict
  let autoLink ← (thresholds.get "auto_link").arith
  let review ← (thresholds.get "review").arith
  let decision := if !contradictions.isEmpty then .keepSeparate
    else if .finite autoLink ≤ score then .autoLink
    else if .finite review ≤ score then .review else .noLink
  return ⟨score, decision, rows.map fun r => r.2.2.2, contradictions, scoreKind,
    "policy:" ++ policy.version ++ ":" ++ takeChars 12 policy.checksum⟩

end CompiledPolicy

end Recordlane
