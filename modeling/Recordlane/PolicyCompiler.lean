import Recordlane.Policy

/-! `compile_policy`: a definition is checked and brought into its canonical form. -/
namespace Recordlane

variable (rt : Runtime)

def attributeTypes : List String :=
  ["string", "reference", "integer", "decimal", "boolean", "date", "datetime", "identifier", "enum"]

def normalizers : List String := ["preserve", "uppercase_trim", "unicode_casefold"]

def survivorshipStrategies : List String :=
  ["source_priority_then_observation_time", "verified_then_source_priority_then_observation_time"]

/-- The keys of `d` outside `allowed`, as error messages list them. -/
def unknownKeys (d : Dict) (allowed : List String) : List String :=
  sortedSet (d.keys.filter fun k => !allowed.contains k)

/-- A `PolicyError` naming the settings `d` has beyond `allowed`. -/
def rejectUnknown (d : Dict) (allowed : List String) (what : String) : Py Unit :=
  match unknownKeys d allowed with
  | [] => .ok ()
  | extra => .error (.policy (what ++ ": " ++ ", ".intercalate extra))

/-- `d.get(key, default)` spelled for error messages. -/
def nameOf (d : Dict) (keys : List String) : String :=
  match keys.filterMap d.get? with
  | v :: _ => rt.strOf v
  | [] => "?"

/-- Membership of a text in a fixed set. -/
def memberOf (v : Json) (names : List String) : Bool :=
  match v with
  | .str s => names.contains s
  | _ => false

/-- The `raw` settings and the version of a definition. -/
def rawDefinition (definition : Dict) : Py (Dict × String) := do
  if (definition.get "kind").pyEq (.str "DomainPack") then
    if !(definition.get "apiVersion").pyEq (.str "recordlane.io/v1alpha1") then
      throw (.policy "unsupported domain-pack apiVersion")
    let raw ← ((definition.get? "spec").getD (.obj [])).toDict
    let metadata ← ((definition.get? "metadata").getD (.obj [])).asDict
    return (raw, rt.strOf ((metadata.get? "version").getD (.str "unversioned")))
  else
    let version := (definition.get? "policy_version").getD
      ((definition.get? "schema_version").getD (.str "runtime-1"))
    return (definition, rt.strOf version)

def allowedRoot : List String :=
  ["entity", "mode", "attributes", "identifiers", "identifierNamespaces", "matching",
    "survivorship", "relationships", "validation", "policy_version", "schema_version"]

/-- `validation_by_field`: the allowed values each validation rule sets. -/
def validationByField (raw : Dict) : Py Dict := do
  let rules ← ((raw.get? "validation").getD (.arr [])).iter
  rules.foldlM (fun found rule => do
    let rule ← rule.asDict
    rejectUnknown rule ["attribute", "allowedValues"]
      ("unsupported validation settings for " ++ nameOf rt rule ["attribute"])
    match rule.get "attribute" with
    | .str field => return if field = "" then found else found.set field (rule.get "allowedValues")
    | .arr (_ :: _) | .obj (_ :: _) => throw (.python "TypeError")
    | _ => return found) []

/-- `read_roles` and `write_roles` must be lists of non-empty texts; they are sorted. -/
def compileRoles (item : Dict) (accessKey : String) : Py Dict :=
  match item.get? accessKey with
  | none => .ok item
  | some (.arr roles) =>
    let names := roles.filterMap fun
      | .str s => if s = "" then none else some s
      | _ => none
    if names.length = roles.length then
      .ok (item.set accessKey (.arr ((sortedSet names).map .str)))
    else .error (.policy (accessKey ++ " for " ++ nameOf rt item ["key"] ++ " must be roles"))
  | some _ => .error (.policy (accessKey ++ " for " ++ nameOf rt item ["key"] ++ " must be roles"))

def compileAttribute (validation : Dict) (item : Json) : Py Dict := do
  let item ← item.asDict
  rejectUnknown item ["key", "name", "type", "required", "allowed_values", "allowedValues",
    "pattern", "normalizer", "read_roles", "write_roles"]
    ("unsupported attribute settings for " ++ nameOf rt item ["key"])
  let item ← compileRoles rt item "read_roles"
  let item ← compileRoles rt item "write_roles"
  if !memberOf ((item.get? "type").getD (.str "string")) attributeTypes then
    throw (.policy ("unsupported attribute type for " ++ nameOf rt item ["key"]))
  if !memberOf ((item.get? "normalizer").getD (.str "preserve")) normalizers then
    throw (.policy ("unsupported normalizer for " ++ nameOf rt item ["key"]))
  let .str key := item.get "key" | throw (.python "AttributeError")
  let item := item.set "name"
    ((item.get? "name").getD (.str (rt.capitalize (CompiledPolicy.spaced key))))
  let item := match item.get? "allowedValues" with
    | some v => Dict.set (Dict.erase item "allowedValues") "allowed_values" v
    | none => item
  let inherited := validation.get key
  return if !inherited.pyEq .null && !item.contains "allowed_values"
    then item.set "allowed_values" inherited else item

/-- The identifiers as listed, or one for each of the older `identifierNamespaces`. -/
def rawIdentifiers (raw : Dict) : Py (List Json) :=
  match raw.get "identifiers" with
  | .null => do
    let fields ← ((raw.get? "identifierNamespaces").getD (.arr [])).iter
    return fields.map fun field => .obj [("field", field), ("namespace", field)]
  | listed => listed.iter

def compileIdentifier (raw : Dict) (item : Json) : Py Json := do
  let item ← item.asDict
  let field := (item.get? "field").getD (item.get "key")
  let matching ← ((raw.get? "matching").getD (.obj [])).asDict
  let listed ← field.isIn ((matching.get? "hard_conflicts").getD (.arr []))
  return .obj [("field", field), ("namespace", (item.get? "namespace").getD field),
    ("hard_conflict", .bool ((item.get? "hard_conflict").getD (.bool listed)).truthy)]

def compileIdentifiers (raw : Dict) : Py (List Json) := do
  let listed ← rawIdentifiers raw
  listed.forM fun item => do
    let item ← item.asDict
    rejectUnknown item ["field", "key", "namespace", "hard_conflict"]
      ("unsupported identifier settings for " ++ nameOf rt item ["field", "key"])
  listed.mapM (compileIdentifier raw)

/-- A blocking list of field names is one strategy, `name_prefix` its leading characters. -/
def blockingStrategies (blocking : Json) : Py Json :=
  if !blocking.truthy then .ok blocking
  else do
    let items ← blocking.iter
    if items.all Json.isStr then
      let fields := items.filter fun item => !item.pyEq (.str "name_prefix")
      let named ← (Json.str "name_prefix").isIn blocking
      return .arr [.obj ([("fields", .arr fields)] ++ if named
        then [("prefix", .obj [("field", .str "name"), ("length", .int 5)])] else [])]
    else return blocking

def checkStrategy (strategy : Json) : Py Unit := do
  match strategy with
  | .obj strategy =>
    if unknownKeys strategy ["fields", "prefix"] ≠ [] then
      throw (.policy "unsupported blocking strategy settings")
    let rule := Dict.get strategy "prefix"
    if rule.truthy then
      let keys ← rule.iter
      if !(keys.all fun k => memberOf k ["field", "length"]) ||
          !(["field", "length"].all fun k => keys.any fun j => j.pyEq (.str k)) then
        throw (.policy "blocking prefix requires only field and length")
      let rule ← rule.asDict
      let length ← Json.toInt rt (rule.get "length")
      if length < 1 || 64 < length then
        throw (.policy "blocking prefix length must be between 1 and 64")
  | _ => throw (.policy "unsupported blocking strategy settings")

def checkComparison (rule : Json) : Py Unit := do
  let rule ← rule.asDict
  if unknownKeys rule ["field", "comparator", "weight", "missing_score", "m_probability",
      "u_probability"] ≠ [] then
    throw (.policy ("unsupported comparison settings for " ++ nameOf rt rule ["field"]))
  if !memberOf (rule.get "comparator") ["exact", "sequence_ratio"] then
    throw (.policy ("unsupported comparator: " ++ rt.strOf (rule.get "comparator")))
  if (← Json.toFloat rt ((rule.get? "weight").getD (.int 0))) ≤ 0 then
    throw (.policy "comparison weight must be positive")

def checkProbabilities (rule : Json) : Py Unit := do
  let rule ← rule.asDict
  let m ← Json.toFloat rt ((rule.get? "m_probability").getD (.int 0))
  let u ← Json.toFloat rt ((rule.get? "u_probability").getD (.int 0))
  if !((0 : Extended ℚ) < u && u < m && m < 1) then
    throw (.policy "Fellegi-Sunter comparisons require 0 < u_probability < m_probability < 1")

/-- The thresholds of the matching section, under `thresholds` or as its own two keys. -/
def compileThresholds (matching : Dict) : Py Json := do
  let autoLink ← Json.toFloat rt ((matching.get? "auto_link").getD (.float (101 / 100)))
  let review ← Json.toFloat rt ((matching.get? "review").getD (.float (101 / 100)))
  let given ← ((matching.get? "thresholds").getD
    (.obj [("auto_link", floatJson autoLink), ("review", floatJson review)])).asDict
  let some review := given.get? "review" | throw (.python "KeyError")
  let review ← Json.toFloat rt review
  let some autoLink := given.get? "auto_link" | throw (.python "KeyError")
  let autoLink ← Json.toFloat rt autoLink
  if !((0 : Extended ℚ) ≤ review && review ≤ autoLink && autoLink ≤ .finite (101 / 100)) then
    throw (.policy "matching thresholds must satisfy 0 <= review <= auto_link <= 1.01")
  return .obj [("review", floatJson review), ("auto_link", floatJson autoLink)]

def compileMatching (raw : Dict) : Py Json := do
  let matching ← ((raw.get? "matching").getD (.obj [])).toDict
  rejectUnknown matching ["blocking", "comparisons", "thresholds", "auto_link", "review",
    "hard_conflicts", "algorithm", "prior_match_probability"] "unsupported matching settings"
  let blocking ← blockingStrategies ((matching.get? "blocking").getD (.arr []))
  (← blocking.iter).forM (checkStrategy rt)
  let comparisons := (matching.get? "comparisons").getD (.arr [])
  let rules ← comparisons.iter
  rules.forM (checkComparison rt)
  let algorithm := (matching.get? "algorithm").getD (.str "weighted_score")
  if !memberOf algorithm ["weighted_score", "fellegi_sunter"] then
    throw (.policy "unsupported matching algorithm")
  let prior ← Json.toFloat rt ((matching.get? "prior_match_probability").getD (.float (1 / 100)))
  if algorithm.pyEq (.str "fellegi_sunter") then
    if !((0 : Extended ℚ) < prior && prior < 1) then
      throw (.policy "Fellegi-Sunter prior_match_probability must be between zero and one")
    rules.forM (checkProbabilities rt)
  let thresholds ← compileThresholds rt matching
  return .obj [("algorithm", algorithm), ("prior_match_probability", floatJson prior),
    ("blocking", blocking), ("comparisons", comparisons), ("thresholds", thresholds)]

def checkSurvivorshipRule (field : String) (rule : Json) : Py Unit := do
  let strategy ← match rule with
    | .str s => pure (.str s)
    | .obj rule =>
      if unknownKeys rule ["strategy", "source_precedence"] ≠ [] then
        throw (.policy ("unsupported survivorship settings for " ++ field))
      else pure (Dict.get rule "strategy")
    | _ => throw (.policy ("unsupported survivorship settings for " ++ field))
  if !memberOf strategy survivorshipStrategies then
    throw (.policy ("unsupported survivorship strategy for " ++ field ++ ": " ++
      rt.strOf strategy))

def compileSurvivorship (raw : Dict) (attributes : List Dict) : Py Dict := do
  let survivorship ← ((raw.get? "survivorship").getD (.obj [("default",
    .str "verified_then_source_priority_then_observation_time")])).asDict
  let keys := attributes.map fun item => item.get "key"
  if survivorship.any fun p => p.1 ≠ "default" && !keys.any fun k => k.pyEq (.str p.1) then
    throw (.policy "survivorship contains an unknown attribute")
  survivorship.forM fun (field, rule) => checkSurvivorshipRule rt field rule
  return survivorship

/-- `compile_policy`. -/
def compilePolicy (definition : Json) : Py CompiledPolicy := do
  let (raw, version) ← rawDefinition rt (← definition.asDict)
  rejectUnknown raw allowedRoot "unsupported policy settings"
  let validation ← validationByField rt raw
  let items ← ((raw.get? "attributes").getD (.arr [])).iter
  let attributes ← items.mapM (compileAttribute rt validation)
  let identifiers ← compileIdentifiers rt raw
  let matching ← compileMatching rt raw
  let survivorship ← compileSurvivorship rt raw attributes
  let document : Dict := [
    ("entity", (raw.get? "entity").getD (.str "Entity")),
    ("mode", (raw.get? "mode").getD (.str "coexistence")),
    ("attributes", .arr (attributes.map .obj)),
    ("identifiers", .arr identifiers),
    ("relationships", (raw.get? "relationships").getD (.arr [])),
    ("matching", matching),
    ("survivorship", .obj survivorship)]
  return ⟨document, version, canonicalHash rt (.obj document)⟩

/-- `CompiledPolicy.canonical_document`. -/
def CompiledPolicy.canonicalDocument (policy : CompiledPolicy) : Json :=
  (Json.obj policy.document).sortKeys

end Recordlane
