import Recordlane.Pagination
import Recordlane.Mastering.Bundles

/-! The assistant: the evidence of a request, the local provider, and the draft it leaves. -/
namespace Recordlane

inductive Purpose
  | explainQuality | summarizeMatch | proposeMapping | draftRule
  deriving DecidableEq

def Purpose.name : Purpose → String
  | explainQuality => "explain_quality"
  | summarizeMatch => "summarize_match"
  | proposeMapping => "propose_mapping"
  | draftRule => "draft_rule"

structure AssistantRequest where
  purpose : Purpose
  domain : String
  objective : String
  evidenceRefs : List String
  objective_bounds : 3 ≤ objective.length ∧ objective.length ≤ 2000
  evidenceRefs_bound : evidenceRefs.length ≤ 20

/-- `refs`: a draft of rules always has the definition of the domain in evidence. -/
def AssistantRequest.references (payload : AssistantRequest) : List String :=
  let own := "domain:" ++ payload.domain
  let refs := if payload.evidenceRefs.isEmpty then [own] else payload.evidenceRefs
  if payload.purpose = .draftRule && !refs.contains own then own :: refs else refs

/-! What a principal is shown of a definition. -/

/-- `v in readable`: lists and maps have no hash. -/
def inReadable (readable : List String) : Json → Py Bool
  | .str key => .ok (readable.contains key)
  | .arr _ | .obj _ => .error (.python "TypeError")
  | _ => .ok false

/-- The rows with a readable field under a key. -/
def readableRows (readable : List String) (key : String) (rows : Json) : Py Json := do
  let rows ← (← rows.iter).mapM fun row => do
    let row ← row.asDict
    return if ← inReadable readable (Dict.get row key) then some (Json.obj row) else none
  return .arr (rows.filterMap id)

def readableOnes (readable : List String) (fields : Json) : Py (List Json) := do
  let fields ← (← fields.iter).mapM fun field => do
    return if ← inReadable readable field then some field else none
  return fields.filterMap id

/-- A blocking strategy with its readable fields, unless nothing is left of it. -/
def readableStrategy (readable : List String) (strategy : Json) : Py (Option Json) := do
  let filtered ← strategy.toDict
  let strategy ← strategy.asDict
  let fields ← readableOnes readable ((strategy.get? "fields").getD (.arr []))
  let filtered := filtered.set "fields" (.arr fields)
  let rule ← ((strategy.get? "prefix").getD (.obj [])).asDict
  let filtered := if ← inReadable readable (Dict.get rule "field") then filtered else filtered.erase "prefix"
  return if !fields.isEmpty || (filtered.get "prefix").truthy then some (.obj filtered) else none

def readableMatching (readable : List String) (matching : Dict) : Py Dict := do
  let comparisons ← readableRows readable "field" ((matching.get? "comparisons").getD (.arr []))
  let conflicts ← readableOnes readable ((matching.get? "hard_conflicts").getD (.arr []))
  let strategies ← ((matching.get? "blocking").getD (.arr [])).iter
  let blocking ← strategies.mapM (readableStrategy readable)
  return ((matching.set "comparisons" comparisons).set "hard_conflicts" (.arr conflicts)).set
    "blocking" (.arr (blocking.filterMap id))

/-- The definition of a domain without what the principal may not read. -/
def readablePolicy (readable : List String) (definition : Json) : Py Dict := do
  let policy ← definition.asDict
  let attributes ← readableRows readable "key" ((policy.get? "attributes").getD (.arr []))
  let identifiers ← readableRows readable "field" ((policy.get? "identifiers").getD (.arr []))
  let matching ← ((policy.get? "matching").getD (.obj [])).asDict
  let matching ← readableMatching readable matching
  let validation ← readableRows readable "attribute" ((policy.get? "validation").getD (.arr []))
  let survivorship ← ((policy.get? "survivorship").getD (.obj [])).asDict
  return ((((policy.set "attributes" attributes).set "identifiers" identifiers).set
    "matching" (.obj matching)).set "validation" validation).set "survivorship"
      (.obj (survivorship.filter fun p => p.1 = "default" || readable.contains p.1))

/-- `reference.partition(":")`. -/
def partitionReference (reference : String) : String × Bool × String :=
  let (kind, rest) := reference.toList.span (· ≠ ':')
  (String.ofList kind, !rest.isEmpty, String.ofList rest.tail)

namespace MasteringService

variable (self : MasteringService) (s : Store)

def qualityEvidence (reference domainKey : String) (readable : List String) : Json :=
  let records := self.rt.scan s.drawn (s.records.filter fun r =>
    r.workspaceId = self.wid && r.domainKey = domainKey)
  let errors := (records.flatMap SourceRecord.qualityErrors).filter fun e =>
    readable.contains e.attributeKey
  let invalid := (records.filter fun r => r.state = .quarantine).map SourceRecord.id
  .obj [("reference", .str reference), ("measured_records", .int records.length),
    ("invalid_records", .int invalid.dedup.length),
    ("errors", .arr ((errors.take 100).map QualityError.json))]

def entityEvidence (reference domainKey : String) (readable : List String) (entityId : Id) : Py Json :=
  match s.entities.find? fun e => e.id = entityId && e.workspaceId = self.wid &&
      e.domainKey = domainKey with
  | none => httpError 404 "assistant_evidence_not_found" []
  | some entity =>
    let master := newestMaster (s.masters.filter fun m => m.entityId = entity.id)
    .ok (.obj [("reference", .str reference),
      ("entity", .obj [("id", .str entity.id), ("version", .int entity.version),
        ("status", .str (statusName entity.status))]),
      ("master", masterView master readable)])

/-- The status of a source is a column that the rows here leave out. -/
def sourceEvidence (sourceStatus : Source → String) (reference domainKey : String)
    (readable : List String) (key : String) : Py Json :=
  match self.source? s key with
  | none => httpError 404 "assistant_evidence_not_found" []
  | some source =>
    let records := s.records.filter fun r => r.sourceId = source.id && r.domainKey = domainKey
    let fields := sortedSet ((records.flatMap fun r => r.original.keys).filter readable.contains)
    .ok (.obj [("reference", .str reference),
      ("source", .obj [("key", .str source.key), ("kind", .str source.kind),
        ("status", .str (sourceStatus source))]),
      ("available_fields", .arr (fields.map .str))])

/-- What one reference adds to the evidence. -/
def evidenceOf (sourceStatus : Source → String) (domain : Domain) (readable : List String)
    (reference : String) : Py Json :=
  let (kind, separator, identifier) := partitionReference reference
  if !separator || identifier = "" then httpError 422 "invalid_evidence_reference" []
  else if kind = "domain" && identifier = domain.key then do
    let policy ← readablePolicy readable domain.definition
    return .obj [("reference", .str reference), ("policy", .obj policy)]
  else if kind = "quality" && identifier = domain.key then
    .ok (self.qualityEvidence s reference domain.key readable)
  else if kind = "entity" then self.entityEvidence s reference domain.key readable identifier
  else if kind = "review" then self.reviewEvidence s identifier
  else if kind = "source" then
    self.sourceEvidence s sourceStatus reference domain.key readable identifier
  else httpError 422 "unsupported_evidence_reference" []

/-- `_assistant_evidence` on any references. -/
def evidenceFor (sourceStatus : Source → String) (payload : AssistantRequest) : Py (List Json) :=
  match self.domain? s payload.domain with
  | none => httpError 404 "domain_not_found" []
  | some domain =>
    payload.references.mapM
      (self.evidenceOf s sourceStatus domain (self.readableFields s domain.key))

end MasteringService

/-! The local provider. -/

/-- `key.lower()` as far as the words of `SENSITIVE_KEYS` can tell: the Kelvin sign is the one further
letter that becomes one of theirs. -/
def lowerChar (c : Char) : Char := if c = Char.ofNat 0x212A then 'k' else c.toLower

def sensitiveKeys : List String :=
  ["authorization", "password", "secret", "secret_ref", "token", "api_key", "client_secret"]

def sensitive (key : String) : Bool :=
  let lowered := key.toList.map lowerChar
  sensitiveKeys.any (fun word => word.toList = lowered) ||
    ["password", "secret", "token"].any fun marker => Json.isInfix marker.toList lowered

mutual

/-- `redact`. -/
def redact : Json → Json
  | .obj kvs => .obj (redactEntries kvs)
  | .arr xs => .arr (redactItems xs)
  | v => v

def redactItems : List Json → List Json
  | [] => []
  | x :: xs => redact x :: redactItems xs

def redactEntries : List (String × Json) → List (String × Json)
  | [] => []
  | (key, item) :: kvs =>
    if sensitive key then redactEntries kvs else (key, redact item) :: redactEntries kvs

end

structure ProviderRequest where
  purpose : Purpose
  domain : String
  objective : String
  evidence : List Json

structure AssistantOutput where
  summary : String
  recommendations : List String
  draft : Option Json
  limitations : List String

/-- The policy of the first item of evidence that has one. -/
def firstPolicy (evidence : List Json) : Option Json :=
  evidence.findSome? fun
    | .obj item =>
      match Dict.get item "policy" with
      | .obj policy => some (.obj policy)
      | _ => none
    | _ => none

namespace LocalProvider

variable (rt : Runtime)

/-- The sum over the items of evidence that are maps. -/
def total (count : Dict → Py Int) (evidence : List Json) : Py Int := do
  let counts ← (CompiledPolicy.maps (.arr evidence)).mapM count
  return counts.sum

def availableFields (evidence : List Json) : Py (List String) := do
  let found ← (CompiledPolicy.maps (.arr evidence)).mapM fun item =>
    ((item.get? "available_fields").getD (.arr [])).iter
  return sortedSet (found.flatten.map rt.strOf)

/-- `LocalProvider.generate`. -/
def generate (request : ProviderRequest) : Py AssistantOutput :=
  let evidence := redactItems request.evidence
  match request.purpose with
  | .explainQuality => do
    let issueCount ← total (fun item =>
      Json.toInt rt ((item.get? "invalid_records").getD (.int 0))) evidence
    return {
      summary := "The supplied " ++ request.domain ++ " evidence reports " ++ toString issueCount ++
        " invalid record(s). This explanation is deterministic and uses only authorized evidence."
      recommendations :=
        ["Open the failing field distribution and inspect preserved source values.",
          "Repair the source mapping or record, then reprocess before approval."]
      draft := none
      limitations := ["No external model was called; causal claims require steward review."] }
  | .summarizeMatch => do
    let contradictions ← total (fun item =>
      lengthOf ((item.get? "contradictions").getD (.arr []))) evidence
    return {
      summary := "The authorized match evidence contains " ++ toString contradictions ++
        " hard contradiction(s); identifier conflicts must override similarity scores."
      recommendations := ["Review each weighted comparison and hard-identifier constraint."]
      draft := none
      limitations := ["This summary cannot decide or approve a match."] }
  | .proposeMapping => do
    let fields ← availableFields rt evidence
    return {
      summary := "Prepared a review-only mapping proposal for " ++ request.domain ++ "."
      recommendations := ["Confirm types and null semantics against a source preview."]
      draft := some (.obj [("domain", .str request.domain),
        ("field_mappings", .obj (fields.map fun key => (key, .str key)))])
      limitations := ["Mappings are not saved until an authorized operator validates them."] }
  | .draftRule =>
    match firstPolicy evidence with
    | none => .ok {
        summary := "A rule draft could not be formed from the authorized evidence."
        recommendations := []
        draft := none
        limitations := ["A current domain policy is required."] }
    | some policy => .ok {
        summary := "Prepared a validated, inactive rule draft for " ++ request.domain ++ "."
        recommendations := ["Run impact simulation before requesting independent approval."]
        draft := some (.obj [("domains", .obj [(request.domain, policy)])])
        limitations := ["The draft is not active and cannot self-approve."] }

end LocalProvider

/-- `GovernedAssistant.generate` with the local provider. -/
def GovernedAssistant.generate (rt : Runtime) (aiEnabled : Bool) (request : ProviderRequest) :
    Py AssistantOutput :=
  if !aiEnabled then .error (.python "PermissionError") else LocalProvider.generate rt request

/-- `assistant_draft` with the local provider; a failure of the provider is audited. -/
def requestDraft (rt : Runtime) (s : Store) (who : Principal) (aiEnabled : Bool)
    (sourceStatus : Source → String) (payload : AssistantRequest) :
    Py (Store × Py (AssistantOutput × Option Id)) := do
  let self ← authorized rt s who (if payload.purpose = .draftRule then "model:write" else "read")
  let evidence ← self.evidenceFor s sourceStatus payload
  match GovernedAssistant.generate rt aiEnabled
      ⟨payload.purpose, payload.domain, payload.objective, evidence⟩ with
  | .ok output =>
    let (s, configId) ← self.assistantDraft s payload.purpose.name output.draft
    return (s, .ok (output, configId))
  | .error (.python name) =>
    if name = "PermissionError" then httpError 409 "assistant_disabled" []
    else if ["RuntimeError", "ValueError", "OSError"].contains name then
      return (self.audit s "assistant.failed" "assistant_request" payload.purpose.name
        [("provider", .str "local"), ("error_type", .str name)],
        httpError 502 "assistant_provider_failed" [])
    else .error (.python name)
  | .error e => .error e

end Recordlane
