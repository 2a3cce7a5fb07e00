import Recordlane.Mastering.Survivorship

/-! Domains, sources and configurations: creation, simulation and proposal. -/
namespace Recordlane

namespace MatchDecision

def name : MatchDecision → String
  | noLink => "no_link"
  | review => "review"
  | autoLink => "auto_link"
  | keepSeparate => "keep_separate"

end MatchDecision

/-- The result `CompiledPolicy.compare` returns, as a document. -/
def MatchEvidence.json (e : MatchEvidence) : Json :=
  .obj [("score", floatJson e.score), ("score_kind", .str e.scoreKind),
    ("decision", .str e.decision.name), ("evidence", .arr e.evidence),
    ("contradictions", .arr (e.contradictions.map fun c => .obj [("field", c.field),
      ("namespace", c.identifierNamespace), ("left", c.left), ("right", c.right),
      ("rule", .str "hard_identifier_conflict")]))]

def QualityError.json (e : QualityError) : Json :=
  .obj [("attribute", .str e.attributeKey), ("code", .str e.code), ("message", .str e.message)]

def PolicySimulation.json (p : PolicySimulation) : Json :=
  .obj [("domain", .str p.domain), ("current_policy", .str p.currentPolicy),
    ("proposed_policy", .str p.proposedPolicy), ("dataset_size", .int p.datasetSize),
    ("link_changes", .arr (p.linkChanges.map fun c => .obj [
      ("left_source_object_id", .str c.leftSourceObjectId),
      ("right_source_object_id", .str c.rightSourceObjectId),
      ("current", c.current.json), ("proposed", c.proposed.json)])),
    ("master_changes", .arr (p.masterChanges.map fun c => .obj [("entity_id", .str c.entityId),
      ("attributes", .obj (c.attributes.map fun a => (a.1, .obj [("current", a.2.1),
        ("proposed", a.2.2.1), ("provenance", a.2.2.2)])))])),
    ("validation_changes", .arr (p.validationChanges.map fun c => .obj [
      ("source_object_id", .str c.sourceObjectId),
      ("current", .arr (c.current.map QualityError.json)),
      ("proposed", .arr (c.proposed.map QualityError.json))])),
    ("review_workload_delta", .int p.reviewWorkloadDelta)]

def SimulationResult.json (r : SimulationResult) : Json :=
  .obj [("candidate_links_changed", .int (r.details.map fun p => p.linkChanges.length).sum),
    ("mastered_attributes_changed", .int (r.details.flatMap fun p =>
      p.masterChanges.map fun c => c.attributes.length).sum),
    ("validation_failures_changed", .int (r.details.map fun p => p.validationChanges.length).sum),
    ("review_workload_delta", .int (r.details.map PolicySimulation.reviewWorkloadDelta).sum),
    ("affected_consumers", .int (r.details.flatMap fun p =>
      p.masterChanges.map MasterChange.entityId).dedup.length),
    ("snapshot_hash", .str r.snapshotHash), ("sample", .bool false),
    ("details", .arr (r.details.map PolicySimulation.json))]

mutual

/-- `_walk_values`: the keys and the scalars of a document. -/
def walkValues : Json → List Json
  | .obj kvs => walkEntries kvs
  | .arr xs => walkItems xs
  | v => [v]

def walkItems : List Json → List Json
  | [] => []
  | x :: xs => walkValues x ++ walkItems xs

def walkEntries : List (String × Json) → List Json
  | [] => []
  | (k, v) :: kvs => .str k :: (walkValues v ++ walkEntries kvs)

end

/-- Whether the text of a document mentions secrets: a word lies within one key or one text. -/
def mentionsSecrets (document : Json) : Bool :=
  (walkValues document).any fun
    | .str text => Json.isInfix "secrets".toList (text.toList.map Char.toLower)
    | _ => false

def isSecret : Json → Bool
  | .str text => text.startsWith "sk-" || text.startsWith "ghp_" || text.startsWith "Bearer "
  | _ => false

namespace MasteringService

variable (self : MasteringService) (s : Store)

/-- `create_domain`. -/
def createDomain (key name mode : String) (definition : Dict) : Py (Store × Domain) := do
  if (self.domain? s key).isSome then httpError 409 "domain_key_exists" []
  else
    let policy ← refusePolicy "invalid_domain_policy"
      (compilePolicy self.rt (.obj (definition.set "mode" (.str mode))))
    let domain : Domain := {
      id := self.fresh s
      workspaceId := self.wid
      key := key
      name := name
      mode := mode
      schemaVersion := 1
      definition := policy.canonicalDocument }
    let s := { s with domains := s.domains ++ [domain], drawn := s.drawn + 1 }
    return (self.audit s "domain.created" "domain" domain.id [("key", .str key)], domain)

/-- `create_source`. -/
def createSource (key name kind : String) (priority : Int) : Py (Store × Source) :=
  if (self.source? s key).isSome then httpError 409 "source_exists" []
  else
    let source : Source := {
      id := self.fresh s
      workspaceId := self.wid
      key := key
      name := name
      kind := kind
      priority := priority
      checkpoint := none
      lastIngestedAt := none }
    let s := { s with sources := s.sources ++ [source], drawn := s.drawn + 1 }
    .ok (self.audit s "source.created" "source" source.id
      [("key", .str key), ("kind", .str kind)], source)

/-- `replace_source`; the key of a source is unique in its workspace. -/
def replaceSource (sourceKey key name kind : String) (priority : Int) : Py (Store × Source) :=
  match self.source? s sourceKey with
  | none => httpError 404 "source_not_found" []
  | some source =>
    if key ≠ sourceKey && (self.source? s key).isSome then .error (.integrity "sources")
    else
      let s := { s with sources := Table.modify Source.id s.sources source.id fun x =>
        { x with key := key, name := name, kind := kind, priority := priority } }
      .ok (self.audit s "source.updated" "source" source.id
        [("key", .str key), ("kind", .str kind)], source)

/-- `create_relationship`. -/
def createRelationship (fromEntityId toEntityId kind : String) : Py Store :=
  let missing := [fromEntityId, toEntityId].find? fun entityId =>
    !s.entities.any fun e => e.id = entityId && e.workspaceId = self.wid
  match missing with
  | some entityId => httpError 404 "entity_not_found" [("entity_id", .str entityId)]
  | none =>
    if fromEntityId = toEntityId then httpError 422 "self_relationship_forbidden" []
    else
      let row : Relationship := {
        id := self.fresh s
        workspaceId := self.wid
        fromEntityId := fromEntityId
        toEntityId := toEntityId
        kind := kind }
      let s := { s with relationships := s.relationships ++ [row], drawn := s.drawn + 1 }
      .ok (self.audit s "relationship.created" "relationship" row.id [("type", .str kind)])

def domainExists (key : String) : Bool := (self.domain? s key).isSome

/-- The policies a `domains` mapping configures. -/
def mappedPolicies (domains : Dict) : Py (List (String × CompiledPolicy)) :=
  match sortedSet (domains.keys.filter fun key => !self.domainExists s key) with
  | [] => domains.mapM fun (key, value) => do return (key, ← compilePolicy self.rt value)
  | unknown => .error (.policy ("configuration domains do not exist: " ++ ", ".intercalate unknown))

/-- The preview shape of a configuration: thresholds and survivorship of the supplier domain. -/
def supplierPolicy (document : Dict) : Py (List (String × CompiledPolicy)) := do
  let matching ← ((document.get? "matching").getD (.obj [])).asDict
  match self.domain? s "supplier", matching.get "supplier" with
  | some supplier, .obj matching =>
    let candidate ← supplier.definition.asDict
    let matchingOf ← ((candidate.get? "matching").getD (.obj [])).asDict
    let thresholds ← ((matchingOf.get? "thresholds").getD (.obj [])).asDict
    let thresholds : Dict := match Dict.get? matching "review_threshold" with
      | some v => thresholds.set "review" v
      | none => thresholds
    let thresholds : Dict := match Dict.get? matching "auto_link_threshold" with
      | some v => thresholds.set "auto_link" v
      | none => thresholds
    let candidate := candidate.set "matching" (.obj (matchingOf.set "thresholds" (.obj thresholds)))
    let candidate ← match document.get "survivorship" with
      | .obj rules => do
        let own ← ((candidate.get? "survivorship").getD (.obj [])).asDict
        pure (candidate.set "survivorship" (.obj (own.update rules)))
      | _ => pure candidate
    return [("supplier", ← compilePolicy self.rt (.obj candidate))]
  | _, _ => throw (.policy "configuration must contain a DomainPack or a domains mapping")

/-- `_configuration_policies`: the domains a configuration sets, with their policies. -/
def configurationPolicies (document : Json) : Py (List (String × CompiledPolicy)) := do
  let document ← document.asDict
  if (document.get "kind").pyEq (.str "DomainPack") then
    let metadata ← ((document.get? "metadata").getD (.obj [])).asDict
    let key := self.rt.strOf ((metadata.get? "name").getD (.str ""))
    if !self.domainExists s key then
      throw (.policy ("configuration domain does not exist: " ++ key))
    return [(key, ← compilePolicy self.rt (.obj document))]
  else match document.get "domains" with
    | .obj domains => self.mappedPolicies s domains
    | _ => self.supplierPolicy s document

/-- `create_config` without its commit. -/
def createConfig (document : Json) : Py (Store × ConfigurationVersion) := do
  if mentionsSecrets document && (walkValues document).any isSecret then
    httpError 422 "secret_value_forbidden" []
  else
    let _ ← refusePolicy "invalid_configuration" (self.configurationPolicies s document)
    let version := ((s.configurations.filter fun c => c.workspaceId = self.wid).map
      ConfigurationVersion.version).foldl max 0 + 1
    let config : ConfigurationVersion := {
      id := self.fresh s
      workspaceId := self.wid
      version := version
      status := .draft
      checksum := canonicalHash self.rt document
      document := document
      createdBy := self.principal.subject }
    let s := { s with configurations := s.configurations ++ [config], drawn := s.drawn + 1 }
    return (self.audit s "configuration.created" "configuration" config.id
      [("version", .int version), ("checksum", .str config.checksum)], config)

def config? (configId : Id) : Option ConfigurationVersion :=
  s.configurations.find? fun c => c.id = configId && c.workspaceId = self.wid

/-- `revert_config`. -/
def revertConfig (configId : Id) : Py (Store × ConfigurationVersion) := do
  match self.config? s configId with
  | none => httpError 404 "configuration_not_found" []
  | some source =>
    let (s, reverted) ← self.createConfig s source.document
    return (self.audit s "configuration.revert_draft_created" "configuration" reverted.id
      [("source_configuration_id", .str source.id), ("source_version", .int source.version),
        ("requires_simulation_and_approval", .bool true)], reverted)

/-- The source records of the workspace, counted. -/
def dataCheckpoint : Nat := (s.records.filter fun r => r.workspaceId = self.wid).length

def statusName : EntityStatus → String
  | .candidate => "candidate"
  | .approved => "approved"
  | .merged => "merged"

/-- `_snapshot_hash`. -/
def snapshotHash : String :=
  let objects := (s.objects.filter fun o => o.workspaceId = self.wid).insertionSort fun a b =>
    a.id ≤ b.id
  let entities := (s.entities.filter fun e => e.workspaceId = self.wid).insertionSort fun a b =>
    a.id ≤ b.id
  let constraints := (s.cannotLinks.filter fun c => c.workspaceId = self.wid).insertionSort
    fun a b => a.id ≤ b.id
  let domains := (s.domains.filter fun d => d.workspaceId = self.wid).insertionSort fun a b =>
    a.key ≤ b.key
  canonicalHash self.rt (.obj [
    ("objects", .arr (objects.map fun o => .arr [.str o.id, optionJson o.currentRecordId,
      optionJson o.latestRecordId, optionJson o.entityId, .bool o.retired])),
    ("entities", .arr (entities.map fun e =>
      .arr [.str e.id, .int e.version, .str (statusName e.status)])),
    ("constraints", .arr (constraints.map fun c =>
      .arr [.str c.leftObjectId, .str c.rightObjectId])),
    ("domains", .arr (domains.map fun d =>
      .arr [.str d.key, .str (canonicalHash self.rt d.definition)]))])

/-- The effect of two policies on one pair of contributions. -/
def simulatePair (current proposed : CompiledPolicy) (left right : SourceObject × SourceRecord) :
    Py (Option LinkChange) := do
  let blocks (policy : CompiledPolicy) : Py Bool := do
    let mine ← policy.blockingKeys self.rt left.2.normalized
    let theirs ← policy.blockingKeys self.rt right.2.normalized
    return mine.any theirs.contains
  let currentBlocks ← blocks current
  let proposedBlocks ← blocks proposed
  if !currentBlocks && !proposedBlocks then return none
  else
    let before ← current.compare self.rt left.2.normalized right.2.normalized
    let after ← proposed.compare self.rt (← proposed.normalize self.rt left.2.original)
      (← proposed.normalize self.rt right.2.original)
    let barred := self.isCannotLink s left.1.id right.1.id
    let before := if barred then { before with decision := .keepSeparate } else before
    let after := if barred then { after with decision := .keepSeparate } else after
    return if before.decision = after.decision then none
      else some ⟨left.1.id, right.1.id, before, after⟩

/-- All pairs of a list, each in the order of the list. -/
def orderedPairs {α : Type} : List α → List (α × α)
  | [] => []
  | x :: xs => xs.map (fun y => (x, y)) ++ orderedPairs xs

def simulateValidation (current proposed : CompiledPolicy) (row : SourceObject × SourceRecord) :
    Py (Option ValidationChange) := do
  let before ← current.validate self.rt row.2.original
  let after ← proposed.validate self.rt row.2.original
  let json (errors : List QualityError) : Json := .arr (errors.map QualityError.json)
  return if (json before).pyEq (json after) then none else some ⟨row.1.id, before, after⟩

def simulateMaster (current proposed : CompiledPolicy) (entity : Entity) :
    Py (Option MasterChange) := do
  let (before, _) ← self.masterValues s entity.id current
  let (after, provenance) ← self.masterValues s entity.id proposed
  let keys := (sortedSet (before.keys ++ after.keys)).filter fun key =>
    !(before.get key).pyEq (after.get key)
  return if keys.isEmpty then none
    else some ⟨entity.id, keys.map fun key =>
      (key, before.get key, after.get key, provenance.get key)⟩

/-- The active objects of a domain in the order of their ids, with their contributions. -/
def contributions (domainKey : String) : Py (List (SourceObject × SourceRecord)) :=
  let objects := (s.objects.filter fun o => o.workspaceId = self.wid && o.domainKey = domainKey &&
    o.currentRecordId.isSome && !o.retired).insertionSort fun a b => a.id ≤ b.id
  objects.mapM fun o =>
    match o.currentRecordId.bind s.record? with
    | some r => .ok (o, r)
    | none => .error (.python "AttributeError")

def reviewDelta (changes : List LinkChange) : Int :=
  (changes.map fun c =>
    if c.proposed.decision = .review then (1 : Int)
    else if c.current.decision = .review then -1 else 0).sum

/-- `_simulate_policy`. -/
def simulatePolicy (domain : Domain) (proposed : CompiledPolicy) : Py PolicySimulation := do
  let current ← compilePolicy self.rt domain.definition
  let rows ← self.contributions s domain.key
  let linkChanges ← (orderedPairs rows).mapM fun (left, right) =>
    self.simulatePair s current proposed left right
  let validationChanges ← rows.mapM (self.simulateValidation current proposed)
  let entities := self.rt.scan s.drawn (s.entities.filter fun e => e.workspaceId = self.wid &&
    e.domainKey = domain.key && e.status ≠ .merged)
  let masterChanges ← entities.mapM (self.simulateMaster s current proposed)
  return {
    domain := domain.key
    currentPolicy := current.checksum
    proposedPolicy := proposed.checksum
    datasetSize := rows.length
    linkChanges := linkChanges.filterMap id
    masterChanges := masterChanges.filterMap id
    validationChanges := validationChanges.filterMap id
    reviewWorkloadDelta := reviewDelta (linkChanges.filterMap id) }

/-- `simulate`. -/
def simulate (configId : Id) : Py (Store × Simulation) := do
  match self.config? s configId with
  | none => httpError 404 "configuration_not_found" []
  | some config =>
    let policies ← self.configurationPolicies s config.document
    let details ← policies.mapM fun (key, policy) =>
      match self.domain? s key with
      | some domain => self.simulatePolicy s domain policy
      | none => httpError 409 "configuration_domain_missing" [("domain", .str key)]
    let simulation : Simulation := {
      id := self.fresh s
      workspaceId := self.wid
      configId := config.id
      dataCheckpoint := self.dataCheckpoint s
      result := ⟨self.snapshotHash s, details⟩ }
    return ({ s with simulations := s.simulations ++ [simulation], drawn := s.drawn + 1 }, simulation)

/-- An earlier open configuration proposal is superseded. -/
def supersedeProposal : Store :=
  match s.tasks.find? fun t =>
      t.workspaceId = self.wid && t.kind = .configurationApproval && t.status = .opened with
  | some existing => s.modifyTask existing.id fun t =>
      { t with
        status := .stale
        decisionReason := some "Superseded by a newer configuration proposal" }
  | none => s

/-- `propose_config`. -/
def proposeConfig (configId simulationId : Id) : Py (Store × ReviewTask) :=
  match s.configurations.find? fun c =>
      c.id = configId && c.workspaceId = self.wid && c.status = .draft with
  | none => httpError 404 "configuration_draft_not_found" []
  | some config =>
    match s.simulations.find? fun x =>
        x.id = simulationId && x.workspaceId = self.wid && x.configId = configId with
    | none => httpError 409 "matching_simulation_required" []
    | some simulation =>
      let hash := self.snapshotHash s
      if hash ≠ simulation.result.snapshotHash then
        httpError 409 "stale_simulation" [("current_checkpoint", .int (self.dataCheckpoint s)),
          ("current_snapshot_hash", .str hash)]
      else
        let s := self.supersedeProposal s
        let task : ReviewTask := {
          id := self.fresh s
          workspaceId := self.wid
          entityId := none
          status := .opened
          proposedBy := self.principal.subject
          payload := .configurationApproval config.id config.version config.checksum simulation.id
            simulation.dataCheckpoint simulation.result
          boundEntityVersion := none
          sensitive := true
          decisionReason := none
          decidedBy := none }
        let s := s.insertTask task
        .ok (self.audit s "configuration.proposed" "review_task" task.id [
          ("config_id", .str config.id), ("config_version", .int config.version),
          ("checksum", .str config.checksum), ("simulation_id", .str simulation.id),
          ("data_checkpoint", .int simulation.dataCheckpoint),
          ("impact", simulation.result.json)], task)

end MasteringService

end Recordlane
