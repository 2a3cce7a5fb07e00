import Recordlane.Mastering.Configuration

/-! Merges, splits, matches and approvals: how they are proposed and how they are decided. -/
namespace Recordlane

inductive Decision
  | approve | reject | keepSeparate | link
  deriving DecidableEq

def Decision.name : Decision → String
  | approve => "approve"
  | reject => "reject"
  | keepSeparate => "keep_separate"
  | link => "link"

/-- `ALLOWED_TASK_DECISIONS`. -/
def allowedTaskDecisions : TaskKind → List Decision
  | .duplicateMatch => [.keepSeparate, .link, .reject]
  | .masterApproval | .configurationApproval | .mergeApproval | .splitApproval =>
    [.approve, .reject]
  | .downstreamRepair => []

def TaskKind.name : TaskKind → String
  | duplicateMatch => "duplicate_match"
  | masterApproval => "master_approval"
  | configurationApproval => "configuration_approval"
  | mergeApproval => "merge_approval"
  | splitApproval => "split_approval"
  | downstreamRepair => "downstream_repair"

def TaskStatus.name : TaskStatus → String
  | opened => "open"
  | stale => "stale"
  | approved => "approved"
  | rejected => "rejected"

def Contradiction.json (c : Contradiction) : Json :=
  .obj [("field", c.field), ("namespace", c.identifierNamespace), ("left", c.left),
    ("right", c.right), ("rule", .str "hard_identifier_conflict")]

/-- `MatchEvidence.as_dict`. -/
def MatchEvidence.asDict (e : MatchEvidence) : Dict :=
  [("score", floatJson e.score), ("decision", .str e.decision.name), ("evidence", .arr e.evidence),
    ("contradictions", .arr (e.contradictions.map Contradiction.json)),
    ("score_kind", .str e.scoreKind), ("policy_version", .str e.policyVersion)]

def MergeImpact.dict (m : MergeImpact) : Dict :=
  [("primary_entity_id", .str m.primaryEntityId),
    ("merged_entity_ids", .arr (m.mergedEntityIds.map .str)),
    ("bound_entity_versions", .obj (m.boundEntityVersions.map fun p => (p.1, .int p.2))),
    ("source_contributions", .int m.sourceContributions), ("relationships", .int m.relationships),
    ("consumer_corrections", .int m.consumerCorrections), ("dry_run", .bool m.dryRun)]

/-- What a decision did: it went through, or it found the proposal stale, marked it so and
answers with an error all the same. -/
inductive Applied
  | done (s : Store)
  | staled (s : Store) (error : Raised)

namespace MasteringService

variable (self : MasteringService) (s : Store)

/-- The version a merge proposal bound an entity to. -/
def boundVersion (bound : List (Id × Nat)) (entityId : Id) : Option Nat :=
  (bound.find? fun p => p.1 = entityId).map Prod.snd

/-- `propose_merge`. -/
def proposeMerge (entityIds : List Id) (reason : String) (dryRun : Bool) :
    Py (Store × MergeImpact × Option Id) :=
  let entities := self.rt.scan s.drawn (s.entities.filter fun e =>
    e.workspaceId = self.wid && entityIds.contains e.id && e.status ≠ .merged)
  if entities.length ≠ entityIds.dedup.length then httpError 404 "entity_not_found" []
  else if (entities.map Entity.domainKey).dedup.length ≠ 1 then
    httpError 409 "cross_domain_merge_forbidden" []
  else match entityIds with
    | [] => .error (.python "IndexError")
    | primaryId :: mergedIds =>
      match entities.find? fun e => e.id = primaryId with
      | none => .error (.python "StopIteration")
      | some primary =>
        let impact : MergeImpact := {
          primaryEntityId := primaryId
          mergedEntityIds := mergedIds
          boundEntityVersions := entities.map fun e => (e.id, e.version)
          sourceContributions := (s.objects.filter fun o => o.workspaceId = self.wid &&
            (o.entityId.any fun id => entityIds.contains id) && !o.retired).length
          relationships := (s.relationships.filter fun r => r.workspaceId = self.wid &&
            (entityIds.contains r.fromEntityId || entityIds.contains r.toEntityId)).length
          consumerCorrections := mergedIds.length
          dryRun := dryRun }
        if dryRun then .ok (s, impact, none)
        else
          let task : ReviewTask := {
            id := self.fresh s
            workspaceId := self.wid
            entityId := some primaryId
            status := .opened
            proposedBy := self.principal.subject
            payload := .mergeApproval impact reason
            boundEntityVersion := some primary.version
            sensitive := true
            decisionReason := none
            decidedBy := none }
          let s := s.insertTask task
          .ok (self.audit s "merge.proposed" "review_task" task.id impact.dict, impact, some task.id)

/-- `propose_split`. -/
def proposeSplit (entityId : Id) (sourceRecordIds : List Id) (reason : String) :
    Py (Store × ReviewTask) :=
  match s.entities.find? fun e =>
      e.id = entityId && e.workspaceId = self.wid && e.status ≠ .merged with
  | none => httpError 404 "entity_not_found" []
  | some entity =>
    let members := self.rt.scan s.drawn (s.objects.filter fun o => o.workspaceId = self.wid &&
      o.entityId = some entity.id && o.currentRecordId.any fun id => sourceRecordIds.contains id)
    if members.length ≠ sourceRecordIds.dedup.length then
      httpError 409 "source_record_not_in_entity" []
    else
      let task : ReviewTask := {
        id := self.fresh s
        workspaceId := self.wid
        entityId := some entity.id
        status := .opened
        proposedBy := self.principal.subject
        payload := .splitApproval sourceRecordIds (members.map SourceObject.id) reason
        boundEntityVersion := some entity.version
        sensitive := true
        decisionReason := none
        decidedBy := none }
      let s := s.insertTask task
      .ok (self.audit s "split.proposed" "review_task" task.id
        [("source_record_count", .int sourceRecordIds.length)], task)

/-- The source objects attached to an entity. -/
def members (entityId : Id) : List SourceObject :=
  s.objects.filter fun o => o.workspaceId = self.wid && o.entityId = some entityId

/-- Some source objects move to an entity, one after the other. -/
def moveMembers (members : List SourceObject) (entityId : Id) (reason : String) : Store :=
  members.foldl (fun s o => self.setMembership s o entityId reason) s

/-- The relationships of a merged entity pass to the primary one. -/
def moveRelationships (mergedId primaryId : Id) : Store :=
  { s with relationships := s.relationships.map fun r =>
      if r.workspaceId = self.wid then
        { r with
          fromEntityId := if r.fromEntityId = mergedId then primaryId else r.fromEntityId
          toEntityId := if r.toEntityId = mergedId then primaryId else r.toEntityId }
      else r }

/-- One round of `_apply_merge`: an entity is merged into the primary one. -/
def mergeEntity (primaryId : Id) (bound : List (Id × Nat)) (s : Store) (entityId : Id) : Py Store :=
  match s.entities.find? fun e =>
      e.id = entityId && e.workspaceId = self.wid && e.status ≠ .merged with
  | none => httpError 409 "merge_entity_changed" [("entity_id", .str entityId)]
  | some merged =>
    if boundVersion bound entityId ≠ some merged.version then
      httpError 409 "merge_entity_changed" [("entity_id", .str entityId)]
    else
      let s := self.moveMembers s (self.members s merged.id) primaryId "approved_merge"
      let s := self.moveRelationships s merged.id primaryId
      .ok (s.modifyEntity merged.id fun e => { e with status := .merged })

/-- `_apply_merge`. -/
def applyMerge (impact : MergeImpact) (reason : String) : Py Store := do
  match s.entity? impact.primaryEntityId with
  | none => httpError 409 "primary_entity_missing" []
  | some primary =>
    if boundVersion impact.boundEntityVersions primary.id ≠ some primary.version then
      httpError 409 "merge_entity_changed" [("entity_id", .str primary.id)]
    else
      let s ← impact.mergedEntityIds.foldlM
        (self.mergeEntity primary.id impact.boundEntityVersions) s
      let s := s.modifyEntity primary.id fun e => { e with version := e.version + 1 }
      let (s, draft) ← self.draftMaster s primary.id
      return s.insertEvent {
        id := self.fresh s
        workspaceId := self.wid
        entityId := some primary.id
        entityVersion := some draft.version
        eventType := "identity.merged"
        schemaVersion := "1.0"
        payload := [("event_id", .str (self.fresh s)), ("workspace_id", .str self.wid),
          ("entity_id", .str primary.id),
          ("merged_entity_ids", .arr (impact.mergedEntityIds.map .str)),
          ("entity_version", .int draft.version), ("reason", .str reason),
          ("schema_version", .str "1.0"), ("occurred_at", .str (self.rt.isoformat (self.now s)))]
        status := "pending"
        occurredAt := self.now s }

/-- `_apply_split`. -/
def applySplit (task : ReviewTask) (sourceRecordIds sourceObjectIds : List Id) (reason : String) :
    Py Store := do
  match task.entityId.bind s.entity? with
  | none => httpError 409 "entity_missing" []
  | some original =>
    let splitId := self.fresh s
    let s := s.insertEntity {
      id := splitId
      workspaceId := self.wid
      domainKey := original.domainKey
      status := .candidate
      version := 1 }
    let members := (self.members s original.id).filter fun o => sourceObjectIds.contains o.id
    if members.length ≠ sourceObjectIds.length then httpError 409 "split_membership_changed" []
    else
      let s := self.moveMembers s members splitId "approved_split"
      let s := s.modifyEntity original.id fun e => { e with version := e.version + 1 }
      let (s, _) ← self.draftMaster s original.id
      let (s, newDraft) ← self.draftMaster s splitId
      let eventId := self.fresh s
      let s := s.insertEvent {
        id := eventId
        workspaceId := self.wid
        entityId := some original.id
        entityVersion := some (original.version + 1)
        eventType := "identity.split"
        schemaVersion := "1.0"
        payload := [("event_id", .str eventId), ("workspace_id", .str self.wid),
          ("original_entity_id", .str original.id), ("split_entity_id", .str splitId),
          ("moved_source_record_ids", .arr (sourceRecordIds.map .str)),
          ("new_entity_version", .int newDraft.version), ("reason", .str reason),
          ("schema_version", .str "1.0"), ("occurred_at", .str (self.rt.isoformat (self.now s)))]
        status := "pending"
        occurredAt := self.now s }
      return s.insertTask {
        id := self.fresh s
        workspaceId := self.wid
        entityId := some original.id
        status := .opened
        proposedBy := "correction-engine"
        payload := .downstreamRepair eventId splitId "pending_reconciliation"
        boundEntityVersion := some (original.version + 1)
        sensitive := false
        decisionReason := none
        decidedBy := none }

/-- The evidence check of a match decision. -/
def checkEvidence (leftRecordId rightRecordId : Id) (domainKey : String) : Py Unit := do
  match s.record? leftRecordId, s.record? rightRecordId, self.domain? s domainKey with
  | some left, some right, some domain =>
    let policy ← compilePolicy self.rt domain.definition
    let evidence ← policy.compare self.rt left.normalized right.normalized
    if evidence.contradictions.isEmpty then return ()
    else httpError 409 "match_contradiction" [("evidence", .obj evidence.asDict)]
  | _, _, _ => httpError 409 "match_evidence_unavailable" []

/-- `_link_match`. -/
def linkMatch (task : ReviewTask) (leftRecordId rightRecordId : Id)
    (leftSourceObjectId rightSourceObjectId : Option Id) (targetEntityId : Id)
    (boundTargetEntityVersion : Nat) : Py Store := do
  match task.entityId.bind s.entity?, s.entity? targetEntityId with
  | some source, some target =>
    if source.domainKey ≠ target.domainKey then httpError 409 "cross_domain_merge_forbidden" []
    else if target.version ≠ boundTargetEntityVersion then httpError 409 "stale_target_entity" []
    else
      let some left := leftSourceObjectId | throw (.python "KeyError")
      let some right := rightSourceObjectId | throw (.python "KeyError")
      if self.isCannotLink s left right then httpError 409 "cannot_link_constraint" []
      else
        self.checkEvidence s leftRecordId rightRecordId source.domainKey
        let s := self.moveMembers s (self.members s source.id) target.id "approved_match"
        let s := s.modifyEntity source.id fun e => { e with status := .merged }
        let s := s.modifyEntity target.id fun e => { e with version := e.version + 1 }
        let (s, _) ← self.draftMaster s target.id
        return s
  | _, _ => httpError 409 "entity_unavailable" []

/-- A match decided against: the pair is recorded, by its source objects where they are known.
A pair is recorded once. -/
def keepApart (leftRecordId rightRecordId : Id) (leftSourceObjectId rightSourceObjectId : Option Id)
    (reason : String) : Py Store :=
  match leftSourceObjectId, rightSourceObjectId with
  | some a, some b =>
    if self.isCannotLink s a b then .error (.integrity "source_object_cannot_links")
    else .ok { s with
      cannotLinks := s.cannotLinks ++ [{
        id := self.fresh s
        workspaceId := self.wid
        leftObjectId := (sortedPair a b).1
        rightObjectId := (sortedPair a b).2
        reason := reason
        createdBy := self.principal.subject }]
      drawn := s.drawn + 1 }
  | _, _ =>
    let pair := sortedPair leftRecordId rightRecordId
    if s.recordCannotLinks.any fun c =>
        c.workspaceId = self.wid && c.leftRecordId = pair.1 && c.rightRecordId = pair.2 then
      .error (.integrity "cannot_links")
    else .ok { s with
      recordCannotLinks := s.recordCannotLinks ++ [⟨self.wid, pair.1, pair.2, reason,
        self.principal.subject⟩]
      drawn := s.drawn + 1 }

/-- The draft an approval task asks for. -/
def draftOf (task : ReviewTask) (masterVersion : Nat) : Option MasterVersion :=
  s.masters.find? fun m =>
    some m.entityId = task.entityId && m.version = masterVersion && m.status = .draft

/-- An approved master: the draft, the entity and the event that publishes it. -/
def approveMaster (task : ReviewTask) (entity : Option Entity) (masterVersion : Nat)
    (reason : String) : Py Store :=
  match draftOf s task masterVersion, entity with
  | none, _ => httpError 409 "draft_unavailable" []
  | some _, none => .error (.python "AttributeError")
  | some draft, some entity =>
    let s := { s with masters := Table.modify MasterVersion.id s.masters draft.id fun m =>
      { m with
        status := .approved
        approvedBy := some self.principal.subject
        reason := some reason } }
    let s := s.modifyEntity entity.id fun e => { e with status := .approved }
    .ok (s.insertEvent {
      id := self.fresh s
      workspaceId := self.wid
      entityId := some entity.id
      entityVersion := some draft.version
      eventType := "master.approved"
      schemaVersion := "1.0"
      payload := [("event_id", .str (self.fresh s)), ("workspace_id", .str self.wid),
        ("entity_id", .str entity.id), ("entity_version", .int draft.version),
        ("origin", .str "recordlane"), ("values", .obj draft.values),
        ("occurred_at", .str (self.rt.isoformat (self.now s))), ("schema_version", .str "1.0")]
      status := "pending"
      occurredAt := self.now s })

/-- A domain takes over an approved policy, and a job is queued to remaster it. -/
def activateDomain (configId : Id) (state : Store × List Id) (entry : String × CompiledPolicy) :
    Py (Store × List Id) :=
  let (s, jobs) := state
  let (key, policy) := entry
  match self.domain? s key with
  | none => httpError 409 "configuration_domain_missing" []
  | some domain =>
    let s := { s with domains := Table.modify Domain.id s.domains domain.id fun d =>
      { d with definition := policy.canonicalDocument, schemaVersion := d.schemaVersion + 1 } }
    let job : DurableJob := {
      id := self.fresh s
      workspaceId := self.wid
      kind := "remaster_domain"
      payload := [("domain_key", .str domain.key), ("policy_checksum", .str policy.checksum),
        ("configuration_id", .str configId)]
      status := .queued }
    .ok ({ s with jobs := s.jobs ++ [job], drawn := s.drawn + 1 }, jobs ++ [job.id])

/-- An active configuration of the workspace is retired. -/
def retireActive (c : ConfigurationVersion) : ConfigurationVersion :=
  if c.workspaceId = self.wid && c.status = .active then { c with status := .retired } else c

/-- The approval of a configuration proposal. -/
def activateConfiguration (task : ReviewTask) (configId : Id) (checksum : String)
    (simulationId : Id) : Py Applied := do
  let config := s.configurations.find? fun c =>
    c.id = configId && c.workspaceId = self.wid && c.status = .draft
  let simulation := s.simulations.find? fun x =>
    x.id = simulationId && x.workspaceId = self.wid && x.configId = configId
  let checkpoint := self.dataCheckpoint s
  let hash := self.snapshotHash s
  match config, simulation with
  | some config, some simulation =>
    if config.checksum ≠ checksum then httpError 409 "configuration_changed" []
    else if hash ≠ simulation.result.snapshotHash then
      return .staled (s.modifyTask task.id fun t => { t with status := .stale })
        (.http 409 "stale_simulation" [("current_checkpoint", .int checkpoint),
          ("current_snapshot_hash", .str hash)])
    else
      let s := { s with
        configurations := Table.modify ConfigurationVersion.id (s.configurations.map self.retireActive)
          config.id fun c => { c with status := .active } }
      let policies ← self.configurationPolicies s config.document
      let (s, jobs) ← policies.foldlM (self.activateDomain config.id) (s, [])
      return .done (self.audit s "configuration.activated" "configuration" config.id
        [("version", .int config.version), ("checksum", .str config.checksum),
          ("simulation_id", .str simulation.id), ("data_checkpoint", .int checkpoint),
          ("remaster_jobs", .arr (jobs.map .str))])
  | _, _ => httpError 409 "configuration_changed" []

/-- The effect of a decision that is allowed for the task. -/
def applyDecision (task : ReviewTask) (entity : Option Entity) (decision : Decision)
    (reason : String) : Py Applied := do
  match task.payload, decision with
  | .duplicateMatch leftRecord rightRecord left right target bound _, .link =>
    return .done (← self.linkMatch s task leftRecord rightRecord left right target bound)
  | .duplicateMatch leftRecord rightRecord left right _ _ _, .keepSeparate
  | .duplicateMatch leftRecord rightRecord left right _ _ _, .reject =>
    return .done (← self.keepApart s leftRecord rightRecord left right reason)
  | .masterApproval masterVersion _ _, .approve =>
    return .done (← self.approveMaster s task entity masterVersion reason)
  | .configurationApproval configId _ checksum simulationId _ _, .approve =>
    self.activateConfiguration s task configId checksum simulationId
  | .mergeApproval impact _, .approve => return .done (← self.applyMerge s impact reason)
  | .splitApproval records objects _, .approve =>
    return .done (← self.applySplit s task records objects reason)
  | _, _ => return .done s

/-- The decided task. -/
def closeTask (task : ReviewTask) (decision : Decision) (reason : String) : Store :=
  let s := s.modifyTask task.id fun t =>
    { t with
      status := if decision = .approve || decision = .link then .approved else .rejected
      decisionReason := some reason
      decidedBy := some self.principal.subject }
  self.audit s ("review." ++ decision.name) "review_task" task.id [("reason", .str reason)]

/-- The entity a task is about. -/
def taskEntity (task : ReviewTask) : Option Entity :=
  task.entityId.bind fun entityId =>
    s.entities.find? fun e => e.id = entityId && e.workspaceId = self.wid

/-- Whether the entity changed after the task was bound to its version. -/
def isStale (task : ReviewTask) : Bool :=
  (self.taskEntity s task).any fun e => task.boundEntityVersion ≠ some e.version

/-- `decide_task`. The answer comes with the store it commits; an exception commits nothing. -/
def decideTask (taskId : Id) (decision : Decision) (reason : String) : Py (Store × Py Unit) := do
  match s.tasks.find? fun t => t.id = taskId && t.workspaceId = self.wid with
  | none => httpError 404 "task_not_found" []
  | some task =>
    if task.status ≠ .opened then
      httpError 409 "task_not_open" [("status", .str task.status.name)]
    else if !(allowedTaskDecisions task.kind).contains decision then
      httpError 409 "invalid_task_decision" [("task_kind", .str task.kind.name),
        ("decision", .str decision.name),
        ("allowed", .arr ((allowedTaskDecisions task.kind).map fun d => .str d.name))]
    else if self.isStale s task then
      return (s.modifyTask task.id fun t => { t with status := .stale },
        httpError 409 "stale_approval"
          [("message", .str "Source or entity changed after review began")])
    else if task.sensitive && task.proposedBy = self.principal.subject then
      httpError 403 "separation_of_duties" []
    else
      match ← self.applyDecision s task (self.taskEntity s task) decision reason with
      | .staled s error => return (s, .error error)
      | .done s => return (self.closeTask s task decision reason, .ok ())

end MasteringService

end Recordlane
