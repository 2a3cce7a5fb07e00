import Recordlane.Mastering.Decisions

/-! What the routes show of records, review tasks and simulations, shaped for the principal's roles. -/
namespace Recordlane

def RecordState.name : RecordState → String
  | valid => "valid"
  | quarantine => "quarantine"
  | deleted => "deleted"
  | superseded => "superseded"

/-- The attributes a definition lists. -/
def attributesOf : Json → List Dict
  | .obj definition => CompiledPolicy.maps (Dict.get definition "attributes")
  | _ => []

/-- The roles an attribute is reserved to; the compiler stores texts alone. -/
def rolesUnder (item : Dict) (accessKey : String) : List String :=
  match item.get accessKey with
  | .arr roles => roles.filterMap fun
    | .str role => some role
    | _ => none
  | _ => []

/-- The fields that the roles of the principal may read. -/
def readableAttributes (definition : Json) (who : Principal) : List String :=
  (attributesOf definition).filterMap fun item =>
    let requiredRoles := rolesUnder item "read_roles"
    if requiredRoles.isEmpty || who.roles.contains "administrator" ||
        who.roles.any requiredRoles.contains then
      match item.get "key" with
      | .str key => some key
      | _ => none
    else none

/-- `_filter_mapping`. -/
def filterMapping {α : Type} (readable : List String) (values : List (String × α)) :
    List (String × α) :=
  values.filter fun p => readable.contains p.1

/-- `_record_view`: every column of the row, four of them filtered. -/
def recordView (rt : Runtime) (r : SourceRecord) (readable : List String) : Json :=
  .obj [("id", .str r.id), ("workspace_id", .str r.workspaceId), ("source_id", .str r.sourceId),
    ("domain_key", .str r.domainKey), ("local_id", .str r.localId),
    ("source_version", .str r.sourceVersion),
    ("original", .obj (filterMapping readable r.original)),
    ("normalized", .obj (filterMapping readable r.normalized)),
    ("blocking_key", .str r.blockingKey),
    ("verification", .obj (filterMapping readable (r.verification.map fun p => (p.1, .bool p.2)))),
    ("state", .str r.state.name),
    ("quality_errors", .arr ((r.qualityErrors.filter fun e => readable.contains e.attributeKey).map
      QualityError.json)),
    ("observed_at", .str (rt.isoformat r.observedAt)),
    ("effective_from", optionJson (r.effectiveFrom.map rt.isoformat)),
    ("entity_id", optionJson r.entityId)]

/-- The payload of a task as its producer stores it. -/
def TaskPayload.dict : TaskPayload → Dict
  | .duplicateMatch leftRecord rightRecord leftObject rightObject target bound evidence =>
    [("left_record_id", .str leftRecord), ("right_record_id", .str rightRecord)] ++
      (leftObject.map fun id => ("left_source_object_id", .str id)).toList ++
      (rightObject.map fun id => ("right_source_object_id", .str id)).toList ++
      [("target_entity_id", .str target), ("bound_target_entity_version", .int bound)] ++
      evidence.asDict
  | .masterApproval version values provenance =>
    [("master_version", .int version), ("values", .obj values), ("provenance", .obj provenance)]
  | .configurationApproval configId configVersion checksum simulationId dataCheckpoint impact =>
    [("config_id", .str configId), ("config_version", .int configVersion),
      ("checksum", .str checksum), ("simulation_id", .str simulationId),
      ("data_checkpoint", .int dataCheckpoint), ("impact", impact.json)]
  | .mergeApproval impact reason => impact.dict ++ [("reason", .str reason)]
  | .splitApproval sourceRecordIds sourceObjectIds reason =>
    [("source_record_ids", .arr (sourceRecordIds.map .str)),
      ("source_object_ids", .arr (sourceObjectIds.map .str)), ("reason", .str reason),
      ("downstream_repair_required", .bool true)]
  | .downstreamRepair eventId splitEntityId consumerState =>
    [("event_id", .str eventId), ("split_entity_id", .str splitEntityId),
      ("consumer_state", .str consumerState)]

/-- The maps under `values` and `provenance` of a payload are filtered, the rest is left as it is. -/
def filterPayload (readable : List String) (payload : Dict) : Dict :=
  payload.map fun (key, value) =>
    if key = "values" || key = "provenance" then
      match value with
      | .obj kvs => (key, .obj (filterMapping readable kvs))
      | _ => (key, .obj [])
    else (key, value)

/-- The priority of a task with this payload. -/
def TaskPayload.priority : TaskPayload → String
  | .duplicateMatch .. => "normal"
  | .masterApproval _ values _ => if values.contains "tax_id" then "high" else "normal"
  | .configurationApproval .. | .mergeApproval .. | .splitApproval .. | .downstreamRepair .. => "high"

/-- `serialize` on a task, with the payload that is to be shown. -/
def serializeTask (task : ReviewTask) (payload : Dict) : Json :=
  .obj [("id", .str task.id), ("workspace_id", .str task.workspaceId),
    ("kind", .str task.kind.name), ("entity_id", optionJson task.entityId),
    ("status", .str task.status.name), ("priority", .str task.payload.priority),
    ("proposed_by", .str task.proposedBy),
    ("payload", .obj payload),
    ("bound_entity_version", match task.boundEntityVersion with
      | some version => .int version
      | none => .null),
    ("sensitive", .bool task.sensitive), ("decision_reason", optionJson task.decisionReason),
    ("decided_by", optionJson task.decidedBy)]

namespace MasteringService

variable (self : MasteringService) (s : Store)

/-- `_readable_fields`. -/
def readableFields (domainKey : String) : List String :=
  match self.domain? s domainKey with
  | some domain => readableAttributes domain.definition self.principal
  | none => []

/-- `_task_view`. -/
def taskView (task : ReviewTask) : Json :=
  match self.taskEntity s task with
  | none => serializeTask task task.payload.dict
  | some entity =>
    serializeTask task (filterPayload (self.readableFields s entity.domainKey) task.payload.dict)

/-- The rows of the review list: the newest 200, of one status if one is asked for. -/
def listedTasks (status : Option String) : List ReviewTask :=
  (s.tasks.filter fun t => t.workspaceId = self.wid &&
    match status with
    | none | some "" => true
    | some name => t.status.name = name).reverse.take 200

/-- `GET /review-tasks`. -/
def reviewTasks (status : Option String) : List Json :=
  (self.listedTasks s status).map (self.taskView s)

/-- `simulation_view`. -/
def simulationView (x : Simulation) : Json :=
  .obj [("id", .str x.id), ("workspace_id", .str x.workspaceId), ("config_id", .str x.configId),
    ("data_checkpoint", .int x.dataCheckpoint), ("result", x.result.json), ("sample", .bool false),
    ("stale", .bool (self.snapshotHash s ≠ x.result.snapshotHash)),
    ("current_checkpoint", .int (self.dataCheckpoint s)),
    ("current_snapshot_hash", .str (self.snapshotHash s))]

def listedSimulations : List Simulation :=
  (s.simulations.filter fun x => x.workspaceId = self.wid).reverse

/-- `GET /simulations`. -/
def simulations : List Json := (self.listedSimulations s).map (self.simulationView s)

def task? (taskId : Id) : Option ReviewTask :=
  s.tasks.find? fun t => t.id = taskId && t.workspaceId = self.wid

/-- What `_assistant_evidence` adds for the reference `review:` to a task. -/
def reviewEvidence (taskId : Id) : Py Json :=
  if taskId = "" then httpError 422 "invalid_evidence_reference" []
  else match self.task? s taskId with
  | none => httpError 404 "assistant_evidence_not_found" []
  | some task => .ok (.obj [("reference", .str ("review:" ++ taskId)),
      ("review", self.taskView s task)])

/-- `_assistant_evidence` on references to reviews. -/
def assistantEvidence (domainKey : String) (taskIds : List Id) : Py (List Json) :=
  match self.domain? s domainKey with
  | none => httpError 404 "domain_not_found" []
  | some _ => taskIds.mapM (self.reviewEvidence s)

end MasteringService

end Recordlane
