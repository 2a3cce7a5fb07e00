import Recordlane.Policy
import Recordlane.Library.Table

/-! The tables the mastering service reads and writes, and the primitive changes of a store. -/
namespace Recordlane

structure Workspace where
  id : Id
  slug : String

structure Domain where
  id : Id
  workspaceId : Id
  key : String
  name : String
  mode : String
  schemaVersion : Nat
  definition : Json

structure SourceCheckpoint where
  records : Nat
  completeSnapshot : Bool
  runId : Option String
  nextCursor : Option String
  snapshotPosition : Option String

structure Source where
  id : Id
  workspaceId : Id
  key : String
  name : String
  kind : String
  priority : Int
  checkpoint : Option SourceCheckpoint
  lastIngestedAt : Option DateTime

inductive RecordState
  | valid | quarantine | deleted | superseded
  deriving DecidableEq

/-- One immutable observation of a source object. -/
structure SourceRecord where
  id : Id
  workspaceId : Id
  sourceId : Id
  domainKey : String
  localId : String
  sourceVersion : String
  original : Dict
  normalized : Dict
  blockingKey : String
  verification : List (String × Bool)
  state : RecordState
  qualityErrors : List QualityError
  observedAt : DateTime
  effectiveFrom : Option DateTime
  entityId : Option Id

inductive EntityStatus
  | candidate | approved | merged
  deriving DecidableEq

structure Entity where
  id : Id
  workspaceId : Id
  domainKey : String
  status : EntityStatus
  version : Nat

/-- The stable identity of a source object, apart from its observations. -/
structure SourceObject where
  id : Id
  workspaceId : Id
  sourceId : Id
  domainKey : String
  localId : String
  entityId : Option Id
  currentRecordId : Option Id
  latestRecordId : Option Id
  currentSequence : Option Nat
  currentEffectiveFrom : Option DateTime
  retired : Bool

inductive UpdateMode
  | fullUpdate | partialUpdate
  deriving DecidableEq

structure SourceObservationMeta where
  recordId : Id
  sourceObjectId : Id
  payloadHash : String
  sourceSequence : Option Nat
  updateMode : UpdateMode

inductive ExtractionMode
  | full | delta
  deriving DecidableEq

inductive RunStatus
  | running | complete
  deriving DecidableEq

structure RunCheckpoint where
  processedCursors : List String
  pageCursor : Option String
  nextCursor : Option String

structure IngestionRun where
  id : Id
  workspaceId : Id
  sourceId : Id
  domainKey : String
  externalId : String
  extractionMode : ExtractionMode
  status : RunStatus
  snapshotPosition : Option String
  handoffFrom : Option String
  checkpoint : RunCheckpoint
  seenLocalIds : List String
  recordsProcessed : Nat
  sourceComplete : Bool
  completedAt : Option DateTime

structure CandidateBlock where
  workspaceId : Id
  domainKey : String
  sourceObjectId : Id
  recordId : Id
  blockKey : String

structure MembershipHistory where
  id : Id
  workspaceId : Id
  sourceObjectId : Id
  entityId : Id
  validFrom : DateTime
  validTo : Option DateTime
  reason : String
  changedBy : String

inductive MasterStatus
  | draft | approved
  deriving DecidableEq

structure MasterVersion where
  id : Id
  workspaceId : Id
  entityId : Id
  version : Nat
  status : MasterStatus
  values : Dict
  provenance : Dict
  reason : Option String
  approvedBy : Option String

inductive TaskKind
  | duplicateMatch | masterApproval | configurationApproval | mergeApproval | splitApproval
  | downstreamRepair
  deriving DecidableEq

inductive TaskStatus
  | opened | stale | approved | rejected
  deriving DecidableEq

/-- A pair of source objects on which two policies decide differently. -/
structure LinkChange where
  leftSourceObjectId : Id
  rightSourceObjectId : Id
  current : MatchEvidence
  proposed : MatchEvidence

structure ValidationChange where
  sourceObjectId : Id
  current : List QualityError
  proposed : List QualityError

/-- The attributes of an entity whose surviving value changes, with their new provenance. -/
structure MasterChange where
  entityId : Id
  attributes : List (String × Json × Json × Json)

structure PolicySimulation where
  domain : String
  currentPolicy : String
  proposedPolicy : String
  datasetSize : Nat
  linkChanges : List LinkChange
  masterChanges : List MasterChange
  validationChanges : List ValidationChange
  reviewWorkloadDelta : Int

structure SimulationResult where
  snapshotHash : String
  details : List PolicySimulation

/-- What a merge would touch, as previewed and as bound into its task. -/
structure MergeImpact where
  primaryEntityId : Id
  mergedEntityIds : List Id
  boundEntityVersions : List (Id × Nat)
  sourceContributions : Nat
  relationships : Nat
  consumerCorrections : Nat
  dryRun : Bool

/-- The payload of a review task. Each kind of task has its own; older match tasks lack the
source objects. -/
inductive TaskPayload
  | duplicateMatch (leftRecordId rightRecordId : Id) (leftSourceObjectId rightSourceObjectId : Option Id)
      (targetEntityId : Id) (boundTargetEntityVersion : Nat) (evidence : MatchEvidence)
  | masterApproval (masterVersion : Nat) (values provenance : Dict)
  | configurationApproval (configId : Id) (configVersion : Nat) (checksum : String)
      (simulationId : Id) (dataCheckpoint : Nat) (impact : SimulationResult)
  | mergeApproval (impact : MergeImpact) (reason : String)
  | splitApproval (sourceRecordIds sourceObjectIds : List Id) (reason : String)
  | downstreamRepair (eventId splitEntityId : Id) (consumerState : String)

def TaskPayload.kind : TaskPayload → TaskKind
  | duplicateMatch .. => .duplicateMatch
  | masterApproval .. => .masterApproval
  | configurationApproval .. => .configurationApproval
  | mergeApproval .. => .mergeApproval
  | splitApproval .. => .splitApproval
  | downstreamRepair .. => .downstreamRepair

structure ReviewTask where
  id : Id
  workspaceId : Id
  entityId : Option Id
  status : TaskStatus
  proposedBy : String
  payload : TaskPayload
  boundEntityVersion : Option Nat
  sensitive : Bool
  decisionReason : Option String
  decidedBy : Option String

def ReviewTask.kind (t : ReviewTask) : TaskKind := t.payload.kind

structure CannotLink where
  workspaceId : Id
  leftRecordId : Id
  rightRecordId : Id
  reason : String
  createdBy : String

/-- A negative identity decision between two source objects, in the order of their ids. -/
structure SourceObjectCannotLink where
  id : Id
  workspaceId : Id
  leftObjectId : Id
  rightObjectId : Id
  reason : String
  createdBy : String

structure Relationship where
  id : Id
  workspaceId : Id
  fromEntityId : Id
  toEntityId : Id
  kind : String

inductive ConfigurationStatus
  | draft | active | retired
  deriving DecidableEq

structure ConfigurationVersion where
  id : Id
  workspaceId : Id
  version : Nat
  status : ConfigurationStatus
  checksum : String
  document : Json
  createdBy : String

structure Simulation where
  id : Id
  workspaceId : Id
  configId : Id
  dataCheckpoint : Nat
  result : SimulationResult

structure OutboxEvent where
  id : Id
  workspaceId : Id
  entityId : Option Id
  entityVersion : Option Nat
  eventType : String
  schemaVersion : String
  payload : Dict
  status : String
  occurredAt : DateTime

structure AuditEntry where
  workspaceId : Id
  actor : String
  action : String
  objectType : String
  objectId : String
  detail : Json
  previousHash : Option String
  entryHash : String
  createdAt : DateTime

inductive JobStatus
  | queued | complete | failed
  deriving DecidableEq

structure DurableJob where
  id : Id
  workspaceId : Id
  kind : String
  payload : Dict
  status : JobStatus

/-- The database. `drawn` counts the rows inserted so far: it indexes the fresh identifiers and
the readings of the clock. -/
structure Store where
  workspaces : List Workspace
  domains : List Domain
  sources : List Source
  records : List SourceRecord
  entities : List Entity
  objects : List SourceObject
  metas : List SourceObservationMeta
  runs : List IngestionRun
  blocks : List CandidateBlock
  memberships : List MembershipHistory
  masters : List MasterVersion
  tasks : List ReviewTask
  recordCannotLinks : List CannotLink
  cannotLinks : List SourceObjectCannotLink
  relationships : List Relationship
  configurations : List ConfigurationVersion
  simulations : List Simulation
  outbox : List OutboxEvent
  audits : List AuditEntry
  jobs : List DurableJob
  drawn : Nat

namespace Store

/-- A database that holds one workspace and nothing else. -/
def empty (workspace : Workspace) : Store where
  workspaces := [workspace]
  domains := []
  sources := []
  records := []
  entities := []
  objects := []
  metas := []
  runs := []
  blocks := []
  memberships := []
  masters := []
  tasks := []
  recordCannotLinks := []
  cannotLinks := []
  relationships := []
  configurations := []
  simulations := []
  outbox := []
  audits := []
  jobs := []
  drawn := 0

variable (s : Store)

/-! `db.get(Table, id)`. -/

def record? (id : Id) : Option SourceRecord := Table.find SourceRecord.id s.records id

def entity? (id : Id) : Option Entity := Table.find Entity.id s.entities id

def object? (id : Id) : Option SourceObject := Table.find SourceObject.id s.objects id

def meta? (recordId : Id) : Option SourceObservationMeta :=
  Table.find SourceObservationMeta.recordId s.metas recordId

/-! Rows changed through their primary key. -/

def modifyRecord (id : Id) (f : SourceRecord → SourceRecord) : Store :=
  { s with records := Table.modify SourceRecord.id s.records id f }

def modifyEntity (id : Id) (f : Entity → Entity) : Store :=
  { s with entities := Table.modify Entity.id s.entities id f }

def modifyObject (id : Id) (f : SourceObject → SourceObject) : Store :=
  { s with objects := Table.modify SourceObject.id s.objects id f }

def modifyTask (id : Id) (f : ReviewTask → ReviewTask) : Store :=
  { s with tasks := Table.modify ReviewTask.id s.tasks id f }

/-! Rows inserted; each insertion draws an identifier and reads the clock. -/

def insertRecord (r : SourceRecord) : Store :=
  { s with records := s.records ++ [r], drawn := s.drawn + 1 }

def insertEntity (e : Entity) : Store :=
  { s with entities := s.entities ++ [e], drawn := s.drawn + 1 }

def insertObject (o : SourceObject) : Store :=
  { s with objects := s.objects ++ [o], drawn := s.drawn + 1 }

def insertTask (t : ReviewTask) : Store :=
  { s with tasks := s.tasks ++ [t], drawn := s.drawn + 1 }

def insertMaster (m : MasterVersion) : Store :=
  { s with masters := s.masters ++ [m], drawn := s.drawn + 1 }

def insertMembership (m : MembershipHistory) : Store :=
  { s with memberships := s.memberships ++ [m], drawn := s.drawn + 1 }

def insertMeta (m : SourceObservationMeta) : Store :=
  { s with metas := s.metas ++ [m], drawn := s.drawn + 1 }

def insertBlocks (bs : List CandidateBlock) : Store :=
  { s with blocks := s.blocks ++ bs, drawn := s.drawn + 1 }

def insertEvent (e : OutboxEvent) : Store :=
  { s with outbox := s.outbox ++ [e], drawn := s.drawn + 1 }

end Store

end Recordlane
