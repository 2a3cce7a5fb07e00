import Recordlane.Mastering.Resolution

/-! Ingestion: the observation loop, extraction runs and snapshot tombstones. -/
namespace Recordlane

/-- `IncomingRecord`: an observation that meets the request schema. -/
structure IncomingRecord where
  localId : String
  version : String
  values : Dict
  verification : List (String × Bool)
  effectiveFrom : Option DateTime
  sequence : Option Nat
  updateMode : UpdateMode
  deleted : Bool
  localId_bounds : 1 ≤ localId.length ∧ localId.length ≤ 255 := by decide
  version_bounds : 1 ≤ version.length ∧ version.length ≤ 80 := by decide
  values_bound : values.length ≤ 200 := by decide
  values_nodup : values.keys.Nodup := by decide

/-- The request of one ingestion page. -/
structure IngestRequest where
  sourceKey : String
  domainKey : String
  records : List IncomingRecord
  completeSnapshot : Bool
  runId : Option String
  extractionMode : ExtractionMode
  pageCursor : Option String
  nextCursor : Option String
  snapshotPosition : Option String
  handoffFrom : Option String
  sourceComplete : Bool
  faultAfterRecords : Option Nat

/-- What became of one observation. -/
inductive Verdict
  | duplicate | quarantined | outOfOrder | retired | updated
  | resolved (outcome : Resolution)
  deriving DecidableEq

/-- The `counts` of a batch. -/
structure Counts where
  accepted : Nat
  duplicate : Nat
  quarantined : Nat
  outOfOrder : Nat
  updated : Nat
  retired : Nat
  linked : Nat
  review : Nat
  created : Nat
  deriving DecidableEq

def Counts.zero : Counts := ⟨0, 0, 0, 0, 0, 0, 0, 0, 0⟩

def Counts.add (c : Counts) : Verdict → Counts
  | .duplicate => { c with duplicate := c.duplicate + 1 }
  | .quarantined => { c with quarantined := c.quarantined + 1, accepted := c.accepted + 1 }
  | .outOfOrder => { c with outOfOrder := c.outOfOrder + 1, accepted := c.accepted + 1 }
  | .retired => { c with retired := c.retired + 1, accepted := c.accepted + 1 }
  | .updated => { c with updated := c.updated + 1, accepted := c.accepted + 1 }
  | .resolved .linked => { c with linked := c.linked + 1, accepted := c.accepted + 1 }
  | .resolved .review => { c with review := c.review + 1, accepted := c.accepted + 1 }
  | .resolved .created => { c with created := c.created + 1, accepted := c.accepted + 1 }

def Counts.of (verdicts : List Verdict) : Counts := verdicts.foldl Counts.add .zero

def Counts.json (c : Counts) : Json :=
  .obj [("accepted", .int c.accepted), ("duplicate", .int c.duplicate),
    ("quarantined", .int c.quarantined), ("out_of_order", .int c.outOfOrder),
    ("updated", .int c.updated), ("retired", .int c.retired), ("linked", .int c.linked),
    ("review", .int c.review), ("created", .int c.created)]

/-- What the policy makes of an observation's values. -/
structure Evaluation where
  values : Dict
  normalized : Dict
  qualityErrors : List QualityError
  blockKeys : List String

/-- `_observation_is_current`. -/
def observationIsCurrent (o : SourceObject) (item : IncomingRecord) : Bool :=
  match item.sequence, o.currentSequence with
  | some n, some m => m < n
  | some _, none => true
  | none, _ =>
    match item.effectiveFrom, o.currentEffectiveFrom with
    | some t, some u => u < t
    | _, _ => true

/-- The six fields whose hash identifies a payload. -/
def payload (rt : Runtime) (item : IncomingRecord) : Json :=
  .obj [("values", .obj item.values),
    ("verification", .obj (item.verification.map fun p => (p.1, .bool p.2))),
    ("effective_from", optionJson (item.effectiveFrom.map rt.isoformat)),
    ("sequence", match item.sequence with
      | some n => .int n
      | none => .null),
    ("update_mode", .str (if item.updateMode = .fullUpdate then "full" else "partial")),
    ("deleted", .bool item.deleted)]

namespace MasteringService

variable (self : MasteringService) (s : Store)

def payloadHash (item : IncomingRecord) : String := canonicalHash self.rt (payload self.rt item)

/-- Whether the object is the one of a source, a domain and a local key. -/
def hasObjectKey (source : Source) (domainKey localId : String) (o : SourceObject) : Bool :=
  o.workspaceId = self.wid && o.sourceId = source.id && o.domainKey = domainKey &&
    o.localId = localId

def hasRecordKey (source : Source) (domainKey localId : String) (r : SourceRecord) : Bool :=
  r.workspaceId = self.wid && r.sourceId = source.id && r.domainKey = domainKey &&
    r.localId = localId

/-- The latest record of a local key, for records older than source objects. -/
def legacyRecord (source : Source) (domainKey localId : String) : Option SourceRecord :=
  (s.records.filter (self.hasRecordKey source domainKey localId)).foldl (fun best r =>
    match best with
    | some b =>
      if b.observedAt < r.observedAt || (b.observedAt = r.observedAt && b.id < r.id)
      then some r else some b
    | none => some r) none

/-- `_get_or_create_source_object`. -/
def getOrCreateSourceObject (source : Source) (domainKey localId : String) :
    Store × SourceObject :=
  match s.objects.find? (self.hasObjectKey source domainKey localId) with
  | some o => (s, o)
  | none =>
    let legacy := self.legacyRecord s source domainKey localId
    let o : SourceObject := {
      id := self.fresh s
      workspaceId := self.wid
      sourceId := source.id
      domainKey := domainKey
      localId := localId
      entityId := legacy.bind SourceRecord.entityId
      currentRecordId := legacy.bind fun r => if r.state = .valid then some r.id else none
      latestRecordId := legacy.map SourceRecord.id
      currentSequence := none
      currentEffectiveFrom := none
      retired := legacy.any fun r => r.state = .deleted }
    let s := s.insertObject o
    match o.entityId with
    | some entityId => (s.insertMembership {
        id := self.fresh s
        workspaceId := self.wid
        sourceObjectId := o.id
        entityId := entityId
        validFrom := self.now s
        validTo := none
        reason := "legacy_backfill"
        changedBy := "recordlane-migration" }, o)
    | none => (s, o)

/-- The stored observation with the key and the version of the item. -/
def storedObservation (source : Source) (domainKey : String) (item : IncomingRecord) :
    Option SourceRecord :=
  s.records.find? fun r =>
    self.hasRecordKey source domainKey item.localId r && r.sourceVersion = item.version

/-- Whether a stored observation has the payload of the item; one without metadata is compared
field by field. -/
def samePayload (duplicate : SourceRecord) (item : IncomingRecord) : Bool :=
  match s.meta? duplicate.id with
  | some m => m.payloadHash = self.payloadHash item
  | none => item.updateMode = .fullUpdate && (Json.obj duplicate.original).pyEq (.obj item.values) &&
      (Json.obj (duplicate.verification.map fun p => (p.1, .bool p.2))).pyEq
        (.obj (item.verification.map fun p => (p.1, .bool p.2))) &&
      duplicate.effectiveFrom = item.effectiveFrom &&
      ((duplicate.state = .deleted : Bool) = item.deleted)

/-- The values after the observation, normalized, validated and blocked. -/
def evaluate (policy : CompiledPolicy) (o : SourceObject) (item : IncomingRecord) :
    Py Evaluation := do
  let base : Dict := match item.updateMode, o.currentRecordId.bind s.record? with
    | .partialUpdate, some current => current.original
    | _, _ => []
  let values := base.update item.values
  let normalized ← policy.normalize self.rt values
  let qualityErrors ← if item.deleted then pure [] else policy.validate self.rt values
  let blockKeys ← policy.blockingKeys self.rt normalized
  return ⟨values, normalized, qualityErrors, blockKeys⟩

/-- The state an observation is stored with. -/
def recordState (item : IncomingRecord) (quarantined isCurrent : Bool) : RecordState :=
  if item.deleted then .deleted
  else if quarantined then .quarantine
  else if isCurrent then .valid else .superseded

/-- The row of a new observation. -/
def newRecord (source : Source) (domainKey : String) (o : SourceObject) (item : IncomingRecord)
    (e : Evaluation) : SourceRecord where
  id := self.fresh s
  workspaceId := self.wid
  sourceId := source.id
  domainKey := domainKey
  localId := item.localId
  sourceVersion := item.version
  original := e.values
  normalized := e.normalized
  blockingKey := e.blockKeys.headD ""
  verification := item.verification
  state := recordState item (!e.qualityErrors.isEmpty) (observationIsCurrent o item)
  qualityErrors := e.qualityErrors
  observedAt := self.now s
  effectiveFrom := item.effectiveFrom
  entityId := none

/-- The observation is stored with its metadata and its block keys, and is the latest one. -/
def storeObservation (o : SourceObject) (r : SourceRecord) (item : IncomingRecord)
    (blockKeys : List String) : Store :=
  let s := s.insertRecord r
  let s := s.insertMeta {
    recordId := r.id
    sourceObjectId := o.id
    payloadHash := self.payloadHash item
    sourceSequence := item.sequence
    updateMode := item.updateMode }
  let s := s.insertBlocks (blockKeys.map fun blockKey => {
    workspaceId := self.wid
    domainKey := r.domainKey
    sourceObjectId := o.id
    recordId := r.id
    blockKey := blockKey })
  s.modifyObject o.id fun o => { o with latestRecordId := some r.id }

/-- A current tombstone: the object contributes nothing any more. -/
def retire (o : SourceObject) (r : SourceRecord) : Py (Store × Verdict) := do
  let s := s.modifyRecord r.id fun r => { r with entityId := o.entityId }
  let s := s.modifyObject o.id fun o => { o with currentRecordId := none, retired := true }
  match o.entityId.bind s.entity? with
  | some entity =>
    let s := s.modifyEntity entity.id fun e => { e with version := e.version + 1 }
    let (s, _) ← self.draftMaster s entity.id
    return (s, .retired)
  | none => return (s, .retired)

/-- A current valid observation: the object contributes it, to its entity or to the one that
resolution finds. -/
def contribute (o : SourceObject) (r : SourceRecord) (policy : CompiledPolicy)
    (blockKeys : List String) : Py (Store × Verdict) := do
  let s := s.modifyObject o.id fun o => { o with currentRecordId := some r.id, retired := false }
  match o.entityId with
  | some entityId =>
    let some entity := s.entity? entityId | httpError 409 "source_membership_entity_missing" []
    let s := s.modifyRecord r.id fun r => { r with entityId := some entity.id }
    let s := s.modifyEntity entity.id fun e => { e with version := e.version + 1 }
    let (s, _) ← self.draftMaster s entity.id
    return (s, .updated)
  | none =>
    let (s, entityId, outcome) ← self.resolve s r o.id policy blockKeys
    let s := self.setMembership s o entityId "initial_resolution"
    let s := s.modifyRecord r.id fun r => { r with entityId := some entityId }
    let (s, _) ← self.draftMaster s entityId
    return (s, .resolved outcome)

/-- The rest of a round for an observation that is not stored yet. -/
def observeNew (source : Source) (domainKey : String) (policy : CompiledPolicy)
    (o : SourceObject) (item : IncomingRecord) : Py (Store × Verdict) := do
  let e ← self.evaluate s policy o item
  let r := self.newRecord s source domainKey o item e
  let s := self.storeObservation s o r item e.blockKeys
  if !e.qualityErrors.isEmpty then return (s, .quarantined)
  else if !observationIsCurrent o item then
    return (s.modifyRecord r.id fun r => { r with entityId := o.entityId }, .outOfOrder)
  else
    let s := s.modifyObject o.id fun o =>
      { o with currentSequence := item.sequence, currentEffectiveFrom := item.effectiveFrom }
    if item.deleted then self.retire s o r
    else self.contribute s o r policy e.blockKeys

/-- One round of the observation loop. -/
def observe (source : Source) (domainKey : String) (policy : CompiledPolicy)
    (item : IncomingRecord) : Py (Store × Verdict) :=
  let (s, o) := self.getOrCreateSourceObject s source domainKey item.localId
  match self.storedObservation s source domainKey item with
  | some duplicate =>
    if self.samePayload s duplicate item then .ok (s, .duplicate)
    else httpError 409 "source_version_conflict"
      [("local_id", .str item.localId), ("version", .str item.version)]
  | none => self.observeNew s source domainKey policy o item

/-- Whether a round ends where an injected fault strikes. -/
def faultStrikes (fault : Option Nat) (index : Nat) : Verdict → Bool
  | .updated | .resolved _ => fault = some index
  | _ => false

/-- The observation loop, from round `index` on. -/
def observeAll (source : Source) (domainKey : String) (policy : CompiledPolicy)
    (fault : Option Nat) : Store → Nat → List IncomingRecord → Py (Store × List Verdict)
  | s, _, [] => .ok (s, [])
  | s, index, item :: items => do
    let (s, verdict) ← self.observe s source domainKey policy item
    if faultStrikes fault index verdict then
      throw (.runtime "injected_ingestion_interruption")
    else
      let (s, verdicts) ← observeAll source domainKey policy fault s (index + 1) items
      return (s, verdict :: verdicts)

end MasteringService

end Recordlane
