import Recordlane.Mastering.Ingestion

/-! The ingestion request: extraction runs, their pages, and the tombstones of a full snapshot. -/
namespace Recordlane

/-- The answer to an ingestion request. -/
inductive IngestAnswer
  | duplicatePage (sourceKey : String) (runId : String) (checkpoint : RunCheckpoint)
  | ingested (counts : Counts) (sourceKey : String) (runId : Option String)
      (checkpoint : SourceCheckpoint) (destructiveChangesApplied : Nat)

/-- `bool(text)` for an optional text. -/
def truthyText (v : Option String) : Bool := v.isSome && v ≠ some ""

namespace IngestRequest

variable (req : IngestRequest)

/-- `run_id`, where it is given and not empty. -/
def run? : Option String := if truthyText req.runId then req.runId else none

/-- `page_cursor or "__start__"`. -/
def pageKey : String := if truthyText req.pageCursor then req.pageCursor.getD "" else "__start__"

/-- The local keys of the records that are not tombstones. -/
def seenIds : List String := (req.records.filter fun item => !item.deleted).map IncomingRecord.localId

end IngestRequest

/-- Where a page stands in its run. -/
inductive PageStart
  | duplicate (runId : String) (checkpoint : RunCheckpoint)
  | page (s : Store) (run : Option IngestionRun)

namespace MasteringService

variable (self : MasteringService) (s : Store)

def run? (source : Source) (domainKey externalId : String) : Option IngestionRun :=
  s.runs.find? fun r => r.workspaceId = self.wid && r.sourceId = source.id &&
    r.domainKey = domainKey && r.externalId = externalId

/-- The run a page continues, or the one it starts. -/
def openRun (source : Source) (req : IngestRequest) (runId : String) : Py PageStart :=
  match self.run? s source req.domainKey runId with
  | some run =>
    if run.extractionMode ≠ req.extractionMode then httpError 409 "ingestion_run_mode_mismatch" []
    else if run.checkpoint.processedCursors.contains req.pageKey then
      .ok (.duplicate runId run.checkpoint)
    else if !run.checkpoint.processedCursors.isEmpty &&
        req.pageCursor ≠ run.checkpoint.nextCursor then
      httpError 409 "ingestion_cursor_mismatch"
        [("expected", optionJson run.checkpoint.nextCursor), ("received", optionJson req.pageCursor)]
    else .ok (.page s (some run))
  | none =>
    if req.pageCursor ≠ none && req.pageCursor ≠ some "" && req.pageCursor ≠ some "0" then
      httpError 409 "ingestion_run_not_started" []
    else
      let run : IngestionRun := {
        id := self.fresh s
        workspaceId := self.wid
        sourceId := source.id
        domainKey := req.domainKey
        externalId := runId
        extractionMode := req.extractionMode
        status := .running
        snapshotPosition := req.snapshotPosition
        handoffFrom := req.handoffFrom
        checkpoint := ⟨[], none, none⟩
        seenLocalIds := []
        recordsProcessed := 0
        sourceComplete := false
        completedAt := none }
      .ok (.page { s with runs := s.runs ++ [run], drawn := s.drawn + 1 } (some run))

def modifyRun (run : IngestionRun) (f : IngestionRun → IngestionRun) : Store :=
  { s with runs := Table.modify IngestionRun.id s.runs run.id f }

/-- A completed full run, from which a delta run takes over. -/
def handoffParent (source : Source) (domainKey parentId : String) : Option IngestionRun :=
  s.runs.find? fun r => r.workspaceId = self.wid && r.sourceId = source.id &&
    r.domainKey = domainKey && r.externalId = parentId && r.extractionMode = .full &&
    r.status = .complete && r.sourceComplete

/-- The handoff of a delta run from its snapshot. -/
def checkHandoff (source : Source) (req : IngestRequest) (run : IngestionRun) : Py Store :=
  if !truthyText req.handoffFrom then .ok s
  else match req.extractionMode with
    | .full => httpError 422 "full_run_cannot_have_handoff" []
    | .delta =>
      match self.handoffParent s source req.domainKey (req.handoffFrom.getD "") with
      | none => httpError 409 "snapshot_handoff_not_ready" []
      | some parent => .ok (modifyRun s run fun r =>
          { r with snapshotPosition := parent.snapshotPosition })

/-- The run and cursor checks of a page. -/
def beginPage (source : Source) (req : IngestRequest) : Py PageStart := do
  match req.run? with
  | none =>
    if req.sourceComplete then httpError 422 "completeness_requires_run_id" []
    else return .page s none
  | some runId =>
    match ← self.openRun s source req runId with
    | .duplicate runId checkpoint => return .duplicate runId checkpoint
    | .page s none => return .page s none
    | .page s (some run) =>
      let s ← self.checkHandoff s source req run
      if req.completeSnapshot && req.extractionMode ≠ .full then
        httpError 422 "snapshot_completion_requires_full_mode" []
      else if req.completeSnapshot && !req.sourceComplete then
        httpError 422 "source_completeness_evidence_required" []
      else return .page s (some run)

/-- The policy of a domain; what the compiler rejects is the caller's error. -/
def compileFor (domain : Domain) : Py CompiledPolicy :=
  refusePolicy "invalid_domain_policy" (compilePolicy self.rt domain.definition)

/-- Whether the principal's roles may write a field. -/
def mayWrite (policy : CompiledPolicy) (field : String) : Bool :=
  match Dict.get ((policy.attribute? field).getD []) "write_roles" with
  | .arr (role :: roles) =>
    (role :: roles).any fun r => self.principal.roles.any fun held => r.pyEq (.str held)
  | _ => true

def forbiddenFields (policy : CompiledPolicy) (records : List IncomingRecord) : List String :=
  if self.principal.roles.contains "administrator" then []
  else sortedSet ((records.flatMap fun item => item.values.keys).filter fun field =>
    !self.mayWrite policy field)

/-- The checks of the policy and of the principal's field authorization. -/
def authorize (domain : Domain) (records : List IncomingRecord) : Py CompiledPolicy := do
  let policy ← self.compileFor domain
  match self.forbiddenFields policy records with
  | [] => return policy
  | fields => httpError 403 "field_write_forbidden" [("fields", .arr (fields.map .str))]

def isActiveObject (source : Source) (domainKey : String) (o : SourceObject) : Bool :=
  o.workspaceId = self.wid && o.sourceId = source.id && o.domainKey = domainKey && !o.retired

theorem noValues_bound : ([] : Dict).length ≤ 200 := by decide

theorem noValues_nodup : (Dict.keys []).Nodup := by decide

/-- The tombstone a completed snapshot implies, if it is a record the schema admits. -/
def snapshotTombstone (runId localId : String) : Py IncomingRecord :=
  let version := "snapshot-delete:" ++ runId
  if hl : 1 ≤ localId.length ∧ localId.length ≤ 255 then
    if hv : 1 ≤ version.length ∧ version.length ≤ 80 then
      .ok {
        localId := localId
        version := version
        values := []
        verification := []
        effectiveFrom := none
        sequence := none
        updateMode := .partialUpdate
        deleted := true
        localId_bounds := hl
        version_bounds := hv
        values_bound := noValues_bound
        values_nodup := noValues_nodup }
    else .error (.validation "version")
  else .error (.validation "local_id")

/-- The active objects of the source and the domain that no page of the run has shown. -/
def unseenObjects (source : Source) (domainKey : String) (seen : List String) :
    List SourceObject :=
  (self.rt.scan s.drawn (s.objects.filter (self.isActiveObject source domainKey))).filter fun o =>
    !seen.contains o.localId

/-- The work list: the records of the page, then the tombstones of a completed snapshot. -/
def workRecords (source : Source) (req : IngestRequest) (run : Option IngestionRun)
    (seen : List String) : Py (List IncomingRecord) :=
  if run.isSome && req.extractionMode = .full && req.completeSnapshot then do
    let tombstones ← (self.unseenObjects s source req.domainKey seen).mapM fun o =>
      snapshotTombstone (req.runId.getD "") o.localId
    return req.records ++ tombstones
  else .ok req.records

def checkpointJson (c : SourceCheckpoint) : Json :=
  .obj [("records", .int c.records), ("complete_snapshot", .bool c.completeSnapshot),
    ("run_id", optionJson c.runId), ("next_cursor", optionJson c.nextCursor),
    ("snapshot_position", optionJson c.snapshotPosition)]

/-- The source checkpoint after a batch. -/
def sourceCheckpoint (source : Source) (req : IngestRequest) (counts : Counts) : SourceCheckpoint where
  records := (source.checkpoint.map SourceCheckpoint.records).getD 0 + counts.accepted
  completeSnapshot := req.completeSnapshot
  runId := req.runId
  nextCursor := req.nextCursor
  snapshotPosition := req.snapshotPosition

/-- The run after one more page. -/
def finishRun (req : IngestRequest) (seen : List String) (counts : Counts) (run : IngestionRun) :
    Store :=
  let complete := req.completeSnapshot || (req.extractionMode = .delta && req.nextCursor.isNone)
  modifyRun s run fun r =>
    { r with
      seenLocalIds := sortedSet seen
      recordsProcessed := r.recordsProcessed + counts.accepted
      checkpoint := ⟨run.checkpoint.processedCursors ++ [req.pageKey], req.pageCursor, req.nextCursor⟩
      sourceComplete := req.completeSnapshot && req.sourceComplete
      status := if complete then .complete else r.status
      completedAt := if complete then some (self.now s) else r.completedAt }

/-- Checkpoints and the audit entry of a batch. -/
def finishBatch (source : Source) (req : IngestRequest) (run : Option IngestionRun)
    (seen : List String) (counts : Counts) : Store :=
  let s := { s with
    sources := Table.modify Source.id s.sources source.id fun x =>
      { x with
        lastIngestedAt := some (self.now s)
        checkpoint := some (sourceCheckpoint source req counts) } }
  let s := match run with
    | some run => self.finishRun s req seen counts run
    | none => s
  self.audit s "source.ingested" "source" source.id [("counts", counts.json),
    ("complete_snapshot", .bool req.completeSnapshot), ("run_id", optionJson req.runId),
    ("source_complete", .bool req.sourceComplete), ("handoff_from", optionJson req.handoffFrom)]

/-- The local keys a run has shown so far. -/
def runSeen : Option IngestionRun → List String
  | some run => run.seenLocalIds
  | none => []

/-- What follows the run checks of a page: authorization, the work list, the loop, checkpoints. -/
def ingestPage (source : Source) (domain : Domain) (req : IngestRequest)
    (run : Option IngestionRun) : Py (Store × List IncomingRecord × List Verdict) := do
  let policy ← self.authorize domain req.records
  let seen := runSeen run ++ req.seenIds
  let work ← self.workRecords s source req run seen
  let (s, verdicts) ← self.observeAll source req.domainKey policy req.faultAfterRecords s 1 work
  return (self.finishBatch s source req run seen (Counts.of verdicts), work, verdicts)

/-- The source and the domain a request names. -/
def sourceAndDomain (req : IngestRequest) : Py (Source × Domain) :=
  match self.source? s req.sourceKey, self.domain? s req.domainKey with
  | some source, some domain => .ok (source, domain)
  | _, _ => httpError 404 "source_or_domain_not_found" []

/-- `ingest`. -/
def ingest (req : IngestRequest) : Py (Store × IngestAnswer) := do
  let (source, domain) ← self.sourceAndDomain s req
  match ← self.beginPage s source req with
  | .duplicate runId checkpoint => return (s, .duplicatePage source.key runId checkpoint)
  | .page s run =>
    let (s, _, verdicts) ← self.ingestPage s source domain req run
    let counts := Counts.of verdicts
    return (s, .ingested counts source.key req.runId (sourceCheckpoint source req counts)
      counts.retired)

end MasteringService

end Recordlane
