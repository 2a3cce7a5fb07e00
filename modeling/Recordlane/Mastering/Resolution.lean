import Recordlane.Mastering.Survivorship

/-! Identity resolution of a source object that has no entity yet. -/
namespace Recordlane

inductive Resolution
  | linked | review | created
  deriving DecidableEq

/-- A contribution found through a shared block key, with the evidence of the comparison. -/
structure Candidate where
  evidence : MatchEvidence
  record : SourceRecord
  object : SourceObject

namespace MasteringService

variable (self : MasteringService) (s : Store)

/-- The candidate join: one row for each block key an active contribution shares. -/
def candidateRows (record : SourceRecord) (blockKeys : List String) :
    List (SourceRecord × SourceObject) :=
  (s.records.filter fun r => r.workspaceId = self.wid && r.domainKey = record.domainKey &&
    r.id ≠ record.id && r.state = .valid).flatMap fun r =>
  (s.objects.filter fun o =>
    o.currentRecordId = some r.id && o.entityId.isSome && !o.retired).flatMap fun o =>
  (s.blocks.filter fun b => b.recordId = r.id && blockKeys.contains b.blockKey).map fun _ => (r, o)

/-- The candidates, at most 200 of them; more are an error. -/
def candidates (record : SourceRecord) (blockKeys : List String) :
    Py (List (SourceRecord × SourceObject)) :=
  let rows := (self.rt.scan s.drawn (self.candidateRows s record blockKeys)).take 201
  if 200 < rows.length then
    httpError 409 "candidate_block_overflow" [("limit", .int 200), ("message",
      .str "Refine the policy blocking strategies; candidates were not silently truncated")]
  else .ok rows

/-- Whether the record contradicts a member of a cluster. -/
def clusterConflict (policy : CompiledPolicy) (record : SourceRecord) : List SourceRecord → Py Bool
  | [] => .ok false
  | member :: members => do
    let evidence ← policy.compare self.rt record.normalized member.normalized
    if !evidence.contradictions.isEmpty then return true
    else clusterConflict policy record members

/-- One round of the candidate loop: the best candidate so far and the objects seen. -/
def considerCandidate (policy : CompiledPolicy) (record : SourceRecord) (sourceObjectId : Id)
    (state : Option Candidate × List Id) (row : SourceRecord × SourceObject) :
    Py (Option Candidate × List Id) := do
  let (best, seen) := state
  let (candidate, candidateObject) := row
  if seen.contains candidateObject.id then return (best, seen)
  else
    let seen := candidateObject.id :: seen
    let pair ← policy.compare self.rt record.normalized candidate.normalized
    if self.isCannotLink s sourceObjectId candidateObject.id then return (best, seen)
    else match candidateObject.entityId with
      | none => return (best, seen)
      | some entityId =>
        if pair.decision ≠ .autoLink && pair.decision ≠ .review then return (best, seen)
        else if ← self.clusterConflict policy record (self.currentRecords s entityId) then
          return (best, seen)
        else match best with
          | none => return (some ⟨pair, candidate, candidateObject⟩, seen)
          | some b =>
            return (if b.evidence.score < pair.score
              then some ⟨pair, candidate, candidateObject⟩ else some b, seen)

/-- The best candidate of all. -/
def bestCandidate (record : SourceRecord) (sourceObjectId : Id) (policy : CompiledPolicy)
    (blockKeys : List String) : Py (Option Candidate) := do
  let rows ← if blockKeys.isEmpty then pure [] else self.candidates s record blockKeys
  let (best, _) ← rows.foldlM (self.considerCandidate s policy record sourceObjectId) (none, [])
  return best

/-- The entity a candidate links to automatically. -/
def autoLinkTarget (best : Option Candidate) : Option Entity :=
  match best with
  | some b => if b.evidence.decision = .autoLink then b.object.entityId.bind s.entity? else none
  | none => none

/-- A new entity for the record; a candidate becomes a review task. -/
def createEntity (record : SourceRecord) (sourceObjectId : Id) (best : Option Candidate) :
    Py (Store × Id × Resolution) := do
  let entityId := self.fresh s
  let s := s.insertEntity {
    id := entityId
    workspaceId := self.wid
    domainKey := record.domainKey
    status := .candidate
    version := 1 }
  match best with
  | none => return (s, entityId, .created)
  | some b =>
    let some target := b.object.entityId.bind s.entity? | throw (.python "AttributeError")
    let s := s.insertTask {
      id := self.fresh s
      workspaceId := self.wid
      entityId := some entityId
      status := .opened
      proposedBy := "matching-engine"
      payload := .duplicateMatch record.id b.record.id (some sourceObjectId) (some b.object.id)
        target.id target.version b.evidence
      boundEntityVersion := some 1
      sensitive := false
      decisionReason := none
      decidedBy := none }
    return (s, entityId, .review)

/-- `_resolve`: the entity of a record whose source object has none. -/
def resolve (record : SourceRecord) (sourceObjectId : Id) (policy : CompiledPolicy)
    (blockKeys : List String) : Py (Store × Id × Resolution) := do
  let best ← self.bestCandidate s record sourceObjectId policy blockKeys
  match autoLinkTarget s best with
  | some entity =>
    let s := s.modifyEntity entity.id fun e => { e with version := e.version + 1 }
    return (s, entity.id, .linked)
  | none => self.createEntity s record sourceObjectId best

end MasteringService

end Recordlane
