import Recordlane.Mastering.Decisions

/-! The `remaster_domain` job: a domain recomputed under its activated policy. -/
namespace Recordlane

namespace MasteringService

variable (self : MasteringService) (s : Store)

/-- One contribution normalized and indexed again. -/
def reindex (policy : CompiledPolicy) (domainKey : String) (s : Store) (o : SourceObject) :
    Py Store := do
  match o.currentRecordId.bind s.record? with
  | none => return s
  | some r =>
    let normalized ← policy.normalize self.rt r.original
    let keys ← policy.blockingKeys self.rt normalized
    let s := s.modifyRecord r.id fun r =>
      { r with normalized := normalized, blockingKey := keys.headD "" }
    return s.insertBlocks (keys.map fun key => {
      workspaceId := self.wid
      domainKey := domainKey
      sourceObjectId := o.id
      recordId := r.id
      blockKey := key })

/-- A new draft for an entity of the domain. -/
def redraft (s : Store) (entityId : Id) : Py Store := do
  let s := s.modifyEntity entityId fun e => { e with version := e.version + 1 }
  let (s, _) ← self.draftMaster s entityId
  return s

/-- `remaster_domain`. -/
def remasterDomain (job : DurableJob) : Py Store := do
  let domainKey := self.rt.strOf (job.payload.get "domain_key")
  match self.domain? s domainKey with
  | none => throw (.python "ValueError")
  | some domain =>
    let policy ← compilePolicy self.rt domain.definition
    if !(job.payload.get "policy_checksum").pyEq (.str policy.checksum) then
      throw (.python "ValueError")
    else
      let s := { s with blocks := s.blocks.filter fun b =>
        !(b.workspaceId = self.wid && b.domainKey = domainKey) }
      let objects := (s.objects.filter fun o => o.workspaceId = self.wid &&
        o.domainKey = domainKey && o.currentRecordId.isSome && !o.retired).insertionSort
        fun a b => a.id ≤ b.id
      let s ← objects.foldlM (self.reindex policy domainKey) s
      let entities := (s.entities.filter fun e => e.workspaceId = self.wid &&
        e.domainKey = domainKey && e.status ≠ .merged).insertionSort fun a b => a.id ≤ b.id
      let s ← (entities.map Entity.id).foldlM self.redraft s
      return self.audit s "domain.remastered" "domain" domain.id [("job_id", .str job.id),
        ("policy_checksum", .str policy.checksum), ("source_objects", .int objects.length),
        ("candidate_keys", .int (s.blocks.filter fun b =>
          b.workspaceId = self.wid && b.domainKey = domainKey).length),
        ("entities", .int entities.length)]

/-- The transaction of a worker that runs a queued job to its end. -/
def runJob (jobId : Id) : Py Store := do
  match s.jobs.find? fun j => j.id = jobId && j.workspaceId = self.wid &&
      j.kind = "remaster_domain" && j.status = .queued with
  | none => throw (.python "LookupError")
  | some job =>
    let s ← self.remasterDomain s job
    return { s with jobs := Table.modify DurableJob.id s.jobs job.id fun j =>
      { j with status := .complete } }

end MasteringService

end Recordlane
