import Recordlane.Mastering.Extraction
import Recordlane.Mastering.Remaster
import Recordlane.Library.Run

/-! The requests a workspace serves, each one transaction, and the states they lead to. -/
namespace Recordlane

/-- A request with the principal that makes it. A job is run by the worker. -/
inductive Request
  | createDomain (who : Principal) (key name mode : String) (definition : Dict)
  | createSource (who : Principal) (key name kind : String) (priority : Int)
  | replaceSource (who : Principal) (sourceKey key name kind : String) (priority : Int)
  | createRelationship (who : Principal) (fromEntityId toEntityId kind : String)
  | ingest (who : Principal) (req : IngestRequest)
  | proposeMerge (who : Principal) (entityIds : List Id) (reason : String) (dryRun : Bool)
  | proposeSplit (who : Principal) (entityId : Id) (sourceRecordIds : List Id) (reason : String)
  | decideTask (who : Principal) (taskId : Id) (decision : Decision) (reason : String)
  | createConfig (who : Principal) (document : Json)
  | revertConfig (who : Principal) (configId : Id)
  | simulate (who : Principal) (configId : Id)
  | proposeConfig (who : Principal) (configId simulationId : Id)
  | runJob (workspaceId : String) (jobId : Id)

/-- The principal of the worker's service. -/
def workerPrincipal (workspaceId : String) : Principal where
  subject := "recordlane.worker"
  issuer := "recordlane:internal"
  workspaceId := workspaceId
  roles := ["administrator"]
  scopes := none

def Request.who : Request → Principal
  | createDomain who .. | createSource who .. | replaceSource who .. | createRelationship who ..
  | ingest who .. | proposeMerge who .. | proposeSplit who .. | decideTask who ..
  | createConfig who .. | revertConfig who .. | simulate who .. | proposeConfig who .. => who
  | runJob workspaceId _ => workerPrincipal workspaceId

inductive Answer
  | done
  | ingested (answer : IngestAnswer)
  | impact (impact : MergeImpact) (taskId : Option Id)
  | task (taskId : Id)

/-- A request served: the store it commits with its answer, or an exception and no commit. -/
def serve (self : MasteringService) (s : Store) : Request → Py (Store × Py Answer)
  | .createDomain _ key name mode definition => do
    let (s, _) ← self.createDomain s key name mode definition
    return (s, .ok .done)
  | .createSource _ key name kind priority => do
    let (s, _) ← self.createSource s key name kind priority
    return (s, .ok .done)
  | .replaceSource _ sourceKey key name kind priority => do
    let (s, _) ← self.replaceSource s sourceKey key name kind priority
    return (s, .ok .done)
  | .createRelationship _ fromEntityId toEntityId kind => do
    return (← self.createRelationship s fromEntityId toEntityId kind, .ok .done)
  | .ingest _ req => do
    let (s, answer) ← self.ingest s req
    return (s, .ok (.ingested answer))
  | .proposeMerge _ entityIds reason dryRun => do
    let (s, impact, taskId) ← self.proposeMerge s entityIds reason dryRun
    return (s, .ok (.impact impact taskId))
  | .proposeSplit _ entityId sourceRecordIds reason => do
    let (s, task) ← self.proposeSplit s entityId sourceRecordIds reason
    return (s, .ok (.task task.id))
  | .decideTask _ taskId decision reason => do
    let (s, answer) ← self.decideTask s taskId decision reason
    return (s, answer.map fun _ => .task taskId)
  | .createConfig _ document => do
    let (s, _) ← self.createConfig s document
    return (s, .ok .done)
  | .revertConfig _ configId => do
    let (s, _) ← self.revertConfig s configId
    return (s, .ok .done)
  | .simulate _ configId => do
    let (s, _) ← self.simulate s configId
    return (s, .ok .done)
  | .proposeConfig _ configId simulationId => do
    let (s, task) ← self.proposeConfig s configId simulationId
    return (s, .ok (.task task.id))
  | .runJob _ jobId => do
    return (← self.runJob s jobId, .ok .done)

/-- The transaction of a request. -/
def transact (rt : Runtime) (s : Store) (request : Request) : Py (Store × Py Answer) := do
  let self ← MasteringService.start rt request.who s
  serve self s request

/-- The service: a request that raises leaves the store as it was. -/
def service (rt : Runtime) : System Store Request (Py Answer) where
  step s request :=
    match transact rt s request with
    | .ok (s, answer) => (s, answer)
    | .error e => (s, .error e)

/-- The states a workspace reaches from the empty one. -/
def Reachable (rt : Runtime) (w : Workspace) (s : Store) : Prop :=
  ∃ requests, (service rt).run (Store.empty w) requests = s

end Recordlane
