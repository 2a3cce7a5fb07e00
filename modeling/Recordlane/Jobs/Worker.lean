import Recordlane.Tables
import Recordlane.Library.Run

/-! Durable jobs: claims, heartbeats, handler transactions, failures and cancellations. Where another
session can come in between, loads and writes of a transaction are steps of their own. -/
namespace Recordlane

/-- `DurableJob.status`, as workers write it. -/
inductive QueueStatus
  | queued | running | retry | complete | failed | cancelled
  deriving DecidableEq

/-- The statuses that `cancel_job` refuses. -/
def QueueStatus.terminal : QueueStatus → Bool
  | complete | failed | cancelled => true
  | _ => false

/-- A job, with the columns that workers write. -/
structure JobRow where
  id : Id
  workspaceId : Id
  kind : String
  payload : Dict
  status : QueueStatus
  attempts : Nat
  leaseOwner : Option String
  leaseVersion : Nat
  leaseExpiresAt : Option DateTime
  cancelRequested : Bool
  lastError : Option String
  createdAt : DateTime

/-- `LEASE_SECONDS`, on a clock that counts microseconds. -/
def leaseTime : Int := 30 * 1000000

/-- `MAX_ATTEMPTS`. -/
def maxAttempts : Nat := 5

/-- The kinds of `HANDLERS`. -/
def handlers : List String := ["remaster_domain"]

/-- The row of a new job. -/
def DurableJob.row (job : DurableJob) (createdAt : DateTime) : JobRow where
  id := job.id
  workspaceId := job.workspaceId
  kind := job.kind
  payload := job.payload
  status := .queued
  attempts := 0
  leaseOwner := none
  leaseVersion := 0
  leaseExpiresAt := none
  cancelRequested := false
  lastError := none
  createdAt := createdAt

namespace JobRow

variable (j : JobRow)

/-- Whether `claim_one` may take the job. -/
def claimable (now : DateTime) : Bool :=
  (j.status = .queued || j.status = .retry || j.status = .running) &&
    match j.leaseExpiresAt with
    | some expiry => expiry < now
    | none => true

def released : JobRow := { j with leaseOwner := none, leaseExpiresAt := none }

def cancelled : JobRow := { j.released with status := .cancelled }

def claimed (worker : String) (now : DateTime) : JobRow :=
  { j with
    status := .running
    leaseOwner := some worker
    leaseVersion := j.leaseVersion + 1
    leaseExpiresAt := some (now + leaseTime)
    attempts := j.attempts + 1 }

/-- Whether a worker holds the claim of this fence. -/
def heldBy (worker : String) (fence : Nat) : Bool :=
  j.leaseOwner = some worker && j.leaseVersion = fence

def unknownKind : JobRow :=
  { j.released with status := .failed, lastError := some ("unknown_job_kind:" ++ j.kind) }

/-- The row of a completed job; the result goes into the payload that was loaded. -/
def completed (payload result : Dict) : JobRow :=
  { j.released with
    status := .complete
    payload := payload.set "result" (.obj result)
    lastError := none }

/-- The row of a job whose execution raised. -/
def raised (error : String) : JobRow :=
  { j.released with
    status := if j.attempts ≥ maxAttempts then .failed else .retry
    lastError := some error }

/-- An UPDATE by primary key: it writes the columns in which a copy is no longer as it was read. -/
def flush (before after stored : JobRow) : JobRow :=
  { stored with
    status := if after.status = before.status then stored.status else after.status
    leaseOwner := if after.leaseOwner = before.leaseOwner then stored.leaseOwner else after.leaseOwner
    leaseExpiresAt :=
      if after.leaseExpiresAt = before.leaseExpiresAt then stored.leaseExpiresAt
      else after.leaseExpiresAt
    lastError := if after.lastError = before.lastError then stored.lastError else after.lastError }

end JobRow

/-- How far a call of `run_once` has come. -/
inductive Phase
  | claimed
  | handling (job : JobRow)
  | leaving (before after : JobRow)
  | handled (job : JobRow) (result : Dict)
  | raised (error : String)
  | recovering (before after : JobRow)
  | committed
  | over

/-- A call of `run_once` that claimed a job. `lost` is `heartbeat_lost`, `started` tells whether the
handler was called. -/
structure Execution where
  worker : String
  jobId : Id
  fence : Nat
  lost : Bool
  started : Bool
  phase : Phase

/-- The jobs, the executions so far and the calls of `cancel_job` that have yet to write. -/
structure Queue where
  jobs : List JobRow
  executions : List Execution
  cancellations : List JobRow

def Queue.empty : Queue := ⟨[], [], []⟩

/-- What happens to the queue. Executions and cancellations are named by their place; every reading
of a clock is given, as workers have clocks of their own. -/
inductive JobAct
  | enqueue (job : DurableJob) (createdAt : DateTime)
  | claim (worker : String) (now : DateTime) (locked : List Id)
  | renew (i : Nat) (now : DateTime)
  | load (i : Nat)
  | leave (i : Nat)
  | handle (i : Nat) (result : Dict)
  | fail (i : Nat) (error : String)
  | complete (i : Nat)
  | recover (i : Nat)
  | record (i : Nat)
  | kill (i : Nat)
  | requestCancel (workspaceId jobId : Id)
  | cancel (k : Nat)

namespace Queue

variable (q : Queue)

def job? (id : Id) : Option JobRow := Table.find JobRow.id q.jobs id

def modifyJob (id : Id) (f : JobRow → JobRow) : Queue :=
  { q with jobs := Table.modify JobRow.id q.jobs id f }

def setExecution (i : Nat) (e : Execution) : Queue := { q with executions := q.executions.set i e }

/-- The changed columns of a copy are written. -/
def update (before after : JobRow) : Queue := q.modifyJob before.id (before.flush after)

/-- The oldest job that is claimable, other transactions' rows being skipped. -/
def oldest? (now : DateTime) (locked : List Id) : Option JobRow :=
  ((q.jobs.filter fun j => j.claimable now && !locked.contains j.id).insertionSort fun a b =>
    a.createdAt ≤ b.createdAt).head?

/-- `claim_one`: one transaction that keeps the row locked. -/
def claim (worker : String) (now : DateTime) (locked : List Id) : Queue :=
  match q.oldest? now locked with
  | none => q
  | some job =>
    if job.cancelRequested then q.modifyJob job.id JobRow.cancelled
    else
      let q := q.modifyJob job.id fun j => j.claimed worker now
      { q with executions := q.executions ++ [{
          worker := worker
          jobId := job.id
          fence := job.leaseVersion + 1
          lost := false
          started := false
          phase := .claimed }] }

/-- Whether `renew_lease` finds the row of its claim. -/
def renewable (e : Execution) (j : JobRow) : Bool :=
  j.id = e.jobId && j.heldBy e.worker e.fence && j.status = .running && !j.cancelRequested

def renewedBy (e : Execution) (now : DateTime) (j : JobRow) : JobRow :=
  if renewable e j then { j with leaseExpiresAt := some (now + leaseTime) } else j

/-- `renew_lease`, and what the heartbeat makes of its answer. -/
def renew (i : Nat) (e : Execution) (now : DateTime) : Queue :=
  if q.jobs.any (renewable e) then { q with jobs := q.jobs.map (renewedBy e now) }
  else q.setExecution i { e with lost := true }

/-- The transaction of `run_once` reads the job and checks it. -/
def load (i : Nat) (e : Execution) : Queue :=
  match q.job? e.jobId with
  | none => q.setExecution i { e with phase := .over }
  | some job =>
    if !job.heldBy e.worker e.fence then q.setExecution i { e with phase := .over }
    else if job.cancelRequested then q.setExecution i { e with phase := .leaving job job.cancelled }
    else if !handlers.contains job.kind then
      q.setExecution i { e with phase := .leaving job job.unknownKind }
    else q.setExecution i { e with started := true, phase := .handling job }

/-- Whether the conditional UPDATE finds the row of its claim. -/
def completable (e : Execution) (j : JobRow) : Bool :=
  j.id = e.jobId && j.heldBy e.worker e.fence && !j.cancelRequested

def completedBy (e : Execution) (payload result : Dict) (j : JobRow) : JobRow :=
  if completable e j then j.completed payload result else j

/-- The end of the handler's transaction: the heartbeat is asked, then the row is completed. -/
def complete (i : Nat) (e : Execution) (job : JobRow) (result : Dict) : Queue :=
  if e.lost || !q.jobs.any (completable e) then
    q.setExecution i { e with phase := .raised "RuntimeError" }
  else
    { q.setExecution i { e with phase := .committed } with
      jobs := q.jobs.map (completedBy e job.payload result) }

/-- After an exception, a transaction of its own reads the job and checks it. -/
def recover (i : Nat) (e : Execution) (error : String) : Queue :=
  match q.job? e.jobId with
  | none => q.setExecution i { e with phase := .over }
  | some job =>
    if job.heldBy e.worker e.fence then
      q.setExecution i { e with phase := .recovering job (job.raised error) }
    else q.setExecution i { e with phase := .over }

/-- The read of `cancel_job` and its checks. -/
def requestCancel (workspaceId jobId : Id) : Queue :=
  match q.jobs.find? fun j => j.id = jobId && j.workspaceId = workspaceId with
  | none => q
  | some job =>
    if job.status.terminal then q else { q with cancellations := q.cancellations ++ [job] }

/-- A step of one execution, where its phase allows it. -/
def advance (i : Nat) (f : Execution → Option Queue) : Option Queue := q.executions[i]?.bind f

/-- One step of a worker, of a heartbeat or of `cancel_job`, where it can be taken. -/
def step : JobAct → Option Queue
  | .enqueue job createdAt =>
    if q.jobs.any (fun j => j.id = job.id) then none
    else some { q with jobs := q.jobs ++ [job.row createdAt] }
  | .claim worker now locked => some (q.claim worker now locked)
  | .renew i now => q.advance i fun e => if e.lost then none else some (q.renew i e now)
  | .load i => q.advance i fun e =>
    match e.phase with
    | .claimed => some (q.load i e)
    | _ => none
  | .leave i => q.advance i fun e =>
    match e.phase with
    | .leaving before after => some ((q.update before after).setExecution i { e with phase := .over })
    | _ => none
  | .handle i result => q.advance i fun e =>
    match e.phase with
    | .handling job => some (q.setExecution i { e with phase := .handled job result })
    | _ => none
  | .fail i error => q.advance i fun e =>
    match e.phase with
    | .claimed | .handling _ | .leaving .. | .handled .. =>
      some (q.setExecution i { e with phase := .raised error })
    | _ => none
  | .complete i => q.advance i fun e =>
    match e.phase with
    | .handled job result => some (q.complete i e job result)
    | _ => none
  | .recover i => q.advance i fun e =>
    match e.phase with
    | .raised error => some (q.recover i e error)
    | _ => none
  | .record i => q.advance i fun e =>
    match e.phase with
    | .recovering before after =>
      some ((q.update before after).setExecution i { e with phase := .over })
    | _ => none
  | .kill i => q.advance i fun e =>
    match e.phase with
    | .committed | .over => none
    | _ => some (q.setExecution i { e with phase := .over })
  | .requestCancel workspaceId jobId => some (q.requestCancel workspaceId jobId)
  | .cancel k => q.cancellations[k]?.map fun job =>
    { q.modifyJob job.id fun j => { j with cancelRequested := true } with
      cancellations := q.cancellations.eraseIdx k }

end Queue

/-- The queue under its workers: an act that cannot be taken leaves it as it was. -/
def jobQueue : System Queue JobAct Unit where
  step q act := ((q.step act).getD q, ())

end Recordlane
