import Recordlane.Tables
import Recordlane.Library.Run

/-! Publication: events are relayed to a consumer, and uncertain deliveries are reconciled. Loads,
commits and exchanges with the consumer are steps of their own, so that calls can overlap. -/
namespace Recordlane

/-- `OutboxEvent.status`. -/
inductive EventStatus
  | pending | retry | reconcile | delivered | deadLetter
  deriving DecidableEq

def EventStatus.name : EventStatus → String
  | pending => "pending"
  | retry => "retry"
  | reconcile => "reconcile"
  | delivered => "delivered"
  | deadLetter => "dead_letter"

/-- `DeliveryAttempt.status`. -/
inductive AttemptStatus
  | sending | accepted | ambiguous | rejected | failed
  deriving DecidableEq

/-- `PublicationReceipt.outcome`. -/
inductive ReceiptOutcome
  | acceptedResponse | reconciled
  deriving DecidableEq

/-- An event of the outbox, with the columns that publication writes. -/
structure OutboxRow where
  id : Id
  workspaceId : Id
  entityId : Option Id
  entityVersion : Option Nat
  payload : Dict
  status : EventStatus
  attempts : Nat
  lastError : Option String
  occurredAt : DateTime

/-- The row a new event has. -/
def OutboxEvent.row (e : OutboxEvent) : OutboxRow where
  id := e.id
  workspaceId := e.workspaceId
  entityId := e.entityId
  entityVersion := e.entityVersion
  payload := e.payload
  status := .pending
  attempts := 0
  lastError := none
  occurredAt := e.occurredAt

/-- An UPDATE by primary key: it writes the columns in which a copy is no longer as it was read. -/
def OutboxRow.flush (before after stored : OutboxRow) : OutboxRow :=
  { stored with
    status := if after.status = before.status then stored.status else after.status
    attempts := if after.attempts = before.attempts then stored.attempts else after.attempts
    lastError := if after.lastError = before.lastError then stored.lastError else after.lastError }

structure DeliveryAttempt where
  workspaceId : Id
  eventId : Id
  consumerKey : String
  attempt : Nat
  status : AttemptStatus
  responseCode : Option Nat
  error : Option String

structure PublicationReceipt where
  workspaceId : Id
  eventId : Id
  consumerKey : String
  entityVersion : Option Nat
  outcome : ReceiptOutcome

structure Settings where
  publicationUrl : Option String
  publicationReceiptUrl : Option String
  publicationConsumerKey : String

/-- The exceptions of `httpx`. A body that cannot be decoded belongs to a response with some status. -/
inductive HttpxException
  | connectTimeout | readTimeout | writeTimeout | poolTimeout
  | connectError | readError | writeError | closeError
  | localProtocolError | remoteProtocolError | proxyError | unsupportedProtocol
  | decodingError (statusCode : Nat) | tooManyRedirects | httpStatusError
  | invalidURL | cookieConflict | streamError
  deriving DecidableEq

namespace HttpxException

def name : HttpxException → String
  | connectTimeout => "ConnectTimeout"
  | readTimeout => "ReadTimeout"
  | writeTimeout => "WriteTimeout"
  | poolTimeout => "PoolTimeout"
  | connectError => "ConnectError"
  | readError => "ReadError"
  | writeError => "WriteError"
  | closeError => "CloseError"
  | localProtocolError => "LocalProtocolError"
  | remoteProtocolError => "RemoteProtocolError"
  | proxyError => "ProxyError"
  | unsupportedProtocol => "UnsupportedProtocol"
  | decodingError _ => "DecodingError"
  | tooManyRedirects => "TooManyRedirects"
  | httpStatusError => "HTTPStatusError"
  | invalidURL => "InvalidURL"
  | cookieConflict => "CookieConflict"
  | streamError => "StreamError"

/-- `isinstance(exc, httpx.HTTPError)`. -/
def isHTTPError : HttpxException → Bool
  | invalidURL | cookieConflict | streamError => false
  | _ => true

end HttpxException

/-- How a POST ends: with a response, with an exception, or with the process. -/
inductive PostOutcome
  | response (statusCode : Nat)
  | raised (exc : HttpxException)
  | killed
  deriving DecidableEq

/-- The exceptions of `response.json()`: a text that is none, or no JSON, a number with too many digits,
and lists or maps that are nested too deeply. -/
inductive JsonException
  | unicodeDecodeError | jsonDecodeError | valueError | recursionError
  deriving DecidableEq

namespace JsonException

def name : JsonException → String
  | unicodeDecodeError => "UnicodeDecodeError"
  | jsonDecodeError => "JSONDecodeError"
  | valueError => "ValueError"
  | recursionError => "RecursionError"

/-- `isinstance(exc, ValueError)`. -/
def isValueError : JsonException → Bool
  | recursionError => false
  | _ => true

end JsonException

/-- How the GET of a receipt ends. A body that cannot be read is the exception that its reading raises. -/
inductive ReceiptAnswer
  | response (statusCode : Nat) (body : Except JsonException Json)
  | raised (exc : HttpxException)
  | killed

/-- What a receipt tells of an event. -/
inductive Reading
  | absent
  | verified
  | unresolved (error : String)
  deriving DecidableEq

/-- An exchange with the consumer. Whether the consumer took the event of a POST is not known here. -/
inductive Exchange
  | post (event : OutboxRow) (outcome : PostOutcome) (taken : Bool)
  | receipt (eventId : Id) (answer : ReceiptAnswer)

/-- The answer of `relay_events`. -/
structure RelayResult where
  processed : Nat
  delivered : Nat
  failed : Nat
  ambiguous : Nat
  deriving DecidableEq

def RelayResult.count (r : RelayResult) : AttemptStatus → RelayResult
  | .accepted => { r with delivered := r.delivered + 1 }
  | .ambiguous => { r with ambiguous := r.ambiguous + 1 }
  | .rejected | .failed => { r with failed := r.failed + 1 }
  | .sending => r

/-- The answer of `reconcile_events`. -/
structure ReconcileResult where
  processed : Nat
  verified : Nat
  absent : Nat
  unresolved : Nat
  deriving DecidableEq

def ReconcileResult.count (r : ReconcileResult) : Reading → ReconcileResult
  | .absent => { r with absent := r.absent + 1 }
  | .verified => { r with verified := r.verified + 1 }
  | .unresolved _ => { r with unresolved := r.unresolved + 1 }

/-- A copy that `reconcile_events` has worked on. `existing` tells of a receipt that was there. -/
structure Finding where
  before : OutboxRow
  reading : Reading
  existing : Bool

/-- A call in progress, or over. The copies it holds are as it loaded them. -/
inductive Call
  | relaying (result : RelayResult) (todo : List OutboxRow)
  | claimed (result : RelayResult) (event : OutboxRow) (todo : List OutboxRow)
  | posted (result : RelayResult) (event : OutboxRow) (outcome : PostOutcome)
      (status : AttemptStatus) (todo : List OutboxRow)
  | reconciling (result : ReconcileResult) (findings : List Finding) (todo : List OutboxRow)
  | relayed (result : RelayResult)
  | reconciled (result : ReconcileResult)
  | failed

def Call.over : Call → Bool
  | relayed _ | reconciled _ | failed => true
  | _ => false

/-- The tables of publication, the calls made so far and the exchanges they had. -/
structure Desk where
  events : List OutboxRow
  attempts : List DeliveryAttempt
  receipts : List PublicationReceipt
  calls : List Call
  exchanges : List Exchange
  reads : Nat

def Desk.empty : Desk := ⟨[], [], [], [], [], 0⟩

namespace Desk

variable (d : Desk)

def setCall (i : Nat) (call : Call) : Desk := { d with calls := d.calls.set i call }

/-- The changed columns of a copy are written. -/
def update (before after : OutboxRow) : Desk :=
  { d with events := Table.modify OutboxRow.id d.events before.id (before.flush after) }

end Desk

/-- What happens at the desk. Calls are named by their place; mastering commits new events. -/
inductive Act
  | commit (event : OutboxEvent)
  | relay (workspaceId : Id)
  | claim (i : Nat)
  | post (i : Nat) (outcome : PostOutcome) (taken : Bool)
  | record (i : Nat)
  | reconcile (workspaceId : Id)
  | ask (i : Nat) (answer : ReceiptAnswer)
  | settle (i : Nat)
  | crash (i : Nat)

/-- A process that publishes. -/
structure Publisher where
  rt : Runtime
  settings : Settings

namespace Publisher

variable (self : Publisher) (d : Desk)

/-- `_receipt_url`. -/
def receiptUrl (eventId : Id) : Py String :=
  match ((self.settings.publicationReceiptUrl.filter (· ≠ "")).or
      self.settings.publicationUrl).filter (· ≠ "") with
  | none => .error (.python "ValueError")
  | some base => .ok ((base.dropEndWhile '/').toString ++ "/" ++ eventId)

/-- The receipt of an event for this consumer. -/
def isReceipt (event : OutboxRow) (r : PublicationReceipt) : Bool :=
  r.eventId = event.id && r.consumerKey = self.settings.publicationConsumerKey

/-- `_receipt`: an existing receipt is brought up to date, a new one is added. -/
def receipt (existing : Bool) (event : OutboxRow) (outcome : ReceiptOutcome)
    (receipts : List PublicationReceipt) : List PublicationReceipt :=
  if existing then receipts.map fun r =>
    if self.isReceipt event r then { r with entityVersion := event.entityVersion, outcome := outcome }
    else r
  else receipts ++ [{
    workspaceId := event.workspaceId
    eventId := event.id
    consumerKey := self.settings.publicationConsumerKey
    entityVersion := event.entityVersion
    outcome := outcome }]

/-- The oldest hundred events of a workspace in one of some statuses. -/
def load (workspaceId : Id) (statuses : List EventStatus) : List OutboxRow :=
  ((self.rt.scan d.reads (d.events.filter fun e =>
    e.workspaceId = workspaceId && statuses.contains e.status)).insertionSort fun a b =>
      a.occurredAt ≤ b.occurredAt).take 100

/-- The attempt under the number of the claimed event. -/
def isAttempt (event : OutboxRow) (a : DeliveryAttempt) : Bool :=
  a.eventId = event.id && a.consumerKey = self.settings.publicationConsumerKey &&
    a.attempt = event.attempts

/-- The event once it is claimed: the uncertainty marker. -/
def claimed (event : OutboxRow) : OutboxRow :=
  { event with attempts := event.attempts + 1, status := .reconcile }

/-- What an attempt comes to. An exception outside the two `except` clauses ends the relay. -/
def attemptStatus : PostOutcome → Option AttemptStatus
  | .response statusCode => some (
    if 200 ≤ statusCode ∧ statusCode < 300 then .accepted
    else if statusCode = 429 ∨ 500 ≤ statusCode then .ambiguous
    else .rejected)
  | .raised exc =>
    if exc = .readTimeout ∨ exc = .writeError ∨ exc = .readError then some .ambiguous
    else if exc.isHTTPError then some .failed
    else none
  | .killed => none

/-- What an event comes to after its attempt. -/
def eventStatus (attempts : Nat) : AttemptStatus → EventStatus
  | .accepted => .delivered
  | .sending | .ambiguous => .reconcile
  | .rejected | .failed => if attempts ≥ 5 then .deadLetter else .retry

def errorText : PostOutcome → Option String
  | .response statusCode => some ("HTTP_" ++ toString statusCode)
  | .raised exc => some exc.name
  | .killed => none

/-- The event with the outcome of its attempt. -/
def recorded (event : OutboxRow) (outcome : PostOutcome) (status : AttemptStatus) : OutboxRow :=
  { event with
    status := eventStatus event.attempts status
    lastError := if status = .accepted then none else errorText outcome }

/-- The attempt with its outcome. -/
def finished (outcome : PostOutcome) (status : AttemptStatus) (a : DeliveryAttempt) : DeliveryAttempt :=
  { a with
    status := status
    responseCode := match outcome with
      | .response statusCode => some statusCode
      | _ => none
    error := if status = .accepted then none else errorText outcome }

/-- The marker of an attempt is committed. Two attempts of one number violate a constraint. -/
def claim (i : Nat) (result : RelayResult) (event : OutboxRow) (todo : List OutboxRow) : Desk :=
  if d.attempts.any (self.isAttempt (claimed event)) then d.setCall i .failed
  else
    let d := d.update event (claimed event)
    let attempts := d.attempts ++ [{
      workspaceId := event.workspaceId
      eventId := event.id
      consumerKey := self.settings.publicationConsumerKey
      attempt := event.attempts + 1
      status := .sending
      responseCode := none
      error := none }]
    { d.setCall i (.claimed result (claimed event) todo) with attempts := attempts }

/-- The event goes out. -/
def post (i : Nat) (result : RelayResult) (event : OutboxRow) (todo : List OutboxRow)
    (outcome : PostOutcome) (taken : Bool) : Desk :=
  let d : Desk := { d with exchanges := d.exchanges ++ [Exchange.post event outcome taken] }
  match attemptStatus outcome with
  | some status => d.setCall i (.posted result event outcome status todo)
  | none => d.setCall i .failed

/-- The outcome of an attempt is committed. -/
def record (i : Nat) (result : RelayResult) (event : OutboxRow) (outcome : PostOutcome)
    (status : AttemptStatus) (todo : List OutboxRow) : Desk :=
  let d := d.update event (recorded event outcome status)
  let d : Desk := { d with
    attempts := d.attempts.map fun a =>
      if self.isAttempt event a then finished outcome status a else a
    receipts := if status = .accepted then
        self.receipt (d.receipts.any (self.isReceipt event)) event .acceptedResponse d.receipts
      else d.receipts }
  d.setCall i (.relaying (result.count status) todo)

/-- What the answer of the consumer tells. Some exceptions end the reconciliation. -/
def reading (event : OutboxRow) : ReceiptAnswer → Option Reading
  | .response statusCode body =>
    if statusCode = 404 then some .absent
    else if ¬ (200 ≤ statusCode ∧ statusCode < 300) then some (.unresolved "HTTPStatusError")
    else match body with
      | .error exc => if exc.isValueError then some (.unresolved exc.name) else none
      | .ok (.obj payload) =>
        if ¬ (Dict.get payload "event_id").pyEq (.str event.id) ∨
            ¬ (Dict.get payload "entity_version").pyEq
            ((event.entityVersion.map fun n => .int n).getD .null) then
          some (.unresolved "consumer_receipt_mismatch")
        else some .verified
      | .ok _ => none
  | .raised exc => if exc.isHTTPError then some (.unresolved exc.name) else none
  | .killed => none

/-- The event with what its receipt tells. -/
def reconciled (event : OutboxRow) : Reading → OutboxRow
  | .absent => { event with status := .retry, lastError := some "consumer_receipt_absent" }
  | .verified => { event with status := .delivered, lastError := none }
  | .unresolved error => { event with lastError := some error }

/-- The consumer is asked for the receipt of an event. -/
def ask (i : Nat) (result : ReconcileResult) (findings : List Finding) (event : OutboxRow)
    (todo : List OutboxRow) (answer : ReceiptAnswer) : Desk :=
  let found (reading : Reading) : Call :=
    .reconciling (result.count reading)
      (findings ++ [⟨event, reading, d.receipts.any (self.isReceipt event)⟩]) todo
  match self.receiptUrl event.id with
  | .error _ => d.setCall i (found (.unresolved "ValueError"))
  | .ok _ =>
    let d : Desk := { d with exchanges := d.exchanges ++ [Exchange.receipt event.id answer] }
    match reading event answer with
    | some reading => d.setCall i (found reading)
    | none => d.setCall i .failed

/-- What was found is committed at once. A receipt that came in between violates a constraint. -/
def settle (i : Nat) (result : ReconcileResult) (findings : List Finding) : Desk :=
  if findings.any fun f => f.reading = .verified && !f.existing &&
      d.receipts.any (self.isReceipt f.before) then d.setCall i .failed
  else
    let d := findings.foldl (fun d f => d.update f.before (reconciled f.before f.reading)) d
    let receipts := (findings.filter fun f => f.reading = .verified).foldl
      (fun receipts f => self.receipt f.existing f.before .reconciled receipts) d.receipts
    { d.setCall i (.reconciled result) with receipts := receipts }

/-- One step of mastering, of `relay_events` or of `reconcile_events`, where it can be taken. -/
def step : Act → Option Desk
  | .commit event =>
    if d.events.any fun e => e.id = event.id then none
    else some { d with events := d.events ++ [event.row] }
  | .relay workspaceId =>
    let events := self.load d workspaceId [.pending, .retry]
    some { d with calls := d.calls ++ [.relaying ⟨events.length, 0, 0, 0⟩ events], reads := d.reads + 1 }
  | .claim i =>
    match d.calls[i]? with
    | some (.relaying result (event :: todo)) => some (self.claim d i result event todo)
    | some (.relaying result []) => some (d.setCall i (.relayed result))
    | _ => none
  | .post i outcome taken =>
    match d.calls[i]? with
    | some (.claimed result event todo) => some (post d i result event todo outcome taken)
    | _ => none
  | .record i =>
    match d.calls[i]? with
    | some (.posted result event outcome status todo) =>
      some (self.record d i result event outcome status todo)
    | _ => none
  | .reconcile workspaceId =>
    let events := self.load d workspaceId [.reconcile]
    some { d with
      calls := d.calls ++ [.reconciling ⟨events.length, 0, 0, 0⟩ [] events], reads := d.reads + 1 }
  | .ask i answer =>
    match d.calls[i]? with
    | some (.reconciling result findings (event :: todo)) =>
      some (self.ask d i result findings event todo answer)
    | _ => none
  | .settle i =>
    match d.calls[i]? with
    | some (.reconciling result findings []) => some (self.settle d i result findings)
    | _ => none
  | .crash i =>
    match d.calls[i]? with
    | some call => if call.over then none else some (d.setCall i .failed)
    | none => none

/-- Publication: an act that cannot be taken leaves the desk as it was. -/
def desk : System Desk Act Unit where
  step d act := ((self.step d act).getD d, ())

end Publisher

end Recordlane
