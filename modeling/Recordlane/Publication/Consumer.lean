import Recordlane.Canonical
import Recordlane.Publication.Receipts
import Recordlane.Webhooks

/-! The consumer of the events, and its connection to publication: a network on which requests and
answers get lost, and on which others send requests too. -/
namespace Recordlane

/-- A row of the consumer's table `events`. -/
structure StoredEvent where
  eventId : Json
  entityId : Json
  entityVersion : Json
  payload : String
  receivedAt : String

/-- A POST of `/events` with its headers and the time it comes at. -/
structure EventRequest where
  body : String
  signature : Option String
  timestamp : Option String
  simulate : Option String
  time : ℚ

/-- What a POST comes to: an exception that nobody handles, a refusal, or an event that is there. -/
inductive Reception
  | failed
  | refused (detail : String)
  | kept (eventId : Json) (inserted : Bool)

namespace Reception

def isKept : Reception → Bool
  | kept _ _ => true
  | _ => false

/-- The status of the answer. A response can be lost on purpose, after the commit. -/
def statusCode (simulate : Option String) : Reception → Nat
  | failed => 500
  | refused _ => 401
  | kept _ _ => if simulate = some "lost-response-after-commit" then 504 else 200

def body (simulate : Option String) : Reception → Json
  | failed => .str "Internal Server Error"
  | refused detail => .obj [("detail", .str detail)]
  | kept eventId inserted =>
    if simulate = some "lost-response-after-commit" then
      .obj [("detail", .str "simulated lost response after durable consumer commit")]
    else .obj [("accepted", .bool true),
      ("business_effect", .str (if inserted then "inserted" else "deduplicated")),
      ("event_id", eventId)]

end Reception

/-- The consumer, and what it takes from `hmac`, `json` and `sqlite3`: the text of a float, and what
becomes of a text in a column of numbers. -/
structure Consumer where
  secret : String
  hmac : String → String → String
  loads : String → Option Json
  parseFloat : String → Option (Extended ℚ)
  isoformat : ℚ → String
  realText : ℚ → String
  numeric : String → Json

namespace Consumer

variable (self : Consumer) (stored : List StoredEvent)

/-- An integer that `sqlite3` binds. -/
def fits (i : Int) : Bool := -2 ^ 63 ≤ i && i < 2 ^ 63

/-- A parameter in a column of type TEXT. Lists and maps cannot be bound. -/
def text : Json → Option Json
  | .null => some .null
  | .bool b => some (.str (if b then "1" else "0"))
  | .int i => if fits i then some (.str (toString i)) else none
  | .float q => some (.str (self.realText q))
  | .str s => some (.str s)
  | .arr _ | .obj _ => none

/-- A parameter in a column of type INTEGER. -/
def integer : Json → Option Json
  | .null => some .null
  | .bool b => some (.int (if b then 1 else 0))
  | .int i => if fits i then some (.int i) else none
  | .float q => some (if q.den = 1 && fits q.num then .int q.num else .float q)
  | .str s => some (self.numeric s)
  | .arr _ | .obj _ => none

/-- Why a request is not let in. -/
def refusal (request : EventRequest) : Option String :=
  match request.signature.filter (· ≠ ""), request.timestamp.filter (· ≠ "") with
  | some signature, some timestamp =>
    match self.parseFloat timestamp with
    | none => some "invalid timestamp"
    | some time =>
      if .finite 300 < (.finite request.time - time).abs then some "signature timestamp expired"
      else if self.secret = "" || self.hmac self.secret (timestamp ++ "." ++ request.body) ≠ signature then
        some "invalid signature"
      else none
  | _, _ => some "signature required"

/-- The row of a payload, where its values can be bound. -/
def row (payload : Dict) (body receivedAt : String) : Option StoredEvent := do
  let eventId ← payload.get? "event_id"
  let eventId ← self.text eventId
  let entityId ← self.text (payload.get "entity_id")
  let entityVersion ← self.integer (payload.get "entity_version")
  return ⟨eventId, entityId, entityVersion, body, receivedAt⟩

/-- `INSERT OR IGNORE`: the event id is the primary key, which null does not count for. -/
def insert (r : StoredEvent) : List StoredEvent × Bool :=
  if r.eventId ≠ .null && stored.any fun r' => r'.eventId = r.eventId then (stored, false)
  else (stored ++ [r], true)

/-- `receive_event`. -/
def receiveEvent (request : EventRequest) : List StoredEvent × Reception :=
  match self.loads request.body with
  | none => (stored, .failed)
  | some payload =>
    match self.refusal request with
    | some detail => (stored, .refused detail)
    | none =>
      match payload with
      | .obj payload =>
        match self.row payload request.body (self.isoformat request.time) with
        | none => (stored, .failed)
        | some r =>
          let (stored, inserted) := insert stored r
          (stored, .kept (Dict.get payload "event_id") inserted)
      | _ => (stored, .failed)

/-- `event_receipt`. -/
def eventReceipt (eventId : Id) : Nat × Json :=
  match stored.find? fun r => r.eventId = .str eventId with
  | none => (404, .obj [("detail", .str "event not found")])
  | some r => (200, .obj [("event_id", .str eventId), ("entity_id", r.entityId),
      ("entity_version", r.entityVersion), ("received_at", .str r.receivedAt)])

end Consumer

def PostOutcome.succeeds : PostOutcome → Bool
  | response statusCode => 200 ≤ statusCode && statusCode < 300
  | _ => false

def ReceiptAnswer.succeeds : ReceiptAnswer → Bool
  | response statusCode _ => 200 ≤ statusCode && statusCode < 300
  | _ => false

/-- How a request and its answer travel: whether the request arrives, and what comes back in place of
the answer. Nobody but the consumer answers with success. -/
structure Transit (α : Type) (succeeds : α → Bool) where
  arrives : Bool
  back : Option α
  comesBack : arrives || back.isSome
  noSuccess : ∀ a ∈ back, succeeds a = false

/-- The desk of the publisher and the table of the consumer. -/
structure Channel where
  desk : Desk
  stored : List StoredEvent

def Channel.empty : Channel := ⟨Desk.empty, []⟩

/-- What happens at either end. Requests of others can be anything, copies of signed ones too. -/
inductive ChannelAct
  | desk (act : Act)
  | post (i : Nat) (simulate : Option String) (sentAt : Int) (time : ℚ)
      (transit : Transit PostOutcome PostOutcome.succeeds)
  | ask (i : Nat) (transit : Transit ReceiptAnswer ReceiptAnswer.succeeds)
  | foreign (request : EventRequest)

/-- A publisher and its consumer. -/
structure Connection where
  publisher : Publisher
  consumer : Consumer
  webhookSecret : Option String
  /-- `json.dumps(payload, sort_keys=True, separators=(",", ":"))`. -/
  dumps : Dict → String

namespace Connection

variable (self : Connection) (c : Channel)

/-- The request in which `relay_events` sends an event. -/
def request (event : OutboxRow) (simulate : Option String) (sentAt : Int) (time : ℚ) : EventRequest where
  body := self.dumps event.payload
  signature := some (self.consumer.hmac (self.webhookSecret.getD "")
    (toString sentAt ++ "." ++ self.dumps event.payload))
  timestamp := some (toString sentAt)
  simulate := simulate
  time := time

/-- An event goes to the consumer. -/
def post (i : Nat) (event : OutboxRow) (simulate : Option String) (sentAt : Int) (time : ℚ)
    (transit : Transit PostOutcome PostOutcome.succeeds) : Channel :=
  let received := self.consumer.receiveEvent c.stored (self.request event simulate sentAt time)
  { desk := self.publisher.desk.next c.desk (.post i
      (transit.back.getD (.response (received.2.statusCode simulate)))
      (transit.arrives && received.2.isKept))
    stored := if transit.arrives then received.1 else c.stored }

/-- The consumer is asked for a receipt. -/
def ask (i : Nat) (event : OutboxRow) (transit : Transit ReceiptAnswer ReceiptAnswer.succeeds) :
    Channel :=
  let receipt := Consumer.eventReceipt c.stored event.id
  { c with desk := self.publisher.desk.next c.desk (.ask i
      (transit.back.getD (.response receipt.1 (.ok receipt.2)))) }

/-- The exchanges with the consumer are those of its own; all else is up to the desk. -/
def step : ChannelAct → Channel
  | .desk (.post _ _ _) | .desk (.ask _ _) => c
  | .desk act => { c with desk := self.publisher.desk.next c.desk act }
  | .post i simulate sentAt time transit =>
    match c.desk.calls[i]? with
    | some (.claimed _ event _) => self.post c i event simulate sentAt time transit
    | _ => c
  | .ask i transit =>
    match c.desk.calls[i]? with
    | some (.reconciling _ _ (event :: _)) => self.ask c i event transit
    | _ => c
  | .foreign request => { c with stored := (self.consumer.receiveEvent c.stored request).1 }

/-- Publication and its consumer. -/
def system : System Channel ChannelAct Unit where
  step c act := (self.step c act, ())

end Connection

end Recordlane
