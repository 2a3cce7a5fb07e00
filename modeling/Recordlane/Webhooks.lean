import Recordlane.Auth.Session
import Recordlane.Supplier
import Mathlib.Data.List.Infix

/-! Inbound webhooks: signed events, their records, and the endpoint between its two commits. -/
namespace Recordlane

/-- What the endpoint reads besides the database, and the libraries it calls: `hmac`, `json.loads`,
`read_text`, and the validation of `IncomingRecord` from the fields of an object. -/
structure WebhookServer where
  rt : Runtime
  crypto : Crypto
  hmac : String → String → String
  loads : String → Option Json
  readText : String → Option String
  incomingRecord : Dict → Option IncomingRecord
  /-- The configuration of a source, by its id. -/
  config : Id → Dict

/-- A request of `/webhooks/{workspace_slug}/{source_key}` with its headers and the time it comes at. -/
structure SignedRequest where
  workspaceSlug : String
  sourceKey : String
  signature : Option String
  timestamp : Option String
  body : String
  receivedAt : ℚ

/-- `isinstance(v, int)` with `int(v)`. -/
def Json.int? : Json → Option Int
  | .int i => some i
  | .bool b => some (if b then 1 else 0)
  | _ => none

/-- `left or right`. -/
def Json.orElse (left right : Json) : Json := if left.truthy then left else right

/-- A `ValueError`, of which a failed validation is one, becomes the caller's error. -/
def refuseValue {α : Type} (status : Nat) (code : String) : Py α → Py α
  | .error (.python "ValueError") | .error (.validation _) => httpError status code []
  | other => other

/-- `verify_hmac`. -/
def verifyHmac (svr : WebhookServer) (receivedAt : ℚ) (body timestamp signature secret : String) : Py Dict :=
  match svr.rt.parseFloat timestamp with
  | none => .error (.python "ValueError")
  | some time =>
    if .finite 300 < (.finite receivedAt - time).abs then .error (.python "ValueError")
    else if secret = "" || svr.hmac secret (timestamp ++ "." ++ body) ≠ signature then
      .error (.python "ValueError")
    else match svr.loads body with
      | some (.obj envelope) => .ok envelope
      | _ => .error (.python "ValueError")

/-- The record of a change event, as its schema admits it. -/
def changeRecord (localId version : String) (values : Dict) (sequence : Option Int) (deleted : Bool) :
    Py IncomingRecord :=
  if hl : 1 ≤ localId.length ∧ localId.length ≤ 255 then
    if hv : 1 ≤ version.length ∧ version.length ≤ 80 then
      -- the keys of an object that was read from a text are distinct
      if hvalues : values.length ≤ 200 ∧ values.keys.Nodup then
        if sequence.any fun n => n < 0 then .error (.validation "sequence")
        else .ok {
          localId := localId
          version := version
          values := values
          verification := []
          effectiveFrom := none
          sequence := sequence.map Int.toNat
          updateMode := .fullUpdate
          deleted := deleted
          localId_bounds := hl
          version_bounds := hv
          values_bound := hvalues.1
          values_nodup := hvalues.2 }
      else .error (.validation "values")
    else .error (.validation "version")
  else .error (.validation "local_id")

/-- `debezium_record`. -/
def debeziumRecord (rt : Runtime) (envelope : Json) (idField : String) : Py IncomingRecord :=
  match envelope with
  | .obj fields =>
    match (Dict.get? fields "payload").getD envelope with
    | .obj payload =>
      match Dict.get payload "op" with
      | .str operation =>
        if !(["c", "u", "d", "r"].contains operation) then .error (.python "ValueError")
        else match Dict.get payload (if operation = "d" then "before" else "after") with
          | .obj values =>
            if !Dict.contains values idField then .error (.python "ValueError")
            else match (Dict.get payload "source").orElse (.obj []) with
              | .obj source =>
                let position := ((Dict.get source "lsn").orElse (Dict.get source "pos")).orElse
                  (Dict.get payload "ts_ms")
                changeRecord (rt.strOf (Dict.get values idField)) (rt.strOf position)
                  (if operation = "d" then [] else values) position.int? (operation = "d")
              | _ => .error (.python "AttributeError")
          | _ => .error (.python "ValueError")
      | .arr _ | .obj _ => .error (.python "TypeError")
      | _ => .error (.python "ValueError")
    | _ => .error (.python "AttributeError")
  | _ => .error (.python "AttributeError")

/-- A verified event of a webhook source. -/
structure WebhookEvent where
  svc : MasteringService
  source : Source
  envelope : Dict
  eventId : String
  domain : String

/-- The unique columns of an idempotency record: workspace, principal, operation and key. -/
abbrev EventKey := Id × String × String × String

def WebhookEvent.key (event : WebhookEvent) : EventKey :=
  (event.svc.wid, "webhook:" ++ event.source.key, "inbound_event", event.eventId)

/-- The answer to a delivery, which is also what is stored with its key. -/
structure WebhookAnswer where
  eventId : String
  ingestion : IngestAnswer
  deduplicated : Bool

structure IdempotencyRecord where
  key : EventKey
  requestHash : String
  response : WebhookAnswer

namespace WebhookServer

variable (svr : WebhookServer)

/-- The part of `inbound_webhook` that verifies a delivery. -/
def openEvent (s : Store) (d : SignedRequest) : Py WebhookEvent := do
  match d.signature, d.timestamp with
  | some signature, some timestamp =>
    if signature = "" || timestamp = "" then httpError 401 "webhook_signature_required" []
    else
      let svc ← MasteringService.start svr.rt ⟨"webhook:" ++ d.sourceKey, "recordlane:webhook",
        d.workspaceSlug, ["integration_operator"], none⟩ s
      match s.sources.find? fun x => x.workspaceId = svc.wid && x.key = d.sourceKey && x.kind = "webhook" with
      | none => httpError 404 "webhook_source_not_found" []
      | some source =>
        let secretRef := svr.rt.strOf (((svr.config source.id).get? "secret_ref").getD (.str ""))
        if !secretRef.startsWith "file:/run/recordlane/" || ['.', '.'] <:+: secretRef.toList then
          httpError 503 "webhook_secret_reference_invalid" []
        else match svr.readText (secretRef.drop 5).toString with
          | none => httpError 401 "invalid_webhook_event" []
          | some text =>
            let secret := String.ofList (strip svr.rt text.toList)
            let envelope ← refuseValue 401 "invalid_webhook_event"
              (verifyHmac svr d.receivedAt d.body timestamp signature secret)
            let eventId := svr.rt.strOf ((envelope.get? "event_id").getD (.str ""))
            let domain := svr.rt.strOf ((envelope.get? "domain").getD (.str ""))
            if eventId = "" || 255 < eventId.length || domain = "" then
              httpError 422 "webhook_envelope_incomplete" []
            else return ⟨svc, source, envelope, eventId, domain⟩
  | _, _ => httpError 401 "webhook_signature_required" []

/-- The record of an event, in the format that the envelope or else the source names. -/
def eventRecord (config envelope : Dict) : Py IncomingRecord :=
  let format := (envelope.get? "format").getD ((config.get? "format").getD (.str "recordlane"))
  let record := (envelope.get? "record").getD (.obj [])
  refuseValue 422 "invalid_webhook_payload" <|
    if format = .str "debezium-1.0" then
      debeziumRecord svr.rt record
        (svr.rt.strOf (((envelope.get "id_field").orElse (config.get "id_field")).orElse (.str "id")))
    else if format = .str "recordlane-1.0" then
      match record with
      | .obj fields =>
        match svr.incomingRecord fields with
        | some incoming => .ok incoming
        | none => .error (.validation "record")
      | _ => .error (.python "TypeError")
    else httpError 422 "unsupported_webhook_format" []

end WebhookServer

/-- A delivery between the check of its event id and its last commit; the answer is there once its
record is ingested. -/
structure InFlight where
  event : WebhookEvent
  body : String
  requestHash : String
  incoming : IncomingRecord
  answer : Option IngestAnswer

/-- The request with which the endpoint ingests the record of an event. -/
def InFlight.request (p : InFlight) : IngestRequest where
  sourceKey := p.event.source.key
  domainKey := p.event.domain
  records := [p.incoming]
  completeSnapshot := false
  runId := none
  extractionMode := .delta
  pageCursor := none
  nextCursor := none
  snapshotPosition := none
  handoffFrom := none
  sourceComplete := false
  faultAfterRecords := none

/-- The database, the deliveries that are served, and what they have ingested so far: the body of every
event whose record has been committed. -/
structure Inbox where
  store : Store
  records : List IdempotencyRecord
  inFlight : List InFlight
  ingested : List (EventKey × String)

/-- What happens at the endpoint: a delivery is verified and looked up, one in flight commits its
ingestion, commits its idempotency record, or is cut off by a crash. -/
inductive InboxEvent
  | deliver (d : SignedRequest)
  | ingest (n : Nat)
  | store (n : Nat)
  | crash (n : Nat)

namespace WebhookServer

variable (svr : WebhookServer) (st : Inbox)

/-- `inbound_webhook` up to its first commit. -/
def deliver (d : SignedRequest) : Py (WebhookAnswer ⊕ InFlight) := do
  let event ← svr.openEvent st.store d
  let requestHash := svr.crypto.sha256 d.body
  match st.records.find? fun r => r.key = event.key with
  | some existing =>
    if existing.requestHash ≠ requestHash then httpError 409 "webhook_event_id_conflict" []
    else return .inl { existing.response with deduplicated := true }
  | none =>
    let incoming ← svr.eventRecord (svr.config event.source.id) event.envelope
    return .inr ⟨event, d.body, requestHash, incoming, none⟩

/-- A delivery in flight leaves with its answer. -/
def leave (n : Nat) (answer : Option (Py WebhookAnswer)) : Inbox × Option (Py WebhookAnswer) :=
  ({ st with inFlight := st.inFlight.eraseIdx n }, answer)

/-- One event at the endpoint, with the answer that a delivery gets. -/
def step : InboxEvent → Inbox × Option (Py WebhookAnswer)
  | .deliver d =>
    match svr.deliver st d with
    | .error raised => (st, some (.error raised))
    | .ok (.inl answer) => (st, some (.ok answer))
    | .ok (.inr p) => ({ st with inFlight := st.inFlight ++ [p] }, none)
  | .ingest n =>
    match st.inFlight[n]? with
    | some p =>
      match p.answer with
      | none =>
        match p.event.svc.ingest st.store p.request with
        | .error raised => leave st n (some (.error raised))
        | .ok (s, answer) => ({ st with
            store := s
            inFlight := st.inFlight.set n { p with answer := some answer }
            ingested := st.ingested ++ [(p.event.key, p.body)] }, none)
      | some _ => (st, none)
    | none => (st, none)
  | .store n =>
    match st.inFlight[n]? with
    | some p =>
      match p.answer with
      | none => (st, none)
      | some answer =>
        if st.records.any fun r => r.key = p.event.key then
          leave st n (some (.error (.integrity "idempotency_records")))
        else
          let stored : WebhookAnswer := ⟨p.event.eventId, answer, false⟩
          leave { st with records := st.records ++ [⟨p.event.key, p.requestHash, stored⟩] } n
            (some (.ok stored))
    | none => (st, none)
  | .crash n => leave st n none

/-- The endpoint, with any number of deliveries at a time. -/
def system : System Inbox InboxEvent (Option (Py WebhookAnswer)) where
  step := svr.step

end WebhookServer

/-- The inbox of a database that no delivery has reached. -/
def Inbox.opened (s : Store) : Inbox := ⟨s, [], [], []⟩

end Recordlane
