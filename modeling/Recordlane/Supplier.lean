import Recordlane.Workspace

/-! A supplier workspace: one domain with a hard identifier, one source, two stewards. -/
namespace Recordlane

namespace Supplier

def workspace : Workspace := ⟨"w1", "acme"⟩

/-- Name and city decide on a match; two tax numbers must not differ within a cluster. -/
def definition : Dict := [
  ("attributes", .arr [.obj [("key", .str "name")], .obj [("key", .str "city")],
    .obj [("key", .str "tax_id")],
    .obj [("key", .str "status"), ("allowed_values", .arr [.str "active"])]]),
  ("identifiers", .arr [.obj [("field", .str "tax_id"), ("hard_conflict", .bool true)]]),
  ("matching", .obj [("blocking", .arr [.str "name"]),
    ("comparisons", .arr [
      .obj [("field", .str "name"), ("comparator", .str "exact"), ("weight", .int 1)],
      .obj [("field", .str "city"), ("comparator", .str "exact"), ("weight", .int 1)]]),
    ("thresholds", .obj [("review", .float (1 / 2)), ("auto_link", .float 1)])])]

def steward (subject : String) : Principal := ⟨subject, "idp", "w1", ["administrator"], none⟩

/-- The requests that lead to a workspace ready for ingestion. -/
def setup : List Request := [
  .createDomain (steward "alice") "supplier" "Supplier" "coexistence" definition,
  .createSource (steward "alice") "erp" "ERP" "csv" 100]

/-- A full observation without an order. -/
def observation (localId version : String) (values : Dict)
    (localId_fits : decide (1 ≤ localId.length ∧ localId.length ≤ 255) = true := by exact Eq.refl true)
    (version_fits : decide (1 ≤ version.length ∧ version.length ≤ 80) = true := by exact Eq.refl true)
    (values_fit : decide (values.length ≤ 200) = true := by exact Eq.refl true)
    (values_differ : decide values.keys.Nodup = true := by exact Eq.refl true) : IncomingRecord where
  localId := localId
  version := version
  values := values
  verification := []
  effectiveFrom := none
  sequence := none
  updateMode := .fullUpdate
  deleted := false
  localId_bounds := of_decide_eq_true localId_fits
  version_bounds := of_decide_eq_true version_fits
  values_bound := of_decide_eq_true values_fit
  values_nodup := of_decide_eq_true values_differ

/-- A plain batch, outside any extraction run. -/
def batch (records : List IncomingRecord) : IngestRequest where
  sourceKey := "erp"
  domainKey := "supplier"
  records := records
  completeSnapshot := false
  runId := none
  extractionMode := .delta
  pageCursor := none
  nextCursor := none
  snapshotPosition := none
  handoffFrom := none
  sourceComplete := false
  faultAfterRecords := none

def ingest (records : List IncomingRecord) : Request := .ingest (steward "alice") (batch records)

/-- The id drawn after `n` others. -/
def uid (n : Nat) : Id := Runtime.plain.uid n

def proposeMerge (entityIds : List Id) : Request :=
  .proposeMerge (steward "alice") entityIds "duplicate" false

def keepSeparate (taskId : Id) : Request :=
  .decideTask (steward "bob") taskId .keepSeparate "checked"

def approve (taskId : Id) : Request := .decideTask (steward "bob") taskId .approve "checked"

/-- The state after the setup and some more requests. -/
def after (requests : List Request) : Store :=
  (service .plain).run (Store.empty workspace) (setup ++ requests)

/-- Three names: the entities are 8, 16 and 24, their approvals 11, 19 and 27. -/
def three : Request := ingest [
  observation "a" "1" [("name", .str "A")],
  observation "b" "1" [("name", .str "B")],
  observation "c" "1" [("name", .str "C")]]

/-- One name twice: the entities are 8 and 16, the match task is 17. -/
def twins : Request := ingest [
  observation "a" "1" [("name", .str "A")],
  observation "b" "1" [("name", .str "A")]]

/-- Four observations of one object: the second is a tombstone, the third is quarantined. -/
def history : List IncomingRecord := [
  { observation "a" "1" [("name", .str "A")] with sequence := some 2 },
  { observation "a" "2" [] with sequence := some 3, deleted := true },
  { observation "a" "3" [("status", .str "closed")] with sequence := some 5 },
  { observation "a" "4" [("name", .str "B")] with sequence := some 4 }]

/-- An observation without a sequence drops the one its object holds. -/
def lapse : List IncomingRecord := [
  { observation "a" "1" [("name", .str "A")] with sequence := some 5 },
  observation "a" "2" [("name", .str "B")],
  { observation "a" "3" [("name", .str "C")] with sequence := some 3 }]

/-- Two records in one entity, of which the second one is split off again. -/
def splitTwins : List Request := [
  ingest [observation "a" "1" [("name", .str "A"), ("city", .str "X")],
    observation "b" "1" [("name", .str "A"), ("city", .str "X")]],
  .proposeSplit (steward "alice") (uid 8) [uid 13] "two companies", approve (uid 20)]

/-- Two sources describe one entity, and differ in a note. -/
def rivals : List Request := [
  .createSource (steward "alice") "crm" "CRM" "csv" 50,
  ingest [observation "a" "1" [("name", .str "A"), ("city", .str "X"), ("note", .str "erp")]],
  .ingest (steward "alice") { batch [
    observation "b" "1" [("name", .str "A"), ("city", .str "X"), ("note", .str "crm")]] with
      sourceKey := "crm" }]

/-- The definition under which the second source comes first in a note. -/
def preferCrm : Dict :=
  (definition.set "attributes" (.arr [.obj [("key", .str "name")], .obj [("key", .str "city")],
    .obj [("key", .str "note")]])).set "survivorship" (.obj [("note", .obj [
      ("strategy", .str "source_priority_then_observation_time"),
      ("source_precedence", .arr [.str "crm", .str "erp"])])])

/-- The configuration 23 prefers the note of the second source. -/
def preferring : List Request := rivals ++ [
  .createConfig (steward "alice") (.obj [("domains", .obj [("supplier", .obj preferCrm)])])]

/-- Two suppliers of one city, and two of one name. -/
def neighbours : Request := ingest [
  observation "a" "1" [("name", .str "A"), ("city", .str "X")],
  observation "b" "1" [("name", .str "B"), ("city", .str "X")]]

def namesakes : Request := ingest [
  observation "a" "1" [("name", .str "A"), ("city", .str "X")],
  observation "b" "1" [("name", .str "A"), ("city", .str "Y")]]

def rematched (key : String) (value : Json) : Dict :=
  match definition.get "matching" with
  | .obj matching => definition.set "matching" (.obj (Dict.set matching key value))
  | _ => definition

/-- The definition under which a city makes candidates as well as a name. -/
def byCity : Dict := rematched "blocking" (.arr [
  .obj [("fields", .arr [.str "name"])], .obj [("fields", .arr [.str "city"])]])

/-- The definition under which half a match is linked. -/
def eager : Dict :=
  rematched "thresholds" (.obj [("review", .float (1 / 2)), ("auto_link", .float (1 / 2))])

/-- The service of a steward. -/
def master : MasteringService := ⟨.plain, steward "alice", workspace⟩

end Supplier

end Recordlane
