import Recordlane.Mastering.Service

/-! Survivorship: the values of a master version and the draft that carries them. -/
namespace Recordlane

/-- `container.index(text)`. -/
def indexOf (text : String) : Json → Py Nat
  | .arr xs =>
    match xs.findIdx? fun x => x.pyEq (.str text) with
    | some i => .ok i
    | none => .error (.python "ValueError")
  | .str s =>
    match (List.range (s.length + 1)).find? fun i =>
        text.toList.isPrefixOf (s.toList.drop i) with
    | some i => .ok i
    | none => .error (.python "ValueError")
  | _ => .error (.python "AttributeError")

/-- `len(v)`. -/
def lengthOf : Json → Py Nat
  | .arr xs => .ok xs.length
  | .obj kvs => .ok kvs.length
  | .str s => .ok s.length
  | _ => .error (.python "TypeError")

/-- A contribution that competes for one field. -/
structure Contender where
  verifiedRank : Int
  precedenceRank : Int
  record : SourceRecord
  source : Source

namespace Contender

/-- The order of the keys `(verified, precedence, observed_at, id)`. -/
def lt (a b : Contender) : Bool :=
  a.verifiedRank < b.verifiedRank ||
  (a.verifiedRank = b.verifiedRank && (a.precedenceRank < b.precedenceRank ||
  (a.precedenceRank = b.precedenceRank && (a.record.observedAt < b.record.observedAt ||
  (a.record.observedAt = b.record.observedAt && a.record.id < b.record.id)))))

/-- `max(options)`: the first of the greatest. -/
def winner : List Contender → Option Contender
  | [] => none
  | c :: cs => some (cs.foldl (fun best c => if best.lt c then c else best) c)

end Contender

namespace MasteringService

variable (self : MasteringService) (s : Store)

/-- The rule a field is configured with, the default rule for a field without one. -/
def ruleName (policy : CompiledPolicy) (field : String) : Json :=
  let fallback : Json := .str "source_priority_then_observation_time"
  let configured := (policy.survivorship.get? field).getD
    ((policy.survivorship.get? "default").getD fallback)
  match configured with
  | .obj rule => (Dict.get? rule "strategy").getD fallback
  | rule => rule

/-- The rule of a field as a map. -/
def fieldRule (policy : CompiledPolicy) (field : String) : Dict :=
  match policy.survivorship.get? field with
  | some (.obj rule) => rule
  | some (.str strategy) => [("strategy", .str strategy)]
  | _ => []

/-- A listed source ranks by its place, any other after them by its priority. -/
def precedenceRank (rule : Dict) (source : Source) : Py Int := do
  let precedence := (rule.get? "source_precedence").getD (.arr [])
  if ← (Json.str source.key).isIn precedence then
    return -(← indexOf source.key precedence : Nat)
  else return -(← lengthOf precedence : Nat) - source.priority

def verifiedRank (policy : CompiledPolicy) (rule : Dict) (verified : Bool) : Py Int :=
  if !verified then .ok 0
  else match (rule.get? "strategy").getD
      ((policy.survivorship.get? "default").getD (.str "")) with
    | .str strategy => .ok (if strategy.startsWith "verified" then 1 else 0)
    | _ => .error (.python "AttributeError")

def isVerified (r : SourceRecord) (field : String) : Bool :=
  r.verification.any fun p => p.1 = field && p.2

/-- The contribution as a contender, if it says something about the field. -/
def contender (policy : CompiledPolicy) (field : String) (r : SourceRecord) :
    Py (Option Contender) := do
  if !r.original.contains field || (r.original.get field).pyEq .null then return none
  let some source := s.sources.find? fun x => x.id = r.sourceId | throw (.python "KeyError")
  let rule := fieldRule policy field
  let rank ← precedenceRank rule source
  let verified ← verifiedRank policy rule (isVerified r field)
  return some ⟨verified, rank, r, source⟩

def provenanceOf (policy : CompiledPolicy) (field : String) (w : Contender) (options : Nat) : Json :=
  .obj [("source", .str w.source.name), ("source_key", .str w.source.key),
    ("source_record_id", .str w.record.id), ("source_version", .str w.record.sourceVersion),
    ("verification", .str (if isVerified w.record field then "verified" else "unverified")),
    ("rule", ruleName policy field),
    ("rule_version", .str ("policy:" ++ policy.version ++ ":" ++ takeChars 12 policy.checksum)),
    ("observed_at", .str (self.rt.isoformat w.record.observedAt)),
    ("alternatives", .int (options - 1))]

/-- `_master_values`: the values and the provenance of an entity's current contributions. -/
def masterValues (entityId : Id) (policy : CompiledPolicy) : Py (Dict × Dict) := do
  let records := self.currentRecords s entityId
  let fields := sortedSet (records.flatMap fun r => r.original.keys)
  fields.foldlM (fun (values, provenance) field => do
    let options := (← records.mapM (contender s policy field)).filterMap id
    match Contender.winner options with
    | none => return (values, provenance)
    | some w => return (values.set field (w.record.original.get field),
        provenance.set field (self.provenanceOf policy field w options.length))) ([], [])

/-- `max(version)` of an entity's master versions, 0 without one. -/
def latestMaster (entityId : Id) : Nat :=
  ((s.masters.filter fun m => m.entityId = entityId).map MasterVersion.version).foldl max 0

/-- The open approval task of an entity's master. -/
def openApproval (entityId : Id) : Option ReviewTask :=
  s.tasks.find? fun t => t.workspaceId = self.wid && t.entityId = some entityId &&
    t.kind = .masterApproval && t.status = .opened

/-- The approval task of an earlier draft goes stale. -/
def staleApproval (entityId : Id) : Store :=
  match self.openApproval s entityId with
  | some task => s.modifyTask task.id fun t =>
      { t with
        status := .stale
        decisionReason := some "A new source contribution changed the bound entity version" }
  | none => s

/-- `_draft_master`: a new draft of the entity, with the task that asks for its approval. -/
def draftMaster (entityId : Id) : Py (Store × MasterVersion) := do
  let some entity := s.entity? entityId | throw (.python "ObjectDeletedError")
  let some domain := self.domain? s entity.domainKey | httpError 409 "entity_domain_missing" []
  let policy ← compilePolicy self.rt domain.definition
  let (values, provenance) ← self.masterValues s entity.id policy
  let draft : MasterVersion := {
    id := self.fresh s
    workspaceId := self.wid
    entityId := entity.id
    version := latestMaster s entity.id + 1
    status := .draft
    values := values
    provenance := provenance
    reason := none
    approvedBy := none }
  let s := s.insertMaster draft
  let s := self.staleApproval s entity.id
  let s := s.insertTask {
    id := self.fresh s
    workspaceId := self.wid
    entityId := some entity.id
    status := .opened
    proposedBy := "mastering-engine"
    payload := .masterApproval draft.version values provenance
    boundEntityVersion := some entity.version
    sensitive := values.contains "tax_id" || values.contains "bank_account"
    decisionReason := none
    decidedBy := none }
  return (s, draft)

end MasteringService

end Recordlane
