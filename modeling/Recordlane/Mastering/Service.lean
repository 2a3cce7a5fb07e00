import Recordlane.PolicyCompiler
import Recordlane.Tables

/-! The mastering service: its context, audit entries and entity memberships. -/
namespace Recordlane

structure Principal where
  subject : String
  issuer : String
  workspaceId : String
  roles : List String
  scopes : Option (List String)

/-- `ROLE_PERMISSIONS`: an unknown role has none. -/
def rolePermissions : String → List String
  | "administrator" => ["*"]
  | "modeler" => ["read", "model:write", "config:simulate", "config:publish"]
  | "integration_operator" => ["read", "source:write", "ingest", "publish:operate"]
  | "steward" => ["read", "review:decide", "record:propose", "merge:propose"]
  | "approver" => ["read", "approval:decide"]
  | "auditor" => ["read", "audit:read"]
  | "read_only" => ["read"]
  | _ => []

def Principal.allows (who : Principal) (permission : String) : Bool :=
  let permissions := who.roles.flatMap rolePermissions
  let roleAllows := permissions.contains "*" || permissions.contains permission
  let scopeAllows :=
    match who.scopes with
    | none => true
    | some scopes => scopes.contains "*" || scopes.contains permission
  roleAllows && scopeAllows

/-- `MasteringService`: the principal of a request and the workspace it works in. -/
structure MasteringService where
  rt : Runtime
  principal : Principal
  workspace : Workspace

/-- An `HTTPException` whose detail carries an error code. -/
def httpError {α : Type} (status : Nat) (code : String) (detail : Dict) : Py α :=
  .error (.http status code detail)

/-- A `PolicyError` becomes the caller's error. -/
def refusePolicy {α : Type} (code : String) : Py α → Py α
  | .error (.policy message) => httpError 422 code [("message", .str message)]
  | other => other

def optionJson (v : Option String) : Json :=
  match v with
  | some text => .str text
  | none => .null

/-- `sorted((left, right))`. -/
def sortedPair (left right : Id) : Id × Id := if right < left then (right, left) else (left, right)

namespace MasteringService

/-- `MasteringService.__init__`: the workspace is named by its id or by its slug. -/
def start (rt : Runtime) (principal : Principal) (s : Store) : Py MasteringService :=
  match s.workspaces.find? fun w =>
      w.id = principal.workspaceId || w.slug = principal.workspaceId with
  | some workspace => .ok ⟨rt, principal, workspace⟩
  | none => httpError 403 "workspace_not_found" []

variable (self : MasteringService) (s : Store)

def wid : Id := self.workspace.id

/-- The identifier the next inserted row draws. -/
def fresh : Id := self.rt.uid s.drawn

def now : DateTime := self.rt.now s.drawn

/-- The entry of the workspace with the latest time of creation. -/
def latestAudit : Option AuditEntry :=
  (s.audits.filter fun a => a.workspaceId = self.wid).foldl (fun best a =>
    match best with
    | some b => if a.createdAt < b.createdAt then some b else some a
    | none => some a) none

/-- `audit`: an entry chained to the latest one. -/
def audit (action objectType objectId : String) (detail : Dict) : Store :=
  let previousHash := (self.latestAudit s).map AuditEntry.entryHash
  let payload : Dict := [("workspace", .str self.wid), ("actor", .str self.principal.subject),
    ("action", .str action), ("object_type", .str objectType), ("object_id", .str objectId),
    ("detail", .obj detail), ("previous_hash", optionJson previousHash)]
  { s with
    audits := s.audits ++ [{
      workspaceId := self.wid
      actor := self.principal.subject
      action := action
      objectType := objectType
      objectId := objectId
      detail := .obj detail
      previousHash := previousHash
      entryHash := canonicalHash self.rt (.obj payload)
      createdAt := self.now s }]
    drawn := s.drawn + 1 }

def domain? (key : String) : Option Domain :=
  s.domains.find? fun d => d.workspaceId = self.wid && d.key = key

def source? (key : String) : Option Source :=
  s.sources.find? fun x => x.workspaceId = self.wid && x.key = key

/-- The open membership row of a source object with the latest start. -/
def openMembership (objectId : Id) : Option MembershipHistory :=
  (s.memberships.filter fun m =>
    m.workspaceId = self.wid && m.sourceObjectId = objectId && m.validTo.isNone).foldl
    (fun best m =>
      match best with
      | some b => if b.validFrom < m.validFrom then some m else some b
      | none => some m) none

/-- `valid_to` of the membership row that was open so far. -/
def closeMembership (objectId : Id) : Store :=
  match self.openMembership s objectId with
  | some previous =>
    { s with memberships := Table.modify MembershipHistory.id s.memberships previous.id fun m =>
        { m with validTo := some (self.now s) } }
  | none => s

/-- `_set_membership`: the object moves to the entity, and its history records it. -/
def setMembership (sourceObject : SourceObject) (entityId : Id) (reason : String) : Store :=
  if sourceObject.entityId = some entityId then s
  else
    let s := self.closeMembership s sourceObject.id
    let s := s.modifyObject sourceObject.id fun o => { o with entityId := some entityId }
    s.insertMembership {
      id := self.fresh s
      workspaceId := self.wid
      sourceObjectId := sourceObject.id
      entityId := entityId
      validFrom := self.now s
      validTo := none
      reason := reason
      changedBy := self.principal.subject }

/-- Whether the record is what the object contributes to the entity. -/
def contributes (r : SourceRecord) (entityId : Id) (o : SourceObject) : Bool :=
  o.currentRecordId = some r.id && !o.retired && o.entityId = some entityId

/-- `_current_records` of one entity: a join of records and the objects pointing at them. -/
def currentRecords (entityId : Id) : List SourceRecord :=
  (s.records.filter fun r => r.workspaceId = self.wid && r.state = .valid).flatMap fun r =>
    (s.objects.filter (contributes r entityId)).map fun _ => r

/-- `_is_cannot_link`: the ids are looked up in their order. -/
def isCannotLink (left right : Id) : Bool :=
  s.cannotLinks.any fun c => c.workspaceId = self.wid &&
    c.leftObjectId = (sortedPair left right).1 && c.rightObjectId = (sortedPair left right).2

end MasteringService

end Recordlane
