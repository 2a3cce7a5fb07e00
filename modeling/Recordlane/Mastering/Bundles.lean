import Recordlane.Workspace

/-! Workspace bundles, drafts of the assistant and jobs given up: the further operations that write
what requests write. -/
namespace Recordlane

structure BundleDomain where
  key : String
  name : String
  mode : String
  definition : Dict

/-- A source of a bundle, as `SourceCreate` admits it. The flag says whether its capabilities and
its configuration are those of the stored source of its key. -/
structure BundleSource where
  key : String
  name : String
  kind : String
  priority : Int
  sameRest : Bool

structure WorkspaceBundle where
  apiVersion : Json
  kind : Json
  domains : List BundleDomain
  sources : List BundleSource
  configurations : List Dict

/-- The counts of an import. -/
structure Imported where
  domains : Nat
  sources : Nat
  configurations : Nat
  unchanged : Nat

def Imported.json (i : Imported) : Dict :=
  [("domains", .int i.domains), ("sources", .int i.sources),
    ("configurations", .int i.configurations), ("unchanged", .int i.unchanged)]

/-- The errors of the validation that make a bundle an invalid one. -/
def refuseBundle {α : Type} : Py α → Py α
  | .error (.policy message) => httpError 422 "invalid_workspace_bundle" [("message", .str message)]
  | .error (.python name) =>
    if ["KeyError", "TypeError", "ValueError"].contains name then
      httpError 422 "invalid_workspace_bundle" [("message", .str name)]
    else .error (.python name)
  | other => other

/-- The definition of an item with its mode. -/
def BundleDomain.document (item : BundleDomain) : Json :=
  .obj (item.definition.set "mode" (.str item.mode))

namespace MasteringService

variable (self : MasteringService)

def importDomain (replaceExisting : Bool) (state : Store × Imported) (item : BundleDomain) :
    Py (Store × Imported) := do
  let (s, imported) := state
  let canonicalDefinition := (← compilePolicy self.rt item.document).canonicalDocument
  match self.domain? s item.key with
  | some existing =>
    if existing.definition.pyEq canonicalDefinition then
      return (s, { imported with unchanged := imported.unchanged + 1 })
    else if !replaceExisting then httpError 409 "domain_conflict" [("key", .str item.key)]
    else
      let s := { s with domains := Table.modify Domain.id s.domains existing.id fun d =>
        { d with name := item.name, mode := item.mode, definition := canonicalDefinition } }
      return (s, { imported with domains := imported.domains + 1 })
  | none =>
    let (s, _) ← self.createDomain s item.key item.name item.mode (← canonicalDefinition.asDict)
    return (s, { imported with domains := imported.domains + 1 })

def importSource (replaceExisting : Bool) (state : Store × Imported) (item : BundleSource) :
    Py (Store × Imported) :=
  let (s, imported) := state
  match self.source? s item.key with
  | some existing =>
    if existing.name = item.name && existing.kind = item.kind && existing.priority = item.priority &&
        item.sameRest then
      .ok (s, { imported with unchanged := imported.unchanged + 1 })
    else if !replaceExisting then httpError 409 "source_conflict" [("key", .str item.key)]
    else
      let s := { s with sources := Table.modify Source.id s.sources existing.id fun x =>
        { x with name := item.name, kind := item.kind, priority := item.priority } }
      .ok (s, { imported with sources := imported.sources + 1 })
  | none =>
    let source : Source := {
      id := self.fresh s
      workspaceId := self.wid
      key := item.key
      name := item.name
      kind := item.kind
      priority := item.priority
      checkpoint := none
      lastIngestedAt := none }
    .ok ({ s with sources := s.sources ++ [source], drawn := s.drawn + 1 },
      { imported with sources := imported.sources + 1 })

def importConfiguration (state : Store × Imported) (document : Dict) : Py (Store × Imported) := do
  let (s, imported) := state
  if s.configurations.any fun c => c.workspaceId = self.wid && c.document.pyEq (.obj document) then
    return (s, { imported with unchanged := imported.unchanged + 1 })
  else
    let (s, _) ← self.createConfig s (.obj document)
    return (s, { imported with configurations := imported.configurations + 1 })

/-- `import_workspace_bundle` from its checks on the bundle on. -/
def importBundle (s : Store) (bundle : WorkspaceBundle) (replaceExisting : Bool) :
    Py (Store × Imported) := do
  if !(bundle.apiVersion.pyEq (.str "recordlane.io/v1alpha1") &&
      bundle.kind.pyEq (.str "WorkspaceBundle")) then
    httpError 422 "invalid_workspace_bundle" []
  else
    bundle.domains.forM fun item => do
      let _ ← refuseBundle (compilePolicy self.rt item.document)
    let state ← bundle.domains.foldlM (self.importDomain replaceExisting) (s, ⟨0, 0, 0, 0⟩)
    let state ← bundle.sources.foldlM (self.importSource replaceExisting) state
    let (s, imported) ← bundle.configurations.foldlM self.importConfiguration state
    return (self.audit s "workspace_bundle.imported" "workspace" self.wid imported.json, imported)

/-- `assistant_draft`, with what the provider has generated. -/
def assistantDraft (s : Store) (purpose : String) (draft : Option Json) : Py (Store × Option Id) := do
  let (s, configId) ← match draft with
    | some document =>
      if purpose = "draft_rule" && document.truthy then
        match self.createConfig s document with
        | .ok (s, config) => pure (s, some config.id)
        | .error (.http ..) => httpError 422 "invalid_assistant_draft" []
        | .error e => .error e
      else pure (s, none)
    | none => pure (s, none)
  return (self.audit s "assistant.draft_created" "assistant_request" (configId.getD purpose)
    [("configuration_id", optionJson configId), ("requires_review", .bool true)], configId)

/-- The last attempt of a job that raises: the job has failed, and nothing else is committed. -/
def failJob (s : Store) (jobId : Id) : Py Store :=
  match s.jobs.find? fun j => j.id = jobId && j.workspaceId = self.wid &&
      j.kind = "remaster_domain" && j.status = .queued with
  | none => .error (.python "LookupError")
  | some job =>
    match self.remasterDomain s job with
    | .ok _ => .error (.python "LookupError")
    | .error _ => .ok { s with jobs := Table.modify DurableJob.id s.jobs job.id fun j =>
        { j with status := .failed } }

end MasteringService

/-- What the principals of a workspace and its worker do. -/
inductive Operation
  | request (request : Request)
  | assistantDraft (who : Principal) (purpose : String) (draft : Option Json)
  | importBundle (who : Principal) (bundle : WorkspaceBundle) (replaceExisting : Bool)
      (targetWorkspace : Option String)
  | failJob (workspaceId : String) (jobId : Id)

inductive Reply
  | answer (answer : Answer)
  | drafted (configId : Option Id)
  | imported (imported : Imported)
  | failed

/-- `service(db, who, permission)`. -/
def authorized (rt : Runtime) (s : Store) (who : Principal) (permission : String) :
    Py MasteringService :=
  if who.allows permission then MasteringService.start rt who s
  else httpError 403 "forbidden" [("permission", .str permission)]

/-- The workspace of an import: another one than the principal's takes an administrator. -/
def importTarget (rt : Runtime) (s : Store) (who : Principal) (targetWorkspace : Option String) :
    Py MasteringService := do
  let self ← authorized rt s who "model:write"
  match targetWorkspace with
  | none => return self
  | some name =>
    if !who.allows "*" then httpError 403 "administrator_required" []
    else MasteringService.start rt { who with workspaceId := name, scopes := none } s

/-- The transaction of an operation. -/
def operate (rt : Runtime) (s : Store) : Operation → Py (Store × Py Reply)
  | .request request => do
    let (s, answer) ← transact rt s request
    return (s, answer.map .answer)
  | .assistantDraft who purpose draft => do
    let self ← authorized rt s who (if purpose = "draft_rule" then "model:write" else "read")
    let (s, configId) ← self.assistantDraft s purpose draft
    return (s, .ok (.drafted configId))
  | .importBundle who bundle replaceExisting targetWorkspace => do
    let self ← importTarget rt s who targetWorkspace
    let (s, imported) ← self.importBundle s bundle replaceExisting
    return (s, .ok (.imported imported))
  | .failJob workspaceId jobId => do
    let self ← MasteringService.start rt (workerPrincipal workspaceId) s
    return (← self.failJob s jobId, .ok .failed)

/-- The operations of a workspace, each one transaction. -/
def operations (rt : Runtime) : System Store Operation (Py Reply) where
  step s op :=
    match operate rt s op with
    | .ok (s, reply) => (s, reply)
    | .error e => (s, .error e)

/-- The states that the operations of a workspace lead to. -/
def Attained (rt : Runtime) (w : Workspace) (s : Store) : Prop :=
  ∃ ops, (operations rt).run (Store.empty w) ops = s

end Recordlane
