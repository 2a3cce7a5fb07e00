import Mathlib.Logic.Function.Basic
import Recordlane.Mastering.Bundles

/-! Sources with their settings, and the export and import of workspace bundles. -/
namespace Recordlane

/-- The fields of a source that its body names. -/
structure SourceEntry where
  key : String
  name : String
  kind : String
  priority : Int
  capabilities : Dict
  config : Dict

/-- `^[a-z][a-z0-9_-]{1,79}$`. -/
def sourceKeyPattern (text : String) : Bool :=
  match text.toList with
  | first :: rest => first.isLower && 1 ≤ rest.length && rest.length ≤ 79 &&
      rest.all fun c => c.isLower || c.isDigit || c = '_' || c = '-'
  | [] => false

def sourceKinds : List String :=
  ["postgresql", "rest", "odata", "webhook", "csv", "jsonl", "parquet", "s3", "azure_blob", "gcs"]

/-- The schema `SourceCreate`. -/
def SourceEntry.admitted (item : SourceEntry) : Bool :=
  sourceKeyPattern item.key && 2 ≤ item.name.length && item.name.length ≤ 160 &&
    sourceKinds.contains item.kind && 1 ≤ item.priority && item.priority ≤ 10000

/-- `getattr(existing, key) == value` for every field. -/
def SourceEntry.pyEq (existing incoming : SourceEntry) : Bool :=
  existing.key = incoming.key && existing.name = incoming.name && existing.kind = incoming.kind &&
    existing.priority = incoming.priority &&
    (Json.obj existing.capabilities).pyEq (.obj incoming.capabilities) &&
    (Json.obj existing.config).pyEq (.obj incoming.config)

/-- The result of `urlparse`, as far as a source is checked for it. -/
structure Url where
  scheme : String
  hostname : Option String
  username : Option String
  password : Option String

/-- The settings a kind of source may have. -/
def allowedSettings : String → List String
  | "postgresql" => ["secret_ref", "query", "cursor_columns"]
  | "rest" => ["base_url", "allowed_hosts", "allow_private", "pagination", "test_path", "resource_path"]
  | "odata" => ["base_url", "allowed_hosts", "allow_private", "entity_set", "delta", "test_path"]
  | "webhook" => ["secret_ref", "format", "id_field"]
  | "csv" => ["path", "delimiter", "encoding"]
  | "jsonl" => ["path", "encoding"]
  | "parquet" => ["path"]
  | "s3" | "azure_blob" | "gcs" => ["object_url", "allowed_hosts", "manifest_url", "secret_ref"]
  | _ => []

/-- `set(v)`: its members must be hashable. -/
def asSet (v : Json) : Py (List Json) := do
  let items ← v.iter
  if items.any fun
      | .arr _ | .obj _ => true
      | _ => false
  then .error (.python "TypeError")
  else return items

/-- A text that is neither missing nor empty. -/
def given : Option String → Bool
  | some text => text ≠ ""
  | none => false

section

variable (rt : Runtime) (urlparse : String → Py Url)

/-- `str(config.get(key, ""))`. -/
def settingText (config : Dict) (key : String) : String := rt.strOf ((config.get? key).getD (.str ""))

/-- `text.startswith(start)`. -/
def startsWith (text start : String) : Bool := start.toList.isPrefixOf text.toList

def checkBaseUrl (config : Dict) : Py Unit := do
  let parsed ← urlparse (settingText rt config "base_url")
  let allowedHosts ← asSet ((config.get? "allowed_hosts").getD (.arr []))
  let allowedHttp := parsed.hostname = some "127.0.0.1" || parsed.hostname = some "localhost" ||
    (config.get "allow_private").truthy
  if !(parsed.scheme = "https" || allowedHttp && parsed.scheme = "http") || !given parsed.hostname ||
      !(allowedHosts.any fun host => host.pyEq (optionJson parsed.hostname)) ||
      given parsed.username || given parsed.password then
    httpError 422 "invalid_source_base_url" []

/-- `_validate_source`. -/
def validateSource (item : SourceEntry) : Py Unit := do
  let unknown := unknownKeys item.config (allowedSettings item.kind)
  if unknown ≠ [] then
    httpError 422 "unsupported_source_settings" [("settings", .arr (unknown.map .str))]
  else if item.kind = "postgresql" then
    if !(item.config.get "secret_ref").truthy then
      httpError 422 "source_secret_reference_required" []
  else if ["rest", "odata"].contains item.kind then checkBaseUrl rt urlparse item.config
  else if ["csv", "jsonl", "parquet"].contains item.kind then
    let path := settingText rt item.config "path"
    if !startsWith path "/data/" || (path.toList.splitOn '/').contains "..".toList then
      httpError 422 "invalid_source_path" []
  else if item.kind = "webhook" then
    let secretRef := settingText rt item.config "secret_ref"
    if !startsWith secretRef "file:/run/recordlane/" || Json.isInfix "..".toList secretRef.toList then
      httpError 422 "invalid_webhook_secret_reference" []
  else if !startsWith (settingText rt item.config "object_url") "https://" then
    httpError 422 "object_url_must_be_https" []

end

/-- What the source table holds of a source besides its other columns. -/
structure SourceSettings where
  capabilities : Dict
  config : Dict

/-- The database, with the settings of its sources under their ids. -/
structure Catalogue where
  store : Store
  settings : Id → SourceSettings

/-- A domain of a bundle. -/
structure DomainEntry where
  key : String
  name : String
  mode : String
  definition : Json

/-- A bundle with the parts that its import reads, and the workspace it stems from. -/
structure Bundle where
  apiVersion : Json
  kind : Json
  sourceWorkspace : String
  domains : List DomainEntry
  sources : List SourceEntry
  configurations : List Json

def Domain.entry (d : Domain) : DomainEntry := ⟨d.key, d.name, d.mode, d.definition⟩

namespace Catalogue

variable (c : Catalogue)

/-- The row of a source, as an export reads it. -/
def entry (x : Source) : SourceEntry where
  key := x.key
  name := x.name
  kind := x.kind
  priority := x.priority
  capabilities := (c.settings x.id).capabilities
  config := (c.settings x.id).config

/-- A source is written with the settings of its body. -/
def written (s : Store) (id : Id) (item : SourceEntry) : Catalogue :=
  ⟨s, Function.update c.settings id ⟨item.capabilities, item.config⟩⟩

/-- The rows of a workspace. -/
def domainsOf (w : Workspace) : List Domain := c.store.domains.filter fun d => d.workspaceId = w.id

def sourcesOf (w : Workspace) : List Source := c.store.sources.filter fun x => x.workspaceId = w.id

def configurationsOf (w : Workspace) : List ConfigurationVersion :=
  c.store.configurations.filter fun x => x.workspaceId = w.id

/-- `export_workspace_bundle`. -/
def exportBundle (w : Workspace) : Bundle where
  apiVersion := .str "recordlane.io/v1alpha1"
  kind := .str "WorkspaceBundle"
  sourceWorkspace := w.slug
  domains := ((c.domainsOf w).insertionSort fun a b => a.key ≤ b.key).map Domain.entry
  sources := ((c.sourcesOf w).insertionSort fun a b => a.key ≤ b.key).map c.entry
  configurations := ((c.configurationsOf w).insertionSort fun a b => a.version ≤ b.version).map
    ConfigurationVersion.document

end Catalogue

/-- `item["definition"] | …` takes a map. -/
def DomainEntry.item (entry : DomainEntry) : Py BundleDomain :=
  match entry.definition with
  | .obj definition => .ok ⟨entry.key, entry.name, entry.mode, definition⟩
  | _ => .error (.python "TypeError")

namespace MasteringService

variable (self : MasteringService) (urlparse : String → Py Url) (c : Catalogue)

/-- `create_source` with its body. -/
def createEntry (payload : SourceEntry) : Py (Catalogue × Source) := do
  validateSource self.rt urlparse payload
  let (s, source) ← self.createSource c.store payload.key payload.name payload.kind payload.priority
  return (c.written s source.id payload, source)

/-- `replace_source` with its body. -/
def replaceEntry (sourceKey : String) (payload : SourceEntry) : Py (Catalogue × Source) := do
  validateSource self.rt urlparse payload
  let (s, source) ← self.replaceSource c.store sourceKey payload.key payload.name payload.kind
    payload.priority
  return (c.written s source.id payload, source)

/-- The checks on a bundle before anything of it is written. -/
def checkBundle (bundle : Bundle) : Py (List BundleDomain × List Dict) := do
  let domains ← bundle.domains.mapM fun entry => do
    let item ← entry.item
    let _ ← compilePolicy self.rt item.document
    return item
  bundle.sources.forM fun item =>
    if item.admitted then .ok () else .error (.python "ValueError")
  bundle.sources.forM (validateSource self.rt urlparse)
  let configurations ← bundle.configurations.mapM fun
    | .obj document => .ok document
    | _ => .error (.python "ValueError")
  return (domains, configurations)

def importEntry (replaceExisting : Bool) (state : Catalogue × Imported) (item : SourceEntry) :
    Py (Catalogue × Imported) :=
  let (c, imported) := state
  match self.source? c.store item.key with
  | some existing =>
    if (c.entry existing).pyEq item then .ok (c, { imported with unchanged := imported.unchanged + 1 })
    else if !replaceExisting then httpError 409 "source_conflict" [("key", .str item.key)]
    else
      let s := { c.store with sources := Table.modify Source.id c.store.sources existing.id fun x =>
        { x with key := item.key, name := item.name, kind := item.kind, priority := item.priority } }
      .ok (c.written s existing.id item, { imported with sources := imported.sources + 1 })
  | none =>
    let source : Source := {
      id := self.fresh c.store
      workspaceId := self.wid
      key := item.key
      name := item.name
      kind := item.kind
      priority := item.priority
      checkpoint := none
      lastIngestedAt := none }
    let s := { c.store with sources := c.store.sources ++ [source], drawn := c.store.drawn + 1 }
    .ok (c.written s source.id item, { imported with sources := imported.sources + 1 })

/-- `import_workspace_bundle` from its checks on the bundle on, with the settings of the sources. -/
def importEntries (bundle : Bundle) (replaceExisting : Bool) : Py (Catalogue × Imported) := do
  if !(bundle.apiVersion.pyEq (.str "recordlane.io/v1alpha1") &&
      bundle.kind.pyEq (.str "WorkspaceBundle")) then
    httpError 422 "invalid_workspace_bundle" []
  else
    let (domains, configurations) ← refuseBundle (self.checkBundle urlparse bundle)
    let (s, imported) ← domains.foldlM (self.importDomain replaceExisting) (c.store, ⟨0, 0, 0, 0⟩)
    let (c, imported) ← bundle.sources.foldlM (self.importEntry replaceExisting)
      ({ c with store := s }, imported)
    let (s, imported) ← configurations.foldlM self.importConfiguration (c.store, imported)
    return ({ c with
      store := self.audit s "workspace_bundle.imported" "workspace" self.wid imported.json }, imported)

end MasteringService

/-- Whether an operation leaves the settings of sources alone. -/
def Operation.keepsSettings : Operation → Bool
  | .request (.createSource ..) | .request (.replaceSource ..) | .importBundle .. => false
  | _ => true

/-- The operations of a workspace, where those that write sources come with their bodies. -/
inductive CatalogueOperation
  | createSource (who : Principal) (payload : SourceEntry)
  | replaceSource (who : Principal) (sourceKey : String) (payload : SourceEntry)
  | importBundle (who : Principal) (bundle : Bundle) (replaceExisting : Bool)
      (targetWorkspace : Option String)
  | operate (op : Operation) (keeps : op.keepsSettings = true)

section

variable (rt : Runtime) (urlparse : String → Py Url)

/-- The transaction of an operation. -/
def operateCatalogue (c : Catalogue) : CatalogueOperation → Py (Catalogue × Py Reply)
  | .createSource who payload => do
    if !payload.admitted then .error (.validation "body")
    else
      let self ← authorized rt c.store who "source:write"
      let (c, _) ← self.createEntry urlparse c payload
      return (c, .ok (.answer .done))
  | .replaceSource who sourceKey payload => do
    if !payload.admitted then .error (.validation "body")
    else
      let self ← authorized rt c.store who "source:write"
      let (c, _) ← self.replaceEntry urlparse c sourceKey payload
      return (c, .ok (.answer .done))
  | .importBundle who bundle replaceExisting targetWorkspace => do
    let self ← importTarget rt c.store who targetWorkspace
    let (c, imported) ← self.importEntries urlparse c bundle replaceExisting
    return (c, .ok (.imported imported))
  | .operate op _ => do
    let (s, reply) ← operate rt c.store op
    return ({ c with store := s }, reply)

end

/-- A workspace without sources. -/
def Catalogue.empty (w : Workspace) : Catalogue := ⟨Store.empty w, fun _ => ⟨[], []⟩⟩

end Recordlane
