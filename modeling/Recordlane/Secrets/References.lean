import Mathlib.Data.List.TakeDrop
import Recordlane.Secrets.Providers
import Recordlane.Mastering.Bundles
import Recordlane.Frame

/-! The secret references of workspaces: they are created, rotated, tested and listed. A value that is
stored is never said again, and the newest one is what connectors get. -/
namespace Recordlane

/-- The body of `create_secret_reference`, as its schema admits it. -/
structure SecretCreate where
  name : String
  provider : SecretProvider
  value : Option String
  locator : Option String
  value_length : ∀ text ∈ value, 1 ≤ text.length ∧ text.length ≤ 20000

structure SecretRotate where
  value : String
  value_length : 1 ≤ value.length ∧ value.length ≤ 20000

/-- The store of a service with its secret references. -/
structure Keyring where
  store : Store
  references : List SecretReference

/-- `_secret_view`; `reference` is `secret:` with the name. -/
structure SecretView where
  id : Id
  name : String
  reference : String
  provider : SecretProvider
  locator : String
  version : Nat
  createdBy : String
  createdAt : DateTime
  updatedAt : DateTime
  valuePresent : Option Bool

inductive SecretAnswer
  | listed (views : List SecretView)
  | view (view : SecretView)
  | tested (available valueDisclosed : Bool) (version : Nat)
  | done

def SecretReference.view (row : SecretReference) : SecretView where
  id := row.id
  name := row.name
  reference := "secret:" ++ row.name
  provider := row.provider
  locator := row.locator
  version := row.version
  createdBy := row.createdBy
  createdAt := row.createdAt
  updatedAt := row.updatedAt
  valuePresent := if row.provider = .encryptedLocal then some (row.encryptedValue.getD "" ≠ "") else none

/-- Whether `except` of these classes catches an exception. -/
def caughtBy (classes : List String) : Raised → Bool
  | .python name => classes.contains name
  | .runtime _ => classes.contains "RuntimeError"
  | _ => false

/-- What the routes catch where they need the master key. -/
def keyErrors : List String := ["OSError", "ValueError", "RuntimeError"]

/-- An exception that a route catches is answered with 503. -/
def answered503 {α : Type} (classes : List String) (code : String) (x : Py α) : Py α :=
  match x with
  | .ok a => .ok a
  | .error e => if caughtBy classes e then httpError 503 code [] else .error e

variable (rt : Runtime) (fernet : Fernet)

/-- What a new reference holds: a token with the mark of the database, or the locator of an external
secret. -/
def sealValue (n : Nat) (payload : SecretCreate) (around : Surroundings) : Py (Option String × String) :=
  match payload.provider with
  | .encryptedLocal =>
    match payload.value with
    | none => httpError 422 "secret_value_required" []
    | some value =>
      if value = "" then httpError 422 "secret_value_required" []
      else (answered503 keyErrors "master_key_unavailable"
        (SecretResolver.encrypt rt fernet around n value)).map fun token => (some token, "encrypted:database")
  | .vaultKv2 =>
    if payload.value.isSome || payload.locator.getD "" = "" then
      httpError 422 "vault_locator_required_without_value" []
    else .ok (none, payload.locator.getD "")

/-- `list_secret_references`. -/
def listSecretReferences (k : Keyring) (who : Principal) : Py (List SecretView) := do
  let self ← authorized rt k.store who "model:write"
  return ((k.references.filter fun row => row.workspaceId = self.wid).insertionSort fun a b =>
    a.name ≤ b.name).map SecretReference.view

/-- `create_secret_reference`. -/
def createSecretReference (k : Keyring) (who : Principal) (payload : SecretCreate) (around : Surroundings) :
    Py (Keyring × SecretView) := do
  let self ← authorized rt k.store who "model:write"
  if !who.roles.contains "administrator" then httpError 403 "administrator_required" []
  else if k.references.any fun row => row.workspaceId = self.wid && row.name = payload.name then
    httpError 409 "secret_reference_exists" []
  else
    let (encrypted, locator) ← sealValue rt fernet k.store.drawn payload around
    let row : SecretReference := {
      id := self.fresh k.store
      workspaceId := self.wid
      name := payload.name
      provider := payload.provider
      locator := locator
      encryptedValue := encrypted
      version := 1
      createdBy := who.subject
      createdAt := self.now k.store
      updatedAt := self.now k.store }
    let store := { k.store with drawn := k.store.drawn + 1 }
    let store := self.audit store "secret_reference.created" "secret_reference" row.id
      [("name", .str row.name),
        ("provider", .str (if row.provider = .encryptedLocal then "encrypted_local" else "vault_kv2"))]
    return (⟨store, k.references ++ [row]⟩, row.view)

/-- The reference of a workspace. -/
def Keyring.reference? (k : Keyring) (workspaceId secretId : Id) : Py SecretReference :=
  match k.references.find? fun row => row.id = secretId && row.workspaceId = workspaceId with
  | some row => .ok row
  | none => httpError 404 "secret_reference_not_found" []

/-- `rotate_secret_reference`. -/
def rotateSecretReference (k : Keyring) (who : Principal) (secretId : Id) (payload : SecretRotate)
    (around : Surroundings) : Py (Keyring × SecretView) := do
  let self ← authorized rt k.store who "model:write"
  if !who.roles.contains "administrator" then httpError 403 "administrator_required" []
  else
    let row ← k.reference? self.wid secretId
    if row.provider ≠ .encryptedLocal then httpError 409 "external_secret_rotates_at_provider" []
    else
      let token ← answered503 keyErrors "master_key_unavailable"
        (SecretResolver.encrypt rt fernet around k.store.drawn payload.value)
      let row := { row with
        encryptedValue := some token
        version := row.version + 1
        updatedAt := self.now k.store }
      let store := self.audit k.store "secret_reference.rotated" "secret_reference" row.id
        [("version", .int row.version)]
      return (⟨store, Table.modify SecretReference.id k.references row.id fun _ => row⟩, row.view)

/-- `test_secret_reference`. -/
def testSecretReference (k : Keyring) (who : Principal) (secretId : Id) (around : Surroundings) :
    Py (Keyring × SecretAnswer) := do
  let self ← authorized rt k.store who "model:write"
  let row ← k.reference? self.wid secretId
  let value ← answered503 (keyErrors ++ ["KeyError"]) "secret_unavailable"
    (SecretResolver.resolve rt fernet around k.references self.wid ("secret:" ++ row.name))
  let store := self.audit k.store "secret_reference.tested" "secret_reference" row.id
    [("available", .bool (value ≠ "")), ("value_disclosed", .bool false)]
  return (⟨store, k.references⟩, .tested (value ≠ "") false row.version)

/-- What else the service does: the store may change, and rows are drawn. -/
structure Elsewhere where
  change : Store → Store
  drawn : ∀ s, s.drawn ≤ (change s).drawn

inductive SecretRequest
  | list (who : Principal)
  | create (who : Principal) (payload : SecretCreate) (around : Surroundings)
  | rotate (who : Principal) (secretId : Id) (payload : SecretRotate) (around : Surroundings)
  | test (who : Principal) (secretId : Id) (around : Surroundings)
  | elsewhere (other : Elsewhere)

/-- A request served: the references that it commits with its answer, or an exception. -/
def serveSecrets (k : Keyring) : SecretRequest → Py (Keyring × SecretAnswer)
  | .list who => (listSecretReferences rt k who).map fun views => (k, .listed views)
  | .create who payload around =>
    (createSecretReference rt fernet k who payload around).map fun p => (p.1, .view p.2)
  | .rotate who secretId payload around =>
    (rotateSecretReference rt fernet k who secretId payload around).map fun p => (p.1, .view p.2)
  | .test who secretId around => testSecretReference rt fernet k who secretId around
  | .elsewhere other => .ok ({ k with store := other.change k.store }, .done)

/-- The routes of secrets: a request that raises changes nothing. -/
def secretService : System Keyring SecretRequest (Py SecretAnswer) where
  step k request :=
    match serveSecrets rt fernet k request with
    | .ok (k, answer) => (k, .ok answer)
    | .error e => (k, .error e)

end Recordlane
