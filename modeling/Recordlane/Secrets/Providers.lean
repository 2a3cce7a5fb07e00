import Recordlane.Connectors.Http
import Recordlane.Mastering.Catalogue

/-! Connector secrets: encrypted in the database, in a Vault, in files and in the environment. -/
namespace Recordlane

/-- `Fernet`: the key that it decodes of a text (`ValueError` where there is none), what it makes of a text
with the random values of a draw, and what it reads in a token (`InvalidToken` where it reads nothing). -/
structure Fernet where
  decode : String → Option (List UInt8)
  encrypt : List UInt8 → Nat → String → String
  decrypt : List UInt8 → String → Option String

/-- `urlparse(url)`, as far as the Vault provider reads it. -/
structure VaultUrl extends ParsedUrl where
  query : String
  fragment : String

/-- The settings of secrets. -/
structure SecretSettings where
  production : Bool
  masterKeyFile : Option String
  vaultUrl : Option String
  vaultAllowedHosts : List String
  vaultTokenFile : Option String
  vaultNamespace : Option String
  vaultAllowPrivate : Bool

/-- What the machine and the Vault say when a request asks them. Paths are resolved to their parts,
`secretRoot` are those of `/run/recordlane`, and a response that is no success raises `HTTPError`. -/
structure Surroundings where
  settings : SecretSettings
  readText : String → Py String
  resolvePath : String → Py (List String)
  secretRoot : List String
  environ : String → Option String
  urlparse : String → Py VaultUrl
  getaddrinfo : String → Nat → Py (List IpAddress)
  get : String → List (String × String) → Py Json

inductive SecretProvider
  | encryptedLocal | vaultKv2
  deriving DecidableEq

/-- Secret metadata; local values are encrypted and external values remain external. -/
structure SecretReference where
  id : Id
  workspaceId : Id
  name : String
  provider : SecretProvider
  locator : String
  encryptedValue : Option String
  version : Nat
  createdBy : String
  createdAt : DateTime
  updatedAt : DateTime

/-- `text.removeprefix(start)` of a text that starts so. -/
def removeStart (text start : String) : String := String.ofList (text.toList.drop start.length)

/-- The characters that `quote` leaves as they are. -/
def unreserved (b : UInt8) : Bool :=
  let c := Char.ofNat b.toNat
  c.isAlphanum || c = '_' || c = '.' || c = '-' || c = '~'

def hexDigit (n : Nat) : Char := "0123456789ABCDEF".toList.getD n '0'

def quoteByte (b : UInt8) : List Char :=
  if unreserved b then [Char.ofNat b.toNat] else ['%', hexDigit (b.toNat / 16), hexDigit (b.toNat % 16)]

/-- `quote(text, safe="")`. -/
def quote (text : String) : String := String.ofList (text.toUTF8.toList.flatMap quoteByte)

/-- `value[key]` of a decoded response. -/
def subscript (value : Json) (key : String) : Py Json :=
  match value with
  | .obj entries =>
    match Dict.get? entries key with
    | some found => .ok found
    | none => .error (.python "KeyError")
  | _ => .error (.python "TypeError")

variable (rt : Runtime)

/-- `text.strip()`. -/
def stripText (text : String) : String := String.ofList (strip rt text.toList)

namespace VaultKV2Provider

/-- `__init__`: what is checked before the Vault is used. -/
def create (around : Surroundings) : Py Unit := do
  let settings := around.settings
  if !ParsedUrl.given settings.vaultUrl || !ParsedUrl.given settings.vaultTokenFile then
    throw (.python "ValueError")
  else
    let parsed ← around.urlparse (settings.vaultUrl.getD "")
    let hostname := parsed.hostname.getD ""
    if parsed.scheme ≠ "https" || !ParsedUrl.given parsed.hostname ||
        !settings.vaultAllowedHosts.contains hostname || ParsedUrl.given parsed.username ||
        ParsedUrl.given parsed.password || parsed.query ≠ "" || parsed.fragment ≠ "" then
      throw (.python "ValueError")
    else
      let port ← parsed.port
      let addresses ← around.getaddrinfo hostname (if port.getD 0 = 0 then 443 else port.getD 0)
      if addresses.isEmpty then throw (.python "ValueError")
      else if !settings.vaultAllowPrivate && addresses.any IpAddress.isUnsafe then
        throw (.python "ValueError")
      else return ()

/-- The mount, the path of the secret and its key, as a locator `mount/path#key` names them. -/
def parseLocator (locator : String) : Option (String × List String × String) :=
  match locator.toList.span (· ≠ '#') with
  | (path, _ :: key) =>
    match path.splitOn '/' with
    | mount :: part :: parts =>
      if key.isEmpty || mount.isEmpty || (part.isEmpty && parts.isEmpty) ||
          (path.splitOn '/').contains "..".toList then none
      else some (String.ofList mount, (part :: parts).map String.ofList, String.ofList key)
    | _ => none
  | (_, []) => none

/-- The address of a secret. -/
def address (vaultUrl mount : String) (parts : List String) : String :=
  HttpConnector.dropLastSlashes vaultUrl ++ "/v1/" ++ quote mount ++ "/data/" ++
    "/".intercalate (parts.map quote)

/-- `httpx.HTTPError`, `KeyError` and `TypeError` are answered alike. -/
def unresolved : Raised → Raised
  | .python name =>
    if ["HTTPError", "KeyError", "TypeError"].contains name then
      .runtime "Vault secret could not be resolved"
    else .python name
  | e => e

/-- `resolve`. -/
def resolve (around : Surroundings) (locator : String) : Py String := do
  let settings := around.settings
  match parseLocator locator with
  | none => throw (.python "ValueError")
  | some (mount, parts, key) =>
    let token := stripText rt (← around.readText (settings.vaultTokenFile.getD ""))
    if token = "" then throw (.python "ValueError")
    else
      let headers := ("X-Vault-Token", token) ::
        (if ParsedUrl.given settings.vaultNamespace then
          [("X-Vault-Namespace", settings.vaultNamespace.getD "")] else [])
      let answer : Py Json := do
        let body ← around.get (address (settings.vaultUrl.getD "") mount parts) headers
        subscript (← subscript (← subscript body "data") "data") key
      match answer.mapError unresolved with
      | .error e => .error e
      | .ok (.str value) => .ok value
      | .ok _ => throw (.python "ValueError")

end VaultKV2Provider

namespace SecretResolver

variable (fernet : Fernet) (around : Surroundings)

/-- `_fernet`: the key that the master key file has. -/
def masterKey : Py (List UInt8) := do
  match around.settings.masterKeyFile with
  | none => throw (.runtime "master key file is not configured")
  | some file =>
    match fernet.decode (stripText rt (← around.readText file)) with
    | some key => return key
    | none => throw (.python "ValueError")

/-- `encrypt`. -/
def encrypt (n : Nat) (value : String) : Py String := do
  return fernet.encrypt (← masterKey rt fernet around) n value

/-- The value of a reference. -/
def resolveRow (row : SecretReference) : Py String :=
  match row.provider with
  | .encryptedLocal =>
    match row.encryptedValue with
    | none | some "" => throw (.runtime "encrypted secret has no value")
    | some token => do
      let key ← masterKey rt fernet around
      match fernet.decrypt key token with
      | some value => return value
      | none => throw (.runtime "secret cannot be decrypted with the configured key")
  | .vaultKv2 => do
    VaultKV2Provider.create around
    VaultKV2Provider.resolve rt around row.locator

/-- `resolve`. -/
def resolve (references : List SecretReference) (workspaceId : Id) (reference : String) : Py String :=
  if startsWith reference "file:" then do
    let path ← around.resolvePath (removeStart reference "file:")
    if !around.secretRoot.isPrefixOf path then throw (.python "ValueError")
    else return stripText rt (← around.readText ("/" ++ "/".intercalate path))
  else if startsWith reference "env:" then
    let name := removeStart reference "env:"
    if around.settings.production then throw (.python "ValueError")
    else if !startsWith name "RECORDLANE_" then throw (.python "ValueError")
    else
      match around.environ name with
      | some value => return value
      | none => throw (.runtime "environment secret is unavailable")
  else if !startsWith reference "secret:" then throw (.python "ValueError")
  else
    match references.find? fun row =>
      row.workspaceId = workspaceId && row.name = removeStart reference "secret:" with
    | none => throw (.python "KeyError")
    | some row => resolveRow rt fernet around row

end SecretResolver

end Recordlane
