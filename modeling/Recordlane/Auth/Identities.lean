import Recordlane.Tenancy
import Recordlane.Library.Table
import Recordlane.Json

/-! The identity tables: users, groups and their members, browser sessions and pending logins. -/
namespace Recordlane

/-- A role in a JSON column: a text, or what a patch has stored of a number or a boolean. -/
inductive Role
  | text (name : String)
  | number (value : ℚ)
  deriving DecidableEq

/-- The whole projection of an OIDC or SCIM identity. -/
structure IdentityRow extends IdentityUser where
  id : Id
  externalId : Option String
  userName : String
  displayName : Option String
  active : Bool
  roles : List Role

/-- SCIM-provisioned group with the roles and workspaces it grants. -/
structure IdentityGroup where
  id : Id
  issuer : String
  externalId : String
  displayName : String
  roles : List Role
  workspaceIds : List String
  version : Nat

structure IdentityGroupMember where
  groupId : Id
  userId : Id
  deriving DecidableEq

/-- Opaque browser session. -/
structure BrowserSession where
  id : Id
  tokenHash : String
  identityUserId : Id
  issuer : String
  workspaceId : String
  roles : List String
  expiresAt : DateTime
  revokedAt : Option DateTime
  lastSeenAt : DateTime

/-- Single-use, short-lived PKCE transaction state. -/
structure OidcLogin where
  stateHash : String
  encryptedVerifier : String
  nonce : String
  returnTo : String
  createdAt : DateTime
  consumedAt : Option DateTime

/-- The settings of authentication. -/
structure AuthSettings where
  oidcIssuer : Option String
  oidcAudience : Option String
  oidcClientId : Option String
  oidcAutoProvision : Bool
  sessionSecret : Option String
  sessionTtlSeconds : Int

/-- A setting that is there and not empty. -/
def setting (value : Option String) : Option String := value.filter fun text => text ≠ ""

/-- `hashlib.sha256` and `Fernet`; a text that another secret has encrypted is not decrypted. -/
structure Crypto where
  sha256 : String → String
  encrypt : String → String → String
  decrypt : String → String → Option String

/-- What a verified token claims. -/
structure Claims where
  issuer : String
  subject : String
  exp : Int
  nonce : String
  preferredUsername : String
  name : Option String
  /-- `recordlane_workspace`. -/
  workspace : Json
  realmRoles : List String
  clientRoles : List (String × List String)

/-- The identity tables, with the time of the last request. -/
structure Identities where
  users : List IdentityRow
  groups : List IdentityGroup
  members : List IdentityGroupMember
  sessions : List BrowserSession
  logins : List OidcLogin
  clock : DateTime
  drawn : Nat

namespace Identities

variable (s : Identities)

def empty (clock : DateTime) : Identities := ⟨[], [], [], [], [], clock, 0⟩

def user? (id : Id) : Option IdentityRow := Table.find IdentityRow.id s.users id

def group? (id : Id) : Option IdentityGroup := Table.find IdentityGroup.id s.groups id

/-- The user of an issuer with a subject. -/
def identity? (issuer subject : String) : Option IdentityRow :=
  s.users.find? fun u => u.issuer = issuer && u.subject = subject

def membersOf (groupId : Id) : List Id :=
  (s.members.filter fun m => m.groupId = groupId).map IdentityGroupMember.userId

/-- The groups of a user. -/
def groupsOf (userId : Id) : List IdentityGroup :=
  s.groups.filter fun g => s.members.contains ⟨g.id, userId⟩

/-- `provisioned_entitlements`: the roles and the workspaces of a user and of its groups. -/
def provisionedEntitlements (identity : IdentityRow) : List Role × List String :=
  (identity.roles ++ (s.groupsOf identity.id).flatMap IdentityGroup.roles,
    identity.workspaceIds ++ (s.groupsOf identity.id).flatMap IdentityGroup.workspaceIds)

/-- `revoke_identity_sessions`. -/
def revokeIdentitySessions (now : DateTime) (identityUserId : Id) : Identities :=
  { s with sessions := s.sessions.map fun row =>
      if row.identityUserId = identityUserId ∧ row.revokedAt = none then
        { row with revokedAt := some now }
      else row }

end Identities

end Recordlane
