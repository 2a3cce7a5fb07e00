import Recordlane.Auth.Identities

/-! Browser logins by authorization code, their sessions, and bearer tokens. -/
namespace Recordlane

/-- What the token endpoint and the verification of its tokens give. An answer that is no object, or that
nests too deeply, raises outside the exceptions that count as a failure. -/
inductive TokenExchange
  | failed
  | unreadable (exception : String)
  | tokens (idToken accessToken : Option Claims)

/-- A request of `/auth/login`, with the values it draws. -/
structure LoginCall where
  returnTo : String
  discovered : Py Unit
  state : String
  verifier : String
  nonce : String

/-- A request of `/auth/callback`, with the session token it draws. -/
structure CallbackCall where
  state : String
  discovered : Py Unit
  exchange : TokenExchange
  rawSession : String

variable (rt : Runtime) (crypto : Crypto) (settings : AuthSettings)

/-- `_metadata`: what is discovered about the configured issuer. -/
def identityMetadata (discovered : Py Unit) : Py Unit :=
  if (setting settings.oidcIssuer).isNone then httpError 503 "identity_not_configured" []
  else discovered

/-- `_fernet`: the secret that sessions are encrypted with. -/
def sessionKey : Py String :=
  match setting settings.sessionSecret with
  | none => httpError 503 "browser_sessions_not_configured" []
  | some secret => .ok secret

/-- `_roles`. -/
def tokenRoles (claims : Claims) (clientId : String) : List String :=
  sortedSet (claims.realmRoles ++ (claims.clientRoles.lookup clientId).getD [])

/-- The workspace a token claims, of several the first one. -/
def workspaceClaim (claims : Claims) : Option String :=
  let workspace := match claims.workspace with
    | .arr workspaces => workspaces.head?.getD .null
    | workspace => workspace
  if workspace.truthy then some (rt.strOf workspace) else none

/-- `validate_id_token`. -/
def validateIdToken (token : Option Claims) (nonce : String) : Py Claims :=
  match token with
  | none => httpError 401 "invalid_id_token" []
  | some claims =>
    if claims.nonce ≠ nonce then httpError 401 "invalid_oidc_nonce" [] else .ok claims

/-- `validate_access_token`. -/
def validateAccessToken (token : Option Claims) : Py Claims :=
  match token with
  | none => httpError 401 "invalid_access_token" []
  | some claims => .ok claims

/-- A second, on a clock that counts microseconds. -/
def secondTime : Int := 1000000

/-- `datetime.fromtimestamp(seconds, UTC)`: the years 1 to 9999. -/
def fromTimestamp (seconds : Int) : Py DateTime :=
  if -62135596800 ≤ seconds ∧ seconds ≤ 253402300799 then .ok (seconds * secondTime)
  else .error (.python "ValueError")

namespace Identities

variable (s : Identities) (now : DateTime)

/-- `/auth/login`. -/
def login (call : LoginCall) : Py Identities := do
  if (setting settings.oidcClientId).isNone then
    httpError 503 "browser_identity_not_configured" []
  else if !call.returnTo.startsWith "/" || call.returnTo.startsWith "//" then
    httpError 422 "invalid_return_to" []
  else
    identityMetadata settings call.discovered
    let secret ← sessionKey settings
    if s.logins.any fun l => l.stateHash = crypto.sha256 call.state then
      .error (.integrity "oidc_logins")
    else
      return { s with logins := s.logins ++ [{
        stateHash := crypto.sha256 call.state
        encryptedVerifier := crypto.encrypt secret call.verifier
        nonce := call.nonce
        returnTo := call.returnTo
        createdAt := now
        consumedAt := none }] }

/-- The part of `callback` that decides who logs in: the identity, which may be new, the workspace and
the roles of the session. -/
def admitLogin (claims accessClaims : Claims) : Py (Identities × IdentityRow × String × List String) :=
  match workspaceClaim rt claims with
  | none => httpError 403 "workspace_claim_required" []
  | some workspace =>
    let issuer := settings.oidcIssuer.getD ""
    let roles := tokenRoles accessClaims (settings.oidcClientId.getD "")
    match s.identity? issuer claims.subject with
    | some identity =>
      if !identity.active then httpError 403 "identity_deprovisioned" []
      else
        let (provisionedRoles, provisionedWorkspaces) := s.provisionedEntitlements identity
        if !provisionedWorkspaces.contains workspace then httpError 403 "workspace_not_provisioned" []
        else
          let roles := if provisionedRoles.isEmpty then roles
            else sortedSet (roles.filter fun role => provisionedRoles.contains (.text role))
          .ok (s, identity, workspace, roles)
    | none =>
      if !settings.oidcAutoProvision then httpError 403 "identity_not_provisioned" []
      else
        let identity : IdentityRow := {
          id := rt.uid s.drawn
          issuer := issuer
          subject := claims.subject
          externalId := none
          userName := if claims.preferredUsername = "" then claims.subject else claims.preferredUsername
          displayName := claims.name
          active := true
          roles := roles.map .text
          workspaceIds := [workspace]
          version := 1 }
        .ok ({ s with users := s.users ++ [identity], drawn := s.drawn + 1 }, identity, workspace, roles)

/-- A pending login is used once. -/
def consumeLogin (transaction : OidcLogin) : Identities :=
  { s with
    logins := Table.modify OidcLogin.stateHash s.logins transaction.stateHash fun l =>
      { l with consumedAt := some now } }

/-- A new session is stored; the hash of its token is unique. -/
def openSession (row : BrowserSession) : Py Identities :=
  if s.sessions.any fun r => r.tokenHash = row.tokenHash then .error (.integrity "browser_sessions")
  else .ok { s with sessions := s.sessions ++ [row], drawn := s.drawn + 1 }

/-- `/auth/callback`. The answer is the session token with the place to return to. -/
def callback (call : CallbackCall) : Py (Identities × Py (String × String)) := do
  identityMetadata settings call.discovered
  match s.logins.find? fun l => l.stateHash = crypto.sha256 call.state with
  | none => httpError 401 "invalid_oidc_state" []
  | some transaction =>
    if transaction.consumedAt.isSome || transaction.createdAt < now - 600 * secondTime then
      httpError 401 "invalid_oidc_state" []
    else
      let secret ← sessionKey settings
      if (crypto.decrypt secret transaction.encryptedVerifier).isNone then
        httpError 401 "oidc_transaction_key_rotated" []
      else
        let consumed := s.consumeLogin now transaction
        match call.exchange with
        | .failed => return (consumed, httpError 502 "oidc_code_exchange_failed" [])
        | .unreadable exception => .error (.python exception)
        | .tokens idToken accessToken =>
          let claims ← validateIdToken idToken transaction.nonce
          let accessClaims ← validateAccessToken accessToken
          if accessClaims.subject ≠ claims.subject then httpError 401 "oidc_subject_mismatch" []
          else
            let (admitted, identity, workspace, roles) ← consumed.admitLogin rt settings claims accessClaims
            let tokenExpiry ← fromTimestamp claims.exp
            let s ← admitted.openSession {
              id := rt.uid admitted.drawn
              tokenHash := crypto.sha256 call.rawSession
              identityUserId := identity.id
              issuer := settings.oidcIssuer.getD ""
              workspaceId := workspace
              roles := roles
              expiresAt := min tokenExpiry (now + settings.sessionTtlSeconds * secondTime)
              revokedAt := none
              lastSeenAt := now }
            return (s, .ok (call.rawSession, transaction.returnTo))

/-- `session_principal`. -/
def sessionPrincipal (rawToken : String) : Identities × Option Principal :=
  match s.sessions.find? fun row => row.tokenHash = crypto.sha256 rawToken with
  | none => (s, none)
  | some row =>
    if row.revokedAt.isSome || row.expiresAt ≤ now then (s, none)
    else match s.user? row.identityUserId with
      | some identity =>
        if identity.active then
          ({ s with sessions := Table.modify BrowserSession.tokenHash s.sessions row.tokenHash fun r =>
              { r with lastSeenAt := now } },
            some ⟨identity.subject, row.issuer, row.workspaceId, row.roles, none⟩)
        else
          ({ s with sessions := Table.modify BrowserSession.tokenHash s.sessions row.tokenHash fun r =>
              { r with revokedAt := some now } }, none)
      | none =>
        ({ s with sessions := Table.modify BrowserSession.tokenHash s.sessions row.tokenHash fun r =>
            { r with revokedAt := some now } }, none)

/-- `/auth/logout`: what it does to the session. -/
def logout (rawToken : String) : Identities :=
  { s with sessions := Table.modify BrowserSession.tokenHash s.sessions (crypto.sha256 rawToken) fun r =>
      { r with revokedAt := some now } }

/-- The part of `current_principal` that decides what the claims of a bearer token grant. -/
def admitBearer (claims : Claims) : Py Principal :=
  match workspaceClaim rt claims with
  | none => httpError 403 "workspace_claim_required" []
  | some workspace =>
    match s.identity? claims.issuer claims.subject with
    | some identity =>
      if !identity.active then httpError 403 "identity_deprovisioned" []
      else if !identity.workspaceIds.contains workspace then
        httpError 403 "workspace_not_provisioned" []
      else
        let roles := sortedSet (claims.realmRoles.filter fun role => identity.roles.contains (.text role))
        .ok ⟨claims.subject, claims.issuer, workspace, roles, none⟩
    | none => .ok ⟨claims.subject, claims.issuer, workspace, claims.realmRoles, none⟩

/-- `current_principal` on a bearer token that `jwt.decode` has verified, or not. -/
def bearerPrincipal (discovered : Py Unit) (token : Option Claims) : Py Principal :=
  if (setting settings.oidcIssuer).isNone || (setting settings.oidcAudience).isNone then
    httpError 503 "identity_not_configured" []
  else match identityMetadata settings discovered, token with
    | .error (.http status code detail), _ => httpError status code detail
    | .error _, _ | .ok _, none => httpError 401 "invalid_token" []
    | .ok _, some claims => s.admitBearer rt claims

end Identities

namespace Supplier

/-- Hashes and ciphers that can be read. -/
def readable : Crypto where
  sha256 text := "sha256:" ++ text
  encrypt secret text := secret ++ ":" ++ text
  decrypt secret text :=
    if text.startsWith (secret ++ ":") then some (text.drop (secret.length + 1)).toString else none

def authSettings : AuthSettings where
  oidcIssuer := some "idp"
  oidcAudience := some "api"
  oidcClientId := some "web"
  oidcAutoProvision := false
  sessionSecret := some "secret"
  sessionTtlSeconds := 28800

/-- The tokens of alice, a steward of the workspace. -/
def aliceClaims : Claims where
  issuer := "idp"
  subject := "alice"
  exp := 3600
  nonce := "nonce"
  preferredUsername := "alice"
  name := none
  workspace := .str "acme"
  realmRoles := ["steward"]
  clientRoles := []

def alice (roles workspaceIds : List String) : IdentityRow where
  id := Runtime.plain.uid 0
  issuer := "idp"
  subject := "alice"
  externalId := some "alice"
  userName := "alice"
  displayName := none
  active := true
  roles := roles.map .text
  workspaceIds := workspaceIds
  version := 1

/-- The login that alice has started. -/
def aliceLogin : LoginCall := ⟨"/records", .ok (), "state", "verifier", "nonce"⟩

def aliceCallback (rawSession : String) : CallbackCall :=
  ⟨"state", .ok (), .tokens (some aliceClaims) (some aliceClaims), rawSession⟩

end Supplier

end Recordlane
