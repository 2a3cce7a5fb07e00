import Recordlane.Auth.Session
import Recordlane.Simulations

/-! Bearer tokens and browser logins: whether they grant one identity the same. -/
namespace Recordlane

variable {rt : Runtime} {crypto : Crypto} {settings : AuthSettings} {s : Identities} {now : DateTime}
  {claims : Claims} {call : CallbackCall} {identity : IdentityRow} {workspace : String}

/-- The principal of a bearer token and the session of a login have one workspace and the same roles, or
both logins are refused. -/
def SameAuthority (crypto : Crypto) (bearer : Py Principal)
    (browser : Py (Identities × Py (String × String))) : Prop :=
  match bearer, browser with
  | .ok principal, .ok (s', .ok (rawSession, _)) =>
    ∃ row ∈ s'.sessions, row.tokenHash = crypto.sha256 rawSession ∧
      row.workspaceId = principal.workspaceId ∧ ∀ role, role ∈ row.roles ↔ role ∈ principal.roles
  | .error _, .error _ | .error _, .ok (_, .error _) => True
  | .ok _, .error _ | .ok _, .ok (_, .error _) | .error _, .ok (_, .ok _) => False

/-- The user's own row grants what the row and the groups grant together, of what the token claims: the
workspace, and the roles if there is any. -/
def GrantsAlone (s : Identities) (identity : IdentityRow) (workspace : String) (roles : List String) : Prop :=
  (workspace ∈ (s.provisionedEntitlements identity).2 → workspace ∈ identity.workspaceIds) ∧
    (workspace ∈ identity.workspaceIds → ∀ role ∈ roles,
      ((s.provisionedEntitlements identity).1 = [] ∨ .text role ∈ (s.provisionedEntitlements identity).1) →
        .text role ∈ identity.roles)

/-- Whoever claims a workspace has a row. Unless it is deactivated, it grants alone; where the token
expires after the year 9999, it does not grant the workspace. -/
def OwnGrants (rt : Runtime) (settings : AuthSettings) (s : Identities) (claims : Claims) : Prop :=
  ∀ workspace ∈ workspaceClaim rt claims, ∃ identity ∈ s.identity? (settings.oidcIssuer.getD "")
    claims.subject, identity.active = true →
      if (fromTimestamp claims.exp).isOk then GrantsAlone s identity workspace claims.realmRoles
      else workspace ∉ identity.workspaceIds

/-- A callback that presents the tokens of a login it has started, and draws a new session token. -/
structure Presents (crypto : Crypto) (settings : AuthSettings) (s : Identities) (now : DateTime)
    (call : CallbackCall) (claims : Claims) : Prop where
  issuer : setting settings.oidcIssuer = some claims.issuer
  audience : (setting settings.oidcAudience).isSome
  discovered : call.discovered = .ok ()
  exchange : call.exchange = .tokens (some claims) (some claims)
  realmOnly : (claims.clientRoles.lookup (settings.oidcClientId.getD "")).getD [] = []
  started : ∃ transaction secret, (s.logins.find? fun l => l.stateHash = crypto.sha256 call.state) =
      some transaction ∧ transaction.consumedAt = none ∧ now - 600 * secondTime ≤ transaction.createdAt ∧
    setting settings.sessionSecret = some secret ∧
      (crypto.decrypt secret transaction.encryptedVerifier).isSome ∧ claims.nonce = transaction.nonce
  drawn : ∀ row ∈ s.sessions, row.tokenHash ≠ crypto.sha256 call.rawSession

theorem mem_provisioned_roles {role : Role} (h : role ∈ identity.roles) :
    role ∈ (s.provisionedEntitlements identity).1 := List.mem_append_left _ h

theorem mem_provisioned_workspaces (h : workspace ∈ identity.workspaceIds) :
    workspace ∈ (s.provisionedEntitlements identity).2 := List.mem_append_left _ h

theorem setting_eq_some {value : Option String} {text : String} (h : setting value = some text) :
    value.getD "" = text := by
  rw [(Option.filter_eq_some_iff.mp h).1, Option.getD_some]

theorem mem_tokenRoles {clientId role : String} (h : (claims.clientRoles.lookup clientId).getD [] = []) :
    role ∈ tokenRoles claims clientId ↔ role ∈ claims.realmRoles := by
  rw [tokenRoles, mem_sortedSet, h, List.append_nil]

namespace Identities

theorem bearerPrincipal_eq (h : Presents crypto settings s now call claims) :
    s.bearerPrincipal rt settings (.ok ()) (some claims) = s.admitBearer rt claims := by
  obtain ⟨audience, haudience⟩ := Option.isSome_iff_exists.mp h.audience
  simp only [bearerPrincipal, identityMetadata, h.issuer, haudience, Option.isNone_some, Bool.or_self,
    Bool.false_eq_true, if_false]

/-- The callback of a login that was started opens a session for whom it admits. -/
theorem callback_eq (rt : Runtime) (h : Presents crypto settings s now call claims) :
    ∃ transaction, s.callback rt crypto settings now call = do
      let (admitted, identity, workspace, roles) ←
        (s.consumeLogin now transaction).admitLogin rt settings claims claims
      let tokenExpiry ← fromTimestamp claims.exp
      let s ← admitted.openSession {
        id := rt.uid admitted.drawn
        tokenHash := crypto.sha256 call.rawSession
        identityUserId := identity.id
        issuer := settings.oidcIssuer.getD ""
        workspaceId := workspace
        roles := roles
        expiresAt := min tokenExpiry (now + settings.sessionTtlSeconds * secondTime)
        revokedAt := none
        lastSeenAt := now }
      return (s, .ok (call.rawSession, transaction.returnTo)) := by
  obtain ⟨transaction, secret, hfound, hopen, hfresh, hsecret, hdecrypt, hnonce⟩ := h.started
  refine ⟨transaction, ?_⟩
  have hkey : sessionKey settings = .ok secret := by rw [sessionKey, hsecret]
  have hmetadata : identityMetadata settings call.discovered = .ok () := by
    rw [identityMetadata, h.issuer, h.discovered]
    rfl
  have hage : ¬transaction.createdAt < now - 600 * secondTime := not_lt.mpr hfresh
  have hsome : (crypto.decrypt secret transaction.encryptedVerifier).isNone = false := by
    rw [← Option.not_isSome, hdecrypt]
    rfl
  simp only [callback, hmetadata, hfound, hopen, hage, hkey, hsome, h.exchange, validateIdToken,
    validateAccessToken, hnonce, bind, Except.bind, Option.isSome_none, decide_false, Bool.or_self,
    Bool.false_eq_true, if_false, ne_eq, not_true_eq_false]

/-- The roles of the session that a login opens for a provisioned identity. -/
def loginRoles (s : Identities) (settings : AuthSettings) (claims : Claims) (identity : IdentityRow) :
    List String :=
  if (s.provisionedEntitlements identity).1.isEmpty then
    tokenRoles claims (settings.oidcClientId.getD "")
  else
    sortedSet ((tokenRoles claims (settings.oidcClientId.getD "")).filter fun role =>
      (s.provisionedEntitlements identity).1.contains (.text role))

theorem admitLogin_of_granted (hclaim : workspaceClaim rt claims = some workspace)
    (hid : s.identity? (settings.oidcIssuer.getD "") claims.subject = some identity)
    (hactive : identity.active = true) (hw : workspace ∈ (s.provisionedEntitlements identity).2) :
    s.admitLogin rt settings claims claims =
      .ok (s, identity, workspace, s.loginRoles settings claims identity) := by
  have hgranted : (s.provisionedEntitlements identity).2.contains workspace = true :=
    List.contains_iff_mem.mpr hw
  simp only [admitLogin, hclaim, hid, hactive, hgranted, loginRoles, Bool.not_true, Bool.false_eq_true,
    if_false]

theorem admitLogin_of_not_granted (hauto : settings.oidcAutoProvision = false)
    (hno : ∀ workspace identity, workspaceClaim rt claims = some workspace →
      s.identity? (settings.oidcIssuer.getD "") claims.subject = some identity →
        identity.active = true → workspace ∉ (s.provisionedEntitlements identity).2) :
    ∃ raised, s.admitLogin rt settings claims claims = .error raised := by
  cases hclaim : workspaceClaim rt claims with
  | none => exact ⟨_, by simp only [admitLogin, hclaim, httpError]; rfl⟩
  | some workspace =>
    cases hid : s.identity? (settings.oidcIssuer.getD "") claims.subject with
    | none => exact ⟨_, by simp only [admitLogin, hclaim, hid, hauto, httpError]; rfl⟩
    | some identity =>
      cases hactive : identity.active with
      | false => exact ⟨_, by simp only [admitLogin, hclaim, hid, hactive, httpError]; rfl⟩
      | true =>
        have hgranted : (s.provisionedEntitlements identity).2.contains workspace = false := by
          rw [← Bool.not_eq_true, List.contains_iff_mem]
          exact hno workspace identity hclaim hid hactive
        exact ⟨_, by simp only [admitLogin, hclaim, hid, hactive, hgranted, httpError]; rfl⟩

theorem callback_of_granted (h : Presents crypto settings s now call claims)
    (hclaim : workspaceClaim rt claims = some workspace)
    (hid : s.identity? (settings.oidcIssuer.getD "") claims.subject = some identity)
    (hactive : identity.active = true) (hw : workspace ∈ (s.provisionedEntitlements identity).2)
    {tokenExpiry : DateTime} (hexp : fromTimestamp claims.exp = .ok tokenExpiry) :
    ∃ s' row returnTo, s.callback rt crypto settings now call = .ok (s', .ok (call.rawSession, returnTo)) ∧
      s'.sessions = s.sessions ++ [row] ∧ row.tokenHash = crypto.sha256 call.rawSession ∧
      row.workspaceId = workspace ∧ row.roles = s.loginRoles settings claims identity := by
  obtain ⟨transaction, hcallback⟩ := callback_eq rt h
  have hadmit := admitLogin_of_granted (s := s.consumeLogin now transaction) hclaim hid hactive hw
  have hunused : ((s.consumeLogin now transaction).sessions.any fun r =>
      r.tokenHash = crypto.sha256 call.rawSession) = false := by
    simp only [List.any_eq_false, decide_eq_true_eq]
    exact h.drawn
  rw [hcallback, hadmit, hexp]
  simp only [openSession, hunused, bind, Except.bind, Bool.false_eq_true, if_false]
  exact ⟨_, _, _, rfl, rfl, rfl, rfl, rfl⟩

theorem callback_of_not_granted (rt : Runtime) (h : Presents crypto settings s now call claims)
    (hauto : settings.oidcAutoProvision = false)
    (hno : ∀ workspace identity, workspaceClaim rt claims = some workspace →
      s.identity? (settings.oidcIssuer.getD "") claims.subject = some identity →
        identity.active = true → workspace ∉ (s.provisionedEntitlements identity).2) :
    ∃ raised, s.callback rt crypto settings now call = .error raised := by
  obtain ⟨transaction, hcallback⟩ := callback_eq rt h
  obtain ⟨raised, hraised⟩ := admitLogin_of_not_granted (s := s.consumeLogin now transaction) hauto hno
  exact ⟨raised, by rw [hcallback, hraised]; rfl⟩

/-- No session is opened for a token that expires after the year 9999. -/
theorem callback_of_late (rt : Runtime) (h : Presents crypto settings s now call claims) {late : Raised}
    (hexp : fromTimestamp claims.exp = .error late) :
    ∃ raised, s.callback rt crypto settings now call = .error raised := by
  obtain ⟨transaction, hcallback⟩ := callback_eq rt h
  rw [hcallback, hexp]
  cases (s.consumeLogin now transaction).admitLogin rt settings claims claims with
  | error raised => exact ⟨raised, rfl⟩
  | ok admission => exact ⟨late, rfl⟩

theorem admitBearer_of_granted (hclaim : workspaceClaim rt claims = some workspace)
    (hid : s.identity? claims.issuer claims.subject = some identity) (hactive : identity.active = true)
    (hw : workspace ∈ identity.workspaceIds) :
    s.admitBearer rt claims = .ok ⟨claims.subject, claims.issuer, workspace,
      sortedSet (claims.realmRoles.filter fun role => identity.roles.contains (.text role)), none⟩ := by
  have hgranted : identity.workspaceIds.contains workspace = true := List.contains_iff_mem.mpr hw
  simp only [admitBearer, hclaim, hid, hactive, hgranted, Bool.not_true, Bool.false_eq_true, if_false]

theorem admitBearer_of_not_granted (hclaim : workspaceClaim rt claims = some workspace)
    (hid : s.identity? claims.issuer claims.subject = some identity)
    (hno : identity.active = true → workspace ∉ identity.workspaceIds) :
    ∃ raised, s.admitBearer rt claims = .error raised := by
  cases hactive : identity.active with
  | false => exact ⟨_, by simp only [admitBearer, hclaim, hid, hactive, httpError]; rfl⟩
  | true =>
    have hgranted : identity.workspaceIds.contains workspace = false := by
      rw [← Bool.not_eq_true, List.contains_iff_mem]
      exact hno hactive
    exact ⟨_, by simp only [admitBearer, hclaim, hid, hactive, hgranted, httpError]; rfl⟩

end Identities

/-- The roles of both logins agree exactly if the row grants what it and its groups grant together. -/
theorem loginRoles_agree_iff
    (hrealm : (claims.clientRoles.lookup (settings.oidcClientId.getD "")).getD [] = []) :
    (∀ role, role ∈ s.loginRoles settings claims identity ↔
      role ∈ sortedSet (claims.realmRoles.filter fun role => identity.roles.contains (.text role))) ↔
    ∀ role ∈ claims.realmRoles, ((s.provisionedEntitlements identity).1 = [] ∨
      .text role ∈ (s.provisionedEntitlements identity).1) → .text role ∈ identity.roles := by
  have hlogin : ∀ role, role ∈ s.loginRoles settings claims identity ↔ role ∈ claims.realmRoles ∧
      ((s.provisionedEntitlements identity).1 = [] ∨
        .text role ∈ (s.provisionedEntitlements identity).1) := by
    intro role
    unfold Identities.loginRoles
    split
    · next hempty =>
      rw [mem_tokenRoles hrealm]
      simp [List.isEmpty_iff.mp hempty]
    · next hempty =>
      have hne : (s.provisionedEntitlements identity).1 ≠ [] := fun h => hempty (List.isEmpty_iff.mpr h)
      rw [mem_sortedSet, List.mem_filter, mem_tokenRoles hrealm, List.contains_iff_mem]
      simp [hne]
  simp only [hlogin, mem_sortedSet, List.mem_filter, List.contains_iff_mem]
  constructor
  · intro h role hrole hgranted
    exact ((h role).mp ⟨hrole, hgranted⟩).2
  · intro h role
    constructor
    · rintro ⟨hrole, hgranted⟩
      exact ⟨hrole, h role hrole hgranted⟩
    · rintro ⟨hrole, hown⟩
      exact ⟨hrole, .inr (mem_provisioned_roles hown)⟩

theorem not_sameAuthority {bearer : Py Principal} {browser : Py (Identities × Py (String × String))}
    (hbearer : bearer.isOk = true) (hbrowser : browser.isOk = false) :
    ¬SameAuthority crypto bearer browser := by
  cases bearer with
  | error raised => cases hbearer
  | ok principal =>
    cases browser with
    | error raised => exact id
    | ok answered => cases hbrowser

namespace Supplier

/-- The login of alice is pending. -/
def pending (users : List IdentityRow) : Identities :=
  { Identities.empty 0 with
    users := users
    logins := [⟨"sha256:state", "secret:verifier", "nonce", "/records", 0, none⟩] }

theorem presents_pending (users : List IdentityRow) :
    Presents readable authSettings (pending users) 0 (aliceCallback "token") aliceClaims where
  issuer := rfl
  audience := rfl
  discovered := rfl
  exchange := rfl
  realmOnly := rfl
  started := ⟨_, "secret", rfl, rfl, by decide, rfl, by decide +kernel, rfl⟩
  drawn := by simp [pending, Identities.empty]

end Supplier

end Recordlane
