import Recordlane.Mastering.Bundles
import Recordlane.Supplier

/-! Service accounts: who creates and rotates them, and what their credentials allow. -/
namespace Recordlane

/-- Machine identity of a workspace. -/
structure ServiceAccount where
  id : Id
  workspaceId : Id
  name : String
  tokenPrefix : String
  verifier : String
  salt : String
  credentialVersion : Nat
  roles : List String
  scopes : List String
  expiresAt : DateTime
  revokedAt : Option DateTime
  createdBy : String

/-- The roles of `ROLE_PERMISSIONS`. -/
def knownRoles : List String :=
  ["administrator", "modeler", "integration_operator", "steward", "approver", "auditor", "read_only"]

/-- The body of `create_service_account`, as its schema admits it. -/
structure ServiceAccountCreate where
  name : String
  roles : List String
  scopes : List String
  expiresInDays : Nat
  name_length : 2 ≤ name.length ∧ name.length ≤ 160
  roles_known : ∀ role ∈ roles, role ∈ knownRoles
  roles_length : 1 ≤ roles.length ∧ roles.length ≤ 7
  scopes_length : 1 ≤ scopes.length ∧ scopes.length ≤ 20
  days_bounds : 1 ≤ expiresInDays ∧ expiresInDays ≤ 365

/-- What credentials take from `secrets` and `hashlib`: the random values are read by the number of
rows inserted so far, and `verifier` is the scrypt digest of a secret and a salt. -/
structure Secrets where
  tokenHex : Nat → String
  tokenUrlsafe : Nat → String
  salt : Nat → String
  verifier : String → String → String

/-- The store of a service with its accounts. -/
structure Directory where
  store : Store
  accounts : List ServiceAccount

/-- A day, on a clock that counts microseconds. -/
def dayTime : Int := 24 * 60 * 60 * 1000000

variable (rt : Runtime) (secrets : Secrets)

/-- `_issue_service_credential`: the account with new token data, and the credential. -/
def issueServiceCredential (n : Nat) (row : ServiceAccount) (workspaceSlug : String) :
    ServiceAccount × String :=
  ({ row with
      tokenPrefix := secrets.tokenHex n
      salt := secrets.salt n
      verifier := secrets.verifier (secrets.tokenUrlsafe n) (secrets.salt n) },
    "rl_sa_" ++ workspaceSlug ++ "_" ++ secrets.tokenHex n ++ "." ++ secrets.tokenUrlsafe n)

/-- `create_service_account`. -/
def createServiceAccount (d : Directory) (who : Principal) (payload : ServiceAccountCreate) :
    Py (Directory × String) := do
  let self ← authorized rt d.store who "model:write"
  if !who.roles.contains "administrator" then httpError 403 "administrator_required" []
  else
    let allowed := payload.roles.flatMap rolePermissions
    let known := knownRoles.flatMap rolePermissions
    if !allowed.contains "*" && !payload.scopes.all fun scope => allowed.contains scope then
      httpError 422 "scope_exceeds_role_permissions" []
    else if !payload.scopes.all fun scope => known.contains scope then
      httpError 422 "unknown_service_scope" []
    else if d.accounts.any fun a => a.workspaceId = self.wid && a.name = payload.name then
      httpError 409 "service_account_exists" []
    else
      let (row, credential) := issueServiceCredential secrets d.store.drawn {
        id := self.fresh d.store
        workspaceId := self.wid
        name := payload.name
        tokenPrefix := "pending"
        verifier := "pending"
        salt := "pending"
        credentialVersion := 1
        roles := sortedSet payload.roles
        scopes := sortedSet payload.scopes
        expiresAt := self.now d.store + payload.expiresInDays * dayTime
        revokedAt := none
        createdBy := who.subject } self.workspace.slug
      if d.accounts.any fun a => a.tokenPrefix = row.tokenPrefix then
        .error (.integrity "service_accounts.token_prefix")
      else
        let store := { d.store with drawn := d.store.drawn + 1 }
        let store := self.audit store "service_account.created" "service_account" row.id
          [("roles", .arr (row.roles.map .str)), ("scopes", .arr (row.scopes.map .str)),
            ("expires_at", .str (rt.isoformat row.expiresAt))]
        return (⟨store, d.accounts ++ [row]⟩, credential)

/-- `rotate_service_account`. -/
def rotateServiceAccount (d : Directory) (who : Principal) (accountId : Id) :
    Py (Directory × String) := do
  let self ← authorized rt d.store who "model:write"
  if !who.roles.contains "administrator" then httpError 403 "administrator_required" []
  else match d.accounts.find? fun a => a.id = accountId && a.workspaceId = self.wid with
    | none => httpError 404 "service_account_not_found" []
    | some row =>
      let (row, credential) := issueServiceCredential secrets d.store.drawn row self.workspace.slug
      let row := { row with credentialVersion := row.credentialVersion + 1, revokedAt := none }
      if d.accounts.any fun a => a.id ≠ row.id && a.tokenPrefix = row.tokenPrefix then
        .error (.integrity "service_accounts.token_prefix")
      else
        let store := self.audit d.store "service_account.rotated" "service_account" row.id
          [("credential_version", .int row.credentialVersion)]
        return (⟨store, Table.modify ServiceAccount.id d.accounts row.id fun _ => row⟩, credential)

/-- The workspace slug, the token prefix and the secret of a credential. -/
def parseCredential (rawToken : String) : Option (String × String × String) :=
  match rawToken.toList.span (· ≠ '.') with
  | (_, []) => none
  | (identifier, _ :: secret) =>
    if !"rl_sa_".toList.isPrefixOf identifier || secret.length < 32 then none
    else
      -- what follows the last underscore is the prefix
      match (identifier.drop 6).reverse.span (· ≠ '_') with
      | (_, []) => none
      | (tokenPrefix, _ :: workspaceSlug) =>
        if workspaceSlug.isEmpty || tokenPrefix.isEmpty then none
        else some (String.ofList workspaceSlug.reverse, String.ofList tokenPrefix.reverse,
          String.ofList secret)

/-- `_service_principal`. -/
def servicePrincipal (d : Directory) (rawToken : String) : Option Principal := do
  let (workspaceSlug, tokenPrefix, secret) ← parseCredential rawToken
  let workspace ← d.store.workspaces.find? fun w => w.slug = workspaceSlug
  let account ← d.accounts.find? fun a =>
    a.workspaceId = workspace.id && a.tokenPrefix = tokenPrefix
  if account.revokedAt.isSome || account.expiresAt ≤ rt.now d.store.drawn then none
  else if secrets.verifier secret account.salt ≠ account.verifier then none
  else some {
    subject := "service-account:" ++ account.id
    issuer := "recordlane:service-account"
    workspaceId := workspace.id
    roles := account.roles
    scopes := some account.scopes }

/-- Whom a principal can act as: itself, or an account of which it has obtained a credential. -/
def ActsAs (p : Principal) (d : Directory) (credentials : List String) (q : Principal) : Prop :=
  q = p ∨ ∃ credential ∈ credentials, servicePrincipal rt secrets d credential = some q

/-- A chain of calls: every call is made by the principal or with a credential obtained before. -/
inductive Chain (p : Principal) : Directory → List String → Prop
  | start (d : Directory) : Chain p d []
  | create {d d' : Directory} {credentials : List String} {credential : String} {q : Principal}
      {payload : ServiceAccountCreate} (h : Chain p d credentials)
      (hq : ActsAs rt secrets p d credentials q)
      (hc : createServiceAccount rt secrets d q payload = .ok (d', credential)) :
      Chain p d' (credential :: credentials)
  | rotate {d d' : Directory} {credentials : List String} {credential : String} {q : Principal}
      {accountId : Id} (h : Chain p d credentials) (hq : ActsAs rt secrets p d credentials q)
      (hc : rotateServiceAccount rt secrets d q accountId = .ok (d', credential)) :
      Chain p d' (credential :: credentials)

/-- No chain of calls reaches a permission that the principal lacks. -/
def Confined (p : Principal) : Prop :=
  ∀ (rt : Runtime) (secrets : Secrets) (d : Directory) (credentials : List String) (q : Principal)
    (permission : String), Chain rt secrets p d credentials → ActsAs rt secrets p d credentials q →
      q.allows permission → p.allows permission

/-- Whom the routes let manage service accounts. -/
def Principal.manages (p : Principal) : Prop := "administrator" ∈ p.roles ∧ p.allows "model:write"

/-- The scopes take nothing from the roles. -/
def Principal.unscoped (p : Principal) : Prop := ∀ scopes ∈ p.scopes, "*" ∈ scopes

variable {rt secrets} {d d' : Directory} {p q : Principal} {credentials : List String}
  {credential : String}

theorem authorized_allows {s : Store} {permission : String} {self : MasteringService}
    (h : authorized rt s p permission = .ok self) : p.allows permission := by
  unfold authorized at h
  split at h
  · assumption
  · cases h

theorem manages_of_create {payload : ServiceAccountCreate}
    (h : createServiceAccount rt secrets d p payload = .ok (d', credential)) : p.manages := by
  unfold createServiceAccount at h
  rw [Except.bind_eq_ok] at h
  obtain ⟨self, hself, h⟩ := h
  split at h
  · cases h
  · next hroles =>
    exact ⟨by simpa using hroles, authorized_allows hself⟩

theorem manages_of_rotate {accountId : Id}
    (h : rotateServiceAccount rt secrets d p accountId = .ok (d', credential)) : p.manages := by
  unfold rotateServiceAccount at h
  rw [Except.bind_eq_ok] at h
  obtain ⟨self, hself, h⟩ := h
  split at h
  · cases h
  · next hroles =>
    exact ⟨by simpa using hroles, authorized_allows hself⟩

theorem Chain.credentials_eq_nil (hp : ¬ p.manages) (h : Chain rt secrets p d credentials) :
    credentials = [] := by
  induction h with
  | start => rfl
  | create _ hq hc ih =>
    subst ih
    rcases hq with rfl | ⟨_, hmem, _⟩
    · exact (hp (manages_of_create hc)).elim
    · cases hmem
  | rotate _ hq hc ih =>
    subst ih
    rcases hq with rfl | ⟨_, hmem, _⟩
    · exact (hp (manages_of_rotate hc)).elim
    · cases hmem

/-- An administrator whose scopes hold no wildcard lacks some permission, one with a wildcard none. -/
theorem Principal.allows_of_unscoped (hrole : "administrator" ∈ p.roles) (hp : p.unscoped)
    (permission : String) : p.allows permission := by
  have hwildcard : "*" ∈ p.roles.flatMap rolePermissions :=
    List.mem_flatMap.mpr ⟨"administrator", hrole, List.mem_singleton_self _⟩
  unfold Principal.allows
  cases hscopes : p.scopes with
  | none => simp [hwildcard]
  | some scopes => simp [hwildcard, hp scopes hscopes]

theorem Principal.not_allows_wildcard (hp : ¬ p.unscoped) : ¬ p.allows "*" := by
  unfold Principal.unscoped at hp
  push Not at hp
  obtain ⟨scopes, hscopes, hwildcard⟩ := hp
  unfold Principal.allows
  rw [show p.scopes = some scopes from hscopes]
  simp [hwildcard]

theorem servicePrincipal_eq {rawToken workspaceSlug tokenPrefix secret : String} {w : Workspace}
    {a : ServiceAccount}
    (hparsed : parseCredential rawToken = some (workspaceSlug, tokenPrefix, secret))
    (hworkspace : (d.store.workspaces.find? fun w => w.slug = workspaceSlug) = some w)
    (haccount : (d.accounts.find? fun a => a.workspaceId = w.id && a.tokenPrefix = tokenPrefix) =
      some a)
    (hrevoked : a.revokedAt = none) (hexpires : rt.now d.store.drawn < a.expiresAt)
    (hverifier : secrets.verifier secret a.salt = a.verifier) :
    servicePrincipal rt secrets d rawToken = some ⟨"service-account:" ++ a.id,
      "recordlane:service-account", w.id, a.roles, some a.scopes⟩ := by
  simp [servicePrincipal, hparsed, hworkspace, haccount, hrevoked, hverifier, not_le.mpr hexpires]

namespace Supplier

/-- Secrets that tell rows apart; a verifier names the secret and the salt. -/
def vault : Secrets where
  tokenHex n := String.ofList (List.replicate (n + 1) 'a')
  tokenUrlsafe n := String.ofList (List.replicate (n + 32) 'x')
  salt _ := "salt"
  verifier secret salt := secret ++ salt

/-- An account that may do everything. -/
def wildcard : ServiceAccountCreate where
  name := "root"
  roles := ["administrator"]
  scopes := ["*"]
  expiresInDays := 30
  name_length := by decide
  roles_known := by decide
  roles_length := by decide
  scopes_length := by decide
  days_bounds := by decide

/-- An empty workspace without accounts. -/
def directory (workspaceId : Id) : Directory := ⟨Store.empty ⟨workspaceId, "acme"⟩, []⟩

/-- The row of the account that may do everything, and the credential that comes with it. -/
def root (p : Principal) : ServiceAccount where
  id := uid 0
  workspaceId := p.workspaceId
  name := "root"
  tokenPrefix := vault.tokenHex 0
  verifier := vault.verifier (vault.tokenUrlsafe 0) (vault.salt 0)
  salt := vault.salt 0
  credentialVersion := 1
  roles := ["administrator"]
  scopes := ["*"]
  expiresAt := Runtime.plain.now 0 + wildcard.expiresInDays * dayTime
  revokedAt := none
  createdBy := p.subject

def rootCredential : String := "rl_sa_" ++ "acme" ++ "_" ++ vault.tokenHex 0 ++ "." ++ vault.tokenUrlsafe 0

theorem createServiceAccount_wildcard (hp : p.manages) : ∃ store,
    createServiceAccount .plain vault (directory p.workspaceId) p wildcard =
      .ok (⟨store, [root p]⟩, rootCredential) ∧
    store.workspaces = [⟨p.workspaceId, "acme"⟩] ∧ store.drawn = 2 := by
  have hself : authorized .plain (directory p.workspaceId).store p "model:write" =
      .ok ⟨.plain, p, ⟨p.workspaceId, "acme"⟩⟩ := by
    rw [authorized, if_pos hp.2]
    simp [MasteringService.start, directory, Store.empty]
  have hroles : p.roles.contains "administrator" = true := by simpa using hp.1
  have hadmitted : (wildcard.roles.flatMap rolePermissions).contains "*" = true ∧
      (wildcard.scopes.all fun scope => (knownRoles.flatMap rolePermissions).contains scope) = true ∧
      sortedSet wildcard.roles = ["administrator"] ∧ sortedSet wildcard.scopes = ["*"] := by
    decide +kernel
  unfold createServiceAccount
  rw [hself]
  simp only [bind, Except.bind, hroles, hadmitted]
  exact ⟨_, rfl, rfl, rfl⟩

/-- Whoever manages accounts obtains a credential with the wildcard. -/
theorem chain_wildcard (hp : p.manages) : ∃ d credentials q, Chain .plain vault p d credentials ∧
    ActsAs .plain vault p d credentials q ∧ q.allows "*" := by
  obtain ⟨store, hcreate, hworkspaces, hdrawn⟩ := createServiceAccount_wildcard hp
  have hparsed : parseCredential rootCredential =
      some ("acme", vault.tokenHex 0, vault.tokenUrlsafe 0) := by decide +kernel
  have hexpires : Runtime.plain.now store.drawn < (root p).expiresAt := by
    rw [hdrawn]
    change Runtime.plain.now 2 < Runtime.plain.now 0 + wildcard.expiresInDays * dayTime
    decide
  have hacts : servicePrincipal .plain vault ⟨store, [root p]⟩ rootCredential = some
      ⟨"service-account:" ++ uid 0, "recordlane:service-account", p.workspaceId, ["administrator"],
        some ["*"]⟩ := by
    refine servicePrincipal_eq (a := root p) (w := ⟨p.workspaceId, "acme"⟩) hparsed ?_ ?_ rfl hexpires
      ?_
    · rw [hworkspaces]
      rfl
    · simp [root]
    · simp [root]
  refine ⟨_, [rootCredential], _, .create (.start _) (.inl rfl) hcreate,
    .inr ⟨rootCredential, List.mem_cons_self, hacts⟩, ?_⟩
  simp [Principal.allows, rolePermissions]

end Supplier

theorem not_confined (hp : p.manages) (hscopes : ¬ p.unscoped) : ¬ Confined p := by
  obtain ⟨d, credentials, q, hchain, hacts, hallows⟩ := Supplier.chain_wildcard hp
  exact fun h => p.not_allows_wildcard hscopes (h _ _ d credentials q "*" hchain hacts hallows)

/-- A principal gains nothing through service accounts if and only if it cannot manage them or its
scopes take nothing from its roles. -/
theorem confined_iff (p : Principal) : Confined p ↔ (p.manages → p.unscoped) := by
  constructor
  · intro h hp
    by_contra hscopes
    exact not_confined hp hscopes h
  · intro hp rt secrets d credentials q permission hchain hacts hallows
    by_cases hmanages : p.manages
    · exact Principal.allows_of_unscoped hmanages.1 (hp hmanages) permission
    · rw [hchain.credentials_eq_nil hmanages] at hacts
      rcases hacts with rfl | ⟨_, hmem, _⟩
      · exact hallows
      · cases hmem

/-- An administrator that is scoped to models may give itself every permission. -/
theorem modeler_not_confined :
    ¬ Confined ⟨"service-account:a1", "recordlane:service-account", "w1", ["administrator"],
      some ["model:write"]⟩ := by
  refine not_confined ⟨by decide, by decide⟩ fun h => ?_
  have hwildcard := h ["model:write"] rfl
  simp at hwildcard

end Recordlane
