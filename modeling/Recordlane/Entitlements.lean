import Recordlane.Auth.Scim
import Recordlane.Logins
import Recordlane.Frame

/-! Browser sessions and what their users are entitled to, over all provisioning. -/
namespace Recordlane

variable {rt : Runtime} {crypto : Crypto} {settings : AuthSettings} {s s' t : Identities}
  {now : DateTime} {identity : IdentityRow} {row : BrowserSession} {request : IdentityRequest}
  {timed : Nat × IdentityRequest}

namespace Identities

/-- The session grants what its user is provisioned with. -/
def Within (s : Identities) (identity : IdentityRow) (row : BrowserSession) : Prop :=
  (∀ role ∈ row.roles, .text role ∈ (s.provisionedEntitlements identity).1) ∧
    row.workspaceId ∈ (s.provisionedEntitlements identity).2

/-- The session is neither revoked nor expired. -/
def Open (s : Identities) (row : BrowserSession) : Prop := row.revokedAt = none ∧ s.clock < row.expiresAt

/-- Every session that is accepted from now on grants what its user is provisioned with. -/
def WithinEntitlements (crypto : Crypto) (s : Identities) : Prop :=
  ∀ now, s.clock ≤ now → ∀ rawToken principal, (s.sessionPrincipal crypto now rawToken).2 = some principal →
    ∃ row ∈ s.sessions, ∃ identity, row.tokenHash = crypto.sha256 rawToken ∧
      s.user? row.identityUserId = some identity ∧
      (∀ role ∈ principal.roles, .text role ∈ (s.provisionedEntitlements identity).1) ∧
      principal.workspaceId ∈ (s.provisionedEntitlements identity).2

/-- The same, session by session. -/
def SessionsWithin (s : Identities) : Prop :=
  ∀ row ∈ s.sessions, s.Open row → ∀ identity ∈ s.users, identity.id = row.identityUserId →
    identity.active = true → s.Within identity row

/-- The row that a request writes over the one of a user. -/
def written? (rt : Runtime) (s : Identities) : IdentityRequest → Option IdentityRow
  | .replaceUser userId payload => (s.user? userId).map payload.replaced
  | .patchUser userId operations => (s.user? userId).bind fun row => (patchedUser rt row operations).toOption
  | _ => none

/-- The provisioned identity that a request logs in, with the claims of its two tokens. -/
def loggedIn? (settings : AuthSettings) (s : Identities) :
    IdentityRequest → Option (IdentityRow × Claims × Claims)
  | .callback call =>
    match call.exchange with
    | .tokens (some claims) (some accessClaims) =>
      (s.identity? (settings.oidcIssuer.getD "") claims.subject).map fun identity =>
        (identity, claims, accessClaims)
    | _ => none
  | _ => none

/-- When a session that is opened now expires. -/
def expiry (settings : AuthSettings) (s : Identities) (claims : Claims) : DateTime :=
  min (claims.exp * secondTime) (s.clock + settings.sessionTtlSeconds * secondTime)

/-- A user that is written and stays active keeps what its open sessions grant, and a user that logs in
is provisioned with a role or brings none. -/
def KeepsWithin (rt : Runtime) (settings : AuthSettings) (s : Identities) (request : IdentityRequest) :
    Prop :=
  (∀ new ∈ s.written? rt request, new.active = true →
    ∀ row ∈ s.sessions, row.identityUserId = new.id → s.Open row → s.Within new row) ∧
  ∀ p ∈ s.loggedIn? settings request, s.clock < s.expiry settings p.2.1 →
    (s.provisionedEntitlements p.1).1 = [] → tokenRoles p.2.2 (settings.oidcClientId.getD "") = []

instance : Decidable (s.Within identity row) :=
  inferInstanceAs (Decidable ((∀ role ∈ row.roles, .text role ∈ (s.provisionedEntitlements identity).1) ∧
    row.workspaceId ∈ (s.provisionedEntitlements identity).2))

instance : Decidable (s.Open row) :=
  inferInstanceAs (Decidable (row.revokedAt = none ∧ s.clock < row.expiresAt))

instance : Decidable s.SessionsWithin :=
  inferInstanceAs (Decidable (∀ row ∈ s.sessions, s.Open row → ∀ identity ∈ s.users,
    identity.id = row.identityUserId → identity.active = true → s.Within identity row))

instance : Decidable (s.KeepsWithin rt settings request) :=
  inferInstanceAs (Decidable ((∀ new ∈ s.written? rt request, new.active = true →
    ∀ row ∈ s.sessions, row.identityUserId = new.id → s.Open row → s.Within new row) ∧
    ∀ p ∈ s.loggedIn? settings request, s.clock < s.expiry settings p.2.1 →
      (s.provisionedEntitlements p.1).1 = [] → tokenRoles p.2.2 (settings.oidcClientId.getD "") = []))

end Identities

/-- Keys identify users and sessions, and every session is one of a user. -/
structure IdentityIntegrity (rt : Runtime) (crypto : Crypto) (s : Identities) : Prop where
  userIds : Table.Keyed IdentityRow.id s.users
  users : ∀ u ∈ s.users, Drawn rt s.drawn u.id
  sessionHashes : Table.Keyed BrowserSession.tokenHash s.sessions
  sessionTokens : ∀ row ∈ s.sessions, ∃ rawToken, row.tokenHash = crypto.sha256 rawToken
  sessionUsers : ∀ row ∈ s.sessions, ∃ u ∈ s.users, u.id = row.identityUserId

/-- A session stays what it is, and is not taken back from revocation. -/
structure Fades (row row' : BrowserSession) : Prop where
  tokenHash : row'.tokenHash = row.tokenHash
  identityUserId : row'.identityUserId = row.identityUserId
  workspaceId : row'.workspaceId = row.workspaceId
  roles : row'.roles = row.roles
  expiresAt : row'.expiresAt = row.expiresAt
  revoked : row'.revokedAt = none → row.revokedAt = none

theorem Fades.refl (row : BrowserSession) : Fades row row := ⟨rfl, rfl, rfl, rfl, rfl, id⟩

/-- The session is revoked if it is one of the users' and still is not. -/
def revoked (now : DateTime) (userIds : List Id) (row : BrowserSession) : BrowserSession :=
  if row.identityUserId ∈ userIds ∧ row.revokedAt = none then { row with revokedAt := some now } else row

theorem fades_revoked {userIds : List Id} : Fades row (revoked now userIds row) := by
  unfold revoked
  split
  · exact ⟨rfl, rfl, rfl, rfl, rfl, nofun⟩
  · exact .refl row

theorem revoked_revokedAt {userIds : List Id} (h : row.identityUserId ∈ userIds) :
    (revoked now userIds row).revokedAt ≠ none := by
  unfold revoked
  split
  · nofun
  · next hopen => exact fun hnone => hopen ⟨h, hnone⟩

theorem revoked_cons {id : Id} {userIds : List Id} :
    revoked now userIds (revoked now [id] row) = revoked now (id :: userIds) row := by
  by_cases hid : row.identityUserId = id
  · by_cases hopen : row.revokedAt = none
    · simp [revoked, hid, hopen]
    · simp [revoked, hopen]
  · by_cases hopen : row.revokedAt = none
    · simp [revoked, hid, hopen]
    · simp [revoked, hopen]

namespace Identities

theorem revokeIdentitySessions_eq {id : Id} : s.revokeIdentitySessions now id =
    { s with sessions := s.sessions.map (revoked now [id]) } := by
  have hone : revoked now [id] = fun row =>
      if row.identityUserId = id ∧ row.revokedAt = none then { row with revokedAt := some now } else row := by
    funext row
    simp only [revoked, List.mem_singleton]
  rw [hone, revokeIdentitySessions]

theorem revokeMembers_eq {userIds : List Id} : s.revokeMembers now userIds =
    { s with sessions := s.sessions.map (revoked now userIds) } := by
  induction userIds generalizing s with
  | nil =>
    have hid : revoked now [] = id := by
      funext row
      simp [revoked]
    simp [revokeMembers, hid]
  | cons id userIds ih =>
    have hstep : s.revokeMembers now (id :: userIds) =
        (s.revokeIdentitySessions now id).revokeMembers now userIds := rfl
    rw [hstep, ih, revokeIdentitySessions_eq]
    simp only [List.map_map]
    congr 2
    funext row
    exact revoked_cons

theorem Within.of_fades {row' : BrowserSession} (h : s.Within identity row) (hf : Fades row row') :
    s.Within identity row' := by
  unfold Within at h ⊢
  rwa [hf.roles, hf.workspaceId]

theorem Open.of_fades {row' : BrowserSession} (h : s.Open row') (hf : Fades row row') : s.Open row :=
  ⟨hf.revoked h.1, hf.expiresAt ▸ h.2⟩

theorem SessionsWithin.map (h : s.SessionsWithin) {f : BrowserSession → BrowserSession}
    (hf : ∀ row, Fades row (f row)) {logins : List OidcLogin} :
    ({ s with logins := logins, sessions := s.sessions.map f } : Identities).SessionsWithin := by
  intro row' hrow' hopen identity hmem hid hactive
  obtain ⟨row, hrow, rfl⟩ := List.mem_map.mp hrow'
  have hopen : s.Open row := Open.of_fades (s := s) hopen (hf row)
  rw [(hf row).identityUserId] at hid
  have hwithin : s.Within identity row := h row hrow hopen identity hmem hid hactive
  exact Within.of_fades (s := s) hwithin (hf row)

end Identities

/-- What an answered request does to the tables. The proposition is what keeps open sessions within
their entitlements. -/
inductive IdentityEffect (rt : Runtime) (crypto : Crypto) (s : Identities) : Prop → Identities → Prop
  | faded {logins : List OidcLogin} {f : BrowserSession → BrowserSession} (hf : ∀ row, Fades row (f row)) :
      IdentityEffect rt crypto s True { s with logins := logins, sessions := s.sessions.map f }
  | joined {new : IdentityRow} (hid : new.id = rt.uid s.drawn) :
      IdentityEffect rt crypto s True { s with users := s.users ++ [new], drawn := s.drawn + 1 }
  | wrote {new : IdentityRow} {f : BrowserSession → BrowserSession} (hf : ∀ row, Fades row (f row))
      (hid : ∃ u ∈ s.users, u.id = new.id) (hkept : new.active = true → ∀ row, f row = row) :
      IdentityEffect rt crypto s
        (new.active = true → ∀ row ∈ s.sessions, row.identityUserId = new.id → s.Open row → s.Within new row)
        { s with
          users := Table.modify IdentityRow.id s.users new.id fun _ => new
          sessions := s.sessions.map f }
  | regrouped {groups : List IdentityGroup} {members : List IdentityGroupMember} {affected : List Id}
      {n : Nat} {now : DateTime} (hn : s.drawn ≤ n)
      (hsame : ∀ userId, userId ∉ affected →
        ({ s with groups := groups, members := members } : Identities).groupsOf userId = s.groupsOf userId) :
      IdentityEffect rt crypto s True
        { s with
          groups := groups
          members := members
          drawn := n
          sessions := s.sessions.map (revoked now affected) }
  | opened {users : List IdentityRow} {logins : List OidcLogin} {n : Nat} {identity : IdentityRow}
      {row : BrowserSession} (hn : s.drawn ≤ n)
      (husers : users = s.users ∨
        (∃ new, new.id = rt.uid s.drawn ∧ users = s.users ++ [new]) ∧ s.drawn < n)
      (hidentity : identity ∈ users) (hrow : row.identityUserId = identity.id)
      (hactive : identity.active = true)
      (hhash : ∃ rawToken, row.tokenHash = crypto.sha256 rawToken)
      (hnew : ∀ r ∈ s.sessions, r.tokenHash ≠ row.tokenHash) :
      IdentityEffect rt crypto s (s.Open row → s.Within identity row)
        { s with
          users := users
          logins := logins
          sessions := s.sessions ++ [row]
          drawn := n }

theorem identityIntegrity_empty {clock : DateTime} : IdentityIntegrity rt crypto (.empty clock) := by
  constructor <;> simp [Identities.empty, Table.Keyed]

namespace IdentityIntegrity

theorem map (h : IdentityIntegrity rt crypto s) {f : BrowserSession → BrowserSession}
    (hf : ∀ row, Fades row (f row)) :
    Table.Keyed BrowserSession.tokenHash (s.sessions.map f) ∧
      (∀ row ∈ s.sessions.map f, ∃ rawToken, row.tokenHash = crypto.sha256 rawToken) ∧
      ∀ row ∈ s.sessions.map f, ∃ u ∈ s.users, u.id = row.identityUserId := by
  refine ⟨h.sessionHashes.map fun row _ => (hf row).tokenHash, fun row' hrow' => ?_, fun row' hrow' => ?_⟩
  · obtain ⟨row, hrow, rfl⟩ := List.mem_map.mp hrow'
    rw [(hf row).tokenHash]
    exact h.sessionTokens row hrow
  · obtain ⟨row, hrow, rfl⟩ := List.mem_map.mp hrow'
    rw [(hf row).identityUserId]
    exact h.sessionUsers row hrow

theorem join (h : IdentityIntegrity rt crypto s) {new : IdentityRow} {n : Nat} (hid : new.id = rt.uid s.drawn)
    (hn : s.drawn < n) : Table.Keyed IdentityRow.id (s.users ++ [new]) ∧
      ∀ u ∈ s.users ++ [new], Drawn rt n u.id := by
  refine ⟨h.userIds.append fun u hu => ?_, fun u hu => ?_⟩
  · rw [hid]
    exact (h.users u hu).ne_uid
  · rcases List.mem_append.mp hu with hu | hu
    · exact (h.users u hu).mono hn.le
    · rw [List.mem_singleton.mp hu, hid]
      exact drawn_uid hn

end IdentityIntegrity

theorem IdentityEffect.integrity {K : Prop} (he : IdentityEffect rt crypto s K s')
    (h : IdentityIntegrity rt crypto s) : IdentityIntegrity rt crypto s' := by
  cases he with
  | faded hf =>
    obtain ⟨hhashes, htokens, husers⟩ := h.map hf
    exact ⟨h.userIds, h.users, hhashes, htokens, husers⟩
  | joined hid =>
    obtain ⟨hids, hdrawn⟩ := h.join hid (Nat.lt_succ_self _)
    refine ⟨hids, hdrawn, h.sessionHashes, h.sessionTokens, fun row hrow => ?_⟩
    obtain ⟨u, hu, hid⟩ := h.sessionUsers row hrow
    exact ⟨u, List.mem_append_left _ hu, hid⟩
  | @wrote new f hf hid _ =>
    obtain ⟨hhashes, htokens, husers⟩ := h.map hf
    have hkeys : ∀ u ∈ s.users, (if u.id = new.id then new else u).id = u.id := by
      intro u _
      split
      · next heq => exact heq.symm
      · rfl
    refine ⟨h.userIds.map hkeys, fun u' hu' => ?_, hhashes, htokens, fun row hrow => ?_⟩
    · obtain ⟨u, hu, rfl⟩ := List.mem_map.mp hu'
      rw [hkeys u hu]
      exact h.users u hu
    · obtain ⟨u, hu, huser⟩ := husers row hrow
      exact ⟨_, List.mem_map_of_mem hu, (hkeys u hu).trans huser⟩
  | regrouped hn _ =>
    obtain ⟨hhashes, htokens, husers⟩ := h.map fun _ => fades_revoked
    exact ⟨h.userIds, fun u hu => (h.users u hu).mono hn, hhashes, htokens, husers⟩
  | @opened users _ n identity row hn husers hidentity hrow _ hhash hnew =>
    have husers : Table.Keyed IdentityRow.id users ∧ (∀ u ∈ users, Drawn rt n u.id) ∧
        ∀ u ∈ s.users, u ∈ users := by
      rcases husers with rfl | ⟨⟨new, hid, rfl⟩, hlt⟩
      · exact ⟨h.userIds, fun u hu => (h.users u hu).mono hn, fun _ hu => hu⟩
      · obtain ⟨hids, hdrawn⟩ := h.join hid hlt
        exact ⟨hids, hdrawn, fun _ hu => List.mem_append_left _ hu⟩
    obtain ⟨hids, hdrawn, hkept⟩ := husers
    refine ⟨hids, hdrawn, h.sessionHashes.append hnew, fun r hr => ?_, fun r hr => ?_⟩
    · rcases List.mem_append.mp hr with hr | hr
      · exact h.sessionTokens r hr
      · rw [List.mem_singleton.mp hr]
        exact hhash
    · rcases List.mem_append.mp hr with hr | hr
      · obtain ⟨u, hu, huser⟩ := h.sessionUsers r hr
        exact ⟨u, hkept u hu, huser⟩
      · rw [List.mem_singleton.mp hr]
        exact ⟨identity, hidentity, hrow.symm⟩

/-- What follows an answered request stays within the entitlements exactly if the proposition holds. -/
theorem IdentityEffect.within_iff {K : Prop} (he : IdentityEffect rt crypto s K s')
    (hi : IdentityIntegrity rt crypto s) (h : s.SessionsWithin) : s'.SessionsWithin ↔ K := by
  have hi' := he.integrity hi
  cases he with
  | faded hf => exact iff_of_true (h.map hf) trivial
  | joined hid =>
    refine iff_of_true ?_ trivial
    intro row hrow hopen identity hmem huser hactive
    rcases List.mem_append.mp hmem with hmem | hmem
    · exact h row hrow hopen identity hmem huser hactive
    · -- no session is one of the new user
      obtain ⟨u, hu, hsession⟩ := hi.sessionUsers row hrow
      rw [List.mem_singleton.mp hmem, hid] at huser
      exact absurd (hsession.trans huser.symm) (hi.users u hu).ne_uid
  | @wrote new f hf hid hkept =>
    constructor
    · intro hall hactive row hrow huser hopen
      obtain ⟨u, hu, huid⟩ := hid
      have hmem : new ∈ Table.modify IdentityRow.id s.users new.id fun _ => new :=
        Table.mem_modify.mpr (.inr ⟨u, hu, huid, rfl⟩)
      exact hall row (List.mem_map.mpr ⟨row, hrow, hkept hactive row⟩) hopen new hmem huser.symm hactive
    · intro hK row' hrow' hopen identity hmem huser hactive
      obtain ⟨row, hrow, rfl⟩ := List.mem_map.mp hrow'
      have hopen : s.Open row := Identities.Open.of_fades (s := s) hopen (hf row)
      rw [(hf row).identityUserId] at huser
      rcases Table.mem_modify.mp hmem with ⟨hmem, -⟩ | ⟨u, -, -, rfl⟩
      · have hwithin := h row hrow hopen identity hmem huser hactive
        exact Identities.Within.of_fades (s := s) hwithin (hf row)
      · have hwithin := hK hactive row hrow huser.symm hopen
        exact Identities.Within.of_fades (s := s) hwithin (hf row)
  | @regrouped groups members affected _ _ _ hsame =>
    refine iff_of_true ?_ trivial
    intro row' hrow' hopen identity hmem huser hactive
    obtain ⟨row, hrow, rfl⟩ := List.mem_map.mp hrow'
    rw [fades_revoked.identityUserId] at huser
    by_cases haffected : row.identityUserId ∈ affected
    · exact absurd hopen.1 (revoked_revokedAt haffected)
    · have hopen : s.Open row := Identities.Open.of_fades (s := s) hopen fades_revoked
      have hwithin := h row hrow hopen identity hmem huser hactive
      have hgroups := hsame identity.id (huser ▸ haffected)
      refine Identities.Within.of_fades ?_ fades_revoked
      unfold Identities.Within Identities.provisionedEntitlements at hwithin ⊢
      rw [← hgroups] at hwithin
      exact hwithin
  | @opened users _ n identity row _ husers hidentity hrow hactive _ _ =>
    constructor
    · intro hall hopen
      exact hall row (List.mem_append_right _ (List.mem_singleton_self row)) hopen identity hidentity
        hrow.symm hactive
    · intro hK r hlisted hopen user hmem huser huseractive
      rcases List.mem_append.mp hlisted with hr | hr
      · have hold : user ∈ s.users := by
          rcases husers with rfl | ⟨⟨new, hid, rfl⟩, -⟩
          · exact hmem
          · rcases List.mem_append.mp hmem with hmem | hmem
            · exact hmem
            · obtain ⟨u, hu, hsession⟩ := hi.sessionUsers r hr
              rw [List.mem_singleton.mp hmem, hid] at huser
              exact absurd (hsession.trans huser.symm) (hi.users u hu).ne_uid
        exact h r hr hopen user hold huser huseractive
      · obtain rfl := List.mem_singleton.mp hr
        obtain rfl := hi'.userIds.eq_of_mem hmem hidentity (huser.trans hrow)
        exact hK hopen

namespace Identities

variable {userId groupId : Id} {affected : List Id}

theorem writeUser_ok {new : IdentityRow} (h : s.writeUser new = .ok t) :
    t = { s with users := Table.modify IdentityRow.id s.users new.id fun _ => new } := by
  unfold writeUser at h
  split at h
  · cases h
  · exact (Except.ok.inj h).symm

/-- What a write of a user does to the sessions. -/
def deactivation (now : DateTime) (before after : IdentityRow) (row : BrowserSession) : BrowserSession :=
  if before.active && !after.active then revoked now [after.id] row else row

theorem fades_deactivation {before after : IdentityRow} : Fades row (deactivation now before after row) := by
  unfold deactivation
  split
  · exact fades_revoked
  · exact .refl row

theorem revokeDeactivated_eq {before after : IdentityRow} : s.revokeDeactivated now before after =
    { s with sessions := s.sessions.map (deactivation now before after) } := by
  unfold revokeDeactivated
  split
  · next h =>
    have hall : deactivation now before after = revoked now [after.id] := by
      funext row
      rw [deactivation, if_pos h]
    rw [hall]
    exact revokeIdentitySessions_eq
  · next h =>
    have hall : deactivation now before after = id := by
      funext row
      rw [deactivation, if_neg h, id]
    rw [hall, List.map_id]

theorem createUser_effect {payload : ScimUser} {new : IdentityRow}
    (h : s.createUser rt settings payload = .ok (t, new)) : IdentityEffect rt crypto s True t := by
  unfold createUser at h
  split at h
  · cases h
  · split at h
    · cases h
    · split at h
      · cases h
      · cases h
        exact .joined rfl

theorem wrote_effect {before new : IdentityRow} {u : Identities} (hfound : s.user? userId = some before)
    (hid : new.id = before.id) (hwrite : s.writeUser new = .ok u) :
    IdentityEffect rt crypto s
      (new.active = true → ∀ row ∈ s.sessions, row.identityUserId = new.id → s.Open row → s.Within new row)
      (u.revokeDeactivated now before new) := by
  rw [writeUser_ok hwrite, revokeDeactivated_eq]
  refine .wrote (fun row => fades_deactivation) ⟨before, Table.find_mem hfound, hid.symm⟩
      fun hactive row => ?_
  simp [deactivation, hactive]

theorem patchedUser_id {before new : IdentityRow} {operations : List (ScimPatchOperation UserPath)}
    (h : patchedUser rt before operations = .ok new) : new.id = before.id := by
  simp only [patchedUser, Except.bind_eq_ok, Except.pure_eq_ok] at h
  obtain ⟨row, hfold, rfl⟩ := h
  refine Except.foldlM_invariant (P := fun row => row.id = before.id) hfold rfl fun row op row' _
      hrow hop => ?_
  unfold patchUserField at hop
  split at hop
  · cases hop
    exact hrow
  · split at hop
    · cases hop
    · cases hop
      exact hrow
  · cases hop
    exact hrow
  · simp only [Except.bind_eq_ok, Except.pure_eq_ok] at hop
    obtain ⟨_, -, rfl⟩ := hop
    exact hrow
  · simp only [Except.bind_eq_ok, Except.pure_eq_ok] at hop
    obtain ⟨_, -, rfl⟩ := hop
    exact hrow

theorem replaceUser_effect {payload : ScimUser} {new : IdentityRow}
    (h : s.replaceUser now userId payload = .ok (t, new)) :
    s.written? rt (.replaceUser userId payload) = some new ∧ IdentityEffect rt crypto s
      (new.active = true → ∀ row ∈ s.sessions, row.identityUserId = new.id → s.Open row →
      s.Within new row) t := by
  unfold replaceUser at h
  split at h
  · cases h
  · next before hfound =>
    simp only [Except.bind_eq_ok, Except.pure_eq_ok] at h
    obtain ⟨u, hwrite, heq⟩ := h
    cases heq
    refine ⟨?_, wrote_effect hfound rfl hwrite⟩
    rw [written?, hfound, Option.map_some]

theorem patchUser_effect {operations : List (ScimPatchOperation UserPath)} {new : IdentityRow}
    (h : s.patchUser rt now userId operations = .ok (t, new)) :
    s.written? rt (.patchUser userId operations) = some new ∧ IdentityEffect rt crypto s
      (new.active = true → ∀ row ∈ s.sessions, row.identityUserId = new.id → s.Open row →
      s.Within new row) t := by
  unfold patchUser at h
  split at h
  · cases h
  · next before hfound =>
    simp only [Except.bind_eq_ok, Except.pure_eq_ok] at h
    obtain ⟨patched, hpatched, u, hwrite, heq⟩ := h
    cases heq
    refine ⟨?_, wrote_effect hfound (patchedUser_id hpatched) hwrite⟩
    rw [written?, hfound, Option.bind_some, hpatched, Except.toOption]

/-- A row that is not active keeps what its open sessions grant. -/
theorem deleteUser_effect (h : s.deleteUser now userId = .ok t) :
    ∃ K : Prop, K ∧ IdentityEffect rt crypto s K t := by
  unfold deleteUser at h
  split at h
  · cases h
  · next before hfound =>
    simp only [Except.bind_eq_ok, Except.pure_eq_ok] at h
    obtain ⟨u, hwrite, rfl⟩ := h
    rw [writeUser_ok hwrite, revokeIdentitySessions_eq]
    have hinactive : ({ before with active := false, version := before.version + 1 } :
        IdentityRow).active = true → False := fun h => Bool.noConfusion h
    refine ⟨_, fun hactive => (hinactive hactive).elim,
      .wrote (fun row => fades_revoked) ⟨before, Table.find_mem hfound, rfl⟩ fun hactive =>
        (hinactive hactive).elim⟩

/-- Whoever is not affected is in the same groups as before, and not in this one. -/
structure Regroups (s t : Identities) (groupId : Id) (affected : List Id) : Prop where
  tables : t = { s with members := t.members }
  others : ∀ m : IdentityGroupMember, m.groupId ≠ groupId → (m ∈ t.members ↔ m ∈ s.members)
  away : ∀ userId, userId ∉ affected → ⟨groupId, userId⟩ ∉ s.members ∧ ⟨groupId, userId⟩ ∉ t.members

theorem mem_membersOf : userId ∈ s.membersOf groupId ↔ ⟨groupId, userId⟩ ∈ s.members := by
  simp only [membersOf, List.mem_map, List.mem_filter, decide_eq_true_eq]
  constructor
  · rintro ⟨m, ⟨hm, rfl⟩, rfl⟩
    exact hm
  · intro h
    exact ⟨_, ⟨h, rfl⟩, rfl⟩

theorem Regroups.refl : Regroups s s groupId (s.membersOf groupId) where
  tables := rfl
  others _ _ := .rfl
  away _ h := ⟨fun hm => h (mem_membersOf.mpr hm), fun hm => h (mem_membersOf.mpr hm)⟩

theorem Regroups.trans {u : Identities} {more : List Id} (h : Regroups s t groupId affected)
    (h' : Regroups t u groupId more) : Regroups s u groupId (affected ++ more) where
  tables := by rw [h'.tables, h.tables]
  others m hm := (h'.others m hm).trans (h.others m hm)
  away userId hn := by
    rw [List.mem_append, not_or] at hn
    exact ⟨(h.away userId hn.1).1, (h'.away userId hn.2).2⟩

theorem replaceGroupMembers_regroups {members : List Id}
    (h : s.replaceGroupMembers groupId members = .ok (t, affected)) : Regroups s t groupId affected := by
  simp only [replaceGroupMembers] at h
  split at h
  · cases h
  · cases h
    refine ⟨rfl, fun m hm => ?_, fun userId hn => ?_⟩
    · simp only [List.mem_append, List.mem_filter, List.mem_map, decide_eq_true_eq]
      constructor
      · rintro (⟨hold, -⟩ | ⟨userId, -, rfl⟩)
        · exact hold
        · exact absurd rfl hm
      · exact fun hold => .inl ⟨hold, hm⟩
    · rw [List.mem_append, not_or, mem_membersOf] at hn
      refine ⟨hn.1, fun hm => ?_⟩
      simp only [List.mem_append, List.mem_filter, List.mem_map, List.mem_dedup, decide_eq_true_eq] at hm
      rcases hm with ⟨-, hne⟩ | ⟨member, hmember, heq⟩
      · exact hne rfl
      · cases heq
        exact hn.2 hmember

theorem Regroups.withGroups (h : Regroups s t groupId affected) {groups : List IdentityGroup} :
    Regroups { s with groups := groups, drawn := s.drawn } { t with groups := groups } groupId affected where
  tables := congrArg (fun u : Identities => { u with groups := groups }) h.tables
  others := h.others
  away := h.away

/-- The groups of whoever is not affected, also where the row of the group is written. -/
theorem Regroups.effect {groups : List IdentityGroup} {n : Nat}
    (h : Regroups { s with groups := groups, drawn := n } t groupId affected) (hn : s.drawn ≤ n)
    (hgroups : ∀ p : IdentityGroup → Bool, (∀ g, g.id = groupId → p g = false) →
      groups.filter p = s.groups.filter p) :
      IdentityEffect rt crypto s True (t.revokeMembers now affected) := by
  rw [revokeMembers_eq, h.tables]
  refine .regrouped hn fun userId haffected => ?_
  obtain ⟨hold, hnew⟩ := h.away userId haffected
  have hsame : ∀ g : IdentityGroup, t.members.contains ⟨g.id, userId⟩ =
      s.members.contains ⟨g.id, userId⟩ := by
    intro g
    rw [Bool.eq_iff_iff, List.contains_iff_mem, List.contains_iff_mem]
    by_cases hg : g.id = groupId
    · rw [hg]
      exact iff_of_false hnew hold
    · exact h.others ⟨g.id, userId⟩ hg
  unfold groupsOf
  simp only [hsame]
  refine hgroups _ fun g hg => ?_
  rw [hg, ← Bool.not_eq_true, List.contains_iff_mem]
  exact hold

theorem writeGroup_ok {new : IdentityGroup} (h : s.writeGroup new = .ok t) :
    t = { s with groups := Table.modify IdentityGroup.id s.groups new.id fun _ => new } := by
  unfold writeGroup at h
  split at h
  · cases h
  · exact (Except.ok.inj h).symm

theorem filter_writeGroup {groups : List IdentityGroup} {new : IdentityGroup} {p : IdentityGroup → Bool}
    (hid : new.id = groupId) (hp : ∀ g, g.id = groupId → p g = false) :
    (Table.modify IdentityGroup.id groups new.id fun _ => new).filter p = groups.filter p :=
  Table.filter_modify fun g _ hg => ⟨hp g (hg.trans hid), hp new hid⟩

theorem createGroup_effect {payload : ScimGroup} {new : IdentityGroup}
    (h : s.createGroup rt settings now payload = .ok (t, new)) : IdentityEffect rt crypto s True t := by
  unfold createGroup at h
  split at h
  · cases h
  · split at h
    · cases h
    · simp only [Except.bind_eq_ok, Except.pure_eq_ok] at h
      obtain ⟨⟨u, affected⟩, hmembers, heq⟩ := h
      cases heq
      refine (replaceGroupMembers_regroups hmembers).effect (Nat.le_succ _) fun p hp => ?_
      rw [List.filter_append, List.filter_cons_of_neg (by simp [hp]), List.filter_nil, List.append_nil]

theorem replaceGroup_effect {payload : ScimGroup} {new : IdentityGroup}
    (h : s.replaceGroup now groupId payload = .ok (t, new)) : IdentityEffect rt crypto s True t := by
  unfold replaceGroup at h
  split at h
  · cases h
  · simp only [Except.bind_eq_ok, Except.pure_eq_ok] at h
    obtain ⟨u, hwrite, ⟨v, affected⟩, hmembers, heq⟩ := h
    cases heq
    rw [writeGroup_ok hwrite] at hmembers
    exact (replaceGroupMembers_regroups hmembers).effect le_rfl fun p hp => filter_writeGroup rfl hp

theorem patchGroupField_regroups {row row' : IdentityGroup} {u : Identities} {affected' : List Id}
    {operation : ScimPatchOperation GroupPath} (hs : Regroups s t row.id affected)
    (h : patchGroupField rt (t, row, affected) operation = .ok (u, row', affected')) :
    row'.id = row.id ∧ Regroups s u row.id affected' := by
  simp only [patchGroupField] at h
  split at h
  · split at h
    · cases h
    · cases h
      exact ⟨rfl, hs⟩
  · simp only [Except.bind_eq_ok, Except.pure_eq_ok] at h
    obtain ⟨_, -, heq⟩ := h
    cases heq
    exact ⟨rfl, hs⟩
  · simp only [Except.bind_eq_ok, Except.pure_eq_ok] at h
    obtain ⟨_, -, heq⟩ := h
    cases heq
    exact ⟨rfl, hs⟩
  · simp only [Except.bind_eq_ok, Except.pure_eq_ok] at h
    obtain ⟨_, -, _, -, ⟨v, more⟩, hmembers, heq⟩ := h
    cases heq
    exact ⟨rfl, hs.trans (replaceGroupMembers_regroups hmembers)⟩

theorem patchGroup_effect {operations : List (ScimPatchOperation GroupPath)} {new : IdentityGroup}
    (h : s.patchGroup rt now groupId operations = .ok (t, new)) : IdentityEffect rt crypto s True t := by
  unfold patchGroup at h
  split at h
  · cases h
  · next row hfound =>
    simp only [Except.bind_eq_ok, Except.pure_eq_ok] at h
    obtain ⟨⟨u, patched, affected⟩, hfold, v, hwrite, heq⟩ := h
    cases heq
    have hloop := Except.foldlM_invariant
      (P := fun state => state.2.1.id = row.id ∧ Regroups s state.1 row.id state.2.2) hfold ⟨rfl, .refl⟩
      fun (t, r, affected) operation (u, r', affected') _ ⟨hid, hstate⟩ hround => by
        rw [← hid] at hstate ⊢
        exact patchGroupField_regroups hstate hround
    obtain ⟨hid, hregroups⟩ := hloop
    have htables : u = { s with members := u.members } := hregroups.tables
    have hgroups : u.groups = s.groups := by rw [htables]
    rw [writeGroup_ok hwrite, hgroups]
    exact hregroups.withGroups.effect le_rfl fun p hp => filter_writeGroup hid hp

theorem deleteGroup_effect (h : s.deleteGroup now groupId = .ok t) : IdentityEffect rt crypto s True t := by
  unfold deleteGroup at h
  split at h
  · cases h
  · next row hfound =>
    cases h
    have hregroups : Regroups { s with
        groups := s.groups.filter fun g => g.id ≠ row.id
        drawn := s.drawn } { s with
        groups := s.groups.filter fun g => g.id ≠ row.id
        members := s.members.filter fun m => m.groupId ≠ row.id } row.id (s.membersOf row.id) := by
      refine ⟨rfl, fun m hm => ?_, fun userId hn => ⟨fun hm => hn (mem_membersOf.mpr hm), fun hm => ?_⟩⟩
      · simp [hm]
      · simp at hm
    refine hregroups.effect le_rfl fun p hp => ?_
    rw [List.filter_filter]
    refine List.filter_congr fun g _ => ?_
    by_cases hg : g.id = row.id
    · simp [hg, hp g hg]
    · simp [hg]

theorem logins_effect (logins : List OidcLogin) :
    IdentityEffect rt crypto s True { s with logins := logins } := by
  have h : IdentityEffect rt crypto s True { s with logins := logins, sessions := s.sessions.map id } :=
    .faded .refl
  rwa [List.map_id] at h

theorem same_effect : IdentityEffect rt crypto s True s := logins_effect s.logins

theorem login_effect {call : LoginCall} (h : s.login crypto settings now call = .ok t) :
    IdentityEffect rt crypto s True t := by
  unfold login at h
  split at h
  · cases h
  · split at h
    · cases h
    · simp only [Except.bind_eq_ok] at h
      obtain ⟨_, -, secret, -, h⟩ := h
      split at h
      · cases h
      · cases h
        exact logins_effect _

theorem modifySession_effect {tokenHash : String} {f : BrowserSession → BrowserSession}
    (hf : ∀ row, Fades row (f row)) : IdentityEffect rt crypto s True { s with
      sessions := Table.modify BrowserSession.tokenHash s.sessions tokenHash f } := by
  refine .faded fun row => ?_
  split
  · exact hf row
  · exact .refl row

theorem sessionPrincipal_effect {rawToken : String} :
    IdentityEffect rt crypto s True (s.sessionPrincipal crypto now rawToken).1 := by
  have hseen : ∀ row, Fades row { row with lastSeenAt := now } := fun row => ⟨rfl, rfl, rfl, rfl, rfl, id⟩
  have hrevoked : ∀ row : BrowserSession, Fades row { row with revokedAt := some now } :=
    fun row => ⟨rfl, rfl, rfl, rfl, rfl, nofun⟩
  unfold sessionPrincipal
  split
  · exact same_effect
  · split
    · exact same_effect
    · split
      · split
        · exact modifySession_effect hseen
        · exact modifySession_effect hrevoked
      · exact modifySession_effect hrevoked

theorem logout_effect {rawToken : String} : IdentityEffect rt crypto s True (s.logout crypto now rawToken) :=
  modifySession_effect fun _ => ⟨rfl, rfl, rfl, rfl, rfl, nofun⟩

/-- The roles that a login grants are provisioned, unless none is and the tokens bring some. -/
theorem loginRoles_within {roles : List String} {provisioned : List Role} :
    (∀ role ∈ (if provisioned.isEmpty then roles
      else sortedSet (roles.filter fun role => provisioned.contains (.text role))),
        .text role ∈ provisioned) ↔
      (provisioned = [] → roles = []) := by
  split
  · next hempty =>
    rw [List.isEmpty_iff.mp hempty]
    simp [List.eq_nil_iff_forall_not_mem]
  · next hempty =>
    refine iff_of_true (fun role hrole => ?_) fun hnil => absurd (List.isEmpty_iff.mpr hnil) hempty
    rw [mem_sortedSet, List.mem_filter, List.contains_iff_mem] at hrole
    exact hrole.2

/-- Whoever is admitted is active and was granted the workspace, and the roles where any are
provisioned; an identity that is made is provisioned with what it is admitted with. -/
theorem admitLogin_ok {claims accessClaims : Claims} {workspace : String} {roles : List String}
    (h : s.admitLogin rt settings claims accessClaims = .ok (t, identity, workspace, roles)) :
    identity.active = true ∧ workspace ∈ (s.provisionedEntitlements identity).2 ∧
      ((s.identity? (settings.oidcIssuer.getD "") claims.subject = some identity ∧ t = s ∧
          ((∀ role ∈ roles, .text role ∈ (s.provisionedEntitlements identity).1) ↔
            ((s.provisionedEntitlements identity).1 = [] →
              tokenRoles accessClaims (settings.oidcClientId.getD "") = []))) ∨
        s.identity? (settings.oidcIssuer.getD "") claims.subject = none ∧ identity.id = rt.uid s.drawn ∧
          t = { s with users := s.users ++ [identity], drawn := s.drawn + 1 } ∧
          ∀ role ∈ roles, .text role ∈ (s.provisionedEntitlements identity).1) := by
  unfold admitLogin at h
  split at h
  · cases h
  · simp only at h
    split at h
    · next hfound =>
      split at h
      · cases h
      · next hactive =>
        split at h
        · cases h
        · next hgranted =>
          cases h
          rw [Bool.not_eq_true, Bool.not_eq_false'] at hactive hgranted
          exact ⟨hactive, List.contains_iff_mem.mp hgranted, .inl ⟨hfound, rfl, loginRoles_within⟩⟩
    · next hfound =>
      split at h
      · cases h
      · cases h
        refine ⟨rfl, List.mem_append_left _ (List.mem_singleton_self _), .inr ⟨hfound, rfl, rfl, ?_⟩⟩
        exact fun role hrole => List.mem_append_left _ (List.mem_map_of_mem hrole)

theorem validateIdToken_ok {token : Option Claims} {nonce : String} {claims : Claims}
    (h : validateIdToken token nonce = .ok claims) : token = some claims := by
  unfold validateIdToken at h
  split at h
  · cases h
  · split at h
    · cases h
    · cases h
      rfl

theorem validateAccessToken_ok {token : Option Claims} {claims : Claims}
    (h : validateAccessToken token = .ok claims) : token = some claims := by
  unfold validateAccessToken at h
  split at h
  · cases h
  · cases h
    rfl

theorem fromTimestamp_ok {seconds : Int} {time : DateTime} (h : fromTimestamp seconds = .ok time) :
    time = seconds * secondTime := by
  unfold fromTimestamp at h
  split at h
  · cases h
    rfl
  · cases h

theorem openSession_ok (h : s.openSession row = .ok t) : (∀ r ∈ s.sessions, r.tokenHash ≠ row.tokenHash) ∧
    t = { s with sessions := s.sessions ++ [row], drawn := s.drawn + 1 } := by
  unfold openSession at h
  split at h
  · cases h
  · next hnew =>
    cases h
    refine ⟨fun r hr heq => hnew ?_, rfl⟩
    exact List.any_eq_true.mpr ⟨r, hr, decide_eq_true heq⟩

theorem opened_effect {admitted : Identities} {claims accessClaims : Claims} {logins : List OidcLogin}
    {workspace rawToken : String} {roles : List String}
    (hadmitted : ({ s with logins := logins } : Identities).admitLogin rt settings claims accessClaims =
      .ok (admitted, identity, workspace, roles))
    (hopened : admitted.openSession row = .ok t) (huser : row.identityUserId = identity.id)
    (hworkspace : row.workspaceId = workspace) (hroles : row.roles = roles) (hopen : row.revokedAt = none)
    (hexpiry : row.expiresAt = s.expiry settings claims) (hhash : row.tokenHash = crypto.sha256 rawToken) :
    IdentityEffect rt crypto s (s.Open row → s.Within identity row) t ∧
      ((∀ identity ∈ s.identity? (settings.oidcIssuer.getD "") claims.subject,
        s.clock < s.expiry settings claims → (s.provisionedEntitlements identity).1 = [] →
          tokenRoles accessClaims (settings.oidcClientId.getD "") = []) ↔
        (s.Open row → s.Within identity row)) := by
  subst hroles hworkspace
  obtain ⟨hnew, rfl⟩ := openSession_ok hopened
  obtain ⟨hactive, hgranted, ⟨hfound, rfl, hroles⟩ | ⟨hnone, hid, rfl, hroles⟩⟩ := admitLogin_ok hadmitted
  · have hfound : s.identity? (settings.oidcIssuer.getD "") claims.subject = some identity := hfound
    refine ⟨.opened (Nat.le_succ _) (.inl rfl) (List.mem_of_find?_eq_some hfound) huser hactive
      ⟨rawToken, hhash⟩ hnew, ?_⟩
    have hopen : s.Open row ↔ s.clock < s.expiry settings claims := by
      unfold Open
      rw [hexpiry]
      exact and_iff_right hopen
    have hwithin : s.Within identity row ↔ ((s.provisionedEntitlements identity).1 = [] →
        tokenRoles accessClaims (settings.oidcClientId.getD "") = []) :=
      (and_iff_left hgranted).trans hroles
    rw [hopen, hwithin, hfound]
    simp only [Option.mem_some_iff, forall_eq']
  · have hnone : s.identity? (settings.oidcIssuer.getD "") claims.subject = none := hnone
    have hwithin : s.Within identity row := ⟨hroles, hgranted⟩
    refine ⟨.opened (Nat.le_succ_of_le (Nat.le_succ _)) (.inr ⟨⟨identity, hid, rfl⟩, Nat.lt_succ_of_lt
      (Nat.lt_succ_self _)⟩) (List.mem_append_right _ (List.mem_singleton_self _)) huser hactive
      ⟨rawToken, hhash⟩ hnew, iff_of_true ?_ fun _ => hwithin⟩
    rw [hnone]
    nofun

theorem callback_effect {call : CallbackCall} {answer : Py (String × String)}
    (h : s.callback rt crypto settings s.clock call = .ok (t, answer)) :
    ∃ K : Prop, IdentityEffect rt crypto s K t ∧ ((∀ p ∈ s.loggedIn? settings (.callback call),
      s.clock < s.expiry settings p.2.1 → (s.provisionedEntitlements p.1).1 = [] →
        tokenRoles p.2.2 (settings.oidcClientId.getD "") = []) ↔ K) := by
  simp only [callback, Except.bind_eq_ok] at h
  obtain ⟨_, -, h⟩ := h
  split at h
  · cases h
  · next transaction _ =>
    split at h
    · cases h
    · simp only [Except.bind_eq_ok] at h
      obtain ⟨secret, -, h⟩ := h
      split at h
      · cases h
      · split at h
        · next hfailed =>
          cases h
          refine ⟨True, logins_effect _, iff_of_true ?_ trivial⟩
          simp [loggedIn?, hfailed]
        · cases h
        · next idToken accessToken hexchange =>
          simp only [Except.bind_eq_ok] at h
          obtain ⟨claims, hclaims, accessClaims, haccess, h⟩ := h
          split at h
          · cases h
          · simp only [Except.bind_eq_ok, Except.pure_eq_ok] at h
            obtain ⟨⟨admitted, identity, workspace, roles⟩, hadmitted, tokenExpiry, hexpiry, u, hopened,
              heq⟩ := h
            cases heq
            cases fromTimestamp_ok hexpiry
            obtain ⟨heffect, hiff⟩ := opened_effect hadmitted hopened rfl rfl rfl rfl rfl rfl
            refine ⟨_, heffect, Iff.trans ?_ hiff⟩
            have hid := validateIdToken_ok hclaims
            have haccess := validateAccessToken_ok haccess
            simp only [loggedIn?, hexchange, hid, haccess, Option.mem_def, Option.map_eq_some_iff,
              forall_exists_index, and_imp, forall_apply_eq_imp_iff₂]

end Identities

/-- Every answered request has its effect, and keeps open sessions within their entitlements exactly
if it keeps what they grant. -/
theorem serveIdentity_effect {answer : Py IdentityAnswer}
    (h : serveIdentity rt crypto settings s s.clock request = .ok (t, answer)) :
    ∃ K : Prop, IdentityEffect rt crypto s K t ∧ (s.KeepsWithin rt settings request ↔ K) := by
  have quiet : ∀ {request}, s.written? rt request = none → s.loggedIn? settings request = none →
      (s.KeepsWithin rt settings request ↔ True) := by
    intro request hw hl
    simp [Identities.KeepsWithin, hw, hl]
  cases request with
  | createUser payload =>
    simp only [serveIdentity, Except.bind_eq_ok, Except.pure_eq_ok] at h
    obtain ⟨⟨u, new⟩, hcreate, heq⟩ := h
    cases heq
    exact ⟨True, Identities.createUser_effect hcreate, quiet rfl rfl⟩
  | replaceUser userId payload =>
    simp only [serveIdentity, Except.bind_eq_ok, Except.pure_eq_ok] at h
    obtain ⟨⟨u, new⟩, hreplace, heq⟩ := h
    cases heq
    obtain ⟨hwritten, heffect⟩ := Identities.replaceUser_effect hreplace
    refine ⟨_, heffect, ?_⟩
    simp [Identities.KeepsWithin, hwritten, Identities.loggedIn?]
  | patchUser userId operations =>
    simp only [serveIdentity, Except.bind_eq_ok, Except.pure_eq_ok] at h
    obtain ⟨⟨u, new⟩, hpatch, heq⟩ := h
    cases heq
    obtain ⟨hwritten, heffect⟩ := Identities.patchUser_effect hpatch
    refine ⟨_, heffect, ?_⟩
    simp [Identities.KeepsWithin, hwritten, Identities.loggedIn?]
  | deleteUser userId =>
    simp only [serveIdentity, Except.bind_eq_ok, Except.pure_eq_ok] at h
    obtain ⟨u, hdelete, heq⟩ := h
    cases heq
    obtain ⟨K, hK, heffect⟩ := Identities.deleteUser_effect hdelete
    exact ⟨K, heffect, (quiet rfl rfl).trans (iff_of_true trivial hK)⟩
  | createGroup payload =>
    simp only [serveIdentity, Except.bind_eq_ok, Except.pure_eq_ok] at h
    obtain ⟨⟨u, new⟩, hcreate, heq⟩ := h
    cases heq
    exact ⟨True, Identities.createGroup_effect hcreate, quiet rfl rfl⟩
  | replaceGroup groupId payload =>
    simp only [serveIdentity, Except.bind_eq_ok, Except.pure_eq_ok] at h
    obtain ⟨⟨u, new⟩, hreplace, heq⟩ := h
    cases heq
    exact ⟨True, Identities.replaceGroup_effect hreplace, quiet rfl rfl⟩
  | patchGroup groupId operations =>
    simp only [serveIdentity, Except.bind_eq_ok, Except.pure_eq_ok] at h
    obtain ⟨⟨u, new⟩, hpatch, heq⟩ := h
    cases heq
    exact ⟨True, Identities.patchGroup_effect hpatch, quiet rfl rfl⟩
  | deleteGroup groupId =>
    simp only [serveIdentity, Except.bind_eq_ok, Except.pure_eq_ok] at h
    obtain ⟨u, hdelete, heq⟩ := h
    cases heq
    exact ⟨True, Identities.deleteGroup_effect hdelete, quiet rfl rfl⟩
  | login call =>
    simp only [serveIdentity, Except.bind_eq_ok, Except.pure_eq_ok] at h
    obtain ⟨u, hlogin, heq⟩ := h
    cases heq
    exact ⟨True, Identities.login_effect hlogin, quiet rfl rfl⟩
  | callback call =>
    simp only [serveIdentity, Except.bind_eq_ok, Except.pure_eq_ok] at h
    obtain ⟨⟨u, opened⟩, hcallback, heq⟩ := h
    cases heq
    obtain ⟨K, heffect, hiff⟩ := Identities.callback_effect hcallback
    refine ⟨K, heffect, Iff.trans ?_ hiff⟩
    simp [Identities.KeepsWithin, Identities.written?]
  | session rawToken =>
    simp only [serveIdentity, Except.ok.injEq, Prod.mk.injEq] at h
    obtain ⟨rfl, -⟩ := h
    exact ⟨True, Identities.sessionPrincipal_effect, quiet rfl rfl⟩
  | logout rawToken =>
    simp only [serveIdentity, Except.ok.injEq, Prod.mk.injEq] at h
    obtain ⟨rfl, -⟩ := h
    exact ⟨True, Identities.logout_effect, quiet rfl rfl⟩

/-- What is accepted is an open session of an active user. -/
theorem sessionPrincipal_eq_some (h : IdentityIntegrity rt crypto s) {rawToken : String}
    {principal : Principal} : (s.sessionPrincipal crypto now rawToken).2 = some principal ↔
      ∃ row ∈ s.sessions, ∃ identity ∈ s.users, row.tokenHash = crypto.sha256 rawToken ∧
        identity.id = row.identityUserId ∧ row.revokedAt = none ∧ now < row.expiresAt ∧
        identity.active = true ∧
        principal = ⟨identity.subject, row.issuer, row.workspaceId, row.roles, none⟩ := by
  have hrow : ∀ row, s.sessions.find? (fun row => row.tokenHash = crypto.sha256 rawToken) = some row ↔
      row ∈ s.sessions ∧ row.tokenHash = crypto.sha256 rawToken := fun row => h.sessionHashes.find_iff
  have huser : ∀ id identity, s.user? id = some identity ↔ identity ∈ s.users ∧ identity.id = id :=
    fun id identity => h.userIds.find_iff
  constructor
  · intro haccepted
    unfold Identities.sessionPrincipal at haccepted
    split at haccepted
    · cases haccepted
    · next row hfound =>
      obtain ⟨hrow, hhash⟩ := (hrow row).mp hfound
      split at haccepted
      · cases haccepted
      · next hopen =>
        rw [Bool.or_eq_true, decide_eq_true_eq, not_or, Bool.not_eq_true, Option.isSome_eq_false_iff,
          Option.isNone_iff_eq_none, not_le] at hopen
        split at haccepted
        · next identity hidentity =>
          obtain ⟨hmem, hid⟩ := (huser _ identity).mp hidentity
          split at haccepted
          · next hactive =>
            exact ⟨row, hrow, identity, hmem, hhash, hid, hopen.1, hopen.2, hactive,
              (Option.some.inj haccepted).symm⟩
          · cases haccepted
        · cases haccepted
  · rintro ⟨row, hmem, identity, hidentity, hhash, hid, hrevoked, hexpiry, hactive, rfl⟩
    have hopen : (row.revokedAt.isSome || row.expiresAt ≤ now) = false := by
      simp [hrevoked, hexpiry]
    simp only [Identities.sessionPrincipal, (hrow row).mpr ⟨hmem, hhash⟩, hopen,
      (huser _ identity).mpr ⟨hidentity, hid⟩, hactive, Bool.false_eq_true, if_false, if_true]

theorem withinEntitlements_iff (h : IdentityIntegrity rt crypto s) :
    s.WithinEntitlements crypto ↔ s.SessionsWithin := by
  constructor
  · intro hall row hrow hopen identity hidentity hid hactive
    obtain ⟨rawToken, hhash⟩ := h.sessionTokens row hrow
    obtain ⟨row', hrow', identity', hhash', huser', hroles, hworkspace⟩ := hall s.clock le_rfl rawToken _
      ((sessionPrincipal_eq_some h).mpr
        ⟨row, hrow, identity, hidentity, hhash, hid, hopen.1, hopen.2, hactive, rfl⟩)
    obtain rfl := h.sessionHashes.eq_of_mem hrow' hrow (hhash'.trans hhash.symm)
    obtain ⟨hidentity', hid'⟩ := h.userIds.find_iff.mp huser'
    obtain rfl := h.userIds.eq_of_mem hidentity' hidentity (hid'.trans hid.symm)
    exact ⟨hroles, hworkspace⟩
  · intro hall now hnow rawToken principal haccepted
    obtain ⟨row, hrow, identity, hidentity, hhash, hid, hrevoked, hexpiry, hactive, rfl⟩ :=
      (sessionPrincipal_eq_some h).mp haccepted
    have hopen : s.Open row := ⟨hrevoked, hnow.trans_lt hexpiry⟩
    obtain ⟨hroles, hworkspace⟩ := hall row hrow hopen identity hidentity hid hactive
    exact ⟨row, hrow, identity, hhash, h.userIds.find_iff.mpr ⟨hidentity, hid⟩, hroles, hworkspace⟩

theorem IdentityIntegrity.later {elapsed : Nat} (h : IdentityIntegrity rt crypto s) :
    IdentityIntegrity rt crypto (s.later elapsed) :=
  ⟨h.userIds, h.users, h.sessionHashes, h.sessionTokens, h.sessionUsers⟩

theorem Identities.SessionsWithin.later {elapsed : Nat} (h : s.SessionsWithin) :
    (s.later elapsed).SessionsWithin := by
  intro row hrow ⟨hrevoked, hexpiry⟩ identity hidentity hid hactive
  have hopen : s.Open row :=
    ⟨hrevoked, (Int.le_add_of_nonneg_right (Int.natCast_nonneg elapsed)).trans_lt hexpiry⟩
  exact h row hrow hopen identity hidentity hid hactive

/-- The request keeps what open sessions grant, unless it raises. -/
def KeepsSessions (rt : Runtime) (crypto : Crypto) (settings : AuthSettings) (s : Identities)
    (timed : Nat × IdentityRequest) : Prop :=
  (serveIdentity rt crypto settings (s.later timed.1) (s.later timed.1).clock timed.2).isOk = true →
    (s.later timed.1).KeepsWithin rt settings timed.2

instance : Decidable (KeepsSessions rt crypto settings s timed) :=
  inferInstanceAs (Decidable ((_ : Bool) = true → _))

/-- A request either raises or has its effect some time later. -/
theorem identityService_next (rt : Runtime) (crypto : Crypto) (settings : AuthSettings) (s : Identities)
    (timed : Nat × IdentityRequest) :
    ((identityService rt crypto settings).next s timed = s.later timed.1 ∧
    KeepsSessions rt crypto settings s timed) ∨
      ∃ K : Prop, IdentityEffect rt crypto (s.later timed.1) K
      ((identityService rt crypto settings).next s timed) ∧
        (KeepsSessions rt crypto settings s timed ↔ K) := by
  unfold System.next identityService KeepsSessions
  cases hserve : serveIdentity rt crypto settings (s.later timed.1) (s.later timed.1).clock timed.2 with
  | error e =>
    refine .inl ⟨?_, nofun⟩
    simp only [hserve]
  | ok answered =>
    obtain ⟨t, answer⟩ := answered
    obtain ⟨K, heffect, hiff⟩ := serveIdentity_effect hserve
    refine .inr ⟨K, ?_, ⟨fun h => hiff.mp (h rfl), fun hK _ => hiff.mpr hK⟩⟩
    simp only [hserve]
    exact heffect

theorem IdentityIntegrity.next (h : IdentityIntegrity rt crypto s) :
    IdentityIntegrity rt crypto ((identityService rt crypto settings).next s timed) := by
  rcases identityService_next rt crypto settings s timed with ⟨hnext, -⟩ | ⟨K, heffect, -⟩
  · rw [hnext]
    exact h.later
  · exact heffect.integrity h.later

theorem next_within_iff (h : IdentityIntegrity rt crypto s) (hw : s.SessionsWithin) :
    ((identityService rt crypto settings).next s timed).SessionsWithin ↔
      KeepsSessions rt crypto settings s timed := by
  rcases identityService_next rt crypto settings s timed with ⟨hnext, hkept⟩ | ⟨K, heffect, hiff⟩
  · rw [hnext]
    exact iff_of_true hw.later hkept
  · rw [heffect.within_iff h.later hw.later, hiff]

theorem identityIntegrity_run {clock : DateTime} (requests : List (Nat × IdentityRequest)) :
    IdentityIntegrity rt crypto ((identityService rt crypto settings).run (.empty clock) requests) :=
  System.run_invariant _ identityIntegrity_empty (System.along_of_forall _ (fun _ _ => trivial) requests)
    fun _ _ h _ => h.next

namespace Supplier

/-- Alice is provisioned as a steward and logs in; then her roles are removed. -/
def demotion : List (Nat × IdentityRequest) :=
  [(0, .createUser {
      externalId := "alice"
      userName := "alice"
      displayName := none
      active := true
      roles := [[("value", "steward")]]
      workspaceIds := ["acme"] }),
    (0, .login aliceLogin),
    (0, .callback (aliceCallback "token")),
    (0, .patchUser (Runtime.plain.uid 0) [⟨.remove, .roles, .null⟩])]

/-- Until the roles are removed, the session stays within them. -/
example : ((identityService .plain readable authSettings).run (.empty 0)
    (demotion.take 3)).WithinEntitlements readable :=
  (withinEntitlements_iff (identityIntegrity_run _)).mpr (by decide +kernel)

end Supplier

end Recordlane
