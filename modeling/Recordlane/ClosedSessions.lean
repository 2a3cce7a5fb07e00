import Recordlane.Patches

/-! Browser sessions that have ended: no request brings one of them back. -/
namespace Recordlane

variable {rt : Runtime} {crypto : Crypto} {settings : AuthSettings} {s t : Identities} {now now' : DateTime}
  {row row' : BrowserSession} {before new u : IdentityRow} {userId : Id} {request : IdentityRequest}
  {timed : Nat × IdentityRequest} {rawToken : String} {K : Prop}

/-- Whoever has a session that is not revoked is active. -/
def Identities.Standing (s : Identities) : Prop :=
  ∀ row ∈ s.sessions, row.revokedAt = none → ∀ u ∈ s.users, u.id = row.identityUserId → u.active = true

theorem Fades.trans {row'' : BrowserSession} (h : Fades row row') (h' : Fades row' row'') :
    Fades row row'' where
  tokenHash := h'.tokenHash.trans h.tokenHash
  identityUserId := h'.identityUserId.trans h.identityUserId
  workspaceId := h'.workspaceId.trans h.workspaceId
  roles := h'.roles.trans h.roles
  expiresAt := h'.expiresAt.trans h.expiresAt
  revoked hnone := h.revoked (h'.revoked hnone)

namespace IdentityEffect

theorem kept (he : IdentityEffect rt crypto s K t) (hrow : row ∈ s.sessions) :
    ∃ row' ∈ t.sessions, Fades row row' := by
  cases he with
  | @faded _ f hf => exact ⟨f row, List.mem_map_of_mem hrow, hf row⟩
  | joined _ => exact ⟨row, hrow, .refl row⟩
  | @wrote _ f hf _ _ => exact ⟨f row, List.mem_map_of_mem hrow, hf row⟩
  | regrouped _ _ => exact ⟨_, List.mem_map_of_mem hrow, fades_revoked⟩
  | opened => exact ⟨row, List.mem_append_left _ hrow, .refl row⟩

theorem origin (he : IdentityEffect rt crypto s K t) (hrow' : row' ∈ t.sessions) :
    (∃ row ∈ s.sessions, Fades row row') ∨
      ∃ identity ∈ t.users, row'.identityUserId = identity.id ∧ identity.active = true := by
  cases he with
  | faded hf =>
    obtain ⟨row, hrow, rfl⟩ := List.mem_map.mp hrow'
    exact .inl ⟨row, hrow, hf row⟩
  | joined _ => exact .inl ⟨row', hrow', .refl row'⟩
  | wrote hf _ _ =>
    obtain ⟨row, hrow, rfl⟩ := List.mem_map.mp hrow'
    exact .inl ⟨row, hrow, hf row⟩
  | regrouped _ _ =>
    obtain ⟨row, hrow, rfl⟩ := List.mem_map.mp hrow'
    exact .inl ⟨row, hrow, fades_revoked⟩
  | opened _ _ hidentity huser hactive _ _ =>
    rcases List.mem_append.mp hrow' with hrow' | hrow'
    · exact .inl ⟨row', hrow', .refl row'⟩
    · obtain rfl := List.mem_singleton.mp hrow'
      exact .inr ⟨_, hidentity, huser, hactive⟩

end IdentityEffect

namespace Identities.Standing

/-- Where users stay as they are, but for one that draws its id, open sessions are those of active
users. -/
theorem of_users (hs : s.Standing) (hi : IdentityIntegrity rt crypto s)
    (he : IdentityEffect rt crypto s K t) (hu : ∀ u ∈ t.users, u ∈ s.users ∨ u.id = rt.uid s.drawn) :
    t.Standing := by
  intro row' hrow' hopen u hmem huser
  rcases he.origin hrow' with ⟨row, hrow, hf⟩ | ⟨identity, hidentity, hid, hactive⟩
  · rw [hf.identityUserId] at huser
    rcases hu u hmem with hold | hnew
    · exact hs row hrow (hf.revoked hopen) u hold huser
    · -- no session is one of the new user
      obtain ⟨v, hv, hsession⟩ := hi.sessionUsers row hrow
      rw [hnew, ← hsession] at huser
      exact absurd huser.symm (hi.users v hv).ne_uid
  · obtain rfl := (he.integrity hi).userIds.eq_of_mem hmem hidentity (huser.trans hid)
    exact hactive

theorem wrote (hs : s.Standing) {f : BrowserSession → BrowserSession} (hf : ∀ row, Fades row (f row))
    (hnew : new.active = false → ∀ row ∈ s.sessions, row.identityUserId = new.id →
      (f row).revokedAt ≠ none) :
    ({ s with
      users := Table.modify IdentityRow.id s.users new.id fun _ => new
      sessions := s.sessions.map f } : Identities).Standing := by
  intro row' hrow' hopen u hmem huser
  obtain ⟨row, hrow, rfl⟩ := List.mem_map.mp hrow'
  rw [(hf row).identityUserId] at huser
  rcases Table.mem_modify.mp hmem with ⟨hold, -⟩ | ⟨_, -, -, rfl⟩
  · exact hs row hrow ((hf row).revoked hopen) u hold huser
  · by_contra hinactive
    exact hnew (Bool.not_eq_true _ ▸ hinactive) row hrow huser.symm hopen

theorem deactivated (hs : s.Standing) (hfound : s.user? userId = some before) (hid : new.id = before.id)
    {u : Identities} (hwrite : s.writeUser new = .ok u) : (u.revokeDeactivated now before new).Standing := by
  rw [writeUser_ok hwrite, revokeDeactivated_eq]
  refine hs.wrote (fun _ => fades_deactivation) fun hinactive row hrow huser => ?_
  by_cases hactive : before.active = true
  · have hrevoked : deactivation now before new row = revoked now [new.id] row := by
      simp [deactivation, hactive, hinactive]
    rw [hrevoked]
    exact revoked_revokedAt (List.mem_singleton.mpr huser)
  · intro hopen
    have hbefore : before.id = row.identityUserId := hid.symm.trans huser.symm
    exact hactive (hs row hrow (fades_deactivation.revoked hopen) before (Table.find_mem hfound) hbefore)

end Identities.Standing

namespace Identities

theorem createUser_users {payload : ScimUser} (h : s.createUser rt settings payload = .ok (t, new)) :
    t.users = s.users ++ [new] ∧ new.id = rt.uid s.drawn := by
  unfold createUser at h
  split at h
  · cases h
  · split at h
    · cases h
    · split at h
      · cases h
      · cases h
        exact ⟨rfl, rfl⟩

theorem revokeMembers_users {memberIds : List Id} : (s.revokeMembers now memberIds).users = s.users := by
  rw [revokeMembers_eq]

theorem createGroup_users {payload : ScimGroup} {group : IdentityGroup}
    (h : s.createGroup rt settings now payload = .ok (t, group)) : t.users = s.users := by
  unfold createGroup at h
  split at h
  · cases h
  · split at h
    · cases h
    · simp only [Except.bind_eq_ok, Except.pure_eq_ok] at h
      obtain ⟨⟨u, affected⟩, hmembers, heq⟩ := h
      cases heq
      rw [revokeMembers_users, (replaceGroupMembers_ok hmembers).2.2]

theorem replaceGroup_users {groupId : Id} {payload : ScimGroup} {group : IdentityGroup}
    (h : s.replaceGroup now groupId payload = .ok (t, group)) : t.users = s.users := by
  unfold replaceGroup at h
  split at h
  · cases h
  · simp only [Except.bind_eq_ok, Except.pure_eq_ok] at h
    obtain ⟨u, hwrite, ⟨v, affected⟩, hmembers, heq⟩ := h
    cases heq
    rw [revokeMembers_users, (replaceGroupMembers_ok hmembers).2.2, writeGroup_ok hwrite]

theorem patchGroup_users {groupId : Id} {operations : List (ScimPatchOperation GroupPath)}
    {group : IdentityGroup} (h : s.patchGroup rt now groupId operations = .ok (t, group)) :
    t.users = s.users := by
  unfold patchGroup at h
  split at h
  · cases h
  · simp only [Except.bind_eq_ok, Except.pure_eq_ok] at h
    obtain ⟨⟨u, patched, affected⟩, hfold, v, hwrite, heq⟩ := h
    cases heq
    have htables : u = { s with members := u.members } := foldlM_patchGroupField_tables hfold
    rw [revokeMembers_users, writeGroup_ok hwrite, htables]

theorem deleteGroup_users {groupId : Id} (h : s.deleteGroup now groupId = .ok t) : t.users = s.users := by
  unfold deleteGroup at h
  split at h
  · cases h
  · cases h
    rw [revokeMembers_users]

theorem login_users {call : LoginCall} (h : s.login crypto settings now call = .ok t) :
    t.users = s.users := by
  unfold login at h
  split at h
  · cases h
  · split at h
    · cases h
    · simp only [Except.bind_eq_ok] at h
      obtain ⟨_, -, secret, -, h⟩ := h
      split at h
      · cases h
      · cases h
        rfl

theorem sessionPrincipal_users : (s.sessionPrincipal crypto now rawToken).1.users = s.users := by
  unfold sessionPrincipal
  split
  · rfl
  · split
    · rfl
    · split
      · split <;> rfl
      · rfl

theorem callback_users {call : CallbackCall} {answer : Py (String × String)}
    (h : s.callback rt crypto settings now call = .ok (t, answer)) :
    ∀ u ∈ t.users, u ∈ s.users ∨ u.id = rt.uid s.drawn := by
  simp only [callback, Except.bind_eq_ok] at h
  obtain ⟨_, -, h⟩ := h
  split at h
  · cases h
  · split at h
    · cases h
    · simp only [Except.bind_eq_ok] at h
      obtain ⟨secret, -, h⟩ := h
      split at h
      · cases h
      · split at h
        · cases h
          exact fun u hu => .inl hu
        · cases h
        · simp only [Except.bind_eq_ok] at h
          obtain ⟨claims, -, accessClaims, -, h⟩ := h
          split at h
          · cases h
          · simp only [Except.bind_eq_ok, Except.pure_eq_ok] at h
            obtain ⟨⟨admitted, identity, workspace, roles⟩, hadmitted, tokenExpiry, -, v, hopened, heq⟩ := h
            cases heq
            obtain ⟨-, rfl⟩ := openSession_ok hopened
            intro u hu
            obtain ⟨-, -, ⟨-, rfl, -⟩ | ⟨-, hid, rfl, -⟩⟩ := admitLogin_ok hadmitted
            · exact .inl hu
            · rcases List.mem_append.mp hu with hu | hu
              · exact .inl hu
              · exact .inr (List.mem_singleton.mp hu ▸ hid)

end Identities

/-- No request leaves a user that is not active with an open session. -/
theorem Identities.Standing.serve (hs : s.Standing) (hi : IdentityIntegrity rt crypto s)
    {answer : Py IdentityAnswer}
    (h : serveIdentity rt crypto settings s s.clock request = .ok (t, answer)) : t.Standing := by
  obtain ⟨K, heffect, -⟩ := serveIdentity_effect h
  have hsame : t.users = s.users → t.Standing := fun husers =>
    hs.of_users hi heffect fun u hu => .inl (husers ▸ hu)
  cases request with
  | createUser payload =>
    simp only [serveIdentity, Except.bind_eq_ok, Except.pure_eq_ok] at h
    obtain ⟨⟨v, new⟩, hcreate, heq⟩ := h
    cases heq
    obtain ⟨husers, hid⟩ := Identities.createUser_users hcreate
    refine hs.of_users hi heffect fun u hu => ?_
    rw [husers] at hu
    rcases List.mem_append.mp hu with hu | hu
    · exact .inl hu
    · exact .inr (List.mem_singleton.mp hu ▸ hid)
  | replaceUser userId payload =>
    simp only [serveIdentity, Except.bind_eq_ok, Except.pure_eq_ok] at h
    obtain ⟨⟨v, new⟩, hreplace, heq⟩ := h
    cases heq
    unfold Identities.replaceUser at hreplace
    split at hreplace
    · cases hreplace
    · next before hfound =>
      simp only [Except.bind_eq_ok, Except.pure_eq_ok] at hreplace
      obtain ⟨u, hwrite, heq⟩ := hreplace
      cases heq
      have hid : (payload.replaced before).id = before.id := rfl
      exact hs.deactivated hfound hid hwrite
  | patchUser userId operations =>
    simp only [serveIdentity, Except.bind_eq_ok, Except.pure_eq_ok] at h
    obtain ⟨⟨v, new⟩, hpatch, heq⟩ := h
    cases heq
    unfold Identities.patchUser at hpatch
    split at hpatch
    · cases hpatch
    · next before hfound =>
      simp only [Except.bind_eq_ok, Except.pure_eq_ok] at hpatch
      obtain ⟨patched, hpatched, u, hwrite, heq⟩ := hpatch
      cases heq
      exact hs.deactivated hfound (Identities.patchedUser_id hpatched) hwrite
  | deleteUser userId =>
    simp only [serveIdentity, Except.bind_eq_ok, Except.pure_eq_ok] at h
    obtain ⟨v, hdelete, heq⟩ := h
    cases heq
    unfold Identities.deleteUser at hdelete
    split at hdelete
    · cases hdelete
    · simp only [Except.bind_eq_ok, Except.pure_eq_ok] at hdelete
      obtain ⟨u, hwrite, rfl⟩ := hdelete
      rw [Identities.writeUser_ok hwrite, Identities.revokeIdentitySessions_eq]
      exact hs.wrote (fun _ => fades_revoked) fun _ row _ huser =>
        revoked_revokedAt (List.mem_singleton.mpr huser)
  | createGroup payload =>
    simp only [serveIdentity, Except.bind_eq_ok, Except.pure_eq_ok] at h
    obtain ⟨⟨v, new⟩, hcreate, heq⟩ := h
    cases heq
    exact hsame (Identities.createGroup_users hcreate)
  | replaceGroup groupId payload =>
    simp only [serveIdentity, Except.bind_eq_ok, Except.pure_eq_ok] at h
    obtain ⟨⟨v, new⟩, hreplace, heq⟩ := h
    cases heq
    exact hsame (Identities.replaceGroup_users hreplace)
  | patchGroup groupId operations =>
    simp only [serveIdentity, Except.bind_eq_ok, Except.pure_eq_ok] at h
    obtain ⟨⟨v, new⟩, hpatch, heq⟩ := h
    cases heq
    exact hsame (Identities.patchGroup_users hpatch)
  | deleteGroup groupId =>
    simp only [serveIdentity, Except.bind_eq_ok, Except.pure_eq_ok] at h
    obtain ⟨v, hdelete, heq⟩ := h
    cases heq
    exact hsame (Identities.deleteGroup_users hdelete)
  | login call =>
    simp only [serveIdentity, Except.bind_eq_ok, Except.pure_eq_ok] at h
    obtain ⟨v, hlogin, heq⟩ := h
    cases heq
    exact hsame (Identities.login_users hlogin)
  | callback call =>
    simp only [serveIdentity, Except.bind_eq_ok, Except.pure_eq_ok] at h
    obtain ⟨⟨v, opened⟩, hcallback, heq⟩ := h
    cases heq
    exact hs.of_users hi heffect (Identities.callback_users hcallback)
  | session rawToken =>
    simp only [serveIdentity, Except.ok.injEq, Prod.mk.injEq] at h
    obtain ⟨rfl, -⟩ := h
    exact hsame Identities.sessionPrincipal_users
  | logout rawToken =>
    simp only [serveIdentity, Except.ok.injEq, Prod.mk.injEq] at h
    obtain ⟨rfl, -⟩ := h
    exact hsame rfl

theorem Identities.Standing.next (hs : s.Standing) (hi : IdentityIntegrity rt crypto s) :
    ((identityService rt crypto settings).next s timed).Standing := by
  have hlater : (s.later timed.1).Standing := hs
  unfold System.next identityService
  cases hserve : serveIdentity rt crypto settings (s.later timed.1) (s.later timed.1).clock timed.2 with
  | error e =>
    simp only [hserve]
    exact hlater
  | ok answered =>
    obtain ⟨t, answer⟩ := answered
    simp only [hserve]
    exact hlater.serve hi.later hserve

theorem standing_run {clock : DateTime} (requests : List (Nat × IdentityRequest)) :
    ((identityService rt crypto settings).run (.empty clock) requests).Standing := by
  have hrun := System.run_invariant (identityService rt crypto settings)
    (P := fun s => IdentityIntegrity rt crypto s ∧ s.Standing) (Φ := fun _ _ => True)
    (s := .empty clock) ⟨identityIntegrity_empty, nofun⟩
    (System.along_of_forall _ (fun _ _ => trivial) requests)
    fun _ _ ⟨hi, hs⟩ _ => ⟨hi.next, hs.next hi⟩
  exact hrun.2

/-- A session stays what it is over a run, and is not taken back from revocation. -/
theorem session_kept (rt : Runtime) (crypto : Crypto) (settings : AuthSettings)
    (requests : List (Nat × IdentityRequest)) (hrow : row ∈ s.sessions) :
    ∃ row' ∈ ((identityService rt crypto settings).run s requests).sessions, Fades row row' := by
  induction requests generalizing s row with
  | nil => exact ⟨row, hrow, .refl row⟩
  | cons timed requests ih =>
    have hnext : ∃ row' ∈ ((identityService rt crypto settings).next s timed).sessions, Fades row row' := by
      rcases identityService_next rt crypto settings s timed with ⟨hnext, -⟩ | ⟨K, heffect, -⟩
      · rw [hnext]
        exact ⟨row, hrow, .refl row⟩
      · exact heffect.kept hrow
    obtain ⟨row', hrow', hf⟩ := hnext
    obtain ⟨row'', hrow'', hf'⟩ := ih hrow'
    exact ⟨row'', hrow'', hf.trans hf'⟩

/-- Where the sessions of those who are not active are revoked, the row of a session alone decides. -/
theorem accepted_iff (hi : IdentityIntegrity rt crypto s) (hs : s.Standing) (hrow : row ∈ s.sessions)
    (hhash : row.tokenHash = crypto.sha256 rawToken) :
    (s.sessionPrincipal crypto now rawToken).2 = none ↔ ¬(row.revokedAt = none ∧ now < row.expiresAt) := by
  rw [← not_iff_not, not_not, ← ne_eq, Option.ne_none_iff_exists']
  constructor
  · rintro ⟨p, haccepted⟩
    obtain ⟨row', hrow', _, -, hhash', -, hrevoked, hexpiry, -, -⟩ :=
      (sessionPrincipal_eq_some hi).mp haccepted
    obtain rfl := hi.sessionHashes.eq_of_mem hrow' hrow (hhash'.trans hhash.symm)
    exact ⟨hrevoked, hexpiry⟩
  · rintro ⟨hrevoked, hexpiry⟩
    obtain ⟨identity, hidentity, hid⟩ := hi.sessionUsers row hrow
    exact ⟨_, (sessionPrincipal_eq_some hi).mpr ⟨row, hrow, identity, hidentity, hhash, hid, hrevoked,
      hexpiry, hs row hrow hrevoked identity hidentity hid, rfl⟩⟩

/-- A token of a session that is refused once is refused for good: it was logged out, revoked with its
user or one of its groups, or has expired, and nothing that is served afterwards brings it back. As long
as it is accepted, it grants the same. -/
theorem session_closed (rt : Runtime) (crypto : Crypto) (settings : AuthSettings) (clock : DateTime)
    (before requests : List (Nat × IdentityRequest)) (hnow : now ≤ now') :
    let s := (identityService rt crypto settings).run (.empty clock) before
    let t := (identityService rt crypto settings).run s requests
    row ∈ s.sessions → row.tokenHash = crypto.sha256 rawToken →
      ((s.sessionPrincipal crypto now rawToken).2 = none →
        (t.sessionPrincipal crypto now' rawToken).2 = none) ∧
      ∀ p ∈ (s.sessionPrincipal crypto now rawToken).2, ∀ p' ∈ (t.sessionPrincipal crypto now' rawToken).2,
        p'.workspaceId = p.workspaceId ∧ p'.roles = p.roles := by
  intro s t hrow hhash
  have hi : IdentityIntegrity rt crypto s := identityIntegrity_run before
  have hs : s.Standing := standing_run before
  have ht : t = (identityService rt crypto settings).run (.empty clock) (before ++ requests) :=
    System.run_append _ |>.symm
  have hi' : IdentityIntegrity rt crypto t := ht ▸ identityIntegrity_run _
  have hs' : t.Standing := ht ▸ standing_run _
  obtain ⟨row', hrow', hf⟩ := session_kept rt crypto settings requests hrow
  have hhash' : row'.tokenHash = crypto.sha256 rawToken := hf.tokenHash.trans hhash
  refine ⟨?_, fun p hp p' hp' => ?_⟩
  · rw [accepted_iff hi hs hrow hhash, accepted_iff hi' hs' hrow' hhash']
    exact mt fun ⟨hrevoked, hexpiry⟩ => ⟨hf.revoked hrevoked, hnow.trans_lt (hf.expiresAt ▸ hexpiry)⟩
  · obtain ⟨r, hr, _, -, hrhash, -, -, -, -, rfl⟩ := (sessionPrincipal_eq_some hi).mp hp
    obtain ⟨r', hr', _, -, hrhash', -, -, -, -, rfl⟩ := (sessionPrincipal_eq_some hi').mp hp'
    obtain rfl := hi.sessionHashes.eq_of_mem hr hrow (hrhash.trans hhash.symm)
    obtain rfl := hi'.sessionHashes.eq_of_mem hr' hrow' (hrhash'.trans hhash'.symm)
    exact ⟨hf.workspaceId, hf.roles⟩

namespace Supplier

/-- Alice is active or not. -/
def setActive (active : Bool) : Nat × IdentityRequest :=
  (1, .patchUser (Runtime.plain.uid 0) [⟨.replace, .active, .bool active⟩])

/-- Alice logs in, is deactivated and activated again: she has to log in again. -/
theorem session_closed_reactivated :
    let s := (identityService .plain readable authSettings).run (.empty 0)
      (demotion.take 3 ++ [setActive false])
    let t := (identityService .plain readable authSettings).run s [setActive true]
    t.users.map IdentityRow.active = [true] ∧
      ∀ now, 0 ≤ now → (t.sessionPrincipal readable now "token").2 = none := by
  intro s t
  obtain ⟨row, hrow, hhash⟩ : ∃ row ∈ s.sessions, row.tokenHash = readable.sha256 "token" := by
    decide +kernel
  have hrefused : (s.sessionPrincipal readable 0 "token").2 = none := by decide +kernel
  exact ⟨by decide +kernel, fun now hnow => (session_closed .plain readable authSettings 0
    (demotion.take 3 ++ [setActive false]) [setActive true] hnow hrow hhash).1 hrefused⟩

end Supplier

end Recordlane
