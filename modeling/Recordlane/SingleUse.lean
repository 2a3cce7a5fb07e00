import Recordlane.Patches

/-! Pending logins: which callbacks get to the code exchange, and which of them use a login up. -/
namespace Recordlane

variable {rt : Runtime} {crypto : Crypto} {settings : AuthSettings} {s t : Identities} {now : DateTime}
  {hash : String} {transaction : OidcLogin} {call : CallbackCall} {timed : Nat × IdentityRequest}

/-- The login is too old for a callback. -/
def OidcLogin.expired (transaction : OidcLogin) (now : DateTime) : Bool :=
  transaction.createdAt < now - 600 * secondTime

/-- The verifier of the login can be decrypted. -/
def OidcLogin.readable (crypto : Crypto) (settings : AuthSettings) (transaction : OidcLogin) : Bool :=
  match sessionKey settings with
  | .ok secret => (crypto.decrypt secret transaction.encryptedVerifier).isSome
  | .error _ => false

namespace Identities

theorem admitLogin_logins {claims accessClaims : Claims} {identity : IdentityRow} {workspace : String}
    {roles : List String}
    (h : s.admitLogin rt settings claims accessClaims = .ok (t, identity, workspace, roles)) :
    t.logins = s.logins := by
  obtain ⟨-, -, ⟨-, rfl, -⟩ | ⟨-, -, rfl, -⟩⟩ := admitLogin_ok h <;> rfl

/-- The login under a hash. -/
def login? (s : Identities) (hash : String) : Option OidcLogin := Table.find OidcLogin.stateHash s.logins hash

/-- The login with which a callback gets to the code exchange. -/
def exchanging (crypto : Crypto) (settings : AuthSettings) (s : Identities) (now : DateTime)
    (call : CallbackCall) : Option OidcLogin :=
  if (identityMetadata settings call.discovered).isOk then
    (s.login? (crypto.sha256 call.state)).filter fun transaction =>
      !(transaction.consumedAt.isSome || transaction.expired now) && transaction.readable crypto settings
  else none

/-- A callback at the code exchange fails there, or its tokens log a user in. -/
def concludes (rt : Runtime) (crypto : Crypto) (settings : AuthSettings) (s : Identities) (now : DateTime)
    (call : CallbackCall) (transaction : OidcLogin) : Bool :=
  match call.exchange with
  | .failed => true
  | .tokens (some claims) (some accessClaims) =>
    claims.nonce = transaction.nonce && accessClaims.subject = claims.subject &&
      match (s.consumeLogin now transaction).admitLogin rt settings claims accessClaims with
      | .ok (admitted, _) => (fromTimestamp claims.exp).isOk &&
        !admitted.sessions.any fun r => r.tokenHash = crypto.sha256 call.rawSession
      | .error _ => false
  | _ => false

theorem exchanging_eq_some (h : s.exchanging crypto settings now call = some transaction) :
    identityMetadata settings call.discovered = .ok () ∧
      s.login? (crypto.sha256 call.state) = some transaction ∧ transaction.consumedAt = none ∧
      transaction.expired now = false ∧ transaction.readable crypto settings := by
  unfold exchanging at h
  split at h
  · next hmetadata =>
    obtain ⟨hfound, husable⟩ := Option.filter_eq_some_iff.mp h
    simp only [Bool.and_eq_true, Bool.not_eq_true', Bool.or_eq_false_iff, Option.isSome_eq_false_iff,
      Option.isNone_iff_eq_none] at husable
    refine ⟨?_, hfound, husable.1.1, husable.1.2, husable.2⟩
    cases hok : identityMetadata settings call.discovered with
    | ok u => rfl
    | error e =>
      rw [hok] at hmetadata
      cases hmetadata
  · cases h

/-- A callback at the code exchange commits that the login is used exactly if it concludes; else it
raises, and nothing is committed. -/
theorem callback_exchanging (rt : Runtime) (h : s.exchanging crypto settings now call = some transaction) :
    if s.concludes rt crypto settings now call transaction then
      ∃ t answer, s.callback rt crypto settings now call = .ok (t, answer) ∧
        t.logins = (s.consumeLogin now transaction).logins
    else ∃ e, s.callback rt crypto settings now call = .error e := by
  obtain ⟨hmetadata, hfound, hopen, hage, hreadable⟩ := exchanging_eq_some h
  have hfound : s.logins.find? (fun l => l.stateHash = crypto.sha256 call.state) = some transaction := hfound
  have hage : ¬transaction.createdAt < now - 600 * secondTime := of_decide_eq_false hage
  obtain ⟨secret, hkey, hsome⟩ : ∃ secret, sessionKey settings = .ok secret ∧
      (crypto.decrypt secret transaction.encryptedVerifier).isNone = false := by
    unfold OidcLogin.readable at hreadable
    split at hreadable
    · next secret hsecret =>
      refine ⟨secret, hsecret, ?_⟩
      rw [← Option.not_isSome, hreadable]
      rfl
    · cases hreadable
  simp only [callback, hmetadata, hfound, hopen, hage, hkey, hsome, bind, Except.bind, Option.isSome_none,
    decide_false, Bool.or_self, Bool.false_eq_true, if_false]
  cases hexchange : call.exchange with
  | failed =>
    rw [concludes, hexchange, if_pos rfl]
    exact ⟨_, _, rfl, rfl⟩
  | unreadable exception =>
    rw [concludes, hexchange, if_neg Bool.false_ne_true]
    exact ⟨_, rfl⟩
  | tokens idToken accessToken =>
    rw [concludes, hexchange]
    cases idToken with
    | none =>
      rw [if_neg Bool.false_ne_true]
      exact ⟨_, rfl⟩
    | some claims =>
      by_cases hnonce : claims.nonce = transaction.nonce
      · cases accessToken with
        | none =>
          rw [if_neg Bool.false_ne_true]
          simp [validateIdToken, hnonce, validateAccessToken, httpError]
        | some accessClaims =>
          by_cases hsubject : accessClaims.subject = claims.subject
          · simp only [validateIdToken, hnonce, validateAccessToken, hsubject, ne_eq, not_true_eq_false,
              if_false, decide_true, Bool.true_and]
            cases hadmit : (s.consumeLogin now transaction).admitLogin rt settings claims accessClaims with
            | error e =>
              rw [if_neg Bool.false_ne_true]
              exact ⟨e, rfl⟩
            | ok admission =>
              obtain ⟨admitted, identity, workspace, roles⟩ := admission
              have hlogins := admitLogin_logins hadmit
              cases hexp : fromTimestamp claims.exp with
              | error late =>
                rw [if_neg (by simp [Except.isOk, Except.toBool])]
                exact ⟨late, rfl⟩
              | ok tokenExpiry =>
                cases hstored : admitted.sessions.any fun r => r.tokenHash = crypto.sha256 call.rawSession with
                | true =>
                  rw [if_neg (by simp [hstored])]
                  simp [openSession, hstored]
                | false =>
                  rw [if_pos (by simp [hstored, Except.isOk, Except.toBool])]
                  simp only [openSession, hstored, Bool.false_eq_true, if_false, pure, Except.pure]
                  exact ⟨_, _, rfl, hlogins⟩
          · simp [validateIdToken, hnonce, validateAccessToken, hsubject, httpError]
      · cases accessToken <;> simp [validateIdToken, hnonce, httpError]

theorem callback_not_exchanging (rt : Runtime) (h : s.exchanging crypto settings now call = none) :
    ∃ e, s.callback rt crypto settings now call = .error e := by
  cases hmetadata : identityMetadata settings call.discovered with
  | error e => exact ⟨e, by simp only [callback, hmetadata, bind, Except.bind]⟩
  | ok u =>
    rw [exchanging, hmetadata, if_pos (by rfl)] at h
    cases hfound : s.login? (crypto.sha256 call.state) with
    | none =>
      have hfound : s.logins.find? (fun l => l.stateHash = crypto.sha256 call.state) = none := hfound
      simp [callback, hmetadata, hfound, bind, Except.bind, httpError]
    | some transaction =>
      rw [hfound, Option.filter_eq_none_iff] at h
      have husable := h transaction rfl
      have hfound : s.logins.find? (fun l => l.stateHash = crypto.sha256 call.state) =
          some transaction := hfound
      cases hclosed : transaction.consumedAt.isSome || transaction.createdAt < now - 600 * secondTime with
      | true => simp [callback, hmetadata, hfound, hclosed, bind, Except.bind, httpError]
      | false =>
        cases hkey : sessionKey settings with
        | error e =>
          exact ⟨e, by simp only [callback, hmetadata, hfound, hclosed, hkey, bind, Except.bind,
            Bool.false_eq_true, if_false]⟩
        | ok secret =>
          have hnone : (crypto.decrypt secret transaction.encryptedVerifier).isNone = true := by
            simp only [OidcLogin.readable, OidcLogin.expired, hkey, hclosed, Bool.not_false, Bool.true_and,
              Bool.not_eq_true] at husable
            rw [← Option.not_isSome, husable]
            rfl
          simp [callback, hmetadata, hfound, hclosed, hkey, hnone, bind, Except.bind, httpError]

/-- A login that is used up or too old is told from no login at all by nothing. -/
theorem callback_rejected (rt : Runtime) (hmetadata : (identityMetadata settings call.discovered).isOk)
    (hfound : s.login? (crypto.sha256 call.state) = some transaction)
    (hclosed : transaction.consumedAt.isSome ∨ transaction.expired now) :
    s.callback rt crypto settings now call = httpError 401 "invalid_oidc_state" [] := by
  have hfound : s.logins.find? (fun l => l.stateHash = crypto.sha256 call.state) = some transaction := hfound
  have hclosed : (transaction.consumedAt.isSome || transaction.createdAt < now - 600 * secondTime) =
      true := by
    rw [Bool.or_eq_true]
    exact hclosed
  cases hok : identityMetadata settings call.discovered with
  | error e =>
    rw [hok] at hmetadata
    cases hmetadata
  | ok u => simp only [callback, hok, hfound, hclosed, bind, Except.bind, if_true]

theorem consumeLogin_login? : (s.consumeLogin now transaction).login? hash =
    if hash = transaction.stateHash then
      (s.login? hash).map fun l => { l with consumedAt := some now }
    else s.login? hash := by
  have hkept : ∀ l : OidcLogin, ({ l with consumedAt := some now } : OidcLogin).stateHash = l.stateHash :=
    fun _ => rfl
  exact Table.find_modify hkept

theorem login?_of_logins (h : t.logins = s.logins) : t.login? hash = s.login? hash := by
  rw [login?, h, login?]

/-- Requests that neither begin nor end a login leave all of them as they are. -/
theorem serveIdentity_logins {request : IdentityRequest} {answer : Py IdentityAnswer}
    (h : serveIdentity rt crypto settings s now request = .ok (t, answer))
    (hlogin : ∀ call, request ≠ .login call) (hcallback : ∀ call, request ≠ .callback call) :
    t.logins = s.logins := by
  cases request with
  | createUser payload =>
    simp only [serveIdentity, Except.bind_eq_ok, Except.pure_eq_ok] at h
    obtain ⟨⟨u, new⟩, hcreate, heq⟩ := h
    cases heq
    unfold createUser at hcreate
    split at hcreate
    · cases hcreate
    · split at hcreate
      · cases hcreate
      · split at hcreate
        · cases hcreate
        · cases hcreate
          rfl
  | replaceUser userId payload =>
    simp only [serveIdentity, Except.bind_eq_ok, Except.pure_eq_ok] at h
    obtain ⟨⟨u, new⟩, hreplace, heq⟩ := h
    cases heq
    unfold replaceUser at hreplace
    split at hreplace
    · cases hreplace
    · simp only [Except.bind_eq_ok, Except.pure_eq_ok] at hreplace
      obtain ⟨v, hwrite, heq⟩ := hreplace
      cases heq
      rw [revokeDeactivated_eq, writeUser_ok hwrite]
  | patchUser userId operations =>
    simp only [serveIdentity, Except.bind_eq_ok, Except.pure_eq_ok] at h
    obtain ⟨⟨u, new⟩, hpatch, heq⟩ := h
    cases heq
    unfold patchUser at hpatch
    split at hpatch
    · cases hpatch
    · simp only [Except.bind_eq_ok, Except.pure_eq_ok] at hpatch
      obtain ⟨patched, -, v, hwrite, heq⟩ := hpatch
      cases heq
      rw [revokeDeactivated_eq, writeUser_ok hwrite]
  | deleteUser userId =>
    simp only [serveIdentity, Except.bind_eq_ok, Except.pure_eq_ok] at h
    obtain ⟨u, hdelete, heq⟩ := h
    cases heq
    unfold deleteUser at hdelete
    split at hdelete
    · cases hdelete
    · simp only [Except.bind_eq_ok, Except.pure_eq_ok] at hdelete
      obtain ⟨v, hwrite, rfl⟩ := hdelete
      rw [revokeIdentitySessions_eq, writeUser_ok hwrite]
  | createGroup payload =>
    simp only [serveIdentity, Except.bind_eq_ok, Except.pure_eq_ok] at h
    obtain ⟨⟨u, new⟩, hcreate, heq⟩ := h
    cases heq
    unfold createGroup at hcreate
    split at hcreate
    · cases hcreate
    · split at hcreate
      · cases hcreate
      · simp only [Except.bind_eq_ok, Except.pure_eq_ok] at hcreate
        obtain ⟨⟨v, affected⟩, hmembers, heq⟩ := hcreate
        cases heq
        rw [revokeMembers_eq, (replaceGroupMembers_ok hmembers).2.2]
  | replaceGroup groupId payload =>
    simp only [serveIdentity, Except.bind_eq_ok, Except.pure_eq_ok] at h
    obtain ⟨⟨u, new⟩, hreplace, heq⟩ := h
    cases heq
    unfold replaceGroup at hreplace
    split at hreplace
    · cases hreplace
    · simp only [Except.bind_eq_ok, Except.pure_eq_ok] at hreplace
      obtain ⟨v, hwrite, ⟨w, affected⟩, hmembers, heq⟩ := hreplace
      cases heq
      rw [revokeMembers_eq, (replaceGroupMembers_ok hmembers).2.2, writeGroup_ok hwrite]
  | patchGroup groupId operations =>
    simp only [serveIdentity, Except.bind_eq_ok, Except.pure_eq_ok] at h
    obtain ⟨⟨u, new⟩, hpatch, heq⟩ := h
    cases heq
    unfold patchGroup at hpatch
    split at hpatch
    · cases hpatch
    · simp only [Except.bind_eq_ok, Except.pure_eq_ok] at hpatch
      obtain ⟨⟨v, patched, affected⟩, hfold, w, hwrite, heq⟩ := hpatch
      cases heq
      have htables : v = { s with members := v.members } := foldlM_patchGroupField_tables hfold
      rw [revokeMembers_eq, writeGroup_ok hwrite, htables]
  | deleteGroup groupId =>
    simp only [serveIdentity, Except.bind_eq_ok, Except.pure_eq_ok] at h
    obtain ⟨u, hdelete, heq⟩ := h
    cases heq
    unfold deleteGroup at hdelete
    split at hdelete
    · cases hdelete
    · cases hdelete
      rw [revokeMembers_eq]
  | login call => exact (hlogin call rfl).elim
  | callback call => exact (hcallback call rfl).elim
  | session rawToken =>
    simp only [serveIdentity, Except.ok.injEq, Prod.mk.injEq] at h
    obtain ⟨rfl, -⟩ := h
    unfold sessionPrincipal
    split
    · rfl
    · split
      · rfl
      · split
        · split <;> rfl
        · rfl
  | logout rawToken =>
    simp only [serveIdentity, Except.ok.injEq, Prod.mk.injEq] at h
    obtain ⟨rfl, -⟩ := h
    rfl

theorem login_login? {call : LoginCall} (h : s.login crypto settings now call = .ok t)
    (hfound : s.login? hash = some transaction) : t.login? hash = some transaction := by
  unfold login at h
  split at h
  · cases h
  · split at h
    · cases h
    · simp only [Except.bind_eq_ok] at h
      obtain ⟨_, -, secret, -, h⟩ := h
      split at h
      · cases h
      · cases h
        exact Table.find_append_of_some hfound _

end Identities

/-- A request keeps a login as it is, or it is a callback that uses it up. -/
theorem identityService_login? (h : s.login? hash = some transaction) :
    ((identityService rt crypto settings).next s timed).login? hash = some transaction ∨
      ∃ call, timed.2 = .callback call ∧ crypto.sha256 call.state = hash ∧
        (s.later timed.1).exchanging crypto settings (s.later timed.1).clock call = some transaction ∧
        (s.later timed.1).concludes rt crypto settings (s.later timed.1).clock call transaction ∧
        ((identityService rt crypto settings).next s timed).login? hash =
          some { transaction with consumedAt := some (s.later timed.1).clock } := by
  have hlater : (s.later timed.1).login? hash = some transaction := h
  unfold System.next identityService
  cases hserve : serveIdentity rt crypto settings (s.later timed.1) (s.later timed.1).clock timed.2 with
  | error e =>
    simp only [hserve]
    exact .inl hlater
  | ok answered =>
    obtain ⟨t, answer⟩ := answered
    simp only [hserve]
    by_cases hlogin : ∃ call, timed.2 = .login call
    · obtain ⟨call, hrequest⟩ := hlogin
      rw [hrequest] at hserve
      simp only [serveIdentity, Except.bind_eq_ok, Except.pure_eq_ok] at hserve
      obtain ⟨u, hlogin, heq⟩ := hserve
      cases heq
      exact .inl (Identities.login_login? hlogin hlater)
    by_cases hcallback : ∃ call, timed.2 = .callback call
    · obtain ⟨call, hrequest⟩ := hcallback
      rw [hrequest] at hserve
      simp only [serveIdentity, Except.bind_eq_ok, Except.pure_eq_ok] at hserve
      obtain ⟨⟨u, opened⟩, hcallback, heq⟩ := hserve
      cases heq
      cases hexchange : (s.later timed.1).exchanging crypto settings (s.later timed.1).clock call with
      | none =>
        obtain ⟨e, herror⟩ := Identities.callback_not_exchanging rt hexchange
        rw [hcallback] at herror
        cases herror
      | some transaction' =>
        have hcommit := Identities.callback_exchanging rt hexchange
        split at hcommit
        · next hconcludes =>
          obtain ⟨t', answer', hcallback', hlogins⟩ := hcommit
          rw [hcallback] at hcallback'
          cases hcallback'
          obtain ⟨-, hfound, -⟩ := Identities.exchanging_eq_some hexchange
          by_cases hhash : crypto.sha256 call.state = hash
          · rw [hhash, hlater] at hfound
            cases hfound
            refine .inr ⟨call, hrequest, hhash, hexchange, hconcludes, ?_⟩
            rw [Identities.login?_of_logins hlogins, Identities.consumeLogin_login?,
              if_pos (Table.find_key hlater).symm, hlater]
            rfl
          · left
            rw [Identities.login?_of_logins hlogins, Identities.consumeLogin_login?, if_neg]
            · exact hlater
            · rw [Table.find_key hfound]
              exact Ne.symm hhash
        · obtain ⟨e, herror⟩ := hcommit
          rw [hcallback] at herror
          cases herror
    · left
      rw [Identities.login?_of_logins (Identities.serveIdentity_logins hserve
        (fun call hrequest => hlogin ⟨call, hrequest⟩) fun call hrequest => hcallback ⟨call, hrequest⟩)]
      exact hlater

theorem identityService_run_consumed {requests : List (Nat × IdentityRequest)}
    (h : s.login? hash = some transaction) (hconsumed : transaction.consumedAt.isSome) :
    ((identityService rt crypto settings).run s requests).login? hash = some transaction := by
  induction requests generalizing s with
  | nil => exact h
  | cons timed requests ih =>
    rcases identityService_login? h with hnext | ⟨call, -, -, hexchange, -⟩
    · exact ih hnext
    · obtain ⟨-, -, hopen, -⟩ := Identities.exchanging_eq_some hexchange
      rw [hopen] at hconsumed
      cases hconsumed

theorem identityService_run_login? (requests : List (Nat × IdentityRequest))
    (h : s.login? hash = some transaction) :
    ((identityService rt crypto settings).run s requests).login? hash = some transaction ∨
      (∃ first elapsed call rest, requests = first ++ (elapsed, .callback call) :: rest ∧
        crypto.sha256 call.state = hash ∧
        (((identityService rt crypto settings).run s first).later elapsed).exchanging crypto settings
          (((identityService rt crypto settings).run s first).later elapsed).clock call =
            some transaction) ∧
      ∃ time, ((identityService rt crypto settings).run s requests).login? hash =
        some { transaction with consumedAt := some time } := by
  induction requests generalizing s with
  | nil => exact .inl h
  | cons timed requests ih =>
    rcases identityService_login? h with hnext | ⟨call, hrequest, hhash, hexchange, -, hnext⟩
    · rcases ih hnext with hrun | ⟨⟨first, elapsed, call, rest, rfl, hhash, hexchange⟩, hrun⟩
      · exact .inl hrun
      · exact .inr ⟨⟨timed :: first, elapsed, call, rest, rfl, hhash, hexchange⟩, hrun⟩
    · refine .inr ⟨⟨[], timed.1, call, requests, ?_, hhash, hexchange⟩, (s.later timed.1).clock, ?_⟩
      · rw [List.nil_append, ← hrequest]
      · rw [System.run_cons]
        exact identityService_run_consumed hnext rfl

theorem identityService_callback (rt : Runtime) {elapsed : Nat}
    (h : (s.later elapsed).exchanging crypto settings (s.later elapsed).clock call = some transaction) :
    ((identityService rt crypto settings).next s (elapsed, .callback call)).login?
        (crypto.sha256 call.state) =
      some (if (s.later elapsed).concludes rt crypto settings (s.later elapsed).clock call transaction then
        { transaction with consumedAt := some (s.later elapsed).clock } else transaction) := by
  obtain ⟨-, hfound, -⟩ := Identities.exchanging_eq_some h
  have hcommit := Identities.callback_exchanging rt h
  unfold System.next identityService
  split at hcommit
  · next hconcludes =>
    obtain ⟨t, answer, hcallback, hlogins⟩ := hcommit
    simp only [serveIdentity, hcallback, bind, Except.bind, pure, Except.pure]
    rw [if_pos hconcludes, Identities.login?_of_logins hlogins, Identities.consumeLogin_login?,
      if_pos (Table.find_key hfound).symm, hfound]
    rfl
  · next hconcludes =>
    obtain ⟨e, herror⟩ := hcommit
    simp only [serveIdentity, herror, bind, Except.bind]
    rw [if_neg hconcludes]
    exact hfound

namespace Identities

/-- The callback does not get to the code exchange. It is told that its state is invalid, unless the
issuer is not even discovered. -/
def Rejects (rt : Runtime) (crypto : Crypto) (settings : AuthSettings) (s : Identities)
    (call : CallbackCall) : Prop :=
  s.exchanging crypto settings s.clock call = none ∧
    ((identityMetadata settings call.discovered).isOk →
      s.callback rt crypto settings s.clock call = httpError 401 "invalid_oidc_state" [])

theorem rejects_of_closed (rt : Runtime) (hfound : s.login? (crypto.sha256 call.state) = some transaction)
    (hclosed : transaction.consumedAt.isSome ∨ transaction.expired s.clock) :
    s.Rejects rt crypto settings call := by
  refine ⟨?_, fun hmetadata => callback_rejected rt hmetadata hfound hclosed⟩
  cases hexchange : s.exchanging crypto settings s.clock call with
  | none => rfl
  | some transaction' =>
    obtain ⟨-, hfound', hopen, hage, -⟩ := exchanging_eq_some hexchange
    rw [hfound] at hfound'
    cases hfound'
    rcases hclosed with hconsumed | hexpired
    · rw [hopen] at hconsumed
      cases hconsumed
    · rw [hage] at hexpired
      cases hexpired

end Identities

/-- In every run, of several callbacks of one state one at most gets to the code exchange and all later
ones are rejected, if and only if every callback that gets there fails at the exchange or logs its user
in, or later ones find their issuer undiscovered or the login too old. -/
theorem login_singleUse_iff (rt : Runtime) (crypto : Crypto) (settings : AuthSettings) (clock : DateTime)
    (requests : List (Nat × IdentityRequest)) :
    (∀ first elapsed call mid elapsed' call' rest, requests =
        first ++ (elapsed, .callback call) :: (mid ++ (elapsed', .callback call') :: rest) →
      crypto.sha256 call.state = crypto.sha256 call'.state →
      ∀ s, s = ((identityService rt crypto settings).run (.empty clock) first).later elapsed →
      (s.exchanging crypto settings s.clock call).isSome →
      (((identityService rt crypto settings).run (.empty clock)
        (first ++ (elapsed, .callback call) :: mid)).later elapsed').Rejects rt crypto settings call') ↔
    ∀ first elapsed call mid elapsed' call' rest, requests =
        first ++ (elapsed, .callback call) :: (mid ++ (elapsed', .callback call') :: rest) →
      crypto.sha256 call.state = crypto.sha256 call'.state →
      ∀ s, s = ((identityService rt crypto settings).run (.empty clock) first).later elapsed →
      ∀ transaction, s.exchanging crypto settings s.clock call = some transaction →
        s.concludes rt crypto settings s.clock call transaction ∨
        (identityMetadata settings call'.discovered).isOk = false ∨
        transaction.expired (((identityService rt crypto settings).run (.empty clock)
          (first ++ (elapsed, .callback call) :: mid)).later elapsed').clock := by
  have hrun : ∀ (first : List (Nat × IdentityRequest)) elapsed call mid,
      (identityService rt crypto settings).run (.empty clock) (first ++ (elapsed, .callback call) :: mid) =
      (identityService rt crypto settings).run ((identityService rt crypto settings).next
        ((identityService rt crypto settings).run (.empty clock) first) (elapsed, .callback call)) mid := by
    intro first elapsed call mid
    rw [System.run_append, System.run_cons]
  constructor
  · rintro h first elapsed call mid elapsed' call' rest heq hhash s rfl transaction hexchange
    by_contra hopen
    simp only [not_or, Bool.not_eq_true, Bool.not_eq_false] at hopen
    obtain ⟨hconcludes, hmetadata, hage⟩ := hopen
    have hfound := identityService_callback rt hexchange
    rw [hconcludes, if_neg Bool.false_ne_true, hhash] at hfound
    have hsome : (Identities.exchanging crypto settings
        (((identityService rt crypto settings).run (.empty clock) first).later elapsed)
        (((identityService rt crypto settings).run (.empty clock) first).later elapsed).clock
        call).isSome := by
      rw [hexchange]
      rfl
    rcases identityService_run_login? mid hfound with
      hlast | ⟨⟨first', elapsed₁, call₁, rest', rfl, hhash₁, hexchange₁⟩, -⟩
    · -- the login is still there for the second callback
      have hrejects := h first elapsed call mid elapsed' call' rest heq hhash _ rfl hsome
      rw [hrun] at hrejects hage
      obtain ⟨-, -, hunused, -, hreadable⟩ := Identities.exchanging_eq_some hexchange
      have hnone := hrejects.1
      rw [Identities.exchanging, if_pos hmetadata] at hnone
      have hfound' : (((identityService rt crypto settings).run _ mid).later elapsed').login?
          (crypto.sha256 call'.state) = some transaction := hlast
      rw [hfound', Option.filter_eq_none_iff] at hnone
      exact hnone transaction rfl (by rw [hunused, hage, hreadable]; rfl)
    · -- a callback between the two got to the exchange
      have hrejects := h first elapsed call first' elapsed₁ call₁
        (rest' ++ (elapsed', .callback call') :: rest)
        (by rw [heq]; simp) (hhash.trans hhash₁.symm) _ rfl hsome
      rw [hrun] at hrejects
      rw [hrejects.1] at hexchange₁
      cases hexchange₁
  · rintro h first elapsed call mid elapsed' call' rest heq hhash s rfl hsome
    obtain ⟨transaction, hexchange⟩ := Option.isSome_iff_exists.mp hsome
    have hfound := identityService_callback rt hexchange
    rw [hhash] at hfound
    rcases h first elapsed call mid elapsed' call' rest heq hhash _ rfl transaction hexchange with
      hconcludes | hmetadata | hexpired
    · rw [if_pos hconcludes] at hfound
      rw [hrun]
      exact Identities.rejects_of_closed rt (identityService_run_consumed hfound rfl) (.inl rfl)
    · refine ⟨?_, fun hok => ?_⟩
      · rw [Identities.exchanging, hmetadata, if_neg Bool.false_ne_true]
      · rw [hmetadata] at hok
        cases hok
    · rw [hrun] at hexpired ⊢
      rcases identityService_run_login? mid hfound with hlast | ⟨-, time, hlast⟩
      · refine Identities.rejects_of_closed rt hlast (.inr ?_)
        split
        · exact hexpired
        · exact hexpired
      · exact Identities.rejects_of_closed rt hlast (.inl rfl)

namespace Supplier

/-- A login whose callback brings no access token at first. -/
def retriedLogin : List (Nat × IdentityRequest) :=
  [(0, .login aliceLogin),
    (0, .callback ⟨"state", .ok (), .tokens (some aliceClaims) none, "token"⟩),
    (0, .callback (aliceCallback "token"))]

end Supplier

open Supplier in
/-- The state gets to the code exchange twice. -/
theorem login_not_singleUse : ¬ ∀ (requests : List (Nat × IdentityRequest)),
    ∀ first elapsed call mid elapsed' call' rest, requests =
        first ++ (elapsed, .callback call) :: (mid ++ (elapsed', .callback call') :: rest) →
      readable.sha256 call.state = readable.sha256 call'.state →
      ∀ s, s = ((identityService .plain readable authSettings).run (.empty 0) first).later elapsed →
      (s.exchanging readable authSettings s.clock call).isSome →
      (((identityService .plain readable authSettings).run (.empty 0)
        (first ++ (elapsed, .callback call) :: mid)).later elapsed').Rejects .plain readable
          authSettings call' := by
  intro h
  have hrejects := (h retriedLogin [(0, .login aliceLogin)] 0 _ [] 0 _ [] rfl rfl _ rfl
    (by decide +kernel)).1
  have hexchanges : ((((identityService .plain readable authSettings).run (.empty 0)
      (retriedLogin.take 2)).later 0).exchanging readable authSettings
        (((identityService .plain readable authSettings).run (.empty 0) (retriedLogin.take 2)).later 0).clock
          (aliceCallback "token")).isSome := by decide +kernel
  rw [Option.isSome_iff_ne_none] at hexchanges
  exact hexchanges hrejects

end Recordlane
