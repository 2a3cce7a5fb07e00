import Mathlib.Data.List.TakeDrop
import Mathlib.Data.List.TakeWhile
import Recordlane.Accounts
import Recordlane.Frame

/-! The life of service credentials: they are issued, superseded and revoked, and they expire. -/
namespace Recordlane

/-- `revoke_service_account`. -/
def revokeServiceAccount (rt : Runtime) (d : Directory) (who : Principal) (accountId : Id) :
    Py Directory := do
  let self ← authorized rt d.store who "model:write"
  if !who.roles.contains "administrator" then httpError 403 "administrator_required" []
  else match d.accounts.find? fun a => a.id = accountId && a.workspaceId = self.wid with
    | none => httpError 404 "service_account_not_found" []
    | some row =>
      let row := { row with revokedAt := some (self.now d.store) }
      let store := self.audit d.store "service_account.revoked" "service_account" row.id []
      return ⟨store, Table.modify ServiceAccount.id d.accounts row.id fun _ => row⟩

/-- What happens to service accounts. Whatever else is done draws rows, and time passes. -/
inductive AccountAct
  | create (who : Principal) (payload : ServiceAccountCreate)
  | rotate (who : Principal) (accountId : Id)
  | revoke (who : Principal) (accountId : Id)
  | pass (rows : Nat)

/-- The accounts, and the credentials that were handed out so far, each with its account. -/
structure Office where
  directory : Directory
  issued : List (Id × String)

/-- The newest credential of an account. -/
def Office.newest (o : Office) (id : Id) : Option String :=
  ((o.issued.filter fun p => p.1 = id).getLast?).map Prod.snd

/-- A call that raises changes nothing. -/
def accountSystem (rt : Runtime) (secrets : Secrets) : System Office AccountAct Unit where
  step o act := (match act with
    | .create who payload =>
      match createServiceAccount rt secrets o.directory who payload with
      | .ok (d, credential) => ⟨d, o.issued ++ [(rt.uid o.directory.store.drawn, credential)]⟩
      | .error _ => o
    | .rotate who accountId =>
      match rotateServiceAccount rt secrets o.directory who accountId with
      | .ok (d, credential) => ⟨d, o.issued ++ [(accountId, credential)]⟩
      | .error _ => o
    | .revoke who accountId =>
      match revokeServiceAccount rt o.directory who accountId with
      | .ok d => { o with directory := d }
      | .error _ => o
    | .pass rows =>
      { o with directory.store.drawn := o.directory.store.drawn + rows }, ())

/-- What random values and digests are: hexadecimal prefixes, long secrets, and no other text with the
verifier of a secret, unless NUL characters follow the secret in it. -/
structure Secrets.Sound (secrets : Secrets) : Prop where
  tokenHex : ∀ n, secrets.tokenHex n ≠ "" ∧ ∀ c ∈ (secrets.tokenHex n).toList, c ≠ '.' ∧ c ≠ '_'
  tokenUrlsafe : ∀ n, 32 ≤ (secrets.tokenUrlsafe n).length
  verifier : ∀ n text salt, Char.ofNat 0 ∉ text.toList →
    secrets.verifier text salt = secrets.verifier (secrets.tokenUrlsafe n) salt → text = secrets.tokenUrlsafe n

/-- A credential with the random values of a draw. -/
def Secrets.credential (secrets : Secrets) (slug : String) (n : Nat) : String :=
  "rl_sa_" ++ slug ++ "_" ++ secrets.tokenHex n ++ "." ++ secrets.tokenUrlsafe n

variable {rt : Runtime} {secrets : Secrets} {o : Office} {d d' : Directory} {who : Principal}
  {raw slug tokenPrefix secret : String}

theorem span_eq_cons {p : Char → Bool} {cs before after : List Char} {c : Char}
    (h : cs.span (fun x => !p x) = (before, c :: after)) :
    cs = before ++ c :: after ∧ p c ∧ ∀ x ∈ before, p x = false := by
  rw [List.span_eq_takeWhile_dropWhile, Prod.mk.injEq] at h
  obtain ⟨hbefore, hafter⟩ := h
  refine ⟨?_, ?_, fun x hx => ?_⟩
  · rw [← hbefore, ← hafter, List.takeWhile_append_dropWhile]
  · have hhead := List.head?_dropWhile_not (fun x => !p x) cs
    rw [hafter] at hhead
    simpa using hhead
  · rw [← hbefore] at hx
    simpa using List.mem_takeWhile_imp hx

theorem span_append {p : Char → Bool} {before after : List Char} {c : Char} (hc : p c)
    (h : ∀ x ∈ before, p x = false) :
    (before ++ c :: after).span (fun x => !p x) = (before, c :: after) := by
  rw [List.span_eq_takeWhile_dropWhile]
  have hall : ∀ x ∈ before, (!p x) = true := fun x hx => by simp [h x hx]
  rw [List.takeWhile_append_of_pos hall, List.dropWhile_append_of_pos hall]
  simp [hc]

theorem drop_mark {cs : List Char} : ("rl_sa_".toList ++ cs).drop 6 = cs := List.drop_left' (by decide)

/-- A token is read as its parts stand in it. -/
theorem eq_of_parseCredential (h : parseCredential raw = some (slug, tokenPrefix, secret)) :
    raw = "rl_sa_" ++ slug ++ "_" ++ tokenPrefix ++ "." ++ secret := by
  unfold parseCredential at h
  split at h
  · cases h
  · next identifier dot rest hdot =>
    split at h
    · cases h
    · next hstart =>
      split at h
      · cases h
      · next reversed line slugReversed hline =>
        split at h
        · cases h
        · cases h
          obtain ⟨hcut, hdot, -⟩ := span_eq_cons (p := (· = '.')) (by simpa using hdot)
          obtain ⟨hcut', hline, -⟩ := span_eq_cons (p := (· = '_')) (by simpa using hline)
          simp only [Bool.or_eq_true, Bool.not_eq_true', decide_eq_true_eq, not_or,
              Bool.not_eq_false] at hstart
          obtain ⟨tail, htail⟩ := List.isPrefixOf_iff_prefix.mp hstart.1
          rw [← htail, drop_mark] at hcut'
          have hname : tail = slugReversed.reverse ++ '_' :: reversed.reverse := by
            rw [← List.reverse_reverse tail, hcut']
            simp [of_decide_eq_true hline]
          rw [← String.toList_inj, hcut, ← htail, hname, of_decide_eq_true hdot]
          simp

/-- A credential is read as it was issued. -/
theorem parseCredential_credential (hsecrets : secrets.Sound) (hslug : slug ≠ "")
    (hdots : '.' ∉ slug.toList) (n : Nat) : parseCredential (secrets.credential slug n) =
      some (slug, secrets.tokenHex n, secrets.tokenUrlsafe n) := by
  obtain ⟨hnonempty, hhex⟩ := hsecrets.tokenHex n
  have hcut : (secrets.credential slug n).toList.span (· ≠ '.') =
      ("rl_sa_".toList ++ (slug.toList ++ '_' :: (secrets.tokenHex n).toList),
        '.' :: (secrets.tokenUrlsafe n).toList) := by
    have hparts : (secrets.credential slug n).toList = ("rl_sa_".toList ++ (slug.toList ++
        '_' :: (secrets.tokenHex n).toList)) ++ '.' :: (secrets.tokenUrlsafe n).toList := by
      simp [Secrets.credential]
    have hbefore : ∀ x ∈ "rl_sa_".toList ++ (slug.toList ++ '_' :: (secrets.tokenHex n).toList),
        decide (x = '.') = false := by
      intro x hx
      rw [decide_eq_false_iff_not]
      rintro rfl
      have hmark : '.' ∉ "rl_sa_".toList := by decide
      simp only [List.mem_append, List.mem_cons] at hx
      rcases hx with hx | hx | hx | hx
      · exact hmark hx
      · exact hdots hx
      · cases hx
      · exact (hhex _ hx).1 rfl
    rw [hparts, ← span_append (p := (· = '.')) rfl hbefore]
    simp
  have hline : ((slug.toList ++ '_' :: (secrets.tokenHex n).toList).reverse).span (· ≠ '_') =
      ((secrets.tokenHex n).toList.reverse, '_' :: slug.toList.reverse) := by
    have hbefore : ∀ x ∈ (secrets.tokenHex n).toList.reverse, decide (x = '_') = false := by
      intro x hx
      rw [decide_eq_false_iff_not]
      exact (hhex x (List.mem_reverse.mp hx)).2
    rw [← span_append (p := (· = '_')) rfl hbefore]
    simp
  have hstart : "rl_sa_".toList.isPrefixOf ("rl_sa_".toList ++ (slug.toList ++
      '_' :: (secrets.tokenHex n).toList)) = true := List.isPrefixOf_iff_prefix.mpr (List.prefix_append ..)
  have hlong : ¬ (secrets.tokenUrlsafe n).toList.length < 32 := by
    have hlength := hsecrets.tokenUrlsafe n
    rw [String.length_toList]
    omega
  unfold parseCredential
  rw [hcut]
  simp only [hstart, drop_mark]
  rw [hline]
  simp [hlong, hslug, hnonempty]

/-- The account has the token data of a draw. -/
structure ServiceAccount.HasToken (a : ServiceAccount) (secrets : Secrets) (n : Nat) : Prop where
  tokenPrefix : a.tokenPrefix = secrets.tokenHex n
  salt : a.salt = secrets.salt n
  verifier : a.verifier = secrets.verifier (secrets.tokenUrlsafe n) (secrets.salt n)

theorem authorized_mem {s : Store} {permission : String} {self : MasteringService}
    (h : authorized rt s who permission = .ok self) : self.workspace ∈ s.workspaces ∧ self.rt = rt := by
  unfold authorized MasteringService.start at h
  split at h
  · split at h
    · next workspace hfind =>
      cases h
      exact ⟨List.mem_of_find?_eq_some hfind, rfl⟩
    · cases h
  · cases h

theorem createServiceAccount_cases {payload : ServiceAccountCreate} {credential : String}
    (h : createServiceAccount rt secrets d who payload = .ok (d', credential)) :
    ∃ v ∈ d.store.workspaces, ∃ a : ServiceAccount, a.id = rt.uid d.store.drawn ∧ a.workspaceId = v.id ∧
      a.HasToken secrets d.store.drawn ∧ (∀ b ∈ d.accounts, b.tokenPrefix ≠ a.tokenPrefix) ∧
      d'.accounts = d.accounts ++ [a] ∧ credential = secrets.credential v.slug d.store.drawn ∧
      d'.store.workspaces = d.store.workspaces ∧ d'.store.drawn = d.store.drawn + 2 := by
  unfold createServiceAccount at h
  rw [Except.bind_eq_ok] at h
  obtain ⟨self, hself, h⟩ := h
  obtain ⟨hmem, hrt⟩ := authorized_mem hself
  dsimp only at h
  split at h
  · cases h
  · split at h
    · cases h
    · split at h
      · cases h
      · split at h
        · cases h
        · split at h
          · cases h
          · next hprefix =>
            cases h
            refine ⟨self.workspace, hmem, _, ?_, rfl, ⟨rfl, rfl, rfl⟩, ?_, rfl, rfl, rfl, rfl⟩
            · rw [← hrt]
              rfl
            · simpa using hprefix

theorem rotateServiceAccount_cases {accountId : Id} {credential : String}
    (h : rotateServiceAccount rt secrets d who accountId = .ok (d', credential)) :
    ∃ v ∈ d.store.workspaces, ∃ a ∈ d.accounts, a.id = accountId ∧ a.workspaceId = v.id ∧
      ∃ b : ServiceAccount, d'.accounts = Table.modify ServiceAccount.id d.accounts a.id (fun _ => b) ∧
        b.id = a.id ∧ b.workspaceId = a.workspaceId ∧ b.HasToken secrets d.store.drawn ∧
        (∀ c ∈ d.accounts, c.id ≠ a.id → c.tokenPrefix ≠ b.tokenPrefix) ∧
        credential = secrets.credential v.slug d.store.drawn ∧
        d'.store.workspaces = d.store.workspaces ∧ d'.store.drawn = d.store.drawn + 1 := by
  unfold rotateServiceAccount at h
  rw [Except.bind_eq_ok] at h
  obtain ⟨self, hself, h⟩ := h
  obtain ⟨hmem, hrt⟩ := authorized_mem hself
  dsimp only at h
  split at h
  · cases h
  · split at h
    · cases h
    · next a hfind =>
      split at h
      · cases h
      · next hprefix =>
        cases h
        have hfound := List.find?_some hfind
        simp only [Bool.and_eq_true, decide_eq_true_eq] at hfound
        refine ⟨self.workspace, hmem, a, List.mem_of_find?_eq_some hfind, hfound.1, hfound.2, _,
          rfl, rfl, rfl, ⟨rfl, rfl, rfl⟩, ?_, rfl, rfl, rfl⟩
        intro c hc hne
        simp only [Bool.not_eq_true, List.any_eq_false] at hprefix
        have hfree := hprefix c hc
        rw [← Bool.not_eq_true, Bool.and_eq_true, decide_eq_true_eq, decide_eq_true_eq] at hfree
        exact fun hb => hfree ⟨hne, hb⟩

theorem revokeServiceAccount_cases {accountId : Id}
    (h : revokeServiceAccount rt d who accountId = .ok d') :
    ∃ a ∈ d.accounts, a.id = accountId ∧ ∃ at_, d'.accounts =
        Table.modify ServiceAccount.id d.accounts a.id (fun _ => { a with revokedAt := some at_ }) ∧
      d'.store.workspaces = d.store.workspaces ∧ d'.store.drawn = d.store.drawn + 1 := by
  unfold revokeServiceAccount at h
  rw [Except.bind_eq_ok] at h
  obtain ⟨self, hself, h⟩ := h
  split at h
  · cases h
  · split at h
    · cases h
    · next a hfind =>
      cases h
      have hfound := List.find?_some hfind
      simp only [Bool.and_eq_true, decide_eq_true_eq] at hfound
      exact ⟨a, List.mem_of_find?_eq_some hfind, hfound.1, _, rfl, rfl, rfl⟩

/-- What holds of the accounts and of the credentials handed out. -/
structure Office.Sound (rt : Runtime) (secrets : Secrets) (spaces : List Workspace) (o : Office) : Prop where
  workspaces : o.directory.store.workspaces = spaces
  ids : Table.Keyed ServiceAccount.id o.directory.accounts
  prefixes : Table.Keyed ServiceAccount.tokenPrefix o.directory.accounts
  drawn : ∀ a ∈ o.directory.accounts, Drawn rt o.directory.store.drawn a.id
  newest : ∀ a ∈ o.directory.accounts, ∃ v ∈ spaces, v.id = a.workspaceId ∧ ∃ n, a.HasToken secrets n ∧
    o.newest a.id = some (secrets.credential v.slug n)

theorem Office.newest_append {id id' : Id} {credential : String} {issued : List (Id × String)} :
    Office.newest ⟨d', issued ++ [(id', credential)]⟩ id =
      if id' = id then some credential else Office.newest ⟨d, issued⟩ id := by
  by_cases h : id' = id <;> simp [newest, h]

namespace Office.Sound

variable {spaces : List Workspace} {act : AccountAct}

theorem next (h : o.Sound rt secrets spaces) :
    ((accountSystem rt secrets).next o act).Sound rt secrets spaces := by
  cases act with
  | pass rows =>
    exact ⟨h.workspaces, h.ids, h.prefixes, fun a ha => (h.drawn a ha).mono (Nat.le_add_right _ _), h.newest⟩
  | create who payload =>
    cases hcreate : createServiceAccount rt secrets o.directory who payload with
    | error e =>
      have hsame : (accountSystem rt secrets).next o (.create who payload) = o := by
        simp only [System.next, accountSystem, hcreate]
      rw [hsame]
      exact h
    | ok created =>
      obtain ⟨d, credential⟩ := created
      obtain ⟨v, hv, a, hid, hw, htoken, hprefix, haccounts, rfl, hworkspaces, hdrawn⟩ :=
        createServiceAccount_cases hcreate
      have hfresh : ∀ b ∈ o.directory.accounts, b.id ≠ a.id := by
        intro b hb heq
        obtain ⟨k, hk, hbid⟩ := h.drawn b hb
        exact absurd (rt.uid_injective (hbid.symm.trans (heq.trans hid))) (Nat.ne_of_lt hk)
      have hnext : (accountSystem rt secrets).next o (.create who payload) =
          ⟨d, o.issued ++ [(a.id, secrets.credential v.slug o.directory.store.drawn)]⟩ := by
        simp only [System.next, accountSystem, hcreate, hid]
      rw [hnext]
      refine ⟨hworkspaces.trans h.workspaces, ?_, ?_, ?_, ?_⟩ <;> simp only [haccounts]
      · exact h.ids.append hfresh
      · exact h.prefixes.append hprefix
      · intro b hb
        rw [hdrawn]
        rcases List.mem_append.mp hb with hb | hb
        · exact (h.drawn b hb).mono (Nat.le_add_right _ _)
        · exact ⟨_, Nat.lt_add_of_pos_right (by decide), List.mem_singleton.mp hb ▸ hid⟩
      · intro b hb
        rw [Office.newest_append (d := o.directory)]
        rcases List.mem_append.mp hb with hb | hb
        · rw [if_neg (hfresh b hb).symm]
          exact h.newest b hb
        · obtain rfl := List.mem_singleton.mp hb
          exact ⟨v, h.workspaces ▸ hv, hw.symm, _, htoken, if_pos rfl⟩
  | rotate who accountId =>
    cases hrotate : rotateServiceAccount rt secrets o.directory who accountId with
    | error e =>
      have hsame : (accountSystem rt secrets).next o (.rotate who accountId) = o := by
        simp only [System.next, accountSystem, hrotate]
      rw [hsame]
      exact h
    | ok rotated =>
      obtain ⟨d, credential⟩ := rotated
      obtain ⟨v, hv, a, ha, rfl, hw, b, haccounts, hid, hbw, htoken, hprefix, rfl, hworkspaces, hdrawn⟩ :=
        rotateServiceAccount_cases hrotate
      have hnext : (accountSystem rt secrets).next o (.rotate who a.id) =
          ⟨d, o.issued ++ [(a.id, secrets.credential v.slug o.directory.store.drawn)]⟩ := by
        simp only [System.next, accountSystem, hrotate]
      rw [hnext]
      refine ⟨hworkspaces.trans h.workspaces, ?_, ?_, ?_, ?_⟩ <;> simp only [haccounts]
      · exact h.ids.modify_other h.ids fun c _ hne => hid ▸ hne
      · exact h.ids.modify_other h.prefixes hprefix
      · intro c hc
        rw [hdrawn]
        rcases Table.mem_modify.mp hc with ⟨hc, -⟩ | ⟨_, _, -, rfl⟩
        · exact (h.drawn c hc).mono (Nat.le_add_right _ _)
        · exact hid ▸ (h.drawn a ha).mono (Nat.le_add_right _ _)
      · intro c hc
        rw [Office.newest_append (d := o.directory)]
        rcases Table.mem_modify.mp hc with ⟨hc, hne⟩ | ⟨_, _, -, rfl⟩
        · rw [if_neg (Ne.symm hne)]
          exact h.newest c hc
        · exact ⟨v, h.workspaces ▸ hv, (hbw.trans hw).symm, _, htoken, if_pos hid.symm⟩
  | revoke who accountId =>
    cases hrevoke : revokeServiceAccount rt o.directory who accountId with
    | error e =>
      have hsame : (accountSystem rt secrets).next o (.revoke who accountId) = o := by
        simp only [System.next, accountSystem, hrevoke]
      rw [hsame]
      exact h
    | ok d =>
      obtain ⟨a, ha, rfl, at_, haccounts, hworkspaces, hdrawn⟩ := revokeServiceAccount_cases hrevoke
      have hnext : (accountSystem rt secrets).next o (.revoke who a.id) = { o with directory := d } := by
        simp only [System.next, accountSystem, hrevoke]
      rw [hnext]
      refine ⟨hworkspaces.trans h.workspaces, ?_, ?_, ?_, ?_⟩ <;> simp only [haccounts]
      · exact h.ids.modify_other h.ids fun c _ hne => hne
      · exact h.ids.modify_other h.prefixes fun c hc hne heq => hne (congrArg ServiceAccount.id
          (h.prefixes.eq_of_mem hc ha heq))
      · intro c hc
        rw [hdrawn]
        rcases Table.mem_modify.mp hc with ⟨hc, -⟩ | ⟨_, _, -, rfl⟩
        · exact (h.drawn c hc).mono (Nat.le_add_right _ _)
        · exact (h.drawn a ha).mono (Nat.le_add_right _ _)
      · intro c hc
        rcases Table.mem_modify.mp hc with ⟨hc, -⟩ | ⟨_, _, -, rfl⟩
        · exact h.newest c hc
        · obtain ⟨v, hv, hw, n, htoken, hnewest⟩ := h.newest a ha
          exact ⟨v, hv, hw, n, ⟨htoken.tokenPrefix, htoken.salt, htoken.verifier⟩, hnewest⟩

end Office.Sound

/-- What can be done with a token (a header has no NUL character), whatever accounts were created, rotated
and revoked before: it makes the principal of an account if and only if it is the newest credential of the
account, which is neither revoked nor expired. -/
theorem credential_newest (hsecrets : secrets.Sound) (hd : d.accounts = [])
    (hids : Table.Keyed Workspace.id d.store.workspaces)
    (hslugs : Table.Keyed Workspace.slug d.store.workspaces)
    (hslug : ∀ v ∈ d.store.workspaces, v.slug ≠ "" ∧ '.' ∉ v.slug.toList) (acts : List AccountAct)
    (raw : String) (hraw : Char.ofNat 0 ∉ raw.toList) (q : Principal) :
    let o := (accountSystem rt secrets).run ⟨d, []⟩ acts
    servicePrincipal rt secrets o.directory raw = some q ↔
      ∃ a ∈ o.directory.accounts, o.newest a.id = some raw ∧ a.revokedAt = none ∧
        rt.now o.directory.store.drawn < a.expiresAt ∧
        q = ⟨"service-account:" ++ a.id, "recordlane:service-account", a.workspaceId, a.roles,
        some a.scopes⟩ := by
  intro o
  have hstart : Office.Sound rt secrets d.store.workspaces ⟨d, []⟩ := by
    refine ⟨rfl, ?_, ?_, ?_, ?_⟩ <;> simp [hd, Table.Keyed]
  have hsound : o.Sound rt secrets d.store.workspaces := (accountSystem rt secrets).run_invariant hstart
    ((accountSystem rt secrets).along_of_forall (fun _ _ => trivial) acts) fun _ act h (_ : True) => h.next
  generalize o = o at hsound ⊢
  constructor
  · intro h
    simp only [servicePrincipal, Option.bind_eq_bind, Option.bind_eq_some_iff] at h
    obtain ⟨⟨slug, tokenPrefix, secret⟩, hparsed, v, hv, a, ha, h⟩ := h
    have hmem := List.mem_of_find?_eq_some ha
    have hfound := List.find?_some ha
    simp only [Bool.and_eq_true, decide_eq_true_eq] at hfound
    have hvmem := List.mem_of_find?_eq_some hv
    have hvslug : v.slug = slug := by simpa using List.find?_some hv
    split at h
    · cases h
    · next hlive =>
      split at h
      · cases h
      · next hverifier =>
        cases h
        obtain ⟨v', hv', hw', n, htoken, hnewest⟩ := hsound.newest a hmem
        rw [not_not, htoken.salt, htoken.verifier] at hverifier
        have hsame : v' = v := hids.eq_of_mem hv' (hsound.workspaces ▸ hvmem) (hw'.trans hfound.1)
        simp only [Bool.or_eq_true, decide_eq_true_eq, not_or, Bool.not_eq_true, Option.isSome_eq_false_iff,
          Option.isNone_iff_eq_none, not_le] at hlive
        refine ⟨a, hmem, ?_, hlive.1, hlive.2, by rw [hfound.1]⟩
        have hplain : Char.ofNat 0 ∉ secret.toList := fun hnul => hraw <| by
          rw [eq_of_parseCredential hparsed, String.toList_append]
          exact List.mem_append_right _ hnul
        have hsecret : secret = secrets.tokenUrlsafe n := hsecrets.verifier _ _ _ hplain hverifier
        rw [hnewest, eq_of_parseCredential hparsed, hsecret, ← hfound.2, htoken.tokenPrefix, ← hvslug, hsame]
        rfl
  · rintro ⟨a, ha, hnewest, hrevoked, hexpires, rfl⟩
    obtain ⟨v, hv, hw, n, htoken, hcredential⟩ := hsound.newest a ha
    obtain rfl := Option.some.inj (hnewest.symm.trans hcredential)
    obtain ⟨hname, hdots⟩ := hslug v hv
    rw [← hw]
    refine servicePrincipal_eq (parseCredential_credential hsecrets hname hdots n) ?_ ?_ hrevoked hexpires ?_
    · rw [hsound.workspaces]
      exact hslugs.find_iff.mpr ⟨hv, rfl⟩
    · cases hfind : o.directory.accounts.find? fun b =>
          b.workspaceId = v.id && b.tokenPrefix = secrets.tokenHex n with
      | none => simpa [hw, htoken.tokenPrefix] using List.find?_eq_none.mp hfind a ha
      | some b =>
        have hfound := List.find?_some hfind
        simp only [Bool.and_eq_true, decide_eq_true_eq] at hfound
        rw [hsound.prefixes.eq_of_mem (List.mem_of_find?_eq_some hfind) ha
            (hfound.2.trans htoken.tokenPrefix.symm)]
    · rw [htoken.salt, htoken.verifier]

namespace Supplier

theorem vault_sound : vault.Sound where
  tokenHex n := by
    refine ⟨?_, fun c hc => ?_⟩
    · simp [vault]
    · have hletter : c = 'a' := by simpa [vault] using hc
      rw [hletter]
      decide
  tokenUrlsafe n := by simp [vault]
  verifier n text salt _ h := by simpa [vault] using h

/-- An account is created, revoked and rotated. -/
def renewed (who : Principal) : List AccountAct :=
  [.create who wildcard, .revoke who (uid 0), .rotate who (uid 0)]

/-- The credential that came with the rotation is the one that counts. -/
theorem credential_newest_renewed :
    let o := (accountSystem .plain vault).run ⟨directory "w1", []⟩
      (renewed ⟨"root", "issuer", "w1", ["administrator"], none⟩)
    ∃ q, servicePrincipal .plain vault o.directory (vault.credential "acme" 3) = some q := by
  intro o
  have hrotated : ∃ a ∈ o.directory.accounts, o.newest a.id = some (vault.credential "acme" 3) ∧
      a.revokedAt = none ∧ Runtime.plain.now o.directory.store.drawn < a.expiresAt := by decide +kernel
  obtain ⟨a, ha, hnewest, hrevoked, hexpires⟩ := hrotated
  exact ⟨_, (credential_newest vault_sound rfl (by simp [directory, Store.empty, Table.Keyed])
    (by simp [directory, Store.empty, Table.Keyed]) (by simp [directory, Store.empty]) _ _ (by decide) _).mpr
      ⟨a, ha, hnewest, hrevoked, hexpires, rfl⟩⟩

end Supplier

end Recordlane
