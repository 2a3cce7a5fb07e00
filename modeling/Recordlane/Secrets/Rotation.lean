import Recordlane.Credentials
import Recordlane.Secrets.Disclosure

/-! What connectors get: the newest value of a name in its workspace, whatever else was created and
rotated. -/
namespace Recordlane

/-- What a name was given: a value, encrypted in its surroundings, or the locator of an external secret. -/
inductive SecretEntry
  | encrypted (around : Surroundings) (value : String)
  | vault (locator : String)

structure SecretWrite where
  workspaceId : Id
  name : String
  entry : SecretEntry

def SecretCreate.entry (payload : SecretCreate) (around : Surroundings) : SecretEntry :=
  match payload.provider with
  | .encryptedLocal => .encrypted around (payload.value.getD "")
  | .vaultKv2 => .vault (payload.locator.getD "")

variable (rt : Runtime) (fernet : Fernet)

/-- The workspace in which a principal manages secrets. -/
def secretSpace (s : Store) (who : Principal) : Option Id :=
  (authorized rt s who "model:write").toOption.map MasteringService.wid

/-- What a request has given to a name, as its answer says. -/
def secretWrite (k : Keyring) (request : SecretRequest) (answer : Py SecretAnswer) : Option SecretWrite :=
  match request, answer with
  | .create who payload around, .ok (.view view) =>
    (secretSpace rt k.store who).map fun wid => ⟨wid, view.name, payload.entry around⟩
  | .rotate who _ payload around, .ok (.view view) =>
    (secretSpace rt k.store who).map fun wid => ⟨wid, view.name, .encrypted around payload.value⟩
  | _, _ => none

/-- What the names of all workspaces were given, one after the other. -/
def secretWrites (k : Keyring) (requests : List SecretRequest) : List SecretWrite :=
  ((secretService rt fernet).trace k requests).filterMap fun p =>
    secretWrite rt p.1 p.2 ((secretService rt fernet).step p.1 p.2).2

/-- What a name of a workspace was given. -/
def writesOf (writes : List SecretWrite) (workspaceId : Id) (name : String) : List SecretWrite :=
  writes.filter fun w => w.workspaceId = workspaceId && w.name = name

/-- What a connector gets of an entry: its value, if the master key is still the one it was encrypted with,
or what the Vault has now. -/
def SecretEntry.value (around : Surroundings) : SecretEntry → Py String
  | .encrypted old value =>
    match SecretResolver.masterKey rt fernet around with
    | .error e => .error e
    | .ok key =>
      if (SecretResolver.masterKey rt fernet old).toOption = some key then .ok value
      else .error (.runtime "secret cannot be decrypted with the configured key")
  | .vault locator => do
    VaultKV2Provider.create around
    VaultKV2Provider.resolve rt around locator

/-- The row has what its name was given. -/
def SecretEntry.Holds (row : SecretReference) : SecretEntry → Prop
  | .encrypted around value => row.provider = .encryptedLocal ∧ ∃ key n,
      SecretResolver.masterKey rt fernet around = .ok key ∧
        row.encryptedValue = some (fernet.encrypt key n value)
  | .vault locator => row.provider = .vaultKv2 ∧ row.locator = locator

variable {rt fernet} {k k' : Keyring} {row row' : SecretReference} {who : Principal}
  {around : Surroundings} {secretId : Id} {writes : List SecretWrite} {view : SecretView}
  {answer : SecretAnswer} {wid : Id} {name : String}

theorem SecretEntry.Holds.resolveRow {entry : SecretEntry} (hf : fernet.Sound)
    (h : entry.Holds rt fernet row) :
    SecretResolver.resolveRow rt fernet around row = entry.value rt fernet around := by
  cases entry with
  | vault locator =>
    obtain ⟨hprovider, rfl⟩ := h
    rw [SecretResolver.resolveRow, hprovider]
    rfl
  | encrypted old value =>
    obtain ⟨hprovider, key, n, hkey, htoken⟩ := h
    rw [resolveRow_sealed hf hprovider htoken, SecretEntry.value, hkey]
    cases SecretResolver.masterKey rt fernet around with
    | error e => rfl
    | ok key' =>
      by_cases heq : key = key'
      · subst heq
        simp [Except.bind, Except.toOption]
      · simp [Except.bind, Except.toOption, heq]

theorem resolve_secret (references : List SecretReference) (workspaceId : Id) (name : String) :
    SecretResolver.resolve rt fernet around references workspaceId ("secret:" ++ name) =
      match references.find? fun row => row.workspaceId = workspaceId && row.name = name with
      | none => .error (.python "KeyError")
      | some row => SecretResolver.resolveRow rt fernet around row := by
  have hfile : startsWith ("secret:" ++ name) "file:" = false := by
    rw [startsWith, String.toList_append]
    rfl
  have henv : startsWith ("secret:" ++ name) "env:" = false := by
    rw [startsWith, String.toList_append]
    rfl
  have hsecret : startsWith ("secret:" ++ name) "secret:" = true := by
    rw [startsWith, String.toList_append, List.isPrefixOf_iff_prefix]
    exact List.prefix_append _ _
  have hname : removeStart ("secret:" ++ name) "secret:" = name := by
    rw [removeStart, String.toList_append, ← String.toList_inj, String.toList_ofList]
    exact List.drop_left' rfl
  rw [SecretResolver.resolve, hfile, henv, hsecret, hname]
  rfl

theorem writesOf_append {w : SecretWrite} : writesOf (writes ++ [w]) wid name =
    if w.workspaceId = wid ∧ w.name = name then writesOf writes wid name ++ [w]
    else writesOf writes wid name := by
  by_cases h : w.workspaceId = wid ∧ w.name = name
  · simp [writesOf, h.1, h.2]
  · rw [if_neg h]
    have hout : (decide (w.workspaceId = wid) && decide (w.name = name)) = false := by simpa using h
    simp [writesOf, hout]

theorem answered503_eq_ok {α : Type} {classes : List String} {code : String} {x : Py α} {a : α} :
    answered503 classes code x = .ok a ↔ x = .ok a := by
  cases x with
  | ok b => rfl
  | error e =>
    rw [answered503]
    refine iff_of_false (fun h => ?_) (fun h => by cases h)
    split at h <;> cases h

theorem encrypt_eq_ok {n : Nat} {value token : String}
    (h : SecretResolver.encrypt rt fernet around n value = .ok token) :
    ∃ key, SecretResolver.masterKey rt fernet around = .ok key ∧ token = fernet.encrypt key n value := by
  rw [SecretResolver.encrypt, Except.bind_eq_ok] at h
  obtain ⟨key, hkey, h⟩ := h
  exact ⟨key, hkey, (Except.ok.inj h).symm⟩

theorem sealValue_holds {payload : SecretCreate} {n : Nat} {sealed : Option String × String}
    (h : sealValue rt fernet n payload around = .ok sealed) (hprovider : row.provider = payload.provider)
    (hlocator : row.locator = sealed.2) (htoken : row.encryptedValue = sealed.1) :
    (payload.entry around).Holds rt fernet row := by
  unfold sealValue at h
  unfold SecretCreate.entry
  cases hp : payload.provider with
  | vaultKv2 =>
    rw [hp] at h hprovider
    dsimp only at h
    split at h
    · cases h
    · cases h
      exact ⟨hprovider, hlocator⟩
  | encryptedLocal =>
    rw [hp] at h hprovider
    dsimp only at h
    split at h
    · cases h
    · next value hvalue =>
      split at h
      · cases h
      · cases hencrypt : answered503 keyErrors "master_key_unavailable"
            (SecretResolver.encrypt rt fernet around n value) with
        | error e =>
          rw [hencrypt] at h
          cases h
        | ok token =>
          rw [hencrypt] at h
          cases h
          obtain ⟨key, hkey, rfl⟩ := encrypt_eq_ok (answered503_eq_ok.mp hencrypt)
          rw [hvalue]
          exact ⟨hprovider, key, n, hkey, htoken⟩

theorem secretSpace_eq {s : Store} {self : MasteringService}
    (h : authorized rt s who "model:write" = .ok self) : secretSpace rt s who = some self.wid := by
  rw [secretSpace, h]
  rfl

theorem createSecretReference_cases {payload : SecretCreate}
    (h : createSecretReference rt fernet k who payload around = .ok (k', view)) :
    ∃ row : SecretReference, secretSpace rt k.store who = some row.workspaceId ∧
      (∀ r ∈ k.references, ¬ (r.workspaceId = row.workspaceId ∧ r.name = row.name)) ∧
      row.id = rt.uid k.store.drawn ∧ row.version = 1 ∧ (payload.entry around).Holds rt fernet row ∧
      k'.references = k.references ++ [row] ∧ k.store.drawn < k'.store.drawn ∧ view.name = row.name := by
  unfold createSecretReference at h
  rw [Except.bind_eq_ok] at h
  obtain ⟨self, hself, h⟩ := h
  split at h
  · cases h
  · split at h
    · cases h
    · next hfree =>
      rw [Except.bind_eq_ok] at h
      obtain ⟨sealed, hsealed, h⟩ := h
      cases h
      refine ⟨_, secretSpace_eq hself, ?_, ?_, rfl, sealValue_holds hsealed rfl rfl rfl, rfl, ?_, rfl⟩
      · simpa using hfree
      · rw [← (authorized_mem hself).2]
        rfl
      · change k.store.drawn < k.store.drawn + 1 + 1
        omega

theorem reference?_eq_ok (h : k.reference? wid secretId = .ok row) :
    row ∈ k.references ∧ row.id = secretId ∧ row.workspaceId = wid := by
  unfold Keyring.reference? at h
  split at h
  · next found hfound =>
    cases h
    have hkeys := List.find?_some hfound
    simp only [Bool.and_eq_true, decide_eq_true_eq] at hkeys
    exact ⟨List.mem_of_find?_eq_some hfound, hkeys⟩
  · cases h

theorem rotateSecretReference_cases {payload : SecretRotate}
    (h : rotateSecretReference rt fernet k who secretId payload around = .ok (k', view)) :
    ∃ row ∈ k.references, ∃ new : SecretReference, secretSpace rt k.store who = some row.workspaceId ∧
      new.id = row.id ∧ new.workspaceId = row.workspaceId ∧ new.name = row.name ∧
      new.version = row.version + 1 ∧ (SecretEntry.encrypted around payload.value).Holds rt fernet new ∧
      k'.references = Table.modify SecretReference.id k.references row.id (fun _ => new) ∧
      k.store.drawn ≤ k'.store.drawn ∧ view.name = row.name := by
  unfold rotateSecretReference at h
  rw [Except.bind_eq_ok] at h
  obtain ⟨self, hself, h⟩ := h
  split at h
  · cases h
  · rw [Except.bind_eq_ok] at h
    obtain ⟨row, hrow, h⟩ := h
    dsimp only at h
    split at h
    · cases h
    · next hprovider =>
      rw [Except.bind_eq_ok] at h
      obtain ⟨token, htoken, h⟩ := h
      cases h
      obtain ⟨key, hkey, rfl⟩ := encrypt_eq_ok (answered503_eq_ok.mp htoken)
      obtain ⟨hmem, -, hwid⟩ := reference?_eq_ok hrow
      exact ⟨row, hmem, { row with
          encryptedValue := some (fernet.encrypt key k.store.drawn payload.value)
          version := row.version + 1
          updatedAt := self.now k.store }, hwid ▸ secretSpace_eq hself, rfl, rfl, rfl, rfl,
        ⟨not_not.mp hprovider, key, _, hkey, rfl⟩, rfl, Nat.le_succ _, rfl⟩

theorem testSecretReference_cases
    (h : testSecretReference rt fernet k who secretId around = .ok (k', answer)) :
    k'.references = k.references ∧ k.store.drawn ≤ k'.store.drawn := by
  unfold testSecretReference at h
  simp only [Except.bind_eq_ok] at h
  obtain ⟨self, -, row, -, value, -, h⟩ := h
  cases h
  exact ⟨rfl, Nat.le_succ _⟩

/-- What the references of all workspaces have to do with the values that their names were given. -/
structure Keyring.Sound (rt : Runtime) (fernet : Fernet) (writes : List SecretWrite) (k : Keyring) :
    Prop where
  ids : Table.Keyed SecretReference.id k.references
  drawn : ∀ row ∈ k.references, Drawn rt k.store.drawn row.id
  names : ∀ row ∈ k.references, ∀ row' ∈ k.references, row.workspaceId = row'.workspaceId →
    row.name = row'.name → row = row'
  known : ∀ w ∈ writes, ∃ row ∈ k.references, row.workspaceId = w.workspaceId ∧ row.name = w.name
  newest : ∀ row ∈ k.references, ∃ w ∈ (writesOf writes row.workspaceId row.name).getLast?,
    w.entry.Holds rt fernet row
  versions : ∀ row ∈ k.references, row.version = (writesOf writes row.workspaceId row.name).length

namespace Keyring.Sound

theorem created (h : k.Sound rt fernet writes) {w : SecretWrite} {new : SecretReference}
    (hfree : ∀ r ∈ k.references, ¬ (r.workspaceId = new.workspaceId ∧ r.name = new.name))
    (hid : new.id = rt.uid k.store.drawn) (hversion : new.version = 1)
    (hw : w.workspaceId = new.workspaceId ∧ w.name = new.name) (hholds : w.entry.Holds rt fernet new)
    (hrefs : k'.references = k.references ++ [new]) (hdrawn : k.store.drawn < k'.store.drawn) :
    k'.Sound rt fernet (writes ++ [w]) := by
  have hold : ∀ row ∈ k.references,
      writesOf (writes ++ [w]) row.workspaceId row.name = writesOf writes row.workspaceId row.name := by
    intro row hrow
    rw [writesOf_append, if_neg]
    rintro ⟨hwid, hname⟩
    exact hfree row hrow ⟨hwid.symm.trans hw.1, hname.symm.trans hw.2⟩
  have hnew : writesOf (writes ++ [w]) new.workspaceId new.name = [w] := by
    have hnone : writesOf writes new.workspaceId new.name = [] := by
      refine List.filter_eq_nil_iff.mpr fun w' hw' hmatch => ?_
      simp only [Bool.and_eq_true, decide_eq_true_eq] at hmatch
      obtain ⟨row, hrow, hwid, hname⟩ := h.known w' hw'
      exact hfree row hrow ⟨hwid.trans hmatch.1, hname.trans hmatch.2⟩
    rw [writesOf_append, if_pos hw, hnone, List.nil_append]
  have hmem : ∀ row ∈ k'.references, row ∈ k.references ∨ row = new := fun row hrow => by
    rw [hrefs] at hrow
    simpa using hrow
  constructor
  · rw [hrefs]
    exact h.ids.append fun row hrow heq => (h.drawn row hrow).ne_uid (heq.trans hid)
  · intro row hrow
    rcases hmem row hrow with hrow | rfl
    · exact (h.drawn row hrow).mono hdrawn.le
    · exact hid ▸ drawn_uid hdrawn
  · intro row hrow row' hrow' hwid hname
    rcases hmem row hrow with hrow | rfl <;> rcases hmem row' hrow' with hrow' | rfl
    · exact h.names row hrow row' hrow' hwid hname
    · exact (hfree row hrow ⟨hwid, hname⟩).elim
    · exact (hfree row' hrow' ⟨hwid.symm, hname.symm⟩).elim
    · rfl
  · intro w' hw'
    rw [hrefs]
    rcases List.mem_append.mp hw' with hw' | hw'
    · obtain ⟨row, hrow, hsame⟩ := h.known w' hw'
      exact ⟨row, List.mem_append_left _ hrow, hsame⟩
    · obtain rfl := List.mem_singleton.mp hw'
      exact ⟨new, by simp, hw.1.symm, hw.2.symm⟩
  · intro row hrow
    rcases hmem row hrow with hrow | rfl
    · rw [hold row hrow]
      exact h.newest row hrow
    · rw [hnew]
      exact ⟨w, rfl, hholds⟩
  · intro row hrow
    rcases hmem row hrow with hrow | rfl
    · rw [hold row hrow]
      exact h.versions row hrow
    · rw [hnew]
      exact hversion

theorem rotated (h : k.Sound rt fernet writes) {w : SecretWrite} {new : SecretReference}
    (hrow : row ∈ k.references) (hid : new.id = row.id) (hwid : new.workspaceId = row.workspaceId)
    (hname : new.name = row.name) (hversion : new.version = row.version + 1)
    (hw : w.workspaceId = row.workspaceId ∧ w.name = row.name) (hholds : w.entry.Holds rt fernet new)
    (hrefs : k'.references = Table.modify SecretReference.id k.references row.id fun _ => new)
    (hdrawn : k.store.drawn ≤ k'.store.drawn) : k'.Sound rt fernet (writes ++ [w]) := by
  have hold : ∀ r ∈ k.references, r.id ≠ row.id →
      writesOf (writes ++ [w]) r.workspaceId r.name = writesOf writes r.workspaceId r.name := by
    intro r hr hne
    rw [writesOf_append, if_neg]
    rintro ⟨hwid', hname'⟩
    exact hne (congrArg _ (h.names r hr row hrow (hwid'.symm.trans hw.1) (hname'.symm.trans hw.2)))
  have hnew : writesOf (writes ++ [w]) new.workspaceId new.name =
      writesOf writes row.workspaceId row.name ++ [w] := by
    rw [writesOf_append, if_pos (by rw [hwid, hname]; exact hw), hwid, hname]
  have hmem : ∀ r ∈ k'.references, (r ∈ k.references ∧ r.id ≠ row.id) ∨ r = new := by
    intro r hr
    rw [hrefs] at hr
    rcases Table.mem_modify.mp hr with hr | ⟨_, _, _, rfl⟩
    · exact .inl hr
    · exact .inr rfl
  have hthere : new ∈ k'.references := by
    rw [hrefs]
    exact Table.mem_modify.mpr (.inr ⟨row, hrow, rfl, rfl⟩)
  constructor
  · rw [hrefs]
    exact h.ids.modify_other h.ids fun c _ hne => hid ▸ hne
  · intro r hr
    rcases hmem r hr with ⟨hr, -⟩ | rfl
    · exact (h.drawn r hr).mono hdrawn
    · exact hid ▸ (h.drawn row hrow).mono hdrawn
  · intro r hr r' hr' hsame hsame'
    rcases hmem r hr with ⟨hr, hne⟩ | rfl <;> rcases hmem r' hr' with ⟨hr', hne'⟩ | rfl
    · exact h.names r hr r' hr' hsame hsame'
    · exact (hne (congrArg _ (h.names r hr row hrow (hsame.trans hwid) (hsame'.trans hname)))).elim
    · exact (hne' (congrArg _ (h.names r' hr' row hrow (hsame.symm.trans hwid)
        (hsame'.symm.trans hname)))).elim
    · rfl
  · intro w' hw'
    rcases List.mem_append.mp hw' with hw' | hw'
    · obtain ⟨r, hr, hsame⟩ := h.known w' hw'
      by_cases heq : r.id = row.id
      · obtain rfl := h.ids.eq_of_mem hr hrow heq
        exact ⟨new, hthere, hwid.trans hsame.1, hname.trans hsame.2⟩
      · exact ⟨r, hrefs ▸ Table.mem_modify.mpr (.inl ⟨hr, heq⟩), hsame⟩
    · obtain rfl := List.mem_singleton.mp hw'
      exact ⟨new, hthere, hwid.trans hw.1.symm, hname.trans hw.2.symm⟩
  · intro r hr
    rcases hmem r hr with ⟨hr, hne⟩ | rfl
    · rw [hold r hr hne]
      exact h.newest r hr
    · rw [hnew]
      exact ⟨w, by simp, hholds⟩
  · intro r hr
    rcases hmem r hr with ⟨hr, hne⟩ | rfl
    · rw [hold r hr hne]
      exact h.versions r hr
    · rw [hnew, List.length_append, ← h.versions row hrow]
      exact hversion

theorem kept (h : k.Sound rt fernet writes) (hrefs : k'.references = k.references)
    (hdrawn : k.store.drawn ≤ k'.store.drawn) : k'.Sound rt fernet writes := by
  refine ⟨?_, fun row hrow => ?_, ?_, ?_, ?_, ?_⟩ <;> rw [hrefs] at *
  · exact h.ids
  · exact (h.drawn row hrow).mono hdrawn
  · exact h.names
  · exact h.known
  · exact h.newest
  · exact h.versions

theorem next (h : k.Sound rt fernet writes) (request : SecretRequest) :
    ((secretService rt fernet).next k request).Sound rt fernet (writes ++
      (secretWrite rt k request ((secretService rt fernet).step k request).2).toList) := by
  unfold System.next secretService
  dsimp only
  cases hserve : serveSecrets rt fernet k request with
  | error e =>
    have hnone : secretWrite rt k request (.error e) = none := by cases request <;> rfl
    rw [hnone, Option.toList_none, List.append_nil]
    exact h
  | ok served =>
    obtain ⟨k', answer⟩ := served
    dsimp only
    cases request with
    | list who =>
      obtain ⟨views, -, heq⟩ := Except.map_eq_ok.mp hserve
      cases heq
      have hnone : secretWrite rt k (.list who) (.ok (.listed views)) = none := rfl
      rw [hnone, Option.toList_none, List.append_nil]
      exact h
    | elsewhere other =>
      cases hserve
      have hnone : secretWrite rt k (.elsewhere other) (.ok .done) = none := rfl
      rw [hnone, Option.toList_none, List.append_nil]
      exact h.kept rfl (other.drawn _)
    | test who secretId around =>
      have hnone : secretWrite rt k (.test who secretId around) (.ok answer) = none := rfl
      rw [hnone, Option.toList_none, List.append_nil]
      obtain ⟨hrefs, hdrawn⟩ := testSecretReference_cases hserve
      exact h.kept hrefs hdrawn
    | create who payload around =>
      obtain ⟨⟨k'', view⟩, hcreate, heq⟩ := Except.map_eq_ok.mp hserve
      cases heq
      obtain ⟨new, hspace, hfree, hid, hversion, hholds, hrefs, hdrawn, hname⟩ :=
        createSecretReference_cases hcreate
      rw [secretWrite, hspace]
      exact h.created hfree hid hversion ⟨rfl, hname⟩ hholds hrefs hdrawn
    | rotate who secretId payload around =>
      obtain ⟨⟨k'', view⟩, hrotate, heq⟩ := Except.map_eq_ok.mp hserve
      cases heq
      obtain ⟨row, hrow, new, hspace, hid, hwid, hname, hversion, hholds, hrefs, hdrawn, hview⟩ :=
        rotateSecretReference_cases hrotate
      rw [secretWrite, hspace]
      exact h.rotated hrow hid hwid hname hversion ⟨rfl, hview⟩ hholds hrefs hdrawn

end Keyring.Sound

theorem keyring_run (h : k.Sound rt fernet writes) (requests : List SecretRequest) :
    ((secretService rt fernet).run k requests).Sound rt fernet
      (writes ++ secretWrites rt fernet k requests) := by
  induction requests generalizing k writes with
  | nil => simpa [secretWrites, System.trace] using h
  | cons request requests ih =>
    have hrun := ih (h.next request)
    rw [List.append_assoc] at hrun
    have hwrites : secretWrites rt fernet k (request :: requests) =
        (secretWrite rt k request ((secretService rt fernet).step k request).2).toList ++
          secretWrites rt fernet ((secretService rt fernet).next k request) requests := by
      rw [secretWrites, System.trace, List.filterMap_cons]
      cases secretWrite rt k request ((secretService rt fernet).step k request).2 <;> rfl
    rw [hwrites, System.run_cons]
    exact hrun

/-- A connector gets of a name the newest value that the name was given in the workspace, whatever was
created, rotated and tested there and elsewhere; the version of a reference counts its values. -/
theorem secret_newest (hf : fernet.Sound) (hk : k.references = []) (requests : List SecretRequest)
    (around : Surroundings) (workspaceId : Id) (name : String) :
    let references := ((secretService rt fernet).run k requests).references
    let given := writesOf (secretWrites rt fernet k requests) workspaceId name
    SecretResolver.resolve rt fernet around references workspaceId ("secret:" ++ name) =
        (match given.getLast? with
        | some w => w.entry.value rt fernet around
        | none => .error (.python "KeyError")) ∧
      ∀ row ∈ references, row.workspaceId = workspaceId → row.name = name → row.version = given.length := by
  intro references given
  have hstart : k.Sound rt fernet [] := by
    constructor <;> simp [hk, Table.Keyed]
  have hsound := keyring_run hstart requests
  rw [List.nil_append] at hsound
  refine ⟨?_, fun row hrow hwid hname => ?_⟩
  · have hresolve : SecretResolver.resolve rt fernet around references workspaceId ("secret:" ++ name) =
        (match references.find? fun row => row.workspaceId = workspaceId && row.name = name with
        | none => .error (.python "KeyError")
        | some row => SecretResolver.resolveRow rt fernet around row) := resolve_secret ..
    rw [hresolve]
    cases hfound : references.find? fun row => row.workspaceId = workspaceId && row.name = name with
    | none =>
      have hgiven : given = [] := by
        refine List.filter_eq_nil_iff.mpr fun w hw hmatch => ?_
        obtain ⟨row, hrow, hwid, hname⟩ := hsound.known w hw
        have hmiss := List.find?_eq_none.mp hfound row hrow
        rw [hwid, hname] at hmiss
        exact hmiss hmatch
      rw [hgiven]
      rfl
    | some row =>
      have hkeys := List.find?_some hfound
      simp only [Bool.and_eq_true, decide_eq_true_eq] at hkeys
      obtain ⟨w, hw, hholds⟩ := hsound.newest row (List.mem_of_find?_eq_some hfound)
      rw [hkeys.1, hkeys.2] at hw
      rw [show given.getLast? = some w from hw]
      exact hholds.resolveRow hf
  · rw [hsound.versions row hrow, hwid, hname]

namespace Supplier

/-- The value that came with the rotation is the one that connectors get. -/
theorem secret_newest_rotated : SecretResolver.resolve .plain readableFernet (machine "key")
    ((secretService .plain readableFernet).run ⟨Store.empty workspace, []⟩
      (secretLife "hunter" "rabbit" (by decide) (by decide))).references "w1" ("secret:" ++ "erp") =
    .ok "rabbit" := by
  obtain ⟨hvalue, -⟩ := secret_newest readableFernet_sound (k := ⟨Store.empty workspace, []⟩) rfl
    (secretLife "hunter" "rabbit" (by decide) (by decide)) (machine "key") "w1" "erp"
  rw [hvalue]
  decide +kernel

end Supplier

end Recordlane
