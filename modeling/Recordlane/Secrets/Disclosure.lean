import Recordlane.Library.Agreement
import Recordlane.Secrets.References
import Recordlane.Supplier

/-! What the routes of secrets tell: nothing about the values. Two runs that differ in the values alone
cannot be told apart. -/
namespace Recordlane

/-- What `Fernet` is documented to do: a token is no empty text, its key opens it and no other one does. -/
structure Fernet.Sound (fernet : Fernet) : Prop where
  nonempty : ∀ key n text, fernet.encrypt key n text ≠ ""
  opens : ∀ key n text, fernet.decrypt key (fernet.encrypt key n text) = some text
  rejects : ∀ key key' n text, key ≠ key' → fernet.decrypt key' (fernet.encrypt key n text) = none

/-- Tokens that are the same, or of two values under one key and one draw. -/
def AlikeTokens (fernet : Fernet) (token token' : Option String) : Prop :=
  token' = token ∨ ∃ key n value value', value ≠ "" ∧ value' ≠ "" ∧
    token = some (fernet.encrypt key n value) ∧ token' = some (fernet.encrypt key n value')

/-- Two rows that differ in their values alone. -/
structure SecretReference.Alike (fernet : Fernet) (row row' : SecretReference) : Prop where
  same : row' = { row with encryptedValue := row'.encryptedValue }
  values : AlikeTokens fernet row.encryptedValue row'.encryptedValue

structure Keyring.Alike (fernet : Fernet) (k k' : Keyring) : Prop where
  store : k'.store = k.store
  references : List.Forall₂ (SecretReference.Alike fernet) k.references k'.references

structure SecretCreate.Alike (payload payload' : SecretCreate) : Prop where
  name : payload'.name = payload.name
  provider : payload'.provider = payload.provider
  locator : payload'.locator = payload.locator
  value : payload'.value.isSome = payload.value.isSome

/-- Two requests that differ in the values that they bring. -/
inductive SecretRequest.Alike : SecretRequest → SecretRequest → Prop
  | same (request : SecretRequest) : Alike request request
  | create {who : Principal} {payload payload' : SecretCreate} {around : Surroundings}
      (h : payload.Alike payload') : Alike (.create who payload around) (.create who payload' around)
  | rotate {who : Principal} {secretId : Id} {payload payload' : SecretRotate} {around : Surroundings} :
      Alike (.rotate who secretId payload around) (.rotate who secretId payload' around)

variable {rt : Runtime} {fernet : Fernet} {k k' : Keyring} {row row' : SecretReference} {who : Principal}
  {around : Surroundings} {secretId : Id}

theorem value_ne_empty {text : String} (h : 1 ≤ text.length) : text ≠ "" := by
  rintro rfl
  exact absurd h (by decide)

namespace SecretReference.Alike

theorem refl (row : SecretReference) : row.Alike fernet row := ⟨rfl, .inl rfl⟩

theorem id (h : row.Alike fernet row') : row'.id = row.id := by rw [h.same]

theorem workspaceId (h : row.Alike fernet row') : row'.workspaceId = row.workspaceId := by rw [h.same]

theorem name (h : row.Alike fernet row') : row'.name = row.name := by rw [h.same]

theorem provider (h : row.Alike fernet row') : row'.provider = row.provider := by rw [h.same]

theorem version (h : row.Alike fernet row') : row'.version = row.version := by rw [h.same]

theorem view (hf : fernet.Sound) (h : row.Alike fernet row') : row.view = row'.view := by
  have hpresent : decide (row'.encryptedValue.getD "" ≠ "") = decide (row.encryptedValue.getD "" ≠ "") := by
    rcases h.values with heq | ⟨key, n, value, value', -, -, hv, hv'⟩
    · rw [heq]
    · simp [hv, hv', hf.nonempty]
  rw [SecretReference.view, SecretReference.view, hpresent, h.same]

end SecretReference.Alike

/-- Values of which only one thing is told: whether they are empty. -/
def SameKind (value value' : String) : Prop := decide (value ≠ "") = decide (value' ≠ "")

theorem resolveRow_sealed (hf : fernet.Sound) {key : List UInt8} {value : String} {n : Nat}
    (hp : row.provider = .encryptedLocal) (hv : row.encryptedValue = some (fernet.encrypt key n value)) :
    SecretResolver.resolveRow rt fernet around row = (SecretResolver.masterKey rt fernet around).bind
      fun key' => if key = key' then .ok value
        else .error (.runtime "secret cannot be decrypted with the configured key") := by
  unfold SecretResolver.resolveRow
  rw [hp, hv]
  dsimp only
  split
  · next hnone => cases hnone
  · next hempty => exact (hf.nonempty key n value (Option.some.inj hempty)).elim
  · next token _ htoken =>
    obtain rfl := Option.some.inj htoken
    refine congrArg _ (funext fun key' => ?_)
    by_cases hkey : key = key'
    · subst hkey
      rw [if_pos rfl, hf.opens]
      rfl
    · rw [if_neg hkey, hf.rejects key key' n value hkey]
      rfl

theorem SameKind.refl (value : String) : SameKind value value := rfl

theorem resolveRow_agrees (hf : fernet.Sound) (h : row.Alike fernet row') : Except.Agree SameKind
    (SecretResolver.resolveRow rt fernet around row) (SecretResolver.resolveRow rt fernet around row') := by
  rcases h.values with heq | ⟨key, n, value, value', hne, hne', hv, hv'⟩
  · have hsame : row' = row := by rw [h.same, heq]
    rw [hsame]
    exact .refl SameKind.refl _
  · cases hp : row.provider with
    | encryptedLocal =>
      rw [resolveRow_sealed hf hp hv, resolveRow_sealed hf (h.provider.trans hp) hv']
      refine (Except.Agree.refl (fun _ => rfl) _).bind (R := Eq) fun key' _ heq => ?_
      subst heq
      split
      · exact .ok (by simp [SameKind, hne, hne'])
      · exact .error _
    | vaultKv2 =>
      have hlocator : row'.locator = row.locator := by rw [h.same]
      rw [SecretResolver.resolveRow, SecretResolver.resolveRow, h.provider, hp, hlocator]
      exact .refl SameKind.refl _

theorem resolve_agrees (rt : Runtime) (around : Surroundings) (hf : fernet.Sound)
    {references references' : List SecretReference}
    (h : List.Forall₂ (SecretReference.Alike fernet) references references') (workspaceId : Id)
    (reference : String) : Except.Agree SameKind
      (SecretResolver.resolve rt fernet around references workspaceId reference)
      (SecretResolver.resolve rt fernet around references' workspaceId reference) := by
  have hfound := h.find? (p := fun row => row.workspaceId = workspaceId &&
      row.name = removeStart reference "secret:") (q := fun row => row.workspaceId = workspaceId &&
      row.name = removeStart reference "secret:") fun a b hab => by rw [hab.workspaceId, hab.name]
  unfold SecretResolver.resolve
  split
  · exact .refl SameKind.refl _
  · split
    · exact .refl SameKind.refl _
    · split
      · exact .refl SameKind.refl _
      · revert hfound
        generalize references.find? _ = found
        generalize references'.find? _ = found'
        intro hfound
        cases hfound with
        | none => exact .error _
        | some hab => exact resolveRow_agrees hf hab

theorem reference?_agrees (h : k.Alike fernet k') (workspaceId : Id) :
    Except.Agree (SecretReference.Alike fernet) (k.reference? workspaceId secretId)
      (k'.reference? workspaceId secretId) := by
  have hfound := h.references.find? (p := fun row => row.id = secretId && row.workspaceId = workspaceId)
    (q := fun row => row.id = secretId && row.workspaceId = workspaceId) fun a b hab => by
      rw [hab.workspaceId, hab.id]
  unfold Keyring.reference?
  revert hfound
  generalize k.references.find? _ = found
  generalize k'.references.find? _ = found'
  intro hfound
  cases hfound with
  | none => exact .error _
  | some hab => exact .ok hab

theorem encrypt_agrees (rt : Runtime) (fernet : Fernet) (around : Surroundings) {value value' : String}
    (hne : value ≠ "") (hne' : value' ≠ "") (n : Nat) :
    Except.Agree (fun token token' => AlikeTokens fernet (some token) (some token'))
      (SecretResolver.encrypt rt fernet around n value)
      (SecretResolver.encrypt rt fernet around n value') := by
  refine (Except.Agree.refl (fun _ => rfl) _).bind (R := Eq) fun key _ heq => ?_
  subst heq
  exact .ok (.inr ⟨key, n, value, value', hne, hne', rfl, rfl⟩)

theorem answered503_agrees {α β : Type} {R : α → β → Prop} {x : Py α} {y : Py β} (h : Except.Agree R x y)
    (classes : List String) (code : String) :
    Except.Agree R (answered503 classes code x) (answered503 classes code y) := by
  cases h with
  | ok h => exact .ok h
  | error e =>
    rw [answered503, answered503]
    split <;> exact .error _

theorem sealValue_agrees {payload payload' : SecretCreate} (h : payload.Alike payload') (n : Nat) :
    Except.Agree (fun a b => AlikeTokens fernet a.1 b.1 ∧ b.2 = a.2) (sealValue rt fernet n payload around)
      (sealValue rt fernet n payload' around) := by
  have hvalue := h.value
  have hlengths := payload.value_length
  have hlengths' := payload'.value_length
  unfold sealValue
  rw [h.provider, h.locator]
  cases payload.provider with
  | vaultKv2 =>
    rw [hvalue]
    exact .refl (fun _ => ⟨.inl rfl, rfl⟩) _
  | encryptedLocal =>
    cases hv : payload.value with
    | none =>
      rw [hv] at hvalue
      rw [Option.isSome_eq_false_iff.mp hvalue |> Option.isNone_iff_eq_none.mp]
      exact .error _
    | some value =>
      rw [hv] at hvalue hlengths
      obtain ⟨value', hv'⟩ := Option.isSome_iff_exists.mp hvalue
      rw [hv'] at hlengths' ⊢
      have hne := value_ne_empty (hlengths value rfl).1
      have hne' := value_ne_empty (hlengths' value' rfl).1
      dsimp only
      rw [if_neg hne, if_neg hne']
      exact (answered503_agrees (encrypt_agrees rt fernet around hne hne' n) _ _).map
        fun _ _ hab => ⟨hab, rfl⟩

theorem create_agrees (hf : fernet.Sound) (h : k.Alike fernet k') {payload payload' : SecretCreate}
    (hp : payload.Alike payload') : Except.Agree (fun a b => a.1.Alike fernet b.1 ∧ a.2 = b.2)
      (createSecretReference rt fernet k who payload around)
      (createSecretReference rt fernet k' who payload' around) := by
  unfold createSecretReference
  rw [h.store]
  refine (Except.Agree.refl (fun _ => rfl) _).bind (R := Eq) fun self _ heq => ?_
  subst heq
  have hany : (k'.references.any fun row => row.workspaceId = self.wid && row.name = payload'.name) =
      k.references.any fun row => row.workspaceId = self.wid && row.name = payload.name :=
    (h.references.any fun a b hab => by rw [hab.workspaceId, hab.name, hp.name]).symm
  rw [hany]
  split
  · exact .error _
  · split
    · exact .error _
    · refine (sealValue_agrees hp _).bind fun a b hab => .ok ?_
      obtain ⟨htokens, hlocator⟩ := hab
      have hrow : SecretReference.Alike fernet
          { id := self.fresh k.store
            workspaceId := self.wid
            name := payload.name
            provider := payload.provider
            locator := a.2
            encryptedValue := a.1
            version := 1
            createdBy := who.subject
            createdAt := self.now k.store
            updatedAt := self.now k.store }
          { id := self.fresh k.store
            workspaceId := self.wid
            name := payload'.name
            provider := payload'.provider
            locator := b.2
            encryptedValue := b.1
            version := 1
            createdBy := who.subject
            createdAt := self.now k.store
            updatedAt := self.now k.store } := by
        refine ⟨?_, htokens⟩
        rw [hp.name, hp.provider, hlocator]
      refine ⟨⟨?_, ?_⟩, hrow.view hf⟩
      · rw [hp.name, hp.provider]
      · exact List.rel_append h.references (.cons hrow .nil)

theorem modify_alike {references references' : List SecretReference} {new new' : SecretReference}
    {id id' : Id}
    (h : List.Forall₂ (SecretReference.Alike fernet) references references') (hid : id' = id)
    (hnew : new.Alike fernet new') : List.Forall₂ (SecretReference.Alike fernet)
      (Table.modify SecretReference.id references id fun _ => new)
      (Table.modify SecretReference.id references' id' fun _ => new') := by
  unfold Table.modify
  rw [List.forall₂_map_left_iff, List.forall₂_map_right_iff]
  refine h.imp fun a b hab => ?_
  rw [hab.id, hid]
  split
  · exact hnew
  · exact hab

theorem rotate_agrees (hf : fernet.Sound) (h : k.Alike fernet k') {payload payload' : SecretRotate} :
    Except.Agree (fun a b => a.1.Alike fernet b.1 ∧ a.2 = b.2)
      (rotateSecretReference rt fernet k who secretId payload around)
      (rotateSecretReference rt fernet k' who secretId payload' around) := by
  unfold rotateSecretReference
  rw [h.store]
  refine (Except.Agree.refl (fun _ => rfl) _).bind (R := Eq) fun self _ heq => ?_
  subst heq
  split
  · exact .error _
  · refine (reference?_agrees h self.wid).bind fun row row' hrow => ?_
    dsimp only
    rw [hrow.provider]
    split
    · exact .error _
    · have hencrypt := answered503_agrees (encrypt_agrees rt fernet around
        (value_ne_empty payload.value_length.1) (value_ne_empty payload'.value_length.1) k.store.drawn)
        keyErrors "master_key_unavailable"
      refine hencrypt.bind fun token token' htokens => .ok ?_
      have hnew : SecretReference.Alike fernet
          { row with
            encryptedValue := some token
            version := row.version + 1
            updatedAt := self.now k.store }
          { row' with
            provider := row.provider
            encryptedValue := some token'
            version := row'.version + 1
            updatedAt := self.now k.store } := by
        refine ⟨?_, htokens⟩
        rw [hrow.same]
      refine ⟨⟨?_, ?_⟩, hnew.view hf⟩
      · rw [hrow.same]
      · exact modify_alike h.references hrow.id hnew

theorem test_agrees (hf : fernet.Sound) (h : k.Alike fernet k') :
    Except.Agree (fun a b => a.1.Alike fernet b.1 ∧ a.2 = b.2)
      (testSecretReference rt fernet k who secretId around)
      (testSecretReference rt fernet k' who secretId around) := by
  unfold testSecretReference
  rw [h.store]
  refine (Except.Agree.refl (fun _ => rfl) _).bind (R := Eq) fun self _ heq => ?_
  subst heq
  refine (reference?_agrees h self.wid).bind fun row row' hrow => ?_
  have hresolve := answered503_agrees (resolve_agrees rt around hf h.references self.wid
    ("secret:" ++ row.name)) (keyErrors ++ ["KeyError"]) "secret_unavailable"
  rw [hrow.name]
  refine hresolve.bind fun value value' hvalue => .ok ?_
  rw [hvalue, hrow.id, hrow.version]
  exact ⟨⟨rfl, h.references⟩, rfl⟩

theorem list_agrees (hf : fernet.Sound) (h : k.Alike fernet k') :
    listSecretReferences rt k who = listSecretReferences rt k' who := by
  have hrows : ∀ workspaceId : Id, ((k.references.filter fun row => row.workspaceId = workspaceId).map
      SecretReference.view) = (k'.references.filter fun row => row.workspaceId = workspaceId).map
      SecretReference.view := by
    intro workspaceId
    have hown : Relator.LiftFun (SecretReference.Alike fernet) (· ↔ ·)
        (fun row => decide (row.workspaceId = workspaceId) = true)
        (fun row => decide (row.workspaceId = workspaceId) = true) := fun a b hab => by
      simp only [hab.workspaceId]
    exact List.Forall₂.map_eq (List.rel_filter hown h.references) fun a b hab => hab.view hf
  -- the order is that of names, which the views have
  have hsort : ∀ rows : List SecretReference, ((rows.insertionSort fun a b => a.name ≤ b.name).map
      SecretReference.view) = (rows.map SecretReference.view).insertionSort fun a b => a.name ≤ b.name :=
    fun rows => List.map_insertionSort _ _ _ _ fun _ _ _ _ => Iff.rfl
  unfold listSecretReferences
  rw [h.store]
  simp only [hsort, hrows]

theorem serve_agrees (hf : fernet.Sound) (h : k.Alike fernet k') {request request' : SecretRequest}
    (hr : request.Alike request') : Except.Agree (fun a b => a.1.Alike fernet b.1 ∧ a.2 = b.2)
      (serveSecrets rt fernet k request) (serveSecrets rt fernet k' request') := by
  cases hr with
  | create hp => exact (create_agrees hf h hp).map fun _ _ hab => ⟨hab.1, congrArg SecretAnswer.view hab.2⟩
  | rotate => exact (rotate_agrees hf h).map fun _ _ hab => ⟨hab.1, congrArg SecretAnswer.view hab.2⟩
  | same request =>
    cases request with
    | list who =>
      rw [serveSecrets, serveSecrets, list_agrees hf h]
      exact (Except.Agree.refl (fun _ => rfl) _).map (R := Eq)
        fun _ _ heq => ⟨h, congrArg SecretAnswer.listed heq⟩
    | create who payload around =>
      exact (create_agrees hf h ⟨rfl, rfl, rfl, rfl⟩).map
        fun _ _ hab => ⟨hab.1, congrArg SecretAnswer.view hab.2⟩
    | rotate who secretId payload around =>
      exact (rotate_agrees hf h).map fun _ _ hab => ⟨hab.1, congrArg SecretAnswer.view hab.2⟩
    | test who secretId around => exact test_agrees hf h
    | elsewhere other =>
      refine .ok ⟨⟨?_, h.references⟩, rfl⟩
      rw [h.store]

theorem step_agrees (hf : fernet.Sound) (h : k.Alike fernet k') {request request' : SecretRequest}
    (hr : request.Alike request') :
    ((secretService rt fernet).next k request).Alike fernet ((secretService rt fernet).next k' request') ∧
      ((secretService rt fernet).step k request).2 = ((secretService rt fernet).step k' request').2 := by
  have hserve : Except.Agree _ (serveSecrets rt fernet k request) (serveSecrets rt fernet k' request') :=
    serve_agrees hf h hr
  unfold System.next secretService
  dsimp only
  generalize serveSecrets rt fernet k request = x at hserve
  generalize serveSecrets rt fernet k' request' = y at hserve
  cases hserve with
  | ok hab => exact ⟨hab.1, congrArg Except.ok hab.2⟩
  | error e => exact ⟨h, rfl⟩

/-- The routes of secrets disclose nothing: two runs that differ in the values that were given to them get
the same answers, and leave stores that differ in encrypted values alone. -/
theorem secrets_undisclosed (hf : fernet.Sound) (k : Keyring) {requests requests' : List SecretRequest}
    (h : List.Forall₂ SecretRequest.Alike requests requests') :
    (secretService rt fernet).outputs k requests = (secretService rt fernet).outputs k requests' ∧
      ((secretService rt fernet).run k requests).Alike fernet ((secretService rt fernet).run k requests') := by
  have hstart : k.Alike fernet k := ⟨rfl, List.forall₂_same.mpr fun row _ => .refl row⟩
  obtain ⟨hrun, houtputs⟩ := (secretService rt fernet).run_agrees (R := Keyring.Alike fernet)
    (A := SecretRequest.Alike) (fun _ _ _ _ hk hr => step_agrees hf hk hr) hstart h
  exact ⟨houtputs, hrun⟩

namespace Supplier

/-- The bytes of a key, each after a mark. -/
def marked (key : List UInt8) : List Char := key.flatMap fun b => ['k', Char.ofNat b.toNat]

/-- Tokens that can be read: the marked key, a stop and the text. -/
def readableFernet : Fernet where
  decode text := some (text.toList.map fun c => UInt8.ofNat c.toNat)
  encrypt key _ text := String.ofList (marked key ++ '.' :: text.toList)
  decrypt key token :=
    if (marked key ++ ['.']).isPrefixOf token.toList then
      some (String.ofList (token.toList.drop ((marked key).length + 1)))
    else none

theorem ofNat_byte {b c : UInt8} (h : Char.ofNat b.toNat = Char.ofNat c.toNat) : b = c := by
  have hvalid : ∀ x : UInt8, (Char.ofNat x.toNat).toNat = x.toNat := fun x => by
    have hx : x.toNat.isValidChar := .inl (by have := x.toNat_lt; omega)
    rw [Char.ofNat, dif_pos hx]
    rfl
  exact UInt8.toNat_inj.mp ((hvalid b).symm.trans ((congrArg Char.toNat h).trans (hvalid c)))

theorem marked_inj {key key' : List UInt8} {text : List Char}
    (h : marked key' ++ ['.'] <+: marked key ++ '.' :: text) : key' = key := by
  induction key' generalizing key with
  | nil =>
    cases key with
    | nil => rfl
    | cons c key => simp [marked] at h
  | cons c' key' ih =>
    cases key with
    | nil => simp [marked] at h
    | cons c key =>
      simp only [marked, List.flatMap_cons, List.cons_append, List.nil_append, List.cons_prefix_cons] at h
      rw [ih h.2.2, ofNat_byte h.2.1]

theorem readableFernet_sound : readableFernet.Sound where
  nonempty key n text h := by
    have hnil := congrArg String.toList h
    simp [readableFernet] at hnil
  opens key n text := by
    have hprefix : (marked key ++ ['.']).isPrefixOf (marked key ++ '.' :: text.toList) = true :=
      List.isPrefixOf_iff_prefix.mpr ⟨text.toList, by simp⟩
    have hdrop : (marked key ++ '.' :: text.toList).drop ((marked key).length + 1) = text.toList := by
      rw [List.append_cons, List.drop_left' (by simp)]
    simp only [readableFernet, String.toList_ofList, hprefix, if_true, hdrop, String.ofList_toList]
  rejects key key' n text hne := by
    have hprefix : ¬ (marked key' ++ ['.']).isPrefixOf (marked key ++ '.' :: text.toList) = true :=
      fun h => hne (marked_inj (List.isPrefixOf_iff_prefix.mp h)).symm
    simp only [readableFernet, String.toList_ofList, if_neg hprefix]

/-- A machine whose files all have the same text, and no Vault. -/
def machine (text : String) : Surroundings where
  settings := ⟨true, some "/run/recordlane/master.key", none, [], none, none, false⟩
  readText _ := .ok text
  resolvePath _ := .error (.python "OSError")
  secretRoot := ["run", "recordlane"]
  environ _ := none
  urlparse _ := .error (.python "ValueError")
  getaddrinfo _ _ := .error (.python "OSError")
  get _ _ := .error (.python "HTTPError")

/-- A secret is created with one value and rotated to another one. -/
def secretLife (first second : String) (hfirst : 1 ≤ first.length ∧ first.length ≤ 20000)
    (hsecond : 1 ≤ second.length ∧ second.length ≤ 20000) : List SecretRequest :=
  [.create (steward "root") ⟨"erp", .encryptedLocal, some first, none, fun _ h => Option.some.inj h ▸ hfirst⟩
      (machine "key"),
    .rotate (steward "root") (uid 0) ⟨second, hsecond⟩ (machine "key"),
    .test (steward "root") (uid 0) (machine "key"), .list (steward "root")]

theorem secrets_undisclosed_rotated :
    (secretService .plain readableFernet).outputs ⟨Store.empty workspace, []⟩
        (secretLife "hunter" "rabbit" (by decide) (by decide)) =
      (secretService .plain readableFernet).outputs ⟨Store.empty workspace, []⟩
        (secretLife "mallard" "teal" (by decide) (by decide)) := by
  have halike : List.Forall₂ SecretRequest.Alike
      (secretLife "hunter" "rabbit" (by decide) (by decide))
      (secretLife "mallard" "teal" (by decide) (by decide)) :=
    .cons (.create ⟨rfl, rfl, rfl, rfl⟩) (.cons .rotate (.cons (.same _) (.cons (.same _) .nil)))
  exact (secrets_undisclosed readableFernet_sound _ halike).1

end Supplier

end Recordlane
