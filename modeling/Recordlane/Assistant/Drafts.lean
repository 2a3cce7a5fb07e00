import Recordlane.Assistant.Service
import Recordlane.Documents

/-! A draft of rules and the part of the policy that its author may not read. -/
namespace Recordlane

variable {rt : Runtime} {self : MasteringService} {s t : Store} {who : Principal} {aiEnabled : Bool}
  {sourceStatus : Source → String} {payload : AssistantRequest} {output : AssistantOutput}
  {configId : Id} {domain : Domain} {readable : List String} {document policy v : Json}
  {d visible : Dict} {k reference : String} {evidence : List Json}

/-! The parts of a policy. -/

def Json.entries : Json → Dict
  | .obj kvs => kvs
  | _ => []

def Json.rows (document : Json) (name : String) : List Dict :=
  CompiledPolicy.maps (Dict.get document.entries name)

def Json.matchingRows (document : Json) (name : String) : List Dict :=
  (Dict.get document.entries "matching").rows name

def Json.rules (document : Json) : Dict := (Dict.get document.entries "survivorship").entries

/-- The attributes that a definition declares, by their keys. -/
def attributeKeys (definition : Json) : List String :=
  (definition.rows "attributes").filterMap fun item =>
    match Dict.get item "key" with
    | .str key => some key
    | _ => none

/-- Those of them that the principal may not read. -/
def hiddenFrom (who : Principal) (definition : Json) : List String :=
  (attributeKeys definition).filter fun key => !(readableAttributes definition who).contains key

/-- A blocking strategy uses an attribute, as one of its fields or for its prefix. -/
def BlocksOn (strategy : Dict) (key : String) : Prop :=
  (∃ fields, Dict.get strategy "fields" = .arr fields ∧ .str key ∈ fields) ∨
    Dict.get (Dict.get strategy "prefix").entries "field" = .str key

/-- What a definition has about the attributes with some keys is in the draft too. -/
structure KeepsAbout (keys : List String) (definition draft : Json) : Prop where
  attributes : ∀ row ∈ definition.rows "attributes", ∀ key ∈ keys, Dict.get row "key" = .str key →
    row ∈ draft.rows "attributes"
  identifiers : ∀ row ∈ definition.rows "identifiers", (Dict.get row "hard_conflict").truthy = true →
    ∀ key ∈ keys, Dict.get row "field" = .str key → row ∈ draft.rows "identifiers"
  comparisons : ∀ row ∈ definition.matchingRows "comparisons", ∀ key ∈ keys,
    Dict.get row "field" = .str key → row ∈ draft.matchingRows "comparisons"
  blocking : ∀ row ∈ definition.matchingRows "blocking", ∀ key ∈ keys, BlocksOn row key →
    row ∈ draft.matchingRows "blocking"
  survivorship : ∀ key ∈ keys, ∀ rule, definition.rules.get? key = some rule →
    draft.rules.get? key = some rule

/-- The policy of a domain in a configuration document. -/
def draftedPolicy (document : Json) (domainKey : String) : Json :=
  Dict.get (Dict.get document.entries "domains").entries domainKey

theorem mem_attributeKeys : k ∈ attributeKeys v ↔
    ∃ row ∈ v.rows "attributes", Dict.get row "key" = .str k := by
  unfold attributeKeys
  rw [List.mem_filterMap]
  refine exists_congr fun row => and_congr_right fun _ => ?_
  cases Dict.get row "key" <;> simp

/-! Redaction. -/

theorem get_redactEntries (h : sensitive k = false) :
    Dict.get (redactEntries d) k = redact (Dict.get d k) := by
  induction d with
  | nil => rfl
  | cons p d ih =>
    obtain ⟨key, item⟩ := p
    by_cases hkey : key = k
    · subst hkey
      rw [redactEntries, if_neg (by simp [h])]
      simp [Dict.get, Dict.get?]
    · have hskip : ∀ (w : Json) (rest : Dict), Dict.get ((key, w) :: rest) k = Dict.get rest k := by
        intro w rest
        simp [Dict.get, Dict.get?, hkey]
      rw [hskip, ← ih, redactEntries]
      split
      · rfl
      · rw [hskip]

theorem redactItems_eq_map (xs : List Json) : redactItems xs = xs.map redact := by
  induction xs with
  | nil => rfl
  | cons x xs ih => rw [redactItems, ih, List.map_cons]

theorem redact_entries (v : Json) : (redact v).entries = redactEntries v.entries := by
  cases v <;> rfl

theorem mem_rows_redact {row : Dict} (h : sensitive k = false) (hrow : row ∈ (redact v).rows k) :
    ∃ row' ∈ v.rows k, row = redactEntries row' := by
  unfold Json.rows at hrow ⊢
  rw [redact_entries, get_redactEntries h] at hrow
  generalize Dict.get v.entries k = rows at hrow ⊢
  cases rows with
  | arr xs =>
    rw [redact, redactItems_eq_map, CompiledPolicy.maps, List.mem_filterMap] at hrow
    obtain ⟨item, hitem, hrow⟩ := hrow
    obtain ⟨x, hx, rfl⟩ := List.mem_map.mp hitem
    cases x with
    | obj row' =>
      cases hrow
      exact ⟨row', List.mem_filterMap.mpr ⟨_, hx, rfl⟩, rfl⟩
    | _ => cases hrow
  | _ => cases hrow

/-! The evidence. -/

theorem inReadable_true (h : inReadable readable v = .ok true) : ∃ key ∈ readable, v = .str key := by
  cases v with
  | str key => exact ⟨key, by simpa [inReadable] using h, rfl⟩
  | _ => cases h

theorem readableRows_ok {key : String} {rows found : Json} (h : readableRows readable key rows = .ok found) :
    ∀ row ∈ CompiledPolicy.maps found, ∃ name ∈ readable, Dict.get row key = .str name := by
  unfold readableRows at h
  simp only [Except.bind_eq_ok, Except.pure_eq_ok] at h
  obtain ⟨items, -, kept, hkept, rfl⟩ := h
  intro row hrow
  obtain ⟨item, hitem, hrow⟩ := List.mem_filterMap.mp hrow
  obtain ⟨kept', hmem, rfl⟩ := List.mem_filterMap.mp hitem
  obtain ⟨x, -, hx⟩ := (Except.mapM_mem hkept).1 _ hmem
  simp only [Except.bind_eq_ok, Except.pure_eq_ok] at hx
  obtain ⟨row', -, readable', hreadable, hx⟩ := hx
  cases readable' with
  | true =>
    cases hx
    cases hrow
    exact inReadable_true hreadable
  | false => cases hx

theorem readablePolicy_attributes (h : readablePolicy readable v = .ok visible) :
    ∀ row ∈ (Json.obj visible).rows "attributes", ∃ key ∈ readable, Dict.get row "key" = .str key := by
  unfold readablePolicy at h
  simp only [Except.bind_eq_ok, Except.pure_eq_ok] at h
  obtain ⟨policy, -, attributes, hattributes, identifiers, -, _, -, matching, -, validation, -, rules, -,
    rfl⟩ := h
  have hget : Dict.get (((((Dict.set policy "attributes" attributes).set "identifiers" identifiers).set
      "matching" (.obj matching)).set "validation" validation).set "survivorship"
        (.obj (rules.filter fun p => p.1 = "default" || readable.contains p.1))) "attributes" =
      attributes := by
    rw [Dict.get, Dict.get?_set_of_ne (by decide), Dict.get?_set_of_ne (by decide),
      Dict.get?_set_of_ne (by decide), Dict.get?_set_of_ne (by decide), Dict.get?_set]
    rfl
  unfold Json.rows Json.entries
  rw [hget]
  exact readableRows_ok hattributes

theorem evidenceOf_policy {item : Json}
    (h : self.evidenceOf s sourceStatus domain readable reference = .ok item) :
    Dict.get item.entries "policy" = .null ∨
      ∃ visible, readablePolicy readable domain.definition = .ok visible ∧
        item = .obj [("reference", .str reference), ("policy", .obj visible)] := by
  unfold MasteringService.evidenceOf at h
  split at h
  split at h
  · cases h
  · split at h
    · rw [Except.bind_eq_ok] at h
      obtain ⟨visible, hvisible, h⟩ := h
      exact .inr ⟨visible, hvisible, (Except.pure_eq_ok.mp h).symm⟩
    · left
      split at h
      · cases h
        rfl
      · split at h
        · unfold MasteringService.entityEvidence at h
          split at h <;> cases h
          rfl
        · split at h
          · unfold MasteringService.reviewEvidence at h
            split at h
            · cases h
            · split at h <;> cases h
              rfl
          · split at h
            · unfold MasteringService.sourceEvidence at h
              split at h <;> cases h
              rfl
            · cases h

theorem firstPolicy_mem (h : firstPolicy evidence = some policy) :
    ∃ item ∈ evidence, Dict.get item.entries "policy" = policy ∧ policy ≠ .null := by
  obtain ⟨item, hitem, hpolicy⟩ := List.exists_of_findSome?_eq_some h
  refine ⟨item, hitem, ?_⟩
  split at hpolicy
  · split at hpolicy
    · next hget =>
      cases hpolicy
      exact ⟨hget, by simp⟩
    · cases hpolicy
  · cases hpolicy

/-- The policy that the local provider finds is the readable part of the definition, redacted. -/
theorem firstPolicy_evidenceFor (hd : self.domain? s payload.domain = some domain)
    (he : self.evidenceFor s sourceStatus payload = .ok evidence)
    (h : firstPolicy (redactItems evidence) = some policy) :
    ∃ visible, readablePolicy (self.readableFields s domain.key) domain.definition = .ok visible ∧
      policy = redact (.obj visible) := by
  unfold MasteringService.evidenceFor at he
  rw [hd] at he
  obtain ⟨item, hitem, hget, hnull⟩ := firstPolicy_mem h
  rw [redactItems_eq_map] at hitem
  obtain ⟨found, hfound, rfl⟩ := List.mem_map.mp hitem
  rw [redact_entries, get_redactEntries (by decide)] at hget
  obtain ⟨reference, -, hreference⟩ := (Except.mapM_mem he).1 _ hfound
  rcases evidenceOf_policy hreference with hnone | ⟨visible, hvisible, rfl⟩
  · rw [hnone] at hget
    exact absurd hget.symm hnull
  · exact ⟨visible, hvisible, hget.symm⟩

/-! The draft. -/

theorem generate_draftRule {request : ProviderRequest} (hpurpose : request.purpose = .draftRule)
    (h : LocalProvider.generate rt request = .ok output) (hdraft : output.draft = some document) :
    ∃ policy, firstPolicy (redactItems request.evidence) = some policy ∧
      document = .obj [("domains", .obj [(request.domain, policy)])] := by
  simp only [LocalProvider.generate, hpurpose] at h
  split at h
  · cases h
    cases hdraft
  · next policy hpolicy =>
    cases h
    exact ⟨policy, hpolicy, (Option.some.inj hdraft).symm⟩

/-- A configuration is stored for a draft of rules alone, and it has the draft as its document. -/
theorem assistantDraft_stored {purpose : Purpose} {given : Option Json}
    (h : self.assistantDraft s purpose.name given = .ok (t, some configId)) :
    purpose = .draftRule ∧ ∃ config, given = some config.document ∧ config.id = configId ∧
      t.configurations = s.configurations ++ [config] := by
  unfold MasteringService.assistantDraft at h
  split at h
  · next document =>
    split at h
    · next hrule =>
      have hpurpose : purpose = .draftRule := by
        rw [Bool.and_eq_true, decide_eq_true_eq] at hrule
        cases purpose with
        | draftRule => rfl
        | _ => exact absurd hrule.1 (by decide)
      refine ⟨hpurpose, ?_⟩
      split at h
      · next config hconfig =>
        simp only [pure_bind, Except.pure_eq_ok, Prod.mk.injEq, Option.some.injEq] at h
        obtain ⟨rfl, rfl⟩ := h
        unfold MasteringService.createConfig at hconfig
        split at hconfig
        · cases hconfig
        · simp only [Except.bind_eq_ok, Except.pure_eq_ok, Prod.mk.injEq] at hconfig
          obtain ⟨_, -, rfl, rfl⟩ := hconfig
          exact ⟨_, rfl, rfl, rfl⟩
      · cases h
      · cases h
    · cases h
  · cases h

/-- Where a configuration is stored, it is the readable part of the definition, redacted. -/
theorem requestDraft_stored
    (h : requestDraft rt s who aiEnabled sourceStatus payload = .ok (t, .ok (output, some configId)))
    (hself : authorized rt s who "model:write" = .ok self)
    (hd : self.domain? s payload.domain = some domain) :
    ∃ config visible, t.configurations = s.configurations ++ [config] ∧ config.id = configId ∧
      readablePolicy (self.readableFields s domain.key) domain.definition = .ok visible ∧
      draftedPolicy config.document payload.domain = redact (.obj visible) := by
  unfold requestDraft at h
  simp only [Except.bind_eq_ok] at h
  obtain ⟨self', hself', evidence, hevidence, h⟩ := h
  split at h
  · next output' houtput =>
    simp only [Except.bind_eq_ok, Except.pure_eq_ok, Prod.exists, Prod.mk.injEq, Except.ok.injEq] at h
    obtain ⟨u, drawn, hdraft, rfl, rfl, rfl⟩ := h
    obtain ⟨hrule, config, hgiven, hid, hstored⟩ := assistantDraft_stored hdraft
    rw [if_pos hrule, hself] at hself'
    cases hself'
    unfold GovernedAssistant.generate at houtput
    split at houtput
    · cases houtput
    · obtain ⟨policy, hpolicy, hdocument⟩ := generate_draftRule hrule houtput hgiven
      obtain ⟨visible, hvisible, rfl⟩ := firstPolicy_evidenceFor hd hevidence hpolicy
      refine ⟨config, visible, hstored, hid, hvisible, ?_⟩
      rw [hdocument]
      simp [draftedPolicy, Json.entries, Dict.get, Dict.get?]
  · split at h
    · cases h
    · split at h <;> cases h
  · cases h

/-- A stored draft keeps what the policy has about the attributes that its author may not read, if and
only if there is no such attribute. -/
theorem draft_keeps_hidden_iff
    (h : requestDraft rt s who aiEnabled sourceStatus payload = .ok (t, .ok (output, some configId)))
    (hself : authorized rt s who "model:write" = .ok self)
    (hd : self.domain? s payload.domain = some domain) :
    ∃ config, t.configurations = s.configurations ++ [config] ∧ config.id = configId ∧
      (KeepsAbout (hiddenFrom self.principal domain.definition) domain.definition
          (draftedPolicy config.document payload.domain) ↔
        ∀ key ∈ attributeKeys domain.definition,
          key ∈ readableAttributes domain.definition self.principal) := by
  obtain ⟨config, visible, hstored, hid, hvisible, hdrafted⟩ := requestDraft_stored h hself hd
  refine ⟨config, hstored, hid, ?_⟩
  rw [hdrafted]
  have hkey : domain.key = payload.domain := by
    have hfound := List.find?_some hd
    rw [Bool.and_eq_true, decide_eq_true_eq, decide_eq_true_eq] at hfound
    exact hfound.2
  have hreadable : self.readableFields s domain.key =
      readableAttributes domain.definition self.principal := by
    unfold MasteringService.readableFields
    rw [hkey, hd]
  rw [hreadable] at hvisible
  constructor
  · intro hkeeps key hdeclared
    by_contra hunread
    have hhidden : key ∈ hiddenFrom self.principal domain.definition := by
      simp only [hiddenFrom, List.mem_filter, hdeclared, true_and, Bool.not_eq_true']
      simpa using hunread
    obtain ⟨row, hrow, hname⟩ := mem_attributeKeys.mp hdeclared
    obtain ⟨row', hrow', rfl⟩ := mem_rows_redact (by decide) (hkeeps.attributes row hrow key hhidden hname)
    obtain ⟨key', hread, hname'⟩ := readablePolicy_attributes hvisible row' hrow'
    rw [get_redactEntries (by decide), hname'] at hname
    cases hname
    exact hunread hread
  · intro hall
    have hnone : hiddenFrom self.principal domain.definition = [] := by
      unfold hiddenFrom
      rw [List.filter_eq_nil_iff]
      intro key hdeclared
      simpa using hall key hdeclared
    rw [hnone]
    constructor <;> simp

namespace Supplier

/-- The definition under which stewards alone read the tax number. -/
def sealedDefinition : Dict := definition.set "attributes" (.arr [.obj [("key", .str "name")],
  .obj [("key", .str "city")], .obj [("key", .str "tax_id"), ("read_roles", .arr [.str "steward"])]])

def sealedStore : Store := (service .plain).run (Store.empty workspace)
  [.createDomain (steward "alice") "supplier" "Supplier" "coexistence" sealedDefinition]

def author : Principal := ⟨"carol", "idp", "w1", ["modeler"], none⟩

def draftRequest : AssistantRequest where
  purpose := .draftRule
  domain := "supplier"
  objective := "tighten the thresholds"
  evidenceRefs := []
  objective_bounds := by decide
  evidenceRefs_bound := by decide

def requestedDraft : Py (Store × Py (AssistantOutput × Option Id)) :=
  requestDraft .plain sealedStore author true (fun _ => "healthy") draftRequest

/-- A modeler who may not read the tax number has a draft stored, without the identifier on it. -/
theorem requestedDraft_stored : ∃ (t : Store) (output : AssistantOutput) (configId : Id)
    (self : MasteringService) (domain : Domain), requestedDraft = .ok (t, .ok (output, some configId)) ∧
      authorized .plain sealedStore author "model:write" = .ok self ∧
      self.domain? sealedStore "supplier" = some domain ∧
      "tax_id" ∈ hiddenFrom self.principal domain.definition ∧
      (∃ row ∈ domain.definition.rows "identifiers", (Dict.get row "hard_conflict").truthy = true ∧
        Dict.get row "field" = .str "tax_id") ∧
      ∀ config ∈ t.configurations, (draftedPolicy config.document "supplier").rows "identifiers" = [] := by
  have hchecks : (requestedDraft.toOption.any fun answered =>
      (answered.2.toOption.any fun drafted => drafted.2.isSome) &&
      (answered.1.configurations.all fun config =>
        ((draftedPolicy config.document "supplier").rows "identifiers").isEmpty) &&
      (authorized .plain sealedStore author "model:write").toOption.any fun self =>
        (self.domain? sealedStore "supplier").any fun domain =>
          decide ("tax_id" ∈ hiddenFrom self.principal domain.definition) &&
            (domain.definition.rows "identifiers").any fun row =>
              (Dict.get row "hard_conflict").truthy && decide (Dict.get row "field" = .str "tax_id")) =
        true := by
    decide +kernel
  obtain ⟨⟨t, answer⟩, hdraft, hchecks⟩ := Except.of_any hchecks
  simp only [Bool.and_eq_true, List.all_eq_true, List.isEmpty_iff] at hchecks
  obtain ⟨⟨hanswer, hnone⟩, hchecks⟩ := hchecks
  obtain ⟨⟨output, stored⟩, rfl, hstored⟩ := Except.of_any hanswer
  obtain ⟨configId, rfl⟩ := Option.isSome_iff_exists.mp hstored
  obtain ⟨self, hself, hchecks⟩ := Except.of_any hchecks
  obtain ⟨domain, hdomain, hchecks⟩ := (Option.any_eq_true ..).mp hchecks
  simp only [Bool.and_eq_true, decide_eq_true_eq, List.any_eq_true] at hchecks
  exact ⟨t, output, configId, self, domain, hdraft, hself, hdomain, hchecks.1, hchecks.2, hnone⟩

/-- The draft of a modeler who may not read the tax number loses something about it. -/
theorem draft_keeps_hidden_sealed : ∃ (t : Store) (output : AssistantOutput) (configId : Id)
    (self : MasteringService) (domain : Domain) (config : ConfigurationVersion),
    requestDraft .plain sealedStore author true (fun _ => "healthy") draftRequest =
        .ok (t, .ok (output, some configId)) ∧ config ∈ t.configurations ∧
      (KeepsAbout (hiddenFrom self.principal domain.definition) domain.definition
          (draftedPolicy config.document "supplier") ↔
        ∀ key ∈ attributeKeys domain.definition,
          key ∈ readableAttributes domain.definition self.principal) := by
  obtain ⟨t, output, configId, self, domain, hdraft, hself, hdomain, -⟩ := requestedDraft_stored
  obtain ⟨config, hstored, -, hkeeps⟩ := draft_keeps_hidden_iff hdraft hself hdomain
  refine ⟨t, output, configId, self, domain, config, hdraft, ?_, hkeeps⟩
  rw [hstored]
  exact List.mem_append_right _ (List.mem_singleton_self _)

/-- The hard identifier on the tax number is not in the draft. -/
theorem draft_drops_identifier : ¬ ∀ s, Reachable .plain workspace s →
    ∀ (who : Principal) (payload : AssistantRequest) (t : Store) (output : AssistantOutput)
      (configId : Id) (self : MasteringService) (domain : Domain),
      requestDraft .plain s who true (fun _ => "healthy") payload = .ok (t, .ok (output, some configId)) →
      authorized .plain s who "model:write" = .ok self → self.domain? s payload.domain = some domain →
      ∀ config ∈ t.configurations, config.id = configId →
        KeepsAbout (hiddenFrom self.principal domain.definition) domain.definition
          (draftedPolicy config.document payload.domain) := by
  intro hall
  obtain ⟨t, output, configId, self, domain, hdraft, hself, hdomain, hhidden, ⟨row, hrow, hhard, hfield⟩,
    hnone⟩ := requestedDraft_stored
  obtain ⟨config, _, hstored, hid, -⟩ := requestDraft_stored hdraft hself hdomain
  have hconfig : config ∈ t.configurations := by
    rw [hstored]
    exact List.mem_append_right _ (List.mem_singleton_self _)
  have hkeeps := hall sealedStore ⟨_, rfl⟩ author draftRequest t output configId self domain hdraft
    hself hdomain config hconfig hid
  have hkept := hkeeps.identifiers row hrow hhard "tax_id" hhidden hfield
  rw [show draftRequest.domain = "supplier" from rfl, hnone config hconfig] at hkept
  exact absurd hkept List.not_mem_nil

end Supplier

end Recordlane
