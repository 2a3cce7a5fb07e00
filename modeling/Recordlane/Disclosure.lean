import Recordlane.CandidateIndex
import Recordlane.Views

/-! What the view of a source record tells of the fields that its reader may not read. -/
namespace Recordlane

variable {rt : Runtime} {w : Workspace} {self : MasteringService} {s : Store} {definition : Json}
  {who : Principal} {r r' : SourceRecord}

deriving instance DecidableEq for QualityError

/-- A row as an ingestion under the definition stores it. -/
def StoredBy (rt : Runtime) (definition : Json) (r : SourceRecord) : Prop :=
  ∃ (svc : MasteringService) (s : Store) (source : Source) (domainKey : String)
    (policy : CompiledPolicy) (o : SourceObject) (item : IncomingRecord) (e : Evaluation)
    (entityId : Option Id), svc.rt = rt ∧ compilePolicy rt definition = .ok policy ∧
      svc.evaluate s policy o item = .ok e ∧
      r = { svc.newRecord s source domainKey o item e with entityId := entityId }

/-- Two rows differ in fields outside the list, and in what an ingestion derives from them. -/
structure AgreeOn (readable : List String) (r r' : SourceRecord) : Prop where
  id : r.id = r'.id
  key : (r.workspaceId, r.sourceId, r.domainKey, r.localId, r.sourceVersion) =
    (r'.workspaceId, r'.sourceId, r'.domainKey, r'.localId, r'.sourceVersion)
  times : (r.observedAt, r.effectiveFrom) = (r'.observedAt, r'.effectiveFrom)
  entityId : r.entityId = r'.entityId
  original : filterMapping readable r.original = filterMapping readable r'.original
  normalized : filterMapping readable r.normalized = filterMapping readable r'.normalized
  verification : filterMapping readable r.verification = filterMapping readable r'.verification
  qualityErrors : (r.qualityErrors.filter fun e => readable.contains e.attributeKey) =
    r'.qualityErrors.filter fun e => readable.contains e.attributeKey
  state : r.state = r'.state ∨
    r.state ≠ .deleted ∧ r'.state ≠ .deleted ∧ (r.state = .quarantine ∨ r'.state = .quarantine)

instance {readable : List String} : Decidable (AgreeOn readable r r') :=
  decidable_of_iff (_ ∧ _ ∧ _ ∧ _ ∧ _ ∧ _ ∧ _ ∧ _ ∧ _)
    ⟨fun ⟨h₁, h₂, h₃, h₄, h₅, h₆, h₇, h₈, h₉⟩ => ⟨h₁, h₂, h₃, h₄, h₅, h₆, h₇, h₈, h₉⟩,
      fun ⟨h₁, h₂, h₃, h₄, h₅, h₆, h₇, h₈, h₉⟩ => ⟨h₁, h₂, h₃, h₄, h₅, h₆, h₇, h₈, h₉⟩⟩

/-- The first candidate key of some values under a definition. -/
def firstKey (rt : Runtime) (definition : Json) (values : Dict) : Py String := do
  return (← keysOf rt definition values).headD ""

/-- Whether values are quarantined under a definition. -/
def faulty (rt : Runtime) (definition : Json) (values : Dict) : Bool :=
  match compilePolicy rt definition >>= fun policy => policy.validate rt values with
  | .ok errors => !errors.isEmpty
  | .error _ => false

namespace StoredBy

theorem firstKey (h : StoredBy rt definition r) :
    firstKey rt definition r.original = .ok r.blockingKey := by
  obtain ⟨svc, s, source, domainKey, policy, o, item, e, x, rfl, hpolicy, he, rfl⟩ := h
  simp only [Recordlane.firstKey, MasteringService.newRecord, evaluate_keys hpolicy he, bind,
    Except.bind, pure, Except.pure]

theorem quarantined_iff (h : StoredBy rt definition r) (hd : r.state ≠ .deleted) :
    r.state = .quarantine ↔ faulty rt definition r.original = true := by
  obtain ⟨svc, s, source, domainKey, policy, o, item, e, x, rfl, hpolicy, he, rfl⟩ := h
  simp only [MasteringService.newRecord, MasteringService.recordState] at hd ⊢
  cases hdeleted : item.deleted with
  | true => simp [hdeleted] at hd
  | false =>
    unfold MasteringService.evaluate at he
    simp only [hdeleted, Bool.false_eq_true, if_false, Except.bind_eq_ok, Except.pure_eq_ok] at he
    obtain ⟨normalized, -, errors, herrors, keys, -, rfl⟩ := he
    simp only [faulty, hpolicy, herrors, bind, Except.bind]
    cases errors <;> cases observationIsCurrent o item <;> simp

end StoredBy

theorem Page.storedBy {req : IngestRequest} (p : Page self s req)
    (h : Integrity self.rt self.workspace s) :
    ∀ r ∈ p.finished.records, r ∈ s.records ∨ StoredBy self.rt p.domain.definition r := by
  refine (p.invariant (P := fun t => ∀ r ∈ t.records, r ∈ s.records ∨
    StoredBy self.rt p.domain.definition r) h (fun r hr => .inl hr)
    (fun t u hq ht r hr => ht r (hq.records ▸ hr)) fun u u' item v _ hi hu ho => ?_).2
  refine MasteringService.observe_invariant (P := fun t => ∀ r ∈ t.records, r ∈ s.records ∨
    StoredBy self.rt p.domain.definition r) hi hu (fun t o hopen r hr => ?_) ?_ ho
  · exact hu r (hopen.tables.1 ▸ hr)
  · intro t o d _ ht _ hround r hr
    rw [hround.records] at hr
    rcases List.mem_append.mp hr with hr | hr
    · exact ht r hr
    · rw [List.mem_singleton.mp hr]
      exact .inr ⟨self, t, p.source, req.domainKey, p.policy, o, item, d.evaluation, d.attached, rfl,
        MasteringService.authorize_policy p.authorized, hround.evaluated, rfl⟩

theorem next_storedBy {req : IngestRequest} (h : Integrity rt w s) :
    ∀ r ∈ ((service rt).next s (.ingest who req)).records, r ∈ s.records ∨
      ∃ domain ∈ s.domains, StoredBy rt domain.definition r := by
  have heffect := next_effect h (.ingest who req)
  generalize (service rt).next s (.ingest who req) = t at heffect
  cases heffect with
  | quiet hq => exact fun r hr => .inl (hq.records ▸ hr)
  | page _ p =>
    intro r hr
    rcases p.storedBy h r hr with hr | hr
    · exact .inl hr
    · exact .inr ⟨p.domain, List.mem_of_find?_eq_some p.domain_found, hr⟩

theorem state_name_injective {a b : RecordState} (h : a.name = b.name) : a = b := by
  cases a <;> cases b <;> first | rfl | simp [RecordState.name] at h

theorem filterMapping_map {α β : Type} {readable : List String} {f : α → β}
    {values : List (String × α)} :
    filterMapping readable (values.map fun p => (p.1, f p.2)) =
      (filterMapping readable values).map fun p => (p.1, f p.2) := by
  unfold filterMapping
  rw [List.filter_map]
  rfl

/-- The view of a row shows its candidate key and its state to everyone. -/
theorem AgreeOn.view_eq_iff {readable : List String} (h : AgreeOn readable r r') :
    recordView rt r readable = recordView rt r' readable ↔
      r.blockingKey = r'.blockingKey ∧ r.state = r'.state := by
  have hkey := h.key
  have htimes := h.times
  simp only [Prod.mk.injEq] at hkey htimes
  obtain ⟨hworkspace, hsource, hdomain, hlocal, hversion⟩ := hkey
  obtain ⟨hobserved, heffective⟩ := htimes
  constructor
  · intro hview
    simp only [recordView, Json.obj.injEq, List.cons.injEq, Prod.mk.injEq, Json.str.injEq, true_and,
      and_true] at hview
    obtain ⟨-, -, -, -, -, -, -, -, hkey, -, hstate, -⟩ := hview
    exact ⟨hkey, state_name_injective hstate⟩
  · rintro ⟨hkey, hstate⟩
    simp only [recordView, filterMapping_map, h.id, hworkspace, hsource, hdomain, hlocal, hversion,
      hobserved, heffective, h.entityId, hkey, hstate, h.original, h.normalized, h.verification,
      h.qualityErrors]

/-- Two rows that differ in what a principal may not read look the same to it if and only if the
policy finds the same first candidate key in both, and errors in both or in neither. -/
theorem recordView_eq_iff (rt : Runtime) (definition : Json) (who : Principal)
    (r r' : SourceRecord) (h : StoredBy rt definition r) (h' : StoredBy rt definition r')
    (ha : AgreeOn (readableAttributes definition who) r r') :
    recordView rt r (readableAttributes definition who) =
        recordView rt r' (readableAttributes definition who) ↔
      firstKey rt definition r.original = firstKey rt definition r'.original ∧
        (r.state = .deleted ∨
          faulty rt definition r.original = faulty rt definition r'.original) := by
  rw [ha.view_eq_iff, h.firstKey, h'.firstKey, Except.ok.injEq]
  refine and_congr_right fun _ => ?_
  by_cases hd : r.state = .deleted
  · have hd' : r'.state = .deleted := by
      rcases ha.state with hs | ⟨hne, -⟩
      · exact hs ▸ hd
      · exact (hne hd).elim
    simp [hd, hd']
  · have hd' : r'.state ≠ .deleted := by
      rcases ha.state with hs | ⟨-, hne, -⟩
      · exact hs ▸ hd
      · exact hne
    have hq := h.quarantined_iff hd
    have hq' := h'.quarantined_iff hd'
    constructor
    · intro hs
      rw [hs] at hq
      exact .inr (Bool.eq_iff_iff.mpr (hq.symm.trans hq'))
    · rintro (hdeleted | hfaulty)
      · exact (hd hdeleted).elim
      · rcases ha.state with hs | ⟨-, -, hs | hs⟩
        · exact hs
        · rw [hs, hq'.mpr (hfaulty ▸ hq.mp hs)]
        · rw [hs, hq.mpr (hfaulty ▸ hq'.mp hs)]

namespace Supplier

/-- The definition under which stewards alone read a tax number, by which candidates are found. -/
def confidential : Dict := (rematched "blocking" (.arr [.str "tax_id"])).set "attributes" (.arr [
  .obj [("key", .str "name")], .obj [("key", .str "city")],
  .obj [("key", .str "tax_id"), ("read_roles", .arr [.str "steward"])]])

def reader : Principal := ⟨"rita", "idp", "w1", ["read_only"], none⟩

def confidentialStore : Store := (service .plain).run (Store.empty workspace) [
  .createDomain (steward "alice") "supplier" "Supplier" "coexistence" confidential,
  .createSource (steward "alice") "erp" "ERP" "csv" 100]

theorem confidentialStore_integrity : Integrity .plain workspace confidentialStore :=
  integrity_run integrity_empty

/-- A supplier of a tax number, with a note that is no attribute. -/
def taxed (taxId note : String) : Request :=
  ingest [{ observation "a" "1" [] with
    values := [("name", .str "A"), ("tax_id", .str taxId), ("note", .str note)]
    values_bound := by simp
    values_nodup := by simp [Dict.keys] }]

theorem confidential_storedBy {who : Principal} {req : IngestRequest} {domain : Domain}
    (hdomains : confidentialStore.domains.length = 1) (hrecords : confidentialStore.records.length = 0)
    (hd : domain ∈ confidentialStore.domains)
    (hr : r ∈ ((service .plain).next confidentialStore (.ingest who req)).records) :
    StoredBy .plain domain.definition r := by
  rcases next_storedBy confidentialStore_integrity r hr with hold | ⟨d, hd', hstored⟩
  · rw [List.length_eq_zero_iff.mp hrecords] at hold
    cases hold
  · obtain ⟨only, honly⟩ := List.length_eq_one_iff.mp hdomains
    rw [honly, List.mem_singleton] at hd hd'
    rwa [hd, ← hd']

/-- A note is no attribute that the reader may read, and makes no difference to what it sees. -/
theorem recordView_eq_iff_note : ∃ domain ∈ confidentialStore.domains,
    ∃ r ∈ ((service .plain).next confidentialStore (taxed "T1" "x")).records,
    ∃ r' ∈ ((service .plain).next confidentialStore (taxed "T1" "y")).records,
      r.original.get "note" ≠ r'.original.get "note" ∧
        recordView .plain r (readableAttributes domain.definition reader) =
          recordView .plain r' (readableAttributes domain.definition reader) := by
  obtain ⟨hdomains, hrecords, domain, hd, r, hr, r', hr', hagree, hnote, hkey, hfaulty⟩ :
      confidentialStore.domains.length = 1 ∧ confidentialStore.records.length = 0 ∧
      ∃ domain ∈ confidentialStore.domains,
      ∃ r ∈ ((service .plain).next confidentialStore (taxed "T1" "x")).records,
      ∃ r' ∈ ((service .plain).next confidentialStore (taxed "T1" "y")).records,
      AgreeOn (readableAttributes domain.definition reader) r r' ∧
        r.original.get "note" ≠ r'.original.get "note" ∧ r.blockingKey = r'.blockingKey ∧
        faulty .plain domain.definition r.original = faulty .plain domain.definition r'.original := by
    decide +kernel
  have h := confidential_storedBy hdomains hrecords hd hr
  have h' := confidential_storedBy hdomains hrecords hd hr'
  refine ⟨domain, hd, r, hr, r', hr', hnote, ?_⟩
  refine (recordView_eq_iff .plain domain.definition reader r r' h h' hagree).mpr ⟨?_, .inr hfaulty⟩
  rw [h.firstKey, h'.firstKey, hkey]

/-- The candidate key shows the tax number to a reader that may not read it. -/
theorem recordView_leaks : ∃ domain ∈ confidentialStore.domains,
    ∃ r ∈ ((service .plain).next confidentialStore (taxed "T1" "x")).records,
    ∃ r' ∈ ((service .plain).next confidentialStore (taxed "T2" "x")).records,
      StoredBy .plain domain.definition r ∧ StoredBy .plain domain.definition r' ∧
        AgreeOn (readableAttributes domain.definition reader) r r' ∧
        recordView .plain r (readableAttributes domain.definition reader) ≠
          recordView .plain r' (readableAttributes domain.definition reader) := by
  obtain ⟨hdomains, hrecords, domain, hd, r, hr, r', hr', hagree, hview⟩ :
      confidentialStore.domains.length = 1 ∧ confidentialStore.records.length = 0 ∧
      ∃ domain ∈ confidentialStore.domains,
      ∃ r ∈ ((service .plain).next confidentialStore (taxed "T1" "x")).records,
      ∃ r' ∈ ((service .plain).next confidentialStore (taxed "T2" "x")).records,
      AgreeOn (readableAttributes domain.definition reader) r r' ∧
        recordView .plain r (readableAttributes domain.definition reader) ≠
          recordView .plain r' (readableAttributes domain.definition reader) := by
    decide +kernel
  exact ⟨domain, hd, r, hr, r', hr', confidential_storedBy hdomains hrecords hd hr,
    confidential_storedBy hdomains hrecords hd hr', hagree, hview⟩

end Supplier

end Recordlane
