import Mathlib.Data.List.Find
import Recordlane.Governance
import Recordlane.Mastering.Catalogue
import Recordlane.PolicyDocuments

/-! Bundles that are imported again: what is there already stays as it is. -/
namespace Recordlane

variable {rt : Runtime} {self : MasteringService} {urlparse : String → Py Url} {c c' : Catalogue}
  {s t : Store} {item : BundleDomain} {imported : Imported} {replaceExisting : Bool}

/-- Primary keys identify domains and sources, and have been drawn. -/
structure Catalogue.Sound (rt : Runtime) (c : Catalogue) : Prop where
  domainIds : Table.Keyed Domain.id c.store.domains
  sourceIds : Table.Keyed Source.id c.store.sources
  domains : ∀ d ∈ c.store.domains, Drawn rt c.store.drawn d.id
  sources : ∀ x ∈ c.store.sources, Drawn rt c.store.drawn x.id

theorem Catalogue.entry_written_of_ne {id : Id} {item : SourceEntry} {x : Source} (h : x.id ≠ id) :
    (c.written s id item).entry x = c.entry x := by
  simp only [entry, written, Function.update_of_ne h]

/-- A definition as an export writes it: a document that a parser has read, and no domain pack. -/
structure BundleDomain.Exported (item : BundleDomain) : Prop where
  unique : Json.unique (.obj item.definition) = true
  kind : (item.definition.get "kind").pyEq (.str "DomainPack") = false

theorem compilePolicy_mode {d : Dict} {policy : CompiledPolicy} (hu : Json.unique (.obj d) = true)
    (hkind : (d.get "kind").pyEq (.str "DomainPack") = false) {mode : String}
    (hmode : d.get? "mode" = some (.str mode)) (h : compilePolicy rt (.obj d) = .ok policy) :
    ∃ canonical : Dict, policy.canonicalDocument = .obj canonical ∧
      canonical.set "mode" (.str mode) = canonical := by
  obtain ⟨p, hdocument, -, hunique⟩ := PolicyDocument.of_compilePolicy hu h
  have hp : policy.document.get? "mode" = some p.mode := by
    rw [hdocument]
    simp [PolicyDocument.document, Dict.get?]
  have hraw : policy.document.get? "mode" = some (.str mode) := by
    unfold compilePolicy at h
    simp only [Except.bind_eq_ok, Except.pure_eq_ok, Prod.exists] at h
    obtain ⟨given, hgiven, raw, version, hraw, _, -, _, -, _, -, _, -, _, -, _, -, _, -, rfl⟩ := h
    cases Except.ok.inj hgiven
    rw [rawDefinition, hkind] at hraw
    simp only [Bool.false_eq_true, if_false, Except.pure_eq_ok, Prod.mk.injEq] at hraw
    obtain ⟨rfl, -⟩ := hraw
    simp only [hmode, Option.getD_some]
    simp [Dict.get?]
  have heq : p.mode = .str mode := Option.some.inj (hp.symm.trans hraw)
  refine ⟨p.canonical, ?_, ?_⟩
  · rw [CompiledPolicy.canonicalDocument, hdocument, PolicyDocument.sortKeys_document]
  · rw [PolicyDocument.canonical_set, ← heq]

namespace MasteringService

/-- A domain has the definition of a bundle. -/
def HoldsDomain (self : MasteringService) (s : Store) (item : BundleDomain) : Prop :=
  ∃ policy d, compilePolicy self.rt item.document = .ok policy ∧ self.domain? s item.key = some d ∧
    d.definition.pyEq policy.canonicalDocument = true

/-- A source has the settings of a bundle. -/
def HoldsSource (self : MasteringService) (c : Catalogue) (item : SourceEntry) : Prop :=
  ∃ x, self.source? c.store item.key = some x ∧ (c.entry x).pyEq item = true

/-- A configuration has the document of a bundle. -/
def HoldsConfiguration (self : MasteringService) (s : Store) (document : Dict) : Prop :=
  (s.configurations.any fun x => x.workspaceId = self.wid && x.document.pyEq (.obj document)) = true

theorem HoldsDomain.of_domain? (h : self.HoldsDomain s item)
    (ht : self.domain? t item.key = self.domain? s item.key) : self.HoldsDomain t item := by
  obtain ⟨policy, d, hpolicy, hd, heq⟩ := h
  exact ⟨policy, d, hpolicy, ht.trans hd, heq⟩

theorem importDomain_held (h : self.HoldsDomain s item) :
    self.importDomain replaceExisting (s, imported) item =
    .ok (s, { imported with unchanged := imported.unchanged + 1 }) := by
  obtain ⟨policy, d, hpolicy, hd, heq⟩ := h
  simp only [importDomain, hpolicy, hd, heq, bind, Except.bind, if_true, pure, Except.pure]

theorem importEntry_held {item : SourceEntry} (h : self.HoldsSource c item) :
    self.importEntry replaceExisting (c, imported) item =
      .ok (c, { imported with unchanged := imported.unchanged + 1 }) := by
  obtain ⟨x, hx, heq⟩ := h
  simp only [importEntry, hx, heq, if_true]

theorem importConfiguration_held {document : Dict} (h : self.HoldsConfiguration s document) :
    self.importConfiguration (s, imported) document =
      .ok (s, { imported with unchanged := imported.unchanged + 1 }) := by
  rw [HoldsConfiguration] at h
  simp only [importConfiguration, h, if_true, pure, Except.pure]

variable {state state' : Store × Imported} {done : Catalogue × Imported}

/-- The canonical document of an exported definition compiles to itself under the mode of its item. -/
theorem recompiles (hitem : item.Exported) {policy : CompiledPolicy}
    (h : compilePolicy rt item.document = .ok policy) : ∃ canonical : Dict,
      policy.canonicalDocument = .obj canonical ∧ Json.unique (.obj canonical) = true ∧ ∃ policy',
        compilePolicy rt (.obj (canonical.set "mode" (.str item.mode))) = .ok policy' ∧
        policy'.canonicalDocument = .obj canonical := by
  have hunique : Json.unique item.document = true := Dict.unique_set hitem.unique rfl
  have hkind : ((item.definition.set "mode" (.str item.mode)).get "kind").pyEq (.str "DomainPack") =
      false := by
    rw [Dict.get, Dict.get?_set_of_ne (by decide)]
    exact hitem.kind
  obtain ⟨canonical, hcanonical, hset⟩ := compilePolicy_mode hunique hkind Dict.get?_set h
  obtain ⟨canonical', hcanonical', hunique', hcompiles⟩ := PolicyDocument.recompiled hunique h
  cases hcanonical.symm.trans hcanonical'
  obtain ⟨policy', hpolicy', hdocument⟩ := hcompiles item.mode
  exact ⟨canonical, hcanonical, hunique', policy', hpolicy', hset ▸ hdocument⟩

theorem refusePolicy_ok {α : Type} {code : String} {x : Py α} {a : α} (h : refusePolicy code x = .ok a) :
    x = .ok a := by
  cases x with
  | ok b => exact h
  | error e => cases e <;> simp [refusePolicy, httpError] at h

theorem createDomain_row {key name mode : String} {definition : Dict} {d : Domain}
    (h : self.createDomain s key name mode definition = .ok (t, d)) : self.domain? s key = none ∧
      (∃ policy, compilePolicy self.rt (.obj (definition.set "mode" (.str mode))) = .ok policy ∧
        d.definition = policy.canonicalDocument) ∧
      d.workspaceId = self.wid ∧ d.key = key ∧ d.id = self.rt.uid s.drawn ∧
      t.domains = s.domains ++ [d] ∧ s.drawn < t.drawn ∧ t.sources = s.sources ∧
      t.configurations = s.configurations := by
  unfold createDomain at h
  split at h
  · cases h
  · next hfree =>
    simp only [Except.bind_eq_ok, Except.pure_eq_ok, Prod.mk.injEq] at h
    obtain ⟨policy, hpolicy, rfl, rfl⟩ := h
    have hframe : ∀ u, Frame self.rt u (self.audit u "domain.created" "domain" (self.fresh s)
        [("key", .str key)]) := fun u => self.audit_frame ..
    refine ⟨by simpa using hfree, ⟨policy, refusePolicy_ok hpolicy, rfl⟩, rfl, rfl, rfl, (hframe _).domains,
      ?_, (hframe _).sources, (hframe _).configurations⟩
    have hdrawn := (hframe { s with drawn := s.drawn + 1 }).drawn
    exact hdrawn

/-- A domain of a bundle is held once it is imported, and the domains of other keys are as before. -/
theorem importDomain_holds (hitem : item.Exported) (hc : Catalogue.Sound self.rt ⟨state.1, c.settings⟩)
    (h : self.importDomain replaceExisting state item = .ok state') :
    Catalogue.Sound self.rt ⟨state'.1, c.settings⟩ ∧ self.HoldsDomain state'.1 item ∧
      ∀ key ≠ item.key, self.domain? state'.1 key = self.domain? state.1 key := by
  unfold importDomain at h
  dsimp only at h
  rw [Except.bind_eq_ok] at h
  obtain ⟨policy, hpolicy, h⟩ := h
  obtain ⟨canonical, hcanonical, hunique, policy', hpolicy', hdocument⟩ := recompiles hitem hpolicy
  have hself : policy.canonicalDocument.pyEq policy.canonicalDocument = true := by
    rw [hcanonical]
    exact Json.pyEq_self _ hunique
  split at h
  · next existing hexisting =>
    obtain ⟨hmem, hkey⟩ := domain?_key hexisting
    split at h
    · next hsame =>
      cases h
      exact ⟨hc, ⟨policy, existing, hpolicy, hexisting, hsame⟩, fun _ _ => rfl⟩
    · split at h
      · cases h
      · cases h
        have hdomain : ∀ key, self.domain? { state.1 with
            domains := Table.modify Domain.id state.1.domains existing.id fun d => { d with
              name := item.name
              mode := item.mode
              definition := policy.canonicalDocument } } key =
            (self.domain? state.1 key).map (onRow Domain.id existing.id fun d => { d with
              name := item.name
              mode := item.mode
              definition := policy.canonicalDocument }) :=
          fun key => domain?_modify (fun _ => ⟨rfl, rfl⟩) rfl
        refine ⟨⟨?_, hc.sourceIds, ?_, hc.sources⟩, ⟨policy, { existing with
          name := item.name
          mode := item.mode
          definition := policy.canonicalDocument }, hpolicy, ?_, hself⟩, fun key hne => ?_⟩
        · exact hc.domainIds.map fun d _ => by split <;> rfl
        · intro d hd
          obtain ⟨d', hd', rfl⟩ := List.mem_map.mp hd
          have hid := hc.domains d' hd'
          split
          · exact hid
          · exact hid
        · rw [hdomain, hexisting, Option.map_some, onRow, if_pos rfl]
        · rw [hdomain]
          cases hfound : self.domain? state.1 key with
          | none => rfl
          | some d =>
            obtain ⟨hd, hdkey⟩ := domain?_key hfound
            have hid : d.id ≠ existing.id := fun heq =>
              hne (hdkey.symm.trans ((congrArg Domain.key (hc.domainIds.eq_of_mem hd hmem heq)).trans hkey))
            rw [Option.map_some, onRow, if_neg hid]
  · next hnone =>
    simp only [Except.bind_eq_ok, Except.pure_eq_ok, Prod.exists] at h
    obtain ⟨definition, hdefinition, u, d, hcreate, rfl⟩ := h
    rw [hcanonical] at hdefinition
    cases hdefinition
    obtain ⟨-, ⟨policy'', hpolicy'', hd⟩, hwid, hkey, hid, hdomains, hdrawn, hsources, -⟩ :=
      createDomain_row hcreate
    obtain rfl := Except.ok.inj (hpolicy'.symm.trans hpolicy'')
    have hfind : ∀ key, self.domain? u key = (self.domain? state.1 key).or
        (if key = item.key then some d else none) := by
      intro key
      rw [domain?, hdomains, List.find?_append, domain?]
      congr 1
      by_cases hk : key = item.key
      · simp [hk, hwid, hkey]
      · simp [hk, hkey, Ne.symm hk]
    refine ⟨⟨?_, ?_, ?_, ?_⟩, ⟨policy, d, hpolicy, ?_, ?_⟩, fun key hne => ?_⟩
    · rw [hdomains]
      exact hc.domainIds.append fun d' hd' => hid ▸ (hc.domains d' hd').ne_uid
    · rw [hsources]
      exact hc.sourceIds
    · intro d' hd'
      rw [hdomains] at hd'
      rcases List.mem_append.mp hd' with hd' | hd'
      · exact (hc.domains d' hd').mono hdrawn.le
      · rw [List.mem_singleton.mp hd', hid]
        exact drawn_uid hdrawn
    · intro x hx
      rw [hsources] at hx
      exact (hc.sources x hx).mono hdrawn.le
    · rw [hfind, hnone, if_pos rfl, Option.none_or]
    · rw [hd, hdocument, hcanonical]
      exact Json.pyEq_self _ hunique
    · rw [hfind, if_neg hne, Option.or_none]

variable {entry : SourceEntry}

theorem source?_key {x : Source} {key : String} (h : self.source? s key = some x) :
    x ∈ s.sources ∧ x.workspaceId = self.wid ∧ x.key = key := by
  have hx : x.workspaceId = self.wid ∧ x.key = key := by simpa using List.find?_some h
  exact ⟨List.mem_of_find?_eq_some h, hx⟩

theorem source?_modify (self : MasteringService) {existing : Source} {f : Source → Source}
    (hids : Table.Keyed Source.id s.sources)
    (hmem : existing ∈ s.sources)
    (hf : (f existing).workspaceId = existing.workspaceId ∧ (f existing).key = existing.key)
    (ht : t.sources = Table.modify Source.id s.sources existing.id f) (key : String) :
    self.source? t key = (self.source? s key).map (onRow Source.id existing.id f) := by
  rw [source?, ht, source?]
  change List.find? _ (s.sources.map (onRow Source.id existing.id f)) = _
  rw [List.find?_map]
  refine congrArg _ (List.find?_congr fun x hx => ?_)
  rw [Function.comp_apply, onRow]
  split
  · next hid =>
    obtain rfl := hids.eq_of_mem hx hmem hid
    rw [hf.1, hf.2]
  · rfl

/-- A source of a bundle is held once it is imported, and those of other keys stay so. -/
theorem importEntry_holds (hentry : Json.unique (.obj entry.capabilities) = true ∧
      Json.unique (.obj entry.config) = true) (hc : done.1.Sound self.rt) {after : Catalogue × Imported}
    (h : self.importEntry replaceExisting done entry = .ok after) :
    (after.1.Sound self.rt ∧ after.1.store.domains = done.1.store.domains) ∧
      self.HoldsSource after.1 entry ∧
      ∀ other : SourceEntry, other.key ≠ entry.key → self.HoldsSource done.1 other →
        self.HoldsSource after.1 other := by
  obtain ⟨c, imported⟩ := done
  have hsame : ∀ {x : Source} {c : Catalogue}, c.entry x = entry → (c.entry x).pyEq entry = true := by
    intro x c heq
    simp [heq, SourceEntry.pyEq, Json.pyEq_self _ hentry.1, Json.pyEq_self _ hentry.2]
  unfold importEntry at h
  dsimp only at h
  split at h
  · next existing hexisting =>
    have hfound : existing.workspaceId = self.wid ∧ existing.key = entry.key := by
      simpa using List.find?_some hexisting
    have hmem : existing ∈ c.store.sources := List.mem_of_find?_eq_some hexisting
    split at h
    · next heq =>
      cases h
      exact ⟨⟨hc, rfl⟩, ⟨existing, hexisting, heq⟩, fun _ _ hother => hother⟩
    · split at h
      · cases h
      · cases h
        have hsource := source?_modify self (s := c.store) (t := { c.store with
          sources := Table.modify Source.id c.store.sources existing.id fun x => { x with
            key := entry.key
            name := entry.name
            kind := entry.kind
            priority := entry.priority } }) hc.sourceIds hmem ⟨rfl, hfound.2.symm⟩ rfl
        refine ⟨⟨⟨hc.domainIds, ?_, hc.domains, ?_⟩, rfl⟩, ⟨{ existing with
          key := entry.key
          name := entry.name
          kind := entry.kind
          priority := entry.priority }, ?_, hsame ?_⟩, ?_⟩
        · exact hc.sourceIds.map fun x _ => by split <;> rfl
        · intro x hx
          obtain ⟨x', hx', rfl⟩ := List.mem_map.mp hx
          have hid := hc.sources x' hx'
          split
          · exact hid
          · exact hid
        · rw [Catalogue.written, hsource, hexisting, Option.map_some, onRow, if_pos rfl]
        · simp [Catalogue.entry, Catalogue.written]
        · rintro other hne ⟨x, hx, heq⟩
          obtain ⟨hxmem, -, hxkey⟩ := source?_key hx
          have hid : x.id ≠ existing.id := fun hid => hne (hxkey.symm.trans ((congrArg Source.key
            (hc.sourceIds.eq_of_mem hxmem hmem hid)).trans hfound.2))
          refine ⟨x, ?_, ?_⟩
          · rw [Catalogue.written, hsource, hx, Option.map_some, onRow, if_neg hid]
          · exact (congrArg (SourceEntry.pyEq · other) (Catalogue.entry_written_of_ne hid)).trans heq
  · next hnone =>
    cases h
    have hdrawn : ∀ x ∈ c.store.sources, x.id ≠ self.fresh c.store := fun x hx => (hc.sources x hx).ne_uid
    refine ⟨⟨⟨hc.domainIds, hc.sourceIds.append hdrawn, fun d hd => (hc.domains d hd).mono (Nat.le_succ _),
      ?_⟩, rfl⟩, ⟨{
        id := self.fresh c.store
        workspaceId := self.wid
        key := entry.key
        name := entry.name
        kind := entry.kind
        priority := entry.priority
        checkpoint := none
        lastIngestedAt := none }, ?_, hsame ?_⟩, ?_⟩
    · intro x hx
      rcases List.mem_append.mp hx with hx | hx
      · exact (hc.sources x hx).mono (Nat.le_succ _)
      · rw [List.mem_singleton.mp hx]
        exact drawn_uid (Nat.lt_succ_self _)
    · rw [source?, Catalogue.written, List.find?_append]
      rw [source?] at hnone
      rw [hnone, Option.none_or]
      exact List.find?_cons_of_pos (by simp)
    · simp [Catalogue.entry, Catalogue.written]
    · rintro other hne ⟨x, hx, heq⟩
      refine ⟨x, ?_, ?_⟩
      · rw [source?, Catalogue.written, List.find?_append]
        rw [source?] at hx
        rw [hx, Option.some_or]
      · have hid := hdrawn x (source?_key hx).1
        exact (congrArg (SourceEntry.pyEq · other) (Catalogue.entry_written_of_ne hid)).trans heq

theorem importConfiguration_holds {document : Dict} (hdocument : Json.unique (.obj document) = true)
    (h : self.importConfiguration state document = .ok state') :
    (state'.1.domains = state.1.domains ∧ state'.1.sources = state.1.sources) ∧
      self.HoldsConfiguration state'.1 document ∧
      ∀ other, self.HoldsConfiguration state.1 other → self.HoldsConfiguration state'.1 other := by
  unfold importConfiguration at h
  dsimp only at h
  split at h
  · next hheld =>
    cases h
    exact ⟨⟨rfl, rfl⟩, hheld, fun _ hother => hother⟩
  · simp only [Except.bind_eq_ok, Except.pure_eq_ok, Prod.exists] at h
    obtain ⟨u, config, hcreate, rfl⟩ := h
    unfold createConfig at hcreate
    split at hcreate
    · cases hcreate
    · simp only [Except.bind_eq_ok, Except.pure_eq_ok, Prod.mk.injEq] at hcreate
      obtain ⟨_, -, rfl, rfl⟩ := hcreate
      refine ⟨⟨rfl, rfl⟩, ?_, fun other hother => ?_⟩
      · simp [HoldsConfiguration, audit, Json.pyEq_self _ hdocument]
      · simp only [HoldsConfiguration, audit, List.any_append, Bool.or_eq_true]
        exact .inl hother

/-- What is held of a bundle is not imported again. -/
theorem foldlM_held {σ α : Type} {f : σ × Imported → α → Py (σ × Imported)} {x : σ} {items : List α}
    (h : ∀ a ∈ items, ∀ n, f (x, n) a = .ok (x, { n with unchanged := n.unchanged + 1 })) (n : Imported) :
    items.foldlM f (x, n) = .ok (x, { n with unchanged := n.unchanged + items.length }) := by
  induction items generalizing n with
  | nil => rfl
  | cons a items ih =>
    rw [List.foldlM_cons, Except.bind_eq_ok]
    refine ⟨_, h a List.mem_cons_self n, ?_⟩
    rw [ih fun b hb => h b (List.mem_cons_of_mem _ hb), List.length_cons, Nat.add_assoc, Nat.add_comm 1]

end MasteringService

/-- A bundle as an export writes it: one item for each key, and documents that a parser has read. -/
structure Bundle.Exported (bundle : Bundle) : Prop where
  domainKeys : (bundle.domains.map DomainEntry.key).Nodup
  sourceKeys : (bundle.sources.map SourceEntry.key).Nodup
  domains : ∀ entry ∈ bundle.domains, ∀ item, entry.item = .ok item → item.Exported
  sources : ∀ entry ∈ bundle.sources, Json.unique (.obj entry.capabilities) = true ∧
    Json.unique (.obj entry.config) = true
  configurations : ∀ document ∈ bundle.configurations, document.unique = true

theorem refuseBundle_ok {α : Type} {x : Py α} {a : α} (h : refuseBundle x = .ok a) : x = .ok a := by
  unfold refuseBundle at h
  split at h
  · simp [httpError] at h
  · split at h
    · simp [httpError] at h
    · cases h
  · exact h

theorem DomainEntry.item_key {entry : DomainEntry} (h : entry.item = .ok item) : item.key = entry.key := by
  unfold DomainEntry.item at h
  split at h
  · cases h
    rfl
  · cases h

namespace MasteringService

variable {bundle : Bundle} {domains : List BundleDomain} {configurations : List Dict}

theorem checkBundle_ok (h : self.checkBundle urlparse bundle = .ok (domains, configurations)) :
    List.Forall₂ (fun entry item => entry.item = .ok item) bundle.domains domains ∧
      List.Forall₂ (fun config document => config = .obj document) bundle.configurations configurations := by
  simp only [checkBundle, Except.bind_eq_ok, Except.pure_eq_ok, Prod.mk.injEq] at h
  obtain ⟨ds, hdomains, -, -, -, -, cs, hconfigurations, rfl, rfl⟩ := h
  refine ⟨(Except.mapM_forall₂ hdomains).imp fun entry item hitem => ?_,
    (Except.mapM_forall₂ hconfigurations).imp fun config document hdocument => ?_⟩
  · simp only [Except.bind_eq_ok, Except.pure_eq_ok] at hitem
    obtain ⟨item', hitem', _, -, rfl⟩ := hitem
    exact hitem'
  · split at hdocument
    · cases hdocument
      rfl
    · cases hdocument

end MasteringService

/-- A bundle that was imported can be imported again: it goes through, also where replacements are not
allowed, counts every item as unchanged, and leaves but an entry in the audit log. -/
theorem import_idempotent (hc : c.Sound self.rt) {bundle : Bundle} (hbundle : bundle.Exported)
    (h : self.importEntries urlparse c bundle replaceExisting = .ok (c', imported)) (again : Bool) :
    let unchanged := bundle.domains.length + bundle.sources.length + bundle.configurations.length
    let nothing : Imported := ⟨0, 0, 0, unchanged⟩
    self.importEntries urlparse c' bundle again = .ok ({ c' with
      store := self.audit c'.store "workspace_bundle.imported" "workspace" self.wid nothing.json },
      nothing) := by
  intro unchanged nothing
  unfold MasteringService.importEntries at h ⊢
  split at h
  · cases h
  · simp only [Except.bind_eq_ok, Except.pure_eq_ok, Prod.exists, Prod.mk.injEq] at h
    obtain ⟨domains, configurations, hchecked, s₁, n₁, hdomains, c₂, n₂, hsources, s₃, n₃,
      hconfigurations, rfl, rfl⟩ := h
    obtain ⟨hitems, hdocuments⟩ := self.checkBundle_ok (refuseBundle_ok hchecked)
    have hkeys : domains.map BundleDomain.key = bundle.domains.map DomainEntry.key := by
      rw [← List.forall₂_eq_eq_eq, List.forall₂_map_left_iff, List.forall₂_map_right_iff]
      exact hitems.flip.imp fun item entry h => DomainEntry.item_key h
    have hdomainKeys : domains.Pairwise fun a b => a.key ≠ b.key :=
      List.pairwise_map.mp (hkeys ▸ hbundle.domainKeys)
    have hexported : ∀ item ∈ domains, item.Exported := fun item hitem => by
      obtain ⟨entry, hentry, h⟩ := (Except.forall₂_mem hitems).1 item hitem
      exact hbundle.domains entry hentry item h
    have hparsed : ∀ document ∈ configurations, Json.unique (.obj document) = true := fun document hd => by
      obtain ⟨config, hconfig, rfl⟩ := (Except.forall₂_mem hdocuments).1 document hd
      exact hbundle.configurations _ hconfig
    -- what the first import establishes, loop by loop
    obtain ⟨hsound, hheldDomains, -⟩ := Except.foldlM_establishes
      (P := fun state => Catalogue.Sound self.rt ⟨state.1, c.settings⟩)
      (Q := fun state item => self.HoldsDomain state.1 item) hdomains hc hdomainKeys
      fun state item state' hitem hsound hround => by
        obtain ⟨hsound', hheld, hothers⟩ := self.importDomain_holds (hexported item hitem) hsound hround
        exact ⟨hsound', hheld, fun other hne hother => hother.of_domain? (hothers other.key hne)⟩
    obtain ⟨⟨-, hsame⟩, hheldSources, -⟩ := Except.foldlM_establishes
      (P := fun state => state.1.Sound self.rt ∧ state.1.store.domains = s₁.domains)
      (Q := fun state entry => self.HoldsSource state.1 entry) hsources ⟨hsound, rfl⟩
      (List.pairwise_map.mp hbundle.sourceKeys) fun state entry state' hentry ⟨hsound, hsame⟩ hround => by
        obtain ⟨⟨hsound', hsame'⟩, hheld, hothers⟩ :=
          self.importEntry_holds (hbundle.sources entry hentry) hsound hround
        exact ⟨⟨hsound', hsame'.trans hsame⟩, hheld, hothers⟩
    obtain ⟨⟨hsame₃, hsources₃⟩, hheldConfigurations, -⟩ := Except.foldlM_establishes
      (P := fun state => state.1.domains = c₂.store.domains ∧ state.1.sources = c₂.store.sources)
      (Q := fun state document => self.HoldsConfiguration state.1 document) (R := fun _ _ => True)
      hconfigurations ⟨rfl, rfl⟩ (List.pairwise_of_forall fun _ _ => trivial)
      fun state document state' hdocument ⟨hdomains, hsources⟩ hround => by
        obtain ⟨hsame, hheld, hothers⟩ := self.importConfiguration_holds (hparsed document hdocument) hround
        exact ⟨⟨hsame.1.trans hdomains, hsame.2.trans hsources⟩, hheld, fun other _ => hothers other⟩
    -- and what the second one finds
    have hframe : Frame self.rt s₃ (self.audit s₃ "workspace_bundle.imported" "workspace" self.wid
      n₃.json) := self.audit_frame ..
    generalize self.audit s₃ "workspace_bundle.imported" "workspace" self.wid n₃.json = u at hframe
    have hdomain : ∀ key, self.domain? u key = self.domain? s₁ key := fun key => by
      rw [MasteringService.domain?, hframe.domains, hsame₃, hsame, MasteringService.domain?]
    have hsource : ∀ key, self.source? u key = self.source? c₂.store key := fun key => by
      rw [MasteringService.source?, hframe.sources, hsources₃, MasteringService.source?]
    have hcount : (⟨0, 0, 0, 0 + domains.length + bundle.sources.length + configurations.length⟩ : Imported) =
        nothing := by
      rw [Nat.zero_add, ← hitems.length_eq, ← hdocuments.length_eq]
    rw [if_neg ‹_›]
    simp only [Except.bind_eq_ok, Except.pure_eq_ok, Prod.exists, Prod.mk.injEq]
    refine ⟨domains, configurations, hchecked, _, _, MasteringService.foldlM_held (fun item hitem n =>
      self.importDomain_held ((hheldDomains item hitem).of_domain? (hdomain item.key))) _, _, _,
      MasteringService.foldlM_held (fun entry hentry n => self.importEntry_held ?_) _, _, _,
      MasteringService.foldlM_held (fun document hdocument n => self.importConfiguration_held ?_) _, ?_, ?_⟩
    · obtain ⟨x, hx, heq⟩ := hheldSources entry hentry
      exact ⟨x, (hsource entry.key).trans hx, heq⟩
    · have hheld := hheldConfigurations document hdocument
      rw [MasteringService.HoldsConfiguration] at hheld ⊢
      rwa [hframe.configurations]
    · exact congrArg (fun n : Imported => (⟨self.audit u "workspace_bundle.imported" "workspace" self.wid
        n.json, c₂.settings⟩ : Catalogue)) hcount
    · exact hcount

namespace Supplier

def registrar : MasteringService := ⟨.plain, modeler, workspace⟩

/-- A bundle with a domain, a source and a configuration. -/
def starter : Bundle where
  apiVersion := .str "recordlane.io/v1alpha1"
  kind := .str "WorkspaceBundle"
  sourceWorkspace := "staging"
  domains := [⟨"supplier", "Supplier", "coexistence", .obj eager⟩]
  sources := [⟨"erp", "ERP", "csv", 1, [], [("path", .str "/data/suppliers.csv")]⟩]
  configurations := [.obj [("domains", .obj [("supplier", .obj eager)])]]

theorem import_idempotent_starter : ∃ c imported c',
    registrar.importEntries (fun _ => .error (.python "ValueError")) (Catalogue.empty workspace) starter
      false = .ok (c, imported) ∧
    registrar.importEntries (fun _ => .error (.python "ValueError")) c starter false =
      .ok (c', ⟨0, 0, 0, 3⟩) := by
  have hfirst : (registrar.importEntries (fun _ => .error (.python "ValueError")) (Catalogue.empty workspace)
      starter false).toOption.any (fun _ => true) = true := by decide +kernel
  obtain ⟨⟨c, imported⟩, hfirst, -⟩ := Except.of_any hfirst
  have hsound : (Catalogue.empty workspace).Sound registrar.rt := by
    constructor <;> simp [Catalogue.empty, Store.empty, Table.Keyed]
  have hdefinition : BundleDomain.Exported ⟨"supplier", "Supplier", "coexistence", eager⟩ :=
    ⟨by decide +kernel, by decide +kernel⟩
  refine ⟨c, imported, _, hfirst, import_idempotent hsound ⟨by decide, by decide, ?_, by decide +kernel,
    by decide +kernel⟩ hfirst false⟩
  intro entry hentry item hitem
  rw [List.mem_singleton.mp hentry] at hitem
  cases hitem
  exact hdefinition

end Supplier

end Recordlane
