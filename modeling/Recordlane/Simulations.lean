import Recordlane.Remastering
import Recordlane.Canonical
import Recordlane.Supplier
import Mathlib.Data.List.Dedup

/-! A configuration simulated, approved and remastered: the preview says what the masters become. -/
namespace Recordlane

variable {rt : Runtime} {w : Workspace} {self : MasteringService} {s s' t : Store} {x : Id}
  {key : String} {policy : CompiledPolicy} {policies : List (String × CompiledPolicy)}
  {configId : Id}

/-- `policies[key]`. -/
def policyOf (policies : List (String × CompiledPolicy)) (key : String) : Option CompiledPolicy :=
  (policies.reverse.find? fun p => p.1 = key).map Prod.snd

theorem policyOf_cons {entry : String × CompiledPolicy} :
    policyOf (entry :: policies) key =
      (policyOf policies key).or (if entry.1 = key then some entry.2 else none) := by
  rw [policyOf, List.reverse_cons, List.find?_append, policyOf]
  by_cases h : entry.1 = key <;>
    cases policies.reverse.find? (fun p => p.1 = key) <;> simp [h]

theorem policyOf_mem (h : policyOf policies key = some policy) : (key, policy) ∈ policies := by
  rw [policyOf, Option.map_eq_some_iff] at h
  obtain ⟨entry, hentry, rfl⟩ := h
  have hkey : entry.1 = key := by simpa using List.find?_some hentry
  rw [← hkey]
  exact List.mem_reverse.mp (List.mem_of_find?_eq_some hentry)

/-- What the activation of policies does: their domains are defined anew, and a job is queued for
each of them. -/
structure Activates (svc : MasteringService) (policies : List (String × CompiledPolicy)) (s t : Store) :
    Prop where
  entities : t.entities = s.entities
  objects : t.objects = s.objects
  records : t.records = s.records
  sources : t.sources = s.sources
  defined : ∀ key policy, policyOf policies key = some policy →
    ∃ d, svc.domain? t key = some d ∧ d.definition = policy.canonicalDocument
  others : ∀ key, policyOf policies key = none → svc.domain? t key = svc.domain? s key
  jobs : ∃ new, t.jobs = s.jobs ++ new ∧ (∀ job ∈ new, job.status = .queued) ∧
    ∀ entry ∈ policies, ∃ job ∈ new, job.payload.get "domain_key" = .str entry.1

/-- The domain under a new policy. -/
def redefine (policy : CompiledPolicy) (d : Domain) : Domain :=
  { d with definition := policy.canonicalDocument, schemaVersion := d.schemaVersion + 1 }

namespace MasteringService

theorem domain?_key {d : Domain} (h : self.domain? s key = some d) : d ∈ s.domains ∧ d.key = key := by
  have hd : d.workspaceId = self.wid ∧ d.key = key := by simpa using List.find?_some h
  exact ⟨List.mem_of_find?_eq_some h, hd.2⟩

theorem domain?_modify {f : Domain → Domain} {id : Id}
    (hf : ∀ d, (f d).workspaceId = d.workspaceId ∧ (f d).key = d.key)
    (ht : t.domains = Table.modify Domain.id s.domains id f) :
    self.domain? t key = (self.domain? s key).map (onRow Domain.id id f) := by
  have hpred : ((fun d : Domain => decide (d.workspaceId = self.wid) && decide (d.key = key)) ∘
      onRow Domain.id id f) = fun d => decide (d.workspaceId = self.wid) && decide (d.key = key) := by
    funext d
    unfold onRow
    rw [Function.comp_apply]
    split
    · rw [(hf d).1, (hf d).2]
    · rfl
  rw [domain?, ht, domain?]
  change List.find? _ (s.domains.map (onRow Domain.id id f)) = _
  rw [List.find?_map, hpred]

theorem activateDomain_cases {entry : String × CompiledPolicy} {state state' : Store × List Id}
    (h : self.activateDomain configId state entry = .ok state') :
    ∃ d job, self.domain? state.1 entry.1 = some d ∧ job.status = .queued ∧
      job.payload.get "domain_key" = .str entry.1 ∧ state'.1 = { state.1 with
        domains := Table.modify Domain.id state.1.domains d.id (redefine entry.2)
        jobs := state.1.jobs ++ [job]
        drawn := state.1.drawn + 1 } := by
  unfold activateDomain at h
  dsimp only at h
  split at h
  · cases h
  · next d hd =>
    cases h
    refine ⟨d, _, hd, ?_, ?_, rfl⟩
    · rfl
    · exact congrArg Json.str (domain?_key hd).2

theorem activateAll_activates {state state' : Store × List Id}
    (hk : Table.Keyed Domain.id state.1.domains)
    (h : policies.foldlM (self.activateDomain configId) state = .ok state') :
    Activates self policies state.1 state'.1 := by
  induction policies generalizing state with
  | nil =>
    rw [List.foldlM_nil, Except.pure_eq_ok] at h
    subst h
    exact ⟨rfl, rfl, rfl, rfl, by simp [policyOf], fun _ _ => rfl, [], by simp⟩
  | cons entry policies ih =>
    rw [List.foldlM_cons, Except.bind_eq_ok] at h
    obtain ⟨state₁, hfirst, h⟩ := h
    obtain ⟨d, job, hd, hqueued, hkey, hstate⟩ := activateDomain_cases hfirst
    have hdomains : state₁.1.domains = Table.modify Domain.id state.1.domains d.id (redefine entry.2) := by
      rw [hstate]
    have hrest : Activates self policies state₁.1 state'.1 := by
      refine ih ?_ h
      rw [hdomains]
      exact hk.map fun d' _ => by split <;> rfl
    have hfound : ∀ key, self.domain? state₁.1 key =
        (self.domain? state.1 key).map (onRow Domain.id d.id (redefine entry.2)) :=
      fun key => domain?_modify (fun _ => ⟨rfl, rfl⟩) hdomains
    obtain ⟨new, hjobs, hall, hnew⟩ := hrest.jobs
    refine ⟨?_, ?_, ?_, ?_, fun key policy hp => ?_, fun key hp => ?_, job :: new, ?_, ?_, ?_⟩
    · rw [hrest.entities, hstate]
    · rw [hrest.objects, hstate]
    · rw [hrest.records, hstate]
    · rw [hrest.sources, hstate]
    · rw [policyOf_cons] at hp
      cases hlater : policyOf policies key with
      | some later =>
        rw [hlater, Option.some_or] at hp
        cases hp
        exact hrest.defined key _ hlater
      | none =>
        rw [hlater, Option.none_or] at hp
        split at hp
        · next he =>
          cases hp
          rw [← he] at hlater ⊢
          rw [hrest.others _ hlater, hfound, hd]
          exact ⟨_, rfl, by simp [onRow, redefine]⟩
        · cases hp
    · rw [policyOf_cons, Option.or_eq_none_iff] at hp
      obtain ⟨hlater, hne⟩ := hp
      have hne : entry.1 ≠ key := by
        intro he
        simp [he] at hne
      rw [hrest.others key hlater, hfound]
      cases hother : self.domain? state.1 key with
      | none => rfl
      | some d' =>
        obtain ⟨hmem, hkey'⟩ := domain?_key hother
        obtain ⟨hmem', hkey''⟩ := domain?_key hd
        have hid : d'.id ≠ d.id := by
          intro he
          rw [hk.eq_of_mem hmem hmem' he, hkey''] at hkey'
          exact hne hkey'
        simp [onRow, hid]
    · rw [hjobs, hstate, List.append_assoc, List.singleton_append]
    · intro j hj
      rcases List.mem_cons.mp hj with rfl | hj
      · exact hqueued
      · exact hall j hj
    · intro e he
      rcases List.mem_cons.mp he with rfl | he
      · exact ⟨job, List.mem_cons_self, hkey⟩
      · obtain ⟨j, hj, hje⟩ := hnew e he
        exact ⟨j, List.mem_cons_of_mem _ hj, hje⟩

end MasteringService

/-- The values an entity has under a policy. -/
def ValuesUnder (svc : MasteringService) (s : Store) (policy : CompiledPolicy) (x : Id)
    (values : Dict) : Prop :=
  ∃ provenance, svc.masterValues s x policy = .ok (values, provenance)

theorem ValuesUnder.unique {values values' : Dict} (h : ValuesUnder self s policy x values)
    (h' : ValuesUnder self s policy x values') : values = values' := by
  obtain ⟨provenance, h⟩ := h
  obtain ⟨provenance', h'⟩ := h'
  rw [h] at h'
  cases h'
  rfl

/-- The changes name every live entity with every field of different values, once, with the values
before and after. -/
structure ListsChanges (live : Id → Prop) (before after : Id → Dict → Prop)
    (changes : List MasterChange) : Prop where
  valued : ∀ x, live x → (∃ values, before x values) ∧ ∃ values, after x values
  entities : (changes.map MasterChange.entityId).Nodup
  attributes : ∀ c ∈ changes, c.attributes ≠ [] ∧ (c.attributes.map Prod.fst).Nodup
  listed : ∀ x field old new,
    (∃ c ∈ changes, c.entityId = x ∧ ∃ provenance, (field, old, new, provenance) ∈ c.attributes) ↔
      live x ∧ ∃ values values', before x values ∧ after x values' ∧
        old = values.get field ∧ new = values'.get field ∧ old.pyEq new = false

theorem Dict.get_of_not_mem {d : Dict} {k : String} (h : k ∉ d.keys) : d.get k = .null := by
  have hnone : d.get? k = none := by
    rw [get?, Option.map_eq_none_iff, List.find?_eq_none]
    intro p hp hk
    exact h (List.mem_map.mpr ⟨p, hp, of_decide_eq_true hk⟩)
  rw [get, hnone]
  rfl

/-- The fields in which values differ. -/
def changedFields (before after : Dict) : List String :=
  (sortedSet (before.keys ++ after.keys)).filter fun key => !(before.get key).pyEq (after.get key)

theorem mem_changedFields {before after : Dict} {field : String} :
    field ∈ changedFields before after ↔ (before.get field).pyEq (after.get field) = false := by
  rw [changedFields, List.mem_filter, mem_sortedSet, Bool.not_eq_true', and_iff_right_iff_imp]
  intro hne
  by_contra hout
  rw [List.mem_append, not_or] at hout
  rw [Dict.get_of_not_mem hout.1, Dict.get_of_not_mem hout.2] at hne
  cases hne

namespace MasteringService

variable {current proposed : CompiledPolicy} {e : Entity} {change : Option MasterChange}

theorem simulateMaster_eq (h : self.simulateMaster s current proposed e = .ok change) :
    ∃ before after, ∃ p : String → Json, ValuesUnder self s current e.id before ∧
    ValuesUnder self s proposed e.id after ∧
      change = if (changedFields before after).isEmpty then none
        else some ⟨e.id, (changedFields before after).map fun key =>
          (key, before.get key, after.get key, p key)⟩ := by
  unfold simulateMaster at h
  simp only [Except.bind_eq_ok, Except.pure_eq_ok, Prod.exists] at h
  obtain ⟨before, p, hbefore, after, p', hafter, rfl⟩ := h
  exact ⟨before, after, p'.get, ⟨p, hbefore⟩, ⟨p', hafter⟩, rfl⟩

/-- The previews of some entities list the changes of those. -/
theorem simulateMaster_lists {es : List Entity} {changes : List (Option MasterChange)}
    (hes : (es.map Entity.id).Nodup)
    (h : es.mapM (self.simulateMaster s current proposed) = .ok changes) :
    ListsChanges (fun x => ∃ e ∈ es, e.id = x) (ValuesUnder self s current)
      (ValuesUnder self s proposed) (changes.filterMap id) := by
  have hids : ((changes.filterMap id).map MasterChange.entityId).Sublist (es.map Entity.id) := by
    have hrows := Except.mapM_forall₂ h
    clear h hes
    induction hrows with
    | nil => exact List.Sublist.refl _
    | @cons e change es changes hrow _ ih =>
      obtain ⟨before, after, p, -, -, rfl⟩ := simulateMaster_eq hrow
      split
      · exact ih.cons _
      · exact ih.cons_cons _
  have hchange : ∀ c ∈ changes.filterMap id, ∃ e ∈ es,
      self.simulateMaster s current proposed e = .ok (some c) := by
    intro c hc
    obtain ⟨change, hchange, rfl⟩ := List.mem_filterMap.mp hc
    exact (Except.mapM_mem h).1 _ hchange
  refine ⟨?_, hes.sublist hids, fun c hc => ?_, fun x field old new => ⟨?_, ?_⟩⟩
  · rintro x ⟨e, hmem, rfl⟩
    obtain ⟨change, -, he⟩ := (Except.mapM_mem h).2 e hmem
    obtain ⟨before, after, p, hbefore, hafter, -⟩ := simulateMaster_eq he
    exact ⟨⟨before, hbefore⟩, after, hafter⟩
  · obtain ⟨e, -, he⟩ := hchange c hc
    obtain ⟨before, after, p, -, -, hc⟩ := simulateMaster_eq he
    split at hc
    · cases hc
    · next hempty =>
      cases hc
      refine ⟨by simpa using hempty, ?_⟩
      rw [List.map_map]
      change ((changedFields before after).map id).Nodup
      rw [List.map_id]
      exact (sortedSet_nodup _).filter _
  · rintro ⟨c, hc, rfl, provenance, hattribute⟩
    obtain ⟨e, hmem, he⟩ := hchange c hc
    obtain ⟨before, after, p, hbefore, hafter, hc⟩ := simulateMaster_eq he
    split at hc
    · cases hc
    · cases hc
      obtain ⟨key, hkey, heq⟩ := List.mem_map.mp hattribute
      cases heq
      exact ⟨⟨e, hmem, rfl⟩, before, after, hbefore, hafter, rfl, rfl, mem_changedFields.mp hkey⟩
  · rintro ⟨⟨e, hmem, rfl⟩, values, values', hvalues, hvalues', rfl, rfl, hne⟩
    obtain ⟨change, hchange', he⟩ := (Except.mapM_mem h).2 e hmem
    obtain ⟨before, after, p, hbefore, hafter, rfl⟩ := simulateMaster_eq he
    obtain rfl := hbefore.unique hvalues
    obtain rfl := hafter.unique hvalues'
    have hfield : field ∈ changedFields before after := mem_changedFields.mpr hne
    have hsome : (changedFields before after).isEmpty = false := by
      rw [List.isEmpty_eq_false_iff]
      exact List.ne_nil_of_mem hfield
    rw [if_neg (by simp [hsome])] at hchange'
    exact ⟨_, List.mem_filterMap.mpr ⟨_, hchange', rfl⟩, rfl, p field,
      List.mem_map.mpr ⟨field, hfield, rfl⟩⟩

theorem simulatePolicy_lists {d : Domain} {detail : PolicySimulation}
    (hk : Table.Keyed Entity.id s.entities) (h : self.simulatePolicy s d proposed = .ok detail) :
    detail.domain = d.key ∧ ∃ current, compilePolicy self.rt d.definition = .ok current ∧
      ListsChanges (LiveIn self s d.key) (ValuesUnder self s current) (ValuesUnder self s proposed)
        detail.masterChanges := by
  unfold simulatePolicy at h
  simp only [Except.bind_eq_ok, Except.pure_eq_ok] at h
  obtain ⟨current, hcurrent, rows, -, links, -, validations, -, changes, hchanges, rfl⟩ := h
  refine ⟨rfl, current, hcurrent, ?_⟩
  have hscan := self.rt.scan_perm s.drawn (s.entities.filter fun e => e.workspaceId = self.wid &&
    e.domainKey = d.key && e.status ≠ .merged)
  have hlists := simulateMaster_lists
    ((hscan.map Entity.id).nodup_iff.mpr (hk.sublist (List.filter_sublist.map _))) hchanges
  have hlive : ∀ x, (∃ e ∈ self.rt.scan s.drawn (s.entities.filter fun e => e.workspaceId = self.wid &&
      e.domainKey = d.key && e.status ≠ .merged), e.id = x) ↔ LiveIn self s d.key x := by
    intro x
    unfold LiveIn
    refine exists_congr fun e => ?_
    rw [hscan.mem_iff, List.mem_filter]
    simp only [Bool.and_eq_true, decide_eq_true_eq]
    tauto
  exact funext (fun x => propext (hlive x)) ▸ hlists

theorem simulated_domains {details : List PolicySimulation} (hk : Table.Keyed Entity.id s.entities)
    (h : List.Forall₂ (fun entry detail => ∃ d, self.domain? s entry.1 = some d ∧
      self.simulatePolicy s d entry.2 = .ok detail) policies details) :
    details.map PolicySimulation.domain = policies.map Prod.fst := by
  induction h with
  | nil => rfl
  | cons hfirst _ ih =>
    obtain ⟨d, hd, hdetail⟩ := hfirst
    rw [List.map_cons, List.map_cons, ih, (simulatePolicy_lists hk hdetail).1, (domain?_key hd).2]

theorem simulate_details {simulation : Simulation} (h : self.simulate s configId = .ok (t, simulation)) :
    ∃ config policies, self.config? s configId = some config ∧
      self.configurationPolicies s config.document = .ok policies ∧
      List.Forall₂ (fun entry detail => ∃ d, self.domain? s entry.1 = some d ∧
        self.simulatePolicy s d entry.2 = .ok detail) policies simulation.result.details ∧
      t = { s with simulations := s.simulations ++ [simulation], drawn := s.drawn + 1 } := by
  unfold simulate at h
  split at h
  · cases h
  · next config hconfig =>
    simp only [Except.bind_eq_ok, Except.pure_eq_ok, Prod.mk.injEq] at h
    obtain ⟨policies, hpolicies, details, hdetails, rfl, rfl⟩ := h
    refine ⟨config, policies, hconfig, hpolicies, ?_, rfl⟩
    refine (Except.mapM_forall₂ hdetails).imp ?_
    intro entry detail hdetail
    split at hdetail
    · next d hd => exact ⟨d, hd, hdetail⟩
    · cases hdetail

theorem configurationPolicies_congr {who who' : Principal} {document : Json}
    (h : t.domains = s.domains) :
    configurationPolicies ⟨rt, who, w⟩ t document = configurationPolicies ⟨rt, who', w⟩ s document := by
  simp only [configurationPolicies, mappedPolicies, supplierPolicy, domainExists, domain?, h]
  rfl

theorem mappedPolicies_compiled {domains : Dict} (h : self.mappedPolicies s domains = .ok policies) :
    ∀ entry ∈ policies, ∃ definition, compilePolicy self.rt definition = .ok entry.2 := by
  unfold mappedPolicies at h
  split at h
  · intro entry hentry
    obtain ⟨p, -, hp⟩ := (Except.mapM_mem h).1 entry hentry
    simp only [Except.bind_eq_ok, Except.pure_eq_ok] at hp
    obtain ⟨policy, hpolicy, rfl⟩ := hp
    exact ⟨p.2, hpolicy⟩
  · cases h

theorem supplierPolicy_compiled {document : Dict} (h : self.supplierPolicy s document = .ok policies) :
    ∀ entry ∈ policies, ∃ definition, compilePolicy self.rt definition = .ok entry.2 := by
  unfold supplierPolicy at h
  simp only [Except.bind_eq_ok] at h
  obtain ⟨matching, -, h⟩ := h
  split at h
  · simp only [Except.bind_eq_ok] at h
    obtain ⟨candidate, -, matchingOf, -, thresholds, -, h⟩ := h
    -- the survivorship of the document, if it has one, goes into the definition
    have hcompiled : ∃ definition policy, compilePolicy self.rt definition = .ok policy ∧
        policies = [("supplier", policy)] := by
      split at h
      · simp only [Except.bind_eq_ok, Except.pure_eq_ok] at h
        obtain ⟨own, -, candidate', -, policy, hpolicy, rfl⟩ := h
        exact ⟨_, policy, hpolicy, rfl⟩
      · simp only [Except.bind_eq_ok, Except.pure_eq_ok] at h
        obtain ⟨candidate', -, policy, hpolicy, rfl⟩ := h
        exact ⟨_, policy, hpolicy, rfl⟩
    obtain ⟨definition, policy, hpolicy, rfl⟩ := hcompiled
    intro entry hentry
    rw [List.mem_singleton.mp hentry]
    exact ⟨definition, hpolicy⟩
  · cases h

theorem configurationPolicies_compiled {document : Json}
    (h : self.configurationPolicies s document = .ok policies) :
    ∀ entry ∈ policies, ∃ definition, compilePolicy self.rt definition = .ok entry.2 := by
  unfold configurationPolicies at h
  rw [Except.bind_eq_ok] at h
  obtain ⟨document, -, h⟩ := h
  split at h
  · rw [Except.bind_eq_ok] at h
    obtain ⟨metadata, -, h⟩ := h
    dsimp only at h
    split at h
    · cases h
    · simp only [Except.bind_eq_ok, Except.pure_eq_ok] at h
      obtain ⟨policy, hpolicy, rfl⟩ := h
      intro entry hentry
      rw [List.mem_singleton.mp hentry]
      exact ⟨_, hpolicy⟩
  · split at h
    · exact mappedPolicies_compiled h
    · exact supplierPolicy_compiled h

theorem proposeConfig_mem {configId simulationId : Id} {task : ReviewTask}
    (h : self.proposeConfig s configId simulationId = .ok (t, task)) : task ∈ t.tasks := by
  unfold proposeConfig at h
  split at h
  · cases h
  · split at h
    · cases h
    · dsimp only at h
      split at h
      · cases h
      · cases h
        exact List.mem_append_right _ (List.mem_singleton_self _)

/-- A decision that goes through has been applied to the task it names, and the task closed. -/
theorem decideTask_applied {task : ReviewTask} {d : Decision} {reason : String}
    (hk : Table.Keyed ReviewTask.id s.tasks) (hmem : task ∈ s.tasks)
    (h : self.decideTask s task.id d reason = .ok (t, .ok ())) :
    ∃ u, self.applyDecision s task (self.taskEntity s task) d reason = .ok (.done u) ∧
      t = self.closeTask u task d reason := by
  unfold decideTask at h
  split at h
  · cases h
  · next found hfound =>
    have hid := List.find?_some hfound
    simp only [Bool.and_eq_true, decide_eq_true_eq] at hid
    obtain rfl := hk.eq_of_mem (List.mem_of_find?_eq_some hfound) hmem hid.1
    split at h
    · cases h
    · split at h
      · cases h
      · split at h
        · cases h
        · split at h
          · cases h
          · rw [Except.bind_eq_ok] at h
            obtain ⟨a, ha, h⟩ := h
            cases a with
            | done u =>
              cases h
              exact ⟨u, ha, rfl⟩
            | staled u e => cases h

theorem activateConfiguration_activates {task : ReviewTask} {simulationId : Id} {checksum : String}
    (hk : Table.Keyed Domain.id s.domains)
    (h : self.activateConfiguration s task configId checksum simulationId = .ok (.done t)) :
    ∃ config policies, config ∈ s.configurations ∧ config.id = configId ∧
      self.configurationPolicies s config.document = .ok policies ∧ Activates self policies s t := by
  unfold activateConfiguration at h
  dsimp only at h
  split at h
  · next config simulation hconfig hsimulation =>
    split at h
    · cases h
    · split at h
      · cases h
      · simp only [Except.bind_eq_ok, Except.pure_eq_ok, Prod.exists] at h
        obtain ⟨policies, hpolicies, s₁, jobs, hfold, hdone⟩ := h
        cases hdone
        have hid : (config.id = configId ∧ config.workspaceId = self.wid) ∧ config.status = .draft := by
          simpa using List.find?_some hconfig
        refine ⟨config, policies, List.mem_of_find?_eq_some hconfig, hid.1.1, hpolicies, ?_⟩
        have ha := activateAll_activates hk hfold
        exact ⟨ha.entities, ha.objects, ha.records, ha.sources, ha.defined, ha.others, ha.jobs⟩
  · cases h

end MasteringService

/-- A configuration that is simulated, proposed and approved, with nothing in between. -/
structure Activation (rt : Runtime) (w : Workspace) (s : Store) where
  configId : Id
  modeler : Principal
  proposer : Principal
  approver : Principal
  reason : String
  simulation : Simulation
  task : ReviewTask
  simulated : Store
  proposed : Store
  approved : Store
  simulates : MasteringService.simulate ⟨rt, modeler, w⟩ s configId = .ok (simulated, simulation)
  proposes : MasteringService.proposeConfig ⟨rt, proposer, w⟩ simulated configId simulation.id =
    .ok (proposed, task)
  approves : MasteringService.decideTask ⟨rt, approver, w⟩ proposed task.id .approve reason =
    .ok (approved, .ok ())

namespace Activation

theorem payload (a : Activation rt w s) : ∃ version checksum checkpoint result, a.task.payload =
    .configurationApproval a.configId version checksum a.simulation.id checkpoint result := by
  have h := a.proposes
  unfold MasteringService.proposeConfig at h
  split at h
  · cases h
  · next config hconfig =>
    have hid := List.find?_some hconfig
    simp only [Bool.and_eq_true, decide_eq_true_eq] at hid
    split at h
    · cases h
    · next simulation hsimulation =>
      have hsim := List.find?_some hsimulation
      simp only [Bool.and_eq_true, decide_eq_true_eq] at hsim
      dsimp only at h
      split at h
      · cases h
      · obtain ⟨-, htask⟩ := Prod.mk.inj (Except.ok.inj h)
        rw [← htask, ← hid.1.1, ← hsim.1.1]
        exact ⟨_, _, _, _, rfl⟩

/-- Up to the approval, nothing changes but proposals, simulations and the audit. -/
theorem proposed_around (a : Activation rt w s) :
    Around rt s a.proposed ∧ SameRows rt s a.proposed := by
  obtain ⟨config, policies, -, -, -, hsimulated⟩ := MasteringService.simulate_details a.simulates
  have hs : Around rt s a.simulated := by
    rw [hsimulated]
    exact ⟨rfl, rfl, rfl, rfl, rfl, .refl, Nat.le_succ _⟩
  have hrows : SameRows rt s a.simulated := (MasteringService.simulate_quiet a.simulates).toSameRows
  have hframe := MasteringService.proposeConfig_frame a.proposes
  exact ⟨hs.trans (.frame hframe), hrows.trans hframe.toSameRows⟩

theorem activates (a : Activation rt w s) (hr : Registered rt s) :
    ∃ config policies, config ∈ s.configurations ∧ config.id = a.configId ∧
      MasteringService.configurationPolicies ⟨rt, a.modeler, w⟩ s config.document = .ok policies ∧
      List.Forall₂ (fun entry detail =>
        ∃ d, MasteringService.domain? ⟨rt, a.modeler, w⟩ s entry.1 = some d ∧
          MasteringService.simulatePolicy ⟨rt, a.modeler, w⟩ s d entry.2 = .ok detail)
        policies a.simulation.result.details ∧
      ∃ u, Activates ⟨rt, a.approver, w⟩ policies a.proposed u ∧
        a.approved = MasteringService.closeTask ⟨rt, a.approver, w⟩ u a.task .approve a.reason := by
  obtain ⟨config, policies, hconfig, hpolicies, hdetails, -⟩ := MasteringService.simulate_details a.simulates
  obtain ⟨haround, -⟩ := a.proposed_around
  have hproposed := hr.step (.around haround)
  obtain ⟨u, happlied, happroved⟩ := MasteringService.decideTask_applied hproposed.taskIds
    (MasteringService.proposeConfig_mem a.proposes) a.approves
  obtain ⟨version, checksum, checkpoint, result, hpayload⟩ := a.payload
  simp only [MasteringService.applyDecision, hpayload] at happlied
  obtain ⟨config', policies', hmem', hid', hpolicies', hactivates⟩ :=
    MasteringService.activateConfiguration_activates (haround.domains ▸ hr.domainIds) happlied
  have hfound := List.find?_some hconfig
  simp only [Bool.and_eq_true, decide_eq_true_eq] at hfound
  have hmem := List.mem_of_find?_eq_some hconfig
  -- one row has the identifier of the configuration
  have hsame : config' = config :=
    hr.configurationIds.eq_of_mem (haround.configurations ▸ hmem') hmem (hid'.trans hfound.1.symm)
  have hcongr : MasteringService.configurationPolicies ⟨rt, a.approver, w⟩ a.proposed config.document =
      MasteringService.configurationPolicies ⟨rt, a.modeler, w⟩ s config.document :=
    MasteringService.configurationPolicies_congr haround.domains
  rw [hsame, hcongr, hpolicies] at hpolicies'
  cases hpolicies'
  exact ⟨config, policies, hmem, hfound.1, hpolicies, hdetails, u, hactivates, happroved⟩

/-- The jobs of the activation are complete. -/
def Completed (_ : Activation rt w s) (t : Store) : Prop :=
  ∀ job ∈ t.jobs, job.id ∉ s.jobs.map DurableJob.id → job.status = .complete

instance (a : Activation rt w s) (t : Store) : Decidable (a.Completed t) :=
  inferInstanceAs (Decidable (∀ job ∈ t.jobs, job.id ∉ s.jobs.map DurableJob.id →
    job.status = .complete))

end Activation

/-- The preview of a domain is exact: it lists what the surviving values of live entities change in,
and the newest masters come to have the values it computed. -/
structure ExactPreview (svc : MasteringService) (s t : Store) (key : String)
    (proposed : CompiledPolicy) (detail : PolicySimulation) : Prop where
  domain : detail.domain = key
  changes : ∃ d current, svc.domain? s key = some d ∧ compilePolicy svc.rt d.definition = .ok current ∧
    ListsChanges (LiveIn svc s key) (ValuesUnder svc s current) (ValuesUnder svc s proposed)
      detail.masterChanges
  live : ∀ x, LiveIn svc t key x ↔ LiveIn svc s key x
  masters : ∀ x, LiveIn svc t key x →
    ∃ values, ValuesUnder svc s proposed x values ∧ NewestValues t x values

/-- The tables that survivorship reads are those of the simulation, the definitions apart. -/
theorem Activation.approved_tables (a : Activation rt w s)
    (hactivates : Activates ⟨rt, a.approver, w⟩ policies a.proposed t)
    (happroved : a.approved = MasteringService.closeTask ⟨rt, a.approver, w⟩ t a.task .approve a.reason) :
    a.approved.entities = s.entities ∧ a.approved.objects = s.objects ∧
      a.approved.records = s.records ∧ a.approved.sources = s.sources ∧
      a.approved.domains = t.domains ∧ a.approved.jobs = t.jobs := by
  obtain ⟨haround, hrows⟩ := a.proposed_around
  have hclose : Frame (MasteringService.mk rt a.approver w).rt t a.approved := by
    rw [happroved]
    exact MasteringService.closeTask_frame
  refine ⟨?_, ?_, ?_, ?_, hclose.domains, hclose.jobs⟩
  · rw [hclose.entities, hactivates.entities, hrows.entities]
  · rw [hclose.objects, hactivates.objects, hrows.objects]
  · rw [hclose.records, hactivates.records, hrows.records]
  · rw [hclose.sources, hactivates.sources, haround.sources]

theorem Activation.approved_integrity (a : Activation rt w s) (h : Integrity rt w s) :
    Integrity rt w a.approved := by
  have hproposed := h.sameRows a.proposed_around.2
  rcases MasteringService.decideTask_effect hproposed a.approves with ⟨-, hne⟩ | ⟨task, -, -, heffect⟩
  · exact (hne rfl).elim
  · exact heffect.integrity hproposed

theorem Activation.approved_registered (a : Activation rt w s) (h : Integrity rt w s)
    (hr : Registered rt s) : Registered rt a.approved :=
  (hr.step (.around a.proposed_around.1)).step
    (MasteringService.decideTask_registers (h.sameRows a.proposed_around.2) a.approves)

theorem Mastered.values {proposed : CompiledPolicy} {definition : Json} {d : Domain} {after : Dict}
    (h : Mastered self t x) (hi : Integrity self.rt self.workspace t) (hlive : LiveIn self t key x)
    (hd : self.domain? t key = some d) (hdefined : d.definition = proposed.canonicalDocument)
    (hcompiled : compilePolicy self.rt definition = .ok proposed) (hranks : RanksKept s t)
    (hc : self.SameContributions s t x) (hafter : ValuesUnder self s proposed x after) :
    NewestValues t x after := by
  obtain ⟨e, he, rfl, values, hvalues, hnewest⟩ := h
  obtain ⟨e', he', hid, -, hkey, -⟩ := hlive
  obtain rfl := hi.entityIds.eq_of_mem he' he hid
  obtain ⟨provenance, hafter⟩ := hafter
  unfold MasteringService.survivors at hvalues
  rw [hkey, hd] at hvalues
  simp only [Except.bind_eq_ok, Except.pure_eq_ok, Prod.exists] at hvalues
  obtain ⟨recompiled, hrecompiled, values', provenance', hmaster, rfl⟩ := hvalues
  rw [hdefined] at hrecompiled
  obtain ⟨provenance'', hsame⟩ := MasteringService.masterValues_sorted
    (survivorship_recompiled hcompiled hrecompiled) hranks hc hafter
  rw [hsame] at hmaster
  cases hmaster
  exact hnewest

/-- A job that was queued for a domain and is complete has mastered the live entities of the domain. -/
theorem Done.mastered {old : List Id} {job : DurableJob}
    (h : Done self old t) (hw : Worked self s t) (hjob : job ∈ s.jobs) (hnew : job.id ∉ old)
    (hcomplete : ∀ j ∈ t.jobs, j.id ∉ old → j.status = .complete)
    (hlive : LiveIn self t (job.domainKey self.rt) x) : Mastered self t x := by
  have hrow : (job.id, job.payload) ∈ t.jobs.map fun j => (j.id, j.payload) := by
    rw [hw.jobs]
    exact List.mem_map_of_mem hjob
  obtain ⟨j, hj, heq⟩ := List.mem_map.mp hrow
  obtain ⟨hid, hpayload⟩ := Prod.mk.inj heq
  refine h j hj (hid ▸ hnew) (hcomplete j hj (hid ▸ hnew)) x ?_
  rw [DurableJob.domainKey, hpayload]
  exact hlive

/-- The previews of an activation are exact once its jobs are complete. -/
theorem Activation.previews_exact (a : Activation rt w s) (hi : Integrity rt w s) (hr : Registered rt s)
    (hstr : ∀ text, rt.strOf (.str text) = text) (ids : List Id)
    (hcompleted : a.Completed ((service rt).run a.approved (ids.map (.runJob w.id)))) :
    ∃ config ∈ s.configurations, config.id = a.configId ∧ ∃ policies,
      MasteringService.configurationPolicies ⟨rt, a.modeler, w⟩ s config.document = .ok policies ∧
      a.simulation.result.details.map PolicySimulation.domain = policies.map Prod.fst ∧
      ∀ key proposed, policyOf policies key = some proposed →
        ∃ detail ∈ a.simulation.result.details, ExactPreview ⟨rt, a.modeler, w⟩ s
          ((service rt).run a.approved (ids.map (.runJob w.id))) key proposed detail := by
  obtain ⟨config, policies, hmem, hid, hpolicies, hdetails, t, hactivates, happroved⟩ := a.activates hr
  obtain ⟨hentities, hobjects, hrecords, hsources, hdomains, hjobs⟩ :=
    a.approved_tables hactivates happroved
  have hti := a.approved_integrity hi
  have htr := a.approved_registered hi hr
  obtain ⟨new, hnew, hqueued, hqueue⟩ := hactivates.jobs
  rw [a.proposed_around.1.jobs] at hnew
  -- the jobs of the activation are queued, and all others have been there before
  have hdone : Done ⟨rt, workerPrincipal w.id, w⟩ (s.jobs.map DurableJob.id) a.approved := by
    intro job hjob hfresh hcomplete
    rw [hjobs, hnew] at hjob
    rcases List.mem_append.mp hjob with hjob | hjob
    · exact (hfresh (List.mem_map_of_mem hjob)).elim
    · rw [hqueued job hjob] at hcomplete
      cases hcomplete
  obtain ⟨hworked, hdone⟩ := worker_run ids hti htr hdone
  have hui : Integrity rt w ((service rt).run a.approved (ids.map (.runJob w.id))) := integrity_run hti
  generalize (service rt).run a.approved (ids.map (.runJob w.id)) = u at hcompleted hworked hdone hui ⊢
  have hplaces : u.entities.map Entity.place = s.entities.map Entity.place := by
    rw [hworked.places, hentities]
  have hcontributions : ∀ x, MasteringService.SameContributions ⟨rt, a.modeler, w⟩ s u x := by
    intro x
    refine Eq.trans (hworked.contributions x) ?_
    unfold MasteringService.currentRecords
    rw [hobjects, hrecords]
    rfl
  have hranks : RanksKept s u := ranksKept_of_map (by rw [hworked.sources, hsources])
  have hdomain : ∀ key, MasteringService.domain? ⟨rt, a.approver, w⟩ t key =
      MasteringService.domain? ⟨rt, workerPrincipal w.id, w⟩ u key := by
    intro key
    unfold MasteringService.domain?
    rw [hworked.domains, hdomains]
    rfl
  refine ⟨config, hmem, hid, policies, hpolicies, ?_, fun key proposed hproposed => ?_⟩
  · exact MasteringService.simulated_domains hi.entityIds hdetails
  obtain ⟨detail, hdetail, d, hd, hpreview⟩ := (Except.forall₂_mem hdetails).2 _ (policyOf_mem hproposed)
  obtain ⟨hdetailKey, current, hcurrent, hlists⟩ :=
    MasteringService.simulatePolicy_lists hi.entityIds hpreview
  obtain ⟨-, hkey⟩ := MasteringService.domain?_key hd
  dsimp only at hkey
  rw [hkey] at hlists hdetailKey
  have hlive : ∀ x, LiveIn ⟨rt, a.modeler, w⟩ u key x ↔ LiveIn ⟨rt, a.modeler, w⟩ s key x :=
    fun x => liveIn_of_places hplaces
  refine ⟨detail, hdetail, hdetailKey, ⟨d, current, hd, hcurrent, hlists⟩, hlive, fun x hx => ?_⟩
  obtain ⟨-, after, hafter⟩ := hlists.valued x ((hlive x).mp hx)
  refine ⟨after, hafter, ?_⟩
  obtain ⟨definition, hcompiled⟩ :=
    MasteringService.configurationPolicies_compiled hpolicies _ (policyOf_mem hproposed)
  obtain ⟨d', hd', hdefined⟩ := hactivates.defined key proposed hproposed
  have hlive' : LiveIn ⟨rt, workerPrincipal w.id, w⟩ u key x := hx
  have hmastered : Mastered ⟨rt, workerPrincipal w.id, w⟩ u x := by
    obtain ⟨job, hjob, hpayload⟩ := hqueue _ (policyOf_mem hproposed)
    have hids := htr.jobIds
    rw [hjobs, hnew, Table.Keyed, List.map_append] at hids
    have hlisted : job ∈ a.approved.jobs := by
      rw [hjobs, hnew]
      exact List.mem_append_right _ hjob
    refine hdone.mastered hworked hlisted ?_ hcompleted ?_
    · exact fun hold => List.disjoint_of_nodup_append hids hold (List.mem_map_of_mem hjob)
    · rw [DurableJob.domainKey, hpayload, hstr]
      exact hlive'
  exact Mastered.values hmastered hui hlive' (hdomain key ▸ hd') hdefined hcompiled hranks
    (hcontributions x) hafter

end Recordlane
