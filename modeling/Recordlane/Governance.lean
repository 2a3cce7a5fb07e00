import Recordlane.Operations
import Mathlib.Data.List.Induction

/-! Who writes the definition of a domain: its creation, an approved configuration, or an import. -/
namespace Recordlane

variable {rt : Runtime} {w : Workspace} {self : MasteringService} {s s' t u : Store}
  {task : ReviewTask} {op : Operation} {W : String → Json → Prop}

/-- A result is the canonical form of a definition. -/
def CanonicalOf (rt : Runtime) (definition result : Json) : Prop :=
  ∃ policy, compilePolicy rt definition = .ok policy ∧ result = policy.canonicalDocument

/-- The operations that write a definition of a domain, in the state they find: the creation of the
domain, on its own or from a bundle, and the approval of a configuration whose simulation is not
stale. -/
inductive Governs (rt : Runtime) (w : Workspace) (s : Store) : Operation → String → Json → Prop
  | created {who : Principal} {key name mode : String} {definition : Dict} {result : Json}
      (hn : MasteringService.domain? ⟨rt, who, w⟩ s key = none)
      (hc : CanonicalOf rt (.obj (definition.set "mode" (.str mode))) result) :
      Governs rt w s (.request (.createDomain who key name mode definition)) key result
  | brought {who : Principal} {bundle : WorkspaceBundle} {replaceExisting : Bool}
      {targetWorkspace : Option String} {item : BundleDomain} {definition : Dict} {result : Json}
      (hi : item ∈ bundle.domains) (hn : MasteringService.domain? ⟨rt, who, w⟩ s item.key = none)
      (hd : CanonicalOf rt item.document (.obj definition))
      (hc : CanonicalOf rt (.obj (definition.set "mode" (.str item.mode))) result) :
      Governs rt w s (.importBundle who bundle replaceExisting targetWorkspace) item.key result
  | approved {who : Principal} {taskId : Id} {reason : String} {task : ReviewTask}
      {config : ConfigurationVersion} {simulation : Simulation} {version checkpoint : Nat}
      {impact : SimulationResult} {policies : List (String × CompiledPolicy)} {key : String}
      {policy : CompiledPolicy} (ht : task ∈ s.tasks) (hid : task.id = taskId)
      (hopen : task.status = .opened)
      (hp : task.payload = .configurationApproval config.id version config.checksum simulation.id
        checkpoint impact)
      (hc : config ∈ s.configurations) (hs : simulation ∈ s.simulations)
      (hof : simulation.configId = config.id)
      (hfresh : simulation.result.snapshotHash = MasteringService.snapshotHash ⟨rt, who, w⟩ s)
      (hpolicies : MasteringService.configurationPolicies ⟨rt, who, w⟩ s config.document = .ok policies)
      (hpolicy : (key, policy) ∈ policies) :
      Governs rt w s (.request (.decideTask who taskId .approve reason)) key policy.canonicalDocument

/-- The import of a bundle that is to replace what exists, by a principal who may write models. -/
inductive Replaces (rt : Runtime) : Operation → String → Json → Prop
  | replaced {who : Principal} {bundle : WorkspaceBundle} {targetWorkspace : Option String}
      {item : BundleDomain} {result : Json} (ha : who.allows "model:write" = true)
      (hi : item ∈ bundle.domains) (hc : CanonicalOf rt item.document result) :
      Replaces rt (.importBundle who bundle true targetWorkspace) item.key result

/-- Domains are added or defined anew, and the rest of each stays. -/
structure Redefines (W : String → Json → Prop) (s t : Store) : Prop where
  origin : ∀ d' ∈ t.domains, W d'.key d'.definition ∨
    ∃ d ∈ s.domains, d.workspaceId = d'.workspaceId ∧ d.key = d'.key ∧ d.definition = d'.definition
  persists : ∀ d ∈ s.domains, ∃ d' ∈ t.domains, d'.workspaceId = d.workspaceId ∧ d'.key = d.key
  keys : Table.Keyed (fun d : Domain => (d.workspaceId, d.key)) s.domains →
    Table.Keyed (fun d : Domain => (d.workspaceId, d.key)) t.domains

namespace Redefines

theorem of_eq (h : t.domains = s.domains) : Redefines W s t where
  origin d hd := .inr ⟨d, h ▸ hd, rfl, rfl, rfl⟩
  persists d hd := ⟨d, h ▸ hd, rfl, rfl⟩
  keys hk := h ▸ hk

theorem trans (h : Redefines W s t) (h' : Redefines W t u) : Redefines W s u where
  origin d hd := by
    rcases h'.origin d hd with hw | ⟨d', hd', hworkspace, hkey, hdefinition⟩
    · exact .inl hw
    · rw [← hworkspace, ← hkey, ← hdefinition]
      exact h.origin d' hd'
  persists d hd := by
    obtain ⟨d', hd', hw, hk⟩ := h.persists d hd
    obtain ⟨d'', hd'', hw', hk'⟩ := h'.persists d' hd'
    exact ⟨d'', hd'', hw'.trans hw, hk'.trans hk⟩
  keys hk := h'.keys (h.keys hk)

theorem append {d : Domain} (ht : t.domains = s.domains ++ [d])
    (hn : ∀ d' ∈ s.domains, ¬ (d'.workspaceId = d.workspaceId ∧ d'.key = d.key))
    (hw : W d.key d.definition) : Redefines W s t where
  origin d' hd' := by
    rw [ht, List.mem_append, List.mem_singleton] at hd'
    rcases hd' with hd' | rfl
    · exact .inr ⟨d', hd', rfl, rfl, rfl⟩
    · exact .inl hw
  persists d' hd' := ⟨d', by rw [ht]; exact List.mem_append_left _ hd', rfl, rfl⟩
  keys hk := by
    rw [ht]
    refine hk.append fun d' hd' heq => hn d' hd' ?_
    exact ⟨congrArg Prod.fst heq, congrArg Prod.snd heq⟩

theorem modify {d : Domain} {f : Domain → Domain} (hk : Table.Keyed Domain.id s.domains)
    (hd : d ∈ s.domains) (ht : t.domains = Table.modify Domain.id s.domains d.id f)
    (hf : ∀ d, (f d).workspaceId = d.workspaceId ∧ (f d).key = d.key)
    (hw : W d.key (f d).definition) : Redefines W s t where
  origin d' hd' := by
    rw [ht, Table.mem_modify] at hd'
    rcases hd' with ⟨hd', -⟩ | ⟨d₀, hd₀, hid, rfl⟩
    · exact .inr ⟨d', hd', rfl, rfl, rfl⟩
    · rw [hk.eq_of_mem hd₀ hd hid, (hf d).2]
      exact .inl hw
  persists d' hd' := by
    refine ⟨_, ht ▸ Table.mem_modify_of_mem hd', ?_⟩
    split
    · exact hf d'
    · exact ⟨rfl, rfl⟩
  keys hkeys := by
    rw [ht]
    refine hkeys.map fun d' _ => ?_
    split
    · exact Prod.ext (hf d').1 (hf d').2
    · rfl

end Redefines

namespace MasteringService

theorem createDomain_redefines {key name mode : String} {definition : Dict} {d : Domain}
    (h : self.createDomain s key name mode definition = .ok (t, d))
    (hw : ∀ result, self.domain? s key = none →
      CanonicalOf self.rt (.obj (definition.set "mode" (.str mode))) result → W key result) :
    Redefines W s t := by
  unfold createDomain at h
  split at h
  · cases h
  · next hfree =>
    simp only [Except.bind_eq_ok, Except.pure_eq_ok, Prod.mk.injEq] at h
    obtain ⟨policy, hpolicy, rfl, -⟩ := h
    have hnone : self.domain? s key = none := by simpa using hfree
    refine .append (d := {
      id := self.fresh s
      workspaceId := self.wid
      key := key
      name := name
      mode := mode
      schemaVersion := 1
      definition := policy.canonicalDocument }) rfl ?_ (hw _ hnone ⟨policy, ?_, rfl⟩)
    · intro d' hd' hsame
      have hno := List.find?_eq_none.mp hnone d' hd'
      simp [hsame.1, hsame.2] at hno
    · cases hcompiled : compilePolicy self.rt (.obj (definition.set "mode" (.str mode))) with
      | ok compiled =>
        rw [hcompiled] at hpolicy
        exact congrArg Except.ok (Except.ok.inj hpolicy)
      | error e =>
        rw [hcompiled] at hpolicy
        cases e <;> simp [refusePolicy, httpError] at hpolicy

theorem createDomain_aside {key name mode : String} {definition : Dict} {d : Domain}
    (h : self.createDomain s key name mode definition = .ok (t, d)) :
    t.blocks = s.blocks ∧ t.jobs = s.jobs := by
  unfold createDomain at h
  split at h
  · cases h
  · simp only [Except.bind_eq_ok, Except.pure_eq_ok, Prod.mk.injEq] at h
    obtain ⟨_, -, rfl, -⟩ := h
    exact ⟨rfl, rfl⟩

/-- The policies of a configuration are all that its activation writes. -/
theorem activateAll_redefines {policies : List (String × CompiledPolicy)} {configId : Id}
    {state state' : Store × List Id} (hk : Table.Keyed Domain.id state.1.domains)
    (h : policies.foldlM (self.activateDomain configId) state = .ok state')
    (hw : ∀ entry ∈ policies, W entry.1 entry.2.canonicalDocument) : Redefines W state.1 state'.1 := by
  refine (Except.foldlM_invariant (P := fun state' => Redefines W state.1 state'.1 ∧
    Table.Keyed Domain.id state'.1.domains) h ⟨.of_eq rfl, hk⟩ ?_).1
  intro u entry u' hentry hu hstep
  obtain ⟨d, job, hd, -, -, hu'⟩ := activateDomain_cases hstep
  have hdomains : u'.1.domains = Table.modify Domain.id u.1.domains d.id (redefine entry.2) := by
    rw [hu']
  obtain ⟨hmem, hkey⟩ := domain?_key hd
  constructor
  · refine hu.1.trans (.modify hu.2 hmem hdomains (fun _ => ⟨rfl, rfl⟩) ?_)
    rw [hkey]
    exact hw entry hentry
  · rw [hdomains]
    exact hu.2.map fun d' _ => by split <;> rfl

end MasteringService

theorem Activating.spec {taskId : Id} {reason : String} (a : Activating self s taskId reason t) :
    ∃ config ∈ s.configurations, ∃ simulation ∈ s.simulations, ∃ policies jobs u,
      config.id = a.configId ∧ config.checksum = a.checksum ∧ simulation.id = a.simulationId ∧
      simulation.configId = config.id ∧ simulation.result.snapshotHash = self.snapshotHash s ∧
      self.configurationPolicies s config.document = .ok policies ∧
      policies.foldlM (self.activateDomain config.id) ({ s with
        configurations := Table.modify ConfigurationVersion.id
          (s.configurations.map self.retireActive) config.id fun c => { c with status := .active } },
        []) = .ok (u, jobs) ∧
      Frame self.rt u t := by
  have h := a.activates
  unfold MasteringService.activateConfiguration at h
  dsimp only at h
  split at h
  · next config simulation hconfig hsimulation =>
    split at h
    · cases h
    · next hchecksum =>
      split at h
      · cases h
      · next hhash =>
        simp only [Except.bind_eq_ok, Except.pure_eq_ok, Prod.exists] at h
        obtain ⟨policies, hpolicies, u, jobs, hfold, hdone⟩ := h
        have hactivated := Applied.done.inj hdone
        have hid : (config.id = a.configId ∧ config.workspaceId = self.wid) ∧
            config.status = .draft := by simpa using List.find?_some hconfig
        have hof : (simulation.id = a.simulationId ∧ simulation.workspaceId = self.wid) ∧
            simulation.configId = a.configId := by simpa using List.find?_some hsimulation
        refine ⟨config, List.mem_of_find?_eq_some hconfig, simulation,
          List.mem_of_find?_eq_some hsimulation, policies, jobs, u, hid.1.1, of_not_not hchecksum,
          hof.1.1, hof.2.trans hid.1.1.symm, (of_not_not hhash).symm, hpolicies, hfold, ?_⟩
        rw [a.closed, ← hactivated]
        exact (self.audit_frame ..).trans MasteringService.closeTask_frame
  · cases h

theorem Activating.redefines {who : Principal} {taskId : Id} {reason : String}
    (a : Activating ⟨rt, who, w⟩ s taskId reason t) (hk : Table.Keyed Domain.id s.domains) :
    Redefines (Governs rt w s (.request (.decideTask who taskId .approve reason))) s t := by
  obtain ⟨config, hconfig, simulation, hsimulation, policies, jobs, u, hid, hchecksum, hsid, hof,
    hhash, hpolicies, hfold, hframe⟩ := a.spec
  have hpayload : a.task.payload = .configurationApproval config.id a.version config.checksum
      simulation.id a.checkpoint a.result := by
    rw [hid, hchecksum, hsid]
    exact a.payload
  have hwritten := MasteringService.activateAll_redefines
    (W := Governs rt w s (.request (.decideTask who taskId .approve reason))) hk hfold
    fun entry hentry =>
      .approved a.listed a.named a.opened hpayload hconfig hsimulation hof hhash hpolicies hentry
  have hwritten' := hwritten.trans (.of_eq hframe.domains)
  exact ⟨hwritten'.origin, hwritten'.persists, hwritten'.keys⟩

/-- What an import brings in: domains and sources may be written, and configurations added. -/
structure Imports (rt : Runtime) (W : String → Json → Prop) (s t : Store) : Prop where
  quiet : Quiet rt s t
  registers : Registers rt s t
  redefines : Redefines W s t
  blocks : t.blocks = s.blocks
  jobs : t.jobs = s.jobs

namespace Imports

theorem refl (s : Store) : Imports rt W s s := ⟨.refl s, .refl s, .of_eq rfl, rfl, rfl⟩

theorem trans (h : Imports rt W s t) (h' : Imports rt W t u) : Imports rt W s u :=
  ⟨h.quiet.trans h'.quiet, h.registers.trans h'.registers, h.redefines.trans h'.redefines,
    h'.blocks.trans h.blocks, h'.jobs.trans h.jobs⟩

theorem aside (hq : Quiet rt s t) (hr : Registers rt s t) (ha : Aside s t) : Imports rt W s t :=
  ⟨hq, hr, .of_eq ha.domains, ha.blocks, ha.jobs⟩

end Imports

namespace MasteringService

theorem domain?_none_of_persists {key : String} (h : Redefines W s t)
    (hnone : self.domain? t key = none) : self.domain? s key = none := by
  refine List.find?_eq_none.mpr fun d hd hsame => ?_
  simp only [Bool.and_eq_true, decide_eq_true_eq] at hsame
  obtain ⟨d', hd', hw, hk⟩ := h.persists d hd
  exact List.find?_eq_none.mp hnone d' hd' (by simp [hw, hk, hsame])

theorem importDomain_imports {replaceExisting : Bool} {state state' : Store × Imported}
    {item : BundleDomain} (hr : Registered self.rt state.1)
    (h : self.importDomain replaceExisting state item = .ok state')
    (hreplaced : ∀ result, replaceExisting = true → CanonicalOf self.rt item.document result →
      W item.key result)
    (hbrought : ∀ (definition : Dict) result, self.domain? state.1 item.key = none →
      CanonicalOf self.rt item.document (.obj definition) →
      CanonicalOf self.rt (.obj (definition.set "mode" (.str item.mode))) result →
      W item.key result) : Imports self.rt W state.1 state'.1 := by
  unfold importDomain at h
  dsimp only at h
  rw [Except.bind_eq_ok] at h
  obtain ⟨policy, hpolicy, h⟩ := h
  split at h
  · next existing hexisting =>
    split at h
    · cases h
      exact .refl _
    · split at h
      · cases h
      · next hreplace =>
        cases h
        obtain ⟨hmem, hkey⟩ := domain?_key hexisting
        refine ⟨⟨⟨⟨rfl, rfl, rfl, rfl, rfl, .refl, le_rfl⟩, rfl, .refl _⟩, rfl, rfl⟩, ?_, ?_, rfl, rfl⟩
        · exact .of_ids (Table.map_key_modify fun _ => rfl) rfl rfl rfl le_rfl
        · refine .modify hr.domainIds hmem rfl (fun _ => ⟨rfl, rfl⟩) ?_
          rw [hkey]
          exact hreplaced _ (by simpa using hreplace) ⟨policy, hpolicy, rfl⟩
  · next hnone =>
    simp only [Except.bind_eq_ok, Except.pure_eq_ok, Prod.exists] at h
    obtain ⟨definition, hdefinition, u, d, hcreate, rfl⟩ := h
    have hobj : policy.canonicalDocument = .obj definition := by
      cases hdoc : policy.canonicalDocument with
      | obj kvs =>
        rw [hdoc] at hdefinition
        rw [Except.ok.inj hdefinition]
      | _ =>
        rw [hdoc] at hdefinition
        cases hdefinition
    have haside := createDomain_aside hcreate
    exact ⟨createDomain_quiet hcreate, createDomain_registers hcreate,
      createDomain_redefines hcreate fun result _ =>
        hbrought definition result hnone ⟨policy, hpolicy, hobj.symm⟩,
      haside.1, haside.2⟩

theorem importSource_imports {replaceExisting : Bool} {state state' : Store × Imported}
    {item : BundleSource} (h : self.importSource replaceExisting state item = .ok state') :
    Imports self.rt W state.1 state'.1 := by
  unfold importSource at h
  dsimp only at h
  split at h
  · split at h
    · cases h
      exact .refl _
    · split at h
      · cases h
      · cases h
        exact .aside ⟨⟨⟨rfl, rfl, rfl, rfl, rfl, .refl, le_rfl⟩, rfl, .refl _⟩, rfl, rfl⟩
          (.of_ids rfl rfl rfl rfl le_rfl) ⟨rfl, rfl, rfl⟩
  · cases h
    exact .aside ⟨⟨⟨rfl, rfl, rfl, rfl, rfl, .refl, Nat.le_succ _⟩, rfl, .refl _⟩, rfl, rfl⟩
      (.of_ids rfl rfl rfl rfl (Nat.le_succ _)) ⟨rfl, rfl, rfl⟩

theorem importConfiguration_imports {state state' : Store × Imported} {document : Dict}
    (h : self.importConfiguration state document = .ok state') :
    Imports self.rt W state.1 state'.1 := by
  unfold importConfiguration at h
  dsimp only at h
  split at h
  · rw [Except.pure_eq_ok] at h
    rw [← h]
    exact .refl _
  · simp only [Except.bind_eq_ok, Except.pure_eq_ok, Prod.exists] at h
    obtain ⟨u, c, hcreate, rfl⟩ := h
    exact .aside (createConfig_quiet hcreate) (createConfig_registers hcreate)
        (createConfig_aside hcreate).toAside

theorem importBundle_imports {bundle : WorkspaceBundle} {replaceExisting : Bool} {imported : Imported}
    (hr : Registered self.rt s)
    (h : self.importBundle s bundle replaceExisting = .ok (t, imported))
    (hreplaced : ∀ item ∈ bundle.domains, ∀ result, replaceExisting = true →
      CanonicalOf self.rt item.document result → W item.key result)
    (hbrought : ∀ item ∈ bundle.domains, ∀ (definition : Dict) result,
      self.domain? s item.key = none → CanonicalOf self.rt item.document (.obj definition) →
      CanonicalOf self.rt (.obj (definition.set "mode" (.str item.mode))) result →
      W item.key result) : Imports self.rt W s t := by
  unfold importBundle at h
  split at h
  · cases h
  · simp only [Except.bind_eq_ok, Except.pure_eq_ok, Prod.exists, Prod.mk.injEq] at h
    obtain ⟨-, -, s₁, n₁, hdomains, s₂, n₂, hsources, s₃, n₃, hconfigurations, rfl, -⟩ := h
    have h₁ := (Except.foldlM_invariant
      (P := fun state => Imports self.rt W s state.1 ∧ Registered self.rt state.1) hdomains
      ⟨.refl s, hr⟩ fun u item u' hitem hu hstep => by
        have hstep := importDomain_imports hu.2 hstep (hreplaced item hitem) fun definition result hnone =>
          hbrought item hitem definition result (domain?_none_of_persists hu.1.redefines hnone)
        exact ⟨hu.1.trans hstep, hu.2.step hstep.registers⟩).1
    have h₂ := Except.foldlM_invariant (P := fun state => Imports self.rt W s state.1) hsources h₁
      fun u item u' _ hu hstep => hu.trans (importSource_imports hstep)
    have h₃ := Except.foldlM_invariant (P := fun state => Imports self.rt W s state.1) hconfigurations h₂
      fun u document u' _ hu hstep => hu.trans (importConfiguration_imports hstep)
    exact h₃.trans (.aside (self.audit_frame ..).toQuiet (.frame (self.audit_frame ..))
      (.frame (self.audit_frame ..)))

theorem assistantDraft_imports {purpose : String} {draft : Option Json} {configId : Option Id}
    (h : self.assistantDraft s purpose draft = .ok (t, configId)) : Imports self.rt W s t := by
  have haudit : ∀ {u : Store} {action objectType objectId : String} {detail : Dict},
      Imports self.rt W u (self.audit u action objectType objectId detail) := fun {u _ _ _ _} =>
    .aside (self.audit_frame ..).toQuiet (.frame (self.audit_frame ..)) (.frame (self.audit_frame ..))
  unfold assistantDraft at h
  split at h
  · split at h
    · split at h
      · next hcreate =>
        simp only [pure_bind, Except.pure_eq_ok, Prod.mk.injEq] at h
        obtain ⟨rfl, -⟩ := h
        exact (Imports.aside (createConfig_quiet hcreate) (createConfig_registers hcreate)
          (createConfig_aside hcreate).toAside).trans haudit
      · cases h
      · cases h
    · simp only [pure_bind, Except.pure_eq_ok, Prod.mk.injEq] at h
      obtain ⟨rfl, -⟩ := h
      exact haudit
  · simp only [pure_bind, Except.pure_eq_ok, Prod.mk.injEq] at h
    obtain ⟨rfl, -⟩ := h
    exact haudit

end MasteringService

/-- An operation writes a definition under the governance of approvals, or a bundle replaces it. -/
def Writes (rt : Runtime) (w : Workspace) (s : Store) (op : Operation) (key : String)
    (definition : Json) : Prop :=
  Governs rt w s op key definition ∨ Replaces rt op key definition

theorem authorized_start {who : Principal} {permission : String} (hw : s.workspaces = [w])
    (h : authorized rt s who permission = .ok self) :
    who.allows permission = true ∧ self = ⟨rt, who, w⟩ := by
  unfold authorized at h
  split at h
  · next hallows => exact ⟨hallows, start_workspace hw h⟩
  · cases h

theorem importTarget_start {who : Principal} {targetWorkspace : Option String}
    (hw : s.workspaces = [w]) (h : importTarget rt s who targetWorkspace = .ok self) :
    who.allows "model:write" = true ∧ ∃ who', self = ⟨rt, who', w⟩ := by
  unfold importTarget at h
  rw [Except.bind_eq_ok] at h
  obtain ⟨self', hself, h⟩ := h
  obtain ⟨hallows, rfl⟩ := authorized_start hw hself
  refine ⟨hallows, ?_⟩
  split at h
  · exact ⟨who, (Except.pure_eq_ok.mp h).symm⟩
  · split at h
    · cases h
    · exact ⟨_, start_workspace hw h⟩

/-- What the operations beside requests do. -/
inductive Operates (rt : Runtime) (w : Workspace) (s : Store) : Operation → Store → Prop
  | request (request : Request) : Operates rt w s (.request request) ((service rt).next s request)
  | refused {op : Operation} : Operates rt w s op s
  | imports {op : Operation} {t : Store} (hok : ((operations rt).step s op).2.isOk = true)
      (h : Imports rt (Writes rt w s op) s t) : Operates rt w s op t
  | failed {workspaceId : String} {jobId : Id} {t : Store}
      (h : MasteringService.failJob ⟨rt, workerPrincipal workspaceId, w⟩ s jobId = .ok t) :
      Operates rt w s (.failJob workspaceId jobId) t

theorem next_request (request : Request) :
    (operations rt).next s (.request request) = (service rt).next s request ∧
      ((operations rt).step s (.request request)).2.isOk = ((service rt).step s request).2.isOk := by
  simp only [System.next, operations, operate, service]
  cases transact rt s request with
  | error e => exact ⟨rfl, rfl⟩
  | ok committed =>
    obtain ⟨t, answer⟩ := committed
    cases answer <;> exact ⟨rfl, rfl⟩

theorem next_operates (hi : Integrity rt w s) (hr : Registered rt s) (op : Operation) :
    Operates rt w s op ((operations rt).next s op) := by
  cases ho : operate rt s op with
  | error e =>
    rw [show (operations rt).next s op = s by simp only [System.next, operations, ho]]
    exact .refused
  | ok committed =>
    obtain ⟨t, reply⟩ := committed
    have hnext : (operations rt).next s op = t := by simp only [System.next, operations, ho]
    have hreply : ((operations rt).step s op).2 = reply := by simp only [operations, ho]
    cases op with
    | request request =>
      rw [(next_request request).1]
      exact .request request
    | assistantDraft who purpose draft =>
      rw [hnext]
      simp only [operate, Except.bind_eq_ok, Except.pure_eq_ok, Prod.exists, Prod.mk.injEq] at ho
      obtain ⟨self, hself, u, configId, hdraft, rfl, rfl⟩ := ho
      obtain ⟨-, rfl⟩ := authorized_start hi.workspaces hself
      exact .imports (by rw [hreply]; rfl) (MasteringService.assistantDraft_imports hdraft)
    | importBundle who bundle replaceExisting targetWorkspace =>
      rw [hnext]
      simp only [operate, Except.bind_eq_ok, Except.pure_eq_ok, Prod.exists, Prod.mk.injEq] at ho
      obtain ⟨self, hself, u, imported, himport, rfl, rfl⟩ := ho
      obtain ⟨hallows, who', rfl⟩ := importTarget_start hi.workspaces hself
      refine .imports (by rw [hreply]; rfl) (MasteringService.importBundle_imports hr himport ?_ ?_)
      · rintro item hitem result rfl hc
        exact .inr (.replaced hallows hitem hc)
      · intro item hitem definition result hnone hd hc
        exact .inl (.brought hitem hnone hd hc)
    | failJob workspaceId jobId =>
      rw [hnext]
      simp only [operate, Except.bind_eq_ok, Except.pure_eq_ok, Prod.mk.injEq] at ho
      obtain ⟨self, hself, u, hfail, rfl, -⟩ := ho
      obtain rfl := start_workspace hi.workspaces hself
      exact .failed hfail

theorem Page.finished_tables {req : IngestRequest} (p : Page self s req)
    (h : Integrity self.rt self.workspace s) :
    p.finished.domains = s.domains ∧ p.finished.jobs = s.jobs := by
  have hobserved := p.observed_around h
  obtain ⟨runs, n, hbegun⟩ := MasteringService.beginPage_runs p.begins
  have hfinished : p.finished.domains = p.observed.domains ∧ p.finished.jobs = p.observed.jobs := by
    unfold Page.finished MasteringService.finishBatch
    cases p.run <;> exact ⟨rfl, rfl⟩
  rw [hfinished.1, hfinished.2, hobserved.domains, hobserved.jobs, hbegun]
  exact ⟨rfl, rfl⟩

theorem failJob_writes {jobId : Id} (h : self.failJob s jobId = .ok t) :
    ∃ jobs : List DurableJob, jobs.map DurableJob.id = s.jobs.map DurableJob.id ∧
      t = { s with jobs := jobs } := by
  unfold MasteringService.failJob at h
  split at h
  · cases h
  · split at h
    · cases h
    · cases h
      refine ⟨_, ?_, rfl⟩
      exact Table.map_key_modify fun _ => rfl

/-- The definitions that an operation leaves are those it has found, and those it writes when it goes
through. -/
theorem next_redefines (hi : Integrity rt w s) (hr : Registered rt s) (op : Operation) :
    Redefines (fun key definition => ((operations rt).step s op).2.isOk = true ∧
      Writes rt w s op key definition) s ((operations rt).next s op) := by
  have hoperates := next_operates hi hr op
  generalize hnext : (operations rt).next s op = t at hoperates
  cases hoperates with
  | refused => exact .of_eq rfl
  | imports hok h =>
    refine ⟨fun d hd => ?_, h.redefines.persists, h.redefines.keys⟩
    exact (h.redefines.origin d hd).imp_left fun hw => ⟨hok, hw⟩
  | failed h =>
    obtain ⟨jobs, -, rfl⟩ := failJob_writes h
    exact .of_eq rfl
  | request request =>
    rcases next_writing hi request with haside | ⟨hok, hwriting⟩
    · exact .of_eq haside.domains
    · rw [(next_request request).2]
      generalize (service rt).next s request = t at hwriting
      cases hwriting with
      | created h =>
        exact MasteringService.createDomain_redefines h fun result hn hc => ⟨hok, .inl (.created hn hc)⟩
      | page p => exact .of_eq (p.finished_tables hi).1
      | activated a =>
        have h := a.redefines hr.domainIds
        refine ⟨fun d hd => ?_, h.persists, h.keys⟩
        exact (h.origin d hd).imp_left fun hw => ⟨hok, .inl hw⟩
      | job h =>
        unfold MasteringService.runJob at h
        split at h
        · cases h
        · simp only [Except.bind_eq_ok, Except.pure_eq_ok] at h
          obtain ⟨u, hu, rfl⟩ := h
          exact .of_eq (MasteringService.remasterDomain_around hu).domains

theorem next_sound (hi : Integrity rt w s) (hr : Registered rt s) (op : Operation) :
    Integrity rt w ((operations rt).next s op) ∧ Registered rt ((operations rt).next s op) := by
  have hoperates := next_operates hi hr op
  generalize (operations rt).next s op = t at hoperates
  cases hoperates with
  | request request => exact ⟨integrity_step hi request, hr.step (next_registers hi request)⟩
  | refused => exact ⟨hi, hr⟩
  | imports _ h => exact ⟨hi.sameRows h.quiet.toSameRows, hr.step h.registers⟩
  | failed h =>
    obtain ⟨jobs, hjobs, rfl⟩ := failJob_writes h
    exact ⟨hi.sameRows ⟨rfl, rfl, rfl, rfl, rfl, .refl, le_rfl⟩,
      hr.step (.of_ids rfl rfl hjobs rfl le_rfl)⟩

/-- What every state of the operations has: references lead somewhere, and ids identify rows. -/
theorem operations_sound (rt : Runtime) (w : Workspace) (ops : List Operation) :
    Integrity rt w ((operations rt).run (Store.empty w) ops) ∧
      Registered rt ((operations rt).run (Store.empty w) ops) := by
  refine (operations rt).run_invariant (P := fun s => Integrity rt w s ∧ Registered rt s)
    ⟨integrity_empty, ?_⟩ ((operations rt).along_of_forall (fun _ _ => trivial) ops)
    fun s op ⟨hi, hr⟩ (_ : True) => next_sound hi hr op
  constructor <;> simp [Store.empty, Table.Keyed]

theorem Attained.sound (h : Attained rt w s) : Integrity rt w s ∧ Registered rt s := by
  obtain ⟨ops, rfl⟩ := h
  exact operations_sound rt w ops

theorem run_requests (requests : List Request) (s : Store) :
    (operations rt).run s (requests.map .request) = (service rt).run s requests := by
  induction requests generalizing s with
  | nil => rfl
  | cons request requests ih =>
    rw [List.map_cons, System.run_cons, System.run_cons, (next_request request).1]
    exact ih _

theorem Reachable.attained (h : Reachable rt w s) : Attained rt w s := by
  obtain ⟨requests, rfl⟩ := h
  exact ⟨requests.map .request, run_requests requests _⟩

/-- Every definition of a domain has been written by an operation that went through. -/
theorem definitions_written (ops : List Operation) :
    ∀ d ∈ ((operations rt).run (Store.empty w) ops).domains, ∃ first op rest,
      ops = first ++ op :: rest ∧
      ((operations rt).step ((operations rt).run (Store.empty w) first) op).2.isOk = true ∧
      (Governs rt w ((operations rt).run (Store.empty w) first) op d.key d.definition ∨
        Replaces rt op d.key d.definition) := by
  induction ops using List.reverseRecOn with
  | nil => simp [Store.empty]
  | append_singleton ops op ih =>
    intro d hd
    rw [System.run_append, System.run_cons, System.run_nil] at hd
    obtain ⟨hi, hr⟩ := operations_sound rt w ops
    rcases (next_redefines hi hr op).origin d hd with ⟨hok, hwritten⟩ |
      ⟨d', hd', -, hkey, hdefinition⟩
    · exact ⟨ops, op, [], rfl, hok, hwritten⟩
    · obtain ⟨first, op', rest, heq, hok, hwritten⟩ := ih d' hd'
      rw [hkey, hdefinition] at hwritten
      exact ⟨first, op', rest ++ [op], by rw [heq, List.append_assoc]; rfl, hok, hwritten⟩

namespace Supplier

def modeler : Principal := ⟨"carol", "idp", "w1", ["modeler"], none⟩

/-- A bundle with another definition of the supplier domain. -/
def eagerBundle : WorkspaceBundle where
  apiVersion := .str "recordlane.io/v1alpha1"
  kind := .str "WorkspaceBundle"
  domains := [⟨"supplier", "Supplier", "coexistence", eager⟩]
  sources := []
  configurations := []

/-- A modeler replaces the definition without any approval. -/
def promoted : List Operation :=
  setup.map .request ++ [.importBundle modeler eagerBundle true none]

theorem definitions_written_promoted :
    ∃ d ∈ ((operations .plain).run (Store.empty workspace) promoted).domains, ∃ first op rest,
      promoted = first ++ op :: rest ∧
      ((operations .plain).step ((operations .plain).run (Store.empty workspace) first) op).2.isOk = true ∧
      (Governs .plain workspace ((operations .plain).run (Store.empty workspace) first) op d.key
        d.definition ∨ Replaces .plain op d.key d.definition) := by
  have hsome : ((operations .plain).run (Store.empty workspace) promoted).domains ≠ [] := by
    have hlength : ((operations .plain).run (Store.empty workspace) promoted).domains.length = 1 := by
      decide +kernel
    intro hnil
    rw [hnil] at hlength
    cases hlength
  obtain ⟨d, hd⟩ := List.exists_mem_of_ne_nil _ hsome
  exact ⟨d, hd, definitions_written promoted d hd⟩

/-- The replaced definition is neither that of the creation nor an approved one. -/
theorem definition_replaced :
    ∃ d ∈ ((operations .plain).run (Store.empty workspace) promoted).domains,
      ∀ first op rest, promoted = first ++ op :: rest →
        ¬ Governs .plain workspace ((operations .plain).run (Store.empty workspace) first) op d.key
          d.definition := by
  have hfinal : ((operations .plain).run (Store.empty workspace) promoted).domains.any (fun d =>
      (compilePolicy .plain (.obj (definition.set "mode" (.str "coexistence")))).toOption.any fun policy =>
        d.definition ≠ policy.canonicalDocument) = true := by
    decide +kernel
  have hknown : (MasteringService.domain? master ((operations .plain).run (Store.empty workspace)
      (setup.map .request)) "supplier").isSome := by
    decide +kernel
  obtain ⟨d, hd, hdiffers⟩ := List.any_eq_true.mp hfinal
  refine ⟨d, hd, fun first op rest heq hg => ?_⟩
  have hsteps : promoted = [.request (.createDomain (steward "alice") "supplier" "Supplier"
    "coexistence" definition), .request (.createSource (steward "alice") "erp" "ERP" "csv" 100),
    .importBundle modeler eagerBundle true none] := rfl
  rw [hsteps] at heq
  rcases first with _ | ⟨_, _ | ⟨_, _ | ⟨_, first⟩⟩⟩
  · obtain ⟨rfl, -⟩ := List.cons.inj heq
    generalize d.definition = result at hg hdiffers
    generalize d.key = key at hg
    cases hg with
    | created _ hc =>
      obtain ⟨policy, hpolicy, rfl⟩ := hc
      simp [hpolicy, Except.toOption] at hdiffers
  · obtain ⟨-, hrest⟩ := List.cons.inj heq
    obtain ⟨rfl, -⟩ := List.cons.inj hrest
    cases hg
  · obtain ⟨rfl, hrest⟩ := List.cons.inj heq
    obtain ⟨rfl, hlast⟩ := List.cons.inj hrest
    obtain ⟨rfl, -⟩ := List.cons.inj hlast
    generalize d.definition = result at hg
    generalize d.key = key at hg
    cases hg with
    | brought hi hn =>
      rw [List.mem_singleton.mp hi] at hn
      have hsome : (MasteringService.domain? master ((operations .plain).run (Store.empty workspace)
        (setup.map .request)) "supplier") = none := hn
      rw [hsome] at hknown
      cases hknown
  · simp at heq

end Supplier

end Recordlane
