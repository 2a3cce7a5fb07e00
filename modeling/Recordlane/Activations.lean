import Recordlane.PolicyDocuments
import Recordlane.CandidateIndex

/-! Activated definitions compile to themselves, the queued jobs find the checksum they carry, and
what was previewed comes to be. -/
namespace Recordlane

variable {rt : Runtime} {w : Workspace} {self : MasteringService} {s t : Store} {key : String}
  {policies : List (String × CompiledPolicy)} {configId : Id}

/-- The canonical document of a policy compiles to the policy's document and checksum. -/
def NormalForm (rt : Runtime) (policy : CompiledPolicy) : Prop :=
  ∃ policy', compilePolicy rt policy.canonicalDocument = .ok policy' ∧
    policy'.canonicalDocument = policy.canonicalDocument ∧ policy'.checksum = policy.checksum

theorem compilePolicy_normal {definition : Json} {policy : CompiledPolicy}
    (hu : definition.unique = true) (h : compilePolicy rt definition = .ok policy) :
    NormalForm rt policy := by
  obtain ⟨p, hdocument, hp, -⟩ := PolicyDocument.of_compilePolicy hu h
  have hcanonical : policy.canonicalDocument = .obj p.canonical := by
    rw [CompiledPolicy.canonicalDocument, hdocument, PolicyDocument.sortKeys_document]
  obtain ⟨policy', hpolicy', hdocument'⟩ := hp.compiles
  have hcanonical' : policy'.canonicalDocument = policy.canonicalDocument := by
    rw [CompiledPolicy.canonicalDocument, hdocument', PolicyDocument.sortKeys_document,
      PolicyDocument.canonical_inOrder, hcanonical]
  refine ⟨policy', ?_, hcanonical', ?_⟩
  · rw [hcanonical]
    exact hpolicy'
  · rw [checksum_digest hpolicy', checksum_digest h, hcanonical']

/-- The documents of a store are documents that a parser has read. -/
structure Parsed (s : Store) : Prop where
  configurations : ∀ c ∈ s.configurations, c.document.unique = true
  definitions : ∀ d ∈ s.domains, d.definition.unique = true

/-- The definition of the job's domain has the checksum that the job expects. -/
def FindsChecksum (svc : MasteringService) (s : Store) (job : DurableJob) : Prop :=
  ∃ domain policy, svc.domain? s (job.domainKey svc.rt) = some domain ∧
    compilePolicy svc.rt domain.definition = .ok policy ∧
    (job.payload.get "policy_checksum").pyEq (.str policy.checksum) = true

/-- The policies are in normal form, one for each domain. -/
structure NormalForms (rt : Runtime) (policies : List (String × CompiledPolicy)) : Prop where
  keys : (policies.map Prod.fst).Nodup
  normal : ∀ entry ∈ policies, NormalForm rt entry.2

theorem NormalForms.singleton {policy : CompiledPolicy} (h : NormalForm rt policy) :
    NormalForms rt [(key, policy)] where
  keys := List.nodup_singleton _
  normal entry hentry := by
    rw [List.mem_singleton.mp hentry]
    exact h

theorem policyOf_of_mem {entry : String × CompiledPolicy} (hk : (policies.map Prod.fst).Nodup)
    (h : entry ∈ policies) : policyOf policies entry.1 = some entry.2 := by
  have hreverse : Table.Keyed Prod.fst policies.reverse := by
    rw [Table.Keyed, List.map_reverse]
    exact List.nodup_reverse.mpr hk
  exact congrArg (Option.map Prod.snd) (hreverse.find_of_mem (List.mem_reverse.mpr h))

theorem unique_setIf {d : Dict} {k : String} {o : Option Json} (hd : Json.unique (.obj d) = true) :
    (∀ v, o = some v → v.unique = true) →
    Json.unique (.obj (match o with
      | some v => d.set k v
      | none => d)) = true := by
  intro ho
  cases o with
  | none => exact hd
  | some v => exact Dict.unique_set hd (ho v rfl)

namespace MasteringService

theorem mapM_policies_keys {domains : Dict}
    (h : domains.mapM (fun p => do return (p.1, ← compilePolicy self.rt p.2)) = .ok policies) :
    policies.map Prod.fst = domains.keys := by
  induction domains generalizing policies with
  | nil =>
    rw [List.mapM_nil, Except.pure_eq_ok] at h
    rw [← h]
    rfl
  | cons p domains ih =>
    simp only [List.mapM_cons, Except.bind_eq_ok, Except.pure_eq_ok] at h
    obtain ⟨_, ⟨policy, -, rfl⟩, rest, hrest, rfl⟩ := h
    exact congrArg (p.1 :: ·) (ih hrest)

theorem mappedPolicies_normal {domains : Dict} (hu : Json.unique (.obj domains) = true)
    (h : self.mappedPolicies s domains = .ok policies) : NormalForms self.rt policies := by
  unfold mappedPolicies at h
  split at h
  · obtain ⟨hkeys, hvalues⟩ := Json.unique_obj.mp hu
    refine ⟨mapM_policies_keys h ▸ hkeys, fun entry hentry => ?_⟩
    obtain ⟨p, hp, hcompiled⟩ := (Except.mapM_mem h).1 entry hentry
    simp only [Except.bind_eq_ok, Except.pure_eq_ok] at hcompiled
    obtain ⟨policy, hpolicy, rfl⟩ := hcompiled
    exact compilePolicy_normal (hvalues p hp) hpolicy
  · cases h

theorem supplierPolicy_normal {document : Dict} (hu : Json.unique (.obj document) = true)
    (hd : ∀ d ∈ s.domains, d.definition.unique = true)
    (h : self.supplierPolicy s document = .ok policies) : NormalForms self.rt policies := by
  unfold supplierPolicy at h
  rw [Except.bind_eq_ok] at h
  obtain ⟨matching, hmatching, h⟩ := h
  have hmatching := Json.asDict_ok hmatching ▸ Dict.unique_getD hu rfl
  split at h
  · next supplier given hsupplier hgiven =>
    have hgiven := hgiven ▸ Dict.unique_get hmatching
    simp only [Except.bind_eq_ok] at h
    obtain ⟨base, hbase, own, hown, thresholds, hthresholds, h⟩ := h
    have hbase := Json.asDict_ok hbase ▸ hd supplier (domain?_key hsupplier).1
    have hown := Json.asDict_ok hown ▸ Dict.unique_getD hbase rfl
    have hthresholds := Json.asDict_ok hthresholds ▸ Dict.unique_getD hown rfl
    have hreview := unique_setIf (k := "review") (o := Dict.get? given "review_threshold")
        hthresholds fun v hv =>
      Dict.unique_get? hgiven hv
    have hboth := unique_setIf (k := "auto_link") (o := Dict.get? given "auto_link_threshold")
        hreview fun v hv =>
      Dict.unique_get? hgiven hv
    have hcandidate := Dict.unique_set (k := "matching") hbase
      (Dict.unique_set (k := "thresholds") hown hboth)
    split at h
    · next rules hrules =>
      have hrules := hrules ▸ Dict.unique_get hu
      simp only [Except.bind_eq_ok, Except.pure_eq_ok] at h
      obtain ⟨mine, hmine, candidate, rfl, policy, hpolicy, rfl⟩ := h
      have hmine := Json.asDict_ok hmine ▸ Dict.unique_getD hcandidate rfl
      exact .singleton (compilePolicy_normal
        (Dict.unique_set hcandidate (Dict.unique_update hmine hrules)) hpolicy)
    · simp only [Except.bind_eq_ok, Except.pure_eq_ok] at h
      obtain ⟨candidate, rfl, policy, hpolicy, rfl⟩ := h
      exact .singleton (compilePolicy_normal hcandidate hpolicy)
  · cases h

theorem configurationPolicies_normal {document : Json} (hu : document.unique = true)
    (hd : ∀ d ∈ s.domains, d.definition.unique = true)
    (h : self.configurationPolicies s document = .ok policies) : NormalForms self.rt policies := by
  unfold configurationPolicies at h
  rw [Except.bind_eq_ok] at h
  obtain ⟨given, hgiven, h⟩ := h
  rw [Json.asDict_ok hgiven] at hu
  split at h
  · rw [Except.bind_eq_ok] at h
    obtain ⟨metadata, -, h⟩ := h
    dsimp only at h
    split at h
    · cases h
    · simp only [Except.bind_eq_ok, Except.pure_eq_ok] at h
      obtain ⟨policy, hpolicy, rfl⟩ := h
      exact .singleton (compilePolicy_normal hu hpolicy)
  · split at h
    · next domains hdomains => exact mappedPolicies_normal (hdomains ▸ Dict.unique_get hu) h
    · exact supplierPolicy_normal hu hd h

/-- Each job that an activation queues carries the checksum of its domain's policy. -/
theorem activateAll_jobs {state state' : Store × List Id}
    (h : policies.foldlM (self.activateDomain configId) state = .ok state') :
    ∃ new, state'.1.jobs = state.1.jobs ++ new ∧ ∀ job ∈ new, ∃ entry ∈ policies,
      job.payload.get "domain_key" = .str entry.1 ∧
      job.payload.get "policy_checksum" = .str entry.2.checksum := by
  induction policies generalizing state with
  | nil =>
    rw [List.foldlM_nil, Except.pure_eq_ok] at h
    rw [← h]
    exact ⟨[], by simp⟩
  | cons entry policies ih =>
    rw [List.foldlM_cons, Except.bind_eq_ok] at h
    obtain ⟨state₁, hfirst, h⟩ := h
    obtain ⟨new, hnew, hentries⟩ := ih h
    unfold activateDomain at hfirst
    dsimp only at hfirst
    split at hfirst
    · cases hfirst
    · next d hd =>
      cases hfirst
      refine ⟨_, hnew.trans (List.append_assoc ..), List.forall_mem_cons.mpr ⟨?_, ?_⟩⟩
      · exact ⟨entry, List.mem_cons_self, congrArg Json.str (domain?_key hd).2, rfl⟩
      · intro job hjob
        obtain ⟨entry', hentry', hjob⟩ := hentries job hjob
        exact ⟨entry', List.mem_cons_of_mem _ hentry', hjob⟩

end MasteringService

/-- A queued job finds the checksum it carries as long as its domain has the definition that the
activation wrote. -/
theorem Activating.current {taskId : Id} {reason : String} (a : Activating self s taskId reason t)
    (hk : Table.Keyed Domain.id s.domains) (hp : Parsed s)
    (hstr : ∀ text, self.rt.strOf (.str text) = text) :
    ∀ job ∈ t.jobs, job ∉ s.jobs → ∀ u, (self.domain? u (job.domainKey self.rt)).map Domain.definition =
      (self.domain? t (job.domainKey self.rt)).map Domain.definition → FindsChecksum self u job := by
  obtain ⟨config, hconfig, simulation, -, policies, jobs, v, -, -, -, -, -, hpolicies, hfold, hframe⟩ :=
    a.spec
  have hnormal := MasteringService.configurationPolicies_normal (hp.configurations config hconfig)
    hp.definitions hpolicies
  obtain ⟨new, hnew, hentries⟩ := MasteringService.activateAll_jobs hfold
  have hactivates := MasteringService.activateAll_activates hk hfold
  intro job hjob hjob' u hsame
  rw [hframe.jobs, hnew] at hjob
  obtain ⟨entry, hentry, hkey, hchecksum⟩ := hentries job ((List.mem_append.mp hjob).resolve_left hjob')
  have hdomainKey : job.domainKey self.rt = entry.1 := by
    rw [DurableJob.domainKey, hkey, hstr]
  obtain ⟨d, hd, hdefinition⟩ := hactivates.defined entry.1 entry.2 (policyOf_of_mem hnormal.keys hentry)
  obtain ⟨policy, hpolicy, -, hsum⟩ := hnormal.normal entry hentry
  have ht : self.domain? t entry.1 = some d := by
    rw [← hd, MasteringService.domain?, hframe.domains, MasteringService.domain?]
  rw [hdomainKey, ht, Option.map_some, Option.map_eq_some_iff] at hsame
  obtain ⟨d', hd', hdefinition'⟩ := hsame
  refine ⟨d', policy, hdomainKey ▸ hd', ?_, ?_⟩
  · rw [hdefinition', hdefinition]
    exact hpolicy
  · rw [hchecksum, hsum, Json.pyEq, decide_eq_true rfl]

/-- What compiles is in normal form, so the job of an activation finds its checksum as long as the
definition of its domain is the one that the activation left. -/
theorem compiled_normal_form (rt : Runtime) :
    (∀ (definition : Document) (policy : CompiledPolicy),
      compilePolicy rt definition.value = .ok policy → NormalForm rt policy) ∧
    ((∀ text, rt.strOf (.str text) = text) → ∀ (w : Workspace) (ops : List Operation),
      let s := (operations rt).run (Store.empty w) ops
      Parsed s → ∀ (who worker : Principal) (taskId : Id) (d : Decision) (reason : String),
      let t := (service rt).next s (.decideTask who taskId d reason)
      ∀ job ∈ t.jobs, job ∉ s.jobs → ∀ u,
        (MasteringService.domain? ⟨rt, worker, w⟩ u (job.domainKey rt)).map Domain.definition =
          (MasteringService.domain? ⟨rt, worker, w⟩ t (job.domainKey rt)).map Domain.definition →
        FindsChecksum ⟨rt, worker, w⟩ u job) := by
  refine ⟨fun definition policy h => compilePolicy_normal definition.unique h, ?_⟩
  intro hstr w ops s hp who worker taskId d reason t job hjob hnew u hsame
  obtain ⟨hi, hr⟩ := operations_sound rt w ops
  rcases next_writing hi (.decideTask who taskId d reason) with haway | ⟨-, hwriting⟩
  · exact (hnew (haway.jobs ▸ hjob)).elim
  · generalize ht : (service rt).next s (.decideTask who taskId d reason) = t' at hwriting
    cases hwriting with
    | activated a => exact a.current hr.domainIds hp hstr job (ht ▸ hjob) hnew u (ht ▸ hsame)

namespace Supplier

/-- The configuration 21 proposed; its approval is the task 24. -/
def proposed : List Request := setup ++ [neighbours,
  .createConfig (steward "alice") (.obj [("domains", .obj [("supplier", .obj byCity)])]),
  .simulate (steward "alice") (uid 21), .proposeConfig (steward "alice") (uid 21) (uid 23)]

/-- The job of the activation finds its checksum. -/
theorem compiled_normal_form_activated :
    ∃ job ∈ ((service .plain).next ((operations .plain).run (Store.empty workspace)
      (proposed.map .request)) (approve (uid 24))).jobs,
      FindsChecksum ⟨.plain, steward "worker", workspace⟩ ((service .plain).next
        ((operations .plain).run (Store.empty workspace) (proposed.map .request))
        (approve (uid 24))) job := by
  have hparsed : ((operations .plain).run (Store.empty workspace) (proposed.map .request)).configurations.all
        (fun c => c.document.unique) = true ∧
      ((operations .plain).run (Store.empty workspace) (proposed.map .request)).domains.all
        (fun d => d.definition.unique) = true ∧
      ((operations .plain).run (Store.empty workspace) (proposed.map .request)).jobs.length = 0 ∧
      ((service .plain).next ((operations .plain).run (Store.empty workspace) (proposed.map .request))
        (approve (uid 24))).jobs.length = 1 := by
    decide +kernel
  obtain ⟨hconfigurations, hdefinitions, hnone, hone⟩ := hparsed
  rw [List.all_eq_true] at hconfigurations hdefinitions
  obtain ⟨job, hjob⟩ := List.length_eq_one_iff.mp hone
  have hmem := hjob ▸ List.mem_singleton_self job
  refine ⟨job, hmem, (compiled_normal_form .plain).2 (fun _ => rfl) workspace (proposed.map .request)
    ⟨hconfigurations, hdefinitions⟩ (steward "bob") (steward "worker") (uid 24) .approve "checked" job hmem
    ?_ _ rfl⟩
  rw [List.length_eq_zero_iff.mp hnone]
  exact List.not_mem_nil

end Supplier

/-- Whatever configuration is simulated and, with nothing in between, proposed, approved and
remastered: the previews of its domains are exact. -/
theorem simulation_exact (hs : Attained rt w s) (hstr : ∀ text, rt.strOf (.str text) = text)
    (a : Activation rt w s) (ids : List Id)
    (hcompleted : a.Completed ((service rt).run a.approved (ids.map (.runJob w.id)))) :
    ∃ config ∈ s.configurations, config.id = a.configId ∧ ∃ policies,
      MasteringService.configurationPolicies ⟨rt, a.modeler, w⟩ s config.document = .ok policies ∧
      a.simulation.result.details.map PolicySimulation.domain = policies.map Prod.fst ∧
      ∀ key proposed, policyOf policies key = some proposed →
        ∃ detail ∈ a.simulation.result.details, ExactPreview ⟨rt, a.modeler, w⟩ s
          ((service rt).run a.approved (ids.map (.runJob w.id))) key proposed detail :=
  a.previews_exact hs.sound.1 hs.sound.2 hstr ids hcompleted

/-- The activation of a configuration, where each of its requests goes through. -/
def Activation.attempt (rt : Runtime) (w : Workspace) (s : Store) (configId : Id)
    (modeler proposer approver : Principal) (reason : String) : Option (Activation rt w s) :=
  match hsimulates : MasteringService.simulate ⟨rt, modeler, w⟩ s configId with
  | .error _ => none
  | .ok (simulated, simulation) =>
    match hproposes : MasteringService.proposeConfig ⟨rt, proposer, w⟩ simulated configId
        simulation.id with
    | .error _ => none
    | .ok (proposed, task) =>
      match happroves : MasteringService.decideTask ⟨rt, approver, w⟩ proposed task.id .approve
          reason with
      | .ok (approved, .ok ()) => some ⟨configId, modeler, proposer, approver, reason, simulation,
          task, simulated, proposed, approved, hsimulates, hproposes, happroves⟩
      | _ => none

namespace Supplier

def preferred : Option (Activation .plain workspace (after preferring)) :=
  Activation.attempt .plain workspace (after preferring) (uid 23) (steward "alice")
    (steward "alice") (steward "bob") "checked"

end Supplier

/-- The note of the second source survives, as the simulation said. -/
theorem simulation_exact_preferred :
    ∃ a : Activation .plain Supplier.workspace (Supplier.after Supplier.preferring),
      a.Completed ((service .plain).run a.approved [.runJob "w1" (Supplier.uid 28)]) ∧
      ∃ config ∈ (Supplier.after Supplier.preferring).configurations, config.id = a.configId ∧
        ∃ policies,
          MasteringService.configurationPolicies ⟨.plain, a.modeler, Supplier.workspace⟩
            (Supplier.after Supplier.preferring) config.document = .ok policies ∧
          a.simulation.result.details.map PolicySimulation.domain = policies.map Prod.fst ∧
          ∀ key proposed, policyOf policies key = some proposed →
            ∃ detail ∈ a.simulation.result.details,
              ExactPreview ⟨.plain, a.modeler, Supplier.workspace⟩
                (Supplier.after Supplier.preferring)
                ((service .plain).run a.approved [.runJob "w1" (Supplier.uid 28)]) key proposed
                detail := by
  have hattained : Attained .plain Supplier.workspace (Supplier.after Supplier.preferring) :=
    Reachable.attained ⟨Supplier.setup ++ Supplier.preferring, rfl⟩
  have hruns : Supplier.preferred.any (fun a =>
      decide (a.Completed ((service .plain).run a.approved [.runJob "w1" (Supplier.uid 28)]))) := by
    decide +kernel
  obtain ⟨a, -, hdone⟩ := (Option.any_eq_true ..).mp hruns
  have hcompleted := of_decide_eq_true hdone
  exact ⟨a, hcompleted, simulation_exact hattained (fun _ => rfl) a [Supplier.uid 28] hcompleted⟩

end Recordlane
