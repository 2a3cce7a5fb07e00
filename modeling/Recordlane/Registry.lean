import Recordlane.Requests

/-! Domains, configurations, jobs and tasks: what leaves them alone, and their identifiers. -/
namespace Recordlane

variable {rt : Runtime} {w : Workspace} {self : MasteringService} {s s' t u : Store}
  {req : IngestRequest} {task : ReviewTask} {request : Request}

/-- The tables around the identity tables are the same; tasks may have been added. -/
structure Around (rt : Runtime) (s t : Store) : Prop where
  domains : t.domains = s.domains
  sources : t.sources = s.sources
  runs : t.runs = s.runs
  configurations : t.configurations = s.configurations
  jobs : t.jobs = s.jobs
  taskIds : Extends rt s.drawn t.drawn (s.tasks.map ReviewTask.id) (t.tasks.map ReviewTask.id)
  drawn : s.drawn ≤ t.drawn

theorem Fits.taskIds {source : Source} {domainKey : String} {policy : CompiledPolicy}
    {o : SourceObject} {item : IncomingRecord} {v : Verdict} {d : Findings}
    (h : Fits self s source domainKey policy o item d v) :
    Extends self.rt s.drawn (s.round self source domainKey o item v d).drawn
      (s.tasks.map ReviewTask.id)
      ((s.round self source domainKey o item v d).tasks.map ReviewTask.id) := by
  obtain ⟨e, x, c, y, task⟩ := d
  cases h with
  | review _ _ _ _ hc _ ht ha =>
    cases hc
    cases ht
    refine ⟨[s.drawn + 4], ?_, List.nodup_singleton _, ?_⟩
    · change List.map ReviewTask.id (s.tasks ++ [_]) = _
      rw [List.map_append, List.map_singleton, ha.id]
      rfl
    · intro k hk
      rw [List.mem_singleton.mp hk]
      exact ⟨Nat.le_add_right _ _, Nat.lt_succ_self _⟩
  | _ =>
    subst_vars
    exact .refl

namespace Around

theorem refl (s : Store) : Around rt s s := ⟨rfl, rfl, rfl, rfl, rfl, .refl, le_rfl⟩

theorem trans (h : Around rt s t) (h' : Around rt t u) : Around rt s u where
  domains := h'.domains.trans h.domains
  sources := h'.sources.trans h.sources
  runs := h'.runs.trans h.runs
  configurations := h'.configurations.trans h.configurations
  jobs := h'.jobs.trans h.jobs
  taskIds := h.taskIds.trans h'.taskIds h.drawn h'.drawn
  drawn := h.drawn.trans h'.drawn

theorem frame (h : Frame rt s t) : Around rt s t :=
  ⟨h.domains, h.sources, h.runs, h.configurations, h.jobs, h.taskIds, h.drawn⟩

theorem opens {source : Source} {domainKey localId : String} {o : SourceObject}
    (h : Opens self s source domainKey localId t o) : Around rt s t := by
  cases h with
  | known => exact .refl s
  | new => exact ⟨rfl, rfl, rfl, rfl, rfl, .refl, Nat.le_succ _⟩

theorem round {source : Source} {domainKey : String} {policy : CompiledPolicy} {o : SourceObject}
    {item : IncomingRecord} {v : Verdict} {d : Findings}
    (h : Round self s source domainKey policy o item v s' d) : Around self.rt s s' := by
  have hdrawn : s.drawn ≤ (s.round self source domainKey o item v d).drawn := by
    obtain ⟨e, x, c, y, task⟩ := d
    cases c <;> cases task <;>
      simp [Store.round, Store.stored, Store.openTask, Store.changeEntities, Store.modifyObject,
        Store.insertTask, Store.observed, Store.insertRecord, Store.insertMeta, Store.insertBlocks,
        Store.mapEntities, Store.insertEntity, Nat.add_assoc]
  have hround : Around self.rt s (s.round self source domainKey o item v d) := by
    refine ⟨?_, ?_, ?_, ?_, ?_, h.fits.taskIds, hdrawn⟩
    all_goals
      obtain ⟨e, x, c, y, task⟩ := d
      cases c <;> cases task <;> rfl
  exact hround.trans (.frame h.frame)

end Around

namespace Page

theorem observed_around (p : Page self s req) (h : Integrity self.rt self.workspace s) :
    Around self.rt p.begun p.observed := by
  have hi := h.sameRows p.begun_quiet.toSameRows
  refine (MasteringService.observeAll_invariant (P := Around self.rt p.begun) hi (.refl _) ?_ p.observes).2
  intro t t' item v _ hit haround hobserve
  refine MasteringService.observe_invariant hit haround (fun u o ho => haround.trans (.opens ho)) ?_
    hobserve
  intro u o d _ hu _ hround
  exact hu.trans (.round hround)

theorem finished_sources (p : Page self s req) (h : Integrity self.rt self.workspace s) :
    p.finished.sources = Table.modify Source.id s.sources p.source.id fun x => { x with
      lastIngestedAt := some (self.now p.observed)
      checkpoint := some (MasteringService.sourceCheckpoint p.source req (Counts.of p.verdicts)) } := by
  obtain ⟨runs, n, hbegun⟩ := MasteringService.beginPage_runs p.begins
  have hobserved : p.observed.sources = s.sources := by rw [(p.observed_around h).sources, hbegun]
  rw [← hobserved]
  unfold finished MasteringService.finishBatch
  cases p.run <;> rfl

end Page

/-- The identifiers of domains, configurations, jobs and tasks are those there were, then fresh
ones. -/
structure Registers (rt : Runtime) (s t : Store) : Prop where
  drawn : s.drawn ≤ t.drawn
  domains : Extends rt s.drawn t.drawn (s.domains.map Domain.id) (t.domains.map Domain.id)
  configurations : Extends rt s.drawn t.drawn (s.configurations.map ConfigurationVersion.id)
    (t.configurations.map ConfigurationVersion.id)
  jobs : Extends rt s.drawn t.drawn (s.jobs.map DurableJob.id) (t.jobs.map DurableJob.id)
  tasks : Extends rt s.drawn t.drawn (s.tasks.map ReviewTask.id) (t.tasks.map ReviewTask.id)

namespace Registers

theorem refl (s : Store) : Registers rt s s := ⟨le_rfl, .refl, .refl, .refl, .refl⟩

theorem trans (h : Registers rt s t) (h' : Registers rt t u) : Registers rt s u where
  drawn := h.drawn.trans h'.drawn
  domains := h.domains.trans h'.domains h.drawn h'.drawn
  configurations := h.configurations.trans h'.configurations h.drawn h'.drawn
  jobs := h.jobs.trans h'.jobs h.drawn h'.drawn
  tasks := h.tasks.trans h'.tasks h.drawn h'.drawn

theorem of_ids (hdomains : t.domains.map Domain.id = s.domains.map Domain.id)
    (hconfigurations : t.configurations.map ConfigurationVersion.id =
      s.configurations.map ConfigurationVersion.id)
    (hjobs : t.jobs.map DurableJob.id = s.jobs.map DurableJob.id)
    (htasks : t.tasks.map ReviewTask.id = s.tasks.map ReviewTask.id) (hdrawn : s.drawn ≤ t.drawn) :
    Registers rt s t :=
  ⟨hdrawn, hdomains ▸ .refl, hconfigurations ▸ .refl, hjobs ▸ .refl, htasks ▸ .refl⟩

theorem around (h : Around rt s t) : Registers rt s t where
  drawn := h.drawn
  domains := h.domains ▸ .refl
  configurations := h.configurations ▸ .refl
  jobs := h.jobs ▸ .refl
  tasks := h.taskIds

theorem frame (h : Frame rt s t) : Registers rt s t := .around (.frame h)

theorem audit {action objectType objectId : String} {detail : Dict} (h : Registers self.rt s t) :
    Registers self.rt s (self.audit t action objectType objectId detail) :=
  h.trans (.frame (self.audit_frame ..))

end Registers

/-- The store that a decision leaves. -/
def Applied.store : Applied → Store
  | .done s => s
  | .staled s _ => s

theorem Extends.fresh {ids : List Id} {n : Nat} : Extends rt n (n + 1) ids (ids ++ [rt.uid n]) :=
  ⟨[n], by simp⟩

namespace MasteringService

theorem createDomain_registers {key name mode : String} {definition : Dict} {d : Domain}
    (h : self.createDomain s key name mode definition = .ok (s', d)) : Registers self.rt s s' := by
  unfold createDomain at h
  split at h
  · cases h
  · simp only [Except.bind_eq_ok, Except.pure_eq_ok, Prod.mk.injEq] at h
    obtain ⟨policy, -, rfl, -⟩ := h
    refine Registers.audit ⟨Nat.le_succ _, ?_, .refl, .refl, .refl⟩
    rw [List.map_append]
    exact .fresh

theorem createSource_registers {key name kind : String} {priority : Int} {x : Source}
    (h : self.createSource s key name kind priority = .ok (s', x)) : Registers self.rt s s' := by
  unfold createSource at h
  split at h
  · cases h
  · cases h
    exact Registers.audit (.of_ids rfl rfl rfl rfl (Nat.le_succ _))

theorem replaceSource_registers {sourceKey key name kind : String} {priority : Int} {x : Source}
    (h : self.replaceSource s sourceKey key name kind priority = .ok (s', x)) :
    Registers self.rt s s' := by
  unfold replaceSource at h
  split at h
  · cases h
  · split at h
    · cases h
    · cases h
      exact Registers.audit (.of_ids rfl rfl rfl rfl le_rfl)

theorem createRelationship_registers {fromId toId kind : String}
    (h : self.createRelationship s fromId toId kind = .ok s') : Registers self.rt s s' := by
  unfold createRelationship at h
  dsimp only at h
  split at h
  · cases h
  · split at h
    · cases h
    · cases h
      exact Registers.audit (.of_ids rfl rfl rfl rfl (Nat.le_succ _))

theorem createConfig_registers {document : Json} {c : ConfigurationVersion}
    (h : self.createConfig s document = .ok (s', c)) : Registers self.rt s s' := by
  unfold createConfig at h
  split at h
  · cases h
  · simp only [Except.bind_eq_ok, Except.pure_eq_ok, Prod.mk.injEq] at h
    obtain ⟨policies, -, rfl, -⟩ := h
    refine Registers.audit ⟨Nat.le_succ _, .refl, ?_, .refl, .refl⟩
    rw [List.map_append]
    exact .fresh

theorem revertConfig_registers {configId : Id} {c : ConfigurationVersion}
    (h : self.revertConfig s configId = .ok (s', c)) : Registers self.rt s s' := by
  unfold revertConfig at h
  split at h
  · cases h
  · simp only [Except.bind_eq_ok, Except.pure_eq_ok, Prod.exists, Prod.mk.injEq] at h
    obtain ⟨s₁, c₁, hcreate, rfl, -⟩ := h
    exact Registers.audit (createConfig_registers hcreate)

theorem supersedeProposal_frame : Frame self.rt s (self.supersedeProposal s) := by
  unfold supersedeProposal
  split
  · exact modifyTask_frame (fun _ => rfl) (fun _ => rfl) fun _ => rfl
  · exact .refl s

theorem proposeMerge_registers {entityIds : List Id} {reason : String} {dryRun : Bool}
    {impact : MergeImpact} {taskId : Option Id}
    (h : self.proposeMerge s entityIds reason dryRun = .ok (s', impact, taskId)) :
    Registers self.rt s s' := by
  unfold proposeMerge at h
  dsimp only at h
  split at h
  · cases h
  · split at h
    · cases h
    · split at h
      · cases h
      · split at h
        · cases h
        · split at h
          · cases h
            exact .refl s
          · cases h
            exact Registers.audit (.frame (insertTask_frame (by
              simp [ReviewTask.kind, TaskPayload.kind]) rfl))

theorem proposeSplit_registers {entityId : Id} {sourceRecordIds : List Id} {reason : String}
    (h : self.proposeSplit s entityId sourceRecordIds reason = .ok (s', task)) :
    Registers self.rt s s' := by
  unfold proposeSplit at h
  split at h
  · cases h
  · dsimp only at h
    split at h
    · cases h
    · cases h
      exact Registers.audit (.frame (insertTask_frame (by
        simp [ReviewTask.kind, TaskPayload.kind]) rfl))

theorem simulate_registers {configId : Id} {x : Simulation}
    (h : self.simulate s configId = .ok (s', x)) : Registers self.rt s s' := by
  unfold simulate at h
  split at h
  · cases h
  · simp only [Except.bind_eq_ok, Except.pure_eq_ok, Prod.mk.injEq] at h
    obtain ⟨policies, -, details, -, rfl, -⟩ := h
    exact .of_ids rfl rfl rfl rfl (Nat.le_succ _)

theorem proposeConfig_frame {configId simulationId : Id}
    (h : self.proposeConfig s configId simulationId = .ok (s', task)) : Frame self.rt s s' := by
  unfold proposeConfig at h
  split at h
  · cases h
  · split at h
    · cases h
    · dsimp only at h
      split at h
      · cases h
      · cases h
        refine (supersedeProposal_frame.trans (insertTask_frame ?_ rfl)).trans (self.audit_frame ..)
        simp [ReviewTask.kind, TaskPayload.kind]

theorem activateDomain_registers {configId : Id} {state state' : Store × List Id}
    {entry : String × CompiledPolicy} (h : self.activateDomain configId state entry = .ok state') :
    Registers self.rt state.1 state'.1 := by
  unfold activateDomain at h
  dsimp only at h
  split at h
  · cases h
  · next domain _ =>
    cases h
    let renewed (d : Domain) : Domain :=
      { d with definition := entry.2.canonicalDocument, schemaVersion := d.schemaVersion + 1 }
    have hids : (Table.modify Domain.id state.1.domains domain.id renewed).map Domain.id =
        state.1.domains.map Domain.id := Table.map_key_modify fun _ => rfl
    refine ⟨Nat.le_succ _, ?_, .refl, ?_, .refl⟩
    · exact hids ▸ .refl
    · rw [List.map_append]
      exact .fresh

theorem activateConfiguration_registers {configId simulationId : Id} {checksum : String}
    {a : Applied} (h : self.activateConfiguration s task configId checksum simulationId = .ok a) :
    Registers self.rt s a.store := by
  unfold activateConfiguration at h
  dsimp only at h
  split at h
  · split at h
    · cases h
    · split at h
      · cases h
        exact .frame (modifyTask_frame (fun _ => rfl) (fun _ => rfl) fun _ => rfl)
      · next config _ _ _ _ _ =>
        simp only [Except.bind_eq_ok, Except.pure_eq_ok, Prod.exists] at h
        obtain ⟨policies, -, s₁, jobs, hfold, rfl⟩ := h
        refine .audit (Except.foldlM_invariant (P := fun state => Registers self.rt s state.1) hfold ?_
          fun state entry state' _ hs hstep => hs.trans (activateDomain_registers hstep))
        refine .of_ids rfl ?_ rfl rfl le_rfl
        have hretired : (s.configurations.map self.retireActive).map ConfigurationVersion.id =
            s.configurations.map ConfigurationVersion.id := by
          rw [List.map_map]
          refine List.map_congr_left fun c _ => ?_
          rw [Function.comp_apply, retireActive]
          split <;> rfl
        rw [← hretired]
        apply Table.map_key_modify
        exact fun _ => rfl
  · cases h

theorem keepApart_registers {leftRecord rightRecord : Id} {left right : Option Id} {reason : String}
    (h : self.keepApart s leftRecord rightRecord left right reason = .ok s') :
    Registers self.rt s s' := by
  unfold keepApart at h
  split at h
  · split at h
    · cases h
    · cases h
      exact .of_ids rfl rfl rfl rfl (Nat.le_succ _)
  · dsimp only at h
    split at h
    · cases h
    · cases h
      exact .of_ids rfl rfl rfl rfl (Nat.le_succ _)

theorem approveMaster_registers {entity : Option Entity} {version : Nat} {reason : String}
    (h : self.approveMaster s task entity version reason = .ok s') : Registers self.rt s s' := by
  unfold approveMaster at h
  split at h
  · cases h
  · cases h
  · cases h
    exact .of_ids rfl rfl rfl rfl (Nat.le_succ _)

theorem applyDecision_registers (h : Integrity self.rt self.workspace s) {d : Decision}
    {reason : String} {a : Applied}
    (ha : self.applyDecision s task (self.taskEntity s task) d reason = .ok a) :
    Registers self.rt s a.store := by
  have hmerged : ∀ {ids : List Id} {x : Id}, Registers self.rt s (s.merged ids x) :=
    fun {_ _} => .of_ids rfl rfl rfl rfl le_rfl
  have hsplit : ∀ {ids : List Id} {x : Id} {e : Entity}, Registers self.rt s (s.split ids x e) :=
    fun {_ _ _} => .of_ids rfl rfl rfl rfl (Nat.le_succ _)
  unfold applyDecision at ha
  split at ha
  · next hp =>
    simp only [Except.bind_eq_ok, Except.pure_eq_ok] at ha
    obtain ⟨t, ht, rfl⟩ := ha
    cases linkMatch_effect h hp ht with
    | quiet hd _ => simp [Inert, hp] at hd
    | link _ _ _ _ _ hf => exact hmerged.trans (.frame hf)
    | keepApart hd => simp at hd
  · simp only [Except.bind_eq_ok, Except.pure_eq_ok] at ha
    obtain ⟨t, ht, rfl⟩ := ha
    exact keepApart_registers ht
  · simp only [Except.bind_eq_ok, Except.pure_eq_ok] at ha
    obtain ⟨t, ht, rfl⟩ := ha
    exact keepApart_registers ht
  · simp only [Except.bind_eq_ok, Except.pure_eq_ok] at ha
    obtain ⟨t, ht, rfl⟩ := ha
    exact approveMaster_registers ht
  · exact activateConfiguration_registers ha
  · next hp =>
    simp only [Except.bind_eq_ok, Except.pure_eq_ok] at ha
    obtain ⟨t, ht, rfl⟩ := ha
    cases applyMerge_effect h hp ht with
    | quiet hd _ => simp [Inert, hp] at hd
    | merge _ _ _ _ _ hf => exact hmerged.trans (.frame hf)
    | approveMaster hp' => simp [hp] at hp'
    | split hp' => simp [hp] at hp'
    | keepApart hd => simp at hd
  · next hp =>
    simp only [Except.bind_eq_ok, Except.pure_eq_ok] at ha
    obtain ⟨t, ht, rfl⟩ := ha
    cases applySplit_effect h hp ht with
    | quiet hd _ => simp [Inert, hp] at hd
    | split _ _ _ _ _ _ _ _ hf => exact hsplit.trans (.frame hf)
    | approveMaster hp' => simp [hp] at hp'
    | merge hp' => simp [hp] at hp'
    | keepApart hd => simp at hd
  · rw [Except.pure_eq_ok] at ha
    rw [← ha]
    exact .refl s

theorem decideTask_registers (h : Integrity self.rt self.workspace s) {taskId : Id} {d : Decision}
    {reason : String} {answer : Py Unit} (hd : self.decideTask s taskId d reason = .ok (s', answer)) :
    Registers self.rt s s' := by
  unfold decideTask at hd
  split at hd
  · cases hd
  · split at hd
    · cases hd
    · split at hd
      · cases hd
      · split at hd
        · cases hd
          exact .frame (modifyTask_frame (fun _ => rfl) (fun _ => rfl) fun _ => rfl)
        · split at hd
          · cases hd
          · simp only [Except.bind_eq_ok] at hd
            obtain ⟨a, ha, hd⟩ := hd
            have happlied := applyDecision_registers h ha
            split at hd
            · cases hd
              exact happlied
            · cases hd
              exact happlied.trans (.frame closeTask_frame)

theorem reindex_around {policy : CompiledPolicy} {key : String} {o : SourceObject}
    (h : self.reindex policy key s o = .ok s') : Around self.rt s s' := by
  unfold reindex at h
  split at h
  · cases h
    exact .refl s
  · simp only [Except.bind_eq_ok, Except.pure_eq_ok] at h
    obtain ⟨normalized, -, keys, -, rfl⟩ := h
    exact ⟨rfl, rfl, rfl, rfl, rfl, .refl, Nat.le_succ _⟩

theorem redraft_around {x : Id} (h : self.redraft s x = .ok s') : Around self.rt s s' := by
  unfold redraft at h
  simp only [Except.bind_eq_ok, Except.pure_eq_ok, Prod.exists] at h
  obtain ⟨t, draft, hdraft, rfl⟩ := h
  have hbump : Around self.rt s (s.mapEntities (bump x)) :=
    ⟨rfl, rfl, rfl, rfl, rfl, .refl, le_rfl⟩
  exact hbump.trans (.frame (draftMaster_frame hdraft))

theorem remasterDomain_around {job : DurableJob} (h : self.remasterDomain s job = .ok s') :
    Around self.rt s s' := by
  unfold remasterDomain at h
  dsimp only at h
  split at h
  · cases h
  · rw [Except.bind_eq_ok] at h
    obtain ⟨policy, -, h⟩ := h
    split at h
    · cases h
    · simp only [Except.bind_eq_ok, Except.pure_eq_ok] at h
      obtain ⟨t, hobjects, u, hentities, rfl⟩ := h
      have ht : Around self.rt s t :=
        Except.foldlM_invariant hobjects ⟨rfl, rfl, rfl, rfl, rfl, .refl, le_rfl⟩
        fun _ _ _ _ ha hstep => ha.trans (reindex_around hstep)
      have hu : Around self.rt s u := Except.foldlM_invariant hentities ht
        fun _ _ _ _ ha hstep => ha.trans (redraft_around hstep)
      exact hu.trans (.frame (self.audit_frame ..))

theorem runJob_registers {jobId : Id} (h : self.runJob s jobId = .ok s') : Registers self.rt s s' := by
  unfold runJob at h
  split at h
  · cases h
  · simp only [Except.bind_eq_ok, Except.pure_eq_ok] at h
    obtain ⟨t, hjob, rfl⟩ := h
    refine Registers.trans (.around (remasterDomain_around hjob)) (.of_ids rfl rfl ?_ rfl le_rfl)
    exact Table.map_key_modify fun _ => rfl

theorem beginPage_registers {source : Source} {run : Option IngestionRun}
    (h : self.beginPage s source req = .ok (.page t run)) : Registers self.rt s t := by
  have hdrawn := (beginPage_quiet h).drawn
  obtain ⟨runs, n, rfl⟩ := beginPage_runs h
  exact .of_ids rfl rfl rfl rfl hdrawn

end MasteringService

theorem Page.finished_registers (p : Page self s req) (h : Integrity self.rt self.workspace s) :
    Registers self.rt s p.finished := by
  refine (MasteringService.beginPage_registers p.begins).trans
    ((Registers.around (p.observed_around h)).trans ?_)
  unfold Page.finished MasteringService.finishBatch
  cases p.run <;> exact .audit (.of_ids rfl rfl rfl rfl le_rfl)

/-- A request keeps the identifiers there are, and those it adds are fresh. -/
theorem next_registers (h : Integrity rt w s) (request : Request) :
    Registers rt s ((service rt).next s request) := by
  cases ht : transact rt s request with
  | error e =>
    rw [show (service rt).next s request = s by simp only [System.next, service, ht]]
    exact .refl s
  | ok committed =>
    obtain ⟨s', answer⟩ := committed
    rw [show (service rt).next s request = s' by simp only [System.next, service, ht]]
    obtain ⟨hstart, hs⟩ := transact_serve h.workspaces ht
    cases request with
    | createDomain =>
      simp only [serve, Except.bind_eq_ok, Except.pure_eq_ok, Prod.exists, Prod.mk.injEq] at hs
      obtain ⟨_, _, hs, rfl, -⟩ := hs
      exact MasteringService.createDomain_registers hs
    | createSource =>
      simp only [serve, Except.bind_eq_ok, Except.pure_eq_ok, Prod.exists, Prod.mk.injEq] at hs
      obtain ⟨_, _, hs, rfl, -⟩ := hs
      exact MasteringService.createSource_registers hs
    | replaceSource =>
      simp only [serve, Except.bind_eq_ok, Except.pure_eq_ok, Prod.exists, Prod.mk.injEq] at hs
      obtain ⟨_, _, hs, rfl, -⟩ := hs
      exact MasteringService.replaceSource_registers hs
    | createRelationship =>
      simp only [serve, Except.bind_eq_ok, Except.pure_eq_ok, Prod.mk.injEq] at hs
      obtain ⟨_, hs, rfl, -⟩ := hs
      exact MasteringService.createRelationship_registers hs
    | ingest who req =>
      simp only [serve, Except.bind_eq_ok, Except.pure_eq_ok, Prod.exists, Prod.mk.injEq] at hs
      obtain ⟨_, _, hs, rfl, -⟩ := hs
      rcases MasteringService.ingest_cases hs with ⟨rfl, -⟩ | ⟨p, rfl, -⟩
      · exact .refl _
      · exact p.finished_registers h
    | proposeMerge =>
      simp only [serve, Except.bind_eq_ok, Except.pure_eq_ok, Prod.exists, Prod.mk.injEq] at hs
      obtain ⟨_, _, _, hs, rfl, -⟩ := hs
      exact MasteringService.proposeMerge_registers hs
    | proposeSplit =>
      simp only [serve, Except.bind_eq_ok, Except.pure_eq_ok, Prod.exists, Prod.mk.injEq] at hs
      obtain ⟨_, _, hs, rfl, -⟩ := hs
      exact MasteringService.proposeSplit_registers hs
    | decideTask who taskId d reason =>
      simp only [serve, Except.bind_eq_ok, Except.pure_eq_ok, Prod.exists, Prod.mk.injEq] at hs
      obtain ⟨_, _, hs, rfl, -⟩ := hs
      exact MasteringService.decideTask_registers h hs
    | createConfig =>
      simp only [serve, Except.bind_eq_ok, Except.pure_eq_ok, Prod.exists, Prod.mk.injEq] at hs
      obtain ⟨_, _, hs, rfl, -⟩ := hs
      exact MasteringService.createConfig_registers hs
    | revertConfig =>
      simp only [serve, Except.bind_eq_ok, Except.pure_eq_ok, Prod.exists, Prod.mk.injEq] at hs
      obtain ⟨_, _, hs, rfl, -⟩ := hs
      exact MasteringService.revertConfig_registers hs
    | simulate =>
      simp only [serve, Except.bind_eq_ok, Except.pure_eq_ok, Prod.exists, Prod.mk.injEq] at hs
      obtain ⟨_, _, hs, rfl, -⟩ := hs
      exact MasteringService.simulate_registers hs
    | proposeConfig =>
      simp only [serve, Except.bind_eq_ok, Except.pure_eq_ok, Prod.exists, Prod.mk.injEq] at hs
      obtain ⟨_, _, hs, rfl, -⟩ := hs
      exact .frame (MasteringService.proposeConfig_frame hs)
    | runJob =>
      simp only [serve, Except.bind_eq_ok, Except.pure_eq_ok, Prod.mk.injEq] at hs
      obtain ⟨_, hs, rfl, -⟩ := hs
      exact MasteringService.runJob_registers hs

/-- Identifiers of domains, configurations, jobs and tasks have been drawn, and identify the rows. -/
structure Registered (rt : Runtime) (s : Store) : Prop where
  domainIds : Table.Keyed Domain.id s.domains
  configurationIds : Table.Keyed ConfigurationVersion.id s.configurations
  jobIds : Table.Keyed DurableJob.id s.jobs
  taskIds : Table.Keyed ReviewTask.id s.tasks
  domains : ∀ id ∈ s.domains.map Domain.id, Drawn rt s.drawn id
  configurations : ∀ id ∈ s.configurations.map ConfigurationVersion.id, Drawn rt s.drawn id
  jobs : ∀ id ∈ s.jobs.map DurableJob.id, Drawn rt s.drawn id
  tasks : ∀ id ∈ s.tasks.map ReviewTask.id, Drawn rt s.drawn id

theorem Registered.step (h : Registered rt s) (hr : Registers rt s t) : Registered rt t where
  domainIds := hr.domains.nodup h.domainIds h.domains
  configurationIds := hr.configurations.nodup h.configurationIds h.configurations
  jobIds := hr.jobs.nodup h.jobIds h.jobs
  taskIds := hr.tasks.nodup h.taskIds h.tasks
  domains := hr.domains.drawn hr.drawn h.domains
  configurations := hr.configurations.drawn hr.drawn h.configurations
  jobs := hr.jobs.drawn hr.drawn h.jobs
  tasks := hr.tasks.drawn hr.drawn h.tasks

theorem registered_reachable (h : Reachable rt w s) : Registered rt s := by
  obtain ⟨requests, rfl⟩ := h
  refine ((service rt).run_invariant (P := fun s => Integrity rt w s ∧ Registered rt s)
    ⟨integrity_empty, ?_⟩ ((service rt).along_of_forall (fun _ _ => trivial) requests) ?_).2
  · constructor <;> simp [Store.empty, Table.Keyed]
  · intro s request hs (_ : True)
    exact ⟨integrity_step hs.1 request, hs.2.step (next_registers hs.1 request)⟩

end Recordlane
