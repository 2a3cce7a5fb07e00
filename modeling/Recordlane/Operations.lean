import Recordlane.Mastering.Bundles
import Recordlane.Simulations

/-! What writes the domains, the block index and the jobs, and what leaves them aside. -/
namespace Recordlane

variable {rt : Runtime} {w : Workspace} {self : MasteringService} {s s' t u : Store}
  {task : ReviewTask} {request : Request} {op : Operation} {configId : Id} {document : Json}

/-- The domains, the block index and the jobs are the same. -/
structure Aside (s t : Store) : Prop where
  domains : t.domains = s.domains
  blocks : t.blocks = s.blocks
  jobs : t.jobs = s.jobs

namespace Aside

theorem refl (s : Store) : Aside s s := ⟨rfl, rfl, rfl⟩

theorem trans (h : Aside s t) (h' : Aside t u) : Aside s u :=
  ⟨h'.domains.trans h.domains, h'.blocks.trans h.blocks, h'.jobs.trans h.jobs⟩

theorem frame (h : Frame rt s t) : Aside s t := ⟨h.domains, h.blocks, h.jobs⟩

end Aside

/-- Moreover the extraction runs are the same. -/
structure Away (s t : Store) : Prop extends Aside s t where
  runs : t.runs = s.runs

namespace Away

theorem refl (s : Store) : Away s s := ⟨.refl s, rfl⟩

theorem trans (h : Away s t) (h' : Away t u) : Away s u :=
  ⟨h.toAside.trans h'.toAside, h'.runs.trans h.runs⟩

theorem frame (h : Frame rt s t) : Away s t := ⟨.frame h, h.runs⟩

end Away

namespace MasteringService

theorem createSource_aside {key name kind : String} {priority : Int} {x : Source}
    (h : self.createSource s key name kind priority = .ok (s', x)) : Away s s' := by
  unfold createSource at h
  split at h
  · cases h
  · cases h
    exact ⟨⟨rfl, rfl, rfl⟩, rfl⟩

theorem replaceSource_aside {sourceKey key name kind : String} {priority : Int} {x : Source}
    (h : self.replaceSource s sourceKey key name kind priority = .ok (s', x)) : Away s s' := by
  unfold replaceSource at h
  split at h
  · cases h
  · split at h
    · cases h
    · cases h
      exact ⟨⟨rfl, rfl, rfl⟩, rfl⟩

theorem createRelationship_aside {fromId toId kind : String}
    (h : self.createRelationship s fromId toId kind = .ok s') : Away s s' := by
  unfold createRelationship at h
  dsimp only at h
  split at h
  · cases h
  · split at h
    · cases h
    · cases h
      exact ⟨⟨rfl, rfl, rfl⟩, rfl⟩

theorem createConfig_aside {c : ConfigurationVersion}
    (h : self.createConfig s document = .ok (s', c)) : Away s s' := by
  unfold createConfig at h
  split at h
  · cases h
  · simp only [Except.bind_eq_ok, Except.pure_eq_ok, Prod.mk.injEq] at h
    obtain ⟨policies, -, rfl, -⟩ := h
    exact ⟨⟨rfl, rfl, rfl⟩, rfl⟩

theorem revertConfig_aside {c : ConfigurationVersion}
    (h : self.revertConfig s configId = .ok (s', c)) : Away s s' := by
  unfold revertConfig at h
  split at h
  · cases h
  · simp only [Except.bind_eq_ok, Except.pure_eq_ok, Prod.exists, Prod.mk.injEq] at h
    obtain ⟨s₁, c₁, hcreate, rfl, -⟩ := h
    exact (createConfig_aside hcreate).trans ⟨⟨rfl, rfl, rfl⟩, rfl⟩

theorem simulate_aside {x : Simulation} (h : self.simulate s configId = .ok (s', x)) : Away s s' := by
  obtain ⟨-, -, -, -, -, rfl⟩ := simulate_details h
  exact ⟨⟨rfl, rfl, rfl⟩, rfl⟩

theorem proposeMerge_aside {entityIds : List Id} {reason : String} {dryRun : Bool}
    {impact : MergeImpact} {taskId : Option Id}
    (h : self.proposeMerge s entityIds reason dryRun = .ok (s', impact, taskId)) : Away s s' := by
  unfold proposeMerge at h
  dsimp only at h
  split at h
  · cases h
  · split at h
    · cases h
    · split at h
      · cases h
      · split at h
        · cases h
        · split at h
          · cases h
            exact .refl s
          · cases h
            exact ⟨⟨rfl, rfl, rfl⟩, rfl⟩

theorem proposeSplit_aside {entityId : Id} {sourceRecordIds : List Id} {reason : String}
    (h : self.proposeSplit s entityId sourceRecordIds reason = .ok (s', task)) : Away s s' := by
  unfold proposeSplit at h
  split at h
  · cases h
  · dsimp only at h
    split at h
    · cases h
    · cases h
      exact ⟨⟨rfl, rfl, rfl⟩, rfl⟩

theorem keepApart_aside {leftRecord rightRecord : Id} {left right : Option Id} {reason : String}
    (h : self.keepApart s leftRecord rightRecord left right reason = .ok s') : Away s s' := by
  unfold keepApart at h
  split at h
  · split at h
    · cases h
    · cases h
      exact ⟨⟨rfl, rfl, rfl⟩, rfl⟩
  · dsimp only at h
    split at h
    · cases h
    · cases h
      exact ⟨⟨rfl, rfl, rfl⟩, rfl⟩

theorem approveMaster_aside {entity : Option Entity} {version : Nat} {reason : String}
    (h : self.approveMaster s task entity version reason = .ok s') : Away s s' := by
  unfold approveMaster at h
  split at h
  · cases h
  · cases h
  · cases h
    exact ⟨⟨rfl, rfl, rfl⟩, rfl⟩

/-- The decisions on tasks other than a configuration's leave the domains aside. -/
theorem applyDecision_aside (h : Integrity self.rt self.workspace s) {d : Decision} {reason : String}
    {a : Applied} (ha : self.applyDecision s task (self.taskEntity s task) d reason = .ok a) :
    Away s a.store ∨ d = .approve ∧ ∃ configId version checksum simulationId checkpoint result,
      task.payload = .configurationApproval configId version checksum simulationId checkpoint result ∧
      self.activateConfiguration s task configId checksum simulationId = .ok a := by
  have hmerged : ∀ {ids : List Id} {x : Id}, Away s (s.merged ids x) := fun {_ _} => ⟨⟨rfl, rfl, rfl⟩, rfl⟩
  have hsplit : ∀ {ids : List Id} {x : Id} {e : Entity}, Away s (s.split ids x e) :=
    fun {_ _ _} => ⟨⟨rfl, rfl, rfl⟩, rfl⟩
  unfold applyDecision at ha
  split at ha
  · next hp =>
    simp only [Except.bind_eq_ok, Except.pure_eq_ok] at ha
    obtain ⟨t, ht, rfl⟩ := ha
    cases linkMatch_effect h hp ht with
    | quiet hd _ => simp [Inert, hp] at hd
    | link _ _ _ _ _ hf => exact .inl (hmerged.trans (.frame hf))
    | keepApart hd => simp at hd
  · simp only [Except.bind_eq_ok, Except.pure_eq_ok] at ha
    obtain ⟨t, ht, rfl⟩ := ha
    exact .inl (keepApart_aside ht)
  · simp only [Except.bind_eq_ok, Except.pure_eq_ok] at ha
    obtain ⟨t, ht, rfl⟩ := ha
    exact .inl (keepApart_aside ht)
  · simp only [Except.bind_eq_ok, Except.pure_eq_ok] at ha
    obtain ⟨t, ht, rfl⟩ := ha
    exact .inl (approveMaster_aside ht)
  · next hp => exact .inr ⟨rfl, _, _, _, _, _, _, hp, ha⟩
  · next hp =>
    simp only [Except.bind_eq_ok, Except.pure_eq_ok] at ha
    obtain ⟨t, ht, rfl⟩ := ha
    cases applyMerge_effect h hp ht with
    | quiet hd _ => simp [Inert, hp] at hd
    | merge _ _ _ _ _ hf => exact .inl (hmerged.trans (.frame hf))
    | approveMaster hp' => simp [hp] at hp'
    | split hp' => simp [hp] at hp'
    | keepApart hd => simp at hd
  · next hp =>
    simp only [Except.bind_eq_ok, Except.pure_eq_ok] at ha
    obtain ⟨t, ht, rfl⟩ := ha
    cases applySplit_effect h hp ht with
    | quiet hd _ => simp [Inert, hp] at hd
    | split _ _ _ _ _ _ _ _ hf => exact .inl (hsplit.trans (.frame hf))
    | approveMaster hp' => simp [hp] at hp'
    | merge hp' => simp [hp] at hp'
    | keepApart hd => simp at hd
  · rw [Except.pure_eq_ok] at ha
    rw [← ha]
    exact .inl (.refl s)

theorem activateConfiguration_staled {simulationId : Id} {checksum : String} {e : Raised}
    (h : self.activateConfiguration s task configId checksum simulationId = .ok (.staled s' e)) :
    Away s s' := by
  unfold activateConfiguration at h
  dsimp only at h
  split at h
  · split at h
    · cases h
    · split at h
      · cases h
        exact ⟨⟨rfl, rfl, rfl⟩, rfl⟩
      · simp only [Except.bind_eq_ok, Except.pure_eq_ok, Prod.exists] at h
        obtain ⟨policies, -, s₁, jobs, -, h⟩ := h
        cases h
  · cases h

end MasteringService

/-- The approval of a configuration that goes through. -/
structure Activating (svc : MasteringService) (s : Store) (taskId : Id) (reason : String) (t : Store) where
  task : ReviewTask
  configId : Id
  version : Nat
  checksum : String
  simulationId : Id
  checkpoint : Nat
  result : SimulationResult
  activated : Store
  listed : task ∈ s.tasks
  named : task.id = taskId
  opened : task.status = .opened
  payload : task.payload =
    .configurationApproval configId version checksum simulationId checkpoint result
  activates : svc.activateConfiguration s task configId checksum simulationId = .ok (.done activated)
  closed : t = svc.closeTask activated task .approve reason

/-- A decision leaves the domains aside, or it activates a configuration. -/
theorem MasteringService.decideTask_aside (h : Integrity self.rt self.workspace s) {taskId : Id}
    {d : Decision} {reason : String} {answer : Py Unit}
    (hd : self.decideTask s taskId d reason = .ok (s', answer)) :
    Away s s' ∨ d = .approve ∧ answer = .ok () ∧ Nonempty (Activating self s taskId reason s') := by
  unfold decideTask at hd
  split at hd
  · cases hd
  · next task htask =>
    have hid := List.find?_some htask
    simp only [Bool.and_eq_true, decide_eq_true_eq] at hid
    split at hd
    · cases hd
    · next hopen =>
      split at hd
      · cases hd
      · split at hd
        · cases hd
          exact .inl ⟨⟨rfl, rfl, rfl⟩, rfl⟩
        · split at hd
          · cases hd
          · rw [Except.bind_eq_ok] at hd
            obtain ⟨a, ha, hd⟩ := hd
            cases a with
            | staled u e =>
              cases hd
              rcases applyDecision_aside h ha with haside | ⟨-, _, _, _, _, _, _, -, hstaled⟩
              · exact .inl haside
              · exact .inl (activateConfiguration_staled hstaled)
            | done u =>
              cases hd
              rcases applyDecision_aside h ha with haside | ⟨rfl, _, _, _, _, _, _, hp, hdone⟩
              · exact .inl (haside.trans (.frame closeTask_frame))
              · exact .inr ⟨rfl, rfl, ⟨⟨task, _, _, _, _, _, _, u, List.mem_of_find?_eq_some htask,
                  hid.1, of_not_not hopen, hp, hdone, rfl⟩⟩⟩

/-- The requests that write the domains, the block index or the jobs. -/
inductive Writing (rt : Runtime) (w : Workspace) (s : Store) : Request → Store → Prop
  | created {who : Principal} {key name mode : String} {definition : Dict} {t : Store} {d : Domain}
      (h : MasteringService.createDomain ⟨rt, who, w⟩ s key name mode definition = .ok (t, d)) :
      Writing rt w s (.createDomain who key name mode definition) t
  | page {who : Principal} {req : IngestRequest} (p : Page ⟨rt, who, w⟩ s req) :
      Writing rt w s (.ingest who req) p.finished
  | activated {who : Principal} {taskId : Id} {reason : String} {t : Store}
      (a : Activating ⟨rt, who, w⟩ s taskId reason t) :
      Writing rt w s (.decideTask who taskId .approve reason) t
  | job {workspaceId : String} {jobId : Id} {t : Store}
      (h : MasteringService.runJob ⟨rt, workerPrincipal workspaceId, w⟩ s jobId = .ok t) :
      Writing rt w s (.runJob workspaceId jobId) t

/-- A request leaves the domains, the block index and the jobs aside, or it goes through and writes
them. -/
theorem next_writing (h : Integrity rt w s) (request : Request) :
    Away s ((service rt).next s request) ∨
      (((service rt).step s request).2.isOk = true ∧
        Writing rt w s request ((service rt).next s request)) := by
  cases ht : transact rt s request with
  | error e =>
    rw [show (service rt).next s request = s by simp only [System.next, service, ht]]
    exact .inl (.refl s)
  | ok committed =>
    obtain ⟨s', answer⟩ := committed
    rw [show (service rt).next s request = s' by simp only [System.next, service, ht],
      show ((service rt).step s request).2 = answer by simp only [service, ht]]
    obtain ⟨hstart, hs⟩ := transact_serve h.workspaces ht
    cases request with
    | createDomain =>
      simp only [serve, Except.bind_eq_ok, Except.pure_eq_ok, Prod.exists, Prod.mk.injEq] at hs
      obtain ⟨_, _, hs, rfl, rfl⟩ := hs
      exact .inr ⟨rfl, .created hs⟩
    | createSource =>
      simp only [serve, Except.bind_eq_ok, Except.pure_eq_ok, Prod.exists, Prod.mk.injEq] at hs
      obtain ⟨_, _, hs, rfl, -⟩ := hs
      exact .inl (MasteringService.createSource_aside hs)
    | replaceSource =>
      simp only [serve, Except.bind_eq_ok, Except.pure_eq_ok, Prod.exists, Prod.mk.injEq] at hs
      obtain ⟨_, _, hs, rfl, -⟩ := hs
      exact .inl (MasteringService.replaceSource_aside hs)
    | createRelationship =>
      simp only [serve, Except.bind_eq_ok, Except.pure_eq_ok, Prod.mk.injEq] at hs
      obtain ⟨_, hs, rfl, -⟩ := hs
      exact .inl (MasteringService.createRelationship_aside hs)
    | ingest who req =>
      simp only [serve, Except.bind_eq_ok, Except.pure_eq_ok, Prod.exists, Prod.mk.injEq] at hs
      obtain ⟨_, _, hs, rfl, rfl⟩ := hs
      rcases MasteringService.ingest_cases hs with ⟨rfl, -⟩ | ⟨p, rfl, -⟩
      · exact .inl (.refl _)
      · exact .inr ⟨rfl, .page p⟩
    | proposeMerge =>
      simp only [serve, Except.bind_eq_ok, Except.pure_eq_ok, Prod.exists, Prod.mk.injEq] at hs
      obtain ⟨_, _, _, hs, rfl, -⟩ := hs
      exact .inl (MasteringService.proposeMerge_aside hs)
    | proposeSplit =>
      simp only [serve, Except.bind_eq_ok, Except.pure_eq_ok, Prod.exists, Prod.mk.injEq] at hs
      obtain ⟨_, _, hs, rfl, -⟩ := hs
      exact .inl (MasteringService.proposeSplit_aside hs)
    | decideTask who taskId d reason =>
      simp only [serve, Except.bind_eq_ok, Except.pure_eq_ok, Prod.exists, Prod.mk.injEq] at hs
      obtain ⟨_, _, hs, rfl, rfl⟩ := hs
      rcases MasteringService.decideTask_aside h hs with haside | ⟨rfl, rfl, ⟨a⟩⟩
      · exact .inl haside
      · exact .inr ⟨rfl, .activated a⟩
    | createConfig =>
      simp only [serve, Except.bind_eq_ok, Except.pure_eq_ok, Prod.exists, Prod.mk.injEq] at hs
      obtain ⟨_, _, hs, rfl, -⟩ := hs
      exact .inl (MasteringService.createConfig_aside hs)
    | revertConfig =>
      simp only [serve, Except.bind_eq_ok, Except.pure_eq_ok, Prod.exists, Prod.mk.injEq] at hs
      obtain ⟨_, _, hs, rfl, -⟩ := hs
      exact .inl (MasteringService.revertConfig_aside hs)
    | simulate =>
      simp only [serve, Except.bind_eq_ok, Except.pure_eq_ok, Prod.exists, Prod.mk.injEq] at hs
      obtain ⟨_, _, hs, rfl, -⟩ := hs
      exact .inl (MasteringService.simulate_aside hs)
    | proposeConfig =>
      simp only [serve, Except.bind_eq_ok, Except.pure_eq_ok, Prod.exists, Prod.mk.injEq] at hs
      obtain ⟨_, _, hs, rfl, -⟩ := hs
      exact .inl (.frame (MasteringService.proposeConfig_frame hs))
    | runJob =>
      simp only [serve, Except.bind_eq_ok, Except.pure_eq_ok, Prod.mk.injEq] at hs
      obtain ⟨_, hs, rfl, rfl⟩ := hs
      exact .inr ⟨rfl, .job hs⟩

end Recordlane
