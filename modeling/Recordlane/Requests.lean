import Recordlane.Effects
import Recordlane.Observing

/-! What a request does to a store, and the integrity of every reachable state. -/
namespace Recordlane

variable {rt : Runtime} {w : Workspace} {self : MasteringService} {s s' t : Store}
  {req : IngestRequest} {source : Source} {domain : Domain} {request : Request}

theorem quiet_audit {action objectType objectId : String} {detail : Dict}
    (h : Quiet self.rt s t) : Quiet self.rt s (self.audit t action objectType objectId detail) :=
  h.trans (self.audit_frame ..).toQuiet

namespace MasteringService

theorem createDomain_quiet {key name mode : String} {definition : Dict} {d : Domain}
    (h : self.createDomain s key name mode definition = .ok (s', d)) : Quiet self.rt s s' := by
  unfold createDomain at h
  split at h
  · cases h
  · simp only [Except.bind_eq_ok, Except.pure_eq_ok, Prod.mk.injEq] at h
    obtain ⟨policy, -, rfl, -⟩ := h
    exact quiet_audit ⟨⟨⟨rfl, rfl, rfl, rfl, rfl, .refl, Nat.le_succ _⟩, rfl, .refl _⟩, rfl, rfl⟩

theorem createSource_quiet {key name kind : String} {priority : Int} {x : Source}
    (h : self.createSource s key name kind priority = .ok (s', x)) : Quiet self.rt s s' := by
  unfold createSource at h
  split at h
  · cases h
  · cases h
    exact quiet_audit ⟨⟨⟨rfl, rfl, rfl, rfl, rfl, .refl, Nat.le_succ _⟩, rfl, .refl _⟩, rfl, rfl⟩

theorem replaceSource_quiet {sourceKey key name kind : String} {priority : Int} {x : Source}
    (h : self.replaceSource s sourceKey key name kind priority = .ok (s', x)) :
    Quiet self.rt s s' := by
  unfold replaceSource at h
  split at h
  · cases h
  · split at h
    · cases h
    · cases h
      exact quiet_audit ⟨⟨⟨rfl, rfl, rfl, rfl, rfl, .refl, le_rfl⟩, rfl, .refl _⟩, rfl, rfl⟩

theorem createRelationship_quiet {fromId toId kind : String}
    (h : self.createRelationship s fromId toId kind = .ok s') : Quiet self.rt s s' := by
  unfold createRelationship at h
  dsimp only at h
  split at h
  · cases h
  · split at h
    · cases h
    · cases h
      exact quiet_audit ⟨⟨⟨rfl, rfl, rfl, rfl, rfl, .refl, Nat.le_succ _⟩, rfl, .refl _⟩, rfl, rfl⟩

theorem createConfig_quiet {document : Json} {c : ConfigurationVersion}
    (h : self.createConfig s document = .ok (s', c)) : Quiet self.rt s s' := by
  unfold createConfig at h
  split at h
  · cases h
  · simp only [Except.bind_eq_ok, Except.pure_eq_ok, Prod.mk.injEq] at h
    obtain ⟨policies, -, rfl, -⟩ := h
    exact quiet_audit ⟨⟨⟨rfl, rfl, rfl, rfl, rfl, .refl, Nat.le_succ _⟩, rfl, .refl _⟩, rfl, rfl⟩

theorem revertConfig_quiet {configId : Id} {c : ConfigurationVersion}
    (h : self.revertConfig s configId = .ok (s', c)) : Quiet self.rt s s' := by
  unfold revertConfig at h
  split at h
  · cases h
  · simp only [Except.bind_eq_ok, Except.pure_eq_ok, Prod.exists, Prod.mk.injEq] at h
    obtain ⟨s₁, c₁, hcreate, rfl, -⟩ := h
    exact quiet_audit (createConfig_quiet hcreate)

theorem simulate_quiet {configId : Id} {x : Simulation}
    (h : self.simulate s configId = .ok (s', x)) : Quiet self.rt s s' := by
  unfold simulate at h
  split at h
  · cases h
  · simp only [Except.bind_eq_ok, Except.pure_eq_ok, Prod.mk.injEq] at h
    obtain ⟨policies, -, details, -, rfl, -⟩ := h
    exact ⟨⟨⟨rfl, rfl, rfl, rfl, rfl, .refl, Nat.le_succ _⟩, rfl, .refl _⟩, rfl, rfl⟩

theorem proposeConfig_quiet {configId simulationId : Id} {task : ReviewTask}
    (h : self.proposeConfig s configId simulationId = .ok (s', task)) : Quiet self.rt s s' := by
  unfold proposeConfig at h
  split at h
  · cases h
  · split at h
    · cases h
    · dsimp only at h
      split at h
      · cases h
      · cases h
        refine quiet_audit (Quiet.trans (Frame.toQuiet ?_) (insertTask_frame (by
          simp [ReviewTask.kind, TaskPayload.kind]) rfl).toQuiet)
        unfold supersedeProposal
        split
        · exact modifyTask_frame (fun _ => rfl) (fun _ => rfl) fun _ => rfl
        · exact .refl s

theorem proposeMerge_quiet {entityIds : List Id} {reason : String} {dryRun : Bool}
    {impact : MergeImpact} {taskId : Option Id}
    (h : self.proposeMerge s entityIds reason dryRun = .ok (s', impact, taskId)) :
    Quiet self.rt s s' := by
  unfold proposeMerge at h
  dsimp only at h
  split at h
  · cases h
  · split at h
    · cases h
    · split at h
      · cases h
      · split at h
        · cases h
        · split at h
          · cases h
            exact .refl s
          · cases h
            exact quiet_audit (insertTask_frame (by
              simp [ReviewTask.kind, TaskPayload.kind]) rfl).toQuiet

theorem proposeSplit_quiet {entityId : Id} {sourceRecordIds : List Id} {reason : String}
    {task : ReviewTask} (h : self.proposeSplit s entityId sourceRecordIds reason = .ok (s', task)) :
    Quiet self.rt s s' := by
  unfold proposeSplit at h
  split at h
  · cases h
  · dsimp only at h
    split at h
    · cases h
    · cases h
      exact quiet_audit (insertTask_frame (by
        simp [ReviewTask.kind, TaskPayload.kind]) rfl).toQuiet

theorem openRun_quiet {runId : String} {run : Option IngestionRun}
    (h : self.openRun s source req runId = .ok (.page t run)) : Quiet self.rt s t := by
  unfold openRun at h
  split at h
  · split at h
    · cases h
    · split at h
      · cases h
      · split at h
        · cases h
        · cases h
          exact .refl s
  · split at h
    · cases h
    · cases h
      exact ⟨⟨⟨rfl, rfl, rfl, rfl, rfl, .refl, Nat.le_succ _⟩, rfl, .refl _⟩, rfl, rfl⟩

theorem modifyRun_quiet {run : IngestionRun} {f : IngestionRun → IngestionRun} :
    Quiet self.rt s (modifyRun s run f) :=
  ⟨⟨⟨rfl, rfl, rfl, rfl, rfl, .refl, le_rfl⟩, rfl, .refl _⟩, rfl, rfl⟩

theorem checkHandoff_quiet {run : IngestionRun} (h : self.checkHandoff s source req run = .ok t) :
    Quiet self.rt s t := by
  unfold checkHandoff at h
  split at h
  · cases h
    exact .refl s
  · split at h
    · cases h
    · split at h
      · cases h
      · cases h
        exact modifyRun_quiet

theorem beginPage_quiet {run : Option IngestionRun}
    (h : self.beginPage s source req = .ok (.page t run)) : Quiet self.rt s t := by
  unfold beginPage at h
  split at h
  · split at h
    · cases h
    · cases h
      exact .refl s
  · rw [Except.bind_eq_ok] at h
    obtain ⟨start, hstart, h⟩ := h
    split at h
    · cases h
    · cases h
      exact openRun_quiet hstart
    · rw [Except.bind_eq_ok] at h
      obtain ⟨u, hhandoff, h⟩ := h
      split at h
      · cases h
      · split at h
        · cases h
        · cases h
          exact (openRun_quiet hstart).trans (checkHandoff_quiet hhandoff)

theorem openRun_runs {runId : String} {run : Option IngestionRun}
    (h : self.openRun s source req runId = .ok (.page t run)) :
    ∃ runs n, t = { s with runs := runs, drawn := n } := by
  unfold openRun at h
  split at h
  · split at h
    · cases h
    · split at h
      · cases h
      · split at h
        · cases h
        · cases h
          exact ⟨_, _, rfl⟩
  · split at h
    · cases h
    · cases h
      exact ⟨_, _, rfl⟩

theorem beginPage_runs {run : Option IngestionRun}
    (h : self.beginPage s source req = .ok (.page t run)) :
    ∃ runs n, t = { s with runs := runs, drawn := n } := by
  unfold beginPage at h
  split at h
  · split at h
    · cases h
    · cases h
      exact ⟨_, _, rfl⟩
  · rw [Except.bind_eq_ok] at h
    obtain ⟨start, hstart, h⟩ := h
    split at h
    · cases h
    · cases h
      exact openRun_runs hstart
    · rw [Except.bind_eq_ok] at h
      obtain ⟨u, hhandoff, h⟩ := h
      obtain ⟨runs, n, rfl⟩ := openRun_runs hstart
      have hu : ∃ runs n, u = { s with runs := runs, drawn := n } := by
        unfold checkHandoff at hhandoff
        split at hhandoff
        · cases hhandoff
          exact ⟨_, _, rfl⟩
        · split at hhandoff
          · cases hhandoff
          · split at hhandoff
            · cases hhandoff
            · cases hhandoff
              exact ⟨_, _, rfl⟩
      split at h
      · cases h
      · split at h
        · cases h
        · cases h
          exact hu

theorem finishBatch_quiet {run : Option IngestionRun} {seen : List String} {counts : Counts} :
    Quiet self.rt s (self.finishBatch s source req run seen counts) := by
  unfold finishBatch
  refine quiet_audit (Quiet.trans (t := { s with
    sources := Table.modify Source.id s.sources source.id fun x =>
      { x with
        lastIngestedAt := some (self.now s)
        checkpoint := some (sourceCheckpoint source req counts) } })
    ⟨⟨⟨rfl, rfl, rfl, rfl, rfl, .refl, le_rfl⟩, rfl, .refl _⟩, rfl, rfl⟩ ?_)
  cases run with
  | none => exact .refl _
  | some run => exact modifyRun_quiet

end MasteringService

/-- A page that goes through: what it finds, the run it belongs to, its work and its verdicts. -/
structure Page (svc : MasteringService) (s : Store) (req : IngestRequest) where
  source : Source
  domain : Domain
  begun : Store
  run : Option IngestionRun
  policy : CompiledPolicy
  work : List IncomingRecord
  observed : Store
  verdicts : List Verdict
  source_found : svc.source? s req.sourceKey = some source
  domain_found : svc.domain? s req.domainKey = some domain
  begins : svc.beginPage s source req = .ok (.page begun run)
  authorized : svc.authorize domain req.records = .ok policy
  work_listed : svc.workRecords begun source req run (MasteringService.runSeen run ++ req.seenIds) =
    .ok work
  observes : svc.observeAll source req.domainKey policy req.faultAfterRecords begun 1 work =
    .ok (observed, verdicts)

namespace Page

/-- The local keys the run has shown, this page included. -/
def seen (p : Page self s req) : List String := MasteringService.runSeen p.run ++ req.seenIds

/-- The store the page commits. -/
def finished (p : Page self s req) : Store :=
  self.finishBatch p.observed p.source req p.run p.seen (Counts.of p.verdicts)

theorem begun_quiet (p : Page self s req) : Quiet self.rt s p.begun :=
  MasteringService.beginPage_quiet p.begins

theorem finished_quiet (p : Page self s req) : Quiet self.rt p.observed p.finished :=
  MasteringService.finishBatch_quiet

theorem invariant (p : Page self s req) {P : Store → Prop} (h : Integrity self.rt self.workspace s)
    (hs : P s) (hquiet : ∀ s t, Quiet self.rt s t → P s → P t)
    (hstep : ∀ s s' item v, item ∈ p.work → Integrity self.rt self.workspace s → P s →
      self.observe s p.source req.domainKey p.policy item = .ok (s', v) → P s') :
    Integrity self.rt self.workspace p.finished ∧ P p.finished := by
  have hi := h.sameRows p.begun_quiet.toSameRows
  obtain ⟨hi', hp⟩ := MasteringService.observeAll_invariant hi (hquiet _ _ p.begun_quiet hs) hstep
    p.observes
  exact ⟨hi'.sameRows p.finished_quiet.toSameRows, hquiet _ _ p.finished_quiet hp⟩

end Page

namespace MasteringService

theorem sourceAndDomain_eq {source : Source} {domain : Domain}
    (h : self.sourceAndDomain s req = .ok (source, domain)) :
    self.source? s req.sourceKey = some source ∧ self.domain? s req.domainKey = some domain := by
  unfold sourceAndDomain at h
  split at h
  · next hs hd =>
    cases h
    exact ⟨hs, hd⟩
  · cases h

/-- An ingestion that is answered was a page already taken, or a page that went through. -/
theorem ingest_cases {answer : IngestAnswer} (h : self.ingest s req = .ok (s', answer)) :
    (s' = s ∧ ∃ source runId checkpoint, self.source? s req.sourceKey = some source ∧
        self.beginPage s source req = .ok (.duplicate runId checkpoint) ∧
        answer = .duplicatePage source.key runId checkpoint) ∨
      ∃ p : Page self s req, s' = p.finished ∧ answer = .ingested (Counts.of p.verdicts)
        p.source.key req.runId (sourceCheckpoint p.source req (Counts.of p.verdicts))
        (Counts.of p.verdicts).retired := by
  unfold ingest at h
  rw [Except.bind_eq_ok] at h
  obtain ⟨⟨source, domain⟩, hfound, h⟩ := h
  obtain ⟨hsource, hdomain⟩ := sourceAndDomain_eq hfound
  dsimp only at h
  rw [Except.bind_eq_ok] at h
  obtain ⟨start, hstart, h⟩ := h
  split at h
  · cases h
    exact .inl ⟨rfl, source, _, _, hsource, hstart, rfl⟩
  · next begun run =>
    rw [Except.bind_eq_ok] at h
    obtain ⟨⟨s₃, work, vs⟩, hpage, h⟩ := h
    cases h
    unfold ingestPage at hpage
    simp only [Except.bind_eq_ok, Except.pure_eq_ok, Prod.exists, Prod.mk.injEq] at hpage
    obtain ⟨policy, hpolicy, work', hwork, observed, vs', hobserve, rfl, rfl, rfl⟩ := hpage
    exact .inr ⟨⟨source, domain, begun, run, policy, work', observed, vs', hsource, hdomain, hstart,
      hpolicy, hwork, hobserve⟩, rfl, rfl⟩

theorem insertBlocks_quiet {blocks : List CandidateBlock} : Quiet self.rt s (s.insertBlocks blocks) :=
  ⟨⟨insertBlocks_rows, rfl, .refl _⟩, rfl, rfl⟩

end MasteringService

/-- A row of the record that is normalized again. -/
def renormalize (id : Id) (normalized : Dict) (blockingKey : String) : SourceRecord → SourceRecord :=
  onRow SourceRecord.id id fun r => { r with normalized := normalized, blockingKey := blockingKey }

namespace MasteringService

/-- What normalizing records again, counting entities up and quiet changes keep, a job keeps. -/
theorem runJob_invariant {P : Store → Prop} (hs : P s) {jobId : Id}
    (hquiet : ∀ s t, Quiet self.rt s t → P s → P t)
    (hrecord : ∀ s id normalized key, P s → P (s.mapRecords (renormalize id normalized key)))
    (hbump : ∀ s id, P s → P (s.mapEntities (bump id)))
    (h : self.runJob s jobId = .ok s') : P s' := by
  have hreindex : ∀ {policy : CompiledPolicy} {key : String} (u : Store) (o : SourceObject)
      (u' : Store), P u → self.reindex policy key u o = .ok u' → P u' := by
    intro policy key u o u' hu hstep
    unfold reindex at hstep
    split at hstep
    · cases hstep
      exact hu
    · simp only [Except.bind_eq_ok, Except.pure_eq_ok] at hstep
      obtain ⟨normalized, -, keys, -, rfl⟩ := hstep
      exact hquiet _ _ insertBlocks_quiet (hrecord _ _ _ _ hu)
  have hredraft : ∀ (u : Store) (id : Id) (u' : Store), P u → self.redraft u id = .ok u' → P u' := by
    intro u id u' hu hstep
    unfold redraft at hstep
    simp only [Except.bind_eq_ok, Except.pure_eq_ok, Prod.exists] at hstep
    obtain ⟨u₁, draft, hdraft, rfl⟩ := hstep
    exact hquiet _ _ (draftMaster_frame hdraft).toQuiet (hbump _ _ hu)
  unfold runJob at h
  split at h
  · cases h
  · simp only [Except.bind_eq_ok, Except.pure_eq_ok] at h
    obtain ⟨s₁, hjob, rfl⟩ := h
    refine hquiet s₁ _ ⟨⟨⟨rfl, rfl, rfl, rfl, rfl, .refl, le_rfl⟩, rfl, .refl _⟩, rfl, rfl⟩ ?_
    unfold remasterDomain at hjob
    dsimp only at hjob
    split at hjob
    · cases hjob
    · rw [Except.bind_eq_ok] at hjob
      obtain ⟨policy, -, hjob⟩ := hjob
      split at hjob
      · cases hjob
      · simp only [Except.bind_eq_ok, Except.pure_eq_ok] at hjob
        obtain ⟨s₂, hobjects, s₃, hentities, rfl⟩ := hjob
        have h₂ := Except.foldlM_invariant hobjects (hquiet s _
          ⟨⟨⟨rfl, rfl, rfl, rfl, rfl, .refl, le_rfl⟩, rfl, .refl _⟩, rfl, rfl⟩ hs)
          fun u o u' _ => hreindex u o u'
        have h₃ := Except.foldlM_invariant hentities h₂ fun u id u' _ => hredraft u id u'
        exact hquiet _ _ (self.audit_frame ..).toQuiet h₃

end MasteringService

/-- The task a request decides, with the decision, where the service takes it. -/
def Request.taken? (rt : Runtime) (s : Store) : Request → Option (ReviewTask × Decision)
  | .decideTask who taskId d _ =>
    match MasteringService.start rt who s with
    | .ok self => (self.taken? s taskId d).map fun task => (task, d)
    | .error _ => none
  | _ => none

theorem Request.taken?_eq {task : ReviewTask} {d : Decision} (h : (task, d) ∈ request.taken? rt s) :
    ∃ self who taskId reason, request = .decideTask who taskId d reason ∧
      MasteringService.start rt who s = .ok self ∧ self.taken? s taskId d = some task := by
  cases request with
  | decideTask who taskId d' reason =>
    rw [Option.mem_def, Request.taken?] at h
    cases hself : MasteringService.start rt who s with
    | error e =>
      rw [hself] at h
      cases h
    | ok self =>
      rw [hself] at h
      obtain ⟨_, htask, heq⟩ := Option.map_eq_some_iff.mp h
      cases heq
      exact ⟨self, who, taskId, reason, rfl, hself, htask⟩
  | _ => cases h

theorem Request.taken?_mem {task : ReviewTask} {d : Decision} (h : (task, d) ∈ request.taken? rt s) :
    task ∈ s.tasks := by
  obtain ⟨_, _, _, _, -, -, htask⟩ := taken?_eq h
  exact MasteringService.taken?_mem htask

/-- The change a request makes. -/
inductive RequestEffect (rt : Runtime) (w : Workspace) (s : Store) : Request → Store → Prop
  | quiet {request : Request} {s' : Store} (h : Quiet rt s s') : RequestEffect rt w s request s'
  | page {who : Principal} {req : IngestRequest}
      (hs : MasteringService.start rt who s = .ok ⟨rt, who, w⟩) (p : Page ⟨rt, who, w⟩ s req) :
      RequestEffect rt w s (.ingest who req) p.finished
  | decision {who : Principal} {taskId : Id} {d : Decision} {reason : String} {task : ReviewTask}
      {s' : Store} (hd : (task, d) ∈ (Request.decideTask who taskId d reason).taken? rt s)
      (h : DecisionEffect ⟨rt, who, w⟩ s task d s') :
      RequestEffect rt w s (.decideTask who taskId d reason) s'
  | job {workspaceId jobId : Id} {s' : Store}
      (h : MasteringService.runJob ⟨rt, workerPrincipal workspaceId, w⟩ s jobId = .ok s') :
      RequestEffect rt w s (.runJob workspaceId jobId) s'

theorem start_workspace {who : Principal} (h : s.workspaces = [w])
    (hs : MasteringService.start rt who s = .ok self) : self = ⟨rt, who, w⟩ := by
  unfold MasteringService.start at hs
  rw [h] at hs
  split at hs
  · next w' hw =>
    cases hs
    rw [List.mem_singleton.mp (List.mem_of_find?_eq_some hw)]
  · cases hs

theorem transact_serve {answer : Py Answer} (h : s.workspaces = [w])
    (ht : transact rt s request = .ok (s', answer)) :
    MasteringService.start rt request.who s = .ok ⟨rt, request.who, w⟩ ∧
      serve ⟨rt, request.who, w⟩ s request = .ok (s', answer) := by
  unfold transact at ht
  rw [Except.bind_eq_ok] at ht
  obtain ⟨self, hself, ht⟩ := ht
  obtain rfl := start_workspace h hself
  exact ⟨hself, ht⟩

theorem serve_effect {answer : Py Answer} (h : Integrity rt w s)
    (hstart : MasteringService.start rt request.who s = .ok ⟨rt, request.who, w⟩)
    (hs : serve ⟨rt, request.who, w⟩ s request = .ok (s', answer)) :
    RequestEffect rt w s request s' := by
  cases request with
  | createDomain who key name mode definition =>
    simp only [serve, Except.bind_eq_ok, Except.pure_eq_ok, Prod.exists, Prod.mk.injEq] at hs
    obtain ⟨_, _, hs, rfl, -⟩ := hs
    exact .quiet (MasteringService.createDomain_quiet hs)
  | createSource who key name kind priority =>
    simp only [serve, Except.bind_eq_ok, Except.pure_eq_ok, Prod.exists, Prod.mk.injEq] at hs
    obtain ⟨_, _, hs, rfl, -⟩ := hs
    exact .quiet (MasteringService.createSource_quiet hs)
  | replaceSource who sourceKey key name kind priority =>
    simp only [serve, Except.bind_eq_ok, Except.pure_eq_ok, Prod.exists, Prod.mk.injEq] at hs
    obtain ⟨_, _, hs, rfl, -⟩ := hs
    exact .quiet (MasteringService.replaceSource_quiet hs)
  | createRelationship who fromId toId kind =>
    simp only [serve, Except.bind_eq_ok, Except.pure_eq_ok, Prod.mk.injEq] at hs
    obtain ⟨_, hs, rfl, -⟩ := hs
    exact .quiet (MasteringService.createRelationship_quiet hs)
  | ingest who req =>
    simp only [serve, Except.bind_eq_ok, Except.pure_eq_ok, Prod.exists, Prod.mk.injEq] at hs
    obtain ⟨_, _, hs, rfl, -⟩ := hs
    rcases MasteringService.ingest_cases hs with ⟨rfl, -⟩ | ⟨p, rfl, -⟩
    · exact .quiet (.refl _)
    · exact .page hstart p
  | proposeMerge who entityIds reason dryRun =>
    simp only [serve, Except.bind_eq_ok, Except.pure_eq_ok, Prod.exists, Prod.mk.injEq] at hs
    obtain ⟨_, _, _, hs, rfl, -⟩ := hs
    exact .quiet (MasteringService.proposeMerge_quiet hs)
  | proposeSplit who entityId sourceRecordIds reason =>
    simp only [serve, Except.bind_eq_ok, Except.pure_eq_ok, Prod.exists, Prod.mk.injEq] at hs
    obtain ⟨_, _, hs, rfl, -⟩ := hs
    exact .quiet (MasteringService.proposeSplit_quiet hs)
  | decideTask who taskId decision reason =>
    simp only [serve, Except.bind_eq_ok, Except.pure_eq_ok, Prod.exists, Prod.mk.injEq] at hs
    obtain ⟨_, _, hs, rfl, -⟩ := hs
    rcases MasteringService.decideTask_effect h hs with ⟨hq, -⟩ | ⟨task, hd, -, heffect⟩
    · exact .quiet hq
    · refine .decision ?_ heffect
      rw [Request.who] at hstart hd
      rw [Option.mem_def, Request.taken?, hstart]
      exact Option.map_eq_some_iff.mpr ⟨task, hd, rfl⟩
  | createConfig who document =>
    simp only [serve, Except.bind_eq_ok, Except.pure_eq_ok, Prod.exists, Prod.mk.injEq] at hs
    obtain ⟨_, _, hs, rfl, -⟩ := hs
    exact .quiet (MasteringService.createConfig_quiet hs)
  | revertConfig who configId =>
    simp only [serve, Except.bind_eq_ok, Except.pure_eq_ok, Prod.exists, Prod.mk.injEq] at hs
    obtain ⟨_, _, hs, rfl, -⟩ := hs
    exact .quiet (MasteringService.revertConfig_quiet hs)
  | simulate who configId =>
    simp only [serve, Except.bind_eq_ok, Except.pure_eq_ok, Prod.exists, Prod.mk.injEq] at hs
    obtain ⟨_, _, hs, rfl, -⟩ := hs
    exact .quiet (MasteringService.simulate_quiet hs)
  | proposeConfig who configId simulationId =>
    simp only [serve, Except.bind_eq_ok, Except.pure_eq_ok, Prod.exists, Prod.mk.injEq] at hs
    obtain ⟨_, _, hs, rfl, -⟩ := hs
    exact .quiet (MasteringService.proposeConfig_quiet hs)
  | runJob workspaceId jobId =>
    simp only [serve, Except.bind_eq_ok, Except.pure_eq_ok, Prod.mk.injEq] at hs
    obtain ⟨_, hs, rfl, -⟩ := hs
    exact .job hs

/-- Every request makes one of the changes; one that raises makes none. -/
theorem next_effect (h : Integrity rt w s) (request : Request) :
    RequestEffect rt w s request ((service rt).next s request) := by
  cases ht : transact rt s request with
  | error e =>
    rw [show (service rt).next s request = s by simp only [System.next, service, ht]]
    exact .quiet (.refl s)
  | ok committed =>
    obtain ⟨s', answer⟩ := committed
    rw [show (service rt).next s request = s' by simp only [System.next, service, ht]]
    obtain ⟨hstart, hserve⟩ := transact_serve h.workspaces ht
    exact serve_effect h hstart hserve

theorem next_of_serve {answer : Py Answer}
    (hstart : MasteringService.start rt request.who s = .ok self)
    (hs : serve self s request = .ok (s', answer)) : (service rt).next s request = s' := by
  simp only [System.next, service, transact, hstart, bind, Except.bind, hs]

/-- A decision that is taken is refused and changes nothing, or has its effect. -/
theorem step_taken (h : Integrity rt w s) {task : ReviewTask} {d : Decision}
    (hp : (task, d) ∈ request.taken? rt s) :
    (((service rt).step s request).2.isOk = false ∧ Quiet rt s ((service rt).next s request)) ∨
      ((service rt).step s request).2.isOk = true ∧
        DecisionEffect ⟨rt, request.who, w⟩ s task d ((service rt).next s request) := by
  obtain ⟨self, who, taskId, reason, rfl, hstart, htaken⟩ := Request.taken?_eq hp
  obtain rfl := start_workspace h.workspaces hstart
  simp only [System.next, service, transact, Request.who, hstart, bind, Except.bind, serve]
  cases hd : MasteringService.decideTask ⟨rt, who, w⟩ s taskId d reason with
  | error e => exact .inl ⟨rfl, .refl s⟩
  | ok result =>
    obtain ⟨s', answer⟩ := result
    rcases MasteringService.decideTask_effect h hd with ⟨hq, ha⟩ | ⟨task', htask', rfl, he⟩
    · cases answer with
      | ok _ => exact (ha rfl).elim
      | error e => exact .inl ⟨rfl, hq⟩
    · rw [htaken] at htask'
      cases htask'
      exact .inr ⟨rfl, he⟩

theorem DecisionEffect.integrity {task : ReviewTask} {d : Decision}
    (he : DecisionEffect self s task d s') (h : Integrity self.rt self.workspace s) :
    Integrity self.rt self.workspace s' := by
  cases he with
  | quiet _ hq => exact h.sameRows hq.toSameRows
  | approveMaster _ ha =>
    refine (h.mapEntities fun e _ => ?_).sameRows ha.kept.toSameRows
    unfold approveEntity onRow
    split <;> exact ⟨rfl, rfl⟩
  | merge _ hp _ _ _ hf => exact (integrity_merged h ⟨_, hp, rfl⟩).frame hf
  | split _ _ _ _ hid hw _ _ hf => exact (integrity_split h hid hw).frame hf
  | link _ _ _ ht _ hf => exact (integrity_merged h ⟨_, ht, rfl⟩).frame hf
  | keepApart _ _ _ hf =>
    refine h.sameRows (SameRows.trans ?_ hf.toSameRows)
    exact ⟨rfl, rfl, rfl, rfl, rfl, .refl, Nat.le_succ _⟩

theorem DecisionEffect.tasks {task : ReviewTask} {d : Decision}
    (he : DecisionEffect self s task d s') : MatchesFrom s.tasks s'.tasks := by
  cases he with
  | quiet _ hq => exact hq.tasks
  | approveMaster _ ha => exact ha.kept.tasks
  | merge _ _ _ _ _ hf => exact hf.tasks
  | split _ _ _ _ _ _ _ _ hf => exact hf.tasks
  | link _ _ _ _ _ hf => exact hf.tasks
  | keepApart _ _ _ hf => exact hf.tasks

theorem renormalize_row {id : Id} {normalized : Dict} {key : String} {r : SourceRecord} :
    (renormalize id normalized key r).id = r.id ∧
      (renormalize id normalized key r).workspaceId = r.workspaceId ∧
      (renormalize id normalized key r).key = r.key ∧
      (renormalize id normalized key r).state = r.state := by
  unfold renormalize onRow
  split <;> exact ⟨rfl, rfl, rfl, rfl⟩

theorem RequestEffect.integrity (he : RequestEffect rt w s request s') (h : Integrity rt w s) :
    Integrity rt w s' := by
  cases he with
  | quiet hq => exact h.sameRows hq.toSameRows
  | page _ p => exact (p.invariant h trivial (fun _ _ _ _ => trivial) fun _ _ _ _ _ _ _ _ => trivial).1
  | decision _ hd => exact hd.integrity h
  | job hj =>
    exact MasteringService.runJob_invariant (P := Integrity rt w) h
      (fun _ _ hq hi => hi.sameRows hq.toSameRows) (fun _ _ _ _ hi => hi.mapRecords fun _ _ =>
        renormalize_row) (fun _ _ hi => hi.mapEntities bump_row) hj

theorem integrity_step (h : Integrity rt w s) (request : Request) :
    Integrity rt w ((service rt).next s request) := (next_effect h request).integrity h

theorem integrity_run {requests : List Request} (h : Integrity rt w s) :
    Integrity rt w ((service rt).run s requests) :=
  (service rt).run_invariant h ((service rt).along_of_forall (fun _ _ => trivial) requests)
    fun _ request hi (_ : True) => integrity_step hi request

theorem integrity_reachable (h : Reachable rt w s) : Integrity rt w s := by
  obtain ⟨requests, rfl⟩ := h
  exact integrity_run integrity_empty

end Recordlane
