import Recordlane.Chronicles

/-! The relationships between entities: which operations touch them. -/
namespace Recordlane

variable {rt : Runtime} {w : Workspace} {self : MasteringService} {s s' t u : Store} {x : Id}
  {o : SourceObject} {task : ReviewTask} {request : Request} {source : Source}
  {domainKey reason : String} {policy : CompiledPolicy} {item : IncomingRecord} {v : Verdict}
  {req : IngestRequest}

namespace MasteringService

theorem setMembership_relationships :
    (self.setMembership s o x reason).relationships = s.relationships := by
  unfold setMembership closeMembership
  split
  · rfl
  · dsimp only
    split <;> rfl

theorem moveMembers_relationships {members : List SourceObject} :
    (self.moveMembers s members x reason).relationships = s.relationships := by
  induction members generalizing s with
  | nil => rfl
  | cons m members ih => exact ih.trans setMembership_relationships

theorem draftMaster_relationships {m : MasterVersion} (h : self.draftMaster s x = .ok (t, m)) :
    t.relationships = s.relationships := by
  unfold draftMaster at h
  split at h
  · split at h
    · simp only [Except.bind_eq_ok, Except.pure_eq_ok, Prod.exists, Prod.mk.injEq] at h
      obtain ⟨policy, -, values, provenance, -, rfl, -⟩ := h
      unfold staleApproval
      split <;> rfl
    · cases h
  · cases h

theorem drafted_relationships {m : MasterVersion} (h : self.draftMaster u x = .ok (s', m))
    (hu : u.relationships = s.relationships) : s'.relationships = s.relationships :=
  (draftMaster_relationships h).trans hu

theorem resolve_relationships {r : SourceRecord} {blockKeys : List String} {objectId : Id}
    {outcome : Resolution} (h : self.resolve s r objectId policy blockKeys = .ok (s', x, outcome)) :
    s'.relationships = s.relationships := by
  cases resolve_resolves h <;> rfl

theorem contribute_relationships {r : SourceRecord} {blockKeys : List String}
    (h : self.contribute s o r policy blockKeys = .ok (s', v)) : s'.relationships = s.relationships := by
  unfold contribute at h
  dsimp only at h
  split at h
  · split at h
    · simp only [Except.bind_eq_ok, Except.pure_eq_ok, Prod.exists, Prod.mk.injEq] at h
      obtain ⟨s₁, draft, hdraft, rfl, rfl⟩ := h
      exact drafted_relationships hdraft rfl
    · cases h
  · simp only [Except.bind_eq_ok, Except.pure_eq_ok, Prod.exists, Prod.mk.injEq] at h
    obtain ⟨s₁, y, outcome, hres, s₂, draft, hdraft, rfl, rfl⟩ := h
    have hresolved := resolve_relationships hres
    have hjoined := @setMembership_relationships self s₁ y o "initial_resolution"
    exact drafted_relationships hdraft (hjoined.trans hresolved)

theorem retire_relationships {r : SourceRecord} (h : self.retire s o r = .ok (s', v)) :
    s'.relationships = s.relationships := by
  unfold retire at h
  dsimp only at h
  split at h
  · simp only [Except.bind_eq_ok, Except.pure_eq_ok, Prod.exists, Prod.mk.injEq] at h
    obtain ⟨s₁, draft, hdraft, rfl, rfl⟩ := h
    exact drafted_relationships hdraft rfl
  · cases h
    rfl

theorem observeNew_relationships
    (h : self.observeNew s source domainKey policy o item = .ok (s', v)) :
    s'.relationships = s.relationships := by
  unfold observeNew at h
  rw [Except.bind_eq_ok] at h
  obtain ⟨e, -, h⟩ := h
  dsimp only at h
  have hstored : (self.storeObservation s o (self.newRecord s source domainKey o item e) item
      e.blockKeys).relationships = s.relationships := rfl
  split at h
  · cases h
    exact hstored
  · split at h
    · cases h
      exact hstored
    · have htracked : (self.tracked s o (self.newRecord s source domainKey o item e) item
          e.blockKeys).relationships = s.relationships := hstored
      split at h
      · exact (retire_relationships h).trans htracked
      · exact (contribute_relationships h).trans htracked

theorem observe_relationships (hi : Integrity self.rt self.workspace s)
    (h : self.observe s source domainKey policy item = .ok (s', v)) :
    s'.relationships = s.relationships := by
  unfold observe at h
  have hopen := getOrCreate_opens hi source domainKey item.localId
  generalize self.getOrCreateSourceObject s source domainKey item.localId = p at h hopen
  obtain ⟨t, o⟩ := p
  have hopened : t.relationships = s.relationships := by cases hopen <;> rfl
  dsimp only at h
  split at h
  · split at h
    · cases h
      exact hopened
    · cases h
  · exact (observeNew_relationships h).trans hopened

end MasteringService

theorem Page.relationships (p : Page self s req) (hi : Integrity self.rt self.workspace s) :
    p.finished.relationships = s.relationships := by
  have hbegun : p.begun.relationships = s.relationships := by
    obtain ⟨runs, n, hruns⟩ := MasteringService.beginPage_runs p.begins
    rw [hruns]
  have hobserved : p.observed.relationships = s.relationships := by
    refine (MasteringService.observeAll_invariant (P := fun t => t.relationships = s.relationships)
      (hi.sameRows p.begun_quiet.toSameRows) hbegun ?_ p.observes).2
    exact fun _ _ _ _ _ hi hs ho => (MasteringService.observe_relationships hi ho).trans hs
  unfold finished MasteringService.finishBatch
  cases p.run <;> exact hobserved

/-- The endpoint of a relationship once the listed entities are merged into the first one. -/
def retie (ids : List Id) (first : Id) (x : Id) : Id := if x ∈ ids then first else x

/-- A relationship between the entities that its endpoints have become. -/
def Relationship.retied (ids : List Id) (first : Id) (r : Relationship) : Relationship :=
  { r with
    fromEntityId := retie ids first r.fromEntityId
    toEntityId := retie ids first r.toEntityId }

theorem retie_cons {id first : Id} {ids : List Id} :
    retie ids first (retie [id] first x) = retie (id :: ids) first x := by
  unfold retie
  by_cases hx : x = id
  · subst hx
    simp
  · simp [hx]

namespace MasteringService

theorem mergeEntity_relationships {primaryId id : Id} {bound : List (Id × Nat)}
    (hw : ∀ r ∈ s.relationships, r.workspaceId = self.wid)
    (h : self.mergeEntity primaryId bound s id = .ok s') :
    s'.relationships = s.relationships.map (Relationship.retied [id] primaryId) := by
  unfold mergeEntity at h
  split at h
  · cases h
  · next e he =>
    have hid := List.find?_some he
    simp only [Bool.and_eq_true, decide_eq_true_eq] at hid
    split at h
    · cases h
    · cases h
      have hmoved := @moveMembers_relationships self s primaryId "approved_merge" (self.members s e.id)
      simp only [Store.modifyEntity, moveRelationships, hmoved]
      refine List.map_congr_left fun r hr => ?_
      rw [if_pos (hw r hr), Relationship.retied, hid.1.1]
      simp only [retie, List.mem_singleton]

theorem mergeEntities_relationships {primaryId : Id} {ids : List Id} {bound : List (Id × Nat)}
    (hw : ∀ r ∈ s.relationships, r.workspaceId = self.wid)
    (h : ids.foldlM (self.mergeEntity primaryId bound) s = .ok s') :
    s'.relationships = s.relationships.map (Relationship.retied ids primaryId) := by
  induction ids generalizing s with
  | nil =>
    rw [List.foldlM_nil, Except.pure_eq_ok] at h
    subst h
    have hsame : Relationship.retied [] primaryId = id := by
      funext r
      simp [Relationship.retied, retie]
    rw [hsame, List.map_id]
  | cons id ids ih =>
    rw [List.foldlM_cons, Except.bind_eq_ok] at h
    obtain ⟨s₁, hround, hrest⟩ := h
    have hround := mergeEntity_relationships hw hround
    have hw₁ : ∀ r ∈ s₁.relationships, r.workspaceId = self.wid := by
      intro r' hr'
      rw [hround] at hr'
      obtain ⟨r, hr, rfl⟩ := List.mem_map.mp hr'
      exact hw r hr
    rw [ih hw₁ hrest, hround, List.map_map]
    refine List.map_congr_left fun r _ => ?_
    simp only [Function.comp_apply, Relationship.retied, retie_cons]

theorem applyMerge_relationships {impact : MergeImpact}
    (hw : ∀ r ∈ s.relationships, r.workspaceId = self.wid)
    (h : self.applyMerge s impact reason = .ok s') :
    s'.relationships = s.relationships.map
      (Relationship.retied impact.mergedEntityIds impact.primaryEntityId) := by
  unfold applyMerge at h
  split at h
  · cases h
  · next primary hprimary =>
    obtain ⟨-, hid⟩ := entity?_mem hprimary
    split at h
    · cases h
    · simp only [Except.bind_eq_ok, Except.pure_eq_ok, Prod.exists] at h
      obtain ⟨s₁, hmerge, s₂, draft, hdraft, rfl⟩ := h
      have hmerged := mergeEntities_relationships hw hmerge
      have hdrafted := draftMaster_relationships hdraft
      rw [hid] at hmerged
      exact hdrafted.trans hmerged

theorem linkMatch_relationships {leftRecord rightRecord targetId : Id} {left right : Option Id}
    {bound : Nat} (h : self.linkMatch s task leftRecord rightRecord left right targetId bound = .ok s') :
    s'.relationships = s.relationships := by
  unfold linkMatch at h
  split at h
  · next source target _ _ =>
    split at h
    · cases h
    · split at h
      · cases h
      · split at h
        · split at h
          · split at h
            · cases h
            · simp only [Except.bind_eq_ok, Except.pure_eq_ok, Prod.exists] at h
              obtain ⟨-, -, s₁, draft, hdraft, rfl⟩ := h
              exact drafted_relationships hdraft moveMembers_relationships
          · cases h
        · cases h
  · cases h

theorem applySplit_relationships {records objects : List Id}
    (h : self.applySplit s task records objects reason = .ok s') : s'.relationships = s.relationships := by
  unfold applySplit at h
  split at h
  · cases h
  · next original _ =>
    dsimp only at h
    split at h
    · cases h
    · simp only [Except.bind_eq_ok, Except.pure_eq_ok, Prod.exists] at h
      obtain ⟨s₁, draft₁, hfirst, s₂, draft₂, hsecond, rfl⟩ := h
      let new : Entity := ⟨self.fresh s, self.wid, original.domainKey, .candidate, 1⟩
      have hmoved := @moveMembers_relationships self (s.insertEntity new) new.id "approved_split"
        ((self.members (s.insertEntity new) original.id).filter fun o => objects.contains o.id)
      exact (draftMaster_relationships hsecond).trans (drafted_relationships hfirst hmoved)

theorem keepApart_relationships {leftRecord rightRecord : Id} {left right : Option Id}
    (h : self.keepApart s leftRecord rightRecord left right reason = .ok s') :
    s'.relationships = s.relationships := by
  unfold keepApart at h
  split at h
  · split at h
    · cases h
    · cases h
      rfl
  · dsimp only at h
    split at h
    · cases h
    · cases h
      rfl

theorem approveMaster_relationships {entity : Option Entity} {version : Nat}
    (h : self.approveMaster s task entity version reason = .ok s') : s'.relationships = s.relationships := by
  unfold approveMaster at h
  split at h
  · cases h
  · cases h
  · cases h
    rfl

theorem activateConfiguration_relationships {configId simulationId : Id} {checksum : String} {a : Applied}
    (h : self.activateConfiguration s task configId checksum simulationId = .ok a) :
    a.store.relationships = s.relationships := by
  unfold activateConfiguration at h
  dsimp only at h
  split at h
  · split at h
    · cases h
    · split at h
      · cases h
        rfl
      · simp only [Except.bind_eq_ok, Except.pure_eq_ok, Prod.exists] at h
        obtain ⟨policies, -, s₁, jobs, hfold, rfl⟩ := h
        have hactivated : s₁.relationships = s.relationships := by
          refine Except.foldlM_invariant (P := fun state => state.1.relationships = s.relationships) hfold
            rfl fun state entry state' _ hs hstep => ?_
          unfold activateDomain at hstep
          dsimp only at hstep
          split at hstep
          · cases hstep
          · cases hstep
            exact hs
        exact hactivated
  · cases h

theorem runJob_relationships {jobId : Id} (h : self.runJob s jobId = .ok s') :
    s'.relationships = s.relationships := by
  have hreindex : ∀ {policy : CompiledPolicy} {key : String} {u u' : Store} {o : SourceObject},
      self.reindex policy key u o = .ok u' → u'.relationships = u.relationships := by
    intro policy key u u' o hstep
    unfold reindex at hstep
    split at hstep
    · cases hstep
      rfl
    · simp only [Except.bind_eq_ok, Except.pure_eq_ok] at hstep
      obtain ⟨normalized, -, keys, -, rfl⟩ := hstep
      rfl
  have hredraft : ∀ {u u' : Store} {id : Id}, self.redraft u id = .ok u' →
      u'.relationships = u.relationships := by
    intro u u' id hstep
    unfold redraft at hstep
    simp only [Except.bind_eq_ok, Except.pure_eq_ok, Prod.exists] at hstep
    obtain ⟨u₁, draft, hdraft, rfl⟩ := hstep
    exact drafted_relationships hdraft rfl
  unfold runJob at h
  split at h
  · cases h
  · simp only [Except.bind_eq_ok, Except.pure_eq_ok] at h
    obtain ⟨s₁, hjob, rfl⟩ := h
    unfold remasterDomain at hjob
    dsimp only at hjob
    split at hjob
    · cases hjob
    · rw [Except.bind_eq_ok] at hjob
      obtain ⟨policy, -, hjob⟩ := hjob
      split at hjob
      · cases hjob
      · simp only [Except.bind_eq_ok, Except.pure_eq_ok] at hjob
        obtain ⟨s₂, hobjects, s₃, hentities, rfl⟩ := hjob
        have hindexed : s₂.relationships = s.relationships :=
          Except.foldlM_invariant (P := fun t => t.relationships = s.relationships) hobjects rfl
            fun u o u' _ hu hstep => (hreindex hstep).trans hu
        have hdrafted : s₃.relationships = s.relationships :=
          Except.foldlM_invariant (P := fun t => t.relationships = s.relationships) hentities hindexed
            fun u id u' _ hu hstep => (hredraft hstep).trans hu
        exact hdrafted

theorem createConfig_relationships {document : Json} {c : ConfigurationVersion}
    (h : self.createConfig s document = .ok (s', c)) : s'.relationships = s.relationships := by
  unfold createConfig at h
  split at h
  · cases h
  · simp only [Except.bind_eq_ok, Except.pure_eq_ok, Prod.mk.injEq] at h
    obtain ⟨policies, -, rfl, -⟩ := h
    rfl

theorem revertConfig_relationships {configId : Id} {c : ConfigurationVersion}
    (h : self.revertConfig s configId = .ok (s', c)) : s'.relationships = s.relationships := by
  unfold revertConfig at h
  split at h
  · cases h
  · simp only [Except.bind_eq_ok, Except.pure_eq_ok, Prod.exists, Prod.mk.injEq] at h
    obtain ⟨s₁, c₁, hcreate, rfl, -⟩ := h
    have hcreated := createConfig_relationships hcreate
    exact hcreated

theorem proposeConfig_relationships {configId simulationId : Id}
    (h : self.proposeConfig s configId simulationId = .ok (s', task)) :
    s'.relationships = s.relationships := by
  unfold proposeConfig at h
  split at h
  · cases h
  · split at h
    · cases h
    · dsimp only at h
      split at h
      · cases h
      · cases h
        unfold supersedeProposal
        split <;> rfl

theorem createDomain_relationships {key name mode : String} {definition : Dict} {d : Domain}
    (h : self.createDomain s key name mode definition = .ok (s', d)) :
    s'.relationships = s.relationships := by
  unfold createDomain at h
  split at h
  · cases h
  · simp only [Except.bind_eq_ok, Except.pure_eq_ok, Prod.mk.injEq] at h
    obtain ⟨_, _, rfl, _⟩ := h
    rfl

theorem createSource_relationships {key name kind : String} {priority : Int} {x : Source}
    (h : self.createSource s key name kind priority = .ok (s', x)) :
    s'.relationships = s.relationships := by
  unfold createSource at h
  split at h <;> cases h
  rfl

theorem replaceSource_relationships {sourceKey key name kind : String} {priority : Int} {x : Source}
    (h : self.replaceSource s sourceKey key name kind priority = .ok (s', x)) :
    s'.relationships = s.relationships := by
  unfold replaceSource at h
  split at h
  · cases h
  · split at h <;> cases h
    rfl

theorem proposeMerge_relationships {entityIds : List Id} {dryRun : Bool} {impact : MergeImpact}
    {taskId : Option Id} (h : self.proposeMerge s entityIds reason dryRun = .ok (s', impact, taskId)) :
    s'.relationships = s.relationships := by
  unfold proposeMerge at h
  dsimp only at h
  split at h
  · cases h
  · split at h
    · cases h
    · split at h
      · cases h
      · split at h
        · cases h
        · split at h <;> cases h <;> rfl

theorem proposeSplit_relationships {entityId : Id} {sourceRecordIds : List Id}
    (h : self.proposeSplit s entityId sourceRecordIds reason = .ok (s', task)) :
    s'.relationships = s.relationships := by
  unfold proposeSplit at h
  split at h
  · cases h
  · dsimp only at h
    split at h <;> cases h
    rfl

theorem createRelationship_created {fromId toId kind : String}
    (h : self.createRelationship s fromId toId kind = .ok s') :
    (∃ e ∈ s.entities, e.id = fromId) ∧ (∃ e ∈ s.entities, e.id = toId) ∧ fromId ≠ toId ∧
      s'.relationships = s.relationships ++ [⟨self.fresh s, self.wid, fromId, toId, kind⟩] := by
  unfold createRelationship at h
  dsimp only at h
  split at h
  · cases h
  · next hmissing =>
    simp only [List.find?_eq_none, List.mem_cons, List.not_mem_nil, or_false, Bool.not_eq_true,
      Bool.not_eq_false', forall_eq_or_imp, forall_eq, List.any_eq_true, Bool.and_eq_true,
      decide_eq_true_eq] at hmissing
    obtain ⟨⟨e, he, hid, -⟩, ⟨e', he', hid', -⟩⟩ := hmissing
    split at h
    · cases h
    · next hne =>
      cases h
      exact ⟨⟨e, he, hid⟩, ⟨e', he', hid'⟩, hne, rfl⟩

end MasteringService

/-- The relationships once the decision is carried out: those of merged entities are handed over. -/
def Store.tiesAfter (s : Store) (task : ReviewTask) (d : Decision) : List Relationship :=
  match task.merges? d with
  | some impact =>
    s.relationships.map (Relationship.retied impact.mergedEntityIds impact.primaryEntityId)
  | none => s.relationships

theorem tiesAfter_of_none {d : Decision} (h : task.merges? d = none) :
    s.tiesAfter task d = s.relationships := by
  rw [Store.tiesAfter, h]

namespace MasteringService

variable {d : Decision}

theorem applyDecision_relationships {entity : Option Entity}
    (hw : ∀ r ∈ s.relationships, r.workspaceId = self.wid) {a : Applied}
    (h : self.applyDecision s task entity d reason = .ok a) :
    a.store.relationships = s.tiesAfter task d := by
  unfold applyDecision at h
  split at h
  · next hp =>
    simp only [Except.bind_eq_ok, Except.pure_eq_ok] at h
    obtain ⟨t, ht, rfl⟩ := h
    exact (linkMatch_relationships ht).trans (tiesAfter_of_none (by simp [ReviewTask.merges?, hp])).symm
  · next hp =>
    simp only [Except.bind_eq_ok, Except.pure_eq_ok] at h
    obtain ⟨t, ht, rfl⟩ := h
    exact (keepApart_relationships ht).trans (tiesAfter_of_none (by simp [ReviewTask.merges?, hp])).symm
  · next hp =>
    simp only [Except.bind_eq_ok, Except.pure_eq_ok] at h
    obtain ⟨t, ht, rfl⟩ := h
    exact (keepApart_relationships ht).trans (tiesAfter_of_none (by simp [ReviewTask.merges?, hp])).symm
  · next hp =>
    simp only [Except.bind_eq_ok, Except.pure_eq_ok] at h
    obtain ⟨t, ht, rfl⟩ := h
    exact (approveMaster_relationships ht).trans (tiesAfter_of_none (by simp [ReviewTask.merges?, hp])).symm
  · next hp =>
    exact (activateConfiguration_relationships h).trans
      (tiesAfter_of_none (by simp [ReviewTask.merges?, hp])).symm
  · next hp =>
    simp only [Except.bind_eq_ok, Except.pure_eq_ok] at h
    obtain ⟨t, ht, rfl⟩ := h
    rw [Store.tiesAfter, ReviewTask.merges?_eq_some.mpr ⟨rfl, _, hp⟩]
    exact applyMerge_relationships hw ht
  · next hp =>
    simp only [Except.bind_eq_ok, Except.pure_eq_ok] at h
    obtain ⟨t, ht, rfl⟩ := h
    exact (applySplit_relationships ht).trans (tiesAfter_of_none (by simp [ReviewTask.merges?, hp])).symm
  · next hnone =>
    rw [Except.pure_eq_ok] at h
    rw [← h, tiesAfter_of_none]
    · rfl
    · unfold ReviewTask.merges?
      split <;> grind

/-- A merge is never refused as stale once it is applied. -/
theorem applyDecision_staled {entity : Option Entity} {e : Raised}
    (h : self.applyDecision s task entity d reason = .ok (.staled t e)) : task.merges? d = none := by
  cases hmerge : task.merges? d with
  | none => rfl
  | some impact =>
    obtain ⟨rfl, why, hp⟩ := ReviewTask.merges?_eq_some.mp hmerge
    simp only [applyDecision, hp, Except.bind_eq_ok, Except.pure_eq_ok] at h
    obtain ⟨_, -, heq⟩ := h
    cases heq

theorem decideTask_refused (hw : ∀ r ∈ s.relationships, r.workspaceId = self.wid) {taskId : Id}
    {e : Raised} (h : self.decideTask s taskId d reason = .ok (s', .error e)) :
    s'.relationships = s.relationships := by
  unfold decideTask at h
  split at h
  · cases h
  · split at h
    · cases h
    · split at h
      · cases h
      · split at h
        · cases h
          rfl
        · split at h
          · cases h
          · rw [Except.bind_eq_ok] at h
            obtain ⟨a, ha, h⟩ := h
            cases a with
            | staled t e =>
              cases h
              exact (applyDecision_relationships hw ha).trans (tiesAfter_of_none (applyDecision_staled ha))
            | done t => cases h

/-- A decision that is answered carries its task out, one that is refused hands nothing over. -/
theorem decideTask_relationships (hi : Integrity self.rt self.workspace s)
    (hw : ∀ r ∈ s.relationships, r.workspaceId = self.wid) {taskId : Id} {answer : Py Unit}
    (h : self.decideTask s taskId d reason = .ok (s', answer)) :
    (answer.isOk = false ∧ s'.relationships = s.relationships ∧ Quiet self.rt s s') ∨
      answer.isOk = true ∧ ∃ task, self.taken? s taskId d = some task ∧
        s'.relationships = s.tiesAfter task d ∧ DecisionEffect self s task d s' := by
  rcases decideTask_effect hi h with ⟨hq, hrefused⟩ | ⟨task, htaken, rfl, heffect⟩
  · cases answer with
    | ok _ => exact (hrefused rfl).elim
    | error raised =>
      exact .inl ⟨rfl, decideTask_refused hw h, hq⟩
  · obtain ⟨s₁, happly, rfl⟩ := decideTask_done htaken h
    exact .inr ⟨rfl, task, htaken, applyDecision_relationships hw happly, heffect⟩

end MasteringService

end Recordlane
