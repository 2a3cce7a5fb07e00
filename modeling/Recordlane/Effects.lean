import Recordlane.Membership

/-! What a decision can do to a store: one case for each kind of change. -/
namespace Recordlane

variable {self : MasteringService} {s s' t : Store} {task : ReviewTask}

namespace ReviewTask

variable {d : Decision} {impact : MergeImpact} {target : Id} {version : Nat} {pair : Option Id × Option Id}

/-- The merge that the decision approves. -/
def merges? (task : ReviewTask) (d : Decision) : Option MergeImpact :=
  match task.payload, d with
  | .mergeApproval impact _, .approve => some impact
  | _, _ => none

/-- The entity that the decision links a match to. -/
def links? (task : ReviewTask) (d : Decision) : Option Id :=
  match task.payload, d with
  | .duplicateMatch _ _ _ _ target _ _, .link => some target
  | _, _ => none

/-- The source objects that the decision keeps apart. -/
def separates? (task : ReviewTask) (d : Decision) : Option (Option Id × Option Id) :=
  match task.payload, d with
  | .duplicateMatch _ _ left right _ _ _, .keepSeparate
  | .duplicateMatch _ _ left right _ _ _, .reject => some (left, right)
  | _, _ => none

/-- The version of the draft that the decision approves. -/
def publishes? (task : ReviewTask) (d : Decision) : Option Nat :=
  match task.payload, d with
  | .masterApproval version _ _, .approve => some version
  | _, _ => none

theorem merges?_eq_some : task.merges? d = some impact ↔
    d = .approve ∧ ∃ reason, task.payload = .mergeApproval impact reason := by
  unfold merges?
  split <;> grind

theorem links?_eq_some : task.links? d = some target ↔
    d = .link ∧ ∃ lr rr l r n e, task.payload = .duplicateMatch lr rr l r target n e := by
  unfold links?
  split <;> grind

theorem publishes?_eq_some : task.publishes? d = some version ↔
    d = .approve ∧ ∃ values provenance, task.payload = .masterApproval version values provenance := by
  unfold publishes?
  split <;> grind

end ReviewTask

/-- A row of the entity that a master approval makes live. -/
def approveEntity (id : Id) : Entity → Entity :=
  onRow Entity.id id fun e => { e with status := .approved }

theorem approveEntity_id {y : Id} (e : Entity) : (approveEntity y e).id = e.id := by
  unfold approveEntity onRow
  split <;> rfl

/-- A draft of the entity is approved and published; other entities' masters are left alone. -/
structure ApprovesMaster (svc : MasteringService) (s : Store) (task : ReviewTask) (version : Nat)
    (e : Entity) (s' : Store) : Prop where
  entity : svc.taskEntity s task = some e
  draft : (MasteringService.draftOf s task version).isSome
  approved : (s'.approved.filter fun m => m.entityId ≠ e.id) = s.approved.filter fun m => m.entityId ≠ e.id
  published : (s'.published.filter fun x => x.entityId ≠ some e.id) =
    s.published.filter fun x => x.entityId ≠ some e.id
  kept : Kept svc.rt (s.mapEntities (approveEntity e.id)) s'
  domains : s'.domains = s.domains
  sources : s'.sources = s.sources

theorem ApprovesMaster.frame {version : Nat} {e : Entity}
    (h : ApprovesMaster self s task version e s') (hf : Frame self.rt s' t) :
    ApprovesMaster self s task version e t where
  entity := h.entity
  draft := h.draft
  approved := hf.approved ▸ h.approved
  published := hf.published ▸ h.published
  kept := h.kept.trans hf.toKept
  domains := hf.domains.trans h.domains
  sources := hf.sources.trans h.sources

/-- The decisions that touch neither entities nor their members. -/
def Inert (task : ReviewTask) (d : Decision) : Prop :=
  match task.payload, d with
  | .duplicateMatch .., .link | .masterApproval .., .approve | .mergeApproval .., .approve
  | .splitApproval .., .approve => False
  | _, _ => True

/-- The changes an allowed decision can make. -/
inductive DecisionEffect (self : MasteringService) (s : Store) (task : ReviewTask) :
    Decision → Store → Prop
  | quiet {d : Decision} {s' : Store} (hd : Inert task d) (h : Quiet self.rt s s') :
      DecisionEffect self s task d s'
  | approveMaster {version : Nat} {values provenance : Dict} {e : Entity} {s' : Store}
      (hp : task.payload = .masterApproval version values provenance)
      (h : ApprovesMaster self s task version e s') : DecisionEffect self s task .approve s'
  | merge {impact : MergeImpact} {reason : String} {primary : Entity} {s' : Store}
      (hp : task.payload = .mergeApproval impact reason) (he : primary ∈ s.entities)
      (hid : primary.id = impact.primaryEntityId) (hn : impact.mergedEntityIds.Nodup)
      (hl : ∀ id ∈ impact.mergedEntityIds, ∃ e ∈ s.entities, e.id = id ∧ e.status ≠ .merged)
      (h : Frame self.rt (s.merged impact.mergedEntityIds primary.id) s') :
      DecisionEffect self s task .approve s'
  | split {records objects : List Id} {reason : String} {original new : Entity} {ids : List Id}
      {s' : Store} (hp : task.payload = .splitApproval records objects reason)
      (he : original ∈ s.entities) (ht : task.entityId = some original.id)
      (hm : ∀ o ∈ s.objects, o.id ∈ ids → o.entityId = some original.id ∧ o.id ∈ objects)
      (hid : new.id = self.rt.uid s.drawn) (hw : new.workspaceId = self.wid)
      (hs : new.status = .candidate) (hv : new.version = 1)
      (h : Frame self.rt (s.split ids original.id new) s') : DecisionEffect self s task .approve s'
  | link {leftRecord rightRecord left right targetId : Id} {bound : Nat} {evidence : MatchEvidence}
      {source target : Entity} {s' : Store}
      (hp : task.payload = .duplicateMatch leftRecord rightRecord (some left) (some right) targetId
        bound evidence)
      (hs : source ∈ s.entities) (hsid : task.entityId = some source.id) (ht : target ∈ s.entities)
      (htid : target.id = targetId)
      (h : Frame self.rt (s.merged [source.id] target.id) s') : DecisionEffect self s task .link s'
  | keepApart {d : Decision} {leftRecord rightRecord left right targetId : Id} {bound : Nat}
      {evidence : MatchEvidence} {row : SourceObjectCannotLink} {s' : Store}
      (hd : d = .keepSeparate ∨ d = .reject)
      (hp : task.payload = .duplicateMatch leftRecord rightRecord (some left) (some right) targetId
        bound evidence)
      (hrow : row.leftObjectId = left ∧ row.rightObjectId = right ∨
        row.leftObjectId = right ∧ row.rightObjectId = left)
      (h : Frame self.rt { s with cannotLinks := s.cannotLinks ++ [row], drawn := s.drawn + 1 } s') :
      DecisionEffect self s task d s'

/-- What follows a change and leaves the tables alone is no further change. -/
theorem DecisionEffect.frame {d : Decision} (h : DecisionEffect self s task d s')
    (hf : Frame self.rt s' t) : DecisionEffect self s task d t := by
  cases h with
  | quiet hd h => exact .quiet hd (h.trans hf.toQuiet)
  | approveMaster hp h => exact .approveMaster hp (h.frame hf)
  | merge hp he hid hn hl h => exact .merge hp he hid hn hl (h.trans hf)
  | split hp he ht hm hid hw hs hv h => exact .split hp he ht hm hid hw hs hv (h.trans hf)
  | link hp hs hsid ht htid h => exact .link hp hs hsid ht htid (h.trans hf)
  | keepApart hd hp hrow h => exact .keepApart hd hp hrow (h.trans hf)

namespace MasteringService

theorem taskEntity_mem {e : Entity} (h : self.taskEntity s task = some e) :
    e ∈ s.entities ∧ task.entityId = some e.id := by
  simp only [taskEntity, Option.bind_eq_some_iff] at h
  obtain ⟨id, hid, hf⟩ := h
  have hkey : e.id = id ∧ e.workspaceId = self.wid := by simpa using List.find?_some hf
  exact ⟨List.mem_of_find?_eq_some hf, hkey.1 ▸ hid⟩

theorem taskEntity_of_mem (h : Integrity self.rt self.workspace s) {e : Entity} (he : e ∈ s.entities)
    (ht : task.entityId = some e.id) : self.taskEntity s task = some e := by
  cases hf : self.taskEntity s task with
  | none =>
    rw [taskEntity, ht, Option.bind_some, List.find?_eq_none] at hf
    exact (hf e he (by simp [(h.entities e he).1, wid])).elim
  | some e' =>
    obtain ⟨he', ht'⟩ := taskEntity_mem hf
    rw [h.entityIds.eq_of_mem he' he (Option.some.inj (ht'.symm.trans ht))]

theorem applyMerge_effect (h : Integrity self.rt self.workspace s) {impact : MergeImpact}
    {reason reason' : String} (hp : task.payload = .mergeApproval impact reason')
    (ha : self.applyMerge s impact reason = .ok s') : DecisionEffect self s task .approve s' := by
  unfold applyMerge at ha
  split at ha
  · cases ha
  · next primary hprimary =>
    split at ha
    · cases ha
    · simp only [Except.bind_eq_ok, Except.pure_eq_ok, Prod.exists] at ha
      obtain ⟨s₁, hm, s₂, draft, hdraft, rfl⟩ := ha
      obtain ⟨he, hid⟩ := entity?_mem hprimary
      obtain ⟨hn, hl, hf⟩ := mergeEntities_frame h ⟨primary, he, rfl⟩ hm
      refine .merge hp he hid hn hl ?_
      have hbump := hf.mapEntities (bump primary.id)
      rw [mapEntities_mapEntities] at hbump
      exact (hbump.trans (draftMaster_frame hdraft)).trans (insertEvent_frame (by simp))

/-- A split that goes through moves the listed members of the original entity to a new one. -/
theorem applySplit_split (h : Integrity self.rt self.workspace s) {records objects : List Id}
    {reason : String} (ha : self.applySplit s task records objects reason = .ok s') :
    ∃ original new : Entity, original ∈ s.entities ∧ task.entityId = some original.id ∧
      new = ⟨self.fresh s, self.wid, original.domainKey, .candidate, 1⟩ ∧
      Frame self.rt (s.split (((self.members s original.id).filter fun o =>
        objects.contains o.id).map SourceObject.id) original.id new) s' := by
  unfold applySplit at ha
  split at ha
  · cases ha
  · next original horiginal =>
    obtain ⟨id, htask, hfind⟩ := Option.bind_eq_some_iff.mp horiginal
    obtain ⟨he, rfl⟩ := entity?_mem hfind
    dsimp only at ha
    split at ha
    · cases ha
    · simp only [Except.bind_eq_ok, Except.pure_eq_ok, Prod.exists] at ha
      obtain ⟨s₁, draft₁, hd₁, s₂, draft₂, hd₂, hs'⟩ := ha
      -- the fresh entity is inserted first; no object is attached to it yet
      let new : Entity := ⟨self.fresh s, self.wid, original.domainKey, .candidate, 1⟩
      have hi : Integrity self.rt self.workspace (s.insertEntity new) := h.insertEntity rfl rfl
      let members := (self.members s original.id).filter fun o => objects.contains o.id
      have hmove : Frame self.rt
          ((s.insertEntity new).mapObjects (attach (members.map SourceObject.id) new.id))
          (self.moveMembers (s.insertEntity new) members new.id "approved_split") :=
        moveSome_frame hi (List.filter_sublist.trans (self.members_sublist original.id))
      refine ⟨original, new, he, htask, rfl, ?_⟩
      rw [← hs']
      exact ((((hmove.mapEntities (bump original.id)).trans (draftMaster_frame hd₁)).trans
        (draftMaster_frame hd₂)).trans (insertEvent_frame (by simp))).trans
        (insertTask_frame (by simp [ReviewTask.kind, TaskPayload.kind]) rfl)

theorem applySplit_effect (h : Integrity self.rt self.workspace s) {records objects : List Id}
    {reason reason' : String} (hp : task.payload = .splitApproval records objects reason')
    (ha : self.applySplit s task records objects reason = .ok s') :
    DecisionEffect self s task .approve s' := by
  obtain ⟨original, new, he, htask, rfl, hframe⟩ := applySplit_split h ha
  refine .split hp he htask (fun o ho hid => ?_) rfl rfl rfl rfl hframe
  obtain ⟨m, hm, hid⟩ := List.mem_map.mp hid
  obtain ⟨hm, hlisted⟩ := List.mem_filter.mp hm
  obtain ⟨hm, hx⟩ := (mem_members h).mp hm
  obtain rfl := h.objectIds.eq_of_mem hm ho hid
  exact ⟨hx, by simpa using hlisted⟩

theorem linkMatch_effect (h : Integrity self.rt self.workspace s)
    {leftRecord rightRecord targetId : Id} {left right : Option Id} {bound : Nat}
    {evidence : MatchEvidence}
    (hp : task.payload = .duplicateMatch leftRecord rightRecord left right targetId bound evidence)
    (ha : self.linkMatch s task leftRecord rightRecord left right targetId bound = .ok s') :
    DecisionEffect self s task .link s' := by
  unfold linkMatch at ha
  split at ha
  · next source target hsource htarget =>
    obtain ⟨id, htask, hfind⟩ := Option.bind_eq_some_iff.mp hsource
    obtain ⟨hs, rfl⟩ := entity?_mem hfind
    obtain ⟨ht, rfl⟩ := entity?_mem htarget
    split at ha
    · cases ha
    · split at ha
      · cases ha
      · split at ha
        · split at ha
          · split at ha
            · cases ha
            · simp only [Except.bind_eq_ok, Except.pure_eq_ok, Prod.exists] at ha
              obtain ⟨-, -, s₁, draft, hdraft, rfl⟩ := ha
              refine .link hp hs htask ht rfl ?_
              have hmove : Frame self.rt (s.mapObjects (gather [source.id] target.id))
                  (self.moveMembers s (self.members s source.id) target.id "approved_match") :=
                moveAll_frame h
              rw [Store.merged, ← mapEntities_mapEntities, retireEntity_singleton]
              exact ((hmove.mapEntities _).mapEntities (bump target.id)).trans (draftMaster_frame hdraft)
          · cases ha
        · cases ha
  · cases ha

theorem keepApart_effect {leftRecord rightRecord targetId : Id} {left right : Option Id}
    {bound : Nat} {evidence : MatchEvidence} {reason : String} {d : Decision}
    (hd : d = .keepSeparate ∨ d = .reject)
    (hp : task.payload = .duplicateMatch leftRecord rightRecord left right targetId bound evidence)
    (ha : self.keepApart s leftRecord rightRecord left right reason = .ok s') :
    DecisionEffect self s task d s' := by
  unfold keepApart at ha
  split at ha
  · next a b =>
    split at ha
    · cases ha
    · cases ha
      refine .keepApart hd hp ?_ (.refl _)
      unfold sortedPair
      split <;> simp
  · dsimp only at ha
    split at ha
    · cases ha
    · cases ha
      refine .quiet ?_ ⟨⟨⟨rfl, rfl, rfl, rfl, rfl, .refl, Nat.le_succ _⟩, rfl, .refl _⟩, rfl, rfl⟩
      rcases hd with rfl | rfl <;> simp [Inert, hp]

theorem draftOf_entity {version : Nat} {m : MasterVersion} {e : Entity}
    (h : draftOf s task version = some m) (he : task.entityId = some e.id) :
    m ∈ s.masters ∧ m.entityId = e.id := by
  have hkey : some m.entityId = task.entityId ∧ m.version = version ∧ m.status = .draft := by
    simpa [and_assoc] using List.find?_some h
  rw [he] at hkey
  exact ⟨List.mem_of_find?_eq_some h, Option.some.inj hkey.1⟩

theorem approveMaster_approves (h : Integrity self.rt self.workspace s) {version : Nat}
    {reason : String} {e : Entity} {draft : MasterVersion} (he : self.taskEntity s task = some e)
    (hdraft : draftOf s task version = some draft)
    (ha : self.approveMaster s task (some e) version reason = .ok s') :
    ApprovesMaster self s task version e s' := by
  simp only [approveMaster, hdraft, Except.ok.injEq] at ha
  subst ha
  obtain ⟨hmem, hentity⟩ := draftOf_entity hdraft (taskEntity_mem he).2
  refine ⟨he, by rw [hdraft]; rfl, ?_, ?_,
    ⟨⟨rfl, rfl, rfl, rfl, rfl, ?_, Nat.le_succ _⟩, rfl, .refl _⟩, rfl, rfl⟩
  · -- the only row that changes is the draft, which belongs to the entity
    rw [Store.approved, Store.approved, List.filter_filter, List.filter_filter]
    refine Table.filter_modify fun m hm hid => ?_
    have heq : m.entityId = e.id := by rw [h.masterIds.eq_of_mem hm hmem hid, hentity]
    simp [heq]
  · simp [Store.published, Store.insertEvent, Store.modifyEntity]
  · refine ⟨[], ?_, List.nodup_nil, by simp⟩
    rw [List.map_nil, List.append_nil]
    exact Table.map_key_modify fun _ => rfl

theorem approveMaster_effect (h : Integrity self.rt self.workspace s) {version : Nat}
    {values provenance : Dict} {reason : String}
    (hp : task.payload = .masterApproval version values provenance)
    (ha : self.approveMaster s task (self.taskEntity s task) version reason = .ok s') :
    DecisionEffect self s task .approve s' := by
  cases hdraft : draftOf s task version with
  | none => simp [approveMaster, hdraft, httpError] at ha
  | some draft =>
    cases he : self.taskEntity s task with
    | none => simp [approveMaster, hdraft, he] at ha
    | some e =>
      rw [he] at ha
      exact .approveMaster hp (approveMaster_approves h he hdraft ha)

theorem activateDomain_quiet {configId : Id} {state state' : Store × List Id}
    {entry : String × CompiledPolicy} (h : self.activateDomain configId state entry = .ok state') :
    Quiet self.rt state.1 state'.1 := by
  unfold activateDomain at h
  dsimp only at h
  split at h
  · cases h
  · cases h
    exact ⟨⟨⟨rfl, rfl, rfl, rfl, rfl, .refl, Nat.le_succ _⟩, rfl, .refl _⟩, rfl, rfl⟩

/-- What the approval of a configuration leaves behind, whether it went through or went stale. -/
theorem activateConfiguration_quiet {configId simulationId : Id} {checksum : String} {a : Applied}
    (h : self.activateConfiguration s task configId checksum simulationId = .ok a) :
    (∃ s', a = .done s' ∧ Quiet self.rt s s') ∨ ∃ s' e, a = .staled s' e ∧ Quiet self.rt s s' := by
  unfold activateConfiguration at h
  dsimp only at h
  split at h
  · split at h
    · cases h
    · split at h
      · cases h
        exact .inr ⟨_, _, rfl, Frame.toQuiet (modifyTask_frame (fun _ => rfl) (fun _ => rfl) fun _ => rfl)⟩
      · simp only [Except.bind_eq_ok, Except.pure_eq_ok, Prod.exists] at h
        obtain ⟨policies, -, s₁, jobs, hfold, rfl⟩ := h
        refine .inl ⟨_, rfl, Quiet.trans ?_ (self.audit_frame ..).toQuiet⟩
        exact Except.foldlM_invariant (P := fun state => Quiet self.rt s state.1) hfold
          ⟨⟨⟨rfl, rfl, rfl, rfl, rfl, .refl, le_rfl⟩, rfl, .refl _⟩, rfl, rfl⟩
          fun state entry state' _ hq hstep => hq.trans (activateDomain_quiet hstep)
  · cases h

/-- A decision marks its proposal stale, or makes one of the changes. -/
theorem applyDecision_effect (h : Integrity self.rt self.workspace s) {d : Decision}
    {reason : String} {a : Applied}
    (ha : self.applyDecision s task (self.taskEntity s task) d reason = .ok a) :
    (∃ s' e, a = .staled s' e ∧ Quiet self.rt s s') ∨
      ∃ s', a = .done s' ∧ DecisionEffect self s task d s' := by
  unfold applyDecision at ha
  split at ha
  · next hp =>
    simp only [Except.bind_eq_ok, Except.pure_eq_ok] at ha
    obtain ⟨s', ha, rfl⟩ := ha
    exact .inr ⟨s', rfl, linkMatch_effect h hp ha⟩
  · next hp =>
    simp only [Except.bind_eq_ok, Except.pure_eq_ok] at ha
    obtain ⟨s', ha, rfl⟩ := ha
    exact .inr ⟨s', rfl, keepApart_effect (.inl rfl) hp ha⟩
  · next hp =>
    simp only [Except.bind_eq_ok, Except.pure_eq_ok] at ha
    obtain ⟨s', ha, rfl⟩ := ha
    exact .inr ⟨s', rfl, keepApart_effect (.inr rfl) hp ha⟩
  · next hp =>
    simp only [Except.bind_eq_ok, Except.pure_eq_ok] at ha
    obtain ⟨s', ha, rfl⟩ := ha
    exact .inr ⟨s', rfl, approveMaster_effect h hp ha⟩
  · next hp =>
    rcases activateConfiguration_quiet ha with ⟨s', rfl, hq⟩ | ⟨s', e, rfl, hq⟩
    · exact .inr ⟨s', rfl, .quiet (by simp [Inert, hp]) hq⟩
    · exact .inl ⟨s', e, rfl, hq⟩
  · next hp =>
    simp only [Except.bind_eq_ok, Except.pure_eq_ok] at ha
    obtain ⟨s', ha, rfl⟩ := ha
    exact .inr ⟨s', rfl, applyMerge_effect h hp ha⟩
  · next hp =>
    simp only [Except.bind_eq_ok, Except.pure_eq_ok] at ha
    obtain ⟨s', ha, rfl⟩ := ha
    exact .inr ⟨s', rfl, applySplit_effect h hp ha⟩
  · rw [Except.pure_eq_ok] at ha
    refine .inr ⟨s, ha.symm, .quiet ?_ (.refl s)⟩
    unfold Inert
    split <;> grind

theorem closeTask_frame {d : Decision} {reason : String} :
    Frame self.rt s (self.closeTask s task d reason) := by
  unfold closeTask
  refine Frame.trans ?_ (self.audit_frame ..)
  exact modifyTask_frame (fun _ => rfl) (fun _ => rfl) fun _ => rfl

/-- The task a decision is taken on: it is open, allows the decision and is bound to the entity's
version, and the principal may decide it. -/
def taken? (self : MasteringService) (s : Store) (taskId : Id) (d : Decision) : Option ReviewTask :=
  (s.tasks.find? fun t => t.id = taskId && t.workspaceId = self.wid).filter fun task =>
    task.status = .opened && (allowedTaskDecisions task.kind).contains d && !self.isStale s task &&
      !(task.sensitive && task.proposedBy = self.principal.subject)

theorem taken?_mem {taskId : Id} {d : Decision} (h : self.taken? s taskId d = some task) :
    task ∈ s.tasks := List.mem_of_find?_eq_some (Option.filter_eq_some_iff.mp h).1

theorem decideTask_of_taken {taskId : Id} {d : Decision} {reason : String}
    (h : self.taken? s taskId d = some task)
    (ha : self.applyDecision s task (self.taskEntity s task) d reason = .ok (.done s')) :
    self.decideTask s taskId d reason = .ok (self.closeTask s' task d reason, .ok ()) := by
  obtain ⟨hfind, htaken⟩ := Option.filter_eq_some_iff.mp h
  simp only [decide_eq_true_eq, Bool.and_eq_true, Bool.not_eq_true', decide_eq_false_iff_not,
    Bool.and_eq_false_iff] at htaken
  obtain ⟨⟨⟨hopen, hallowed⟩, hstale⟩, hduties⟩ := htaken
  simp only [decideTask, hfind, hopen, hallowed, hstale, ha]
  rcases hduties with hduties | hduties <;> simp [hduties, bind, Except.bind, pure, Except.pure]

theorem decideTask_done {taskId : Id} {d : Decision} {reason : String}
    (h : self.taken? s taskId d = some task)
    (hd : self.decideTask s taskId d reason = .ok (s', .ok ())) :
    ∃ s₁, self.applyDecision s task (self.taskEntity s task) d reason = .ok (.done s₁) ∧
      s' = self.closeTask s₁ task d reason := by
  obtain ⟨hfind, htaken⟩ := Option.filter_eq_some_iff.mp h
  simp only [decide_eq_true_eq, Bool.and_eq_true, Bool.not_eq_true', decide_eq_false_iff_not,
    Bool.and_eq_false_iff] at htaken
  obtain ⟨⟨⟨hopen, hallowed⟩, hstale⟩, hduties⟩ := htaken
  have hfree : (task.sensitive && decide (task.proposedBy = self.principal.subject)) = false := by
    rcases hduties with hduties | hduties <;> simp [hduties]
  simp only [decideTask, hfind, hopen, hallowed, hstale, hfree, Bool.not_true, ne_eq, not_true,
    Bool.false_eq_true, if_false, Except.bind_eq_ok] at hd
  obtain ⟨applied, happly, hd⟩ := hd
  cases applied with
  | staled s₁ e => cases hd
  | done s₁ =>
    cases hd
    exact ⟨s₁, happly, rfl⟩

/-- A decided task is refused as stale, or the decision takes effect. -/
theorem decideTask_effect (h : Integrity self.rt self.workspace s) {taskId : Id} {d : Decision}
    {reason : String} {answer : Py Unit} (hd : self.decideTask s taskId d reason = .ok (s', answer)) :
    (Quiet self.rt s s' ∧ answer ≠ .ok ()) ∨
      ∃ task, self.taken? s taskId d = some task ∧ answer = .ok () ∧
        DecisionEffect self s task d s' := by
  unfold decideTask at hd
  split at hd
  · cases hd
  · next task htask =>
    split at hd
    · cases hd
    · next hopen =>
      split at hd
      · cases hd
      · next hallowed =>
        split at hd
        · cases hd
          exact .inl ⟨Frame.toQuiet (modifyTask_frame (fun _ => rfl) (fun _ => rfl) fun _ => rfl),
              by simp [httpError]⟩
        · next hstale =>
          split at hd
          · cases hd
          · next hduties =>
            simp only [Except.bind_eq_ok] at hd
            obtain ⟨a, ha, hd⟩ := hd
            rcases applyDecision_effect h ha with ⟨s₁, e, rfl, hq⟩ | ⟨s₁, rfl, heffect⟩
            · cases hd
              exact .inl ⟨hq, by simp⟩
            · cases hd
              refine .inr ⟨task, ?_, rfl, heffect.frame closeTask_frame⟩
              have hfree : task.sensitive = false ∨ task.proposedBy ≠ self.principal.subject := by
                simpa [imp_iff_not_or] using hduties
              rw [taken?, htask]
              simp_all

end MasteringService

end Recordlane
