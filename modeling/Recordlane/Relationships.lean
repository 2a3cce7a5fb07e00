import Recordlane.Merges
import Recordlane.Ties

/-! Well-formed relationships: which requests leave an endpoint merged, or tie an entity to itself. -/
namespace Recordlane

variable {rt : Runtime} {w : Workspace} {self : MasteringService} {s s' t : Store} {x : Id}
  {request : Request} {task : ReviewTask} {d : Decision}

/-- There is an entity with this id that is not merged. -/
def Present (s : Store) (x : Id) : Prop := ∃ e ∈ s.entities, e.id = x ∧ e.status ≠ .merged

instance : Decidable (Present s x) :=
  inferInstanceAs (Decidable (∃ e ∈ s.entities, e.id = x ∧ e.status ≠ .merged))

/-- Every relationship connects two distinct entities, and neither of them is merged. -/
def WellTied (s : Store) : Prop :=
  ∀ r ∈ s.relationships, r.fromEntityId ≠ r.toEntityId ∧ Present s r.fromEntityId ∧ Present s r.toEntityId

instance : Decidable (WellTied s) :=
  inferInstanceAs (Decidable (∀ r ∈ s.relationships, r.fromEntityId ≠ r.toEntityId ∧
    Present s r.fromEntityId ∧ Present s r.toEntityId))

/-- A merge gathers no two ends of a relationship in one entity, and hands the relationships of merged
entities to an entity that is not merged. A link retires no end of a relationship. -/
def LeavesTied (s : Store) (task : ReviewTask) (d : Decision) : Prop :=
  (∀ impact ∈ task.merges? d, ∀ r ∈ s.relationships,
    ¬(r.fromEntityId ∈ impact.primaryEntityId :: impact.mergedEntityIds ∧
      r.toEntityId ∈ impact.primaryEntityId :: impact.mergedEntityIds) ∧
    (r.fromEntityId ∈ impact.mergedEntityIds ∨ r.toEntityId ∈ impact.mergedEntityIds →
      Present s impact.primaryEntityId ∧ impact.primaryEntityId ∉ impact.mergedEntityIds)) ∧
  ∀ target ∈ task.links? d, ∀ r ∈ s.relationships,
    some r.fromEntityId ≠ task.entityId ∧ some r.toEntityId ≠ task.entityId

instance : Decidable (LeavesTied s task d) :=
  inferInstanceAs (Decidable ((∀ impact ∈ task.merges? d, ∀ r ∈ s.relationships,
    ¬(r.fromEntityId ∈ impact.primaryEntityId :: impact.mergedEntityIds ∧
      r.toEntityId ∈ impact.primaryEntityId :: impact.mergedEntityIds) ∧
    (r.fromEntityId ∈ impact.mergedEntityIds ∨ r.toEntityId ∈ impact.mergedEntityIds →
      Present s impact.primaryEntityId ∧ impact.primaryEntityId ∉ impact.mergedEntityIds)) ∧
    ∀ target ∈ task.links? d, ∀ r ∈ s.relationships,
      some r.fromEntityId ≠ task.entityId ∧ some r.toEntityId ≠ task.entityId))

/-- The entities that the request connects. -/
def Request.ties? : Request → Option (Id × Id)
  | .createRelationship _ fromId toId _ => some (fromId, toId)
  | _ => none

/-- The request connects entities that are not merged, and carries out no decision that spoils a tie. -/
def KeepsTied (rt : Runtime) (s : Store) (request : Request) : Prop :=
  (∀ p ∈ request.ties?, Present s p.1 ∧ Present s p.2) ∧
    ∀ p ∈ request.taken? rt s, LeavesTied s p.1 p.2

instance : Decidable (KeepsTied rt s request) :=
  inferInstanceAs (Decidable ((∀ p ∈ request.ties?, Present s p.1 ∧ Present s p.2) ∧
    ∀ p ∈ request.taken? rt s, LeavesTied s p.1 p.2))

theorem Present.mapEntities {f : Entity → Entity} (h : Present s x) (hid : ∀ e, (f e).id = e.id)
    (hf : ∀ e, (f e).status = .merged → e.status = .merged) : Present (s.mapEntities f) x := by
  obtain ⟨e, he, hex, hlive⟩ := h
  exact ⟨f e, List.mem_map_of_mem he, (hid e).trans hex, fun hm => hlive (hf e hm)⟩

theorem present_bump {y : Id} (h : Present s x) : Present (s.mapEntities (bump y)) x :=
  h.mapEntities bump_id fun e he => by rwa [bump_status] at he

theorem present_insertEntity {e : Entity} (h : Present s x) : Present (s.insertEntity e) x := by
  obtain ⟨e', he', hx⟩ := h
  exact ⟨e', List.mem_append_left _ he', hx⟩

theorem present_of_entities (h : t.entities = s.entities) : Present t x ↔ Present s x := by
  unfold Present
  rw [h]

theorem present_merged {ids : List Id} {target : Id} :
    Present (s.merged ids target) x ↔ Present s x ∧ x ∉ ids := by
  constructor
  · rintro ⟨_, hmem, rfl, hlive⟩
    obtain ⟨e, he, rfl⟩ := List.mem_map.mp hmem
    rw [Function.comp_apply, bump_status] at hlive
    rw [Function.comp_apply, bump_id, retireEntity_id]
    unfold retireEntity at hlive
    split at hlive
    · exact absurd rfl hlive
    · next hnot => exact ⟨⟨e, he, rfl, hlive⟩, hnot⟩
  · rintro ⟨⟨e, he, rfl, hlive⟩, hnot⟩
    refine ⟨_, List.mem_map_of_mem he, ?_, ?_⟩
    · rw [Function.comp_apply, bump_id, retireEntity_id]
    · rwa [Function.comp_apply, bump_status, retireEntity, if_neg hnot]

theorem present_round {source : Source} {domainKey : String} {policy : CompiledPolicy}
    {o : SourceObject} {item : IncomingRecord} {v : Verdict} {c : Findings}
    (hr : Round self s source domainKey policy o item v s' c) (h : Present s x) : Present s' x := by
  unfold Present
  rw [hr.entities]
  cases c.change with
  | keep => exact h
  | bump y => exact present_bump h
  | insert e => exact present_insertEntity h

theorem RequestEffect.present (he : RequestEffect rt w s request s') (hi : Integrity rt w s)
    (hnone : request.taken? rt s = none) (h : Present s x) : Present s' x := by
  cases he with
  | quiet hq => exact (present_of_entities hq.entities).mpr h
  | page _ p =>
    exact (p.invariant (P := fun t => Present t x) hi h
      (fun _ _ hq hs => (present_of_entities hq.entities).mpr hs)
      fun _ _ _ _ _ hi hs ho => MasteringService.observe_invariant (P := fun t => Present t x) hi hs
        (fun _ _ hopen => (present_of_entities hopen.tables.2.1).mpr hs)
        (fun _ _ _ _ hs hi hr => present_round hr hs) ho).2
  | decision hd _ =>
    rw [hnone] at hd
    cases hd
  | job hj =>
    exact MasteringService.runJob_invariant (P := fun t => Present t x) h
      (fun _ _ hq hs => (present_of_entities hq.entities).mpr hs) (fun _ _ _ _ hs => hs)
      (fun _ _ hs => present_bump hs) hj

/-- What a request does to relationships, and to the entities they may connect. -/
inductive TieEffect (rt : Runtime) (w : Workspace) (s : Store) (request : Request) : Bool → Store → Prop
  | refused {s' : Store} (hr : s'.relationships = s.relationships) (he : s'.entities = s.entities) :
      TieEffect rt w s request false s'
  | created {fromId toId kind : String} {s' : Store} (hties : request.ties? = some (fromId, toId))
      (htaken : request.taken? rt s = none) (hne : fromId ≠ toId)
      (hr : s'.relationships = s.relationships ++ [⟨rt.uid s.drawn, w.id, fromId, toId, kind⟩])
      (he : s'.entities = s.entities) : TieEffect rt w s request true s'
  | decided {task : ReviewTask} {d : Decision} {s' : Store} (hties : request.ties? = none)
      (htaken : request.taken? rt s = some (task, d)) (hr : s'.relationships = s.tiesAfter task d)
      (he : DecisionEffect ⟨rt, request.who, w⟩ s task d s') : TieEffect rt w s request true s'
  | other {s' : Store} (hties : request.ties? = none) (htaken : request.taken? rt s = none)
      (hr : s'.relationships = s.relationships) (hp : ∀ x, Present s x → Present s' x) :
      TieEffect rt w s request true s'

theorem step_ties (hi : Integrity rt w s) (hw : ∀ r ∈ s.relationships, r.workspaceId = w.id)
    (request : Request) : TieEffect rt w s request ((service rt).step s request).2.isOk
      ((service rt).next s request) := by
  cases ht : transact rt s request with
  | error raised =>
    simp only [System.next, service, ht]
    exact .refused rfl rfl
  | ok committed =>
    obtain ⟨s', answer⟩ := committed
    obtain ⟨hstart, hs⟩ := transact_serve hi.workspaces ht
    have heffect := serve_effect hi hstart hs
    simp only [System.next, service, ht]
    cases request with
    | createDomain =>
      simp only [serve, Except.bind_eq_ok, Except.pure_eq_ok, Prod.exists, Prod.mk.injEq] at hs
      obtain ⟨_, _, hs, rfl, rfl⟩ := hs
      exact .other rfl rfl (MasteringService.createDomain_relationships hs)
        fun _ => heffect.present hi rfl
    | createSource =>
      simp only [serve, Except.bind_eq_ok, Except.pure_eq_ok, Prod.exists, Prod.mk.injEq] at hs
      obtain ⟨_, _, hs, rfl, rfl⟩ := hs
      exact .other rfl rfl (MasteringService.createSource_relationships hs)
        fun _ => heffect.present hi rfl
    | replaceSource =>
      simp only [serve, Except.bind_eq_ok, Except.pure_eq_ok, Prod.exists, Prod.mk.injEq] at hs
      obtain ⟨_, _, hs, rfl, rfl⟩ := hs
      exact .other rfl rfl (MasteringService.replaceSource_relationships hs)
        fun _ => heffect.present hi rfl
    | createRelationship =>
      simp only [serve, Except.bind_eq_ok, Except.pure_eq_ok, Prod.mk.injEq] at hs
      obtain ⟨_, hs, rfl, rfl⟩ := hs
      obtain ⟨-, -, hne, hrows⟩ := MasteringService.createRelationship_created hs
      exact .created rfl rfl hne hrows (MasteringService.createRelationship_quiet hs).entities
    | ingest who req =>
      simp only [serve, Except.bind_eq_ok, Except.pure_eq_ok, Prod.exists, Prod.mk.injEq] at hs
      obtain ⟨_, _, hs, rfl, rfl⟩ := hs
      refine .other rfl rfl ?_ fun _ => heffect.present hi rfl
      rcases MasteringService.ingest_cases hs with ⟨rfl, -⟩ | ⟨p, rfl, -⟩
      · rfl
      · exact p.relationships hi
    | proposeMerge =>
      simp only [serve, Except.bind_eq_ok, Except.pure_eq_ok, Prod.exists, Prod.mk.injEq] at hs
      obtain ⟨_, _, _, hs, rfl, rfl⟩ := hs
      exact .other rfl rfl (MasteringService.proposeMerge_relationships hs)
        fun _ => heffect.present hi rfl
    | proposeSplit =>
      simp only [serve, Except.bind_eq_ok, Except.pure_eq_ok, Prod.exists, Prod.mk.injEq] at hs
      obtain ⟨_, _, hs, rfl, rfl⟩ := hs
      exact .other rfl rfl (MasteringService.proposeSplit_relationships hs)
        fun _ => heffect.present hi rfl
    | decideTask who taskId d reason =>
      simp only [serve, Except.bind_eq_ok, Except.pure_eq_ok, Prod.exists, Prod.mk.injEq] at hs
      obtain ⟨_, decided, hs, rfl, rfl⟩ := hs
      rcases MasteringService.decideTask_relationships hi hw hs with
        ⟨hrefused, hrows, hquiet⟩ | ⟨hok, task, htaken, hrows, hdecided⟩
      · cases decided with
        | error raised => exact .refused hrows hquiet.entities
        | ok _ => cases hrefused
      · cases decided with
        | error raised => cases hok
        | ok _ =>
          refine .decided rfl ?_ hrows hdecided
          rw [Request.who] at hstart htaken
          rw [Request.taken?, hstart]
          exact Option.map_eq_some_iff.mpr ⟨task, htaken, rfl⟩
    | createConfig =>
      simp only [serve, Except.bind_eq_ok, Except.pure_eq_ok, Prod.exists, Prod.mk.injEq] at hs
      obtain ⟨_, _, hs, rfl, rfl⟩ := hs
      exact .other rfl rfl (MasteringService.createConfig_relationships hs)
        fun _ => heffect.present hi rfl
    | revertConfig =>
      simp only [serve, Except.bind_eq_ok, Except.pure_eq_ok, Prod.exists, Prod.mk.injEq] at hs
      obtain ⟨_, _, hs, rfl, rfl⟩ := hs
      exact .other rfl rfl (MasteringService.revertConfig_relationships hs)
        fun _ => heffect.present hi rfl
    | simulate =>
      simp only [serve, Except.bind_eq_ok, Except.pure_eq_ok, Prod.exists, Prod.mk.injEq] at hs
      obtain ⟨_, _, hs, rfl, rfl⟩ := hs
      refine .other rfl rfl ?_ fun _ => heffect.present hi rfl
      obtain ⟨-, -, -, -, -, rfl⟩ := MasteringService.simulate_details hs
      rfl
    | proposeConfig =>
      simp only [serve, Except.bind_eq_ok, Except.pure_eq_ok, Prod.exists, Prod.mk.injEq] at hs
      obtain ⟨_, _, hs, rfl, rfl⟩ := hs
      exact .other rfl rfl (MasteringService.proposeConfig_relationships hs)
        fun _ => heffect.present hi rfl
    | runJob =>
      simp only [serve, Except.bind_eq_ok, Except.pure_eq_ok, Prod.mk.injEq] at hs
      obtain ⟨_, hs, rfl, rfl⟩ := hs
      exact .other rfl rfl (MasteringService.runJob_relationships hs)
        fun _ => heffect.present hi rfl

/-- Two ends become one exactly if both are among the entities that are merged together. -/
theorem retie_eq_iff {ids : List Id} {first y : Id} (hne : x ≠ y) :
    retie ids first x = retie ids first y ↔ x ∈ first :: ids ∧ y ∈ first :: ids := by
  unfold retie
  rw [List.mem_cons, List.mem_cons]
  by_cases hx : x ∈ ids
  · by_cases hy : y ∈ ids
    · simp [hx, hy]
    · simp only [hx, hy, if_true, if_false, or_true, or_false, true_and]
      exact eq_comm
  · by_cases hy : y ∈ ids
    · simp [hx, hy]
    · simp only [hx, hy, if_false, or_false]
      constructor
      · intro h
        exact absurd h hne
      · rintro ⟨rfl, rfl⟩
        rfl

theorem present_retie {ids : List Id} {first : Id} (h : Present s x) :
    (Present s (retie ids first x) ∧ retie ids first x ∉ ids) ↔
      (x ∈ ids → Present s first ∧ first ∉ ids) := by
  unfold retie
  by_cases hx : x ∈ ids
  · simp [hx]
  · simp [hx, h]

theorem wellTied_merged_iff {ids : List Id} {first : Id} (ht : WellTied s)
    (hr : s'.relationships = s.relationships.map (Relationship.retied ids first))
    (hp : ∀ x, Present s' x ↔ Present s x ∧ x ∉ ids) :
    WellTied s' ↔ ∀ r ∈ s.relationships,
      ¬(r.fromEntityId ∈ first :: ids ∧ r.toEntityId ∈ first :: ids) ∧
      (r.fromEntityId ∈ ids ∨ r.toEntityId ∈ ids → Present s first ∧ first ∉ ids) := by
  unfold WellTied
  rw [hr, List.forall_mem_map]
  refine forall₂_congr fun r hmem => ?_
  obtain ⟨hne, hfrom, hto⟩ := ht r hmem
  simp only [Relationship.retied, hp, ne_eq, retie_eq_iff hne, present_retie hfrom, present_retie hto,
    or_imp]

theorem WellTied.of_same (h : WellTied s) (hr : s'.relationships = s.relationships)
    (hp : ∀ x, Present s x → Present s' x) : WellTied s' := by
  intro r hmem
  rw [hr] at hmem
  obtain ⟨hne, hfrom, hto⟩ := h r hmem
  exact ⟨hne, hp _ hfrom, hp _ hto⟩

theorem leavesTied_of_none (hmerges : task.merges? d = none) (hlinks : task.links? d = none) :
    LeavesTied s task d := by
  constructor
  · rw [hmerges]
    intro impact h
    cases h
  · rw [hlinks]
    intro target h
    cases h

theorem Inert.merges?_links? (h : Inert task d) : task.merges? d = none ∧ task.links? d = none := by
  unfold Inert at h
  constructor
  · cases hmerge : task.merges? d with
    | none => rfl
    | some impact =>
      obtain ⟨rfl, why, hp⟩ := ReviewTask.merges?_eq_some.mp hmerge
      simp [hp] at h
  · cases hlink : task.links? d with
    | none => rfl
    | some target =>
      obtain ⟨rfl, _, _, _, _, _, _, hp⟩ := ReviewTask.links?_eq_some.mp hlink
      simp [hp] at h

/-- A decision keeps relationships well formed if and only if it spoils none of them. -/
theorem DecisionEffect.wellTied_iff (he : DecisionEffect self s task d s') (ht : WellTied s)
    (hr : s'.relationships = s.tiesAfter task d) : WellTied s' ↔ LeavesTied s task d := by
  cases he with
  | quiet hd hq =>
    obtain ⟨hmerges, hlinks⟩ := hd.merges?_links?
    refine iff_of_true ?_ (leavesTied_of_none hmerges hlinks)
    exact ht.of_same (hr.trans (tiesAfter_of_none hmerges)) fun _ => (present_of_entities hq.entities).mpr
  | @approveMaster _ _ _ e _ hp ha =>
    have hmerges : task.merges? .approve = none := by simp [ReviewTask.merges?, hp]
    refine iff_of_true ?_ (leavesTied_of_none hmerges (by simp [ReviewTask.links?, hp]))
    refine ht.of_same (hr.trans (tiesAfter_of_none hmerges)) fun x hx => ?_
    rw [present_of_entities ha.kept.entities]
    exact hx.mapEntities approveEntity_id fun _ => approveEntity_merged
  | @merge impact _ primary _ hp _ hid _ _ hf =>
    have hmerges : task.merges? .approve = some impact := ReviewTask.merges?_eq_some.mpr ⟨rfl, _, hp⟩
    rw [Store.tiesAfter, hmerges] at hr
    have hpresent : ∀ x, Present s' x ↔ Present s x ∧ x ∉ impact.mergedEntityIds := by
      intro x
      rw [present_of_entities hf.entities, present_merged]
    rw [wellTied_merged_iff ht hr hpresent]
    simp [LeavesTied, hmerges, ReviewTask.links?, hp]
  | split hp _ _ _ _ _ _ _ hf =>
    have hmerges : task.merges? .approve = none := by simp [ReviewTask.merges?, hp]
    refine iff_of_true ?_ (leavesTied_of_none hmerges (by simp [ReviewTask.links?, hp]))
    refine ht.of_same (hr.trans (tiesAfter_of_none hmerges)) fun x hx => ?_
    rw [present_of_entities hf.entities]
    exact present_bump (present_insertEntity hx)
  | @link _ _ _ _ target _ _ source _ _ hp _ hsid _ _ hf =>
    have hmerges : task.merges? .link = none := by simp [ReviewTask.merges?, hp]
    have hlinks : task.links? .link = some target := by simp [ReviewTask.links?, hp]
    rw [tiesAfter_of_none hmerges] at hr
    unfold WellTied LeavesTied
    rw [hr, hmerges, hlinks, hsid]
    simp only [present_of_entities hf.entities, present_merged]
    constructor
    · intro h
      refine ⟨by simp, fun _ _ r hmem => ?_⟩
      obtain ⟨-, ⟨-, hfrom⟩, -, hto⟩ := h r hmem
      exact ⟨by simpa using hfrom, by simpa using hto⟩
    · rintro ⟨-, h⟩ r hmem
      obtain ⟨hne, hfrom, hto⟩ := ht r hmem
      obtain ⟨hsource, hsource'⟩ := h target rfl r hmem
      refine ⟨hne, ⟨hfrom, ?_⟩, hto, ?_⟩
      · simpa using hsource
      · simpa using hsource'
  | keepApart hd hp _ hf =>
    have hmerges : task.merges? d = none := by simp [ReviewTask.merges?, hp]
    have hlinks : task.links? d = none := by rcases hd with rfl | rfl <;> simp [ReviewTask.links?, hp]
    refine iff_of_true ?_ (leavesTied_of_none hmerges hlinks)
    exact ht.of_same (hr.trans (tiesAfter_of_none hmerges)) fun _ => (present_of_entities hf.entities).mpr

theorem TieEffect.wellTied_iff {answered : Bool} (he : TieEffect rt w s request answered s')
    (ht : WellTied s) : WellTied s' ↔ (answered → KeepsTied rt s request) := by
  cases he with
  | refused hr he =>
    refine iff_of_true (ht.of_same hr fun _ => (present_of_entities he).mpr) ?_
    intro hanswered
    cases hanswered
  | @created fromId toId _ _ hties htaken hne hr he =>
    simp only [KeepsTied, hties, htaken, WellTied, hr, present_of_entities he]
    constructor
    · intro h _
      refine ⟨?_, by simp⟩
      rintro _ ⟨⟩
      exact (h _ (List.mem_append_right _ (List.mem_singleton_self _))).2
    · intro h r hmem
      rcases List.mem_append.mp hmem with hmem | hmem
      · exact ht r hmem
      · obtain rfl := List.mem_singleton.mp hmem
        exact ⟨hne, (h trivial).1 _ rfl⟩
  | decided hties htaken hr he =>
    rw [he.wellTied_iff ht hr]
    simp only [KeepsTied, hties, htaken]
    constructor
    · intro h _
      refine ⟨by simp, ?_⟩
      rintro _ ⟨⟩
      exact h
    · intro h
      exact (h trivial).2 _ rfl
  | other hties htaken hr hp =>
    refine iff_of_true (ht.of_same hr hp) fun _ => ?_
    simp only [KeepsTied, hties, htaken]
    exact ⟨by simp, by simp⟩

theorem TieEffect.workspaces {answered : Bool} (he : TieEffect rt w s request answered s')
    (hw : ∀ r ∈ s.relationships, r.workspaceId = w.id) : ∀ r ∈ s'.relationships, r.workspaceId = w.id := by
  cases he with
  | refused hr _ => rwa [hr]
  | created _ _ _ hr _ =>
    intro r hmem
    rw [hr] at hmem
    rcases List.mem_append.mp hmem with hmem | hmem
    · exact hw r hmem
    · rw [List.mem_singleton.mp hmem]
  | decided _ _ hr _ =>
    intro r hmem
    rw [hr, Store.tiesAfter] at hmem
    split at hmem
    · obtain ⟨before, hbefore, rfl⟩ := List.mem_map.mp hmem
      exact hw before hbefore
    · exact hw r hmem
  | other _ _ hr _ => rwa [hr]

theorem relationship_workspaces (h : Reachable rt w s) : ∀ r ∈ s.relationships, r.workspaceId = w.id := by
  obtain ⟨requests, rfl⟩ := h
  refine ((service rt).run_invariant
    (P := fun s => Integrity rt w s ∧ ∀ r ∈ s.relationships, r.workspaceId = w.id)
    ⟨integrity_empty, by simp [Store.empty]⟩ ((service rt).along_of_forall (fun _ _ => trivial) requests)
    ?_).2
  intro s request hs (_ : True)
  exact ⟨integrity_step hs.1 request, (step_ties hs.1 hs.2 request).workspaces hs.2⟩

theorem wellTied_step (hr : Reachable rt w s) (h : WellTied s) (request : Request) :
    WellTied ((service rt).next s request) ↔
      (((service rt).step s request).2.isOk → KeepsTied rt s request) :=
  (step_ties (integrity_reachable hr) (relationship_workspaces hr) request).wellTied_iff h

/-- Every state of a run has well-formed relationships if and only if every request that is answered
connects entities that are not merged, or carries out a decision that spoils no tie. -/
theorem relationships_wellTied_iff (rt : Runtime) (w : Workspace) (requests : List Request) :
    (∀ first rest, requests = first ++ rest → WellTied ((service rt).run (Store.empty w) first)) ↔
      (service rt).Along (fun s request => ((service rt).step s request).2.isOk → KeepsTied rt s request)
        (Store.empty w) requests := by
  rw [← (service rt).run_invariant_iff (P := fun s => Reachable rt w s ∧ WellTied s)]
  · refine forall₃_congr fun first rest _ => ?_
    exact (and_iff_right ⟨first, rfl⟩).symm
  · exact ⟨⟨[], rfl⟩, by simp [WellTied, Store.empty]⟩
  · rintro s request ⟨hr, hwell⟩
    rw [and_iff_right (reachable_next request hr)]
    exact wellTied_step hr hwell request

namespace Supplier

/-- Entities 8, 16 and 24, of which the first two are related. -/
def related : List Request :=
  [three, .createRelationship (steward "alice") (uid 8) (uid 16) "supplies"]

/-- The merge of related entities ties the first one to itself. -/
theorem related_merged : Reachable .plain workspace (after (related ++
      [proposeMerge [uid 8, uid 16], approve (uid 31)])) ∧
    WellTied (after related) ∧
    ¬WellTied (after (related ++ [proposeMerge [uid 8, uid 16], approve (uid 31)])) :=
  ⟨⟨_, rfl⟩, by decide +kernel⟩

end Supplier

end Recordlane
