import Recordlane.Settling
import Recordlane.Supplier

/-! The numbers of drafts: entity versions, master versions and the tasks bound to them agree. -/
namespace Recordlane

variable {rt : Runtime} {w : Workspace} {self : MasteringService} {s t : Store} {x : Id}
  {m : MasterVersion} {task : ReviewTask} {e : Entity}

/-- The task asks for the approval of the master, under the version of its entity. -/
structure AsksApproval (svc : MasteringService) (e : Entity) (m : MasterVersion) (task : ReviewTask) :
    Prop where
  workspaceId : task.workspaceId = svc.wid
  entityId : task.entityId = some e.id
  status : task.status = .opened
  boundEntityVersion : task.boundEntityVersion = some e.version
  payload : task.payload = .masterApproval m.version m.values m.provenance

/-- What the drafting of a master does. -/
structure Drafted (svc : MasteringService) (s : Store) (e : Entity) (t : Store) (m : MasterVersion) :
    Prop where
  entity : e ∈ s.entities
  values : svc.survivors s e = .ok m.values
  id : m.id = svc.rt.uid s.drawn
  owner : m.entityId = e.id
  version : m.version = MasteringService.latestMaster s e.id + 1
  status : m.status = .draft
  masters : t.masters = s.masters ++ [m]
  tasks : ∃ task, AsksApproval svc e m task ∧ t.tasks = (svc.staleApproval s e.id).tasks ++ [task]
  entities : t.entities = s.entities
  outbox : t.outbox = s.outbox
  drawn : t.drawn = s.drawn + 2
  domains : t.domains = s.domains
  sources : t.sources = s.sources
  objects : t.objects = s.objects
  records : t.records = s.records

namespace MasteringService

theorem staleApproval_insertMaster :
    self.staleApproval (s.insertMaster m) x = (self.staleApproval s x).insertMaster m := by
  unfold staleApproval
  rw [show self.openApproval (s.insertMaster m) x = self.openApproval s x from rfl]
  split <;> rfl

theorem staleApproval_tasks (self : MasteringService) (s : Store) (x : Id) :
    ∃ ts, self.staleApproval s x = { s with tasks := ts } := by
  unfold staleApproval
  split <;> exact ⟨_, rfl⟩

theorem draftMaster_drafted (h : self.draftMaster s x = .ok (t, m)) :
    ∃ e, e.id = x ∧ Drafted self s e t m := by
  unfold draftMaster at h
  split at h
  · next e he =>
    split at h
    · next domain hdomain =>
      simp only [Except.bind_eq_ok, Except.pure_eq_ok, Prod.exists, Prod.mk.injEq] at h
      obtain ⟨policy, hpolicy, values, provenance, hvalues, rfl, rfl⟩ := h
      obtain ⟨hmem, hid⟩ := entity?_mem he
      have hsurvivors : self.survivors s e = .ok values := by
        simp only [survivors, hdomain, hpolicy, hvalues, bind, Except.bind, pure, Except.pure]
      obtain ⟨ts, hts⟩ := staleApproval_tasks self s e.id
      rw [staleApproval_insertMaster, hts]
      refine ⟨e, hid, hmem, hsurvivors, rfl, rfl, rfl, rfl, rfl, ?_, rfl, rfl, rfl, rfl, rfl, rfl, rfl⟩
      rw [hts]
      exact ⟨_, ⟨rfl, rfl, rfl, rfl, rfl⟩, rfl⟩
    · cases h
  · cases h

end MasteringService

theorem foldl_max_range' (n : Nat) : (List.range' 1 n).foldl max 0 = n := by
  induction n with
  | zero => rfl
  | succ n ih =>
    rw [List.range'_concat, List.foldl_append, ih]
    simp
    omega

theorem mastersOf_append {ms : List MasterVersion} (h : t.masters = s.masters ++ ms) :
    t.mastersOf x = s.mastersOf x ++ ms.filter fun m => m.entityId = x := by
  rw [Store.mastersOf, h, List.filter_append]
  rfl

theorem mastersOf_modify {id : Id} {f : MasterVersion → MasterVersion}
    (h : t.masters = Table.modify MasterVersion.id s.masters id f)
    (hf : ∀ m, (f m).entityId = m.entityId) :
    t.mastersOf x = Table.modify MasterVersion.id (s.mastersOf x) id f := by
  have hsame : ∀ m, (if m.id = id then f m else m).entityId = m.entityId := by
    intro m
    split
    · exact hf m
    · rfl
  rw [Store.mastersOf, h, Table.modify, Table.modify, List.filter_map, Store.mastersOf]
  congr 1
  exact List.filter_congr fun m _ => by simp only [Function.comp_apply, hsame]

/-- The entities, drafts and approval tasks of a point number each other. An entity that is owed a
draft is ahead of its drafts. -/
structure Numbered (rt : Runtime) (w : Workspace) (p : Point) : Prop where
  entityIds : Table.Keyed Entity.id p.store.entities
  entities : ∀ e ∈ p.store.entities, Drawn rt p.store.drawn e.id
  masterIds : Table.Keyed MasterVersion.id p.store.masters
  masters : ∀ m ∈ p.store.masters,
    Drawn rt p.store.drawn m.id ∧ ∃ e ∈ p.store.entities, e.id = m.entityId
  versions : ∀ x, (p.store.mastersOf x).map MasterVersion.version =
    List.range' 1 (p.store.mastersOf x).length
  counts : ∀ e ∈ p.store.entities,
    e.version = (p.store.mastersOf e.id).length + p.owed.count e.id
  approvals : ∀ task ∈ p.store.tasks, task.isOpenApproval → task.workspaceId = w.id ∧
    ∃ e ∈ p.store.entities, task.entityId = some e.id ∧
      task.boundEntityVersion = some (p.store.mastersOf e.id).length ∧
      ∃ values provenance,
        task.payload = .masterApproval (p.store.mastersOf e.id).length values provenance
  single : ((p.store.tasks.filter ReviewTask.isOpenApproval).map ReviewTask.entityId).Nodup

theorem numbered_empty : Numbered rt w (Store.empty w).settled := by
  constructor <;> simp [Store.settled, Store.empty, Table.Keyed, Store.mastersOf]

theorem Settles.open? {f : ReviewTask → ReviewTask} (hf : Settles f) (task : ReviewTask) :
    (f task).isOpenApproval = false := by
  simp [ReviewTask.isOpenApproval, hf.status]

theorem settled_sublist {f : ReviewTask → ReviewTask} (hf : Settles f) {ts : List ReviewTask}
    {id : Id} : ((Table.modify ReviewTask.id ts id f).filter ReviewTask.isOpenApproval).Sublist
      (ts.filter ReviewTask.isOpenApproval) := by
  induction ts with
  | nil => exact List.Sublist.refl _
  | cons task ts ih =>
    rw [Table.modify, List.map_cons]
    change List.Sublist (List.filter _ (_ :: Table.modify ReviewTask.id ts id f)) _
    split
    · rw [List.filter_cons_of_neg (by simp [hf.open? task])]
      exact ih.trans ((List.sublist_cons_self _ _).filter _)
    · rw [List.filter_cons, List.filter_cons]
      split
      · exact ih.cons_cons task
      · exact ih

namespace Numbered

variable {owed : List Id} {V V' : Set Id}

theorem latest (h : Numbered rt w ⟨s, owed, V⟩) (x : Id) :
    MasteringService.latestMaster s x = (s.mastersOf x).length := by
  rw [MasteringService.latestMaster]
  change ((s.mastersOf x).map MasterVersion.version).foldl max 0 = _
  rw [h.versions x, foldl_max_range']

theorem of_tables (h : Numbered rt w ⟨s, owed, V⟩) (hentities : t.entities = s.entities)
    (hmasters : t.masters = s.masters) (htasks : t.tasks = s.tasks) (hdrawn : s.drawn ≤ t.drawn) :
    Numbered rt w ⟨t, owed, V'⟩ := by
  have hof : ∀ x, t.mastersOf x = s.mastersOf x := by
    intro x
    rw [Store.mastersOf, hmasters, Store.mastersOf]
  refine ⟨?_, ?_, ?_, ?_, ?_, ?_, ?_, ?_⟩
  · exact hentities ▸ h.entityIds
  · exact fun e he => (h.entities e (hentities ▸ he)).mono hdrawn
  · exact hmasters ▸ h.masterIds
  · intro m hm
    obtain ⟨hd, he⟩ := h.masters m (hmasters ▸ hm)
    exact ⟨hd.mono hdrawn, hentities ▸ he⟩
  · intro x
    rw [hof]
    exact h.versions x
  · intro e he
    rw [hof]
    exact h.counts e (hentities ▸ he)
  · intro task htask hopen
    obtain ⟨hw, e, he, hrest⟩ := h.approvals task (htasks ▸ htask) hopen
    refine ⟨hw, e, hentities ▸ he, ?_⟩
    rw [hof]
    exact hrest
  · exact htasks ▸ h.single

theorem ask (h : Numbered rt w ⟨s, owed, V⟩) (ht : task.kind ≠ .masterApproval) :
    Numbered rt w ⟨s.insertTask task, owed, V⟩ := by
  have hclosed : task.isOpenApproval = false := by simp [ReviewTask.isOpenApproval, ht]
  refine ⟨h.entityIds, fun e he => (h.entities e he).mono (Nat.le_succ _), h.masterIds,
    fun m hm => ⟨(h.masters m hm).1.mono (Nat.le_succ _), (h.masters m hm).2⟩, h.versions, h.counts,
    ?_, ?_⟩
  · intro t ht hopen
    rcases List.mem_append.mp ht with ht | ht
    · exact h.approvals t ht hopen
    · rw [List.mem_singleton.mp ht, hclosed] at hopen
      cases hopen
  · rw [show (s.insertTask task).tasks = s.tasks ++ [task] from rfl, filter_append_of_not hclosed]
    exact h.single

theorem settle {id : Id} {f : ReviewTask → ReviewTask} (h : Numbered rt w ⟨s, owed, V⟩)
    (hf : Settles f) : Numbered rt w ⟨s.modifyTask id f, owed, V⟩ := by
  refine ⟨h.entityIds, h.entities, h.masterIds, h.masters, h.versions, h.counts, ?_, ?_⟩
  · intro task htask hopen
    have hmem := (settled_sublist hf).subset (List.mem_filter.mpr ⟨htask, hopen⟩)
    exact h.approvals task (List.mem_of_mem_filter hmem) hopen
  · exact h.single.sublist ((settled_sublist hf).map _)

theorem mapEntities {f : Entity → Entity} {owed' : List Id} (h : Numbered rt w ⟨s, owed, V⟩)
    (hf : ∀ e ∈ s.entities, (f e).id = e.id)
    (hc : ∀ e ∈ s.entities, (f e).version + owed.count e.id = e.version + owed'.count e.id) :
    Numbered rt w ⟨s.mapEntities f, owed', V'⟩ := by
  refine ⟨h.entityIds.map hf, ?_, h.masterIds, ?_, h.versions, ?_, ?_, h.single⟩
  · intro e' he'
    obtain ⟨e, he, rfl⟩ := List.mem_map.mp he'
    rw [hf e he]
    exact h.entities e he
  · intro m hm
    obtain ⟨hd, e, he, hid⟩ := h.masters m hm
    exact ⟨hd, f e, List.mem_map_of_mem he, (hf e he).trans hid⟩
  · intro e' he'
    obtain ⟨e, he, rfl⟩ := List.mem_map.mp he'
    have hcount := h.counts e he
    have hchange := hc e he
    dsimp only at hcount
    rw [hf e he]
    change _ = (s.mastersOf e.id).length + owed'.count e.id
    omega
  · intro task htask hopen
    obtain ⟨hw, e, he, hid, hrest⟩ := h.approvals task htask hopen
    refine ⟨hw, f e, List.mem_map_of_mem he, ?_, ?_⟩
    · rw [hf e he]
      exact hid
    · rw [hf e he]
      exact hrest

theorem create (h : Numbered rt w ⟨s, [], V⟩) (hid : e.id = rt.uid s.drawn) (hv : e.version = 1) :
    Numbered rt w ⟨s.insertEntity e, [e.id], V⟩ := by
  have hnone : s.mastersOf e.id = [] := by
    refine List.filter_eq_nil_iff.mpr fun m hm => ?_
    obtain ⟨-, e', he', howner⟩ := h.masters m hm
    rw [decide_eq_true_eq, ← howner, hid]
    exact (h.entities e' he').ne_uid
  refine ⟨?_, ?_, h.masterIds, ?_, h.versions, ?_, ?_, h.single⟩
  · exact h.entityIds.append fun e' he' => hid ▸ (h.entities e' he').ne_uid
  · intro e' he'
    rcases List.mem_append.mp he' with he' | he'
    · exact (h.entities e' he').mono (Nat.le_succ _)
    · rw [List.mem_singleton.mp he', hid]
      exact drawn_uid (Nat.lt_succ_self _)
  · intro m hm
    obtain ⟨hd, e', he', howner⟩ := h.masters m hm
    exact ⟨hd.mono (Nat.le_succ _), e', List.mem_append_left _ he', howner⟩
  · intro e' he'
    change e'.version = (s.mastersOf e'.id).length + [e.id].count e'.id
    rcases List.mem_append.mp he' with he' | he'
    · have hne : e.id ≠ e'.id := hid ▸ (h.entities e' he').ne_uid.symm
      have hcount := h.counts e' he'
      rw [List.count_nil] at hcount
      rw [List.count_singleton, if_neg (by simpa using hne)]
      exact hcount
    · rw [List.mem_singleton.mp he', hnone, hv]
      simp
  · intro task htask hopen
    obtain ⟨hw, e', he', hrest⟩ := h.approvals task htask hopen
    exact ⟨hw, e', List.mem_append_left _ he', hrest⟩

/-- The open approvals after an earlier one of the entity went stale are those of other entities. -/
theorem staleApproval_open (h : Numbered rt w ⟨s, owed, V⟩) (hw : self.workspace = w) :
    ((self.staleApproval s x).tasks.filter ReviewTask.isOpenApproval).Sublist
        (s.tasks.filter ReviewTask.isOpenApproval) ∧
      ∀ task ∈ (self.staleApproval s x).tasks, task.isOpenApproval → task.entityId ≠ some x := by
  unfold MasteringService.staleApproval
  split
  · next found hfound =>
    have hmem := List.mem_of_find?_eq_some hfound
    have hfields : found.entityId = some x ∧ found.isOpenApproval = true := by
      have hkey := List.find?_some hfound
      simp only [Bool.and_eq_true, decide_eq_true_eq] at hkey
      exact ⟨hkey.1.1.2, by simp [ReviewTask.isOpenApproval, hkey.1.2, hkey.2]⟩
    have hsettles : Settles fun t : ReviewTask => { t with
        status := .stale
        decisionReason := some "A new source contribution changed the bound entity version" } :=
      ⟨fun _ => rfl, fun _ => rfl, fun _ => rfl, fun _ => rfl, fun _ => rfl, fun _ => by simp⟩
    refine ⟨settled_sublist hsettles, fun task htask hopen hx => ?_⟩
    rcases Table.mem_modify.mp htask with ⟨htask, hne⟩ | ⟨old, -, -, rfl⟩
    · refine hne ?_
      rw [List.inj_on_of_nodup_map h.single (List.mem_filter.mpr ⟨htask, hopen⟩)
        (List.mem_filter.mpr ⟨hmem, hfields.2⟩) (hx.trans hfields.1.symm)]
    · rw [hsettles.open? old] at hopen
      cases hopen
  · next hnone =>
    refine ⟨List.Sublist.refl _, fun task htask hopen hx => ?_⟩
    have hno := List.find?_eq_none.mp hnone task htask
    obtain ⟨hworkspace, -⟩ := h.approvals task htask hopen
    simp only [ReviewTask.isOpenApproval, Bool.and_eq_true, decide_eq_true_eq] at hopen
    simp [hworkspace, MasteringService.wid, hw, hx, hopen.1, hopen.2] at hno

theorem draft (h : Numbered rt w ⟨s, x :: owed, V⟩) (hw : self.workspace = w) (hrt : self.rt = rt)
    (hx : x ∉ owed) (hdraft : self.draftMaster s x = .ok (t, m)) : Numbered rt w ⟨t, owed, V'⟩ := by
  obtain ⟨e, rfl, hd⟩ := MasteringService.draftMaster_drafted hdraft
  have hself : t.mastersOf e.id = s.mastersOf e.id ++ [m] := by
    rw [mastersOf_append hd.masters, List.filter_cons_of_pos (by simp [hd.owner]), List.filter_nil]
  have hother : ∀ y, y ≠ e.id → t.mastersOf y = s.mastersOf y := by
    intro y hy
    rw [mastersOf_append hd.masters, List.filter_cons_of_neg (by simp [hd.owner, hy.symm]),
      List.filter_nil, List.append_nil]
  have hversion : m.version = (s.mastersOf e.id).length + 1 := by rw [hd.version, h.latest]
  have hcount : e.version = (s.mastersOf e.id).length + 1 := by
    have hcounts := h.counts e hd.entity
    dsimp only at hcounts
    rw [List.count_cons_self, List.count_eq_zero_of_not_mem hx] at hcounts
    exact hcounts
  have hdrawn : s.drawn ≤ t.drawn := by
    rw [hd.drawn]
    omega
  obtain ⟨hsublist, hstale⟩ := h.staleApproval_open (x := e.id) hw
  obtain ⟨task, hasks, htasks⟩ := hd.tasks
  have hopen : task.isOpenApproval = true := by
    simp [ReviewTask.isOpenApproval, ReviewTask.kind, hasks.payload, TaskPayload.kind, hasks.status]
  refine ⟨?_, ?_, ?_, ?_, ?_, ?_, ?_, ?_⟩
  · exact hd.entities ▸ h.entityIds
  · exact fun e' he' => (h.entities e' (hd.entities ▸ he')).mono hdrawn
  · rw [hd.masters]
    refine h.masterIds.append fun m' hm' => ?_
    rw [hd.id, hrt]
    exact (h.masters m' hm').1.ne_uid
  · intro m' hm'
    rw [hd.masters] at hm'
    rcases List.mem_append.mp hm' with hm' | hm'
    · obtain ⟨hdrawn', howner⟩ := h.masters m' hm'
      exact ⟨hdrawn'.mono hdrawn, hd.entities ▸ howner⟩
    · rw [List.mem_singleton.mp hm']
      refine ⟨?_, e, hd.entities ▸ hd.entity, hd.owner.symm⟩
      rw [hd.id, hrt, hd.drawn]
      exact drawn_uid (by omega)
  · intro y
    by_cases hy : y = e.id
    · rw [hy, hself, List.map_append, h.versions, List.length_append, List.length_singleton,
        List.range'_concat, List.map_singleton, hversion]
      simp [Nat.add_comm]
    · rw [hother y hy]
      exact h.versions y
  · intro e' he'
    have he' : e' ∈ s.entities := hd.entities ▸ he'
    by_cases hid : e'.id = e.id
    · rw [h.entityIds.eq_of_mem he' hd.entity hid, hself, hcount, List.length_append,
        List.count_eq_zero_of_not_mem hx]
      rfl
    · rw [hother _ hid]
      have hcounts := h.counts e' he'
      dsimp only at hcounts
      rwa [List.count_cons_of_ne (Ne.symm hid)] at hcounts
  · intro task' htask' hopen'
    rw [htasks] at htask'
    rcases List.mem_append.mp htask' with htask' | htask'
    · have hold := hsublist.subset (List.mem_filter.mpr ⟨htask', hopen'⟩)
      obtain ⟨hworkspace, e', he', hid, hrest⟩ := h.approvals task' (List.mem_of_mem_filter hold) hopen'
      have hne : e'.id ≠ e.id := fun he => hstale task' htask' hopen' (hid.trans (congrArg some he))
      refine ⟨hworkspace, e', hd.entities ▸ he', hid, ?_⟩
      rw [hother _ hne]
      exact hrest
    · rw [List.mem_singleton.mp htask']
      refine ⟨hasks.workspaceId.trans (by rw [MasteringService.wid, hw]), e,
        hd.entities ▸ hd.entity, hasks.entityId, ?_, m.values, m.provenance, ?_⟩
      · rw [hasks.boundEntityVersion, hself, hcount, List.length_append]
        rfl
      · rw [hasks.payload, hself, hversion, List.length_append]
        rfl
  · rw [htasks, List.filter_append, List.filter_cons_of_pos hopen, List.filter_nil, List.map_append]
    refine List.Nodup.append (h.single.sublist (hsublist.map _)) (List.nodup_singleton _) ?_
    intro id hid hid'
    obtain ⟨task', htask', rfl⟩ := List.mem_map.mp hid
    obtain ⟨htask', hopen'⟩ := List.mem_filter.mp htask'
    rw [List.map_singleton, List.mem_singleton, hasks.entityId] at hid'
    exact hstale task' htask' hopen' hid'

end Numbered

/-- A draft once it is approved. -/
def approveDraft (svc : MasteringService) (reason : String) (m : MasterVersion) : MasterVersion :=
  { m with
    status := .approved
    approvedBy := some svc.principal.subject
    reason := some reason }

/-- What the approval of a draft does. -/
structure Approved (svc : MasteringService) (s : Store) (task : ReviewTask) (e : Entity)
    (version : Nat) (reason : String) (t : Store) (draft : MasterVersion) (event : OutboxEvent) :
    Prop where
  drafted : draft ∈ s.masters ∧ some draft.entityId = task.entityId ∧ draft.version = version ∧
    draft.status = .draft
  masters : t.masters = Table.modify MasterVersion.id s.masters draft.id (approveDraft svc reason)
  entities : t.entities = s.entities.map (approveEntity e.id)
  outbox : t.outbox = s.outbox ++ [event]
  published : event = {
    id := svc.fresh s
    workspaceId := svc.wid
    entityId := some e.id
    entityVersion := some draft.version
    eventType := "master.approved"
    schemaVersion := "1.0"
    payload := [("event_id", .str (svc.fresh s)), ("workspace_id", .str svc.wid),
      ("entity_id", .str e.id), ("entity_version", .int draft.version),
      ("origin", .str "recordlane"), ("values", .obj draft.values),
      ("occurred_at", .str (svc.rt.isoformat (svc.now s))), ("schema_version", .str "1.0")]
    status := "pending"
    occurredAt := svc.now s }
  tasks : t.tasks = s.tasks
  drawn : t.drawn = s.drawn + 1
  domains : t.domains = s.domains
  sources : t.sources = s.sources
  objects : t.objects = s.objects
  records : t.records = s.records

theorem MasteringService.approveMaster_approved {version : Nat} {reason : String}
    (h : self.approveMaster s task (some e) version reason = .ok t) :
    ∃ draft event, Approved self s task e version reason t draft event := by
  unfold approveMaster at h
  split at h
  · cases h
  · cases h
  · next draft e' hdraft he =>
    cases he
    cases h
    refine ⟨draft, _, ⟨List.mem_of_find?_eq_some hdraft, ?_⟩, rfl, rfl, rfl, rfl, rfl, rfl, rfl, rfl, rfl,
      rfl⟩
    simpa [and_assoc] using List.find?_some hdraft

namespace Numbered

variable {owed : List Id} {V V' : Set Id}

theorem approve {version : Nat} {reason : String} {draft : MasterVersion} {event : OutboxEvent}
    {id : Id} {f : ReviewTask → ReviewTask} (h : Numbered rt w ⟨s, owed, V⟩)
    (ha : Approved self s task e version reason t draft event) (hf : Settles f) :
    Numbered rt w ⟨t.modifyTask id f, owed, V'⟩ := by
  have hof : ∀ x, t.mastersOf x = Table.modify MasterVersion.id (s.mastersOf x) draft.id
      (approveDraft self reason) := fun x => mastersOf_modify ha.masters fun _ => rfl
  have hlength : ∀ x, (t.mastersOf x).length = (s.mastersOf x).length := by
    intro x
    rw [hof, Table.length_modify]
  have hdrawn : s.drawn ≤ t.drawn := by
    rw [ha.drawn]
    omega
  have hentity : ∀ e' : Entity, (approveEntity e.id e').id = e'.id ∧
      (approveEntity e.id e').version = e'.version := by
    intro e'
    unfold approveEntity onRow
    split <;> exact ⟨rfl, rfl⟩
  refine Numbered.settle (V := V') ⟨?_, ?_, ?_, ?_, ?_, ?_, ?_, ?_⟩ hf
  · rw [ha.entities]
    exact h.entityIds.map fun e' _ => (hentity e').1
  · intro e' he'
    rw [ha.entities] at he'
    obtain ⟨e₀, he₀, rfl⟩ := List.mem_map.mp he'
    rw [(hentity e₀).1]
    exact (h.entities e₀ he₀).mono hdrawn
  · have hsame : ∀ m, (approveDraft self reason m).id = m.id := fun _ => rfl
    rw [ha.masters, Table.Keyed, Table.map_key_modify hsame]
    exact h.masterIds
  · intro m hm
    rw [ha.masters] at hm
    obtain ⟨m₀, hm₀, hid, howner⟩ : ∃ m₀ ∈ s.masters, m.id = m₀.id ∧ m.entityId = m₀.entityId := by
      rcases Table.mem_modify.mp hm with ⟨hm, -⟩ | ⟨m₀, hm₀, -, rfl⟩
      · exact ⟨m, hm, rfl, rfl⟩
      · exact ⟨m₀, hm₀, rfl, rfl⟩
    obtain ⟨hd, e₀, he₀, he⟩ := h.masters m₀ hm₀
    rw [hid, howner]
    refine ⟨hd.mono hdrawn, approveEntity e.id e₀, ?_, (hentity e₀).1.trans he⟩
    rw [ha.entities]
    exact List.mem_map_of_mem he₀
  · intro x
    have hsame : ∀ m, (approveDraft self reason m).version = m.version := fun _ => rfl
    rw [hlength, hof, Table.map_modify hsame]
    exact h.versions x
  · intro e' he'
    rw [ha.entities] at he'
    obtain ⟨e₀, he₀, rfl⟩ := List.mem_map.mp he'
    rw [hlength, (hentity e₀).1, (hentity e₀).2]
    exact h.counts e₀ he₀
  · intro task' htask' hopen
    obtain ⟨hw, e₀, he₀, hid, hrest⟩ := h.approvals task' (ha.tasks ▸ htask') hopen
    refine ⟨hw, approveEntity e.id e₀, ?_, ?_, ?_⟩
    · rw [ha.entities]
      exact List.mem_map_of_mem he₀
    · rw [(hentity e₀).1]
      exact hid
    · rw [hlength, (hentity e₀).1]
      exact hrest
  · rw [ha.tasks]
    exact h.single

end Numbered

theorem Move.numbered {p q : Point} (hm : Move self p q) (h : Numbered self.rt self.workspace p) :
    Numbered self.rt self.workspace q := by
  cases hm with
  | shift hs => exact h.of_tables hs.entities hs.masters hs.tasks hs.drawn
  | ask ht => exact h.ask ht
  | settle hf => exact h.settle hf
  | @bump s x owed V =>
    refine h.mapEntities (fun e he => (bump_row e he).1) fun e _ => ?_
    unfold Recordlane.bump onRow
    split
    · next hid =>
      rw [hid, List.count_cons_self]
      dsimp only
      omega
    · next hid => rw [List.count_cons_of_ne (Ne.symm hid)]
  | create hid hv => exact h.create hid hv
  | draft hx hd => exact h.draft rfl rfl hx hd
  | merge =>
    refine h.mapEntities (fun e he => (retireEntity_row e he).1) fun e _ => ?_
    unfold retireEntity
    split <;> rfl
  | announce _ => exact h.of_tables rfl rfl rfl (Nat.le_succ _)
  | approve _ _ _ _ _ _ ha hf =>
    obtain ⟨draft, event, happroved⟩ := MasteringService.approveMaster_approved ha
    exact h.approve happroved hf

theorem numbered_run (rt : Runtime) (w : Workspace) (requests : List Request) :
    Numbered rt w ((service rt).run (Store.empty w) requests).settled :=
  commit_invariant integrity_empty numbered_empty (fun _ _ _ hm h => hm.numbered h)
    (fun _ _ h => h.of_tables rfl rfl rfl le_rfl) requests

/-- At every commit point the version of an entity is the number of its masters, whose versions are
`1` to that number, and its open approval, if any, is the only one and bound to that version. -/
theorem numbered_reachable (h : Reachable rt w s) (he : e ∈ s.entities) :
    (s.mastersOf e.id).map MasterVersion.version = List.range' 1 e.version ∧
      ((s.tasks.filter fun task => task.isOpenApproval && task.entityId = some e.id).length ≤ 1) ∧
      ∀ task ∈ s.tasks, task.isOpenApproval → task.entityId = some e.id →
        task.boundEntityVersion = some e.version ∧
          ∃ values provenance, task.payload = .masterApproval e.version values provenance := by
  obtain ⟨requests, rfl⟩ := h
  have hn := numbered_run rt w requests
  have hcount : e.version = (((service rt).run (Store.empty w) requests).mastersOf e.id).length :=
    hn.counts e he
  refine ⟨?_, ?_, ?_⟩
  · rw [hcount]
    exact hn.versions e.id
  · have hsingle : ((((service rt).run (Store.empty w) requests).tasks.filter fun task =>
        task.isOpenApproval && task.entityId = some e.id).map ReviewTask.entityId).Nodup := by
      refine hn.single.sublist (List.Sublist.map _ ?_)
      refine List.monotone_filter_right _ ?_
      intro task htask
      exact (Bool.and_eq_true _ _ ▸ htask).1
    have hconst : ∀ x ∈ (((service rt).run (Store.empty w) requests).tasks.filter fun task =>
        task.isOpenApproval && task.entityId = some e.id).map ReviewTask.entityId,
        x = some e.id := by
      intro x hx
      obtain ⟨task, htask, rfl⟩ := List.mem_map.mp hx
      have hkeep := (List.mem_filter.mp htask).2
      simp only [Bool.and_eq_true, decide_eq_true_eq] at hkeep
      exact hkeep.2
    rw [List.eq_replicate_of_mem hconst, List.nodup_replicate, List.length_map] at hsingle
    exact hsingle
  · intro task htask hopen hid
    obtain ⟨-, e', he', hid', hrest⟩ := hn.approvals task htask hopen
    rw [hn.entityIds.eq_of_mem he' he (Option.some.inj (hid'.symm.trans hid))] at hrest
    rw [hcount]
    exact hrest

open Supplier in
theorem numbered_reachable_refreshed :
    ∃ e ∈ (after [three, ingest [observation "a" "2" [("name", .str "D")]]]).entities,
      ((after [three, ingest [observation "a" "2" [("name", .str "D")]]]).mastersOf e.id).map
        MasterVersion.version = [1, 2] := by
  obtain ⟨e, he, hv⟩ : ∃ e ∈ (after [three, ingest [observation "a" "2" [("name", .str "D")]]]).entities,
      e.version = 2 := by decide +kernel
  have hreachable : Reachable .plain workspace
      (after [three, ingest [observation "a" "2" [("name", .str "D")]]]) := ⟨setup ++ _, rfl⟩
  have hversions := (numbered_reachable hreachable he).1
  rw [hv] at hversions
  exact ⟨e, he, hversions⟩

end Recordlane
