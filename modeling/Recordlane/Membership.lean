import Recordlane.Integrity

/-! How drafts, merges, links and splits change the tables: one effect for each operation. -/
namespace Recordlane

variable {self : MasteringService} {s s' t : Store}

/-- A row of a listed object once the object is attached to the entity. -/
def attach (ids : List Id) (entityId : Id) (o : SourceObject) : SourceObject :=
  if o.id ∈ ids then { o with entityId := some entityId } else o

@[simp] theorem attach_id {ids : List Id} {entityId : Id} {o : SourceObject} :
    (attach ids entityId o).id = o.id := by
  unfold attach
  split <;> rfl

theorem attach_cons {id : Id} {ids : List Id} {entityId : Id} :
    attach ids entityId ∘ attach [id] entityId = attach (id :: ids) entityId := by
  funext o
  by_cases h : o.id = id <;> by_cases h' : o.id ∈ ids <;> simp [attach, h, h']

/-- A row once the members of some entities have moved to the target. -/
def gather (sources : List Id) (target : Id) (o : SourceObject) : SourceObject :=
  if ∃ x ∈ sources, o.entityId = some x then { o with entityId := some target } else o

@[simp] theorem gather_id {xs : List Id} {target : Id} {o : SourceObject} :
    (gather xs target o).id = o.id := by
  unfold gather
  split <;> rfl

theorem gather_contribution {xs : List Id} {target : Id} {o : SourceObject} :
    (gather xs target o).currentRecordId = o.currentRecordId ∧
      (gather xs target o).retired = o.retired := by
  unfold gather
  split <;> exact ⟨rfl, rfl⟩

theorem gather_cons {x target : Id} {xs : List Id} :
    gather xs target ∘ gather [x] target = gather (x :: xs) target := by
  funext o
  by_cases h : o.entityId = some x
  · by_cases ht : target ∈ xs <;> simp [gather, h, ht]
  · simp [gather, h]

/-- A row of a listed entity once it is merged. -/
def retireEntity (ids : List Id) (e : Entity) : Entity :=
  if e.id ∈ ids then { e with status := .merged } else e

theorem retireEntity_cons {id : Id} {ids : List Id} :
    retireEntity ids ∘ retireEntity [id] = retireEntity (id :: ids) := by
  funext e
  by_cases h : e.id = id <;> by_cases h' : e.id ∈ ids <;> simp [retireEntity, h, h']

theorem retireEntity_singleton {id : Id} :
    retireEntity [id] = onRow Entity.id id fun e => { e with status := .merged } := by
  funext e
  simp [retireEntity, onRow]

theorem retireEntity_row {ids : List Id} : ∀ e ∈ s.entities,
    (retireEntity ids e).id = e.id ∧ (retireEntity ids e).workspaceId = e.workspaceId := by
  intro e _
  unfold retireEntity
  split <;> exact ⟨rfl, rfl⟩

/-- A row of the entity whose version goes up. -/
def bump (id : Id) : Entity → Entity := onRow Entity.id id fun e => { e with version := e.version + 1 }

theorem bump_row {id : Id} : ∀ e ∈ s.entities,
    (bump id e).id = e.id ∧ (bump id e).workspaceId = e.workspaceId := by
  intro e _
  unfold bump onRow
  split <;> exact ⟨rfl, rfl⟩

/-- The members of the sources move to the target, which counts up; the sources are merged. -/
def Store.merged (s : Store) (sources : List Id) (target : Id) : Store :=
  (s.mapObjects (gather sources target)).mapEntities (bump target ∘ retireEntity sources)

/-- Listed members leave the original entity, which counts up, for a new one. -/
def Store.split (s : Store) (ids : List Id) (original : Id) (new : Entity) : Store :=
  ((s.insertEntity new).mapObjects (attach ids new.id)).mapEntities (bump original)

theorem integrity_gather {rt : Runtime} {w : Workspace} (h : Integrity rt w s) {ids : List Id} {target : Id}
    (ht : ∃ e ∈ s.entities, e.id = target) :
    Integrity rt w (s.mapObjects (gather ids target)) := by
  refine h.mapObjects ?_ ?_ ?_
  · intro o _
    unfold gather
    split <;> exact ⟨rfl, rfl, rfl⟩
  · intro o _ x hx
    unfold gather at hx
    split at hx
    · cases hx
      exact .inr ht
    · exact .inl hx
  · intro o _ x hx
    exact .inl ⟨gather_contribution.1 ▸ hx, gather_contribution.2⟩

theorem integrity_merged {rt : Runtime} {w : Workspace} (h : Integrity rt w s) {ids : List Id}
    {target : Id} (ht : ∃ e ∈ s.entities, e.id = target) : Integrity rt w (s.merged ids target) := by
  rw [Store.merged, ← mapEntities_mapEntities]
  exact ((integrity_gather h ht).mapEntities retireEntity_row).mapEntities bump_row

theorem integrity_split {rt : Runtime} {w : Workspace} (h : Integrity rt w s) {ids : List Id}
    {original : Id} {new : Entity} (hid : new.id = rt.uid s.drawn) (hw : new.workspaceId = w.id) :
    Integrity rt w (s.split ids original new) := by
  refine Integrity.mapEntities (Integrity.mapObjects (h.insertEntity hid hw) ?_ ?_ ?_) bump_row
  · intro o _
    unfold attach
    split <;> exact ⟨rfl, rfl, rfl⟩
  · intro o _ x hx
    unfold attach at hx
    split at hx
    · cases hx
      exact .inr ⟨new, List.mem_append_right _ (List.mem_singleton_self _), rfl⟩
    · exact .inl hx
  · intro o _ x hx
    refine .inl ⟨?_, ?_⟩
    · unfold attach at hx
      split at hx <;> exact hx
    · unfold attach
      split <;> rfl

namespace MasteringService

theorem entity?_mem {id : Id} {e : Entity} (h : s.entity? id = some e) : e ∈ s.entities ∧ e.id = id :=
  ⟨Table.find_mem h, Table.find_key h⟩

theorem draftMaster_frame {id : Id} {m : MasterVersion} (h : self.draftMaster s id = .ok (s', m)) :
    Frame self.rt s s' := by
  unfold draftMaster at h
  split at h
  · split at h
    · simp only [Except.bind_eq_ok, Except.pure_eq_ok, Prod.exists, Prod.mk.injEq] at h
      obtain ⟨policy, -, values, provenance, -, rfl, -⟩ := h
      exact ((insertMaster_frame rfl rfl).trans (self.staleApproval_frame _)).trans
        (insertTask_frame (by simp [ReviewTask.kind, TaskPayload.kind]) rfl)
    · cases h
  · cases h

theorem attach_singleton {id entityId : Id} :
    attach [id] entityId = onRow SourceObject.id id fun o => { o with entityId := some entityId } := by
  funext o
  simp [attach, onRow]

theorem setMembership_of_ne {m : SourceObject} {entityId : Id} {reason : String}
    (h : m.entityId ≠ some entityId) :
    Frame self.rt (s.mapObjects (attach [m.id] entityId)) (self.setMembership s m entityId reason) := by
  rw [setMembership, if_neg h, attach_singleton]
  exact ((self.closeMembership_frame m.id).mapObjects _).trans insertMembership_frame

theorem setMembership_frame {m : SourceObject} {entityId : Id} {reason : String}
    (hk : Table.Keyed SourceObject.id s.objects) (hm : m ∈ s.objects) :
    Frame self.rt (s.mapObjects (attach [m.id] entityId)) (self.setMembership s m entityId reason) := by
  by_cases h : m.entityId = some entityId
  · rw [setMembership, if_pos h, mapObjects_eq_self]
    · exact .refl s
    · intro o ho
      by_cases hid : o.id = m.id
      · rw [hk.eq_of_mem ho hm hid]
        simp [attach, ← h]
      · simp [attach, hid]
  · exact setMembership_of_ne h

theorem moveMembers_frame {members : List SourceObject} {entityId : Id} {reason : String}
    (hk : Table.Keyed SourceObject.id s.objects) (hm : ∀ m ∈ members, m ∈ s.objects)
    (hn : (members.map SourceObject.id).Nodup) :
    Frame self.rt (s.mapObjects (attach (members.map SourceObject.id) entityId))
      (self.moveMembers s members entityId reason) := by
  induction members generalizing s with
  | nil =>
    rw [List.map_nil, mapObjects_eq_self fun o _ => by simp [attach]]
    exact .refl s
  | cons m members ih =>
    rw [List.map_cons, List.nodup_cons] at hn
    have hs : Frame self.rt (s.mapObjects (attach [m.id] entityId))
        (self.setMembership s m entityId reason) := setMembership_frame hk (hm m List.mem_cons_self)
    have hobjects : (self.setMembership s m entityId reason).objects =
      s.objects.map (attach [m.id] entityId) := hs.objects
    have hfirst := hs.mapObjects (attach (members.map SourceObject.id) entityId)
    rw [mapObjects_mapObjects, attach_cons] at hfirst
    refine hfirst.trans (ih ?_ ?_ hn.2)
    · rw [hobjects]
      exact hk.map fun _ _ => attach_id
    · intro o ho
      rw [hobjects]
      refine List.mem_map.mpr ⟨o, hm o (List.mem_cons_of_mem _ ho), ?_⟩
      have hne : o.id ≠ m.id := fun he => hn.1 (he ▸ List.mem_map_of_mem ho)
      simp [attach, hne]

theorem members_sublist (x : Id) : (self.members s x).Sublist s.objects := List.filter_sublist

theorem moveSome_frame (h : Integrity self.rt self.workspace s) {members : List SourceObject}
    (hm : members.Sublist s.objects) {entityId : Id} {reason : String} :
    Frame self.rt (s.mapObjects (attach (members.map SourceObject.id) entityId))
      (self.moveMembers s members entityId reason) :=
  moveMembers_frame h.objectIds (fun _ ho => hm.subset ho) (List.Nodup.sublist (hm.map _) h.objectIds)

theorem mem_members (h : Integrity self.rt self.workspace s) {x : Id} {o : SourceObject} :
    o ∈ self.members s x ↔ o ∈ s.objects ∧ o.entityId = some x := by
  simp only [members, List.mem_filter, Bool.and_eq_true, decide_eq_true_eq]
  constructor
  · rintro ⟨ho, -, he⟩
    exact ⟨ho, he⟩
  · rintro ⟨ho, he⟩
    exact ⟨ho, (h.objects o ho).1, he⟩

theorem moveAll_frame (h : Integrity self.rt self.workspace s) {source target : Id} {reason : String} :
    Frame self.rt (s.mapObjects (gather [source] target))
      (self.moveMembers s (self.members s source) target reason) := by
  have hmove : Frame self.rt
      (s.mapObjects (attach ((self.members s source).map SourceObject.id) target))
      (self.moveMembers s (self.members s source) target reason) :=
    moveSome_frame h (self.members_sublist source)
  refine (mapObjects_congr fun o ho => ?_) ▸ hmove
  have hiff : o.id ∈ (self.members s source).map SourceObject.id ↔ o.entityId = some source := by
    constructor
    · intro hid
      obtain ⟨m, hm, hid⟩ := List.mem_map.mp hid
      obtain ⟨hm, he⟩ := (mem_members h).mp hm
      rwa [h.objectIds.eq_of_mem ho hm hid.symm]
    · intro he
      exact List.mem_map_of_mem ((mem_members h).mpr ⟨ho, he⟩)
  simp [attach, gather, hiff]

theorem moveRelationships_frame (self : MasteringService) (mergedId primaryId : Id) :
    Frame self.rt s (self.moveRelationships s mergedId primaryId) :=
  ⟨⟨⟨⟨rfl, rfl, rfl, rfl, rfl, .refl, le_rfl⟩, rfl, .refl _⟩, rfl, rfl⟩, rfl, rfl, rfl, rfl, rfl, rfl,
    .refl⟩

theorem mergeEntity_frame (h : Integrity self.rt self.workspace s) {primaryId id : Id}
    {bound : List (Id × Nat)} (hm : self.mergeEntity primaryId bound s id = .ok s') :
    (∃ e ∈ s.entities, e.id = id ∧ e.status ≠ .merged) ∧
      Frame self.rt ((s.mapObjects (gather [id] primaryId)).mapEntities (retireEntity [id])) s' := by
  unfold mergeEntity at hm
  split at hm
  · cases hm
  · next e he =>
    have hmem := List.mem_of_find?_eq_some he
    obtain ⟨rfl, -, hlive⟩ : e.id = id ∧ e.workspaceId = self.wid ∧ e.status ≠ .merged := by
      simpa [and_assoc] using List.find?_some he
    split at hm
    · cases hm
    · cases hm
      refine ⟨⟨e, hmem, rfl, hlive⟩, ?_⟩
      rw [retireEntity_singleton]
      exact (Frame.trans (moveAll_frame h) (self.moveRelationships_frame e.id primaryId)).mapEntities _

/-- All rounds of a merge: the listed entities are distinct and live, and their members move. -/
theorem mergeEntities_frame (h : Integrity self.rt self.workspace s) {primaryId : Id}
    {ids : List Id} {bound : List (Id × Nat)} (hp : ∃ e ∈ s.entities, e.id = primaryId)
    (hm : ids.foldlM (self.mergeEntity primaryId bound) s = .ok s') :
    ids.Nodup ∧ (∀ id ∈ ids, ∃ e ∈ s.entities, e.id = id ∧ e.status ≠ .merged) ∧
      Frame self.rt ((s.mapObjects (gather ids primaryId)).mapEntities (retireEntity ids)) s' := by
  induction ids generalizing s with
  | nil =>
    rw [List.foldlM_nil, Except.pure_eq_ok] at hm
    subst hm
    refine ⟨List.nodup_nil, by simp, ?_⟩
    rw [mapObjects_eq_self fun o _ => by simp [gather], mapEntities_eq_self fun e _ => by
      simp [retireEntity]]
    exact .refl s
  | cons id ids ih =>
    rw [List.foldlM_cons, Except.bind_eq_ok] at hm
    obtain ⟨s₁, hm₁, hm⟩ := hm
    obtain ⟨⟨e, he, rfl, hlive⟩, hf₁⟩ := mergeEntity_frame h hm₁
    have hentities : s₁.entities = s.entities.map (retireEntity [e.id]) := hf₁.entities
    have hi₁ := ((integrity_gather h hp).mapEntities retireEntity_row).frame hf₁
    have hp₁ : ∃ e ∈ s₁.entities, e.id = primaryId := by
      obtain ⟨p, hp, rfl⟩ := hp
      rw [hentities]
      exact ⟨_, List.mem_map_of_mem hp, (retireEntity_row p hp).1⟩
    obtain ⟨hn, hl, hf⟩ := ih hi₁ hp₁ hm
    -- an entity live after the round was live before it and is not the one just merged
    have hback : ∀ id' ∈ ids, ∃ e' ∈ s.entities, e'.id = id' ∧ e'.status ≠ .merged ∧ id' ≠ e.id := by
      intro id' hid'
      obtain ⟨e₁, he₁, rfl, hlive₁⟩ := hl id' hid'
      rw [hentities] at he₁
      obtain ⟨e₀, he₀, rfl⟩ := List.mem_map.mp he₁
      by_cases h₀ : e₀.id = e.id
      · simp [retireEntity, h₀] at hlive₁
      · refine ⟨e₀, he₀, ?_, ?_, ?_⟩ <;> simp_all [retireEntity]
    refine ⟨List.nodup_cons.mpr ⟨fun hid => ?_, hn⟩, ?_, ?_⟩
    · obtain ⟨-, -, -, -, hne⟩ := hback e.id hid
      exact hne rfl
    · intro id' hid'
      rcases List.mem_cons.mp hid' with rfl | hid'
      · exact ⟨e, he, rfl, hlive⟩
      · obtain ⟨e', he', hid', hlive', -⟩ := hback id' hid'
        exact ⟨e', he', hid', hlive'⟩
    · rw [← gather_cons, ← retireEntity_cons]
      have hmap := (hf₁.mapObjects (gather ids primaryId)).mapEntities (retireEntity ids)
      refine Frame.trans ?_ hf
      simpa [Store.mapObjects, Store.mapEntities] using hmap

end MasteringService

end Recordlane
