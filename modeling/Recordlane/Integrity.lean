import Recordlane.Frame

/-! The integrity of a workspace's tables: keys, references, and what keeps them. -/
namespace Recordlane

/-- The key of a source object, unique in its workspace. -/
def SourceObject.key (o : SourceObject) : Id × String × String := (o.sourceId, o.domainKey, o.localId)

/-- The key of the object a record observes. -/
def SourceRecord.objectKey (r : SourceRecord) : Id × String × String :=
  (r.sourceId, r.domainKey, r.localId)

/-- The key of a record: an object has one record of a version. -/
def SourceRecord.key (r : SourceRecord) : (Id × String × String) × String :=
  (r.objectKey, r.sourceVersion)

/-- Every reference of the identity tables leads somewhere, and keys identify rows. -/
structure Integrity (rt : Runtime) (w : Workspace) (s : Store) : Prop where
  workspaces : s.workspaces = [w]
  objectIds : Table.Keyed SourceObject.id s.objects
  objectKeys : Table.Keyed SourceObject.key s.objects
  entityIds : Table.Keyed Entity.id s.entities
  recordIds : Table.Keyed SourceRecord.id s.records
  recordKeys : Table.Keyed SourceRecord.key s.records
  metaIds : Table.Keyed SourceObservationMeta.recordId s.metas
  masterIds : Table.Keyed MasterVersion.id s.masters
  masters : ∀ m ∈ s.masters, Drawn rt s.drawn m.id
  objects : ∀ o ∈ s.objects, o.workspaceId = w.id ∧ Drawn rt s.drawn o.id
  entities : ∀ e ∈ s.entities, e.workspaceId = w.id ∧ Drawn rt s.drawn e.id
  records : ∀ r ∈ s.records, r.workspaceId = w.id ∧ Drawn rt s.drawn r.id
  metas : ∀ m ∈ s.metas, Drawn rt s.drawn m.recordId
  recordMeta : ∀ r ∈ s.records, ∃ m ∈ s.metas, m.recordId = r.id
  recordObject : ∀ r ∈ s.records, ∃ o ∈ s.objects, o.key = r.objectKey
  objectEntity : ∀ o ∈ s.objects, ∀ x, o.entityId = some x → ∃ e ∈ s.entities, e.id = x
  currentRecord : ∀ o ∈ s.objects, ∀ x, o.currentRecordId = some x →
    o.retired = false ∧ ∃ r ∈ s.records, r.id = x ∧ r.state = .valid ∧ r.objectKey = o.key

variable {rt : Runtime} {w : Workspace} {s t : Store}

theorem integrity_empty : Integrity rt w (Store.empty w) := by
  constructor <;> simp [Store.empty, Table.Keyed]

theorem drawn_map {n : Nat} {ms : List MasterVersion} (h : ∀ m ∈ ms, Drawn rt n m.id) :
    ∀ id ∈ ms.map MasterVersion.id, Drawn rt n id := by
  intro id hid
  obtain ⟨m, hm, rfl⟩ := List.mem_map.mp hid
  exact h m hm

namespace Integrity

theorem sameRows (h : Integrity rt w s) (hq : SameRows rt s t) : Integrity rt w t where
  workspaces := hq.workspaces ▸ h.workspaces
  objectIds := hq.objects ▸ h.objectIds
  objectKeys := hq.objects ▸ h.objectKeys
  entityIds := hq.entities ▸ h.entityIds
  recordIds := hq.records ▸ h.recordIds
  recordKeys := hq.records ▸ h.recordKeys
  metaIds := hq.metas ▸ h.metaIds
  masterIds := hq.masterIds.nodup h.masterIds (drawn_map h.masters)
  masters m hm := hq.masterIds.drawn hq.drawn (drawn_map h.masters) _ (List.mem_map_of_mem hm)
  objects o ho := (h.objects o (hq.objects ▸ ho)).imp id fun hd => hd.mono hq.drawn
  entities e he := (h.entities e (hq.entities ▸ he)).imp id fun hd => hd.mono hq.drawn
  records r hr := (h.records r (hq.records ▸ hr)).imp id fun hd => hd.mono hq.drawn
  metas m hm := (h.metas m (hq.metas ▸ hm)).mono hq.drawn
  recordMeta := by
    rw [hq.records, hq.metas]
    exact h.recordMeta
  recordObject := by
    rw [hq.records, hq.objects]
    exact h.recordObject
  objectEntity := by
    rw [hq.objects, hq.entities]
    exact h.objectEntity
  currentRecord := by
    rw [hq.objects, hq.records]
    exact h.currentRecord

theorem frame (h : Integrity rt w s) (hf : Frame rt s t) : Integrity rt w t := h.sameRows hf.toSameRows

theorem object? (h : Integrity rt w s) {o : SourceObject} (ho : o ∈ s.objects) :
    s.object? o.id = some o := h.objectIds.find_of_mem ho

theorem entity? (h : Integrity rt w s) {e : Entity} (he : e ∈ s.entities) :
    s.entity? e.id = some e := h.entityIds.find_of_mem he

theorem record? (h : Integrity rt w s) {r : SourceRecord} (hr : r ∈ s.records) :
    s.record? r.id = some r := h.recordIds.find_of_mem hr

theorem attachedEntity (h : Integrity rt w s) {o : SourceObject} (ho : o ∈ s.objects) {x : Id}
    (hx : o.entityId = some x) : ∃ e ∈ s.entities, e.id = x ∧ s.entity? x = some e := by
  obtain ⟨e, he, rfl⟩ := h.objectEntity o ho x hx
  exact ⟨e, he, rfl, h.entity? he⟩

theorem mapEntities (h : Integrity rt w s) {f : Entity → Entity}
    (hf : ∀ e ∈ s.entities, (f e).id = e.id ∧ (f e).workspaceId = e.workspaceId) :
    Integrity rt w (s.mapEntities f) :=
  { h with
    entityIds := h.entityIds.map fun e he => (hf e he).1
    entities := by
      intro e' he'
      obtain ⟨e, he, rfl⟩ := List.mem_map.mp he'
      rw [(hf e he).1, (hf e he).2]
      exact h.entities e he
    objectEntity := by
      intro o ho x hx
      obtain ⟨e, he, rfl⟩ := h.objectEntity o ho x hx
      exact ⟨f e, List.mem_map_of_mem he, (hf e he).1⟩ }

theorem mapObjects (h : Integrity rt w s) {f : SourceObject → SourceObject}
    (hf : ∀ o ∈ s.objects, (f o).id = o.id ∧ (f o).workspaceId = o.workspaceId ∧ (f o).key = o.key)
    (he : ∀ o ∈ s.objects, ∀ x, (f o).entityId = some x →
      o.entityId = some x ∨ ∃ e ∈ s.entities, e.id = x)
    (hc : ∀ o ∈ s.objects, ∀ x, (f o).currentRecordId = some x →
      (o.currentRecordId = some x ∧ (f o).retired = o.retired) ∨
      (f o).retired = false ∧ ∃ r ∈ s.records, r.id = x ∧ r.state = .valid ∧ r.objectKey = o.key) :
    Integrity rt w (s.mapObjects f) :=
  { h with
    objectIds := h.objectIds.map fun o ho => (hf o ho).1
    objectKeys := h.objectKeys.map fun o ho => (hf o ho).2.2
    objects := by
      intro o' ho'
      obtain ⟨o, ho, rfl⟩ := List.mem_map.mp ho'
      rw [(hf o ho).1, (hf o ho).2.1]
      exact h.objects o ho
    recordObject := by
      intro r hr
      obtain ⟨o, ho, hk⟩ := h.recordObject r hr
      exact ⟨f o, List.mem_map_of_mem ho, (hf o ho).2.2.trans hk⟩
    objectEntity := by
      intro o' ho' x hx
      obtain ⟨o, ho, rfl⟩ := List.mem_map.mp ho'
      rcases he o ho x hx with hx | hx
      · exact h.objectEntity o ho x hx
      · exact hx
    currentRecord := by
      intro o' ho' x hx
      obtain ⟨o, ho, rfl⟩ := List.mem_map.mp ho'
      rw [(hf o ho).2.2]
      rcases hc o ho x hx with ⟨hx, hr⟩ | hx
      · rw [hr]
        exact h.currentRecord o ho x hx
      · exact hx }

theorem modifyObject (h : Integrity rt w s) {o : SourceObject} (ho : o ∈ s.objects)
    {f : SourceObject → SourceObject}
    (hf : (f o).id = o.id ∧ (f o).workspaceId = o.workspaceId ∧ (f o).key = o.key)
    (he : ∀ x, (f o).entityId = some x → o.entityId = some x ∨ ∃ e ∈ s.entities, e.id = x)
    (hc : ∀ x, (f o).currentRecordId = some x →
      (o.currentRecordId = some x ∧ (f o).retired = o.retired) ∨
      (f o).retired = false ∧ ∃ r ∈ s.records, r.id = x ∧ r.state = .valid ∧ r.objectKey = o.key) :
    Integrity rt w (s.modifyObject o.id f) := by
  have hrow : ∀ row ∈ s.objects, row = o ∧ onRow SourceObject.id o.id f row = f o ∨
      onRow SourceObject.id o.id f row = row := by
    intro row hrow
    by_cases hid : row.id = o.id
    · obtain rfl := h.objectIds.eq_of_mem hrow ho hid
      exact .inl ⟨rfl, by simp [onRow]⟩
    · exact .inr (by simp [onRow, hid])
  rw [modifyObject_eq]
  refine h.mapObjects ?_ ?_ ?_
  · intro row hmem
    rcases hrow row hmem with ⟨rfl, heq⟩ | heq <;> rw [heq]
    · exact hf
    · exact ⟨rfl, rfl, rfl⟩
  · intro row hmem x hx
    rcases hrow row hmem with ⟨rfl, heq⟩ | heq <;> rw [heq] at hx
    · exact he x hx
    · exact .inl hx
  · intro row hmem x hx
    rcases hrow row hmem with ⟨rfl, heq⟩ | heq <;> rw [heq] at hx ⊢
    · exact hc x hx
    · exact .inl ⟨hx, rfl⟩

theorem mapRecords (h : Integrity rt w s) {f : SourceRecord → SourceRecord}
    (hf : ∀ r ∈ s.records, (f r).id = r.id ∧ (f r).workspaceId = r.workspaceId ∧
      (f r).key = r.key ∧ (f r).state = r.state) : Integrity rt w (s.mapRecords f) :=
  { h with
    recordIds := h.recordIds.map fun r hr => (hf r hr).1
    recordKeys := h.recordKeys.map fun r hr => (hf r hr).2.2.1
    records := by
      intro r' hr'
      obtain ⟨r, hr, rfl⟩ := List.mem_map.mp hr'
      rw [(hf r hr).1, (hf r hr).2.1]
      exact h.records r hr
    recordMeta := by
      intro r' hr'
      obtain ⟨r, hr, rfl⟩ := List.mem_map.mp hr'
      rw [(hf r hr).1]
      exact h.recordMeta r hr
    recordObject := by
      intro r' hr'
      obtain ⟨r, hr, rfl⟩ := List.mem_map.mp hr'
      rw [show (f r).objectKey = r.objectKey from congrArg Prod.fst (hf r hr).2.2.1]
      exact h.recordObject r hr
    currentRecord := by
      intro o ho x hx
      obtain ⟨hret, r, hr, hid, hstate, hkey⟩ := h.currentRecord o ho x hx
      obtain ⟨hid', -, hkey', hstate'⟩ := hf r hr
      exact ⟨hret, f r, List.mem_map_of_mem hr, hid'.trans hid, hstate'.trans hstate,
        (congrArg Prod.fst hkey').trans hkey⟩ }

/-- The tables keep their integrity while identifiers are drawn for other ones. -/
theorem insertEntity (h : Integrity rt w s) {e : Entity} (hid : e.id = rt.uid s.drawn)
    (hw : e.workspaceId = w.id) : Integrity rt w (s.insertEntity e) where
  workspaces := h.workspaces
  objectIds := h.objectIds
  objectKeys := h.objectKeys
  recordIds := h.recordIds
  recordKeys := h.recordKeys
  metaIds := h.metaIds
  masterIds := h.masterIds
  masters m hm := (h.masters m hm).mono (Nat.le_succ _)
  recordMeta := h.recordMeta
  recordObject := h.recordObject
  currentRecord := h.currentRecord
  entityIds := h.entityIds.append fun e' he' => hid ▸ (h.entities e' he').2.ne_uid
  objects o ho := (h.objects o ho).imp id fun hd => hd.mono (Nat.le_succ _)
  records r hr := (h.records r hr).imp id fun hd => hd.mono (Nat.le_succ _)
  metas m hm := (h.metas m hm).mono (Nat.le_succ _)
  entities := by
    intro e' he'
    rcases List.mem_append.mp he' with he' | he'
    · exact (h.entities e' he').imp id fun hd => hd.mono (Nat.le_succ _)
    · rw [List.mem_singleton.mp he', hid]
      exact ⟨hw, drawn_uid (Nat.lt_succ_self _)⟩
  objectEntity := by
    intro o ho x hx
    obtain ⟨e', he', rfl⟩ := h.objectEntity o ho x hx
    exact ⟨e', List.mem_append_left _ he', rfl⟩

/-- A new source object belongs to no entity and contributes nothing yet. -/
theorem insertObject (h : Integrity rt w s) {o : SourceObject} (hid : o.id = rt.uid s.drawn)
    (hw : o.workspaceId = w.id) (hk : ∀ o' ∈ s.objects, o'.key ≠ o.key) (he : o.entityId = none)
    (hc : o.currentRecordId = none) : Integrity rt w (s.insertObject o) where
  workspaces := h.workspaces
  objectIds := h.objectIds.append fun o' ho' => hid ▸ (h.objects o' ho').2.ne_uid
  objectKeys := h.objectKeys.append hk
  entityIds := h.entityIds
  recordIds := h.recordIds
  recordKeys := h.recordKeys
  metaIds := h.metaIds
  masterIds := h.masterIds
  masters m hm := (h.masters m hm).mono (Nat.le_succ _)
  recordMeta := h.recordMeta
  entities e he := (h.entities e he).imp id fun hd => hd.mono (Nat.le_succ _)
  records r hr := (h.records r hr).imp id fun hd => hd.mono (Nat.le_succ _)
  metas m hm := (h.metas m hm).mono (Nat.le_succ _)
  objects := by
    intro o' ho'
    rcases List.mem_append.mp ho' with ho' | ho'
    · exact (h.objects o' ho').imp id fun hd => hd.mono (Nat.le_succ _)
    · rw [List.mem_singleton.mp ho', hid]
      exact ⟨hw, drawn_uid (Nat.lt_succ_self _)⟩
  recordObject := by
    intro r hr
    obtain ⟨o', ho', hk'⟩ := h.recordObject r hr
    exact ⟨o', List.mem_append_left _ ho', hk'⟩
  objectEntity := by
    intro o' ho' x hx
    rcases List.mem_append.mp ho' with ho' | ho'
    · exact h.objectEntity o' ho' x hx
    · rw [List.mem_singleton.mp ho', he] at hx
      cases hx
  currentRecord := by
    intro o' ho' x hx
    rcases List.mem_append.mp ho' with ho' | ho'
    · exact h.currentRecord o' ho' x hx
    · rw [List.mem_singleton.mp ho', hc] at hx
      cases hx

/-- A new record comes with its metadata. -/
theorem insertRecord (h : Integrity rt w s) {r : SourceRecord} {m : SourceObservationMeta}
    (hid : r.id = rt.uid s.drawn) (hm : m.recordId = r.id) (hw : r.workspaceId = w.id)
    (hk : ∀ r' ∈ s.records, r'.key ≠ r.key) (ho : ∃ o ∈ s.objects, o.key = r.objectKey) :
    Integrity rt w ((s.insertRecord r).insertMeta m) where
  workspaces := h.workspaces
  objectIds := h.objectIds
  objectKeys := h.objectKeys
  entityIds := h.entityIds
  recordIds := h.recordIds.append fun r' hr' => hid ▸ (h.records r' hr').2.ne_uid
  recordKeys := h.recordKeys.append hk
  metaIds := h.metaIds.append fun m' hm' => by
    rw [hm, hid]
    exact (h.metas m' hm').ne_uid
  objectEntity := h.objectEntity
  masterIds := h.masterIds
  masters m hm := (h.masters m hm).mono (Nat.le_add_right _ 2)
  objects o ho := (h.objects o ho).imp id fun hd => hd.mono (Nat.le_add_right _ 2)
  entities e he := (h.entities e he).imp id fun hd => hd.mono (Nat.le_add_right _ 2)
  records := by
    intro r' hr'
    rcases List.mem_append.mp hr' with hr' | hr'
    · exact (h.records r' hr').imp id fun hd => hd.mono (Nat.le_add_right _ 2)
    · rw [List.mem_singleton.mp hr', hid]
      exact ⟨hw, drawn_uid (show s.drawn < s.drawn + 2 by omega)⟩
  metas := by
    intro m' hm'
    rcases List.mem_append.mp hm' with hm' | hm'
    · exact (h.metas m' hm').mono (Nat.le_add_right _ 2)
    · rw [List.mem_singleton.mp hm', hm, hid]
      exact drawn_uid (show s.drawn < s.drawn + 2 by omega)
  recordMeta := by
    intro r' hr'
    rcases List.mem_append.mp hr' with hr' | hr'
    · obtain ⟨m', hm', he⟩ := h.recordMeta r' hr'
      exact ⟨m', List.mem_append_left _ hm', he⟩
    · rw [List.mem_singleton.mp hr']
      exact ⟨m, List.mem_append_right _ (List.mem_singleton_self m), hm⟩
  recordObject := by
    intro r' hr'
    rcases List.mem_append.mp hr' with hr' | hr'
    · exact h.recordObject r' hr'
    · rw [List.mem_singleton.mp hr']
      exact ho
  currentRecord := by
    intro o' ho' x hx
    obtain ⟨hret, r', hr', hrest⟩ := h.currentRecord o' ho' x hx
    exact ⟨hret, r', List.mem_append_left _ hr', hrest⟩

end Integrity

end Recordlane
