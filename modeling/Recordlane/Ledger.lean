import Recordlane.Survivors
import Mathlib.Logic.Relation

/-! The moves a transaction is made of, as far as entities, drafts, tasks and events go. -/
namespace Recordlane

variable {rt : Runtime} {w : Workspace} {self : MasteringService} {s t u : Store} {x : Id}
  {task : ReviewTask}

/-- The task asks for the approval of a master, and it is open. -/
def ReviewTask.isOpenApproval (task : ReviewTask) : Bool :=
  task.kind = .masterApproval && task.status = .opened

/-- The master versions of an entity, in the order of their drafting. -/
def Store.mastersOf (s : Store) (x : Id) : List MasterVersion :=
  s.masters.filter fun m => m.entityId = x

/-- The ledger is the same; only entities of `X` may have other surviving values. -/
structure Shift (svc : MasteringService) (s t : Store) (X : Set Id) : Prop where
  entities : t.entities = s.entities
  masters : t.masters = s.masters
  tasks : t.tasks = s.tasks
  outbox : t.outbox = s.outbox
  drawn : s.drawn ≤ t.drawn
  values : ∀ e ∈ s.entities, e.id ∉ X → ∀ values, svc.survivors s e = .ok values →
    svc.survivors t e = .ok values

/-- A change of a task that does not leave it open. -/
structure Settles (f : ReviewTask → ReviewTask) : Prop where
  id : ∀ t, (f t).id = t.id
  workspaceId : ∀ t, (f t).workspaceId = t.workspaceId
  entityId : ∀ t, (f t).entityId = t.entityId
  payload : ∀ t, (f t).payload = t.payload
  boundEntityVersion : ∀ t, (f t).boundEntityVersion = t.boundEntityVersion
  status : ∀ t, (f t).status ≠ .opened

/-- An event that tells consumers of a merge or of a split. -/
inductive Announces (svc : MasteringService) : OutboxEvent → Prop
  | merged {id entityId : Id} {mergedIds : List Id} {version : Nat} {reason : String} {at_ : DateTime} :
      Announces svc {
        id := id
        workspaceId := svc.wid
        entityId := some entityId
        entityVersion := some version
        eventType := "identity.merged"
        schemaVersion := "1.0"
        payload := [("event_id", .str id), ("workspace_id", .str svc.wid),
          ("entity_id", .str entityId), ("merged_entity_ids", .arr (mergedIds.map .str)),
          ("entity_version", .int version), ("reason", .str reason),
          ("schema_version", .str "1.0"), ("occurred_at", .str (svc.rt.isoformat at_))]
        status := "pending"
        occurredAt := at_ }
  | split {id originalId splitId : Id} {recordIds : List Id} {version newVersion : Nat}
      {reason : String} {at_ : DateTime} :
      Announces svc {
        id := id
        workspaceId := svc.wid
        entityId := some originalId
        entityVersion := some version
        eventType := "identity.split"
        schemaVersion := "1.0"
        payload := [("event_id", .str id), ("workspace_id", .str svc.wid),
          ("original_entity_id", .str originalId), ("split_entity_id", .str splitId),
          ("moved_source_record_ids", .arr (recordIds.map .str)),
          ("new_entity_version", .int newVersion), ("reason", .str reason),
          ("schema_version", .str "1.0"), ("occurred_at", .str (svc.rt.isoformat at_))]
        status := "pending"
        occurredAt := at_ }

/-- A point of a transaction: its store, the entities that were counted up or made and have no
draft of it yet, and the entities whose newest draft may be out of date. -/
structure Point where
  store : Store
  owed : List Id
  outdated : Set Id

/-- A point at which a transaction may commit. -/
def Store.settled (s : Store) : Point := ⟨s, [], ∅⟩

/-- The moves of a transaction. -/
inductive Move (svc : MasteringService) : Point → Point → Prop
  | shift {s t : Store} {owed : List Id} {V X : Set Id} (h : Shift svc s t X) :
      Move svc ⟨s, owed, V⟩ ⟨t, owed, V ∪ X⟩
  | ask {s : Store} {task : ReviewTask} {owed : List Id} {V : Set Id}
      (h : task.kind ≠ .masterApproval) : Move svc ⟨s, owed, V⟩ ⟨s.insertTask task, owed, V⟩
  | settle {s : Store} {id : Id} {f : ReviewTask → ReviewTask} {owed : List Id} {V : Set Id}
      (h : Settles f) : Move svc ⟨s, owed, V⟩ ⟨s.modifyTask id f, owed, V⟩
  | bump {s : Store} {x : Id} {owed : List Id} {V : Set Id} :
      Move svc ⟨s, owed, V⟩ ⟨s.mapEntities (bump x), x :: owed, V⟩
  | create {s : Store} {e : Entity} {V : Set Id} (hid : e.id = svc.rt.uid s.drawn)
      (hv : e.version = 1) : Move svc ⟨s, [], V⟩ ⟨s.insertEntity e, [e.id], V⟩
  | draft {s t : Store} {x : Id} {m : MasterVersion} {owed : List Id} {V : Set Id} (hx : x ∉ owed)
      (h : svc.draftMaster s x = .ok (t, m)) : Move svc ⟨s, x :: owed, V⟩ ⟨t, owed, V \ {x}⟩
  | merge {s : Store} {x : Id} {owed : List Id} {V : Set Id} :
      Move svc ⟨s, owed, V⟩ ⟨s.mapEntities (retireEntity [x]), owed, V \ {x}⟩
  | announce {s : Store} {e : OutboxEvent} {owed : List Id} {V : Set Id} (h : Announces svc e) :
      Move svc ⟨s, owed, V⟩ ⟨s.insertEvent e, owed, V⟩
  | approve {s t : Store} {task : ReviewTask} {e : Entity} {version : Nat} {values provenance : Dict}
      {reason : String} {f : ReviewTask → ReviewTask} {V : Set Id} (ht : task ∈ s.tasks)
      (hp : task.payload = .masterApproval version values provenance) (ho : task.status = .opened)
      (he : e ∈ s.entities) (hid : task.entityId = some e.id)
      (hb : task.boundEntityVersion = some e.version)
      (h : svc.approveMaster s task (some e) version reason = .ok t) (hf : Settles f) :
      Move svc ⟨s, [], V⟩ ⟨t.modifyTask task.id f, [], V⟩

abbrev Moves (svc : MasteringService) : Point → Point → Prop := Relation.ReflTransGen (Move svc)

namespace Shift

theorem refl (s : Store) : Shift self s s ∅ := ⟨rfl, rfl, rfl, rfl, le_rfl, fun _ _ _ _ h => h⟩

theorem trans {X Y : Set Id} (h : Shift self s t X) (h' : Shift self t u Y) :
    Shift self s u (X ∪ Y) where
  entities := h'.entities.trans h.entities
  masters := h'.masters.trans h.masters
  tasks := h'.tasks.trans h.tasks
  outbox := h'.outbox.trans h.outbox
  drawn := h.drawn.trans h'.drawn
  values := by
    intro e he hX values hvalues
    rw [Set.mem_union, not_or] at hX
    exact h'.values e (h.entities ▸ he) hX.2 values (h.values e he hX.1 values hvalues)

end Shift

theorem Moves.shift {owed : List Id} {V : Set Id} (h : Shift self s t ∅) :
    Moves self ⟨s, owed, V⟩ ⟨t, owed, V⟩ := by
  have hmove : Move self ⟨s, owed, V⟩ ⟨t, owed, V ∪ ∅⟩ := .shift h
  rw [Set.union_empty] at hmove
  exact .single hmove

/-! What a change of objects and records does to the contributions of an entity. -/

theorem sameContributions (f : SourceObject → SourceObject) (g : SourceRecord → SourceRecord)
    (os : List SourceObject) (rs : List SourceRecord) (ho : t.objects = s.objects.map f ++ os)
    (hr : t.records = s.records.map g ++ rs)
    (hf : ∀ o ∈ s.objects, ∀ r, MasteringService.contributes r x (f o) = MasteringService.contributes r x o)
    (hg : ∀ r ∈ s.records, (g r).core = r.core)
    (hos : ∀ o ∈ os, ∀ r, MasteringService.contributes r x o = false)
    (hrs : ∀ r ∈ rs, ∀ o ∈ s.objects, MasteringService.contributes r x o = false) :
    self.SameContributions s t x := by
  have hrow : ∀ r r' : SourceRecord, r'.core = r.core →
      ((t.objects.filter (MasteringService.contributes r' x)).map fun _ => r'.core) =
        (s.objects.filter (MasteringService.contributes r x)).map fun _ => r.core := by
    intro r r' hcore
    have hcontributes : MasteringService.contributes r' x = MasteringService.contributes r x := by
      funext o
      simp only [MasteringService.contributes, (SourceRecord.core_eq hcore).1]
    have hnone : os.filter (MasteringService.contributes r x) = [] :=
      List.filter_eq_nil_iff.mpr fun o h => by simp [hos o h r]
    have hsame : s.objects.filter (MasteringService.contributes r x ∘ f) =
        s.objects.filter (MasteringService.contributes r x) :=
      List.filter_congr fun o h => hf o h r
    rw [hcore, hcontributes, ho, List.filter_append, hnone, List.append_nil, List.filter_map,
      List.map_map, hsame]
    rfl
  have hselected : ∀ u : Store, (self.currentRecords u x).map SourceRecord.core =
      (u.records.filter fun r => r.workspaceId = self.wid && r.state = .valid).flatMap fun r =>
        (u.objects.filter (MasteringService.contributes r x)).map fun _ => r.core := by
    intro u
    rw [MasteringService.currentRecords, List.map_flatMap]
    simp only [List.map_map, Function.comp_def]
  have hadded : (rs.filter fun r => r.workspaceId = self.wid && r.state = .valid).flatMap (fun r =>
      (t.objects.filter (MasteringService.contributes r x)).map fun _ => r.core) = [] := by
    rw [List.flatMap_eq_nil_iff]
    intro r hr'
    rw [hrow r r rfl, List.map_eq_nil_iff, List.filter_eq_nil_iff]
    intro o ho'
    simp [hrs r (List.mem_of_mem_filter hr') o ho']
  rw [MasteringService.SameContributions, hselected, hselected, hr, List.filter_append,
    List.flatMap_append, hadded, List.append_nil, List.filter_map, List.flatMap_map]
  have hkept :
      (s.records.filter ((fun r => decide (r.workspaceId = self.wid) && decide (r.state = .valid)) ∘ g)) =
      s.records.filter fun r => r.workspaceId = self.wid && r.state = .valid := by
    refine List.filter_congr fun r h => ?_
    have hcore := hg r h
    simp only [SourceRecord.core, SourceRecord.mk.injEq] at hcore
    simp only [Function.comp_apply, hcore]
  rw [hkept]
  refine List.flatMap_congr fun r h => ?_
  exact hrow r (g r) (hg r (List.mem_of_mem_filter h))

end Recordlane
