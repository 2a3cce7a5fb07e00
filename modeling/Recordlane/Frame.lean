import Recordlane.Workspace

/-! What the operations leave alone: the identity tables, published masters, match tasks. -/
namespace Recordlane

variable {rt : Runtime} {self : MasteringService} {s t u : Store}

/-- The approved master versions. -/
def Store.approved (s : Store) : List MasterVersion := s.masters.filter fun m => m.status = .approved

/-- The events that publish a master. -/
def Store.published (s : Store) : List OutboxEvent :=
  s.outbox.filter fun e => e.eventType = "master.approved"

/-- Every match task of `ts'` asks what a task of `ts` asks. -/
def MatchesFrom (ts ts' : List ReviewTask) : Prop :=
  ∀ t' ∈ ts', t'.kind = .duplicateMatch → ∃ t ∈ ts, t.payload = t'.payload ∧ t.entityId = t'.entityId

namespace MatchesFrom

variable {ts ts' ts'' : List ReviewTask} {task : ReviewTask}

theorem refl (ts : List ReviewTask) : MatchesFrom ts ts := fun t ht _ => ⟨t, ht, rfl, rfl⟩

theorem trans (h : MatchesFrom ts ts') (h' : MatchesFrom ts' ts'') : MatchesFrom ts ts'' := by
  intro t ht hk
  obtain ⟨t₁, ht₁, hp₁, he₁⟩ := h' t ht hk
  obtain ⟨t₀, ht₀, hp₀, he₀⟩ := h t₁ ht₁ (by rw [ReviewTask.kind, hp₁]; exact hk)
  exact ⟨t₀, ht₀, hp₀.trans hp₁, he₀.trans he₁⟩

theorem append (h : task.kind ≠ .duplicateMatch) : MatchesFrom ts (ts ++ [task]) := by
  intro t ht hk
  rcases List.mem_append.mp ht with ht | ht
  · exact ⟨t, ht, rfl, rfl⟩
  · rw [List.mem_singleton.mp ht] at hk
    exact (h hk).elim

theorem modify {id : Id} {f : ReviewTask → ReviewTask} (hp : ∀ t, (f t).payload = t.payload)
    (he : ∀ t, (f t).entityId = t.entityId) : MatchesFrom ts (Table.modify ReviewTask.id ts id f) := by
  intro t ht _
  rcases Table.mem_modify.mp ht with ⟨ht, -⟩ | ⟨t₀, ht₀, -, rfl⟩
  · exact ⟨t, ht, rfl, rfl⟩
  · exact ⟨t₀, ht₀, (hp t₀).symm, (he t₀).symm⟩

end MatchesFrom

/-- An identifier that has been drawn. -/
def Drawn (rt : Runtime) (n : Nat) (id : Id) : Prop := ∃ k < n, id = rt.uid k

theorem Drawn.mono {m n : Nat} {id : Id} (h : Drawn rt m id) (hmn : m ≤ n) :
    Drawn rt n id := by
  obtain ⟨k, hk, rfl⟩ := h
  exact ⟨k, by omega, rfl⟩

theorem drawn_uid {m n : Nat} (h : m < n) : Drawn rt n (rt.uid m) := ⟨m, h, rfl⟩

theorem Drawn.ne_uid {n : Nat} {id : Id} (h : Drawn rt n id) : id ≠ rt.uid n := by
  obtain ⟨k, hk, rfl⟩ := h
  intro he
  have := rt.uid_injective he
  omega

/-- The identifiers `ids'` are `ids`, then some of those drawn from the `m`th on before the `n`th. -/
def Extends (rt : Runtime) (m n : Nat) (ids ids' : List Id) : Prop :=
  ∃ ks : List Nat, ids' = ids ++ ks.map rt.uid ∧ ks.Nodup ∧ ∀ k ∈ ks, m ≤ k ∧ k < n

namespace Extends

variable {l m n : Nat} {ids ids' ids'' : List Id}

theorem refl : Extends rt m n ids ids := ⟨[], by simp⟩

theorem trans (h : Extends rt l m ids ids') (h' : Extends rt m n ids' ids'') (hl : l ≤ m)
    (hn : m ≤ n) : Extends rt l n ids ids'' := by
  obtain ⟨ks, rfl, hks, hbound⟩ := h
  obtain ⟨ks', rfl, hks', hbound'⟩ := h'
  refine ⟨ks ++ ks', by simp, hks.append hks' ?_, ?_⟩
  · intro k hk hk'
    have := (hbound k hk).2
    have := (hbound' k hk').1
    omega
  · intro k hk
    rcases List.mem_append.mp hk with hk | hk
    · have := hbound k hk
      omega
    · have := hbound' k hk
      omega

theorem nodup (h : Extends rt m n ids ids') (hn : ids.Nodup) (hd : ∀ id ∈ ids, Drawn rt m id) :
    ids'.Nodup := by
  obtain ⟨ks, rfl, hks, hbound⟩ := h
  refine hn.append (hks.map rt.uid_injective) ?_
  intro id hid hid'
  obtain ⟨k, hk, rfl⟩ := hd id hid
  obtain ⟨k', hk', he⟩ := List.mem_map.mp hid'
  have := rt.uid_injective he
  have := (hbound k' hk').1
  omega

theorem drawn (h : Extends rt m n ids ids') (hmn : m ≤ n) (hd : ∀ id ∈ ids, Drawn rt m id) :
    ∀ id ∈ ids', Drawn rt n id := by
  obtain ⟨ks, rfl, -, hbound⟩ := h
  intro id hid
  rcases List.mem_append.mp hid with hid | hid
  · exact (hd id hid).mono hmn
  · obtain ⟨k, hk, rfl⟩ := List.mem_map.mp hid
    exact drawn_uid (hbound k hk).2

end Extends

/-- The tables of identity hold the same rows; masters may have been added. -/
structure SameRows (rt : Runtime) (s t : Store) : Prop where
  workspaces : t.workspaces = s.workspaces
  records : t.records = s.records
  entities : t.entities = s.entities
  objects : t.objects = s.objects
  metas : t.metas = s.metas
  masterIds : Extends rt s.drawn t.drawn (s.masters.map MasterVersion.id)
    (t.masters.map MasterVersion.id)
  drawn : s.drawn ≤ t.drawn

/-- Moreover no pair is barred and no match task is new. -/
structure Kept (rt : Runtime) (s t : Store) : Prop extends SameRows rt s t where
  cannotLinks : t.cannotLinks = s.cannotLinks
  tasks : MatchesFrom s.tasks t.tasks

/-- Moreover no master is approved and none is published. -/
structure Quiet (rt : Runtime) (s t : Store) : Prop extends Kept rt s t where
  approved : t.approved = s.approved
  published : t.published = s.published

/-- Moreover the runs, the jobs, the block index, the configurations, the domains and the sources are
the same; tasks may have been added. -/
structure Frame (rt : Runtime) (s t : Store) : Prop extends Quiet rt s t where
  runs : t.runs = s.runs
  jobs : t.jobs = s.jobs
  configurations : t.configurations = s.configurations
  blocks : t.blocks = s.blocks
  domains : t.domains = s.domains
  sources : t.sources = s.sources
  taskIds : Extends rt s.drawn t.drawn (s.tasks.map ReviewTask.id) (t.tasks.map ReviewTask.id)

theorem SameRows.refl (s : Store) : SameRows rt s s := ⟨rfl, rfl, rfl, rfl, rfl, .refl, le_rfl⟩

theorem SameRows.trans (h : SameRows rt s t) (h' : SameRows rt t u) : SameRows rt s u where
  workspaces := h'.workspaces.trans h.workspaces
  records := h'.records.trans h.records
  entities := h'.entities.trans h.entities
  objects := h'.objects.trans h.objects
  metas := h'.metas.trans h.metas
  masterIds := h.masterIds.trans h'.masterIds h.drawn h'.drawn
  drawn := h.drawn.trans h'.drawn

theorem Kept.refl (s : Store) : Kept rt s s := ⟨.refl s, rfl, .refl _⟩

theorem Kept.trans (h : Kept rt s t) (h' : Kept rt t u) : Kept rt s u :=
  ⟨h.toSameRows.trans h'.toSameRows, h'.cannotLinks.trans h.cannotLinks, h.tasks.trans h'.tasks⟩

theorem Quiet.refl (s : Store) : Quiet rt s s := ⟨.refl s, rfl, rfl⟩

theorem Quiet.trans (h : Quiet rt s t) (h' : Quiet rt t u) : Quiet rt s u :=
  ⟨h.toKept.trans h'.toKept, h'.approved.trans h.approved, h'.published.trans h.published⟩

theorem Frame.refl (s : Store) : Frame rt s s := ⟨.refl s, rfl, rfl, rfl, rfl, rfl, rfl, .refl⟩

theorem Frame.trans (h : Frame rt s t) (h' : Frame rt t u) : Frame rt s u :=
  ⟨h.toQuiet.trans h'.toQuiet, h'.runs.trans h.runs, h'.jobs.trans h.jobs,
    h'.configurations.trans h.configurations, h'.blocks.trans h.blocks, h'.domains.trans h.domains,
    h'.sources.trans h.sources, h.taskIds.trans h'.taskIds h.drawn h'.drawn⟩

namespace Store

/-! Changes of whole tables. A change through a primary key is one of them. -/

def mapRecords (s : Store) (f : SourceRecord → SourceRecord) : Store :=
  { s with records := s.records.map f }

def mapEntities (s : Store) (f : Entity → Entity) : Store :=
  { s with entities := s.entities.map f }

def mapObjects (s : Store) (f : SourceObject → SourceObject) : Store :=
  { s with objects := s.objects.map f }

end Store

/-- The change of one row. -/
def onRow {α : Type} (key : α → Id) (id : Id) (f : α → α) (r : α) : α := if key r = id then f r else r

theorem modifyRecord_eq {id : Id} {f : SourceRecord → SourceRecord} :
    s.modifyRecord id f = s.mapRecords (onRow SourceRecord.id id f) := rfl

theorem modifyEntity_eq {id : Id} {f : Entity → Entity} :
    s.modifyEntity id f = s.mapEntities (onRow Entity.id id f) := rfl

theorem modifyObject_eq {id : Id} {f : SourceObject → SourceObject} :
    s.modifyObject id f = s.mapObjects (onRow SourceObject.id id f) := rfl

theorem mapObjects_mapObjects {f g : SourceObject → SourceObject} :
    (s.mapObjects f).mapObjects g = s.mapObjects (g ∘ f) := by simp [Store.mapObjects]

theorem mapEntities_mapEntities {f g : Entity → Entity} :
    (s.mapEntities f).mapEntities g = s.mapEntities (g ∘ f) := by simp [Store.mapEntities]

theorem mapObjects_eq_self {f : SourceObject → SourceObject} (h : ∀ o ∈ s.objects, f o = o) :
    s.mapObjects f = s := by
  rw [Store.mapObjects, List.map_congr_left h, List.map_id']

theorem mapEntities_eq_self {f : Entity → Entity} (h : ∀ e ∈ s.entities, f e = e) :
    s.mapEntities f = s := by
  rw [Store.mapEntities, List.map_congr_left h, List.map_id']

theorem mapObjects_congr {f g : SourceObject → SourceObject} (h : ∀ o ∈ s.objects, f o = g o) :
    s.mapObjects f = s.mapObjects g := by rw [Store.mapObjects, Store.mapObjects, List.map_congr_left h]

theorem Frame.mapRecords (h : Frame rt s t) (f : SourceRecord → SourceRecord) :
    Frame rt (s.mapRecords f) (t.mapRecords f) := { h with records := congrArg (List.map f) h.records }

theorem Frame.mapEntities (h : Frame rt s t) (f : Entity → Entity) :
    Frame rt (s.mapEntities f) (t.mapEntities f) := { h with entities := congrArg (List.map f) h.entities }

theorem Frame.mapObjects (h : Frame rt s t) (f : SourceObject → SourceObject) :
    Frame rt (s.mapObjects f) (t.mapObjects f) := { h with objects := congrArg (List.map f) h.objects }

theorem filter_append_of_not {α : Type} {p : α → Bool} {xs : List α} {x : α} (h : p x = false) :
    (xs ++ [x]).filter p = xs.filter p := by simp [h]

theorem insertTask_rows {task : ReviewTask} : SameRows rt s (s.insertTask task) :=
  ⟨rfl, rfl, rfl, rfl, rfl, .refl, Nat.le_succ _⟩

theorem insertBlocks_rows {blocks : List CandidateBlock} : SameRows rt s (s.insertBlocks blocks) :=
  ⟨rfl, rfl, rfl, rfl, rfl, .refl, Nat.le_succ _⟩

theorem insertTask_frame {task : ReviewTask} (h : task.kind ≠ .duplicateMatch)
    (hid : task.id = rt.uid s.drawn) : Frame rt s (s.insertTask task) :=
  ⟨⟨⟨insertTask_rows, rfl, .append h⟩, rfl, rfl⟩, rfl, rfl, rfl, rfl, rfl, rfl,
    [s.drawn], by simp [Store.insertTask, hid], by simp, by simp [Store.insertTask]⟩

theorem modifyTask_frame {id : Id} {f : ReviewTask → ReviewTask}
    (hp : ∀ t, (f t).payload = t.payload) (he : ∀ t, (f t).entityId = t.entityId)
    (hid : ∀ t, (f t).id = t.id) : Frame rt s (s.modifyTask id f) := by
  refine ⟨⟨⟨⟨rfl, rfl, rfl, rfl, rfl, .refl, le_rfl⟩, rfl, .modify hp he⟩, rfl, rfl⟩,
    rfl, rfl, rfl, rfl, rfl, rfl, ?_⟩
  rw [show (s.modifyTask id f).tasks.map ReviewTask.id = s.tasks.map ReviewTask.id from
    Table.map_key_modify hid]
  exact .refl

theorem insertMaster_frame {m : MasterVersion} (h : m.status = .draft)
    (hid : m.id = rt.uid s.drawn) : Frame rt s (s.insertMaster m) where
  workspaces := rfl
  records := rfl
  entities := rfl
  objects := rfl
  metas := rfl
  masterIds := ⟨[s.drawn], by simp [Store.insertMaster, hid], by simp, by simp [Store.insertMaster]⟩
  drawn := Nat.le_succ _
  cannotLinks := rfl
  tasks := .refl _
  approved := filter_append_of_not (by simp [h])
  published := rfl
  runs := rfl
  jobs := rfl
  configurations := rfl
  blocks := rfl
  domains := rfl
  sources := rfl
  taskIds := .refl

theorem insertEvent_frame {e : OutboxEvent} (h : e.eventType ≠ "master.approved") :
    Frame rt s (s.insertEvent e) :=
  ⟨⟨⟨⟨rfl, rfl, rfl, rfl, rfl, .refl, Nat.le_succ _⟩, rfl, .refl _⟩, rfl,
    filter_append_of_not (by simp [h])⟩, rfl, rfl, rfl, rfl, rfl, rfl, .refl⟩

theorem insertMembership_frame {m : MembershipHistory} : Frame rt s (s.insertMembership m) :=
  ⟨⟨⟨⟨rfl, rfl, rfl, rfl, rfl, .refl, Nat.le_succ _⟩, rfl, .refl _⟩, rfl, rfl⟩, rfl, rfl, rfl, rfl, rfl, rfl,
    .refl⟩

namespace MasteringService

variable (self)

theorem audit_frame (action objectType objectId : String) (detail : Dict) :
    Frame self.rt s (self.audit s action objectType objectId detail) :=
  ⟨⟨⟨⟨rfl, rfl, rfl, rfl, rfl, .refl, Nat.le_succ _⟩, rfl, .refl _⟩, rfl, rfl⟩, rfl, rfl, rfl, rfl, rfl, rfl,
    .refl⟩

theorem closeMembership_frame (objectId : Id) : Frame self.rt s (self.closeMembership s objectId) := by
  unfold closeMembership
  split
  · exact ⟨⟨⟨⟨rfl, rfl, rfl, rfl, rfl, .refl, le_rfl⟩, rfl, .refl _⟩, rfl, rfl⟩, rfl, rfl, rfl, rfl, rfl, rfl,
      .refl⟩
  · exact .refl s

theorem staleApproval_frame (entityId : Id) : Frame self.rt s (self.staleApproval s entityId) := by
  unfold staleApproval
  split
  · exact modifyTask_frame (fun _ => rfl) (fun _ => rfl) fun _ => rfl
  · exact .refl s

end MasteringService

end Recordlane
