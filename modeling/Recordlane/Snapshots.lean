import Recordlane.Governance

/-! What the snapshot hash covers of what a preview reads. -/
namespace Recordlane

variable {rt : Runtime} {w : Workspace} {self : MasteringService} {s s' t u : Store} {x : Id}
  {task : ReviewTask}

/-- What no operation changes of a source object. -/
def SourceObject.place (o : SourceObject) : Id × Id × String := (o.id, o.workspaceId, o.domainKey)

/-- What no operation changes of an entity. -/
def Entity.origin (e : Entity) : Id × Id × String := (e.id, e.workspaceId, e.domainKey)

/-- Rows are added, and what identifies the others stays, as does what a source has said. -/
structure Grows (s t : Store) : Prop where
  objects : s.objects.map SourceObject.place <+: t.objects.map SourceObject.place
  entities : s.entities.map Entity.origin <+: t.entities.map Entity.origin
  records : s.records.map SourceRecord.core <+: t.records.map SourceRecord.core

theorem prefix_of_eq {α : Type} {xs ys : List α} (h : xs = ys) : xs <+: ys := h ▸ List.prefix_rfl

theorem map_initial {α β : Type} {p : α → β} {f : α → α} {rows rows' new : List α}
    (h : rows' = rows.map f ++ new) (hf : ∀ r ∈ rows, p (f r) = p r) : rows.map p <+: rows'.map p := by
  have hkept : (rows.map f).map p = rows.map p := by
    rw [List.map_map]
    exact List.map_congr_left hf
  rw [h, List.map_append, hkept]
  exact List.prefix_append ..

theorem modifyObject_place {id : Id} {f : SourceObject → SourceObject} (hf : ∀ o, (f o).place = o.place) :
    (Table.modify SourceObject.id s.objects id f).map SourceObject.place =
      s.objects.map SourceObject.place := Table.map_modify hf

theorem attach_place {ids : List Id} {o : SourceObject} : (attach ids x o).place = o.place := by
  unfold attach
  split <;> rfl

theorem gather_place {ids : List Id} {o : SourceObject} : (gather ids x o).place = o.place := by
  unfold gather
  split <;> rfl

theorem bump_origin {e : Entity} : (bump x e).origin = e.origin := by
  unfold bump onRow
  split <;> rfl

theorem retireEntity_origin {ids : List Id} {e : Entity} : (retireEntity ids e).origin = e.origin := by
  unfold retireEntity
  split <;> rfl

theorem approveEntity_origin {e : Entity} : (approveEntity x e).origin = e.origin := by
  unfold approveEntity onRow
  split <;> rfl

theorem renormalize_core {id : Id} {normalized : Dict} {key : String} {r : SourceRecord} :
    (renormalize id normalized key r).core = r.core := by
  unfold renormalize onRow
  split <;> rfl

theorem after_place {o : SourceObject} {item : IncomingRecord} {rid : Id} {x : Option Id} {v : Verdict} :
    (o.after item rid x v).place = o.place := by
  unfold SourceObject.after
  split <;> rfl

namespace Grows

theorem refl (s : Store) : Grows s s := ⟨List.prefix_rfl, List.prefix_rfl, List.prefix_rfl⟩

theorem trans (h : Grows s t) (h' : Grows t u) : Grows s u :=
  ⟨h.objects.trans h'.objects, h.entities.trans h'.entities, h.records.trans h'.records⟩

theorem of_rows (h : SameRows rt s t) : Grows s t where
  objects := prefix_of_eq (congrArg _ h.objects.symm)
  entities := prefix_of_eq (congrArg _ h.entities.symm)
  records := prefix_of_eq (congrArg _ h.records.symm)

theorem mapObjects {f : SourceObject → SourceObject} (hf : ∀ o, (f o).place = o.place) :
    Grows s (s.mapObjects f) :=
  ⟨map_initial (List.append_nil _).symm fun o _ => hf o, List.prefix_rfl, List.prefix_rfl⟩

theorem mapEntities {f : Entity → Entity} (hf : ∀ e, (f e).origin = e.origin) :
    Grows s (s.mapEntities f) :=
  ⟨List.prefix_rfl, map_initial (List.append_nil _).symm fun e _ => hf e, List.prefix_rfl⟩

theorem mapRecords {g : SourceRecord → SourceRecord} (hg : ∀ r, (g r).core = r.core) :
    Grows s (s.mapRecords g) :=
  ⟨List.prefix_rfl, List.prefix_rfl, map_initial (List.append_nil _).symm fun r _ => hg r⟩

theorem insertEntity (e : Entity) : Grows s (s.insertEntity e) :=
  ⟨List.prefix_rfl, map_initial (f := id) (by rw [List.map_id]; rfl) fun _ _ => rfl, List.prefix_rfl⟩

theorem merged {ids : List Id} : Grows s (s.merged ids x) := by
  refine (mapObjects fun _ => gather_place).trans (mapEntities fun e => ?_)
  rw [Function.comp_apply, bump_origin, retireEntity_origin]

theorem split {ids : List Id} {new : Entity} : Grows s (s.split ids x new) :=
  ((insertEntity new).trans (mapObjects fun _ => attach_place)).trans (mapEntities fun _ => bump_origin)

theorem changeEntities (c : EntityChange) : Grows s (s.changeEntities c) := by
  cases c with
  | keep => exact .refl s
  | bump id => exact mapEntities fun _ => bump_origin
  | insert e => exact insertEntity e

end Grows

theorem Opens.grows {source : Source} {domainKey localId : String} {o : SourceObject}
    (h : Opens self s source domainKey localId t o) : Grows s t := by
  cases h with
  | known => exact .refl s
  | new =>
    exact ⟨map_initial (f := id) (by rw [List.map_id]; rfl) fun _ _ => rfl, List.prefix_rfl,
      List.prefix_rfl⟩

theorem Round.grows {source : Source} {domainKey : String} {policy : CompiledPolicy}
    {o : SourceObject} {item : IncomingRecord} {v : Verdict} {d : Findings}
    (h : Round self s source domainKey policy o item v t d) : Grows s t := by
  constructor
  · refine prefix_of_eq (Eq.symm ?_)
    rw [h.objects, modifyObject_place fun _ => after_place]
  · rw [h.entities]
    exact (Grows.changeEntities d.change).entities
  · rw [h.records]
    exact map_initial (f := id) (by rw [List.map_id]) fun _ _ => rfl

theorem Page.grows {req : IngestRequest} (p : Page self s req)
    (h : Integrity self.rt self.workspace s) : Grows s p.finished := by
  refine (p.invariant (P := Grows s) h (.refl s) (fun _ _ hq hg => hg.trans (.of_rows hq.toSameRows))
    fun u u' item v _ hi hg ho => ?_).2
  refine MasteringService.observe_invariant hi hg (fun _ _ hopen => hg.trans hopen.grows) ?_ ho
  intro t o d _ ht _ hround
  exact ht.trans hround.grows

theorem DecisionEffect.grows {d : Decision} (h : DecisionEffect self s task d t) : Grows s t := by
  cases h with
  | quiet _ hq => exact .of_rows hq.toSameRows
  | approveMaster _ ha =>
    exact (Grows.mapEntities fun _ => approveEntity_origin).trans (.of_rows ha.kept.toSameRows)
  | merge _ _ _ _ _ hf => exact Grows.merged.trans (.of_rows hf.toSameRows)
  | split _ _ _ _ _ _ _ _ hf => exact Grows.split.trans (.of_rows hf.toSameRows)
  | link _ _ _ _ _ hf => exact Grows.merged.trans (.of_rows hf.toSameRows)
  | keepApart _ _ _ hf =>
    refine .of_rows (SameRows.trans ?_ hf.toSameRows)
    exact ⟨rfl, rfl, rfl, rfl, rfl, .refl, Nat.le_succ _⟩

theorem RequestEffect.grows {request : Request} (he : RequestEffect rt w s request t)
    (h : Integrity rt w s) : Grows s t := by
  cases he with
  | quiet hq => exact .of_rows hq.toSameRows
  | page _ p => exact p.grows h
  | decision _ hd => exact hd.grows
  | job hj =>
    exact MasteringService.runJob_invariant (P := Grows s) (.refl s)
      (fun _ _ hq hg => hg.trans (.of_rows hq.toSameRows))
      (fun _ _ _ _ hg => hg.trans (.mapRecords fun _ => renormalize_core))
      (fun _ _ hg => hg.trans (.mapEntities fun _ => bump_origin)) hj

theorem next_grows (hi : Integrity rt w s) (hr : Registered rt s) (op : Operation) :
    Grows s ((operations rt).next s op) := by
  have hoperates := next_operates hi hr op
  generalize (operations rt).next s op = t at hoperates
  cases hoperates with
  | request request => exact (next_effect hi request).grows hi
  | refused => exact .refl s
  | imports _ h => exact .of_rows h.quiet.toSameRows
  | failed h =>
    obtain ⟨jobs, -, rfl⟩ := failJob_writes h
    exact ⟨List.prefix_rfl, List.prefix_rfl, List.prefix_rfl⟩

/-- What every state of the operations has: besides the sound references, definitions in their
canonical form. -/
structure Governed (rt : Runtime) (w : Workspace) (s : Store) : Prop where
  integrity : Integrity rt w s
  registered : Registered rt s
  canonical : ∀ d ∈ s.domains, d.definition.sortKeys = d.definition

theorem CanonicalOf.sorted {definition result : Json} (h : CanonicalOf rt definition result) :
    result.sortKeys = result := by
  obtain ⟨policy, -, rfl⟩ := h
  exact Json.sortKeys_sortKeys _

theorem Writes.sorted {op : Operation} {key : String} {definition : Json}
    (h : Writes rt w s op key definition) : definition.sortKeys = definition := by
  rcases h with hg | hr
  · cases hg with
    | created _ hc => exact hc.sorted
    | brought _ _ _ hc => exact hc.sorted
    | approved => exact Json.sortKeys_sortKeys _
  · cases hr with
    | replaced _ _ hc => exact hc.sorted

theorem Governed.next (h : Governed rt w s) (op : Operation) :
    Governed rt w ((operations rt).next s op) := by
  obtain ⟨hi, hr⟩ := next_sound h.integrity h.registered op
  refine ⟨hi, hr, fun d hd => ?_⟩
  rcases (next_redefines h.integrity h.registered op).origin d hd with ⟨-, hw⟩ | ⟨d', hd', -, -, he⟩
  · exact hw.sorted
  · rw [← he]
    exact h.canonical d' hd'

theorem Governed.run (h : Governed rt w s) (ops : List Operation) :
    Governed rt w ((operations rt).run s ops) ∧ Grows s ((operations rt).run s ops) := by
  refine (operations rt).run_invariant (P := fun t => Governed rt w t ∧ Grows s t) ⟨h, .refl s⟩
    ((operations rt).along_of_forall (fun _ _ => trivial) ops) ?_
  intro t op ⟨ht, hg⟩ (_ : True)
  exact ⟨ht.next op, hg.trans (next_grows ht.integrity ht.registered op)⟩

theorem governed_empty : Governed rt w (Store.empty w) := by
  refine ⟨integrity_empty, ?_, fun d hd => ?_⟩
  · constructor <;> simp [Store.empty, Table.Keyed]
  · cases hd

/-! The document that is hashed, and what two equal ones say. -/

/-- What a snapshot shows of a source object. -/
def SourceObject.shown (o : SourceObject) : Id × Option Id × Option Id × Option Id × Bool :=
  (o.id, o.currentRecordId, o.latestRecordId, o.entityId, o.retired)

/-- What a snapshot shows of an entity. -/
def Entity.shown (e : Entity) : Id × Nat × EntityStatus := (e.id, e.version, e.status)

def objectRow (v : Id × Option Id × Option Id × Option Id × Bool) : Json :=
  .arr [.str v.1, optionJson v.2.1, optionJson v.2.2.1, optionJson v.2.2.2.1, .bool v.2.2.2.2]

def entityRow (v : Id × Nat × EntityStatus) : Json :=
  .arr [.str v.1, .int v.2.1, .str (MasteringService.statusName v.2.2)]

def pairRow (v : Id × Id) : Json := .arr [.str v.1, .str v.2]

namespace MasteringService

/-- The document whose hash is the snapshot hash. -/
def snapshot (self : MasteringService) (s : Store) : Json :=
  .obj [
    ("objects", .arr ((((s.objects.filter fun o => o.workspaceId = self.wid).insertionSort fun a b =>
      a.id ≤ b.id).map SourceObject.shown).map objectRow)),
    ("entities", .arr ((((s.entities.filter fun e => e.workspaceId = self.wid).insertionSort fun a b =>
      a.id ≤ b.id).map Entity.shown).map entityRow)),
    ("constraints", .arr ((((s.cannotLinks.filter fun c => c.workspaceId = self.wid).insertionSort
      fun a b => a.id ≤ b.id).map fun c => (c.leftObjectId, c.rightObjectId)).map pairRow)),
    ("domains", .arr ((((s.domains.filter fun d => d.workspaceId = self.wid).insertionSort
      fun a b => a.key ≤ b.key).map fun d => (d.key, canonicalHash self.rt d.definition)).map pairRow))]

theorem snapshotHash_eq : self.snapshotHash s = canonicalHash self.rt (self.snapshot s) := by
  unfold snapshotHash snapshot
  simp only [List.map_map]
  rfl

end MasteringService

theorem optionJson_sorted (v : Option Id) : (optionJson v).sortKeys = optionJson v := by
  cases v <;> rfl

theorem optionJson_injective : Function.Injective optionJson := by
  intro a b h
  cases a <;> cases b <;> simp_all [optionJson]

theorem objectRow_injective : Function.Injective objectRow := by
  rintro ⟨id, current, latest, entity, retired⟩ ⟨id', current', latest', entity', retired'⟩ h
  simpa [objectRow, optionJson_injective.eq_iff] using h

theorem statusName_injective : Function.Injective MasteringService.statusName := by
  intro a b h
  cases a <;> cases b <;> first | rfl | (exfalso; revert h; decide)

theorem entityRow_injective : Function.Injective entityRow := by
  rintro ⟨id, version, status⟩ ⟨id', version', status'⟩ h
  simpa [entityRow, statusName_injective.eq_iff] using h

theorem pairRow_injective : Function.Injective pairRow := by
  rintro ⟨left, right⟩ ⟨left', right'⟩ h
  simpa [pairRow] using h

theorem rows_eq {α : Type} {row : α → Json} {xs ys : List α} (hi : Function.Injective row)
    (hs : ∀ a, (row a).sortKeys = row a)
    (h : (Json.arr (xs.map row)).sortKeys = (Json.arr (ys.map row)).sortKeys) : xs = ys := by
  have hrows : ∀ zs : List α, (zs.map row).map Json.sortKeys = zs.map row := by
    intro zs
    rw [List.map_map]
    exact List.map_congr_left fun a _ => hs a
  rw [Json.sortKeys, Json.sortKeys, Json.sortKeysList_eq_map, Json.sortKeysList_eq_map, hrows, hrows,
    Json.arr.injEq] at h
  exact List.map_injective_iff.mpr hi h

theorem perm_of_sorted {α β : Type} {le : α → α → Prop} [DecidableRel le] {p : α → Bool} {f : α → β}
    {rows rows' : List α} (hp : ∀ r ∈ rows, p r = true) (hp' : ∀ r ∈ rows', p r = true)
    (h : ((rows.filter p).insertionSort le).map f = ((rows'.filter p).insertionSort le).map f) :
    (rows.map f).Perm (rows'.map f) := by
  rw [List.filter_eq_self.mpr hp, List.filter_eq_self.mpr hp'] at h
  have hperm := ((List.perm_insertionSort le rows).map f).symm
  rw [h] at hperm
  exact hperm.trans ((List.perm_insertionSort le rows').map f)

namespace MasteringService

/-- What two stores of one snapshot have in common. -/
structure SameSnapshot (svc : MasteringService) (s t : Store) : Prop where
  objects : (s.objects.map SourceObject.shown).Perm (t.objects.map SourceObject.shown)
  entities : (s.entities.map Entity.shown).Perm (t.entities.map Entity.shown)
  apart : ∀ left right, svc.isCannotLink t left right = svc.isCannotLink s left right
  domains : ∀ key, (svc.domain? t key).map (fun d => canonicalHash svc.rt d.definition) =
    (svc.domain? s key).map fun d => canonicalHash svc.rt d.definition

theorem isCannotLink_eq {left right : Id} : self.isCannotLink s left right =
    (((s.cannotLinks.filter fun c => c.workspaceId = self.wid).insertionSort fun a b =>
      a.id ≤ b.id).map fun c => (c.leftObjectId, c.rightObjectId)).contains (sortedPair left right) := by
  rw [Bool.eq_iff_iff, List.contains_iff_mem, List.mem_map, isCannotLink, List.any_eq_true]
  refine exists_congr fun c => ?_
  simp only [List.mem_insertionSort, List.mem_filter, Bool.and_eq_true, decide_eq_true_eq, Prod.ext_iff]
  tauto

theorem domain?_hash {key : String} :
    (self.domain? s key).map (fun d => canonicalHash self.rt d.definition) =
      ((((s.domains.filter fun d => d.workspaceId = self.wid).insertionSort fun a b =>
        a.key ≤ b.key).map fun d => (d.key, canonicalHash self.rt d.definition)).find?
          fun p => p.1 = key).map Prod.snd := by
  have hfind : Table.find Domain.key ((s.domains.filter fun d => d.workspaceId = self.wid).insertionSort
      fun a b => a.key ≤ b.key) key = Table.find Domain.key (s.domains.filter fun d =>
        d.workspaceId = self.wid) key :=
    Table.find_sort (fun a b : String => a ≤ b) String.le_refl
  rw [List.find?_map, Option.map_map]
  change _ = (Table.find Domain.key _ key).map _
  rw [hfind, Table.find, List.find?_filter]
  simp only [decide_eq_true_eq, Bool.decide_and]
  rfl

theorem sameSnapshot (hs : Integrity self.rt self.workspace s) (ht : Integrity self.rt self.workspace t)
    (h : (self.snapshot s).sortKeys = (self.snapshot t).sortKeys) : self.SameSnapshot s t := by
  unfold snapshot at h
  rw [Json.sortKeys_obj, Json.sortKeys_obj, Json.obj.injEq] at h
  have hrow : ∀ key, _ := fun key => congrArg (Dict.get? · key) h
  simp only [Dict.get?_sorted] at hrow
  have hobjects := rows_eq objectRow_injective (fun _ => by
    simp [objectRow, Json.sortKeys, Json.sortKeysList, optionJson_sorted])
    (Option.some.inj (hrow "objects"))
  have hentities := rows_eq entityRow_injective (fun _ => rfl) (Option.some.inj (hrow "entities"))
  have hpairs := rows_eq pairRow_injective (fun _ => rfl) (Option.some.inj (hrow "constraints"))
  have hdomains := rows_eq pairRow_injective (fun _ => rfl) (Option.some.inj (hrow "domains"))
  refine ⟨perm_of_sorted ?_ ?_ hobjects, perm_of_sorted ?_ ?_ hentities, fun left right => ?_,
    fun key => ?_⟩
  · exact fun o ho => decide_eq_true (hs.objects o ho).1
  · exact fun o ho => decide_eq_true (ht.objects o ho).1
  · exact fun e he => decide_eq_true (hs.entities e he).1
  · exact fun e he => decide_eq_true (ht.entities e he).1
  · rw [isCannotLink_eq, isCannotLink_eq, ← hpairs]
  · rw [domain?_hash, domain?_hash, ← hdomains]

end MasteringService

/-! What a preview reads. -/

/-- What a preview shows of a source. -/
def Source.label (x : Source) : (Id × String × Int) × String := (x.rank, x.name)

/-- What a preview reads of a contribution and the snapshot leaves out: the stored normal form, and the
key, the priority and the name of the source. -/
structure Uncovered where
  normalized : Dict
  source : Option ((Id × String × Int) × String)
  deriving DecidableEq

namespace Store

/-- The source of a record, as a preview shows it. -/
def labelOf (s : Store) (r : SourceRecord) : Option ((Id × String × Int) × String) :=
  (s.sources.find? fun x => x.id = r.sourceId).map Source.label

def uncovered (s : Store) (o : SourceObject) : Option Uncovered :=
  (o.currentRecordId.bind s.record?).map fun r => ⟨r.normalized, s.labelOf r⟩

/-- What a preview reads of a source object. -/
def readsOf (s : Store) (o : SourceObject) :
    ((Id × Id × String) × (Id × Option Id × Option Id × Option Id × Bool)) × Option SourceRecord ×
      Option Uncovered :=
  ((o.place, o.shown), (o.currentRecordId.bind s.record?).map SourceRecord.core, s.uncovered o)

end Store

/-- The contributions have the same stored normal forms and the same sources in another store. -/
def SameUncovered (s t : Store) : Prop := ∀ o ∈ s.objects, t.uncovered o = s.uncovered o

instance (s t : Store) : Decidable (SameUncovered s t) :=
  inferInstanceAs (Decidable (∀ o ∈ s.objects, t.uncovered o = s.uncovered o))

/-- Two stores in which a preview reads the same. -/
structure Agrees (svc : MasteringService) (s t : Store) : Prop where
  objects : s.objects.map s.readsOf = t.objects.map t.readsOf
  entities : s.entities = t.entities
  apart : ∀ left right, svc.isCannotLink s left right = svc.isCannotLink t left right
  definitions : ∀ key, (svc.domain? s key).map Domain.definition =
    (svc.domain? t key).map Domain.definition
  members : ∀ x, (svc.currentRecords s x).map (fun r => (r.core, s.labelOf r)) =
    (svc.currentRecords t x).map fun r => (r.core, t.labelOf r)

theorem Agrees.symm (h : Agrees self s t) : Agrees self t s where
  objects := h.objects.symm
  entities := h.entities.symm
  apart left right := (h.apart left right).symm
  definitions key := (h.definitions key).symm
  members x := (h.members x).symm

theorem Grows.record? (h : Grows s t) (ht : Integrity rt w t) {id : Id} {r : SourceRecord}
    (hr : s.record? id = some r) : ∃ r', t.record? id = some r' ∧ r'.core = r.core := by
  obtain ⟨r', hr', hcore⟩ := List.mem_map.mp (h.records.subset (List.mem_map_of_mem (Table.find_mem hr)))
  have hid : r'.id = id := (SourceRecord.core_eq hcore).1.trans (Table.find_key hr)
  exact ⟨r', hid ▸ ht.recordIds.find_of_mem hr', hcore⟩

theorem SameUncovered.label (h : SameUncovered s t) (hg : Grows s t) (hs : Integrity rt w s)
    (ht : Integrity rt w t) {o : SourceObject} {r : SourceRecord} (ho : o ∈ s.objects)
    (hr : r ∈ s.records) (hcurrent : o.currentRecordId = some r.id) : t.labelOf r = s.labelOf r := by
  have hfound : s.record? r.id = some r := hs.recordIds.find_of_mem hr
  obtain ⟨r', hr', hcore⟩ := hg.record? ht hfound
  have hsame := h o ho
  simp only [Store.uncovered, hcurrent, Option.bind_some, hfound, hr', Option.map_some,
    Option.some.injEq, Uncovered.mk.injEq] at hsame
  have hsource : r'.sourceId = r.sourceId := (SourceRecord.core_eq hcore).2.2.2.1
  rw [← hsame.2, Store.labelOf, Store.labelOf, hsource]

namespace MasteringService

/-- What objects contribute of a record, seen through what a snapshot shows of them. -/
def joined (self : MasteringService) (shown : List (Id × Option Id × Option Id × Option Id × Bool))
    (x : Id) (r : SourceRecord) : List SourceRecord :=
  if r.workspaceId = self.wid ∧ r.state = .valid then
    (shown.filter fun v => v.2.1 = some r.id && !v.2.2.2.2 && v.2.2.2.1 = some x).map fun _ => r
  else []

theorem currentRecords_core : (self.currentRecords s x).map SourceRecord.core =
    (s.records.map SourceRecord.core).flatMap (self.joined (s.objects.map SourceObject.shown) x) := by
  unfold currentRecords
  induction s.records with
  | nil => rfl
  | cons r rows ih =>
    have hrow : self.joined (s.objects.map SourceObject.shown) x r.core =
        if r.workspaceId = self.wid ∧ r.state = .valid then
          (s.objects.filter (contributes r x)).map fun _ => r.core else [] := by
      unfold joined
      rw [List.filter_map, List.map_map]
      rfl
    rw [List.map_cons, List.flatMap_cons, hrow, ← ih, List.filter_cons]
    by_cases hvalid : r.workspaceId = self.wid ∧ r.state = .valid
    · simp [hvalid, List.flatMap_cons]
    · rw [if_neg hvalid, if_neg (by simpa using hvalid), List.nil_append]

theorem currentRecords_mem {r : SourceRecord} (h : r ∈ self.currentRecords s x) :
    r ∈ s.records ∧ ∃ o ∈ s.objects, o.currentRecordId = some r.id := by
  obtain ⟨r', hr', h⟩ := List.mem_flatMap.mp h
  obtain ⟨o, ho, rfl⟩ := List.mem_map.mp h
  rw [List.mem_filter] at hr' ho
  refine ⟨hr'.1, o, ho.1, ?_⟩
  have hcontributes := ho.2
  simp only [contributes, Bool.and_eq_true, decide_eq_true_eq] at hcontributes
  exact hcontributes.1.1

theorem sameContributions_of_shown (hs : Integrity self.rt self.workspace s)
    (ht : Integrity self.rt self.workspace t) (hg : Grows s t)
    (ho : s.objects.map SourceObject.shown = t.objects.map SourceObject.shown) :
    self.SameContributions s t x := by
  obtain ⟨new, hnew⟩ := hg.records
  unfold SameContributions
  rw [currentRecords_core, currentRecords_core, ← hnew, List.flatMap_append, ho]
  suffices hnone : new.flatMap (self.joined (t.objects.map SourceObject.shown) x) = [] by
    rw [hnone, List.append_nil]
  refine List.flatMap_eq_nil_iff.mpr fun r hr => ?_
  unfold joined
  split
  · rw [List.map_eq_nil_iff, List.filter_eq_nil_iff, ← ho]
    rintro v hv hcontributes
    obtain ⟨o, hmem, rfl⟩ := List.mem_map.mp hv
    simp only [SourceObject.shown, Bool.and_eq_true] at hcontributes
    obtain ⟨-, r', hr', hid, -⟩ := hs.currentRecord o hmem _ (of_decide_eq_true hcontributes.1.1)
    -- a contribution is a record of the first store, and the new ones have other identifiers
    have hids := ht.recordIds
    have hcores : t.records.map SourceRecord.id = (t.records.map SourceRecord.core).map SourceRecord.id := by
      rw [List.map_map]
      rfl
    rw [Table.Keyed, hcores, ← hnew, List.map_append, List.map_map] at hids
    refine List.disjoint_of_nodup_append hids ?_ (List.mem_map_of_mem hr)
    rw [← hid]
    exact List.mem_map_of_mem hr'
  · rfl

/-- Stores of one snapshot agree, if what the snapshot leaves out is the same. -/
theorem agrees (hs : Integrity self.rt self.workspace s) (ht : Integrity self.rt self.workspace t)
    (hg : Grows s t) (h : self.SameSnapshot s t) (hu : SameUncovered s t)
    (hd : ∀ key, (self.domain? s key).map Domain.definition =
      (self.domain? t key).map Domain.definition) : Agrees self s t := by
  have hobjects := ht.objectIds.aligned hg.objects h.objects (fun _ _ he => congrArg Prod.fst he)
    fun _ _ he => congrArg Prod.fst he
  have hentities := ht.entityIds.aligned hg.entities h.entities (fun _ _ he => congrArg Prod.fst he)
    fun _ _ he => congrArg Prod.fst he
  have hmap : ∀ {α β : Type} {f g : α → β} {xs ys : List α},
      List.Forall₂ (fun a b => f a = g b) xs ys → xs.map f = ys.map g := by
    intro α β f g xs ys hxy
    rw [← List.forall₂_eq_eq_eq, List.forall₂_map_left_iff, List.forall₂_map_right_iff]
    exact hxy
  have hshown : s.objects.map SourceObject.shown = t.objects.map SourceObject.shown :=
    hmap (hobjects.imp fun _ _ he => he.2.2)
  refine ⟨hmap (hobjects.imp ?_), ?_, fun left right => (h.apart left right).symm, hd, fun x => ?_⟩
  · rintro o o' ⟨ho, hplace, hface⟩
    have hcurrent : o'.currentRecordId = o.currentRecordId := by
      simp only [SourceObject.shown, Prod.mk.injEq] at hface
      exact hface.2.1.symm
    have huncovered : t.uncovered o' = s.uncovered o := by
      rw [← hu o ho, Store.uncovered, Store.uncovered, hcurrent]
    have hcore : (o'.currentRecordId.bind t.record?).map SourceRecord.core =
        (o.currentRecordId.bind s.record?).map SourceRecord.core := by
      rw [hcurrent]
      cases hid : o.currentRecordId with
      | none => rfl
      | some id =>
        obtain ⟨-, r, hr, rfl, -⟩ := hs.currentRecord o ho id hid
        have hfound : s.record? r.id = some r := hs.recordIds.find_of_mem hr
        obtain ⟨r', hr', hcore⟩ := hg.record? ht hfound
        rw [Option.bind_some, Option.bind_some, hfound, hr', Option.map_some, Option.map_some, hcore]
    rw [Store.readsOf, Store.readsOf, hplace, hface, huncovered, hcore]
  · rw [← List.forall₂_eq_eq_eq]
    refine hentities.imp ?_
    rintro ⟨id, workspaceId, domainKey, status, version⟩ ⟨id', workspaceId', domainKey', status', version'⟩
      ⟨-, horigin, hface⟩
    simp_all [Entity.origin, Entity.shown]
  · have hsame := self.sameContributions_of_shown hs ht hg hshown (x := x)
    have hrows : List.Forall₂ (fun r r' => r.core = r'.core) (self.currentRecords s x)
        (self.currentRecords t x) := by
      have heq := List.forall₂_eq_eq_eq ▸ hsame.symm
      rwa [List.forall₂_map_left_iff, List.forall₂_map_right_iff] at heq
    refine hmap ?_
    rw [List.forall₂_iff_zip] at hrows ⊢
    refine ⟨hrows.1, fun {r r'} hmem => ?_⟩
    have hcore := hrows.2 hmem
    obtain ⟨hr, hobject⟩ := currentRecords_mem (List.of_mem_zip hmem).1
    obtain ⟨o, ho, hcurrent⟩ := hobject
    have hsource : r.sourceId = r'.sourceId := (SourceRecord.core_eq hcore).2.2.2.1
    rw [hcore, ← hu.label hg hs ht ho hr hcurrent, Store.labelOf, Store.labelOf, hsource]

end MasteringService

/-! The same preview from what is read. -/

/-- The documents that a snapshot hash is made from. -/
def MasteringService.hashed (self : MasteringService) (s : Store) : List Json :=
  self.snapshot s :: s.domains.map Domain.definition

/-- The previews have the same impact; the entities may be listed in another order. -/
structure SamePreview (a b : PolicySimulation) : Prop where
  domain : a.domain = b.domain
  currentPolicy : a.currentPolicy = b.currentPolicy
  proposedPolicy : a.proposedPolicy = b.proposedPolicy
  datasetSize : a.datasetSize = b.datasetSize
  linkChanges : a.linkChanges = b.linkChanges
  masterChanges : a.masterChanges.Perm b.masterChanges
  validationChanges : a.validationChanges = b.validationChanges
  reviewWorkloadDelta : a.reviewWorkloadDelta = b.reviewWorkloadDelta

/-- Two simulations go through with the same impact, or both are refused. -/
def SameImpact : Py (Store × Simulation) → Py (Store × Simulation) → Prop
  | .ok (_, a), .ok (_, b) => List.Forall₂ SamePreview a.result.details b.result.details
  | .error _, .error _ => True
  | _, _ => False

/-- What a preview reads of two contributions is the same. -/
structure SameRow (a b : SourceObject × SourceRecord) : Prop where
  object : a.1.id = b.1.id
  original : a.2.original = b.2.original
  normalized : a.2.normalized = b.2.normalized

theorem orderedPairs_forall₂ {α : Type} {R : α → α → Prop} {xs ys : List α} (h : List.Forall₂ R xs ys) :
    List.Forall₂ (fun p q => R p.1 q.1 ∧ R p.2 q.2) (MasteringService.orderedPairs xs)
      (MasteringService.orderedPairs ys) := by
  induction h with
  | nil => exact .nil
  | cons hxy hrest ih =>
    refine List.rel_append ?_ ih
    rw [List.forall₂_map_left_iff, List.forall₂_map_right_iff]
    exact hrest.imp fun _ _ h => ⟨hxy, h⟩

theorem mapM_eq {α β : Type} {R : α → α → Prop} {f g : α → Py β} {xs ys : List α} {bs : List β}
    (h : xs.mapM f = .ok bs) (hxy : List.Forall₂ R xs ys) (hfg : ∀ x y, R x y → f x = g y) :
    ys.mapM g = .ok bs := by
  obtain ⟨cs, hcs, heq⟩ := Except.mapM_agree (R := Eq) h hxy fun x y b hr hb =>
    ⟨b, (hfg x y hr).symm.trans hb, rfl⟩
  rw [List.forall₂_eq_eq_eq] at heq
  rw [hcs, heq]

namespace MasteringService

variable {current proposed policy : CompiledPolicy} {key : String}

/-- The active objects of a domain in their order. -/
def activeObjects (self : MasteringService) (s : Store) (key : String) : List SourceObject :=
  (s.objects.filter fun o => o.workspaceId = self.wid && o.domainKey = key &&
    o.currentRecordId.isSome && !o.retired).insertionSort fun a b => a.id ≤ b.id

theorem activeObjects_reads : (self.activeObjects s key).map s.readsOf =
    ((s.objects.map s.readsOf).filter fun v => v.1.1.2.1 = self.wid && v.1.1.2.2 = key &&
      v.1.2.2.1.isSome && !v.1.2.2.2.2.2).insertionSort fun a b => a.1.1.1 ≤ b.1.1.1 := by
  rw [activeObjects, List.filter_map]
  exact List.map_insertionSort _ _ _ _ fun _ _ _ _ => Iff.rfl

theorem contributions_agree (h : Agrees self s t) {xs : List (SourceObject × SourceRecord)}
    (hxs : self.contributions s key = .ok xs) :
    ∃ ys, self.contributions t key = .ok ys ∧ List.Forall₂ SameRow xs ys := by
  have hrows : List.Forall₂ (fun o o' => s.readsOf o = t.readsOf o') (self.activeObjects s key)
      (self.activeObjects t key) := by
    have heq : (self.activeObjects s key).map s.readsOf = (self.activeObjects t key).map t.readsOf := by
      rw [activeObjects_reads, activeObjects_reads, h.objects]
    rwa [← List.forall₂_eq_eq_eq, List.forall₂_map_left_iff, List.forall₂_map_right_iff] at heq
  refine Except.mapM_agree hxs hrows ?_
  intro o o' row hread hrow
  simp only [Store.readsOf, SourceObject.place, SourceObject.shown, Store.uncovered, Prod.mk.injEq] at hread
  obtain ⟨⟨⟨hid, -, -⟩, -, -, -, -, -⟩, hcore, huncovered⟩ := hread
  split at hrow
  · next r hr =>
    cases hrow
    rw [hr, Option.map_some] at hcore huncovered
    obtain ⟨r', hr', hcores⟩ := Option.map_eq_some_iff.mp hcore.symm
    rw [hr', Option.map_some, Option.some.injEq, Uncovered.mk.injEq] at huncovered
    rw [hr']
    exact ⟨_, rfl, hid, (SourceRecord.core_eq hcores.symm).2.2.1, huncovered.1⟩
  · cases hrow

theorem simulatePair_agree (h : Agrees self s t) {left right left' right' : SourceObject × SourceRecord}
    (hl : SameRow left left') (hr : SameRow right right') :
    self.simulatePair s current proposed left right =
      self.simulatePair t current proposed left' right' := by
  unfold simulatePair
  rw [hl.object, hl.original, hl.normalized, hr.object, hr.original, hr.normalized, h.apart]

theorem simulateValidation_agree {row row' : SourceObject × SourceRecord} (h : SameRow row row') :
    self.simulateValidation current proposed row = self.simulateValidation current proposed row' := by
  unfold simulateValidation
  rw [h.object, h.original]

/-- A contender with the source it comes from. -/
def candidacy (c : Contender) : (Int × Int × SourceRecord) × (Id × String × Int) × String :=
  (c.core, c.source.label)

theorem provenanceOf_candidacy {field : String} {c c' : Contender} {n : Nat}
    (h : candidacy c = candidacy c') :
    self.provenanceOf policy field c n = self.provenanceOf policy field c' n := by
  obtain ⟨hcore, hlabel⟩ := Prod.mk.inj h
  simp only [Contender.core, SourceRecord.core, Prod.mk.injEq, SourceRecord.mk.injEq] at hcore
  obtain ⟨-, -, hid, -, -, -, -, hversion, -, -, -, hverification, -, -, hobserved, -⟩ := hcore
  simp only [Source.label, Source.rank, Prod.mk.injEq] at hlabel
  obtain ⟨⟨-, hkey, -⟩, hname⟩ := hlabel
  have hverified : isVerified c.record field = isVerified c'.record field := by
    rw [isVerified, isVerified, hverification]
  rw [provenanceOf, provenanceOf, hverified, hid, hversion, hobserved, hkey, hname]

theorem masterValues_agrees (h : Agrees self s t) {found : Dict × Dict}
    (hv : self.masterValues s x policy = .ok found) : self.masterValues t x policy = .ok found := by
  obtain ⟨values, provenance⟩ := found
  have hrows : List.Forall₂ (fun r r' => r.core = r'.core ∧ s.labelOf r = t.labelOf r')
      (self.currentRecords s x) (self.currentRecords t x) := by
    have heq := List.forall₂_eq_eq_eq ▸ h.members x
    rw [List.forall₂_map_left_iff, List.forall₂_map_right_iff] at heq
    exact heq.imp fun _ _ hr => Prod.mk.inj hr
  have hcontend : ∀ field r r' c, r.core = r'.core ∧ s.labelOf r = t.labelOf r' →
      contender s policy field r = .ok c →
      ∃ c', contender t policy field r' = .ok c' ∧ c.map candidacy = c'.map candidacy := by
    rintro field r r' c ⟨hcore, hlabel⟩ hc
    have hsources : ∀ y, (s.sources.find? fun y => y.id = r.sourceId) = some y →
        ∃ z, (t.sources.find? fun y => y.id = r'.sourceId) = some z ∧ z.rank = y.rank := by
      intro y hy
      rw [Store.labelOf, Store.labelOf, hy, Option.map_some, eq_comm, Option.map_eq_some_iff] at hlabel
      obtain ⟨z, hz, hsame⟩ := hlabel
      exact ⟨z, hz, congrArg Prod.fst hsame⟩
    obtain ⟨c', hc', halike⟩ := contender_alike hcore hsources hc
    refine ⟨c', hc', ?_⟩
    cases halike with
    | none => rfl
    | some hsame =>
      obtain ⟨hcores, hsource, hsource'⟩ := hsame
      rw [Store.labelOf, Store.labelOf, hsource, hsource', Option.map_some, Option.map_some,
        Option.some.injEq] at hlabel
      rw [Option.map_some, Option.map_some, candidacy, candidacy, hcores, hlabel]
  obtain ⟨provenance', hvalues, hprovenance⟩ := masterValues_of_views
    (fun _ _ hab => congrArg Prod.fst hab) (fun _ _ hr => hr.1) hrows hcontend hv
  rw [hvalues, hprovenance fun _ _ _ _ => provenanceOf_candidacy]

theorem simulateMaster_agree (h : Agrees self s t) {e : Entity} {change : Option MasterChange}
    (hc : self.simulateMaster s current proposed e = .ok change) :
    self.simulateMaster t current proposed e = .ok change := by
  unfold simulateMaster at hc ⊢
  rw [Except.bind_eq_ok] at hc ⊢
  obtain ⟨before, hbefore, hc⟩ := hc
  refine ⟨before, masterValues_agrees h hbefore, ?_⟩
  dsimp only at hc ⊢
  rw [Except.bind_eq_ok] at hc ⊢
  obtain ⟨after, hafter, hc⟩ := hc
  exact ⟨after, masterValues_agrees h hafter, hc⟩

theorem simulatePolicy_agree (h : Agrees self s t) {d d' : Domain} (hkey : d.key = d'.key)
    (hdefinition : d.definition = d'.definition) {a : PolicySimulation}
    (ha : self.simulatePolicy s d proposed = .ok a) :
    ∃ b, self.simulatePolicy t d' proposed = .ok b ∧ SamePreview a b := by
  unfold simulatePolicy at ha ⊢
  simp only [Except.bind_eq_ok, Except.pure_eq_ok] at ha ⊢
  obtain ⟨current, hcurrent, xs, hxs, links, hlinks, validations, hvalidations, masters, hmasters, rfl⟩ := ha
  obtain ⟨ys, hys, hrows⟩ := contributions_agree h hxs
  have hlinks' := mapM_eq hlinks (orderedPairs_forall₂ hrows)
    (g := fun p => self.simulatePair t current proposed p.1 p.2)
    fun p q hpq => simulatePair_agree h hpq.1 hpq.2
  have hvalidations' := mapM_eq hvalidations hrows fun _ _ => simulateValidation_agree
  have hscan := (self.rt.scan_perm s.drawn _).trans (self.rt.scan_perm t.drawn
    (s.entities.filter fun e => e.workspaceId = self.wid && e.domainKey = d.key &&
      e.status ≠ .merged)).symm
  obtain ⟨masters', hmasters', hperm⟩ := Except.mapM_perm hscan hmasters
  obtain ⟨masters'', hmasters'', hsame⟩ := Except.mapM_agree (R := Eq) (Q := Eq) hmasters'
    (List.forall₂_refl _) fun e e' change he hchange =>
      ⟨change, he ▸ simulateMaster_agree h hchange, rfl⟩
  rw [List.forall₂_eq_eq_eq] at hsame
  subst hsame
  rw [h.entities, hkey] at hmasters''
  rw [hkey] at hys
  refine ⟨_, ⟨current, hdefinition ▸ hcurrent, ys, hys, links, hlinks', validations, hvalidations',
    masters', hmasters'', rfl⟩, ?_⟩
  exact ⟨hkey, rfl, rfl, hrows.length_eq, rfl, hperm.filterMap id, rfl, rfl⟩

end MasteringService

namespace MasteringService

variable {key : String}

theorem configurationPolicies_agree (h : Agrees self s t) (document : Json) :
    self.configurationPolicies t document = self.configurationPolicies s document := by
  have hexists : ∀ key, self.domainExists t key = self.domainExists s key := by
    intro key
    have hsome := congrArg Option.isSome (h.definitions key)
    rw [Option.isSome_map, Option.isSome_map] at hsome
    exact hsome.symm
  have hsupplier : ∀ document, self.supplierPolicy t document = self.supplierPolicy s document := by
    intro document
    have hdefinition := h.definitions "supplier"
    unfold supplierPolicy
    refine bind_congr fun matching => ?_
    cases hs : self.domain? s "supplier" with
    | none =>
      rw [hs, Option.map_none, eq_comm, Option.map_eq_none_iff] at hdefinition
      rw [hdefinition]
    | some d =>
      rw [hs, Option.map_some, eq_comm, Option.map_eq_some_iff] at hdefinition
      obtain ⟨d', hd', hsame⟩ := hdefinition
      rw [hd']
      cases matching.get "supplier" with
      | obj matching =>
        dsimp only
        rw [hsame]
      | _ => rfl
  simp only [configurationPolicies, mappedPolicies, hexists, hsupplier]

/-- The preview of one policy of a configuration. -/
def previewOf (self : MasteringService) (t : Store) (entry : String × CompiledPolicy) :
    Py PolicySimulation :=
  match self.domain? t entry.1 with
  | some domain => self.simulatePolicy t domain entry.2
  | none => httpError 409 "configuration_domain_missing" [("domain", .str entry.1)]

theorem simulate_agree (h : Agrees self s t) {configId configId' : Id}
    {config config' : ConfigurationVersion} (hc : self.config? s configId = some config)
    (hc' : self.config? t configId' = some config') (hd : config.document = config'.document)
    {u : Store} {a : Simulation} (ha : self.simulate s configId = .ok (u, a)) :
    ∃ u' b, self.simulate t configId' = .ok (u', b) ∧
      List.Forall₂ SamePreview a.result.details b.result.details := by
  unfold simulate at ha ⊢
  rw [hc] at ha
  rw [hc']
  simp only [Except.bind_eq_ok, Except.pure_eq_ok, Prod.mk.injEq] at ha ⊢
  obtain ⟨policies, hpolicies, details, hdetails, -, rfl⟩ := ha
  obtain ⟨details', hdetails', hsame⟩ := Except.mapM_agree (Q := Eq) (R := SamePreview) hdetails
    (List.forall₂_refl _) (g := previewOf self t) (by
    rintro ⟨key, policy⟩ _ detail rfl hdetail
    have hdefinition := h.definitions key
    unfold previewOf
    dsimp only at hdetail ⊢
    split at hdetail
    · next d hd =>
      rw [hd, Option.map_some, eq_comm, Option.map_eq_some_iff] at hdefinition
      obtain ⟨d', hd', hsame⟩ := hdefinition
      rw [hd']
      refine simulatePolicy_agree h ?_ hsame.symm hdetail
      rw [(domain?_key hd).2, (domain?_key hd').2]
    · cases hdetail)
  rw [← hd, configurationPolicies_agree h]
  exact ⟨_, _, ⟨policies, hpolicies, details', hdetails', rfl, rfl⟩, hsame⟩

/-- Stores in which a preview reads the same have the same previews. -/
theorem sameImpact (h : Agrees self s t) {configId configId' : Id}
    {config config' : ConfigurationVersion} (hc : self.config? s configId = some config)
    (hc' : self.config? t configId' = some config') (hd : config.document = config'.document) :
    SameImpact (self.simulate s configId) (self.simulate t configId') := by
  cases ha : self.simulate s configId with
  | ok found =>
    obtain ⟨u, a⟩ := found
    obtain ⟨u', b, hb, hsame⟩ := simulate_agree h hc hc' hd ha
    rw [hb]
    exact hsame
  | error e =>
    cases hb : self.simulate t configId' with
    | error e' => trivial
    | ok found =>
      obtain ⟨u', b⟩ := found
      obtain ⟨u, a, ha', -⟩ := simulate_agree h.symm hc' hc hd.symm hb
      rw [ha] at ha'
      cases ha'

/-- Where the hash tells the documents apart, equal hashes are those of stores that agree. -/
theorem agrees_of_hash (hs : Governed self.rt self.workspace s) (ht : Governed self.rt self.workspace t)
    (hg : Grows s t) (hfree : CollisionFree self.rt (self.hashed s ++ self.hashed t))
    (hhash : self.snapshotHash s = self.snapshotHash t) (hu : SameUncovered s t) : Agrees self s t := by
  rw [snapshotHash_eq, snapshotHash_eq] at hhash
  have hsnapshot := sameSnapshot hs.integrity ht.integrity
    (hfree _ (by simp [hashed]) _ (by simp [hashed]) hhash)
  refine agrees hs.integrity ht.integrity hg hsnapshot hu fun key => ?_
  have hdomain := hsnapshot.domains key
  cases hd : self.domain? s key with
  | none =>
    rw [hd, Option.map_none, Option.map_eq_none_iff] at hdomain
    rw [hdomain]
  | some d =>
    rw [hd, Option.map_some, Option.map_eq_some_iff] at hdomain
    obtain ⟨d', hd', hsame⟩ := hdomain
    have hmem := (domain?_key hd).1
    have hmem' := (domain?_key hd').1
    have hsorted :=
      hfree d'.definition (List.mem_append_right _ (by simpa [hashed] using .inr ⟨d', hmem', rfl⟩))
      d.definition (List.mem_append_left _ (by simpa [hashed] using .inr ⟨d, hmem, rfl⟩)) hsame
    rw [hd', Option.map_some, Option.map_some, ← hs.canonical d hmem, ← ht.canonical d' hmem', hsorted]

end MasteringService

theorem governed_attained (h : Attained rt w s) : Governed rt w s := by
  obtain ⟨ops, rfl⟩ := h
  exact (governed_empty.run ops).1

/-- Whatever happens between two previews of one document: where the snapshot hash is the same, and with
it the stored normal forms and the sources that it leaves out, the impact is the same. -/
theorem snapshot_covers (hs : Attained rt w s) (ops : List Operation) {who who' : Principal}
    {configId configId' : Id} {config config' : ConfigurationVersion}
    (hhash : MasteringService.snapshotHash ⟨rt, who, w⟩ s =
      MasteringService.snapshotHash ⟨rt, who', w⟩ ((operations rt).run s ops))
    (hfree : CollisionFree rt (MasteringService.hashed ⟨rt, who, w⟩ s ++
      MasteringService.hashed ⟨rt, who, w⟩ ((operations rt).run s ops)))
    (hc : MasteringService.config? ⟨rt, who, w⟩ s configId = some config)
    (hc' : MasteringService.config? ⟨rt, who', w⟩ ((operations rt).run s ops) configId' = some config')
    (hd : config.document = config'.document)
    (hu : SameUncovered s ((operations rt).run s ops)) :
    SameImpact (MasteringService.simulate ⟨rt, who, w⟩ s configId)
      (MasteringService.simulate ⟨rt, who', w⟩ ((operations rt).run s ops) configId') := by
  have hgoverned := governed_attained hs
  obtain ⟨ht, hg⟩ := hgoverned.run ops
  have hagrees : Agrees ⟨rt, who, w⟩ s ((operations rt).run s ops) :=
    MasteringService.agrees_of_hash hgoverned ht hg hfree hhash hu
  exact MasteringService.sameImpact hagrees hc hc' hd

/-- How many entities each preview of a simulation changes. -/
def changedEntities : Py (Store × Simulation) → Option (List Nat)
  | .ok (_, a) => some (a.result.details.map fun p => p.masterChanges.length)
  | .error _ => none

theorem SameImpact.changedEntities_eq {a b : Py (Store × Simulation)} (h : SameImpact a b) :
    changedEntities a = changedEntities b := by
  cases a with
  | error e =>
    cases b with
    | error e' => rfl
    | ok _ => cases h
  | ok found =>
    cases b with
    | error e' => cases h
    | ok found' =>
      refine congrArg some ?_
      rw [← List.forall₂_eq_eq_eq, List.forall₂_map_left_iff, List.forall₂_map_right_iff]
      exact List.Forall₂.imp (fun _ _ hp => hp.masterChanges.length_eq) h

namespace Supplier

/-- Two sources that differ in a note, and a configuration that prefers the second one. -/
def preferringStore : Store :=
  (operations .plain).run (Store.empty workspace) ((setup ++ preferring).map .request)

theorem preferringStore_attained : Attained .plain workspace preferringStore := ⟨_, rfl⟩

/-- Another kind for a source, and a source more. -/
def rewired : List Operation := [
  .request (.replaceSource (steward "alice") "erp" "erp" "ERP" "sql" 100),
  .request (.createSource (steward "alice") "web" "Web" "api" 10)]

/-- A rank above the other source's. -/
def reranked : List Operation := [
  .request (.replaceSource (steward "alice") "erp" "erp" "ERP" "csv" 10)]

theorem snapshot_covers_rewired :
    SameImpact (master.simulate preferringStore (uid 23))
      (master.simulate ((operations .plain).run preferringStore rewired) (uid 23)) := by
  obtain ⟨hhash, hfree, hsome, hdocuments, huncovered⟩ :
      master.snapshotHash preferringStore =
        master.snapshotHash ((operations .plain).run preferringStore rewired) ∧
      CollisionFree .plain (master.hashed preferringStore ++
        master.hashed ((operations .plain).run preferringStore rewired)) ∧
      ((master.config? preferringStore (uid 23)).map ConfigurationVersion.document).isSome ∧
      (master.config? preferringStore (uid 23)).map ConfigurationVersion.document =
        (master.config? ((operations .plain).run preferringStore rewired) (uid 23)).map
          ConfigurationVersion.document ∧
      SameUncovered preferringStore ((operations .plain).run preferringStore rewired) := by
    decide +kernel
  obtain ⟨config, hc⟩ := Option.isSome_iff_exists.mp (Option.isSome_map.symm.trans hsome)
  rw [hc, Option.map_some, eq_comm, Option.map_eq_some_iff] at hdocuments
  obtain ⟨config', hc', hdocument⟩ := hdocuments
  exact snapshot_covers preferringStore_attained rewired hhash hfree hc hc' hdocument.symm huncovered

/-- The new rank of a source leaves the snapshot as it was, and changes the preview. -/
theorem snapshot_misses :
    Attained .plain workspace preferringStore ∧
      master.snapshotHash preferringStore =
        master.snapshotHash ((operations .plain).run preferringStore reranked) ∧
      CollisionFree .plain (master.hashed preferringStore ++
        master.hashed ((operations .plain).run preferringStore reranked)) ∧
      ((master.config? preferringStore (uid 23)).map ConfigurationVersion.document =
        (master.config? ((operations .plain).run preferringStore reranked) (uid 23)).map
          ConfigurationVersion.document) ∧
      ¬ SameImpact (master.simulate preferringStore (uid 23))
        (master.simulate ((operations .plain).run preferringStore reranked) (uid 23)) := by
  obtain ⟨hhash, hfree, hdocuments, hbefore, hafter⟩ :
      master.snapshotHash preferringStore =
        master.snapshotHash ((operations .plain).run preferringStore reranked) ∧
      CollisionFree .plain (master.hashed preferringStore ++
        master.hashed ((operations .plain).run preferringStore reranked)) ∧
      (master.config? preferringStore (uid 23)).map ConfigurationVersion.document =
        (master.config? ((operations .plain).run preferringStore reranked) (uid 23)).map
          ConfigurationVersion.document ∧
      changedEntities (master.simulate preferringStore (uid 23)) = some [0] ∧
      changedEntities (master.simulate ((operations .plain).run preferringStore reranked) (uid 23)) =
        some [1] := by
    decide +kernel
  refine ⟨preferringStore_attained, hhash, hfree, hdocuments, fun h => ?_⟩
  have heq := h.changedEntities_eq
  rw [hbefore, hafter] at heq
  cases heq

end Supplier

end Recordlane
