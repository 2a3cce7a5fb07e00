import Recordlane.Resolving

/-! What one round of the observation loop does to a store. -/
namespace Recordlane

variable {self : MasteringService} {s s' t : Store} {source : Source} {domainKey localId : String}
  {policy : CompiledPolicy} {o : SourceObject} {r : SourceRecord} {item : IncomingRecord}
  {blockKeys : List String} {v : Verdict}

/-- What a round does to the entities. -/
inductive EntityChange
  | keep
  | bump (id : Id)
  | insert (e : Entity)

namespace Store

def changeEntities (s : Store) : EntityChange → Store
  | .keep => s
  | .bump id => s.mapEntities (Recordlane.bump id)
  | .insert e => s.insertEntity e

def openTask (s : Store) : Option ReviewTask → Store
  | none => s
  | some task => s.insertTask task

/-- The observation is stored with its metadata and its block keys. -/
def observed (svc : MasteringService) (s : Store) (o : SourceObject) (r : SourceRecord)
    (item : IncomingRecord) (blockKeys : List String) : Store :=
  ((s.insertRecord r).insertMeta {
    recordId := r.id
    sourceObjectId := o.id
    payloadHash := svc.payloadHash item
    sourceSequence := item.sequence
    updateMode := item.updateMode }).insertBlocks (blockKeys.map fun blockKey => {
      workspaceId := svc.wid
      domainKey := r.domainKey
      sourceObjectId := o.id
      recordId := r.id
      blockKey := blockKey })

end Store

/-- The object after a round that stored the record and, where it was resolved, found the target. -/
def SourceObject.after (o : SourceObject) (item : IncomingRecord) (recordId : Id)
    (target : Option Id) : Verdict → SourceObject
  | .duplicate => o
  | .quarantined | .outOfOrder => { o with latestRecordId := some recordId }
  | .retired =>
    { o with
      latestRecordId := some recordId
      currentSequence := item.sequence
      currentEffectiveFrom := item.effectiveFrom
      currentRecordId := none
      retired := true }
  | .updated =>
    { o with
      latestRecordId := some recordId
      currentSequence := item.sequence
      currentEffectiveFrom := item.effectiveFrom
      currentRecordId := some recordId
      retired := false }
  | .resolved _ =>
    { o with
      latestRecordId := some recordId
      currentSequence := item.sequence
      currentEffectiveFrom := item.effectiveFrom
      currentRecordId := some recordId
      retired := false
      entityId := target }

/-- What a round found out: the evaluation, the entity its record belongs to, the changes. -/
structure Findings where
  evaluation : Evaluation
  attached : Option Id
  change : EntityChange
  target : Option Id
  task : Option ReviewTask

/-- The record a round stores. -/
def Findings.record (svc : MasteringService) (s : Store) (source : Source) (domainKey : String)
    (o : SourceObject) (item : IncomingRecord) (d : Findings) : SourceRecord :=
  { svc.newRecord s source domainKey o item d.evaluation with entityId := d.attached }

/-- The store once a round has stored its record and changed the entities. -/
def Store.stored (svc : MasteringService) (s : Store) (source : Source) (domainKey : String)
    (o : SourceObject) (item : IncomingRecord) (d : Findings) : Store :=
  ((s.observed svc o (d.record svc s source domainKey o item) item
    d.evaluation.blockKeys).changeEntities d.change).openTask d.task

/-- The store a round leaves behind, up to drafts and history. -/
def Store.round (svc : MasteringService) (s : Store) (source : Source) (domainKey : String)
    (o : SourceObject) (item : IncomingRecord) (v : Verdict) (d : Findings) : Store :=
  (s.stored svc source domainKey o item d).modifyObject o.id fun row =>
    row.after item (svc.fresh s) d.target v

/-- The store in which a new object is resolved. -/
def Store.resolving (svc : MasteringService) (s : Store) (source : Source) (domainKey : String)
    (o : SourceObject) (item : IncomingRecord) (e : Evaluation) : Store :=
  (s.observed svc o (svc.newRecord s source domainKey o item e) item e.blockKeys).modifyObject o.id
    fun row => row.after item (svc.fresh s) none .updated

/-- A match task asks about the resolved object and a member of the target entity. -/
structure AsksMatch (svc : MasteringService) (s : Store) (o : SourceObject) (entityId : Id)
    (task : ReviewTask) : Prop where
  id : task.id = svc.rt.uid (s.drawn + 4)
  entity : task.entityId = some entityId
  payload : ∃ leftRecord rightRecord right target bound evidence, task.payload =
    .duplicateMatch leftRecord rightRecord (some o.id) (some right) target bound evidence ∧
      ∃ c ∈ s.objects, c.id = right ∧ c.entityId = some target

/-- The entity a resolution makes: three rows are inserted before it. -/
def MasteringService.newEntity (svc : MasteringService) (s : Store) (domainKey : String) : Entity :=
  ⟨svc.rt.uid (s.drawn + 3), svc.wid, domainKey, .candidate, 1⟩

/-- Which findings fit a verdict. -/
inductive Fits (svc : MasteringService) (s : Store) (source : Source) (domainKey : String)
    (policy : CompiledPolicy) (o : SourceObject) (item : IncomingRecord) (d : Findings) :
    Verdict → Prop
  | quarantined (hq : d.evaluation.qualityErrors ≠ []) (hc : d.change = .keep) (ht : d.task = none) :
      Fits svc s source domainKey policy o item d .quarantined
  | outOfOrder (hq : d.evaluation.qualityErrors = []) (hn : observationIsCurrent o item = false)
      (hc : d.change = .keep) (ht : d.task = none) :
      Fits svc s source domainKey policy o item d .outOfOrder
  | retiredFree (hq : d.evaluation.qualityErrors = []) (hn : observationIsCurrent o item = true)
      (hd : item.deleted = true) (he : o.entityId = none) (hc : d.change = .keep)
      (ht : d.task = none) : Fits svc s source domainKey policy o item d .retired
  | retired {x : Id} (hq : d.evaluation.qualityErrors = []) (hn : observationIsCurrent o item = true)
      (hd : item.deleted = true) (he : o.entityId = some x) (hc : d.change = .bump x)
      (ht : d.task = none) : Fits svc s source domainKey policy o item d .retired
  | updated {x : Id} (hq : d.evaluation.qualityErrors = []) (hn : observationIsCurrent o item = true)
      (hd : item.deleted = false) (he : o.entityId = some x) (hc : d.change = .bump x)
      (ht : d.task = none) : Fits svc s source domainKey policy o item d .updated
  | linked {x : Id} (hq : d.evaluation.qualityErrors = []) (hn : observationIsCurrent o item = true)
      (hd : item.deleted = false) (he : o.entityId = none) (hx : ∃ e ∈ s.entities, e.id = x)
      (hm : ∃ c ∈ s.objects, c.entityId = some x)
      (hs : svc.clusterConflict policy (svc.newRecord s source domainKey o item d.evaluation)
        (svc.currentRecords (s.resolving svc source domainKey o item d.evaluation) x) = .ok false)
      (hc : d.change = .bump x) (htarget : d.target = some x) (ht : d.task = none) :
      Fits svc s source domainKey policy o item d (.resolved .linked)
  | created (hq : d.evaluation.qualityErrors = []) (hn : observationIsCurrent o item = true)
      (hd : item.deleted = false) (he : o.entityId = none)
      (hc : d.change = .insert (svc.newEntity s domainKey))
      (htarget : d.target = some (svc.newEntity s domainKey).id) (ht : d.task = none) :
      Fits svc s source domainKey policy o item d (.resolved .created)
  | review {task : ReviewTask} (hq : d.evaluation.qualityErrors = [])
      (hn : observationIsCurrent o item = true) (hd : item.deleted = false) (he : o.entityId = none)
      (hc : d.change = .insert (svc.newEntity s domainKey))
      (htarget : d.target = some (svc.newEntity s domainKey).id) (ht : d.task = some task)
      (ha : AsksMatch svc s o (svc.newEntity s domainKey).id task) :
      Fits svc s source domainKey policy o item d (.resolved .review)

/-- The entity that the record of a contribution belongs to is the one its object belongs to then. -/
def Findings.Attaches (d : Findings) (o : SourceObject) : Verdict → Prop
  | .updated => d.attached = o.entityId
  | .resolved _ => d.attached = d.target
  | .duplicate | .quarantined | .outOfOrder | .retired => True

/-- A round that stores an observation. -/
structure Round (svc : MasteringService) (s : Store) (source : Source) (domainKey : String)
    (policy : CompiledPolicy) (o : SourceObject) (item : IncomingRecord) (v : Verdict) (s' : Store)
    (d : Findings) : Prop where
  evaluated : svc.evaluate s policy o item = .ok d.evaluation
  fits : Fits svc s source domainKey policy o item d v
  attaches : d.Attaches o v
  frame : Frame svc.rt (s.round svc source domainKey o item v d) s'

theorem modifyObject_modifyObject {id : Id} {f g : SourceObject → SourceObject}
    (hf : ∀ o, (f o).id = o.id) :
    (s.modifyObject id f).modifyObject id g = s.modifyObject id (g ∘ f) := by
  simp only [Store.modifyObject, Table.modify_modify hf]

namespace MasteringService

theorem observed_attached {id : Id} {f : SourceObject → SourceObject} {x : Option Id}
    (hr : ∀ r' ∈ s.records, r'.id ≠ r.id) :
    ((s.observed self o r item blockKeys).modifyObject id f).modifyRecord r.id
      (fun r => { r with entityId := x }) =
      (s.observed self o { r with entityId := x } item blockKeys).modifyObject id f := by
  have hrecords : Table.modify SourceRecord.id (s.records ++ [r]) r.id
      (fun r => { r with entityId := x }) = s.records ++ [{ r with entityId := x }] :=
    Table.modify_append_new hr
  simp only [Store.observed, Store.modifyRecord, Store.modifyObject, Store.insertRecord,
    Store.insertMeta, Store.insertBlocks, hrecords]

theorem storeObservation_eq : self.storeObservation s o r item blockKeys =
    (s.observed self o r item blockKeys).modifyObject o.id fun row =>
      { row with latestRecordId := some r.id } := rfl

/-- The store once the observation is stored and the ordering state of its object written. -/
def tracked (self : MasteringService) (s : Store) (o : SourceObject) (r : SourceRecord)
    (item : IncomingRecord) (blockKeys : List String) : Store :=
  (self.storeObservation s o r item blockKeys).modifyObject o.id fun o =>
    { o with currentSequence := item.sequence, currentEffectiveFrom := item.effectiveFrom }

theorem tracked_modifyObject {f : SourceObject → SourceObject} :
    (self.tracked s o r item blockKeys).modifyObject o.id f =
      (s.observed self o r item blockKeys).modifyObject o.id fun row =>
        f { row with
          latestRecordId := some r.id
          currentSequence := item.sequence
          currentEffectiveFrom := item.effectiveFrom } := by
  rw [tracked, storeObservation_eq, modifyObject_modifyObject, modifyObject_modifyObject]
  · rfl
  · exact fun _ => rfl
  · exact fun _ => rfl

theorem tracked_attached {f : SourceObject → SourceObject} {x : Option Id}
    (hr : ∀ r' ∈ s.records, r'.id ≠ r.id) :
    ((self.tracked s o r item blockKeys).modifyObject o.id f).modifyRecord r.id
      (fun r => { r with entityId := x }) =
      (s.observed self o { r with entityId := x } item blockKeys).modifyObject o.id fun row =>
        f { row with
          latestRecordId := some r.id
          currentSequence := item.sequence
          currentEffectiveFrom := item.effectiveFrom } := by
  rw [tracked_modifyObject, observed_attached hr]

theorem retire_frame (hx : ∀ x, o.entityId = some x → (s.entity? x).isSome)
    (hr : self.retire s o r = .ok (s', v)) :
    v = .retired ∧ Frame self.rt
      (((s.modifyRecord r.id fun r => { r with entityId := o.entityId }).modifyObject o.id fun o =>
        { o with currentRecordId := none, retired := true }).changeEntities
          (o.entityId.elim .keep .bump)) s' := by
  unfold retire at hr
  dsimp only at hr
  split at hr
  · next entity hentity =>
    simp only [Except.bind_eq_ok, Except.pure_eq_ok, Prod.exists, Prod.mk.injEq] at hr
    obtain ⟨s₁, draft, hdraft, rfl, rfl⟩ := hr
    obtain ⟨x, ho, hfind⟩ := Option.bind_eq_some_iff.mp hentity
    obtain ⟨-, rfl⟩ := entity?_mem hfind
    rw [ho] at hdraft ⊢
    exact ⟨rfl, draftMaster_frame hdraft⟩
  · next hentity =>
    cases hr
    cases ho : o.entityId with
    | none => exact ⟨rfl, .refl _⟩
    | some x =>
      rw [ho] at hentity
      have hsome := hx x ho
      rw [show s.entity? x = none from hentity] at hsome
      cases hsome

theorem contribute_frame {x : Id} (ho : o.entityId = some x)
    (hr : self.contribute s o r policy blockKeys = .ok (s', v)) :
    v = .updated ∧ Frame self.rt
      (((s.modifyObject o.id fun o =>
        { o with currentRecordId := some r.id, retired := false }).modifyRecord r.id fun r =>
          { r with entityId := some x }).mapEntities (bump x)) s' := by
  unfold contribute at hr
  rw [ho] at hr
  dsimp only at hr
  split at hr
  · next entity hfind =>
    simp only [Except.bind_eq_ok, Except.pure_eq_ok, Prod.exists, Prod.mk.injEq] at hr
    obtain ⟨s₁, draft, hdraft, rfl, rfl⟩ := hr
    obtain ⟨-, rfl⟩ := entity?_mem hfind
    exact ⟨rfl, draftMaster_frame hdraft⟩
  · cases hr

theorem contribute_resolves (ho : o.entityId = none)
    (hr : self.contribute s o r policy blockKeys = .ok (s', v)) :
    ∃ s₁ x outcome, Resolves self
        (s.modifyObject o.id fun o => { o with currentRecordId := some r.id, retired := false })
        policy r o.id s₁ x outcome ∧ v = .resolved outcome ∧
      Frame self.rt ((s₁.mapObjects (attach [o.id] x)).modifyRecord r.id fun r =>
        { r with entityId := some x }) s' := by
  unfold contribute at hr
  rw [ho] at hr
  simp only [Except.bind_eq_ok, Except.pure_eq_ok, Prod.exists, Prod.mk.injEq] at hr
  obtain ⟨s₁, x, outcome, hres, s₂, draft, hdraft, rfl, rfl⟩ := hr
  refine ⟨s₁, x, outcome, resolve_resolves hres, rfl, ?_⟩
  have hmove : Frame self.rt (s₁.mapObjects (attach [o.id] x))
      (self.setMembership s₁ o x "initial_resolution") := setMembership_of_ne (by simp [ho])
  exact Frame.trans (hmove.mapRecords _) (draftMaster_frame hdraft)

theorem changeEntities_modifyObject {c : EntityChange} {id : Id} {f : SourceObject → SourceObject} :
    (s.modifyObject id f).changeEntities c = (s.changeEntities c).modifyObject id f := by
  cases c <;> rfl

theorem retire_round (h : Integrity self.rt self.workspace s) (ho : o ∈ s.objects)
    {e : Evaluation} (he : self.evaluate s policy o item = .ok e) (hq : e.qualityErrors = [])
    (hn : observationIsCurrent o item = true) (hd : item.deleted = true)
    (hr : self.retire (self.tracked s o (self.newRecord s source domainKey o item e) item
      e.blockKeys) o (self.newRecord s source domainKey o item e) = .ok (s', v)) :
    ∃ d, Round self s source domainKey policy o item v s' d := by
  have hfresh : ∀ r' ∈ s.records, r'.id ≠ (self.newRecord s source domainKey o item e).id :=
    fun r' hr' => (h.records r' hr').2.ne_uid
  obtain ⟨rfl, hf⟩ := retire_frame (fun x hx => by
    obtain ⟨e', -, -, hfind⟩ := h.attachedEntity ho hx
    exact Option.isSome_iff_exists.mpr ⟨e', hfind⟩) hr
  -- the record's entity is written before the object in the code, after it in the statement
  have hf : Frame self.rt
      ((((self.tracked s o (self.newRecord s source domainKey o item e) item e.blockKeys).modifyObject
        o.id fun o => { o with currentRecordId := none, retired := true }).modifyRecord
          (self.newRecord s source domainKey o item e).id fun r =>
            { r with entityId := o.entityId }).changeEntities (o.entityId.elim .keep .bump)) s' := hf
  rw [tracked_attached hfresh, changeEntities_modifyObject] at hf
  refine ⟨⟨e, o.entityId, o.entityId.elim .keep .bump, none, none⟩, he, ?_, trivial, hf⟩
  cases hx : o.entityId with
  | none => exact .retiredFree hq hn hd hx rfl rfl
  | some x => exact .retired hq hn hd hx rfl rfl

theorem contribute_round (h : Integrity self.rt self.workspace s) {x : Id}
    {e : Evaluation} (he : self.evaluate s policy o item = .ok e) (hq : e.qualityErrors = [])
    (hn : observationIsCurrent o item = true) (hd : item.deleted = false)
    (hx : o.entityId = some x)
    (hr : self.contribute (self.tracked s o (self.newRecord s source domainKey o item e) item
      e.blockKeys) o (self.newRecord s source domainKey o item e) policy e.blockKeys = .ok (s', v)) :
    ∃ d, Round self s source domainKey policy o item v s' d := by
  have hfresh : ∀ r' ∈ s.records, r'.id ≠ (self.newRecord s source domainKey o item e).id :=
    fun r' hr' => (h.records r' hr').2.ne_uid
  obtain ⟨rfl, hf⟩ := contribute_frame hx hr
  rw [tracked_attached hfresh] at hf
  exact ⟨⟨e, some x, .bump x, none, none⟩, he, .updated hq hn hd hx rfl rfl, hx.symm, hf⟩

theorem resolved_store {e : Evaluation} {c : EntityChange} {task : Option ReviewTask} {x : Id}
    {outcome : Resolution}
    (hfresh : ∀ r' ∈ s.records, r'.id ≠ (self.newRecord s source domainKey o item e).id) :
    ((((s.resolving self source domainKey o item e).changeEntities c).openTask task).mapObjects
      (attach [o.id] x)).modifyRecord (self.newRecord s source domainKey o item e).id
        (fun r => { r with entityId := some x }) =
      s.round self source domainKey o item (.resolved outcome) ⟨e, some x, c, some x, task⟩ := by
  have hcomm : ((((s.resolving self source domainKey o item e).changeEntities c).openTask
      task).mapObjects (attach [o.id] x)).modifyRecord (self.newRecord s source domainKey o item e).id
        (fun r => { r with entityId := some x }) =
      ((((s.resolving self source domainKey o item e).mapObjects (attach [o.id] x)).modifyRecord
        (self.newRecord s source domainKey o item e).id
          fun r => { r with entityId := some x }).changeEntities c).openTask task := by
    cases c <;> cases task <;> rfl
  rw [hcomm, attach_singleton, ← modifyObject_eq, Store.resolving, modifyObject_modifyObject,
    observed_attached hfresh]
  · cases c <;> cases task <;> rfl
  · exact fun _ => rfl

theorem mem_resolving {e : Evaluation} {c : SourceObject} {x : Id} (h : o.entityId = none)
    (hk : Table.Keyed SourceObject.id s.objects) (ho : o ∈ s.objects)
    (hc : c ∈ (s.resolving self source domainKey o item e).objects) (hx : c.entityId = some x) :
    c ∈ s.objects := by
  rcases Table.mem_modify.mp hc with ⟨hc, -⟩ | ⟨row, hrow, hid, rfl⟩
  · exact hc
  · rw [hk.eq_of_mem hrow ho hid] at hx
    rw [show (o.after item (self.fresh s) none .updated).entityId = o.entityId from rfl, h] at hx
    cases hx

theorem resolve_round (h : Integrity self.rt self.workspace s) (ho : o ∈ s.objects)
    {e : Evaluation} (he : self.evaluate s policy o item = .ok e) (hq : e.qualityErrors = [])
    (hn : observationIsCurrent o item = true) (hd : item.deleted = false) (hx : o.entityId = none)
    (hr : self.contribute (self.tracked s o (self.newRecord s source domainKey o item e) item
      e.blockKeys) o (self.newRecord s source domainKey o item e) policy e.blockKeys = .ok (s', v)) :
    ∃ d, Round self s source domainKey policy o item v s' d := by
  have hfresh : ∀ r' ∈ s.records, r'.id ≠ (self.newRecord s source domainKey o item e).id :=
    fun r' hr' => (h.records r' hr').2.ne_uid
  obtain ⟨s₁, x, outcome, hres, rfl, hf⟩ := contribute_resolves hx hr
  rw [tracked_modifyObject] at hres
  change Resolves self (s.resolving self source domainKey o item e) _ _ _ _ _ _ at hres
  cases hres with
  | @linked e' b hmem hb hbx hc =>
    refine ⟨⟨e, some e'.id, .bump e'.id, some e'.id, none⟩, he,
      .linked hq hn hd hx ⟨e', hmem, rfl⟩ ⟨b.object, mem_resolving hx h.objectIds ho hb hbx, hbx⟩ hc
        rfl rfl rfl, rfl, ?_⟩
    rw [← resolved_store hfresh]
    exact hf
  | created =>
    refine ⟨⟨e, some (self.newEntity s domainKey).id, .insert (self.newEntity s domainKey),
      some (self.newEntity s domainKey).id, none⟩, he,
      .created hq hn hd hx rfl rfl rfl, rfl, ?_⟩
    rw [← resolved_store hfresh]
    exact hf
  | @review e' b task hb hbx hid ht hp =>
    refine ⟨⟨e, some (self.newEntity s domainKey).id, .insert (self.newEntity s domainKey),
      some (self.newEntity s domainKey).id, some task⟩, he,
      .review hq hn hd hx rfl rfl rfl ⟨hid, ht, ⟨_, _, _, _, _, _, hp, b.object,
        mem_resolving hx h.objectIds ho hb hbx, rfl, hbx⟩⟩, rfl, ?_⟩
    rw [← resolved_store hfresh]
    exact hf

theorem observeNew_round (h : Integrity self.rt self.workspace s) (ho : o ∈ s.objects)
    (hn : self.observeNew s source domainKey policy o item = .ok (s', v)) :
    ∃ d, Round self s source domainKey policy o item v s' d := by
  unfold observeNew at hn
  rw [Except.bind_eq_ok] at hn
  obtain ⟨e, he, hn⟩ := hn
  have hfresh : ∀ r' ∈ s.records, r'.id ≠ (self.newRecord s source domainKey o item e).id :=
    fun r' hr' => (h.records r' hr').2.ne_uid
  dsimp only at hn
  split at hn
  · next hq =>
    cases hn
    exact ⟨⟨e, none, .keep, none, none⟩, he, .quarantined (by simpa using hq) rfl rfl, trivial,
      .refl _⟩
  · next hq =>
    have hq : e.qualityErrors = [] := by simpa using hq
    split at hn
    · next hc =>
      cases hn
      refine ⟨⟨e, o.entityId, .keep, none, none⟩, he, .outOfOrder hq (by simpa using hc) rfl rfl,
        trivial, ?_⟩
      rw [storeObservation_eq, observed_attached hfresh]
      exact .refl _
    · next hc =>
      have hc : observationIsCurrent o item = true := by simpa using hc
      split at hn
      · next hd => exact retire_round h ho he hq hc hd hn
      · next hd =>
        have hd : item.deleted = false := by simpa using hd
        cases hx : o.entityId with
        | none => exact resolve_round h ho he hq hc hd hx hn
        | some x => exact contribute_round h he hq hc hd hx hn

end MasteringService

end Recordlane
