import Recordlane.Rounds

/-! The observation loop: objects are opened, duplicates skipped, rounds kept in order. -/
namespace Recordlane

variable {self : MasteringService} {s s' t : Store} {source : Source} {domainKey localId : String}
  {policy : CompiledPolicy} {o : SourceObject} {item : IncomingRecord} {v : Verdict} {d : Findings}
  {items : List IncomingRecord} {vs : List Verdict} {fault : Option Nat} {index : Nat}

/-- The object of a local key that is seen for the first time. -/
def MasteringService.newObject (svc : MasteringService) (s : Store) (source : Source)
    (domainKey localId : String) : SourceObject where
  id := svc.fresh s
  workspaceId := svc.wid
  sourceId := source.id
  domainKey := domainKey
  localId := localId
  entityId := none
  currentRecordId := none
  latestRecordId := none
  currentSequence := none
  currentEffectiveFrom := none
  retired := false

/-- The object a round works on: the one with its key, or a new one. -/
inductive Opens (svc : MasteringService) (s : Store) (source : Source) (domainKey localId : String) :
    Store → SourceObject → Prop
  | known {o : SourceObject} (ho : o ∈ s.objects) (hk : o.key = (source.id, domainKey, localId)) :
      Opens svc s source domainKey localId s o
  | new (hn : ∀ o ∈ s.objects, o.key ≠ (source.id, domainKey, localId)) :
      Opens svc s source domainKey localId (s.insertObject (svc.newObject s source domainKey localId))
        (svc.newObject s source domainKey localId)

namespace Opens

theorem mem (h : Opens self s source domainKey localId t o) : o ∈ t.objects := by
  cases h with
  | known ho _ => exact ho
  | new _ => exact List.mem_append_right _ (List.mem_singleton_self _)

theorem key (h : Opens self s source domainKey localId t o) :
    o.key = (source.id, domainKey, localId) := by
  cases h with
  | known _ hk => exact hk
  | new _ => rfl

theorem integrity (h : Opens self s source domainKey localId t o)
    (hi : Integrity self.rt self.workspace s) : Integrity self.rt self.workspace t := by
  cases h with
  | known _ _ => exact hi
  | new hn => exact hi.insertObject rfl rfl hn rfl rfl

theorem tables (h : Opens self s source domainKey localId t o) :
    t.records = s.records ∧ t.entities = s.entities ∧ t.metas = s.metas ∧
      t.cannotLinks = s.cannotLinks ∧ t.tasks = s.tasks ∧ t.approved = s.approved ∧
      t.published = s.published := by
  cases h <;> exact ⟨rfl, rfl, rfl, rfl, rfl, rfl, rfl⟩

end Opens

namespace MasteringService

theorem hasObjectKey_iff (hw : o.workspaceId = self.wid) :
    self.hasObjectKey source domainKey localId o = true ↔ o.key = (source.id, domainKey, localId) := by
  simp [hasObjectKey, SourceObject.key, hw, and_assoc]

theorem hasRecordKey_iff {r : SourceRecord} (hw : r.workspaceId = self.wid) :
    self.hasRecordKey source domainKey localId r = true ↔
      r.objectKey = (source.id, domainKey, localId) := by
  simp [hasRecordKey, SourceRecord.objectKey, hw, and_assoc]

/-- Every record has its object, so there is no older record to take over. -/
theorem legacyRecord_eq_none (h : Integrity self.rt self.workspace s)
    (hn : ∀ o ∈ s.objects, o.key ≠ (source.id, domainKey, localId)) :
    self.legacyRecord s source domainKey localId = none := by
  have hnone : s.records.filter (self.hasRecordKey source domainKey localId) = [] := by
    rw [List.filter_eq_nil_iff]
    intro r hr hkey
    obtain ⟨o, ho, hk⟩ := h.recordObject r hr
    exact hn o ho (hk.trans ((hasRecordKey_iff (h.records r hr).1).mp hkey))
  rw [legacyRecord, hnone]
  rfl

theorem getOrCreate_opens (h : Integrity self.rt self.workspace s) (source : Source)
    (domainKey localId : String) :
    Opens self s source domainKey localId
      (self.getOrCreateSourceObject s source domainKey localId).1
      (self.getOrCreateSourceObject s source domainKey localId).2 := by
  unfold getOrCreateSourceObject
  cases hf : s.objects.find? (self.hasObjectKey source domainKey localId) with
  | some o =>
    have ho := List.mem_of_find?_eq_some hf
    exact .known ho ((hasObjectKey_iff (h.objects o ho).1).mp (List.find?_some hf))
  | none =>
    have hn : ∀ o ∈ s.objects, o.key ≠ (source.id, domainKey, localId) := by
      intro o ho hk
      exact List.find?_eq_none.mp hf o ho ((hasObjectKey_iff (h.objects o ho).1).mpr hk)
    rw [legacyRecord_eq_none h hn]
    exact .new hn

theorem storedObservation_some (h : Integrity self.rt self.workspace s) {r : SourceRecord}
    (hs : self.storedObservation s source domainKey item = some r) :
    r ∈ s.records ∧ r.key = ((source.id, domainKey, item.localId), item.version) := by
  have hr := List.mem_of_find?_eq_some hs
  have hkey : self.hasRecordKey source domainKey item.localId r = true ∧
      r.sourceVersion = item.version := by simpa using List.find?_some hs
  exact ⟨hr, Prod.ext ((hasRecordKey_iff (h.records r hr).1).mp hkey.1) hkey.2⟩

theorem storedObservation_none (h : Integrity self.rt self.workspace s) :
    self.storedObservation s source domainKey item = none ↔
      ∀ r ∈ s.records, r.key ≠ ((source.id, domainKey, item.localId), item.version) := by
  simp only [storedObservation, List.find?_eq_none, Bool.and_eq_true, decide_eq_true_eq]
  refine forall₂_congr fun r hr => not_congr ?_
  rw [hasRecordKey_iff (h.records r hr).1]
  exact ⟨fun hk => Prod.ext hk.1 hk.2, fun hk => ⟨congrArg Prod.fst hk, congrArg Prod.snd hk⟩⟩

/-- The observation is stored already. -/
structure Repeats (svc : MasteringService) (s : Store) (source : Source) (domainKey : String)
    (item : IncomingRecord) : Prop where
  stored : ∃ r, svc.storedObservation s source domainKey item = some r ∧
    svc.samePayload s r item = true
  object : ∃ o ∈ s.objects, o.key = (source.id, domainKey, item.localId)

/-- A round of the loop skips a repeated observation, or opens its object and stores it. -/
theorem observe_cases (h : Integrity self.rt self.workspace s)
    (ho : self.observe s source domainKey policy item = .ok (s', v)) :
    (v = .duplicate ∧ s' = s ∧ Repeats self s source domainKey item) ∨
      ∃ t o d, Opens self s source domainKey item.localId t o ∧
        (∀ r ∈ s.records, r.key ≠ ((source.id, domainKey, item.localId), item.version)) ∧
        Round self t source domainKey policy o item v s' d := by
  unfold observe at ho
  have hopen := getOrCreate_opens h source domainKey item.localId
  generalize self.getOrCreateSourceObject s source domainKey item.localId = p at ho hopen
  obtain ⟨t, o⟩ := p
  have hi := hopen.integrity h
  have hrecords := hopen.tables.1
  dsimp only at ho
  split at ho
  · next r hstored =>
    split at ho
    · next hsame =>
      cases ho
      obtain ⟨hr, hkey⟩ := storedObservation_some hi hstored
      cases hopen with
      | known ho hk => exact .inl ⟨rfl, rfl, ⟨r, hstored, hsame⟩, o, ho, hk⟩
      | new hn =>
        obtain ⟨o', ho', hk'⟩ := h.recordObject r (hrecords ▸ hr)
        exact (hn o' ho' (hk'.trans (congrArg Prod.fst hkey))).elim
    · cases ho
  · next hnone =>
    obtain ⟨d, hround⟩ := observeNew_round hi hopen.mem ho
    exact .inr ⟨t, o, d, hopen, hrecords ▸ (storedObservation_none hi).mp hnone, hround⟩

end MasteringService

theorem stored_tables : (s.stored self source domainKey o item d).objects = s.objects ∧
    (s.stored self source domainKey o item d).records =
      s.records ++ [d.record self s source domainKey o item] ∧
    (s.stored self source domainKey o item d).metas =
      s.metas ++ [⟨self.fresh s, o.id, self.payloadHash item, item.sequence, item.updateMode⟩] ∧
    (s.stored self source domainKey o item d).entities = (s.changeEntities d.change).entities ∧
    (s.stored self source domainKey o item d).cannotLinks = s.cannotLinks ∧
    (s.stored self source domainKey o item d).approved = s.approved ∧
    (s.stored self source domainKey o item d).published = s.published := by
  obtain ⟨e, x, c, y, task⟩ := d
  cases c <;> cases task <;> exact ⟨rfl, rfl, rfl, rfl, rfl, rfl, rfl⟩

namespace Round

theorem objects (h : Round self s source domainKey policy o item v s' d) :
    s'.objects = Table.modify SourceObject.id s.objects o.id
      fun row => row.after item (self.fresh s) d.target v := by
  rw [h.frame.objects, Store.round, Store.modifyObject, stored_tables.1]

theorem records (h : Round self s source domainKey policy o item v s' d) :
    s'.records = s.records ++ [d.record self s source domainKey o item] :=
  h.frame.records.trans stored_tables.2.1

theorem metas (h : Round self s source domainKey policy o item v s' d) :
    s'.metas = s.metas ++ [⟨self.fresh s, o.id, self.payloadHash item, item.sequence, item.updateMode⟩] :=
  h.frame.metas.trans stored_tables.2.2.1

theorem entities (h : Round self s source domainKey policy o item v s' d) :
    s'.entities = (s.changeEntities d.change).entities :=
  h.frame.entities.trans stored_tables.2.2.2.1

theorem cannotLinks (h : Round self s source domainKey policy o item v s' d) :
    s'.cannotLinks = s.cannotLinks := h.frame.cannotLinks.trans stored_tables.2.2.2.2.1

theorem approved (h : Round self s source domainKey policy o item v s' d) :
    s'.approved = s.approved := h.frame.approved.trans stored_tables.2.2.2.2.2.1

theorem published (h : Round self s source domainKey policy o item v s' d) :
    s'.published = s.published := h.frame.published.trans stored_tables.2.2.2.2.2.2

/-- The only match task a round can add asks about its object and a member of another entity. -/
theorem tasks (h : Round self s source domainKey policy o item v s' d) :
    MatchesFrom s.tasks s'.tasks ∨ v = .resolved .review ∧
      ∃ task, AsksMatch self s o (self.newEntity s domainKey).id task ∧
        MatchesFrom (s.tasks ++ [task]) s'.tasks := by
  have htasks : (s.round self source domainKey o item v d).tasks = s.tasks ++ d.task.toList := by
    obtain ⟨e, x, c, y, task⟩ := d
    cases c <;> cases task <;> simp [Store.round, Store.stored, Store.openTask, Store.changeEntities,
      Store.modifyObject, Store.insertTask, Store.observed, Store.insertRecord, Store.insertMeta,
      Store.insertBlocks, Store.mapEntities, Store.insertEntity]
  have hframe := h.frame.tasks
  rw [htasks] at hframe
  cases h.fits with
  | review _ _ _ _ _ _ ht ha =>
    rw [ht] at hframe
    exact .inr ⟨rfl, _, ha, hframe⟩
  | quarantined _ _ ht => exact .inl (by simpa [ht] using hframe)
  | outOfOrder _ _ _ ht => exact .inl (by simpa [ht] using hframe)
  | retiredFree _ _ _ _ _ ht => exact .inl (by simpa [ht] using hframe)
  | retired _ _ _ _ _ ht => exact .inl (by simpa [ht] using hframe)
  | updated _ _ _ _ _ ht => exact .inl (by simpa [ht] using hframe)
  | linked _ _ _ _ _ _ _ _ _ ht => exact .inl (by simpa [ht] using hframe)
  | created _ _ _ _ _ _ ht => exact .inl (by simpa [ht] using hframe)

theorem target_entity (h : Round self s source domainKey policy o item v s' d) {x : Id}
    {outcome : Resolution} (hv : v = .resolved outcome) (hx : d.target = some x) :
    ∃ e ∈ s'.entities, e.id = x := by
  rw [h.entities]
  have hfits := h.fits
  subst hv
  cases hfits with
  | linked _ _ _ _ he _ _ hc ht _ =>
    rw [ht] at hx
    cases hx
    obtain ⟨e, he, rfl⟩ := he
    rw [hc]
    exact ⟨bump e.id e, List.mem_map_of_mem he, by simp [bump, onRow]⟩
  | created _ _ _ _ hc ht _ =>
    rw [ht] at hx
    cases hx
    rw [hc]
    exact ⟨_, List.mem_append_right _ (List.mem_singleton_self _), rfl⟩
  | review _ _ _ _ hc ht _ _ =>
    rw [ht] at hx
    cases hx
    rw [hc]
    exact ⟨_, List.mem_append_right _ (List.mem_singleton_self _), rfl⟩

end Round

theorem after_id {x : Option Id} {rid : Id} : (o.after item rid x v).id = o.id := by
  cases v <;> rfl

theorem after_key {x : Option Id} {rid : Id} : (o.after item rid x v).key = o.key := by
  cases v <;> rfl

theorem after_workspaceId {x : Option Id} {rid : Id} :
    (o.after item rid x v).workspaceId = o.workspaceId := by cases v <;> rfl

theorem integrity_changeEntities {rt : Runtime} {w : Workspace} (h : Integrity rt w s)
    {c : EntityChange} (hc : ∀ e, c = .insert e → e.id = rt.uid s.drawn ∧ e.workspaceId = w.id) :
    Integrity rt w (s.changeEntities c) := by
  cases c with
  | keep => exact h
  | bump id => exact h.mapEntities bump_row
  | insert e => exact h.insertEntity (hc e rfl).1 (hc e rfl).2

theorem newRecord_state {e : Evaluation} (hq : e.qualityErrors = [])
    (hn : observationIsCurrent o item = true) (hd : item.deleted = false) :
    (self.newRecord s source domainKey o item e).state = .valid := by
  simp [MasteringService.newRecord, MasteringService.recordState, hq, hn, hd]

theorem Fits.contribution (h : Fits self s source domainKey policy o item d v) {x rid : Id}
    {target : Option Id} (hx : (o.after item rid target v).currentRecordId = some x) :
    (o.currentRecordId = some x ∧ (o.after item rid target v).retired = o.retired) ∨
      (x = rid ∧ (o.after item rid target v).retired = false ∧
        (self.newRecord s source domainKey o item d.evaluation).state = .valid) := by
  cases h with
  | quarantined => exact .inl ⟨hx, rfl⟩
  | outOfOrder => exact .inl ⟨hx, rfl⟩
  | retiredFree => cases hx
  | retired => cases hx
  | updated hq hn hd => exact .inr ⟨(Option.some.inj hx).symm, rfl, newRecord_state hq hn hd⟩
  | linked hq hn hd => exact .inr ⟨(Option.some.inj hx).symm, rfl, newRecord_state hq hn hd⟩
  | created hq hn hd => exact .inr ⟨(Option.some.inj hx).symm, rfl, newRecord_state hq hn hd⟩
  | review hq hn hd => exact .inr ⟨(Option.some.inj hx).symm, rfl, newRecord_state hq hn hd⟩

theorem after_entityId (o : SourceObject) (item : IncomingRecord) (rid : Id) (x : Option Id)
    (v : Verdict) : (o.after item rid x v).entityId = o.entityId ∨
      (∃ outcome, v = .resolved outcome) ∧ (o.after item rid x v).entityId = x := by
  cases v with
  | resolved outcome => exact .inr ⟨⟨outcome, rfl⟩, rfl⟩
  | _ => exact .inl rfl

theorem Fits.newEntity (h : Fits self s source domainKey policy o item d v) {e : Entity}
    (hc : d.change = .insert e) : e = self.newEntity s domainKey := by
  cases h with
  | created _ _ _ _ hc' => rw [hc'] at hc; cases hc; rfl
  | review _ _ _ _ hc' => rw [hc'] at hc; cases hc; rfl
  | quarantined _ hc' => rw [hc'] at hc; cases hc
  | outOfOrder _ _ hc' => rw [hc'] at hc; cases hc
  | retiredFree _ _ _ _ hc' => rw [hc'] at hc; cases hc
  | retired _ _ _ _ hc' => rw [hc'] at hc; cases hc
  | updated _ _ _ _ hc' => rw [hc'] at hc; cases hc
  | linked _ _ _ _ _ _ _ hc' => rw [hc'] at hc; cases hc

theorem integrity_stored (h : Integrity self.rt self.workspace s) (ho : o ∈ s.objects)
    (hk : o.key = (source.id, domainKey, item.localId))
    (hn : ∀ r ∈ s.records, r.key ≠ ((source.id, domainKey, item.localId), item.version))
    (hf : Fits self s source domainKey policy o item d v) :
    Integrity self.rt self.workspace (s.stored self source domainKey o item d) := by
  have hobserved : Integrity self.rt self.workspace
      (s.observed self o (d.record self s source domainKey o item) item d.evaluation.blockKeys) :=
    (h.insertRecord (r := d.record self s source domainKey o item) rfl rfl rfl hn
      ⟨o, ho, hk⟩).sameRows insertBlocks_rows
  have hchanged := integrity_changeEntities (c := d.change) hobserved fun e he => by
    rw [hf.newEntity he]
    exact ⟨rfl, rfl⟩
  unfold Store.stored
  cases d.task with
  | none => exact hchanged
  | some task => exact hchanged.sameRows insertTask_rows

theorem Round.integrity (hr : Round self s source domainKey policy o item v s' d)
    (h : Integrity self.rt self.workspace s) (ho : o ∈ s.objects)
    (hk : o.key = (source.id, domainKey, item.localId))
    (hn : ∀ r ∈ s.records, r.key ≠ ((source.id, domainKey, item.localId), item.version)) :
    Integrity self.rt self.workspace s' := by
  have hmem : o ∈ (s.stored self source domainKey o item d).objects := by
    rw [stored_tables.1]
    exact ho
  refine Integrity.frame ((integrity_stored h ho hk hn hr.fits).modifyObject hmem
    ⟨after_id, after_workspaceId, after_key⟩ ?_ ?_) hr.frame
  · intro x hx
    rcases after_entityId o item (self.fresh s) d.target v with he | ⟨⟨outcome, hv⟩, he⟩
    · exact .inl (he ▸ hx)
    · right
      rw [stored_tables.2.2.2.1, ← hr.entities]
      exact hr.target_entity hv (he ▸ hx)
  · intro x hx
    rcases hr.fits.contribution hx with hold | ⟨rfl, hret, hstate⟩
    · exact .inl hold
    · refine .inr ⟨hret, d.record self s source domainKey o item, ?_, rfl, hstate, hk.symm⟩
      rw [stored_tables.2.1]
      exact List.mem_append_right _ (List.mem_singleton_self _)

namespace MasteringService

/-- What opening an object and storing an observation keep, a round of the loop keeps. -/
theorem observe_invariant {P : Store → Prop} (h : Integrity self.rt self.workspace s) (hs : P s)
    (hopen : ∀ t o, Opens self s source domainKey item.localId t o → P t)
    (hround : ∀ t o d, Opens self s source domainKey item.localId t o → P t →
      Integrity self.rt self.workspace t → Round self t source domainKey policy o item v s' d → P s')
    (ho : self.observe s source domainKey policy item = .ok (s', v)) : P s' := by
  rcases observe_cases h ho with ⟨-, rfl, -⟩ | ⟨t, o, d, ht, -, hr⟩
  · exact hs
  · exact hround t o d ht (hopen t o ht) (ht.integrity h) hr

theorem observe_integrity (h : Integrity self.rt self.workspace s)
    (ho : self.observe s source domainKey policy item = .ok (s', v)) :
    Integrity self.rt self.workspace s' := by
  rcases observe_cases h ho with ⟨-, rfl, -⟩ | ⟨t, o, d, ht, hn, hr⟩
  · exact h
  · exact hr.integrity (ht.integrity h) ht.mem ht.key (ht.tables.1 ▸ hn)

/-- What every round keeps, the loop keeps. -/
theorem observeAll_invariant {P : Store → Prop} (h : Integrity self.rt self.workspace s) (hs : P s)
    (hstep : ∀ s s' item v, item ∈ items → Integrity self.rt self.workspace s → P s →
      self.observe s source domainKey policy item = .ok (s', v) → P s')
    (ho : self.observeAll source domainKey policy fault s index items = .ok (s', vs)) :
    Integrity self.rt self.workspace s' ∧ P s' := by
  induction items generalizing s index vs with
  | nil =>
    cases ho
    exact ⟨h, hs⟩
  | cons item items ih =>
    unfold observeAll at ho
    rw [Except.bind_eq_ok] at ho
    obtain ⟨⟨s₁, v⟩, hstep₁, ho⟩ := ho
    dsimp only at ho
    split at ho
    · cases ho
    · rw [Except.bind_eq_ok] at ho
      obtain ⟨⟨s₂, vs'⟩, hrest, ho⟩ := ho
      cases ho
      exact ih (observe_integrity h hstep₁) (hstep s s₁ item v List.mem_cons_self h hs hstep₁)
        (fun s s' item v hi => hstep s s' item v (List.mem_cons_of_mem _ hi)) hrest

end MasteringService

end Recordlane
