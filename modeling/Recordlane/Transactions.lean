import Recordlane.Ledger

/-! Every transaction as a sequence of moves that leaves no debt. -/
namespace Recordlane

variable {rt : Runtime} {w : Workspace} {self : MasteringService} {s s' t : Store} {x : Id}
  {X : Set Id} {owed : List Id} {V : Set Id} {source : Source} {domainKey : String}
  {policy : CompiledPolicy} {o : SourceObject} {r : SourceRecord} {item : IncomingRecord}
  {blockKeys : List String} {v : Verdict} {req : IngestRequest}

namespace Shift

theorem mono {Y : Set Id} (h : Shift self s t X) (hXY : X ⊆ Y) : Shift self s t Y :=
  ⟨h.entities, h.masters, h.tasks, h.outbox, h.drawn, fun e he hn => h.values e he fun hx => hn (hXY hx)⟩

theorem of_contributions (hentities : t.entities = s.entities) (hmasters : t.masters = s.masters)
    (htasks : t.tasks = s.tasks) (houtbox : t.outbox = s.outbox) (hdrawn : s.drawn ≤ t.drawn)
    (hdomains : self.DomainsKept s t) (hsources : RanksKept s t)
    (hc : ∀ x ∉ X, self.SameContributions s t x) : Shift self s t X :=
  ⟨hentities, hmasters, htasks, houtbox, hdrawn, fun _ _ he _ =>
    MasteringService.survivors_agree hdomains hsources (hc _ he)⟩

/-- Domains and sources may be added, and tables change that neither the ledger nor survivorship
reads. -/
theorem extended (hentities : t.entities = s.entities) (hmasters : t.masters = s.masters)
    (htasks : t.tasks = s.tasks) (houtbox : t.outbox = s.outbox) (hdrawn : s.drawn ≤ t.drawn)
    (hdomains : self.DomainsKept s t) (hsources : RanksKept s t) (hobjects : t.objects = s.objects)
    (hrecords : t.records = s.records) : Shift self s t ∅ := by
  refine of_contributions hentities hmasters htasks houtbox hdrawn hdomains hsources fun x _ => ?_
  refine sameContributions id id [] [] ?_ ?_ (fun _ _ _ => rfl)
    (fun _ _ => rfl) (by simp) (by simp)
  · simpa using hobjects
  · simpa using hrecords

theorem idle (hentities : t.entities = s.entities) (hmasters : t.masters = s.masters)
    (htasks : t.tasks = s.tasks) (houtbox : t.outbox = s.outbox) (hdrawn : s.drawn ≤ t.drawn)
    (hdomains : t.domains = s.domains)
    (hsources : t.sources.map Source.rank = s.sources.map Source.rank)
    (hobjects : t.objects = s.objects) (hrecords : t.records = s.records) : Shift self s t ∅ :=
  .extended hentities hmasters htasks houtbox hdrawn (MasteringService.domainsKept_of_eq hdomains)
    (ranksKept_of_map hsources) hobjects hrecords

theorem mapRecords {g : SourceRecord → SourceRecord} (hg : ∀ r, (g r).core = r.core) :
    Shift self s (s.mapRecords g) ∅ := by
  refine of_contributions rfl rfl rfl rfl le_rfl (MasteringService.domainsKept_of_eq rfl)
    (ranksKept_of_map rfl) fun x _ => ?_
  refine sameContributions id g [] [] (by simp [Store.mapRecords])
    (by simp [Store.mapRecords]) (fun _ _ _ => rfl) (fun r _ => hg r) (by simp) (by simp)

theorem mapObjects {f : SourceObject → SourceObject}
    (hf : ∀ o ∈ s.objects, ∀ x ∉ X, ∀ r, MasteringService.contributes r x (f o) =
      MasteringService.contributes r x o) : Shift self s (s.mapObjects f) X := by
  refine of_contributions rfl rfl rfl rfl le_rfl (MasteringService.domainsKept_of_eq rfl)
    (ranksKept_of_map rfl) fun x hx => ?_
  refine sameContributions f id [] [] (by simp [Store.mapObjects])
    (by simp [Store.mapObjects]) (fun o ho r => hf o ho x hx r) (fun _ _ => rfl) (by simp) (by simp)

end Shift

theorem attachedRecord_core {id : Id} {x : Option Id} (r : SourceRecord) :
    (onRow SourceRecord.id id (fun r => { r with entityId := x }) r).core = r.core := by
  unfold onRow
  split <;> rfl

theorem shift_opens {localId : String} (h : Opens self s source domainKey localId t o) :
    Shift self s t ∅ := by
  cases h with
  | known => exact .refl s
  | new =>
    refine .of_contributions rfl rfl rfl rfl (Nat.le_succ _)
      (MasteringService.domainsKept_of_eq rfl) (ranksKept_of_map rfl) fun x _ => ?_
    refine sameContributions id id [self.newObject s source domainKey localId] []
      (by simp [Store.insertObject])
      (by simp [Store.insertObject]) (fun _ _ _ => rfl) (fun _ _ => rfl) ?_ (by simp)
    intro o ho r
    rw [List.mem_singleton.mp ho]
    simp [MasteringService.contributes, MasteringService.newObject]

/-- A stored observation affects at most the entity of its object. -/
theorem shift_observed {F : SourceObject → SourceObject} {g : SourceRecord → SourceRecord}
    (h : Integrity self.rt self.workspace s) (ho : o ∈ s.objects) (hr : r.id = self.fresh s)
    (hF : ∀ x ∉ X, ∀ r, MasteringService.contributes r x (F o) = MasteringService.contributes r x o)
    (hg : ∀ r, (g r).core = r.core) :
    Shift self s (((s.observed self o r item blockKeys).modifyObject o.id F).mapRecords g) X := by
  refine .of_contributions rfl rfl rfl rfl ?_ (MasteringService.domainsKept_of_eq rfl)
    (ranksKept_of_map rfl) fun x hx => ?_
  · simp [Store.observed, Store.mapRecords, Store.modifyObject, Store.insertBlocks,
      Store.insertMeta, Store.insertRecord, Nat.add_assoc]
  · refine sameContributions (onRow SourceObject.id o.id F) g [] [g r]
      ?_ ?_ ?_ (fun r _ => hg r) (by simp) ?_
    · rw [List.append_nil]
      rfl
    · simp [Store.observed, Store.mapRecords, Store.modifyObject, Store.insertBlocks,
        Store.insertMeta, Store.insertRecord]
    · intro row hrow r'
      unfold onRow
      split
      · next hid =>
        rw [h.objectIds.eq_of_mem hrow ho hid]
        exact hF x hx r'
      · rfl
    · intro r' hr' row hrow
      have hid : r'.id = self.fresh s := by
        rw [List.mem_singleton.mp hr', (SourceRecord.core_eq (hg r)).1, hr]
      have hne : row.currentRecordId ≠ some r'.id := by
        intro hcurrent
        obtain ⟨-, r'', hr'', he, -⟩ := h.currentRecord row hrow _ hcurrent
        exact (h.records r'' hr'').2.ne_uid (he.trans hid)
      simp [MasteringService.contributes, hne]

namespace MasteringService

theorem audit_shift (self : MasteringService) (s : Store) (action objectType objectId : String)
    (detail : Dict) : Shift self s (self.audit s action objectType objectId detail) ∅ :=
  .idle rfl rfl rfl rfl (Nat.le_succ _) rfl rfl rfl rfl

theorem bump_draft {m : MasterVersion} (hV : V ⊆ {x})
    (h : self.draftMaster (s.mapEntities (bump x)) x = .ok (t, m)) :
    Moves self ⟨s, [], V⟩ t.settled := by
  have hmoves : Moves self ⟨s, [], V⟩ ⟨t, [], V \ {x}⟩ :=
    .head .bump (.single (.draft List.not_mem_nil h))
  rwa [Set.sdiff_eq_empty.mpr hV] at hmoves

theorem settled_draft {m : MasterVersion} (hV : V ⊆ {x}) (h : self.draftMaster s x = .ok (t, m)) :
    Moves self ⟨s, [x], V⟩ t.settled := by
  have hmove : Move self ⟨s, [x], V⟩ ⟨t, [], V \ {x}⟩ := .draft List.not_mem_nil h
  rw [Set.sdiff_eq_empty.mpr hV] at hmove
  exact .single hmove

theorem shift_moves (h : Shift self s t X) : Moves self s.settled ⟨t, [], X⟩ := by
  have hmove : Move self s.settled ⟨t, [], ∅ ∪ X⟩ := .shift h
  rw [Set.empty_union] at hmove
  exact .single hmove

theorem contributes_of_ne {o o' : SourceObject} {x : Id} (h : o.entityId ≠ some x)
    (h' : o'.entityId ≠ some x) (r : SourceRecord) : contributes r x o' = contributes r x o := by
  simp [contributes, h, h']

theorem retire_moves (h : Integrity self.rt self.workspace s) (ho : o ∈ s.objects)
    (hr : r.id = self.fresh s)
    (hret : self.retire (self.tracked s o r item blockKeys) o r = .ok (s', v)) :
    Moves self s.settled s'.settled := by
  have hshift : Shift self s
      (((self.tracked s o r item blockKeys).modifyObject o.id fun o =>
        { o with currentRecordId := none, retired := true }).modifyRecord r.id fun r =>
          { r with entityId := o.entityId }) {x | o.entityId = some x} := by
    rw [tracked_modifyObject, modifyRecord_eq]
    exact shift_observed h ho hr (fun x hx => contributes_of_ne hx hx) attachedRecord_core
  unfold retire at hret
  dsimp only at hret
  split at hret
  · next entity hentity =>
    simp only [Except.bind_eq_ok, Except.pure_eq_ok, Prod.exists, Prod.mk.injEq] at hret
    obtain ⟨s₁, draft, hdraft, rfl, rfl⟩ := hret
    obtain ⟨x, hx, hfind⟩ := Option.bind_eq_some_iff.mp hentity
    obtain ⟨-, rfl⟩ := entity?_mem hfind
    refine (shift_moves hshift).trans (bump_draft (x := entity.id) ?_ hdraft)
    intro y hy
    exact Option.some.inj (hy.symm.trans hx)
  · next hentity =>
    cases hret
    have hnone : {x | o.entityId = some x} = (∅ : Set Id) := by
      refine Set.eq_empty_iff_forall_notMem.mpr fun x hx => ?_
      obtain ⟨e, -, -, hfind⟩ := h.attachedEntity ho hx
      have hsome : o.entityId.bind s.entity? = some e := by rw [hx]; exact hfind
      exact Option.some_ne_none e (hsome.symm.trans hentity)
    rw [hnone] at hshift
    exact Moves.shift hshift

theorem setMembership_shift {m : SourceObject} {reason : String} (hx : x ∈ X)
    (hm : ∀ o ∈ s.objects, o.id = m.id → ∀ y, o.entityId = some y → y ∈ X) :
    Shift self s (self.setMembership s m x reason) X := by
  have hmove : Shift self s (s.mapObjects (attach [m.id] x)) X := by
    refine .mapObjects fun o ho y hy r => ?_
    unfold attach
    split
    · next hid =>
      refine contributes_of_ne (fun he => hy (hm o ho (List.mem_singleton.mp hid) y he)) ?_ r
      rintro ⟨⟩
      exact hy hx
    · rfl
  unfold setMembership
  split
  · exact (Shift.refl s).mono (Set.empty_subset X)
  · rw [attach_singleton] at hmove
    refine Shift.mono (hmove.trans (Y := ∅) ?_) (by rw [Set.union_empty])
    unfold closeMembership
    split <;> exact .idle rfl rfl rfl rfl (Nat.le_succ _) rfl rfl rfl rfl

/-- A resolution counts an entity up or makes one; its draft is still to come. -/
theorem resolve_moves {objectId : Id} {outcome : Resolution}
    (h : self.resolve s r objectId policy blockKeys = .ok (s', x, outcome)) :
    Moves self ⟨s, [], V⟩ ⟨s', [x], V⟩ := by
  cases resolve_resolves h with
  | linked => exact .single .bump
  | created => exact .single (.create rfl rfl)
  | review _ _ _ _ hp =>
    refine .head (.create rfl rfl) (.single (.ask ?_))
    simp [ReviewTask.kind, hp, TaskPayload.kind]

theorem contribute_moves (h : Integrity self.rt self.workspace s) (ho : o ∈ s.objects)
    (hr : r.id = self.fresh s)
    (hc : self.contribute (self.tracked s o r item blockKeys) o r policy blockKeys = .ok (s', v)) :
    Moves self s.settled s'.settled := by
  have hshift : ∀ g : SourceRecord → SourceRecord, (∀ r, (g r).core = r.core) → Shift self s
      (((self.tracked s o r item blockKeys).modifyObject o.id fun o =>
        { o with currentRecordId := some r.id, retired := false }).mapRecords g)
      {x | o.entityId = some x} := by
    intro g hg
    rw [tracked_modifyObject]
    exact shift_observed h ho hr (fun x hx => contributes_of_ne hx hx) hg
  unfold contribute at hc
  dsimp only at hc
  split at hc
  · next x hx =>
    split at hc
    · next entity hfind =>
      simp only [Except.bind_eq_ok, Except.pure_eq_ok, Prod.exists, Prod.mk.injEq] at hc
      obtain ⟨s₁, draft, hdraft, rfl, rfl⟩ := hc
      obtain ⟨-, rfl⟩ := entity?_mem hfind
      refine (shift_moves (hshift _ attachedRecord_core)).trans (bump_draft (x := entity.id) ?_ hdraft)
      intro y hy
      exact Option.some.inj (hy.symm.trans hx)
    · cases hc
  · next hx =>
    simp only [Except.bind_eq_ok, Except.pure_eq_ok, Prod.exists, Prod.mk.injEq] at hc
    obtain ⟨s₁, x, outcome, hres, s₂, draft, hdraft, rfl, rfl⟩ := hc
    have hfree : {x | o.entityId = some x} = (∅ : Set Id) := by
      refine Set.eq_empty_iff_forall_notMem.mpr fun x hx' => ?_
      exact Option.some_ne_none x (hx'.symm.trans hx)
    have hopen := hshift id fun _ => rfl
    rw [hfree, show ∀ t : Store, t.mapRecords id = t from fun t => by
      rw [Store.mapRecords, List.map_id]] at hopen
    have hrows : ∀ row ∈ s₁.objects, row.id = o.id → ∀ y, row.entityId = some y → y ∈ ({x} : Set Id) := by
      intro row hrow hid y hy
      have hobjects : s₁.objects = ((self.tracked s o r item blockKeys).modifyObject o.id fun o =>
          { o with currentRecordId := some r.id, retired := false }).objects := by
        cases resolve_resolves hres <;> rfl
      rw [hobjects, tracked_modifyObject] at hrow
      rcases Table.mem_modify.mp hrow with ⟨-, hne⟩ | ⟨row', hrow', hid', rfl⟩
      · exact (hne hid).elim
      · rw [h.objectIds.eq_of_mem hrow' ho hid'] at hy
        exact (Option.some_ne_none y (hy.symm.trans hx)).elim
    have hjoin : Shift self s₁ ((self.setMembership s₁ o x "initial_resolution").modifyRecord r.id
        fun r => { r with entityId := some x }) {x} := by
      rw [← Set.union_empty {x}]
      exact (setMembership_shift (Set.mem_singleton x) hrows).trans (.mapRecords attachedRecord_core)
    have hmove : Move self ⟨s₁, [x], ∅⟩ ⟨(self.setMembership s₁ o x "initial_resolution").modifyRecord
        r.id fun r => { r with entityId := some x }, [x], ∅ ∪ {x}⟩ := .shift hjoin
    rw [Set.empty_union] at hmove
    exact ((Moves.shift hopen).trans (resolve_moves hres)).trans
      ((Relation.ReflTransGen.single hmove).trans (settled_draft subset_rfl hdraft))

theorem observeNew_moves (h : Integrity self.rt self.workspace s) (ho : o ∈ s.objects)
    (hn : self.observeNew s source domainKey policy o item = .ok (s', v)) :
    Moves self s.settled s'.settled := by
  unfold observeNew at hn
  rw [Except.bind_eq_ok] at hn
  obtain ⟨e, -, hn⟩ := hn
  dsimp only at hn
  have hstored : ∀ g : SourceRecord → SourceRecord, (∀ r, (g r).core = r.core) → Shift self s
      ((self.storeObservation s o (self.newRecord s source domainKey o item e) item
        e.blockKeys).mapRecords g) ∅ := by
    intro g hg
    rw [storeObservation_eq]
    exact shift_observed h ho rfl (fun _ _ _ => rfl) hg
  split at hn
  · cases hn
    have hplain := hstored id fun _ => rfl
    rw [Store.mapRecords, List.map_id] at hplain
    exact Moves.shift hplain
  · split at hn
    · cases hn
      exact Moves.shift (hstored _ attachedRecord_core)
    · split at hn
      · exact retire_moves h ho rfl hn
      · exact contribute_moves h ho rfl hn

theorem observe_moves (h : Integrity self.rt self.workspace s)
    (ho : self.observe s source domainKey policy item = .ok (s', v)) :
    Moves self s.settled s'.settled := by
  unfold observe at ho
  have hopen := getOrCreate_opens h source domainKey item.localId
  generalize self.getOrCreateSourceObject s source domainKey item.localId = p at ho hopen
  obtain ⟨t, o⟩ := p
  dsimp only at ho
  have hfirst : Moves self s.settled t.settled := Moves.shift (shift_opens hopen)
  split at ho
  · split at ho
    · cases ho
      exact hfirst
    · cases ho
  · exact hfirst.trans (observeNew_moves (hopen.integrity h) hopen.mem ho)

theorem finishBatch_shift {run : Option IngestionRun} {seen : List String} {counts : Counts} :
    Shift self s (self.finishBatch s source req run seen counts) ∅ := by
  have hsources : ∀ f : Source → Source, (∀ x, (f x).rank = x.rank) →
      (Table.modify Source.id s.sources source.id f).map Source.rank = s.sources.map Source.rank :=
    fun f hf => Table.map_modify hf
  unfold finishBatch
  cases run <;> exact .idle rfl rfl rfl rfl (Nat.le_succ _) rfl (hsources _ fun _ => rfl) rfl rfl

end MasteringService

theorem Page.moves (p : Page self s req) (h : Integrity self.rt self.workspace s) :
    Moves self s.settled p.finished.settled := by
  have hbegun : Shift self s p.begun ∅ := by
    have hdrawn := p.begun_quiet.drawn
    obtain ⟨runs, n, hruns⟩ := MasteringService.beginPage_runs p.begins
    rw [hruns] at hdrawn ⊢
    exact .idle rfl rfl rfl rfl hdrawn rfl rfl rfl rfl
  have hobserved : Moves self p.begun.settled p.observed.settled := by
    refine (MasteringService.observeAll_invariant (P := fun t => Moves self p.begun.settled t.settled)
      (h.sameRows p.begun_quiet.toSameRows) .refl ?_ p.observes).2
    exact fun _ _ _ _ _ hi hm ho => hm.trans (MasteringService.observe_moves hi ho)
  exact ((Moves.shift hbegun).trans hobserved).trans (Moves.shift MasteringService.finishBatch_shift)

end Recordlane
