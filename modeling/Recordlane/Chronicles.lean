import Recordlane.Operations

/-! The history of memberships: what closes its rows and what opens new ones. -/
namespace Recordlane

variable {rt : Runtime} {w : Workspace} {self : MasteringService} {s s' t u : Store} {x : Id}
  {o : SourceObject} {task : ReviewTask} {request : Request} {source : Source}
  {domainKey reason : String} {policy : CompiledPolicy} {item : IncomingRecord} {v : Verdict}
  {req : IngestRequest}

/-- Where an object belongs. -/
def SourceObject.home (o : SourceObject) : Id × Option Id := (o.id, o.entityId)

/-- The open rows of an object's history. -/
def Store.openRows (s : Store) (id : Id) : List MembershipHistory :=
  s.memberships.filter fun m => m.sourceObjectId = id && m.validTo.isNone

/-- Objects belong where they did, and the history is the same. -/
structure Unmoved (s t : Store) : Prop where
  homes : t.objects.map SourceObject.home = s.objects.map SourceObject.home
  memberships : t.memberships = s.memberships
  drawn : s.drawn ≤ t.drawn

/-- What happens to objects and to their history. -/
inductive Chronicle (svc : MasteringService) : Store → Store → Prop
  | stays {s t : Store} (h : Unmoved s t) : Chronicle svc s t
  | appears {s : Store} {o : SourceObject} (hid : o.id = svc.fresh s) (ho : o.entityId = none) :
      Chronicle svc s (s.insertObject o)
  | joins {s : Store} {o : SourceObject} {x : Id} {reason : String}
      (ho : o.home ∈ s.objects.map SourceObject.home) :
      Chronicle svc s (svc.setMembership s o x reason)

abbrev Chronicles (svc : MasteringService) : Store → Store → Prop :=
  Relation.ReflTransGen (Chronicle svc)

/-- Every object has one open row if it belongs to an entity, which names it, and none otherwise. -/
structure Chronicled (rt : Runtime) (w : Workspace) (s : Store) : Prop where
  objectIds : Table.Keyed SourceObject.id s.objects
  objects : ∀ o ∈ s.objects, Drawn rt s.drawn o.id
  ids : Table.Keyed MembershipHistory.id s.memberships
  rows : ∀ m ∈ s.memberships, m.workspaceId = w.id ∧ Drawn rt s.drawn m.id ∧
    Drawn rt s.drawn m.sourceObjectId
  opened : ∀ o ∈ s.objects, (s.openRows o.id).map MembershipHistory.entityId = o.entityId.toList

/-- The closed rows of the history are the same. -/
def KeepsClosed (s t : Store) : Prop :=
  ∀ m ∈ s.memberships, m.validTo.isSome → m ∈ t.memberships

namespace Chronicled

theorem empty : Chronicled rt w (Store.empty w) := by
  constructor <;> simp [Store.empty, Table.Keyed]

theorem opened_home (h : Chronicled rt w s) {y : Option Id}
    (ho : (x, y) ∈ s.objects.map SourceObject.home) :
    (s.openRows x).map MembershipHistory.entityId = y.toList := by
  obtain ⟨o, hmem, heq⟩ := List.mem_map.mp ho
  obtain ⟨rfl, rfl⟩ := Prod.mk.inj heq
  exact h.opened o hmem

theorem unmoved (h : Chronicled rt w s) (hs : Unmoved s t) : Chronicled rt w t := by
  have hids : t.objects.map SourceObject.id = s.objects.map SourceObject.id := by
    have hmap := congrArg (List.map Prod.fst) hs.homes
    simpa [SourceObject.home, Function.comp_def] using hmap
  constructor
  · rw [Table.Keyed, hids]
    exact h.objectIds
  · intro o ho
    have hid := hids ▸ List.mem_map_of_mem (f := SourceObject.id) ho
    obtain ⟨o', ho', hid⟩ := List.mem_map.mp hid
    exact hid ▸ (h.objects o' ho').mono hs.drawn
  · exact hs.memberships ▸ h.ids
  · intro m hm
    obtain ⟨hw, hid, hobject⟩ := h.rows m (hs.memberships ▸ hm)
    exact ⟨hw, hid.mono hs.drawn, hobject.mono hs.drawn⟩
  · intro o ho
    have hhome : o.home ∈ s.objects.map SourceObject.home := hs.homes ▸ List.mem_map_of_mem ho
    rw [Store.openRows, hs.memberships]
    exact h.opened_home hhome

theorem appears (h : Chronicled rt w s) (hid : o.id = rt.uid s.drawn) (ho : o.entityId = none) :
    Chronicled rt w (s.insertObject o) where
  objectIds := h.objectIds.append fun row hrow => hid ▸ (h.objects row hrow).ne_uid
  objects row hrow := by
    rcases List.mem_append.mp hrow with hrow | hrow
    · exact (h.objects row hrow).mono (Nat.le_succ _)
    · rw [List.mem_singleton.mp hrow, hid]
      exact drawn_uid (Nat.lt_succ_self _)
  ids := h.ids
  rows m hm := by
    obtain ⟨hw, hid, hobject⟩ := h.rows m hm
    exact ⟨hw, hid.mono (Nat.le_succ _), hobject.mono (Nat.le_succ _)⟩
  opened row hrow := by
    rcases List.mem_append.mp hrow with hrow | hrow
    · exact h.opened row hrow
    · have hnone : (s.insertObject o).openRows row.id = [] := by
        refine List.filter_eq_nil_iff.mpr fun m hm hopen => ?_
        rw [List.mem_singleton.mp hrow, hid] at hopen
        have hobject : m.sourceObjectId = rt.uid s.drawn := by simpa using (Bool.and_eq_true_iff.mp hopen).1
        exact (h.rows m hm).2.2.ne_uid hobject
      rw [hnone, List.mem_singleton.mp hrow, ho]
      rfl

end Chronicled

/-- Closing the open row of an object touches no other row. -/
structure Closes (s t : Store) (objectId : Id) : Prop where
  objects : t.objects = s.objects
  drawn : t.drawn = s.drawn
  ids : t.memberships.map MembershipHistory.id = s.memberships.map MembershipHistory.id
  rows : ∀ m ∈ t.memberships, ∃ m' ∈ s.memberships, m'.workspaceId = m.workspaceId ∧ m'.id = m.id ∧
    m'.sourceObjectId = m.sourceObjectId
  own : t.openRows objectId = []
  others : ∀ id ≠ objectId, t.openRows id = s.openRows id
  closed : KeepsClosed s t

namespace Chronicled

theorem closes (h : Chronicled self.rt self.workspace s) (ho : o.home ∈ s.objects.map SourceObject.home) :
    Closes s (self.closeMembership s o.id) o.id := by
  have hopened := h.opened_home ho
  have hlisted : (s.memberships.filter fun m => m.workspaceId = self.wid && m.sourceObjectId = o.id &&
      m.validTo.isNone) = s.openRows o.id := by
    refine List.filter_congr fun m hm => ?_
    simp [(h.rows m hm).1, MasteringService.wid]
  have hfound : self.openMembership s o.id = (s.openRows o.id).head? := by
    rw [MasteringService.openMembership, hlisted]
    cases hentity : o.entityId with
    | none =>
      rw [hentity, Option.toList_none, List.map_eq_nil_iff] at hopened
      rw [hopened]
      rfl
    | some y =>
      rw [hentity, Option.toList_some, List.map_eq_singleton_iff] at hopened
      obtain ⟨m, hm, -⟩ := hopened
      rw [hm]
      rfl
  cases hhead : (s.openRows o.id).head? with
  | none =>
    have hsame : self.closeMembership s o.id = s := by
      rw [MasteringService.closeMembership, hfound, hhead]
    rw [hsame]
    refine ⟨rfl, rfl, rfl, fun m hm => ⟨m, hm, rfl, rfl, rfl⟩, ?_, fun _ _ => rfl, fun m hm _ => hm⟩
    exact List.head?_eq_none_iff.mp hhead
  | some m =>
    have honly : s.openRows o.id = [m] := by
      cases hentity : o.entityId with
      | none =>
        rw [hentity, Option.toList_none, List.map_eq_nil_iff] at hopened
        rw [hopened] at hhead
        cases hhead
      | some y =>
        rw [hentity, Option.toList_some, List.map_eq_singleton_iff] at hopened
        obtain ⟨m', hm', -⟩ := hopened
        rw [hm'] at hhead ⊢
        cases hhead
        rfl
    let close : MembershipHistory → MembershipHistory := fun m =>
      { m with validTo := some (self.now s) }
    have hclosed : self.closeMembership s o.id =
        { s with memberships := Table.modify MembershipHistory.id s.memberships m.id close } := by
      rw [MasteringService.closeMembership, hfound, hhead]
    have hmem : m ∈ s.openRows o.id := by
      rw [honly]
      exact List.mem_singleton_self _
    obtain ⟨hm, hown⟩ := List.mem_filter.mp hmem
    simp only [Bool.and_eq_true, decide_eq_true_eq] at hown
    rw [hclosed]
    refine ⟨rfl, rfl, Table.map_key_modify fun _ => rfl, ?_, ?_, ?_, ?_⟩
    · intro row hrow
      rcases Table.mem_modify.mp hrow with ⟨hmem, -⟩ | ⟨row', hmem, -, rfl⟩
      · exact ⟨row, hmem, rfl, rfl, rfl⟩
      · exact ⟨row', hmem, rfl, rfl, rfl⟩
    · refine List.filter_eq_nil_iff.mpr fun row hrow hopen => ?_
      rcases Table.mem_modify.mp hrow with ⟨hrow, hne⟩ | ⟨row, hrow, -, rfl⟩
      · have hrow : row ∈ s.openRows o.id := List.mem_filter.mpr ⟨hrow, hopen⟩
        rw [honly] at hrow
        exact hne (congrArg MembershipHistory.id (List.mem_singleton.mp hrow))
      · simp at hopen
    · intro id hid
      refine Table.filter_modify fun row hrow hkey => ?_
      obtain rfl := h.ids.eq_of_mem hrow hm hkey
      simp [close, hown.1, hid.symm]
    · intro row hrow hsome
      refine Table.mem_modify.mpr (.inl ⟨hrow, fun hkey => ?_⟩)
      rw [h.ids.eq_of_mem hrow hm hkey] at hsome
      cases hvalid : m.validTo <;> simp [hvalid] at hown hsome

theorem joins (h : Chronicled self.rt self.workspace s)
    (ho : o.home ∈ s.objects.map SourceObject.home) :
    Chronicled self.rt self.workspace (self.setMembership s o x reason) ∧
      KeepsClosed s (self.setMembership s o x reason) := by
  unfold MasteringService.setMembership
  split
  · exact ⟨h, fun m hm _ => hm⟩
  · have hcloses := h.closes ho
    obtain ⟨hobjects, hdrawn, hids, hrows, hown, hothers, hclosed⟩ := hcloses
    generalize self.closeMembership s o.id = t at hobjects hdrawn hids hrows hown hothers hclosed
    have hdrawnRow : ∀ m ∈ t.memberships, m.workspaceId = self.workspace.id ∧
        Drawn self.rt t.drawn m.id ∧ Drawn self.rt t.drawn m.sourceObjectId := by
      intro m hm
      obtain ⟨m', hm', hw, hid, hobject⟩ := hrows m hm
      rw [← hw, ← hid, ← hobject, hdrawn]
      exact h.rows m' hm'
    have hobject : Drawn self.rt t.drawn o.id := by
      obtain ⟨row, hrow, heq⟩ := List.mem_map.mp ho
      rw [hdrawn, ← show row.id = o.id from congrArg Prod.fst heq]
      exact h.objects row hrow
    let row : MembershipHistory := {
      id := self.rt.uid t.drawn
      workspaceId := self.wid
      sourceObjectId := o.id
      entityId := x
      validFrom := self.rt.now t.drawn
      validTo := none
      reason := reason
      changedBy := self.principal.subject }
    let moved : Store := (t.modifyObject o.id fun o => { o with entityId := some x }).insertMembership row
    have hids' : moved.objects.map SourceObject.id = s.objects.map SourceObject.id := by
      rw [← hobjects]
      exact Table.map_key_modify fun _ => rfl
    have hopened : ∀ id, moved.openRows id = t.openRows id ++ if id = o.id then [row] else [] := by
      intro id
      have hlast : (decide (o.id = id) && row.validTo.isNone) = decide (id = o.id) := by
        simp [row, eq_comm]
      rw [Store.openRows, show moved.memberships = t.memberships ++ [row] from rfl, List.filter_append,
        List.filter_cons, show row.sourceObjectId = o.id from rfl, hlast]
      simp [Store.openRows]
    refine ⟨⟨?_, ?_, ?_, ?_, ?_⟩, fun m hm hsome => List.mem_append_left _ (hclosed m hm hsome)⟩
    · have hkeyed : Table.Keyed SourceObject.id moved.objects := by
        rw [Table.Keyed, hids']
        exact h.objectIds
      exact hkeyed
    · intro o' ho'
      obtain ⟨o'', ho'', hid⟩ := List.mem_map.mp (hids' ▸ List.mem_map_of_mem (f := SourceObject.id) ho')
      rw [← hid]
      exact (h.objects o'' ho'').mono (hdrawn ▸ Nat.le_succ _)
    · have hkeyed : Table.Keyed MembershipHistory.id t.memberships := by
        rw [Table.Keyed, hids]
        exact h.ids
      exact hkeyed.append fun m hm => (hdrawnRow m hm).2.1.ne_uid
    · intro m hm
      rcases List.mem_append.mp hm with hm | hm
      · obtain ⟨hw, hid, hof⟩ := hdrawnRow m hm
        exact ⟨hw, hid.mono (Nat.le_succ _), hof.mono (Nat.le_succ _)⟩
      · rw [List.mem_singleton.mp hm]
        exact ⟨rfl, drawn_uid (Nat.lt_succ_self _), hobject.mono (Nat.le_succ _)⟩
    · intro o' ho'
      change (moved.openRows o'.id).map MembershipHistory.entityId = _
      rcases Table.mem_modify.mp ho' with ⟨ho', hne⟩ | ⟨o', -, hid, rfl⟩
      · rw [hopened, if_neg hne, List.append_nil, hothers _ hne]
        exact h.opened o' (hobjects ▸ ho')
      · rw [hopened, hid, if_pos rfl, hown]
        rfl

end Chronicled

/-- What every event keeps, the events of an operation keep. -/
theorem Chronicles.chronicled (hc : Chronicles self s t) (h : Chronicled self.rt self.workspace s) :
    Chronicled self.rt self.workspace t ∧ KeepsClosed s t := by
  induction hc with
  | refl => exact ⟨h, fun m hm _ => hm⟩
  | tail _ hlast ih =>
    obtain ⟨hu, hclosed⟩ := ih
    cases hlast with
    | stays hs => exact ⟨hu.unmoved hs, fun m hm hsome => hs.memberships ▸ hclosed m hm hsome⟩
    | appears hid ho => exact ⟨hu.appears hid ho, hclosed⟩
    | joins ho =>
      obtain ⟨ht, hkept⟩ := hu.joins ho
      exact ⟨ht, fun m hm hsome => hkept m (hclosed m hm hsome) hsome⟩

namespace Chronicles

theorem of_tables (hobjects : t.objects = s.objects) (hmemberships : t.memberships = s.memberships)
    (hdrawn : s.drawn ≤ t.drawn) : Chronicles self s t :=
  .single (.stays ⟨by rw [hobjects], hmemberships, hdrawn⟩)

theorem of_modify {id : Id} {f : SourceObject → SourceObject}
    (hobjects : t.objects = Table.modify SourceObject.id s.objects id f) (hf : ∀ o, (f o).home = o.home)
    (hmemberships : t.memberships = s.memberships) (hdrawn : s.drawn ≤ t.drawn) : Chronicles self s t :=
  .single (.stays ⟨by rw [hobjects, Table.map_modify hf], hmemberships, hdrawn⟩)

theorem aside (h : Chronicles self s t) (hobjects : u.objects = t.objects)
    (hmemberships : u.memberships = t.memberships) (hdrawn : t.drawn ≤ u.drawn) : Chronicles self s u :=
  h.trans (of_tables hobjects hmemberships hdrawn)

end Chronicles

namespace MasteringService

theorem audit_chronicles (self : MasteringService) (s : Store) (action objectType objectId : String)
    (detail : Dict) : Chronicles self s (self.audit s action objectType objectId detail) :=
  .of_tables rfl rfl (Nat.le_succ _)

theorem closeMembership_objects (self : MasteringService) (s : Store) (id : Id) :
    (self.closeMembership s id).objects = s.objects := by
  unfold closeMembership
  split <;> rfl

theorem setMembership_home {o' : SourceObject} (ho : o'.home ∈ s.objects.map SourceObject.home)
    (hne : o'.id ≠ o.id) :
    o'.home ∈ (self.setMembership s o x reason).objects.map SourceObject.home := by
  unfold setMembership
  split
  · exact ho
  · obtain ⟨row, hrow, heq⟩ := List.mem_map.mp ho
    refine List.mem_map.mpr ⟨row, Table.mem_modify.mpr (.inl ⟨?_, ?_⟩), heq⟩
    · rw [closeMembership_objects]
      exact hrow
    · rw [show row.id = o'.id from congrArg Prod.fst heq]
      exact hne

theorem moveMembers_chronicles {members : List SourceObject}
    (hm : ∀ m ∈ members, m.home ∈ s.objects.map SourceObject.home)
    (hn : (members.map SourceObject.id).Nodup) :
    Chronicles self s (self.moveMembers s members x reason) := by
  induction members generalizing s with
  | nil => exact .refl
  | cons m members ih =>
    rw [List.map_cons, List.nodup_cons] at hn
    refine .head (.joins (hm m List.mem_cons_self)) (ih (fun m' hm' => ?_) hn.2)
    refine setMembership_home (hm m' (List.mem_cons_of_mem _ hm')) fun heq => ?_
    exact hn.1 (heq ▸ List.mem_map_of_mem hm')

theorem moveSome_chronicles {members : List SourceObject} (hk : Table.Keyed SourceObject.id s.objects)
    (hm : members.Sublist s.objects) : Chronicles self s (self.moveMembers s members x reason) :=
  moveMembers_chronicles (fun _ hmem => List.mem_map_of_mem (hm.subset hmem))
    (List.Nodup.sublist (hm.map _) hk)

theorem draftMaster_chronicles {m : MasterVersion} (h : self.draftMaster s x = .ok (t, m)) :
    Chronicles self s t := by
  unfold draftMaster at h
  split at h
  · split at h
    · simp only [Except.bind_eq_ok, Except.pure_eq_ok, Prod.exists, Prod.mk.injEq] at h
      obtain ⟨policy, -, values, provenance, -, rfl, -⟩ := h
      unfold staleApproval
      split <;> exact .of_tables rfl rfl (Nat.le_add_right _ 2)
    · cases h
  · cases h

theorem drafted_chronicles {m : MasterVersion} (h : self.draftMaster u x = .ok (s', m))
    (hc : Chronicles self s t) (hobjects : u.objects = t.objects)
    (hmemberships : u.memberships = t.memberships) (hdrawn : t.drawn ≤ u.drawn) : Chronicles self s s' :=
  (hc.aside hobjects hmemberships hdrawn).trans (draftMaster_chronicles h)

theorem opens_chronicles {localId : String} (h : Opens self s source domainKey localId t o) :
    Chronicles self s t := by
  cases h with
  | known => exact .refl
  | new => exact .single (.appears rfl rfl)

theorem resolve_chronicles {r : SourceRecord} {blockKeys : List String} {objectId : Id}
    {outcome : Resolution} (h : self.resolve s r objectId policy blockKeys = .ok (s', x, outcome)) :
    Chronicles self s s' ∧ s'.objects = s.objects := by
  cases resolve_resolves h with
  | linked => exact ⟨.of_tables rfl rfl le_rfl, rfl⟩
  | created => exact ⟨.of_tables rfl rfl (Nat.le_succ _), rfl⟩
  | review => exact ⟨.of_tables rfl rfl (Nat.le_add_right _ 2), rfl⟩

theorem contribute_chronicles {r : SourceRecord} {blockKeys : List String}
    (ho : o.home ∈ s.objects.map SourceObject.home)
    (h : self.contribute s o r policy blockKeys = .ok (s', v)) : Chronicles self s s' := by
  have hcurrent : Chronicles self s (s.modifyObject o.id fun o =>
      { o with currentRecordId := some r.id, retired := false }) :=
    .of_modify rfl (fun _ => rfl) rfl le_rfl
  unfold contribute at h
  dsimp only at h
  split at h
  · split at h
    · simp only [Except.bind_eq_ok, Except.pure_eq_ok, Prod.exists, Prod.mk.injEq] at h
      obtain ⟨s₁, draft, hdraft, rfl, rfl⟩ := h
      exact drafted_chronicles hdraft hcurrent rfl rfl le_rfl
    · cases h
  · simp only [Except.bind_eq_ok, Except.pure_eq_ok, Prod.exists, Prod.mk.injEq] at h
    obtain ⟨s₁, y, outcome, hres, s₂, draft, hdraft, rfl, rfl⟩ := h
    obtain ⟨hresolve, hobjects⟩ := resolve_chronicles hres
    have hhome : o.home ∈ s₁.objects.map SourceObject.home := by
      have hhomes : (Table.modify SourceObject.id s.objects o.id fun o =>
          { o with currentRecordId := some r.id, retired := false }).map SourceObject.home =
          s.objects.map SourceObject.home := Table.map_modify fun _ => rfl
      rw [hobjects, Store.modifyObject, hhomes]
      exact ho
    have hjoins : Chronicles self s₁ (self.setMembership s₁ o y "initial_resolution") :=
      .single (.joins hhome)
    exact drafted_chronicles hdraft ((hcurrent.trans hresolve).trans hjoins) rfl rfl le_rfl

theorem retire_chronicles {r : SourceRecord} (h : self.retire s o r = .ok (s', v)) :
    Chronicles self s s' := by
  have hretired : Chronicles self s ((s.modifyRecord r.id fun r =>
      { r with entityId := o.entityId }).modifyObject o.id fun o =>
        { o with currentRecordId := none, retired := true }) :=
    .of_modify rfl (fun _ => rfl) rfl le_rfl
  unfold retire at h
  dsimp only at h
  split at h
  · simp only [Except.bind_eq_ok, Except.pure_eq_ok, Prod.exists, Prod.mk.injEq] at h
    obtain ⟨s₁, draft, hdraft, rfl, rfl⟩ := h
    exact drafted_chronicles hdraft hretired rfl rfl le_rfl
  · cases h
    exact hretired

theorem observeNew_chronicles (ho : o ∈ s.objects)
    (h : self.observeNew s source domainKey policy o item = .ok (s', v)) : Chronicles self s s' := by
  unfold observeNew at h
  rw [Except.bind_eq_ok] at h
  obtain ⟨e, -, h⟩ := h
  dsimp only at h
  have hstored : Chronicles self s (self.storeObservation s o
      (self.newRecord s source domainKey o item e) item e.blockKeys) :=
    .of_modify rfl (fun _ => rfl) rfl (Nat.le_add_right _ 3)
  split at h
  · cases h
    exact hstored
  · split at h
    · cases h
      exact hstored.aside rfl rfl le_rfl
    · have hhomes : (self.tracked s o (self.newRecord s source domainKey o item e) item
          e.blockKeys).objects.map SourceObject.home = s.objects.map SourceObject.home := by
        unfold tracked
        rw [storeObservation_eq, Store.modifyObject, Table.map_modify, Store.modifyObject, Table.map_modify]
        · rfl
        · exact fun _ => rfl
        · exact fun _ => rfl
      have htracked : Chronicles self s (self.tracked s o
          (self.newRecord s source domainKey o item e) item e.blockKeys) :=
        hstored.trans (Chronicles.of_modify rfl (fun _ => rfl) rfl le_rfl)
      split at h
      · exact htracked.trans (retire_chronicles h)
      · refine htracked.trans (contribute_chronicles ?_ h)
        exact hhomes ▸ List.mem_map_of_mem ho

theorem observe_chronicles (hi : Integrity self.rt self.workspace s)
    (h : self.observe s source domainKey policy item = .ok (s', v)) : Chronicles self s s' := by
  unfold observe at h
  have hopen := getOrCreate_opens hi source domainKey item.localId
  generalize self.getOrCreateSourceObject s source domainKey item.localId = p at h hopen
  obtain ⟨t, o⟩ := p
  dsimp only at h
  split at h
  · split at h
    · cases h
      exact opens_chronicles hopen
    · cases h
  · exact (opens_chronicles hopen).trans (observeNew_chronicles hopen.mem h)

theorem mergeEntities_chronicles (hi : Integrity self.rt self.workspace s) {primaryId : Id}
    {ids : List Id} {bound : List (Id × Nat)} (hp : ∃ e ∈ s.entities, e.id = primaryId)
    (h : ids.foldlM (self.mergeEntity primaryId bound) s = .ok s') : Chronicles self s s' := by
  induction ids generalizing s with
  | nil =>
    rw [List.foldlM_nil, Except.pure_eq_ok] at h
    subst h
    exact .refl
  | cons id ids ih =>
    rw [List.foldlM_cons, Except.bind_eq_ok] at h
    obtain ⟨s₁, hround, hrest⟩ := h
    obtain ⟨-, hframe⟩ := mergeEntity_frame hi hround
    have hi₁ := ((integrity_gather hi hp).mapEntities retireEntity_row).frame hframe
    have hp₁ : ∃ e ∈ s₁.entities, e.id = primaryId := by
      obtain ⟨e, he, rfl⟩ := hp
      rw [show s₁.entities = s.entities.map (retireEntity [id]) from hframe.entities]
      exact ⟨_, List.mem_map_of_mem he, (retireEntity_row e he).1⟩
    refine Relation.ReflTransGen.trans ?_ (ih hi₁ hp₁ hrest)
    unfold mergeEntity at hround
    split at hround
    · cases hround
    · next e _ =>
      split at hround
      · cases hround
      · cases hround
        have hmoved : Chronicles self s (self.moveMembers s (self.members s e.id) primaryId
            "approved_merge") := moveSome_chronicles hi.objectIds (self.members_sublist _)
        exact hmoved.aside rfl rfl le_rfl

theorem applyMerge_chronicles (hi : Integrity self.rt self.workspace s) {impact : MergeImpact}
    (h : self.applyMerge s impact reason = .ok s') : Chronicles self s s' := by
  unfold applyMerge at h
  split at h
  · cases h
  · next primary hprimary =>
    split at h
    · cases h
    · simp only [Except.bind_eq_ok, Except.pure_eq_ok, Prod.exists] at h
      obtain ⟨s₁, hmerge, s₂, draft, hdraft, rfl⟩ := h
      have hmerged := mergeEntities_chronicles hi ⟨primary, (entity?_mem hprimary).1, rfl⟩ hmerge
      exact (drafted_chronicles hdraft hmerged rfl rfl le_rfl).aside rfl rfl (Nat.le_succ _)

theorem linkMatch_chronicles (hi : Integrity self.rt self.workspace s)
    {leftRecord rightRecord targetId : Id} {left right : Option Id} {bound : Nat}
    (h : self.linkMatch s task leftRecord rightRecord left right targetId bound = .ok s') :
    Chronicles self s s' := by
  unfold linkMatch at h
  split at h
  · next source target _ _ =>
    split at h
    · cases h
    · split at h
      · cases h
      · split at h
        · split at h
          · split at h
            · cases h
            · simp only [Except.bind_eq_ok, Except.pure_eq_ok, Prod.exists] at h
              obtain ⟨-, -, s₁, draft, hdraft, rfl⟩ := h
              have hmoved : Chronicles self s (self.moveMembers s (self.members s source.id) target.id
                  "approved_match") := moveSome_chronicles hi.objectIds (self.members_sublist _)
              exact drafted_chronicles hdraft hmoved rfl rfl le_rfl
          · cases h
        · cases h
  · cases h

theorem applySplit_chronicles (hi : Integrity self.rt self.workspace s) {records objects : List Id}
    (h : self.applySplit s task records objects reason = .ok s') : Chronicles self s s' := by
  unfold applySplit at h
  split at h
  · cases h
  · next original _ =>
    dsimp only at h
    split at h
    · cases h
    · simp only [Except.bind_eq_ok, Except.pure_eq_ok, Prod.exists] at h
      obtain ⟨s₁, draft₁, hfirst, s₂, draft₂, hsecond, rfl⟩ := h
      let new : Entity := ⟨self.fresh s, self.wid, original.domainKey, .candidate, 1⟩
      have hnew : Chronicles self s (s.insertEntity new) := .of_tables rfl rfl (Nat.le_succ _)
      have hmoved : Chronicles self (s.insertEntity new) (self.moveMembers (s.insertEntity new)
          ((self.members (s.insertEntity new) original.id).filter fun o => objects.contains o.id)
            new.id "approved_split") :=
        moveSome_chronicles hi.objectIds (List.filter_sublist.trans (self.members_sublist _))
      have hdrafted : Chronicles self s s₂ :=
        (drafted_chronicles hfirst (hnew.trans hmoved) rfl rfl le_rfl).trans
          (draftMaster_chronicles hsecond)
      exact hdrafted.aside rfl rfl (Nat.le_add_right _ 2)

theorem keepApart_chronicles {leftRecord rightRecord : Id} {left right : Option Id}
    (h : self.keepApart s leftRecord rightRecord left right reason = .ok s') : Chronicles self s s' := by
  unfold keepApart at h
  split at h
  · split at h
    · cases h
    · cases h
      exact .of_tables rfl rfl (Nat.le_succ _)
  · dsimp only at h
    split at h
    · cases h
    · cases h
      exact .of_tables rfl rfl (Nat.le_succ _)

theorem approveMaster_chronicles {entity : Option Entity} {version : Nat}
    (h : self.approveMaster s task entity version reason = .ok s') : Chronicles self s s' := by
  unfold approveMaster at h
  split at h
  · cases h
  · cases h
  · cases h
    exact .of_tables rfl rfl (Nat.le_succ _)

theorem activateConfiguration_chronicles {configId simulationId : Id} {checksum : String} {a : Applied}
    (h : self.activateConfiguration s task configId checksum simulationId = .ok a) :
    Chronicles self s a.store := by
  unfold activateConfiguration at h
  dsimp only at h
  split at h
  · split at h
    · cases h
    · split at h
      · cases h
        exact .of_tables rfl rfl le_rfl
      · simp only [Except.bind_eq_ok, Except.pure_eq_ok, Prod.exists] at h
        obtain ⟨policies, -, s₁, jobs, hfold, rfl⟩ := h
        have hactivated : Chronicles self s s₁ := by
          refine Except.foldlM_invariant (P := fun state => Chronicles self s state.1) hfold
            (.of_tables rfl rfl le_rfl) fun state entry state' _ hs hstep => ?_
          unfold activateDomain at hstep
          dsimp only at hstep
          split at hstep
          · cases hstep
          · cases hstep
            exact hs.aside rfl rfl (Nat.le_succ _)
        exact hactivated.aside rfl rfl (Nat.le_succ _)
  · cases h

theorem applyDecision_chronicles (hi : Integrity self.rt self.workspace s) {entity : Option Entity}
    {d : Decision} {a : Applied} (h : self.applyDecision s task entity d reason = .ok a) :
    Chronicles self s a.store := by
  unfold applyDecision at h
  split at h
  · simp only [Except.bind_eq_ok, Except.pure_eq_ok] at h
    obtain ⟨t, ht, rfl⟩ := h
    exact linkMatch_chronicles hi ht
  · simp only [Except.bind_eq_ok, Except.pure_eq_ok] at h
    obtain ⟨t, ht, rfl⟩ := h
    exact keepApart_chronicles ht
  · simp only [Except.bind_eq_ok, Except.pure_eq_ok] at h
    obtain ⟨t, ht, rfl⟩ := h
    exact keepApart_chronicles ht
  · simp only [Except.bind_eq_ok, Except.pure_eq_ok] at h
    obtain ⟨t, ht, rfl⟩ := h
    exact approveMaster_chronicles ht
  · exact activateConfiguration_chronicles h
  · simp only [Except.bind_eq_ok, Except.pure_eq_ok] at h
    obtain ⟨t, ht, rfl⟩ := h
    exact applyMerge_chronicles hi ht
  · simp only [Except.bind_eq_ok, Except.pure_eq_ok] at h
    obtain ⟨t, ht, rfl⟩ := h
    exact applySplit_chronicles hi ht
  · rw [Except.pure_eq_ok] at h
    rw [← h]
    exact .refl

theorem decideTask_chronicles (hi : Integrity self.rt self.workspace s) {taskId : Id} {d : Decision}
    {answer : Py Unit} (h : self.decideTask s taskId d reason = .ok (s', answer)) :
    Chronicles self s s' := by
  unfold decideTask at h
  split at h
  · cases h
  · split at h
    · cases h
    · split at h
      · cases h
      · split at h
        · cases h
          exact .of_tables rfl rfl le_rfl
        · split at h
          · cases h
          · rw [Except.bind_eq_ok] at h
            obtain ⟨a, ha, h⟩ := h
            have happlied := applyDecision_chronicles hi ha
            cases a with
            | staled t e =>
              cases h
              exact happlied
            | done t =>
              cases h
              exact happlied.aside rfl rfl (Nat.le_succ _)

theorem runJob_chronicles {jobId : Id} (h : self.runJob s jobId = .ok s') : Chronicles self s s' := by
  have hreindex : ∀ {policy : CompiledPolicy} {key : String} {u u' : Store} {o : SourceObject},
      self.reindex policy key u o = .ok u' → Chronicles self u u' := by
    intro policy key u u' o hstep
    unfold reindex at hstep
    split at hstep
    · cases hstep
      exact .refl
    · simp only [Except.bind_eq_ok, Except.pure_eq_ok] at hstep
      obtain ⟨normalized, -, keys, -, rfl⟩ := hstep
      exact .of_tables rfl rfl (Nat.le_succ _)
  have hredraft : ∀ {u u' : Store} {id : Id}, self.redraft u id = .ok u' → Chronicles self u u' := by
    intro u u' id hstep
    unfold redraft at hstep
    simp only [Except.bind_eq_ok, Except.pure_eq_ok, Prod.exists] at hstep
    obtain ⟨u₁, draft, hdraft, rfl⟩ := hstep
    exact drafted_chronicles hdraft .refl rfl rfl le_rfl
  unfold runJob at h
  split at h
  · cases h
  · simp only [Except.bind_eq_ok, Except.pure_eq_ok] at h
    obtain ⟨s₁, hjob, rfl⟩ := h
    unfold remasterDomain at hjob
    dsimp only at hjob
    split at hjob
    · cases hjob
    · rw [Except.bind_eq_ok] at hjob
      obtain ⟨policy, -, hjob⟩ := hjob
      split at hjob
      · cases hjob
      · simp only [Except.bind_eq_ok, Except.pure_eq_ok] at hjob
        obtain ⟨s₂, hobjects, s₃, hentities, rfl⟩ := hjob
        have hindexed : Chronicles self s s₂ :=
          Except.foldlM_invariant (P := fun t => Chronicles self s t) hobjects
            (.of_tables rfl rfl le_rfl) fun u o u' _ hu hstep => hu.trans (hreindex hstep)
        have hdrafted : Chronicles self s s₃ :=
          Except.foldlM_invariant (P := fun t => Chronicles self s t) hentities hindexed
            fun u id u' _ hu hstep => hu.trans (hredraft hstep)
        exact hdrafted.aside rfl rfl (Nat.le_succ _)

theorem createDomain_chronicles {key name mode : String} {definition : Dict} {d : Domain}
    (h : self.createDomain s key name mode definition = .ok (s', d)) : Chronicles self s s' := by
  unfold createDomain at h
  split at h
  · cases h
  · simp only [Except.bind_eq_ok, Except.pure_eq_ok, Prod.mk.injEq] at h
    obtain ⟨_, _, rfl, _⟩ := h
    exact .of_tables rfl rfl (Nat.le_add_right _ 2)

theorem createSource_chronicles {key name kind : String} {priority : Int} {x : Source}
    (h : self.createSource s key name kind priority = .ok (s', x)) : Chronicles self s s' := by
  unfold createSource at h
  split at h
  · cases h
  · cases h
    exact .of_tables rfl rfl (Nat.le_add_right _ 2)

theorem replaceSource_chronicles {sourceKey key name kind : String} {priority : Int} {x : Source}
    (h : self.replaceSource s sourceKey key name kind priority = .ok (s', x)) :
    Chronicles self s s' := by
  unfold replaceSource at h
  split at h
  · cases h
  · split at h
    · cases h
    · cases h
      exact .of_tables rfl rfl (Nat.le_succ _)

theorem createRelationship_chronicles {fromId toId kind : String}
    (h : self.createRelationship s fromId toId kind = .ok s') : Chronicles self s s' := by
  unfold createRelationship at h
  dsimp only at h
  split at h
  · cases h
  · split at h
    · cases h
    · cases h
      exact .of_tables rfl rfl (Nat.le_add_right _ 2)

theorem createConfig_chronicles {document : Json} {c : ConfigurationVersion}
    (h : self.createConfig s document = .ok (s', c)) : Chronicles self s s' := by
  unfold createConfig at h
  split at h
  · cases h
  · simp only [Except.bind_eq_ok, Except.pure_eq_ok, Prod.mk.injEq] at h
    obtain ⟨policies, -, rfl, -⟩ := h
    exact .of_tables rfl rfl (Nat.le_add_right _ 2)

theorem revertConfig_chronicles {configId : Id} {c : ConfigurationVersion}
    (h : self.revertConfig s configId = .ok (s', c)) : Chronicles self s s' := by
  unfold revertConfig at h
  split at h
  · cases h
  · simp only [Except.bind_eq_ok, Except.pure_eq_ok, Prod.exists, Prod.mk.injEq] at h
    obtain ⟨s₁, c₁, hcreate, rfl, -⟩ := h
    exact (createConfig_chronicles hcreate).trans (self.audit_chronicles ..)

theorem proposeConfig_chronicles {configId simulationId : Id}
    (h : self.proposeConfig s configId simulationId = .ok (s', task)) : Chronicles self s s' := by
  unfold proposeConfig at h
  split at h
  · cases h
  · split at h
    · cases h
    · dsimp only at h
      split at h
      · cases h
      · cases h
        unfold supersedeProposal
        split <;> exact .of_tables rfl rfl (Nat.le_add_right _ 2)

theorem proposeMerge_chronicles {entityIds : List Id} {dryRun : Bool} {impact : MergeImpact}
    {taskId : Option Id} (h : self.proposeMerge s entityIds reason dryRun = .ok (s', impact, taskId)) :
    Chronicles self s s' := by
  unfold proposeMerge at h
  dsimp only at h
  split at h
  · cases h
  · split at h
    · cases h
    · split at h
      · cases h
      · split at h
        · cases h
        · split at h
          · cases h
            exact .refl
          · cases h
            exact .of_tables rfl rfl (Nat.le_add_right _ 2)

theorem proposeSplit_chronicles {entityId : Id} {sourceRecordIds : List Id}
    (h : self.proposeSplit s entityId sourceRecordIds reason = .ok (s', task)) :
    Chronicles self s s' := by
  unfold proposeSplit at h
  split at h
  · cases h
  · dsimp only at h
    split at h
    · cases h
    · cases h
      exact .of_tables rfl rfl (Nat.le_add_right _ 2)

end MasteringService

theorem Page.chronicles (p : Page self s req) (hi : Integrity self.rt self.workspace s) :
    Chronicles self s p.finished := by
  have hbegun : Chronicles self s p.begun := by
    have hdrawn := p.begun_quiet.drawn
    obtain ⟨runs, n, hruns⟩ := MasteringService.beginPage_runs p.begins
    rw [hruns] at hdrawn ⊢
    exact .of_tables rfl rfl hdrawn
  have hobserved : Chronicles self s p.observed := by
    refine (MasteringService.observeAll_invariant (P := fun t => Chronicles self s t)
      (hi.sameRows p.begun_quiet.toSameRows) hbegun ?_ p.observes).2
    exact fun _ _ _ _ _ hi hs ho => hs.trans (MasteringService.observe_chronicles hi ho)
  unfold finished MasteringService.finishBatch
  cases p.run with
  | none => exact hobserved.aside rfl rfl (Nat.le_succ _)
  | some run => exact hobserved.aside rfl rfl (Nat.le_succ _)

/-- Every request is a sequence of events. -/
theorem next_chronicles (h : Integrity rt w s) (request : Request) :
    Chronicles ⟨rt, request.who, w⟩ s ((service rt).next s request) := by
  cases ht : transact rt s request with
  | error e =>
    have hsame : (service rt).next s request = s := by simp only [System.next, service, ht]
    exact hsame.symm ▸ Relation.ReflTransGen.refl
  | ok committed =>
    obtain ⟨s', answer⟩ := committed
    rw [show (service rt).next s request = s' by simp only [System.next, service, ht]]
    obtain ⟨-, hs⟩ := transact_serve h.workspaces ht
    cases request with
    | createDomain =>
      simp only [serve, Except.bind_eq_ok, Except.pure_eq_ok, Prod.exists, Prod.mk.injEq] at hs
      obtain ⟨_, _, hs, rfl, -⟩ := hs
      exact MasteringService.createDomain_chronicles hs
    | createSource =>
      simp only [serve, Except.bind_eq_ok, Except.pure_eq_ok, Prod.exists, Prod.mk.injEq] at hs
      obtain ⟨_, _, hs, rfl, -⟩ := hs
      exact MasteringService.createSource_chronicles hs
    | replaceSource =>
      simp only [serve, Except.bind_eq_ok, Except.pure_eq_ok, Prod.exists, Prod.mk.injEq] at hs
      obtain ⟨_, _, hs, rfl, -⟩ := hs
      exact MasteringService.replaceSource_chronicles hs
    | createRelationship =>
      simp only [serve, Except.bind_eq_ok, Except.pure_eq_ok, Prod.mk.injEq] at hs
      obtain ⟨_, hs, rfl, -⟩ := hs
      exact MasteringService.createRelationship_chronicles hs
    | ingest who req =>
      simp only [serve, Except.bind_eq_ok, Except.pure_eq_ok, Prod.exists, Prod.mk.injEq] at hs
      obtain ⟨_, _, hs, rfl, -⟩ := hs
      rcases MasteringService.ingest_cases hs with ⟨rfl, -⟩ | ⟨p, rfl, -⟩
      · exact .refl
      · exact p.chronicles h
    | proposeMerge =>
      simp only [serve, Except.bind_eq_ok, Except.pure_eq_ok, Prod.exists, Prod.mk.injEq] at hs
      obtain ⟨_, _, _, hs, rfl, -⟩ := hs
      exact MasteringService.proposeMerge_chronicles hs
    | proposeSplit =>
      simp only [serve, Except.bind_eq_ok, Except.pure_eq_ok, Prod.exists, Prod.mk.injEq] at hs
      obtain ⟨_, _, hs, rfl, -⟩ := hs
      exact MasteringService.proposeSplit_chronicles hs
    | decideTask =>
      simp only [serve, Except.bind_eq_ok, Except.pure_eq_ok, Prod.exists, Prod.mk.injEq] at hs
      obtain ⟨_, _, hs, rfl, -⟩ := hs
      exact MasteringService.decideTask_chronicles h hs
    | createConfig =>
      simp only [serve, Except.bind_eq_ok, Except.pure_eq_ok, Prod.exists, Prod.mk.injEq] at hs
      obtain ⟨_, _, hs, rfl, -⟩ := hs
      exact MasteringService.createConfig_chronicles hs
    | revertConfig =>
      simp only [serve, Except.bind_eq_ok, Except.pure_eq_ok, Prod.exists, Prod.mk.injEq] at hs
      obtain ⟨_, _, hs, rfl, -⟩ := hs
      exact MasteringService.revertConfig_chronicles hs
    | simulate =>
      simp only [serve, Except.bind_eq_ok, Except.pure_eq_ok, Prod.exists, Prod.mk.injEq] at hs
      obtain ⟨_, _, hs, rfl, -⟩ := hs
      obtain ⟨-, -, -, -, -, rfl⟩ := MasteringService.simulate_details hs
      exact .of_tables rfl rfl (Nat.le_succ _)
    | proposeConfig =>
      simp only [serve, Except.bind_eq_ok, Except.pure_eq_ok, Prod.exists, Prod.mk.injEq] at hs
      obtain ⟨_, _, hs, rfl, -⟩ := hs
      exact MasteringService.proposeConfig_chronicles hs
    | runJob =>
      simp only [serve, Except.bind_eq_ok, Except.pure_eq_ok, Prod.mk.injEq] at hs
      obtain ⟨_, hs, rfl, -⟩ := hs
      exact MasteringService.runJob_chronicles hs

theorem chronicled_step (hi : Integrity rt w s) (h : Chronicled rt w s) (request : Request) :
    Chronicled rt w ((service rt).next s request) ∧ KeepsClosed s ((service rt).next s request) :=
  (next_chronicles hi request).chronicled h

theorem chronicled_reachable (h : Reachable rt w s) : Chronicled rt w s := by
  obtain ⟨requests, rfl⟩ := h
  refine ((service rt).run_invariant (P := fun s => Integrity rt w s ∧ Chronicled rt w s)
    ⟨integrity_empty, .empty⟩ ((service rt).along_of_forall (fun _ _ => trivial) requests) ?_).2
  intro s request hs (_ : True)
  exact ⟨integrity_step hs.1 request, (chronicled_step hs.1 hs.2 request).1⟩

end Recordlane
