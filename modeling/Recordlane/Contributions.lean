import Recordlane.MergedEntities

/-! The copy of a membership that the current record of an object carries. -/
namespace Recordlane

variable {rt : Runtime} {w : Workspace} {self : MasteringService} {s t : Store} {request : Request}
  {task : ReviewTask} {d : Decision} {o : SourceObject}

/-- The current record of every object belongs to the entity that the object belongs to. -/
def Synchronized (s : Store) : Prop :=
  ∀ o ∈ s.objects, ∀ r ∈ s.records, o.currentRecordId = some r.id → r.entityId = o.entityId

instance (s : Store) : Decidable (Synchronized s) :=
  inferInstanceAs (Decidable (∀ o ∈ s.objects, ∀ r ∈ s.records, o.currentRecordId = some r.id →
    r.entityId = o.entityId))

/-- The objects that a decision moves to another entity. -/
def ReviewTask.Moves (task : ReviewTask) (d : Decision) (o : SourceObject) : Prop :=
  match task.payload, d with
  | .mergeApproval impact _, .approve =>
    ∃ x ∈ impact.mergedEntityIds, o.entityId = some x ∧ x ≠ impact.primaryEntityId
  | .splitApproval _ objects _, .approve => o.entityId = task.entityId ∧ o.id ∈ objects
  | .duplicateMatch _ _ _ _ target _ _, .link => o.entityId = task.entityId ∧ o.entityId ≠ some target
  | _, _ => False

instance : Decidable (task.Moves d o) := by
  unfold ReviewTask.Moves
  split <;> infer_instance

/-- No object that the decision moves has a current record. -/
def MovesNoContribution (s : Store) (task : ReviewTask) (d : Decision) : Prop :=
  ∀ o ∈ s.objects, task.Moves d o → o.currentRecordId = none

instance : Decidable (MovesNoContribution s task d) :=
  inferInstanceAs (Decidable (∀ o ∈ s.objects, task.Moves d o → o.currentRecordId = none))

namespace Synchronized

theorem sameRows (h : Synchronized s) (hq : SameRows rt s t) : Synchronized t := by
  unfold Synchronized
  rw [hq.objects, hq.records]
  exact h

theorem mapObjects (h : Synchronized s) {f : SourceObject → SourceObject}
    (hcurrent : ∀ o, (f o).currentRecordId = o.currentRecordId)
    (hf : ∀ o ∈ s.objects, o.currentRecordId.isSome → (f o).entityId = o.entityId) :
    Synchronized (s.mapObjects f) := by
  intro o' ho' r hr hid
  obtain ⟨o, ho, rfl⟩ := List.mem_map.mp ho'
  rw [hcurrent] at hid
  rw [hf o ho (by rw [hid]; rfl)]
  exact h o ho r hr hid

theorem mapRecords (h : Synchronized s) {f : SourceRecord → SourceRecord}
    (hf : ∀ r, (f r).id = r.id ∧ (f r).entityId = r.entityId) : Synchronized (s.mapRecords f) := by
  intro o ho r' hr' hid
  obtain ⟨r, hr, rfl⟩ := List.mem_map.mp hr'
  rw [(hf r).1] at hid
  rw [(hf r).2]
  exact h o ho r hr hid

theorem opens {source : Source} {domainKey localId : String}
    (ho : Opens self s source domainKey localId t o) (h : Synchronized s) : Synchronized t := by
  cases ho with
  | known => exact h
  | new =>
    intro o' ho' r hr hid
    rcases List.mem_append.mp ho' with ho' | ho'
    · exact h o' ho' r hr hid
    · rw [List.mem_singleton.mp ho'] at hid
      cases hid

/-- A round that makes its record the current one writes the entity of its object on it. -/
theorem round {source : Source} {domainKey : String} {policy : CompiledPolicy} {item : IncomingRecord}
    {v : Verdict} {c : Findings} (hi : Integrity self.rt self.workspace s) (h : Synchronized s)
    (ho : o ∈ s.objects) (hr : Round self s source domainKey policy o item v t c) : Synchronized t := by
  have hold : ∀ o' ∈ s.objects, o'.currentRecordId ≠ some (self.fresh s) := by
    intro o' ho' hid
    obtain ⟨-, r, hr, hrid, -⟩ := hi.currentRecord o' ho' _ hid
    exact (hi.records r hr).2.ne_uid hrid
  intro o' ho' r hr' hid
  rw [hr.objects] at ho'
  rw [hr.records] at hr'
  rcases Table.mem_modify.mp ho' with ⟨ho', -⟩ | ⟨row, hrow, hkey, rfl⟩
  · rcases List.mem_append.mp hr' with hr' | hr'
    · exact h o' ho' r hr' hid
    · rw [List.mem_singleton.mp hr'] at hid
      exact (hold o' ho' hid).elim
  · obtain rfl := hi.objectIds.eq_of_mem hrow ho hkey
    have hattaches := hr.attaches
    rcases List.mem_append.mp hr' with hr' | hr'
    · -- an older record is current only where the round leaves the contribution alone
      have hne : r.id ≠ self.fresh s := (hi.records r hr').2.ne_uid
      cases v with
      | duplicate => exact h row hrow r hr' hid
      | quarantined => exact h row hrow r hr' hid
      | outOfOrder => exact h row hrow r hr' hid
      | retired => cases hid
      | updated => exact (hne (Option.some.inj hid).symm).elim
      | resolved => exact (hne (Option.some.inj hid).symm).elim
    · rw [List.mem_singleton.mp hr'] at hid ⊢
      cases v with
      | duplicate => exact (hold row hrow hid).elim
      | quarantined => exact (hold row hrow hid).elim
      | outOfOrder => exact (hold row hrow hid).elim
      | retired => cases hid
      | updated => exact hattaches
      | resolved => exact hattaches

theorem merged (h : Synchronized s) {ids : List Id} {target : Id}
    (hm : ∀ o ∈ s.objects, ∀ x ∈ ids, o.entityId = some x → x ≠ target → o.currentRecordId = none) :
    Synchronized (s.merged ids target) := by
  refine h.mapObjects (fun o => gather_contribution.1) fun o ho hsome => ?_
  unfold gather
  split
  · next hx =>
    obtain ⟨x, hx, hentity⟩ := hx
    by_cases htarget : x = target
    · rw [hentity, htarget]
    · rw [hm o ho x hx hentity htarget] at hsome
      cases hsome
  · rfl

theorem split (h : Synchronized s) {ids : List Id} {original : Id} {new : Entity}
    (hm : ∀ o ∈ s.objects, o.id ∈ ids → o.currentRecordId = none) :
    Synchronized (s.split ids original new) := by
  refine Synchronized.mapObjects (s := s.insertEntity new) h (fun o => ?_) fun o ho hsome => ?_
  · unfold attach
    split <;> rfl
  · unfold attach
    split
    · next hid =>
      rw [hm o ho hid] at hsome
      cases hsome
    · rfl

theorem decision (he : DecisionEffect self s task d t) (h : Synchronized s)
    (hc : MovesNoContribution s task d) : Synchronized t := by
  cases he with
  | quiet _ hq => exact h.sameRows hq.toSameRows
  | @approveMaster _ _ _ e _ _ ha =>
    have hmap : Synchronized (s.mapEntities (approveEntity e.id)) := h
    exact hmap.sameRows ha.kept.toSameRows
  | @merge impact _ _ _ hp _ hid _ _ hf =>
    refine (h.merged fun o ho x hx hentity hne => hc o ho ?_).sameRows hf.toQuiet.toSameRows
    rw [hid] at hne
    simpa only [ReviewTask.Moves, hp] using ⟨x, hx, hentity, hne⟩
  | split hp _ ht hm _ _ _ _ hf =>
    refine (h.split fun o ho hid => hc o ho ?_).sameRows hf.toQuiet.toSameRows
    obtain ⟨hentity, hlisted⟩ := hm o ho hid
    simpa only [ReviewTask.Moves, hp] using ⟨hentity.trans ht.symm, hlisted⟩
  | @link _ _ _ _ targetId _ _ source target _ hp _ hsid _ htid hf =>
    refine (h.merged fun o ho x hx hentity hne => hc o ho ?_).sameRows hf.toQuiet.toSameRows
    rw [List.mem_singleton.mp hx] at hentity hne
    have hother : o.entityId ≠ some targetId := by
      rw [hentity, ← htid]
      exact fun heq => hne (Option.some.inj heq)
    simpa only [ReviewTask.Moves, hp] using ⟨hentity.trans hsid.symm, hother⟩
  | keepApart _ _ _ hf =>
    refine Synchronized.sameRows ?_ hf.toQuiet.toSameRows
    exact h

end Synchronized

theorem synchronized_step (hi : Integrity rt w s) (h : Synchronized s)
    (hc : ∀ p ∈ request.taken? rt s, MovesNoContribution s p.1 p.2) :
    Synchronized ((service rt).next s request) := by
  have heffect := next_effect hi request
  generalize (service rt).next s request = t at heffect
  cases heffect with
  | quiet hq => exact h.sameRows hq.toSameRows
  | page _ p =>
    exact (p.invariant (P := Synchronized) hi h (fun _ _ hq hs => hs.sameRows hq.toSameRows)
      fun _ _ _ _ _ hi hs ho => MasteringService.observe_invariant (P := Synchronized) hi hs
        (fun _ _ hopen => hs.opens hopen)
        (fun _ _ _ hopen hs hi hr => hs.round hi hopen.mem hr) ho).2
  | decision hd he => exact Synchronized.decision he h (hc _ hd)
  | job hj =>
    refine MasteringService.runJob_invariant (P := Synchronized) h
      (fun _ _ hq hs => hs.sameRows hq.toSameRows) (fun _ _ _ _ hs => hs.mapRecords fun r => ?_)
      (fun _ _ hs => hs) hj
    unfold renormalize onRow
    split <;> exact ⟨rfl, rfl⟩

/-- As long as no decision moves an object with a current record, the two copies agree. -/
theorem synchronized_run {requests : List Request}
    (h : (service rt).Along (fun s request => ∀ p ∈ request.taken? rt s,
      MovesNoContribution s p.1 p.2) (Store.empty w) requests) :
    Synchronized ((service rt).run (Store.empty w) requests) := by
  refine ((service rt).run_invariant (P := fun s => Integrity rt w s ∧ Synchronized s)
    ⟨integrity_empty, ?_⟩ h fun s request hs hc => ?_).2
  · simp [Synchronized, Store.empty]
  · exact ⟨(next_effect hs.1 request).integrity hs.1, synchronized_step hs.1 hs.2 hc⟩

namespace Supplier

/-- A merge moves an object whose record has been deleted at its source. -/
theorem synchronized_run_retired :
    Synchronized (after [three, ingest [{ observation "b" "2" [] with deleted := true }],
      proposeMerge [uid 8, uid 16], approve (uid 35)]) :=
  synchronized_run (by decide +kernel)

/-- A merge leaves the merged entity on the record of the object that it moves. -/
theorem merging_not_synchronized : Reachable .plain workspace (after merging) ∧
    ¬ Synchronized (after merging) :=
  ⟨⟨_, rfl⟩, by decide +kernel⟩

end Supplier

end Recordlane
