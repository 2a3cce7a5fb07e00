import Recordlane.Batches

/-! Stored observations: they stay what they are, and a round skips what is stored already. -/
namespace Recordlane

variable {rt : Runtime} {w : Workspace} {self : MasteringService} {s s' t : Store}
  {request : Request} {req : IngestRequest} {source : Source} {domainKey : String}
  {policy : CompiledPolicy} {item : IncomingRecord} {items : List IncomingRecord} {sourceId : Id}
  {v : Verdict} {vs : List Verdict} {fault : Option Nat} {index : Nat}

/-- The observation of a source is stored, with the payload of the item. -/
def Holds (rt : Runtime) (s : Store) (sourceId : Id) (domainKey : String) (item : IncomingRecord) : Prop :=
  ∃ r ∈ s.records, r.key = ((sourceId, domainKey, item.localId), item.version) ∧
    ∃ m ∈ s.metas, m.recordId = r.id ∧ m.payloadHash = canonicalHash rt (payload rt item)

/-- Observations are added, and those that are stored keep their keys and their payloads. -/
structure Retains (s t : Store) : Prop where
  records : s.records.map (fun r => (r.id, r.key)) <+: t.records.map fun r => (r.id, r.key)
  metas : s.metas <+: t.metas

theorem Retains.refl (s : Store) : Retains s s := ⟨List.prefix_rfl, List.prefix_rfl⟩

theorem Retains.trans {u : Store} (h : Retains s t) (h' : Retains t u) : Retains s u :=
  ⟨h.records.trans h'.records, h.metas.trans h'.metas⟩

theorem SameRows.retains (h : SameRows rt s t) : Retains s t :=
  ⟨h.records ▸ List.prefix_rfl, h.metas ▸ List.prefix_rfl⟩

theorem Holds.retained (h : Holds rt s sourceId domainKey item) (ht : Retains s t) :
    Holds rt t sourceId domainKey item := by
  obtain ⟨r, hr, hkey, m, hm, hid, hhash⟩ := h
  have hlisted := ht.records.subset (List.mem_map_of_mem (f := fun r => (r.id, r.key)) hr)
  obtain ⟨r', hr', heq⟩ := List.mem_map.mp hlisted
  rw [Prod.mk.injEq] at heq
  exact ⟨r', hr', heq.2.trans hkey, m, ht.metas.subset hm, hid.trans heq.1.symm, hhash⟩

theorem Round.retains {o : SourceObject} {d : Findings}
    (h : Round self s source domainKey policy o item v s' d) : Retains s s' := by
  refine ⟨?_, ?_⟩
  · rw [h.records, List.map_append]
    exact List.prefix_append _ _
  · rw [h.metas]
    exact List.prefix_append _ _

theorem Opens.retains {localId : String} {o : SourceObject}
    (h : Opens self s source domainKey localId t o) : Retains s t :=
  ⟨h.tables.1 ▸ List.prefix_rfl, h.tables.2.2.1 ▸ List.prefix_rfl⟩

namespace MasteringService

theorem observe_retains (h : Integrity self.rt self.workspace s)
    (ho : self.observe s source domainKey policy item = .ok (s', v)) : Retains s s' :=
  observe_invariant h (.refl s) (fun _ _ ht => ht.retains) (fun _ _ _ _ ht _ hr => ht.trans hr.retains) ho

/-- What a round has observed is stored then. -/
theorem observe_holds (h : Integrity self.rt self.workspace s)
    (ho : self.observe s source domainKey policy item = .ok (s', v)) :
    Holds self.rt s' source.id domainKey item := by
  rcases observe_cases h ho with ⟨-, rfl, ⟨r, hstored, hsame⟩, -⟩ | ⟨t, o, d, ht, -, hr⟩
  · obtain ⟨hr, hkey⟩ := storedObservation_some h hstored
    obtain ⟨m, hm, hid⟩ := h.recordMeta r hr
    have hmeta : s'.meta? r.id = some m := h.metaIds.find_iff.mpr ⟨hm, hid⟩
    simp only [samePayload, hmeta, decide_eq_true_eq] at hsame
    exact ⟨r, hr, hkey, m, hm, hid, hsame⟩
  · refine ⟨d.record self t source domainKey o item, ?_, rfl,
      ⟨self.fresh t, o.id, self.payloadHash item, item.sequence, item.updateMode⟩, ?_, rfl, rfl⟩
    · rw [hr.records]
      exact List.mem_append_right _ (List.mem_singleton_self _)
    · rw [hr.metas]
      exact List.mem_append_right _ (List.mem_singleton_self _)

/-- A round skips what is stored. -/
theorem observe_of_holds (h : Integrity self.rt self.workspace s)
    (hh : Holds self.rt s source.id domainKey item) :
    self.observe s source domainKey policy item = .ok (s, .duplicate) := by
  obtain ⟨r, hr, hkey, m, hm, hid, hhash⟩ := hh
  have hobject : r.objectKey = (source.id, domainKey, item.localId) := congrArg Prod.fst hkey
  have hstored : self.storedObservation s source domainKey item = some r := by
    cases hfound : self.storedObservation s source domainKey item with
    | none => exact absurd hkey ((storedObservation_none h).mp hfound r hr)
    | some r' =>
      obtain ⟨hr', hkey'⟩ := storedObservation_some h hfound
      rw [h.recordKeys.eq_of_mem hr' hr (hkey'.trans hkey.symm)]
  have hmeta : s.meta? r.id = some m := h.metaIds.find_iff.mpr ⟨hm, hid⟩
  have hsame : self.samePayload s r item = true := by
    simp only [samePayload, hmeta, hhash, payloadHash, decide_true]
  have hopen := getOrCreate_opens h source domainKey item.localId
  unfold observe
  generalize self.getOrCreateSourceObject s source domainKey item.localId = p at hopen
  obtain ⟨t, o⟩ := p
  have hknown : t = s := by
    cases hopen with
    | known _ _ => rfl
    | new hn =>
      obtain ⟨o', ho', hk'⟩ := h.recordObject r hr
      exact (hn o' ho' (hk'.trans hobject)).elim
  simp only [hknown, hstored, hsame, if_true]

theorem observeAll_holds (h : Integrity self.rt self.workspace s)
    (ho : self.observeAll source domainKey policy fault s index items = .ok (s', vs)) :
    Retains s s' ∧ ∀ item ∈ items, Holds self.rt s' source.id domainKey item := by
  induction items generalizing s index vs with
  | nil =>
    cases ho
    exact ⟨.refl s', nofun⟩
  | cons item items ih =>
    unfold observeAll at ho
    rw [Except.bind_eq_ok] at ho
    obtain ⟨⟨s₁, v⟩, hstep, ho⟩ := ho
    dsimp only at ho
    split at ho
    · cases ho
    · rw [Except.bind_eq_ok] at ho
      obtain ⟨⟨s₂, vs'⟩, hrest, ho⟩ := ho
      cases ho
      obtain ⟨hretains, hall⟩ := ih (observe_integrity h hstep) hrest
      refine ⟨(observe_retains h hstep).trans hretains, fun item' hitem' => ?_⟩
      rcases List.mem_cons.mp hitem' with rfl | hitem'
      · exact (observe_holds h hstep).retained hretains
      · exact hall item' hitem'

theorem observeAll_of_holds (h : Integrity self.rt self.workspace s)
    (hh : ∀ item ∈ items, Holds self.rt s source.id domainKey item) :
    self.observeAll source domainKey policy fault s index items =
      .ok (s, List.replicate items.length .duplicate) := by
  induction items generalizing index with
  | nil => rfl
  | cons item items ih =>
    have hrest := @ih (index + 1) fun item' hitem' => hh item' (List.mem_cons_of_mem _ hitem')
    simp only [observeAll, observe_of_holds h (hh item List.mem_cons_self), hrest, faultStrikes, bind,
      Except.bind, Bool.false_eq_true, if_false]
    rfl

end MasteringService

namespace Page

theorem finished_holds (p : Page self s req) (h : Integrity self.rt self.workspace s) :
    Retains s p.finished ∧ ∀ item ∈ p.work, Holds self.rt p.finished p.source.id req.domainKey item := by
  obtain ⟨hretains, hall⟩ :=
    MasteringService.observeAll_holds (h.sameRows p.begun_quiet.toSameRows) p.observes
  have hfinished := p.finished_quiet.toSameRows.retains
  exact ⟨(p.begun_quiet.toSameRows.retains.trans hretains).trans hfinished,
    fun item hitem => (hall item hitem).retained hfinished⟩

end Page

/-- The tables of mastering are the same; checkpoints and audit entries may differ. -/
structure SameMastering (s t : Store) : Prop where
  objects : t.objects = s.objects
  records : t.records = s.records
  metas : t.metas = s.metas
  blocks : t.blocks = s.blocks
  memberships : t.memberships = s.memberships
  entities : t.entities = s.entities
  masters : t.masters = s.masters
  tasks : t.tasks = s.tasks
  outbox : t.outbox = s.outbox

theorem SameMastering.refl (s : Store) : SameMastering s s := ⟨rfl, rfl, rfl, rfl, rfl, rfl, rfl, rfl, rfl⟩

namespace Page

/-- A page outside extraction runs that brings what is stored changes no table of mastering. -/
theorem finished_of_holds (p : Page self s req) (h : Integrity self.rt self.workspace s)
    (hrun : req.run? = none) (hh : ∀ item ∈ req.records, Holds self.rt s p.source.id req.domainKey item) :
    SameMastering s p.finished ∧ p.verdicts = List.replicate req.records.length .duplicate := by
  have hbegins := p.begins
  unfold MasteringService.beginPage at hbegins
  rw [hrun] at hbegins
  simp only at hbegins
  split at hbegins
  · cases hbegins
  · simp only [Except.pure_eq_ok, PageStart.page.injEq] at hbegins
    obtain ⟨hbegun, hnone⟩ := hbegins
    have hwork : p.work = req.records := by
      have hlisted := p.work_listed
      simp only [MasteringService.workRecords, ← hnone, Option.isSome_none, Bool.false_and,
        Bool.false_eq_true, if_false] at hlisted
      exact (Except.ok.inj hlisted).symm
    have hobserved := p.observes
    rw [← hbegun, hwork, MasteringService.observeAll_of_holds h hh] at hobserved
    obtain ⟨hstore, hverdicts⟩ := Prod.mk.inj (Except.ok.inj hobserved)
    refine ⟨?_, hverdicts.symm⟩
    unfold finished MasteringService.finishBatch
    rw [← hnone, ← hstore]
    exact ⟨rfl, rfl, rfl, rfl, rfl, rfl, rfl, rfl, rfl⟩

end Page

end Recordlane
