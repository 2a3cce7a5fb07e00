import Recordlane.Redelivery

/-! What the last page of a full run retires: its own tombstones, and those of the objects that no page
has shown. -/
namespace Recordlane

variable {rt : Runtime} {w : Workspace} {self : MasteringService} {s t : Store} {source : Source}
  {req : IngestRequest} {o : SourceObject} {item tombstone : IncomingRecord} {policy : CompiledPolicy}
  {st : Standing} {known : List String} {items : List IncomingRecord} {runId localId : String}

namespace Standing

theorem admitted_concat : admitted rt policy st known (items ++ [item]) =
    admitted rt policy st known items ++
      if item.version ∈ known ∨ item.version ∈ items.map IncomingRecord.version then []
      else if ((admitted rt policy st known items).foldl take st).admits rt policy item then [item]
      else [] := by
  induction items generalizing st known with
  | nil =>
    by_cases hknown : item.version ∈ known
    · simp [admitted, hknown]
    · by_cases hadmits : st.admits rt policy item = true <;> simp [admitted, hknown, hadmits]
  | cons first items ih =>
    rw [List.cons_append, admitted, admitted]
    have hmem : (item.version ∈ first.version :: known ∨
        item.version ∈ items.map IncomingRecord.version) ↔
        (item.version ∈ known ∨ item.version ∈ (first :: items).map IncomingRecord.version) := by
      rw [List.mem_cons, List.map_cons, List.mem_cons]
      tauto
    split
    · next hknown =>
      have hmem' : (item.version ∈ known ∨ item.version ∈ items.map IncomingRecord.version) ↔
          (item.version ∈ known ∨ item.version ∈ (first :: items).map IncomingRecord.version) := by
        rw [List.map_cons, List.mem_cons]
        constructor
        · tauto
        · rintro (hitem | hitem | hitem)
          · exact .inl hitem
          · exact .inl (hitem ▸ hknown)
          · exact .inr hitem
      rw [ih]
      simp only [hmem']
    · split
      · rw [ih, List.cons_append, List.foldl_cons]
        simp only [hmem]
      · rw [ih]
        simp only [hmem]

end Standing

/-- The version of the tombstones that complete a snapshot. -/
def snapshotVersion (runId : String) : String := "snapshot-delete:" ++ runId

/-- A tombstone that completes a snapshot. -/
structure CompletesSnapshot (runId : String) (tombstone : IncomingRecord) : Prop where
  version : tombstone.version = snapshotVersion runId
  deleted : tombstone.deleted = true
  sequence : tombstone.sequence = none
  effectiveFrom : tombstone.effectiveFrom = none

theorem MasteringService.snapshotTombstone_eq (h : snapshotTombstone runId localId = .ok tombstone) :
    tombstone.localId = localId ∧ CompletesSnapshot runId tombstone := by
  unfold snapshotTombstone at h
  dsimp only at h
  split at h
  · split at h
    · cases h
      exact ⟨rfl, rfl, rfl, rfl, rfl⟩
    · cases h
  · cases h

theorem CompletesSnapshot.admits (h : CompletesSnapshot runId tombstone) :
    st.admits rt policy tombstone = true := by
  simp [Standing.admits, observationIsCurrent, h.deleted, h.sequence, h.effectiveFrom]

theorem filter_results {α β κ : Type} [DecidableEq κ] {R : α → β → Prop} {key : α → κ} {face : β → κ}
    {xs : List α} {ys : List β} (h : List.Forall₂ R xs ys) (hface : ∀ x y, R x y → face y = key x)
    (hkeys : (xs.map key).Nodup) {k : κ} :
    (k ∉ xs.map key ∧ ys.filter (fun y => face y = k) = []) ∨
      ∃ x ∈ xs, ∃ y, key x = k ∧ R x y ∧ ys.filter (fun y => face y = k) = [y] := by
  induction h with
  | nil => exact .inl ⟨by simp, rfl⟩
  | @cons x y xs ys hxy hrest ih =>
    rw [List.map_cons, List.nodup_cons] at hkeys
    rw [List.filter_cons, hface x y hxy, List.map_cons]
    by_cases hk : key x = k
    · have hnone : ys.filter (fun y => face y = k) = [] := by
        rw [List.filter_eq_nil_iff]
        intro y' hy' hsame
        obtain ⟨x', hx', hxy'⟩ := (Except.forall₂_mem hrest).1 y' hy'
        rw [decide_eq_true_eq, hface x' y' hxy', ← hk] at hsame
        exact hkeys.1 (hsame ▸ List.mem_map_of_mem hx')
      exact .inr ⟨x, List.mem_cons_self, y, hk, hxy, by simp [hk, hnone]⟩
    · rw [if_neg (by simpa using hk)]
      rcases ih hkeys.2 with ⟨hnot, hnone⟩ | ⟨x', hx', y', hk', hxy', hone⟩
      · exact .inl ⟨by simp [Ne.symm hk, hnot], hnone⟩
      · exact .inr ⟨x', List.mem_cons_of_mem _ hx', y', hk', hxy', hone⟩

/-- The records of a page that are about an object. -/
def IngestRequest.about (req : IngestRequest) (source : Source) (o : SourceObject) :
    List IncomingRecord :=
  req.records.filter fun item => o.key = (source.id, req.domainKey, item.localId)

theorem filter_key {domainKey : String} (h : o.key = (source.id, domainKey, localId)) :
    (items.filter fun item => o.key = (source.id, domainKey, item.localId)) =
      items.filter fun item => item.localId = localId := by
  congr 1
  funext item
  rw [h]
  simp only [Prod.mk.injEq, true_and, eq_comm]

namespace Page

/-- Whether the page completes the snapshot of its run. -/
def completesSnapshot (p : Page self s req) : Bool :=
  p.run.isSome && req.extractionMode = .full && req.completeSnapshot

/-- The work of a completing page under a local key are its records, and a tombstone if the object is
active and no page of the run has shown it. -/
theorem work_at (p : Page self s req) (hi : Integrity self.rt self.workspace s)
    (hcompletes : p.completesSnapshot = true) (localId : String) :
    ((∀ o ∈ s.objects, o.key = (p.source.id, req.domainKey, localId) → o.retired = false →
        localId ∈ p.seen) ∧
      (p.work.filter fun item => item.localId = localId) =
        req.records.filter fun item => item.localId = localId) ∨
      (localId ∉ p.seen ∧ ∃ o ∈ s.objects, o.key = (p.source.id, req.domainKey, localId) ∧
        o.retired = false ∧ ∃ tombstone, CompletesSnapshot (req.runId.getD "") tombstone ∧
          (p.work.filter fun item => item.localId = localId) =
            (req.records.filter fun item => item.localId = localId) ++ [tombstone]) := by
  have hwork := p.work_listed
  have hbegun := p.begun_quiet.toSameRows
  unfold completesSnapshot at hcompletes
  rw [MasteringService.workRecords, if_pos hcompletes, Except.bind_eq_ok] at hwork
  obtain ⟨tombstones, htombstones, hwork⟩ := hwork
  rw [Except.pure_eq_ok] at hwork
  have hunseen : ∀ x, x ∈ self.unseenObjects p.begun p.source req.domainKey p.seen ↔
      x ∈ s.objects ∧ self.isActiveObject p.source req.domainKey x = true ∧ x.localId ∉ p.seen := by
    intro x
    rw [MasteringService.unseenObjects, List.mem_filter, self.rt.mem_scan, List.mem_filter,
      hbegun.objects, and_assoc]
    simp
  have hscope : ∀ x, self.isActiveObject p.source req.domainKey x = true →
      x.key = (p.source.id, req.domainKey, x.localId) ∧ x.retired = false := by
    intro x hx
    simp only [MasteringService.isActiveObject, Bool.and_eq_true, decide_eq_true_eq,
      Bool.not_eq_true'] at hx
    obtain ⟨⟨⟨-, hsource⟩, hdomain⟩, hactive⟩ := hx
    exact ⟨by rw [SourceObject.key, hsource, hdomain], hactive⟩
  -- objects of one source and domain differ in their local keys
  have hkeys : ((self.unseenObjects p.begun p.source req.domainKey p.seen).map
      SourceObject.localId).Nodup := by
    have hall : (s.objects.map SourceObject.key).Nodup := hi.objectKeys
    have hscanned := ((self.rt.scan_perm p.begun.drawn (p.begun.objects.filter
      (self.isActiveObject p.source req.domainKey))).map SourceObject.key).nodup_iff.mpr
      ((List.filter_sublist.map SourceObject.key).nodup (hbegun.objects ▸ hall))
    have hnodup : ((self.unseenObjects p.begun p.source req.domainKey p.seen).map
        SourceObject.key).Nodup := (List.filter_sublist.map SourceObject.key).nodup hscanned
    have hmap : (self.unseenObjects p.begun p.source req.domainKey p.seen).map SourceObject.key =
        ((self.unseenObjects p.begun p.source req.domainKey p.seen).map SourceObject.localId).map
          fun localId => (p.source.id, req.domainKey, localId) := by
      rw [List.map_map]
      exact List.map_congr_left fun x hx => (hscope x ((hunseen x).mp hx).2.1).1
    exact List.Nodup.of_map _ (hmap ▸ hnodup)
  have hsplit : (p.work.filter fun item => item.localId = localId) =
      (req.records.filter fun item => item.localId = localId) ++
        tombstones.filter fun item => item.localId = localId := by
    rw [← hwork, List.filter_append]
  rw [hsplit]
  rcases filter_results (Except.mapM_forall₂ htombstones)
      (fun x y hxy => (MasteringService.snapshotTombstone_eq hxy).1) hkeys (k := localId) with
    ⟨hnot, hnone⟩ | ⟨x, hx, y, hkey, htombstone, hone⟩
  · refine .inl ⟨fun o ho hkey hactive => ?_, by rw [hnone, List.append_nil]⟩
    simp only [SourceObject.key, Prod.mk.injEq] at hkey
    obtain ⟨hsource, hdomain, hlocal⟩ := hkey
    by_contra hseen
    have hworkspace : o.workspaceId = self.wid := (hi.objects o ho).1
    refine hnot (hlocal ▸ List.mem_map_of_mem ((hunseen o).mpr ⟨ho, ?_, hlocal ▸ hseen⟩))
    simp [MasteringService.isActiveObject, hworkspace, hsource, hdomain, hactive]
  · obtain ⟨hmem, hactive, hseen⟩ := (hunseen x).mp hx
    obtain ⟨hkey', hretired⟩ := hscope x hactive
    rw [hkey] at hkey' hseen
    exact .inr ⟨hseen, x, hmem, hkey', hretired, y, (MasteringService.snapshotTombstone_eq htombstone).2,
      by rw [hone]⟩

theorem work_own (p : Page self s req) (hi : Integrity self.rt self.workspace s)
    (hcompletes : p.completesSnapshot = true) (ho : o ∈ s.objects) (hactive : o.retired = false)
    (hkey : o.key = (p.source.id, req.domainKey, o.localId)) :
    (o.localId ∈ p.seen ∧ (p.work.filter fun item =>
        o.key = (p.source.id, req.domainKey, item.localId)) = req.about p.source o) ∨
      (o.localId ∉ p.seen ∧ ∃ tombstone, CompletesSnapshot (req.runId.getD "") tombstone ∧
        (p.work.filter fun item => o.key = (p.source.id, req.domainKey, item.localId)) =
          req.about p.source o ++ [tombstone]) := by
  rw [IngestRequest.about, filter_key hkey, filter_key hkey]
  rcases p.work_at hi hcompletes o.localId with ⟨hseen, hwork⟩ |
    ⟨hseen, -, -, -, -, tombstone, hcompletes', hwork⟩
  · exact .inl ⟨hseen o ho hkey hactive, hwork⟩
  · exact .inr ⟨hseen, tombstone, hcompletes', hwork⟩

theorem retired_foreign (p : Page self s req) (hi : Integrity self.rt self.workspace s)
    (ho : o ∈ s.objects) (hforeign : o.sourceId ≠ p.source.id ∨ o.domainKey ≠ req.domainKey) :
    ∃ o' ∈ p.finished.objects, o'.id = o.id ∧ o'.retired = o.retired := by
  obtain ⟨o', ho', hid, hretired, -⟩ := p.stands hi ho
  have hnone : (p.work.filter fun item => o.key = (p.source.id, req.domainKey, item.localId)) = [] := by
    rw [List.filter_eq_nil_iff]
    intro item _ hkey
    simp only [SourceObject.key, decide_eq_true_eq, Prod.mk.injEq] at hkey
    rcases hforeign with hne | hne
    · exact hne hkey.1
    · exact hne hkey.2.1
  rw [hnone] at hretired
  exact ⟨o', ho', hid, hretired⟩

end Page

/-- The local keys that the pages of a run have shown, this one included. -/
def shownBy (rt : Runtime) (who : Principal) (s : Store) (req : IngestRequest) : List String :=
  (((Request.ingest who req).run? rt s).map IngestionRun.seenLocalIds).getD [] ++ req.seenIds

/-- The records of a page about an object that are admitted. -/
def IngestRequest.admitted (req : IngestRequest) (rt : Runtime) (policy : CompiledPolicy) (s : Store)
    (source : Source) (o : SourceObject) : List IncomingRecord :=
  Standing.admitted rt policy (o.standing s) (o.versions s) (req.about source o)

/-- An object outlasts the last page of a run: the run has shown it, and of the records of the page
about it the last that is admitted is no tombstone; or none is admitted, and neither is the tombstone of
the snapshot, as its version is known already. -/
def Outlasts (rt : Runtime) (policy : CompiledPolicy) (s : Store) (who : Principal) (source : Source)
    (req : IngestRequest) (o : SourceObject) : Prop :=
  if o.localId ∈ shownBy rt who s req then
    ∀ item ∈ (req.admitted rt policy s source o).getLast?, item.deleted = false
  else req.admitted rt policy s source o = [] ∧ (snapshotVersion (req.runId.getD "") ∈ o.versions s ∨
    snapshotVersion (req.runId.getD "") ∈ (req.about source o).map IncomingRecord.version)

instance {who : Principal} : Decidable (Outlasts rt policy s who source req o) :=
  inferInstanceAs (Decidable (if o.localId ∈ shownBy rt who s req then
      ∀ item ∈ (req.admitted rt policy s source o).getLast?, item.deleted = false
    else req.admitted rt policy s source o = [] ∧
      (snapshotVersion (req.runId.getD "") ∈ o.versions s ∨
        snapshotVersion (req.runId.getD "") ∈ (req.about source o).map IncomingRecord.version)))

theorem retiredBy_eq_false {admitted : List IncomingRecord} :
    retiredBy false admitted = false ↔ ∀ item ∈ admitted.getLast?, item.deleted = false := by
  unfold retiredBy
  cases admitted.getLast? <;> simp

namespace Page

variable {who : Principal}

theorem seen_eq (p : Page ⟨rt, who, w⟩ s req) (hi : Integrity rt w s)
    (hstart : MasteringService.start rt who s = .ok ⟨rt, who, w⟩) : p.seen = shownBy rt who s req := by
  unfold seen shownBy
  rcases p.runs hi with ⟨hrun, hnone, -⟩ | ⟨externalId, r, u, hrun, hr, hcontinues, -⟩
  · simp only [hnone, Request.run?, hstart, p.source_found, hrun, Option.bind_some, Option.bind_none,
      Option.map_none, Option.getD_none, MasteringService.runSeen]
  · rw [hr]
    simp only [Request.run?, hstart, p.source_found, hrun, Option.bind_some]
    cases hcontinues with
    | known hr => rw [hr]; rfl
    | new hn => rw [hn]; rfl

theorem about_deleted (p : Page self s req) (hseen : o.localId ∉ p.seen) :
    ∀ item ∈ req.about p.source o, item.deleted = true := by
  intro item hitem
  obtain ⟨hitem, hkey⟩ := List.mem_filter.mp hitem
  simp only [SourceObject.key, decide_eq_true_eq, Prod.mk.injEq] at hkey
  cases hlive : item.deleted with
  | true => rfl
  | false =>
    refine (hseen (List.mem_append_right _ ?_)).elim
    rw [hkey.2.2]
    exact List.mem_map_of_mem (List.mem_filter.mpr ⟨hitem, by rw [hlive]; rfl⟩)

/-- The last page of a run retires an active object unless it outlasts the page. -/
theorem outlasts_iff (p : Page ⟨rt, who, w⟩ s req) (hi : Integrity rt w s)
    (hstart : MasteringService.start rt who s = .ok ⟨rt, who, w⟩)
    (hcompletes : p.completesSnapshot = true) (ho : o ∈ s.objects) (hactive : o.retired = false)
    (hsource : o.sourceId = p.source.id) (hdomain : o.domainKey = req.domainKey) :
    ∃ o' ∈ p.finished.objects, o'.id = o.id ∧
      (o'.retired = false ↔ Outlasts rt p.policy s who p.source req o) := by
  obtain ⟨o', ho', hid, hretired, -⟩ := p.stands hi ho
  refine ⟨o', ho', hid, ?_⟩
  rw [hretired, hactive]
  unfold Outlasts
  have hkey : o.key = (p.source.id, req.domainKey, o.localId) := by
    rw [SourceObject.key, hsource, hdomain]
  rcases p.work_own hi hcompletes ho hactive hkey with ⟨hseen, hown⟩ |
    ⟨hseen, tombstone, htombstone, hown⟩
  · rw [p.seen_eq hi hstart] at hseen
    rw [if_pos hseen, hown]
    exact retiredBy_eq_false
  · have htombstones := p.about_deleted hseen
    rw [p.seen_eq hi hstart] at hseen
    rw [if_neg hseen, hown, Standing.admitted_concat, htombstone.version]
    have hadmitted : Standing.admitted rt p.policy (o.standing s) (o.versions s)
      (req.about p.source o) = req.admitted rt p.policy s p.source o := rfl
    rw [hadmitted]
    generalize req.admitted rt p.policy s p.source o = admitted at hadmitted ⊢
    have hall : ∀ item ∈ admitted, item.deleted = true := by
      intro item hitem
      rw [← hadmitted] at hitem
      exact htombstones item (Standing.admitted_subset item hitem)
    rw [htombstone.admits, if_pos rfl, retiredBy_eq_false]
    by_cases hknown : snapshotVersion (req.runId.getD "") ∈ o.versions s ∨
        snapshotVersion (req.runId.getD "") ∈ (req.about p.source o).map IncomingRecord.version
    · rw [if_pos hknown, List.append_nil]
      constructor
      · intro hlast
        refine ⟨?_, hknown⟩
        by_contra hne
        have hlive := hlast _ (List.getLast?_eq_some_getLast hne)
        rw [hall _ (List.getLast_mem hne)] at hlive
        cases hlive
      · rintro ⟨hnil, -⟩
        simp [hnil]
    · rw [if_neg hknown]
      constructor
      · intro hlast
        have hlive := hlast tombstone (by simp)
        rw [htombstone.deleted] at hlive
        cases hlive
      · rintro ⟨-, hmem⟩
        exact (hknown hmem).elim

end Page

namespace Request

/-- The request is a page of the same run. -/
def isPageOf (req : IngestRequest) : Request → Bool
  | .ingest _ page => page.sourceKey = req.sourceKey && page.domainKey = req.domainKey &&
      page.runId = req.runId
  | _ => false

/-- The request stores a record under an id. -/
def stores (rt : Runtime) (s : Store) (request : Request) (id : Id) : Bool :=
  (s.record? id).isNone && (((service rt).next s request).record? id).isSome

end Request

theorem page_of_completing {s : Store} {who : Principal} {req : IngestRequest} (hi : Integrity rt w s)
    (hcompletes : (Request.ingest who req).completesSnapshot = true)
    (hcommits : ingestedBatch ((service rt).step s (.ingest who req)).2 = true) :
    ∃ p : Page ⟨rt, who, w⟩ s req, MasteringService.start rt who s = .ok ⟨rt, who, w⟩ ∧
      (service rt).next s (.ingest who req) = p.finished ∧ p.completesSnapshot = true := by
  obtain ⟨p, hstart, hnext⟩ := page_of_ingested hi hcommits
  refine ⟨p, hstart, hnext, ?_⟩
  simp only [Request.completesSnapshot, Bool.and_eq_true, decide_eq_true_eq] at hcompletes
  obtain ⟨⟨⟨hrun, hfull⟩, hsnapshot⟩, -⟩ := hcompletes
  rcases p.runs hi with ⟨hnone, -⟩ | ⟨externalId, r, u, -, hr, -⟩
  · rw [hnone] at hrun
    cases hrun
  · simp [Page.completesSnapshot, hr, hfull, hsnapshot]

/-- A full run: the page that opens it, the requests after that, and the page that completes it. -/
structure FullRun (rt : Runtime) (w : Workspace) where
  start : Store
  first : Request
  between : List Request
  who : Principal
  last : IngestRequest
  reachable : Reachable rt w start
  first_page : first.isPageOf last = true
  opens : first.run? rt start = none ∧ ingestedBatch ((service rt).step start first).2 = true
  completes : (Request.ingest who last).completesSnapshot = true
  commits : ingestedBatch ((service rt).step ((service rt).run start (first :: between))
    (.ingest who last)).2 = true

namespace FullRun

/-- The store that the last page finds. -/
def before (x : FullRun rt w) : Store := (service rt).run x.start (x.first :: x.between)

def after (x : FullRun rt w) : Store := (service rt).next x.before (.ingest x.who x.last)

/-- The current observation of the object was stored after the first page, by a request that is no page
of the run. -/
def Newer (x : FullRun rt w) (o : SourceObject) : Prop :=
  o ∈ x.before.objects ∧ ∃ id ∈ o.currentRecordId, ∃ earlier request later,
    x.between = earlier ++ request :: later ∧ request.isPageOf x.last = false ∧
      request.stores rt ((service rt).run x.start (x.first :: earlier)) id = true

/-- The last page retires no such object. -/
def KeepsNewer (x : FullRun rt w) : Prop :=
  ∀ o, x.Newer o → ∀ o' ∈ x.after.objects, o'.id = o.id → o'.retired = false

theorem before_reachable (x : FullRun rt w) : Reachable rt w x.before := by
  obtain ⟨requests, hstart⟩ := x.reachable
  exact ⟨requests ++ x.first :: x.between, by rw [System.run_append, hstart]; rfl⟩

theorem page (x : FullRun rt w) : ∃ p : Page ⟨rt, x.who, w⟩ x.before x.last,
    MasteringService.start rt x.who x.before = .ok ⟨rt, x.who, w⟩ ∧ x.after = p.finished ∧
      p.completesSnapshot = true :=
  page_of_completing (integrity_reachable x.before_reachable) x.completes x.commits

/-- The last page of a full run retires no object whose current observation came from another request
after the first page, if and only if each such object of its source and domain outlasts it. -/
theorem newer_kept_iff (x : FullRun rt w) {source : Source} {domain : Domain} {policy : CompiledPolicy}
    (hsource : MasteringService.source? ⟨rt, x.who, w⟩ x.before x.last.sourceKey = some source)
    (hdomain : MasteringService.domain? ⟨rt, x.who, w⟩ x.before x.last.domainKey = some domain)
    (hpolicy : compilePolicy rt domain.definition = .ok policy) :
    x.KeepsNewer ↔ ∀ o, x.Newer o → o.sourceId = source.id → o.domainKey = x.last.domainKey →
      Outlasts rt policy x.before x.who source x.last o := by
  have hi := integrity_reachable x.before_reachable
  obtain ⟨p, hstart, hafter, hcompletes⟩ := x.page
  have hi' : Integrity rt w p.finished := by
    rw [← hafter]
    exact integrity_step hi _
  have hsame : p.source = source := Option.some.inj (p.source_found.symm.trans hsource)
  have hunder : p.policy = policy := p.policy_eq hdomain hpolicy
  unfold KeepsNewer
  rw [hafter]
  refine forall₂_congr fun o hnewer => ?_
  obtain ⟨ho, id, hid, -⟩ := hnewer
  have hactive : o.retired = false := (hi.currentRecord o ho id hid).1
  by_cases hscope : o.sourceId = source.id ∧ o.domainKey = x.last.domainKey
  · obtain ⟨hscope, hkey⟩ := hscope
    obtain ⟨o', ho', hsameId, hiff⟩ :=
      p.outlasts_iff hi hstart hcompletes ho hactive (hscope.trans (by rw [hsame])) hkey
    rw [hsame, hunder] at hiff
    constructor
    · intro hkept _ _
      exact hiff.mp (hkept o' ho' hsameId)
    · intro houtlasts o'' ho'' hid''
      obtain rfl := hi'.objectIds.eq_of_mem ho'' ho' (hid''.trans hsameId.symm)
      exact hiff.mpr (houtlasts hscope hkey)
  · have hforeign : o.sourceId ≠ p.source.id ∨ o.domainKey ≠ x.last.domainKey := by
      rw [hsame]
      exact not_and_or.mp hscope
    obtain ⟨o', ho', hsameId, hretired⟩ := p.retired_foreign hi ho hforeign
    refine iff_of_true (fun o'' ho'' hid'' => ?_) fun hone htwo => (hscope ⟨hone, htwo⟩).elim
    obtain rfl := hi'.objectIds.eq_of_mem ho'' ho' (hid''.trans hsameId.symm)
    rw [hretired, hactive]

end FullRun

namespace Supplier

/-- The last page of a run of two, which shows the supplier B. -/
def lastPage : IngestRequest :=
  { batch [observation "b" "1" [("name", .str "B")]] with
    runId := some "r1"
    extractionMode := .full
    pageCursor := some "c"
    completeSnapshot := true
    sourceComplete := true }

def setupStore : Store := (service .plain).run (Store.empty workspace) setup

/-- The first page shows the supplier A. -/
def firstPage : Request := fullPage [observation "a" "1" [("name", .str "A")]] none (some "c") false

/-- What a request between the two pages has to leave as it is. -/
def FitsBetween (other : Request) : Prop :=
  (firstPage.run? .plain setupStore = none ∧
    ingestedBatch ((service .plain).step setupStore firstPage).2 = true) ∧
  ingestedBatch ((service .plain).step ((service .plain).run setupStore [firstPage, other])
    (.ingest (steward "alice") lastPage)).2 = true

def interleaved (other : Request) (h : FitsBetween other) : FullRun .plain workspace where
  start := setupStore
  first := firstPage
  between := [other]
  who := steward "alice"
  last := lastPage
  reachable := ⟨setup, rfl⟩
  first_page := rfl
  opens := h.1
  completes := rfl
  commits := h.2

/-- A batch of another client renames the supplier A. -/
def rename : Request := ingest [observation "a" "2" [("name", .str "C")]]

/-- A batch of another client tells of one more supplier. -/
def another : Request := ingest [observation "c" "1" [("name", .str "C")]]

theorem fits_rename : FitsBetween rename := by
  unfold FitsBetween
  decide +kernel

theorem fits_another : FitsBetween another := by
  unfold FitsBetween
  decide +kernel

/-- The snapshot has shown the supplier that is renamed, and keeps it. -/
theorem newer_kept_rename : (interleaved rename fits_rename).KeepsNewer := by
  let x := interleaved rename fits_rename
  have hall : (MasteringService.source? ⟨.plain, x.who, workspace⟩ x.before x.last.sourceKey).any
      fun source =>
      (MasteringService.domain? ⟨.plain, x.who, workspace⟩ x.before x.last.domainKey).any fun domain =>
        (compilePolicy .plain domain.definition).toOption.any fun policy =>
          decide (∀ o ∈ x.before.objects, Outlasts .plain policy x.before x.who source x.last o) := by
    decide +kernel
  obtain ⟨source, hsource, hall⟩ := (Option.any_eq_true _ _).mp hall
  obtain ⟨domain, hdomain, hall⟩ := (Option.any_eq_true _ _).mp hall
  obtain ⟨policy, hpolicy, hall⟩ := Except.of_any hall
  rw [decide_eq_true_eq] at hall
  exact (x.newer_kept_iff hsource hdomain hpolicy).mpr fun o hnewer _ _ => hall o hnewer.1

/-- A supplier that the snapshot could not have seen is retired by its last page. -/
theorem newer_retired : ¬ (interleaved another fits_another).KeepsNewer := by
  have hretired : ∃ o ∈ (interleaved another fits_another).before.objects,
      ∃ id ∈ o.currentRecordId, another.stores .plain ((service .plain).run setupStore [firstPage])
      id = true ∧
        ∃ o' ∈ (interleaved another fits_another).after.objects, o'.id = o.id ∧ o'.retired = true := by
    decide +kernel
  obtain ⟨o, ho, id, hid, hstores, o', ho', hsame, hretired⟩ := hretired
  intro hkept
  have hactive := hkept o ⟨ho, id, hid, [], another, [], rfl, rfl, hstores⟩ o' ho' hsame
  rw [hretired] at hactive
  cases hactive

end Supplier

end Recordlane
