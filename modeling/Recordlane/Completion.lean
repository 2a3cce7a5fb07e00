import Recordlane.ExtractionRuns
import Recordlane.FieldControl

/-! Completion of extraction runs: what ends a run, and what becomes of its pages afterwards. -/
namespace Recordlane

variable {rt : Runtime} {w : Workspace} {self : MasteringService} {s t : Store}
  {req : IngestRequest} {request : Request} {r : IngestionRun} {who : Principal}

namespace Request

/-- The run that a request names, where it has started. -/
def run? (rt : Runtime) (s : Store) : Request → Option IngestionRun
  | .ingest who req =>
    match MasteringService.start rt who s with
    | .ok self => (self.source? s req.sourceKey).bind fun source =>
        req.run?.bind fun externalId => self.run? s source req.domainKey externalId
    | .error _ => none
  | _ => none

/-- The request announces no page after it. -/
def isLast : Request → Bool
  | .ingest _ req => req.nextCursor.isNone
  | _ => true

def hasNoCursor : Request → Bool
  | .ingest _ req => req.pageCursor.isNone
  | _ => false

/-- The request completes a snapshot, with the evidence that the service asks for. -/
def completesSnapshot : Request → Bool
  | .ingest _ req =>
    req.run?.isSome && req.extractionMode = .full && req.completeSnapshot && req.sourceComplete
  | _ => false

end Request

/-- Only a last page completes a snapshot, and a page without cursor is not new to a run that is
complete. -/
def EndsRuns (rt : Runtime) (s : Store) (request : Request) : Prop :=
  (request.completesSnapshot → request.isLast) ∧
    ∀ r ∈ request.run? rt s, r.status = .complete → request.hasNoCursor →
      "__start__" ∈ r.checkpoint.processedCursors

instance : Decidable (EndsRuns rt s request) :=
  inferInstanceAs (Decidable ((request.completesSnapshot → request.isLast) ∧
    ∀ r ∈ request.run? rt s, r.status = .complete → request.hasNoCursor →
      "__start__" ∈ r.checkpoint.processedCursors))

/-- A request completes a run, or retires an object without a tombstone of its own, only as a last
page; nothing is taken for a run that is complete. -/
structure CompletesFinally (rt : Runtime) (s : Store) (request : Request) : Prop where
  completes : ∀ r ∈ ((service rt).next s request).runs, r.status = .complete → request.isLast ∨
    ∃ r' ∈ s.runs, r'.id = r.id ∧ r'.status = .complete
  retires : ∀ o ∈ s.objects, o.retired = false → ∀ o' ∈ ((service rt).next s request).objects,
    o'.id = o.id → o'.retired = true → request.isLast ∨
      ∃ a ∈ request.arrivals rt s, a.key = o.key ∧ a.item.deleted ∧ a.item ∈ request.records
  closed : ∀ r ∈ request.run? rt s, r.status = .complete →
    ingestedBatch ((service rt).step s request).2 = false ∧
      ((service rt).next s request).objects = s.objects

/-- A run that is complete announces no page. -/
def CompleteLast (s : Store) : Prop :=
  ∀ r ∈ s.runs, r.status = .complete → r.checkpoint.nextCursor = none

theorem next_of_not_ingested (hi : Integrity rt w s)
    (h : ingestedBatch ((service rt).step s (.ingest who req)).2 = false) :
    (service rt).next s (.ingest who req) = s := by
  cases ht : transact rt s (.ingest who req) with
  | error e => simp only [System.next, service, ht]
  | ok committed =>
    obtain ⟨t, answer⟩ := committed
    obtain ⟨-, hserve⟩ := transact_serve hi.workspaces ht
    simp only [serve, Except.bind_eq_ok, Except.pure_eq_ok, Prod.exists, Prod.mk.injEq] at hserve
    obtain ⟨u, a, hingest, rfl, rfl⟩ := hserve
    rcases MasteringService.ingest_cases hingest with ⟨rfl, -⟩ | ⟨p, -, rfl⟩
    · simp only [System.next, service, ht]
    · simp only [service, ht] at h
      cases h

namespace Page

theorem unfinished (p : Page ⟨rt, who, w⟩ s req) (he : Extracting rt s)
    (hlast : CompleteLast s) (hstart : MasteringService.start rt who s = .ok ⟨rt, who, w⟩)
    (hends : EndsRuns rt s (.ingest who req)) {u : Store} {externalId : String}
    (hrun : req.run? = some externalId)
    (hr : Continues ⟨rt, who, w⟩ s p.source req externalId u r) : r.status = .running := by
  cases hr with
  | new => rfl
  | known hr _ hkey hcursor =>
    cases hstatus : r.status with
    | running => rfl
    | complete =>
      have hmem := (he.run?.mp hr).1
      have hcursor : req.pageCursor = none := by
        rcases hcursor with hempty | hcursor
        · exact (he.started r hmem hempty).elim
        · rw [hcursor, hlast r hmem hstatus]
      have hnamed : (Request.ingest who req).run? rt s = some r := by
        simp only [Request.run?, hstart, p.source_found, Option.bind_some, hrun, hr]
      have hknown := hends.2 r hnamed hstatus (by simp [Request.hasNoCursor, hcursor])
      refine (hkey ?_).elim
      rw [IngestRequest.pageKey, hcursor]
      exact hknown

/-- What a page does to the rows of runs: one of them takes the page, and it was not complete. -/
theorem completes (p : Page ⟨rt, who, w⟩ s req) (hi : Integrity rt w s) (he : Extracting rt s)
    (hlast : CompleteLast s) (hstart : MasteringService.start rt who s = .ok ⟨rt, who, w⟩)
    (hends : EndsRuns rt s (.ingest who req)) : ∀ r ∈ p.finished.runs, r.status = .complete →
      r ∈ s.runs ∨ req.nextCursor = none ∧ r.checkpoint.nextCursor = none := by
  rcases p.runs hi with ⟨-, -, hruns⟩ |
    ⟨externalId, r, u, hrun, hr, hcontinues, -, hsnapshot, f, hf, hruns⟩
  · intro r hr _
    exact .inl (hruns ▸ hr)
  · obtain ⟨hids, -, -, hmem⟩ := hcontinues.extracting he
    have hrunning := p.unfinished he hlast hstart hends hrun hcontinues
    intro row hrow hcomplete
    rw [hruns, Table.mem_modify] at hrow
    rcases hrow with ⟨hrow, hne⟩ | ⟨row, hrow, hid, rfl⟩
    · rcases hmem row hrow with rfl | hrow
      · exact (hne rfl).elim
      · exact .inl hrow
    · obtain rfl := hids.eq_of_mem hrow hcontinues.mem hid
      rw [hf.status, hrunning] at hcomplete
      have hcompletes : req.completes = true := by
        by_contra hnot
        rw [if_neg hnot] at hcomplete
        cases hcomplete
      have hnext : req.nextCursor = none := by
        rcases Bool.or_eq_true_iff.mp hcompletes with hcompletes | hdelta
        · obtain ⟨hfull, hevidence⟩ := hsnapshot hcompletes
          simpa [Request.isLast] using hends.1 (by
            simp [Request.completesSnapshot, hrun, hfull, hcompletes, hevidence])
        · simpa using (Bool.and_eq_true_iff.mp hdelta).2
      refine .inr ⟨hnext, ?_⟩
      rw [hf.checkpoint]
      exact hnext

/-- A page retires an object with a tombstone of its own, or completes a snapshot. -/
theorem retires (p : Page ⟨rt, who, w⟩ s req) (hi : Integrity rt w s)
    (hi' : Integrity rt w p.finished) {o o' : SourceObject} (ho : o ∈ s.objects)
    (hactive : o.retired = false) (ho' : o' ∈ p.finished.objects) (hid : o'.id = o.id)
    (hretired : o'.retired = true) : (Request.ingest who req).completesSnapshot = true ∨
      ∃ a ∈ p.arrivals, a.key = o.key ∧ a.item.deleted = true ∧ a.item ∈ req.records := by
  obtain ⟨o'', ho'', hid'', hby, -⟩ := p.stands hi ho
  obtain rfl := hi'.objectIds.eq_of_mem ho' ho'' (hid.trans hid''.symm)
  rw [hretired, hactive] at hby
  -- the last observation that is admitted is a tombstone
  obtain ⟨item, hitem, hdeleted, hkey⟩ : ∃ item ∈ p.work, item.deleted = true ∧
      o.key = (p.source.id, req.domainKey, item.localId) := by
    unfold retiredBy at hby
    rw [eq_comm, Option.getD_eq_iff] at hby
    obtain ⟨item, hlast, hdeleted⟩ := Option.map_eq_some_iff.mp (hby.resolve_right (by simp))
    have hmem := Standing.admitted_subset item (List.mem_of_getLast? hlast)
    obtain ⟨hmem, hkey⟩ := List.mem_filter.mp hmem
    exact ⟨item, hmem, hdeleted, of_decide_eq_true hkey⟩
  by_cases hcomplete : (p.run.isSome && req.extractionMode = .full && req.completeSnapshot) = true
  · refine .inl ?_
    simp only [Bool.and_eq_true, decide_eq_true_eq] at hcomplete
    obtain ⟨⟨hsome, hfull⟩, hcomplete⟩ := hcomplete
    rcases p.runs hi with ⟨-, hnone, -⟩ | ⟨externalId, r, u, hrun, -, -, -, hsnapshot, -⟩
    · rw [hnone] at hsome
      cases hsome
    · simp [Request.completesSnapshot, hrun, hfull, hcomplete, (hsnapshot hcomplete).2]
  · have hwork : p.work = req.records := by
      have hlisted := p.work_listed
      rw [MasteringService.workRecords, if_neg hcomplete] at hlisted
      exact (Except.ok.inj hlisted).symm
    refine .inr ?_
    have harrival : item ∈ p.arrivals.map Arrival.item := by
      rw [Page.arrivals, arrivalsOf_items]
      exact hitem
    obtain ⟨a, ha, rfl⟩ := List.mem_map.mp harrival
    refine ⟨a, ha, ?_, hdeleted, hwork ▸ hitem⟩
    obtain ⟨_, -, rfl⟩ := List.mem_map.mp ha
    exact hkey.symm

end Page

theorem runs_next (hi : Integrity rt w s) (h : ∀ who req, request ≠ .ingest who req) :
    ((service rt).next s request).runs = s.runs := by
  rcases next_runs hi request with hruns | ⟨who, req, -, hrequest, -⟩
  · exact hruns
  · exact (h who req hrequest).elim

theorem completesFinally_of_runs (hlast : CompleteLast s)
    (hruns : ((service rt).next s request).runs = s.runs) (hpage : request.isLast = true)
    (hnone : request.run? rt s = none) :
    CompletesFinally rt s request ∧ CompleteLast ((service rt).next s request) := by
  refine ⟨⟨fun _ _ _ => .inl hpage, fun _ _ _ _ _ _ _ => .inl hpage, fun r hr => ?_⟩, fun r hr => ?_⟩
  · rw [hnone] at hr
    cases hr
  · exact hlast r (hruns ▸ hr)

/-- Where snapshots are completed by last pages, completion is final for every request. -/
theorem completesFinally_step (hi : Integrity rt w s) (he : Extracting rt s) (hlast : CompleteLast s)
    (hends : EndsRuns rt s request) :
    CompletesFinally rt s request ∧ CompleteLast ((service rt).next s request) := by
  cases request with
  | ingest who req =>
    cases hingested : ingestedBatch ((service rt).step s (.ingest who req)).2 with
    | false =>
      have hnext := next_of_not_ingested hi hingested
      refine ⟨⟨fun r hr hstatus => ?_, fun o ho hactive o' ho' hid hretired => ?_, fun r _ _ => ?_⟩, ?_⟩
      · rw [hnext] at hr
        exact .inr ⟨r, hr, rfl, hstatus⟩
      · rw [hnext] at ho'
        obtain rfl := hi.objectIds.eq_of_mem ho' ho hid
        rw [hactive] at hretired
        cases hretired
      · exact ⟨hingested, by rw [hnext]⟩
      · rw [hnext]
        exact hlast
    | true =>
      obtain ⟨p, hstart, hnext⟩ := page_of_ingested hi hingested
      have hi' := integrity_step hi (.ingest who req)
      rw [hnext] at hi'
      have hcompletes := p.completes hi he hlast hstart hends
      refine ⟨⟨fun r hr hstatus => ?_, fun o ho hactive o' ho' hid hretired => ?_, fun r hr hstatus => ?_⟩,
        fun r hr hstatus => ?_⟩
      · rw [hnext] at hr
        rcases hcompletes r hr hstatus with hr | ⟨hnone, -⟩
        · exact .inr ⟨r, hr, rfl, hstatus⟩
        · exact .inl (by simp [Request.isLast, hnone])
      · rw [hnext] at ho'
        rw [p.arrivals_eq hstart]
        exact (p.retires hi hi' ho hactive ho' hid hretired).imp_left hends.1
      · -- a page was taken, so the run it names is not complete
        exfalso
        rcases p.runs hi with ⟨hnone, -⟩ | ⟨externalId, r', u, hrun, -, hcontinues, -⟩
        · simp [Request.run?, hstart, hnone, p.source_found] at hr
        · have hrunning := p.unfinished he hlast hstart hends hrun hcontinues
          simp only [Request.run?, hstart, p.source_found, hrun, Option.bind_some] at hr
          cases hcontinues with
          | known hr' =>
            rw [hr'] at hr
            cases hr
            rw [hstatus] at hrunning
            cases hrunning
          | new hn =>
            rw [hn] at hr
            cases hr
      · rw [hnext] at hr
        rcases hcompletes r hr hstatus with hr | ⟨-, hnone⟩
        · exact hlast r hr hstatus
        · exact hnone
  | _ => exact completesFinally_of_runs hlast (runs_next hi (by rintro _ _ ⟨⟩)) rfl rfl

/-- In a run in which only last pages complete snapshots, and no page without cursor is new to a run
that is complete, completion is final. -/
theorem completion_final {requests : List Request}
    (h : (service rt).Along (EndsRuns rt) (Store.empty w) requests) :
    (service rt).Along (CompletesFinally rt) (Store.empty w) requests := by
  refine (service rt).along_of_invariant (P := fun s => Integrity rt w s ∧ Extracting rt s ∧
    CompleteLast s) ⟨integrity_empty, .empty, by simp [CompleteLast, Store.empty]⟩ h ?_
  rintro s request ⟨hi, he, hlast⟩ hends
  obtain ⟨hfinal, hlast'⟩ := completesFinally_step hi he hlast hends
  exact ⟨hfinal, integrity_step hi request, extracting_step hi he request, hlast'⟩

namespace Supplier

/-- A page of a full run; the last one completes the snapshot. -/
def fullPage (records : List IncomingRecord) (cursor next : Option String) (last : Bool) : Request :=
  .ingest (steward "alice") { batch records with
    runId := some "r1"
    extractionMode := .full
    pageCursor := cursor
    nextCursor := next
    completeSnapshot := last
    sourceComplete := last }

/-- Two pages, of which the second one completes the snapshot. -/
def twoPages : List Request := setup ++ [
  fullPage [observation "a" "1" [("name", .str "A")]] none (some "c") false,
  fullPage [observation "b" "1" [("name", .str "B")]] (some "c") none true]

theorem completion_final_twoPages :
    (service .plain).Along (CompletesFinally .plain) (Store.empty workspace) twoPages :=
  completion_final (by decide +kernel)

/-- A run that starts with the cursor 0 is complete after one page. -/
def onePage : List Request := setup ++ [
  fullPage [observation "a" "1" [("name", .str "A")]] (some "0") none true]

/-- A page without cursor is taken again, although the run is complete. -/
def reopening : Request := fullPage [observation "b" "1" [("name", .str "B")]] none none true

/-- A page that announces another one completes the snapshot. -/
def premature : Request := fullPage [observation "a" "1" [("name", .str "A")]] none (some "c") true

theorem completion_reopened :
    ¬ (service .plain).Along (CompletesFinally .plain) (Store.empty workspace) (onePage ++ [reopening]) ∧
      ¬ (service .plain).Along (CompletesFinally .plain) (Store.empty workspace)
        (setup ++ [premature]) := by
  constructor
  · intro h
    have hclosed : ¬ ∀ r ∈ reopening.run? .plain ((service .plain).run (Store.empty workspace) onePage),
        r.status = .complete → ingestedBatch ((service .plain).step
          ((service .plain).run (Store.empty workspace) onePage) reopening).2 = false := by
      decide +kernel
    exact hclosed fun r hr hstatus => (h.at.closed r hr hstatus).1
  · intro h
    have hcompletes : ¬ ∀ r ∈ ((service .plain).next ((service .plain).run (Store.empty workspace) setup)
        premature).runs, r.status = .complete → premature.isLast ∨
          ∃ r' ∈ ((service .plain).run (Store.empty workspace) setup).runs,
            r'.id = r.id ∧ r'.status = .complete := by
      decide +kernel
    exact hcompletes h.at.completes

end Supplier

end Recordlane
