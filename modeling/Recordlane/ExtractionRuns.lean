import Recordlane.Batches
import Recordlane.Governance

/-! The rows of extraction runs: how a page continues a run, and what completes it. -/
namespace Recordlane

variable {rt : Runtime} {w : Workspace} {self : MasteringService} {s s' t u : Store}
  {source : Source} {req : IngestRequest} {request : Request} {r : IngestionRun} {externalId : String}

/-- What identifies a run in the database. -/
def IngestionRun.key (r : IngestionRun) : Id × Id × String × String :=
  (r.workspaceId, r.sourceId, r.domainKey, r.externalId)

/-- Whether the page is the last one of its run. -/
def IngestRequest.completes (req : IngestRequest) : Bool :=
  req.completeSnapshot || (req.extractionMode = .delta && req.nextCursor.isNone)

/-- The run that a page starts. -/
def MasteringService.newRun (self : MasteringService) (s : Store) (source : Source)
    (req : IngestRequest) (externalId : String) : IngestionRun where
  id := self.fresh s
  workspaceId := self.wid
  sourceId := source.id
  domainKey := req.domainKey
  externalId := externalId
  extractionMode := req.extractionMode
  status := .running
  snapshotPosition := req.snapshotPosition
  handoffFrom := req.handoffFrom
  checkpoint := ⟨[], none, none⟩
  seenLocalIds := []
  recordsProcessed := 0
  sourceComplete := false
  completedAt := none

/-- The run that a page belongs to: one it continues, or one it starts. -/
inductive Continues (svc : MasteringService) (s : Store) (source : Source) (req : IngestRequest)
    (externalId : String) : Store → IngestionRun → Prop
  | known {r : IngestionRun} (hr : svc.run? s source req.domainKey externalId = some r)
      (hmode : r.extractionMode = req.extractionMode)
      (hkey : req.pageKey ∉ r.checkpoint.processedCursors)
      (hcursor : r.checkpoint.processedCursors = [] ∨ req.pageCursor = r.checkpoint.nextCursor) :
      Continues svc s source req externalId s r
  | new (hn : svc.run? s source req.domainKey externalId = none)
      (hstart : req.pageCursor = none ∨ req.pageCursor = some "" ∨ req.pageCursor = some "0") :
      Continues svc s source req externalId
        { s with runs := s.runs ++ [svc.newRun s source req externalId], drawn := s.drawn + 1 }
        (svc.newRun s source req externalId)

namespace Continues

theorem key (h : Continues self s source req externalId t r) :
    r.key = (self.wid, source.id, req.domainKey, externalId) := by
  cases h with
  | known hr =>
    have hfound := List.find?_some hr
    simp only [Bool.and_eq_true, decide_eq_true_eq] at hfound
    obtain ⟨⟨⟨hw, hs⟩, hd⟩, he⟩ := hfound
    rw [IngestionRun.key, hw, hs, hd, he]
  | new => rfl

theorem mem (h : Continues self s source req externalId t r) : r ∈ t.runs := by
  cases h with
  | known hr => exact List.mem_of_find?_eq_some hr
  | new => exact List.mem_append_right _ (List.mem_singleton_self _)

end Continues

/-- The row of a run after one more page. -/
structure Turns (req : IngestRequest) (seen : List String) (r : IngestionRun)
    (f : IngestionRun → IngestionRun) : Prop where
  id : ∀ row, (f row).id = row.id
  key : ∀ row, (f row).key = row.key
  mode : ∀ row, (f row).extractionMode = row.extractionMode
  checkpoint : ∀ row, (f row).checkpoint =
    ⟨r.checkpoint.processedCursors ++ [req.pageKey], req.pageCursor, req.nextCursor⟩
  seen : ∀ row, (f row).seenLocalIds = sortedSet seen
  status : ∀ row, (f row).status = if req.completes then .complete else row.status

namespace MasteringService

theorem openRun_continues {run : Option IngestionRun}
    (h : self.openRun s source req externalId = .ok (.page t run)) :
    ∃ r, run = some r ∧ Continues self s source req externalId t r := by
  unfold openRun at h
  split at h
  · next r hr =>
    split at h
    · cases h
    · next hmode =>
      split at h
      · cases h
      · next hkey =>
        split at h
        · cases h
        · next hcursor =>
          cases h
          refine ⟨r, rfl, .known hr (of_not_not hmode) (by simpa using hkey) ?_⟩
          by_cases hempty : r.checkpoint.processedCursors = []
          · exact .inl hempty
          · exact .inr (by simpa [hempty] using hcursor)
  · next hn =>
    split at h
    · cases h
    · next hstart =>
      cases h
      refine ⟨_, rfl, .new hn ?_⟩
      simp only [ne_eq, decide_not, Bool.and_eq_true, Bool.not_eq_true', decide_eq_false_iff_not,
        not_and, not_not] at hstart
      by_cases hnone : req.pageCursor = none
      · exact .inl hnone
      · by_cases hblank : req.pageCursor = some ""
        · exact .inr (.inl hblank)
        · exact .inr (.inr (hstart ⟨hnone, hblank⟩))

/-- The run that a page belongs to, and what its checks have written. -/
theorem beginPage_cases {run : Option IngestionRun}
    (h : self.beginPage s source req = .ok (.page t run)) :
    (req.run? = none ∧ t = s ∧ run = none) ∨
      ∃ externalId r u, req.run? = some externalId ∧ run = some r ∧
        Continues self s source req externalId u r ∧
        (req.completeSnapshot = true → req.extractionMode = .full ∧ req.sourceComplete = true) ∧
        ∃ position : IngestionRun → Option String, t = modifyRun u r fun row =>
          { row with snapshotPosition := position row } := by
  unfold beginPage at h
  split at h
  · next hrun =>
    split at h
    · cases h
    · cases h
      exact .inl ⟨hrun, rfl, rfl⟩
  · next externalId hrun =>
    rw [Except.bind_eq_ok] at h
    obtain ⟨start, hstart, h⟩ := h
    split at h
    · cases h
    · obtain ⟨r, hr, -⟩ := openRun_continues hstart
      cases hr
    · next u r =>
      obtain ⟨_, hr, hcontinues⟩ := openRun_continues hstart
      cases hr
      rw [Except.bind_eq_ok] at h
      obtain ⟨v, hhandoff, h⟩ := h
      have hposition : ∃ position : IngestionRun → Option String, v = modifyRun u r fun row =>
          { row with snapshotPosition := position row } := by
        unfold checkHandoff at hhandoff
        split at hhandoff
        · cases hhandoff
          refine ⟨IngestionRun.snapshotPosition, ?_⟩
          rw [modifyRun, Table.modify_of_id fun _ => rfl]
        · split at hhandoff
          · cases hhandoff
          · split at hhandoff
            · cases hhandoff
            · next parent _ =>
              cases hhandoff
              exact ⟨fun _ => parent.snapshotPosition, rfl⟩
      split at h
      · cases h
      · next hfull =>
        split at h
        · cases h
        · next hcomplete =>
          cases h
          refine .inr ⟨externalId, r, u, hrun, rfl, hcontinues, fun hsnapshot => ?_, hposition⟩
          rw [hsnapshot] at hfull hcomplete
          simpa using And.intro hfull hcomplete

end MasteringService

theorem Page.runs (p : Page self s req) (hi : Integrity self.rt self.workspace s) :
    (req.run? = none ∧ p.run = none ∧ p.finished.runs = s.runs) ∨
      ∃ externalId r u, req.run? = some externalId ∧ p.run = some r ∧
        Continues self s p.source req externalId u r ∧ u.drawn ≤ p.finished.drawn ∧
        (req.completeSnapshot = true → req.extractionMode = .full ∧ req.sourceComplete = true) ∧
        ∃ f, Turns req p.seen r f ∧
          p.finished.runs = Table.modify IngestionRun.id u.runs r.id f := by
  have hobserved := p.observed_around hi
  rcases MasteringService.beginPage_cases p.begins with ⟨hrun, hbegun, hnone⟩ |
    ⟨externalId, r, u, hrun, hr, hcontinues, hcomplete, position, hbegun⟩
  · refine .inl ⟨hrun, hnone, ?_⟩
    have hfinished : p.finished.runs = p.observed.runs := by
      rw [Page.finished, hnone]
      rfl
    rw [hfinished, hobserved.runs, hbegun]
  · refine .inr ⟨externalId, r, u, hrun, hr, hcontinues, ?_, hcomplete, ?_⟩
    · have hdrawn : u.drawn = p.begun.drawn := by rw [hbegun]; rfl
      exact hdrawn.trans_le (hobserved.drawn.trans p.finished_quiet.drawn)
    · have hfinished : ∃ n time, p.finished.runs =
          Table.modify IngestionRun.id p.observed.runs r.id fun row => { row with
            seenLocalIds := sortedSet p.seen
            recordsProcessed := row.recordsProcessed + n
            checkpoint := ⟨r.checkpoint.processedCursors ++ [req.pageKey], req.pageCursor, req.nextCursor⟩
            sourceComplete := req.completeSnapshot && req.sourceComplete
            status := if req.completes then .complete else row.status
            completedAt := if req.completes then some time else row.completedAt } := by
        unfold Page.finished MasteringService.finishBatch
        rw [hr]
        exact ⟨_, _, rfl⟩
      obtain ⟨n, time, hruns⟩ := hfinished
      have hbegunRuns : p.begun.runs = Table.modify IngestionRun.id u.runs r.id fun row =>
          { row with snapshotPosition := position row } := by
        rw [hbegun]
        rfl
      rw [hobserved.runs, hbegunRuns, Table.modify_modify] at hruns
      · refine ⟨_, ?_, hruns⟩
        constructor <;> exact fun _ => rfl
      · exact fun _ => rfl

/-- Runs are identified by their ids and by their keys, and each of them has taken a page. -/
structure Extracting (rt : Runtime) (s : Store) : Prop where
  ids : Table.Keyed IngestionRun.id s.runs
  keys : Table.Keyed IngestionRun.key s.runs
  drawn : ∀ r ∈ s.runs, Drawn rt s.drawn r.id
  started : ∀ r ∈ s.runs, r.checkpoint.processedCursors ≠ []

namespace Extracting

theorem empty : Extracting rt (Store.empty w) := by
  constructor <;> simp [Store.empty, Table.Keyed]

theorem of_runs (h : Extracting rt s) (hruns : t.runs = s.runs) (hdrawn : s.drawn ≤ t.drawn) :
    Extracting rt t where
  ids := hruns ▸ h.ids
  keys := hruns ▸ h.keys
  drawn r hr := (h.drawn r (hruns ▸ hr)).mono hdrawn
  started r hr := h.started r (hruns ▸ hr)

theorem run? (h : Extracting rt s) {domainKey : String} :
    self.run? s source domainKey externalId = some r ↔
      r ∈ s.runs ∧ r.key = (self.wid, source.id, domainKey, externalId) := by
  have hfind : self.run? s source domainKey externalId =
      Table.find IngestionRun.key s.runs (self.wid, source.id, domainKey, externalId) := by
    unfold MasteringService.run? Table.find
    congr 1
    funext r
    simp [IngestionRun.key, Prod.ext_iff, Bool.and_assoc]
  rw [hfind, h.keys.find_iff]

end Extracting

theorem Continues.extracting (h : Continues self s source req externalId u r)
    (he : Extracting self.rt s) : Table.Keyed IngestionRun.id u.runs ∧
      Table.Keyed IngestionRun.key u.runs ∧ (∀ row ∈ u.runs, Drawn self.rt u.drawn row.id) ∧
      ∀ row ∈ u.runs, row = r ∨ row ∈ s.runs := by
  cases h with
  | known hr =>
    exact ⟨he.ids, he.keys, he.drawn, fun row hrow => .inr hrow⟩
  | new hn =>
    refine ⟨he.ids.append ?_, he.keys.append ?_, ?_, ?_⟩
    · exact fun row hrow => (he.drawn row hrow).ne_uid
    · intro row hrow hkey
      have hfound : self.run? s source req.domainKey externalId = some row :=
        he.run?.mpr ⟨hrow, hkey⟩
      rw [hn] at hfound
      cases hfound
    · intro row hrow
      rcases List.mem_append.mp hrow with hrow | hrow
      · exact (he.drawn row hrow).mono (Nat.le_succ _)
      · rw [List.mem_singleton.mp hrow]
        exact drawn_uid (Nat.lt_succ_self _)
    · intro row hrow
      rcases List.mem_append.mp hrow with hrow | hrow
      · exact .inr hrow
      · exact .inl (List.mem_singleton.mp hrow)

theorem Page.drawn (p : Page self s req) (hi : Integrity self.rt self.workspace s) :
    s.drawn ≤ p.finished.drawn :=
  (p.begun_quiet.drawn.trans (p.observed_around hi).drawn).trans p.finished_quiet.drawn

theorem Page.extracting (p : Page self s req) (hi : Integrity self.rt self.workspace s)
    (he : Extracting self.rt s) : Extracting self.rt p.finished := by
  rcases p.runs hi with ⟨-, -, hruns⟩ | ⟨externalId, r, u, -, -, hcontinues, hdrawn, -, f, hf, hruns⟩
  · exact he.of_runs hruns (p.drawn hi)
  · obtain ⟨hids, hkeys, hall, hmem⟩ := hcontinues.extracting he
    constructor
    · rw [hruns, Table.Keyed, Table.map_key_modify hf.id]
      exact hids
    · rw [hruns, Table.Keyed, Table.map_modify hf.key]
      exact hkeys
    · intro row hrow
      rw [hruns, Table.mem_modify] at hrow
      rcases hrow with ⟨hrow, -⟩ | ⟨row, hrow, -, rfl⟩
      · exact (hall row hrow).mono hdrawn
      · rw [hf.id]
        exact (hall row hrow).mono hdrawn
    · intro row hrow
      rw [hruns, Table.mem_modify] at hrow
      rcases hrow with ⟨hrow, hne⟩ | ⟨row, -, -, rfl⟩
      · rcases hmem row hrow with rfl | hrow
        · exact (hne rfl).elim
        · exact he.started row hrow
      · rw [hf.checkpoint]
        exact List.append_ne_nil_of_right_ne_nil _ (List.cons_ne_nil _ _)

theorem Activating.runs {taskId : Id} {reason : String} (a : Activating self s taskId reason t) :
    t.runs = s.runs := by
  obtain ⟨config, -, simulation, -, policies, jobs, u, -, -, -, -, -, -, hfold, hframe⟩ := a.spec
  rw [hframe.runs]
  refine Except.foldlM_invariant (P := fun state => state.1.runs = s.runs) hfold rfl ?_
  intro state entry state' _ hstate hstep
  obtain ⟨d, job, -, -, -, hstate'⟩ := MasteringService.activateDomain_cases hstep
  rw [hstate']
  exact hstate

/-- Only a page writes runs. -/
theorem next_runs (hi : Integrity rt w s) (request : Request) :
    ((service rt).next s request).runs = s.runs ∨
      ∃ who req, ∃ p : Page ⟨rt, who, w⟩ s req, request = .ingest who req ∧
        ((service rt).step s request).2.isOk = true ∧ (service rt).next s request = p.finished := by
  rcases next_writing hi request with haside | ⟨hok, hwriting⟩
  · exact .inl haside.runs
  · generalize (service rt).next s request = t at hwriting ⊢
    cases hwriting with
    | created h =>
      unfold MasteringService.createDomain at h
      split at h
      · cases h
      · simp only [Except.bind_eq_ok, Except.pure_eq_ok, Prod.mk.injEq] at h
        obtain ⟨_, -, rfl, -⟩ := h
        exact .inl rfl
    | page p => exact .inr ⟨_, _, p, rfl, hok, rfl⟩
    | activated a => exact .inl a.runs
    | job h =>
      unfold MasteringService.runJob at h
      split at h
      · cases h
      · simp only [Except.bind_eq_ok, Except.pure_eq_ok] at h
        obtain ⟨u, hu, rfl⟩ := h
        exact .inl (MasteringService.remasterDomain_around hu).runs

theorem extracting_step (hi : Integrity rt w s) (he : Extracting rt s) (request : Request) :
    Extracting rt ((service rt).next s request) := by
  rcases next_runs hi request with hruns | ⟨who, req, p, -, -, hnext⟩
  · exact he.of_runs hruns (next_registers hi request).drawn
  · rw [hnext]
    exact p.extracting hi he

end Recordlane
