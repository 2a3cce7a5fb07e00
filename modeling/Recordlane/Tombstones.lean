import Recordlane.Retirements

/-! The tombstones that complete a full run, as records of the request schema. -/
namespace Recordlane

variable {rt : Runtime} {w : Workspace} {self : MasteringService} {s t : Store} {source : Source}
  {req : IngestRequest} {request : Request} {o : SourceObject} {runId localId : String} {task : ReviewTask}
  {who : Principal}

/-- Every local key has the length that the schema admits. -/
def KeysBounded (s : Store) : Prop :=
  ∀ key ∈ s.objects.map SourceObject.key, 1 ≤ key.2.2.length ∧ key.2.2.length ≤ 255

namespace KeysBounded

theorem of_keys (h : KeysBounded s)
    (hkeys : t.objects.map SourceObject.key = s.objects.map SourceObject.key) : KeysBounded t := by
  unfold KeysBounded
  rw [hkeys]
  exact h

theorem of_rows (h : KeysBounded s) (hrows : SameRows rt s t) : KeysBounded t :=
  h.of_keys (congrArg _ hrows.objects)

theorem mapObjects {f : SourceObject → SourceObject} (h : KeysBounded s) (hf : ∀ o, (f o).key = o.key) :
    KeysBounded (s.mapObjects f) := by
  refine h.of_keys ?_
  change (s.objects.map f).map SourceObject.key = _
  rw [List.map_map]
  exact List.map_congr_left fun o _ => hf o

theorem merged {ids : List Id} {x : Id} (h : KeysBounded s) : KeysBounded (s.merged ids x) := by
  have hgathered : KeysBounded (s.mapObjects (gather ids x)) := h.mapObjects fun o => by
    unfold gather
    split <;> rfl
  exact hgathered

theorem split {ids : List Id} {x : Id} {e : Entity} (h : KeysBounded s) :
    KeysBounded (s.split ids x e) := by
  have hattached : KeysBounded ((s.insertEntity e).mapObjects (attach ids e.id)) := by
    refine KeysBounded.mapObjects h fun o => ?_
    unfold attach
    split <;> rfl
  exact hattached

theorem opens {domainKey : String} {item : IncomingRecord} (h : KeysBounded s)
    (hopen : Opens self s source domainKey item.localId t o) : KeysBounded t := by
  cases hopen with
  | known _ _ => exact h
  | new _ =>
    intro key hkey
    rw [show (s.insertObject _).objects.map SourceObject.key = s.objects.map SourceObject.key ++
      [(source.id, domainKey, item.localId)] from List.map_append] at hkey
    rcases List.mem_append.mp hkey with hkey | hkey
    · exact h key hkey
    · rw [List.mem_singleton.mp hkey]
      exact item.localId_bounds

theorem page (h : KeysBounded s) (hi : Integrity self.rt self.workspace s) (p : Page self s req) :
    KeysBounded p.finished := by
  refine (p.invariant (P := KeysBounded) hi h (fun _ _ hq hb => hb.of_rows hq.toSameRows) ?_).2
  intro s s' item v _ hi hb ho
  refine MasteringService.observe_invariant hi hb (fun _ _ hopen => hb.opens hopen) ?_ ho
  intro t o d _ ht _ hround
  refine ht.of_keys ?_
  rw [hround.objects]
  exact Table.map_modify fun o => after_key

theorem decision {d : Decision} (h : KeysBounded s) (he : DecisionEffect self s task d t) :
    KeysBounded t := by
  cases he with
  | quiet _ hq => exact h.of_rows hq.toSameRows
  | approveMaster _ ha => exact h.of_keys (congrArg _ ha.kept.toSameRows.objects)
  | merge _ _ _ _ _ hf => exact h.merged.of_rows hf.toSameRows
  | split _ _ _ _ _ _ _ _ hf => exact h.split.of_rows hf.toSameRows
  | link _ _ _ _ _ hf => exact h.merged.of_rows hf.toSameRows
  | keepApart _ _ _ hf => exact h.of_keys (congrArg _ hf.toSameRows.objects)

theorem effect (h : KeysBounded s) (hi : Integrity rt w s) (he : RequestEffect rt w s request t) :
    KeysBounded t := by
  cases he with
  | quiet hq => exact h.of_rows hq.toSameRows
  | page _ p => exact h.page hi p
  | decision _ hd => exact h.decision hd
  | job hj =>
    exact MasteringService.runJob_invariant (P := KeysBounded) h
      (fun _ _ hq hb => hb.of_rows hq.toSameRows) (fun _ _ _ _ hb => hb) (fun _ _ hb => hb) hj

end KeysBounded

theorem keysBounded_reachable (h : Reachable rt w s) : KeysBounded s := by
  obtain ⟨requests, rfl⟩ := h
  refine ((service rt).run_invariant (P := fun s => Integrity rt w s ∧ KeysBounded s)
    ⟨integrity_empty, ?_⟩ ((service rt).along_of_forall (fun _ _ => trivial) requests) ?_).2
  · intro key hkey
    simp [Store.empty] at hkey
  · intro s request hs (_ : True)
    exact ⟨integrity_step hs.1 request, hs.2.effect hs.1 (next_effect hs.1 request)⟩

/-- A tombstone that completes a snapshot is a record of the schema, if its version fits. -/
theorem MasteringService.snapshotTombstone_ok_iff
    (hkey : 1 ≤ localId.length ∧ localId.length ≤ 255) :
    (∃ tombstone, snapshotTombstone runId localId = .ok tombstone) ↔ runId.length ≤ 64 := by
  have hlength : ("snapshot-delete:" ++ runId).length = 16 + runId.length := by
    rw [String.length_append]
    rfl
  unfold snapshotTombstone
  dsimp only
  rw [dif_pos hkey]
  constructor
  · rintro ⟨tombstone, h⟩
    split at h
    · next hversion =>
      omega
    · cases h
  · intro hrun
    rw [dif_pos (by omega)]
    exact ⟨_, rfl⟩

/-- A page that its run takes and its principal may write. -/
structure Opening (svc : MasteringService) (s : Store) (req : IngestRequest) where
  source : Source
  domain : Domain
  begun : Store
  run : Option IngestionRun
  policy : CompiledPolicy
  found : svc.sourceAndDomain s req = .ok (source, domain)
  begins : svc.beginPage s source req = .ok (.page begun run)
  authorized : svc.authorize domain req.records = .ok policy

namespace Opening

/-- The local keys the run has shown, this page included. -/
def seen (p : Opening self s req) : List String := MasteringService.runSeen p.run ++ req.seenIds

/-- The work list of the page, or what is raised by a tombstone in it. -/
def work (p : Opening self s req) : Py (List IncomingRecord) :=
  self.workRecords p.begun p.source req p.run p.seen

/-- The active objects that the page is to retire: those that the run has not shown, once it is
complete. -/
def unseen (p : Opening self s req) : List SourceObject :=
  if p.run.isSome && req.extractionMode = .full && req.completeSnapshot then
    self.unseenObjects p.begun p.source req.domainKey p.seen
  else []

/-- The tombstones of the page are records of the schema, and do not abort it. -/
structure Retires {svc : MasteringService} (p : Opening svc s req) : Prop where
  valid : ∀ o ∈ p.unseen, ∃ tombstone,
    MasteringService.snapshotTombstone (req.runId.getD "") o.localId = .ok tombstone
  goes_on : ∃ work, p.work = .ok work

theorem work_eq (p : Opening self s req) : p.work = do
    let tombstones ← p.unseen.mapM fun o =>
      MasteringService.snapshotTombstone (req.runId.getD "") o.localId
    return req.records ++ tombstones := by
  unfold work unseen MasteringService.workRecords
  split
  · rfl
  · rw [List.mapM_nil]
    exact congrArg Except.ok (List.append_nil _).symm

theorem ingest_aborts (p : Opening self s req) {e : Raised} (h : p.work = .error e) :
    self.ingest s req = .error e := by
  have hpage : self.ingestPage p.begun p.source p.domain req p.run = .error e := by
    unfold MasteringService.ingestPage
    rw [p.authorized]
    change (p.work >>= _) = _
    rw [h]
    rfl
  unfold MasteringService.ingest
  rw [p.found]
  change (self.beginPage s p.source req >>= _) = _
  rw [p.begins]
  change (self.ingestPage p.begun p.source p.domain req p.run >>= _) = _
  rw [hpage]
  rfl

theorem unseen_mem (p : Opening self s req) (h : o ∈ p.unseen) : o ∈ s.objects := by
  unfold unseen at h
  split at h
  · have hscanned := List.mem_of_mem_filter h
    rw [self.rt.mem_scan, (MasteringService.beginPage_quiet p.begins).toSameRows.objects] at hscanned
    exact List.mem_of_mem_filter hscanned
  · cases h

theorem valid_iff (hs : Reachable rt w s) (p : Opening ⟨rt, who, w⟩ s req) (ho : o ∈ p.unseen) :
    (∃ tombstone, MasteringService.snapshotTombstone (req.runId.getD "") o.localId = .ok tombstone) ↔
      (req.runId.getD "").length ≤ 64 :=
  MasteringService.snapshotTombstone_ok_iff
    (keysBounded_reachable hs _ (List.mem_map_of_mem (p.unseen_mem ho)))

theorem retires_of_fits (hs : Reachable rt w s) (p : Opening ⟨rt, who, w⟩ s req)
    (hfits : p.unseen = [] ∨ (req.runId.getD "").length ≤ 64) : p.Retires := by
  have hall : ∀ o ∈ p.unseen, ∃ tombstone,
      MasteringService.snapshotTombstone (req.runId.getD "") o.localId = .ok tombstone := by
    intro o ho
    rcases hfits with hnone | hfits
    · rw [hnone] at ho
      cases ho
    · exact (p.valid_iff hs ho).mpr hfits
  refine ⟨hall, ?_⟩
  obtain ⟨tombstones, htombstones⟩ := Except.mapM_isOk hall
  exact ⟨req.records ++ tombstones, by rw [p.work_eq, htombstones]; rfl⟩

end Opening

/-- The tombstones of a page are records of the schema and do not abort it, if and only if there is
nothing to retire or the name of its run is short enough. -/
theorem tombstones_retire_iff (hs : Reachable rt w s) (p : Opening ⟨rt, who, w⟩ s req) :
    p.Retires ↔ (p.unseen = [] ∨ (req.runId.getD "").length ≤ 64) := by
  constructor
  · intro hretires
    cases hunseen : p.unseen with
    | nil => exact .inl rfl
    | cons o _ =>
      have ho : o ∈ p.unseen := hunseen ▸ List.mem_cons_self
      exact .inr ((p.valid_iff hs ho).mp (hretires.valid o ho))
  · exact p.retires_of_fits hs

theorem ingest_refused (hs : Reachable rt w s) (p : Opening ⟨rt, who, w⟩ s req) (h : ¬ p.Retires) :
    MasteringService.ingest ⟨rt, who, w⟩ s req = .error (.validation "version") := by
  obtain ⟨hunseen, hlong⟩ := not_or.mp (mt (p.retires_of_fits hs) h)
  obtain ⟨o, others, hcons⟩ := List.exists_cons_of_ne_nil hunseen
  have ho : o ∈ p.unseen := hcons ▸ List.mem_cons_self
  have hkey : 1 ≤ o.localId.length ∧ o.localId.length ≤ 255 :=
    keysBounded_reachable hs _ (List.mem_map_of_mem (p.unseen_mem ho))
  have hlength : ("snapshot-delete:" ++ req.runId.getD "").length = 16 + (req.runId.getD "").length := by
    rw [String.length_append]
    rfl
  have hraised : MasteringService.snapshotTombstone (req.runId.getD "") o.localId =
      .error (.validation "version") := by
    unfold MasteringService.snapshotTombstone
    dsimp only
    rw [dif_pos hkey, dif_neg (by omega)]
  apply p.ingest_aborts
  rw [p.work_eq, hcons, List.mapM_cons, hraised]
  rfl

namespace Supplier

/-- A run of one page, which shows the supplier B. -/
def onlyPage (runId : String) : IngestRequest :=
  { batch [observation "b" "1" [("name", .str "B")]] with
    runId := some runId
    extractionMode := .full
    completeSnapshot := true
    sourceComplete := true }

/-- The name of a run that its requests admit. -/
def longRun : String := String.ofList (List.replicate 65 'r')

/-- What the page finds when it opens. -/
def opens (runId : String) (unseen : Nat) : Bool :=
  match master.sourceAndDomain (after [three]) (onlyPage runId) with
  | .error _ => false
  | .ok (source, domain) =>
    match master.beginPage (after [three]) source (onlyPage runId) with
    | .ok (.page begun run) =>
      (master.authorize domain (onlyPage runId).records).isOk && run.isSome &&
        (master.unseenObjects begun source "supplier"
          (MasteringService.runSeen run ++ (onlyPage runId).seenIds)).length = unseen
    | _ => false

theorem opening_of_opens (runId : String) (n : Nat) (h : opens runId n = true) :
    ∃ p : Opening master (after [three]) (onlyPage runId), p.unseen.length = n := by
  unfold opens at h
  split at h
  · cases h
  · next source domain hfound =>
    split at h
    · next begun run hbegins =>
      simp only [Bool.and_eq_true, decide_eq_true_eq] at h
      obtain ⟨⟨hauthorized, hrun⟩, hunseen⟩ := h
      cases hpolicy : master.authorize domain (onlyPage runId).records with
      | error e =>
        rw [hpolicy] at hauthorized
        cases hauthorized
      | ok policy =>
        refine ⟨⟨source, domain, begun, run, policy, hfound, hbegins, hpolicy⟩, ?_⟩
        unfold Opening.unseen
        rw [if_pos (by rw [hrun]; rfl)]
        exact hunseen
    · cases h

/-- A run with a short name retires the two suppliers that it has not shown. -/
theorem retires_short : ∃ p : Opening master (after [three]) (onlyPage "r1"),
    p.unseen.length = 2 ∧ p.Retires := by
  obtain ⟨p, hunseen⟩ := opening_of_opens "r1" 2 (by decide +kernel)
  exact ⟨p, hunseen, (tombstones_retire_iff ⟨setup ++ [three], rfl⟩ p).mpr (.inr (by decide))⟩

/-- A run with a long name is aborted by its own tombstones. -/
theorem long_run_aborts : ¬ ∀ s, Reachable .plain workspace s → ∀ req : IngestRequest,
    (∀ runId ∈ req.runId, 1 ≤ runId.length ∧ runId.length ≤ 120) →
      ∀ p : Opening master s req, p.Retires := by
  intro hall
  obtain ⟨p, hunseen⟩ := opening_of_opens longRun 2 (by decide +kernel)
  have hretires := hall _ ⟨setup ++ [three], rfl⟩ (onlyPage longRun)
    (by simp only [onlyPage, Option.mem_some_iff, forall_eq']; decide) p
  cases hcases : p.unseen with
  | nil =>
    rw [hcases] at hunseen
    cases hunseen
  | cons o _ =>
    have ho : o ∈ p.unseen := hcases ▸ List.mem_cons_self
    have hshort := (MasteringService.snapshotTombstone_ok_iff (keysBounded_reachable
      ⟨setup ++ [three], rfl⟩ _ (List.mem_map_of_mem (p.unseen_mem ho)))).mp (hretires.valid o ho)
    exact absurd hshort (by decide)

end Supplier

end Recordlane
