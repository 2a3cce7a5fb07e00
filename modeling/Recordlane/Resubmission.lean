import Recordlane.Evidence
import Recordlane.FieldControl
import Recordlane.Replays

/-! Batches that come again: what was committed is skipped, and what contradicts it is refused. -/
namespace Recordlane

variable {rt : Runtime} {w : Workspace} {self : MasteringService} {s t : Store} {req : IngestRequest}
  {who who' : Principal} {domainKey : String} {sourceId : Id} {item : IncomingRecord}

/-- No request changes what an observation is stored under, or the payload it has. -/
theorem request_retains (hi : Integrity rt w s) (request : Request) :
    Retains s ((service rt).next s request) := by
  have he := next_effect hi request
  refine ⟨?_, he.metas hi⟩
  have hcolumns : ∀ rows : List SourceRecord, (rows.map SourceRecord.core).map (fun r => (r.id, r.key)) =
      rows.map fun r => (r.id, r.key) := by
    intro rows
    rw [List.map_map]
    rfl
  have hgrows := (he.grows hi).records.map fun r => (r.id, r.key)
  rwa [hcolumns, hcolumns] at hgrows

theorem next_retains (hi : Integrity rt w s) (hr : Registered rt s) (op : Operation) :
    Retains s ((operations rt).next s op) := by
  have hoperates := next_operates hi hr op
  generalize (operations rt).next s op = t at hoperates
  cases hoperates with
  | request request => exact request_retains hi request
  | refused => exact .refl s
  | imports _ h => exact h.quiet.toSameRows.retains
  | failed h =>
    obtain ⟨jobs, -, rfl⟩ := failJob_writes h
    exact ⟨List.prefix_rfl, List.prefix_rfl⟩

theorem run_retains (hi : Integrity rt w s) (hr : Registered rt s) (ops : List Operation) :
    Retains s ((operations rt).run s ops) ∧ Integrity rt w ((operations rt).run s ops) := by
  induction ops generalizing s with
  | nil => exact ⟨.refl s, hi⟩
  | cons op ops ih =>
    obtain ⟨hi', hr'⟩ := next_sound hi hr op
    obtain ⟨hretains, hrun⟩ := ih hi' hr'
    exact ⟨(next_retains hi hr op).trans hretains, hrun⟩

/-- The source that a key names. -/
def Store.sourceId? (s : Store) (w : Workspace) (key : String) : Option Id :=
  (s.sources.find? fun x => x.workspaceId = w.id && x.key = key).map Source.id

namespace Page

variable {s : Store}

theorem sourceId? (p : Page ⟨rt, who, w⟩ s req) : s.sourceId? w req.sourceKey = some p.source.id :=
  congrArg (Option.map Source.id) p.source_found

theorem work_of_batch (p : Page self s req) (hrun : req.run? = none) : p.work = req.records := by
  have hbegins := p.begins
  unfold MasteringService.beginPage at hbegins
  rw [hrun] at hbegins
  simp only at hbegins
  split at hbegins
  · cases hbegins
  · simp only [Except.pure_eq_ok, PageStart.page.injEq] at hbegins
    have hlisted := p.work_listed
    simp only [MasteringService.workRecords, ← hbegins.2, Option.isSome_none, Bool.false_and,
      Bool.false_eq_true, if_false] at hlisted
    exact (Except.ok.inj hlisted).symm

end Page

/-- An ingestion is a page, or it commits nothing: it raises, or it is answered as a page taken before. -/
theorem ingest_outcome (hi : Integrity rt w s) :
    ((service rt).next s (.ingest who req) = s ∧
      ingestedBatch ((service rt).step s (.ingest who req)).2 = false ∧
      (req.run? = none → ∃ e, ((service rt).step s (.ingest who req)).2 = .error e)) ∨
      ∃ p : Page ⟨rt, who, w⟩ s req, (service rt).next s (.ingest who req) = p.finished ∧
        ((service rt).step s (.ingest who req)).2 = .ok (.ingested (.ingested (Counts.of p.verdicts)
          p.source.key req.runId (MasteringService.sourceCheckpoint p.source req (Counts.of p.verdicts))
          (Counts.of p.verdicts).retired)) := by
  cases ht : transact rt s (.ingest who req) with
  | error e =>
    left
    simp only [System.next, service, ht]
    exact ⟨trivial, rfl, fun _ => ⟨e, rfl⟩⟩
  | ok committed =>
    obtain ⟨s', answer⟩ := committed
    obtain ⟨hstart, hserve⟩ := transact_serve hi.workspaces ht
    simp only [serve, Except.bind_eq_ok, Except.pure_eq_ok, Prod.exists, Prod.mk.injEq] at hserve
    obtain ⟨s₁, a, hingest, rfl, rfl⟩ := hserve
    simp only [System.next, service, ht]
    rcases MasteringService.ingest_cases hingest with ⟨hsame, source, _, _, -, hbegins, rfl⟩ | ⟨p, rfl, rfl⟩
    · refine .inl ⟨hsame, rfl, fun hrun => ?_⟩
      unfold MasteringService.beginPage at hbegins
      rw [hrun] at hbegins
      simp only at hbegins
      split at hbegins <;> cases hbegins
    · exact .inr ⟨p, rfl, rfl⟩

theorem Counts.of_duplicates (n : Nat) :
    Counts.of (List.replicate n .duplicate) = { Counts.zero with duplicate := n } := by
  have hfold : ∀ c : Counts, (List.replicate n Verdict.duplicate).foldl Counts.add c =
      { c with duplicate := c.duplicate + n } := by
    induction n with
    | zero => exact fun c => rfl
    | succ n ih =>
      intro c
      rw [List.replicate_succ, List.foldl_cons, ih]
      simp only [Counts.add, Nat.add_assoc, Nat.add_comm 1 n]
  rw [Counts.of, hfold]
  simp [Counts.zero]

/-- A committed batch can come again at any time and from anyone: whatever happened since, mastering stays
as it is, and if the batch is answered, every record of it counts as a duplicate. -/
theorem replay_safe (h : Attained rt w s) (hrun : req.run? = none)
    (hcommitted : ingestedBatch ((service rt).step s (.ingest who req)).2) (ops : List Operation)
    (who' : Principal) :
    let t := (operations rt).run ((service rt).next s (.ingest who req)) ops
    t.sourceId? w req.sourceKey = s.sourceId? w req.sourceKey →
      SameMastering t ((service rt).next t (.ingest who' req)) ∧
      ∀ answer, ((service rt).step t (.ingest who' req)).2 = .ok answer →
        ∃ key checkpoint, answer = .ingested (.ingested
          { Counts.zero with duplicate := req.records.length } key req.runId checkpoint 0) := by
  intro t hsource
  obtain ⟨hi, hr⟩ := h.sound
  obtain ⟨p, -, hnext⟩ := page_of_ingested hi hcommitted
  obtain ⟨-, hholds⟩ := p.finished_holds hi
  rw [p.work_of_batch hrun] at hholds
  have hafter := run_retains (integrity_step hi (.ingest who req))
    (hr.step (next_registers hi (.ingest who req))) ops
  have hretains : Retains p.finished t := hnext ▸ hafter.1
  have hi' : Integrity rt w t := hafter.2
  rcases @ingest_outcome _ _ _ req who' hi' with ⟨hsame, -, he⟩ | ⟨p', hnext', hanswer⟩
  · obtain ⟨e, he⟩ := he hrun
    rw [hsame, he]
    exact ⟨.refl t, fun _ heq => by cases heq⟩
  · have hid : p'.source.id = p.source.id := by
      rw [p'.sourceId?, p.sourceId?] at hsource
      exact Option.some.inj hsource
    obtain ⟨hsame, hverdicts⟩ := p'.finished_of_holds hi' hrun fun item hitem =>
      hid ▸ (hholds item hitem).retained hretains
    rw [hnext', hanswer, hverdicts, Counts.of_duplicates]
    exact ⟨hsame, fun answer heq => ⟨_, _, (Except.ok.inj heq).symm⟩⟩

namespace Supplier

def firstNames : List IncomingRecord := [observation "a" "1" [("name", .str "A")],
  observation "b" "1" [("name", .str "B")]]

/-- A new record, and another name for a version that is taken. -/
def otherNames : List IncomingRecord := [observation "c" "1" [("name", .str "C")],
  observation "a" "1" [("name", .str "B")]]

/-- The first name is approved, and a bundle replaces the definition of the domain. -/
def meanwhile : List Operation :=
  [.request (approve (uid 11)), .importBundle modeler eagerBundle true none]

/-- The names are ingested, and more happens after them. -/
def twoNames : Store :=
  (operations .plain).run ((service .plain).next (after []) (ingest firstNames)) meanwhile

theorem named_commits : ingestedBatch ((service .plain).step (after []) (ingest firstNames)).2 := by
  decide +kernel

end Supplier

open Supplier in
/-- The batch comes again after an approval and an import. -/
theorem replay_safe_named : SameMastering twoNames ((service .plain).next twoNames (ingest firstNames)) ∧
    (twoNames.masters.map MasterVersion.status) = [.approved, .draft] := by
  have hsafe := replay_safe (Reachable.attained ⟨setup ++ [], rfl⟩) rfl named_commits meanwhile
    (steward "alice") (by decide +kernel)
  exact ⟨hsafe.1, by decide +kernel⟩

theorem Holds.contradiction {item' : IncomingRecord} (hi : Integrity rt w s)
    (h : Holds rt s sourceId domainKey item) (h' : Holds rt s sourceId domainKey item')
    (hkey : item'.localId = item.localId ∧ item'.version = item.version) :
    canonicalHash rt (payload rt item') = canonicalHash rt (payload rt item) := by
  obtain ⟨r, hr, hrkey, m, hm, hmid, hhash⟩ := h
  obtain ⟨r', hr', hrkey', m', hm', hmid', hhash'⟩ := h'
  have hrecord : r' = r := by
    refine hi.recordKeys.eq_of_mem hr' hr ?_
    rw [hrkey', hrkey, hkey.1, hkey.2]
  have hmeta : m' = m := by
    refine hi.metaIds.eq_of_mem hm' hm ?_
    rw [hmid', hmid, hrecord]
  rw [← hhash', ← hhash, hmeta]

/-- Nor is a committed observation ever contradicted: a batch or a page that brings another payload under
its key and its version is not committed, whatever else it brings. -/
theorem contradiction_refused (h : Attained rt w s)
    (hcommitted : ingestedBatch ((service rt).step s (.ingest who req)).2) {item item' : IncomingRecord}
    (hitem : item ∈ req.records) (ops : List Operation) (who' : Principal) {req' : IngestRequest}
    (hitem' : item' ∈ req'.records)
    (hkey : item'.localId = item.localId ∧ item'.version = item.version ∧ req'.domainKey = req.domainKey)
    (hpayload : canonicalHash rt (payload rt item') ≠ canonicalHash rt (payload rt item)) :
    let t := (operations rt).run ((service rt).next s (.ingest who req)) ops
    t.sourceId? w req'.sourceKey = s.sourceId? w req.sourceKey →
      (service rt).next t (.ingest who' req') = t ∧
      ingestedBatch ((service rt).step t (.ingest who' req')).2 = false := by
  intro t hsource
  obtain ⟨hi, hr⟩ := h.sound
  obtain ⟨p, -, hnext⟩ := page_of_ingested hi hcommitted
  obtain ⟨-, hholds⟩ := p.finished_holds hi
  have hafter := run_retains (integrity_step hi (.ingest who req))
    (hr.step (next_registers hi (.ingest who req))) ops
  have hretains : Retains p.finished t := hnext ▸ hafter.1
  have hi' : Integrity rt w t := hafter.2
  rcases @ingest_outcome _ _ _ req' who' hi' with ⟨hsame, hnone, -⟩ | ⟨p', -, -⟩
  · exact ⟨hsame, hnone⟩
  · have hid : p'.source.id = p.source.id := by
      rw [p'.sourceId?, p.sourceId?] at hsource
      exact Option.some.inj hsource
    obtain ⟨_, hwork, -⟩ := p.work_tombstones
    obtain ⟨_, hwork', -⟩ := p'.work_tombstones
    obtain ⟨hretains', hholds'⟩ := p'.finished_holds hi'
    have hold := (hholds item (hwork ▸ List.mem_append_left _ hitem)).retained (hretains.trans hretains')
    have hnew := hholds' item' (hwork' ▸ List.mem_append_left _ hitem')
    rw [hid, hkey.2.2] at hnew
    have hi'' : Integrity rt w p'.finished :=
      (p'.invariant (P := fun _ => True) hi' trivial (fun _ _ _ _ => trivial) fun _ _ _ _ _ _ _ _ =>
        trivial).1
    exact (hpayload (hold.contradiction hi'' hnew ⟨hkey.1, hkey.2.1⟩)).elim

open Supplier in
theorem contradiction_refused_named : (service .plain).next twoNames (ingest otherNames) = twoNames := by
  have hfirst : observation "a" "1" [("name", .str "A")] ∈ (batch firstNames).records := by
    simp [batch, firstNames]
  have hother : observation "a" "1" [("name", .str "B")] ∈ (batch otherNames).records := by
    simp [batch, otherNames]
  exact (contradiction_refused (Reachable.attained ⟨setup ++ [], rfl⟩) named_commits hfirst meanwhile
    (steward "alice") hother ⟨rfl, rfl, rfl⟩ (by decide +kernel) (by decide +kernel)).1

end Recordlane
