import Recordlane.Ordering
import Recordlane.Registry

/-! Batches that commit: what they deliver, and what their object shows in the end. -/
namespace Recordlane

variable {rt : Runtime} {w : Workspace} {self : MasteringService} {s s' t : Store}
  {request : Request} {req : IngestRequest} {source : Source} {domain : Domain}
  {policy : CompiledPolicy} {sourceKey domainKey localId : String} {item : IncomingRecord}

namespace MasteringService

theorem authorize_policy {records : List IncomingRecord}
    (h : self.authorize domain records = .ok policy) :
    compilePolicy self.rt domain.definition = .ok policy := by
  unfold authorize at h
  rw [Except.bind_eq_ok] at h
  obtain ⟨compiled, hcompiled, h⟩ := h
  split at h
  · cases h
    unfold compileFor refusePolicy at hcompiled
    split at hcompiled
    · cases hcompiled
    · exact hcompiled
  · cases h

end MasteringService

/-- The configuration an ingestion reads: the domains, and the sources up to their checkpoints. -/
structure SameConfig (s t : Store) : Prop where
  domains : t.domains = s.domains
  sources : t.sources.map (fun x => (x.id, x.workspaceId, x.key, x.priority)) =
    s.sources.map fun x => (x.id, x.workspaceId, x.key, x.priority)

theorem SameConfig.domain? (h : SameConfig s t) {key : String} :
    self.domain? t key = self.domain? s key := by
  rw [MasteringService.domain?, MasteringService.domain?, h.domains]

theorem SameConfig.source? (h : SameConfig s t) {key : String} :
    (self.source? t key).map Source.id = (self.source? s key).map Source.id := by
  have hfind : ∀ u : Store, (self.source? u key).map Source.id =
      ((u.sources.map fun x => (x.id, x.workspaceId, x.key, x.priority)).find? fun x =>
        x.2.1 = self.wid && x.2.2.1 = key).map Prod.fst := by
    intro u
    simp [MasteringService.source?, List.find?_map, Function.comp_def]
  rw [hfind, hfind, h.sources]

namespace Page

theorem sameConfig (p : Page self s req) (h : Integrity self.rt self.workspace s) :
    SameConfig s p.finished where
  domains := by
    obtain ⟨runs, n, hbegun⟩ := MasteringService.beginPage_runs p.begins
    have hfinished : p.finished.domains = p.observed.domains := by
      unfold finished MasteringService.finishBatch
      cases p.run <;> rfl
    rw [hfinished, (p.observed_around h).domains, hbegun]
  sources := by
    rw [p.finished_sources h, Table.modify, List.map_map]
    refine List.map_congr_left fun x _ => ?_
    rw [Function.comp_apply]
    split <;> rfl

theorem policy_eq (p : Page self s req) (hd : self.domain? s req.domainKey = some domain)
    (hp : compilePolicy self.rt domain.definition = .ok policy) : p.policy = policy := by
  have hcompiled := MasteringService.authorize_policy p.authorized
  rw [Option.some.inj (p.domain_found.symm.trans hd), hp] at hcompiled
  exact (Except.ok.inj hcompiled).symm

theorem work_eq (p : Page self s req) (h : req.completeSnapshot = false) : p.work = req.records := by
  have hwork := p.work_listed
  simp only [MasteringService.workRecords, h, Bool.and_false, Bool.false_eq_true, if_false] at hwork
  exact (Except.ok.inj hwork).symm

end Page

/-- The records a request brings. -/
def Request.records : Request → List IncomingRecord
  | .ingest _ req => req.records
  | _ => []

/-- The request is a batch of the source and the domain, outside the completion of a snapshot. -/
def Request.isBatch (sourceKey domainKey : String) : Request → Bool
  | .ingest _ req =>
    req.sourceKey = sourceKey && req.domainKey = domainKey && !req.completeSnapshot
  | _ => false

/-- A batch was ingested, not answered as a page already taken. -/
def ingestedBatch : Py Answer → Bool
  | .ok (.ingested (.ingested ..)) => true
  | _ => false

/-- The request is such a batch, and it commits. -/
def CommitsBatch (rt : Runtime) (sourceKey domainKey : String) (s : Store) (request : Request) :
    Prop := request.isBatch sourceKey domainKey ∧ ingestedBatch ((service rt).step s request).2

instance (s : Store) : Decidable (CommitsBatch rt sourceKey domainKey s request) :=
  inferInstanceAs (Decidable (request.isBatch sourceKey domainKey ∧
    ingestedBatch ((service rt).step s request).2))

theorem page_of_ingested {who : Principal} (h : Integrity rt w s)
    (hok : ingestedBatch ((service rt).step s (.ingest who req)).2) :
    ∃ p : Page ⟨rt, who, w⟩ s req, MasteringService.start rt who s = .ok ⟨rt, who, w⟩ ∧
      (service rt).next s (.ingest who req) = p.finished := by
  cases ht : transact rt s (.ingest who req) with
  | error e =>
    simp only [service, ht] at hok
    cases hok
  | ok committed =>
    obtain ⟨s', answer⟩ := committed
    simp only [service, ht] at hok
    obtain ⟨hstart, hserve⟩ := transact_serve h.workspaces ht
    simp only [serve, Except.bind_eq_ok, Except.pure_eq_ok, Prod.exists, Prod.mk.injEq] at hserve
    obtain ⟨s₁, a, hingest, rfl, rfl⟩ := hserve
    rcases MasteringService.ingest_cases hingest with ⟨-, _, _, _, -, -, rfl⟩ | ⟨p, -, -⟩
    · cases hok
    · exact ⟨p, hstart, p.next_eq hstart⟩

theorem CommitsBatch.page (h : Integrity rt w s) (hc : CommitsBatch rt sourceKey domainKey s request) :
    ∃ who req, ∃ _ : Page ⟨rt, who, w⟩ s req, request = .ingest who req ∧
      MasteringService.start rt who s = .ok ⟨rt, who, w⟩ ∧ req.sourceKey = sourceKey ∧
      req.domainKey = domainKey ∧ req.completeSnapshot = false := by
  obtain ⟨hbatch, hok⟩ := hc
  cases request with
  | ingest who req =>
    simp only [Request.isBatch, Bool.and_eq_true, decide_eq_true_eq, Bool.not_eq_true'] at hbatch
    obtain ⟨⟨hs, hd⟩, hcomplete⟩ := hbatch
    obtain ⟨p, hstart, -⟩ := page_of_ingested h hok
    exact ⟨who, req, p, rfl, hstart, hs, hd, hcomplete⟩
  | _ => cases hbatch

/-- Every round of the run feeds the object from the source, under the policy of the domain. -/
def Feeds (sourceId : Id) (domainKey : String) (policy : CompiledPolicy) (a : Arrival) : Prop :=
  a.source.id = sourceId ∧ a.domainKey = domainKey ∧ a.policy = policy

theorem arrivalsOf_items {work : List IncomingRecord} :
    (self.arrivalsOf source domainKey policy s work).map Arrival.item = work := by
  unfold MasteringService.arrivalsOf
  rw [List.map_map]
  change ((self.rounds source domainKey policy).trace s work).map Prod.snd = work
  induction work generalizing s with
  | nil => rfl
  | cons item work ih => rw [System.trace, List.map_cons, ih]

/-- Batches that commit deliver their records in order, all under one policy. -/
theorem arrivals_batches {requests : List Request} (h : Integrity self.rt self.workspace s)
    (hs : (self.source? s sourceKey).map Source.id = some source.id)
    (hd : self.domain? s domainKey = some domain)
    (hp : compilePolicy self.rt domain.definition = .ok policy)
    (hc : (service self.rt).Along (CommitsBatch self.rt sourceKey domainKey) s requests) :
    (arrivals self.rt s requests).map Arrival.item = requests.flatMap Request.records ∧
      ∀ a ∈ arrivals self.rt s requests, Feeds source.id domainKey policy a := by
  induction requests generalizing s with
  | nil => simp [arrivals, System.trace]
  | cons request requests ih =>
    obtain ⟨hfirst, hrest⟩ := hc
    obtain ⟨who, req, p, rfl, hstart, rfl, rfl, hcomplete⟩ := hfirst.page h
    have hconfig := p.sameConfig h
    rw [← p.next_eq hstart] at hconfig
    obtain ⟨hitems, hfeeds⟩ := ih (integrity_step h _) (hconfig.source?.trans hs)
      (hconfig.domain?.trans hd) hrest
    have hsource : p.source.id = source.id := by
      have hfound : self.source? s req.sourceKey = some p.source := p.source_found
      rw [hfound] at hs
      exact Option.some.inj hs
    have hpolicy : p.policy = policy := p.policy_eq hd hp
    rw [arrivals_cons, p.arrivals_eq hstart]
    constructor
    · rw [List.map_append, hitems, Page.arrivals, arrivalsOf_items, p.work_eq hcomplete]
      rfl
    · intro a ha
      rcases List.mem_append.mp ha with ha | ha
      · obtain ⟨q, -, rfl⟩ := List.mem_map.mp ha
        exact ⟨hsource, rfl, hpolicy⟩
      · exact hfeeds a ha

/-- The policy keeps the observation out of what the object shows. -/
def quarantines (rt : Runtime) (policy : CompiledPolicy) (item : IncomingRecord) : Bool :=
  !item.deleted && match policy.validate rt item.values with
    | .ok errors => !errors.isEmpty
    | .error _ => false

/-- The observation with the largest sequence among those that are not quarantined. -/
def latest (rt : Runtime) (policy : CompiledPolicy) (items : List IncomingRecord) :
    Option IncomingRecord :=
  (items.filter fun item => !quarantines rt policy item).argmax fun item => item.sequence.getD 0

/-- What an object shows whose latest observation is this one. -/
def Projection.settled : Option IncomingRecord → Projection
  | some item => .of item item.values
  | none => .blank

theorem evaluate_full {o : SourceObject} {e : Evaluation}
    (he : self.evaluate s policy o item = .ok e) (hm : item.updateMode = .fullUpdate) :
    e.values = item.values ∧ e.qualityErrors.isEmpty = !quarantines self.rt policy item := by
  cases hdel : item.deleted with
  | true =>
    simp only [MasteringService.evaluate, hm, Dict.nil_update item.values_nodup, hdel, if_true,
      Except.bind_eq_ok, Except.pure_eq_ok] at he
    obtain ⟨normalized, -, errors, rfl, keys, -, rfl⟩ := he
    simp [quarantines, hdel]
  | false =>
    simp only [MasteringService.evaluate, hm, Dict.nil_update item.values_nodup, hdel,
      Bool.false_eq_true, if_false, Except.bind_eq_ok, Except.pure_eq_ok] at he
    obtain ⟨normalized, -, errors, herrors, keys, -, rfl⟩ := he
    simp [quarantines, hdel, herrors]

/-- What the object shows after some rounds, and which versions of it are stored. -/
structure Settled (rt : Runtime) (policy : CompiledPolicy) (key : Id × String × String)
    (items : List IncomingRecord) (s : Store) : Prop where
  projection : s.projection key = .settled (latest rt policy items)
  versions : ∀ k ∈ s.records.map SourceRecord.key, k.1 = key → k.2 ∈ items.map IncomingRecord.version

theorem Settled.still {key : Id × String × String} {items : List IncomingRecord}
    (h : Settled rt policy key items s) (hs : Still s t) : Settled rt policy key items t :=
  ⟨hs.projection ▸ h.projection, hs.recordKeys ▸ h.versions⟩

theorem latest_append {items : List IncomingRecord} (h : quarantines rt policy item = false) :
    latest rt policy (items ++ [item]) =
      Register.put (fun item => item.sequence.getD 0) (latest rt policy items) item := by
  rw [latest, List.filter_append, List.filter_cons_of_pos (by simp [h]), List.filter_nil,
    Register.argmax_append]
  rfl

theorem latest_append_quarantined {items : List IncomingRecord} (h : quarantines rt policy item = true) :
    latest rt policy (items ++ [item]) = latest rt policy items := by
  rw [latest, List.filter_append, List.filter_cons_of_neg (by simp [h]), List.filter_nil,
    List.append_nil]
  rfl

theorem latest_mem {items : List IncomingRecord} (h : latest rt policy items = some item) :
    item ∈ items := List.mem_of_mem_filter (List.argmax_mem h)

/-- Whether an observation is current is whether it outranks what the object shows. -/
theorem observationIsCurrent_eq {o : SourceObject} {items : List IncomingRecord}
    (hs : item.sequence.isSome) (hsome : ∀ item ∈ items, item.sequence.isSome)
    (ho : o.currentSequence = (Projection.settled (latest rt policy items)).sequence) :
    (if observationIsCurrent o item then some item else latest rt policy items) =
      Register.put (fun item => item.sequence.getD 0) (latest rt policy items) item := by
  obtain ⟨n, hn⟩ := Option.isSome_iff_exists.mp hs
  cases hlatest : latest rt policy items with
  | none =>
    rw [hlatest] at ho
    simp [observationIsCurrent, hn, show o.currentSequence = none from ho, Register.put]
  | some b =>
    obtain ⟨m, hm⟩ := Option.isSome_iff_exists.mp (hsome b (latest_mem hlatest))
    rw [hlatest] at ho
    have hheld : o.currentSequence = some m := ho.trans hm
    simp [observationIsCurrent, hn, hheld, hm, Register.put]

/-- One more round: the object takes the observation where it outranks what the object shows. -/
theorem Settled.round {items : List IncomingRecord} {a : Arrival} {v : Verdict}
    (hi : Integrity a.service.rt a.service.workspace a.store)
    (h : Settled a.service.rt a.policy a.key items a.store)
    (hm : a.item.updateMode = .fullUpdate) (hsome : ∀ item ∈ items, item.sequence.isSome)
    (hs : a.item.sequence.isSome) (hv : a.item.version ∉ items.map IncomingRecord.version)
    (hr : a.round = .ok (s', v)) : Settled a.service.rt a.policy a.key (items ++ [a.item]) s' := by
  cases Arrival.round_effect hi hr with
  | repeated hn =>
    obtain ⟨r, hr⟩ := Option.ne_none_iff_exists'.mp hn
    obtain ⟨hmem, hkey⟩ := MasteringService.storedObservation_some hi hr
    refine (hv ?_).elim
    have hstored := h.versions r.key (List.mem_map_of_mem hmem) (congrArg Prod.fst hkey)
    rwa [hkey] at hstored
  | @stored _ t o e ho hn he hcurrent hsequence hp hrecords =>
    obtain ⟨hvalues, hquality⟩ := evaluate_full he hm
    rw [h.projection] at hsequence
    constructor
    · rw [hp, hcurrent, hquality, hvalues]
      cases hq : quarantines a.service.rt a.policy a.item with
      | true =>
        rw [latest_append_quarantined hq]
        exact h.projection
      | false =>
        rw [latest_append hq, ← observationIsCurrent_eq hs hsome hsequence]
        cases hc : observationIsCurrent o a.item with
        | true => simp [Projection.settled]
        | false => simpa using h.projection
    · intro k hk hkey
      rw [hrecords] at hk
      rw [List.map_append, List.mem_append]
      rcases List.mem_append.mp hk with hk | hk
      · exact .inl (h.versions k hk hkey)
      · rw [List.mem_singleton.mp hk]
        exact .inr (List.mem_singleton_self _)

/-- Batches of full observations of a new object, each with a sequence and a version of its own,
leave the object with the latest one. -/
theorem settled_batches {requests : List Request} {obs : List IncomingRecord}
    (h : Reachable self.rt self.workspace s) (hs : self.source? s sourceKey = some source)
    (hd : self.domain? s domainKey = some domain)
    (hp : compilePolicy self.rt domain.definition = .ok policy)
    (hnew : ∀ o ∈ s.objects, o.key ≠ (source.id, domainKey, localId))
    (hobs : ∀ item ∈ obs, item.localId = localId ∧ item.updateMode = .fullUpdate ∧
      item.sequence.isSome)
    (hv : (obs.map IncomingRecord.version).Nodup)
    (hc : (service self.rt).Along (CommitsBatch self.rt sourceKey domainKey) s requests)
    (hperm : (requests.flatMap Request.records).Perm obs) :
    ((service self.rt).run s requests).projection (source.id, domainKey, localId) =
      .settled (latest self.rt policy (requests.flatMap Request.records)) := by
  have hi := integrity_reachable h
  obtain ⟨hitems, hfeeds⟩ := arrivals_batches hi (by rw [hs]; rfl) hd hp hc
  have hmem : ∀ a ∈ arrivals self.rt s requests, a.item ∈ obs := by
    intro a ha
    rw [← hperm.mem_iff, ← hitems]
    exact List.mem_map_of_mem ha
  have hfirst : Settled self.rt policy (source.id, domainKey, localId) [] s := by
    refine ⟨projection_of_none hnew, fun k hk hkey => ?_⟩
    obtain ⟨r, hr, rfl⟩ := List.mem_map.mp hk
    obtain ⟨o, ho, hobject⟩ := hi.recordObject r hr
    exact (hnew o ho (hobject.trans hkey)).elim
  have hsettled := arrivals_invariant (L := [])
    (P := fun L t => (∀ a ∈ L, a.item ∈ obs) →
      ((L.map Arrival.item).map IncomingRecord.version).Nodup →
        Settled self.rt policy (source.id, domainKey, localId) (L.map Arrival.item) t)
    (Φ := fun a => Feeds source.id domainKey policy a ∧ a.item ∈ obs) hi (fun _ _ => hfirst)
    (fun L s t hst hL hm hn => (hL hm hn).still hst) ?_ (fun a ha => ⟨hfeeds a ha, hmem a ha⟩)
  · rw [List.nil_append, hitems] at hsettled
    have hn : ((requests.flatMap Request.records).map IncomingRecord.version).Nodup :=
      (hperm.map _).nodup_iff.mpr hv
    exact (hsettled hmem hn).projection
  · intro L a s' v hrt hw hia hL ⟨⟨hsource, hdomain, hpolicy⟩, hitem⟩ hround hm hn
    have hbefore : ∀ b ∈ L, b.item ∈ obs := fun b hb => hm b (List.mem_append_left _ hb)
    rw [List.map_append, List.map_append] at hn
    obtain ⟨hn, -, hdisjoint⟩ := List.nodup_append.mp hn
    have hnot : a.item.version ∉ (L.map Arrival.item).map IncomingRecord.version :=
      fun hin => hdisjoint _ hin _ (List.mem_singleton_self _) rfl
    have hkey : a.key = (source.id, domainKey, localId) := by
      rw [Arrival.key, hsource, hdomain, (hobs _ hitem).1]
    have hleading := hL hbefore hn
    rw [← hkey, ← hpolicy, ← hrt] at hleading ⊢
    rw [← hrt, ← hw] at hia
    rw [List.map_append]
    refine hleading.round hia (hobs _ hitem).2.1 ?_ (hobs _ hitem).2.2 hnot hround
    intro item hin
    obtain ⟨b, hb, rfl⟩ := List.mem_map.mp hin
    exact (hobs _ (hbefore b hb)).2.2

/-- Two ways to deliver the observations of a new object, in any order and any batches, leave it
with the same projection: that of the observation with the largest sequence. -/
theorem batches_converge {first second : List Request} {obs : List IncomingRecord}
    (h : Reachable self.rt self.workspace s) (hs : self.source? s sourceKey = some source)
    (hd : self.domain? s domainKey = some domain)
    (hp : compilePolicy self.rt domain.definition = .ok policy)
    (hnew : ∀ o ∈ s.objects, o.key ≠ (source.id, domainKey, localId))
    (hobs : ∀ item ∈ obs, item.localId = localId ∧ item.updateMode = .fullUpdate ∧
      item.sequence.isSome)
    (hsequence : (obs.map IncomingRecord.sequence).Nodup)
    (hv : (obs.map IncomingRecord.version).Nodup)
    (hfirst : (service self.rt).Along (CommitsBatch self.rt sourceKey domainKey) s first)
    (hsecond : (service self.rt).Along (CommitsBatch self.rt sourceKey domainKey) s second)
    (hone : (first.flatMap Request.records).Perm obs)
    (hother : (second.flatMap Request.records).Perm obs) :
    ((service self.rt).run s first).projection (source.id, domainKey, localId) =
        ((service self.rt).run s second).projection (source.id, domainKey, localId) ∧
      ((service self.rt).run s second).projection (source.id, domainKey, localId) =
        .settled (latest self.rt policy obs) := by
  have hlatest : ∀ {items}, items.Perm obs →
      latest self.rt policy items = latest self.rt policy obs := by
    intro items hperm
    apply Register.argmax_perm (hperm.filter _)
    have hranks : (items.map fun item => item.sequence.getD 0).Nodup := by
      have hn : (items.map IncomingRecord.sequence).Nodup :=
        (hperm.map _).nodup_iff.mpr hsequence
      refine List.Nodup.of_map some ?_
      rw [List.map_map]
      refine (List.map_congr_left fun item hitem => ?_) ▸ hn
      obtain ⟨n, hn⟩ := Option.isSome_iff_exists.mp (hobs item (hperm.mem_iff.mp hitem)).2.2
      simp [hn]
    exact hranks.sublist (List.filter_sublist.map _)
  rw [settled_batches h hs hd hp hnew hobs hv hfirst hone,
    settled_batches h hs hd hp hnew hobs hv hsecond hother, hlatest hone, hlatest hother]
  exact ⟨rfl, rfl⟩

open Supplier in
theorem batches_converge_history : ∃ (source : Source) (policy : CompiledPolicy),
    ((service .plain).run (after [])
        [ingest [history[0]], ingest [history[1], history[2]], ingest [history[3]]]).projection
        (source.id, "supplier", "a") =
      ((service .plain).run (after []) [ingest history.reverse]).projection
        (source.id, "supplier", "a") ∧
    ((service .plain).run (after []) [ingest history.reverse]).projection
        (source.id, "supplier", "a") = .settled (latest .plain policy history) := by
  obtain ⟨source, hs⟩ : ∃ source, master.source? (after []) "erp" = some source :=
    Option.isSome_iff_exists.mp (by decide +kernel)
  obtain ⟨domain, hd⟩ : ∃ domain, master.domain? (after []) "supplier" = some domain :=
    Option.isSome_iff_exists.mp (by decide +kernel)
  obtain ⟨policy, hp⟩ : ∃ policy, compilePolicy .plain domain.definition = .ok policy := by
    have hok : ((master.domain? (after []) "supplier").map fun d =>
        (compilePolicy .plain d.definition).isOk) = some true := by decide +kernel
    rw [hd, Option.map_some, Option.some_inj] at hok
    cases h : compilePolicy .plain domain.definition with
    | ok policy => exact ⟨policy, rfl⟩
    | error e => rw [h] at hok; cases hok
  have hnew : ∀ o ∈ (after []).objects, o.key ≠ (source.id, "supplier", "a") := by
    have hnone : (after []).objects = [] := by decide +kernel
    rw [hnone]
    simp
  have hreachable : Reachable master.rt master.workspace (after []) := ⟨setup ++ [], rfl⟩
  have hfirst : (service master.rt).Along (CommitsBatch master.rt "erp" "supplier") (after [])
      [ingest [history[0]], ingest [history[1], history[2]], ingest [history[3]]] := by
    decide +kernel
  have hsecond : (service master.rt).Along (CommitsBatch master.rt "erp" "supplier") (after [])
      [ingest history.reverse] := by
    decide +kernel
  have hobs : ∀ item ∈ history, item.localId = "a" ∧ item.updateMode = .fullUpdate ∧
      item.sequence.isSome := by decide +kernel
  have hsequence : (history.map IncomingRecord.sequence).Nodup := by decide +kernel
  have hversion : (history.map IncomingRecord.version).Nodup := by decide +kernel
  have hone : ([ingest [history[0]], ingest [history[1], history[2]],
      ingest [history[3]]].flatMap Request.records).Perm history := .refl history
  have hother : ([ingest history.reverse].flatMap Request.records).Perm history :=
    List.reverse_perm history
  have hgo := batches_converge hreachable hs hd hp hnew hobs hsequence hversion hfirst hsecond
    hone hother
  exact ⟨source, policy, hgo⟩

end Recordlane
