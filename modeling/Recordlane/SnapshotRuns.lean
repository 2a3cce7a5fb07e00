import Recordlane.Retirements
import Recordlane.Simulations

/-! Full runs without other requests: which objects the last page retires, and how many it counts. -/
namespace Recordlane

variable {rt : Runtime} {w : Workspace} {self : MasteringService} {s t : Store} {source : Source}
  {domainKey localId : String} {req : IngestRequest} {o : SourceObject} {item : IncomingRecord}
  {policy : CompiledPolicy} {st : Standing} {known : List String} {items : List IncomingRecord}
  {v : Verdict} {vs : List Verdict} {d : Findings}

theorem Round.verdict (hr : Round self s source domainKey policy o item v t d)
    (hst : Stands s o st known) :
    v = .retired ↔ st.admits self.rt policy item = true ∧ item.deleted = true := by
  rw [← (evaluate_stands hst hr.evaluated).2]
  cases hr.fits with
  | quarantined hq => simp [hq]
  | outOfOrder _ hn => simp [hn]
  | retiredFree hq hn hd => simp [hq, hn, hd]
  | retired hq hn hd => simp [hq, hn, hd]
  | updated hq hn hd => simp [hq, hn, hd]
  | linked hq hn hd => simp [hq, hn, hd]
  | created hq hn hd => simp [hq, hn, hd]
  | review hq hn hd => simp [hq, hn, hd]

/-- The standing of a key: that of its object, or of an object that has not been observed yet. -/
structure StandsAt (s : Store) (key : Id × String × String) (st : Standing) (known : List String) :
    Prop where
  held : ∀ o ∈ s.objects, o.key = key → Stands s o st known
  blank : (∀ o ∈ s.objects, o.key ≠ key) → st.object.currentSequence = none ∧
    st.object.currentEffectiveFrom = none ∧ st.shown = none ∧ known = []

theorem Opens.standsAt (h : Opens self s source domainKey localId t o)
    (hi : Integrity self.rt self.workspace s)
    (hst : StandsAt s (source.id, domainKey, localId) st known) : Stands t o st known := by
  cases h with
  | known ho hk => exact hst.held o ho hk
  | new hn =>
    obtain ⟨hsequence, heffective, hshown, hknown⟩ := hst.blank hn
    refine ⟨hsequence, heffective, hshown, fun version => ?_⟩
    rw [hknown]
    refine iff_of_false List.not_mem_nil ?_
    rintro ⟨r, hr, hkey⟩
    obtain ⟨o, ho, hk⟩ := hi.recordObject r hr
    exact hn o ho (hk.trans (congrArg Prod.fst hkey))

/-- A round on a key retires the object there if a tombstone is admitted, and moves the standing on. -/
theorem observe_at (hi : Integrity self.rt self.workspace s)
    (hst : StandsAt s (source.id, domainKey, item.localId) st known)
    (h : self.observe s source domainKey policy item = .ok (t, v)) :
    if item.version ∈ known then v ≠ .retired ∧ StandsAt t (source.id, domainKey, item.localId) st known
    else (v = .retired ↔ st.admits self.rt policy item = true ∧ item.deleted = true) ∧
      StandsAt t (source.id, domainKey, item.localId)
        (if st.admits self.rt policy item then st.take item else st) (item.version :: known) := by
  have hi' := MasteringService.observe_integrity hi h
  rcases MasteringService.observe_cases hi h with ⟨rfl, rfl, ⟨r, hr, -⟩, o, ho, hk⟩ |
    ⟨u, o, d, hopen, hnew, hr⟩
  · obtain ⟨hmem, hkey⟩ := MasteringService.storedObservation_some hi hr
    rw [if_pos (((hst.held o ho hk).versions item.version).mpr ⟨r, hmem, by rw [hk]; exact hkey⟩)]
    exact ⟨by rintro ⟨⟩, hst⟩
  · have hui := hopen.integrity hi
    have hopened := hopen.standsAt hi hst
    have hfresh : item.version ∉ known := by
      intro hversion
      obtain ⟨r, hrecord, hkey⟩ := (hopened.versions item.version).mp hversion
      rw [hopen.key] at hkey
      exact hnew r (hopen.tables.1 ▸ hrecord) hkey
    have hafter : o.after item (self.fresh u) d.target v ∈ t.objects := by
      rw [hr.objects]
      exact Table.mem_modify.mpr (.inr ⟨o, hopen.mem, rfl, rfl⟩)
    have hkey : (o.after item (self.fresh u) d.target v).key = (source.id, domainKey, item.localId) :=
      after_key.trans hopen.key
    rw [if_neg hfresh]
    refine ⟨hr.verdict hopened, fun o' ho' hk' => ?_, fun hnone => (hnone _ hafter hkey).elim⟩
    obtain rfl := hi'.objectKeys.eq_of_mem ho' hafter (hk'.trans hkey.symm)
    exact hr.stands hui hi' hopen.mem hopen.key hopened

theorem observe_off {key : Id × String × String} (hi : Integrity self.rt self.workspace s)
    (hst : StandsAt s key st known) (hk : key ≠ (source.id, domainKey, item.localId))
    (h : self.observe s source domainKey policy item = .ok (t, v)) : StandsAt t key st known := by
  have hother : ∀ o ∈ s.objects, o.key = key → o ∈ t.objects ∧ Stands t o st known := by
    intro o ho hkey
    exact observe_other hi ho (hkey ▸ hk) (hst.held o ho hkey) h
  refine ⟨fun o ho hkey => ?_, fun hnone => hst.blank fun o ho hkey => ?_⟩
  · have hmem : o ∈ s.objects := by
      rcases MasteringService.observe_cases hi h with ⟨-, rfl, -⟩ | ⟨u, o', d, hopen, -, hr⟩
      · exact ho
      · rw [hr.objects, Table.mem_modify] at ho
        rcases ho with ⟨ho, -⟩ | ⟨o'', ho'', hid, rfl⟩
        · cases hopen with
          | known => exact ho
          | new hn =>
            rcases List.mem_append.mp ho with ho | ho
            · exact ho
            · rw [List.mem_singleton.mp ho] at hkey
              exact (hk hkey.symm).elim
        · obtain rfl := (hopen.integrity hi).objectIds.eq_of_mem ho'' hopen.mem hid
          exact (hk (hkey.symm.trans (after_key.trans hopen.key))).elim
    exact (hother o hmem hkey).2
  · exact hnone o (hother o ho hkey).1 hkey

/-- The local keys of the observations that retire an object, in their order. -/
def retiredKeys (items : List IncomingRecord) (vs : List Verdict) : List String :=
  ((items.zip vs).filter fun p => p.2 = .retired).map fun p => p.1.localId

/-- The loop retires under a key once for every tombstone that is admitted there. -/
theorem observeAll_retired {fault : Option Nat} {index : Nat} (hi : Integrity self.rt self.workspace s)
    (hst : StandsAt s (source.id, domainKey, localId) st known)
    (h : self.observeAll source domainKey policy fault s index items = .ok (t, vs)) :
    (retiredKeys items vs).count localId = (Standing.admitted self.rt policy st known
      (items.filter fun item => item.localId = localId)).countP IncomingRecord.deleted := by
  induction items generalizing s st known index vs with
  | nil => rfl
  | cons item items ih =>
    unfold MasteringService.observeAll at h
    rw [Except.bind_eq_ok] at h
    obtain ⟨⟨u, v⟩, hstep, h⟩ := h
    dsimp only at h
    split at h
    · cases h
    · rw [Except.bind_eq_ok] at h
      obtain ⟨⟨u', vs'⟩, hrest, h⟩ := h
      cases h
      have hui := MasteringService.observe_integrity hi hstep
      have hcons : (retiredKeys (item :: items) (v :: vs')).count localId =
          (if v = .retired ∧ item.localId = localId then 1 else 0) +
            (retiredKeys items vs').count localId := by
        unfold retiredKeys
        rw [List.zip_cons_cons, List.filter_cons]
        by_cases hv : v = .retired
        · rw [if_pos (by simpa using hv), List.map_cons, List.count_cons, Nat.add_comm]
          simp [hv]
        · rw [if_neg (by simpa using hv), if_neg fun hboth => hv hboth.1, Nat.zero_add]
      rw [hcons]
      by_cases hkey : item.localId = localId
      · subst hkey
        rw [List.filter_cons_of_pos (by simp), Standing.admitted]
        have hown := observe_at hi hst hstep
        split at hown
        · next hknown =>
          rw [if_pos hknown, if_neg fun hboth => hown.1 hboth.1, Nat.zero_add]
          exact ih hui hown.2 hrest
        · next hknown =>
          rw [if_neg hknown, ih hui hown.2 hrest]
          have hretired : (v = .retired ∧ item.localId = item.localId) ↔
              st.admits self.rt policy item = true ∧ item.deleted = true := by
            rw [and_iff_left rfl]
            exact hown.1
          by_cases hadmits : st.admits self.rt policy item = true
          · have hdeleted := hretired.trans (and_iff_right hadmits)
            rw [if_pos hadmits, if_pos hadmits, List.countP_cons, Nat.add_comm,
              if_congr hdeleted rfl rfl]
          · rw [if_neg hadmits, if_neg hadmits, if_neg fun hboth => hadmits (hretired.mp hboth).1,
              Nat.zero_add]
      · rw [if_neg fun hboth => hkey hboth.2, Nat.zero_add, List.filter_cons_of_neg (by simpa using hkey)]
        exact ih hui (observe_off hi hst (by simpa [eq_comm] using hkey) hstep) hrest

theorem observeAll_length {fault : Option Nat} {index : Nat}
    (h : self.observeAll source domainKey policy fault s index items = .ok (t, vs)) :
    vs.length = items.length := by
  induction items generalizing s index vs with
  | nil =>
    cases h
    rfl
  | cons item items ih =>
    unfold MasteringService.observeAll at h
    rw [Except.bind_eq_ok] at h
    obtain ⟨⟨u, v⟩, -, h⟩ := h
    dsimp only at h
    split at h
    · cases h
    · rw [Except.bind_eq_ok] at h
      obtain ⟨⟨u', vs'⟩, hrest, h⟩ := h
      cases h
      rw [List.length_cons, List.length_cons, ih hrest]

theorem counts_retired (vs : List Verdict) : (Counts.of vs).retired = vs.count .retired := by
  have hfold : ∀ c : Counts, (vs.foldl Counts.add c).retired = c.retired + vs.count .retired := by
    induction vs with
    | nil => intro c; rfl
    | cons v vs ih =>
      intro c
      rw [List.foldl_cons, ih]
      cases v with
      | resolved outcome => cases outcome <;> rfl
      | retired =>
        rw [List.count_cons_self]
        change c.retired + 1 + _ = _
        omega
      | _ => rfl
  rw [Counts.of, hfold]
  exact Nat.zero_add _

theorem length_retiredKeys (h : vs.length = items.length) :
    (retiredKeys items vs).length = (Counts.of vs).retired := by
  rw [counts_retired, retiredKeys, List.length_map, List.count, List.countP_eq_length_filter]
  have hsnd : vs = (items.zip vs).map Prod.snd := (List.map_snd_zip (by omega)).symm
  conv_rhs => rw [hsnd, List.filter_map, List.length_map]
  congr 2

/-! The local keys that the pages of a run have shown, as its row has them. -/

/-- The local keys of the records of a request that are no tombstones. -/
def Request.seenIds : Request → List String
  | .ingest _ req => req.seenIds
  | _ => []

/-- The run that a request names has shown these local keys. -/
def Shows (w : Workspace) (s : Store) (req : IngestRequest) (ids : List String) : Prop :=
  ∃ source externalId r, (s.sources.find? fun x => x.workspaceId = w.id && x.key = req.sourceKey) =
      some source ∧ req.run? = some externalId ∧ r ∈ s.runs ∧
    r.key = (w.id, source.id, req.domainKey, externalId) ∧ ∀ id, id ∈ r.seenLocalIds ↔ id ∈ ids

variable {who : Principal} {page : IngestRequest} {request : Request} {ids : List String}

theorem Shows.alike (hpage : (Request.ingest who page).isPageOf req = true) :
    Shows w s page ids ↔ Shows w s req ids := by
  simp only [Request.isPageOf, Bool.and_eq_true, decide_eq_true_eq] at hpage
  obtain ⟨⟨hsource, hdomain⟩, hrun⟩ := hpage
  have hsame : page.run? = req.run? := by
    rw [IngestRequest.run?, IngestRequest.run?, hrun]
  unfold Shows
  rw [hsource, hdomain, hsame]

theorem Shows.shownBy (h : Shows w s req ids) (he : Extracting rt s)
    (hstart : MasteringService.start rt who s = .ok ⟨rt, who, w⟩) :
    ∀ id, id ∈ shownBy rt who s req ↔ id ∈ ids ++ req.seenIds := by
  obtain ⟨source, externalId, r, hsource, hrun, hr, hkey, hids⟩ := h
  have hfound : MasteringService.source? ⟨rt, who, w⟩ s req.sourceKey = some source := hsource
  have hrow : MasteringService.run? ⟨rt, who, w⟩ s source req.domainKey externalId = some r :=
    he.run?.mpr ⟨hr, hkey⟩
  intro id
  unfold Recordlane.shownBy
  simp only [Request.run?, hstart, hfound, hrun, Option.bind_some, hrow, Option.map_some,
    Option.getD_some, List.mem_append, hids]

theorem Page.shows (p : Page ⟨rt, who, w⟩ s req) (hi : Integrity rt w s)
    (hstart : MasteringService.start rt who s = .ok ⟨rt, who, w⟩) (hnamed : req.run?.isSome)
    (hids : ∀ id, id ∈ shownBy rt who s req ↔ id ∈ ids) : Shows w p.finished req ids := by
  obtain ⟨source, hsource, hsame⟩ := p.source? hi
  rcases p.runs hi with ⟨hnone, -⟩ | ⟨externalId, r, u, hrun, -, hcontinues, -, -, f, hf, hruns⟩
  · rw [hnone] at hnamed
    cases hnamed
  · refine ⟨source, externalId, f r, hsource, hrun, ?_, ?_, fun id => ?_⟩
    · rw [hruns, Table.mem_modify]
      exact .inr ⟨r, hcontinues.mem, rfl, rfl⟩
    · rw [hf.key, hcontinues.key, hsame]
      rfl
    · rw [hf.seen, mem_sortedSet, p.seen_eq hi hstart]
      exact hids id

/-- The pages of a run, each of them taken. -/
def TakesPage (rt : Runtime) (req : IngestRequest) (s : Store) (request : Request) : Prop :=
  request.isPageOf req = true ∧ ingestedBatch ((service rt).step s request).2 = true

instance : Decidable (TakesPage rt req s request) :=
  inferInstanceAs (Decidable (request.isPageOf req = true ∧
    ingestedBatch ((service rt).step s request).2 = true))

theorem TakesPage.shows (h : TakesPage rt req s request) (hi : Integrity rt w s)
    (hnamed : req.run?.isSome)
    (hids : ∀ who page, request = .ingest who page →
      MasteringService.start rt who s = .ok ⟨rt, who, w⟩ →
      ∀ id, id ∈ shownBy rt who s page ↔ id ∈ ids) :
    Shows w ((service rt).next s request) req ids := by
  obtain ⟨hpage, hingested⟩ := h
  cases request with
  | ingest who page =>
    obtain ⟨p, hstart, hnext⟩ := page_of_ingested hi hingested
    have hsame : page.run? = req.run? := by
      simp only [Request.isPageOf, Bool.and_eq_true, decide_eq_true_eq] at hpage
      rw [IngestRequest.run?, IngestRequest.run?, hpage.2]
    rw [hnext]
    exact (Shows.alike hpage).mp (p.shows hi hstart (hsame ▸ hnamed) (hids who page rfl hstart))
  | _ => cases hpage

theorem shows_run {requests : List Request} (hi : Integrity rt w s) (he : Extracting rt s)
    (hnamed : req.run?.isSome) (hs : Shows w s req ids)
    (hpages : (service rt).Along (TakesPage rt req) s requests) :
    Shows w ((service rt).run s requests) req (ids ++ requests.flatMap Request.seenIds) := by
  induction requests generalizing s ids with
  | nil =>
    rw [List.flatMap_nil, List.append_nil]
    exact hs
  | cons request requests ih =>
    obtain ⟨hpage, hrest⟩ := hpages
    have hnext : Shows w ((service rt).next s request) req (ids ++ request.seenIds) := by
      refine hpage.shows hi hnamed ?_
      rintro who page rfl hstart
      exact ((Shows.alike hpage.1).mpr hs).shownBy he hstart
    have hrun := ih (integrity_step hi request) (extracting_step hi he request) hnext hrest
    rw [List.append_assoc] at hrun
    exact hrun

theorem Request.run?_of_runs_nil (h : s.runs = []) : request.run? rt s = none := by
  cases request with
  | ingest who req =>
    simp only [Request.run?]
    split
    · simp [MasteringService.run?, h]
    · rfl
  | _ => rfl

/-- A full run with no other request between its pages: those before the last, and the page that
completes it. The run is opened by the first of them, which may be the last one too. -/
structure UninterruptedRun (rt : Runtime) (w : Workspace) where
  start : Store
  pages : List Request
  who : Principal
  last : IngestRequest
  reachable : Reachable rt w start
  unopened : ∀ who, (Request.ingest who last).run? rt start = none
  taken : (service rt).Along (TakesPage rt last) start pages
  completes : (Request.ingest who last).completesSnapshot = true
  commits : ingestedBatch ((service rt).step ((service rt).run start pages) (.ingest who last)).2 = true

namespace UninterruptedRun

/-- The store that the last page finds. -/
def before (x : UninterruptedRun rt w) : Store := (service rt).run x.start x.pages

def after (x : UninterruptedRun rt w) : Store := (service rt).next x.before (.ingest x.who x.last)

/-- The local keys of the records in pages of the run that are no tombstones. -/
def shown (x : UninterruptedRun rt w) : List String := x.pages.flatMap Request.seenIds ++ x.last.seenIds

theorem before_reachable (x : UninterruptedRun rt w) : Reachable rt w x.before := by
  obtain ⟨requests, hstart⟩ := x.reachable
  exact ⟨requests ++ x.pages, by rw [System.run_append, hstart]; rfl⟩

theorem named (x : UninterruptedRun rt w) : x.last.run?.isSome := by
  have hcompletes := x.completes
  simp only [Request.completesSnapshot, Bool.and_eq_true] at hcompletes
  exact hcompletes.1.1.1

theorem mem_shown (x : UninterruptedRun rt w)
    (hstart : MasteringService.start rt x.who x.before = .ok ⟨rt, x.who, w⟩) :
    ∀ id, id ∈ shownBy rt x.who x.before x.last ↔ id ∈ x.shown := by
  have hi := integrity_reachable x.reachable
  have he := extracting_reachable x.reachable
  cases hpages : x.pages with
  | nil =>
    have hbefore : x.before = x.start := by rw [before, hpages]; rfl
    intro id
    rw [hbefore, shownBy, x.unopened x.who, shown, hpages]
    exact Iff.rfl
  | cons first rest =>
    have htaken := x.taken
    rw [hpages] at htaken
    have hfirst : Shows w ((service rt).next x.start first) x.last first.seenIds := by
      refine htaken.1.shows hi x.named ?_
      rintro who page rfl - id
      have hnone : (Request.ingest who page).run? rt x.start = none := by
        have hpage := htaken.1.1
        simp only [Request.isPageOf, Bool.and_eq_true, decide_eq_true_eq] at hpage
        rw [Request.run?_alike hpage.1.1 hpage.1.2 hpage.2]
        exact x.unopened who
      unfold shownBy
      rw [hnone]
      exact Iff.rfl
    have hall := shows_run (integrity_step hi first) (extracting_step hi he first) x.named hfirst htaken.2
    have hbefore : x.before = (service rt).run ((service rt).next x.start first) rest := by
      rw [before, hpages]
      rfl
    rw [← hbefore] at hall
    intro id
    rw [hall.shownBy (extracting_reachable x.before_reachable) hstart, shown, hpages]
    exact Iff.rfl

end UninterruptedRun

/-! The observations admitted under each local key. -/

/-- An object that has not been observed. -/
def SourceObject.blank : SourceObject :=
  ⟨"", "", "", "", "", none, none, none, none, none, false⟩

/-- The standing of a key, and the versions stored under it. -/
def standingAt (s : Store) (key : Id × String × String) : Standing × List String :=
  match s.objects.find? fun o => o.key = key with
  | some o => (o.standing s, o.versions s)
  | none => (⟨.blank, none⟩, [])

theorem standingAt_eq (hi : Integrity rt w s) (ho : o ∈ s.objects) :
    standingAt s o.key = (o.standing s, o.versions s) := by
  have hfind : Table.find SourceObject.key s.objects o.key = some o := hi.objectKeys.find_of_mem ho
  unfold Table.find at hfind
  rw [standingAt, hfind]

theorem standsAt_standingAt (hi : Integrity rt w s) (key : Id × String × String) :
    StandsAt s key (standingAt s key).1 (standingAt s key).2 := by
  refine ⟨fun o ho hk => ?_, fun hnone => ?_⟩
  · rw [← hk, standingAt_eq hi ho]
    exact stands_standing
  · have hfind : (s.objects.find? fun o => o.key = key) = none := by
      rw [List.find?_eq_none]
      intro o ho hk
      exact hnone o ho (of_decide_eq_true hk)
    rw [standingAt, hfind]
    exact ⟨rfl, rfl, rfl, rfl⟩

/-- The records of a page that are admitted under a local key. -/
def IngestRequest.admittedAt (req : IngestRequest) (rt : Runtime) (policy : CompiledPolicy) (s : Store)
    (source : Source) (localId : String) : List IncomingRecord :=
  let standing := standingAt s (source.id, req.domainKey, localId)
  Standing.admitted rt policy standing.1 standing.2 (req.records.filter fun item => item.localId = localId)

theorem admittedAt_eq (hi : Integrity rt w s) (ho : o ∈ s.objects)
    (hkey : o.key = (source.id, req.domainKey, localId)) :
    req.admittedAt rt policy s source localId = req.admitted rt policy s source o := by
  unfold IngestRequest.admittedAt IngestRequest.admitted
  rw [← hkey, standingAt_eq hi ho, IngestRequest.about, filter_key hkey]

namespace Page

/-- The work of a page that is admitted under a local key. -/
def admitted (p : Page self s req) (localId : String) : List IncomingRecord :=
  let standing := standingAt s (p.source.id, req.domainKey, localId)
  Standing.admitted self.rt p.policy standing.1 standing.2
    (p.work.filter fun item => item.localId = localId)

/-- The page retires under a local key once for every tombstone that is admitted there. -/
theorem count_retired (p : Page self s req) (hi : Integrity self.rt self.workspace s)
    (localId : String) : (retiredKeys p.work p.verdicts).count localId =
      (p.admitted localId).countP IncomingRecord.deleted := by
  have hbegun := p.begun_quiet.toSameRows
  have hstanding := standsAt_standingAt hi (p.source.id, req.domainKey, localId)
  refine observeAll_retired (hi.sameRows hbegun) ⟨fun o ho hk => ?_, fun hnone => ?_⟩ p.observes
  · exact (hstanding.held o (hbegun.objects ▸ ho) hk).sameRows hbegun.records
  · exact hstanding.blank (hbegun.objects ▸ hnone)

theorem retired_at (p : Page self s req) (hi : Integrity self.rt self.workspace s) (ho : o ∈ s.objects)
    (hkey : o.key = (p.source.id, req.domainKey, o.localId)) :
    ∃ o' ∈ p.finished.objects, o'.id = o.id ∧ o'.retired = retiredBy o.retired (p.admitted o.localId) := by
  obtain ⟨o', ho', hid, hretired, -⟩ := p.stands hi ho
  refine ⟨o', ho', hid, ?_⟩
  rw [hretired, admitted, ← hkey, standingAt_eq hi ho, filter_key hkey]

theorem admitted_shown (p : Page self s req) (hi : Integrity self.rt self.workspace s)
    (hcompletes : p.completesSnapshot = true) {localId : String}
    (h : (∀ o ∈ s.objects, o.key = (p.source.id, req.domainKey, localId) → o.retired = true) ∨
      localId ∈ p.seen) : p.admitted localId = req.admittedAt self.rt p.policy s p.source localId := by
  unfold admitted IngestRequest.admittedAt
  rcases p.work_at hi hcompletes localId with ⟨-, hwork⟩ | ⟨hseen, o, ho, hkey, hactive, -⟩
  · rw [hwork]
  · rcases h with hretired | hshown
    · rw [hretired o ho hkey] at hactive
      cases hactive
    · exact (hseen hshown).elim

/-- The work admitted on an active object that no page has shown: tombstones of the page, and that of the
snapshot unless its version is known. -/
theorem admitted_unseen (p : Page self s req) (hi : Integrity self.rt self.workspace s)
    (hcompletes : p.completesSnapshot = true) (ho : o ∈ s.objects) (hactive : o.retired = false)
    (hkey : o.key = (p.source.id, req.domainKey, o.localId)) (hseen : o.localId ∉ p.seen) :
    (∀ item ∈ p.admitted o.localId, item.deleted = true) ∧ (p.admitted o.localId).length =
      (req.admitted self.rt p.policy s p.source o).length +
        if snapshotVersion (req.runId.getD "") ∈ o.versions s ∨
          snapshotVersion (req.runId.getD "") ∈ (req.about p.source o).map IncomingRecord.version
        then 0 else 1 := by
  rcases p.work_own hi hcompletes ho hactive hkey with ⟨hshown, -⟩ | ⟨-, tombstone, htombstone, hwork⟩
  · exact (hseen hshown).elim
  · have hadmitted : p.admitted o.localId = Standing.admitted self.rt p.policy (o.standing s)
        (o.versions s) (req.about p.source o ++ [tombstone]) := by
      rw [admitted, ← hkey, standingAt_eq hi ho, ← hwork, filter_key hkey]
    have hall := p.about_deleted hseen
    rw [hadmitted]
    refine ⟨fun item hitem => ?_, ?_⟩
    · rcases List.mem_append.mp (Standing.admitted_subset item hitem) with hitem | hitem
      · exact hall item hitem
      · rw [List.mem_singleton.mp hitem]
        exact htombstone.deleted
    · rw [Standing.admitted_concat, htombstone.version, htombstone.admits, if_pos rfl, List.length_append]
      congr 1
      split <;> rfl

end Page

theorem countP_le_one_iff {α : Type} {q : α → Bool} {xs : List α} :
    xs.countP q ≤ 1 ∧ (0 < xs.countP q → ∃ x ∈ xs.getLast?, q x = true) ↔
      ∀ x ∈ xs.dropLast, q x = false := by
  rcases List.eq_nil_or_concat xs with rfl | ⟨ys, y, rfl⟩
  · simp
  · rw [List.concat_eq_append, List.dropLast_concat, List.getLast?_concat, List.countP_append,
      List.countP_singleton]
    have hnone : (∀ x ∈ ys, q x = false) ↔ ys.countP q = 0 := by
      rw [List.countP_eq_zero]
      simp
    rw [hnone]
    by_cases hy : q y = true
    · simp only [hy, if_true, Option.mem_some_iff, exists_eq_left', implies_true, and_true]
      omega
    · simp only [hy, if_false, Option.mem_some_iff, exists_eq_left', Bool.false_eq_true, imp_false]
      omega

theorem length_eq_iff_subset {α : Type} {xs ys : List α} (hnodup : xs.Nodup) (hsub : xs ⊆ ys) :
    ys.length = xs.length ↔ ys.Nodup ∧ ys ⊆ xs := by
  constructor
  · intro hlength
    have hperm := (List.subperm_of_subset hnodup hsub).perm_of_length_le hlength.le
    exact ⟨hperm.nodup_iff.mp hnodup, hperm.symm.subset⟩
  · rintro ⟨hnodup', hsub'⟩
    exact le_antisymm (List.subperm_of_subset hnodup' hsub').length_le
      (List.subperm_of_subset hnodup hsub).length_le

namespace Page

/-- The local keys of the objects that a page retires. -/
def retiredIds (p : Page self s req) : List String :=
  (s.objects.filter fun o => !o.retired && p.finished.objects.any fun o' =>
    o'.id = o.id && o'.retired).map SourceObject.localId

/-- A page retires active objects of its source and domain, where the last of the observations that are
admitted is a tombstone. -/
theorem retires_iff (p : Page self s req) (hi : Integrity self.rt self.workspace s)
    (hi' : Integrity self.rt self.workspace p.finished) (ho : o ∈ s.objects) :
    (!o.retired && p.finished.objects.any fun o' => o'.id = o.id && o'.retired) = true ↔
      o.retired = false ∧ o.key = (p.source.id, req.domainKey, o.localId) ∧
        ∃ item ∈ (p.admitted o.localId).getLast?, item.deleted = true := by
  rw [Bool.and_eq_true, Bool.not_eq_true']
  refine and_congr_right fun hactive => ?_
  by_cases hkey : o.key = (p.source.id, req.domainKey, o.localId)
  · obtain ⟨o', ho', hid, hretired⟩ := p.retired_at hi ho hkey
    rw [and_iff_right hkey]
    have hthis : (p.finished.objects.any fun o' => o'.id = o.id && o'.retired) = true ↔
        o'.retired = true := by
      rw [List.any_eq_true]
      constructor
      · rintro ⟨o'', ho'', hboth⟩
        rw [Bool.and_eq_true, decide_eq_true_eq] at hboth
        obtain rfl := hi'.objectIds.eq_of_mem ho'' ho' (hboth.1.trans hid.symm)
        exact hboth.2
      · intro hretired
        exact ⟨o', ho', by simp [hid, hretired]⟩
    rw [hthis, hretired, hactive, retiredBy]
    cases (p.admitted o.localId).getLast? <;> simp
  · have hforeign : o.sourceId ≠ p.source.id ∨ o.domainKey ≠ req.domainKey := by
      by_contra hnot
      obtain ⟨hsource, hdomain⟩ := not_or.mp hnot
      exact hkey (by rw [SourceObject.key, not_not.mp hsource, not_not.mp hdomain])
    obtain ⟨o', ho', hid, hretired⟩ := p.retired_foreign hi ho hforeign
    refine iff_of_false ?_ fun hboth => hkey hboth.1
    rw [List.any_eq_true]
    rintro ⟨o'', ho'', hboth⟩
    rw [Bool.and_eq_true, decide_eq_true_eq] at hboth
    obtain rfl := hi'.objectIds.eq_of_mem ho'' ho' (hboth.1.trans hid.symm)
    rw [hretired, hactive] at hboth
    cases hboth.2

theorem mem_retiredIds (p : Page self s req) (hi : Integrity self.rt self.workspace s)
    (hi' : Integrity self.rt self.workspace p.finished) {localId : String} :
    localId ∈ p.retiredIds ↔ ∃ o ∈ s.objects, o.key = (p.source.id, req.domainKey, localId) ∧
      o.retired = false ∧ ∃ item ∈ (p.admitted localId).getLast?, item.deleted = true := by
  unfold retiredIds
  rw [List.mem_map]
  constructor
  · rintro ⟨o, ho, rfl⟩
    obtain ⟨ho, hretires⟩ := List.mem_filter.mp ho
    obtain ⟨hactive, hkey, hlast⟩ := (p.retires_iff hi hi' ho).mp hretires
    exact ⟨o, ho, hkey, hactive, hlast⟩
  · rintro ⟨o, ho, hkey, hactive, hlast⟩
    have hlocal : o.localId = localId := congrArg (fun k => k.2.2) hkey
    rw [← hlocal] at hkey hlast
    exact ⟨o, List.mem_filter.mpr ⟨ho, (p.retires_iff hi hi' ho).mpr ⟨hactive, hkey, hlast⟩⟩, hlocal⟩

theorem retiredIds_nodup (p : Page self s req) (hi : Integrity self.rt self.workspace s)
    (hi' : Integrity self.rt self.workspace p.finished) : p.retiredIds.Nodup := by
  have hall : (s.objects.map SourceObject.key).Nodup := hi.objectKeys
  have hkeys : ((s.objects.filter fun o => !o.retired && p.finished.objects.any fun o' =>
      o'.id = o.id && o'.retired).map SourceObject.key).Nodup :=
    (List.filter_sublist.map SourceObject.key).nodup hall
  have hmap : (s.objects.filter fun o => !o.retired && p.finished.objects.any fun o' =>
      o'.id = o.id && o'.retired).map SourceObject.key =
      p.retiredIds.map fun localId => (p.source.id, req.domainKey, localId) := by
    rw [retiredIds, List.map_map]
    refine List.map_congr_left fun o ho => ?_
    obtain ⟨ho, hretires⟩ := List.mem_filter.mp ho
    exact ((p.retires_iff hi hi' ho).mp hretires).2.1
  exact List.Nodup.of_map _ (hmap ▸ hkeys)

theorem retiredIds_subset (p : Page self s req) (hi : Integrity self.rt self.workspace s)
    (hi' : Integrity self.rt self.workspace p.finished) :
    p.retiredIds ⊆ retiredKeys p.work p.verdicts := by
  intro localId hmem
  obtain ⟨-, -, -, -, item, hlast, hdeleted⟩ := (p.mem_retiredIds hi hi').mp hmem
  rw [← List.count_pos_iff, p.count_retired hi, List.countP_pos_iff]
  exact ⟨item, List.mem_of_getLast? hlast, hdeleted⟩

/-- The page counts as many retirements as it retires objects if and only if it retires no object twice,
and none that it does not leave retired. -/
theorem counted_iff (p : Page self s req) (hi : Integrity self.rt self.workspace s)
    (hi' : Integrity self.rt self.workspace p.finished) :
    (Counts.of p.verdicts).retired = p.retiredIds.length ↔
      ∀ localId, (p.admitted localId).countP IncomingRecord.deleted ≤ 1 ∧
        (0 < (p.admitted localId).countP IncomingRecord.deleted → localId ∈ p.retiredIds) := by
  rw [← length_retiredKeys (observeAll_length p.observes),
    length_eq_iff_subset (p.retiredIds_nodup hi hi') (p.retiredIds_subset hi hi'),
    List.nodup_iff_count_le_one]
  simp only [← p.count_retired hi, List.count_pos_iff]
  exact ⟨fun h localId => ⟨h.1 localId, fun hmem => h.2 hmem⟩,
    fun h => ⟨fun localId => (h localId).1, fun localId hmem => (h localId).2 hmem⟩⟩

end Page

/-- The number of destructive changes that an answer reports. -/
def destructiveChanges : Py Answer → Nat
  | .ok (.ingested (.ingested _ _ _ _ n)) => n
  | _ => 0

theorem Page.destructiveChanges_eq (p : Page ⟨rt, who, w⟩ s req)
    (hstart : MasteringService.start rt who s = .ok ⟨rt, who, w⟩) :
    destructiveChanges ((service rt).step s (.ingest who req)).2 = (Counts.of p.verdicts).retired := by
  have hingest : MasteringService.ingest ⟨rt, who, w⟩ s req = .ok (p.finished,
      .ingested (Counts.of p.verdicts) p.source.key req.runId
        (MasteringService.sourceCheckpoint p.source req (Counts.of p.verdicts))
        (Counts.of p.verdicts).retired) := by
    simp only [MasteringService.ingest, MasteringService.ingestPage, MasteringService.sourceAndDomain,
      p.source_found, p.domain_found, p.begins, p.authorized, p.work_listed, p.observes, bind,
      Except.bind, pure, Except.pure]
    rfl
  simp only [service, transact, Request.who, hstart, serve, hingest, bind, Except.bind, pure, Except.pure]
  rfl

namespace UninterruptedRun

variable {x : UninterruptedRun rt w}

/-- Of the active objects, the last page retires those of its source and domain that have a current
tombstone in it, or that no page has shown, and it reports their number. -/
structure RetiresExactly (x : UninterruptedRun rt w) (policy : CompiledPolicy) (source : Source) : Prop where
  retires : ∀ o ∈ x.before.objects, o.retired = false → ∀ o' ∈ x.after.objects, o'.id = o.id →
    (o'.retired = true ↔ o.key = (source.id, x.last.domainKey, o.localId) ∧
      ((∃ item ∈ x.last.admitted rt policy x.before source o, item.deleted = true) ∨
        o.localId ∉ x.shown))
  counted : destructiveChanges ((service rt).step x.before (.ingest x.who x.last)).2 =
    (x.before.objects.filter fun o => !o.retired && x.after.objects.any fun o' =>
      o'.id = o.id && o'.retired).length

/-- Each tombstone that the last page admits is the last observation it admits of an active object; an
object that no page has shown has one in the page or that of the snapshot, not both. -/
structure TombstonesApart (x : UninterruptedRun rt w) (policy : CompiledPolicy) (source : Source) : Prop where
  shown : ∀ o ∈ x.before.objects, o.key = (source.id, x.last.domainKey, o.localId) →
    o.retired = false → o.localId ∈ x.shown →
      ∀ item ∈ (x.last.admitted rt policy x.before source o).dropLast, item.deleted = false
  unseen : ∀ o ∈ x.before.objects, o.key = (source.id, x.last.domainKey, o.localId) →
    o.retired = false → o.localId ∉ x.shown →
      (x.last.admitted rt policy x.before source o).length +
        (if snapshotVersion (x.last.runId.getD "") ∈ o.versions x.before ∨
          snapshotVersion (x.last.runId.getD "") ∈ (x.last.about source o).map IncomingRecord.version
          then 0 else 1) = 1
  absent : ∀ item ∈ x.last.records, (∀ o ∈ x.before.objects,
      o.key = (source.id, x.last.domainKey, item.localId) → o.retired = true) →
    ∀ a ∈ x.last.admittedAt rt policy x.before source item.localId, a.deleted = false

instance {source : Source} : Decidable (x.TombstonesApart policy source) :=
  have : Decidable (∀ o ∈ x.before.objects,
      o.key = (source.id, x.last.domainKey, o.localId) → o.retired = false → o.localId ∈ x.shown →
        ∀ item ∈ (x.last.admitted rt policy x.before source o).dropLast, item.deleted = false) :=
    inferInstance
  have : Decidable (∀ o ∈ x.before.objects,
      o.key = (source.id, x.last.domainKey, o.localId) → o.retired = false → o.localId ∉ x.shown →
        (x.last.admitted rt policy x.before source o).length +
          (if snapshotVersion (x.last.runId.getD "") ∈ o.versions x.before ∨
            snapshotVersion (x.last.runId.getD "") ∈ (x.last.about source o).map IncomingRecord.version
            then 0 else 1) = 1) :=
    inferInstance
  have : Decidable (∀ item ∈ x.last.records, (∀ o ∈ x.before.objects,
      o.key = (source.id, x.last.domainKey, item.localId) → o.retired = true) →
        ∀ a ∈ x.last.admittedAt rt policy x.before source item.localId, a.deleted = false) :=
    inferInstance
  decidable_of_iff (_ ∧ _ ∧ _) ⟨fun ⟨h₁, h₂, h₃⟩ => ⟨h₁, h₂, h₃⟩, fun ⟨h₁, h₂, h₃⟩ => ⟨h₁, h₂, h₃⟩⟩

section

variable {p : Page ⟨rt, x.who, w⟩ x.before x.last} (hi : Integrity rt w x.before)
  (hi' : Integrity rt w p.finished)

include hi hi'

/-- What the last page does under the key of an active object that has been shown. -/
theorem apart_shown (ho : o ∈ x.before.objects)
    (hkey : o.key = (p.source.id, x.last.domainKey, o.localId)) (hactive : o.retired = false) :
    ((p.admitted o.localId).countP IncomingRecord.deleted ≤ 1 ∧
      (0 < (p.admitted o.localId).countP IncomingRecord.deleted → o.localId ∈ p.retiredIds)) ↔
      ∀ item ∈ (p.admitted o.localId).dropLast, item.deleted = false := by
  rw [← countP_le_one_iff, p.mem_retiredIds hi hi']
  refine and_congr_right fun _ => imp_congr_right fun _ => ?_
  exact ⟨fun ⟨_, _, _, _, hlast⟩ => hlast, fun hlast => ⟨o, ho, hkey, hactive, hlast⟩⟩

/-- What it does under that of one that has not. -/
theorem apart_unseen (ho : o ∈ x.before.objects)
    (hkey : o.key = (p.source.id, x.last.domainKey, o.localId)) (hactive : o.retired = false)
    (hall : ∀ item ∈ p.admitted o.localId, item.deleted = true) :
    ((p.admitted o.localId).countP IncomingRecord.deleted ≤ 1 ∧ o.localId ∈ p.retiredIds) ↔
      (p.admitted o.localId).length = 1 := by
  rw [List.countP_eq_length.mpr hall, p.mem_retiredIds hi hi']
  constructor
  · rintro ⟨hone, -, -, -, -, item, hlast, -⟩
    have hpos := List.length_pos_of_mem (List.mem_of_getLast? hlast)
    omega
  · intro hone
    have hne : p.admitted o.localId ≠ [] := by
      intro hnil
      rw [hnil] at hone
      cases hone
    exact ⟨hone.le, o, ho, hkey, hactive, _, List.getLast?_eq_some_getLast hne,
      hall _ (List.getLast_mem hne)⟩

/-- And what it does under a key without an active object. -/
theorem apart_absent {localId : String} (hnone : ∀ o ∈ x.before.objects,
      o.key = (p.source.id, x.last.domainKey, localId) → o.retired = true) :
    ((p.admitted localId).countP IncomingRecord.deleted ≤ 1 ∧
      (0 < (p.admitted localId).countP IncomingRecord.deleted → localId ∈ p.retiredIds)) ↔
      ∀ a ∈ p.admitted localId, a.deleted = false := by
  have hout : localId ∉ p.retiredIds := by
    rw [p.mem_retiredIds hi hi']
    rintro ⟨o, ho, hkey, hactive, -⟩
    rw [hnone o ho hkey] at hactive
    cases hactive
  have hzero : (∀ a ∈ p.admitted localId, a.deleted = false) ↔
      (p.admitted localId).countP IncomingRecord.deleted = 0 := by
    rw [List.countP_eq_zero]
    simp
  rw [hzero]
  constructor
  · rintro ⟨-, hpos⟩
    by_contra hne
    exact hout (hpos (Nat.pos_of_ne_zero hne))
  · intro hnil
    rw [hnil]
    exact ⟨Nat.zero_le _, fun hpos => (Nat.lt_irrefl 0 hpos).elim⟩

end

/-- The last page of an uninterrupted full run retires exactly what the run calls for, and reports their
number, if and only if the tombstones that it admits are apart. -/
theorem retires_exactly_iff (x : UninterruptedRun rt w) {source : Source} {domain : Domain}
    {policy : CompiledPolicy}
    (hsource : MasteringService.source? ⟨rt, x.who, w⟩ x.before x.last.sourceKey = some source)
    (hdomain : MasteringService.domain? ⟨rt, x.who, w⟩ x.before x.last.domainKey = some domain)
    (hpolicy : compilePolicy rt domain.definition = .ok policy) :
    x.RetiresExactly policy source ↔ x.TombstonesApart policy source := by
  have hi := integrity_reachable x.before_reachable
  obtain ⟨p, hstart, hafter, hcompletes⟩ := page_of_completing hi x.completes x.commits
  have hafter : x.after = p.finished := hafter
  have hi' : Integrity rt w p.finished := by
    rw [← hafter]
    exact integrity_step hi _
  obtain rfl : p.source = source := Option.some.inj (p.source_found.symm.trans hsource)
  obtain rfl : p.policy = policy := p.policy_eq hdomain hpolicy
  have hseen : ∀ localId, localId ∈ p.seen ↔ localId ∈ x.shown := by
    intro localId
    rw [p.seen_eq hi hstart]
    exact x.mem_shown hstart localId
  have hshown : ∀ o ∈ x.before.objects, o.key = (p.source.id, x.last.domainKey, o.localId) →
      o.localId ∈ x.shown → p.admitted o.localId = x.last.admitted rt p.policy x.before p.source o := by
    intro o ho hkey hmem
    rw [p.admitted_shown hi hcompletes (.inr ((hseen _).mpr hmem)), admittedAt_eq hi ho hkey]
  have hlast : ∀ o ∈ x.before.objects, o.retired = false → ∀ o' ∈ x.after.objects, o'.id = o.id →
      (o'.retired = true ↔ o.key = (p.source.id, x.last.domainKey, o.localId) ∧
        o.localId ∈ p.retiredIds) := by
    intro o ho hactive o' ho' hid
    rw [hafter] at ho'
    have hretires := p.retires_iff hi hi' ho
    have hany : (!o.retired && p.finished.objects.any fun o' => o'.id = o.id && o'.retired) = true ↔
        o'.retired = true := by
      rw [hactive, Bool.not_false, Bool.true_and, List.any_eq_true]
      constructor
      · rintro ⟨o'', ho'', hboth⟩
        rw [Bool.and_eq_true, decide_eq_true_eq] at hboth
        obtain rfl := hi'.objectIds.eq_of_mem ho'' ho' (hboth.1.trans hid.symm)
        exact hboth.2
      · intro hretired
        exact ⟨o', ho', by simp [hid, hretired]⟩
    rw [← hany, hretires, and_iff_right hactive]
    refine and_congr_right fun hkey => ?_
    rw [p.mem_retiredIds hi hi']
    constructor
    · intro hdeleted
      exact ⟨o, ho, hkey, hactive, hdeleted⟩
    · rintro ⟨-, -, -, -, hdeleted⟩
      exact hdeleted
  have hcounted : destructiveChanges ((service rt).step x.before (.ingest x.who x.last)).2 =
      (x.before.objects.filter fun o => !o.retired && x.after.objects.any fun o' =>
        o'.id = o.id && o'.retired).length ↔
      ∀ localId, (p.admitted localId).countP IncomingRecord.deleted ≤ 1 ∧
        (0 < (p.admitted localId).countP IncomingRecord.deleted → localId ∈ p.retiredIds) := by
    rw [p.destructiveChanges_eq hstart, hafter, ← p.counted_iff hi hi', Page.retiredIds, List.length_map]
  constructor
  · rintro ⟨hretires, hcount⟩
    rw [hcounted] at hcount
    constructor
    · intro o ho hkey hactive hmem
      rw [← hshown o ho hkey hmem]
      exact (apart_shown hi hi' ho hkey hactive).mp (hcount o.localId)
    · intro o ho hkey hactive hmem
      obtain ⟨hall, hlength⟩ := p.admitted_unseen hi hcompletes ho hactive hkey (mt (hseen _).mp hmem)
      rw [← hlength]
      obtain ⟨o', ho', hid, -⟩ := p.retired_at hi ho hkey
      rw [← hafter] at ho'
      have hretired := (hretires o ho hactive o' ho' hid).mpr ⟨hkey, .inr hmem⟩
      exact (apart_unseen hi hi' ho hkey hactive hall).mp
        ⟨(hcount o.localId).1, ((hlast o ho hactive o' ho' hid).mp hretired).2⟩
    · intro item _ hnone
      rw [← p.admitted_shown hi hcompletes (.inl hnone)]
      exact (apart_absent hi hi' hnone).mp (hcount item.localId)
  · intro hapart
    have hcount : ∀ localId, (p.admitted localId).countP IncomingRecord.deleted ≤ 1 ∧
        (0 < (p.admitted localId).countP IncomingRecord.deleted → localId ∈ p.retiredIds) := by
      intro localId
      by_cases hactive : ∃ o ∈ x.before.objects, o.key = (p.source.id, x.last.domainKey, localId) ∧
          o.retired = false
      · obtain ⟨o, ho, hkey, hactive⟩ := hactive
        obtain rfl : o.localId = localId := congrArg (fun k => k.2.2) hkey
        by_cases hmem : o.localId ∈ x.shown
        · rw [apart_shown hi hi' ho hkey hactive, hshown o ho hkey hmem]
          exact hapart.shown o ho hkey hactive hmem
        · obtain ⟨hall, hlength⟩ :=
            p.admitted_unseen hi hcompletes ho hactive hkey (mt (hseen _).mp hmem)
          have hboth := (apart_unseen hi hi' ho hkey hactive hall).mpr
            (hlength.trans (hapart.unseen o ho hkey hactive hmem))
          exact ⟨hboth.1, fun _ => hboth.2⟩
      · have hnone : ∀ o ∈ x.before.objects, o.key = (p.source.id, x.last.domainKey, localId) →
            o.retired = true := by
          intro o ho hkey
          by_contra hnot
          exact hactive ⟨o, ho, hkey, by simpa using hnot⟩
        rw [apart_absent hi hi' hnone, p.admitted_shown hi hcompletes (.inl hnone)]
        intro a ha
        obtain ⟨hrecord, hlocal⟩ := List.mem_filter.mp (Standing.admitted_subset a ha)
        obtain rfl : a.localId = localId := of_decide_eq_true hlocal
        exact hapart.absent a hrecord hnone a ha
    refine ⟨fun o ho hactive o' ho' hid => ?_, hcounted.mpr hcount⟩
    rw [hlast o ho hactive o' ho' hid]
    refine and_congr_right fun hkey => ?_
    by_cases hmem : o.localId ∈ x.shown
    · rw [← hshown o ho hkey hmem, or_iff_left (not_not.mpr hmem)]
      constructor
      · intro hretired
        obtain ⟨-, -, -, -, item, hitem, hdeleted⟩ := (p.mem_retiredIds hi hi').mp hretired
        exact ⟨item, List.mem_of_getLast? hitem, hdeleted⟩
      · rintro ⟨item, hitem, hdeleted⟩
        exact (hcount o.localId).2 (List.countP_pos_iff.mpr ⟨item, hitem, hdeleted⟩)
    · obtain ⟨hall, hlength⟩ := p.admitted_unseen hi hcompletes ho hactive hkey (mt (hseen _).mp hmem)
      refine iff_of_true ?_ (.inr hmem)
      exact ((apart_unseen hi hi' ho hkey hactive hall).mpr
        (hlength.trans (hapart.unseen o ho hkey hactive hmem))).2

end UninterruptedRun

namespace Supplier

/-- A last page with the given records. -/
def closing (records : List IncomingRecord) : IngestRequest := { lastPage with records := records }

/-- A run over a store that has the supplier C, which no page shows. -/
def Closes (records : List IncomingRecord) : Prop :=
  ((after [another]).runs = [] ∧
    ingestedBatch ((service .plain).step (after [another]) firstPage).2 = true) ∧
  ingestedBatch ((service .plain).step ((service .plain).run (after [another]) [firstPage])
    (.ingest (steward "alice") (closing records))).2 = true

def stocktaking (records : List IncomingRecord) (h : Closes records) : UninterruptedRun .plain workspace where
  start := after [another]
  pages := [firstPage]
  who := steward "alice"
  last := closing records
  reachable := ⟨setup ++ [another], rfl⟩
  unopened _ := Request.run?_of_runs_nil h.1.1
  taken := ⟨⟨rfl, h.1.2⟩, trivial⟩
  completes := rfl
  commits := h.2

def showsB : List IncomingRecord := [observation "b" "1" [("name", .str "B")]]

/-- The last page has a tombstone of its own for the supplier C. -/
def dropsC : List IncomingRecord := [{ observation "c" "2" [] with deleted := true }]

theorem closes_showsB : Closes showsB := by
  unfold Closes
  decide +kernel

theorem closes_dropsC : Closes dropsC := by
  unfold Closes
  decide +kernel

/-- The supplier C is retired, and counted once. -/
theorem retires_exactly_showsB : ∃ source policy,
    (stocktaking showsB closes_showsB).RetiresExactly policy source := by
  let x := stocktaking showsB closes_showsB
  have hall : (MasteringService.source? ⟨.plain, x.who, workspace⟩ x.before x.last.sourceKey).any
      fun source =>
      (MasteringService.domain? ⟨.plain, x.who, workspace⟩ x.before x.last.domainKey).any fun domain =>
        (compilePolicy .plain domain.definition).toOption.any fun policy =>
          decide (x.TombstonesApart policy source) := by
    decide +kernel
  obtain ⟨source, hsource, hall⟩ := (Option.any_eq_true _ _).mp hall
  obtain ⟨domain, hdomain, hall⟩ := (Option.any_eq_true _ _).mp hall
  obtain ⟨policy, hpolicy, hall⟩ := Except.of_any hall
  rw [decide_eq_true_eq] at hall
  exact ⟨source, policy, (x.retires_exactly_iff hsource hdomain hpolicy).mpr hall⟩

/-- The supplier C is retired by its tombstone and by that of the snapshot, and counted twice. -/
theorem retired_twice : ¬ ∃ source policy,
    (stocktaking dropsC closes_dropsC).RetiresExactly policy source := by
  have hcounts : destructiveChanges ((service .plain).step (stocktaking dropsC closes_dropsC).before
        (.ingest (steward "alice") (closing dropsC))).2 = 2 ∧
      ((stocktaking dropsC closes_dropsC).before.objects.filter fun o => !o.retired &&
        (stocktaking dropsC closes_dropsC).after.objects.any fun o' =>
          o'.id = o.id && o'.retired).length = 1 := by
    decide +kernel
  rintro ⟨source, policy, hexact⟩
  have hcounted := hexact.counted
  rw [hcounts.2] at hcounted
  have hsame := hcounted.symm.trans hcounts.1
  cases hsame

end Supplier

end Recordlane
