import Recordlane.Completion

/-! Delivering the pages of a run: retries, answers that are lost, and attempts that fail before
their commit. -/
namespace Recordlane

variable {rt : Runtime} {w : Workspace} {self : MasteringService} {s t : Store} {who : Principal}
  {req req' : IngestRequest} {pages : List IngestRequest} {fault : Option Nat}

/-- What becomes of an attempt: it is answered, its answer is lost, or it fails before its commit. -/
inductive Fate
  | answered | lost | crashed
  deriving DecidableEq

/-- An attempt to deliver the page at a position of the run, maybe with an injected fault. -/
structure Attempt where
  page : Nat
  fault : Option Nat
  fate : Fate

/-- The store that a run is delivered to, the number of pages its client knows to be delivered, and
the positions of the pages whose records were processed. -/
structure Delivery where
  store : Store
  acknowledged : Nat
  processed : List Nat

def Delivery.start (s : Store) : Delivery := ⟨s, 0, []⟩

/-- The same page with a fault injected. -/
def IngestRequest.withFault (req : IngestRequest) (fault : Option Nat) : IngestRequest :=
  { req with faultAfterRecords := fault }

/-- The attempts of a client to deliver the pages of a run. -/
def deliveries (rt : Runtime) (who : Principal) (pages : List IngestRequest) :
    System Delivery Attempt Unit where
  step d a :=
    match pages[a.page]? with
    | none => (d, ())
    | some page =>
      if a.fate = .crashed then (d, ())
      else
        let outcome := (service rt).step d.store (.ingest who (page.withFault a.fault))
        ({ store := outcome.1
           acknowledged := if a.fate = .answered && outcome.2.isOk then max d.acknowledged (a.page + 1)
             else d.acknowledged
           processed := if ingestedBatch outcome.2 then d.processed ++ [a.page] else d.processed }, ())

/-- No page is sent before the ones ahead of it are known to be delivered. -/
def SentInOrder (d : Delivery) (a : Attempt) : Prop := a.page ≤ d.acknowledged

instance (d : Delivery) (a : Attempt) : Decidable (SentInOrder d a) :=
  inferInstanceAs (Decidable (a.page ≤ d.acknowledged))

/-- The pages of one run: the first has no cursor, each of the others the one announced before it, and
no two have the same. -/
structure PageChain (pages : List IngestRequest) : Prop where
  named : ∀ page ∈ pages, page.run?.isSome
  alike : ∀ a ∈ pages, ∀ b ∈ pages,
    a.sourceKey = b.sourceKey ∧ a.domainKey = b.domainKey ∧ a.runId = b.runId
  starts : ∀ page ∈ pages.head?, page.pageCursor = none
  linked : pages.IsChain fun a b => b.pageCursor = a.nextCursor
  distinct : (pages.map IngestRequest.pageCursor).Nodup
  faultless : ∀ page ∈ pages, page.faultAfterRecords = none

/-- The pages were processed once each, and the store is that of delivering each once. -/
structure DeliversOnce (rt : Runtime) (who : Principal) (pages : List IngestRequest) (s : Store)
    (d : Delivery) : Prop where
  store : d.store = (service rt).run s (pages.map (.ingest who))
  once : ∀ i < pages.length, d.processed.count i = 1

/-- A cursor that is not taken for the start of the run. -/
def Distinguished (cursor : Option String) : Prop := cursor ≠ some "" ∧ cursor ≠ some "__start__"

instance (cursor : Option String) : Decidable (Distinguished cursor) :=
  inferInstanceAs (Decidable (cursor ≠ some "" ∧ cursor ≠ some "__start__"))

namespace IngestRequest

@[simp] theorem withFault_pageKey : (req.withFault fault).pageKey = req.pageKey := rfl

theorem withFault_none (h : req.faultAfterRecords = none) : req.withFault none = req := by
  obtain ⟨⟩ := req
  cases h
  rfl

theorem pageKey_start (h : ¬ Distinguished req.pageCursor ∨ req.pageCursor = none) :
    req.pageKey = "__start__" := by
  unfold pageKey
  rcases h with h | h
  · by_cases hblank : req.pageCursor = some ""
    · simp [hblank, truthyText]
    · have hstart : req.pageCursor = some "__start__" := by
        by_contra hne
        exact h ⟨hblank, hne⟩
      simp [hstart, truthyText]
  · simp [h, truthyText]

/-- Pages with different cursors have the same key at the start of a run only. -/
theorem pageKey_eq (h : req.pageKey = req'.pageKey) (hne : req.pageCursor ≠ req'.pageCursor) :
    ¬ Distinguished req.pageCursor ∨ req.pageCursor = none := by
  by_contra hnot
  obtain ⟨hdistinct, hsome⟩ := not_or.mp hnot
  obtain ⟨cursor, hcursor⟩ := Option.ne_none_iff_exists'.mp hsome
  obtain ⟨hblank, hstart⟩ := not_not.mp hdistinct
  rw [hcursor] at hblank hstart
  have hkey : req.pageKey = cursor := by
    simp [pageKey, hcursor, truthyText, hblank]
  rw [hkey] at h
  unfold pageKey at h
  split at h
  · next htrue =>
    cases hcursor' : req'.pageCursor with
    | none => simp [hcursor', truthyText] at htrue
    | some cursor' =>
      rw [hcursor', Option.getD_some] at h
      exact hne (by rw [hcursor, hcursor', h])
  · exact hstart (by rw [h])

end IngestRequest

theorem Request.run?_alike (hsource : req.sourceKey = req'.sourceKey)
    (hdomain : req.domainKey = req'.domainKey) (hrun : req.runId = req'.runId) :
    (Request.ingest who req).run? rt s = (Request.ingest who req').run? rt s := by
  simp only [Request.run?, IngestRequest.run?, hsource, hdomain, hrun]

namespace MasteringService

/-- A loop that no fault strikes runs as one without faults. -/
theorem observeAll_faultless {source : Source} {domainKey : String} {policy : CompiledPolicy}
    {index : Nat} {items : List IncomingRecord} {vs : List Verdict}
    (h : self.observeAll source domainKey policy fault s index items = .ok (t, vs)) :
    self.observeAll source domainKey policy none s index items = .ok (t, vs) := by
  induction items generalizing s index vs with
  | nil => exact h
  | cons item items ih =>
    unfold observeAll at h ⊢
    rw [Except.bind_eq_ok] at h ⊢
    obtain ⟨⟨u, v⟩, hobserve, h⟩ := h
    refine ⟨(u, v), hobserve, ?_⟩
    dsimp only at h ⊢
    have hnone : faultStrikes none index v = false := by
      cases v <;> rfl
    rw [hnone, if_neg Bool.false_ne_true]
    split at h
    · cases h
    · rw [Except.bind_eq_ok] at h ⊢
      obtain ⟨⟨u', vs'⟩, hrest, h⟩ := h
      cases h
      exact ⟨(u', vs'), ih hrest, rfl⟩

end MasteringService

/-- A page that no fault strikes is a page without faults. -/
def Page.faultless (p : Page self s (req.withFault fault)) : Page self s (req.withFault none) where
  source := p.source
  domain := p.domain
  begun := p.begun
  run := p.run
  policy := p.policy
  work := p.work
  observed := p.observed
  verdicts := p.verdicts
  source_found := p.source_found
  domain_found := p.domain_found
  begins := p.begins
  authorized := p.authorized
  work_listed := p.work_listed
  observes := MasteringService.observeAll_faultless p.observes

theorem Page.source? (p : Page self s req) (hi : Integrity self.rt self.workspace s) :
    ∃ source, self.source? p.finished req.sourceKey = some source ∧ source.id = p.source.id := by
  have hsame := p.source_found
  unfold MasteringService.source? at hsame ⊢
  rw [p.finished_sources hi, Table.find?_modify, hsame]
  · refine ⟨_, rfl, ?_⟩
    dsimp only
    rw [if_pos rfl]
  · exact fun _ => rfl

theorem Page.run?_finished (p : Page ⟨rt, who, w⟩ s req) (hi : Integrity rt w s)
    (hi' : Integrity rt w p.finished) (he : Extracting rt s)
    (hstart : MasteringService.start rt who s = .ok ⟨rt, who, w⟩) (hnamed : req.run?.isSome) :
    ∃ r, (Request.ingest who req).run? rt p.finished = some r ∧
      req.pageKey ∉ (((Request.ingest who req).run? rt s).map fun r =>
        r.checkpoint.processedCursors).getD [] ∧
      r.checkpoint.processedCursors = (((Request.ingest who req).run? rt s).map fun r =>
        r.checkpoint.processedCursors).getD [] ++ [req.pageKey] := by
  have hstart' : MasteringService.start rt who p.finished = .ok ⟨rt, who, w⟩ := by
    rw [← hstart, MasteringService.start, MasteringService.start, hi.workspaces, hi'.workspaces]
  obtain ⟨source, hsource, hsame⟩ := p.source? hi
  have he' := p.extracting hi he
  rcases p.runs hi with ⟨hnone, -⟩ | ⟨externalId, r, u, hrun, -, hcontinues, -, -, f, hf, hruns⟩
  · rw [hnone] at hnamed
    cases hnamed
  have hrow : f r ∈ p.finished.runs := by
    rw [hruns, Table.mem_modify]
    exact .inr ⟨r, hcontinues.mem, rfl, rfl⟩
  have hkey : (f r).key = (w.id, source.id, req.domainKey, externalId) := by
    rw [hf.key, hcontinues.key, hsame]
    rfl
  have hnow : (Request.ingest who req).run? rt p.finished = some (f r) := by
    simp only [Request.run?, hstart', hsource, hrun, Option.bind_some]
    exact he'.run?.mpr ⟨hrow, hkey⟩
  have hbefore : (Request.ingest who req).run? rt s =
      MasteringService.run? ⟨rt, who, w⟩ s p.source req.domainKey externalId := by
    simp only [Request.run?, hstart, p.source_found, hrun, Option.bind_some]
  refine ⟨f r, hnow, ?_⟩
  rw [hbefore, hf.checkpoint]
  cases hcontinues with
  | known hr _ hkey _ =>
    rw [hr]
    exact ⟨hkey, rfl⟩
  | new hn =>
    rw [hn]
    exact ⟨List.not_mem_nil, rfl⟩

namespace MasteringService

theorem openRun_duplicate {source : Source} {externalId runId : String} {checkpoint : RunCheckpoint}
    (h : self.openRun s source req externalId = .ok (.duplicate runId checkpoint)) :
    ∃ r, self.run? s source req.domainKey externalId = some r ∧
      req.pageKey ∈ r.checkpoint.processedCursors := by
  unfold openRun at h
  split at h
  · next r hr =>
    split at h
    · cases h
    · split at h
      · next hkey => exact ⟨r, hr, by simpa using hkey⟩
      · split at h <;> cases h
  · split at h <;> cases h

theorem beginPage_duplicate {source : Source} {runId : String} {checkpoint : RunCheckpoint}
    (h : self.beginPage s source req = .ok (.duplicate runId checkpoint)) :
    ∃ externalId r, req.run? = some externalId ∧
      self.run? s source req.domainKey externalId = some r ∧
      req.pageKey ∈ r.checkpoint.processedCursors := by
  unfold beginPage at h
  split at h
  · split at h <;> cases h
  · next externalId hrun =>
    rw [Except.bind_eq_ok] at h
    obtain ⟨start, hopen, h⟩ := h
    split at h
    · obtain ⟨r, hr, hkey⟩ := openRun_duplicate hopen
      exact ⟨externalId, r, hrun, hr, hkey⟩
    · cases h
    · rw [Except.bind_eq_ok] at h
      obtain ⟨u, -, h⟩ := h
      split at h
      · cases h
      · split at h <;> cases h

end MasteringService

theorem known_of_duplicate (hi : Integrity rt w s)
    (hok : ((service rt).step s (.ingest who req)).2.isOk = true)
    (hdup : ingestedBatch ((service rt).step s (.ingest who req)).2 = false) :
    ∃ r, (Request.ingest who req).run? rt s = some r ∧ req.pageKey ∈ r.checkpoint.processedCursors := by
  cases ht : transact rt s (.ingest who req) with
  | error e =>
    simp only [service, ht] at hok
    cases hok
  | ok committed =>
    obtain ⟨t, answer⟩ := committed
    obtain ⟨hstart, hserve⟩ := transact_serve hi.workspaces ht
    simp only [serve, Except.bind_eq_ok, Except.pure_eq_ok, Prod.exists, Prod.mk.injEq] at hserve
    obtain ⟨u, a, hingest, rfl, rfl⟩ := hserve
    rcases MasteringService.ingest_cases hingest with ⟨-, source, runId, checkpoint, hsource, hbegin, -⟩ |
      ⟨p, -, rfl⟩
    · obtain ⟨externalId, r, hrun, hr, hkey⟩ := MasteringService.beginPage_duplicate hbegin
      have hstart' : MasteringService.start rt who s = .ok ⟨rt, who, w⟩ := hstart
      refine ⟨r, ?_, hkey⟩
      simp only [Request.run?, hstart', hrun, Option.bind_some]
      exact Option.bind_eq_some_iff.mpr ⟨source, hsource, hr⟩
    · simp only [service, ht] at hdup
      cases hdup

theorem extracting_reachable (h : Reachable rt w s) : Extracting rt s := by
  obtain ⟨requests, rfl⟩ := h
  have hboth := (service rt).run_invariant (P := fun s => Integrity rt w s ∧ Extracting rt s)
    (Φ := fun _ _ => True) ⟨integrity_empty, .empty⟩
    ((service rt).along_of_forall (fun _ _ => trivial) requests)
    fun s request hs _ => ⟨integrity_step hs.1 request, extracting_step hs.1 hs.2 request⟩
  exact hboth.2

/-- The keys of the pages that the run of a request has taken. -/
def takenKeys (rt : Runtime) (who : Principal) (s : Store) (req : IngestRequest) : List String :=
  (((Request.ingest who req).run? rt s).map fun r => r.checkpoint.processedCursors).getD []

/-- An attempt takes a page that is new to its run, or leaves the store as it is. -/
theorem attempt_cases (hi : Integrity rt w s) (he : Extracting rt s) (hnamed : req.run?.isSome)
    (hsound : req.faultAfterRecords = none) (fault : Option Nat) :
    (ingestedBatch ((service rt).step s (.ingest who (req.withFault fault))).2 = true ∧
        (service rt).next s (.ingest who (req.withFault fault)) = (service rt).next s (.ingest who req) ∧
        req.pageKey ∉ takenKeys rt who s req ∧
        takenKeys rt who ((service rt).next s (.ingest who req)) req =
          takenKeys rt who s req ++ [req.pageKey]) ∨
      (ingestedBatch ((service rt).step s (.ingest who (req.withFault fault))).2 = false ∧
        (service rt).next s (.ingest who (req.withFault fault)) = s ∧
        (((service rt).step s (.ingest who (req.withFault fault))).2.isOk = true →
          req.pageKey ∈ takenKeys rt who s req)) := by
  cases hingested : ingestedBatch ((service rt).step s (.ingest who (req.withFault fault))).2 with
  | true =>
    obtain ⟨p, hstart, hnext⟩ := page_of_ingested hi hingested
    have hsame : (service rt).next s (.ingest who req) = p.finished := by
      have hfaultless : (service rt).next s (.ingest who (req.withFault none)) = p.finished :=
        p.faultless.next_eq hstart
      rw [IngestRequest.withFault_none hsound] at hfaultless
      exact hfaultless
    have hi' := integrity_step hi (.ingest who (req.withFault fault))
    rw [hnext] at hi'
    obtain ⟨r, hr, hnew, hkeys⟩ := p.run?_finished hi hi' he hstart hnamed
    refine .inl ⟨rfl, hnext.trans hsame.symm, hnew, ?_⟩
    rw [hsame, takenKeys]
    have hr' : (Request.ingest who req).run? rt p.finished = some r := hr
    rw [hr']
    exact hkeys
  | false =>
    refine .inr ⟨rfl, next_of_not_ingested hi hingested, fun hok => ?_⟩
    obtain ⟨r, hr, hkey⟩ := known_of_duplicate hi hok hingested
    have hr' : (Request.ingest who req).run? rt s = some r := hr
    rw [takenKeys, hr']
    exact hkey

theorem takenKeys_alike (hsource : req.sourceKey = req'.sourceKey)
    (hdomain : req.domainKey = req'.domainKey) (hrun : req.runId = req'.runId) :
    takenKeys rt who s req = takenKeys rt who s req' := by
  rw [takenKeys, Request.run?_alike hsource hdomain hrun]
  rfl

/-- The first pages of the run are delivered, each once. -/
structure DeliveredUpTo (rt : Runtime) (w : Workspace) (who : Principal) (pages : List IngestRequest)
    (s : Store) (d : Delivery) (c : Nat) : Prop where
  integrity : Integrity rt w d.store
  extracting : Extracting rt d.store
  store : d.store = (service rt).run s ((pages.take c).map (.ingest who))
  taken : ∀ page ∈ pages, takenKeys rt who d.store page = (pages.take c).map IngestRequest.pageKey
  processed : d.processed = List.range c
  bound : d.acknowledged ≤ c ∧ c ≤ d.acknowledged + 1 ∧ c ≤ pages.length
  distinguished : ∀ page ∈ (pages.take c).tail, Distinguished page.pageCursor

/-- A page is known to be delivered whose records were never processed, nor will be. -/
structure LostPage (rt : Runtime) (w : Workspace) (who : Principal) (pages : List IngestRequest)
    (d : Delivery) (j : Nat) : Prop where
  integrity : Integrity rt w d.store
  extracting : Extracting rt d.store
  later : 1 ≤ j
  confused : ∃ page, pages[j]? = some page ∧ ¬ Distinguished page.pageCursor
  taken : ∀ page ∈ pages, "__start__" ∈ takenKeys rt who d.store page
  unprocessed : j ∉ d.processed

theorem deliveries_next {d : Delivery} {a : Attempt} (hfound : pages[a.page]? = some req)
    (hfate : a.fate ≠ .crashed) : (deliveries rt who pages).next d a =
      { store := (service rt).next d.store (.ingest who (req.withFault a.fault))
        acknowledged := if a.fate = .answered &&
            ((service rt).step d.store (.ingest who (req.withFault a.fault))).2.isOk then
          max d.acknowledged (a.page + 1) else d.acknowledged
        processed := if ingestedBatch ((service rt).step d.store (.ingest who (req.withFault a.fault))).2
          then d.processed ++ [a.page] else d.processed } := by
  simp only [System.next, deliveries, hfound, if_neg hfate]

theorem deliveries_idle {d : Delivery} {a : Attempt} (h : pages[a.page]? = none ∨ a.fate = .crashed) :
    (deliveries rt who pages).next d a = d := by
  rcases h with hnone | hcrashed
  · simp only [System.next, deliveries, hnone]
  · simp only [System.next, deliveries, hcrashed]
    cases pages[a.page]? <;> rfl

namespace PageChain

theorem alike_taken (h : PageChain pages) {page : IngestRequest} (hp : page ∈ pages) (hr : req ∈ pages) :
    takenKeys rt who s page = takenKeys rt who s req := by
  obtain ⟨hsource, hdomain, hrun⟩ := h.alike page hp req hr
  exact takenKeys_alike hsource hdomain hrun

theorem cursor_zero (h : PageChain pages) {page : IngestRequest} (hp : pages[0]? = some page) :
    page.pageCursor = none :=
  h.starts page (by rw [List.head?_eq_getElem?]; exact hp)

theorem cursor_ne (h : PageChain pages) {i j : Nat} {page : IngestRequest} (hi : pages[i]? = some page)
    (hj : pages[j]? = some req) (hne : i ≠ j) : page.pageCursor ≠ req.pageCursor := by
  intro hsame
  refine hne ((List.getElem?_inj ?_ h.distinct).mp ?_)
  · rw [List.length_map]
    exact (List.getElem?_eq_some_iff.mp hi).1
  · rw [List.getElem?_map, List.getElem?_map, hi, hj, Option.map_some, Option.map_some, hsame]

/-- The key of a later page is taken already only if it is that of the start. -/
theorem confused_of_mem (h : PageChain pages) {c : Nat} (hc : pages[c]? = some req)
    (hmem : req.pageKey ∈ (pages.take c).map IngestRequest.pageKey) :
    1 ≤ c ∧ ¬ Distinguished req.pageCursor := by
  obtain ⟨hlength, -⟩ := List.getElem?_eq_some_iff.mp hc
  obtain ⟨page, hpage, hkey⟩ := List.mem_map.mp hmem
  obtain ⟨i, hi⟩ := List.mem_iff_getElem?.mp hpage
  rw [List.getElem?_take] at hi
  split at hi
  · next hlt =>
    have hne := h.cursor_ne hi hc (by omega)
    refine ⟨by omega, ?_⟩
    rcases IngestRequest.pageKey_eq hkey.symm (Ne.symm hne) with hconfused | hnone
    · exact hconfused
    · have hzero : pages[0]? = some pages[0] := List.getElem?_eq_getElem _
      have hstart := h.cursor_zero hzero
      have hfirst := h.cursor_ne hzero hc (by omega)
      rw [hstart, hnone] at hfirst
      exact (hfirst rfl).elim
  · cases hi

theorem start_mem (h : PageChain pages) {c : Nat} (hc : 1 ≤ c) (hlength : c ≤ pages.length) :
    "__start__" ∈ (pages.take c).map IngestRequest.pageKey := by
  have hzero : pages[0]? = some pages[0] := List.getElem?_eq_getElem _
  have hkey := IngestRequest.pageKey_start (.inr (h.cursor_zero hzero))
  refine List.mem_map.mpr ⟨pages[0], ?_, hkey⟩
  refine List.mem_iff_getElem?.mpr ⟨0, ?_⟩
  rw [List.getElem?_take, if_pos (by omega), hzero]

end PageChain

namespace DeliveredUpTo

variable {d : Delivery} {a : Attempt} {c : Nat}

theorem start (hi : Integrity rt w s) (he : Extracting rt s)
    (hfresh : ∀ page ∈ pages, (Request.ingest who page).run? rt s = none) :
    DeliveredUpTo rt w who pages s (.start s) 0 where
  integrity := hi
  extracting := he
  store := rfl
  taken page hp := by
    rw [Delivery.start, takenKeys, hfresh page hp]
    rfl
  processed := rfl
  bound := ⟨le_rfl, Nat.le_succ _, Nat.zero_le _⟩
  distinguished page hp := by simp at hp

/-- A page that is taken is the next one. -/
theorem take (h : DeliveredUpTo rt w who pages s d c) (hc : PageChain pages)
    (hfound : pages[a.page]? = some req) (hin : SentInOrder d a) (hfate : a.fate ≠ .crashed)
    (hingested : ingestedBatch ((service rt).step d.store (.ingest who (req.withFault a.fault))).2 = true)
    (hnext : (service rt).next d.store (.ingest who (req.withFault a.fault)) =
      (service rt).next d.store (.ingest who req))
    (hnew : req.pageKey ∉ takenKeys rt who d.store req)
    (hkeys : takenKeys rt who ((service rt).next d.store (.ingest who req)) req =
      takenKeys rt who d.store req ++ [req.pageKey]) :
    DeliveredUpTo rt w who pages s ((deliveries rt who pages).next d a) (c + 1) := by
  obtain ⟨hlength, hpage⟩ := List.getElem?_eq_some_iff.mp hfound
  have hmem : req ∈ pages := List.mem_of_getElem? hfound
  obtain ⟨hlow, hhigh, -⟩ := h.bound
  have hin' : a.page ≤ d.acknowledged := hin
  have hposition : a.page = c := by
    by_contra hne
    refine hnew ?_
    rw [h.taken req hmem]
    refine List.mem_map_of_mem (List.mem_iff_getElem?.mpr ⟨a.page, ?_⟩)
    rw [List.getElem?_take, if_pos (by omega), hfound]
  have htake : pages.take (c + 1) = pages.take c ++ [req] := by
    rw [← hposition, List.take_add_one, hfound]
    rfl
  rw [deliveries_next hfound hfate, hingested, hnext]
  refine ⟨integrity_step h.integrity _, extracting_step h.integrity h.extracting _, ?_, fun page hp => ?_,
    ?_, ?_, fun page hp => ?_⟩
  · rw [htake, List.map_append, System.run_append, ← h.store]
    rfl
  · rw [hc.alike_taken hp hmem, htake, List.map_append, ← h.taken req hmem]
    exact hkeys
  · rw [if_pos rfl, h.processed, hposition, List.range_succ]
  · dsimp only
    split <;> omega
  · -- the start would have been taken before any other page
    rw [htake] at hp
    by_cases hfirst : c = 0
    · simp [hfirst] at hp
    · have hnonempty : pages.take c ≠ [] := by
        rw [ne_eq, List.take_eq_nil_iff]
        rintro (hzero | hnil)
        · exact hfirst hzero
        · rw [hnil] at hmem
          cases hmem
      rw [List.tail_append_of_ne_nil hnonempty] at hp
      rcases List.mem_append.mp hp with hp | hp
      · exact h.distinguished page hp
      · rw [List.mem_singleton.mp hp]
        by_contra hconfused
        refine hnew ?_
        rw [h.taken req hmem, IngestRequest.pageKey_start (.inl hconfused)]
        exact hc.start_mem (by omega) (by omega)

/-- A page that is not taken is one of the earlier pages, or it is lost. -/
theorem skip (h : DeliveredUpTo rt w who pages s d c) (hc : PageChain pages)
    (hfound : pages[a.page]? = some req) (hin : SentInOrder d a) (hfate : a.fate ≠ .crashed)
    (hingested : ingestedBatch ((service rt).step d.store (.ingest who (req.withFault a.fault))).2 = false)
    (hnext : (service rt).next d.store (.ingest who (req.withFault a.fault)) = d.store)
    (hknown : ((service rt).step d.store (.ingest who (req.withFault a.fault))).2.isOk = true →
      req.pageKey ∈ takenKeys rt who d.store req) :
    DeliveredUpTo rt w who pages s ((deliveries rt who pages).next d a) c ∨
      LostPage rt w who pages ((deliveries rt who pages).next d a) a.page := by
  have hmem : req ∈ pages := List.mem_of_getElem? hfound
  obtain ⟨hlow, hhigh, hbound⟩ := h.bound
  have hin' : a.page ≤ d.acknowledged := hin
  rw [deliveries_next hfound hfate, hingested, hnext]
  by_cases hlost : ((service rt).step d.store (.ingest who (req.withFault a.fault))).2.isOk = true ∧
      a.page = c
  · obtain ⟨hok, hposition⟩ := hlost
    have hkey := hknown hok
    rw [h.taken req hmem] at hkey
    obtain ⟨hlater, hconfused⟩ := hc.confused_of_mem (hposition ▸ hfound) hkey
    refine .inr ⟨h.integrity, h.extracting, hposition ▸ hlater, ⟨req, hfound, hconfused⟩, fun page hp => ?_,
      ?_⟩
    · rw [h.taken page hp]
      exact hc.start_mem hlater hbound
    · rw [if_neg Bool.false_ne_true, h.processed, List.mem_range]
      omega
  · refine .inl ⟨h.integrity, h.extracting, h.store, h.taken, ?_, ?_, h.distinguished⟩
    · rw [if_neg Bool.false_ne_true]
      exact h.processed
    · dsimp only
      split
      · next hacknowledged =>
        simp only [Bool.and_eq_true, decide_eq_true_eq] at hacknowledged
        have hne : a.page ≠ c := fun heq => hlost ⟨hacknowledged.2, heq⟩
        omega
      · exact h.bound

theorem next (h : DeliveredUpTo rt w who pages s d c) (hc : PageChain pages) (hin : SentInOrder d a) :
    (∃ c', DeliveredUpTo rt w who pages s ((deliveries rt who pages).next d a) c') ∨
      LostPage rt w who pages ((deliveries rt who pages).next d a) a.page := by
  by_cases hidle : pages[a.page]? = none ∨ a.fate = .crashed
  · rw [deliveries_idle hidle]
    exact .inl ⟨c, h⟩
  · obtain ⟨hsome, hfate⟩ := not_or.mp hidle
    obtain ⟨req, hfound⟩ := Option.ne_none_iff_exists'.mp hsome
    have hmem : req ∈ pages := List.mem_of_getElem? hfound
    rcases attempt_cases h.integrity h.extracting (hc.named req hmem) (hc.faultless req hmem) a.fault with
      ⟨hingested, hnext, hnew, hkeys⟩ | ⟨hingested, hnext, hknown⟩
    · exact .inl ⟨c + 1, h.take hc hfound hin hfate hingested hnext hnew hkeys⟩
    · exact (h.skip hc hfound hin hfate hingested hnext hknown).imp_left fun h' => ⟨c, h'⟩

end DeliveredUpTo

theorem LostPage.next {d : Delivery} {a : Attempt} {j : Nat} (h : LostPage rt w who pages d j)
    (hc : PageChain pages) : LostPage rt w who pages ((deliveries rt who pages).next d a) j := by
  by_cases hidle : pages[a.page]? = none ∨ a.fate = .crashed
  · rw [deliveries_idle hidle]
    exact h
  · obtain ⟨hsome, hfate⟩ := not_or.mp hidle
    obtain ⟨req, hfound⟩ := Option.ne_none_iff_exists'.mp hsome
    have hmem : req ∈ pages := List.mem_of_getElem? hfound
    rw [deliveries_next hfound hfate]
    rcases attempt_cases h.integrity h.extracting (hc.named req hmem) (hc.faultless req hmem) a.fault with
      ⟨hingested, hnext, hnew, hkeys⟩ | ⟨hingested, hnext, -⟩
    · rw [hingested, hnext]
      refine ⟨integrity_step h.integrity _, extracting_step h.integrity h.extracting _, h.later, h.confused,
        fun page hp => ?_, ?_⟩
      · rw [hc.alike_taken hp hmem, hkeys]
        exact List.mem_append_left _ (h.taken req hmem)
      · rw [if_pos rfl, List.mem_append, List.mem_singleton]
        rintro (hprocessed | rfl)
        · exact h.unprocessed hprocessed
        · obtain ⟨page, hpage, hconfused⟩ := h.confused
          obtain rfl := Option.some.inj (hfound.symm.trans hpage)
          refine hnew ?_
          rw [IngestRequest.pageKey_start (.inl hconfused)]
          exact h.taken req hmem
    · rw [hingested, hnext]
      refine ⟨h.integrity, h.extracting, h.later, h.confused, h.taken, ?_⟩
      rw [if_neg Bool.false_ne_true]
      exact h.unprocessed

/-- Where the pages of a run are delivered in order until all are known to be delivered, with attempts
repeated, failing and unanswered, each is processed once and the store is that of delivering each once,
if and only if no later page has a cursor that is taken for the start of the run. -/
theorem pages_once_iff (hs : Reachable rt w s) (hc : PageChain pages)
    (hfresh : ∀ page ∈ pages, (Request.ingest who page).run? rt s = none) {attempts : List Attempt}
    (hin : (deliveries rt who pages).Along SentInOrder (.start s) attempts)
    (hall : ((deliveries rt who pages).run (.start s) attempts).acknowledged = pages.length) :
    DeliversOnce rt who pages s ((deliveries rt who pages).run (.start s) attempts) ↔
      ∀ page ∈ pages.tail, Distinguished page.pageCursor := by
  have hinvariant := (deliveries rt who pages).run_invariant (P := fun d =>
      (∃ c, DeliveredUpTo rt w who pages s d c) ∨ ∃ j, LostPage rt w who pages d j)
    (.inl ⟨0, .start (integrity_reachable hs) (extracting_reachable hs) hfresh⟩) hin ?_
  · rcases hinvariant with ⟨c, h⟩ | ⟨j, h⟩
    · obtain ⟨hlow, -, hbound⟩ := h.bound
      have hcomplete : c = pages.length := by omega
      have htake : pages.take c = pages := by rw [hcomplete, List.take_length]
      have hdistinguished := h.distinguished
      have hstore := h.store
      rw [htake] at hdistinguished hstore
      refine iff_of_true ⟨hstore, fun i hlt => ?_⟩ hdistinguished
      rw [h.processed, List.count_eq_one_of_mem List.nodup_range]
      exact List.mem_range.mpr (by omega)
    · obtain ⟨page, hpage, hconfused⟩ := h.confused
      refine iff_of_false (fun honce => ?_) fun hdistinguished => ?_
      · have hcount := honce.once j (List.getElem?_eq_some_iff.mp hpage).1
        rw [List.count_eq_zero_of_not_mem h.unprocessed] at hcount
        omega
      · refine hconfused (hdistinguished page (List.mem_iff_getElem?.mpr ⟨j - 1, ?_⟩))
        have hlater := h.later
        rw [List.getElem?_tail, Nat.sub_add_cancel hlater]
        exact hpage
  · rintro d a (⟨c, h⟩ | ⟨j, h⟩) hsent
    · exact (h.next hc hsent).imp_right fun hlost => ⟨_, hlost⟩
    · exact .inr ⟨j, h.next hc⟩

namespace Supplier

/-- A page of a run with one record. -/
def runPage (record : IncomingRecord) (cursor next : Option String) : IngestRequest :=
  { batch [record] with
    runId := some "r1"
    pageCursor := cursor
    nextCursor := next }

/-- Two pages; the second one has the given cursor. -/
def pagesTo (cursor : String) : List IngestRequest :=
  [runPage (observation "a" "1" [("name", .str "A")]) none (some cursor),
    runPage (observation "b" "1" [("name", .str "B")]) (some cursor) none]

theorem pagesTo_chain (cursor : String) : PageChain (pagesTo cursor) where
  named page hp := by
    simp only [pagesTo, List.mem_cons, List.not_mem_nil, or_false] at hp
    rcases hp with rfl | rfl <;> rfl
  alike a ha b hb := by
    simp only [pagesTo, List.mem_cons, List.not_mem_nil, or_false] at ha hb
    rcases ha with rfl | rfl <;> rcases hb with rfl | rfl <;> exact ⟨rfl, rfl, rfl⟩
  starts page hp := by
    simp only [pagesTo, List.head?_cons, Option.mem_def, Option.some.injEq] at hp
    subst hp
    rfl
  linked := by simp [pagesTo, runPage]
  distinct := by simp [pagesTo, runPage]
  faultless page hp := by
    simp only [pagesTo, List.mem_cons, List.not_mem_nil, or_false] at hp
    rcases hp with rfl | rfl <;> rfl

/-- The first attempt fails before its commit, the answer to the second is lost; the second page is
interrupted once. -/
def attempts : List Attempt :=
  [⟨0, none, .crashed⟩, ⟨0, none, .lost⟩, ⟨0, none, .answered⟩, ⟨1, some 1, .answered⟩,
    ⟨1, none, .answered⟩, ⟨0, none, .answered⟩]

def delivered (cursor : String) : Delivery :=
  (deliveries .plain (steward "alice") (pagesTo cursor)).run
    (.start ((service .plain).run (Store.empty workspace) setup)) attempts

theorem pages_once_two : DeliversOnce .plain (steward "alice") (pagesTo "c")
    ((service .plain).run (Store.empty workspace) setup) (delivered "c") := by
  have hrun : (∀ page ∈ pagesTo "c", (Request.ingest (steward "alice") page).run? .plain
      ((service .plain).run (Store.empty workspace) setup) = none) ∧
      (deliveries .plain (steward "alice") (pagesTo "c")).Along SentInOrder
        (.start ((service .plain).run (Store.empty workspace) setup)) attempts ∧
      (delivered "c").acknowledged = (pagesTo "c").length := by
    decide +kernel
  obtain ⟨hfresh, hin, hall⟩ := hrun
  exact (pages_once_iff ⟨setup, rfl⟩ (pagesTo_chain "c") hfresh hin hall).mpr (by decide)

/-- A page with the cursor `__start__` is answered as the first one, and its records are lost. -/
theorem start_cursor_lost : ∃ s, Reachable .plain workspace s ∧ PageChain (pagesTo "__start__") ∧
    (∀ page ∈ pagesTo "__start__", (Request.ingest (steward "alice") page).run? .plain s = none) ∧
    (deliveries .plain (steward "alice") (pagesTo "__start__")).Along SentInOrder (.start s) attempts ∧
    ((deliveries .plain (steward "alice") (pagesTo "__start__")).run (.start s) attempts).acknowledged =
      (pagesTo "__start__").length ∧
    ¬ DeliversOnce .plain (steward "alice") (pagesTo "__start__") s
      ((deliveries .plain (steward "alice") (pagesTo "__start__")).run (.start s) attempts) := by
  have hlost : (∀ page ∈ pagesTo "__start__", (Request.ingest (steward "alice") page).run? .plain
      ((service .plain).run (Store.empty workspace) setup) = none) ∧
      (deliveries .plain (steward "alice") (pagesTo "__start__")).Along SentInOrder
        (.start ((service .plain).run (Store.empty workspace) setup)) attempts ∧
      (delivered "__start__").acknowledged = (pagesTo "__start__").length ∧
      (delivered "__start__").processed.count 1 = 0 := by
    decide +kernel
  obtain ⟨hfresh, hin, hall, hcount⟩ := hlost
  refine ⟨(service .plain).run (Store.empty workspace) setup, ⟨setup, rfl⟩, pagesTo_chain "__start__",
    hfresh, hin, hall, fun honce => ?_⟩
  have hone := honce.once 1 (by decide)
  rw [delivered] at hcount
  rw [hcount] at hone
  cases hone

end Supplier

end Recordlane
