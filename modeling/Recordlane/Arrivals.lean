import Recordlane.Projection

/-! The observations that arrive in a run, in their order, each with the store it finds. -/
namespace Recordlane

variable {rt : Runtime} {w : Workspace} {self : MasteringService} {s s' : Store}
  {request : Request} {req : IngestRequest}

/-- An observation as a round of the loop meets it. -/
structure Arrival where
  service : MasteringService
  source : Source
  domainKey : String
  policy : CompiledPolicy
  store : Store
  item : IncomingRecord

namespace Arrival

/-- The key of the source object that is observed. -/
def key (a : Arrival) : Id × String × String := (a.source.id, a.domainKey, a.item.localId)

def round (a : Arrival) : Py (Store × Verdict) :=
  a.service.observe a.store a.source a.domainKey a.policy a.item

/-- The observation becomes the current one of its object. -/
def becomesCurrent (a : Arrival) : Bool :=
  match a.round with
  | .ok (_, v) => v.current
  | .error _ => false

end Arrival

namespace MasteringService

/-- The observation loop as a system that takes one record at a time. -/
def rounds (self : MasteringService) (source : Source) (domainKey : String)
    (policy : CompiledPolicy) : System Store IncomingRecord (Py Verdict) where
  step s item :=
    match self.observe s source domainKey policy item with
    | .ok (s, v) => (s, .ok v)
    | .error e => (s, .error e)

/-- The rounds of the loop over a work list. -/
def arrivalsOf (self : MasteringService) (source : Source) (domainKey : String)
    (policy : CompiledPolicy) (s : Store) (work : List IncomingRecord) : List Arrival :=
  ((self.rounds source domainKey policy).trace s work).map fun p =>
    ⟨self, source, domainKey, policy, p.1, p.2⟩

/-- The rounds of a page, where it goes through. -/
def pageArrivals (self : MasteringService) (s : Store) (req : IngestRequest) : Py (List Arrival) := do
  let (source, domain) ← self.sourceAndDomain s req
  match ← self.beginPage s source req with
  | .duplicate _ _ => return []
  | .page s run =>
    let policy ← self.authorize domain req.records
    let work ← self.workRecords s source req run (runSeen run ++ req.seenIds)
    let _ ← self.observeAll source req.domainKey policy req.faultAfterRecords s 1 work
    return self.arrivalsOf source req.domainKey policy s work

end MasteringService

/-- The rounds of a request, where it goes through. -/
def Request.arrivals (rt : Runtime) (s : Store) : Request → List Arrival
  | .ingest who req =>
    match MasteringService.start rt who s with
    | .ok self =>
      match self.pageArrivals s req with
      | .ok as => as
      | .error _ => []
    | .error _ => []
  | _ => []

/-- The rounds of all requests of a run. -/
def arrivals (rt : Runtime) (s : Store) (requests : List Request) : List Arrival :=
  ((service rt).trace s requests).flatMap fun p => p.2.arrivals rt p.1

theorem arrivals_cons {requests : List Request} : arrivals rt s (request :: requests) =
    request.arrivals rt s ++ arrivals rt ((service rt).next s request) requests := by
  simp [arrivals, System.trace]

namespace Page

def arrivals (p : Page self s req) : List Arrival :=
  self.arrivalsOf p.source req.domainKey p.policy p.begun p.work

theorem pageArrivals_eq (p : Page self s req) : self.pageArrivals s req = .ok p.arrivals := by
  simp only [MasteringService.pageArrivals, MasteringService.sourceAndDomain, p.source_found,
    p.domain_found, p.begins, p.authorized, p.work_listed, p.observes, bind, Except.bind, pure,
    Except.pure]
  rfl

theorem ingest_eq (p : Page self s req) : ∃ answer, self.ingest s req = .ok (p.finished, answer) := by
  simp only [MasteringService.ingest, MasteringService.ingestPage, MasteringService.sourceAndDomain,
    p.source_found, p.domain_found, p.begins, p.authorized, p.work_listed, p.observes, bind,
    Except.bind, pure, Except.pure]
  exact ⟨_, rfl⟩

theorem next_eq {who : Principal} (p : Page ⟨rt, who, w⟩ s req)
    (hs : MasteringService.start rt who s = .ok ⟨rt, who, w⟩) :
    (service rt).next s (.ingest who req) = p.finished := by
  obtain ⟨answer, hingest⟩ := p.ingest_eq
  have hserve : serve ⟨rt, who, w⟩ s (.ingest who req) = .ok (p.finished, .ok (.ingested answer)) := by
    simp only [serve, hingest, bind, Except.bind, pure, Except.pure]
  exact next_of_serve hs hserve

theorem arrivals_eq {who : Principal} (p : Page ⟨rt, who, w⟩ s req)
    (hs : MasteringService.start rt who s = .ok ⟨rt, who, w⟩) :
    (Request.ingest who req).arrivals rt s = p.arrivals := by
  simp only [Request.arrivals, hs, p.pageArrivals_eq]

end Page

theorem arrivals_cases (h : Integrity rt w s) (request : Request) : request.arrivals rt s = [] ∨
    ∃ who req, ∃ _ : Page ⟨rt, who, w⟩ s req, request = .ingest who req ∧
      MasteringService.start rt who s = .ok ⟨rt, who, w⟩ := by
  cases request with
  | ingest who req =>
    cases hs : MasteringService.start rt who s with
    | error e => exact .inl (by simp only [Request.arrivals, hs])
    | ok self =>
      obtain rfl := start_workspace h.workspaces hs
      cases has : MasteringService.pageArrivals ⟨rt, who, w⟩ s req with
      | error e => exact .inl (by simp only [Request.arrivals, hs, has])
      | ok as =>
        have hr : (Request.ingest who req).arrivals rt s = as := by
          simp only [Request.arrivals, hs, has]
        unfold MasteringService.pageArrivals at has
        rw [Except.bind_eq_ok] at has
        obtain ⟨⟨source, domain⟩, hfound, has⟩ := has
        obtain ⟨hsource, hdomain⟩ := MasteringService.sourceAndDomain_eq hfound
        dsimp only at has
        rw [Except.bind_eq_ok] at has
        obtain ⟨start, hstart, has⟩ := has
        split at has
        · cases has
          exact .inl hr
        · simp only [Except.bind_eq_ok, Prod.exists] at has
          obtain ⟨policy, hpolicy, work, hwork, observed, vs, hobserve, -⟩ := has
          exact .inr ⟨who, req, ⟨source, domain, _, _, policy, work, observed, vs, hsource, hdomain,
            hstart, hpolicy, hwork, hobserve⟩, rfl, hs⟩
  | _ => exact .inl rfl

namespace MasteringService

theorem next_rounds {source : Source} {domainKey : String} {policy : CompiledPolicy}
    {item : IncomingRecord} {v : Verdict}
    (h : self.observe s source domainKey policy item = .ok (s', v)) :
    (self.rounds source domainKey policy).next s item = s' := by
  simp only [System.next, rounds, h]

/-- What every round that meets `Φ` keeps, of the rounds so far and the store, the loop keeps. -/
theorem observeAll_arrivals {P : List Arrival → Store → Prop} {Φ : Arrival → Prop} {L : List Arrival}
    {source : Source} {domainKey : String} {policy : CompiledPolicy} {fault : Option Nat} {index : Nat}
    {items : List IncomingRecord} {vs : List Verdict} (h : Integrity self.rt self.workspace s)
    (hs : P L s)
    (hround : ∀ L s s' item v, Integrity self.rt self.workspace s → P L s →
      Φ ⟨self, source, domainKey, policy, s, item⟩ →
      self.observe s source domainKey policy item = .ok (s', v) →
        P (L ++ [⟨self, source, domainKey, policy, s, item⟩]) s')
    (ho : self.observeAll source domainKey policy fault s index items = .ok (s', vs))
    (hΦ : ∀ a ∈ self.arrivalsOf source domainKey policy s items, Φ a) :
    P (L ++ self.arrivalsOf source domainKey policy s items) s' := by
  induction items generalizing L s index vs with
  | nil =>
    cases ho
    simpa [arrivalsOf, System.trace] using hs
  | cons item items ih =>
    unfold observeAll at ho
    rw [Except.bind_eq_ok] at ho
    obtain ⟨⟨s₁, v⟩, hstep, ho⟩ := ho
    dsimp only at ho
    split at ho
    · cases ho
    · rw [Except.bind_eq_ok] at ho
      obtain ⟨⟨s₂, vs'⟩, hrest, ho⟩ := ho
      cases ho
      have hsplit : self.arrivalsOf source domainKey policy s (item :: items) =
          ⟨self, source, domainKey, policy, s, item⟩ ::
            self.arrivalsOf source domainKey policy s₁ items := by
        simp [arrivalsOf, System.trace, next_rounds hstep]
      rw [hsplit] at hΦ ⊢
      have hnext := hround L s s₁ item v h hs (hΦ _ List.mem_cons_self) hstep
      rw [List.append_cons]
      exact ih (observe_integrity h hstep) hnext hrest fun a ha => hΦ a (List.mem_cons_of_mem _ ha)

end MasteringService

theorem still_next (h : Integrity rt w s) (hr : request.arrivals rt s = []) :
    Still s ((service rt).next s request) := by
  have he := next_effect h request
  generalize (service rt).next s request = s' at he
  cases he with
  | quiet hq => exact hq.toSameRows.still
  | decision _ he => exact he.still
  | job hj => exact still_runJob hj
  | page hs p =>
    rw [p.arrivals_eq hs] at hr
    have hp := MasteringService.observeAll_arrivals
      (P := fun L t => L = [] → Still s t) (Φ := fun _ => True) (L := [])
      (h.sameRows p.begun_quiet.toSameRows) (fun _ => p.begun_quiet.toSameRows.still) (by simp)
      p.observes fun _ _ => trivial
    exact (hp hr).trans p.finished_quiet.toSameRows.still

/-- What every round that meets `Φ` keeps, and every change that moves no projection, a run keeps. -/
theorem arrivals_invariant {P : List Arrival → Store → Prop} {Φ : Arrival → Prop} {L : List Arrival}
    {requests : List Request} (h : Integrity rt w s) (hs : P L s)
    (hkept : ∀ L s t, Still s t → P L s → P L t)
    (hround : ∀ L (a : Arrival) s' v, a.service.rt = rt → a.service.workspace = w →
      Integrity rt w a.store → P L a.store → Φ a → a.round = .ok (s', v) → P (L ++ [a]) s')
    (hΦ : ∀ a ∈ arrivals rt s requests, Φ a) :
    P (L ++ arrivals rt s requests) ((service rt).run s requests) := by
  induction requests generalizing L s with
  | nil => simpa [arrivals, System.trace] using hs
  | cons request requests ih =>
    rw [arrivals_cons] at hΦ ⊢
    rw [← List.append_assoc, System.run_cons]
    refine ih (integrity_step h request) ?_ fun a ha => hΦ a (List.mem_append_right _ ha)
    rcases arrivals_cases h request with hnone | ⟨who, req, p, rfl, hstart⟩
    · rw [hnone, List.append_nil]
      exact hkept L s _ (still_next h hnone) hs
    · rw [p.next_eq hstart, p.arrivals_eq hstart]
      refine hkept _ _ _ p.finished_quiet.toSameRows.still ?_
      refine MasteringService.observeAll_arrivals (P := P) (Φ := Φ)
        (h.sameRows p.begun_quiet.toSameRows)
        (hkept L s _ p.begun_quiet.toSameRows.still hs) ?_ p.observes fun a ha => ?_
      · intro L s s' item v hi hL hΦ ho
        exact hround L ⟨⟨rt, who, w⟩, p.source, req.domainKey, p.policy, s, item⟩ s' v rfl rfl hi hL hΦ ho
      · exact hΦ a (List.mem_append_left _ (by rwa [p.arrivals_eq hstart]))

end Recordlane
