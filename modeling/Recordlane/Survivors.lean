import Recordlane.Requests

/-! The surviving values of an entity, and what they depend on. -/
namespace Recordlane

variable {self : MasteringService} {s t : Store} {policy : CompiledPolicy} {field : String}

/-- The part of a record that survivorship reads. -/
def SourceRecord.core (r : SourceRecord) : SourceRecord :=
  { r with normalized := [], blockingKey := "", entityId := none }

theorem SourceRecord.core_eq {r r' : SourceRecord} (h : r.core = r'.core) :
    r.id = r'.id ∧ r.observedAt = r'.observedAt ∧ r.original = r'.original ∧
      r.sourceId = r'.sourceId ∧ r.verification = r'.verification := by
  simp only [core, SourceRecord.mk.injEq] at h
  obtain ⟨hid, -, hsource, -, -, -, horiginal, -, -, hverification, -, -, hobserved, -⟩ := h
  exact ⟨hid, hobserved, horiginal, hsource, hverification⟩

/-- The part of a contender that decides between contenders, with its value. -/
def Contender.core (c : Contender) : Int × Int × SourceRecord :=
  (c.verifiedRank, c.precedenceRank, c.record.core)

/-- The part of a source that ranks its contributions. -/
def Source.rank (x : Source) : Id × String × Int := (x.id, x.key, x.priority)

/-- The sources of the store rank their contributions the same way in another one. -/
def RanksKept (s t : Store) : Prop :=
  ∀ id x, (s.sources.find? fun x => x.id = id) = some x →
    ∃ y, (t.sources.find? fun x => x.id = id) = some y ∧ y.rank = x.rank

theorem ranksKept_of_map (h : t.sources.map Source.rank = s.sources.map Source.rank) :
    RanksKept s t := by
  intro id x hx
  have hfind : ∀ u : Store, (u.sources.find? fun x => x.id = id).map Source.rank =
      (u.sources.map Source.rank).find? fun k => k.1 = id := by
    intro u
    rw [List.find?_map]
    rfl
  have hsame := hfind t
  rw [h, ← hfind s, hx] at hsame
  exact Option.map_eq_some_iff.mp hsame

theorem ranksKept_append {xs : List Source} (h : t.sources = s.sources ++ xs) : RanksKept s t := by
  intro id x hx
  exact ⟨x, by rw [h, List.find?_append, hx]; rfl, rfl⟩

theorem Contender.lt_congr {a a' b b' : Contender} (ha : a.core = a'.core) (hb : b.core = b'.core) :
    a.lt b = a'.lt b' := by
  simp only [core, Prod.mk.injEq] at ha hb
  obtain ⟨hv, hp, hr⟩ := ha
  obtain ⟨hv', hp', hr'⟩ := hb
  obtain ⟨hi, ht, -⟩ := SourceRecord.core_eq hr
  obtain ⟨hi', ht', -⟩ := SourceRecord.core_eq hr'
  simp only [Contender.lt, hv, hp, ht, hi, hv', hp', ht', hi']

theorem Contender.winner_congr {β : Type} {view : Contender → β}
    (hview : ∀ a b, view a = view b → a.core = b.core) {cs cs' : List Contender}
    (h : cs.map view = cs'.map view) : (winner cs).map view = (winner cs').map view := by
  have hfold : ∀ {cs cs' : List Contender} {b b' : Contender}, cs.map view = cs'.map view →
      view b = view b' →
      view (cs.foldl (fun best c => if best.lt c then c else best) b) =
        view (cs'.foldl (fun best c => if best.lt c then c else best) b') := by
    intro cs
    induction cs with
    | nil =>
      intro cs' b b' h hb
      rw [List.map_nil, eq_comm, List.map_eq_nil_iff] at h
      rw [h]
      exact hb
    | cons c cs ih =>
      intro cs' b b' h hb
      cases cs' with
      | nil => cases h
      | cons c' cs' =>
        rw [List.map_cons, List.map_cons, List.cons.injEq] at h
        rw [List.foldl_cons, List.foldl_cons, lt_congr (hview b b' hb) (hview c c' h.1)]
        apply ih h.2
        split
        · exact h.1
        · exact hb
  cases cs with
  | nil =>
    rw [List.map_nil, eq_comm, List.map_eq_nil_iff] at h
    rw [h]
  | cons c cs =>
    cases cs' with
    | nil => cases h
    | cons c' cs' =>
      rw [List.map_cons, List.map_cons, List.cons.injEq] at h
      exact congrArg some (hfold h.2 h.1)

namespace MasteringService

theorem precedenceRank_congr {rule : Dict} {x y : Source} (h : x.rank = y.rank) :
    precedenceRank rule x = precedenceRank rule y := by
  simp only [Source.rank, Prod.mk.injEq] at h
  simp only [precedenceRank, h.2.1, h.2.2]

theorem contender_alike {r r' : SourceRecord} (hr : r.core = r'.core)
    (hsources : ∀ x, (s.sources.find? fun x => x.id = r.sourceId) = some x →
      ∃ y, (t.sources.find? fun x => x.id = r'.sourceId) = some y ∧ y.rank = x.rank)
    {c : Option Contender} (h : contender s policy field r = .ok c) :
    ∃ c', contender t policy field r' = .ok c' ∧ Option.Rel (fun c c' => c.core = c'.core ∧
      (s.sources.find? fun x => x.id = r.sourceId) = some c.source ∧
      (t.sources.find? fun x => x.id = r'.sourceId) = some c'.source) c c' := by
  obtain ⟨-, -, ho, -, hv⟩ := SourceRecord.core_eq hr
  have hverified : isVerified r field = isVerified r' field := by rw [isVerified, isVerified, hv]
  unfold contender at h ⊢
  rw [ho, hverified] at h
  split at h
  · next hblank =>
    cases h
    rw [if_pos hblank]
    exact ⟨none, rfl, .none⟩
  · next hblank =>
    rw [if_neg hblank]
    split at h
    · next x hx =>
      obtain ⟨y, hy, hrank⟩ := hsources x hx
      simp only [Except.bind_eq_ok, Except.pure_eq_ok] at h
      obtain ⟨rank, hprecedence, verified, hverified, rfl⟩ := h
      rw [← precedenceRank_congr hrank] at hprecedence
      simp only [hy, hprecedence, hverified, bind, Except.bind, pure, Except.pure]
      exact ⟨_, rfl, .some ⟨by simp [Contender.core, hr], hx, rfl⟩⟩
    · cases h

theorem contender_agree (hs : RanksKept s t) {r r' : SourceRecord} (hr : r.core = r'.core)
    {c : Option Contender} (h : contender s policy field r = .ok c) :
    ∃ c', contender t policy field r' = .ok c' ∧ c.map Contender.core = c'.map Contender.core := by
  obtain ⟨-, -, -, hsource, -⟩ := SourceRecord.core_eq hr
  obtain ⟨c', hc', halike⟩ := contender_alike (t := t) hr (fun x hx => hsource ▸ hs _ x hx) h
  refine ⟨c', hc', ?_⟩
  cases halike with
  | none => rfl
  | some hsame => exact congrArg some hsame.1

/-- The contributions of an entity are the same, as far as survivorship reads them. -/
def SameContributions (self : MasteringService) (s t : Store) (x : Id) : Prop :=
  (self.currentRecords t x).map SourceRecord.core = (self.currentRecords s x).map SourceRecord.core

/-- Where the contributions contend alike, as far as a view shows, the values are the same. So is what
the view determines of the provenance. -/
theorem masterValues_of_views {β : Type} {view : Contender → β}
    (hview : ∀ a b, view a = view b → a.core = b.core) {Q : SourceRecord → SourceRecord → Prop}
    (hQ : ∀ r r', Q r r' → r.core = r'.core) {policy' : CompiledPolicy} {x : Id}
    (hrows : List.Forall₂ Q (self.currentRecords s x) (self.currentRecords t x))
    (hcontend : ∀ field r r' c, Q r r' → contender s policy field r = .ok c →
      ∃ c', contender t policy' field r' = .ok c' ∧ c.map view = c'.map view)
    {values provenance : Dict} (h : self.masterValues s x policy = .ok (values, provenance)) :
    ∃ provenance', self.masterValues t x policy' = .ok (values, provenance') ∧
      ((∀ field c c' n, view c = view c' →
        self.provenanceOf policy field c n = self.provenanceOf policy' field c' n) →
        provenance = provenance') := by
  have hkeys : (self.currentRecords t x).flatMap (fun r => r.original.keys) =
      (self.currentRecords s x).flatMap fun r => r.original.keys := by
    generalize self.currentRecords s x = rows at hrows
    generalize self.currentRecords t x = rows' at hrows
    induction hrows with
    | nil => rfl
    | cons hr _ ih =>
      rw [List.flatMap_cons, List.flatMap_cons, ih, (SourceRecord.core_eq (hQ _ _ hr)).2.2.1]
  unfold masterValues at h ⊢
  dsimp only at h ⊢
  rw [hkeys]
  suffices hagree : ∃ q : Dict × Dict, _ = Except.ok q ∧ values = q.1 ∧
      ((∀ field c c' n, view c = view c' →
        self.provenanceOf policy field c n = self.provenanceOf policy' field c' n) →
        provenance = q.2) by
    obtain ⟨⟨_, provenance'⟩, ht, rfl, hprovenance⟩ := hagree
    exact ⟨provenance', ht, hprovenance⟩
  refine Except.foldlM_agree (R := fun p q : Dict × Dict => p.1 = q.1 ∧
    ((∀ field c c' n, view c = view c' →
      self.provenanceOf policy field c n = self.provenanceOf policy' field c' n) → p.2 = q.2))
    h ⟨rfl, fun _ => rfl⟩ ?_
  rintro ⟨values, provenance⟩ ⟨values', provenance'⟩ field state' ⟨rfl, hprovenance⟩ hstep
  dsimp only at hstep hprovenance ⊢
  rw [Except.bind_eq_ok] at hstep
  obtain ⟨options, hoptions, hstep⟩ := hstep
  obtain ⟨options', hoptions', hagree⟩ := Except.mapM_agree hoptions hrows
    fun r r' c => hcontend _ r r' c
  rw [hoptions']
  have hviews : (options.filterMap id).map view = (options'.filterMap id).map view := by
    have heq : options.map (Option.map view) = options'.map (Option.map view) := by
      rw [← List.forall₂_eq_eq_eq, List.forall₂_map_left_iff, List.forall₂_map_right_iff]
      exact hagree
    have h := congrArg (List.filterMap id) heq
    rw [List.map_filterMap, List.map_filterMap]
    rwa [List.filterMap_map, List.filterMap_map] at h
  have hlength : (options.filterMap id).length = (options'.filterMap id).length := by
    simpa using congrArg List.length hviews
  have hwinner := Contender.winner_congr hview hviews
  cases hw : Contender.winner (options.filterMap id) with
  | none =>
    rw [hw] at hstep hwinner
    rw [Option.map_none, eq_comm, Option.map_eq_none_iff] at hwinner
    cases hstep
    simp only [bind, Except.bind, hwinner]
    exact ⟨_, rfl, rfl, hprovenance⟩
  | some w =>
    rw [hw] at hstep hwinner
    rw [Option.map_some, eq_comm, Option.map_eq_some_iff] at hwinner
    obtain ⟨w', hw', hlook⟩ := hwinner
    have hcore := hview _ _ hlook
    cases hstep
    simp only [bind, Except.bind, hw']
    simp only [Contender.core, Prod.mk.injEq] at hcore
    refine ⟨_, rfl, by rw [(SourceRecord.core_eq hcore.2.2).2.2.1], fun hdetermined => ?_⟩
    rw [hprovenance hdetermined, hlength, hdetermined _ _ _ _ hlook.symm]

theorem masterValues_of_contenders {policy' : CompiledPolicy} {x : Id}
    (hc : self.SameContributions s t x)
    (hcontend : ∀ field r r' c, r.core = r'.core → contender s policy field r = .ok c →
      ∃ c', contender t policy' field r' = .ok c' ∧ c.map Contender.core = c'.map Contender.core)
    {values provenance : Dict} (h : self.masterValues s x policy = .ok (values, provenance)) :
    ∃ provenance', self.masterValues t x policy' = .ok (values, provenance') := by
  have hrows : List.Forall₂ (fun r r' => r.core = r'.core) (self.currentRecords s x)
      (self.currentRecords t x) := by
    have heq := List.forall₂_eq_eq_eq ▸ hc.symm
    rwa [List.forall₂_map_left_iff, List.forall₂_map_right_iff] at heq
  have hcore : ∀ c c' : Contender, c.core = c'.core → c.core = c'.core := fun _ _ h => h
  obtain ⟨provenance', hvalues, -⟩ :=
    masterValues_of_views hcore (fun _ _ h => h) hrows hcontend h
  exact ⟨provenance', hvalues⟩

theorem masterValues_agree {x : Id} (hs : RanksKept s t) (hc : self.SameContributions s t x)
    {values provenance : Dict} (h : self.masterValues s x policy = .ok (values, provenance)) :
    ∃ provenance', self.masterValues t x policy = .ok (values, provenance') :=
  masterValues_of_contenders hc (fun _ _ _ _ hr hcontender => contender_agree hs hr hcontender) h

/-- The values a draft of the entity is given. -/
def survivors (self : MasteringService) (s : Store) (e : Entity) : Py Dict := do
  let some domain := self.domain? s e.domainKey | httpError 409 "entity_domain_missing" []
  let policy ← compilePolicy self.rt domain.definition
  return (← self.masterValues s e.id policy).1

theorem survivors_of_tables {e : Entity} (hd : t.domains = s.domains) (hs : t.sources = s.sources)
    (ho : t.objects = s.objects) (hr : t.records = s.records) :
    self.survivors t e = self.survivors s e := by
  unfold survivors domain? masterValues currentRecords contender
  rw [hd, hs, ho, hr]

/-- The domains of the store keep their definitions in another one. -/
def DomainsKept (self : MasteringService) (s t : Store) : Prop :=
  ∀ key d, self.domain? s key = some d → self.domain? t key = some d

theorem domainsKept_of_eq (h : t.domains = s.domains) : self.DomainsKept s t := by
  intro key d hd
  rw [← hd, domain?, domain?, h]

theorem domainsKept_append {ds : List Domain} (h : t.domains = s.domains ++ ds) :
    self.DomainsKept s t := by
  intro key d hd
  rw [domain?, h, List.find?_append, show s.domains.find? _ = some d from hd]
  rfl

theorem survivors_agree {e : Entity} {values : Dict} (hd : self.DomainsKept s t)
    (hs : RanksKept s t) (hc : self.SameContributions s t e.id)
    (h : self.survivors s e = .ok values) : self.survivors t e = .ok values := by
  unfold survivors at h ⊢
  split at h
  · next domain hdomain =>
    simp only [Except.bind_eq_ok, Except.pure_eq_ok, Prod.exists] at h
    obtain ⟨policy, hpolicy, values', provenance, hvalues, rfl⟩ := h
    obtain ⟨provenance', hvalues'⟩ := masterValues_agree hs hc hvalues
    simp only [hd _ _ hdomain, hpolicy, hvalues', bind, Except.bind, pure, Except.pure]
  · cases h

end MasteringService

end Recordlane
