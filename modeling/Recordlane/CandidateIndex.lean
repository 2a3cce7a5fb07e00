import Recordlane.Batches
import Recordlane.Governance

/-! The candidate index: its rows are the keys of the policy in force, unless a job is to renew them. -/
namespace Recordlane

deriving instance DecidableEq for CandidateBlock

variable {rt : Runtime} {w : Workspace} {self : MasteringService} {s s' t u : Store} {key : String}
  {definition : Json} {o : SourceObject} {r : SourceRecord} {id : Id} {keys : List String}

/-- The index rows of a record. -/
def Store.blocksOf (s : Store) (recordId : Id) : List CandidateBlock :=
  s.blocks.filter fun b => b.recordId = recordId

/-- The rows that the keys of a contribution make. -/
def SourceObject.indexRows (o : SourceObject) (recordId : Id) (keys : List String) :
    List CandidateBlock :=
  keys.map fun key => {
    workspaceId := o.workspaceId
    domainKey := o.domainKey
    sourceObjectId := o.id
    recordId := recordId
    blockKey := key }

/-- The keys a definition computes from its own normal form of an original. -/
def keysOf (rt : Runtime) (definition : Json) (original : Dict) : Py (List String) := do
  let policy ← compilePolicy rt definition
  policy.blockingKeys rt (← policy.normalize rt original)

/-- The index has the keys of a definition for a contribution. -/
def IndexedAs (rt : Runtime) (s : Store) (definition : Json) (o : SourceObject) (recordId : Id) : Prop :=
  ∃ r keys, s.record? recordId = some r ∧ keysOf rt definition r.original = .ok keys ∧
    s.blocksOf recordId = o.indexRows recordId keys

instance : Decidable (IndexedAs rt s definition o id) :=
  match hr : s.record? id with
  | none => .isFalse fun ⟨r, _, h, _⟩ => by simp [hr] at h
  | some r =>
    match hk : keysOf rt definition r.original with
    | .error e => .isFalse fun ⟨r', _, h, h', _⟩ => by
        rw [hr] at h
        cases h
        simp [hk] at h'
    | .ok keys => decidable_of_iff (s.blocksOf id = o.indexRows id keys) ⟨fun h => ⟨r, keys, hr, hk, h⟩, by
        rintro ⟨r', keys', h, h', hrows⟩
        rw [hr] at h
        cases h
        rw [hk] at h'
        cases h'
        exact hrows⟩

/-- The index has the keys of a definition for every contribution of a domain. -/
def IndexedBy (rt : Runtime) (s : Store) (key : String) (definition : Json) : Prop :=
  ∀ o ∈ s.objects, o.domainKey = key → ∀ id, o.currentRecordId = some id →
    IndexedAs rt s definition o id

/-- A job waits to renew the index of a domain for a definition. -/
def Awaits (rt : Runtime) (w : Workspace) (key : String) (definition : Json) (job : DurableJob) : Prop :=
  job.status = .queued ∧ job.kind = "remaster_domain" ∧ job.workspaceId = w.id ∧
    job.domainKey rt = key ∧ job.payload.get "policy_checksum" = .str (rt.digest definition)

/-- The index has the keys of a definition, or a job is going to see to it. -/
def Renewed (rt : Runtime) (w : Workspace) (s : Store) (key : String) (definition : Json) : Prop :=
  (∃ job ∈ s.jobs, Awaits rt w key definition job) ∨ IndexedBy rt s key definition

/-- The index is that of the definitions in force. -/
structure Indexed (rt : Runtime) (w : Workspace) (s : Store) : Prop where
  homes : ∀ b ∈ s.blocks, b.workspaceId = w.id ∧
    ∃ r ∈ s.records, r.id = b.recordId ∧ r.domainKey = b.domainKey
  attached : ∀ o ∈ s.objects, o.currentRecordId.isSome → o.entityId.isSome
  housed : ∀ o ∈ s.objects, ∃ d ∈ s.domains, d.workspaceId = w.id ∧ d.key = o.domainKey
  keyed : Table.Keyed (fun d : Domain => (d.workspaceId, d.key)) s.domains
  renewed : ∀ d ∈ s.domains, d.workspaceId = w.id → Renewed rt w s d.key d.definition

theorem indexed_empty : Indexed rt w (Store.empty w) := by
  constructor <;> simp [Store.empty, Table.Keyed]

/-- Contributions that only change entities are indexed as they were. -/
theorem IndexedBy.mapped {f : SourceObject → SourceObject} (h : IndexedBy rt s key definition)
    (ho : t.objects = s.objects.map f) (hr : t.records = s.records) (hb : t.blocks = s.blocks)
    (hf : ∀ o ∈ s.objects, (f o).id = o.id ∧ (f o).workspaceId = o.workspaceId ∧
      (f o).domainKey = o.domainKey ∧ (f o).currentRecordId = o.currentRecordId) :
    IndexedBy rt t key definition := by
  intro o' ho' hkey id hid
  rw [ho] at ho'
  obtain ⟨o, ho, rfl⟩ := List.mem_map.mp ho'
  obtain ⟨hoid, hworkspace, hdomain, hcurrent⟩ := hf o ho
  obtain ⟨r, keys, hrecord, hkeys, hrows⟩ := h o ho (hdomain.symm.trans hkey) id (hcurrent.symm.trans hid)
  refine ⟨r, keys, ?_, hkeys, ?_⟩
  · rw [Store.record?, hr]
    exact hrecord
  · rw [Store.blocksOf, hb]
    refine hrows.trans ?_
    simp only [SourceObject.indexRows, hoid, hworkspace, hdomain]

theorem Indexed.mapped {f : SourceObject → SourceObject} (h : Indexed rt w s)
    (ho : t.objects = s.objects.map f) (hr : t.records = s.records) (ha : Aside s t)
    (hf : ∀ o ∈ s.objects, (f o).id = o.id ∧ (f o).workspaceId = o.workspaceId ∧
      (f o).domainKey = o.domainKey ∧ (f o).currentRecordId = o.currentRecordId)
    (hentity : ∀ o ∈ s.objects, o.entityId.isSome → (f o).entityId.isSome) : Indexed rt w t where
  homes b hb := by
    rw [hr]
    exact h.homes b (ha.blocks ▸ hb)
  attached o' ho' hcurrent := by
    rw [ho] at ho'
    obtain ⟨o, ho, rfl⟩ := List.mem_map.mp ho'
    rw [(hf o ho).2.2.2] at hcurrent
    exact hentity o ho (h.attached o ho hcurrent)
  housed o' ho' := by
    rw [ho] at ho'
    obtain ⟨o, ho, rfl⟩ := List.mem_map.mp ho'
    rw [ha.domains, (hf o ho).2.2.1]
    exact h.housed o ho
  keyed := ha.domains ▸ h.keyed
  renewed d hd hw := by
    rw [ha.domains] at hd
    rw [Renewed, ha.jobs]
    exact (h.renewed d hd hw).imp_right fun hindexed => hindexed.mapped ho hr ha.blocks hf

theorem Indexed.sameRows (h : Indexed rt w s) (hq : SameRows rt s t) (ha : Aside s t) : Indexed rt w t :=
  h.mapped (f := id) (by rw [hq.objects, List.map_id]) hq.records ha (fun _ _ => ⟨rfl, rfl, rfl, rfl⟩)
    fun _ _ hentity => hentity

theorem Renewed.sameRows (h : Renewed rt w s key definition) (hq : SameRows rt s t)
    (hb : t.blocks = s.blocks) (hj : ∀ job ∈ s.jobs, job ∈ t.jobs) : Renewed rt w t key definition := by
  rcases h with ⟨job, hjob, hawaits⟩ | hindexed
  · exact .inl ⟨job, hj job hjob, hawaits⟩
  · exact .inr (hindexed.mapped (f := id) (by rw [hq.objects, List.map_id]) hq.records hb
      fun _ _ => ⟨rfl, rfl, rfl, rfl⟩)

/-- Domains may be defined anew where nothing is indexed, and where the index is renewed. -/
theorem Indexed.redefined {W : String → Json → Prop} (h : Indexed rt w s) (hq : SameRows rt s t)
    (hr : Redefines W s t) (hb : t.blocks = s.blocks) (hj : ∀ job ∈ s.jobs, job ∈ t.jobs)
    (hw : ∀ key definition, W key definition → (∀ o ∈ s.objects, o.domainKey ≠ key) ∨
      Renewed rt w t key definition) : Indexed rt w t where
  homes b hb' := by
    rw [hq.records]
    exact h.homes b (hb ▸ hb')
  attached := by
    rw [hq.objects]
    exact h.attached
  housed o ho := by
    rw [hq.objects] at ho
    obtain ⟨d, hd, hworkspace, hkey⟩ := h.housed o ho
    obtain ⟨d', hd', hworkspace', hkey'⟩ := hr.persists d hd
    exact ⟨d', hd', hworkspace'.trans hworkspace, hkey'.trans hkey⟩
  keyed := hr.keys h.keyed
  renewed d' hd' hworkspace := by
    rcases hr.origin d' hd' with hwritten | ⟨d, hd, hworkspace', hkey, hdefinition⟩
    · rcases hw _ _ hwritten with hnone | hrenewed
      · refine .inr fun o ho hkey => ?_
        rw [hq.objects] at ho
        exact (hnone o ho hkey).elim
      · exact hrenewed
    · rw [← hkey, ← hdefinition]
      exact (h.renewed d hd (hworkspace'.trans hworkspace)).sameRows hq hb hj

theorem blocksOf_append {rows : List CandidateBlock} (hb : t.blocks = s.blocks ++ rows)
    (hn : ∀ b ∈ rows, b.recordId ≠ id) : t.blocksOf id = s.blocksOf id := by
  have hnone : rows.filter (fun b => decide (b.recordId = id)) = [] :=
    List.filter_eq_nil_iff.mpr fun b hb => by simpa using hn b hb
  rw [Store.blocksOf, hb, List.filter_append, hnone, List.append_nil]
  rfl

theorem blocksOf_own (hb : t.blocks = s.blocks ++ o.indexRows id keys) :
    t.blocksOf id = s.blocksOf id ++ o.indexRows id keys := by
  have hown : (o.indexRows id keys).filter (fun b => decide (b.recordId = id)) = o.indexRows id keys := by
    refine List.filter_eq_self.mpr fun b hb => ?_
    obtain ⟨_, -, rfl⟩ := List.mem_map.mp hb
    simp
  rw [Store.blocksOf, hb, List.filter_append, hown]
  rfl

theorem blocksOf_fresh (h : Indexed rt w s) (hi : Integrity rt w s) : s.blocksOf (rt.uid s.drawn) = [] := by
  refine List.filter_eq_nil_iff.mpr fun b hb => ?_
  obtain ⟨-, r, hr, hid, -⟩ := h.homes b hb
  have hne : b.recordId ≠ rt.uid s.drawn := hid ▸ (hi.records r hr).2.ne_uid
  simpa using hne

theorem Round.blocks {source : Source} {domainKey : String} {policy : CompiledPolicy}
    {item : IncomingRecord} {v : Verdict} {d : Findings}
    (h : Round self s source domainKey policy o item v t d) (hw : o.workspaceId = self.wid)
    (hk : o.domainKey = domainKey) :
    t.blocks = s.blocks ++ o.indexRows (self.fresh s) d.evaluation.blockKeys := by
  rw [h.frame.blocks]
  subst hk
  simp only [SourceObject.indexRows, hw]
  obtain ⟨e, x, c, y, task⟩ := d
  cases c <;> cases task <;> rfl

theorem evaluate_keys {policy : CompiledPolicy} {item : IncomingRecord} {e : Evaluation}
    (hpolicy : compilePolicy self.rt definition = .ok policy)
    (h : self.evaluate s policy o item = .ok e) : keysOf self.rt definition e.values = .ok e.blockKeys := by
  unfold MasteringService.evaluate at h
  simp only [keysOf, Except.bind_eq_ok]
  cases hdeleted : item.deleted <;>
    simp only [hdeleted, Bool.false_eq_true, if_true, if_false, pure_bind, Except.bind_eq_ok,
      Except.pure_eq_ok] at h
  · obtain ⟨normalized, hnormalized, errors, -, keys, hkeys, rfl⟩ := h
    exact ⟨policy, hpolicy, normalized, hnormalized, hkeys⟩
  · obtain ⟨normalized, hnormalized, keys, hkeys, rfl⟩ := h
    exact ⟨policy, hpolicy, normalized, hnormalized, hkeys⟩

theorem IndexedAs.kept {o' : SourceObject} (h : IndexedAs rt s definition o id)
    (hr : t.records = s.records ++ [r]) (hb : t.blocksOf id = s.blocksOf id) (hid : o'.id = o.id)
    (hw : o'.workspaceId = o.workspaceId) (hk : o'.domainKey = o.domainKey) :
    IndexedAs rt t definition o' id := by
  obtain ⟨r', keys, hrecord, hkeys, hrows⟩ := h
  refine ⟨r', keys, ?_, hkeys, hb.trans (hrows.trans ?_)⟩
  · rw [Store.record?, hr]
    exact Table.find_append_of_some hrecord _
  · simp only [SourceObject.indexRows, hid, hw, hk]

theorem Round.indexed {source : Source} {policy : CompiledPolicy} {item : IncomingRecord} {v : Verdict}
    {d : Findings} {o' : SourceObject} (h : Indexed self.rt self.workspace s)
    (hi : Integrity self.rt self.workspace s) (hw : o.workspaceId = self.wid) (hk : o.domainKey = key)
    (hpolicy : compilePolicy self.rt definition = .ok policy)
    (hr : Round self s source key policy o item v t d) (hid : o'.id = o.id)
    (hw' : o'.workspaceId = o.workspaceId) (hk' : o'.domainKey = o.domainKey) :
    IndexedAs self.rt t definition o' (self.fresh s) := by
  refine ⟨d.record self s source key o item, d.evaluation.blockKeys, ?_, evaluate_keys hpolicy
    hr.evaluated, ?_⟩
  · rw [Store.record?, hr.records]
    exact (Table.find_append (Table.find_eq_none.mpr fun r hr => (hi.records r hr).2.ne_uid)).trans
      (if_pos rfl)
  · have hnone : s.blocksOf (self.fresh s) = [] := blocksOf_fresh h hi
    rw [blocksOf_own (hr.blocks hw hk), hnone, List.nil_append]
    simp only [SourceObject.indexRows, hid, hw', hk']

/-- What contributes after a round is attached to an entity. -/
theorem Fits.attached {source : Source} {policy : CompiledPolicy} {item : IncomingRecord} {v : Verdict}
    {d : Findings} (h : Fits self s source key policy o item d v)
    (ho : o.currentRecordId.isSome → o.entityId.isSome)
    (hc : (o.after item id d.target v).currentRecordId.isSome) :
    (o.after item id d.target v).entityId.isSome := by
  cases h with
  | quarantined => exact ho hc
  | outOfOrder => exact ho hc
  | retiredFree => cases hc
  | retired => cases hc
  | updated _ _ _ he => exact Option.isSome_iff_exists.mpr ⟨_, he⟩
  | linked _ _ _ _ _ _ _ _ ht => exact Option.isSome_iff_exists.mpr ⟨_, ht⟩
  | created _ _ _ _ _ ht => exact Option.isSome_iff_exists.mpr ⟨_, ht⟩
  | review _ _ _ _ _ ht => exact Option.isSome_iff_exists.mpr ⟨_, ht⟩

theorem Indexed.round {source : Source} {policy : CompiledPolicy} {item : IncomingRecord} {v : Verdict}
    {d : Findings} {domain : Domain} (h : Indexed self.rt self.workspace s)
    (hi : Integrity self.rt self.workspace s) (ho : o ∈ s.objects)
    (hk : o.key = (source.id, key, item.localId)) (hdomain : domain ∈ s.domains)
    (hworkspace : domain.workspaceId = self.wid) (hkey : domain.key = key)
    (hpolicy : compilePolicy self.rt domain.definition = .ok policy)
    (hr : Round self s source key policy o item v t d) : Indexed self.rt self.workspace t := by
  have ha := Around.round hr
  obtain ⟨how, -⟩ := hi.objects o ho
  have hokey : o.domainKey = key := congrArg (fun k => k.2.1) hk
  have hblocks := hr.blocks how hokey
  have hafter : ∀ {x : Option Id}, (o.after item (self.fresh s) x v).domainKey = o.domainKey := by
    intro x
    have hkey : (o.after item (self.fresh s) x v).key = o.key := after_key
    exact congrArg (fun k => k.2.1) hkey
  have hmember : ∀ {o' : SourceObject}, o' ∈ t.objects →
      (o' ∈ s.objects ∧ o'.id ≠ o.id) ∨ o' = o.after item (self.fresh s) d.target v := by
    intro o' ho'
    rw [hr.objects, Table.mem_modify] at ho'
    rcases ho' with hold | ⟨o₀, ho₀, hid, rfl⟩
    · exact .inl hold
    · obtain rfl := hi.objectIds.eq_of_mem ho₀ ho hid
      exact .inr rfl
  -- the rows of what was contributed before are those of another record
  have hkept : ∀ {definition : Json} {o₀ o' : SourceObject} {id : Id}, o₀ ∈ s.objects →
      o₀.currentRecordId = some id → o'.id = o₀.id → o'.workspaceId = o₀.workspaceId →
      o'.domainKey = o₀.domainKey → IndexedAs self.rt s definition o₀ id →
      IndexedAs self.rt t definition o' id := by
    intro definition o₀ o' id ho₀ hcurrent hid hw hk hindexed
    refine hindexed.kept hr.records (blocksOf_append hblocks fun b hb => ?_) hid hw hk
    obtain ⟨-, r, hrecord, rfl, -⟩ := hi.currentRecord o₀ ho₀ _ hcurrent
    obtain ⟨_, -, rfl⟩ := List.mem_map.mp hb
    exact ((hi.records r hrecord).2.ne_uid).symm
  refine ⟨?_, ?_, ?_, ha.domains ▸ h.keyed, ?_⟩
  · intro b hb
    rw [hblocks] at hb
    rw [hr.records]
    rcases List.mem_append.mp hb with hb | hb
    · obtain ⟨hw, r, hrecord, hid, hdomain⟩ := h.homes b hb
      exact ⟨hw, r, List.mem_append_left _ hrecord, hid, hdomain⟩
    · obtain ⟨_, -, rfl⟩ := List.mem_map.mp hb
      exact ⟨how, _, List.mem_append_right _ (List.mem_singleton_self _), rfl, hokey.symm⟩
  · intro o' ho' hcurrent
    rcases hmember ho' with ⟨ho', -⟩ | rfl
    · exact h.attached o' ho' hcurrent
    · exact hr.fits.attached (h.attached o ho) hcurrent
  · intro o' ho'
    rw [ha.domains]
    rcases hmember ho' with ⟨ho', -⟩ | rfl
    · exact h.housed o' ho'
    · rw [hafter]
      exact h.housed o ho
  · intro d' hd' hw'
    rw [ha.domains] at hd'
    rcases h.renewed d' hd' hw' with ⟨job, hjob, hawaits⟩ | hindexed
    · exact .inl ⟨job, ha.jobs ▸ hjob, hawaits⟩
    · refine .inr fun o' ho' hkey' id hid => ?_
      rcases hmember ho' with ⟨ho', -⟩ | rfl
      · exact hkept ho' hid rfl rfl rfl (hindexed o' ho' hkey' id hid)
      · rw [hafter] at hkey'
        rcases hr.fits.contribution hid with ⟨hold, -⟩ | ⟨rfl, -⟩
        · exact hkept ho hold after_id after_workspaceId hafter (hindexed o ho hkey' id hold)
        · have hsame : d' = domain := h.keyed.eq_of_mem hd' hdomain (Prod.ext (hw'.trans hworkspace.symm)
            (hkey'.symm.trans (hokey.trans hkey.symm)))
          exact hr.indexed h hi how hokey (hsame ▸ hpolicy) after_id after_workspaceId hafter

theorem Indexed.opens {source : Source} {localId : String} (h : Indexed rt w s)
    (hd : ∃ d ∈ s.domains, d.workspaceId = w.id ∧ d.key = key)
    (ho : Opens self s source key localId t o) : Indexed rt w t := by
  cases ho with
  | known => exact h
  | new =>
    refine ⟨h.homes, fun o ho hcurrent => ?_, fun o ho => ?_, h.keyed, fun d hd hw => ?_⟩
    · rcases List.mem_append.mp ho with ho | ho
      · exact h.attached o ho hcurrent
      · rw [List.mem_singleton.mp ho] at hcurrent
        cases hcurrent
    · rcases List.mem_append.mp ho with ho | ho
      · exact h.housed o ho
      · rw [List.mem_singleton.mp ho]
        exact hd
    · refine (h.renewed d hd hw).imp_right fun hindexed o ho hkey id hid => ?_
      rcases List.mem_append.mp ho with ho | ho
      · exact hindexed o ho hkey id hid
      · rw [List.mem_singleton.mp ho] at hid
        cases hid

theorem Page.indexed {req : IngestRequest} (p : Page self s req) (h : Indexed self.rt self.workspace s)
    (hi : Integrity self.rt self.workspace s) : Indexed self.rt self.workspace p.finished := by
  obtain ⟨runs, n, hbegun⟩ := MasteringService.beginPage_runs p.begins
  have hbegins : Indexed self.rt self.workspace p.begun :=
    h.sameRows p.begun_quiet.toSameRows (by rw [hbegun]; exact ⟨rfl, rfl, rfl⟩)
  have hpolicy := MasteringService.authorize_policy p.authorized
  have hmem := List.mem_of_find?_eq_some p.domain_found
  have hfound : p.domain.workspaceId = self.wid ∧ p.domain.key = req.domainKey := by
    simpa using List.find?_some p.domain_found
  have hdomains : p.begun.domains = s.domains := by rw [hbegun]
  have hobserved := (MasteringService.observeAll_invariant
    (P := fun u => Indexed self.rt self.workspace u ∧ u.domains = s.domains)
    (hi.sameRows p.begun_quiet.toSameRows) ⟨hbegins, hdomains⟩ ?_ p.observes).2.1
  · refine hobserved.sameRows p.finished_quiet.toSameRows ?_
    unfold Page.finished MasteringService.finishBatch
    cases p.run <;> exact ⟨rfl, rfl, rfl⟩
  · intro u u' item v _ hui ⟨hu, hud⟩ hobserve
    rcases MasteringService.observe_cases hui hobserve with ⟨-, rfl, -⟩ | ⟨u₁, o, d, hopen, -, hround⟩
    · exact ⟨hu, hud⟩
    · have hopened : Around self.rt u u₁ := .opens hopen
      have hd : u₁.domains = s.domains := hopened.domains.trans hud
      have hindexed := hu.opens ⟨p.domain, hud ▸ hmem, hfound⟩ hopen
      refine ⟨hindexed.round (hopen.integrity hui) hopen.mem hopen.key (hd ▸ hmem) hfound.1 hfound.2
        hpolicy hround, (Around.round hround).domains.trans hd⟩

/-- What indexing contributions again does. -/
structure Reindexes (rt : Runtime) (w : Workspace) (policy : CompiledPolicy) (key : String)
    (objects : List SourceObject) (s t : Store) : Prop where
  aside : t.objects = s.objects ∧ t.domains = s.domains ∧ t.jobs = s.jobs
  rows : t.records.map (fun r => (r.id, r.domainKey, r.original)) =
    s.records.map fun r => (r.id, r.domainKey, r.original)
  blocks : ∃ rows : List CandidateBlock, t.blocks = s.blocks ++ rows ∧ ∀ b ∈ rows,
    b.workspaceId = w.id ∧ ∃ o ∈ objects, o.currentRecordId = some b.recordId ∧ b.domainKey = key
  renewed : ∀ o ∈ objects, ∀ id, o.currentRecordId = some id → ∃ r keys, s.record? id = some r ∧
    (policy.normalize rt r.original >>= policy.blockingKeys rt) = .ok keys ∧
    t.blocksOf id = s.blocksOf id ++ o.indexRows id keys

theorem record?_of_rows (id : Id) (h : t.records.map (fun r => (r.id, r.domainKey, r.original)) =
      s.records.map fun r => (r.id, r.domainKey, r.original)) :
    (t.record? id).map (fun r => (r.id, r.domainKey, r.original)) =
      (s.record? id).map fun r => (r.id, r.domainKey, r.original) := by
  have hfind : ∀ rows : List SourceRecord, (Table.find SourceRecord.id rows id).map
      (fun r => (r.id, r.domainKey, r.original)) =
        (rows.map fun r => (r.id, r.domainKey, r.original)).find? fun p => p.1 = id := by
    intro rows
    rw [Table.find, List.find?_map]
    rfl
  rw [Store.record?, Store.record?, hfind, hfind, h]

theorem record?_some_of_rows (h : t.records.map (fun r => (r.id, r.domainKey, r.original)) =
      s.records.map fun r => (r.id, r.domainKey, r.original)) (hr : t.record? id = some r) :
    ∃ r', s.record? id = some r' ∧ r'.original = r.original := by
  have hrow := record?_of_rows id h
  rw [hr] at hrow
  obtain ⟨r', hr', heq⟩ := Option.map_eq_some_iff.mp hrow.symm
  exact ⟨r', hr', congrArg (fun p => p.2.2) heq⟩

theorem reindex_reindexes {policy : CompiledPolicy} (hi : o.currentRecordId.bind s.record? = some r)
    (hw : o.workspaceId = self.wid) (hk : o.domainKey = key)
    (h : self.reindex policy key s o = .ok t) :
    Reindexes self.rt self.workspace policy key [o] s t := by
  obtain ⟨id, hcurrent, hrecord⟩ := Option.bind_eq_some_iff.mp hi
  obtain rfl := Table.find_key hrecord
  unfold MasteringService.reindex at h
  rw [hi] at h
  simp only [Except.bind_eq_ok, Except.pure_eq_ok] at h
  obtain ⟨normalized, hnormalized, keys, hkeys, rfl⟩ := h
  refine ⟨⟨rfl, rfl, rfl⟩, ?_, ⟨_, rfl, ?_⟩, ?_⟩
  · exact Table.map_modify fun _ => rfl
  · intro b hb
    obtain ⟨_, -, rfl⟩ := List.mem_map.mp hb
    exact ⟨rfl, o, List.mem_singleton_self o, hcurrent, rfl⟩
  · intro o' ho' id hid
    rw [List.mem_singleton.mp ho', hcurrent] at hid
    cases hid
    rw [List.mem_singleton.mp ho']
    refine ⟨r, keys, hrecord, Except.bind_eq_ok.mpr ⟨normalized, hnormalized, hkeys⟩, ?_⟩
    refine blocksOf_own (s := s) ?_
    simp only [SourceObject.indexRows, hw, hk]
    rfl

theorem reindexAll_reindexes {policy : CompiledPolicy} {objects : List SourceObject}
    (hrecords : ∀ o ∈ objects, (o.currentRecordId.bind s.record?).isSome)
    (hdistinct : objects.Pairwise fun o o' => o.currentRecordId ≠ o'.currentRecordId)
    (hw : ∀ o ∈ objects, o.workspaceId = self.wid ∧ o.domainKey = key)
    (h : objects.foldlM (self.reindex policy key) s = .ok t) :
    Reindexes self.rt self.workspace policy key objects s t := by
  induction objects generalizing s with
  | nil =>
    rw [List.foldlM_nil, Except.pure_eq_ok] at h
    subst h
    exact ⟨⟨rfl, rfl, rfl⟩, rfl, ⟨[], (List.append_nil _).symm, by simp⟩, by simp⟩
  | cons o objects ih =>
    rw [List.foldlM_cons, Except.bind_eq_ok] at h
    obtain ⟨u, hu, h⟩ := h
    obtain ⟨hne, hdistinct⟩ := List.pairwise_cons.mp hdistinct
    obtain ⟨r, hr⟩ := Option.isSome_iff_exists.mp (hrecords o List.mem_cons_self)
    have hfirst := reindex_reindexes hr (hw o List.mem_cons_self).1 (hw o List.mem_cons_self).2 hu
    have hrest := ih (fun o' ho' => ?_) hdistinct (fun o' ho' => hw o' (List.mem_cons_of_mem _ ho')) h
    · obtain ⟨rows, hrows, hown⟩ := hfirst.blocks
      obtain ⟨rows', hrows', hown'⟩ := hrest.blocks
      have hdisjoint : ∀ o' ∈ objects, ∀ id, o'.currentRecordId = some id → o.currentRecordId ≠ some id :=
        fun o' ho' id hid heq => hne o' ho' (heq.trans hid.symm)
      refine ⟨⟨?_, ?_, ?_⟩, hrest.rows.trans hfirst.rows, ⟨rows ++ rows', ?_, ?_⟩, ?_⟩
      · exact hrest.aside.1.trans hfirst.aside.1
      · exact hrest.aside.2.1.trans hfirst.aside.2.1
      · exact hrest.aside.2.2.trans hfirst.aside.2.2
      · rw [hrows', hrows, List.append_assoc]
      · intro b hb
        rcases List.mem_append.mp hb with hb | hb
        · obtain ⟨hbw, o', ho', hb⟩ := hown b hb
          exact ⟨hbw, o, List.mem_cons_self, List.mem_singleton.mp ho' ▸ hb⟩
        · obtain ⟨hbw, o', ho', hb⟩ := hown' b hb
          exact ⟨hbw, o', List.mem_cons_of_mem _ ho', hb⟩
      · intro o' ho' id hid
        rcases List.mem_cons.mp ho' with rfl | ho'
        · obtain ⟨r, keys, hrecord, hkeys, hblocks⟩ := hfirst.renewed o' (List.mem_singleton_self _) id hid
          refine ⟨r, keys, hrecord, hkeys, (blocksOf_append hrows' fun b hb heq => ?_).trans hblocks⟩
          obtain ⟨-, o', ho', hcurrent, -⟩ := hown' b hb
          exact hdisjoint o' ho' _ hcurrent (heq ▸ hid)
        · obtain ⟨r, keys, hrecord, hkeys, hblocks⟩ := hrest.renewed o' ho' id hid
          obtain ⟨r', hrecord', horiginal⟩ := record?_some_of_rows hfirst.rows hrecord
          refine ⟨r', keys, hrecord', horiginal ▸ hkeys, ?_⟩
          rw [hblocks, blocksOf_append hrows fun b hb heq => ?_]
          obtain ⟨-, o'', ho'', hcurrent, -⟩ := hown b hb
          rw [List.mem_singleton.mp ho'', heq] at hcurrent
          exact hdisjoint o' ho' id hid hcurrent
    · obtain ⟨r', hr'⟩ := Option.isSome_iff_exists.mp (hrecords o' (List.mem_cons_of_mem _ ho'))
      obtain ⟨id, hcurrent, hrecord⟩ := Option.bind_eq_some_iff.mp hr'
      obtain ⟨r'', hrecord', -⟩ := record?_some_of_rows hfirst.rows.symm hrecord
      exact Option.isSome_iff_exists.mpr ⟨r'', Option.bind_eq_some_iff.mpr ⟨id, hcurrent, hrecord'⟩⟩

theorem redraft_contributions {x : Id} (h : self.redraft s x = .ok t) :
    t.objects = s.objects ∧ t.records = s.records ∧ Aside s t := by
  unfold MasteringService.redraft at h
  simp only [Except.bind_eq_ok, Except.pure_eq_ok, Prod.exists] at h
  obtain ⟨u, m, hdraft, rfl⟩ := h
  have hframe := MasteringService.draftMaster_frame hdraft
  exact ⟨hframe.objects, hframe.records, hframe.domains, hframe.blocks, hframe.jobs⟩

/-- The store in which a job indexes a domain again. -/
def Store.unindexed (s : Store) (workspaceId : Id) (key : String) : Store :=
  { s with blocks := s.blocks.filter fun b => !(b.workspaceId = workspaceId && b.domainKey = key) }

theorem Integrity.contributor {o' : SourceObject} (hi : Integrity rt w s) (ho : o ∈ s.objects)
    (ho' : o' ∈ s.objects) (hid : o.currentRecordId = some id) (hid' : o'.currentRecordId = some id) :
    o = o' := by
  obtain ⟨-, r, hr, hrid, -, hkey⟩ := hi.currentRecord o ho id hid
  obtain ⟨-, r', hr', hrid', -, hkey'⟩ := hi.currentRecord o' ho' id hid'
  obtain rfl := hi.recordIds.eq_of_mem hr hr' (hrid.trans hrid'.symm)
  exact hi.objectKeys.eq_of_mem ho ho' (hkey.symm.trans hkey')

/-- A job indexes the contributions of its domain again, and nothing else. -/
theorem remasterDomain_reindexes {job : DurableJob} (hi : Integrity self.rt self.workspace s)
    (h : self.remasterDomain s job = .ok t) :
    ∃ domain policy objects u, self.domain? s (job.domainKey self.rt) = some domain ∧
      compilePolicy self.rt domain.definition = .ok policy ∧
      (∀ o, o ∈ objects ↔ o ∈ s.objects ∧ o.domainKey = job.domainKey self.rt ∧
        o.currentRecordId.isSome) ∧
      Reindexes self.rt self.workspace policy (job.domainKey self.rt) objects
        (s.unindexed self.wid (job.domainKey self.rt)) u ∧
      t.objects = u.objects ∧ t.records = u.records ∧ Aside u t := by
  unfold MasteringService.remasterDomain at h
  dsimp only at h
  split at h
  · cases h
  · next domain hdomain =>
    rw [Except.bind_eq_ok] at h
    obtain ⟨policy, hpolicy, h⟩ := h
    split at h
    · cases h
    · simp only [Except.bind_eq_ok, Except.pure_eq_ok] at h
      obtain ⟨u, hobjects, u', hentities, rfl⟩ := h
      have hmember : ∀ o, o ∈ (s.objects.filter fun o => o.workspaceId = self.wid &&
          o.domainKey = job.domainKey self.rt && o.currentRecordId.isSome &&
          !o.retired).insertionSort (fun a b => a.id ≤ b.id) ↔
          o ∈ s.objects ∧ o.domainKey = job.domainKey self.rt ∧ o.currentRecordId.isSome := by
        intro o
        simp only [List.mem_insertionSort, List.mem_filter, Bool.and_eq_true, decide_eq_true_eq,
          Bool.not_eq_true']
        constructor
        · rintro ⟨ho, ⟨⟨-, hkey⟩, hcurrent⟩, -⟩
          exact ⟨ho, hkey, hcurrent⟩
        · rintro ⟨ho, hkey, hcurrent⟩
          obtain ⟨id, hid⟩ := Option.isSome_iff_exists.mp hcurrent
          exact ⟨ho, ⟨⟨(hi.objects o ho).1, hkey⟩, hcurrent⟩, (hi.currentRecord o ho id hid).1⟩
      have hredrafted := Except.foldlM_invariant
        (P := fun u' => u'.objects = u.objects ∧ u'.records = u.records ∧ Aside u u') hentities
        ⟨rfl, rfl, .refl u⟩ fun v x v' _ ⟨ho, hr, ha⟩ hstep => by
          obtain ⟨ho', hr', ha'⟩ := redraft_contributions hstep
          exact ⟨ho'.trans ho, hr'.trans hr, ha.trans ha'⟩
      refine ⟨domain, policy, _, u, hdomain, hpolicy, hmember, reindexAll_reindexes ?_ ?_ ?_ hobjects,
        hredrafted.1, hredrafted.2.1, hredrafted.2.2.trans (.frame (self.audit_frame ..))⟩
      · intro o ho
        obtain ⟨ho, -, hcurrent⟩ := (hmember o).mp ho
        obtain ⟨id, hid⟩ := Option.isSome_iff_exists.mp hcurrent
        obtain ⟨-, r, hr, rfl, -⟩ := hi.currentRecord o ho id hid
        exact Option.isSome_iff_exists.mpr ⟨r, Option.bind_eq_some_iff.mpr ⟨_, hid, hi.record? hr⟩⟩
      · have hnodup := (List.perm_insertionSort (fun a b : SourceObject => a.id ≤ b.id) _).nodup_iff.mpr
          ((List.Nodup.of_map _ hi.objectIds).filter fun o => o.workspaceId = self.wid &&
            o.domainKey = job.domainKey self.rt && o.currentRecordId.isSome && !o.retired)
        refine hnodup.pairwise_of_forall_ne fun o ho o' ho' hne heq => hne ?_
        obtain ⟨ho, -, hcurrent⟩ := (hmember o).mp ho
        obtain ⟨ho', -, -⟩ := (hmember o').mp ho'
        obtain ⟨id, hid⟩ := Option.isSome_iff_exists.mp hcurrent
        exact hi.contributor ho ho' hid (heq ▸ hid)
      · intro o ho
        obtain ⟨ho, hkey, -⟩ := (hmember o).mp ho
        exact ⟨(hi.objects o ho).1, hkey⟩

/-- The rows of a contribution are in its own domain. -/
theorem unindexed_blocksOf (h : Indexed rt w s) (hi : Integrity rt w s) (ho : o ∈ s.objects)
    (hid : o.currentRecordId = some id) :
    (s.unindexed w.id key).blocksOf id = if o.domainKey = key then [] else s.blocksOf id := by
  have hhome : ∀ b ∈ s.blocks, b.recordId = id → b.workspaceId = w.id ∧ b.domainKey = o.domainKey := by
    intro b hb hrecord
    obtain ⟨hw, r, hr, hrid, hdomain⟩ := h.homes b hb
    obtain ⟨-, r', hr', hrid', -, hkey⟩ := hi.currentRecord o ho id hid
    obtain rfl := hi.recordIds.eq_of_mem hr hr' (hrid.trans (hrecord.trans hrid'.symm))
    exact ⟨hw, hdomain.symm.trans (congrArg (fun k => k.2.1) hkey)⟩
  rw [Store.blocksOf, Store.unindexed, List.filter_filter]
  split
  · next hkey =>
    refine List.filter_eq_nil_iff.mpr fun b hb => ?_
    by_cases hrecord : b.recordId = id
    · obtain ⟨hw, hdomain⟩ := hhome b hb hrecord
      simp [hw, hdomain, hkey]
    · simp [hrecord]
  · next hkey =>
    refine List.filter_congr fun b hb => ?_
    by_cases hrecord : b.recordId = id
    · obtain ⟨-, hdomain⟩ := hhome b hb hrecord
      simp [hdomain, hkey]
    · simp [hrecord]

/-- A job that is done has indexed its domain. -/
theorem runJob_indexed {jobId : Id} (h : Indexed self.rt self.workspace s)
    (hi : Integrity self.rt self.workspace s) (hk : Table.Keyed DurableJob.id s.jobs)
    (hrun : self.runJob s jobId = .ok t) : Indexed self.rt self.workspace t := by
  unfold MasteringService.runJob at hrun
  split at hrun
  · cases hrun
  · next job hjob =>
    simp only [Except.bind_eq_ok, Except.pure_eq_ok] at hrun
    obtain ⟨u, hremaster, rfl⟩ := hrun
    have hmem := List.mem_of_find?_eq_some hjob
    obtain ⟨domain, policy, objects, v, hdomain, hpolicy, hobjects, hreindexed, ho, hr, ha⟩ :=
      remasterDomain_reindexes hi hremaster
    obtain ⟨hfound, hkey⟩ := MasteringService.domain?_key hdomain
    have hdw : domain.workspaceId = self.wid := by
      have hd : domain.workspaceId = self.wid ∧ domain.key = job.domainKey self.rt := by
        simpa using List.find?_some hdomain
      exact hd.1
    obtain ⟨rows, hrows, hown⟩ := hreindexed.blocks
    have hblocks : u.blocks = (s.unindexed self.wid (job.domainKey self.rt)).blocks ++ rows :=
      ha.blocks.trans hrows
    have hobjects' : u.objects = s.objects := ho.trans hreindexed.aside.1
    have hdomains : u.domains = s.domains := ha.domains.trans hreindexed.aside.2.1
    have hjobs : u.jobs = s.jobs := ha.jobs.trans hreindexed.aside.2.2
    have hrecords : u.records.map (fun r => (r.id, r.domainKey, r.original)) =
        s.records.map fun r => (r.id, r.domainKey, r.original) := by
      rw [hr]
      exact hreindexed.rows
    have hhoused : ∀ r ∈ s.records, ∃ r' ∈ u.records, r'.id = r.id ∧ r'.domainKey = r.domainKey := by
      intro r hr
      have hrow : (r.id, r.domainKey, r.original) ∈
          u.records.map fun r => (r.id, r.domainKey, r.original) := by
        rw [hrecords]
        exact List.mem_map_of_mem hr
      obtain ⟨r', hr', heq⟩ := List.mem_map.mp hrow
      exact ⟨r', hr', congrArg Prod.fst heq, congrArg (fun p => p.2.1) heq⟩
    have hindexed : ∀ {definition : Json} {o : SourceObject} {id : Id} {r : SourceRecord}
        {keys : List String}, s.record? id = some r →
        keysOf self.rt definition r.original = .ok keys → u.blocksOf id = o.indexRows id keys →
        IndexedAs self.rt u definition o id := by
      intro definition o id r keys hrecord hkeys hb
      obtain ⟨r', hr', horiginal⟩ := record?_some_of_rows hrecords.symm hrecord
      exact ⟨r', keys, hr', horiginal ▸ hkeys, hb⟩
    refine ⟨?_, ?_, ?_, ?_, ?_⟩
    · intro b hb
      dsimp only at hb ⊢
      rw [hblocks] at hb
      rcases List.mem_append.mp hb with hb | hb
      · obtain ⟨hw, r, hr, hid, hdomain⟩ := h.homes b (List.mem_of_mem_filter hb)
        obtain ⟨r', hr', hid', hdomain'⟩ := hhoused r hr
        exact ⟨hw, r', hr', hid'.trans hid, hdomain'.trans hdomain⟩
      · obtain ⟨hw, o, ho, hcurrent, hbkey⟩ := hown b hb
        obtain ⟨ho, hokey, -⟩ := (hobjects o).mp ho
        obtain ⟨-, r, hr, hid, -, hrkey⟩ := hi.currentRecord o ho _ hcurrent
        obtain ⟨r', hr', hid', hdomain'⟩ := hhoused r hr
        refine ⟨hw, r', hr', hid'.trans hid, hdomain'.trans ?_⟩
        exact (congrArg (fun k => k.2.1) hrkey).trans (hokey.trans hbkey.symm)
    · dsimp only
      rw [hobjects']
      exact h.attached
    · dsimp only
      rw [hobjects', hdomains]
      exact h.housed
    · dsimp only
      rw [hdomains]
      exact h.keyed
    · intro d hd hw
      dsimp only at hd
      rw [hdomains] at hd
      by_cases hsame : d.key = job.domainKey self.rt
      · obtain rfl := h.keyed.eq_of_mem hd hfound (Prod.ext (hw.trans hdw.symm) (hsame.trans hkey.symm))
        refine .inr fun o ho hokey id hid => ?_
        dsimp only at ho
        rw [hobjects'] at ho
        have hlisted := (hobjects o).mpr ⟨ho, hokey.trans hsame, Option.isSome_iff_exists.mpr ⟨id, hid⟩⟩
        obtain ⟨r, keys, hrecord, hkeys, hb⟩ := hreindexed.renewed o hlisted id hid
        refine hindexed hrecord (by simp only [keysOf, hpolicy]; exact hkeys) ?_
        have hnone : (s.unindexed self.wid (job.domainKey self.rt)).blocksOf id = [] :=
          (unindexed_blocksOf h hi ho hid).trans (if_pos (hokey.trans hsame))
        rw [Store.blocksOf, ha.blocks]
        exact hb.trans (by rw [hnone, List.nil_append])
      · rcases h.renewed d hd hw with ⟨j, hj, hawaits⟩ | hother
        · refine .inl ⟨j, ?_, hawaits⟩
          dsimp only
          rw [hjobs]
          refine Table.mem_modify.mpr (.inl ⟨hj, fun hid => hsame ?_⟩)
          rw [← hk.eq_of_mem hj hmem hid]
          exact hawaits.2.2.2.1.symm
        · refine .inr fun o ho hokey id hid => ?_
          dsimp only at ho
          rw [hobjects'] at ho
          obtain ⟨r, keys, hrecord, hkeys, hb⟩ := hother o ho hokey id hid
          refine hindexed hrecord hkeys ?_
          rw [blocksOf_append hblocks fun b hb' heq => ?_]
          · exact (unindexed_blocksOf h hi ho hid).trans
              ((if_neg fun heq => hsame (hokey.symm.trans heq)).trans hb)
          · obtain ⟨-, o', ho', hcurrent, -⟩ := hown b hb'
            obtain ⟨ho', hokey', -⟩ := (hobjects o').mp ho'
            rw [heq] at hcurrent
            exact hsame (hokey.symm.trans ((congrArg SourceObject.domainKey
              (hi.contributor ho ho' hid hcurrent)).trans hokey'))

/-- A decision moves objects to other entities at most. -/
theorem DecisionEffect.moves {task : ReviewTask} {d : Decision} (he : DecisionEffect self s task d t) :
    t.records = s.records ∧ ∃ f, t.objects = s.objects.map f ∧
      ∀ o, f o = o ∨ ∃ x, f o = { o with entityId := some x } := by
  have hgather : ∀ {xs : List Id} {x : Id} (o : SourceObject),
      gather xs x o = o ∨ ∃ y, gather xs x o = { o with entityId := some y } := by
    intro xs x o
    unfold gather
    split
    · exact .inr ⟨x, rfl⟩
    · exact .inl rfl
  have hattach : ∀ {xs : List Id} {x : Id} (o : SourceObject),
      attach xs x o = o ∨ ∃ y, attach xs x o = { o with entityId := some y } := by
    intro xs x o
    unfold attach
    split
    · exact .inr ⟨x, rfl⟩
    · exact .inl rfl
  have hsame : ∀ {u : Store}, u.objects = s.objects → u.records = s.records →
      u.records = s.records ∧ ∃ f, u.objects = s.objects.map f ∧
        ∀ o, f o = o ∨ ∃ x, f o = { o with entityId := some x } :=
    fun ho hr => ⟨hr, id, by rw [ho, List.map_id], fun _ => .inl rfl⟩
  cases he with
  | quiet _ hq => exact hsame hq.objects hq.records
  | approveMaster _ ha => exact hsame ha.kept.objects ha.kept.records
  | merge _ _ _ _ _ hf => exact ⟨hf.records, _, hf.objects, hgather⟩
  | split _ _ _ _ _ _ _ _ hf => exact ⟨hf.records, _, hf.objects, hattach⟩
  | link _ _ _ _ _ hf => exact ⟨hf.records, _, hf.objects, hgather⟩
  | keepApart _ _ _ hf => exact hsame hf.objects hf.records

theorem Indexed.decided {task : ReviewTask} {d : Decision} (h : Indexed rt w s) (ha : Aside s t)
    (he : DecisionEffect self s task d t) : Indexed rt w t := by
  obtain ⟨hr, f, ho, hf⟩ := he.moves
  refine h.mapped ho hr ha (fun o _ => ?_) fun o _ hentity => ?_
  · rcases hf o with heq | ⟨x, heq⟩ <;> rw [heq] <;> exact ⟨rfl, rfl, rfl, rfl⟩
  · rcases hf o with heq | ⟨x, heq⟩
    · rw [heq]
      exact hentity
    · rw [heq]
      rfl

theorem Indexed.unhoused {who : Principal} (h : Indexed rt w s)
    (hnone : MasteringService.domain? ⟨rt, who, w⟩ s key = none) : ∀ o ∈ s.objects, o.domainKey ≠ key := by
  intro o ho hkey
  obtain ⟨d, hd, hw, hdkey⟩ := h.housed o ho
  have hother := List.find?_eq_none.mp hnone d hd
  simp [MasteringService.wid, hw, hdkey, hkey] at hother

theorem checksum_digest {policy : CompiledPolicy} (h : compilePolicy rt definition = .ok policy) :
    policy.checksum = rt.digest policy.canonicalDocument := by
  unfold compilePolicy at h
  simp only [Except.bind_eq_ok, Except.pure_eq_ok] at h
  obtain ⟨_, -, _, -, _, -, _, -, _, -, _, -, _, -, _, -, _, -, rfl⟩ := h
  rfl

/-- The definition that an activation writes is one its job is to index by. -/
theorem activateDomain_indexed {configId : Id} {entry : String × CompiledPolicy}
    {state state' : Store × List Id} (h : Indexed self.rt self.workspace state.1)
    (hk : Table.Keyed Domain.id state.1.domains) (hstr : ∀ text, self.rt.strOf (.str text) = text)
    (hpolicy : ∃ definition, compilePolicy self.rt definition = .ok entry.2)
    (hstep : self.activateDomain configId state entry = .ok state') :
    Indexed self.rt self.workspace state'.1 ∧ Table.Keyed Domain.id state'.1.domains := by
  have hquiet := MasteringService.activateDomain_quiet hstep
  unfold MasteringService.activateDomain at hstep
  dsimp only at hstep
  split at hstep
  · cases hstep
  · next d hd =>
    obtain ⟨hmem, hkey⟩ := MasteringService.domain?_key hd
    cases hstep
    refine ⟨h.redefined (W := fun key definition => key = d.key ∧
      definition = entry.2.canonicalDocument) hquiet.toSameRows ?_ rfl
      (fun job hjob => List.mem_append_left _ hjob) ?_, ?_⟩
    · exact .modify hk hmem rfl (fun _ => ⟨rfl, rfl⟩) ⟨rfl, rfl⟩
    · rintro key definition ⟨rfl, rfl⟩
      refine .inr (.inl ⟨_, List.mem_append_right _ (List.mem_singleton_self _), rfl, rfl, rfl,
        hstr d.key, ?_⟩)
      obtain ⟨definition, hcompiled⟩ := hpolicy
      exact congrArg Json.str (checksum_digest hcompiled)
    · exact hk.map fun d' _ => by split <;> rfl

/-- An activated configuration is indexed, or its jobs are waiting. -/
theorem Activating.indexed {taskId : Id} {reason : String} (a : Activating self s taskId reason t)
    (h : Indexed self.rt self.workspace s) (hk : Table.Keyed Domain.id s.domains)
    (hstr : ∀ text, self.rt.strOf (.str text) = text) : Indexed self.rt self.workspace t := by
  obtain ⟨config, -, simulation, -, policies, jobs, u, -, -, -, -, -, hpolicies, hfold, hframe⟩ := a.spec
  have hactivated := (Except.foldlM_invariant (P := fun state : Store × List Id =>
    Indexed self.rt self.workspace state.1 ∧ Table.Keyed Domain.id state.1.domains) hfold ?_
    fun v entry v' hentry ⟨hv, hvk⟩ hstep => activateDomain_indexed hv hvk hstr
      (MasteringService.configurationPolicies_compiled hpolicies entry hentry) hstep).1
  · exact hactivated.sameRows hframe.toSameRows (.frame hframe)
  · exact ⟨h.sameRows ⟨rfl, rfl, rfl, rfl, rfl, .refl, le_rfl⟩ ⟨rfl, rfl, rfl⟩, hk⟩

theorem Indexed.created {who : Principal} {name mode : String} {document : Dict} {d : Domain}
    (h : Indexed rt w s)
    (hc : MasteringService.createDomain ⟨rt, who, w⟩ s key name mode document = .ok (t, d)) :
    Indexed rt w t := by
  have hredefines := MasteringService.createDomain_redefines (W := fun key' _ => key' = key ∧
    MasteringService.domain? ⟨rt, who, w⟩ s key = none) hc fun _ hnone _ => ⟨rfl, hnone⟩
  have hsame : t.blocks = s.blocks ∧ t.jobs = s.jobs := MasteringService.createDomain_aside hc
  refine h.redefined (MasteringService.createDomain_quiet hc).toSameRows hredefines hsame.1
    (fun job hjob => hsame.2 ▸ hjob) ?_
  rintro key' definition ⟨rfl, hnone⟩
  exact .inl (h.unhoused hnone)

theorem next_indexed (h : Indexed rt w s) (hi : Integrity rt w s) (hr : Registered rt s)
    (hstr : ∀ text, rt.strOf (.str text) = text) (request : Request) :
    Indexed rt w ((service rt).next s request) := by
  rcases next_writing hi request with haside | ⟨-, hwriting⟩
  · have heffect := next_effect hi request
    generalize (service rt).next s request = t at haside heffect
    cases heffect with
    | quiet hq => exact h.sameRows hq.toSameRows haside.toAside
    | page _ p => exact p.indexed h hi
    | decision _ hd => exact h.decided haside.toAside hd
    | job hj => exact runJob_indexed h hi hr.jobIds hj
  · generalize (service rt).next s request = t at hwriting
    cases hwriting with
    | created hc => exact h.created hc
    | page p => exact p.indexed h hi
    | activated a => exact a.indexed h hr.domainIds hstr
    | job hj => exact runJob_indexed h hi hr.jobIds hj

/-- An import that defines a domain anew finds the index renewed for the new definition, and a job that
fails is not the only one to renew an index. -/
def KeepsIndex (rt : Runtime) (w : Workspace) (s : Store) : Operation → Prop
  | .importBundle _ bundle true _ => ∀ item ∈ bundle.domains, ∀ result,
      CanonicalOf rt item.document result →
      (∃ d ∈ s.domains, d.workspaceId = w.id ∧ d.key = item.key ∧ d.definition ≠ result) →
      Renewed rt w s item.key result
  | .failJob _ jobId => ∀ d ∈ s.domains, d.workspaceId = w.id →
      (∃ job ∈ s.jobs, job.id = jobId ∧ Awaits rt w d.key d.definition job) →
      (∃ job ∈ s.jobs, job.id ≠ jobId ∧ Awaits rt w d.key d.definition job) ∨
        IndexedBy rt s d.key d.definition
  | _ => True

/-- A definition that an operation writes finds the index renewed, if it is kept. -/
theorem Writes.renewed {definition : Json} (hw : Writes rt w s op key definition)
    (hop : ∀ request, op ≠ .request request) (h : Indexed rt w s) (hk : KeepsIndex rt w s op) :
    (∀ o ∈ s.objects, o.domainKey ≠ key) ∨ Renewed rt w s key definition := by
  rcases hw with hgoverns | hreplaces
  · cases hgoverns with
    | created => exact (hop _ rfl).elim
    | brought _ hnone => exact .inl (h.unhoused hnone)
    | approved => exact (hop _ rfl).elim
  · cases hreplaces with
    | @replaced _ _ _ item result _ hitem hc =>
      by_cases hnone : ∃ d ∈ s.domains, d.workspaceId = w.id ∧ d.key = item.key
      · obtain ⟨d, hd, hdw, hdkey⟩ := hnone
        by_cases hsame : d.definition = definition
        · right
          rw [← hdkey, ← hsame]
          exact h.renewed d hd hdw
        · exact .inr (hk item hitem definition hc ⟨d, hd, hdw, hdkey, hsame⟩)
      · refine .inl fun o ho hokey => hnone ?_
        obtain ⟨d, hd, hdw, hdkey⟩ := h.housed o ho
        exact ⟨d, hd, hdw, hdkey.trans hokey⟩

theorem Indexed.imported (h : Indexed rt w s) (hop : ∀ request, op ≠ .request request)
    (hk : KeepsIndex rt w s op) (himports : Imports rt (Writes rt w s op) s t) : Indexed rt w t := by
  refine h.redefined himports.quiet.toSameRows himports.redefines himports.blocks
    (fun job hjob => himports.jobs ▸ hjob) fun key definition hw => ?_
  refine (hw.renewed hop h hk).imp_right fun hrenewed => ?_
  exact hrenewed.sameRows himports.quiet.toSameRows himports.blocks fun job hjob => himports.jobs ▸ hjob

theorem Indexed.failed {workspaceId : String} {jobId : Id} (h : Indexed rt w s)
    (hk : KeepsIndex rt w s (.failJob workspaceId jobId))
    (hf : MasteringService.failJob ⟨rt, workerPrincipal workspaceId, w⟩ s jobId = .ok t) :
    Indexed rt w t := by
  unfold MasteringService.failJob at hf
  split at hf
  · cases hf
  · next job hjob =>
    have hmem := List.mem_of_find?_eq_some hjob
    have hid : job.id = jobId := by
      have hfound := List.find?_some hjob
      simp only [Bool.and_eq_true, decide_eq_true_eq] at hfound
      exact hfound.1.1.1
    split at hf
    · cases hf
    · cases hf
      refine ⟨h.homes, h.attached, h.housed, h.keyed, fun d hd hw => ?_⟩
      -- a waiting job other than the failed one goes on waiting
      have hwaits : ∀ j ∈ s.jobs, j.id ≠ jobId → Awaits rt w d.key d.definition j →
          ∃ j' ∈ Table.modify DurableJob.id s.jobs job.id fun j => { j with status := .failed },
            Awaits rt w d.key d.definition j' :=
        fun j hj hne hawaits => ⟨j, Table.mem_modify.mpr (.inl ⟨hj, hid ▸ hne⟩), hawaits⟩
      rcases h.renewed d hd hw with ⟨j, hj, hawaits⟩ | hindexed
      · by_cases hj' : j.id = jobId
        · rcases hk d hd hw ⟨j, hj, hj', hawaits⟩ with ⟨other, hother, hne, hawaits'⟩ | hindexed
          · exact .inl (hwaits other hother hne hawaits')
          · exact .inr hindexed
        · exact .inl (hwaits j hj hj' hawaits)
      · exact .inr hindexed

/-- Operations that keep the index leave it renewed. -/
theorem run_indexed {ops : List Operation} (hstr : ∀ text, rt.strOf (.str text) = text)
    (hk : (operations rt).Along (KeepsIndex rt w) (Store.empty w) ops) :
    Indexed rt w ((operations rt).run (Store.empty w) ops) := by
  refine ((operations rt).run_invariant (P := fun s => Indexed rt w s ∧ Integrity rt w s ∧ Registered rt s)
    ⟨indexed_empty, operations_sound rt w []⟩ hk ?_).1
  intro s op ⟨h, hi, hr⟩ hk
  refine ⟨?_, next_sound hi hr op⟩
  cases op with
  | request request =>
    rw [(next_request request).1]
    exact next_indexed h hi hr hstr request
  | failJob workspaceId jobId =>
    have hoperates := next_operates hi hr (.failJob workspaceId jobId)
    generalize (operations rt).next s (.failJob workspaceId jobId) = t at hoperates
    cases hoperates with
    | refused => exact h
    | imports _ himports => exact h.imported (by simp) hk himports
    | failed hf => exact h.failed hk hf
  | assistantDraft who purpose draft =>
    have hoperates := next_operates hi hr (.assistantDraft who purpose draft)
    generalize (operations rt).next s (.assistantDraft who purpose draft) = t at hoperates
    cases hoperates with
    | refused => exact h
    | imports _ himports => exact h.imported (by simp) hk himports
  | importBundle who bundle replaceExisting targetWorkspace =>
    have hoperates := next_operates hi hr (.importBundle who bundle replaceExisting targetWorkspace)
    generalize (operations rt).next s (.importBundle who bundle replaceExisting targetWorkspace) = t
      at hoperates
    cases hoperates with
    | refused => exact h
    | imports _ himports => exact h.imported (by simp) hk himports

/-- No remaster job of the domain is waiting. -/
def Quiescent (rt : Runtime) (w : Workspace) (s : Store) (key : String) : Prop :=
  ∀ job ∈ s.jobs, job.kind = "remaster_domain" → job.workspaceId = w.id → job.domainKey rt = key →
    job.status ≠ .queued

instance : Decidable (Quiescent rt w s key) :=
  inferInstanceAs (Decidable (∀ job ∈ s.jobs, job.kind = "remaster_domain" → job.workspaceId = w.id →
    job.domainKey rt = key → job.status ≠ .queued))

/-- The rows of every contribution are the keys of the definition, and contributions that share a key
are candidates of each other. -/
structure ExactIndex (rt : Runtime) (w : Workspace) (s : Store) (key : String) (definition : Json) :
    Prop where
  rows : IndexedBy rt s key definition
  found : ∀ o ∈ s.objects, ∀ o' ∈ s.objects, o.domainKey = key → o'.domainKey = key → o ≠ o' →
    ∀ r r' keys keys' shared, o.currentRecordId.bind s.record? = some r →
      o'.currentRecordId.bind s.record? = some r' → keysOf rt definition r.original = .ok keys →
      keysOf rt definition r'.original = .ok keys' → shared ∈ keys → shared ∈ keys' →
      ∀ who, (r', o') ∈ MasteringService.candidateRows ⟨rt, who, w⟩ s r keys

/-- The index is complete and exact where no remaster job is waiting. -/
def IndexComplete (rt : Runtime) (w : Workspace) (s : Store) : Prop :=
  ∀ d ∈ s.domains, d.workspaceId = w.id → Quiescent rt w s d.key →
    ExactIndex rt w s d.key d.definition

/-- Contributions with exact rows that share a key find each other. -/
theorem IndexedBy.found {o' : SourceObject} {r' : SourceRecord} {keys' : List String} {shared : String}
    {who : Principal} (h : IndexedBy rt s key definition) (hx : Indexed rt w s) (hi : Integrity rt w s)
    (ho : o ∈ s.objects) (ho' : o' ∈ s.objects) (hk : o.domainKey = key) (hk' : o'.domainKey = key)
    (hne : o ≠ o') (hr : o.currentRecordId.bind s.record? = some r)
    (hr' : o'.currentRecordId.bind s.record? = some r')
    (hkeys' : keysOf rt definition r'.original = .ok keys') (hshared : shared ∈ keys)
    (hshared' : shared ∈ keys') : (r', o') ∈ MasteringService.candidateRows ⟨rt, who, w⟩ s r keys := by
  obtain ⟨id, hid, hrecord⟩ := Option.bind_eq_some_iff.mp hr
  obtain ⟨id', hid', hrecord'⟩ := Option.bind_eq_some_iff.mp hr'
  obtain rfl := Table.find_key hrecord
  obtain rfl := Table.find_key hrecord'
  have hmem' := Table.find_mem hrecord'
  -- the record of a contribution is valid, and of the domain of its object
  have hcontribution : ∀ {o : SourceObject} {r : SourceRecord}, o ∈ s.objects →
      o.currentRecordId = some r.id → r ∈ s.records →
      o.retired = false ∧ r.state = .valid ∧ r.domainKey = o.domainKey := by
    intro o r ho hid hr
    obtain ⟨hretired, r₀, hr₀, hid₀, hstate, hkey⟩ := hi.currentRecord o ho _ hid
    obtain rfl := hi.recordIds.eq_of_mem hr₀ hr hid₀
    exact ⟨hretired, hstate, congrArg (fun k => k.2.1) hkey⟩
  obtain ⟨hretired', hstate', hdomain'⟩ := hcontribution ho' hid' hmem'
  obtain ⟨-, -, hdomain⟩ := hcontribution ho hid (Table.find_mem hrecord)
  have hother : r'.id ≠ r.id := fun heq => hne (hi.contributor ho ho' hid (heq ▸ hid'))
  obtain ⟨r₀, keys₀, hrecord₀, hkeys₀, hrows⟩ := h o' ho' hk' _ hid'
  rw [hrecord'] at hrecord₀
  cases hrecord₀
  rw [hkeys'] at hkeys₀
  cases hkeys₀
  have hrow : ∃ b ∈ s.blocks, b.recordId = r'.id ∧ b.blockKey = shared := by
    have hlisted : (⟨o'.workspaceId, o'.domainKey, o'.id, r'.id, shared⟩ : CandidateBlock) ∈
        s.blocksOf r'.id := by
      rw [hrows]
      exact List.mem_map.mpr ⟨shared, hshared', rfl⟩
    exact ⟨_, List.mem_of_mem_filter hlisted, rfl, rfl⟩
  obtain ⟨b, hb, hbrecord, hbkey⟩ := hrow
  simp only [MasteringService.candidateRows, List.mem_flatMap, List.mem_map, List.mem_filter,
    Bool.and_eq_true, decide_eq_true_eq, Bool.not_eq_true']
  refine ⟨r', ⟨hmem', ⟨⟨(hi.records r' hmem').1, ?_⟩, hother⟩, hstate'⟩, o', ⟨ho', ⟨hid', ?_⟩, hretired'⟩,
    b, ⟨hb, hbrecord, ?_⟩, rfl⟩
  · rw [hdomain', hk', hdomain, hk]
  · exact hx.attached o' ho' (Option.isSome_iff_exists.mpr ⟨_, hid'⟩)
  · rw [hbkey]
    exact List.contains_iff_mem.mpr hshared

/-- In every run whose imports and failed jobs keep the index, it is complete and exact. -/
theorem index_complete (hstr : ∀ text, rt.strOf (.str text) = text) (ops : List Operation)
    (hk : (operations rt).Along (KeepsIndex rt w) (Store.empty w) ops) :
    IndexComplete rt w ((operations rt).run (Store.empty w) ops) := by
  have hindexed := run_indexed hstr hk
  obtain ⟨hi, -⟩ := operations_sound rt w ops
  intro d hd hw hquiescent
  have hrows : IndexedBy rt ((operations rt).run (Store.empty w) ops) d.key d.definition := by
    rcases hindexed.renewed d hd hw with ⟨job, hjob, hqueued, hkind, hworkspace, hdomain, -⟩ | hrows
    · exact (hquiescent job hjob hkind hworkspace hdomain hqueued).elim
    · exact hrows
  refine ⟨hrows, ?_⟩
  intro o ho o' ho' hkey hkey' hne r r' keys keys' shared hr hr' _ hkeys' hshared hshared' who
  exact hrows.found hindexed hi ho ho' hkey hkey' hne hr hr' hkeys' hshared hshared'

namespace Supplier

/-- A bundle in which a city makes candidates as well. -/
def cityBundle : WorkspaceBundle :=
  { eagerBundle with domains := [⟨"supplier", "Supplier", "coexistence", byCity⟩] }

/-- The bundle replaces the policy of suppliers that are indexed. -/
def reimported : List Operation :=
  (setup ++ [neighbours]).map .request ++ [.importBundle modeler cityBundle true none]

/-- The suppliers are not indexed by their city, and no job is waiting. -/
theorem keys_stale :
    ¬ IndexComplete .plain workspace ((operations .plain).run (Store.empty workspace) reimported) := by
  have hmissing : ((operations .plain).run (Store.empty workspace) reimported).domains.any (fun d =>
      d.workspaceId = workspace.id &&
        decide (Quiescent .plain workspace ((operations .plain).run (Store.empty workspace) reimported)
          d.key) &&
        ((operations .plain).run (Store.empty workspace) reimported).objects.any fun o =>
          o.domainKey = d.key && o.currentRecordId.any fun id => !decide (IndexedAs .plain
            ((operations .plain).run (Store.empty workspace) reimported) d.definition o id)) = true := by
    decide +kernel
  intro h
  obtain ⟨d, hd, hmissing⟩ := List.any_eq_true.mp hmissing
  simp only [Bool.and_eq_true, decide_eq_true_eq, List.any_eq_true, Option.any_eq_true,
    Bool.not_eq_true', decide_eq_false_iff_not] at hmissing
  obtain ⟨⟨hw, hquiescent⟩, o, ho, hkey, id, hid, hrows⟩ := hmissing
  exact hrows ((h d hd hw hquiescent).rows o ho hkey id hid)

/-- The configuration 21 makes candidates of suppliers of one city; 26 is the job of its activation. -/
def reindexed : List Request := setup ++ [neighbours,
  .createConfig (steward "alice") (.obj [("domains", .obj [("supplier", .obj byCity)])]),
  .simulate (steward "alice") (uid 21), .proposeConfig (steward "alice") (uid 21) (uid 23),
  approve (uid 24), .runJob "w1" (uid 26)]

/-- The suppliers are indexed by their city once the job is done. -/
theorem index_complete_reindexed :
    ((operations .plain).run (Store.empty workspace) (reindexed.map .request)).jobs.map
        DurableJob.status = [.complete] ∧
      IndexComplete .plain workspace
        ((operations .plain).run (Store.empty workspace) (reindexed.map .request)) := by
  have hjobs : ((operations .plain).run (Store.empty workspace) (reindexed.map .request)).jobs.map
      DurableJob.status = [.complete] := by
    decide +kernel
  refine ⟨hjobs, index_complete (fun _ => rfl) _ ((operations .plain).along_of_mem fun op hop s => ?_)⟩
  obtain ⟨request, -, rfl⟩ := List.mem_map.mp hop
  trivial

end Supplier

end Recordlane
