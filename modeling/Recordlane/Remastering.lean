import Recordlane.Numbering
import Recordlane.Registry

/-! What a remaster job does: every live entity of its domain gets a draft of its surviving values. -/
namespace Recordlane

variable {rt : Runtime} {w : Workspace} {self : MasteringService} {s s' t : Store} {x : Id}
  {values : Dict} {key : String}

/-- The entity is live and belongs to the domain. -/
def LiveIn (svc : MasteringService) (s : Store) (key : String) (x : Id) : Prop :=
  ∃ e ∈ s.entities, e.id = x ∧ e.workspaceId = svc.wid ∧ e.domainKey = key ∧ e.status ≠ .merged

/-- The newest master version of the entity has the values. -/
def NewestValues (s : Store) (x : Id) (values : Dict) : Prop :=
  ∃ m ∈ s.masters, m.entityId = x ∧ m.values = values ∧
    ∀ m' ∈ s.masters, m'.entityId = x → m' = m ∨ m'.version < m.version

/-- The newest master version of the entity has the values that survive now. -/
def Mastered (svc : MasteringService) (s : Store) (x : Id) : Prop :=
  ∃ e ∈ s.entities, e.id = x ∧ ∃ values, svc.survivors s e = .ok values ∧ NewestValues s x values

/-- The part of an entity that a job leaves alone. -/
def Entity.place (e : Entity) : Id × Id × String × EntityStatus :=
  (e.id, e.workspaceId, e.domainKey, e.status)

theorem liveIn_of_places (h : t.entities.map Entity.place = s.entities.map Entity.place) :
    LiveIn self t key x ↔ LiveIn self s key x := by
  have hplaces : ∀ u : Store, LiveIn self u key x ↔
      ∃ p ∈ u.entities.map Entity.place, p.1 = x ∧ p.2.1 = self.wid ∧ p.2.2.1 = key ∧ p.2.2.2 ≠ .merged := by
    intro u
    constructor
    · rintro ⟨e, he, hlive⟩
      exact ⟨e.place, List.mem_map_of_mem he, hlive⟩
    · rintro ⟨p, hp, hlive⟩
      obtain ⟨e, he, rfl⟩ := List.mem_map.mp hp
      exact ⟨e, he, hlive⟩
  rw [hplaces, hplaces, h]

theorem bump_place (e : Entity) : (bump x e).place = e.place := by
  unfold bump onRow
  split <;> rfl

theorem survivors_place {e e' : Entity} (h : e.place = e'.place) :
    self.survivors s e = self.survivors s e' := by
  simp only [Entity.place, Prod.mk.injEq] at h
  unfold MasteringService.survivors
  rw [h.1, h.2.2.1]

theorem le_foldl_max {n m : Nat} {ns : List Nat} (h : n ≤ m ∨ n ∈ ns) : n ≤ ns.foldl max m := by
  induction ns generalizing m with
  | nil => simpa using h
  | cons k ns ih =>
    apply ih
    rcases h with h | h
    · exact .inl (h.trans (Nat.le_max_left m k))
    · rcases List.mem_cons.mp h with rfl | h
      · exact .inl (Nat.le_max_right m n)
      · exact .inr h

theorem version_le_latest {m : MasterVersion} (hm : m ∈ s.masters) (he : m.entityId = x) :
    m.version ≤ MasteringService.latestMaster s x := by
  refine le_foldl_max (.inr (List.mem_map_of_mem ?_))
  exact List.mem_filter.mpr ⟨hm, by simpa using he⟩

theorem Drafted.newest {e : Entity} {m : MasterVersion} (h : Drafted self s e t m) :
    NewestValues t e.id m.values := by
  refine ⟨m, ?_, h.owner, rfl, fun m' hm' he => ?_⟩
  · rw [h.masters]
    exact List.mem_append_right _ (List.mem_singleton_self m)
  · rw [h.masters] at hm'
    rcases List.mem_append.mp hm' with hm' | hm'
    · have hle := version_le_latest hm' he
      rw [h.version]
      omega
    · exact .inl (List.mem_singleton.mp hm')

theorem Drafted.newest_of_ne {e : Entity} {m : MasterVersion} (h : Drafted self s e t m)
    (hx : x ≠ e.id) (hn : NewestValues s x values) : NewestValues t x values := by
  obtain ⟨n, hmem, hentity, hvalues, hnewest⟩ := hn
  refine ⟨n, ?_, hentity, hvalues, fun m' hm' he => ?_⟩
  · rw [h.masters]
    exact List.mem_append_left _ hmem
  · rw [h.masters] at hm'
    rcases List.mem_append.mp hm' with hm' | hm'
    · exact hnewest m' hm' he
    · rw [List.mem_singleton.mp hm', h.owner] at he
      exact (hx he.symm).elim

/-- What a job keeps: the places of the entities, the contributions and what is mastered. -/
structure Remasters (svc : MasteringService) (s t : Store) : Prop where
  around : Around svc.rt s t
  places : t.entities.map Entity.place = s.entities.map Entity.place
  contributions : ∀ x, svc.SameContributions s t x
  mastered : ∀ x, Mastered svc s x → Mastered svc t x

namespace Remasters

theorem refl (s : Store) : Remasters self s s := ⟨.refl s, rfl, fun _ => rfl, fun _ h => h⟩

theorem trans {u : Store} (h : Remasters self s t) (h' : Remasters self t u) : Remasters self s u where
  around := h.around.trans h'.around
  places := h'.places.trans h.places
  contributions x := (h'.contributions x).trans (h.contributions x)
  mastered x hx := h'.mastered x (h.mastered x hx)

theorem of_records {g : SourceRecord → SourceRecord} (ha : Around self.rt s t)
    (hentities : t.entities = s.entities) (hmasters : t.masters = s.masters)
    (hobjects : t.objects = s.objects) (hrecords : t.records = s.records.map g)
    (hg : ∀ r, (g r).core = r.core) : Remasters self s t := by
  have hsame : ∀ x, self.SameContributions s t x := fun x =>
    sameContributions id g [] [] (by simpa using hobjects) (by simpa using hrecords) (fun _ _ _ => rfl)
      (fun r _ => hg r) (by simp) (by simp)
  refine ⟨ha, by rw [hentities], hsame, ?_⟩
  rintro x ⟨e, he, rfl, values, hvalues, hnewest⟩
  refine ⟨e, hentities ▸ he, rfl, values, ?_, ?_⟩
  · exact MasteringService.survivors_agree (MasteringService.domainsKept_of_eq ha.domains)
      (ranksKept_of_map (by rw [ha.sources])) (hsame e.id) hvalues
  · unfold NewestValues
    rw [hmasters]
    exact hnewest

end Remasters

namespace MasteringService

theorem reindex_remasters {policy : CompiledPolicy} {o : SourceObject}
    (h : self.reindex policy key s o = .ok s') : Remasters self s s' := by
  have ha := reindex_around h
  unfold reindex at h
  split at h
  · cases h
    exact .refl s
  · simp only [Except.bind_eq_ok, Except.pure_eq_ok] at h
    obtain ⟨normalized, -, keys, -, rfl⟩ := h
    refine .of_records ha rfl rfl rfl rfl fun r => ?_
    dsimp only
    split <;> rfl

theorem redraft_remasters (h : self.redraft s x = .ok s') : Remasters self s s' ∧ Mastered self s' x := by
  have ha := redraft_around h
  unfold redraft at h
  simp only [Except.bind_eq_ok, Except.pure_eq_ok, Prod.exists] at h
  obtain ⟨t, m, hdraft, rfl⟩ := h
  obtain ⟨e, rfl, hd⟩ := draftMaster_drafted hdraft
  have hentities : t.entities = s.entities.map (bump e.id) := hd.entities
  have hobjects : t.objects = s.objects := hd.objects
  have hrecords : t.records = s.records := hd.records
  have hmastered : Mastered self t e.id := by
    refine ⟨e, hd.entities ▸ hd.entity, rfl, m.values, ?_, hd.newest⟩
    rw [survivors_of_tables hd.domains hd.sources hd.objects hd.records]
    exact hd.values
  refine ⟨⟨ha, ?_, fun x => ?_, ?_⟩, hmastered⟩
  · rw [hentities, List.map_map]
    exact List.map_congr_left fun e' _ => bump_place e'
  · exact sameContributions id id [] [] (by simpa using hobjects) (by simpa using hrecords)
      (fun _ _ _ => rfl) (fun _ _ => rfl) (by simp) (by simp)
  · rintro y ⟨e', he', rfl, values, hvalues, hnewest⟩
    by_cases hy : e'.id = e.id
    · rw [hy]
      exact hmastered
    · refine ⟨bump e.id e', ?_, congrArg Prod.fst (bump_place e'), values, ?_, hd.newest_of_ne hy hnewest⟩
      · rw [hentities]
        exact List.mem_map_of_mem he'
      · rw [survivors_place (bump_place e'),
          survivors_of_tables hd.domains hd.sources hd.objects hd.records]
        exact hvalues

theorem redraftAll_remasters {ids : List Id} (h : ids.foldlM self.redraft s = .ok s') :
    Remasters self s s' ∧ ∀ x ∈ ids, Mastered self s' x := by
  induction ids generalizing s with
  | nil =>
    rw [List.foldlM_nil, Except.pure_eq_ok] at h
    exact ⟨h ▸ .refl s, by simp⟩
  | cons id ids ih =>
    rw [List.foldlM_cons, Except.bind_eq_ok] at h
    obtain ⟨t, ht, h⟩ := h
    obtain ⟨hfirst, hmastered⟩ := redraft_remasters ht
    obtain ⟨hrest, hall⟩ := ih h
    refine ⟨hfirst.trans hrest, ?_⟩
    intro x hx
    rcases List.mem_cons.mp hx with rfl | hx
    · exact hrest.mastered x hmastered
    · exact hall x hx

/-- A job keeps what is mastered, and masters every live entity of its domain. -/
theorem remasterDomain_remasters {job : DurableJob} (h : self.remasterDomain s job = .ok s') :
    Remasters self s s' ∧
      ∀ x, LiveIn self s (self.rt.strOf (job.payload.get "domain_key")) x → Mastered self s' x := by
  unfold remasterDomain at h
  dsimp only at h
  split at h
  · cases h
  · rw [Except.bind_eq_ok] at h
    obtain ⟨policy, -, h⟩ := h
    split at h
    · cases h
    · simp only [Except.bind_eq_ok, Except.pure_eq_ok] at h
      obtain ⟨t, hobjects, u, hentities, rfl⟩ := h
      have ht : Remasters self s t := by
        refine Except.foldlM_invariant (P := fun t => Remasters self s t) hobjects ?_
          fun _ _ _ _ hr hstep => hr.trans (reindex_remasters hstep)
        exact .of_records ⟨rfl, rfl, rfl, rfl, rfl, .refl, le_rfl⟩ rfl rfl rfl (List.map_id _).symm
            fun _ => rfl
      obtain ⟨hu, hmastered⟩ := redraftAll_remasters hentities
      have haudit : ∀ action objectType objectId detail,
          Remasters self u (self.audit u action objectType objectId detail) := fun _ _ _ _ =>
        .of_records (.frame (self.audit_frame ..)) rfl rfl rfl (List.map_id _).symm fun _ => rfl
      refine ⟨(ht.trans hu).trans (haudit ..), fun x hx => (haudit ..).mastered x (hmastered x ?_)⟩
      obtain ⟨e, he, rfl, hwid, hkey, hlive⟩ := (liveIn_of_places ht.places).mpr hx
      refine List.mem_map_of_mem ((List.mem_insertionSort _).mpr (List.mem_filter.mpr ⟨he, ?_⟩))
      simp [hwid, hkey, hlive]

end MasteringService

/-- What a worker leaves alone, whichever jobs it runs. -/
structure Worked (svc : MasteringService) (s t : Store) : Prop where
  domains : t.domains = s.domains
  sources : t.sources = s.sources
  places : t.entities.map Entity.place = s.entities.map Entity.place
  contributions : ∀ x, svc.SameContributions s t x
  jobs : t.jobs.map (fun j => (j.id, j.payload)) = s.jobs.map fun j => (j.id, j.payload)

theorem Worked.refl (s : Store) : Worked self s s := ⟨rfl, rfl, rfl, fun _ => rfl, rfl⟩

theorem Worked.trans {u : Store} (h : Worked self s t) (h' : Worked self t u) : Worked self s u where
  domains := h'.domains.trans h.domains
  sources := h'.sources.trans h.sources
  places := h'.places.trans h.places
  contributions x := (h'.contributions x).trans (h.contributions x)
  jobs := h'.jobs.trans h.jobs

/-- The domain that a job remasters. -/
def DurableJob.domainKey (rt : Runtime) (job : DurableJob) : String :=
  rt.strOf (job.payload.get "domain_key")

/-- The complete jobs, the old ones apart, have mastered the live entities of their domains. -/
def Done (svc : MasteringService) (old : List Id) (s : Store) : Prop :=
  ∀ job ∈ s.jobs, job.id ∉ old → job.status = .complete →
    ∀ x, LiveIn svc s (job.domainKey svc.rt) x → Mastered svc s x

theorem runJob_worked (old : List Id) {jobId : Id} (hk : Table.Keyed DurableJob.id s.jobs)
    (h : self.runJob s jobId = .ok s') : Worked self s s' ∧ (Done self old s → Done self old s') := by
  unfold MasteringService.runJob at h
  split at h
  · cases h
  · next job hjob =>
    simp only [Except.bind_eq_ok, Except.pure_eq_ok] at h
    obtain ⟨t, hremaster, rfl⟩ := h
    obtain ⟨hr, hmasters⟩ := MasteringService.remasterDomain_remasters hremaster
    have hmem := List.mem_of_find?_eq_some hjob
    refine ⟨⟨hr.around.domains, hr.around.sources, hr.places, hr.contributions, ?_⟩, ?_⟩
    · dsimp only
      rw [hr.around.jobs, Table.modify, List.map_map]
      refine List.map_congr_left fun j _ => ?_
      rw [Function.comp_apply]
      split <;> rfl
    · intro hdone j hj hnew hcomplete x hx
      have hlive : LiveIn self s (j.domainKey self.rt) x := (liveIn_of_places hr.places).mp hx
      dsimp only at hj
      rw [hr.around.jobs] at hj
      rcases Table.mem_modify.mp hj with ⟨hj, -⟩ | ⟨j', hj', hid, rfl⟩
      · exact hr.mastered x (hdone j hj hnew hcomplete x hlive)
      · obtain rfl := hk.eq_of_mem hj' hmem hid
        exact hmasters x hlive

theorem worker_run {old : List Id} (ids : List Id) (hi : Integrity rt w s) (hr : Registered rt s)
    (hdone : Done ⟨rt, workerPrincipal w.id, w⟩ old s) :
    Worked ⟨rt, workerPrincipal w.id, w⟩ s ((service rt).run s (ids.map (.runJob w.id))) ∧
      Done ⟨rt, workerPrincipal w.id, w⟩ old ((service rt).run s (ids.map (.runJob w.id))) := by
  let self : MasteringService := ⟨rt, workerPrincipal w.id, w⟩
  have hworker : (service rt).Along (fun _ request => ∃ id, request = .runJob w.id id) s
      (ids.map (.runJob w.id)) := by
    refine (service rt).along_of_mem fun request hrequest _ => ?_
    obtain ⟨id, -, rfl⟩ := List.mem_map.mp hrequest
    exact ⟨id, rfl⟩
  refine ((service rt).run_invariant (P := fun t => Integrity rt w t ∧ Registered rt t ∧
    Worked self s t ∧ Done self old t) ⟨hi, hr, .refl s, hdone⟩ hworker ?_).2.2
  rintro t _ ⟨hi, hr, hworked, hdone⟩ ⟨id, rfl⟩
  refine ⟨integrity_step hi _, hr.step (next_registers hi _), ?_⟩
  cases ht : transact rt t (.runJob w.id id) with
  | error e =>
    rw [show (service rt).next t (.runJob w.id id) = t by simp only [System.next, service, ht]]
    exact ⟨hworked, hdone⟩
  | ok committed =>
    obtain ⟨t', answer⟩ := committed
    rw [show (service rt).next t (.runJob w.id id) = t' by simp only [System.next, service, ht]]
    obtain ⟨-, hs⟩ := transact_serve hi.workspaces ht
    simp only [serve, Except.bind_eq_ok, Except.pure_eq_ok, Prod.mk.injEq] at hs
    obtain ⟨_, hs, rfl, -⟩ := hs
    obtain ⟨hstep, hkeeps⟩ := runJob_worked old hr.jobIds hs
    exact ⟨hworked.trans hstep, hkeeps hdone⟩

end Recordlane
