import Recordlane.Chronicles
import Recordlane.Snapshots

/-! What stays for good: observations, their metadata, closed memberships and drafted values. -/
namespace Recordlane

variable {rt : Runtime} {w : Workspace} {self : MasteringService} {s t u : Store}
  {request : Request}

/-- What no operation changes of a master version. -/
def MasterVersion.content (m : MasterVersion) : Id × Id × Id × Nat × Dict × Dict :=
  (m.id, m.workspaceId, m.entityId, m.version, m.values, m.provenance)

/-- The version is the same, up to the approval of a draft. -/
def MasterVersion.Continues (m m' : MasterVersion) : Prop :=
  m'.content = m.content ∧ (m'.status = m.status ∨ m.status = .draft ∧ m'.status = .approved)

theorem MasterVersion.continues_refl (m : MasterVersion) : m.Continues m := ⟨rfl, .inl rfl⟩

theorem MasterVersion.Continues.trans {m m' m'' : MasterVersion} (h : m.Continues m')
    (h' : m'.Continues m'') : m.Continues m'' := by
  refine ⟨h'.1.trans h.1, ?_⟩
  rcases h.2 with hs | ⟨hd, ha⟩ <;> rcases h'.2 with hs' | ⟨hd', ha'⟩
  · exact .inl (hs'.trans hs)
  · exact .inr ⟨hs ▸ hd', ha'⟩
  · exact .inr ⟨hd, hs'.trans ha⟩
  · exact .inr ⟨hd, ha'⟩

/-- Every master version of the first store continues in the second one. -/
def KeepsMasters (s t : Store) : Prop := ∀ m ∈ s.masters, ∃ m' ∈ t.masters, m.Continues m'

theorem keepsMasters_of_append {new : List MasterVersion} (h : t.masters = s.masters ++ new) :
    KeepsMasters s t :=
  fun m hm => ⟨m, h ▸ List.mem_append_left _ hm, m.continues_refl⟩

theorem keepsMasters_of_eq (h : t.masters = s.masters) : KeepsMasters s t := by
  have hnil : t.masters = s.masters ++ [] := by rw [h, List.append_nil]
  exact keepsMasters_of_append hnil

theorem approveMaster_keepsMasters {task : ReviewTask} {entity : Option Entity} {version : Nat}
    {reason : String} (h : self.approveMaster s task entity version reason = .ok t) :
    KeepsMasters s t := by
  unfold MasteringService.approveMaster at h
  split at h
  · cases h
  · cases h
  · next draft _ _ =>
    cases h
    intro m hm
    by_cases hid : m.id = draft.id
    · refine ⟨_, Table.mem_modify.mpr (.inr ⟨m, hm, hid, rfl⟩), rfl, ?_⟩
      cases m.status with
      | draft => exact .inr ⟨rfl, rfl⟩
      | approved => exact .inl rfl
    · exact ⟨m, Table.mem_modify.mpr (.inl ⟨hm, hid⟩), m.continues_refl⟩

theorem Move.keepsMasters {p q : Point} (h : Move self p q) : KeepsMasters p.store q.store := by
  cases h with
  | shift hs => exact keepsMasters_of_eq hs.masters
  | ask => exact keepsMasters_of_eq rfl
  | settle => exact keepsMasters_of_eq rfl
  | bump => exact keepsMasters_of_eq rfl
  | create => exact keepsMasters_of_eq rfl
  | draft _ hd =>
    obtain ⟨e, -, hdrafted⟩ := MasteringService.draftMaster_drafted hd
    exact keepsMasters_of_append hdrafted.masters
  | merge => exact keepsMasters_of_eq rfl
  | announce => exact keepsMasters_of_eq rfl
  | approve _ _ _ _ _ _ ha =>
    have hkept := approveMaster_keepsMasters ha
    exact hkept

theorem Moves.keepsMasters {p q : Point} (h : Moves self p q) : KeepsMasters p.store q.store := by
  induction h with
  | refl => exact keepsMasters_of_eq rfl
  | tail _ hlast ih =>
    intro m hm
    obtain ⟨m', hm', hc⟩ := ih m hm
    obtain ⟨m'', hm'', hc'⟩ := hlast.keepsMasters m' hm'
    exact ⟨m'', hm'', hc.trans hc'⟩

theorem next_keepsMasters (hi : Integrity rt w s) (request : Request) :
    KeepsMasters s ((service rt).next s request) := by
  rcases next_moves hi request with hm | ⟨-, hm⟩
  · exact hm.keepsMasters
  · exact hm.keepsMasters

/-! The metadata of observations. -/

theorem Opens.metas {source : Source} {domainKey localId : String} {o : SourceObject}
    (h : Opens self s source domainKey localId t o) : s.metas <+: t.metas :=
  prefix_of_eq h.tables.2.2.1.symm

theorem Page.metas {req : IngestRequest} (p : Page self s req)
    (h : Integrity self.rt self.workspace s) : s.metas <+: p.finished.metas := by
  refine (p.invariant (P := fun t => s.metas <+: t.metas) h List.prefix_rfl
    (fun _ _ hq hs => hq.metas ▸ hs) fun u u' item v _ hi hs ho => ?_).2
  refine MasteringService.observe_invariant (P := fun t => s.metas <+: t.metas) hi hs
    (fun _ _ hopen => hs.trans hopen.metas) ?_ ho
  intro t o d _ ht _ hround
  rw [hround.metas]
  exact ht.trans (List.prefix_append ..)

theorem DecisionEffect.metas {task : ReviewTask} {d : Decision} (h : DecisionEffect self s task d t) :
    t.metas = s.metas := by
  cases h with
  | quiet _ hq => exact hq.metas
  | approveMaster _ ha => exact ha.kept.metas
  | merge _ _ _ _ _ hf => exact hf.metas
  | split _ _ _ _ _ _ _ _ hf => exact hf.metas
  | link _ _ _ _ _ hf => exact hf.metas
  | keepApart _ _ _ hf => exact hf.metas

theorem RequestEffect.metas (he : RequestEffect rt w s request t) (h : Integrity rt w s) :
    s.metas <+: t.metas := by
  cases he with
  | quiet hq => exact prefix_of_eq hq.metas.symm
  | page _ p => exact p.metas h
  | decision _ hd => exact prefix_of_eq hd.metas.symm
  | job hj =>
    exact MasteringService.runJob_invariant (P := fun t => s.metas <+: t.metas) List.prefix_rfl
      (fun _ _ hq hs => hq.metas ▸ hs) (fun _ _ _ _ hs => hs) (fun _ _ hs => hs) hj

/-- Evidence is only ever added: an observation keeps what was observed, its metadata and every closed
membership stay as they are, and a master version keeps its content. -/
structure AppendOnly (s t : Store) : Prop where
  records : ∀ r ∈ s.records, ∃ r' ∈ t.records, r'.id = r.id ∧ r'.workspaceId = r.workspaceId ∧
    r'.sourceId = r.sourceId ∧ r'.domainKey = r.domainKey ∧ r'.localId = r.localId ∧
    r'.sourceVersion = r.sourceVersion ∧ r'.original = r.original ∧
    r'.verification = r.verification ∧ r'.state = r.state ∧ r'.qualityErrors = r.qualityErrors ∧
    r'.effectiveFrom = r.effectiveFrom
  metas : ∀ m ∈ s.metas, m ∈ t.metas
  memberships : KeepsClosed s t
  masters : KeepsMasters s t

/-- No request changes evidence. -/
theorem evidence_kept (h : Reachable rt w s) (request : Request) :
    AppendOnly s ((service rt).next s request) := by
  have hi := integrity_reachable h
  have he := next_effect hi request
  refine ⟨fun r hr => ?_, fun m hm => (he.metas hi).subset hm,
    (chronicled_step hi (chronicled_reachable h) request).2, next_keepsMasters hi request⟩
  obtain ⟨r', hr', hcore⟩ := List.mem_map.mp ((he.grows hi).records.subset (List.mem_map_of_mem hr))
  simp only [SourceRecord.core, SourceRecord.mk.injEq] at hcore
  obtain ⟨hid, hw, hsource, hdomain, hlocal, hversion, horiginal, -, -, hverification, hstate, herrors,
    -, heffective, -⟩ := hcore
  exact ⟨r', hr', hid, hw, hsource, hdomain, hlocal, hversion, horiginal, hverification, hstate, herrors,
    heffective⟩

namespace Supplier

/-- A split moves one of two records to an entity of its own: nothing of the evidence changes. -/
theorem evidence_kept_split :
    AppendOnly (after (splitTwins.take 2)) ((service .plain).next (after (splitTwins.take 2))
      (approve (uid 20))) :=
  evidence_kept ⟨setup ++ splitTwins.take 2, rfl⟩ _

end Supplier

/-! The current projection of an object and its history. -/

/-- What is current agrees with the observations and with the history of memberships. -/
structure AgreesWithHistory (w : Workspace) (s : Store) (o : SourceObject) : Prop where
  current : ∀ id ∈ o.currentRecordId, ∃ r ∈ s.records, r.id = id ∧ r.workspaceId = w.id ∧
    r.sourceId = o.sourceId ∧ r.domainKey = o.domainKey ∧ r.localId = o.localId ∧ r.state = .valid
  retired : o.retired → o.currentRecordId = none
  membership : (s.openRows o.id).map MembershipHistory.entityId = o.entityId.toList

/-- In every reachable state every object agrees with its history. -/
theorem projection_agrees (h : Reachable rt w s) : ∀ o ∈ s.objects, AgreesWithHistory w s o := by
  have hi := integrity_reachable h
  have hc := chronicled_reachable h
  intro o ho
  refine ⟨fun id hid => ?_, fun hretired => ?_, hc.opened o ho⟩
  · obtain ⟨-, r, hr, hrid, hvalid, hkey⟩ := hi.currentRecord o ho id hid
    simp only [SourceRecord.objectKey, SourceObject.key, Prod.mk.injEq] at hkey
    obtain ⟨hsource, hdomain, hlocal⟩ := hkey
    exact ⟨r, hr, hrid, (hi.records r hr).1, hsource, hdomain, hlocal, hvalid⟩
  · cases hcurrent : o.currentRecordId with
    | none => rfl
    | some id =>
      have hactive := (hi.currentRecord o ho id hcurrent).1
      rw [hretired] at hactive
      cases hactive

namespace Supplier

/-- After a split, an object with a record agrees with its history. -/
theorem projection_agrees_split : ∃ o ∈ (after splitTwins).objects, o.currentRecordId.isSome ∧
    AgreesWithHistory workspace (after splitTwins) o := by
  have hcurrent : ∃ o ∈ (after splitTwins).objects, o.currentRecordId.isSome := by decide +kernel
  obtain ⟨o, ho, hsome⟩ := hcurrent
  exact ⟨o, ho, hsome, projection_agrees ⟨setup ++ splitTwins, rfl⟩ o ho⟩

end Supplier

end Recordlane
