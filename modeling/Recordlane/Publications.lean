import Recordlane.Numbering

/-! The outbox tells of every approval, once, in the order of the versions of an entity. -/
namespace Recordlane

variable {rt : Runtime} {w : Workspace} {self : MasteringService} {s t : Store}

/-- The event publishes an approved master. -/
def OutboxEvent.publishes (e : OutboxEvent) : Bool := e.eventType = "master.approved"

/-- What an event says of a master: entity and version of its row and of its payload, and values. -/
def OutboxEvent.publication (e : OutboxEvent) : (Option Id × Option Nat) × Json × Json × Json :=
  ((e.entityId, e.entityVersion),
    e.payload.get "entity_id", e.payload.get "entity_version", e.payload.get "values")

/-- What the event of a master has to say. -/
def MasterVersion.publication (m : MasterVersion) : (Option Id × Option Nat) × Json × Json × Json :=
  ((some m.entityId, some m.version), .str m.entityId, .int m.version, .obj m.values)

/-- The events that publish masters, in the order of their commits. -/
def Store.publications (s : Store) : List OutboxEvent := s.outbox.filter OutboxEvent.publishes

def Store.approvedMasters (s : Store) : List MasterVersion :=
  s.masters.filter fun m => m.status = .approved

/-- Events and approved masters tell the same, and a later event of an entity a later version. -/
structure Published (s : Store) : Prop where
  agree : (s.publications.map OutboxEvent.publication).Perm
    (s.approvedMasters.map MasterVersion.publication)
  ordered : s.publications.Pairwise fun e e' =>
    e.entityId = e'.entityId → e.entityVersion < e'.entityVersion

theorem published_empty : Published (Store.empty w) :=
  ⟨.refl _, List.Pairwise.nil⟩

namespace Published

theorem of_filters (h : Published s) (hevents : t.publications = s.publications)
    (hmasters : t.approvedMasters = s.approvedMasters) : Published t :=
  ⟨by rw [hevents, hmasters]; exact h.agree, by rw [hevents]; exact h.ordered⟩

theorem of_tables (h : Published s) (hmasters : t.masters = s.masters)
    (houtbox : t.outbox = s.outbox) : Published t :=
  h.of_filters (by rw [Store.publications, houtbox]; rfl)
    (by rw [Store.approvedMasters, hmasters]; rfl)

theorem of_event (h : Published s) {e : OutboxEvent} (he : e ∈ s.publications) :
    ∃ m ∈ s.masters, m.status = .approved ∧ e.entityId = some m.entityId ∧
      e.entityVersion = some m.version := by
  have hmem : e.publication ∈ s.approvedMasters.map MasterVersion.publication :=
    h.agree.mem_iff.mp (List.mem_map_of_mem he)
  obtain ⟨m, hm, heq⟩ := List.mem_map.mp hmem
  obtain ⟨hm, hstatus⟩ := List.mem_filter.mp hm
  simp only [MasterVersion.publication, OutboxEvent.publication, Prod.mk.injEq] at heq
  exact ⟨m, hm, of_decide_eq_true hstatus, heq.1.1.symm, heq.1.2.symm⟩

/-- An approval publishes the newest version, which no event told of before. -/
theorem approve {task : ReviewTask} {e : Entity} {version : Nat} {values provenance : Dict}
    {reason : String} {draft : MasterVersion} {event : OutboxEvent} (h : Published s)
    (hn : Numbered rt w s.settled) (ht : task ∈ s.tasks) (ho : task.isOpenApproval)
    (hp : task.payload = .masterApproval version values provenance)
    (hid : task.entityId = some e.id)
    (ha : Approved self s task e version reason t draft event) : Published t := by
  obtain ⟨hdraft, howner, hversion, hstatus⟩ := ha.drafted
  have hnewest : version = (s.mastersOf e.id).length := by
    obtain ⟨-, e', -, hid', -, _, _, hpayload⟩ := hn.approvals task ht ho
    rw [Option.some.inj (hid.symm.trans hid')]
    rw [hp] at hpayload
    exact (TaskPayload.masterApproval.inj hpayload).1
  have howner : draft.entityId = e.id := Option.some.inj (howner.trans hid)
  have hearlier : ∀ m ∈ s.masters, m.status = .approved → m.entityId = e.id →
      m.version < version := by
    intro m hm happroved hentity
    have hmem : m ∈ s.mastersOf e.id := List.mem_filter.mpr ⟨hm, by simpa using hentity⟩
    have hdraft' : draft ∈ s.mastersOf e.id := List.mem_filter.mpr ⟨hdraft, by simpa using howner⟩
    have hrange : m.version ∈ List.range' 1 (s.mastersOf e.id).length := by
      have hversions : (s.mastersOf e.id).map MasterVersion.version =
          List.range' 1 (s.mastersOf e.id).length := hn.versions e.id
      exact hversions ▸ List.mem_map_of_mem hmem
    have hle : m.version ≤ version := by
      rw [List.mem_range'_1] at hrange
      omega
    refine lt_of_le_of_ne hle fun heq => ?_
    have hnodup : ((s.mastersOf e.id).map MasterVersion.version).Nodup := by
      have hversions : (s.mastersOf e.id).map MasterVersion.version =
          List.range' 1 (s.mastersOf e.id).length := hn.versions e.id
      exact hversions ▸ List.nodup_range'
    have hsame := List.inj_on_of_nodup_map hnodup hmem hdraft' (heq.trans hversion.symm)
    rw [hsame, hstatus] at happroved
    cases happroved
  have hevent : event.publishes = true := by rw [ha.published]; rfl
  have hpublications : t.publications = s.publications ++ [event] := by
    rw [Store.publications, ha.outbox, List.filter_append, List.filter_cons_of_pos hevent]
    rfl
  refine ⟨?_, ?_⟩
  · have hsays : event.publication = (approveDraft self reason draft).publication := by
      rw [ha.published, ← howner]
      rfl
    have happroved : (t.approvedMasters).Perm (approveDraft self reason draft :: s.approvedMasters) := by
      rw [Store.approvedMasters, ha.masters]
      exact hn.masterIds.filter_modify hdraft (by simp [hstatus]) (by simp [approveDraft])
    rw [hpublications, List.map_append, List.map_singleton, hsays]
    refine (List.perm_append_singleton _ _).trans ?_
    exact (h.agree.cons _).trans (happroved.map MasterVersion.publication).symm
  · rw [hpublications, List.pairwise_append]
    refine ⟨h.ordered, List.pairwise_singleton _ _, ?_⟩
    intro e₁ he₁ e₂ he₂ hsame
    obtain ⟨m, hm, hm', hentity, hv⟩ := h.of_event he₁
    rw [List.mem_singleton.mp he₂, ha.published] at hsame ⊢
    rw [hv, hversion]
    rw [hentity] at hsame
    exact Option.some_lt_some.mpr (hearlier m hm hm' (Option.some.inj hsame))

end Published

theorem Move.published {p q : Point} (hm : Move self p q)
    (hn : Numbered self.rt self.workspace p) (h : Published p.store) : Published q.store := by
  cases hm with
  | shift hs => exact h.of_tables hs.masters hs.outbox
  | ask _ => exact h.of_tables rfl rfl
  | settle _ => exact h.of_tables rfl rfl
  | bump => exact h.of_tables rfl rfl
  | create _ _ => exact h.of_tables rfl rfl
  | draft _ hd =>
    obtain ⟨e, -, hdrafted⟩ := MasteringService.draftMaster_drafted hd
    refine h.of_filters ?_ ?_
    · rw [Store.publications, hdrafted.outbox]
      rfl
    · rw [Store.approvedMasters, hdrafted.masters, filter_append_of_not (by simp [hdrafted.status])]
      rfl
  | merge => exact h.of_tables rfl rfl
  | @announce s e owed V ha =>
    refine h.of_filters ?_ rfl
    have hother : e.publishes = false := by cases ha <;> rfl
    exact filter_append_of_not hother
  | @approve s t task e version values provenance reason f V ht hp ho _ hid _ ha _ =>
    obtain ⟨draft, event, happroved⟩ := MasteringService.approveMaster_approved ha
    have hopen : task.isOpenApproval = true := by
      simp [ReviewTask.isOpenApproval, ReviewTask.kind, hp, TaskPayload.kind, ho]
    exact (h.approve (hn.of_tables rfl rfl rfl le_rfl) ht hopen hp hid happroved).of_tables rfl rfl

theorem published_run (rt : Runtime) (w : Workspace) (requests : List Request) :
    Published ((service rt).run (Store.empty w) requests) := by
  have hboth : Numbered rt w ((service rt).run (Store.empty w) requests).settled ∧ Published
      ((service rt).run (Store.empty w) requests) := commit_invariant
    (P := fun p => Numbered rt w p ∧ Published p.store) integrity_empty
    ⟨numbered_empty, published_empty⟩
    (fun _ _ _ hm h => ⟨hm.numbered h.1, hm.published h.1 h.2⟩)
    (fun _ _ h => ⟨h.1.of_tables rfl rfl rfl le_rfl, h.2⟩) requests
  exact hboth.2

theorem Numbered.publications_nodup (h : Numbered rt w s.settled) :
    (s.approvedMasters.map MasterVersion.publication).Nodup := by
  have hmasters : s.masters.Nodup := List.Nodup.of_map _ h.masterIds
  refine List.Nodup.map_on ?_ (hmasters.filter _)
  intro m hm m' hm' heq
  simp only [MasterVersion.publication, Prod.mk.injEq, Option.some.injEq] at heq
  obtain ⟨⟨hentity, hversion⟩, -⟩ := heq
  have hversions : (s.mastersOf m.entityId).map MasterVersion.version =
      List.range' 1 (s.mastersOf m.entityId).length := h.versions m.entityId
  have hnodup : ((s.mastersOf m.entityId).map MasterVersion.version).Nodup :=
    hversions ▸ List.nodup_range'
  refine List.inj_on_of_nodup_map hnodup ?_ ?_ hversion
  · exact List.mem_filter.mpr ⟨List.mem_of_mem_filter hm, by simp⟩
  · exact List.mem_filter.mpr ⟨List.mem_of_mem_filter hm', by simp [hentity]⟩

theorem Move.outbox_prefix {p q : Point} (hm : Move self p q) : p.store.outbox <+: q.store.outbox := by
  cases hm with
  | shift hs => exact hs.outbox ▸ List.prefix_rfl
  | ask _ => exact List.prefix_rfl
  | settle _ => exact List.prefix_rfl
  | bump => exact List.prefix_rfl
  | create _ _ => exact List.prefix_rfl
  | draft _ hd =>
    obtain ⟨e, -, hdrafted⟩ := MasteringService.draftMaster_drafted hd
    exact hdrafted.outbox ▸ List.prefix_rfl
  | merge => exact List.prefix_rfl
  | announce _ => exact List.prefix_append _ _
  | approve _ _ _ _ _ _ ha _ =>
    obtain ⟨draft, event, happroved⟩ := MasteringService.approveMaster_approved ha
    exact happroved.outbox ▸ List.prefix_append _ _

theorem next_outbox_prefix (h : Integrity rt w s) (request : Request) :
    s.outbox <+: ((service rt).next s request).outbox := by
  have hmoves : ∀ {who p q}, Moves ⟨rt, who, w⟩ p q → p.store.outbox <+: q.store.outbox := by
    intro who p q hm
    induction hm with
    | refl => exact List.prefix_rfl
    | tail _ hlast ih => exact ih.trans hlast.outbox_prefix
  rcases next_moves h request with hm | ⟨-, hm⟩
  · exact hmoves hm
  · exact hmoves hm

/-- The events that publish masters and the approved masters tell the same, each one once. Events are
only appended, and those of an entity in the order of its versions. -/
theorem publications_approvals (rt : Runtime) (w : Workspace) (requests : List Request)
    (request : Request) :
    let s := (service rt).run (Store.empty w) requests
    (s.publications.map OutboxEvent.publication).Perm
        (s.approvedMasters.map MasterVersion.publication) ∧
      (s.approvedMasters.map MasterVersion.publication).Nodup ∧
      s.outbox <+: ((service rt).next s request).outbox ∧
      s.publications.Pairwise fun e e' =>
        e.entityId = e'.entityId → e.entityVersion < e'.entityVersion := by
  intro s
  have hpublished := published_run rt w requests
  exact ⟨hpublished.agree, (numbered_run rt w requests).publications_nodup,
    next_outbox_prefix (integrity_run integrity_empty) request, hpublished.ordered⟩

end Recordlane
