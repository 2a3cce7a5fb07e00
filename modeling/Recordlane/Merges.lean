import Recordlane.Duties

/-! Approved merges: where the members of the listed entities end up, and what else changes. -/
namespace Recordlane

variable {rt : Runtime} {w : Workspace} {self : MasteringService} {s s' t : Store} {x : Id}
  {ids tail : List Id} {first : Id} {task : ReviewTask}

/-- The source objects of an entity, active and retired. -/
def Store.membersOf (s : Store) (x : Id) : List Id :=
  (s.objects.filter fun o => o.entityId = some x).map SourceObject.id

theorem Store.mem_membersOf {id : Id} :
    id ∈ s.membersOf x ↔ ∃ o ∈ s.objects, o.id = id ∧ o.entityId = some x := by
  simp only [Store.membersOf, List.mem_map, List.mem_filter, decide_eq_true_eq]
  constructor
  · rintro ⟨o, ⟨ho, hx⟩, rfl⟩
    exact ⟨o, ho, rfl, hx⟩
  · rintro ⟨o, ho, rfl, hx⟩
    exact ⟨o, ⟨ho, hx⟩, rfl⟩

/-- The first entity is live and has the members of all that are listed, the others are merged and have
none, and no further entity changes. -/
structure ConservesMembers (s t : Store) (ids : List Id) : Prop where
  first : ∀ x ∈ ids.head?, (∃ e ∈ t.entities, e.id = x) ∧ Live t x ∧
    ∀ id, id ∈ t.membersOf x ↔ ∃ y ∈ ids, id ∈ s.membersOf y
  others : ∀ x ∈ ids, some x ≠ ids.head? → Merged t x ∧ t.membersOf x = []
  apart : ∀ x, x ∉ ids → t.membersOf x = s.membersOf x ∧ t.entity? x = s.entity? x

/-- Every other id of the list names another entity than the first one does. -/
def MergesOthers (ids : List Id) : Prop := ∀ x ∈ ids.head?, x ∉ ids.tail

instance : Decidable (MergesOthers ids) :=
  inferInstanceAs (Decidable (∀ x ∈ ids.head?, x ∉ ids.tail))

namespace MasteringService

theorem proposeMerge_task {reason : String} {dryRun : Bool} {impact : MergeImpact} {taskId : Id}
    (h : self.proposeMerge s ids reason dryRun = .ok (s', impact, some taskId)) :
    ids = impact.primaryEntityId :: impact.mergedEntityIds ∧
      (∃ e ∈ s.entities, e.id = impact.primaryEntityId ∧ e.status ≠ .merged) ∧
      ∃ task ∈ s'.tasks, task.id = taskId ∧ task.payload = .mergeApproval impact reason := by
  unfold proposeMerge at h
  dsimp only at h
  split at h
  · cases h
  · split at h
    · cases h
    · split at h
      · cases h
      · split at h
        · cases h
        · next primary hprimary =>
          have hmem := self.rt.mem_scan.mp (List.mem_of_find?_eq_some hprimary)
          have hid := List.find?_some hprimary
          simp only [List.mem_filter, Bool.and_eq_true, decide_eq_true_eq] at hmem hid
          split at h
          · cases h
          · cases h
            exact ⟨rfl, ⟨primary, hmem.1, hid, hmem.2.2⟩, _,
              List.mem_append_right _ (List.mem_singleton_self _), rfl, rfl⟩

end MasteringService

theorem ConservesMembers.of_rows {s₁ t₁ : Store} (h : ConservesMembers s t ids)
    (hs : s₁.objects = s.objects) (hs' : s₁.entities = s.entities) (ht : t₁.objects = t.objects)
    (ht' : t₁.entities = t.entities) : ConservesMembers s₁ t₁ ids := by
  obtain ⟨hfirst, hothers, hapart⟩ := h
  simp only [Live, Merged, Store.membersOf, Store.entity?] at hfirst hothers hapart
  constructor <;> simp only [Live, Merged, Store.membersOf, Store.entity?, hs, hs', ht, ht'] <;> assumption

theorem gather_entityId_eq {o : SourceObject} {y : Id} : (gather tail first o).entityId = some y ↔
    (y = first ∧ ∃ x ∈ tail, o.entityId = some x) ∨ y ∉ tail ∧ o.entityId = some y := by
  by_cases hmoved : ∃ x ∈ tail, o.entityId = some x
  · rw [gather, if_pos hmoved]
    obtain ⟨x, hx, ho⟩ := hmoved
    constructor
    · intro h
      exact .inl ⟨(Option.some.inj h).symm, x, hx, ho⟩
    · rintro (⟨rfl, -⟩ | ⟨hy, hown⟩)
      · rfl
      · cases ho.symm.trans hown
        exact absurd hx hy
  · rw [gather, if_neg hmoved]
    constructor
    · intro h
      exact .inr ⟨fun hy => hmoved ⟨y, hy, h⟩, h⟩
    · rintro (⟨-, h⟩ | ⟨-, h⟩)
      · exact absurd h hmoved
      · exact h

theorem mem_membersOf_merged {y id : Id} : id ∈ (s.merged tail first).membersOf y ↔
    (y = first ∧ ∃ x ∈ tail, id ∈ s.membersOf x) ∨ y ∉ tail ∧ id ∈ s.membersOf y := by
  have hobjects : (s.merged tail first).objects = s.objects.map (gather tail first) := rfl
  simp only [Store.mem_membersOf, hobjects, List.mem_map]
  constructor
  · rintro ⟨_, ⟨o, ho, rfl⟩, rfl, hy⟩
    rcases gather_entityId_eq.mp hy with ⟨hfirst, x, hx, hox⟩ | ⟨hnot, hown⟩
    · exact .inl ⟨hfirst, x, hx, o, ho, gather_id.symm, hox⟩
    · exact .inr ⟨hnot, o, ho, gather_id.symm, hown⟩
  · rintro (⟨hfirst, x, hx, o, ho, rfl, hox⟩ | ⟨hnot, o, ho, rfl, hown⟩)
    · exact ⟨_, ⟨o, ho, rfl⟩, gather_id, gather_entityId_eq.mpr (.inl ⟨hfirst, x, hx, hox⟩)⟩
    · exact ⟨_, ⟨o, ho, rfl⟩, gather_id, gather_entityId_eq.mpr (.inr ⟨hnot, hown⟩)⟩

theorem membersOf_merged_apart (hx : x ∉ first :: tail) :
    (s.merged tail first).membersOf x = s.membersOf x := by
  have hsame : ∀ o : SourceObject, (gather tail first o).entityId = some x ↔ o.entityId = some x := by
    intro o
    rw [gather_entityId_eq]
    constructor
    · rintro (⟨rfl, -⟩ | ⟨-, h⟩)
      · exact absurd List.mem_cons_self hx
      · exact h
    · intro h
      exact .inr ⟨fun hmem => hx (List.mem_cons_of_mem _ hmem), h⟩
  have hobjects : (s.merged tail first).objects = s.objects.map (gather tail first) := rfl
  rw [Store.membersOf, hobjects, List.filter_map, List.map_map, Store.membersOf]
  simp only [Function.comp_def, hsame, gather_id]

theorem entity?_merged : (s.merged tail first).entity? x =
    (s.entity? x).map (bump first ∘ retireEntity tail) := by
  refine Table.find_map fun e => ?_
  rw [Function.comp_apply, bump_id, retireEntity_id]

/-- Where the first entity is not merged with itself, its merge conserves the members. -/
theorem conservesMembers_merged (hlive : Live s first) (hfirst : ∃ e ∈ s.entities, e.id = first)
    (hl : ∀ id ∈ tail, ∃ e ∈ s.entities, e.id = id ∧ e.status ≠ .merged) (hne : first ∉ tail) :
    ConservesMembers s (s.merged tail first) (first :: tail) where
  first := by
    rintro x ⟨⟩
    refine ⟨?_, live_merged hlive hne, fun id => ?_⟩
    · obtain ⟨e, he, rfl⟩ := hfirst
      refine ⟨_, List.mem_map_of_mem he, ?_⟩
      rw [Function.comp_apply, bump_id, retireEntity_id]
    · rw [mem_membersOf_merged]
      simp only [List.mem_cons, exists_eq_or_imp]
      constructor
      · rintro (⟨-, h⟩ | ⟨-, h⟩)
        · exact .inr h
        · exact .inl h
      · rintro (h | h)
        · exact .inr ⟨hne, h⟩
        · exact .inl ⟨trivial, h⟩
  others := by
    intro x hx hother
    rcases List.mem_cons.mp hx with rfl | htail
    · exact absurd rfl hother
    · obtain ⟨e, he, rfl, -⟩ := hl x htail
      refine ⟨⟨_, List.mem_map_of_mem he, ?_, ?_⟩, List.eq_nil_iff_forall_not_mem.mpr fun id hid => ?_⟩
      · rw [Function.comp_apply, bump_id, retireEntity_id]
      · rw [Function.comp_apply, bump_status, retireEntity, if_pos htail]
      · rcases mem_membersOf_merged.mp hid with ⟨hsame, -⟩ | ⟨hnot, -⟩
        · exact hne (hsame ▸ htail)
        · exact hnot htail
  apart := by
    intro x hx
    refine ⟨membersOf_merged_apart hx, ?_⟩
    rw [entity?_merged]
    cases he : s.entity? x with
    | none => rfl
    | some e =>
      obtain rfl := Table.find_key he
      have hne : e.id ≠ first := fun h => hx (h ▸ List.mem_cons_self)
      have hnot : e.id ∉ tail := fun h => hx (List.mem_cons_of_mem _ h)
      rw [Option.map_some, Function.comp_apply, retireEntity, if_neg hnot, bump, onRow, if_neg hne]

/-- A first entity that is merged with itself is not live afterwards. -/
theorem not_conservesMembers_merged (hfirst : ∃ e ∈ s.entities, e.id = first) (hmem : first ∈ tail) :
    ¬ConservesMembers s (s.merged tail first) (first :: tail) := by
  intro h
  obtain ⟨-, hlive, -⟩ := h.first first rfl
  obtain ⟨e, he, rfl⟩ := hfirst
  refine hlive _ (List.mem_map_of_mem he) ?_ ?_
  · rw [Function.comp_apply, bump_id, retireEntity_id]
  · rw [Function.comp_apply, bump_status, retireEntity, if_pos hmem]

theorem step_answered (hi : Integrity rt w s) {request : Request} {answer : Answer}
    (h : ((service rt).step s request).2 = .ok answer) :
    serve ⟨rt, request.who, w⟩ s request = .ok ((service rt).next s request, .ok answer) := by
  cases ht : transact rt s request with
  | error raised =>
    simp only [service, ht] at h
    cases h
  | ok committed =>
    obtain ⟨s', answer'⟩ := committed
    simp only [service, ht] at h
    subst h
    obtain ⟨-, hserve⟩ := transact_serve hi.workspaces ht
    simpa only [System.next, service, ht] using hserve

theorem reachable_next (request : Request) (h : Reachable rt w s) :
    Reachable rt w ((service rt).next s request) := by
  obtain ⟨requests, rfl⟩ := h
  exact ⟨requests ++ [request], (service rt).run_append⟩

theorem proposeMerge_answered (hi : Integrity rt w s) {who : Principal} {reason : String} {dryRun : Bool}
    {impact : MergeImpact} {taskId : Id}
    (h : ((service rt).step s (.proposeMerge who ids reason dryRun)).2 =
      .ok (.impact impact (some taskId))) :
    MasteringService.proposeMerge ⟨rt, who, w⟩ s ids reason dryRun =
      .ok ((service rt).next s (.proposeMerge who ids reason dryRun), impact, some taskId) := by
  have hserve := step_answered hi h
  simp only [serve, Except.bind_eq_ok, Except.pure_eq_ok, Prod.exists, Prod.mk.injEq] at hserve
  obtain ⟨_, _, _, hpropose, rfl, heq⟩ := hserve
  cases heq
  exact hpropose

theorem approved_merge (hi : Integrity rt w s) {impact : MergeImpact} {reason : String}
    {request : Request} (hp : (task, .approve) ∈ request.taken? rt s)
    (hpayload : task.payload = .mergeApproval impact reason)
    (hok : ((service rt).step s request).2.isOk) :
    (∃ e ∈ s.entities, e.id = impact.primaryEntityId) ∧ impact.mergedEntityIds.Nodup ∧
      (∀ id ∈ impact.mergedEntityIds, ∃ e ∈ s.entities, e.id = id ∧ e.status ≠ .merged) ∧
      Frame rt (s.merged impact.mergedEntityIds impact.primaryEntityId) ((service rt).next s request) := by
  rcases step_taken hi hp with ⟨hrefused, -⟩ | ⟨-, heffect⟩
  · rw [hrefused] at hok
    cases hok
  · generalize (service rt).next s request = final at heffect
    cases heffect with
    | quiet hd _ => simp [Inert, hpayload] at hd
    | approveMaster hp' => simp [hpayload] at hp'
    | split hp' => simp [hpayload] at hp'
    | keepApart hd => simp at hd
    | merge hp' hfirst hid hn hl hf =>
      rw [hpayload] at hp'
      cases hp'
      exact ⟨⟨_, hfirst, hid⟩, hn, hl, hid ▸ hf⟩

/-- A merge that is approved next conserves the members if and only if its first entity is not listed
again. -/
theorem approved_merge_conserves_iff (rt : Runtime) (w : Workspace) (s : Store) (ids : List Id)
    (who approver : Principal) (reason note : String) (dryRun : Bool) (impact : MergeImpact) (taskId : Id)
    (h : Reachable rt w s)
    (hpropose : ((service rt).step s (.proposeMerge who ids reason dryRun)).2 =
      .ok (.impact impact (some taskId)))
    (happrove : ((service rt).step ((service rt).next s (.proposeMerge who ids reason dryRun))
      (.decideTask approver taskId .approve note)).2.isOk) :
    ConservesMembers s ((service rt).run s [.proposeMerge who ids reason dryRun,
      .decideTask approver taskId .approve note]) ids ↔ MergesOthers ids := by
  have hi := integrity_reachable h
  have hproposed := proposeMerge_answered hi hpropose
  have hreachable : Reachable rt w ((service rt).next s (.proposeMerge who ids reason dryRun)) :=
    reachable_next _ h
  obtain ⟨hids, ⟨primary, hprimary, hid, hlive⟩, task, htask, htaskId, hpayload⟩ :=
    MasteringService.proposeMerge_task hproposed
  have hquiet := MasteringService.proposeMerge_quiet hproposed
  have hp := taken_of_isOk (integrity_reachable hreachable) (registered_reachable hreachable) htask htaskId
    happrove
  obtain ⟨-, -, hl, hf⟩ := approved_merge (integrity_reachable hreachable) hp hpayload happrove
  rw [System.run_cons, System.run_cons, System.run_nil]
  have hobjects := hf.objects.trans (congrArg (List.map _) hquiet.objects)
  have hentities := hf.entities.trans (congrArg (List.map _) hquiet.entities)
  generalize (service rt).next ((service rt).next s (.proposeMerge who ids reason dryRun))
    (.decideTask approver taskId .approve note) = final at hobjects hentities ⊢
  subst hids
  constructor
  · rintro hconserves _ ⟨⟩ hmem
    exact not_conservesMembers_merged ⟨primary, hprimary, hid⟩ hmem
      (hconserves.of_rows rfl rfl hobjects.symm hentities.symm)
  · intro hother
    refine ConservesMembers.of_rows (conservesMembers_merged ?_ ⟨primary, hprimary, hid⟩ ?_
      (hother _ rfl)) rfl rfl hobjects hentities
    · intro e he heid
      rwa [hi.entityIds.eq_of_mem he hprimary (heid.trans hid.symm)]
    · intro id hlisted
      rw [← hquiet.entities]
      exact hl id hlisted

namespace Supplier

/-- What the proposal and the approval of a merge answer. -/
def mergesAs (s : Store) (ids : List Id) (taskId : Id) : Bool :=
  (match ((service .plain).step s (proposeMerge ids)).2 with
    | .ok (.impact _ (some id)) => decide (id = taskId)
    | _ => false) &&
  ((service .plain).step ((service .plain).next s (proposeMerge ids)) (approve taskId)).2.isOk

theorem of_mergesAs (s : Store) (ids : List Id) (taskId : Id) (h : mergesAs s ids taskId = true) :
    (∃ impact, ((service .plain).step s (proposeMerge ids)).2 = .ok (.impact impact (some taskId))) ∧
      ((service .plain).step ((service .plain).next s (proposeMerge ids)) (approve taskId)).2.isOk := by
  rw [mergesAs, Bool.and_eq_true] at h
  refine ⟨?_, h.2⟩
  have hanswer := h.1
  split at hanswer
  · next impact id hstep => exact ⟨impact, hstep.trans (by rw [of_decide_eq_true hanswer])⟩
  · cases hanswer

/-- Entity 16 is merged into entity 8. -/
theorem approved_merge_conserves_pair : ConservesMembers (after [three])
    ((service .plain).run (after [three]) [proposeMerge [uid 8, uid 16], approve (uid 29)])
    [uid 8, uid 16] := by
  obtain ⟨⟨impact, hpropose⟩, happrove⟩ := of_mergesAs (after [three]) [uid 8, uid 16] (uid 29)
    (by decide +kernel)
  exact (approved_merge_conserves_iff .plain workspace _ _ _ _ _ _ _ impact (uid 29) ⟨_, rfl⟩ hpropose
    happrove).mpr (by decide)

/-- Entity 8 is merged with itself: it keeps its members, and is merged. -/
theorem merged_with_itself : Reachable .plain workspace (after [three]) ∧
    (∃ impact, ((service .plain).step (after [three]) (proposeMerge [uid 8, uid 8])).2 =
      .ok (.impact impact (some (uid 29)))) ∧
    ((service .plain).step ((service .plain).next (after [three]) (proposeMerge [uid 8, uid 8]))
      (approve (uid 29))).2.isOk ∧
    ¬ConservesMembers (after [three])
      ((service .plain).run (after [three]) [proposeMerge [uid 8, uid 8], approve (uid 29)])
      [uid 8, uid 8] := by
  obtain ⟨hpropose, happrove⟩ := of_mergesAs (after [three]) [uid 8, uid 8] (uid 29)
    (by decide +kernel)
  refine ⟨⟨_, rfl⟩, hpropose, happrove, fun h => ?_⟩
  exact absurd (h.first _ rfl).2.1 (by decide +kernel)

end Supplier

end Recordlane
