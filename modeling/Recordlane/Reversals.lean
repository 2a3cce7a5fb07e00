import Recordlane.Merges

/-! A merge and the split that takes it back: which members return. -/
namespace Recordlane

variable {rt : Runtime} {w : Workspace} {self : MasteringService} {s s' t : Store} {a b : Id}
  {records : List Id} {task : ReviewTask}

/-- Every member of one entity belongs to it again, and those of the other are together in a new one. -/
def Undone (s t : Store) (a b : Id) : Prop :=
  (∀ id ∈ s.membersOf a, id ∈ t.membersOf a) ∧
    ∃ new ∈ t.entities, (∀ e ∈ s.entities, e.id ≠ new.id) ∧
      ∀ id ∈ s.membersOf b, id ∈ t.membersOf new.id

/-- Every member of the entity has a current contribution. -/
def Contributing (s : Store) (b : Id) : Prop :=
  ∀ o ∈ s.objects, o.entityId = some b → o.currentRecordId.isSome

/-- The records are the current contributions of the entity. -/
def ContributionsOf (s : Store) (b : Id) (records : List Id) : Prop :=
  ∀ id, id ∈ records ↔ ∃ o ∈ s.objects, o.entityId = some b ∧ o.currentRecordId = some id

instance : Decidable (Contributing s b) :=
  inferInstanceAs (Decidable (∀ o ∈ s.objects, o.entityId = some b → o.currentRecordId.isSome))

instance : Decidable (Undone s t a b) :=
  inferInstanceAs (Decidable ((∀ id ∈ s.membersOf a, id ∈ t.membersOf a) ∧
    ∃ new ∈ t.entities, (∀ e ∈ s.entities, e.id ≠ new.id) ∧
      ∀ id ∈ s.membersOf b, id ∈ t.membersOf new.id))

/-- The current contributions of an entity, in the order of its members. -/
def Store.contributionsOf (s : Store) (b : Id) : List Id :=
  (s.objects.filter fun o => o.entityId = some b).filterMap SourceObject.currentRecordId

theorem contributionsOf_contributions : ContributionsOf s b (s.contributionsOf b) := by
  intro id
  simp only [Store.contributionsOf, List.mem_filterMap, List.mem_filter, decide_eq_true_eq, and_assoc]

theorem Integrity.current_unique (hi : Integrity rt w s) {o o' : SourceObject} (ho : o ∈ s.objects)
    (ho' : o' ∈ s.objects) {id : Id} (hid : o.currentRecordId = some id)
    (hid' : o'.currentRecordId = some id) : o = o' := by
  obtain ⟨-, r, hr, hrid, -, hkey⟩ := hi.currentRecord o ho id hid
  obtain ⟨-, r', hr', hrid', -, hkey'⟩ := hi.currentRecord o' ho' id hid'
  obtain rfl := hi.recordIds.eq_of_mem hr hr' (hrid.trans hrid'.symm)
  exact hi.objectKeys.eq_of_mem ho ho' (hkey.symm.trans hkey')

namespace MasteringService

theorem proposeSplit_task {reason : String} (hi : Integrity self.rt self.workspace s)
    (h : self.proposeSplit s a records reason = .ok (s', task)) :
    task ∈ s'.tasks ∧ (∃ e ∈ s.entities, e.id = a ∧ e.status ≠ .merged) ∧ task.entityId = some a ∧
      ∃ objects, task.payload = .splitApproval records objects reason ∧
        ∀ id, id ∈ objects ↔ ∃ o ∈ s.objects, o.id = id ∧ o.entityId = some a ∧
          ∃ record ∈ records, o.currentRecordId = some record := by
  unfold proposeSplit at h
  split at h
  · cases h
  · next entity hentity =>
    have hkey := List.find?_some hentity
    simp only [Bool.and_eq_true, decide_eq_true_eq] at hkey
    obtain ⟨⟨rfl, -⟩, hlive⟩ := hkey
    dsimp only at h
    split at h
    · cases h
    · cases h
      refine ⟨List.mem_append_right _ (List.mem_singleton_self _),
        ⟨entity, List.mem_of_find?_eq_some hentity, rfl, hlive⟩, rfl, _, rfl, fun id => ?_⟩
      simp only [List.mem_map, self.rt.mem_scan, List.mem_filter, Bool.and_eq_true, decide_eq_true_eq,
        Option.any_eq_true, List.contains_iff_mem]
      constructor
      · rintro ⟨o, ⟨ho, ⟨-, hx⟩, record, hcurrent, hlisted⟩, rfl⟩
        exact ⟨o, ho, rfl, hx, record, hlisted, hcurrent⟩
      · rintro ⟨o, ho, rfl, hx, record, hlisted, hcurrent⟩
        exact ⟨o, ⟨ho, ⟨(hi.objects o ho).1, hx⟩, record, hcurrent, hlisted⟩, rfl⟩

end MasteringService

theorem proposeSplit_answered (hi : Integrity rt w s) {who : Principal} {reason : String} {taskId : Id}
    (h : ((service rt).step s (.proposeSplit who a records reason)).2 = .ok (.task taskId)) :
    ∃ task, task.id = taskId ∧ MasteringService.proposeSplit ⟨rt, who, w⟩ s a records reason =
      .ok ((service rt).next s (.proposeSplit who a records reason), task) := by
  have hserve := step_answered hi h
  simp only [serve, Except.bind_eq_ok, Except.pure_eq_ok, Prod.exists, Prod.mk.injEq] at hserve
  obtain ⟨_, task, hpropose, rfl, heq⟩ := hserve
  cases heq
  exact ⟨task, rfl, hpropose⟩

theorem approved_split (hi : Integrity rt w s) (hr : Registered rt s) {who : Principal} {reason note : String}
    {objects : List Id} (htask : task ∈ s.tasks) (hentity : task.entityId = some a)
    (hpayload : task.payload = .splitApproval records objects reason)
    (hok : ((service rt).step s (.decideTask who task.id .approve note)).2.isOk) :
    ∃ new : Entity, new.id = rt.uid s.drawn ∧ ∃ ids : List Id,
      (∀ o ∈ s.objects, o.id ∈ ids ↔ o.entityId = some a ∧ o.id ∈ objects) ∧
      Frame rt (s.split ids a new) ((service rt).next s (.decideTask who task.id .approve note)) := by
  have htaken := taken_of_isOk hi hr htask rfl hok
  obtain ⟨answer, hanswer⟩ : ∃ answer,
      ((service rt).step s (.decideTask who task.id .approve note)).2 = .ok answer := by
    cases hstep : ((service rt).step s (.decideTask who task.id .approve note)).2 with
    | error raised => rw [hstep] at hok; cases hok
    | ok answer => exact ⟨answer, rfl⟩
  have hserve := step_answered hi hanswer
  generalize (service rt).next s (.decideTask who task.id .approve note) = final at hserve ⊢
  simp only [serve, Except.bind_eq_ok, Except.pure_eq_ok, Prod.exists, Prod.mk.injEq] at hserve
  obtain ⟨_, decided, hdecide, rfl, heq⟩ := hserve
  obtain ⟨svc, _, _, _, hrequest, hstart, htaken⟩ := Request.taken?_eq htaken
  cases hrequest
  obtain rfl := start_workspace hi.workspaces hstart
  cases decided with
  | error raised => cases heq
  | ok _ =>
    obtain ⟨s₁, happly, rfl⟩ := MasteringService.decideTask_done htaken hdecide
    simp only [MasteringService.applyDecision, hpayload, Except.bind_eq_ok, Except.pure_eq_ok] at happly
    obtain ⟨_, hsplit, heq⟩ := happly
    cases heq
    obtain ⟨original, new, -, horiginal, hnew, hframe⟩ := MasteringService.applySplit_split hi hsplit
    cases horiginal.symm.trans hentity
    refine ⟨new, by rw [hnew]; rfl, _, fun o ho => ?_, hframe.trans MasteringService.closeTask_frame⟩
    rw [List.mem_map]
    constructor
    · rintro ⟨m, hm, hid⟩
      obtain ⟨hm, hlisted⟩ := List.mem_filter.mp hm
      obtain ⟨hm, hx⟩ := (MasteringService.mem_members hi).mp hm
      obtain rfl := hi.objectIds.eq_of_mem hm ho hid
      exact ⟨hx, List.contains_iff_mem.mp hlisted⟩
    · rintro ⟨hx, hlisted⟩
      exact ⟨o, List.mem_filter.mpr ⟨(MasteringService.mem_members hi).mpr ⟨ho, hx⟩,
        List.contains_iff_mem.mpr hlisted⟩, rfl⟩

theorem mem_membersOf_split {new : Entity} {ids : List Id} {y id : Id} :
    id ∈ (s.split ids a new).membersOf y ↔
    (y = new.id ∧ id ∈ ids ∧ ∃ o ∈ s.objects, o.id = id) ∨ id ∉ ids ∧ id ∈ s.membersOf y := by
  have hobjects : (s.split ids a new).objects = s.objects.map (attach ids new.id) := rfl
  simp only [Store.mem_membersOf, hobjects, List.mem_map]
  constructor
  · rintro ⟨_, ⟨o, ho, rfl⟩, rfl, hy⟩
    rw [attach_id]
    by_cases hmem : o.id ∈ ids
    · rw [attach, if_pos hmem] at hy
      exact .inl ⟨(Option.some.inj hy).symm, hmem, o, ho, rfl⟩
    · rw [attach, if_neg hmem] at hy
      exact .inr ⟨hmem, o, ho, rfl, hy⟩
  · rintro (⟨rfl, hmem, o, ho, rfl⟩ | ⟨hnot, o, ho, rfl, hy⟩)
    · refine ⟨_, ⟨o, ho, rfl⟩, attach_id, ?_⟩
      rw [attach, if_pos hmem]
    · refine ⟨_, ⟨o, ho, rfl⟩, attach_id, ?_⟩
      rw [attach, if_neg hnot, hy]

/-- The listed contributions of the merged entity name exactly its members that have one. -/
theorem reversed_ids (hi : Integrity rt w s) {objects ids : List Id}
    (hrecords : ContributionsOf s b records)
    (hlisted : ∀ id, id ∈ objects ↔ ∃ o ∈ (s.merged [b] a).objects, o.id = id ∧ o.entityId = some a ∧
      ∃ record ∈ records, o.currentRecordId = some record)
    (hids : ∀ o ∈ (s.merged [b] a).objects, o.id ∈ ids ↔ o.entityId = some a ∧ o.id ∈ objects)
    {o : SourceObject} (ho : o ∈ s.objects) :
    o.id ∈ ids ↔ o.entityId = some b ∧ o.currentRecordId.isSome := by
  have hmem : gather [b] a o ∈ (s.merged [b] a).objects := List.mem_map_of_mem ho
  rw [← @gather_id [b] a o, hids _ hmem, hlisted]
  constructor
  · rintro ⟨-, _, hmoved, hid, -, record, hrecord, hcurrent⟩
    obtain ⟨o', ho', rfl⟩ := List.mem_map.mp hmoved
    obtain rfl := hi.objectIds.eq_of_mem ho' ho (gather_id.symm.trans (hid.trans gather_id))
    rw [gather_contribution.1] at hcurrent
    obtain ⟨listed, hlisted, hb, hsame⟩ := (hrecords record).mp hrecord
    obtain rfl := hi.current_unique hlisted ho hsame hcurrent
    exact ⟨hb, hcurrent ▸ rfl⟩
  · rintro ⟨hb, hcurrent⟩
    obtain ⟨record, hrecord⟩ := Option.isSome_iff_exists.mp hcurrent
    have hmoved : (gather [b] a o).entityId = some a :=
      gather_entityId_eq.mpr (.inl ⟨rfl, b, List.mem_singleton_self b, hb⟩)
    exact ⟨hmoved, _, hmem, rfl, hmoved, record, (hrecords record).mpr ⟨o, ho, hb, hrecord⟩,
      gather_contribution.1.trans hrecord⟩

/-- Where the ids are those of the merged entity's members that have a contribution, their split undoes
the merge if and only if all of its members have one. -/
theorem undone_iff (hi : Integrity rt w s) {new : Entity} {ids : List Id}
    (ha : ∃ e ∈ s.entities, e.id = a) (hne : a ≠ b) (hfresh : ∀ e ∈ s.entities, e.id ≠ new.id)
    (hids : ∀ o ∈ s.objects, o.id ∈ ids ↔ o.entityId = some b ∧ o.currentRecordId.isSome) :
    Undone s ((s.merged [b] a).split ids a new) a b ↔ Contributing s b := by
  constructor
  · rintro ⟨-, other, -, hother, hmembers⟩ o ho hb
    by_contra hcurrent
    have hnot : o.id ∉ ids := fun h => hcurrent ((hids o ho).mp h).2
    rcases mem_membersOf_split.mp (hmembers o.id (Store.mem_membersOf.mpr ⟨o, ho, rfl, hb⟩)) with
      ⟨-, hmem, -⟩ | ⟨-, hmem⟩
    · exact hnot hmem
    · rcases mem_membersOf_merged.mp hmem with ⟨hsame, -⟩ | ⟨hlive, hmem⟩
      · obtain ⟨e, he, rfl⟩ := ha
        exact hother e he hsame.symm
      · obtain ⟨o', ho', hid, hx⟩ := Store.mem_membersOf.mp hmem
        obtain rfl := hi.objectIds.eq_of_mem ho' ho hid
        exact hlive (List.mem_singleton.mpr (Option.some.inj (hx.symm.trans hb)))
  · intro hall
    refine ⟨fun id hid => ?_, bump a new, List.mem_map_of_mem (List.mem_append_right _
      (List.mem_singleton_self new)), fun e he => ?_, fun id hid => ?_⟩
    · obtain ⟨o, ho, rfl, hx⟩ := Store.mem_membersOf.mp hid
      refine mem_membersOf_split.mpr (.inr ⟨fun hmem => ?_, mem_membersOf_merged.mpr (.inr
        ⟨fun hmem => hne (List.mem_singleton.mp hmem), hid⟩)⟩)
      exact hne (Option.some.inj (hx.symm.trans ((hids o ho).mp hmem).1))
    · rw [bump_id]
      exact hfresh e he
    · obtain ⟨o, ho, rfl, hb⟩ := Store.mem_membersOf.mp hid
      rw [bump_id]
      exact mem_membersOf_split.mpr (.inl ⟨rfl, (hids o ho).mpr ⟨hb, hall o ho hb⟩, _,
        List.mem_map_of_mem ho, gather_id⟩)

theorem not_listed_of_live {e : Entity} {ids : List Id} (he : e ∈ (s.merged ids a).entities)
    (hlive : e.status ≠ .merged) : e.id ∉ ids := by
  obtain ⟨before, -, rfl⟩ := List.mem_map.mp he
  rw [Function.comp_apply, bump_id, retireEntity_id]
  intro hmem
  rw [Function.comp_apply, bump_status, retireEntity, if_pos hmem] at hlive
  exact hlive rfl

theorem Undone.of_rows {t' : Store} (h : Undone s t a b) (hobjects : t'.objects = t.objects)
    (hentities : t'.entities = t.entities) : Undone s t' a b := by
  simp only [Undone, Store.membersOf] at h ⊢
  rwa [hobjects, hentities]

/-- A merge of two entities, taken back by an approved split of the contributions that came from the
merged one, is undone if and only if every member of that one has a current contribution. -/
theorem reversed_merge_iff (rt : Runtime) (w : Workspace) (s : Store) (task : ReviewTask)
    (impact : MergeImpact) (b : Id) (records : List Id) (approver steward approver' : Principal)
    (reason note why note' : String) (splitId : Id) (h : Reachable rt w s) (htask : task ∈ s.tasks)
    (hpayload : task.payload = .mergeApproval impact reason) (hpair : impact.mergedEntityIds = [b])
    (hrecords : ContributionsOf s b records)
    (hmerge : ((service rt).step s (.decideTask approver task.id .approve note)).2.isOk)
    (hpropose : ((service rt).step ((service rt).next s (.decideTask approver task.id .approve note))
      (.proposeSplit steward impact.primaryEntityId records why)).2 = .ok (.task splitId))
    (hsplit : ((service rt).step ((service rt).run s [.decideTask approver task.id .approve note,
      .proposeSplit steward impact.primaryEntityId records why])
      (.decideTask approver' splitId .approve note')).2.isOk) :
    Undone s ((service rt).run s [.decideTask approver task.id .approve note,
      .proposeSplit steward impact.primaryEntityId records why,
      .decideTask approver' splitId .approve note']) impact.primaryEntityId b ↔ Contributing s b := by
  have hi := integrity_reachable h
  have htaken := taken_of_isOk hi (registered_reachable h) htask rfl hmerge
  obtain ⟨ha, -, -, hmerged⟩ := approved_merge hi htaken hpayload hmerge
  rw [hpair] at hmerged
  have h₁ := reachable_next (.decideTask approver task.id .approve note) h
  rw [System.run_cons, System.run_cons, System.run_nil] at hsplit
  rw [System.run_cons, System.run_cons, System.run_cons, System.run_nil]
  generalize (service rt).next s (.decideTask approver task.id .approve note) = s₁
    at hmerged h₁ hpropose hsplit ⊢
  generalize impact.primaryEntityId = a at ha hmerged hpropose hsplit ⊢
  have h₂ := reachable_next (.proposeSplit steward a records why) h₁
  obtain ⟨split, rfl, hproposed⟩ := proposeSplit_answered (integrity_reachable h₁) hpropose
  generalize (service rt).next s₁ (.proposeSplit steward a records why) = s₂ at h₂ hproposed hsplit ⊢
  have hquiet := MasteringService.proposeSplit_quiet hproposed
  obtain ⟨hmem, ⟨e, he, rfl, hlive⟩, hentity, objects, hobjects, hlisted⟩ :=
    MasteringService.proposeSplit_task (integrity_reachable h₁) hproposed
  obtain ⟨new, hnew, ids, hids, hframe⟩ :=
    approved_split (integrity_reachable h₂) (registered_reachable h₂) hmem hentity hobjects hsplit
  rw [hmerged.objects] at hlisted
  rw [hquiet.objects, hmerged.objects] at hids
  have hne : e.id ≠ b := fun hsame =>
    not_listed_of_live (hmerged.entities ▸ he) hlive (List.mem_singleton.mpr hsame)
  have hfresh : ∀ e ∈ s.entities, e.id ≠ new.id := by
    intro e he hid
    exact ((hi.entities e he).2.mono (hmerged.drawn.trans hquiet.drawn)).ne_uid (hid.trans hnew)
  have hresult := undone_iff hi ha hne hfresh (fun o ho => reversed_ids hi hrecords hlisted hids ho)
  rw [← hresult]
  have hrows : (s₂.split ids e.id new).objects = ((s.merged [b] e.id).split ids e.id new).objects ∧
      (s₂.split ids e.id new).entities = ((s.merged [b] e.id).split ids e.id new).entities := by
    constructor
    · exact congrArg (List.map _) (hquiet.objects.trans hmerged.objects)
    · exact congrArg (fun es => List.map _ (es ++ [new])) (hquiet.entities.trans hmerged.entities)
  constructor
  · intro hundone
    exact hundone.of_rows (hrows.1.symm.trans hframe.objects.symm) (hrows.2.symm.trans hframe.entities.symm)
  · intro hundone
    exact hundone.of_rows (hframe.objects.trans hrows.1) (hframe.entities.trans hrows.2)

namespace Supplier

/-- One supplier, and another one with two objects: the entities are 8 and 16. -/
def oneAndTwo : Request := ingest [
  observation "a" "1" [("name", .str "A"), ("city", .str "X")],
  observation "b" "1" [("name", .str "B"), ("city", .str "Y")],
  observation "c" "1" [("name", .str "B"), ("city", .str "Y")]]

/-- The merge of entity 16 into entity 8 waits for its approval. -/
def awaiting (requests : List Request) : Store :=
  after (oneAndTwo :: requests ++ [proposeMerge [uid 8, uid 16]])

def proposeSplit (records : List Id) : Request :=
  .proposeSplit (steward "alice") (uid 8) records "two companies"

/-- The task merges one entity into another one. -/
def mergesPair (task : ReviewTask) (a b : Id) : Bool :=
  match task.payload with
  | .mergeApproval impact _ => impact.primaryEntityId = a && impact.mergedEntityIds = [b]
  | _ => false

/-- The merge is approved, and the split of the current contributions proposed and approved. -/
def reversesAs (s : Store) (mergeId splitId : Id) : Bool :=
  (s.tasks.any fun task => task.id = mergeId && mergesPair task (uid 8) (uid 16)) &&
  ((service .plain).step s (approve mergeId)).2.isOk &&
  (match ((service .plain).step ((service .plain).next s (approve mergeId))
      (proposeSplit (s.contributionsOf (uid 16)))).2 with
    | .ok (.task id) => decide (id = splitId)
    | _ => false) &&
  ((service .plain).step ((service .plain).run s [approve mergeId,
    proposeSplit (s.contributionsOf (uid 16))]) (approve splitId)).2.isOk

theorem of_reversesAs (s : Store) (mergeId splitId : Id) (h : reversesAs s mergeId splitId = true) :
    (∃ task ∈ s.tasks, task.id = mergeId ∧ ∃ impact reason, task.payload = .mergeApproval impact reason ∧
      impact.primaryEntityId = uid 8 ∧ impact.mergedEntityIds = [uid 16]) ∧
    ((service .plain).step s (approve mergeId)).2.isOk ∧
    ((service .plain).step ((service .plain).next s (approve mergeId))
      (proposeSplit (s.contributionsOf (uid 16)))).2 = .ok (.task splitId) ∧
    ((service .plain).step ((service .plain).run s [approve mergeId,
      proposeSplit (s.contributionsOf (uid 16))]) (approve splitId)).2.isOk := by
  simp only [reversesAs, Bool.and_eq_true, List.any_eq_true, decide_eq_true_eq] at h
  obtain ⟨⟨⟨⟨task, htask, hid, hmerges⟩, hmerge⟩, hpropose⟩, hsplit⟩ := h
  refine ⟨⟨task, htask, hid, ?_⟩, hmerge, ?_, hsplit⟩
  · unfold mergesPair at hmerges
    split at hmerges
    · next impact reason hpayload =>
      simp only [Bool.and_eq_true, decide_eq_true_eq] at hmerges
      exact ⟨impact, reason, hpayload, hmerges⟩
    · cases hmerges
  · split at hpropose
    · next id hstep => exact hstep.trans (by rw [of_decide_eq_true hpropose])
    · cases hpropose

/-- Both objects of entity 16 have a current contribution and are split off again. -/
theorem reversed_merge_pair : Undone (awaiting []) ((service .plain).run (awaiting []) [approve (uid 28),
    proposeSplit ((awaiting []).contributionsOf (uid 16)), approve (uid 36)]) (uid 8) (uid 16) := by
  obtain ⟨⟨task, htask, hid, impact, reason, hpayload, hprimary, hpair⟩, hmerge, hpropose, hsplit⟩ :=
    of_reversesAs (awaiting []) (uid 28) (uid 36) (by decide +kernel)
  rw [approve, ← hid] at hmerge
  rw [proposeSplit, ← hprimary, approve, ← hid] at hpropose hsplit
  have hall : Contributing (awaiting []) (uid 16) := by decide +kernel
  rw [proposeSplit, ← hprimary, approve, ← hid]
  exact (reversed_merge_iff .plain workspace _ task impact _ _ _ _ _ reason _ _ _ _ ⟨_, rfl⟩ htask hpayload
    hpair contributionsOf_contributions hmerge hpropose hsplit).mpr hall

/-- The second object of entity 16 is retired before the merge. -/
def withRetired : Store := awaiting [ingest [{ observation "c" "2" [] with deleted := true }]]

/-- The retired object stays in entity 8 when the other one is split off again. -/
theorem retired_member_kept : Reachable .plain workspace withRetired ∧
    (Live withRetired (uid 8) ∧ Live withRetired (uid 16)) ∧
    (∃ task ∈ withRetired.tasks, task.id = uid 34 ∧ ∃ impact reason,
      task.payload = .mergeApproval impact reason ∧ impact.primaryEntityId = uid 8 ∧
        impact.mergedEntityIds = [uid 16]) ∧
    ContributionsOf withRetired (uid 16) (withRetired.contributionsOf (uid 16)) ∧
    ((service .plain).step withRetired (approve (uid 34))).2.isOk ∧
    ((service .plain).step ((service .plain).next withRetired (approve (uid 34)))
      (proposeSplit (withRetired.contributionsOf (uid 16)))).2 = .ok (.task (uid 42)) ∧
    ((service .plain).step ((service .plain).run withRetired [approve (uid 34),
      proposeSplit (withRetired.contributionsOf (uid 16))]) (approve (uid 42))).2.isOk ∧
    ¬Undone withRetired ((service .plain).run withRetired [approve (uid 34),
      proposeSplit (withRetired.contributionsOf (uid 16)), approve (uid 42)]) (uid 8) (uid 16) := by
  have hruns : reversesAs withRetired (uid 34) (uid 42) = true ∧
      (Live withRetired (uid 8) ∧ Live withRetired (uid 16)) ∧
      ¬Undone withRetired ((service .plain).run withRetired [approve (uid 34),
        proposeSplit (withRetired.contributionsOf (uid 16)), approve (uid 42)]) (uid 8) (uid 16) := by
    decide +kernel
  obtain ⟨hreverses, hlive, hkept⟩ := hruns
  obtain ⟨htask, hmerge, hpropose, hsplit⟩ := of_reversesAs _ _ _ hreverses
  exact ⟨⟨_, rfl⟩, hlive, htask, contributionsOf_contributions, hmerge, hpropose, hsplit, hkept⟩

end Supplier

end Recordlane
