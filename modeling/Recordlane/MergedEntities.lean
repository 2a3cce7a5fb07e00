import Recordlane.Requests
import Recordlane.Supplier

/-! Merged entities: who may still belong to them, and whether one comes back. -/
namespace Recordlane

variable {rt : Runtime} {w : Workspace} {self : MasteringService} {s s' t : Store}
  {request : Request} {x : Id} {task : ReviewTask} {d : Decision}

/-- No entity with this id is merged. -/
def Live (s : Store) (x : Id) : Prop := ∀ e ∈ s.entities, e.id = x → e.status ≠ .merged

/-- No source object belongs to a merged entity. -/
def MembersLive (s : Store) : Prop := ∀ o ∈ s.objects, ∀ x ∈ o.entityId, Live s x

instance (s : Store) (x : Id) : Decidable (Live s x) :=
  inferInstanceAs (Decidable (∀ e ∈ s.entities, e.id = x → e.status ≠ .merged))

instance (s : Store) : Decidable (MembersLive s) :=
  inferInstanceAs (Decidable (∀ o ∈ s.objects, ∀ x ∈ o.entityId, Live s x))

/-- No source object belongs to one of the entities. -/
def Memberless (s : Store) (xs : List Id) : Prop := ∀ o ∈ s.objects, ∀ x ∈ o.entityId, x ∉ xs

instance (s : Store) (xs : List Id) : Decidable (Memberless s xs) :=
  inferInstanceAs (Decidable (∀ o ∈ s.objects, ∀ x ∈ o.entityId, x ∉ xs))

/-- The decision moves members to a live entity, or moves none: the primary entity of a merge is
live and not merged with itself, the target of a match is live. -/
def LeavesMembersLive (s : Store) (task : ReviewTask) (d : Decision) : Prop :=
  (∀ impact ∈ task.merges? d,
    (Live s impact.primaryEntityId ∧ impact.primaryEntityId ∉ impact.mergedEntityIds) ∨
      Memberless s impact.mergedEntityIds) ∧
  ∀ target ∈ task.links? d, Live s target ∨ Memberless s task.entityId.toList

instance : Decidable (LeavesMembersLive s task d) :=
  inferInstanceAs (Decidable ((∀ impact ∈ task.merges? d,
    (Live s impact.primaryEntityId ∧ impact.primaryEntityId ∉ impact.mergedEntityIds) ∨
      Memberless s impact.mergedEntityIds) ∧
    ∀ target ∈ task.links? d, Live s target ∨ Memberless s task.entityId.toList))

/-- The match tasks ask about two different entities each. -/
def MatchesApart (ts : List ReviewTask) : Prop :=
  ∀ t ∈ ts, ∀ leftRecord rightRecord left right target bound evidence,
    t.payload = .duplicateMatch leftRecord rightRecord left right target bound evidence →
      t.entityId ≠ some target

theorem MatchesApart.of_matchesFrom {ts ts' : List ReviewTask} (h : MatchesApart ts)
    (hm : MatchesFrom ts ts') : MatchesApart ts' := by
  intro task htask l r a b target n e hp
  obtain ⟨task₀, htask₀, hp₀, he₀⟩ := hm task htask (by rw [ReviewTask.kind, hp]; rfl)
  rw [← he₀]
  exact h task₀ htask₀ l r a b target n e (hp₀.trans hp)

theorem Live.mapEntities {f : Entity → Entity} (h : Live s x) (hid : ∀ e, (f e).id = e.id)
    (hf : ∀ e ∈ s.entities, e.id = x → (f e).status = .merged → e.status = .merged) :
    Live (s.mapEntities f) x := by
  intro e' he' hx hmerged
  obtain ⟨e, he, rfl⟩ := List.mem_map.mp he'
  rw [hid] at hx
  exact h e he hx (hf e he hx hmerged)

theorem bump_id {y : Id} (e : Entity) : (bump y e).id = e.id := by
  unfold bump onRow
  split <;> rfl

theorem bump_status {y : Id} (e : Entity) : (bump y e).status = e.status := by
  unfold bump onRow
  split <;> rfl

theorem retireEntity_id {ids : List Id} (e : Entity) : (retireEntity ids e).id = e.id := by
  unfold retireEntity
  split <;> rfl

theorem live_merged {ids : List Id} {target : Id} (h : Live s x) (hx : x ∉ ids) :
    Live (s.merged ids target) x := by
  refine Live.mapEntities (s := s.mapObjects (gather ids target)) h (fun e => ?_) fun e he hex hm => ?_
  · rw [Function.comp_apply, bump_id, retireEntity_id]
  · rw [Function.comp_apply, bump_status] at hm
    have hid : e.id ∉ ids := hex ▸ hx
    simpa [retireEntity, hid] using hm

/-- Members gathered in a live entity outside the merged ones leave none in a merged one. -/
theorem membersLive_merged {ids : List Id} {target : Id} (h : MembersLive s)
    (hl : (Live s target ∧ target ∉ ids) ∨ Memberless s ids) :
    MembersLive (s.merged ids target) := by
  intro o' ho' y hy
  obtain ⟨o, ho, rfl⟩ := List.mem_map.mp ho'
  unfold gather at hy
  split at hy
  · next hsource =>
    cases hy
    obtain ⟨y', hy', hoy⟩ := hsource
    rcases hl with ⟨hl, htarget⟩ | hno
    · exact live_merged hl htarget
    · exact (hno o ho y' hoy hy').elim
  · next hsource =>
    have hy' : y ∉ ids := fun hmem => hsource ⟨y, hmem, hy⟩
    exact live_merged (h o ho y hy) hy'

theorem MembersLive.quiet (h : MembersLive s) (hq : Quiet rt s t) : MembersLive t := by
  unfold MembersLive Live at h ⊢
  rw [hq.objects, hq.entities]
  exact h

theorem MembersLive.frame (h : MembersLive s) (hf : Frame rt s t) : MembersLive t := h.quiet hf.toQuiet

theorem MembersLive.mapEntities {f : Entity → Entity} (h : MembersLive s)
    (hid : ∀ e, (f e).id = e.id) (hf : ∀ e, (f e).status = .merged → e.status = .merged) :
    MembersLive (s.mapEntities f) := fun o ho x hx =>
  (h o ho x hx).mapEntities hid fun e _ _ => hf e

theorem live_insertEntity {e : Entity} (h : Live s x) (he : e.status ≠ .merged) :
    Live (s.insertEntity e) x := by
  intro e' he' hx
  rcases List.mem_append.mp he' with he' | he'
  · exact h e' he' hx
  · rw [List.mem_singleton.mp he']
    exact he

theorem live_fresh (hi : Integrity rt w s) {e : Entity} (hid : ∃ k, s.drawn ≤ k ∧ e.id = rt.uid k)
    (he : e.status ≠ .merged) : Live (s.insertEntity e) e.id := by
  intro e' he' hx
  rcases List.mem_append.mp he' with he' | he'
  · obtain ⟨k, hk, hek⟩ := hid
    exact ((((hi.entities e' he').2.mono hk).ne_uid) (hx.trans hek)).elim
  · rw [List.mem_singleton.mp he']
    exact he

theorem membersLive_split (hi : Integrity rt w s) (h : MembersLive s) {ids : List Id} {original : Id}
    {new : Entity} (hid : new.id = rt.uid s.drawn) (hs : new.status ≠ .merged) :
    MembersLive (s.split ids original new) := by
  refine MembersLive.mapEntities ?_ bump_id fun e he => by rwa [bump_status] at he
  intro o' ho' x hx
  obtain ⟨o, ho, rfl⟩ := List.mem_map.mp ho'
  unfold attach at hx
  split at hx
  · cases hx
    exact live_fresh hi ⟨_, le_rfl, hid⟩ hs
  · exact live_insertEntity (h o ho x hx) hs

theorem membersLive_opens {source : Source} {domainKey localId : String} {o : SourceObject}
    (ho : Opens self s source domainKey localId t o) (h : MembersLive s) : MembersLive t := by
  cases ho with
  | known => exact h
  | new =>
    intro o' ho' x hx
    rcases List.mem_append.mp ho' with ho' | ho'
    · exact h o' ho' x hx
    · rw [List.mem_singleton.mp ho'] at hx
      cases hx

/-- Resolution attaches an object to an entity that has a member, or to a new one. -/
theorem membersLive_round {source : Source} {domainKey : String} {policy : CompiledPolicy}
    {o : SourceObject} {item : IncomingRecord} {v : Verdict} {c : Findings}
    (hi : Integrity self.rt self.workspace s) (h : MembersLive s)
    (hr : Round self s source domainKey policy o item v s' c) : MembersLive s' := by
  have hentity : ∀ x, Live s x → Live s' x := by
    intro x hx
    unfold Live
    rw [hr.entities]
    cases hc : c.change with
    | keep => exact hx
    | bump y =>
      exact Live.mapEntities hx bump_id fun e _ _ he => by rwa [bump_status] at he
    | insert e =>
      refine live_insertEntity hx ?_
      rw [hr.fits.newEntity hc]
      simp [MasteringService.newEntity]
  intro o' ho' x hx
  rw [hr.objects] at ho'
  rcases Table.mem_modify.mp ho' with ⟨ho', -⟩ | ⟨row, hrow, -, rfl⟩
  · exact hentity x (h o' ho' x hx)
  · rcases after_entityId row item (self.fresh s) c.target v with he | ⟨⟨outcome, hv⟩, he⟩
    · exact hentity x (h row hrow x (he ▸ hx))
    · rw [he] at hx
      have hfits := hr.fits
      subst hv
      cases hfits with
      | linked _ _ _ _ _ hm _ _ ht _ =>
        rw [ht] at hx
        cases hx
        obtain ⟨m, hm, hmx⟩ := hm
        exact hentity _ (h m hm _ hmx)
      | created _ _ _ _ hc ht _ =>
        rw [ht] at hx
        cases hx
        unfold Live
        rw [hr.entities, hc]
        exact live_fresh hi ⟨_, Nat.le_add_right _ 3, rfl⟩ (by simp [MasteringService.newEntity])
      | review _ _ _ _ hc ht _ _ =>
        rw [ht] at hx
        cases hx
        unfold Live
        rw [hr.entities, hc]
        exact live_fresh hi ⟨_, Nat.le_add_right _ 3, rfl⟩ (by simp [MasteringService.newEntity])

/-- The entity of a new match task is new, the one it asks about has a member. -/
theorem matchesApart_round {source : Source} {domainKey : String} {policy : CompiledPolicy}
    {o : SourceObject} {item : IncomingRecord} {v : Verdict} {c : Findings}
    (hi : Integrity self.rt self.workspace s) (h : MatchesApart s.tasks)
    (hr : Round self s source domainKey policy o item v s' c) : MatchesApart s'.tasks := by
  rcases hr.tasks with htasks | ⟨-, task, ⟨-, hentity, l, r, b, target, n, e, hp, m, hm, -, hmx⟩, htasks⟩
  · exact h.of_matchesFrom htasks
  · refine MatchesApart.of_matchesFrom ?_ htasks
    intro t ht l' r' a' b' target' n' e' hp'
    rcases List.mem_append.mp ht with ht | ht
    · exact h t ht l' r' a' b' target' n' e' hp'
    · rw [List.mem_singleton.mp ht] at hp' ⊢
      rw [hp] at hp'
      cases hp'
      obtain ⟨e₀, he₀, rfl⟩ := hi.objectEntity m hm _ hmx
      rw [hentity]
      intro heq
      exact ((hi.entities e₀ he₀).2.mono (Nat.le_add_right _ 3)).ne_uid (Option.some.inj heq).symm

theorem approveEntity_merged {y : Id} {e : Entity} (h : (approveEntity y e).status = .merged) :
    e.status = .merged := by
  unfold approveEntity onRow at h
  split at h
  · cases h
  · exact h

theorem RequestEffect.matchesApart (he : RequestEffect rt w s request s') (h : Integrity rt w s)
    (hm : MatchesApart s.tasks) : MatchesApart s'.tasks := by
  cases he with
  | quiet hq => exact hm.of_matchesFrom hq.tasks
  | page _ p =>
    exact (p.invariant (P := fun s => MatchesApart s.tasks) h hm
      (fun _ _ hq hs => hs.of_matchesFrom hq.tasks)
      fun _ _ _ _ _ hi hs ho => MasteringService.observe_invariant
        (P := fun s => MatchesApart s.tasks) hi hs
        (fun _ _ hopen => hopen.tables.2.2.2.2.1 ▸ hs)
        (fun _ _ _ _ hs hi hr => matchesApart_round hi hs hr) ho).2
  | decision _ he => exact hm.of_matchesFrom he.tasks
  | job hj =>
    exact MasteringService.runJob_invariant (P := fun s => MatchesApart s.tasks) hm
      (fun _ _ hq hs => hs.of_matchesFrom hq.tasks) (fun _ _ _ _ hs => hs) (fun _ _ hs => hs) hj

theorem matchesApart_reachable (h : Reachable rt w s) : MatchesApart s.tasks := by
  obtain ⟨requests, rfl⟩ := h
  refine ((service rt).run_invariant (P := fun s => Integrity rt w s ∧ MatchesApart s.tasks)
    ⟨integrity_empty, by simp [MatchesApart, Store.empty]⟩
    ((service rt).along_of_forall (fun _ _ => trivial) requests) fun s request hs _ => ?_).2
  have he := next_effect hs.1 request
  exact ⟨he.integrity hs.1, he.matchesApart hs.1 hs.2⟩

/-- What carries the membership of live entities through a run. -/
structure Sound (rt : Runtime) (w : Workspace) (s : Store) : Prop where
  integrity : Integrity rt w s
  matchesApart : MatchesApart s.tasks
  membersLive : MembersLive s

theorem DecisionEffect.membersLive (he : DecisionEffect self s task d s') (htask : task ∈ s.tasks)
    (h : Sound self.rt self.workspace s) (hc : LeavesMembersLive s task d) : MembersLive s' := by
  cases he with
  | quiet _ hq => exact h.membersLive.quiet hq
  | @approveMaster _ _ _ e _ _ ha =>
    have hmap := h.membersLive.mapEntities (f := approveEntity e.id) approveEntity_id fun e he =>
      approveEntity_merged he
    unfold MembersLive Live at hmap ⊢
    rw [ha.kept.objects, ha.kept.entities]
    exact hmap
  | merge hp _ hid _ _ hf =>
    have hmerge := hc.1 _ (ReviewTask.merges?_eq_some.mpr ⟨rfl, _, hp⟩)
    rw [← hid] at hmerge
    exact (membersLive_merged h.membersLive hmerge).frame hf
  | split _ _ _ _ hid _ hs _ hf =>
    exact (membersLive_split h.integrity h.membersLive hid (by simp [hs])).frame hf
  | link hp _ hsid _ htid hf =>
    have hne := h.matchesApart task htask _ _ _ _ _ _ _ hp
    have hlink := hc.2 _ (ReviewTask.links?_eq_some.mpr ⟨rfl, _, _, _, _, _, _, hp⟩)
    rw [hsid] at hne hlink
    refine (membersLive_merged h.membersLive ?_).frame hf
    rcases hlink with hc | hc
    · refine .inl ⟨htid ▸ hc, ?_⟩
      rw [htid, List.mem_singleton]
      exact fun heq => hne (congrArg some heq.symm)
    · exact .inr hc
  | keepApart _ _ _ hf =>
    refine MembersLive.frame ?_ hf
    exact h.membersLive

theorem sound_step (h : Sound rt w s)
    (hc : ∀ p ∈ request.taken? rt s, LeavesMembersLive s p.1 p.2) :
    Sound rt w ((service rt).next s request) := by
  have heffect := next_effect h.integrity request
  refine ⟨heffect.integrity h.integrity, heffect.matchesApart h.integrity h.matchesApart, ?_⟩
  generalize (service rt).next s request = s' at heffect
  cases heffect with
  | quiet hq => exact h.membersLive.quiet hq
  | page _ p =>
    exact (p.invariant (P := MembersLive) h.integrity h.membersLive (fun _ _ hq hs => hs.quiet hq)
      fun _ _ _ _ _ hi hs ho => MasteringService.observe_invariant (P := MembersLive) hi hs
        (fun _ _ hopen => membersLive_opens hopen hs)
        (fun _ _ _ _ hs hi hr => membersLive_round hi hs hr) ho).2
  | decision hd he => exact he.membersLive (Request.taken?_mem hd) h (hc _ hd)
  | job hj =>
    exact MasteringService.runJob_invariant (P := MembersLive) h.membersLive
      (fun _ _ hq hs => hs.quiet hq) (fun _ _ _ _ hs => hs)
      (fun _ _ hs => hs.mapEntities bump_id fun e he => by rwa [bump_status] at he) hj

theorem sound_empty : Sound rt w (Store.empty w) :=
  ⟨integrity_empty, by simp [MatchesApart, Store.empty], by simp [MembersLive, Store.empty]⟩

/-- As long as no decision merges into a merged entity, no object belongs to one. -/
theorem membersLive_run {requests : List Request}
    (h : (service rt).Along (fun s request => ∀ p ∈ request.taken? rt s,
      LeavesMembersLive s p.1 p.2) (Store.empty w) requests) :
    MembersLive ((service rt).run (Store.empty w) requests) :=
  ((service rt).run_invariant (P := Sound rt w) sound_empty h fun _ _ => sound_step).membersLive

open Supplier in
/-- Entity 16 is merged into entity 8, and the approval of its master is still open. -/
def merging : List Request := [three, proposeMerge [uid 8, uid 16], approve (uid 29)]

open Supplier in
/-- Two merges into one entity each, the second one proposed before the first was approved. -/
def overlapping : List Request := [three, proposeMerge [uid 8, uid 16], proposeMerge [uid 16, uid 24],
  approve (uid 29), approve (uid 31)]

open Supplier in
theorem membersLive_run_merge : MembersLive (after merging) := membersLive_run (by decide +kernel)

open Supplier in
/-- The second merge gathers members in the entity that the first one retired. -/
theorem overlapping_not_membersLive :
    Reachable .plain workspace (after overlapping) ∧ ¬ MembersLive (after overlapping) :=
  ⟨⟨_, rfl⟩, by decide +kernel⟩

/-- An entity with this id is merged. -/
def Merged (s : Store) (x : Id) : Prop := ∃ e ∈ s.entities, e.id = x ∧ e.status = .merged

instance (s : Store) (x : Id) : Decidable (Merged s x) :=
  inferInstanceAs (Decidable (∃ e ∈ s.entities, e.id = x ∧ e.status = .merged))

/-- What is merged stays merged, and none of its masters is approved or published any more. -/
structure KeepsMerged (s s' : Store) : Prop where
  merged : ∀ x, Merged s x → Merged s' x
  approved : ∀ x, Merged s x →
    (s'.approved.filter fun m => m.entityId = x) = s.approved.filter fun m => m.entityId = x
  published : ∀ x, Merged s x →
    (s'.published.filter fun e => e.entityId = some x) = s.published.filter fun e => e.entityId = some x

theorem KeepsMerged.trans (h : KeepsMerged s t) (h' : KeepsMerged t s') : KeepsMerged s s' where
  merged x hx := h'.merged x (h.merged x hx)
  approved x hx := (h'.approved x (h.merged x hx)).trans (h.approved x hx)
  published x hx := (h'.published x (h.merged x hx)).trans (h.published x hx)

theorem Quiet.keepsMerged (h : Quiet rt s t) : KeepsMerged s t where
  merged x hx := by
    unfold Merged
    rwa [h.entities]
  approved x _ := by rw [h.approved]
  published x _ := by rw [h.published]

theorem KeepsMerged.refl (s : Store) : KeepsMerged s s := (Quiet.refl s : Quiet .plain s s).keepsMerged

theorem Merged.mapEntities {f : Entity → Entity} (h : Merged s x) (hid : ∀ e, (f e).id = e.id)
    (hf : ∀ e ∈ s.entities, e.id = x → e.status = .merged → (f e).status = .merged) :
    Merged (s.mapEntities f) x := by
  obtain ⟨e, he, hex, hm⟩ := h
  exact ⟨f e, List.mem_map_of_mem he, (hid e).trans hex, hf e he hex hm⟩

theorem keepsMerged_mapEntities {f : Entity → Entity} (hid : ∀ e, (f e).id = e.id)
    (hf : ∀ e, e.status = .merged → (f e).status = .merged) : KeepsMerged s (s.mapEntities f) :=
  ⟨fun _ hx => hx.mapEntities hid fun e _ _ => hf e, fun _ _ => rfl, fun _ _ => rfl⟩

theorem keepsMerged_bump {y : Id} : KeepsMerged s (s.mapEntities (bump y)) :=
  keepsMerged_mapEntities bump_id fun e he => by rwa [bump_status]

theorem keepsMerged_merged {ids : List Id} {target : Id} : KeepsMerged s (s.merged ids target) := by
  have hgather : KeepsMerged s (s.mapObjects (gather ids target)) :=
    ⟨fun _ hx => hx, fun _ _ => rfl, fun _ _ => rfl⟩
  refine hgather.trans (keepsMerged_mapEntities (fun e => ?_) fun e he => ?_)
  · rw [Function.comp_apply, bump_id, retireEntity_id]
  · rw [Function.comp_apply, bump_status]
    unfold retireEntity
    split
    · rfl
    · exact he

theorem keepsMerged_insertEntity {e : Entity} : KeepsMerged s (s.insertEntity e) where
  merged := fun _ ⟨e', he', hx⟩ => ⟨e', List.mem_append_left _ he', hx⟩
  approved _ _ := rfl
  published _ _ := rfl

theorem keepsMerged_split {ids : List Id} {original : Id} {new : Entity} :
    KeepsMerged s (s.split ids original new) := by
  have hattach : KeepsMerged (s.insertEntity new)
      ((s.insertEntity new).mapObjects (attach ids new.id)) :=
    ⟨fun _ hx => hx, fun _ _ => rfl, fun _ _ => rfl⟩
  exact (keepsMerged_insertEntity.trans hattach).trans keepsMerged_bump

theorem keepsMerged_round {source : Source} {domainKey : String} {policy : CompiledPolicy}
    {o : SourceObject} {item : IncomingRecord} {v : Verdict} {c : Findings}
    (hr : Round self s source domainKey policy o item v s' c) : KeepsMerged s s' where
  merged x hx := by
    unfold Merged
    rw [hr.entities]
    cases hc : c.change with
    | keep => exact hx
    | bump y => exact keepsMerged_bump.merged x hx
    | insert e => exact keepsMerged_insertEntity.merged x hx
  approved x _ := by rw [hr.approved]
  published x _ := by rw [hr.published]

/-- The decision approves no master of a merged entity. -/
def ApprovesLive (s : Store) (task : ReviewTask) (d : Decision) : Prop :=
  ∀ version ∈ task.publishes? d, (MasteringService.draftOf s task version).isSome →
    ∀ x ∈ task.entityId, ¬ Merged s x

instance : Decidable (ApprovesLive s task d) :=
  inferInstanceAs (Decidable (∀ version ∈ task.publishes? d,
    (MasteringService.draftOf s task version).isSome → ∀ x ∈ task.entityId, ¬ Merged s x))

theorem ApprovesMaster.keepsMerged {version : Nat} {e : Entity}
    (h : ApprovesMaster self s task version e s') (he : ¬ Merged s e.id) : KeepsMerged s s' := by
  have hne : ∀ x, Merged s x → x ≠ e.id := fun x hx heq => he (heq ▸ hx)
  refine ⟨fun x hx => ?_, fun x hx => ?_, fun x hx => ?_⟩
  · have hmap : Merged (s.mapEntities (approveEntity e.id)) x := by
      refine hx.mapEntities approveEntity_id fun e' _ hex hm => ?_
      rwa [approveEntity, onRow, if_neg (hex ▸ hne x hx)]
    unfold Merged at hmap ⊢
    rwa [h.kept.entities]
  · refine Table.filter_eq_of_imp h.approved fun m hm => ?_
    rw [decide_eq_true_eq] at hm ⊢
    exact hm ▸ hne x hx
  · refine Table.filter_eq_of_imp h.published fun m hm => ?_
    rw [decide_eq_true_eq] at hm ⊢
    exact hm ▸ fun heq => hne x hx (Option.some.inj heq)

theorem DecisionEffect.keepsMerged (he : DecisionEffect self s task d s')
    (hc : ApprovesLive s task d) : KeepsMerged s s' := by
  cases he with
  | quiet _ hq => exact hq.keepsMerged
  | approveMaster hp ha =>
    have hlive := hc _ (ReviewTask.publishes?_eq_some.mpr ⟨rfl, _, _, hp⟩)
    exact ha.keepsMerged (hlive ha.draft _ (MasteringService.taskEntity_mem ha.entity).2)
  | merge _ _ _ _ _ hf => exact keepsMerged_merged.trans hf.toQuiet.keepsMerged
  | split _ _ _ _ _ _ _ _ hf => exact keepsMerged_split.trans hf.toQuiet.keepsMerged
  | link _ _ _ _ _ hf => exact keepsMerged_merged.trans hf.toQuiet.keepsMerged
  | keepApart _ _ _ hf =>
    refine KeepsMerged.trans ?_ hf.toQuiet.keepsMerged
    exact ⟨fun _ hx => hx, fun _ _ => rfl, fun _ _ => rfl⟩

theorem RequestEffect.keepsMerged (he : RequestEffect rt w s request s') (h : Integrity rt w s)
    (hc : ∀ p ∈ request.taken? rt s, ApprovesLive s p.1 p.2) : KeepsMerged s s' := by
  cases he with
  | quiet hq => exact hq.keepsMerged
  | page _ p =>
    exact (p.invariant (P := KeepsMerged s) h (.refl s) (fun _ _ hq hs => hs.trans hq.keepsMerged)
      fun _ _ item _ _ hi hs ho => MasteringService.observe_invariant (P := KeepsMerged s) hi hs
        (fun _ _ hopen => by
          cases hopen with
          | known => exact hs
          | new => exact hs.trans ⟨fun _ hx => hx, fun _ _ => rfl, fun _ _ => rfl⟩)
        (fun _ _ _ _ hs _ hr => hs.trans (keepsMerged_round hr)) ho).2
  | decision hd hd' => exact hd'.keepsMerged (hc _ hd)
  | job hj =>
    exact MasteringService.runJob_invariant (P := KeepsMerged s) (.refl s)
      (fun _ _ hq hs => hs.trans hq.keepsMerged)
      (fun _ _ _ _ hs => hs.trans ⟨fun _ hx => hx, fun _ _ => rfl, fun _ _ => rfl⟩)
      (fun _ _ hs => hs.trans keepsMerged_bump) hj

theorem step_approveMaster (h : Integrity rt w s) {version : Nat} {e : Entity} {who : Principal}
    {taskId : Id} {reason : String}
    (hp : (task, .approve) ∈ (Request.decideTask who taskId .approve reason).taken? rt s)
    (hversion : version ∈ task.publishes? .approve)
    (hdraft : (MasteringService.draftOf s task version).isSome) (he : e ∈ s.entities)
    (hid : task.entityId = some e.id) : ∃ s₁, ApprovesMaster ⟨rt, who, w⟩ s task version e s₁ ∧
      (service rt).step s (.decideTask who taskId .approve reason) =
        (MasteringService.closeTask ⟨rt, who, w⟩ s₁ task .approve reason, .ok (.task taskId)) := by
  obtain ⟨self, _, _, _, hrequest, hstart, htaken⟩ := Request.taken?_eq hp
  cases hrequest
  obtain rfl := start_workspace h.workspaces hstart
  obtain ⟨-, values, provenance, hpayload⟩ := ReviewTask.publishes?_eq_some.mp hversion
  obtain ⟨draft, hdraft⟩ := Option.isSome_iff_exists.mp hdraft
  have hentity : MasteringService.taskEntity ⟨rt, who, w⟩ s task = some e :=
    MasteringService.taskEntity_of_mem h he hid
  obtain ⟨s₁, hs₁⟩ : ∃ s₁, MasteringService.approveMaster ⟨rt, who, w⟩ s task (some e) version
      reason = .ok s₁ := by
    simp only [MasteringService.approveMaster, hdraft]
    exact ⟨_, rfl⟩
  have happly : MasteringService.applyDecision ⟨rt, who, w⟩ s task
      (MasteringService.taskEntity ⟨rt, who, w⟩ s task) .approve reason = .ok (.done s₁) := by
    simp [MasteringService.applyDecision, hpayload, hentity, hs₁, bind, Except.bind, pure,
      Except.pure]
  have hdecide := MasteringService.decideTask_of_taken htaken happly
  refine ⟨s₁, MasteringService.approveMaster_approves h hentity hdraft hs₁, ?_⟩
  simp only [service, transact, Request.who, hstart, bind, Except.bind, serve, hdecide]
  rfl

/-- The approval of a draft makes its entity live again. -/
theorem not_keepsMerged (h : Integrity rt w s) (hp : (task, d) ∈ request.taken? rt s)
    (hc : ¬ ApprovesLive s task d) : ¬ KeepsMerged s ((service rt).next s request) := by
  obtain ⟨-, who, taskId, reason, rfl, -, -⟩ := Request.taken?_eq hp
  unfold ApprovesLive at hc
  push Not at hc
  obtain ⟨version, hversion, hdraft, x, hx, e, he, rfl, hm⟩ := hc
  obtain ⟨rfl, -⟩ := ReviewTask.publishes?_eq_some.mp hversion
  obtain ⟨s₁, ha, hstep⟩ := step_approveMaster h hp hversion hdraft he hx
  rw [System.next, hstep]
  let self : MasteringService := ⟨rt, who, w⟩
  have hframe : Frame self.rt s₁ (self.closeTask s₁ task .approve reason) :=
    MasteringService.closeTask_frame
  intro hk
  obtain ⟨e', he', hid, hm'⟩ := hk.merged e.id ⟨e, he, rfl, hm⟩
  rw [hframe.entities, ha.kept.entities] at he'
  obtain ⟨e₀, -, rfl⟩ := List.mem_map.mp he'
  rw [approveEntity_id] at hid
  simp [approveEntity, onRow, hid] at hm'

/-- What is merged stays merged under every request but the approval of a draft that was left
open. -/
theorem keepsMerged_next_iff (h : Reachable rt w s) : KeepsMerged s ((service rt).next s request) ↔
    ∀ p ∈ request.taken? rt s, ApprovesLive s p.1 p.2 := by
  have hi := integrity_reachable h
  constructor
  · intro hk p hp
    by_contra hc
    exact not_keepsMerged hi hp hc hk
  · exact (next_effect hi request).keepsMerged hi

open Supplier in
theorem keepsMerged_next_ingest : KeepsMerged (after merging)
    ((service .plain).next (after merging) (ingest [observation "b" "2" [("name", .str "B2")]])) :=
  (keepsMerged_next_iff ⟨_, rfl⟩).mpr (by decide +kernel)

open Supplier in
/-- The approval that was left open brings entity 16 back. -/
theorem approve_not_keepsMerged : Reachable .plain workspace (after merging) ∧
    ¬ KeepsMerged (after merging) ((service .plain).next (after merging) (approve (uid 19))) :=
  ⟨⟨_, rfl⟩, fun h => absurd (h.merged (uid 16) (by decide +kernel)) (by decide +kernel)⟩

end Recordlane
