import Mathlib.Data.Finset.Dedup
import Recordlane.MergedEntities

/-! Entity versions: every change of the sources of an entity counts its version up. -/
namespace Recordlane

variable {rt : Runtime} {w : Workspace} {self : MasteringService} {s s' t u : Store}
  {request : Request} {x : Id} {e e' : Entity} {task : ReviewTask} {d : Decision}

/-- What a source object contributes: its current record, or nothing, and whether it is retired. -/
def SourceObject.contribution (o : SourceObject) : Id × Option Id × Bool :=
  (o.id, o.currentRecordId, o.retired)

/-- The contributions of the source objects attached to an entity. -/
def contributions (s : Store) (x : Id) : Finset (Id × Option Id × Bool) :=
  ((s.objects.filter fun o => o.entityId = some x).map SourceObject.contribution).toFinset

/-- The sources of the entity changed, or it was merged. -/
def Changed (s s' : Store) (e e' : Entity) : Prop :=
  contributions s' e.id ≠ contributions s e.id ∨ (e.status ≠ .merged ∧ e'.status = .merged)

instance : Decidable (Changed s s' e e') :=
  inferInstanceAs (Decidable (contributions s' e.id ≠ contributions s e.id ∨
    (e.status ≠ .merged ∧ e'.status = .merged)))

/-- An entity that changed has a larger version. -/
def BindsVersions (s s' : Store) : Prop :=
  ∀ e ∈ s.entities, ∃ e' ∈ s'.entities, e'.id = e.id ∧ (Changed s s' e e' → e.version < e'.version)

instance : Decidable (BindsVersions s s') :=
  inferInstanceAs (Decidable (∀ e ∈ s.entities, ∃ e' ∈ s'.entities, e'.id = e.id ∧
    (Changed s s' e e' → e.version < e'.version)))

/-- The entity is the same up to an approval: its version, its sources, and merged only if before. -/
structure SameSources (s s' : Store) (e e' : Entity) : Prop where
  version : e'.version = e.version
  contributions : contributions s' e.id = contributions s e.id
  status : e'.status = .merged → e.status = .merged

/-- Every entity counts up or stays the same. -/
def Advances (s s' : Store) : Prop :=
  ∀ e ∈ s.entities, ∃ e' ∈ s'.entities, e'.id = e.id ∧ (e.version < e'.version ∨ SameSources s s' e e')

theorem Advances.bindsVersions (h : Advances s s') : BindsVersions s s' := by
  intro e he
  obtain ⟨e', he', hid, hlt | hsame⟩ := h e he
  · exact ⟨e', he', hid, fun _ => hlt⟩
  · refine ⟨e', he', hid, fun hc => ?_⟩
    rcases hc with hc | ⟨hlive, hm⟩
    · exact (hc hsame.contributions).elim
    · exact (hlive (hsame.status hm)).elim

theorem Advances.trans (h : Advances s t) (h' : Advances t u) : Advances s u := by
  intro e he
  obtain ⟨e₁, he₁, hid₁, h₁⟩ := h e he
  obtain ⟨e₂, he₂, hid₂, h₂⟩ := h' e₁ he₁
  refine ⟨e₂, he₂, hid₂.trans hid₁, ?_⟩
  rcases h₁ with hlt₁ | hsame₁ <;> rcases h₂ with hlt₂ | hsame₂
  · exact .inl (hlt₁.trans hlt₂)
  · exact .inl (hsame₂.version ▸ hlt₁)
  · exact .inl (hsame₁.version ▸ hlt₂)
  · exact .inr ⟨hsame₂.version.trans hsame₁.version,
      (hid₁ ▸ hsame₂.contributions).trans hsame₁.contributions,
      fun hm => hsame₁.status (hsame₂.status hm)⟩

theorem mem_contributions {c : Id × Option Id × Bool} :
    c ∈ contributions s x ↔ ∃ o ∈ s.objects, o.entityId = some x ∧ o.contribution = c := by
  simp [contributions, and_assoc]

theorem contributions_map {f : SourceObject → SourceObject}
    (h : ∀ o ∈ s.objects, ((f o).entityId = some x ↔ o.entityId = some x) ∧
      (o.entityId = some x → (f o).contribution = o.contribution))
    (ht : t.objects = s.objects.map f) : contributions t x = contributions s x := by
  ext c
  simp only [mem_contributions, ht, List.mem_map, exists_exists_and_eq_and]
  refine exists_congr fun o => and_congr_right fun ho => ?_
  rw [(h o ho).1]
  exact and_congr_right fun hx => by rw [(h o ho).2 hx]

theorem contributions_congr (h : t.objects = s.objects) : contributions t x = contributions s x := by
  rw [contributions, contributions, h]

theorem advances_mapEntities {f : Entity → Entity} (ho : t.objects = s.objects)
    (he : t.entities = s.entities.map f)
    (hf : ∀ e, (f e).id = e.id ∧ (e.version < (f e).version ∨
      (f e).version = e.version ∧ ((f e).status = .merged → e.status = .merged))) :
    Advances s t := by
  intro e hmem
  refine ⟨f e, he ▸ List.mem_map_of_mem hmem, (hf e).1, (hf e).2.imp_right fun h => ?_⟩
  exact ⟨h.1, contributions_congr ho, h.2⟩

theorem SameRows.advances (h : SameRows rt s t) : Advances s t :=
  advances_mapEntities (f := id) h.objects (by rw [h.entities, List.map_id])
    fun _ => ⟨rfl, .inr ⟨rfl, id⟩⟩

theorem Advances.refl (s : Store) : Advances s s := (SameRows.refl s : SameRows .plain s s).advances

theorem bump_version_self {y : Id} {e : Entity} (h : e.id = y) : e.version < (bump y e).version := by
  simp [bump, onRow, h]

theorem bump_of_ne {y : Id} {e : Entity} (h : e.id ≠ y) : bump y e = e := by
  simp [bump, onRow, h]

theorem advances_bump {y : Id} : Advances s (s.mapEntities (bump y)) :=
  advances_mapEntities rfl rfl fun e => by
    refine ⟨bump_id e, ?_⟩
    by_cases h : e.id = y
    · exact .inl (bump_version_self h)
    · rw [bump_of_ne h]
      exact .inr ⟨rfl, id⟩

theorem retireEntity_version {ids : List Id} {e : Entity} :
    (retireEntity ids e).version = e.version := by
  unfold retireEntity
  split <;> rfl

/-- A merge moves the members of the listed entities; where these are the target itself or merged
and without members, only the target changes. -/
theorem advances_merged {ids : List Id} {target : Id}
    (h : ∀ y ∈ ids, y = target ∨ (Merged s y ∧ Memberless s [y])) (hi : Integrity rt w s) :
    Advances s (s.merged ids target) := by
  have hgather : ∀ o ∈ s.objects, gather ids target o = o := by
    intro o ho
    unfold gather
    split
    · next hsource =>
      obtain ⟨y, hy, hoy⟩ := hsource
      rcases h y hy with rfl | ⟨-, hno⟩
      · rw [← hoy]
      · exact (hno o ho y hoy (List.mem_singleton_self y)).elim
    · rfl
  have hobjects : (s.merged ids target).objects = s.objects := calc
    (s.merged ids target).objects = (s.mapObjects (gather ids target)).objects := rfl
    _ = s.objects := by rw [mapObjects_eq_self hgather]
  intro e he
  refine ⟨_, List.mem_map_of_mem he, ?_, ?_⟩
  · rw [Function.comp_apply, bump_id, retireEntity_id]
  · rw [Function.comp_apply]
    by_cases htarget : e.id = target
    · left
      have hlt := bump_version_self (y := target) (e := retireEntity ids e)
        (by rw [retireEntity_id, htarget])
      rwa [retireEntity_version] at hlt
    · right
      rw [bump_of_ne (by rwa [retireEntity_id])]
      refine ⟨retireEntity_version, contributions_congr hobjects, fun hm => ?_⟩
      unfold retireEntity at hm
      split at hm
      · next hid =>
        obtain ⟨e', he', heq, hm'⟩ := ((h e.id hid).resolve_left htarget).1
        rwa [← hi.entityIds.eq_of_mem he' he heq]
      · exact hm

theorem advances_split {ids : List Id} {original : Id} {new : Entity}
    (hm : ∀ o ∈ s.objects, o.id ∈ ids → o.entityId = some original)
    (hid : new.id = rt.uid s.drawn) (hi : Integrity rt w s) :
    Advances s (s.split ids original new) := by
  intro e he
  refine ⟨bump original e, List.mem_map_of_mem (List.mem_append_left _ he), bump_id e, ?_⟩
  by_cases horiginal : e.id = original
  · exact .inl (bump_version_self horiginal)
  · rw [bump_of_ne horiginal]
    refine .inr ⟨rfl, contributions_map (f := attach ids new.id) (fun o ho => ?_) rfl, id⟩
    unfold attach
    split
    · next hmem =>
      have hnew : new.id ≠ e.id := fun heq => (hi.entities e he).2.ne_uid (heq ▸ hid)
      simp [hm o ho hmem, hnew, Ne.symm horiginal]
    · exact ⟨.rfl, fun _ => rfl⟩

theorem advances_opens {source : Source} {domainKey localId : String} {o : SourceObject}
    (ho : Opens self s source domainKey localId t o) : Advances s t := by
  cases ho with
  | known => exact .refl s
  | new =>
    refine fun e he => ⟨e, he, rfl, .inr ⟨rfl, ?_, id⟩⟩
    ext c
    simp [mem_contributions, Store.insertObject, MasteringService.newObject]

/-- A round changes what its object contributes to the entity whose version goes up, if to any that
exists. -/
theorem Fits.contribution_of_ne {source : Source} {domainKey : String} {policy : CompiledPolicy}
    {o : SourceObject} {item : IncomingRecord} {v : Verdict} {c : Findings} {rid : Id}
    (h : Fits self s source domainKey policy o item c v) (hb : c.change ≠ .bump x)
    (hn : x ≠ (self.newEntity s domainKey).id) :
    ((o.after item rid c.target v).entityId = some x ↔ o.entityId = some x) ∧
      (o.entityId = some x → (o.after item rid c.target v).contribution = o.contribution) := by
  cases h with
  | quarantined => exact ⟨.rfl, fun _ => rfl⟩
  | outOfOrder => exact ⟨.rfl, fun _ => rfl⟩
  | retiredFree _ _ _ he => exact ⟨.rfl, by simp [he]⟩
  | retired _ _ _ he hc =>
    refine ⟨.rfl, fun hx => (hb ?_).elim⟩
    rw [hc, Option.some.inj (he.symm.trans hx)]
  | updated _ _ _ he hc =>
    refine ⟨.rfl, fun hx => (hb ?_).elim⟩
    rw [hc, Option.some.inj (he.symm.trans hx)]
  | linked _ _ _ he _ _ _ hc ht =>
    refine ⟨?_, by simp [he]⟩
    simp only [SourceObject.after, he, ht, Option.some.injEq, reduceCtorEq, iff_false]
    rintro rfl
    exact hb hc
  | created _ _ _ he _ ht => simp [SourceObject.after, he, ht, hn.symm]
  | review _ _ _ he _ ht => simp [SourceObject.after, he, ht, hn.symm]

theorem advances_round {source : Source} {domainKey : String} {policy : CompiledPolicy}
    {o : SourceObject} {item : IncomingRecord} {v : Verdict} {c : Findings}
    (hr : Round self s source domainKey policy o item v s' c) (ho : o ∈ s.objects)
    (hi : Integrity self.rt self.workspace s) : Advances s s' := by
  have hsame : ∀ e ∈ s.entities, c.change ≠ .bump e.id → SameSources s s' e e := by
    intro e he hb
    have hne : e.id ≠ (self.newEntity s domainKey).id :=
      ((hi.entities e he).2.mono (Nat.le_add_right _ 3)).ne_uid
    refine ⟨rfl, contributions_map (fun row hrow => ?_) hr.objects, id⟩
    split
    · next hid =>
      rw [hi.objectIds.eq_of_mem hrow ho hid]
      exact hr.fits.contribution_of_ne hb hne
    · exact ⟨.rfl, fun _ => rfl⟩
  intro e he
  rw [hr.entities]
  cases hc : c.change with
  | keep => exact ⟨e, he, rfl, .inr (hsame e he (by simp [hc]))⟩
  | insert new => exact ⟨e, List.mem_append_left _ he, rfl, .inr (hsame e he (by simp [hc]))⟩
  | bump y =>
    refine ⟨bump y e, List.mem_map_of_mem he, bump_id e, ?_⟩
    by_cases hy : e.id = y
    · exact .inl (bump_version_self hy)
    · rw [bump_of_ne hy]
      exact .inr (hsame e he (by simp [hc, Ne.symm hy]))

/-- The decision takes members from no entity but the one it moves them to, and merges no other. -/
def LosesNone (s : Store) (task : ReviewTask) (d : Decision) : Prop :=
  (∀ impact ∈ task.merges? d, ∀ y ∈ impact.mergedEntityIds, y = impact.primaryEntityId) ∧
  ((task.links? d).isSome → ∀ y ∈ task.entityId, Merged s y ∧ Memberless s [y])

instance : Decidable (LosesNone s task d) :=
  inferInstanceAs (Decidable (
    (∀ impact ∈ task.merges? d, ∀ y ∈ impact.mergedEntityIds, y = impact.primaryEntityId) ∧
    ((task.links? d).isSome → ∀ y ∈ task.entityId, Merged s y ∧ Memberless s [y])))

theorem DecisionEffect.advances (he : DecisionEffect self s task d s')
    (hi : Integrity self.rt self.workspace s) (hc : LosesNone s task d) : Advances s s' := by
  cases he with
  | quiet _ hq => exact hq.toSameRows.advances
  | approveMaster _ ha =>
    refine Advances.trans ?_ ha.kept.toSameRows.advances
    refine advances_mapEntities rfl rfl fun e => ⟨approveEntity_id e, .inr ⟨?_, approveEntity_merged⟩⟩
    unfold approveEntity onRow
    split <;> rfl
  | merge hp _ hid _ _ hf =>
    have hmerge := hc.1 _ (ReviewTask.merges?_eq_some.mpr ⟨rfl, _, hp⟩)
    refine (advances_merged (fun y hy => .inl ?_) hi).trans hf.toSameRows.advances
    rw [hid, hmerge y hy]
  | split _ _ _ hm hid _ _ _ hf =>
    exact (advances_split (fun o ho hmem => (hm o ho hmem).1) hid hi).trans hf.toSameRows.advances
  | link hp _ hsid _ _ hf =>
    have hlink := ReviewTask.links?_eq_some.mpr ⟨rfl, _, _, _, _, _, _, hp⟩
    refine (advances_merged (fun y hy => .inr ?_) hi).trans hf.toSameRows.advances
    rw [List.mem_singleton.mp hy]
    exact hc.2 (by rw [hlink]; rfl) _ hsid
  | keepApart _ _ _ hf =>
    refine Advances.trans ?_ hf.toSameRows.advances
    exact advances_mapEntities (f := id) rfl (List.map_id _).symm fun _ => ⟨rfl, .inr ⟨rfl, id⟩⟩

theorem RequestEffect.advances (he : RequestEffect rt w s request s') (h : Integrity rt w s)
    (hc : ∀ p ∈ request.taken? rt s, LosesNone s p.1 p.2) : Advances s s' := by
  cases he with
  | quiet hq => exact hq.toSameRows.advances
  | page _ p =>
    exact (p.invariant (P := Advances s) h (.refl s)
      (fun _ _ hq hs => hs.trans hq.toSameRows.advances)
      fun _ _ _ _ _ hi hs ho => MasteringService.observe_invariant (P := Advances s) hi hs
        (fun _ _ hopen => hs.trans (advances_opens hopen))
        (fun _ _ _ hopen hs hi hr => hs.trans (advances_round hr hopen.mem hi)) ho).2
  | decision hd he => exact he.advances h (hc _ hd)
  | job hj =>
    exact MasteringService.runJob_invariant (P := Advances s) (.refl s)
      (fun _ _ hq hs => hs.trans hq.toSameRows.advances)
      (fun _ _ _ _ hs => hs.trans (advances_mapEntities (f := id) rfl (List.map_id _).symm
        fun _ => ⟨rfl, .inr ⟨rfl, id⟩⟩))
      (fun _ _ hs => hs.trans advances_bump) hj

/-- An entity that is merged elsewhere, or loses its members, keeps its version. -/
theorem not_bindsVersions_merged {ids : List Id} {target y : Id} (hi : Integrity rt w s)
    (ht : ∃ e ∈ s.entities, e.id = target) (hy : y ∈ ids) (hne : y ≠ target)
    (he : e ∈ s.entities) (hid : e.id = y) (hc : e.status ≠ .merged ∨ ¬ Memberless s [y]) :
    ¬ BindsVersions s (s.merged ids target) := by
  subst hid
  intro hb
  obtain ⟨e', he', hid, hchanged⟩ := hb e he
  have hrow : e' = retireEntity ids e := by
    refine (integrity_merged hi ht).entityIds.eq_of_mem he' (List.mem_map.mpr ⟨e, he, ?_⟩) ?_
    · rw [Function.comp_apply, bump_of_ne (by rwa [retireEntity_id])]
    · rw [hid, retireEntity_id]
  rw [hrow, retireEntity_version] at hchanged
  refine absurd (hchanged ?_) (lt_irrefl _)
  rcases hc with hlive | hmembers
  · exact .inr ⟨hlive, by simp [retireEntity, hy]⟩
  · left
    -- a member of the entity is none of its members afterwards
    simp only [Memberless, not_forall] at hmembers
    obtain ⟨o, ho, x, hx, hmem⟩ := hmembers
    obtain rfl := List.mem_singleton.mp (not_not.mp hmem)
    intro heq
    have hin : o.contribution ∈ contributions (s.merged ids target) e.id := by
      rw [heq]
      exact mem_contributions.mpr ⟨o, ho, hx, rfl⟩
    obtain ⟨o', ho', hx', -⟩ := mem_contributions.mp hin
    obtain ⟨o₀, -, rfl⟩ := List.mem_map.mp ho'
    unfold gather at hx'
    split at hx'
    · exact hne (Option.some.inj hx').symm
    · next hsource => exact hsource ⟨_, hy, hx'⟩

theorem BindsVersions.of_sameRows (hb : BindsVersions s t) (h : SameRows rt u t) :
    BindsVersions s u := by
  unfold BindsVersions Changed contributions at hb ⊢
  rwa [h.entities, h.objects] at hb

/-- A decision that takes members from another entity, or merges one, leaves its version. -/
theorem DecisionEffect.not_bindsVersions (he : DecisionEffect self s task d s')
    (hi : Integrity self.rt self.workspace s) (hm : MatchesApart s.tasks) (htask : task ∈ s.tasks)
    (hc : ¬ LosesNone s task d) : ¬ BindsVersions s s' := by
  unfold LosesNone at hc
  rw [not_and_or] at hc
  rcases hc with hc | hc
  · push Not at hc
    obtain ⟨impact, himpact, y, hy, hne⟩ := hc
    obtain ⟨rfl, reason, hp⟩ := ReviewTask.merges?_eq_some.mp himpact
    cases he with
    | quiet hd _ => simp [Inert, hp] at hd
    | approveMaster hp' => simp [hp] at hp'
    | split hp' => simp [hp] at hp'
    | keepApart hd => simp at hd
    | merge hp' hprimary hid _ hl hf =>
      rw [hp] at hp'
      cases hp'
      obtain ⟨e, he, heid, hlive⟩ := hl y hy
      exact fun hb => not_bindsVersions_merged hi ⟨_, hprimary, rfl⟩ hy (hid ▸ hne) he heid (.inl hlive)
        (hb.of_sameRows hf.toSameRows)
  · push Not at hc
    obtain ⟨hlinks, y, hy, hmembers⟩ := hc
    obtain ⟨target, htarget⟩ := Option.isSome_iff_exists.mp hlinks
    obtain ⟨rfl, _, _, _, _, _, _, hp⟩ := ReviewTask.links?_eq_some.mp htarget
    cases he with
    | quiet hd _ => simp [Inert, hp] at hd
    | keepApart hd => simp at hd
    | link hp' hs hsid ht htid hf =>
      have hne := hm task htask _ _ _ _ _ _ _ hp'
      rw [hsid, ← htid] at hne
      rw [hsid] at hy
      cases hy
      refine fun hb => not_bindsVersions_merged hi ⟨_, ht, rfl⟩ (List.mem_singleton_self _)
        (fun heq => hne (congrArg some heq)) hs rfl ?_ (hb.of_sameRows hf.toSameRows)
      by_contra hno
      push Not at hno
      exact hmembers ⟨_, hs, rfl, hno.1⟩ hno.2

/-- Versions count every change of sources up, except for the entities that a merge or a link
which goes through empties. -/
theorem bindsVersions_next_iff (h : Reachable rt w s) :
    BindsVersions s ((service rt).next s request) ↔
      (((service rt).step s request).2.isOk → ∀ p ∈ request.taken? rt s, LosesNone s p.1 p.2) := by
  have hi := integrity_reachable h
  constructor
  · intro hb hok ⟨task, d⟩ hp
    by_contra hc
    rcases step_taken hi hp with ⟨hno, -⟩ | ⟨-, he⟩
    · rw [hno] at hok
      cases hok
    · exact he.not_bindsVersions hi (matchesApart_reachable h) (Request.taken?_mem hp) hc hb
  · intro hc
    by_cases hok : ((service rt).step s request).2.isOk
    · exact ((next_effect hi request).advances hi (hc hok)).bindsVersions
    · cases htaken : request.taken? rt s with
      | none => exact ((next_effect hi request).advances hi (by simp [htaken])).bindsVersions
      | some p =>
        obtain ⟨task, d⟩ := p
        rcases step_taken hi htaken with ⟨-, hq⟩ | ⟨hok', -⟩
        · exact hq.toSameRows.advances.bindsVersions
        · exact (hok hok').elim

open Supplier in
theorem bindsVersions_next_ingest : BindsVersions (after [three])
    ((service .plain).next (after [three]) (ingest [observation "a" "2" [("name", .str "B")]])) :=
  (bindsVersions_next_iff ⟨_, rfl⟩).mpr (by decide +kernel)

open Supplier in
/-- The merge of entity 16 into entity 8 leaves the version of entity 16. -/
theorem merge_not_bindsVersions :
    Reachable .plain workspace (after [three, proposeMerge [uid 8, uid 16]]) ∧
      ¬ BindsVersions (after [three, proposeMerge [uid 8, uid 16]])
        ((service .plain).next (after [three, proposeMerge [uid 8, uid 16]]) (approve (uid 29))) :=
  ⟨⟨_, rfl⟩, by decide +kernel⟩

end Recordlane
