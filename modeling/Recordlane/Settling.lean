import Recordlane.Transactions

/-! Decisions, jobs and the other requests as sequences of moves. -/
namespace Recordlane

variable {rt : Runtime} {w : Workspace} {self : MasteringService} {s s' t : Store} {x : Id}
  {V : Set Id} {task : ReviewTask} {request : Request}

namespace MasteringService

theorem moveMembers_ledger (self : MasteringService) (s : Store) (members : List SourceObject) (x : Id)
    (reason : String) :
    (self.moveMembers s members x reason).masters = s.masters ∧
      (self.moveMembers s members x reason).tasks = s.tasks ∧
      (self.moveMembers s members x reason).outbox = s.outbox := by
  have hone : ∀ (s : Store) (o : SourceObject), (self.setMembership s o x reason).masters = s.masters ∧
      (self.setMembership s o x reason).tasks = s.tasks ∧
      (self.setMembership s o x reason).outbox = s.outbox := by
    intro s o
    unfold setMembership closeMembership
    split
    · exact ⟨rfl, rfl, rfl⟩
    · split <;> exact ⟨rfl, rfl, rfl⟩
  induction members generalizing s with
  | nil => exact ⟨rfl, rfl, rfl⟩
  | cons o members ih =>
    obtain ⟨hm, ht, ho⟩ := ih (s := self.setMembership s o x reason)
    obtain ⟨hm', ht', ho'⟩ := hone s o
    exact ⟨hm.trans hm', ht.trans ht', ho.trans ho'⟩

theorem moveMembers_shift {members : List SourceObject} {reason : String}
    {f : SourceObject → SourceObject} {y : Id}
    (hf : Frame self.rt (s.mapObjects f) (self.moveMembers s members y reason))
    (hmoves : ∀ o ∈ s.objects, f o = o ∨ o.entityId = some x ∧ (f o).entityId = some y) :
    Shift self s (self.moveMembers s members y reason) {x, y} := by
  have hmap : Shift self s (s.mapObjects f) {x, y} := by
    refine .mapObjects fun o ho z hz r => ?_
    rw [Set.mem_insert_iff, Set.mem_singleton_iff, not_or] at hz
    rcases hmoves o ho with he | ⟨hfrom, hto⟩
    · rw [he]
    · refine contributes_of_ne ?_ ?_ r
      · rw [hfrom]
        exact fun he => hz.1 (Option.some.inj he).symm
      · rw [hto]
        exact fun he => hz.2 (Option.some.inj he).symm
  obtain ⟨hmasters, htasks, houtbox⟩ := moveMembers_ledger self s members y reason
  refine (hmap.trans (Y := ∅) ?_).mono (by rw [Set.union_empty])
  exact .idle hf.entities hmasters htasks houtbox hf.drawn hf.domains (by rw [hf.sources])
    hf.objects hf.records

theorem moveAll_shift (h : Integrity self.rt self.workspace s) {y : Id} {reason : String} :
    Shift self s (self.moveMembers s (self.members s x) y reason) {x, y} := by
  refine moveMembers_shift (moveAll_frame h) fun o _ => ?_
  unfold gather
  split
  · next hx =>
    obtain ⟨x', hx', he⟩ := hx
    rw [List.mem_singleton.mp hx'] at he
    exact .inr ⟨he, rfl⟩
  · exact .inl rfl

/-- One round of a merge: only the primary entity may be out of date afterwards. -/
theorem mergeEntity_moves (h : Integrity self.rt self.workspace s) {primaryId id : Id}
    {bound : List (Id × Nat)} (hV : V ⊆ {primaryId})
    (hm : self.mergeEntity primaryId bound s id = .ok s') :
    ∃ V', V' ⊆ {primaryId} ∧ Moves self ⟨s, [], V⟩ ⟨s', [], V'⟩ := by
  unfold mergeEntity at hm
  split at hm
  · cases hm
  · next e he =>
    split at hm
    · cases hm
    · cases hm
      have hshift : Shift self s (self.moveRelationships (self.moveMembers s (self.members s e.id)
          primaryId "approved_merge") e.id primaryId) ({e.id, primaryId} ∪ ∅) :=
        (moveAll_shift h).trans (.idle rfl rfl rfl rfl le_rfl rfl rfl rfl rfl)
      refine ⟨(V ∪ ({e.id, primaryId} ∪ ∅)) \ {e.id}, ?_, .head (.shift hshift) (.single ?_)⟩
      · intro x hx
        have hx' : x = e.id ∨ x = primaryId ∨ x ∈ V := by simpa using hx.1
        rcases hx' with hx' | hx' | hx'
        · exact (hx.2 hx').elim
        · exact hx'
        · exact hV hx'
      · rw [modifyEntity_eq, ← retireEntity_singleton]
        exact .merge

theorem mergeEntities_moves (h : Integrity self.rt self.workspace s) {primaryId : Id}
    {ids : List Id} {bound : List (Id × Nat)} (hp : ∃ e ∈ s.entities, e.id = primaryId)
    (hV : V ⊆ {primaryId}) (hm : ids.foldlM (self.mergeEntity primaryId bound) s = .ok s') :
    ∃ V', V' ⊆ {primaryId} ∧ Moves self ⟨s, [], V⟩ ⟨s', [], V'⟩ := by
  induction ids generalizing s V with
  | nil =>
    rw [List.foldlM_nil, Except.pure_eq_ok] at hm
    subst hm
    exact ⟨V, hV, .refl⟩
  | cons id ids ih =>
    rw [List.foldlM_cons, Except.bind_eq_ok] at hm
    obtain ⟨s₁, hm₁, hm⟩ := hm
    obtain ⟨V₁, hV₁, hfirst⟩ := mergeEntity_moves h hV hm₁
    obtain ⟨-, hf₁⟩ := mergeEntity_frame h hm₁
    have hi₁ := ((integrity_gather h hp).mapEntities retireEntity_row).frame hf₁
    have hp₁ : ∃ e ∈ s₁.entities, e.id = primaryId := by
      obtain ⟨p, hp, rfl⟩ := hp
      rw [show s₁.entities = s.entities.map (retireEntity [id]) from hf₁.entities]
      exact ⟨_, List.mem_map_of_mem hp, (retireEntity_row p hp).1⟩
    obtain ⟨V', hV', hrest⟩ := ih hi₁ hp₁ hV₁ hm
    exact ⟨V', hV', hfirst.trans hrest⟩

theorem applyMerge_moves (h : Integrity self.rt self.workspace s) {impact : MergeImpact}
    {reason : String} (ha : self.applyMerge s impact reason = .ok s') :
    Moves self s.settled s'.settled := by
  unfold applyMerge at ha
  split at ha
  · cases ha
  · next primary hprimary =>
    split at ha
    · cases ha
    · simp only [Except.bind_eq_ok, Except.pure_eq_ok, Prod.exists] at ha
      obtain ⟨s₁, hm, s₂, draft, hdraft, rfl⟩ := ha
      obtain ⟨he, -⟩ := entity?_mem hprimary
      obtain ⟨V', hV', hmerge⟩ := mergeEntities_moves h ⟨primary, he, rfl⟩ (Set.empty_subset _) hm
      exact (hmerge.trans (bump_draft hV' hdraft)).tail (.announce .merged)

theorem linkMatch_moves (h : Integrity self.rt self.workspace s)
    {leftRecord rightRecord targetId : Id} {left right : Option Id} {bound : Nat}
    (ha : self.linkMatch s task leftRecord rightRecord left right targetId bound = .ok s') :
    Moves self s.settled s'.settled := by
  unfold linkMatch at ha
  split at ha
  · next source target hsource htarget =>
    split at ha
    · cases ha
    · split at ha
      · cases ha
      · split at ha
        · split at ha
          · split at ha
            · cases ha
            · simp only [Except.bind_eq_ok, Except.pure_eq_ok, Prod.exists] at ha
              obtain ⟨-, -, s₁, draft, hdraft, rfl⟩ := ha
              have hmerge : Move self ⟨self.moveMembers s (self.members s source.id) target.id
                  "approved_match", [], {source.id, target.id}⟩ ⟨(self.moveMembers s
                    (self.members s source.id) target.id "approved_match").mapEntities
                      (retireEntity [source.id]), [], {source.id, target.id} \ {source.id}⟩ := .merge
              have hleft : ({source.id, target.id} \ {source.id} : Set Id) ⊆ {target.id} := by
                rintro y ⟨hy | hy, hne⟩
                · exact (hne hy).elim
                · exact hy
              rw [retireEntity_singleton] at hmerge
              exact ((shift_moves (moveAll_shift h)).tail hmerge).trans (bump_draft hleft hdraft)
          · cases ha
        · cases ha
  · cases ha

theorem applySplit_moves (h : Integrity self.rt self.workspace s) {records objects : List Id}
    {reason : String} (ha : self.applySplit s task records objects reason = .ok s') :
    Moves self s.settled s'.settled := by
  unfold applySplit at ha
  split at ha
  · cases ha
  · next original horiginal =>
    obtain ⟨id, -, hfind⟩ := Option.bind_eq_some_iff.mp horiginal
    obtain ⟨he, -⟩ := entity?_mem hfind
    dsimp only at ha
    split at ha
    · cases ha
    · simp only [Except.bind_eq_ok, Except.pure_eq_ok, Prod.exists] at ha
      obtain ⟨s₁, draft₁, hd₁, s₂, draft₂, hd₂, rfl⟩ := ha
      let new : Entity := ⟨self.fresh s, self.wid, original.domainKey, .candidate, 1⟩
      have hi : Integrity self.rt self.workspace (s.insertEntity new) := h.insertEntity rfl rfl
      have hnew : original.id ≠ new.id := (h.entities original he).2.ne_uid
      let members := (self.members (s.insertEntity new) original.id).filter fun o =>
        objects.contains o.id
      have hsub : members.Sublist (s.insertEntity new).objects :=
        List.filter_sublist.trans (self.members_sublist original.id)
      have hmove : Shift self (s.insertEntity new)
          (self.moveMembers (s.insertEntity new) members new.id "approved_split")
          {original.id, new.id} := by
        refine moveMembers_shift (moveSome_frame hi hsub) fun o ho => ?_
        unfold attach
        split
        · next hid =>
          obtain ⟨m, hm, hid⟩ := List.mem_map.mp hid
          obtain ⟨hm, hx⟩ := (mem_members hi).mp (List.mem_of_mem_filter hm)
          rw [hi.objectIds.eq_of_mem hm ho hid] at hx
          exact .inr ⟨hx, rfl⟩
        · exact .inl rfl
      have hcreate : Move self s.settled ⟨s.insertEntity new, [new.id], ∅⟩ := .create rfl rfl
      have hshift : Move self ⟨s.insertEntity new, [new.id], ∅⟩
          ⟨self.moveMembers (s.insertEntity new) members new.id "approved_split", [new.id],
            ∅ ∪ {original.id, new.id}⟩ := .shift hmove
      rw [Set.empty_union] at hshift
      have hfirst : Move self ⟨(self.moveMembers (s.insertEntity new) members new.id
          "approved_split").mapEntities (bump original.id), [original.id, new.id],
            {original.id, new.id}⟩ ⟨s₁, [new.id], {original.id, new.id} \ {original.id}⟩ :=
        .draft (by simpa using hnew) hd₁
      have hleft : ({original.id, new.id} \ {original.id} : Set Id) ⊆ {new.id} := by
        rintro y ⟨hy | hy, hne⟩
        · exact (hne hy).elim
        · exact hy
      have hdrafted : Moves self s.settled s₂.settled :=
        (((Relation.ReflTransGen.single hcreate).tail hshift).tail .bump).tail hfirst |>.trans
          (settled_draft hleft hd₂)
      refine (hdrafted.tail (.announce .split)).tail (.ask ?_)
      simp [ReviewTask.kind, TaskPayload.kind]

theorem keepApart_shift {leftRecord rightRecord : Id} {left right : Option Id} {reason : String}
    (ha : self.keepApart s leftRecord rightRecord left right reason = .ok s') : Shift self s s' ∅ := by
  unfold keepApart at ha
  split at ha
  · split at ha
    · cases ha
    · cases ha
      exact .idle rfl rfl rfl rfl (Nat.le_succ _) rfl rfl rfl rfl
  · dsimp only at ha
    split at ha
    · cases ha
    · cases ha
      exact .idle rfl rfl rfl rfl (Nat.le_succ _) rfl rfl rfl rfl

theorem closeTask_moves {owed : List Id} {d : Decision} {reason : String} :
    Moves self ⟨s, owed, V⟩ ⟨self.closeTask s task d reason, owed, V⟩ := by
  refine .head (.settle ?_ : Move self _ ⟨s.modifyTask task.id _, owed, V⟩)
    (Moves.shift (self.audit_shift ..))
  exact ⟨fun _ => rfl, fun _ => rfl, fun _ => rfl, fun _ => rfl, fun _ => rfl, fun _ => by
    dsimp only
    split <;> simp⟩

end MasteringService

/-- The entities whose surviving values a change of the configuration moves. -/
def Revalued (svc : MasteringService) (s t : Store) : Set Id :=
  {x | ∃ e ∈ s.entities, e.id = x ∧
    ∃ values, svc.survivors s e = .ok values ∧ svc.survivors t e ≠ .ok values}

theorem shift_revalued (hentities : t.entities = s.entities) (hmasters : t.masters = s.masters)
    (htasks : t.tasks = s.tasks) (houtbox : t.outbox = s.outbox) (hdrawn : s.drawn ≤ t.drawn) :
    Shift self s t (Revalued self s t) := by
  refine ⟨hentities, hmasters, htasks, houtbox, hdrawn, fun e he hX values hvalues => ?_⟩
  by_contra hne
  exact hX ⟨e, he, rfl, values, hvalues, hne⟩

namespace MasteringService

theorem activateDomain_ledger {configId : Id} {state state' : Store × List Id}
    {entry : String × CompiledPolicy} (h : self.activateDomain configId state entry = .ok state') :
    state'.1.entities = state.1.entities ∧ state'.1.masters = state.1.masters ∧
      state'.1.tasks = state.1.tasks ∧ state'.1.outbox = state.1.outbox ∧
      state.1.drawn ≤ state'.1.drawn := by
  unfold activateDomain at h
  dsimp only at h
  split at h
  · cases h
  · cases h
    exact ⟨rfl, rfl, rfl, rfl, Nat.le_succ _⟩

/-- The approval of a configuration leaves the ledger alone, or marks its own task stale. -/
theorem activateConfiguration_ledger {configId simulationId : Id} {checksum : String} {a : Applied}
    (h : self.activateConfiguration s task configId checksum simulationId = .ok a) :
    (∃ s', a = .done s' ∧ s'.entities = s.entities ∧ s'.masters = s.masters ∧ s'.tasks = s.tasks ∧
        s'.outbox = s.outbox ∧ s.drawn ≤ s'.drawn) ∨
      ∃ e, a = .staled (s.modifyTask task.id fun t => { t with status := .stale }) e := by
  unfold activateConfiguration at h
  dsimp only at h
  split at h
  · split at h
    · cases h
    · split at h
      · cases h
        exact .inr ⟨_, rfl⟩
      · simp only [Except.bind_eq_ok, Except.pure_eq_ok, Prod.exists] at h
        obtain ⟨policies, -, s₁, jobs, hfold, rfl⟩ := h
        obtain ⟨hentities, hmasters, htasks, houtbox, hdrawn⟩ := Except.foldlM_invariant
          (P := fun state => state.1.entities = s.entities ∧ state.1.masters = s.masters ∧
            state.1.tasks = s.tasks ∧ state.1.outbox = s.outbox ∧ s.drawn ≤ state.1.drawn)
          hfold ⟨rfl, rfl, rfl, rfl, le_rfl⟩ fun state entry state' _ hs hstep => by
            obtain ⟨he, hm, ht, ho, hd⟩ := activateDomain_ledger hstep
            exact ⟨he.trans hs.1, hm.trans hs.2.1, ht.trans hs.2.2.1, ho.trans hs.2.2.2.1,
              hs.2.2.2.2.trans hd⟩
        exact .inl ⟨_, rfl, hentities, hmasters, htasks, houtbox, hdrawn.trans (Nat.le_succ _)⟩
  · cases h

theorem stale_settles : Settles fun t : ReviewTask => { t with status := .stale } :=
  ⟨fun _ => rfl, fun _ => rfl, fun _ => rfl, fun _ => rfl, fun _ => rfl, fun _ => by simp⟩

theorem taken?_spec {taskId : Id} {d : Decision} (h : self.taken? s taskId d = some task) :
    task ∈ s.tasks ∧ task.status = .opened ∧
      ∀ e, self.taskEntity s task = some e → task.boundEntityVersion = some e.version := by
  have htaken := (Option.filter_eq_some_iff.mp h).2
  simp only [Bool.and_eq_true, decide_eq_true_eq, Bool.not_eq_true'] at htaken
  obtain ⟨⟨⟨hopen, -⟩, hstale⟩, -⟩ := htaken
  refine ⟨taken?_mem h, hopen, fun e he => ?_⟩
  rw [isStale, he] at hstale
  simpa using hstale

theorem approve_moves {taskId : Id} {version : Nat} {values provenance : Dict} {reason : String}
    (htaken : self.taken? s taskId .approve = some task)
    (hp : task.payload = .masterApproval version values provenance)
    (ha : self.approveMaster s task (self.taskEntity s task) version reason = .ok t) :
    Moves self s.settled (self.closeTask t task .approve reason).settled := by
  obtain ⟨hmem, hopen, hbound⟩ := taken?_spec htaken
  cases he : self.taskEntity s task with
  | none =>
    rw [he] at ha
    cases hdraft : draftOf s task version <;> simp [approveMaster, hdraft, httpError] at ha
  | some e =>
    rw [he] at ha
    obtain ⟨hentity, hid⟩ := taskEntity_mem he
    refine .head (.approve hmem hp hopen hentity hid (hbound e he) ha (f := fun t =>
      { t with
        status := .approved
        decisionReason := some reason
        decidedBy := some self.principal.subject }) ?_) (Moves.shift (self.audit_shift ..))
    exact ⟨fun _ => rfl, fun _ => rfl, fun _ => rfl, fun _ => rfl, fun _ => rfl, fun _ => by simp⟩

/-- What a decision applies leaves no debt once its task is closed, but for the entities an
activated configuration revalues. -/
theorem applyDecision_moves (h : Integrity self.rt self.workspace s) {taskId : Id} {d : Decision}
    {reason : String} {a : Applied} (htaken : self.taken? s taskId d = some task)
    (ha : self.applyDecision s task (self.taskEntity s task) d reason = .ok a) :
    (∃ t e, a = .staled t e ∧ Moves self s.settled t.settled) ∨
      ∃ t, a = .done t ∧ (Moves self s.settled (self.closeTask t task d reason).settled ∨
        Moves self s.settled ⟨self.closeTask t task d reason, [],
            Revalued self s (self.closeTask t task d reason)⟩ ∧
          d = .approve ∧ task.kind = .configurationApproval) := by
  have hclose : ∀ t, Moves self s.settled t.settled →
      Moves self s.settled (self.closeTask t task d reason).settled :=
    fun t hm => hm.trans closeTask_moves
  unfold applyDecision at ha
  split at ha
  · simp only [Except.bind_eq_ok, Except.pure_eq_ok] at ha
    obtain ⟨t, ht, rfl⟩ := ha
    exact .inr ⟨t, rfl, .inl (hclose t (linkMatch_moves h ht))⟩
  · simp only [Except.bind_eq_ok, Except.pure_eq_ok] at ha
    obtain ⟨t, ht, rfl⟩ := ha
    exact .inr ⟨t, rfl, .inl (hclose t (Moves.shift (keepApart_shift ht)))⟩
  · simp only [Except.bind_eq_ok, Except.pure_eq_ok] at ha
    obtain ⟨t, ht, rfl⟩ := ha
    exact .inr ⟨t, rfl, .inl (hclose t (Moves.shift (keepApart_shift ht)))⟩
  · next hp =>
    simp only [Except.bind_eq_ok, Except.pure_eq_ok] at ha
    obtain ⟨t, ht, rfl⟩ := ha
    exact .inr ⟨t, rfl, .inl (approve_moves htaken hp ht)⟩
  · next hp =>
    rcases activateConfiguration_ledger ha with ⟨t, rfl, he, hm, ht, ho, hd⟩ | ⟨e, rfl⟩
    · refine .inr ⟨t, rfl, .inr ⟨?_, rfl, by simp [ReviewTask.kind, hp, TaskPayload.kind]⟩⟩
      exact (shift_moves (shift_revalued he hm ht ho hd)).trans closeTask_moves
    · exact .inl ⟨_, e, rfl, .single (.settle stale_settles)⟩
  · simp only [Except.bind_eq_ok, Except.pure_eq_ok] at ha
    obtain ⟨t, ht, rfl⟩ := ha
    exact .inr ⟨t, rfl, .inl (hclose t (applyMerge_moves h ht))⟩
  · simp only [Except.bind_eq_ok, Except.pure_eq_ok] at ha
    obtain ⟨t, ht, rfl⟩ := ha
    exact .inr ⟨t, rfl, .inl (hclose t (applySplit_moves h ht))⟩
  · rw [Except.pure_eq_ok] at ha
    exact .inr ⟨s, ha.symm, .inl (hclose s .refl)⟩

theorem decideTask_moves (h : Integrity self.rt self.workspace s) {taskId : Id} {d : Decision}
    {reason : String} {answer : Py Unit} (hd : self.decideTask s taskId d reason = .ok (s', answer)) :
    Moves self s.settled s'.settled ∨
      Moves self s.settled ⟨s', [], Revalued self s s'⟩ ∧ ∃ task, self.taken? s taskId d = some task ∧
        d = .approve ∧ task.kind = .configurationApproval := by
  unfold decideTask at hd
  split at hd
  · cases hd
  · next task htask =>
    split at hd
    · cases hd
    · next hopen =>
      split at hd
      · cases hd
      · next hallowed =>
        split at hd
        · cases hd
          exact .inl (.single (.settle stale_settles))
        · next hstale =>
          split at hd
          · cases hd
          · next hduties =>
            have htaken : self.taken? s taskId d = some task := by
              have hfree : task.sensitive = false ∨ task.proposedBy ≠ self.principal.subject := by
                simpa [imp_iff_not_or] using hduties
              rw [taken?, htask]
              simp_all
            simp only [Except.bind_eq_ok] at hd
            obtain ⟨a, ha, hd⟩ := hd
            rcases applyDecision_moves h htaken ha with ⟨t, e, rfl, hm⟩ | ⟨t, rfl, hm | ⟨hm, hd', hk⟩⟩
            · cases hd
              exact .inl hm
            · cases hd
              exact .inl hm
            · cases hd
              exact .inr ⟨hm, task, htaken, hd', hk⟩

theorem reindex_shift {domainKey : String} {policy : CompiledPolicy} {o : SourceObject}
    (h : self.reindex policy domainKey s o = .ok s') : Shift self s s' ∅ := by
  unfold reindex at h
  split at h
  · cases h
    exact .refl s
  · simp only [Except.bind_eq_ok, Except.pure_eq_ok] at h
    obtain ⟨normalized, -, keys, -, rfl⟩ := h
    have hcore : ∀ (id : Id) (r : SourceRecord), (onRow SourceRecord.id id (fun r =>
        { r with normalized := normalized, blockingKey := keys.headD "" }) r).core = r.core := by
      intro id r
      unfold onRow
      split <;> rfl
    rw [← Set.union_empty ∅]
    exact (Shift.mapRecords (hcore _)).trans (.idle rfl rfl rfl rfl (Nat.le_succ _) rfl rfl rfl rfl)

theorem runJob_moves {jobId : Id} (h : self.runJob s jobId = .ok s') :
    Moves self s.settled s'.settled := by
  have hredraft : ∀ (u : Store) (id : Id) (u' : Store), self.redraft u id = .ok u' →
      Moves self u.settled u'.settled := by
    intro u id u' hstep
    unfold redraft at hstep
    simp only [Except.bind_eq_ok, Except.pure_eq_ok, Prod.exists] at hstep
    obtain ⟨u₁, draft, hdraft, rfl⟩ := hstep
    exact bump_draft (Set.empty_subset _) hdraft
  unfold runJob at h
  split at h
  · cases h
  · simp only [Except.bind_eq_ok, Except.pure_eq_ok] at h
    obtain ⟨s₁, hjob, rfl⟩ := h
    refine Relation.ReflTransGen.trans (b := s₁.settled) ?_
      (Moves.shift (.idle rfl rfl rfl rfl le_rfl rfl rfl rfl rfl))
    unfold remasterDomain at hjob
    dsimp only at hjob
    split at hjob
    · cases hjob
    · rw [Except.bind_eq_ok] at hjob
      obtain ⟨policy, -, hjob⟩ := hjob
      split at hjob
      · cases hjob
      · simp only [Except.bind_eq_ok, Except.pure_eq_ok] at hjob
        obtain ⟨s₂, hobjects, s₃, hentities, rfl⟩ := hjob
        have hcleared : ∀ blocks, Shift self s { s with blocks := blocks } ∅ :=
          fun _ => .idle rfl rfl rfl rfl le_rfl rfl rfl rfl rfl
        have h₂ := Except.foldlM_invariant (P := fun t : Store => Moves self s.settled t.settled) hobjects
          (Moves.shift (hcleared _)) fun u o u' _ hm hstep => hm.trans (Moves.shift (reindex_shift hstep))
        have h₃ := Except.foldlM_invariant (P := fun t : Store => Moves self s.settled t.settled) hentities h₂
          fun u id u' _ hm hstep => hm.trans (hredraft u id u' hstep)
        exact h₃.trans (Moves.shift (self.audit_shift ..))

theorem createDomain_moves {key name mode : String} {definition : Dict} {d : Domain}
    (h : self.createDomain s key name mode definition = .ok (s', d)) :
    Moves self s.settled s'.settled := by
  unfold createDomain at h
  split at h
  · cases h
  · simp only [Except.bind_eq_ok, Except.pure_eq_ok, Prod.mk.injEq] at h
    obtain ⟨policy, -, rfl, -⟩ := h
    exact Moves.shift (.extended rfl rfl rfl rfl (Nat.le_add_right _ 2) (domainsKept_append rfl)
      (ranksKept_of_map rfl) rfl rfl)

theorem createSource_moves {key name kind : String} {priority : Int} {x : Source}
    (h : self.createSource s key name kind priority = .ok (s', x)) : Moves self s.settled s'.settled := by
  unfold createSource at h
  split at h
  · cases h
  · cases h
    exact Moves.shift (.extended rfl rfl rfl rfl (Nat.le_add_right _ 2) (domainsKept_of_eq rfl)
      (ranksKept_append rfl) rfl rfl)

theorem replaceSource_moves {sourceKey key name kind : String} {priority : Int} {x : Source}
    (h : self.replaceSource s sourceKey key name kind priority = .ok (s', x)) :
    Moves self s.settled ⟨s', [], Revalued self s s'⟩ := by
  unfold replaceSource at h
  split at h
  · cases h
  · split at h
    · cases h
    · cases h
      exact shift_moves (shift_revalued rfl rfl rfl rfl (Nat.le_succ _))

theorem createRelationship_moves {fromId toId kind : String}
    (h : self.createRelationship s fromId toId kind = .ok s') : Moves self s.settled s'.settled := by
  unfold createRelationship at h
  dsimp only at h
  split at h
  · cases h
  · split at h
    · cases h
    · cases h
      exact Moves.shift (.idle rfl rfl rfl rfl (Nat.le_add_right _ 2) rfl rfl rfl rfl)

theorem createConfig_moves {document : Json} {c : ConfigurationVersion}
    (h : self.createConfig s document = .ok (s', c)) : Moves self s.settled s'.settled := by
  unfold createConfig at h
  split at h
  · cases h
  · simp only [Except.bind_eq_ok, Except.pure_eq_ok, Prod.mk.injEq] at h
    obtain ⟨policies, -, rfl, -⟩ := h
    exact Moves.shift (.idle rfl rfl rfl rfl (Nat.le_add_right _ 2) rfl rfl rfl rfl)

theorem revertConfig_moves {configId : Id} {c : ConfigurationVersion}
    (h : self.revertConfig s configId = .ok (s', c)) : Moves self s.settled s'.settled := by
  unfold revertConfig at h
  split at h
  · cases h
  · simp only [Except.bind_eq_ok, Except.pure_eq_ok, Prod.exists, Prod.mk.injEq] at h
    obtain ⟨s₁, c₁, hcreate, rfl, -⟩ := h
    exact (createConfig_moves hcreate).trans (Moves.shift (self.audit_shift ..))

theorem simulate_moves {configId : Id} {x : Simulation}
    (h : self.simulate s configId = .ok (s', x)) : Moves self s.settled s'.settled := by
  unfold simulate at h
  split at h
  · cases h
  · simp only [Except.bind_eq_ok, Except.pure_eq_ok, Prod.mk.injEq] at h
    obtain ⟨policies, -, details, -, rfl, -⟩ := h
    exact Moves.shift (.idle rfl rfl rfl rfl (Nat.le_succ _) rfl rfl rfl rfl)

theorem proposeConfig_moves {configId simulationId : Id} {task : ReviewTask}
    (h : self.proposeConfig s configId simulationId = .ok (s', task)) :
    Moves self s.settled s'.settled := by
  unfold proposeConfig at h
  split at h
  · cases h
  · split at h
    · cases h
    · dsimp only at h
      split at h
      · cases h
      · cases h
        have hsupersede : Moves self s.settled (self.supersedeProposal s).settled := by
          unfold supersedeProposal
          split
          · refine .single (.settle ?_)
            exact ⟨fun _ => rfl, fun _ => rfl, fun _ => rfl, fun _ => rfl, fun _ => rfl, fun _ => by
              simp⟩
          · exact .refl
        refine (hsupersede.tail (.ask ?_)).trans (Moves.shift (self.audit_shift ..))
        simp [ReviewTask.kind, TaskPayload.kind]

theorem proposeMerge_moves {entityIds : List Id} {reason : String} {dryRun : Bool}
    {impact : MergeImpact} {taskId : Option Id}
    (h : self.proposeMerge s entityIds reason dryRun = .ok (s', impact, taskId)) :
    Moves self s.settled s'.settled := by
  unfold proposeMerge at h
  dsimp only at h
  split at h
  · cases h
  · split at h
    · cases h
    · split at h
      · cases h
      · split at h
        · cases h
        · split at h
          · cases h
            exact .refl
          · cases h
            refine .head (.ask ?_) (Moves.shift (self.audit_shift ..))
            simp [ReviewTask.kind, TaskPayload.kind]

theorem proposeSplit_moves {entityId : Id} {sourceRecordIds : List Id} {reason : String}
    {task : ReviewTask} (h : self.proposeSplit s entityId sourceRecordIds reason = .ok (s', task)) :
    Moves self s.settled s'.settled := by
  unfold proposeSplit at h
  split at h
  · cases h
  · dsimp only at h
    split at h
    · cases h
    · cases h
      refine .head (.ask ?_) (Moves.shift (self.audit_shift ..))
      simp [ReviewTask.kind, TaskPayload.kind]

end MasteringService

/-- The request replaces a source, or it approves a configuration. -/
def Request.reconfigures (rt : Runtime) (s : Store) (request : Request) : Bool :=
  match request with
  | .replaceSource .. => true
  | request => (request.taken? rt s).any fun p =>
      p.2 = .approve && p.1.kind = .configurationApproval

/-- Every request is a sequence of moves. It leaves no debt, but for the entities that a replaced
source or an activated configuration revalues. -/
theorem next_moves (h : Integrity rt w s) (request : Request) :
    Moves ⟨rt, request.who, w⟩ s.settled ((service rt).next s request).settled ∨
      request.reconfigures rt s ∧ Moves ⟨rt, request.who, w⟩ s.settled
        ⟨(service rt).next s request, [], Revalued ⟨rt, request.who, w⟩ s ((service rt).next s request)⟩ := by
  cases ht : transact rt s request with
  | error e =>
    rw [show (service rt).next s request = s by simp only [System.next, service, ht]]
    exact .inl .refl
  | ok committed =>
    obtain ⟨s', answer⟩ := committed
    rw [show (service rt).next s request = s' by simp only [System.next, service, ht]]
    obtain ⟨hstart, hs⟩ := transact_serve h.workspaces ht
    cases request with
    | createDomain =>
      simp only [serve, Except.bind_eq_ok, Except.pure_eq_ok, Prod.exists, Prod.mk.injEq] at hs
      obtain ⟨_, _, hs, rfl, -⟩ := hs
      exact .inl (MasteringService.createDomain_moves hs)
    | createSource =>
      simp only [serve, Except.bind_eq_ok, Except.pure_eq_ok, Prod.exists, Prod.mk.injEq] at hs
      obtain ⟨_, _, hs, rfl, -⟩ := hs
      exact .inl (MasteringService.createSource_moves hs)
    | replaceSource =>
      simp only [serve, Except.bind_eq_ok, Except.pure_eq_ok, Prod.exists, Prod.mk.injEq] at hs
      obtain ⟨_, _, hs, rfl, -⟩ := hs
      exact .inr ⟨rfl, MasteringService.replaceSource_moves hs⟩
    | createRelationship =>
      simp only [serve, Except.bind_eq_ok, Except.pure_eq_ok, Prod.mk.injEq] at hs
      obtain ⟨_, hs, rfl, -⟩ := hs
      exact .inl (MasteringService.createRelationship_moves hs)
    | ingest who req =>
      simp only [serve, Except.bind_eq_ok, Except.pure_eq_ok, Prod.exists, Prod.mk.injEq] at hs
      obtain ⟨_, _, hs, rfl, -⟩ := hs
      rcases MasteringService.ingest_cases hs with ⟨rfl, -⟩ | ⟨p, rfl, -⟩
      · exact .inl .refl
      · exact .inl (p.moves h)
    | proposeMerge =>
      simp only [serve, Except.bind_eq_ok, Except.pure_eq_ok, Prod.exists, Prod.mk.injEq] at hs
      obtain ⟨_, _, _, hs, rfl, -⟩ := hs
      exact .inl (MasteringService.proposeMerge_moves hs)
    | proposeSplit =>
      simp only [serve, Except.bind_eq_ok, Except.pure_eq_ok, Prod.exists, Prod.mk.injEq] at hs
      obtain ⟨_, _, hs, rfl, -⟩ := hs
      exact .inl (MasteringService.proposeSplit_moves hs)
    | decideTask who taskId d reason =>
      simp only [serve, Except.bind_eq_ok, Except.pure_eq_ok, Prod.exists, Prod.mk.injEq] at hs
      obtain ⟨_, _, hs, rfl, -⟩ := hs
      rcases MasteringService.decideTask_moves h hs with hm | ⟨hm, task, htaken, rfl, hk⟩
      · exact .inl hm
      · refine .inr ⟨?_, hm⟩
        rw [Request.who] at hstart htaken
        simp [Request.reconfigures, Request.taken?, hstart, htaken, hk]
    | createConfig =>
      simp only [serve, Except.bind_eq_ok, Except.pure_eq_ok, Prod.exists, Prod.mk.injEq] at hs
      obtain ⟨_, _, hs, rfl, -⟩ := hs
      exact .inl (MasteringService.createConfig_moves hs)
    | revertConfig =>
      simp only [serve, Except.bind_eq_ok, Except.pure_eq_ok, Prod.exists, Prod.mk.injEq] at hs
      obtain ⟨_, _, hs, rfl, -⟩ := hs
      exact .inl (MasteringService.revertConfig_moves hs)
    | simulate =>
      simp only [serve, Except.bind_eq_ok, Except.pure_eq_ok, Prod.exists, Prod.mk.injEq] at hs
      obtain ⟨_, _, hs, rfl, -⟩ := hs
      exact .inl (MasteringService.simulate_moves hs)
    | proposeConfig =>
      simp only [serve, Except.bind_eq_ok, Except.pure_eq_ok, Prod.exists, Prod.mk.injEq] at hs
      obtain ⟨_, _, hs, rfl, -⟩ := hs
      exact .inl (MasteringService.proposeConfig_moves hs)
    | runJob =>
      simp only [serve, Except.bind_eq_ok, Except.pure_eq_ok, Prod.mk.injEq] at hs
      obtain ⟨_, hs, rfl, -⟩ := hs
      exact .inl (MasteringService.runJob_moves hs)

theorem commit_invariant {P : Point → Prop} (hi : Integrity rt w s)
    (hP : P s.settled) (hmove : ∀ who p q, Move ⟨rt, who, w⟩ p q → P p → P q)
    (hdrop : ∀ t X, P ⟨t, [], X⟩ → P t.settled) (requests : List Request) :
    P ((service rt).run s requests).settled := by
  have hmoves : ∀ {who p q}, Moves ⟨rt, who, w⟩ p q → P p → P q := by
    intro who p q hm hp
    induction hm with
    | refl => exact hp
    | tail _ hlast ih => exact hmove who _ _ hlast ih
  refine ((service rt).run_invariant (P := fun s => Integrity rt w s ∧ P s.settled) ⟨hi, hP⟩
    ((service rt).along_of_forall (fun _ _ => trivial) requests) ?_).2
  intro s request hs (_ : True)
  refine ⟨integrity_step hs.1 request, ?_⟩
  rcases next_moves hs.1 request with hm | ⟨-, hm⟩
  · exact hmoves hm hs.2
  · exact hdrop _ _ (hmoves hm hs.2)

end Recordlane
