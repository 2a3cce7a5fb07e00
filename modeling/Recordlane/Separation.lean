import Recordlane.MergedEntities

/-! Manual separation: which decisions keep the barred pairs in different entities. -/
namespace Recordlane

variable {rt : Runtime} {w : Workspace} {self : MasteringService} {s s' t : Store}
  {request : Request} {id l r x y : Id} {task : ReviewTask} {d : Decision}

/-- No two source objects of a barred pair have the same entity. -/
def Separated (s : Store) : Prop :=
  ∀ row ∈ s.cannotLinks, ∀ a ∈ s.objects, ∀ b ∈ s.objects,
    a.id = row.leftObjectId → b.id = row.rightObjectId → a.entityId ≠ b.entityId

instance (s : Store) : Decidable (Separated s) :=
  inferInstanceAs (Decidable (∀ row ∈ s.cannotLinks, ∀ a ∈ s.objects, ∀ b ∈ s.objects,
    a.id = row.leftObjectId → b.id = row.rightObjectId → a.entityId ≠ b.entityId))

/-- No barred pair has both its objects in the entities. -/
def NoneBarred (s : Store) (xs : List Id) : Prop :=
  ∀ row ∈ s.cannotLinks, ∀ a ∈ s.objects, ∀ b ∈ s.objects,
    a.id = row.leftObjectId → b.id = row.rightObjectId →
      ¬ ((∃ x ∈ a.entityId, x ∈ xs) ∧ ∃ x ∈ b.entityId, x ∈ xs)

instance (s : Store) (xs : List Id) : Decidable (NoneBarred s xs) :=
  inferInstanceAs (Decidable (∀ row ∈ s.cannotLinks, ∀ a ∈ s.objects, ∀ b ∈ s.objects,
    a.id = row.leftObjectId → b.id = row.rightObjectId →
      ¬ ((∃ x ∈ a.entityId, x ∈ xs) ∧ ∃ x ∈ b.entityId, x ∈ xs)))

/-- The decision brings no barred pair together, and bars none that is together. -/
def KeepsSeparate (s : Store) (task : ReviewTask) (d : Decision) : Prop :=
  (∀ impact ∈ task.merges? d, NoneBarred s (impact.primaryEntityId :: impact.mergedEntityIds)) ∧
  (∀ target ∈ task.links? d, NoneBarred s (target :: task.entityId.toList)) ∧
  ∀ pair ∈ task.separates? d, ∀ a ∈ s.objects, ∀ b ∈ s.objects,
    some a.id = pair.1 → some b.id = pair.2 → a.entityId ≠ b.entityId

instance : Decidable (KeepsSeparate s task d) :=
  inferInstanceAs (Decidable (
    (∀ impact ∈ task.merges? d, NoneBarred s (impact.primaryEntityId :: impact.mergedEntityIds)) ∧
    (∀ target ∈ task.links? d, NoneBarred s (target :: task.entityId.toList)) ∧
    ∀ pair ∈ task.separates? d, ∀ a ∈ s.objects, ∀ b ∈ s.objects,
      some a.id = pair.1 → some b.id = pair.2 → a.entityId ≠ b.entityId))

/-- The source object belongs to the entity. -/
def Attached (s : Store) (id x : Id) : Prop := ∃ o ∈ s.objects, o.id = id ∧ o.entityId = some x

/-- Two source objects that belong to different entities. -/
def Parted (s : Store) (l r : Id) : Prop := ∃ x y, Attached s l x ∧ Attached s r y ∧ x ≠ y

theorem Parted.symm (h : Parted s l r) : Parted s r l := by
  obtain ⟨x, y, hx, hy, hne⟩ := h
  exact ⟨y, x, hy, hx, hne.symm⟩

/-- Every match task asks about two source objects that belong to some entity. -/
def AsksAttached (s : Store) (ts : List ReviewTask) : Prop :=
  ∀ t ∈ ts, ∀ leftRecord rightRecord left right target bound evidence,
    t.payload = .duplicateMatch leftRecord rightRecord (some left) (some right) target bound evidence →
      (∃ x, Attached s left x) ∧ ∃ x, Attached s right x

/-- What carries the separation of the barred pairs through a run. -/
structure Apart (s : Store) : Prop where
  tasks : AsksAttached s s.tasks
  rows : ∀ row ∈ s.cannotLinks, Parted s row.leftObjectId row.rightObjectId

theorem Attached.entityId (h : Attached s id x) (hi : Integrity rt w s) {o : SourceObject}
    (ho : o ∈ s.objects) (hid : o.id = id) : o.entityId = some x := by
  obtain ⟨o', ho', hid', hx⟩ := h
  rwa [hi.objectIds.eq_of_mem ho ho' (hid.trans hid'.symm)]

theorem Apart.separated (h : Apart s) (hi : Integrity rt w s) : Separated s := by
  intro row hrow a ha b hb hl hr
  obtain ⟨x, y, hx, hy, hne⟩ := h.rows row hrow
  rw [hx.entityId hi ha hl, hy.entityId hi hb hr]
  exact fun heq => hne (Option.some.inj heq)

/-- No object leaves its entity. -/
def StaysAttached (s t : Store) : Prop := ∀ id x, Attached s id x → Attached t id x

theorem Parted.of_stays (h : Parted s l r) (ha : StaysAttached s t) : Parted t l r := by
  obtain ⟨x, y, hx, hy, hne⟩ := h
  exact ⟨x, y, ha _ _ hx, ha _ _ hy, hne⟩

theorem AsksAttached.of_attached {ts ts' : List ReviewTask} (h : AsksAttached s ts)
    (ha : ∀ id x, Attached s id x → ∃ y, Attached t id y) (hm : MatchesFrom ts ts') :
    AsksAttached t ts' := by
  intro task htask lr rr l r target n e hp
  obtain ⟨task₀, htask₀, hp₀, -⟩ := hm task htask (by rw [ReviewTask.kind, hp]; rfl)
  obtain ⟨⟨x, hx⟩, y, hy⟩ := h task₀ htask₀ lr rr l r target n e (hp₀.trans hp)
  exact ⟨ha l x hx, ha r y hy⟩

theorem Apart.of_stays (h : Apart s) (ha : StaysAttached s t) (hm : MatchesFrom s.tasks t.tasks)
    (hr : t.cannotLinks = s.cannotLinks) : Apart t where
  tasks := h.tasks.of_attached (fun id x hx => ⟨x, ha id x hx⟩) hm
  rows row hrow := (h.rows row (hr ▸ hrow)).of_stays ha

theorem Apart.kept (h : Apart s) (hk : Kept rt s t) : Apart t := by
  refine h.of_stays (fun id x hx => ?_) hk.tasks hk.cannotLinks
  unfold Attached
  rwa [hk.objects]

theorem attached_merged {ids : List Id} {target : Id} (h : Attached s id x) :
    Attached (s.merged ids target) id (if x ∈ ids then target else x) := by
  obtain ⟨o, ho, hid, hx⟩ := h
  refine ⟨gather ids target o, List.mem_map_of_mem ho, gather_id.trans hid, ?_⟩
  unfold gather
  split
  · next hsource =>
    obtain ⟨y, hy, hoy⟩ := hsource
    rw [if_pos (Option.some.inj (hx.symm.trans hoy) ▸ hy)]
  · next hsource => rw [hx, if_neg fun hmem => hsource ⟨x, hmem, hx⟩]

theorem parted_merged {ids : List Id} {target : Id} (hx : Attached s l x) (hy : Attached s r y)
    (hne : x ≠ y) (hc : ¬ (x ∈ target :: ids ∧ y ∈ target :: ids)) :
    Parted (s.merged ids target) l r := by
  refine ⟨_, _, attached_merged hx, attached_merged hy, ?_⟩
  rw [List.mem_cons, List.mem_cons] at hc
  split <;> split
  · next hxm hym => exact (hc ⟨.inr hxm, .inr hym⟩).elim
  · next hxm _ => exact fun heq => hc ⟨.inr hxm, .inl heq.symm⟩
  · next _ hym => exact fun heq => hc ⟨.inl heq, .inr hym⟩
  · exact hne

theorem apart_merged {ids : List Id} {target : Id} (h : Apart s)
    (hc : NoneBarred s (target :: ids)) : Apart (s.merged ids target) where
  tasks := h.tasks.of_attached (fun _ _ hx => ⟨_, attached_merged hx⟩) (.refl _)
  rows row hrow := by
    obtain ⟨x, y, hx, hy, hne⟩ := h.rows row hrow
    refine parted_merged hx hy hne fun hboth => ?_
    obtain ⟨a, ha, hl, hax⟩ := hx
    obtain ⟨b, hb, hr, hby⟩ := hy
    exact hc row hrow a ha b hb hl hr ⟨⟨x, hax, hboth.1⟩, y, hby, hboth.2⟩

theorem attached_split {ids : List Id} {original : Id} (new : Entity)
    (hm : ∀ o ∈ s.objects, o.id ∈ ids → o.entityId = some original) (h : Attached s id x) :
    Attached (s.split ids original new) id (if id ∈ ids then new.id else x) ∧
      (id ∈ ids → x = original) := by
  obtain ⟨o, ho, rfl, hx⟩ := h
  refine ⟨⟨attach ids new.id o, List.mem_map_of_mem ho, attach_id, ?_⟩, fun hid =>
    Option.some.inj (hx.symm.trans (hm o ho hid))⟩
  unfold attach
  split
  · rfl
  · exact hx

theorem apart_split {ids : List Id} {original : Id} {new : Entity} (hi : Integrity rt w s)
    (h : Apart s) (hm : ∀ o ∈ s.objects, o.id ∈ ids → o.entityId = some original)
    (hid : new.id = rt.uid s.drawn) : Apart (s.split ids original new) where
  tasks := h.tasks.of_attached (fun _ _ hx => ⟨_, (attached_split _ hm hx).1⟩) (.refl _)
  rows row hrow := by
    obtain ⟨x, y, hx, hy, hne⟩ := h.rows row hrow
    have hfresh : ∀ {id z}, Attached s id z → z ≠ new.id := by
      rintro _ z ⟨o, ho, -, hz⟩ rfl
      obtain ⟨e, he, heid⟩ := hi.objectEntity o ho _ hz
      exact (hi.entities e he).2.ne_uid (heid.trans hid)
    obtain ⟨hx', hxo⟩ := attached_split new hm hx
    obtain ⟨hy', hyo⟩ := attached_split new hm hy
    refine ⟨_, _, hx', hy', ?_⟩
    split <;> split
    · next hxm hym => exact (hne ((hxo hxm).trans (hyo hym).symm)).elim
    · exact (hfresh hy).symm
    · exact hfresh hx
    · exact hne

theorem apart_opens {source : Source} {domainKey localId : String} {o : SourceObject}
    (ho : Opens self s source domainKey localId t o) (h : Apart s) : Apart t := by
  refine h.of_stays ?_ (ho.tables.2.2.2.2.1 ▸ .refl _) ho.tables.2.2.2.1
  rintro id x ⟨o', ho', hid, hx⟩
  cases ho with
  | known => exact ⟨o', ho', hid, hx⟩
  | new => exact ⟨o', List.mem_append_left _ ho', hid, hx⟩

section Round

variable {source : Source} {domainKey : String} {policy : CompiledPolicy} {o : SourceObject}
  {item : IncomingRecord} {v : Verdict} {c : Findings}

theorem Fits.resolved {outcome : Resolution}
    (h : Fits self s source domainKey policy o item c (.resolved outcome)) :
    o.entityId = none ∧ ∃ x, c.target = some x := by
  cases h with
  | linked _ _ _ he _ _ _ _ ht => exact ⟨he, _, ht⟩
  | created _ _ _ he _ ht => exact ⟨he, _, ht⟩
  | review _ _ _ he _ ht => exact ⟨he, _, ht⟩

theorem staysAttached_round (hi : Integrity self.rt self.workspace s) (ho : o ∈ s.objects)
    (hr : Round self s source domainKey policy o item v s' c) : StaysAttached s s' := by
  rintro id x ⟨row, hrow, rfl, hx⟩
  by_cases hid : row.id = o.id
  · refine ⟨row.after item (self.fresh s) c.target v, ?_, after_id, ?_⟩
    · rw [hr.objects]
      exact Table.mem_modify.mpr (.inr ⟨row, hrow, hid, rfl⟩)
    · rcases after_entityId row item (self.fresh s) c.target v with he | ⟨⟨outcome, rfl⟩, -⟩
      · rw [he, hx]
      · rw [hi.objectIds.eq_of_mem hrow ho hid, hr.fits.resolved.1] at hx
        cases hx
  · refine ⟨row, ?_, rfl, hx⟩
    rw [hr.objects]
    exact Table.mem_modify.mpr (.inl ⟨hrow, hid⟩)

theorem attached_resolved {outcome : Resolution} (ho : o ∈ s.objects)
    (hr : Round self s source domainKey policy o item (.resolved outcome) s' c) :
    ∃ x, Attached s' o.id x := by
  obtain ⟨x, hx⟩ := hr.fits.resolved.2
  refine ⟨x, o.after item (self.fresh s) c.target (.resolved outcome), ?_, after_id, hx⟩
  rw [hr.objects]
  exact Table.mem_modify.mpr (.inr ⟨o, ho, rfl, rfl⟩)

theorem apart_round (hi : Integrity self.rt self.workspace s) (h : Apart s) (ho : o ∈ s.objects)
    (hr : Round self s source domainKey policy o item v s' c) : Apart s' := by
  have hstays := staysAttached_round hi ho hr
  refine ⟨?_, fun row hrow => (h.rows row (hr.cannotLinks ▸ hrow)).of_stays hstays⟩
  have hold : AsksAttached s' s.tasks :=
    h.tasks.of_attached (fun id x hx => ⟨x, hstays id x hx⟩) (.refl _)
  rcases hr.tasks with htasks | ⟨rfl, task, ⟨-, -, lr, rr, b, target, n, e, hp, m, hm, rfl, hx⟩, htasks⟩
  · exact hold.of_attached (fun _ x hx => ⟨x, hx⟩) htasks
  · refine AsksAttached.of_attached (s := s') ?_ (fun _ x hx => ⟨x, hx⟩) htasks
    intro t ht lr' rr' l' r' target' n' e' hp'
    rcases List.mem_append.mp ht with ht | ht
    · exact hold t ht lr' rr' l' r' target' n' e' hp'
    · rw [List.mem_singleton.mp ht, hp] at hp'
      cases hp'
      exact ⟨attached_resolved ho hr, target, hstays _ _ ⟨m, hm, rfl, hx⟩⟩

end Round

theorem DecisionEffect.apart (he : DecisionEffect self s task d s')
    (hi : Integrity self.rt self.workspace s) (h : Apart s) (htask : task ∈ s.tasks)
    (hc : KeepsSeparate s task d) : Apart s' := by
  cases he with
  | quiet _ hq => exact h.kept hq.toKept
  | approveMaster _ ha =>
    refine Apart.kept ?_ ha.kept
    exact ⟨h.tasks, h.rows⟩
  | merge hp _ hid _ _ hf =>
    have hmerge := hc.1 _ (ReviewTask.merges?_eq_some.mpr ⟨rfl, _, hp⟩)
    rw [← hid] at hmerge
    exact (apart_merged h hmerge).kept hf.toKept
  | split _ _ _ hm hid _ _ _ hf =>
    exact (apart_split hi h (fun o ho hmem => (hm o ho hmem).1) hid).kept hf.toKept
  | link hp _ hsid _ htid hf =>
    have hlink := hc.2.1 _ (ReviewTask.links?_eq_some.mpr ⟨rfl, _, _, _, _, _, _, hp⟩)
    rw [hsid, ← htid] at hlink
    exact (apart_merged h hlink).kept hf.toKept
  | @keepApart _ lr rr l r target n e row _ hd hp hrow hf =>
    have hc' : ∀ a ∈ s.objects, ∀ b ∈ s.objects, some a.id = some l → some b.id = some r →
        a.entityId ≠ b.entityId := by
      refine hc.2.2 (some l, some r) ?_
      rcases hd with rfl | rfl <;> simp [ReviewTask.separates?, hp]
    obtain ⟨⟨x, a, ha, rfl, hx⟩, y, b, hb, rfl, hy⟩ := h.tasks task htask _ _ _ _ _ _ _ hp
    have hparted : Parted s a.id b.id := by
      refine ⟨x, y, ⟨a, ha, rfl, hx⟩, ⟨b, hb, rfl, hy⟩, ?_⟩
      rintro rfl
      exact hc' a ha b hb rfl rfl (hx.trans hy.symm)
    refine Apart.kept ?_ hf.toKept
    refine ⟨h.tasks, fun row' hrow' => ?_⟩
    rcases List.mem_append.mp hrow' with hrow' | hrow'
    · exact h.rows row' hrow'
    · rw [List.mem_singleton.mp hrow']
      rcases hrow with ⟨hl, hr⟩ | ⟨hl, hr⟩
      · rw [hl, hr]
        exact hparted
      · rw [hl, hr]
        exact hparted.symm

theorem apart_step (hi : Integrity rt w s) (h : Apart s)
    (hc : ∀ p ∈ request.taken? rt s, KeepsSeparate s p.1 p.2) :
    Apart ((service rt).next s request) := by
  have heffect := next_effect hi request
  generalize (service rt).next s request = s' at heffect
  cases heffect with
  | quiet hq => exact h.kept hq.toKept
  | page _ p =>
    exact (p.invariant (P := Apart) hi h (fun _ _ hq hs => hs.kept hq.toKept)
      fun _ _ _ _ _ hi hs ho => MasteringService.observe_invariant (P := Apart) hi hs
        (fun _ _ hopen => apart_opens hopen hs)
        (fun _ _ _ hopen hs hi hr => apart_round hi hs hopen.mem hr) ho).2
  | decision hd he => exact he.apart hi h (Request.taken?_mem hd) (hc _ hd)
  | job hj =>
    exact MasteringService.runJob_invariant (P := Apart) h (fun _ _ hq hs => hs.kept hq.toKept)
      (fun _ _ _ _ hs => ⟨hs.tasks, hs.rows⟩) (fun _ _ hs => ⟨hs.tasks, hs.rows⟩) hj

/-- As long as no decision brings a barred pair together, or bars a pair that is together, every
barred pair is separated. -/
theorem separated_run {requests : List Request}
    (h : (service rt).Along (fun s request => ∀ p ∈ request.taken? rt s,
      KeepsSeparate s p.1 p.2) (Store.empty w) requests) :
    Separated ((service rt).run (Store.empty w) requests) := by
  have hempty : Apart (Store.empty w) := ⟨by simp [AsksAttached, Store.empty], by simp [Store.empty]⟩
  obtain ⟨hi, ha⟩ := (service rt).run_invariant (P := fun s => Integrity rt w s ∧ Apart s)
    ⟨integrity_empty, hempty⟩ h fun s request hs hc =>
      ⟨integrity_step hs.1 request, apart_step hs.1 hs.2 hc⟩
  exact ha.separated hi

open Supplier in
theorem separated_run_twins : Separated (after [twins, keepSeparate (uid 17)]) :=
  separated_run (by decide +kernel)

open Supplier in
/-- A merge of two entities whose members were barred. -/
def barredMerge : List Request := [twins, keepSeparate (uid 17), proposeMerge [uid 8, uid 16],
  approve (uid 24)]

open Supplier in
theorem barredMerge_not_separated :
    Reachable .plain workspace (after barredMerge) ∧ ¬ Separated (after barredMerge) :=
  ⟨⟨_, rfl⟩, by decide +kernel⟩

end Recordlane
