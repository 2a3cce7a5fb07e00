import Recordlane.Batches
import Recordlane.Documents
import Recordlane.Governance

/-! Fields that only some roles may write: what a batch of other principals makes of them. -/
namespace Recordlane

variable {rt : Runtime} {w : Workspace} {self : MasteringService} {s s' t : Store}
  {req : IngestRequest} {source : Source} {domain : Domain} {policy : CompiledPolicy}
  {domainKey field : String} {o : SourceObject} {item : IncomingRecord}
  {items : List IncomingRecord} {known : List String}

/-- Whether a verification map vouches for a field. -/
def flagged (verification : List (String × Bool)) (field : String) : Bool :=
  verification.any fun p => p.1 = field && p.2

/-- What an object contributes, if anything, and where it stands in the order of observations. -/
structure Standing where
  object : SourceObject
  shown : Option (Dict × List (String × Bool))

namespace Standing

/-- The values after an observation. -/
def values (st : Standing) (item : IncomingRecord) : Dict :=
  (match item.updateMode, st.shown with
    | .partialUpdate, some (values, _) => values
    | _, _ => ([] : Dict)).update item.values

/-- An observation that is new is admitted where the policy accepts its values and it is in order. -/
def admits (rt : Runtime) (policy : CompiledPolicy) (st : Standing) (item : IncomingRecord) : Bool :=
  (item.deleted || match policy.validate rt (st.values item) with
    | .ok errors => errors.isEmpty
    | .error _ => false) && observationIsCurrent st.object item

/-- The standing after an admitted observation. -/
def take (st : Standing) (item : IncomingRecord) : Standing where
  object := { st.object with
    currentSequence := item.sequence
    currentEffectiveFrom := item.effectiveFrom }
  shown := if item.deleted then none else some (st.values item, item.verification)

/-- The observations that are admitted one after the other. -/
def admitted (rt : Runtime) (policy : CompiledPolicy) :
    Standing → List String → List IncomingRecord → List IncomingRecord
  | _, _, [] => []
  | st, versions, item :: items =>
    if item.version ∈ versions then admitted rt policy st versions items
    else if st.admits rt policy item then
      item :: admitted rt policy (st.take item) (item.version :: versions) items
    else admitted rt policy st (item.version :: versions) items

theorem admitted_subset {st : Standing} : ∀ item ∈ admitted rt policy st known items, item ∈ items := by
  induction items generalizing st known with
  | nil => simp [admitted]
  | cons first items ih =>
    intro item hitem
    unfold admitted at hitem
    split at hitem
    · exact List.mem_cons_of_mem _ (ih item hitem)
    · split at hitem
      · rcases List.mem_cons.mp hitem with rfl | hitem
        · exact List.mem_cons_self
        · exact List.mem_cons_of_mem _ (ih item hitem)
      · exact List.mem_cons_of_mem _ (ih item hitem)

theorem foldl_deleted (st : Standing) (h : ∀ item ∈ items, item.deleted = true) :
    (items.foldl take st).shown = st.shown ∨ (items.foldl take st).shown = none := by
  induction items generalizing st with
  | nil => exact .inl rfl
  | cons item items ih =>
    have hshown : (st.take item).shown = none := by simp [take, h item List.mem_cons_self]
    rcases ih (st.take item) fun item hitem => h item (List.mem_cons_of_mem _ hitem) with hrest | hrest
    · exact .inr (hrest.trans hshown)
    · exact .inr hrest

/-- A field that no observation names keeps its value as long as all of them are partial, and has the
flag of the last one. -/
theorem foldl_field (field : String) {st : Standing} {values : Dict} {verification : List (String × Bool)}
    (hst : st.shown = some (values, verification)) (hdeleted : ∀ item ∈ items, item.deleted = false)
    (hfield : ∀ item ∈ items, field ∉ item.values.keys) :
    ∃ values' verification', (items.foldl take st).shown = some (values', verification') ∧
      values'.get? field = (if ∀ item ∈ items, item.updateMode = .partialUpdate then values.get? field
        else none) ∧
      flagged verification' field = (items.getLast?.map fun item =>
        flagged item.verification field).getD (flagged verification field) := by
  induction items generalizing st values verification with
  | nil => exact ⟨values, verification, hst, by simp, rfl⟩
  | cons item items ih =>
    have hkept := hdeleted item List.mem_cons_self
    have hother := hfield item List.mem_cons_self
    have hvalue : (st.values item).get? field =
        if item.updateMode = .partialUpdate then values.get? field else none := by
      rw [Standing.values, Dict.get?_update hother, hst]
      cases item.updateMode <;> rfl
    have htaken : (st.take item).shown = some (st.values item, item.verification) := by
      simp [take, hkept]
    obtain ⟨values', verification', hshown, hvalue', hflag⟩ := ih htaken
      (fun item hitem => hdeleted item (List.mem_cons_of_mem _ hitem))
      fun item hitem => hfield item (List.mem_cons_of_mem _ hitem)
    refine ⟨values', verification', hshown, ?_, ?_⟩
    · rw [hvalue', hvalue]
      by_cases hmode : item.updateMode = .partialUpdate <;> simp [hmode]
    · rw [hflag, List.getLast?_cons]
      cases items.getLast? <;> rfl

end Standing

/-- The standing is that of an object, and the versions are those stored of it. -/
structure Stands (s : Store) (o : SourceObject) (st : Standing) (versions : List String) : Prop where
  sequence : st.object.currentSequence = o.currentSequence
  effectiveFrom : st.object.currentEffectiveFrom = o.currentEffectiveFrom
  shown : st.shown = (o.currentRecordId.bind s.record?).map fun r => (r.original, r.verification)
  versions : ∀ version, version ∈ versions ↔ ∃ r ∈ s.records, r.key = (o.key, version)

variable {st : Standing} {v : Verdict} {d : Findings}

/-- Where an object stands. -/
def SourceObject.standing (s : Store) (o : SourceObject) : Standing :=
  ⟨o, (o.currentRecordId.bind s.record?).map fun r => (r.original, r.verification)⟩

/-- The versions stored of an object. -/
def SourceObject.versions (s : Store) (o : SourceObject) : List String :=
  (s.records.filter fun r => r.objectKey = o.key).map SourceRecord.sourceVersion

theorem stands_standing : Stands s o (o.standing s) (o.versions s) := by
  refine ⟨rfl, rfl, rfl, fun version => ?_⟩
  constructor
  · intro hversion
    obtain ⟨r, hr, rfl⟩ := List.mem_map.mp hversion
    obtain ⟨hr, hkey⟩ := List.mem_filter.mp hr
    exact ⟨r, hr, Prod.ext (of_decide_eq_true hkey) rfl⟩
  · rintro ⟨r, hr, hkey⟩
    have hobject : r.objectKey = o.key := congrArg Prod.fst hkey
    have hversion : r.sourceVersion = version := congrArg Prod.snd hkey
    exact List.mem_map.mpr ⟨r, List.mem_filter.mpr ⟨hr, decide_eq_true hobject⟩, hversion⟩

theorem Stands.sameRows (h : Stands s o st known) (hr : t.records = s.records) :
    Stands t o st known := by
  refine ⟨h.sequence, h.effectiveFrom, h.shown.trans ?_, ?_⟩
  · have hrecord : t.record? = s.record? := by
      funext id
      rw [Store.record?, Store.record?, hr]
    rw [hrecord]
  · rw [hr]
    exact h.versions

theorem contribution_append {r : SourceRecord} (hi : Integrity rt w s) (ho : o ∈ s.objects)
    (hr : t.records = s.records ++ [r]) :
    o.currentRecordId.bind t.record? = o.currentRecordId.bind s.record? := by
  cases hcurrent : o.currentRecordId with
  | none => rfl
  | some id =>
    obtain ⟨-, r', hr', rfl, -⟩ := hi.currentRecord o ho id hcurrent
    have hfind : Table.find SourceRecord.id s.records r'.id = some r' := hi.record? hr'
    rw [Option.bind_some, Option.bind_some, Store.record?, Store.record?, hr,
      Table.find_append_of_some hfind, hfind]

theorem Stands.append {r : SourceRecord} (h : Stands s o st known) (hi : Integrity rt w s)
    (ho : o ∈ s.objects) (hr : t.records = s.records ++ [r]) (hk : r.objectKey ≠ o.key) :
    Stands t o st known := by
  refine ⟨h.sequence, h.effectiveFrom, h.shown.trans ?_, fun version => (h.versions version).trans ?_⟩
  · rw [contribution_append hi ho hr]
  · rw [hr]
    constructor
    · rintro ⟨r', hr', hkey⟩
      exact ⟨r', List.mem_append_left _ hr', hkey⟩
    · rintro ⟨r', hr', hkey⟩
      rcases List.mem_append.mp hr' with hr' | hr'
      · exact ⟨r', hr', hkey⟩
      · rw [List.mem_singleton.mp hr'] at hkey
        exact (hk (congrArg Prod.fst hkey)).elim

theorem Stands.current (h : Stands s o st known) :
    observationIsCurrent st.object item = observationIsCurrent o item := by
  unfold observationIsCurrent
  rw [h.sequence, h.effectiveFrom]

/-- What the policy makes of an observation is what the standing says. -/
theorem evaluate_stands {e : Evaluation} (h : Stands s o st known)
    (he : self.evaluate s policy o item = .ok e) : e.values = st.values item ∧
      (e.qualityErrors.isEmpty && observationIsCurrent o item) = st.admits self.rt policy item := by
  unfold MasteringService.evaluate at he
  rw [Standing.admits, h.current]
  cases hdeleted : item.deleted <;>
    simp only [hdeleted, Bool.false_eq_true, if_true, if_false, pure_bind, Except.bind_eq_ok,
      Except.pure_eq_ok] at he
  · obtain ⟨normalized, -, errors, herrors, keys, -, heq⟩ := he
    have hvalues : e.values = st.values item := by
      rw [← heq, Standing.values, h.shown]
      cases item.updateMode <;> cases o.currentRecordId.bind s.record? <;> rfl
    rw [← hvalues, ← heq]
    simp [herrors]
  · obtain ⟨normalized, -, keys, -, heq⟩ := he
    refine ⟨?_, by rw [← heq]; simp⟩
    rw [← heq, Standing.values, h.shown]
    cases item.updateMode <;> cases o.currentRecordId.bind s.record? <;> rfl

/-- The object of a round stands where the standing says. -/
theorem Round.stands (hr : Round self s source domainKey policy o item v t d)
    (hi : Integrity self.rt self.workspace s) (hi' : Integrity self.rt self.workspace t)
    (ho : o ∈ s.objects) (hk : o.key = (source.id, domainKey, item.localId))
    (hst : Stands s o st known) :
    Stands t (o.after item (self.fresh s) d.target v)
      (if st.admits self.rt policy item then st.take item else st) (item.version :: known) := by
  obtain ⟨hvalues, hadmits⟩ := evaluate_stands hst hr.evaluated
  have hrecord : t.record? (self.fresh s) = some (d.record self s source domainKey o item) := by
    refine hi'.record? (r := d.record self s source domainKey o item) ?_
    rw [hr.records]
    exact List.mem_append_right _ (List.mem_singleton_self _)
  have hversions : ∀ version, version ∈ item.version :: known ↔
      ∃ r ∈ t.records, r.key = ((o.after item (self.fresh s) d.target v).key, version) := by
    intro version
    rw [after_key, hr.records, List.mem_cons, hst.versions]
    have hkey : (d.record self s source domainKey o item).key = (o.key, item.version) :=
      Prod.ext hk.symm rfl
    constructor
    · rintro (rfl | ⟨r, hr, hrkey⟩)
      · exact ⟨_, List.mem_append_right _ (List.mem_singleton_self _), hkey⟩
      · exact ⟨r, List.mem_append_left _ hr, hrkey⟩
    · rintro ⟨r, hr, hrkey⟩
      rcases List.mem_append.mp hr with hr | hr
      · exact .inr ⟨r, hr, hrkey⟩
      · rw [List.mem_singleton.mp hr, hkey] at hrkey
        exact .inl (congrArg Prod.snd hrkey).symm
  have hkept : st.shown =
      (o.currentRecordId.bind t.record?).map fun r => (r.original, r.verification) := by
    rw [contribution_append hi ho hr.records]
    exact hst.shown
  -- an observation that is current and no tombstone is what the object contributes
  have htaken : item.deleted = false → (st.take item).shown =
      ((some (self.fresh s)).bind t.record?).map fun r => (r.original, r.verification) := by
    intro hdeleted
    rw [Option.bind_some, hrecord, Standing.take, hdeleted, ← hvalues]
    rfl
  have hretired : item.deleted = true → (st.take item).shown = none :=
    fun hdeleted => by rw [Standing.take, hdeleted, if_pos rfl]
  rw [← hadmits]
  cases hr.fits with
  | quarantined hq =>
    rw [if_neg (by simp [hq])]
    exact ⟨hst.sequence, hst.effectiveFrom, hkept, hversions⟩
  | outOfOrder _ hn =>
    rw [if_neg (by simp [hn])]
    exact ⟨hst.sequence, hst.effectiveFrom, hkept, hversions⟩
  | retiredFree hq hn hd =>
    rw [if_pos (by simp [hq, hn])]
    exact ⟨rfl, rfl, hretired hd, hversions⟩
  | retired hq hn hd =>
    rw [if_pos (by simp [hq, hn])]
    exact ⟨rfl, rfl, hretired hd, hversions⟩
  | updated hq hn hd =>
    rw [if_pos (by simp [hq, hn])]
    exact ⟨rfl, rfl, htaken hd, hversions⟩
  | linked hq hn hd =>
    rw [if_pos (by simp [hq, hn])]
    exact ⟨rfl, rfl, htaken hd, hversions⟩
  | created hq hn hd =>
    rw [if_pos (by simp [hq, hn])]
    exact ⟨rfl, rfl, htaken hd, hversions⟩
  | review hq hn hd =>
    rw [if_pos (by simp [hq, hn])]
    exact ⟨rfl, rfl, htaken hd, hversions⟩

/-- A round retires its object with a tombstone that is admitted, and revives it with another
observation that is. -/
theorem Round.retired (hr : Round self s source domainKey policy o item v t d)
    (hst : Stands s o st known) : (o.after item (self.fresh s) d.target v).retired =
      if st.admits self.rt policy item then item.deleted else o.retired := by
  rw [← (evaluate_stands hst hr.evaluated).2]
  cases hr.fits with
  | quarantined hq => simp [hq, SourceObject.after]
  | outOfOrder _ hn => simp [hn, SourceObject.after]
  | retiredFree hq hn hd => simp [hq, hn, hd, SourceObject.after]
  | retired hq hn hd => simp [hq, hn, hd, SourceObject.after]
  | updated hq hn hd => simp [hq, hn, hd, SourceObject.after]
  | linked hq hn hd => simp [hq, hn, hd, SourceObject.after]
  | created hq hn hd => simp [hq, hn, hd, SourceObject.after]
  | review hq hn hd => simp [hq, hn, hd, SourceObject.after]

theorem observe_other (hi : Integrity self.rt self.workspace s) (ho : o ∈ s.objects)
    (hk : o.key ≠ (source.id, domainKey, item.localId)) (hst : Stands s o st known)
    (h : self.observe s source domainKey policy item = .ok (t, v)) :
    o ∈ t.objects ∧ Stands t o st known := by
  rcases MasteringService.observe_cases hi h with ⟨-, rfl, -⟩ | ⟨u, o', d, hopen, -, hr⟩
  · exact ⟨ho, hst⟩
  · have hui := hopen.integrity hi
    have hou : o ∈ u.objects := by
      cases hopen with
      | known => exact ho
      | new => exact List.mem_append_left _ ho
    have hne : o.id ≠ o'.id := fun hid => hk (hui.objectIds.eq_of_mem hou hopen.mem hid ▸ hopen.key)
    refine ⟨?_, (hst.sameRows hopen.tables.1).append hui hou hr.records fun heq => hk heq.symm⟩
    rw [hr.objects]
    exact Table.mem_modify.mpr (.inl ⟨hou, hne⟩)

/-- A round on an object admits its observation or not, unless its version is known. -/
theorem observe_own (hi : Integrity self.rt self.workspace s) (ho : o ∈ s.objects)
    (hk : o.key = (source.id, domainKey, item.localId)) (hst : Stands s o st known)
    (h : self.observe s source domainKey policy item = .ok (t, v)) :
    ∃ o' ∈ t.objects, o'.id = o.id ∧ o'.key = o.key ∧
      if item.version ∈ known then Stands t o' st known ∧ o'.retired = o.retired
      else Stands t o' (if st.admits self.rt policy item then st.take item else st)
          (item.version :: known) ∧
        o'.retired = if st.admits self.rt policy item then item.deleted else o.retired := by
  have hstored := hst.versions item.version
  rcases MasteringService.observe_cases hi h with ⟨-, rfl, ⟨r, hr, -⟩, -⟩ | ⟨u, o', d, hopen, hnew, hr⟩
  · obtain ⟨hmem, hkey⟩ := MasteringService.storedObservation_some hi hr
    refine ⟨o, ho, rfl, rfl, ?_⟩
    rw [if_pos (hstored.mpr ⟨r, hmem, by rw [hk]; exact hkey⟩)]
    exact ⟨hst, rfl⟩
  · have hfresh : item.version ∉ known := by
      intro hversion
      obtain ⟨r, hrecord, hkey⟩ := hstored.mp hversion
      rw [hk] at hkey
      exact hnew r hrecord hkey
    cases hopen with
    | new hnone => exact (hnone o ho hk).elim
    | known ho' hk' =>
      obtain rfl := hi.objectKeys.eq_of_mem ho' ho (hk'.trans hk.symm)
      refine ⟨o'.after item (self.fresh s) d.target v, ?_, after_id, after_key, ?_⟩
      · rw [hr.objects]
        exact Table.mem_modify.mpr (.inr ⟨o', ho', rfl, rfl⟩)
      · rw [if_neg hfresh]
        exact ⟨hr.stands hi (MasteringService.observe_integrity hi h) ho' hk hst, hr.retired hst⟩

/-- Whether an object is retired once some observations of it have been admitted. -/
def retiredBy (retired : Bool) (admitted : List IncomingRecord) : Bool :=
  (admitted.getLast?.map IncomingRecord.deleted).getD retired

theorem retiredBy_cons {retired : Bool} :
    retiredBy retired (item :: items) = retiredBy item.deleted items := by
  unfold retiredBy
  rw [List.getLast?_cons]
  cases items.getLast? <;> rfl

/-- The loop admits of every object what its standing admits. -/
theorem observeAll_stands {fault : Option Nat} {index : Nat} {vs : List Verdict}
    (hi : Integrity self.rt self.workspace s) (ho : o ∈ s.objects) (hst : Stands s o st known)
    (h : self.observeAll source domainKey policy fault s index items = .ok (t, vs)) :
    ∃ o' ∈ t.objects, o'.id = o.id ∧
      o'.retired = retiredBy o.retired (Standing.admitted self.rt policy st known
        (items.filter fun item => o.key = (source.id, domainKey, item.localId))) ∧
      ∃ known', Stands t o' ((Standing.admitted self.rt policy st known
        (items.filter fun item => o.key = (source.id, domainKey, item.localId))).foldl
          Standing.take st) known' := by
  induction items generalizing s o st known index vs with
  | nil =>
    cases h
    exact ⟨o, ho, rfl, rfl, known, hst⟩
  | cons item items ih =>
    unfold MasteringService.observeAll at h
    rw [Except.bind_eq_ok] at h
    obtain ⟨⟨u, v⟩, hstep, h⟩ := h
    dsimp only at h
    split at h
    · cases h
    · rw [Except.bind_eq_ok] at h
      obtain ⟨⟨u', vs'⟩, hrest, h⟩ := h
      cases h
      have hui := MasteringService.observe_integrity hi hstep
      by_cases hk : o.key = (source.id, domainKey, item.localId)
      · obtain ⟨o', ho', hid, hkey, hst'⟩ := observe_own hi ho hk hst hstep
        rw [List.filter_cons_of_pos (by simpa using hk), Standing.admitted]
        split at hst'
        · next hknown =>
          rw [if_pos hknown]
          obtain ⟨o'', ho'', hid', hrest⟩ := ih hui ho' hst'.1 hrest
          rw [hkey, hst'.2] at hrest
          exact ⟨o'', ho'', hid'.trans hid, hrest⟩
        · next hknown =>
          rw [if_neg hknown]
          obtain ⟨o'', ho'', hid', hrest⟩ := ih hui ho' hst'.1 hrest
          refine ⟨o'', ho'', hid'.trans hid, ?_⟩
          rw [hkey, hst'.2] at hrest
          split
          · next hadmits =>
            rw [if_pos hadmits, if_pos hadmits] at hrest
            rw [retiredBy_cons]
            exact hrest
          · next hadmits =>
            rw [if_neg hadmits, if_neg hadmits] at hrest
            exact hrest
      · obtain ⟨ho', hst'⟩ := observe_other hi ho hk hst hstep
        rw [List.filter_cons_of_neg (by simpa using hk)]
        exact ih hui ho' hst' hrest

namespace Page

/-- The work of a page are its records, and tombstones of objects that none of them shows. -/
theorem work_tombstones (p : Page self s req) : ∃ tombstones, p.work = req.records ++ tombstones ∧
    ∀ item ∈ tombstones, item.deleted = true ∧ item.localId ∉ req.seenIds := by
  have hwork := p.work_listed
  unfold MasteringService.workRecords at hwork
  split at hwork
  · simp only [Except.bind_eq_ok, Except.pure_eq_ok] at hwork
    obtain ⟨tombstones, htombstones, hwork⟩ := hwork
    refine ⟨tombstones, hwork.symm, fun item hitem => ?_⟩
    obtain ⟨o, ho, htombstone⟩ := (Except.mapM_mem htombstones).1 item hitem
    have hunseen : o.localId ∉ req.seenIds := by
      have hfiltered := (List.mem_filter.mp ho).2
      simp only [Bool.not_eq_true', List.contains_eq_mem, decide_eq_false_iff_not,
        List.mem_append, not_or] at hfiltered
      exact hfiltered.2
    unfold MasteringService.snapshotTombstone at htombstone
    dsimp only at htombstone
    split at htombstone
    · split at htombstone
      · cases htombstone
        exact ⟨rfl, hunseen⟩
      · cases htombstone
    · cases htombstone
  · exact ⟨[], by rw [List.append_nil, Except.ok.inj hwork], by simp⟩

theorem stands (p : Page self s req) (hi : Integrity self.rt self.workspace s) (ho : o ∈ s.objects) :
    ∃ o' ∈ p.finished.objects, o'.id = o.id ∧
      o'.retired = retiredBy o.retired (Standing.admitted self.rt p.policy (o.standing s)
        (o.versions s) (p.work.filter fun item => o.key = (p.source.id, req.domainKey, item.localId))) ∧
      ∃ known, Stands p.finished o' ((Standing.admitted self.rt p.policy (o.standing s) (o.versions s)
        (p.work.filter fun item => o.key = (p.source.id, req.domainKey, item.localId))).foldl
          Standing.take (o.standing s)) known := by
  have hbegun := p.begun_quiet.toSameRows
  have hst : Stands p.begun o (o.standing s) (o.versions s) := stands_standing.sameRows hbegun.records
  obtain ⟨o', ho', hid, hretired, known, hst'⟩ :=
    observeAll_stands (hi.sameRows hbegun) (hbegun.objects ▸ ho) hst p.observes
  have hfinished := p.finished_quiet.toSameRows
  exact ⟨o', hfinished.objects ▸ ho', hid, hretired, known, hst'.sameRows hfinished.records⟩

end Page

/-- The roles that a policy reserves a field to, if it does. -/
def CompiledPolicy.writeRoles (policy : CompiledPolicy) (field : String) : List Json :=
  match Dict.get ((policy.attribute? field).getD []) "write_roles" with
  | .arr roles => roles
  | _ => []

/-- The policy reserves the field to roles, and the principal holds none of them. -/
def Restricted (policy : CompiledPolicy) (who : Principal) (field : String) : Prop :=
  "administrator" ∉ who.roles ∧ policy.writeRoles field ≠ [] ∧
    ∀ role ∈ policy.writeRoles field, ∀ held ∈ who.roles, role.pyEq (.str held) = false

instance {who : Principal} : Decidable (Restricted policy who field) :=
  inferInstanceAs (Decidable ("administrator" ∉ who.roles ∧ policy.writeRoles field ≠ [] ∧
    ∀ role ∈ policy.writeRoles field, ∀ held ∈ who.roles, role.pyEq (.str held) = false))

theorem Restricted.mayWrite {who : Principal} (h : Restricted policy who field) :
    MasteringService.mayWrite ⟨rt, who, w⟩ policy field = false := by
  obtain ⟨-, hne, hnone⟩ := h
  unfold CompiledPolicy.writeRoles at hne hnone
  unfold MasteringService.mayWrite
  split
  · next role roles hroles =>
    rw [hroles] at hnone
    refine List.any_eq_false.mpr fun r hr => ?_
    simpa using fun held hheld => hnone r hr held hheld
  · next hother =>
    split at hne
    · next roles hroles =>
      cases roles with
      | nil => exact (hne rfl).elim
      | cons role roles => exact (hother role roles hroles).elim
    · exact (hne rfl).elim

theorem Page.unnamed {who : Principal} (p : Page ⟨rt, who, w⟩ s req)
    (hf : Restricted p.policy who field) : ∀ item ∈ req.records, field ∉ item.values.keys := by
  intro item hitem hkey
  have hauthorized := p.authorized
  unfold MasteringService.authorize at hauthorized
  rw [Except.bind_eq_ok] at hauthorized
  obtain ⟨policy, -, hauthorized⟩ := hauthorized
  split at hauthorized
  · next hforbidden =>
    cases hauthorized
    unfold MasteringService.forbiddenFields at hforbidden
    rw [if_neg (by simpa using hf.1)] at hforbidden
    have hmem : field ∈ sortedSet ((req.records.flatMap fun item => item.values.keys).filter fun field =>
        !MasteringService.mayWrite ⟨rt, who, w⟩ p.policy field) := by
      refine (List.mem_insertionSort _).mpr (List.mem_dedup.mpr (List.mem_filter.mpr ⟨?_, ?_⟩))
      · exact List.mem_flatMap.mpr ⟨item, hitem, hkey⟩
      · simp [hf.mayWrite]
    rw [hforbidden] at hmem
    cases hmem
  · cases hauthorized

/-- Every object that contributes before and after keeps the value and the flag of the field. -/
def KeepsField (s t : Store) (field : String) : Prop :=
  ∀ o ∈ s.objects, ∀ r ∈ o.currentRecordId.bind s.record?, ∀ o' ∈ t.objects, o'.id = o.id →
    ∀ r' ∈ o'.currentRecordId.bind t.record?, r'.original.get? field = r.original.get? field ∧
      flagged r'.verification field = flagged r.verification field

instance : Decidable (KeepsField s t field) :=
  inferInstanceAs (Decidable (∀ o ∈ s.objects, ∀ r ∈ o.currentRecordId.bind s.record?,
    ∀ o' ∈ t.objects, o'.id = o.id → ∀ r' ∈ o'.currentRecordId.bind t.record?,
      r'.original.get? field = r.original.get? field ∧
        flagged r'.verification field = flagged r.verification field))

/-- What is admitted of an object is partial, unless the field is not there, and the last observation
vouches for the field as the contribution does. -/
def Spares (rt : Runtime) (policy : CompiledPolicy) (s : Store) (o : SourceObject) (r : SourceRecord)
    (field : String) (items : List IncomingRecord) : Prop :=
  ((∀ item ∈ Standing.admitted rt policy (o.standing s) (o.versions s) items,
      item.updateMode = .partialUpdate) ∨ r.original.get? field = none) ∧
    ∀ item ∈ (Standing.admitted rt policy (o.standing s) (o.versions s) items).getLast?,
      flagged item.verification field = flagged r.verification field

theorem Page.spares_iff (p : Page self s req) (hi : Integrity self.rt self.workspace s)
    (hi' : Integrity self.rt self.workspace p.finished) (hkept : ∀ item ∈ req.records, item.deleted = false)
    (hfield : ∀ item ∈ req.records, field ∉ item.values.keys) {r : SourceRecord} (ho : o ∈ s.objects)
    (hr : o.currentRecordId.bind s.record? = some r) :
    (∀ o' ∈ p.finished.objects, o'.id = o.id →
      ∀ r', o'.currentRecordId.bind p.finished.record? = some r' →
        r'.original.get? field = r.original.get? field ∧
          flagged r'.verification field = flagged r.verification field) ↔
      Spares self.rt p.policy s o r field (req.records.filter fun item =>
        o.key = (p.source.id, req.domainKey, item.localId)) := by
  obtain ⟨tombstones, hwork, htombstones⟩ := p.work_tombstones
  obtain ⟨o', ho', hid, -, known, hst⟩ := p.stands hi ho
  have hshown : (o.standing s).shown = some (r.original, r.verification) := by
    rw [SourceObject.standing, hr]
    rfl
  have hafter : ∀ {o'' r'}, o'' ∈ p.finished.objects → o''.id = o.id →
      o''.currentRecordId.bind p.finished.record? = some r' → o'' = o' := fun hmem hid' _ =>
    hi'.objectIds.eq_of_mem hmem ho' (hid'.trans hid.symm)
  rw [hwork, List.filter_append] at hst
  by_cases hseen : ∃ item ∈ req.records, o.key = (p.source.id, req.domainKey, item.localId)
  · -- the page shows the object, so its completion takes nothing away
    have hnone : (tombstones.filter fun item =>
        decide (o.key = (p.source.id, req.domainKey, item.localId))) = [] := by
      obtain ⟨item, hitem, hkey⟩ := hseen
      refine List.filter_eq_nil_iff.mpr fun tombstone htombstone hkey' => ?_
      have hlocal : tombstone.localId = item.localId := congrArg (fun k => k.2.2)
        ((of_decide_eq_true hkey').symm.trans hkey)
      refine (htombstones tombstone htombstone).2 (List.mem_map.mpr ⟨item, ?_, hlocal.symm⟩)
      exact List.mem_filter.mpr ⟨hitem, by simp [hkept item hitem]⟩
    rw [hnone, List.append_nil] at hst
    have hlisted : ∀ item ∈ Standing.admitted self.rt p.policy (o.standing s) (o.versions s)
        (req.records.filter fun item => o.key = (p.source.id, req.domainKey, item.localId)),
        item ∈ req.records :=
      fun item hitem => List.mem_of_mem_filter (Standing.admitted_subset item hitem)
    obtain ⟨values, verification, hvalues, hvalue, hflag⟩ := Standing.foldl_field field hshown
      (fun item hitem => hkept item (hlisted item hitem)) fun item hitem => hfield item (hlisted item hitem)
    rw [hst.shown] at hvalues
    obtain ⟨r', hr', heq⟩ := Option.map_eq_some_iff.mp hvalues
    obtain ⟨rfl, rfl⟩ := Prod.mk.inj heq
    have hsame : (∀ o'' ∈ p.finished.objects, o''.id = o.id →
        ∀ r'', o''.currentRecordId.bind p.finished.record? = some r'' →
          r''.original.get? field = r.original.get? field ∧
            flagged r''.verification field = flagged r.verification field) ↔
        r'.original.get? field = r.original.get? field ∧
          flagged r'.verification field = flagged r.verification field := by
      constructor
      · exact fun h => h o' ho' hid r' hr'
      · intro h o'' ho'' hid' r'' hr''
        rw [hafter ho'' hid' hr'', hr'] at hr''
        cases hr''
        exact h
    rw [hsame, hvalue, hflag]
    unfold Spares
    refine and_congr ?_ ?_
    · split
      · next hpart => exact iff_of_true rfl (.inl hpart)
      · next hpart =>
        rw [or_iff_right hpart]
        exact eq_comm
    · generalize (Standing.admitted self.rt p.policy (o.standing s) (o.versions s) _).getLast? = last
      cases last <;> simp
  · have hnone : (req.records.filter fun item =>
        decide (o.key = (p.source.id, req.domainKey, item.localId))) = [] :=
      List.filter_eq_nil_iff.mpr fun item hitem hkey => hseen ⟨item, hitem, of_decide_eq_true hkey⟩
    rw [hnone, List.nil_append] at hst
    rw [hnone]
    refine iff_of_true ?_ ⟨.inl (by simp [Standing.admitted]), by simp [Standing.admitted]⟩
    intro o'' ho'' hid' r'' hr''
    rw [hafter ho'' hid' hr''] at hr''
    have hlisted : ∀ item ∈ Standing.admitted self.rt p.policy (o.standing s) (o.versions s)
        (tombstones.filter fun item => o.key = (p.source.id, req.domainKey, item.localId)),
        item.deleted = true :=
      fun item hitem => (htombstones item (List.mem_of_mem_filter (Standing.admitted_subset item hitem))).1
    have hdeleted := Standing.foldl_deleted (o.standing s) hlisted
    rw [hst.shown, hr'', hshown] at hdeleted
    rcases hdeleted with heq | heq
    · obtain ⟨hvalues, hverification⟩ := Prod.mk.inj (Option.some.inj heq)
      exact ⟨by rw [hvalues], by rw [hverification]⟩
    · cases heq

/-- A batch without tombstones, of a principal who may not write a field, keeps the field of every
object if and only if what it admits of each of them spares it. -/
theorem field_kept_iff {who : Principal} (hs : Attained rt w s)
    (hcommits : ingestedBatch ((service rt).step s (.ingest who req)).2)
    (hsource : MasteringService.source? ⟨rt, who, w⟩ s req.sourceKey = some source)
    (hdomain : MasteringService.domain? ⟨rt, who, w⟩ s req.domainKey = some domain)
    (hpolicy : compilePolicy rt domain.definition = .ok policy) (hf : Restricted policy who field)
    (hkept : ∀ item ∈ req.records, item.deleted = false) :
    KeepsField s ((service rt).next s (.ingest who req)) field ↔
      ∀ o ∈ s.objects, ∀ r ∈ o.currentRecordId.bind s.record?,
        Spares rt policy s o r field (req.records.filter fun item =>
          o.key = (source.id, req.domainKey, item.localId)) := by
  have hi := hs.sound.1
  obtain ⟨p, -, hnext⟩ := page_of_ingested hi hcommits
  have hi' := integrity_step hi (.ingest who req)
  rw [hnext] at hi' ⊢
  have hsame : p.source = source := Option.some.inj (p.source_found.symm.trans hsource)
  have hunder : p.policy = policy := p.policy_eq hdomain hpolicy
  have hfield := p.unnamed (hunder ▸ hf)
  rw [← hsame, ← hunder]
  exact forall₂_congr fun o ho => forall₂_congr fun r hr => p.spares_iff hi hi' hkept hfield ho hr

instance {r : SourceRecord} : Decidable (Spares rt policy s o r field items) :=
  inferInstanceAs (Decidable (((∀ item ∈ Standing.admitted rt policy (o.standing s) (o.versions s) items,
      item.updateMode = .partialUpdate) ∨ r.original.get? field = none) ∧
    ∀ item ∈ (Standing.admitted rt policy (o.standing s) (o.versions s) items).getLast?,
      flagged item.verification field = flagged r.verification field))

namespace Supplier

/-- The definition under which stewards alone write a tax number. -/
def guarded : Dict := definition.set "attributes" (.arr [.obj [("key", .str "name")],
  .obj [("key", .str "city")],
  .obj [("key", .str "tax_id"), ("write_roles", .arr [.str "steward"])]])

def operator : Principal := ⟨"dave", "idp", "w1", ["integration_operator"], none⟩

/-- A supplier with a tax number that is vouched for. -/
def numbered : List Operation := [
  .request (.createDomain (steward "alice") "supplier" "Supplier" "coexistence" guarded),
  .request (.createSource (steward "alice") "erp" "ERP" "csv" 100),
  .request (ingest [{ observation "a" "1" [("name", .str "A"), ("tax_id", .str "T1")] with
    verification := [("tax_id", true)] }])]

def numberedStore : Store := (operations .plain).run (Store.empty workspace) numbered

/-- The operator renames the supplier, in full and in part. -/
def fullRename : IngestRequest := batch [observation "a" "2" [("name", .str "B")]]

def partRename : IngestRequest :=
  batch [{ observation "a" "2" [("name", .str "B")] with
    updateMode := .partialUpdate
    verification := [("tax_id", true)] }]

theorem numberedStore_attained : Attained .plain workspace numberedStore := ⟨numbered, rfl⟩

/-- The update in part keeps the tax number and vouches for it. -/
theorem field_kept_iff_partRename :
    KeepsField numberedStore ((service .plain).next numberedStore (.ingest operator partRename))
      "tax_id" := by
  obtain ⟨x, hx⟩ : ∃ x, MasteringService.source? ⟨.plain, operator, workspace⟩ numberedStore "erp" =
      some x := Option.isSome_iff_exists.mp (by decide +kernel)
  obtain ⟨d, hd⟩ : ∃ d, MasteringService.domain? ⟨.plain, operator, workspace⟩ numberedStore
      "supplier" = some d := Option.isSome_iff_exists.mp (by decide +kernel)
  have hall : (MasteringService.source? ⟨.plain, operator, workspace⟩ numberedStore "erp").all fun x =>
      (MasteringService.domain? ⟨.plain, operator, workspace⟩ numberedStore "supplier").all fun d =>
        (compilePolicy .plain d.definition).toOption.any fun policy =>
          decide (Restricted policy operator "tax_id") &&
          decide (∀ o ∈ numberedStore.objects, ∀ r ∈ o.currentRecordId.bind numberedStore.record?,
            Spares .plain policy numberedStore o r "tax_id" (partRename.records.filter fun item =>
              o.key = (x.id, "supplier", item.localId))) := by
    decide +kernel
  rw [hx, hd] at hall
  obtain ⟨policy, hpolicy, hspares⟩ := Except.of_any hall
  simp only [Bool.and_eq_true, decide_eq_true_eq] at hspares
  exact (field_kept_iff numberedStore_attained (by decide +kernel) hx hd hpolicy hspares.1
    (by decide)).mpr hspares.2

/-- The update in full drops the tax number that the operator may not write. -/
theorem field_dropped :
    (∃ d ∈ numberedStore.domains, d.key = fullRename.domainKey ∧ ∃ policy,
      compilePolicy .plain d.definition = .ok policy ∧ Restricted policy operator "tax_id") ∧
      ingestedBatch ((service .plain).step numberedStore (.ingest operator fullRename)).2 ∧
      (∀ item ∈ fullRename.records, item.deleted = false) ∧
      ¬ KeepsField numberedStore ((service .plain).next numberedStore (.ingest operator fullRename))
        "tax_id" := by
  have hguarded : numberedStore.domains.any (fun d => d.key = fullRename.domainKey &&
      (compilePolicy .plain d.definition).toOption.any fun policy =>
        decide (Restricted policy operator "tax_id")) = true := by
    decide +kernel
  refine ⟨?_, by decide +kernel, by decide, by decide +kernel⟩
  obtain ⟨d, hd, hguarded⟩ := List.any_eq_true.mp hguarded
  rw [Bool.and_eq_true, decide_eq_true_eq] at hguarded
  obtain ⟨policy, hpolicy, hrestricted⟩ := Except.of_any hguarded.2
  exact ⟨d, hd, hguarded.1, policy, hpolicy, of_decide_eq_true hrestricted⟩

end Supplier

end Recordlane
