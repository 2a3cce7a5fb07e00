import Recordlane.Requests
import Recordlane.Library.Register

/-! The current projection of a source object, and what moves it. -/
namespace Recordlane

variable {rt : Runtime} {w : Workspace} {self : MasteringService} {s s' t : Store}
  {request : Request} {key : Id × String × String}

/-- What a source object shows: its current original values, whether it is retired, its sequence. -/
structure Projection where
  original : Option Dict
  retired : Bool
  sequence : Option Nat

/-- An object that was never observed. -/
def Projection.blank : Projection := ⟨none, false, none⟩

def SourceObject.projection (s : Store) (o : SourceObject) : Projection :=
  ⟨(o.currentRecordId.bind s.record?).map SourceRecord.original, o.retired, o.currentSequence⟩

/-- The projection under a key; a missing object shows what a new one shows. -/
def Store.projection (s : Store) (key : Id × String × String) : Projection :=
  match Table.find SourceObject.key s.objects key with
  | some o => o.projection s
  | none => .blank

theorem projection_of_mem (hi : Integrity rt w s) {o : SourceObject} (ho : o ∈ s.objects) :
    s.projection o.key = o.projection s := by
  rw [Store.projection, hi.objectKeys.find_of_mem ho]

theorem projection_of_none (h : ∀ o ∈ s.objects, o.key ≠ key) : s.projection key = .blank := by
  rw [Store.projection, Table.find_eq_none.mpr h]

theorem projection_congr {f : SourceObject → SourceObject} {g : SourceRecord → SourceRecord}
    (ho : t.objects = s.objects.map f)
    (hf : ∀ o, (f o).key = o.key ∧ (f o).currentRecordId = o.currentRecordId ∧
      (f o).retired = o.retired ∧ (f o).currentSequence = o.currentSequence)
    (hr : t.records = s.records.map g) (hg : ∀ r, (g r).id = r.id ∧ (g r).original = r.original) :
    t.projection = s.projection := by
  have hrecord : ∀ id, (t.record? id).map SourceRecord.original =
      (s.record? id).map SourceRecord.original := by
    intro id
    rw [Store.record?, hr, Table.find_map fun r => (hg r).1, Option.map_map]
    exact Option.map_congr fun r _ => (hg r).2
  funext key
  rw [Store.projection, ho, Table.find_map fun o => (hf o).1, Store.projection]
  cases Table.find SourceObject.key s.objects key with
  | none => rfl
  | some o =>
    obtain ⟨-, hcurrent, hretired, hsequence⟩ := hf o
    simp only [Option.map_some, SourceObject.projection, hcurrent, hretired, hsequence]
    cases o.currentRecordId with
    | none => rfl
    | some id => rw [Option.bind_some, Option.bind_some, hrecord]

theorem SameRows.projection (h : SameRows rt s t) : t.projection = s.projection :=
  projection_congr (f := id) (g := id) (by rw [h.objects, List.map_id]) (fun _ => ⟨rfl, rfl, rfl, rfl⟩)
    (by rw [h.records, List.map_id]) fun _ => ⟨rfl, rfl⟩

theorem projection_mapObjects {f : SourceObject → SourceObject}
    (hf : ∀ o, (f o).key = o.key ∧ (f o).currentRecordId = o.currentRecordId ∧
      (f o).retired = o.retired ∧ (f o).currentSequence = o.currentSequence)
    (ho : t.objects = s.objects.map f) (hr : t.records = s.records) : t.projection = s.projection :=
  projection_congr ho hf (g := id) (by rw [hr, List.map_id]) fun _ => ⟨rfl, rfl⟩

theorem projection_mapRecords {g : SourceRecord → SourceRecord}
    (hg : ∀ r, (g r).id = r.id ∧ (g r).original = r.original) :
    (s.mapRecords g).projection = s.projection :=
  projection_congr (t := s.mapRecords g) (f := id) (List.map_id _).symm
    (fun _ => ⟨rfl, rfl, rfl, rfl⟩) rfl hg

theorem renormalize_original {id : Id} {values : Dict} {blockingKey : String} (r : SourceRecord) :
    (renormalize id values blockingKey r).id = r.id ∧
      (renormalize id values blockingKey r).original = r.original := by
  unfold renormalize onRow
  split <;> exact ⟨rfl, rfl⟩

/-- No projection moved and no observation was stored. -/
structure Still (s t : Store) : Prop where
  projection : t.projection = s.projection
  recordKeys : t.records.map SourceRecord.key = s.records.map SourceRecord.key

theorem Still.refl (s : Store) : Still s s := ⟨rfl, rfl⟩

theorem Still.trans {u : Store} (h : Still s t) (h' : Still t u) : Still s u :=
  ⟨h'.projection.trans h.projection, h'.recordKeys.trans h.recordKeys⟩

theorem SameRows.still (h : SameRows rt s t) : Still s t := ⟨h.projection, by rw [h.records]⟩

theorem still_mapObjects {f : SourceObject → SourceObject}
    (hf : ∀ o, (f o).key = o.key ∧ (f o).currentRecordId = o.currentRecordId ∧
      (f o).retired = o.retired ∧ (f o).currentSequence = o.currentSequence)
    (ho : t.objects = s.objects.map f) (hr : t.records = s.records) : Still s t :=
  ⟨projection_mapObjects hf ho hr, by rw [hr]⟩

theorem still_merged {ids : List Id} {target : Id} : Still s (s.merged ids target) := by
  refine still_mapObjects (fun o => ?_) rfl rfl
  unfold gather
  split <;> exact ⟨rfl, rfl, rfl, rfl⟩

theorem still_split {ids : List Id} {original : Id} {new : Entity} :
    Still s (s.split ids original new) := by
  refine still_mapObjects (fun o => ?_) rfl rfl
  unfold attach
  split <;> exact ⟨rfl, rfl, rfl, rfl⟩

theorem DecisionEffect.still {task : ReviewTask} {d : Decision}
    (he : DecisionEffect self s task d s') : Still s s' := by
  cases he with
  | quiet _ hq => exact hq.toSameRows.still
  | approveMaster _ ha =>
    refine Still.trans ?_ ha.kept.toSameRows.still
    exact ⟨rfl, rfl⟩
  | merge _ _ _ _ _ hf => exact still_merged.trans hf.toSameRows.still
  | split _ _ _ _ _ _ _ _ hf => exact still_split.trans hf.toSameRows.still
  | link _ _ _ _ _ hf => exact still_merged.trans hf.toSameRows.still
  | keepApart _ _ _ hf =>
    refine Still.trans ?_ hf.toSameRows.still
    exact ⟨rfl, rfl⟩

theorem still_runJob {jobId : Id} (h : self.runJob s jobId = .ok s') : Still s s' :=
  MasteringService.runJob_invariant (P := Still s) (.refl s)
    (fun _ _ hq ht => ht.trans hq.toSameRows.still)
    (fun u id values key ht => ht.trans ⟨projection_mapRecords renormalize_original, by
      rw [Store.mapRecords, List.map_map]
      exact List.map_congr_left fun r _ => renormalize_row.2.2.1⟩)
    (fun _ _ ht => ht.trans ⟨rfl, rfl⟩) h

/-- The verdicts on an observation that becomes the current one. -/
def Verdict.current : Verdict → Bool
  | .retired | .updated | .resolved _ => true
  | .duplicate | .quarantined | .outOfOrder => false

/-- What an object shows once an observation with these values is the current one. -/
def Projection.of (item : IncomingRecord) (values : Dict) : Projection :=
  ⟨if item.deleted then none else some values, item.deleted, item.sequence⟩

theorem projection_append (hi : Integrity rt w s) {o : SourceObject} (ho : o ∈ s.objects)
    {r : SourceRecord} (hr : t.records = s.records ++ [r]) : o.projection t = o.projection s := by
  unfold SourceObject.projection
  cases hcurrent : o.currentRecordId with
  | none => rfl
  | some id =>
    obtain ⟨-, r', hr', rfl, -⟩ := hi.currentRecord o ho id hcurrent
    have hfind : Table.find SourceRecord.id s.records r'.id = some r' := hi.record? hr'
    rw [Option.bind_some, Option.bind_some, Store.record?, Store.record?, hr,
      Table.find_append_of_some hfind, hfind]

section Round

variable {source : Source} {domainKey : String} {policy : CompiledPolicy} {o : SourceObject}
  {item : IncomingRecord} {v : Verdict} {c : Findings}

/-- An object shows the observation of its round if this became the current one. -/
theorem Round.projection_self (hr : Round self s source domainKey policy o item v s' c)
    (hi : Integrity self.rt self.workspace s) (hi' : Integrity self.rt self.workspace s')
    (ho : o ∈ s.objects) : s'.projection o.key =
      if v.current then .of item c.evaluation.values else s.projection o.key := by
  have hmem : o.after item (self.fresh s) c.target v ∈ s'.objects := by
    rw [hr.objects]
    exact Table.mem_modify.mpr (.inr ⟨o, ho, rfl, rfl⟩)
  have hrecord : s'.record? (self.fresh s) = some (c.record self s source domainKey o item) := by
    refine hi'.record? (r := c.record self s source domainKey o item) ?_
    rw [hr.records]
    exact List.mem_append_right _ (List.mem_singleton_self _)
  rw [← after_key, projection_of_mem hi' hmem, after_key, projection_of_mem hi ho,
    ← projection_append hi ho hr.records]
  cases hr.fits with
  | quarantined => rfl
  | outOfOrder => rfl
  | retiredFree _ _ hd => simp [SourceObject.projection, SourceObject.after, Verdict.current,
      Projection.of, hd]
  | retired _ _ hd => simp [SourceObject.projection, SourceObject.after, Verdict.current,
      Projection.of, hd]
  | updated _ _ hd => simp [SourceObject.projection, SourceObject.after, Verdict.current,
      Projection.of, hd, hrecord, Findings.record, MasteringService.newRecord]
  | linked _ _ hd => simp [SourceObject.projection, SourceObject.after, Verdict.current,
      Projection.of, hd, hrecord, Findings.record, MasteringService.newRecord]
  | created _ _ hd => simp [SourceObject.projection, SourceObject.after, Verdict.current,
      Projection.of, hd, hrecord, Findings.record, MasteringService.newRecord]
  | review _ _ hd => simp [SourceObject.projection, SourceObject.after, Verdict.current,
      Projection.of, hd, hrecord, Findings.record, MasteringService.newRecord]

theorem Round.projection_of_ne (hr : Round self s source domainKey policy o item v s' c)
    (hi : Integrity self.rt self.workspace s) (hi' : Integrity self.rt self.workspace s')
    (ho : o ∈ s.objects) (hk : key ≠ o.key) : s'.projection key = s.projection key := by
  cases hf : Table.find SourceObject.key s.objects key with
  | none =>
    have hn := Table.find_eq_none.mp hf
    rw [projection_of_none hn, projection_of_none]
    intro row' hrow'
    rw [hr.objects] at hrow'
    rcases Table.mem_modify.mp hrow' with ⟨hrow, -⟩ | ⟨row, hrow, -, rfl⟩
    · exact hn row' hrow
    · rw [after_key]
      exact hn row hrow
  | some row =>
    have hrow := Table.find_mem hf
    obtain rfl := Table.find_key hf
    have hrow' : row ∈ s'.objects := by
      rw [hr.objects]
      refine Table.mem_modify.mpr (.inl ⟨hrow, fun hid => hk ?_⟩)
      rw [hi.objectIds.eq_of_mem hrow ho hid]
    rw [projection_of_mem hi' hrow', projection_of_mem hi hrow, projection_append hi hrow hr.records]

end Round

theorem projection_opens {source : Source} {domainKey localId : String} {o : SourceObject}
    (ho : Opens self s source domainKey localId t o) : t.projection = s.projection := by
  cases ho with
  | known => rfl
  | new hn =>
    have hnone := Table.find_eq_none.mpr hn
    funext key
    rw [Store.projection, Store.projection, Store.insertObject]
    rw [Table.find_append (r := self.newObject s source domainKey localId) hnone]
    by_cases hkey : (self.newObject s source domainKey localId).key = key
    · rw [if_pos hkey, ← hkey, show Table.find SourceObject.key s.objects
        (self.newObject s source domainKey localId).key = none from hnone]
      rfl
    · rw [if_neg hkey]
      rfl

end Recordlane
