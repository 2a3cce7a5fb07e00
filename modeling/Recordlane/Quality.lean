import Mathlib.Data.Prod.Lex
import Mathlib.Data.String.Basic
import Recordlane.Library.Window
import Recordlane.Governance
import Recordlane.Views
import Mathlib.Algebra.GroupWithZero.Nat

/-! The quality profile of a domain, and the population that it measures. -/
namespace Recordlane

/-- The statistics of one attribute. -/
structure FieldProfile where
  field : String
  required : Bool
  present : Nat
  missing : Nat
  completeness : ℚ
  unique : Nat
  conflictingEntities : Nat
  topDistribution : List (Json × Nat)

structure QualityProfile where
  domain : String
  scope : String
  population : Nat
  sampleSize : Nat
  sampleLimit : Nat
  measuredAt : String
  freshestObservationAt : Option String
  requiredCompleteness : ℚ
  invalidRecords : Nat
  fields : List FieldProfile

/-- What a window partitions the observations by. -/
def SourceRecord.group (r : SourceRecord) : Id × String := (r.sourceId, r.localId)

/-- What it orders them by: the time of the observation, then the id. -/
def SourceRecord.stamp (r : SourceRecord) : DateTime ×ₗ String := toLex (r.observedAt, r.id)

/-- The values of an attribute that are neither missing nor empty, in the form that is counted. -/
def presentValues (records : List SourceRecord) (key : String) : List Json :=
  ((records.map fun r => r.original.get key).filter fun v => !v.blank).map Json.sortKeys

/-- `Counter(values).most_common(n)`: equal counts in the order of their first values. -/
def mostCommon (n : Nat) (values : List Json) : List (Json × Nat) :=
  ((values.eraseDups.map fun v => (v, values.count v)).insertionSort fun p q => q.2 ≤ p.2).take n

/-- A share of some cells, and the whole where there are none. -/
def completeness (present cells : Nat) : ℚ :=
  if cells = 0 then 1 else roundHalfEven (present / cells) 6

/-- The records that are attached to an entity. -/
def attachedTo (records : List SourceRecord) (entityId : Id) : List SourceRecord :=
  records.filter fun r => r.entityId = some entityId

def fieldProfile (records : List SourceRecord) (attribute_ : Dict) (key : String) : FieldProfile :=
  let present := presentValues records key
  let entityIds := (records.filterMap SourceRecord.entityId).dedup.filter fun id => id ≠ ""
  { field := key
    required := (attribute_.get "required").truthy
    present := present.length
    missing := records.length - present.length
    completeness := completeness present.length records.length
    unique := present.dedup.length
    conflictingEntities := entityIds.countP fun id =>
      1 < (presentValues (attachedTo records id) key).dedup.length
    topDistribution := mostCommon 5 present }

namespace MasteringService

variable (self : MasteringService) (s : Store)

/-- The domain that is asked for, or the first one. -/
def profiledDomain (domain : Option String) : Option Domain :=
  ((s.domains.filter fun d => d.workspaceId = self.wid &&
    match domain with
    | none | some "" => true
    | some key => d.key = key).insertionSort fun d e => d.key ≤ e.key).head?

/-- The observation of every source object that the window ranks first. -/
def latestObservations (domainKey : String) : List SourceRecord :=
  Window.latest SourceRecord.group SourceRecord.stamp
    (s.records.filter fun r => r.workspaceId = self.wid && r.domainKey = domainKey)

/-- The records that are profiled. -/
def profiledRecords (domainKey : String) (sampleLimit : Nat) : List SourceRecord :=
  ((self.latestObservations s domainKey).insertionSort fun r q => r.id ≤ q.id).take sampleLimit

/-- `quality_profile`. -/
def qualityProfile (domain : Option String) (sampleLimit : Nat) : Py QualityProfile :=
  match self.profiledDomain s domain with
  | none => httpError 404 "domain_not_found" []
  | some domain =>
    let total := (self.latestObservations s domain.key).length
    let records := self.profiledRecords s domain.key sampleLimit
    let readable := self.readableFields s domain.key
    let fields := (attributesOf domain.definition).filterMap fun item =>
      match item.get "key" with
      | .str key => if readable.contains key then some (fieldProfile records item key) else none
      | _ => none
    let required := fields.filter FieldProfile.required
    .ok {
      domain := domain.key
      scope := if total ≤ sampleLimit then "full_population" else "bounded_sample"
      population := total
      sampleSize := records.length
      sampleLimit := sampleLimit
      measuredAt := self.rt.isoformat (self.now s)
      freshestObservationAt := (records.map SourceRecord.observedAt).max?.map self.rt.isoformat
      requiredCompleteness := completeness (required.map FieldProfile.present).sum
        (records.length * required.length)
      invalidRecords := records.countP fun r => r.state = .quarantine
      fields := fields }

end MasteringService

variable {svc : MasteringService} {s : Store} {domainKey : String} {sampleLimit : Nat}
  {r : SourceRecord} {o : SourceObject}

/-- The newest observation of an object. -/
def Newest (s : Store) (o : SourceObject) (r : SourceRecord) : Prop :=
  (r ∈ s.records ∧ r.objectKey = o.key) ∧ ∀ x ∈ s.records, x.objectKey = o.key → x.stamp ≤ r.stamp

/-- The current population of a domain: the current contributions of its active objects, and the newest
observations that are quarantined. -/
def Population (s : Store) (domainKey : String) (r : SourceRecord) : Prop :=
  ∃ o ∈ s.objects, o.domainKey = domainKey ∧
    ((o.retired = false ∧ o.currentRecordId = some r.id ∧ r ∈ s.records) ∨
      (Newest s o r ∧ r.state = .quarantine))

/-- The profile measures the current population, and no superseded observation or tombstone. -/
def MeasuresPopulation (svc : MasteringService) (s : Store) (domainKey : String) (sampleLimit : Nat) :
    Prop :=
  (∀ r, r ∈ svc.profiledRecords s domainKey sampleLimit ↔ Population s domainKey r) ∧
    ∀ r ∈ svc.profiledRecords s domainKey sampleLimit, r.state ≠ .superseded ∧ r.state ≠ .deleted

theorem stamp_injective (hi : Integrity svc.rt svc.workspace s) :
    ∀ x ∈ s.records, ∀ y ∈ s.records, x.stamp = y.stamp → x = y := by
  intro x hx y hy hstamp
  exact hi.recordIds.eq_of_mem hx hy (congrArg (fun p => (ofLex p).2) hstamp)

theorem mem_latestObservations (hi : Integrity svc.rt svc.workspace s) :
    r ∈ svc.latestObservations s domainKey ↔ ∃ o ∈ s.objects, o.domainKey = domainKey ∧ Newest s o r := by
  unfold MasteringService.latestObservations
  rw [Window.mem_latest, List.mem_filter, Bool.and_eq_true, decide_eq_true_eq, decide_eq_true_eq]
  constructor
  · rintro ⟨⟨hr, hworkspace, hdomain⟩, hnewest⟩
    obtain ⟨o, ho, hkey⟩ := hi.recordObject r hr
    refine ⟨o, ho, (congrArg (fun k => k.2.1) hkey).trans hdomain, ⟨hr, hkey.symm⟩, fun x hx hx' => ?_⟩
    have hsame : x.objectKey = r.objectKey := hx'.trans hkey
    simp only [SourceRecord.objectKey, Prod.mk.injEq] at hsame
    refine hnewest x ?_ (Prod.ext hsame.1 hsame.2.2)
    rw [List.mem_filter, Bool.and_eq_true, decide_eq_true_eq, decide_eq_true_eq]
    exact ⟨hx, (hi.records x hx).1, hsame.2.1.trans hdomain⟩
  · rintro ⟨o, ho, hdomain, ⟨hr, hkey⟩, hnewest⟩
    have hrdomain : r.domainKey = domainKey := (congrArg (fun k => k.2.1) hkey).trans hdomain
    refine ⟨⟨hr, (hi.records r hr).1, hrdomain⟩, fun x hx hgroup => hnewest x (List.mem_filter.mp hx).1 ?_⟩
    have hx' := (List.mem_filter.mp hx).2
    rw [Bool.and_eq_true, decide_eq_true_eq, decide_eq_true_eq] at hx'
    rw [← hkey]
    simp only [SourceRecord.group, Prod.mk.injEq] at hgroup
    simp only [SourceRecord.objectKey, Prod.mk.injEq]
    exact ⟨hgroup.1, hx'.2.trans hrdomain.symm, hgroup.2⟩

theorem mem_profiledRecords (hi : Integrity svc.rt svc.workspace s)
    (hsize : (s.objects.filter fun o => o.workspaceId = svc.wid && o.domainKey = domainKey).length ≤
      sampleLimit) :
    r ∈ svc.profiledRecords s domainKey sampleLimit ↔
      ∃ o ∈ s.objects, o.domainKey = domainKey ∧ Newest s o r := by
  have hlength : (svc.latestObservations s domainKey).length ≤ sampleLimit := by
    refine le_trans ?_ hsize
    rw [← List.length_map fun o : SourceObject => (o.sourceId, o.localId)]
    refine Window.length_latest_le ?_ ((List.Nodup.of_map _ hi.recordIds).filter _) ?_
    · intro x hx y hy
      exact stamp_injective hi x (List.mem_filter.mp hx).1 y (List.mem_filter.mp hy).1
    · intro x hx
      rw [List.mem_filter, Bool.and_eq_true, decide_eq_true_eq, decide_eq_true_eq] at hx
      obtain ⟨o, ho, hkey⟩ := hi.recordObject x hx.1
      simp only [SourceObject.key, SourceRecord.objectKey, Prod.mk.injEq] at hkey
      refine List.mem_map.mpr ⟨o, ?_, Prod.ext hkey.1 hkey.2.2⟩
      rw [List.mem_filter, Bool.and_eq_true, decide_eq_true_eq, decide_eq_true_eq]
      exact ⟨ho, (hi.objects o ho).1, hkey.2.1.trans hx.2.2⟩
  unfold MasteringService.profiledRecords
  rw [List.take_of_length_le (by rwa [List.length_insertionSort]), List.mem_insertionSort]
  exact mem_latestObservations hi

theorem exists_newest (hr : r ∈ s.records) (hkey : r.objectKey = o.key) : ∃ x, Newest s o x := by
  have hlatest : ∃ x ∈ Window.latest SourceRecord.objectKey SourceRecord.stamp s.records,
      x.objectKey = r.objectKey := Window.exists_latest hr
  obtain ⟨x, hx, hxkey⟩ := hlatest
  obtain ⟨hx, hmax⟩ := Window.mem_latest.mp hx
  refine ⟨x, ⟨hx, hxkey.trans hkey⟩, fun y hy hy' => hmax y hy ?_⟩
  rw [hy', hxkey, hkey]

theorem Newest.unique (hi : Integrity svc.rt svc.workspace s) {x : SourceRecord} (hr : Newest s o r)
    (hx : Newest s o x) : r = x :=
  stamp_injective hi r hr.1.1 x hx.1.1 (le_antisymm (hx.2 r hr.1.1 hr.1.2) (hr.2 x hx.1.1 hx.1.2))

theorem Newest.object_eq (hi : Integrity svc.rt svc.workspace s) {o' : SourceObject} (ho : o ∈ s.objects)
    (ho' : o' ∈ s.objects) (hr : Newest s o r) (hkey : r.objectKey = o'.key) : o' = o :=
  hi.objectKeys.eq_of_mem ho' ho (hkey.symm.trans hr.1.2)

theorem current_record (hi : Integrity svc.rt svc.workspace s) (ho : o ∈ s.objects) (hr : r ∈ s.records)
    (hcurrent : o.currentRecordId = some r.id) :
    o.retired = false ∧ r.state = .valid ∧ r.objectKey = o.key := by
  obtain ⟨hactive, x, hx, hid, hstate, hkey⟩ := hi.currentRecord o ho r.id hcurrent
  have hsame : x = r := hi.recordIds.eq_of_mem hx hr hid
  subst hsame
  exact ⟨hactive, hstate, hkey⟩

/-- The profile measures the current population of a domain, if and only if the newest observation of each
object is its current contribution, or is quarantined while the object has none. -/
theorem measures_population_iff (hs : Attained svc.rt svc.workspace s)
    (hsize : (s.objects.filter fun o => o.workspaceId = svc.wid && o.domainKey = domainKey).length ≤
      sampleLimit) :
    MeasuresPopulation svc s domainKey sampleLimit ↔
      ∀ o ∈ s.objects, o.domainKey = domainKey → ∀ r, Newest s o r →
        o.currentRecordId = some r.id ∨ (r.state = .quarantine ∧ o.currentRecordId = none) := by
  have hi := hs.sound.1
  unfold MeasuresPopulation
  simp only [mem_profiledRecords hi hsize]
  constructor
  · rintro ⟨hsame, -⟩ o ho hdomain r hr
    obtain ⟨o', ho', hdomain', ⟨-, hcurrent, -⟩ | ⟨hr', hstate⟩⟩ := (hsame r).mp ⟨o, ho, hdomain, hr⟩
    · have hkey := (current_record hi ho' hr.1.1 hcurrent).2.2
      rw [← Newest.object_eq hi ho ho' hr hkey]
      exact .inl hcurrent
    · refine .inr ⟨hstate, ?_⟩
      cases hcurrent : o.currentRecordId with
      | none => rfl
      | some id =>
        -- a current contribution beside the quarantined observation is not profiled
        obtain ⟨hactive, x, hx, rfl, hvalid, hkey⟩ := hi.currentRecord o ho id hcurrent
        obtain ⟨o'', ho'', -, hx'⟩ := (hsame x).mpr ⟨o, ho, hdomain, .inl ⟨hactive, hcurrent, hx⟩⟩
        rw [← Newest.object_eq hi ho'' ho hx' hkey] at hx'
        rw [Newest.unique hi hr hx', hvalid] at hstate
        cases hstate
  · intro hall
    refine ⟨fun r => ?_, ?_⟩
    · constructor
      · rintro ⟨o, ho, hdomain, hr⟩
        rcases hall o ho hdomain r hr with hcurrent | ⟨hstate, -⟩
        · exact ⟨o, ho, hdomain, .inl ⟨(current_record hi ho hr.1.1 hcurrent).1, hcurrent, hr.1.1⟩⟩
        · exact ⟨o, ho, hdomain, .inr ⟨hr, hstate⟩⟩
      · rintro ⟨o, ho, hdomain, ⟨-, hcurrent, hr⟩ | ⟨hr, -⟩⟩
        · obtain ⟨x, hx⟩ := exists_newest hr (current_record hi ho hr hcurrent).2.2
          rcases hall o ho hdomain x hx with hcurrent' | ⟨-, hnone⟩
          · rw [hcurrent, Option.some.injEq] at hcurrent'
            rw [hi.recordIds.eq_of_mem hr hx.1.1 hcurrent']
            exact ⟨o, ho, hdomain, hx⟩
          · rw [hcurrent] at hnone
            cases hnone
        · exact ⟨o, ho, hdomain, hr⟩
    · rintro r ⟨o, ho, hdomain, hr⟩
      have hstate : r.state = .valid ∨ r.state = .quarantine := by
        rcases hall o ho hdomain r hr with hcurrent | ⟨hstate, -⟩
        · exact .inl (current_record hi ho hr.1.1 hcurrent).2.1
        · exact .inr hstate
      rcases hstate with hstate | hstate <;> rw [hstate] <;> decide

namespace Supplier

/-- An observation, and one that comes late with a smaller sequence. -/
def late : List IncomingRecord := [
  { observation "a" "1" [("name", .str "A")] with sequence := some 5 },
  { observation "a" "2" [("name", .str "B")] with sequence := some 3 }]

theorem measures_population_three :
    MeasuresPopulation master (after [three]) "supplier" 100000 ↔
      ∀ o ∈ (after [three]).objects, o.domainKey = "supplier" → ∀ r, Newest (after [three]) o r →
        o.currentRecordId = some r.id ∨ (r.state = .quarantine ∧ o.currentRecordId = none) :=
  measures_population_iff (Reachable.attained ⟨setup ++ [three], rfl⟩) (by decide +kernel)

/-- A late observation is profiled in place of the current contribution. -/
theorem late_observation_profiled : ¬ ∀ s, Reachable .plain workspace s →
    ∀ (domainKey : String) (sampleLimit : Nat),
      (s.objects.filter fun o => o.workspaceId = master.wid && o.domainKey = domainKey).length ≤
        sampleLimit → MeasuresPopulation master s domainKey sampleLimit := by
  intro hall
  have hchecks : ((after [ingest late]).objects.filter fun o => o.workspaceId = master.wid &&
        o.domainKey = "supplier").length ≤ 100000 ∧
      (master.profiledRecords (after [ingest late]) "supplier" 100000).any
        (fun r => r.state = .superseded) = true := by
    decide +kernel
  obtain ⟨r, hr, hstate⟩ := List.any_eq_true.mp hchecks.2
  obtain ⟨-, hnever⟩ := hall (after [ingest late]) ⟨setup ++ [ingest late], rfl⟩ "supplier" 100000 hchecks.1
  exact (hnever r hr).1 (of_decide_eq_true hstate)

end Supplier

end Recordlane
