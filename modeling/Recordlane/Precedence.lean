import Recordlane.Recompiling
import Recordlane.Survivors
import Recordlane.Supplier
import Recordlane.Library.Preference
import Mathlib.Data.List.MinMax
import Mathlib.Data.Prod.Lex
import Mathlib.Data.String.Basic
import Mathlib.Data.Set.Card
import Mathlib.Data.Int.ConditionallyCompleteOrder

/-! Which contribution to a field survives, as the rules of the policy say it. -/
namespace Recordlane
open Preference

variable {svc : MasteringService} {s : Store} {x : Id} {policy : CompiledPolicy} {field : String}

namespace Contender

/-- What the contenders are compared by. -/
def key (c : Contender) : Int ×ₗ Int ×ₗ DateTime ×ₗ Id :=
  toLex (c.verifiedRank, toLex (c.precedenceRank, toLex (c.record.observedAt, c.record.id)))

theorem lt_iff {a b : Contender} : a.lt b = true ↔ a.key < b.key := by
  simp only [lt, key, Prod.Lex.toLex_lt_toLex, Bool.or_eq_true, Bool.and_eq_true, decide_eq_true_eq]

theorem winner_eq_argmax (cs : List Contender) : winner cs = cs.argmax key := by
  have hfold : ∀ (cs : List Contender) (c : Contender),
      some (cs.foldl (fun best c => if best.lt c then c else best) c) =
        cs.foldl (List.argAux fun b c => key c < key b) (some c) := by
    intro cs
    induction cs with
    | nil => exact fun _ => rfl
    | cons d cs ih =>
      intro c
      rw [List.foldl_cons, List.foldl_cons, ih]
      congr 1
      rw [List.argAux]
      simp only [lt_iff]
      split <;> rfl
  cases cs with
  | nil => rfl
  | cons c cs => exact hfold cs c

theorem winner_eq_none {cs : List Contender} : winner cs = none ↔ cs = [] := by
  rw [winner_eq_argmax, List.argmax_eq_none]

theorem winner_greatest {cs : List Contender} {w : Contender} (h : winner cs = some w) :
    w ∈ cs ∧ ∀ c ∈ cs, c.key ≤ w.key := by
  rw [winner_eq_argmax] at h
  exact ⟨List.argmax_mem h, fun c hc => List.le_of_mem_argmax hc h⟩

end Contender

/-- The record speaks of the field: it has a value there that is not null. -/
def SourceRecord.speaksOf (field : String) (r : SourceRecord) : Bool :=
  r.original.contains field && !(r.original.get field).pyEq .null

theorem SourceRecord.speaksOf_iff {r : SourceRecord} :
    r.speaksOf field = true ↔ ∃ v, r.original.get? field = some v ∧ v ≠ .null := by
  rw [speaksOf, Dict.contains_eq_isSome, Dict.get]
  cases r.original.get? field with
  | none => simp
  | some v =>
    have hnull : v.pyEq .null = false ↔ v ≠ .null := by
      rw [← Bool.not_eq_true]
      exact not_congr Json.pyEq_null
    simp [hnull]

namespace MasteringService

/-- The contenders of an entity for a field. -/
def contenders (svc : MasteringService) (s : Store) (policy : CompiledPolicy) (x : Id) (field : String) :
    Py (List Contender) := do
  return (← (svc.currentRecords s x).mapM (contender s policy field)).filterMap id

/-- What the contenders leave to the entity's values and their provenance. -/
def Awarded (svc : MasteringService) (policy : CompiledPolicy) (field : String) (options : List Contender)
    (values provenance : Dict) : Prop :=
  match Contender.winner options with
  | none => values.get? field = none ∧ provenance.get? field = none
  | some w => values.get? field = some (w.record.original.get field) ∧
      provenance.get? field = some (svc.provenanceOf policy field w options.length)

/-- One round of the loop over the fields. -/
def award (svc : MasteringService) (s : Store) (policy : CompiledPolicy) (x : Id) (found : Dict × Dict)
    (field : String) : Py (Dict × Dict) := do
  let options ← svc.contenders s policy x field
  match Contender.winner options with
  | none => return found
  | some w => return (found.1.set field (w.record.original.get field),
      found.2.set field (svc.provenanceOf policy field w options.length))

theorem masterValues_eq : svc.masterValues s x policy =
    (sortedSet ((svc.currentRecords s x).flatMap fun r => r.original.keys)).foldlM
      (svc.award s policy x) ([], []) := by
  unfold masterValues
  dsimp only
  congr 1
  funext found field
  unfold award contenders
  rw [bind_assoc]
  rfl

theorem award_step {found found' : Dict × Dict} (h : svc.award s policy x found field = .ok found')
    (hfound : found.1.get? field = none ∧ found.2.get? field = none) :
    (∃ options, svc.contenders s policy x field = .ok options ∧
      svc.Awarded policy field options found'.1 found'.2) ∧
    ∀ other, other ≠ field →
      found'.1.get? other = found.1.get? other ∧ found'.2.get? other = found.2.get? other := by
  unfold award at h
  rw [Except.bind_eq_ok] at h
  obtain ⟨options, hoptions, h⟩ := h
  cases hw : Contender.winner options with
  | none =>
    rw [hw] at h
    cases h
    refine ⟨⟨options, hoptions, ?_⟩, fun _ _ => ⟨rfl, rfl⟩⟩
    rw [Awarded, hw]
    exact hfound
  | some w =>
    rw [hw] at h
    cases h
    refine ⟨⟨options, hoptions, ?_⟩, fun other hother => ?_⟩
    · rw [Awarded, hw]
      exact ⟨Dict.get?_set, Dict.get?_set⟩
    · exact ⟨Dict.get?_set_of_ne hother, Dict.get?_set_of_ne hother⟩

theorem award_run {fields : List String} (hfields : fields.Nodup) {found found' : Dict × Dict}
    (h : fields.foldlM (svc.award s policy x) found = .ok found')
    (hfound : ∀ field ∈ fields, found.1.get? field = none ∧ found.2.get? field = none) :
    (∀ field ∈ fields, ∃ options, svc.contenders s policy x field = .ok options ∧
      svc.Awarded policy field options found'.1 found'.2) ∧
    ∀ other, other ∉ fields →
      found'.1.get? other = found.1.get? other ∧ found'.2.get? other = found.2.get? other := by
  induction fields generalizing found with
  | nil =>
    cases h
    exact ⟨nofun, fun _ _ => ⟨rfl, rfl⟩⟩
  | cons field fields ih =>
    rw [List.nodup_cons] at hfields
    rw [List.forall_mem_cons] at hfound
    rw [List.foldlM_cons, Except.bind_eq_ok] at h
    obtain ⟨next, hnext, h⟩ := h
    obtain ⟨⟨options, hoptions, hawarded⟩, hothers⟩ := award_step hnext hfound.1
    have hkeep : ∀ other ∈ fields, next.1.get? other = none ∧ next.2.get? other = none := by
      intro other hother
      have hne : other ≠ field := fun h => hfields.1 (h ▸ hother)
      rw [(hothers other hne).1, (hothers other hne).2]
      exact hfound.2 other hother
    obtain ⟨hrun, hrest⟩ := ih hfields.2 h hkeep
    constructor
    · rw [List.forall_mem_cons]
      refine ⟨⟨options, hoptions, ?_⟩, hrun⟩
      unfold Awarded at hawarded ⊢
      rw [(hrest field hfields.1).1, (hrest field hfields.1).2]
      exact hawarded
    · intro other hother
      rw [List.mem_cons, not_or] at hother
      rw [(hrest other hother.2).1, (hrest other hother.2).2]
      exact hothers other hother.1

theorem contender_of_silent {r : SourceRecord} (h : r.speaksOf field = false) :
    contender s policy field r = .ok none := by
  have hsilent : (!r.original.contains field || (r.original.get field).pyEq .null) = true := by
    rw [SourceRecord.speaksOf] at h
    cases hc : r.original.contains field with
    | false => rfl
    | true =>
      rw [hc, Bool.true_and] at h
      simpa using h
  rw [contender, if_pos hsilent]
  rfl

theorem contenders_of_silent (h : ∀ r ∈ svc.currentRecords s x, r.speaksOf field = false) :
    svc.contenders s policy x field = .ok [] := by
  have hrows : ∀ rows : List SourceRecord, (∀ r ∈ rows, r.speaksOf field = false) →
      rows.mapM (contender s policy field) = .ok (rows.map fun _ => none) := by
    intro rows hrows
    induction rows with
    | nil => rfl
    | cons r rows ih =>
      rw [List.forall_mem_cons] at hrows
      rw [List.mapM_cons, contender_of_silent hrows.1, ih hrows.2]
      rfl
  rw [contenders, hrows _ h]
  simp [bind, Except.bind, pure, Except.pure]

/-- The values and their provenance are awarded to the fields one by one. -/
theorem masterValues_awarded {values provenance : Dict}
    (h : svc.masterValues s x policy = .ok (values, provenance)) (field : String) :
    ∃ options, svc.contenders s policy x field = .ok options ∧
      svc.Awarded policy field options values provenance := by
  rw [masterValues_eq] at h
  obtain ⟨hrun, hrest⟩ := award_run (sortedSet_nodup _) h fun _ _ => ⟨rfl, rfl⟩
  by_cases hfield : field ∈ sortedSet ((svc.currentRecords s x).flatMap fun r => r.original.keys)
  · exact hrun field hfield
  · refine ⟨[], contenders_of_silent fun r hr => ?_, hrest field hfield⟩
    have hkey : field ∉ r.original.keys := fun hkey =>
      hfield (mem_sortedSet.mpr (List.mem_flatMap.mpr ⟨r, hr, hkey⟩))
    have hcontains : r.original.contains field = false := by
      rw [Dict.contains, List.any_eq_false]
      intro p hp hk
      exact hkey (List.mem_map.mpr ⟨p, hp, of_decide_eq_true hk⟩)
    rw [SourceRecord.speaksOf, hcontains, Bool.false_and]

theorem masterValues_isOk (h : ∀ field, ∃ options, svc.contenders s policy x field = .ok options) :
    ∃ values provenance, svc.masterValues s x policy = .ok (values, provenance) := by
  rw [masterValues_eq]
  generalize (([], []) : Dict × Dict) = found
  induction sortedSet ((svc.currentRecords s x).flatMap fun r => r.original.keys) generalizing found with
  | nil => exact ⟨_, _, rfl⟩
  | cons field fields ih =>
    obtain ⟨options, hoptions⟩ := h field
    obtain ⟨next, hnext⟩ : ∃ next, svc.award s policy x found field = .ok next := by
      unfold award
      rw [hoptions]
      cases hw : Contender.winner options <;> simp only [bind, Except.bind, hw] <;> exact ⟨_, rfl⟩
    rw [List.foldlM_cons, hnext]
    exact ih next

end MasteringService

/-- What the database and the callers promise of the rows that survivorship reads. -/
structure Sourced (s : Store) : Prop where
  recordIds : Table.Keyed SourceRecord.id s.records
  objectIds : Table.Keyed SourceObject.id s.objects
  sourceIds : Table.Keyed Source.id s.sources
  sourceKeys : Table.Keyed (fun y => (y.workspaceId, y.key)) s.sources
  origin : ∀ r ∈ s.records, ∃ y ∈ s.sources, y.id = r.sourceId ∧ y.workspaceId = r.workspaceId
  currentOnce : ∀ o ∈ s.objects, ∀ o' ∈ s.objects, ∀ x, o.currentRecordId = some x →
    o'.currentRecordId = some x → o.id = o'.id
  priorities : ∀ y ∈ s.sources, 1 ≤ y.priority

/-- A current contribution of an entity to a field, with its source. -/
structure Contribution (svc : MasteringService) (s : Store) (x : Id) (field : String) where
  record : SourceRecord
  source : Source
  stored : record ∈ s.records
  workspace : record.workspaceId = svc.wid
  valid : record.state = .valid
  current : ∃ o ∈ s.objects, o.currentRecordId = some record.id ∧ o.retired = false ∧ o.entityId = some x
  speaks : ∃ v, record.original.get? field = some v ∧ v ≠ .null
  listed : source ∈ s.sources
  origin : source.id = record.sourceId

namespace CompiledPolicy

/-- The strategy of a field: its own, or the default one. -/
def strategyOf (policy : CompiledPolicy) (field : String) : Json :=
  match policy.survivorship.get? field with
  | some (.obj rule) => Dict.get rule "strategy"
  | some strategy => strategy
  | none => (policy.survivorship.get? "default").getD (.str "source_priority_then_observation_time")

/-- The sources that the rule of a field lists. -/
def precedence (policy : CompiledPolicy) (field : String) : List Json :=
  match policy.survivorship.get? field with
  | some (.obj rule) =>
    match Dict.get? rule "source_precedence" with
    | some (.arr listed) => listed
    | _ => []
  | _ => []

/-- The place of a source in that list. -/
def position (policy : CompiledPolicy) (field : String) (y : Source) : Option Nat :=
  (policy.precedence field).findIdx? fun entry => entry = .str y.key

end CompiledPolicy

namespace Contribution

variable {c d : Contribution svc s x field}

/-- What one contribution is preferred to another one for, in this order. -/
def criteria (policy : CompiledPolicy) :
    List (Contribution svc s x field → Contribution svc s x field → Prop) := [
  fun c d => policy.strategyOf field = .str "verified_then_source_priority_then_observation_time" ∧
    MasteringService.isVerified c.record field = true ∧ MasteringService.isVerified d.record field = false,
  fun c d => ∃ i j, policy.position field c.source = some i ∧ policy.position field d.source = some j ∧ i < j,
  fun c d => (∃ i, policy.position field c.source = some i) ∧ policy.position field d.source = none,
  fun c d => c.source.priority < d.source.priority,
  fun c d => d.record.observedAt < c.record.observedAt,
  fun c d => d.record.id < c.record.id]

/-- The records of the other contributions. -/
def others (c : Contribution svc s x field) : Set Id :=
  {i | ∃ d : Contribution svc s x field, d.record.id = i ∧ i ≠ c.record.id}

/-- The entry names the contribution. -/
structure NamedBy (c : Contribution svc s x field) (entry : Dict) : Prop where
  source : entry.get "source" = .str c.source.name
  sourceKey : entry.get "source_key" = .str c.source.key
  record : entry.get "source_record_id" = .str c.record.id
  alternatives : entry.get "alternatives" = .int c.others.ncard

/-- The contribution is preferred to all others. -/
def Greatest (policy : CompiledPolicy) (c : Contribution svc s x field) : Prop :=
  ∀ d : Contribution svc s x field, d.record.id ≠ c.record.id → Preferred (criteria policy) c d

end Contribution

/-- The values of the entity are those of the greatest contributions, and the provenance names them. -/
def Survives (svc : MasteringService) (s : Store) (x : Id) (policy : CompiledPolicy) : Prop :=
  ∃ values provenance, svc.masterValues s x policy = .ok (values, provenance) ∧ ∀ field,
    (IsEmpty (Contribution svc s x field) → values.get? field = none ∧ provenance.get? field = none) ∧
    (Nonempty (Contribution svc s x field) → ∃ c : Contribution svc s x field, c.Greatest policy ∧
      values.get? field = some (c.record.original.get field) ∧
      ∃ entry, provenance.get? field = some (.obj entry) ∧ c.NamedBy entry)

/-- The rule lists its sources, or none. -/
def ListsSources (rule : Dict) : Prop :=
  match rule.get? "source_precedence" with
  | none | some (.arr _) => True
  | some precedence => precedence = .obj []

namespace Contribution

variable {c d : Contribution svc s x field}

theorem currentRecords_iff {r : SourceRecord} : r ∈ svc.currentRecords s x ↔ r ∈ s.records ∧
    r.workspaceId = svc.wid ∧ r.state = .valid ∧
    ∃ o ∈ s.objects, o.currentRecordId = some r.id ∧ o.retired = false ∧ o.entityId = some x := by
  simp only [MasteringService.currentRecords, MasteringService.contributes, List.mem_flatMap,
    List.mem_filter, List.mem_map, Bool.and_eq_true, decide_eq_true_eq, Bool.not_eq_true']
  constructor
  · rintro ⟨r', ⟨hr, hw, hv⟩, o, ⟨ho, ⟨hcurrent, hlive⟩, hx⟩, rfl⟩
    exact ⟨hr, hw, hv, o, ho, hcurrent, hlive, hx⟩
  · rintro ⟨hr, hw, hv, o, ho, hcurrent, hlive, hx⟩
    exact ⟨r, ⟨hr, hw, hv⟩, o, ⟨ho, ⟨hcurrent, hlive⟩, hx⟩, rfl⟩

theorem exists_record (hs : Sourced s) {r : SourceRecord} (hr : r ∈ svc.currentRecords s x)
    (hspeaks : r.speaksOf field = true) : ∃ c : Contribution svc s x field, c.record = r := by
  obtain ⟨hstored, hw, hv, hcurrent⟩ := currentRecords_iff.mp hr
  obtain ⟨y, hy, hid, -⟩ := hs.origin r hstored
  exact ⟨⟨r, y, hstored, hw, hv, hcurrent, SourceRecord.speaksOf_iff.mp hspeaks, hy, hid⟩, rfl⟩

theorem record_current (c : Contribution svc s x field) : c.record ∈ svc.currentRecords s x :=
  currentRecords_iff.mpr ⟨c.stored, c.workspace, c.valid, c.current⟩

theorem record_speaks (c : Contribution svc s x field) : c.record.speaksOf field = true :=
  SourceRecord.speaksOf_iff.mpr c.speaks

theorem find_source (hs : Sourced s) (c : Contribution svc s x field) :
    (s.sources.find? fun y => y.id = c.record.sourceId) = some c.source :=
  (hs.sourceIds.find_iff).mpr ⟨c.listed, c.origin⟩

theorem eq_of_record (hs : Sourced s) (h : c.record = d.record) : c = d := by
  have hsource : c.source = d.source := by
    refine hs.sourceIds.eq_of_mem c.listed d.listed ?_
    rw [c.origin, d.origin, h]
  cases c
  cases d
  cases h
  cases hsource
  rfl

theorem source_eq (hs : Sourced s) (h : c.source.key = d.source.key) : c.source = d.source := by
  have hworkspace : ∀ c : Contribution svc s x field, c.source.workspaceId = svc.wid := by
    intro c
    obtain ⟨y, hy, hid, hw⟩ := hs.origin c.record c.stored
    rw [hs.sourceIds.eq_of_mem c.listed hy (c.origin.trans hid.symm), hw, c.workspace]
  exact hs.sourceKeys.eq_of_mem c.listed d.listed (Prod.ext ((hworkspace c).trans (hworkspace d).symm) h)

/-- The rank of a source for the field. -/
def rank (policy : CompiledPolicy) (c : Contribution svc s x field) : Int :=
  match policy.position field c.source with
  | some i => -i
  | none => -(policy.precedence field).length - c.source.priority

theorem position_lt {y : Source} {i : Nat} (h : policy.position field y = some i) :
    i < (policy.precedence field).length := by
  obtain ⟨hi, -⟩ := List.findIdx?_eq_some_iff_getElem.mp h
  exact hi

theorem source_eq_of_position (hs : Sourced s) {i : Nat} (hc : policy.position field c.source = some i)
    (hd : policy.position field d.source = some i) : c.source = d.source := by
  obtain ⟨hi, hkey, -⟩ := List.findIdx?_eq_some_iff_getElem.mp hc
  obtain ⟨_, hkey', -⟩ := List.findIdx?_eq_some_iff_getElem.mp hd
  rw [decide_eq_true_eq] at hkey hkey'
  exact source_eq hs (Json.str.inj (hkey.symm.trans hkey'))

/-- The rank puts listed sources first, in the order of the list, and the others in that of their
priorities. -/
theorem preferred_rank (hs : Sourced s) (c d : Contribution svc s x field) :
    Preferred [
      fun c d => ∃ i j, policy.position field c.source = some i ∧
        policy.position field d.source = some j ∧ i < j,
      fun c d => (∃ i, policy.position field c.source = some i) ∧ policy.position field d.source = none,
      fun c d : Contribution svc s x field => c.source.priority < d.source.priority] c d ↔
    d.rank policy < c.rank policy := by
  simp only [preferred_cons, not_preferred_nil, rank]
  have hc := hs.priorities _ c.listed
  have hd := hs.priorities _ d.listed
  cases hi : policy.position field c.source with
  | none =>
    cases hj : policy.position field d.source with
    | none => simp
    | some j =>
      have hlt := position_lt hj
      simp
      omega
  | some i =>
    have hlt := position_lt hi
    cases hj : policy.position field d.source with
    | none =>
      simp
      omega
    | some j =>
      by_cases heq : i = j
      · subst heq
        simp [source_eq_of_position hs hi hj]
      · simp
        omega

/-- The contender that a contribution becomes. -/
def toContender (policy : CompiledPolicy) (c : Contribution svc s x field) : Contender where
  verifiedRank :=
    if policy.strategyOf field = .str "verified_then_source_priority_then_observation_time" ∧
      MasteringService.isVerified c.record field = true then 1 else 0
  precedenceRank := c.rank policy
  record := c.record
  source := c.source

theorem preferred_iff (hs : Sourced s) (c d : Contribution svc s x field) :
    Preferred (criteria policy) c d ↔ (d.toContender policy).key < (c.toContender policy).key := by
  have hverified : ∀ c d : Contribution svc s x field,
      (policy.strategyOf field = .str "verified_then_source_priority_then_observation_time" ∧
        MasteringService.isVerified c.record field = true ∧
        MasteringService.isVerified d.record field = false) ↔
      (d.toContender policy).verifiedRank < (c.toContender policy).verifiedRank := by
    intro c d
    simp only [toContender]
    by_cases hstrategy :
      policy.strategyOf field = .str "verified_then_source_priority_then_observation_time"
    · cases MasteringService.isVerified c.record field <;>
        cases MasteringService.isVerified d.record field <;> simp [hstrategy]
    · simp [hstrategy]
  have hobserved := @preferred_cons_rank _ _ (fun c d : Contribution svc s x field =>
    d.record.observedAt < c.record.observedAt) [fun c d => d.record.id < c.record.id] c d _
    (fun c => c.record.observedAt) Iff.rfl Iff.rfl
  have hid := @preferred_cons_rank _ _ (fun c d : Contribution svc s x field =>
    d.record.id < c.record.id) [] c d _ (fun c => c.record.id) Iff.rfl Iff.rfl
  refine (@preferred_cons_rank _ _ _ _ c d _ (fun c => (c.toContender policy).verifiedRank)
    (hverified c d) (hverified d c)).trans ?_
  refine (or_congr Iff.rfl (and_congr Iff.rfl (preferred_append_rank (preferred_rank hs c d)
    (preferred_rank hs d c)))).trans ?_
  rw [hobserved, hid]
  simp only [Contender.key, toContender, Prod.Lex.toLex_lt_toLex, not_preferred_nil, and_false, or_false]

end Contribution

section Ranks

variable {rt : Runtime} {attributes : List Dict} {rule : Dict} {y : Source}

theorem precedenceRank_of_list {listed : List Json}
    (h : (rule.get? "source_precedence").getD (.arr []) = .arr listed) :
    MasteringService.precedenceRank rule y = .ok (match listed.findIdx? fun entry => entry = .str y.key with
      | some i => -(i : Int)
      | none => -(listed.length : Int) - y.priority) := by
  unfold MasteringService.precedenceRank
  simp only [h, Json.isIn, indexOf, lengthOf, Json.pyEq_str, bind, Except.bind]
  cases hfind : listed.findIdx? fun entry => entry = .str y.key with
  | none =>
    rw [if_neg]
    · rfl
    · intro hany
      obtain ⟨entry, hentry, heq⟩ := List.any_eq_true.mp hany
      rw [List.findIdx?_eq_none_iff.mp hfind entry hentry] at heq
      cases heq
  | some i =>
    rw [if_pos]
    · rfl
    · obtain ⟨hi, hentry, -⟩ := List.findIdx?_eq_some_iff_getElem.mp hfind
      exact List.any_eq_true.mpr ⟨_, List.getElem_mem hi, hentry⟩

theorem precedenceRank_of_empty (h : (rule.get? "source_precedence").getD (.arr []) = .obj []) :
    MasteringService.precedenceRank rule y = .ok (-y.priority) := by
  unfold MasteringService.precedenceRank
  simp [h, Json.isIn, lengthOf, Dict.contains, bind, Except.bind, pure, Except.pure]

theorem strategy_of_checked {v : Json} (h : checkSurvivorshipRule rt field v = .ok ()) :
    (∃ strategy ∈ survivorshipStrategies, v = .str strategy) ∨
      ∃ rule, v = .obj rule ∧ ∃ strategy ∈ survivorshipStrategies, Dict.get? rule "strategy" =
      some (.str strategy) := by
  unfold checkSurvivorshipRule at h
  cases v with
  | str strategy =>
    simp only [pure_bind] at h
    split at h
    · cases h
    · next hlisted =>
      obtain ⟨_, heq, hmem⟩ := memberOf_str (by simpa using hlisted)
      exact .inl ⟨strategy, Json.str.inj heq ▸ hmem, rfl⟩
  | obj rule =>
    dsimp only at h
    split at h
    · cases h
    · simp only [pure_bind] at h
      split at h
      · cases h
      · next hlisted =>
        obtain ⟨strategy, heq, hmem⟩ := memberOf_str (by simpa using hlisted)
        refine .inr ⟨rule, rfl, strategy, hmem, ?_⟩
        rw [Dict.get] at heq
        cases hrule : Dict.get? rule "strategy" with
        | none =>
          rw [hrule] at heq
          cases heq
        | some v =>
          rw [hrule] at heq
          exact congrArg some heq
  | _ => cases h

variable (hchecked : RulesChecked rt attributes policy.survivorship)
  (hdefault : ∀ rule, policy.survivorship.get? "default" ≠ some (.obj rule))

include hchecked hdefault in
/-- A verified value ranks before the others under the strategy that says so. -/
theorem verifiedRank_eq (verified : Bool) :
    MasteringService.verifiedRank policy (MasteringService.fieldRule policy field) verified =
      .ok (if policy.strategyOf field = .str "verified_then_source_priority_then_observation_time" ∧
        verified = true then 1 else 0) := by
  have hstrategy : ∀ strategy ∈ survivorshipStrategies,
      (if strategy.startsWith "verified" then (1 : Int) else 0) =
        if Json.str strategy = .str "verified_then_source_priority_then_observation_time" then 1 else 0 := by
    decide +kernel
  cases verified with
  | false => simp [MasteringService.verifiedRank]
  | true =>
    have hname : ∃ strategy, ((MasteringService.fieldRule policy field).get? "strategy").getD
        ((policy.survivorship.get? "default").getD (.str "")) = .str strategy ∧
        (if strategy.startsWith "verified" then (1 : Int) else 0) =
          if policy.strategyOf field = .str "verified_then_source_priority_then_observation_time"
          then 1 else 0 := by
      cases hrule : policy.survivorship.get? field with
      | none =>
        have hfield : MasteringService.fieldRule policy field = [] := by
          rw [MasteringService.fieldRule, hrule]
        have hget : Dict.get? [] "strategy" = none := rfl
        rw [hfield, hget, Option.getD_none, CompiledPolicy.strategyOf, hrule]
        cases hname : policy.survivorship.get? "default" with
        | none => exact ⟨"", rfl, by decide +kernel⟩
        | some v =>
          rcases strategy_of_checked (hchecked.each _ (Dict.get?_mem hname)) with
            ⟨strategy, hmem, rfl⟩ | ⟨rule, rfl, -⟩
          · exact ⟨strategy, rfl, hstrategy strategy hmem⟩
          · exact absurd hname (hdefault rule)
      | some v =>
        rcases strategy_of_checked (hchecked.each _ (Dict.get?_mem hrule)) with
          ⟨strategy, hmem, rfl⟩ | ⟨rule, rfl, strategy, hmem, hget⟩
        · rw [MasteringService.fieldRule, CompiledPolicy.strategyOf, hrule]
          exact ⟨strategy, rfl, hstrategy strategy hmem⟩
        · have hown : policy.strategyOf field = .str strategy := by
            rw [CompiledPolicy.strategyOf, hrule]
            dsimp only
            rw [Dict.get, hget]
            rfl
          rw [MasteringService.fieldRule, hrule, hown]
          dsimp only
          rw [hget]
          exact ⟨strategy, rfl, hstrategy strategy hmem⟩
    obtain ⟨strategy, hname, hrank⟩ := hname
    rw [MasteringService.verifiedRank, if_neg (by simp), hname]
    simp only [hrank, and_true]

/-- A rule that lists its sources ranks them as it lists them. -/
theorem precedenceRank_eq
    (hlists : ∀ rule, policy.survivorship.get? field = some (.obj rule) → ListsSources rule)
    (c : Contribution svc s x field) :
    MasteringService.precedenceRank (MasteringService.fieldRule policy field) c.source =
      .ok (c.rank policy) := by
  have hnone : ∀ rule : Dict, MasteringService.fieldRule policy field = rule →
      rule.get? "source_precedence" = none → policy.precedence field = [] →
      MasteringService.precedenceRank (MasteringService.fieldRule policy field) c.source =
        .ok (c.rank policy) := by
    intro rule hrule hget hprecedence
    rw [hrule, precedenceRank_of_list (by rw [hget]; rfl), Contribution.rank, CompiledPolicy.position,
      hprecedence]
  cases hrule : policy.survivorship.get? field with
  | none =>
    exact hnone [] (by rw [MasteringService.fieldRule, hrule]) rfl
      (by rw [CompiledPolicy.precedence, hrule])
  | some v =>
    cases v with
    | obj rule =>
      have hfield : MasteringService.fieldRule policy field = rule := by
        rw [MasteringService.fieldRule, hrule]
      have hlists' := hlists rule hrule
      unfold ListsSources at hlists'
      cases hget : Dict.get? rule "source_precedence" with
      | none => exact hnone rule hfield hget (by rw [CompiledPolicy.precedence, hrule]; simp only [hget])
      | some found =>
        cases found with
        | arr listed =>
          have hprecedence : policy.precedence field = listed := by
            rw [CompiledPolicy.precedence, hrule]
            simp only [hget]
          rw [hfield, precedenceRank_of_list (by rw [hget]; rfl), Contribution.rank,
            CompiledPolicy.position, hprecedence]
        | obj kvs =>
          rw [hget] at hlists'
          cases hlists'
          have hprecedence : policy.precedence field = [] := by
            rw [CompiledPolicy.precedence, hrule]
            simp only [hget]
          rw [hfield, precedenceRank_of_empty (by rw [hget]; rfl), Contribution.rank,
            CompiledPolicy.position, hprecedence]
          simp
        | _ =>
          rw [hget] at hlists'
          cases hlists'
    | str strategy =>
      exact hnone [("strategy", .str strategy)] (by rw [MasteringService.fieldRule, hrule]) rfl
        (by rw [CompiledPolicy.precedence, hrule])
    | _ =>
      exact hnone [] (by rw [MasteringService.fieldRule, hrule]) rfl
        (by rw [CompiledPolicy.precedence, hrule])

include hchecked hdefault in
theorem contender_eq (hs : Sourced s)
    (hlists : ∀ rule, policy.survivorship.get? field = some (.obj rule) → ListsSources rule)
    (c : Contribution svc s x field) :
    MasteringService.contender s policy field c.record = .ok (some (c.toContender policy)) := by
  have hspeaks : (!c.record.original.contains field || (c.record.original.get field).pyEq .null) = false := by
    have h := c.record_speaks
    rw [SourceRecord.speaksOf, Bool.and_eq_true, Bool.not_eq_true'] at h
    rw [h.1, h.2]
    rfl
  unfold MasteringService.contender
  rw [hspeaks, if_neg Bool.false_ne_true, c.find_source hs]
  simp only [precedenceRank_eq hlists c, verifiedRank_eq hchecked hdefault, bind, Except.bind]
  rfl

include hchecked hdefault in
/-- The contenders for a field are the contributions to it. -/
theorem contenders_eq (hs : Sourced s)
    (hlists : ∀ rule, policy.survivorship.get? field = some (.obj rule) → ListsSources rule) :
    ∃ options, svc.contenders s policy x field = .ok options ∧
      (∀ o, o ∈ options ↔ ∃ c : Contribution svc s x field, o = c.toContender policy) ∧
      options.map (fun o => o.record.id) =
        ((svc.currentRecords s x).filter (SourceRecord.speaksOf field)).map SourceRecord.id := by
  have hrows : ∀ rows : List SourceRecord, (∀ r ∈ rows, r ∈ svc.currentRecords s x) →
      ∃ found, rows.mapM (MasteringService.contender s policy field) = .ok found ∧
        (∀ o, o ∈ found.filterMap id ↔
          ∃ c : Contribution svc s x field, c.record ∈ rows ∧ o = c.toContender policy) ∧
        (found.filterMap id).map (fun o => o.record.id) =
          (rows.filter (SourceRecord.speaksOf field)).map SourceRecord.id := by
    intro rows hall
    induction rows with
    | nil => exact ⟨[], rfl, by simp, rfl⟩
    | cons r rows ih =>
      rw [List.forall_mem_cons] at hall
      obtain ⟨found, hfound, hmem, hids⟩ := ih hall.2
      cases hspeaks : r.speaksOf field with
      | false =>
        refine ⟨none :: found, ?_, ?_, ?_⟩
        · rw [List.mapM_cons, MasteringService.contender_of_silent hspeaks, hfound]
          rfl
        · intro o
          rw [List.filterMap_cons_none rfl, hmem]
          constructor
          · rintro ⟨c, hc, rfl⟩
            exact ⟨c, List.mem_cons_of_mem _ hc, rfl⟩
          · rintro ⟨c, hc, rfl⟩
            rcases List.mem_cons.mp hc with heq | hc
            · rw [← heq, c.record_speaks] at hspeaks
              cases hspeaks
            · exact ⟨c, hc, rfl⟩
        · rw [List.filterMap_cons_none rfl, hids, List.filter_cons_of_neg (by simp [hspeaks])]
      | true =>
        obtain ⟨c, rfl⟩ := Contribution.exists_record hs hall.1 hspeaks
        have hcons : (some (c.toContender policy) :: found).filterMap id =
            c.toContender policy :: found.filterMap id := rfl
        refine ⟨some (c.toContender policy) :: found, ?_, ?_, ?_⟩
        · rw [List.mapM_cons, contender_eq hchecked hdefault hs hlists, hfound]
          rfl
        · intro o
          rw [hcons, List.mem_cons, hmem]
          constructor
          · rintro (rfl | ⟨d, hd, rfl⟩)
            · exact ⟨c, List.mem_cons_self, rfl⟩
            · exact ⟨d, List.mem_cons_of_mem _ hd, rfl⟩
          · rintro ⟨d, hd, rfl⟩
            rcases List.mem_cons.mp hd with heq | hd
            · exact .inl (by rw [Contribution.eq_of_record hs heq])
            · exact .inr ⟨d, hd, rfl⟩
        · rw [hcons, List.map_cons, hids, List.filter_cons_of_pos hspeaks]
          rfl
  obtain ⟨found, hfound, hmem, hids⟩ := hrows _ fun _ h => h
  refine ⟨found.filterMap id, ?_, fun o => ?_, hids⟩
  · rw [MasteringService.contenders, hfound]
    rfl
  · rw [hmem]
    exact exists_congr fun c => and_iff_right c.record_current

end Ranks

theorem currentRecords_keyed (hs : Sourced s) : Table.Keyed SourceRecord.id (svc.currentRecords s x) := by
  have honce : ∀ r : SourceRecord, (s.objects.filter (MasteringService.contributes r x)).length ≤ 1 := by
    intro r
    have hkeyed : ((s.objects.filter (MasteringService.contributes r x)).map SourceObject.id).Nodup :=
      hs.objectIds.sublist (List.filter_sublist.map _)
    have hsame : ∀ o ∈ s.objects.filter (MasteringService.contributes r x),
        o ∈ s.objects ∧ o.currentRecordId = some r.id := by
      intro o ho
      simp only [List.mem_filter, MasteringService.contributes, Bool.and_eq_true, decide_eq_true_eq] at ho
      exact ⟨ho.1, ho.2.1.1⟩
    cases hfound : s.objects.filter (MasteringService.contributes r x) with
    | nil => simp
    | cons o rest =>
      cases rest with
      | nil => simp
      | cons o' rest =>
        rw [hfound] at hkeyed hsame
        obtain ⟨ho, hcurrent⟩ := hsame o (by simp)
        obtain ⟨ho', hcurrent'⟩ := hsame o' (by simp)
        have hid := hs.currentOnce o ho o' ho' r.id hcurrent hcurrent'
        simp [hid] at hkeyed
  unfold Table.Keyed MasteringService.currentRecords
  rw [List.map_flatMap, List.nodup_flatMap]
  constructor
  · intro r _
    rw [List.map_map]
    have hlength := honce r
    generalize s.objects.filter (MasteringService.contributes r x) = found at hlength
    match found with
    | [] => simp
    | [o] => simp
    | o :: o' :: rest => simp at hlength
  · have hpairs : (s.records.filter fun r => r.workspaceId = svc.wid && r.state = .valid).Pairwise
        fun r r' => r.id ≠ r'.id :=
      List.pairwise_map.mp (hs.recordIds.sublist (List.filter_sublist.map _))
    refine hpairs.imp ?_
    intro r r' hne i hi hi'
    simp only [List.mem_map, exists_exists_and_eq_and] at hi hi'
    exact hne (by grind)

theorem Contribution.ncard_others (c : Contribution svc s x field) {ids : List Id} (hids : ids.Nodup)
    (hmem : ∀ i, i ∈ ids ↔ ∃ d : Contribution svc s x field, d.record.id = i) :
    (c.others.ncard : Int) = ids.length - 1 := by
  have hcard : c.others = ↑(ids.toFinset.erase c.record.id) := by
    ext i
    simp only [others, Set.mem_ofPred_eq, Finset.coe_erase, List.coe_toFinset, Set.mem_sdiff, hmem,
      Set.mem_singleton_iff]
    grind
  have hfound : c.record.id ∈ ids := (hmem _).mpr ⟨c, rfl⟩
  rw [hcard, Set.ncard_coe_finset, Finset.card_erase_of_mem (List.mem_toFinset.mpr hfound),
    List.toFinset_card_of_nodup hids]
  have hpos := List.length_pos_of_mem hfound
  omega

/-- Rules that list their sources leave each field to its greatest contribution. -/
theorem survives_of_lists {rt : Runtime} {attributes : List Dict}
    (hchecked : RulesChecked rt attributes policy.survivorship)
    (hdefault : ∀ rule, policy.survivorship.get? "default" ≠ some (.obj rule))
    (hlists : ∀ field rule, policy.survivorship.get? field = some (.obj rule) → ListsSources rule)
    (hs : Sourced s) : Survives svc s x policy := by
  have hcontenders := fun field => show ∃ options, svc.contenders s policy x field = .ok options ∧ _ from
    contenders_eq hchecked hdefault hs (hlists field)
  obtain ⟨values, provenance, hvalues⟩ := MasteringService.masterValues_isOk fun field =>
    (hcontenders field).imp fun _ h => h.1
  refine ⟨values, provenance, hvalues, fun field => ?_⟩
  obtain ⟨options, hoptions, hmem, hids⟩ := hcontenders field
  obtain ⟨options', hoptions', hawarded⟩ := MasteringService.masterValues_awarded hvalues field
  obtain rfl := Except.ok.inj (hoptions.symm.trans hoptions')
  cases hw : Contender.winner options with
  | none =>
    rw [MasteringService.Awarded, hw] at hawarded
    refine ⟨fun _ => hawarded, fun ⟨c⟩ => ?_⟩
    have hc := (hmem (c.toContender policy)).mpr ⟨c, rfl⟩
    rw [Contender.winner_eq_none.mp hw] at hc
    cases hc
  | some w =>
    rw [MasteringService.Awarded, hw] at hawarded
    obtain ⟨hwinner, hgreatest⟩ := Contender.winner_greatest hw
    obtain ⟨c, rfl⟩ := (hmem w).mp hwinner
    refine ⟨fun hempty => hempty.elim c, fun _ => ⟨c, fun d hne => ?_, hawarded.1, _, hawarded.2, ?_⟩⟩
    · rw [Contribution.preferred_iff hs]
      refine lt_of_le_of_ne (hgreatest _ ((hmem _).mpr ⟨d, rfl⟩)) fun heq => hne ?_
      exact congrArg (fun k : Int ×ₗ Int ×ₗ DateTime ×ₗ Id => (ofLex (ofLex (ofLex k).2).2).2) heq
    · have hnodup : (options.map fun o => o.record.id).Nodup := by
        rw [hids]
        exact (currentRecords_keyed hs).sublist (List.filter_sublist.map _)
      have hall : ∀ i, (i ∈ options.map fun o => o.record.id) ↔
          ∃ d : Contribution svc s x field, d.record.id = i := by
        intro i
        simp only [List.mem_map, hmem]
        constructor
        · rintro ⟨_, ⟨d, rfl⟩, rfl⟩
          exact ⟨d, rfl⟩
        · rintro ⟨d, rfl⟩
          exact ⟨_, ⟨d, rfl⟩, rfl⟩
      have hothers := c.ncard_others hnodup hall
      rw [List.length_map] at hothers
      exact ⟨rfl, rfl, rfl, congrArg Json.int hothers.symm⟩

/-! Rules that list no sources fail two contributions. -/

/-- A source of a workspace. -/
def rivalSource (w : Workspace) (id key : String) (priority : Int) : Source where
  id := id
  workspaceId := w.id
  key := key
  name := key
  kind := "csv"
  priority := priority
  checkpoint := none
  lastIngestedAt := none

/-- Its record about a field. -/
def rivalRecord (w : Workspace) (id field : String) : SourceRecord where
  id := id
  workspaceId := w.id
  sourceId := id
  domainKey := "domain"
  localId := id
  sourceVersion := "1"
  original := [(field, .bool true)]
  normalized := []
  blockingKey := ""
  verification := []
  state := .valid
  qualityErrors := []
  observedAt := 0
  effectiveFrom := none
  entityId := some "entity"

def rivalObject (w : Workspace) (id : String) : SourceObject where
  id := id
  workspaceId := w.id
  sourceId := id
  domainKey := "domain"
  localId := id
  entityId := some "entity"
  currentRecordId := some id
  latestRecordId := some id
  currentSequence := none
  currentEffectiveFrom := none
  retired := false

/-- Two sources disagree about one field: the second one has the better priority. -/
def rivalStore (w : Workspace) (field key : String) : Store :=
  { Store.empty w with
    sources := [rivalSource w "a" key 2, rivalSource w "b" (key ++ "x") 1]
    records := [rivalRecord w "a" field, rivalRecord w "b" field]
    objects := [rivalObject w "a", rivalObject w "b"] }

section Rivals

variable {w : Workspace} {who : Principal} {key : String} {rt : Runtime} {rule : Dict}

theorem rivals_sourced : Sourced (rivalStore w field key) where
  recordIds := by simp [Table.Keyed, rivalStore, rivalRecord]
  objectIds := by simp [Table.Keyed, rivalStore, rivalObject]
  sourceIds := by simp [Table.Keyed, rivalStore, rivalSource]
  sourceKeys := by
    have hne : key ≠ key ++ "x" := fun h => by
      have hlength := congrArg String.length h
      rw [String.length_append] at hlength
      simp at hlength
    simp [Table.Keyed, rivalStore, rivalSource, hne]
  origin := by simp [rivalStore, rivalRecord, rivalSource]
  currentOnce := by simp [rivalStore, rivalObject]
  priorities := by simp [rivalStore, rivalSource]

/-- The contribution of the first source. -/
def firstRival (rt : Runtime) (who : Principal) (w : Workspace) (field key : String) :
    Contribution ⟨rt, who, w⟩ (rivalStore w field key) "entity" field where
  record := rivalRecord w "a" field
  source := rivalSource w "a" key 2
  stored := List.mem_cons_self
  workspace := rfl
  valid := rfl
  current := ⟨rivalObject w "a", List.mem_cons_self, rfl, rfl, rfl⟩
  speaks := ⟨.bool true, by simp [rivalRecord, Dict.get?], nofun⟩
  listed := List.mem_cons_self
  origin := rfl

/-- The contribution of the second source. -/
def secondRival (rt : Runtime) (who : Principal) (w : Workspace) (field key : String) :
    Contribution ⟨rt, who, w⟩ (rivalStore w field key) "entity" field where
  record := rivalRecord w "b" field
  source := rivalSource w "b" (key ++ "x") 1
  stored := by simp [rivalStore]
  workspace := rfl
  valid := rfl
  current := ⟨rivalObject w "b", by simp [rivalStore], rfl, rfl, rfl⟩
  speaks := ⟨.bool true, by simp [rivalRecord, Dict.get?], nofun⟩
  listed := by simp [rivalStore]
  origin := rfl

theorem rivals_current : MasteringService.currentRecords ⟨rt, who, w⟩ (rivalStore w field key) "entity" =
    [rivalRecord w "a" field, rivalRecord w "b" field] := by
  simp [MasteringService.currentRecords, MasteringService.contributes, rivalStore, rivalRecord, rivalObject,
    MasteringService.wid]

theorem rivals_ranked (hrule : policy.survivorship.get? field = some (.obj rule))
    {options : List Contender} (hoptions : MasteringService.contenders ⟨rt, who, w⟩ (rivalStore w field key)
      policy "entity" field = .ok options) :
    ∃ i j, MasteringService.precedenceRank rule (rivalSource w "a" key 2) = .ok i ∧
      MasteringService.precedenceRank rule (rivalSource w "b" (key ++ "x") 1) = .ok j ∧
      options = [⟨0, i, rivalRecord w "a" field, rivalSource w "a" key 2⟩,
        ⟨0, j, rivalRecord w "b" field, rivalSource w "b" (key ++ "x") 1⟩] := by
  have hcontender : ∀ (id : Id) (y : Source),
      ((rivalStore w field key).sources.find? fun y => y.id = id) = some y →
      MasteringService.contender (rivalStore w field key) policy field (rivalRecord w id field) = (do
        let rank ← MasteringService.precedenceRank rule y
        return some ⟨0, rank, rivalRecord w id field, y⟩) := by
    intro id y hfind
    have hfield : MasteringService.fieldRule policy field = rule := by
      rw [MasteringService.fieldRule, hrule]
    have hspeaks : (!(rivalRecord w id field).original.contains field ||
        ((rivalRecord w id field).original.get field).pyEq .null) = false := by
      simp [rivalRecord, Dict.contains, Dict.get, Dict.get?, Json.pyEq, Json.number?]
    have hverified : ∀ rule, MasteringService.verifiedRank policy rule
        (MasteringService.isVerified (rivalRecord w id field) field) = .ok 0 := fun _ => rfl
    have hsource : (rivalRecord w id field).sourceId = id := rfl
    unfold MasteringService.contender
    rw [hspeaks, if_neg Bool.false_ne_true, hsource, hfind, hfield]
    simp only [hverified, bind, Except.bind]
  rw [MasteringService.contenders, rivals_current] at hoptions
  simp only [List.mapM_cons, List.mapM_nil, hcontender "a" (rivalSource w "a" key 2) rfl,
    hcontender "b" (rivalSource w "b" (key ++ "x") 1) rfl, Except.bind_eq_ok, Except.pure_eq_ok] at hoptions
  obtain ⟨_, ⟨_, ⟨i, hi, rfl⟩, _, ⟨_, ⟨j, hj, rfl⟩, _, rfl, rfl⟩, rfl⟩, rfl⟩ := hoptions
  exact ⟨i, j, hi, hj, rfl⟩

/-- A text in place of the list ranks the source of its own name first. -/
theorem precedenceRank_of_text {text : String}
    (htext : rule.get? "source_precedence" = some (.str text)) {y : Source} :
    (y.key = text → MasteringService.precedenceRank rule y = .ok 0) ∧
    (text.length < y.key.length → MasteringService.precedenceRank rule y =
    .ok (-text.length - y.priority)) := by
  have hprecedence : (rule.get? "source_precedence").getD (.arr []) = .str text := by
    rw [htext]
    rfl
  constructor
  · intro hkey
    have hindex : indexOf text (.str text) = .ok 0 := by
      have hfind :
          (List.range (text.length + 1)).find? (fun i => text.toList.isPrefixOf (text.toList.drop i)) =
          some 0 := by
        rw [List.range_succ_eq_map, List.find?_cons_of_pos]
        exact List.isPrefixOf_iff_prefix.mpr List.prefix_rfl
      unfold indexOf
      dsimp only
      rw [hfind]
    unfold MasteringService.precedenceRank
    simp only [hprecedence, hkey, Json.isIn, Json.isInfix_self, hindex, bind, Except.bind]
    rfl
  · intro hlong
    have hout : Json.isInfix y.key.toList text.toList = false := by
      rw [← Bool.not_eq_true]
      intro hin
      have hle := Json.isInfix_length hin
      rw [String.length_toList, String.length_toList] at hle
      omega
    unfold MasteringService.precedenceRank
    simp only [hprecedence, Json.isIn, hout, lengthOf, bind, Except.bind]
    rfl

theorem not_survives_of_text {text : String} (hrule : policy.survivorship.get? field = some (.obj rule))
    (htext : rule.get? "source_precedence" = some (.str text)) :
    ¬ Survives ⟨rt, who, w⟩ (rivalStore w field text) "entity" policy := by
  rintro ⟨values, provenance, hvalues, hfields⟩
  obtain ⟨options, hoptions, hawarded⟩ := MasteringService.masterValues_awarded hvalues field
  obtain ⟨i, j, hi, hj, rfl⟩ := rivals_ranked hrule hoptions
  obtain rfl := Except.ok.inj (hi.symm.trans ((precedenceRank_of_text htext).1 rfl))
  have hlong : text.length < (rivalSource w "b" (text ++ "x") 1).key.length := by
    rw [rivalSource, String.length_append]
    exact Nat.lt_succ_self _
  obtain rfl := Except.ok.inj (hj.symm.trans ((precedenceRank_of_text htext).2 hlong))
  -- the source whose name the text is wins, although it is not listed and has the larger priority
  have hwinner : Contender.winner [⟨0, 0, rivalRecord w "a" field, rivalSource w "a" text 2⟩,
      ⟨0, -text.length - (rivalSource w "b" (text ++ "x") 1).priority, rivalRecord w "b" field,
        rivalSource w "b" (text ++ "x") 1⟩] =
        some ⟨0, 0, rivalRecord w "a" field, rivalSource w "a" text 2⟩ := by
    have hlt : Contender.lt ⟨0, 0, rivalRecord w "a" field, rivalSource w "a" text 2⟩
        ⟨0, -text.length - (rivalSource w "b" (text ++ "x") 1).priority, rivalRecord w "b" field,
          rivalSource w "b" (text ++ "x") 1⟩ = false := by
      have hpriority : (rivalSource w "b" (text ++ "x") 1).priority = 1 := rfl
      rw [← Bool.not_eq_true, Contender.lt_iff]
      simp only [Contender.key, Prod.Lex.toLex_lt_toLex, hpriority]
      rintro (h | ⟨-, h | ⟨h, -⟩⟩) <;> omega
    rw [Contender.winner, List.foldl_cons, List.foldl_nil, hlt, if_neg Bool.false_ne_true]
  rw [MasteringService.Awarded, hwinner] at hawarded
  obtain ⟨c, hgreatest, -, entry, hentry, hnamed⟩ := (hfields field).2 ⟨firstRival rt who w field text⟩
  have hid : c.record.id = "a" := by
    obtain heq := Option.some.inj (hentry.symm.trans hawarded.2)
    rw [MasteringService.provenanceOf, Json.obj.injEq] at heq
    have hrecord := hnamed.record
    rw [heq] at hrecord
    exact (Json.str.inj hrecord).symm
  have hfirst : c = firstRival rt who w field text :=
    Contribution.eq_of_record rivals_sourced (rivals_sourced.recordIds.eq_of_mem c.stored
      (firstRival rt who w field text).stored hid)
  have hpreferred := hgreatest (secondRival rt who w field text) fun heq =>
    absurd (heq.trans hid) (show "b" ≠ "a" by decide)
  rw [hfirst, Contribution.preferred_iff rivals_sourced] at hpreferred
  have hnone : ∀ y, policy.position field y = none := by
    intro y
    rw [CompiledPolicy.position, CompiledPolicy.precedence, hrule]
    simp only [htext]
    rfl
  simp only [Contender.key, Contribution.toContender, Contribution.rank, hnone, Prod.Lex.toLex_lt_toLex,
    CompiledPolicy.precedence, hrule, htext] at hpreferred
  simp [firstRival, secondRival, rivalRecord, rivalSource, MasteringService.isVerified] at hpreferred

theorem not_survives_of_unranked (hrule : policy.survivorship.get? field = some (.obj rule))
    (hrank : ∀ i, MasteringService.precedenceRank rule (rivalSource w "a" key 2) ≠ .ok i) :
    ¬ Survives ⟨rt, who, w⟩ (rivalStore w field key) "entity" policy := by
  rintro ⟨values, provenance, hvalues, -⟩
  obtain ⟨options, hoptions, -⟩ := MasteringService.masterValues_awarded hvalues field
  obtain ⟨i, -, hi, -⟩ := rivals_ranked hrule hoptions
  exact hrank i hi

theorem lists_of_survives (hrule : policy.survivorship.get? field = some (.obj rule))
    (h : ∀ key, Survives ⟨rt, who, w⟩ (rivalStore w field key) "entity" policy) : ListsSources rule := by
  unfold ListsSources
  cases hget : rule.get? "source_precedence" with
  | none => trivial
  | some precedence =>
    have hprecedence : (rule.get? "source_precedence").getD (.arr []) = precedence := by
      rw [hget]
      rfl
    have herror : (∀ key, Json.isIn (.str key) precedence = .error (.python "TypeError")) → False := by
      intro herror
      refine not_survives_of_unranked hrule (fun i => ?_) (h "")
      simp only [MasteringService.precedenceRank, hprecedence, herror, bind, Except.bind]
      simp
    cases precedence with
    | arr listed => trivial
    | str text => exact (not_survives_of_text hrule hget (h text)).elim
    | obj kvs =>
      cases kvs with
      | nil => rfl
      | cons p kvs =>
        refine (not_survives_of_unranked hrule (fun i => ?_) (h p.1)).elim
        have hin : Json.isIn (.str p.1) (.obj (p :: kvs)) = .ok true := by
          simp [Json.isIn, Dict.contains]
        have hkey : (rivalSource w "a" p.1 2).key = p.1 := rfl
        simp only [MasteringService.precedenceRank, hprecedence, hkey, hin, indexOf, bind, Except.bind]
        simp
    | _ => exact (herror fun _ => rfl).elim

end Rivals

/-- Survivorship is what the rules say for all entities, sources and orders of reading, if and only if the
rule of every field lists its sources, or none. -/
theorem survivors_specified_iff {rt : Runtime} {definition : Json}
    (h : compilePolicy rt definition = .ok policy)
    (hdefault : ∀ rule, policy.survivorship.get? "default" ≠ some (.obj rule)) :
    (∀ who w s x, Sourced s → Survives ⟨rt, who, w⟩ s x policy) ↔
      ∀ field rule, policy.survivorship.get? field = some (.obj rule) → ListsSources rule := by
  obtain ⟨given, raw, version, attributes, -, -, hrules, -⟩ := compilePolicy_document h
  obtain ⟨-, hchecked⟩ := compileSurvivorship_iff.mp hrules
  constructor
  · intro hsurvives field rule hrule
    exact lists_of_survives hrule fun key => hsurvives ⟨"", "", "", [], none⟩ ⟨"", ""⟩ _ _ rivals_sourced
  · intro hlists who w s x hs
    exact survives_of_lists hchecked hdefault hlists hs

namespace Supplier

/-- The name is ruled by this precedence of sources. -/
def ranked (precedence : Json) : Dict := [
  ("attributes", .arr [.obj [("key", .str "name")]]),
  ("survivorship", .obj [("name", .obj [
    ("strategy", .str "source_priority_then_observation_time"), ("source_precedence", precedence)])])]

theorem ranked_compiles {precedence : Json}
    (h : (match compilePolicy .plain (.obj (ranked precedence)) with
      | .ok policy => decide (policy.survivorship.get? "default" = none) &&
        decide (policy.survivorship.get? "name" = some (.obj [
          ("strategy", .str "source_priority_then_observation_time"), ("source_precedence", precedence)]))
      | .error _ => false) = true) :
    ∃ policy, compilePolicy .plain (.obj (ranked precedence)) = .ok policy ∧
      (∀ rule, policy.survivorship.get? "default" ≠ some (.obj rule)) ∧
      policy.survivorship.get? "name" = some (.obj [
        ("strategy", .str "source_priority_then_observation_time"), ("source_precedence", precedence)]) := by
  cases hpolicy : compilePolicy .plain (.obj (ranked precedence)) with
  | error e =>
    rw [hpolicy] at h
    cases h
  | ok policy =>
    rw [hpolicy] at h
    simp only [Bool.and_eq_true, decide_eq_true_eq] at h
    refine ⟨policy, rfl, fun rule => ?_, h.2⟩
    rw [h.1]
    nofun

/-- A text for the list prefers the source that bears its name, although another one has priority. -/
theorem survivor_of_text : ¬ ∀ definition policy, compilePolicy .plain definition = .ok policy →
    (∀ rule, policy.survivorship.get? "default" ≠ some (.obj rule)) →
    ∀ who w s x, Sourced s → Survives ⟨.plain, who, w⟩ s x policy := by
  intro h
  obtain ⟨policy, hpolicy, hdefault, hrule⟩ : ∃ policy,
      compilePolicy .plain (.obj (ranked (.str "erp"))) = .ok policy ∧ _ :=
    ranked_compiles (by decide +kernel)
  exact not_survives_of_text hrule rfl
    (h _ policy hpolicy hdefault (steward "alice") workspace _ _ rivals_sourced)

/-- A list of one source. -/
theorem survivors_specified_ranked : ∃ policy,
    compilePolicy .plain (.obj (ranked (.arr [.str "erp"]))) = .ok policy ∧
    ((∀ who w s x, Sourced s → Survives ⟨.plain, who, w⟩ s x policy) ↔
      ∀ field rule, policy.survivorship.get? field = some (.obj rule) → ListsSources rule) := by
  obtain ⟨policy, hpolicy, hdefault, -⟩ : ∃ policy,
      compilePolicy .plain (.obj (ranked (.arr [.str "erp"]))) = .ok policy ∧ _ :=
    ranked_compiles (by decide +kernel)
  exact ⟨policy, hpolicy, survivors_specified_iff hpolicy hdefault⟩

end Supplier

end Recordlane
