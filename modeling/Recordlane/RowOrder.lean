import Recordlane.Candidates
import Recordlane.Requests
import Recordlane.Library.Firsts
import Recordlane.Library.Register

/-! The order in which the database returns the candidates, and what a resolution makes of it. -/
namespace Recordlane

/-- What a resolution comes to. -/
inductive Conclusion
  | created
  | linked (entityId : Id)
  | review (rightRecordId targetEntityId : Id)
  deriving DecidableEq

/-- The conclusion of a resolution, with the records of the task that it adds to the store. -/
def conclusionOf (s : Store) : Py (Store × Id × Resolution) → Option Conclusion
  | .error _ => none
  | .ok (_, _, .created) => some .created
  | .ok (_, x, .linked) => some (.linked x)
  | .ok (t, _, .review) => (t.tasks.drop s.tasks.length).head?.bind fun task =>
    match task.payload with
    | .duplicateMatch _ right _ _ target _ _ => some (.review right target)
    | _ => none

/-- Where a best candidate leads. -/
def leadsTo (s : Store) : Option Candidate → Option Conclusion
  | none => some .created
  | some b =>
    match MasteringService.autoLinkTarget s (some b) with
    | some entity => some (.linked entity.id)
    | none => (b.object.entityId.bind s.entity?).map fun target => .review b.record.id target.id

namespace Candidate

/-- The place of its score among all scores; no candidate has a score that is none. -/
def score (b : Candidate) : WithBot (WithTop ℚ) := b.evidence.score.rank

end Candidate

theorem CompiledPolicy.score_ne_nan {rt : Runtime} {policy : CompiledPolicy} {left right : Dict}
    {e : MatchEvidence} (h : policy.compare rt left right = .ok e)
    (hd : ¬ (e.decision ≠ .autoLink && e.decision ≠ .review) = true) : e.score ≠ .nan := by
  unfold compare at h
  simp only [Except.bind_eq_ok, Except.pure_eq_ok] at h
  obtain ⟨contradictions, -, rows, -, score, -, thresholds, -, autoLink, -, review, -, rfl⟩ := h
  intro hnan
  change score.1 = .nan at hnan
  refine hd ?_
  dsimp only
  rw [hnan]
  split
  · rfl
  · rw [if_neg Extended.le_nan, if_neg Extended.le_nan]
    rfl

namespace MasteringService

variable (svc : MasteringService) (s : Store) (policy : CompiledPolicy) (record : SourceRecord)
  (objectId : Id) (blockKeys : List String)

/-- The service on a database that returns its rows in another order. -/
def ordered (order : Nat → Nat → List Nat)
    (h : ∀ n len, (order n len).Perm (List.range len)) : MasteringService :=
  { svc with rt := { svc.rt with
    rowOrder := order
    rowOrder_perm := h } }

/-- What the loop makes of one row by itself. -/
def judge (row : SourceRecord × SourceObject) : Py (Option Candidate) := do
  let pair ← policy.compare svc.rt record.normalized row.1.normalized
  if svc.isCannotLink s objectId row.2.id then return none
  else match row.2.entityId with
    | none => return none
    | some entityId =>
      if pair.decision ≠ .autoLink && pair.decision ≠ .review then return none
      else if ← svc.clusterConflict policy record (svc.currentRecords s entityId) then return none
      else return some ⟨pair, row.1, row.2⟩

/-- A candidate that may be linked or reviewed, and none has a higher score. -/
def TopCandidate (b : Candidate) : Prop :=
  (∃ row ∈ svc.candidateRows s record blockKeys, svc.judge s policy record objectId row = .ok (some b)) ∧
    ∀ row ∈ svc.candidateRows s record blockKeys, ∃ c, svc.judge s policy record objectId row = .ok c ∧
      ∀ b', c = some b' → b'.score ≤ b.score

/-- The resolution comes to one conclusion, in whatever orders the rows are returned. -/
def OrderFree : Prop :=
  ∀ order h order' h', conclusionOf s ((svc.ordered order h).resolve s record objectId policy blockKeys) =
    conclusionOf s ((svc.ordered order' h').resolve s record objectId policy blockKeys)

/-- All candidates with the highest score lead to the same. -/
def TiesAgree : Prop :=
  ∀ b b', svc.TopCandidate s policy record objectId blockKeys b →
    svc.TopCandidate s policy record objectId blockKeys b' → leadsTo s (some b) = leadsTo s (some b')

variable {svc s policy record objectId blockKeys}

theorem judge_score {row : SourceRecord × SourceObject} {b : Candidate}
    (h : svc.judge s policy record objectId row = .ok (some b)) : b.evidence.score ≠ .nan := by
  rw [judge, Except.bind_eq_ok] at h
  obtain ⟨pair, hpair, h⟩ := h
  split at h
  · cases h
  · split at h
    · cases h
    · split at h
      · cases h
      · next hdecision =>
        rw [Except.bind_eq_ok] at h
        obtain ⟨conflict, -, h⟩ := h
        split at h
        · cases h
        · cases h
          exact CompiledPolicy.score_ne_nan hpair hdecision

theorem considerCandidate_eq {state : Option Candidate × List Id} {row : SourceRecord × SourceObject}
    (hstate : ∀ b, state.1 = some b → b.evidence.score ≠ .nan) :
    svc.considerCandidate s policy record objectId state row =
      if state.2.contains row.2.id then pure state
      else (fun c => (c.elim state.1 (Register.put Candidate.score state.1), row.2.id :: state.2)) <$>
        svc.judge s policy record objectId row := by
  obtain ⟨best, seen⟩ := state
  rw [considerCandidate, judge]
  dsimp only
  by_cases hseen : seen.contains row.2.id = true
  · rw [if_pos hseen, if_pos hseen]
  · rw [if_neg hseen, if_neg hseen]
    cases hpair : policy.compare svc.rt record.normalized row.1.normalized with
    | error e => rfl
    | ok pair =>
      simp only [bind, Except.bind]
      by_cases hconstraint : svc.isCannotLink s objectId row.2.id = true
      · rw [if_pos hconstraint, if_pos hconstraint]
        rfl
      · rw [if_neg hconstraint, if_neg hconstraint]
        cases row.2.entityId with
        | none => rfl
        | some entityId =>
          dsimp only
          split
          · rfl
          · next hdecision =>
            cases svc.clusterConflict policy record (svc.currentRecords s entityId) with
            | error e => rfl
            | ok conflict =>
              cases conflict with
              | true => rfl
              | false =>
                cases best with
                | none => rfl
                | some b =>
                  have hrank := Extended.lt_iff_rank (hstate b rfl)
                    (CompiledPolicy.score_ne_nan hpair hdecision)
                  simp only [hrank]
                  rfl

/-- The loop judges the first row of every object, and keeps the best candidate of these. -/
theorem loop_eq {rows : List (SourceRecord × SourceObject)} {state : Option Candidate × List Id}
    (hstate : ∀ b, state.1 = some b → b.evidence.score ≠ .nan) :
    Prod.fst <$> rows.foldlM (svc.considerCandidate s policy record objectId) state =
      (fun found => (found.filterMap id).foldl (Register.put Candidate.score) state.1) <$>
        (firsts (fun row : SourceRecord × SourceObject => row.2.id) state.2 rows).mapM
          (svc.judge s policy record objectId) := by
  induction rows generalizing state with
  | nil => rfl
  | cons row rows ih =>
    rw [List.foldlM_cons, considerCandidate_eq hstate, firsts]
    by_cases hseen : state.2.contains row.2.id = true
    · rw [if_pos hseen, if_pos hseen, pure_bind, ih hstate]
    · rw [if_neg hseen, if_neg hseen, List.mapM_cons]
      cases hjudge : svc.judge s policy record objectId row with
      | error e => rfl
      | ok c =>
        refine (ih ?_).trans ?_
        · intro b hb
          cases c with
          | none => exact hstate b hb
          | some a =>
            rcases Register.put_eq_some hb with rfl | hheld
            · exact judge_score hjudge
            · exact hstate b hheld
        dsimp only
        cases (firsts (fun row : SourceRecord × SourceObject => row.2.id) (row.2.id :: state.2) rows).mapM
            (svc.judge s policy record objectId) with
        | error e => rfl
        | ok found => cases c <;> rfl

/-- The rows that an order of the database leaves to the loop, one for each object. -/
def loopRows (svc : MasteringService) (s : Store) (record : SourceRecord) (blockKeys : List String) :
    List (SourceRecord × SourceObject) :=
  firsts (fun row => row.2.id) [] (svc.rt.scan s.drawn (svc.candidateRows s record blockKeys))

theorem conclusionOf_concluded {best : Option Candidate}
    (hbest : ∀ b, best = some b → ∃ target, b.object.entityId.bind s.entity? = some target) :
    conclusionOf s (match autoLinkTarget s best with
      | some entity =>
        pure (s.modifyEntity entity.id fun e => { e with version := e.version + 1 }, entity.id, .linked)
      | none => svc.createEntity s record objectId best) = leadsTo s best := by
  cases best with
  | none => rfl
  | some b =>
    rw [leadsTo]
    cases autoLinkTarget s (some b) with
    | some entity => rfl
    | none =>
      obtain ⟨target, htarget⟩ := hbest b rfl
      have hlater : ∀ e : Entity, b.object.entityId.bind (s.insertEntity e).entity? = some target := by
        intro e
        obtain ⟨x, hx, hfind⟩ := Option.bind_eq_some_iff.mp htarget
        rw [hx, Option.bind_some]
        exact Table.find_append_of_some hfind [e]
      simp only [createEntity, hlater, htarget, Option.map_some]
      simp [conclusionOf, Store.insertTask, Store.insertEntity, pure, Except.pure]

theorem judge_eq_some {row : SourceRecord × SourceObject} {b : Candidate}
    (h : svc.judge s policy record objectId row = .ok (some b)) :
    b.record = row.1 ∧ b.object = row.2 ∧ row.2.entityId.isSome = true := by
  rw [judge, Except.bind_eq_ok] at h
  obtain ⟨pair, -, h⟩ := h
  split at h
  · cases h
  · split at h
    · cases h
    · next x hx =>
      split at h
      · cases h
      · rw [Except.bind_eq_ok] at h
        obtain ⟨conflict, -, h⟩ := h
        split at h
        · cases h
        · cases h
          exact ⟨rfl, rfl, hx ▸ rfl⟩

/-- The primary and foreign keys that the database checks. -/
structure KeysHold (s : Store) : Prop where
  objectIds : Table.Keyed SourceObject.id s.objects
  recordIds : Table.Keyed SourceRecord.id s.records
  objectEntity : ∀ o ∈ s.objects, ∀ x, o.entityId = some x → ∃ e ∈ s.entities, e.id = x

theorem KeysHold.of_integrity {rt : Runtime} {w : Workspace} (h : Integrity rt w s) : KeysHold s :=
  ⟨h.objectIds, h.recordIds, h.objectEntity⟩

theorem KeysHold.target (hk : KeysHold s) {row : SourceRecord × SourceObject} {b : Candidate}
    (hrow : row ∈ svc.candidateRows s record blockKeys)
    (h : svc.judge s policy record objectId row = .ok (some b)) :
    ∃ target, b.object.entityId.bind s.entity? = some target := by
  obtain ⟨-, hobject, hentity⟩ := judge_eq_some h
  obtain ⟨x, hx⟩ := Option.isSome_iff_exists.mp hentity
  obtain ⟨e, he, hid⟩ := hk.objectEntity row.2 (mem_candidateRows hrow).1 x hx
  rw [hobject, hx, Option.bind_some]
  cases hfind : s.entity? x with
  | some target => exact ⟨target, rfl⟩
  | none => exact absurd hid (Table.find_eq_none.mp hfind e he)

theorem candidateRow_current {row : SourceRecord × SourceObject}
    (h : row ∈ svc.candidateRows s record blockKeys) :
    row.1 ∈ s.records ∧ row.2 ∈ s.objects ∧ row.2.currentRecordId = some row.1.id := by
  simp only [candidateRows, List.mem_flatMap, List.mem_map, List.mem_filter, Bool.and_eq_true,
    decide_eq_true_eq] at h
  obtain ⟨r, ⟨hr, -⟩, o, ⟨ho, ⟨hcurrent, -⟩, -⟩, b, -, rfl⟩ := h
  exact ⟨hr, ho, hcurrent⟩

/-- Each object has one row but for repetitions. -/
theorem KeysHold.rows (hk : KeysHold s) {row row' : SourceRecord × SourceObject}
    (hrow : row ∈ svc.candidateRows s record blockKeys)
    (hrow' : row' ∈ svc.candidateRows s record blockKeys) (h : row.2.id = row'.2.id) : row = row' := by
  obtain ⟨hr, ho, hcurrent⟩ := candidateRow_current hrow
  obtain ⟨hr', ho', hcurrent'⟩ := candidateRow_current hrow'
  have hobject := hk.objectIds.eq_of_mem ho ho' h
  rw [hobject, hcurrent'] at hcurrent
  exact Prod.ext (hk.recordIds.eq_of_mem hr hr' (Option.some.inj hcurrent).symm) hobject

theorem mem_loopRows (hk : KeysHold s) {row : SourceRecord × SourceObject} :
    row ∈ svc.loopRows s record blockKeys ↔ row ∈ svc.candidateRows s record blockKeys := by
  rw [loopRows, mem_firsts, svc.rt.mem_scan]
  intro a ha b hb
  exact hk.rows (svc.rt.mem_scan.mp ha) (svc.rt.mem_scan.mp hb)

theorem conclusionOf_resolve (hk : KeysHold s)
    (h : (svc.candidateRows s record blockKeys).length ≤ 200) :
    conclusionOf s (svc.resolve s record objectId policy blockKeys) =
      match (svc.loopRows s record blockKeys).mapM (svc.judge s policy record objectId) with
      | .error _ => none
      | .ok found => leadsTo s ((found.filterMap id).argmax Candidate.score) := by
  have hloop : svc.bestCandidate s record objectId policy blockKeys =
      (fun found => (found.filterMap id).argmax Candidate.score) <$>
        (svc.loopRows s record blockKeys).mapM (svc.judge s policy record objectId) := by
    have hbest : Prod.fst <$> (svc.rt.scan s.drawn (svc.candidateRows s record blockKeys)).foldlM
          (svc.considerCandidate s policy record objectId) (none, []) =
        (fun found => (found.filterMap id).foldl (Register.put Candidate.score) none) <$>
          (svc.loopRows s record blockKeys).mapM (svc.judge s policy record objectId) := by
      have hnone : ∀ b : Candidate, ((none, []) : Option Candidate × List Id).1 = some b →
          b.evidence.score ≠ .nan := by
        rintro b ⟨⟩
      exact loop_eq hnone
    simp only [Register.foldl_put] at hbest
    rw [bestCandidate_eq h, ← hbest]
    rfl
  rw [resolve, hloop]
  cases hfound : (svc.loopRows s record blockKeys).mapM (svc.judge s policy record objectId) with
  | error e => rfl
  | ok found =>
    refine conclusionOf_concluded fun b hb => ?_
    obtain ⟨_, hmem, rfl⟩ := List.mem_filterMap.mp (List.argmax_mem hb)
    obtain ⟨row, hrow, hjudge⟩ := (Except.mapM_mem hfound).1 _ hmem
    exact hk.target ((mem_loopRows hk).mp hrow) hjudge

section

variable {order : Nat → Nat → List Nat} {h : ∀ n len, (order n len).Perm (List.range len)}
  {row : SourceRecord × SourceObject}

theorem compare_ordered {left right : Dict} :
    policy.compare (svc.ordered order h).rt left right = policy.compare svc.rt left right := rfl

theorem clusterConflict_ordered {members : List SourceRecord} :
    (svc.ordered order h).clusterConflict policy record members =
      svc.clusterConflict policy record members := by
  induction members with
  | nil => rfl
  | cons member members ih =>
    rw [clusterConflict, clusterConflict, ih, compare_ordered]

theorem judge_ordered : (svc.ordered order h).judge s policy record objectId row =
    svc.judge s policy record objectId row := by
  rw [judge, judge, compare_ordered]
  simp only [clusterConflict_ordered]
  rfl

theorem candidateRows_ordered : (svc.ordered order h).candidateRows s record blockKeys =
    svc.candidateRows s record blockKeys := rfl

end

theorem conclusionOf_ordered (hk : KeysHold s)
    (hrows : (svc.candidateRows s record blockKeys).length ≤ 200) {order : Nat → Nat → List Nat}
    {h : ∀ n len, (order n len).Perm (List.range len)} :
    conclusionOf s ((svc.ordered order h).resolve s record objectId policy blockKeys) =
      match ((svc.ordered order h).loopRows s record blockKeys).mapM
        (svc.judge s policy record objectId) with
      | .error _ => none
      | .ok found => leadsTo s ((found.filterMap id).argmax Candidate.score) := by
  have hjudges : (svc.ordered order h).judge s policy record objectId =
      svc.judge s policy record objectId := funext fun _ => judge_ordered
  have hown : conclusionOf s ((svc.ordered order h).resolve s record objectId policy blockKeys) = _ :=
    conclusionOf_resolve hk hrows
  rwa [hjudges] at hown

/-- The rows of two orders are judged alike: they lead to one list of candidates, or both raise. -/
theorem judged_perm (hk : KeysHold s) {order : Nat → Nat → List Nat}
    {h : ∀ n len, (order n len).Perm (List.range len)} (order' : Nat → Nat → List Nat)
    (h' : ∀ n len, (order' n len).Perm (List.range len)) {found : List (Option Candidate)}
    (hfound : ((svc.ordered order h).loopRows s record blockKeys).mapM
      (svc.judge s policy record objectId) = .ok found) :
    ∃ found', ((svc.ordered order' h').loopRows s record blockKeys).mapM
      (svc.judge s policy record objectId) = .ok found' ∧ found.Perm found' := by
  refine Except.mapM_perm ?_ hfound
  refine firsts_perm ?_ ?_
  · exact (Runtime.scan_perm _ _ _).trans (Runtime.scan_perm _ _ _).symm
  · intro a ha b hb
    exact hk.rows (Runtime.mem_scan _ |>.mp ha) (Runtime.mem_scan _ |>.mp hb)

/-- What wins in some order is a top candidate. -/
theorem topCandidate_of_argmax (hk : KeysHold s) {order : Nat → Nat → List Nat}
    {h : ∀ n len, (order n len).Perm (List.range len)} {found : List (Option Candidate)} {b : Candidate}
    (hfound : ((svc.ordered order h).loopRows s record blockKeys).mapM
      (svc.judge s policy record objectId) = .ok found)
    (hb : (found.filterMap id).argmax Candidate.score = some b) :
    svc.TopCandidate s policy record objectId blockKeys b := by
  obtain ⟨hback, hforth⟩ := Except.mapM_mem hfound
  have hrows : ∀ row, row ∈ (svc.ordered order h).loopRows s record blockKeys ↔
      row ∈ svc.candidateRows s record blockKeys := fun row => mem_loopRows hk
  constructor
  · obtain ⟨_, hmem, rfl⟩ := List.mem_filterMap.mp (List.argmax_mem hb)
    obtain ⟨row, hrow, hjudge⟩ := hback _ hmem
    exact ⟨row, (hrows row).mp hrow, hjudge⟩
  · intro row hrow
    obtain ⟨c, hc, hjudge⟩ := hforth row ((hrows row).mpr hrow)
    refine ⟨c, hjudge, ?_⟩
    rintro b' rfl
    exact List.le_of_mem_argmax (List.mem_filterMap.mpr ⟨_, hc, rfl⟩) hb

/-- Every top candidate wins in some order. -/
theorem exists_order (hk : KeysHold s) (h : (svc.candidateRows s record blockKeys).length ≤ 200)
    {b : Candidate} (hb : svc.TopCandidate s policy record objectId blockKeys b) :
    ∃ order h, conclusionOf s ((svc.ordered order h).resolve s record objectId policy blockKeys) =
      leadsTo s (some b) := by
  obtain ⟨⟨row, hrow, hjudge⟩, htop⟩ := hb
  obtain ⟨i, hi⟩ := List.mem_iff_getElem?.mp hrow
  have hlt : i < (svc.candidateRows s record blockKeys).length := (List.getElem?_eq_some_iff.mp hi).1
  -- the row of the candidate comes first, the others follow in their order
  let order : Nat → Nat → List Nat := fun _ len =>
    if i < len then i :: (List.range len).erase i else List.range len
  have horder : ∀ n len, (order n len).Perm (List.range len) := by
    intro n len
    by_cases hlen : i < len
    · simp only [order, if_pos hlen]
      exact (List.perm_cons_erase (List.mem_range.mpr hlen)).symm
    · simp only [order, if_neg hlen]
      exact .refl _
  have hscan : ∃ rest, (svc.ordered order horder).rt.scan s.drawn
      (svc.candidateRows s record blockKeys) = row :: rest := by
    refine ⟨((List.range (svc.candidateRows s record blockKeys).length).erase i).filterMap fun j =>
       (svc.candidateRows s record blockKeys)[j]?, ?_⟩
    rw [Runtime.scan]
    change (order s.drawn _).filterMap _ = _
    simp only [order, if_pos hlt]
    rw [List.filterMap_cons, hi]
  obtain ⟨rest, hscan⟩ := hscan
  refine ⟨order, horder, ?_⟩
  rw [conclusionOf_ordered hk h]
  have hfirst : (svc.ordered order horder).loopRows s record blockKeys =
      row :: firsts (fun row : SourceRecord × SourceObject => row.2.id) [row.2.id] rest := by
    rw [loopRows, candidateRows_ordered, hscan]
    rfl
  rw [hfirst]
  have hmem : ∀ other ∈ firsts (fun row : SourceRecord × SourceObject => row.2.id) [row.2.id] rest,
      other ∈ svc.candidateRows s record blockKeys := by
    intro other hother
    rw [← (svc.ordered order horder).rt.mem_scan, hscan]
    exact List.mem_cons_of_mem _ (firsts_sublist.subset hother)
  obtain ⟨found, hfound⟩ := Except.mapM_isOk (f := svc.judge s policy record objectId)
    fun other hother => (htop other (hmem other hother)).imp fun c hc => hc.1
  have hall : ((row :: firsts (fun row : SourceRecord × SourceObject => row.2.id) [row.2.id] rest).mapM
      (svc.judge s policy record objectId)) = .ok (some b :: found) := by
    simp only [List.mapM_cons, Except.bind_eq_ok, Except.pure_eq_ok]
    exact ⟨_, hjudge, _, hfound, rfl⟩
  rw [hall]
  refine congrArg (leadsTo s) (Register.argmax_cons_of_ge fun b' hb' => ?_)
  obtain ⟨_, hmem', rfl⟩ := List.mem_filterMap.mp hb'
  obtain ⟨other, hother, hjudge'⟩ := (Except.mapM_mem hfound).1 _ hmem'
  obtain ⟨c, hc, hle⟩ := htop other (hmem other hother)
  cases hc.symm.trans hjudge'
  exact hle b' rfl

/-- A resolution is free of the order of its rows if and only if its ties agree. -/
theorem order_free_iff (hk : KeysHold s)
    (h : (svc.candidateRows s record blockKeys).length ≤ 200) :
    svc.OrderFree s policy record objectId blockKeys ↔
      svc.TiesAgree s policy record objectId blockKeys := by
  constructor
  · intro hfree b b' hb hb'
    obtain ⟨order, horder, hresult⟩ := exists_order hk h hb
    obtain ⟨order', horder', hresult'⟩ := exists_order hk h hb'
    rw [← hresult, ← hresult']
    exact hfree order horder order' horder'
  · intro hties order horder order' horder'
    rw [conclusionOf_ordered hk h, conclusionOf_ordered hk h]
    cases hfound : ((svc.ordered order horder).loopRows s record blockKeys).mapM
        (svc.judge s policy record objectId) with
    | error e =>
      cases hfound' : ((svc.ordered order' horder').loopRows s record blockKeys).mapM
          (svc.judge s policy record objectId) with
      | error e' => rfl
      | ok found' =>
        obtain ⟨found, hok, -⟩ := judged_perm hk order horder hfound'
        cases hfound.symm.trans hok
    | ok found =>
      obtain ⟨found', hfound', hperm⟩ := judged_perm hk order' horder' hfound
      rw [hfound']
      dsimp only
      cases hbest : (found.filterMap id).argmax Candidate.score with
      | none =>
        have hnil := (hperm.filterMap id).symm
        rw [List.argmax_eq_none.mp hbest, List.perm_nil] at hnil
        rw [hnil]
        rfl
      | some b =>
        cases hbest' : (found'.filterMap id).argmax Candidate.score with
        | none =>
          have hnil := hperm.filterMap id
          rw [List.argmax_eq_none.mp hbest', List.perm_nil] at hnil
          rw [hnil] at hbest
          cases hbest
        | some b' =>
          exact hties b b' (topCandidate_of_argmax hk hfound hbest)
            (topCandidate_of_argmax hk hfound' hbest')

end MasteringService

namespace Supplier

/-- A record of name A, to be compared with the others of that name. -/
def arrival : SourceRecord := { recordOf "new" "new" with
  original := [("name", .str "A"), ("city", .str "Z")]
  normalized := [("name", .str "A"), ("city", .str "Z")] }

/-- Two other suppliers of that name; the second one is in the city of the arrival as well. -/
def rivalRows : Request := ingest [
  observation "a" "1" [("name", .str "A"), ("city", .str "X")],
  observation "b" "1" [("name", .str "A"), ("city", .str "Z")]]

/-- The better one of the two is linked, whichever is returned first. -/
theorem order_free_rivals : ∃ policy, compilePolicy .plain (.obj definition) = .ok policy ∧
    (master.candidateRows (after [rivalRows]) arrival ["p0|name=A"]).length = 2 ∧
    conclusionOf (after [rivalRows]) (master.resolve (after [rivalRows]) arrival "o" policy ["p0|name=A"]) =
      some (.linked (uid 16)) ∧
    master.OrderFree (after [rivalRows]) policy arrival "o" ["p0|name=A"] := by
  have hrows : (master.candidateRows (after [rivalRows]) arrival ["p0|name=A"]).length = 2 := by
    decide +kernel
  have hintegrity : Integrity .plain workspace (after [rivalRows]) := integrity_run integrity_empty
  have hkeys : MasteringService.KeysHold (after [rivalRows]) := .of_integrity hintegrity
  have hrun : (match compilePolicy .plain (.obj definition) with
      | .ok policy => decide (
          conclusionOf (after [rivalRows])
            (master.resolve (after [rivalRows]) arrival "o" policy ["p0|name=A"]) = some (.linked (uid 16)) ∧
          (master.candidateRows (after [rivalRows]) arrival ["p0|name=A"]).map (fun row =>
            ((master.judge (after [rivalRows]) policy arrival "o" row).toOption.bind id).map fun b =>
              (b.evidence.score, leadsTo (after [rivalRows]) (some b))) =
            [some (.finite (1 / 2), some (.review (uid 5) (uid 8))), some (1, some (.linked (uid 16)))])
      | .error _ => false) = true := by decide +kernel
  cases hpolicy : compilePolicy .plain (.obj definition) with
  | error e => simp [hpolicy] at hrun
  | ok policy =>
    simp only [hpolicy, decide_eq_true_eq] at hrun
    obtain ⟨hlinked, hjudged⟩ := hrun
    obtain ⟨worse, better, hpair⟩ := List.length_eq_two.mp hrows
    rw [hpair] at hjudged
    -- a candidate of score 1/2 is no top candidate, the row of the other one has score 1
    have htop : ∀ b, master.TopCandidate (after [rivalRows]) policy arrival "o" ["p0|name=A"] b →
        leadsTo (after [rivalRows]) (some b) = some (.linked (uid 16)) := by
      rintro b ⟨⟨row, hrow, hb⟩, hbest⟩
      rw [hpair] at hrow hbest
      obtain ⟨c, hc, hle⟩ := hbest better (by simp)
      rw [List.map_cons, List.map_cons, List.map_nil, hc] at hjudged
      obtain ⟨hworse, hbetter, -⟩ := by simpa only [List.cons.injEq] using hjudged
      obtain ⟨best, rfl, hscore⟩ := Option.map_eq_some_iff.mp hbetter
      obtain ⟨hone, hlinks⟩ := Prod.mk.inj hscore
      have hwins := hle best rfl
      rw [Candidate.score, Candidate.score, hone] at hwins
      rcases List.mem_pair.mp hrow with rfl | rfl
      · rw [hb] at hworse
        have hhalf : b.evidence.score = .finite (1 / 2) := (Prod.mk.inj (Option.some.inj hworse)).1
        rw [hhalf] at hwins
        have hhigher : (1 : Extended ℚ) ≤ .finite (1 / 2) :=
          (Extended.le_iff_rank (by decide) (by decide)).mpr hwins
        exact absurd hhigher (by decide +kernel)
      · rw [hb] at hc
        cases hc
        exact hlinks
    exact ⟨policy, rfl, by rw [hpair]; rfl, hlinked, (MasteringService.order_free_iff hkeys (by omega)).mpr
      fun b b' hb hb' => (htop b hb).trans (htop b' hb').symm⟩

/-- Two other suppliers of that name are equally good, and the first one returned is reviewed. -/
theorem namesakes_by_order : ∃ policy, compilePolicy .plain (.obj definition) = .ok policy ∧
    ¬master.OrderFree (after [namesakes]) policy arrival "o" ["p0|name=A"] := by
  have hrun : (match compilePolicy .plain (.obj definition) with
      | .ok policy => decide (
          conclusionOf (after [namesakes]) ((master.ordered (fun _ len => List.range len)
            fun _ _ => .refl _).resolve (after [namesakes]) arrival "o" policy ["p0|name=A"]) ≠
          conclusionOf (after [namesakes]) ((master.ordered (fun _ len => (List.range len).reverse)
            fun _ _ => List.reverse_perm _).resolve (after [namesakes]) arrival "o" policy ["p0|name=A"]))
      | .error _ => false) = true := by decide +kernel
  cases hpolicy : compilePolicy .plain (.obj definition) with
  | error e => simp [hpolicy] at hrun
  | ok policy =>
    simp only [hpolicy, decide_eq_true_eq] at hrun
    exact ⟨policy, rfl, fun hfree => hrun (hfree _ _ _ _)⟩

end Supplier

end Recordlane
