import Recordlane.Membership

/-! Which candidates a resolution may link to, and what entity it finds or makes. -/
namespace Recordlane

variable {self : MasteringService} {s s' : Store} {policy : CompiledPolicy} {r : SourceRecord}
  {blockKeys : List String}

/-- A candidate that no constraint and no member of its cluster speaks against. -/
structure Admissible (svc : MasteringService) (s : Store) (policy : CompiledPolicy)
    (record : SourceRecord) (objectId : Id) (rows : List (SourceRecord × SourceObject))
    (b : Candidate) : Prop where
  row : (b.record, b.object) ∈ rows
  unconstrained : svc.isCannotLink s objectId b.object.id = false
  cluster : ∃ x, b.object.entityId = some x ∧
    svc.clusterConflict policy record (svc.currentRecords s x) = .ok false

namespace MasteringService

theorem considerCandidate_admissible {objectId : Id} {rows : List (SourceRecord × SourceObject)}
    {row : SourceRecord × SourceObject} {state state' : Option Candidate × List Id}
    (hrow : row ∈ rows) (h : self.considerCandidate s policy r objectId state row = .ok state')
    (hs : ∀ b, state.1 = some b → Admissible self s policy r objectId rows b) :
    ∀ b, state'.1 = some b → Admissible self s policy r objectId rows b := by
  unfold considerCandidate at h
  dsimp only at h
  split at h
  · cases h
    exact hs
  · rw [Except.bind_eq_ok] at h
    obtain ⟨pair, -, h⟩ := h
    split at h
    · cases h
      exact hs
    · next hconstraint =>
      split at h
      · cases h
        exact hs
      · next x hx =>
        split at h
        · cases h
          exact hs
        · rw [Except.bind_eq_ok] at h
          obtain ⟨conflict, hconflict, h⟩ := h
          split at h
          · cases h
            exact hs
          · next hfree =>
            have hnew : Admissible self s policy r objectId rows ⟨pair, row.1, row.2⟩ :=
              ⟨hrow, by simpa using hconstraint, x, hx, by simpa [hfree] using hconflict⟩
            split at h
            · cases h
              rintro b ⟨⟩
              exact hnew
            · next best hbest =>
              cases h
              intro b hb
              dsimp only at hb
              split at hb
              · cases hb
                exact hnew
              · cases hb
                exact hs best hbest

theorem bestCandidate_admissible {objectId : Id} {best : Option Candidate}
    (h : self.bestCandidate s r objectId policy blockKeys = .ok best) :
    ∀ b, best = some b →
      Admissible self s policy r objectId (self.candidateRows s r blockKeys) b := by
  unfold bestCandidate at h
  dsimp only at h
  have hrun : ∀ {rows : List (SourceRecord × SourceObject)} {state : Option Candidate × List Id},
      (∀ row ∈ rows, row ∈ self.candidateRows s r blockKeys) →
      rows.foldlM (self.considerCandidate s policy r objectId) (none, []) = .ok state →
      ∀ b, state.1 = some b →
        Admissible self s policy r objectId (self.candidateRows s r blockKeys) b := by
    intro rows state hrows hfold
    refine Except.foldlM_invariant (P := fun state => ∀ b, state.1 = some b →
      Admissible self s policy r objectId (self.candidateRows s r blockKeys) b) hfold (by simp) ?_
    intro state row state' hrow hs hstep
    exact considerCandidate_admissible (hrows row hrow) hstep hs
  split at h
  · simp only [pure_bind, List.foldlM_nil, Except.pure_eq_ok] at h
    intro b hb
    rw [← h] at hb
    cases hb
  · simp only [Except.bind_eq_ok, Except.pure_eq_ok] at h
    obtain ⟨rows, hrows, state, hfold, rfl⟩ := h
    refine hrun (fun row hrow => ?_) hfold
    unfold candidates at hrows
    dsimp only at hrows
    split at hrows
    · cases hrows
    · cases hrows
      exact (self.rt.mem_scan).mp (List.mem_of_mem_take hrow)

theorem mem_candidateRows {row : SourceRecord × SourceObject}
    (h : row ∈ self.candidateRows s r blockKeys) :
    row.2 ∈ s.objects ∧ row.2.retired = false ∧ row.2.entityId.isSome := by
  simp only [candidateRows, List.mem_flatMap, List.mem_map, List.mem_filter, Bool.and_eq_true,
    Bool.not_eq_true'] at h
  obtain ⟨r', -, o, ⟨ho, ⟨-, he⟩, hret⟩, b, -, rfl⟩ := h
  exact ⟨ho, hret, he⟩

/-- The entity a resolution finds or makes. -/
inductive Resolves (svc : MasteringService) (s : Store) (policy : CompiledPolicy) (r : SourceRecord)
    (objectId : Id) : Store → Id → Resolution → Prop
  | linked {e : Entity} {b : Candidate} (he : e ∈ s.entities) (hb : b.object ∈ s.objects)
      (hx : b.object.entityId = some e.id)
      (hc : svc.clusterConflict policy r (svc.currentRecords s e.id) = .ok false) :
      Resolves svc s policy r objectId (s.mapEntities (bump e.id)) e.id .linked
  | created : Resolves svc s policy r objectId
      (s.insertEntity ⟨svc.fresh s, svc.wid, r.domainKey, .candidate, 1⟩) (svc.fresh s) .created
  | review {e : Entity} {b : Candidate} {task : ReviewTask} (hb : b.object ∈ s.objects)
      (hx : b.object.entityId = some e.id) (hid : task.id = svc.rt.uid (s.drawn + 1))
      (ht : task.entityId = some (svc.fresh s))
      (hp : task.payload = .duplicateMatch r.id b.record.id (some objectId) (some b.object.id) e.id
        e.version b.evidence) :
      Resolves svc s policy r objectId
        ((s.insertEntity ⟨svc.fresh s, svc.wid, r.domainKey, .candidate, 1⟩).insertTask task)
        (svc.fresh s) .review

theorem resolve_resolves {objectId x : Id} {outcome : Resolution}
    (h : self.resolve s r objectId policy blockKeys = .ok (s', x, outcome)) :
    Resolves self s policy r objectId s' x outcome := by
  unfold resolve at h
  rw [Except.bind_eq_ok] at h
  obtain ⟨best, hbest, h⟩ := h
  have hbest := bestCandidate_admissible hbest
  split at h
  · next e he =>
    cases h
    unfold autoLinkTarget at he
    split at he
    · next b _ =>
      obtain ⟨hrow, -, x, hx, hfree⟩ := hbest b rfl
      split at he
      · rw [hx] at he
        obtain ⟨hmem, rfl⟩ := entity?_mem he
        exact .linked hmem (mem_candidateRows hrow).1 hx hfree
      · cases he
    · cases he
  · unfold createEntity at h
    cases best with
    | none =>
      cases h
      exact .created
    | some b =>
      obtain ⟨hrow, -, x, hx, -⟩ := hbest b rfl
      dsimp only at h
      split at h
      · next e he =>
        cases h
        rw [hx] at he
        obtain ⟨-, rfl⟩ := entity?_mem he
        exact .review (mem_candidateRows hrow).1 hx rfl rfl rfl
      · cases h

end MasteringService

end Recordlane
