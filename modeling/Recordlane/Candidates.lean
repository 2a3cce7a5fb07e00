import Recordlane.Resolving
import Recordlane.Supplier
import Mathlib.Data.List.Dedup
import Mathlib.Algebra.GroupWithZero.Nat

/-! The candidates of a record: the rows that the join has for them, and the limit on these rows. -/
namespace Recordlane

variable {rt : Runtime} {self : MasteringService} {s : Store} {policy : CompiledPolicy}
  {r : SourceRecord} {objectId : Id} {blockKeys : List String}

/-- No error of it is an answer that the service words itself. -/
def Unworded {α : Type} (x : Py α) : Prop := ∀ status code detail, x ≠ .error (.http status code detail)

namespace Unworded

variable {α β : Type}

theorem ok (a : α) : Unworded (.ok a) := nofun

theorem bind {x : Py α} {f : α → Py β} (hx : Unworded x) (hf : ∀ a, x = .ok a → Unworded (f a)) :
    Unworded (x >>= f) := by
  cases x with
  | error e =>
    intro status code detail h
    exact hx status code detail (congrArg Except.error (Except.error.inj h))
  | ok a => exact hf a rfl

theorem mapM {f : α → Py β} {xs : List α} (hf : ∀ x ∈ xs, Unworded (f x)) : Unworded (xs.mapM f) := by
  induction xs with
  | nil => exact ok []
  | cons x xs ih =>
    rw [List.mapM_cons]
    refine (hf x List.mem_cons_self).bind fun b _ => ?_
    exact (ih fun y hy => hf y (List.mem_cons_of_mem _ hy)).bind fun bs _ => ok _

theorem foldlM {f : β → α → Py β} {xs : List α} {b : β} (hf : ∀ b x, Unworded (f b x)) :
    Unworded (xs.foldlM f b) := by
  induction xs generalizing b with
  | nil => exact ok b
  | cons x xs ih =>
    rw [List.foldlM_cons]
    exact (hf b x).bind fun _ _ => ih

end Unworded

theorem Json.lookup_unworded {d : Dict} {k : Json} : Unworded (Json.lookup d k) := by
  cases k <;> exact nofun

theorem Json.arith_unworded {v : Json} : Unworded v.arith := by
  unfold Json.arith
  split <;> exact nofun

theorem Json.asDict_unworded {v : Json} : Unworded v.asDict := by
  cases v <;> exact nofun

theorem Json.toFloat_unworded {v : Json} : Unworded (Json.toFloat rt v) := by
  unfold Json.toFloat
  split
  · split_ifs
    · exact nofun
    · exact nofun
    · exact nofun
    · split <;> exact nofun
  · split <;> exact nofun
  · split <;> exact nofun

namespace CompiledPolicy

variable {left right : Dict}

theorem contradictions_unworded : Unworded (policy.contradictions left right) := by
  refine Unworded.bind (.mapM fun identifier _ => ?_) fun _ _ => .ok _
  refine Json.lookup_unworded.bind fun a _ => Json.lookup_unworded.bind fun b _ => ?_
  split <;> exact .ok _

theorem ruleScore_unworded {rule : Dict} : Unworded (ruleScore rt left right rule) := by
  unfold ruleScore
  split
  · refine Json.lookup_unworded.bind fun a _ => Json.lookup_unworded.bind fun b _ => ?_
    extract_lets weighted
    have hweighted : ∀ component, Unworded (weighted component) := fun component =>
      Json.toFloat_unworded.bind fun weight _ => .ok _
    clear_value weighted
    split
    · exact Json.toFloat_unworded.bind fun component _ => hweighted component
    · split
      · exact hweighted _
      · exact hweighted _
      · exact nofun
  · exact nofun

theorem compareRule_unworded {algorithm : Json} {rule : Dict} :
    Unworded (compareRule rt left right algorithm rule) := by
  refine ruleScore_unworded.bind fun score _ => ?_
  dsimp only
  split
  · exact Json.arith_unworded.bind fun m _ => Json.arith_unworded.bind fun u _ => .ok _
  · exact .ok _

theorem scoreOf_unworded {algorithm : Json}
    {rows : List (Extended ℚ × Extended ℚ × Extended ℚ × Json)} :
    Unworded (policy.scoreOf rt algorithm rows) := by
  unfold scoreOf
  split
  · refine Json.arith_unworded.bind fun prior _ => ?_
    dsimp only
    split
    · exact .ok _
    · exact nofun
  · exact .ok _

/-- A comparison fails by exceptions of the language and of the policy only. -/
theorem compare_unworded : Unworded (policy.compare rt left right) := by
  refine contradictions_unworded.bind fun contradictions _ => ?_
  refine Unworded.bind (.mapM fun rule _ => compareRule_unworded) fun rows _ => ?_
  refine scoreOf_unworded.bind fun score _ => Json.asDict_unworded.bind fun thresholds _ => ?_
  exact Json.arith_unworded.bind fun _ _ => Json.arith_unworded.bind fun _ _ => .ok _

end CompiledPolicy

namespace MasteringService

theorem clusterConflict_unworded {members : List SourceRecord} :
    Unworded (self.clusterConflict policy r members) := by
  induction members with
  | nil => exact .ok false
  | cons member members ih =>
    refine CompiledPolicy.compare_unworded.bind fun evidence _ => ?_
    split
    · exact .ok true
    · exact ih

theorem considerCandidate_unworded {state : Option Candidate × List Id}
    {row : SourceRecord × SourceObject} :
    Unworded (self.considerCandidate s policy r objectId state row) := by
  unfold considerCandidate
  dsimp only
  split
  · exact .ok _
  · refine CompiledPolicy.compare_unworded.bind fun pair _ => ?_
    split
    · exact .ok _
    · split
      · exact .ok _
      · split
        · exact .ok _
        · refine clusterConflict_unworded.bind fun conflict _ => ?_
          split
          · exact .ok _
          · split <;> exact .ok _

variable (svc : MasteringService) (s : Store) (record : SourceRecord) (blockKeys : List String)

/-- The other active contributions of the domain, each with its object. -/
def activeContributions : List (SourceRecord × SourceObject) :=
  (s.records.filter fun r => r.workspaceId = svc.wid && r.domainKey = record.domainKey &&
    r.id ≠ record.id && r.state = .valid).flatMap fun r =>
  (s.objects.filter fun o =>
    o.currentRecordId = some r.id && o.entityId.isSome && !o.retired).map fun o => (r, o)

/-- The index rows of a contribution that have one of the keys. -/
def sharedKeys (row : SourceRecord × SourceObject) : List CandidateBlock :=
  s.blocks.filter fun b => b.recordId = row.1.id && blockKeys.contains b.blockKey

/-- The active objects that share a key with the record. -/
def sharers : List Id :=
  (((svc.activeContributions s record).filter fun row => sharedKeys s blockKeys row ≠ []).map
    fun row => row.2.id).dedup

/-- The rows that the query returns. -/
def returnedRows : List (SourceRecord × SourceObject) :=
  (svc.rt.scan s.drawn (svc.candidateRows s record blockKeys)).take 201

/-- The loop comes to a row of the object when it has not seen the object before. -/
def Compared (objectId : Id) (policy : CompiledPolicy) (id : Id) : Prop :=
  ∃ before row after state, svc.returnedRows s record blockKeys = before ++ row :: after ∧
    row.2.id = id ∧
    before.foldlM (svc.considerCandidate s policy record objectId) (none, []) = .ok state ∧
    state.2.contains id = false

/-- The resolution is refused for its candidates. -/
def Overflows {α : Type} (x : Py α) : Prop :=
  ∃ detail, x = .error (.http 409 "candidate_block_overflow" detail)

/-- More than 200 sharing objects are refused, and fewer are all compared unless a comparison raises. -/
def OverflowExact (objectId : Id) (policy : CompiledPolicy) : Prop :=
  (Overflows (svc.resolve s record objectId policy blockKeys) ↔
    200 < (svc.sharers s record blockKeys).length) ∧
  ((svc.sharers s record blockKeys).length ≤ 200 →
    (∃ e, (svc.returnedRows s record blockKeys).foldlM
      (svc.considerCandidate s policy record objectId) (none, []) = .error e) ∨
    ∀ id ∈ svc.sharers s record blockKeys, svc.Compared s record blockKeys objectId policy id)

variable {svc s record blockKeys}

/-- The join has a row of a contribution for each key that it shares. -/
theorem candidateRows_eq : svc.candidateRows s record blockKeys =
    (svc.activeContributions s record).flatMap fun row =>
      (sharedKeys s blockKeys row).map fun _ => row := by
  rw [candidateRows, activeContributions, List.flatMap_assoc]
  refine List.flatMap_congr fun r _ => ?_
  rw [List.flatMap_map]
  rfl

theorem length_candidateRows : (svc.candidateRows s record blockKeys).length =
    ((svc.activeContributions s record).map fun row => (sharedKeys s blockKeys row).length).sum := by
  rw [candidateRows_eq, List.length_flatMap]
  simp only [List.length_map]

theorem mem_sharers {id : Id} : id ∈ svc.sharers s record blockKeys ↔
    ∃ row ∈ svc.candidateRows s record blockKeys, row.2.id = id := by
  rw [sharers, List.mem_dedup, List.mem_map, candidateRows_eq]
  constructor
  · rintro ⟨row, hrow, rfl⟩
    obtain ⟨hactive, hshared⟩ := List.mem_filter.mp hrow
    obtain ⟨b, hb⟩ := List.exists_mem_of_ne_nil _ (of_decide_eq_true hshared)
    exact ⟨row, List.mem_flatMap.mpr ⟨row, hactive, List.mem_map.mpr ⟨b, hb, rfl⟩⟩, rfl⟩
  · rintro ⟨row, hrow, rfl⟩
    obtain ⟨row', hactive, hmap⟩ := List.mem_flatMap.mp hrow
    obtain ⟨b, hb, rfl⟩ := List.mem_map.mp hmap
    exact ⟨row', List.mem_filter.mpr ⟨hactive, decide_eq_true (List.ne_nil_of_mem hb)⟩, rfl⟩

theorem length_sharers_le :
    (svc.sharers s record blockKeys).length ≤ (svc.candidateRows s record blockKeys).length := by
  have hsub : svc.sharers s record blockKeys ⊆
      (svc.candidateRows s record blockKeys).map fun row => row.2.id := by
    intro id hid
    obtain ⟨row, hrow, rfl⟩ := mem_sharers.mp hid
    exact List.mem_map_of_mem hrow
  have hle := (List.subperm_of_subset (List.nodup_dedup _) hsub).length_le
  rwa [List.length_map] at hle

theorem candidateRows_nil : svc.candidateRows s record [] = [] := by
  simp [candidateRows_eq, sharedKeys]

/-- Without an overflow the loop has all rows of the join. -/
theorem bestCandidate_eq (h : (svc.candidateRows s record blockKeys).length ≤ 200) :
    svc.bestCandidate s record objectId policy blockKeys = (do
      let (best, _) ← (svc.rt.scan s.drawn (svc.candidateRows s record blockKeys)).foldlM
        (svc.considerCandidate s policy record objectId) (none, [])
      return best) := by
  have hlength := (svc.rt.scan_perm s.drawn (svc.candidateRows s record blockKeys)).length_eq
  cases blockKeys with
  | nil =>
    rw [candidateRows_nil] at hlength ⊢
    rw [List.length_eq_zero_iff.mp hlength]
    rfl
  | cons key keys =>
    rw [bestCandidate, candidates, List.take_of_length_le (by omega)]
    simp only [List.isEmpty_cons, Bool.false_eq_true, if_false]
    rw [if_neg (by omega)]
    rfl

/-- The limit is one on the rows of the join. -/
theorem resolve_overflows_iff : Overflows (svc.resolve s record objectId policy blockKeys) ↔
    200 < (svc.candidateRows s record blockKeys).length := by
  have hlength := (svc.rt.scan_perm s.drawn (svc.candidateRows s record blockKeys)).length_eq
  by_cases hrows : (svc.candidateRows s record blockKeys).length ≤ 200
  · refine ⟨?_, fun h => absurd h (by omega)⟩
    rintro ⟨detail, h⟩
    have hquiet : Unworded (svc.resolve s record objectId policy blockKeys) := by
      rw [resolve, bestCandidate_eq hrows]
      refine Unworded.bind ?_ fun best _ => ?_
      · exact (Unworded.foldlM fun _ _ => considerCandidate_unworded).bind fun _ _ => .ok _
      · split
        · exact .ok _
        · unfold createEntity
          dsimp only
          split
          · exact .ok _
          · split
            · exact .ok _
            · exact nofun
    exact absurd h (hquiet _ _ _)
  · refine ⟨fun _ => by omega, fun _ => ?_⟩
    cases blockKeys with
    | nil => exact absurd (Nat.zero_le 200) (by rwa [candidateRows_nil] at hrows)
    | cons key keys =>
      have hlimit : 200 < ((svc.rt.scan s.drawn
          (svc.candidateRows s record (key :: keys))).take 201).length := by
        rw [List.length_take]
        omega
      refine ⟨[("limit", .int 200), ("message", .str
        "Refine the policy blocking strategies; candidates were not silently truncated")], ?_⟩
      rw [resolve, bestCandidate, candidates]
      simp only [List.isEmpty_cons, Bool.false_eq_true, if_false, if_pos hlimit]
      rfl

/-- The objects that the loop has seen are those of its rows. -/
theorem considerCandidate_seen {state state' : Option Candidate × List Id}
    {row : SourceRecord × SourceObject}
    (h : svc.considerCandidate s policy record objectId state row = .ok state') (id : Id) :
    id ∈ state'.2 ↔ id ∈ state.2 ∨ id = row.2.id := by
  unfold considerCandidate at h
  dsimp only at h
  split at h
  · next hseen =>
    cases h
    constructor
    · exact .inl
    · rintro (hid | rfl)
      · exact hid
      · exact List.contains_iff_mem.mp hseen
  · rw [Except.bind_eq_ok] at h
    obtain ⟨pair, -, h⟩ := h
    have hnew : state'.2 = row.2.id :: state.2 := by
      split at h
      · cases h
        rfl
      · split at h
        · cases h
          rfl
        · split at h
          · cases h
            rfl
          · rw [Except.bind_eq_ok] at h
            obtain ⟨conflict, -, h⟩ := h
            split at h
            · cases h
              rfl
            · split at h <;> · cases h; rfl
    rw [hnew, List.mem_cons, or_comm]

theorem seen_of_loop {rows : List (SourceRecord × SourceObject)} {state state' : Option Candidate × List Id}
    (h : rows.foldlM (svc.considerCandidate s policy record objectId) state = .ok state') (id : Id) :
    id ∈ state'.2 ↔ id ∈ state.2 ∨ ∃ row ∈ rows, row.2.id = id := by
  induction rows generalizing state with
  | nil =>
    cases h
    simp
  | cons row rows ih =>
    rw [List.foldlM_cons, Except.bind_eq_ok] at h
    obtain ⟨middle, hfirst, hrest⟩ := h
    rw [ih hrest, considerCandidate_seen hfirst]
    simp [or_assoc, eq_comm]

theorem compared_of_loop {state : Option Candidate × List Id} {id : Id}
    (h : (svc.returnedRows s record blockKeys).foldlM
      (svc.considerCandidate s policy record objectId) (none, []) = .ok state)
    (hid : ∃ row ∈ svc.returnedRows s record blockKeys, row.2.id = id) :
    svc.Compared s record blockKeys objectId policy id := by
  obtain ⟨row, hfind⟩ : ∃ row, (svc.returnedRows s record blockKeys).find? (fun row => row.2.id = id) =
      some row := by
    rw [← Option.isSome_iff_exists, List.find?_isSome]
    obtain ⟨row, hrow, hid⟩ := hid
    exact ⟨row, hrow, decide_eq_true hid⟩
  obtain ⟨hrow, before, after, hsplit, hbefore⟩ := List.find?_eq_some_iff_append.mp hfind
  rw [hsplit, List.foldlM_append, Except.bind_eq_ok] at h
  obtain ⟨middle, hmiddle, -⟩ := h
  refine ⟨before, row, after, middle, hsplit, of_decide_eq_true hrow, hmiddle, ?_⟩
  rw [← Bool.not_eq_true, List.contains_iff_mem, seen_of_loop hmiddle]
  rintro (hnil | ⟨earlier, hearlier, hsame⟩)
  · cases hnil
  · simpa [hsame] using hbefore earlier hearlier

/-- The overflow is exact if and only if the rows of the join pass the limit no sooner than the objects. -/
theorem overflow_exact_iff (svc : MasteringService) (s : Store) (record : SourceRecord)
    (objectId : Id) (policy : CompiledPolicy) (blockKeys : List String) :
    svc.OverflowExact s record blockKeys objectId policy ↔
      200 < (svc.sharers s record blockKeys).length ∨
      ((svc.activeContributions s record).map fun row => (sharedKeys s blockKeys row).length).sum ≤ 200 := by
  rw [OverflowExact, resolve_overflows_iff, ← length_candidateRows]
  have hle : (svc.sharers s record blockKeys).length ≤ _ := length_sharers_le
  constructor
  · rintro ⟨hiff, -⟩
    by_cases hrows : (svc.candidateRows s record blockKeys).length ≤ 200
    · exact .inr hrows
    · exact .inl (hiff.mp (by omega))
  · intro hcond
    refine ⟨⟨fun hrows => by omega, fun hshare => by omega⟩, fun hfew => ?_⟩
    have hrows : (svc.candidateRows s record blockKeys).length ≤ 200 := by omega
    cases hloop : (svc.returnedRows s record blockKeys).foldlM
        (svc.considerCandidate s policy record objectId) (none, []) with
    | error e => exact .inl ⟨e, rfl⟩
    | ok state =>
      refine .inr fun id hid => compared_of_loop hloop ?_
      obtain ⟨row, hrow, hid⟩ := mem_sharers.mp hid
      refine ⟨row, ?_, hid⟩
      have hperm := svc.rt.scan_perm s.drawn (svc.candidateRows s record blockKeys)
      rw [returnedRows, List.take_of_length_le (by rw [hperm.length_eq]; omega)]
      exact hperm.mem_iff.mpr hrow

end MasteringService

namespace Supplier

/-- The fields that the passes of a policy take together. -/
def passes : List (List String) := [["name"], ["city"], ["tax_id"], ["name", "city"],
  ["name", "tax_id"], ["city", "tax_id"], ["name", "city", "tax_id"]]

/-- The definition that makes a candidate of every pass. -/
def byPasses : Dict := rematched "blocking" (.arr (passes.map fun fields =>
  .obj [("fields", .arr (fields.map .str))]))

def sameValues : Dict := [("name", .str "A"), ("city", .str "X"), ("tax_id", .str "T")]

def sameKeys : List String := ["p0|name=A", "p1|city=X", "p2|tax_id=T", "p3|name=A|city=X",
  "p4|name=A|tax_id=T", "p5|city=X|tax_id=T", "p6|name=A|city=X|tax_id=T"]

def recordOf (id localId : String) : SourceRecord where
  id := id
  workspaceId := "w1"
  sourceId := "erp"
  domainKey := "supplier"
  localId := localId
  sourceVersion := "1"
  original := sameValues
  normalized := sameValues
  blockingKey := "p0|name=A"
  verification := []
  state := .valid
  qualityErrors := []
  observedAt := 0
  effectiveFrom := none
  entityId := some "e"

/-- Suppliers of the same values, all of them in one entity. -/
def crowd (n : Nat) : Store :=
  let name (letter : Char) (i : Nat) : String := String.ofList [letter, Char.ofNat (97 + i)]
  { Store.empty workspace with
    entities := [⟨"e", "w1", "supplier", .approved, 1⟩]
    records := (List.range n).map fun i => recordOf (name 'r' i) (name 'l' i)
    objects := (List.range n).map fun i => {
      id := name 'o' i
      workspaceId := "w1"
      sourceId := "erp"
      domainKey := "supplier"
      localId := name 'l' i
      entityId := some "e"
      currentRecordId := some (name 'r' i)
      latestRecordId := some (name 'r' i)
      currentSequence := none
      currentEffectiveFrom := none
      retired := false }
    blocks := (List.range n).flatMap fun i =>
      sameKeys.map fun key => ⟨"w1", "supplier", name 'o' i, name 'r' i, key⟩ }

/-- One more supplier of these values has seven rows for each of 29 objects. -/
theorem crowd_overflows : ∃ policy, compilePolicy .plain (.obj byPasses) = .ok policy ∧
    policy.blockingKeys .plain sameValues = .ok sameKeys ∧
    ¬master.OverflowExact (crowd 29) (recordOf "new" "new") sameKeys "o" policy := by
  have hrun : (match compilePolicy .plain (.obj byPasses) with
      | .ok policy => decide (policy.blockingKeys .plain sameValues = .ok sameKeys)
      | .error _ => false) = true := by decide +kernel
  have hcounts : 200 < (master.candidateRows (crowd 29) (recordOf "new" "new") sameKeys).length ∧
      (master.sharers (crowd 29) (recordOf "new" "new") sameKeys).length = 29 := by
    decide +kernel
  cases hpolicy : compilePolicy .plain (.obj byPasses) with
  | error e => simp [hpolicy] at hrun
  | ok policy =>
    simp only [hpolicy, decide_eq_true_eq] at hrun
    refine ⟨policy, rfl, hrun, fun hexact => ?_⟩
    have hmany := hexact.1.mp (MasteringService.resolve_overflows_iff.mpr hcounts.1)
    rw [hcounts.2] at hmany
    exact absurd hmany (by decide)

end Supplier

end Recordlane
