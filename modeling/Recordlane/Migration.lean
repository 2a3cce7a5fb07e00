import Recordlane.Chronicles
import Mathlib.Data.Prod.Lex
import Mathlib.Data.String.Basic

/-! The upgrade of stores older than source objects: every source key gets its object. -/
namespace Recordlane

/-- A source key, with its workspace. -/
abbrev SourceKey := Id × Id × String × String

def SourceRecord.sourceKey (r : SourceRecord) : SourceKey :=
  (r.workspaceId, r.sourceId, r.domainKey, r.localId)

def SourceObject.sourceKey (o : SourceObject) : SourceKey :=
  (o.workspaceId, o.sourceId, o.domainKey, o.localId)

/-- `ORDER BY workspace_id, source_id, domain_key, local_id, observed_at, id`. -/
def SourceRecord.rank (r : SourceRecord) : Id ×ₗ Id ×ₗ String ×ₗ String ×ₗ DateTime ×ₗ Id :=
  toLex (r.workspaceId, toLex (r.sourceId, toLex (r.domainKey, toLex (r.localId,
    toLex (r.observedAt, r.id)))))

def Store.observations (s : Store) : List SourceRecord :=
  s.records.insertionSort fun r r' => r.rank ≤ r'.rank

/-- The observations of a source key, the oldest first. -/
def Store.history (s : Store) (key : SourceKey) : List SourceRecord :=
  s.observations.filter fun r => r.sourceKey = key

/-- The source keys with their histories. Equal keys stand together in the sorted observations. -/
def Store.grouped (s : Store) : List (SourceKey × List SourceRecord) :=
  (s.observations.map SourceRecord.sourceKey).dedup.map fun key => (key, s.history key)

/-- The newest valid observation. -/
def newestValid (versions : List SourceRecord) : Option SourceRecord :=
  (versions.filter fun r => r.state = .valid).getLast?

namespace Migration

variable (rt : Runtime)

/-- The policies of the domains, by their workspace and key. -/
abbrev Policies := List ((Id × String) × CompiledPolicy)

def policies (domains : List Domain) : Py Policies :=
  domains.mapM fun d => do return ((d.workspaceId, d.key), ← compilePolicy rt d.definition)

/-- The candidate blocks of a current observation; a domain that is gone has none. -/
def blockKeys (compiled : Policies) (current : SourceRecord) : Py (List String) :=
  match compiled.reverse.find? fun p => p.1 = (current.workspaceId, current.domainKey) with
  | some (_, policy) => policy.blockingKeys rt current.normalized
  | none => .ok []

/-- The payload that an observation would have come with. -/
def replay (r : SourceRecord) : Json :=
  .obj [("values", .obj r.original),
    ("verification", .obj (r.verification.map fun p => (p.1, .bool p.2))),
    ("effective_from", optionJson (r.effectiveFrom.map rt.isoformat)), ("sequence", .null),
    ("update_mode", .str "full"), ("deleted", .bool (r.state = .deleted))]

/-- The object of a key, from its newest observation and its newest valid one. -/
def object (id : Id) (key : SourceKey) (latest : SourceRecord) (current : Option SourceRecord) :
    SourceObject where
  id := id
  workspaceId := key.1
  sourceId := key.2.1
  domainKey := key.2.2.1
  localId := key.2.2.2
  entityId := (current.getD latest).entityId
  currentRecordId := current.map SourceRecord.id
  latestRecordId := some latest.id
  currentSequence := none
  currentEffectiveFrom := current.bind SourceRecord.effectiveFrom
  retired := current.isNone && latest.state = .deleted

/-- The candidate blocks and the membership that come with a current observation. -/
def backfillCurrent (compiled : Policies) (s : Store) (o : SourceObject) (current : SourceRecord) :
    Py Store := do
  let keys ← blockKeys rt compiled current
  let s := s.insertBlocks (keys.map fun blockKey => {
    workspaceId := o.workspaceId
    domainKey := o.domainKey
    sourceObjectId := o.id
    recordId := current.id
    blockKey := blockKey })
  match current.entityId with
  | none => return s
  | some entityId =>
    return s.insertMembership {
      id := rt.uid s.drawn
      workspaceId := o.workspaceId
      sourceObjectId := o.id
      entityId := entityId
      validFrom := rt.now s.drawn
      validTo := none
      reason := "migration_from_alpha_observation"
      changedBy := "recordlane.migration" }

/-- The object of a key, the metadata of its observations, its blocks and its membership. -/
def backfill (compiled : Policies) (s : Store) (group : SourceKey × List SourceRecord) : Py Store :=
  let (key, versions) := group
  match versions.getLast? with
  | none => .ok s
  | some latest =>
    let current := newestValid versions
    let o := object (rt.uid s.drawn) key latest current
    let s := s.insertObject o
    let s := versions.foldl (fun s r => s.insertMeta {
      recordId := r.id
      sourceObjectId := o.id
      payloadHash := canonicalHash rt (replay rt r)
      sourceSequence := none
      updateMode := .fullUpdate }) s
    match current with
    | none => .ok s
    | some current => backfillCurrent rt compiled s o current

/-- `_create_stable_identity_tables`, once the tables exist. -/
def createStableIdentityTables (s : Store) : Py Store := do
  let existing := s.objects.map SourceObject.sourceKey
  let compiled ← policies rt s.domains
  s.grouped.foldlM (fun t group =>
    if existing.contains group.1 then pure t else backfill rt compiled t group) s

end Migration

/-- A store of the schema before source objects: the tables that the upgrade creates are empty. -/
structure AlphaSchema (s : Store) : Prop where
  recordIds : Table.Keyed SourceRecord.id s.records
  objects : s.objects = []
  metas : s.metas = []
  blocks : s.blocks = []
  memberships : s.memberships = []
  cannotLinks : s.cannotLinks = []

variable {rt : Runtime} {s t : Store} {key : SourceKey} {versions history : List SourceRecord}
  {compiled : Migration.Policies} {o : SourceObject} {r latest : SourceRecord}

theorem Store.mem_observations : r ∈ s.observations ↔ r ∈ s.records := List.mem_insertionSort _

theorem Store.mem_history : r ∈ s.history key ↔ r ∈ s.records ∧ r.sourceKey = key := by
  simp [Store.history, Store.mem_observations]

theorem Store.keys_grouped : s.grouped.map Prod.fst =
    (s.observations.map SourceRecord.sourceKey).dedup := by
  simp [Store.grouped, Function.comp_def]

theorem newestValid_eq_none : newestValid versions = none ↔ ∀ r ∈ versions, r.state ≠ .valid := by
  simp [newestValid]

/-- The keys of the candidate blocks that the current record of an object has. -/
def Store.currentBlocks (s : Store) (o : SourceObject) : List String :=
  (s.blocks.filter fun b => b.sourceObjectId = o.id && o.currentRecordId = some b.recordId).map
    CandidateBlock.blockKey

/-- What the upgrade adds for a group: an object, blocks and memberships of this object. -/
structure Adds (rt : Runtime) (compiled : Migration.Policies) (s : Store)
    (group : SourceKey × List SourceRecord) (t : Store) (o : SourceObject) (bs : List CandidateBlock)
    (ms : List MembershipHistory) : Prop where
  made : ∃ latest ∈ group.2.getLast?,
    o = Migration.object (rt.uid s.drawn) group.1 latest (newestValid group.2)
  objects : t.objects = s.objects ++ [o]
  blocks : t.blocks = s.blocks ++ bs
  memberships : t.memberships = s.memberships ++ ms
  drawn : s.drawn < t.drawn
  own : ∀ b ∈ bs, b.sourceObjectId = o.id ∧ o.currentRecordId = some b.recordId
  keys : ∀ current ∈ newestValid group.2,
    Migration.blockKeys rt compiled current = .ok (bs.map CandidateBlock.blockKey)
  opened : ∀ m ∈ ms, m.sourceObjectId = o.id ∧ m.validTo = none
  entities : ms.map MembershipHistory.entityId =
    ((newestValid group.2).bind SourceRecord.entityId).toList

theorem foldl_insertMeta (s : Store) (f : SourceRecord → SourceObservationMeta)
    (versions : List SourceRecord) :
    let t := versions.foldl (fun s r => s.insertMeta (f r)) s
    t.objects = s.objects ∧ t.blocks = s.blocks ∧ t.memberships = s.memberships ∧ s.drawn ≤ t.drawn := by
  induction versions generalizing s with
  | nil => exact ⟨rfl, rfl, rfl, le_rfl⟩
  | cons r versions ih =>
    obtain ⟨hobjects, hblocks, hmemberships, hdrawn⟩ := ih (s.insertMeta (f r))
    exact ⟨hobjects, hblocks, hmemberships, (Nat.le_succ _).trans hdrawn⟩

namespace Migration

theorem backfillCurrent_adds {current : SourceRecord} (ho : o.currentRecordId = some current.id)
    (h : backfillCurrent rt compiled s o current = .ok t) : t.objects = s.objects ∧ s.drawn < t.drawn ∧
      ∃ bs ms, t.blocks = s.blocks ++ bs ∧ t.memberships = s.memberships ++ ms ∧
        (∀ b ∈ bs, b.sourceObjectId = o.id ∧ o.currentRecordId = some b.recordId) ∧
        blockKeys rt compiled current = .ok (bs.map CandidateBlock.blockKey) ∧
        (∀ m ∈ ms, m.sourceObjectId = o.id ∧ m.validTo = none) ∧
        ms.map MembershipHistory.entityId = current.entityId.toList := by
  unfold backfillCurrent at h
  rw [Except.bind_eq_ok] at h
  obtain ⟨keys, hkeys, h⟩ := h
  let bs : List CandidateBlock := keys.map fun blockKey =>
    ⟨o.workspaceId, o.domainKey, o.id, current.id, blockKey⟩
  have hown : ∀ b ∈ bs, b.sourceObjectId = o.id ∧ o.currentRecordId = some b.recordId := by
    intro b hb
    obtain ⟨_, -, rfl⟩ := List.mem_map.mp hb
    exact ⟨rfl, ho⟩
  have hlisted : blockKeys rt compiled current = .ok (bs.map CandidateBlock.blockKey) := by
    simpa [bs, Function.comp_def] using hkeys
  dsimp only at h
  split at h
  · next hentity =>
    cases h
    refine ⟨rfl, Nat.lt_succ_self _, bs, [], rfl, (List.append_nil _).symm, hown, hlisted, by simp, ?_⟩
    rw [hentity]
    rfl
  · next entityId hentity =>
    cases h
    refine ⟨rfl, (Nat.lt_succ_self _).trans (Nat.lt_succ_self _), bs, _, rfl, rfl, hown, hlisted, ?_, ?_⟩
    · intro m hm
      rw [List.mem_singleton.mp hm]
      exact ⟨rfl, rfl⟩
    · rw [hentity]
      rfl

theorem backfill_adds {group : SourceKey × List SourceRecord} (hne : group.2 ≠ [])
    (h : backfill rt compiled s group = .ok t) : ∃ o bs ms, Adds rt compiled s group t o bs ms := by
  unfold backfill at h
  dsimp only at h
  split at h
  · next hnone => exact (hne (List.getLast?_eq_none_iff.mp hnone)).elim
  · next latest hlatest =>
    let o := object (rt.uid s.drawn) group.1 latest (newestValid group.2)
    obtain ⟨hobjects, hblocks, hmemberships, hdrawn⟩ := foldl_insertMeta
      (s.insertObject o) (fun r => {
        recordId := r.id
        sourceObjectId := o.id
        payloadHash := canonicalHash rt (replay rt r)
        sourceSequence := none
        updateMode := .fullUpdate }) group.2
    have hlater := Nat.lt_of_lt_of_le (Nat.lt_succ_self s.drawn) hdrawn
    split at h
    · next hcurrent =>
      cases h
      refine ⟨o, [], [], ⟨latest, hlatest, rfl⟩, hobjects, ?_, ?_, hlater, by simp, by simp [hcurrent],
        by simp, by simp [hcurrent]⟩
      · rw [List.append_nil]
        exact hblocks
      · rw [List.append_nil]
        exact hmemberships
    · next current hcurrent =>
      have ho : o.currentRecordId = some current.id := congrArg (Option.map SourceRecord.id) hcurrent
      obtain ⟨hobjects', hdrawn', bs, ms, hblocks', hmemberships', hown, hkeys, hopened, hentities⟩ :=
        backfillCurrent_adds ho h
      refine ⟨o, bs, ms, ⟨latest, hlatest, rfl⟩, hobjects'.trans hobjects, ?_, ?_, hlater.trans hdrawn',
        hown, ?_, hopened, ?_⟩
      · rw [hblocks', hblocks]
        rfl
      · rw [hmemberships', hmemberships]
        rfl
      · intro current' hc
        rw [hcurrent] at hc
        cases hc
        exact hkeys
      · rw [hcurrent]
        exact hentities

end Migration

/-- What the upgrade leaves of a group. -/
structure Backfilled (rt : Runtime) (compiled : Migration.Policies) (t : Store)
    (group : SourceKey × List SourceRecord) (o : SourceObject) : Prop where
  drawn : Drawn rt t.drawn o.id
  made : ∃ latest ∈ group.2.getLast?, o = Migration.object o.id group.1 latest (newestValid group.2)
  blocks : ∀ current ∈ newestValid group.2, Migration.blockKeys rt compiled current = .ok (t.currentBlocks o)
  opened : (t.openRows o.id).map MembershipHistory.entityId =
    ((newestValid group.2).bind SourceRecord.entityId).toList

/-- Every group upgraded so far has its object, and all rows belong to objects. -/
structure Upgrading (rt : Runtime) (compiled : Migration.Policies) (t : Store)
    (groups : List (SourceKey × List SourceRecord)) : Prop where
  objects : List.Forall₂ (Backfilled rt compiled t) groups t.objects
  blocks : ∀ b ∈ t.blocks, Drawn rt t.drawn b.sourceObjectId
  memberships : ∀ m ∈ t.memberships, Drawn rt t.drawn m.sourceObjectId

namespace Adds

variable {group : SourceKey × List SourceRecord} {groups : List (SourceKey × List SourceRecord)}
  {bs : List CandidateBlock} {ms : List MembershipHistory}

theorem id_eq (h : Adds rt compiled s group t o bs ms) : o.id = rt.uid s.drawn := by
  obtain ⟨_, -, rfl⟩ := h.made
  rfl

theorem others (h : Adds rt compiled s group t o bs ms) {o' : SourceObject} (hne : o'.id ≠ o.id) :
    t.currentBlocks o' = s.currentBlocks o' ∧ t.openRows o'.id = s.openRows o'.id := by
  constructor
  · have hnone : (bs.filter fun b => b.sourceObjectId = o'.id && o'.currentRecordId = some b.recordId) =
        [] := by
      refine List.filter_eq_nil_iff.mpr fun b hb hmem => ?_
      simp only [Bool.and_eq_true, decide_eq_true_eq] at hmem
      exact hne (hmem.1.symm.trans (h.own b hb).1)
    rw [Store.currentBlocks, h.blocks, List.filter_append, hnone, List.append_nil]
    rfl
  · have hnone : (ms.filter fun m => m.sourceObjectId = o'.id && m.validTo.isNone) = [] := by
      refine List.filter_eq_nil_iff.mpr fun m hm hmem => ?_
      simp only [Bool.and_eq_true, decide_eq_true_eq] at hmem
      exact hne (hmem.1.symm.trans (h.opened m hm).1)
    rw [Store.openRows, h.memberships, List.filter_append, hnone, List.append_nil]
    rfl

theorem new (h : Adds rt compiled s group t o bs ms) (hu : Upgrading rt compiled s groups) :
    Backfilled rt compiled t group o where
  drawn := by
    rw [h.id_eq]
    exact drawn_uid h.drawn
  made := by
    obtain ⟨latest, hlatest, heq⟩ := h.made
    refine ⟨latest, hlatest, ?_⟩
    rw [h.id_eq]
    exact heq
  blocks current hc := by
    have hold : (s.blocks.filter fun b => b.sourceObjectId = o.id && o.currentRecordId =
        some b.recordId) = [] := by
      refine List.filter_eq_nil_iff.mpr fun b hb hmem => ?_
      simp only [Bool.and_eq_true, decide_eq_true_eq] at hmem
      exact (hu.blocks b hb).ne_uid (hmem.1.trans h.id_eq)
    have hall : (bs.filter fun b => b.sourceObjectId = o.id && o.currentRecordId = some b.recordId) =
        bs := List.filter_eq_self.mpr fun b hb => by simp [h.own b hb]
    rw [h.keys current hc, Store.currentBlocks, h.blocks, List.filter_append, hold, hall, List.nil_append]
  opened := by
    have hold : (s.memberships.filter fun m => m.sourceObjectId = o.id && m.validTo.isNone) = [] := by
      refine List.filter_eq_nil_iff.mpr fun m hm hmem => ?_
      simp only [Bool.and_eq_true, decide_eq_true_eq] at hmem
      exact (hu.memberships m hm).ne_uid (hmem.1.trans h.id_eq)
    have hall : (ms.filter fun m => m.sourceObjectId = o.id && m.validTo.isNone) = ms :=
      List.filter_eq_self.mpr fun m hm => by simp [h.opened m hm]
    rw [Store.openRows, h.memberships, List.filter_append, hold, hall, List.nil_append, h.entities]

theorem upgrading (h : Adds rt compiled s group t o bs ms) (hu : Upgrading rt compiled s groups) :
    Upgrading rt compiled t (groups ++ [group]) where
  objects := by
    rw [h.objects]
    refine List.rel_append (hu.objects.imp fun group' o' hb => ?_) (.cons (h.new hu) .nil)
    have hne : o'.id ≠ o.id := by
      rw [h.id_eq]
      exact hb.drawn.ne_uid
    obtain ⟨hblocks, hrows⟩ := h.others hne
    exact ⟨hb.drawn.mono h.drawn.le, hb.made, hblocks ▸ hb.blocks, hrows ▸ hb.opened⟩
  blocks b hb := by
    rw [h.blocks] at hb
    rcases List.mem_append.mp hb with hb | hb
    · exact (hu.blocks b hb).mono h.drawn.le
    · rw [(h.own b hb).1, h.id_eq]
      exact drawn_uid h.drawn
  memberships m hm := by
    rw [h.memberships] at hm
    rcases List.mem_append.mp hm with hm | hm
    · exact (hu.memberships m hm).mono h.drawn.le
    · rw [(h.opened m hm).1, h.id_eq]
      exact drawn_uid h.drawn

end Adds

theorem Store.grouped_mem {group : SourceKey × List SourceRecord} (h : group ∈ s.grouped) :
    group.2 = s.history group.1 ∧ ∃ r ∈ s.records, r.sourceKey = group.1 := by
  obtain ⟨key, hkey, rfl⟩ := List.mem_map.mp h
  obtain ⟨r, hr, hkey⟩ := List.mem_map.mp (List.mem_dedup.mp hkey)
  exact ⟨rfl, r, Store.mem_observations.mp hr, hkey⟩

theorem Store.mem_grouped (h : r ∈ s.records) : (r.sourceKey, s.history r.sourceKey) ∈ s.grouped :=
  List.mem_map_of_mem (List.mem_dedup.mpr (List.mem_map_of_mem (Store.mem_observations.mpr h)))

/-- The upgrade makes one object for each source key. -/
theorem Migration.upgraded (h : AlphaSchema s) (hm : createStableIdentityTables rt s = .ok t) :
    ∃ compiled, policies rt s.domains = .ok compiled ∧
      List.Forall₂ (Backfilled rt compiled t) s.grouped t.objects := by
  unfold createStableIdentityTables at hm
  simp only [Except.bind_eq_ok] at hm
  obtain ⟨compiled, hcompiled, hm⟩ := hm
  refine ⟨compiled, hcompiled, ?_⟩
  have hstart : Upgrading rt compiled s [] := by
    refine ⟨?_, ?_, ?_⟩
    · rw [h.objects]
      exact .nil
    · simp [h.blocks]
    · simp [h.memberships]
  have hdone := Except.foldlM_extends (P := fun groups u => Upgrading rt compiled u groups) hm
      hstart fun groups u group v hgroup hu hv => by
    rw [h.objects, List.map_nil, List.contains_nil, if_neg Bool.false_ne_true] at hv
    obtain ⟨hhistory, r, hr, hkey⟩ := Store.grouped_mem hgroup
    have hne : group.2 ≠ [] := by
      rw [hhistory]
      exact List.ne_nil_of_mem (Store.mem_history.mpr ⟨hr, hkey⟩)
    obtain ⟨o, bs, ms, hadds⟩ := backfill_adds hne hv
    exact hadds.upgrading hu
  exact hdone.objects

theorem Backfilled.sourceKey {group : SourceKey × List SourceRecord}
    (h : Backfilled rt compiled t group o) : o.sourceKey = group.1 := by
  obtain ⟨latest, -, heq⟩ := h.made
  rw [heq]
  rfl

theorem Migration.upgraded_key (h : AlphaSchema s) (hm : createStableIdentityTables rt s = .ok t)
    (hr : r ∈ s.records) : ∃ compiled o, policies rt s.domains = .ok compiled ∧ o ∈ t.objects ∧
      Backfilled rt compiled t (r.sourceKey, s.history r.sourceKey) o ∧
      ∀ o' ∈ t.objects, o'.sourceKey = r.sourceKey → o' = o := by
  obtain ⟨compiled, hcompiled, hall⟩ := upgraded h hm
  obtain ⟨o, ho, hb⟩ := (Except.forall₂_mem hall).2 _ (Store.mem_grouped hr)
  refine ⟨compiled, o, hcompiled, ho, hb, fun o' ho' hkey => ?_⟩
  have hkeys : s.grouped.map Prod.fst = t.objects.map SourceObject.sourceKey := by
    have hsame : List.Forall₂ Eq (s.grouped.map Prod.fst) (t.objects.map SourceObject.sourceKey) := by
      rw [List.forall₂_map_left_iff, List.forall₂_map_right_iff]
      exact hall.imp fun _ _ hb => hb.sourceKey.symm
    rwa [List.forall₂_eq_eq_eq] at hsame
  have hkeyed : Table.Keyed SourceObject.sourceKey t.objects := by
    rw [Table.Keyed, ← hkeys, Store.keys_grouped]
    exact List.nodup_dedup _
  exact hkeyed.eq_of_mem ho' ho (hkey.trans hb.sourceKey.symm)

/-- The newest tombstone of a history is not followed by a valid observation. -/
def Tombstoned (history : List SourceRecord) : Prop :=
  ∃ before r after, history = before ++ r :: after ∧ r.state = .deleted ∧
    ∀ r' ∈ after, r'.state ≠ .valid

/-- What the last word on a source key is: valid observations and tombstones have a say. -/
theorem tombstoned_iff : Tombstoned history ↔
    ∃ r ∈ (history.filter fun r => r.state = .valid || r.state = .deleted).getLast?,
      r.state = .deleted := by
  constructor
  · rintro ⟨before, r, after, rfl, hdeleted, hafter⟩
    rw [List.filter_append, List.filter_cons_of_pos (by simp [hdeleted])]
    obtain ⟨last, hlast⟩ := Option.isSome_iff_exists.mp (List.getLast?_isSome.mpr
      (List.cons_ne_nil r (after.filter fun r => r.state = .valid || r.state = .deleted)))
    refine ⟨last, by rw [List.getLast?_append, hlast]; rfl, ?_⟩
    rcases List.mem_cons.mp (List.mem_of_getLast? hlast) with rfl | hmem
    · exact hdeleted
    · obtain ⟨hmem, hstate⟩ := List.mem_filter.mp hmem
      simpa [hafter last hmem] using hstate
  · rintro ⟨r, hr, hdeleted⟩
    obtain ⟨others, hothers⟩ := List.getLast?_eq_some_iff.mp hr
    obtain ⟨before, rest, rfl, -, hrest⟩ := List.filter_eq_append_iff.mp hothers
    obtain ⟨between, after, rfl, -, -, hafter⟩ := List.filter_eq_cons_iff.mp hrest
    refine ⟨before ++ between, r, after, (List.append_assoc ..).symm, hdeleted, fun r' hr' hvalid => ?_⟩
    have hno := List.filter_eq_nil_iff.mp hafter r' hr'
    simp [hvalid] at hno

instance : Decidable (Tombstoned history) := decidable_of_iff _ tombstoned_iff.symm

/-- A tombstoned key is retired and has no current contribution; another one contributes its newest
valid observation. -/
def KeepsDeletion (t : Store) (key : SourceKey) (history : List SourceRecord) : Prop :=
  ∃ o ∈ t.objects, o.sourceKey = key ∧
    (Tombstoned history → o.retired ∧ o.currentRecordId = none) ∧
    (¬ Tombstoned history → ∀ r ∈ newestValid history, o.currentRecordId = some r.id)

/-- A tombstone without a later valid observation has none before it either, and nothing after it. -/
def DeletedForGood (history : List SourceRecord) : Prop :=
  Tombstoned history → (∀ r ∈ history, r.state ≠ .valid) ∧ ∃ r ∈ history.getLast?, r.state = .deleted

instance : Decidable (KeepsDeletion t key history) :=
  inferInstanceAs (Decidable (∃ o ∈ t.objects, o.sourceKey = key ∧
    (Tombstoned history → o.retired ∧ o.currentRecordId = none) ∧
    (¬ Tombstoned history → ∀ r ∈ newestValid history, o.currentRecordId = some r.id)))

instance : Decidable (DeletedForGood history) :=
  inferInstanceAs (Decidable (Tombstoned history → (∀ r ∈ history, r.state ≠ .valid) ∧
    ∃ r ∈ history.getLast?, r.state = .deleted))

theorem Backfilled.current {group : SourceKey × List SourceRecord}
    (h : Backfilled rt compiled t group o) :
    o.currentRecordId = (newestValid group.2).map SourceRecord.id ∧
      (o.retired ↔ newestValid group.2 = none ∧ ∃ r ∈ group.2.getLast?, r.state = .deleted) := by
  obtain ⟨latest, hlatest, heq⟩ := h.made
  rw [heq]
  refine ⟨rfl, ?_⟩
  simp [Migration.object, Option.mem_def.mp hlatest]

/-- The upgrade keeps the deletion of a key if and only if, unless a valid observation follows the
newest tombstone, nothing in the history is valid and the newest observation is a tombstone. -/
theorem keepsDeletion_iff (h : AlphaSchema s)
    (hm : Migration.createStableIdentityTables rt s = .ok t) (hr : r ∈ s.records) :
    KeepsDeletion t r.sourceKey (s.history r.sourceKey) ↔ DeletedForGood (s.history r.sourceKey) := by
  obtain ⟨compiled, o, -, ho, hb, honly⟩ := Migration.upgraded_key h hm hr
  obtain ⟨hcurrent, hretired⟩ := hb.current
  constructor
  · rintro ⟨o', ho', hkey, hgone, -⟩ htomb
    obtain rfl := honly o' ho' hkey
    obtain ⟨hnone, hlatest⟩ := hretired.mp (hgone htomb).1
    exact ⟨newestValid_eq_none.mp hnone, hlatest⟩
  · intro hgood
    refine ⟨o, ho, hb.sourceKey, fun htomb => ?_, fun _ r hr => ?_⟩
    · obtain ⟨hvalid, hlatest⟩ := hgood htomb
      have hnone := newestValid_eq_none.mpr hvalid
      exact ⟨hretired.mpr ⟨hnone, hlatest⟩, by rw [hcurrent, hnone]; rfl⟩
    · rw [hcurrent, Option.mem_def.mp hr]
      rfl

namespace Supplier

/-- An observation of the schema before source objects. -/
def alpha (id : Id) (state : RecordState) (observedAt : DateTime) : SourceRecord where
  id := id
  workspaceId := "w1"
  sourceId := "erp"
  domainKey := "supplier"
  localId := "42"
  sourceVersion := id
  original := [("name", .str "A")]
  normalized := [("name", .str "a")]
  blockingKey := "a"
  verification := []
  state := state
  qualityErrors := []
  observedAt := observedAt
  effectiveFrom := none
  entityId := some "e1"

def alphaStore (records : List SourceRecord) : Store := { Store.empty ⟨"w1", "acme"⟩ with records := records }

theorem alphaStore_schema {records : List SourceRecord} (h : (records.map SourceRecord.id).Nodup) :
    AlphaSchema (alphaStore records) := ⟨h, rfl, rfl, rfl, rfl, rfl⟩

/-- An observation, its deletion and its return. -/
def returned : List SourceRecord := [alpha "r1" .valid 1, alpha "r2" .deleted 2, alpha "r3" .valid 3]

/-- Upgrades a store, and asks something of the result. -/
def upgradeCheck (s : Store) (check : Store → Bool) : Bool :=
  match Migration.createStableIdentityTables .plain s with
  | .ok t => check t
  | .error _ => false

theorem upgradeCheck_ok (s : Store) (check : Store → Bool) (h : upgradeCheck s check = true) :
    ∃ t, Migration.createStableIdentityTables .plain s = .ok t ∧ check t = true := by
  unfold upgradeCheck at h
  split at h
  · next t ht => exact ⟨t, ht, h⟩
  · cases h

theorem keepsDeletion_returned : ∃ t, Migration.createStableIdentityTables .plain (alphaStore returned) =
    .ok t ∧ KeepsDeletion t ("w1", "erp", "supplier", "42")
      ((alphaStore returned).history ("w1", "erp", "supplier", "42")) := by
  obtain ⟨t, ht, -⟩ := upgradeCheck_ok (alphaStore returned) (fun _ => true) (by decide +kernel)
  exact ⟨t, ht, (keepsDeletion_iff (alphaStore_schema (by decide)) ht
    (r := alpha "r1" .valid 1) List.mem_cons_self).mpr (by decide +kernel)⟩

/-- The newest observation is the tombstone, and the object contributes what was deleted. -/
theorem upgrade_resurrects : AlphaSchema (alphaStore (returned.take 2)) ∧
    ∃ t, Migration.createStableIdentityTables .plain (alphaStore (returned.take 2)) = .ok t ∧
      ¬ KeepsDeletion t ("w1", "erp", "supplier", "42")
        ((alphaStore (returned.take 2)).history ("w1", "erp", "supplier", "42")) := by
  refine ⟨alphaStore_schema (by decide), ?_⟩
  obtain ⟨t, ht, hcheck⟩ := upgradeCheck_ok (alphaStore (returned.take 2))
    (fun t => decide (¬ KeepsDeletion t ("w1", "erp", "supplier", "42")
      ((alphaStore (returned.take 2)).history ("w1", "erp", "supplier", "42")))) (by decide +kernel)
  exact ⟨t, ht, of_decide_eq_true hcheck⟩

end Supplier

end Recordlane
