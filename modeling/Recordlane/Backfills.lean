import Mathlib
import Recordlane.Migration

/-! The two ways a source object comes out of older records: by the upgrade, and when it is first
asked for. -/
namespace Recordlane

variable {self : MasteringService} {s t : Store} {source : Source} {domainKey localId : String}
  {r latest : SourceRecord} {o o' : SourceObject} {key : SourceKey}

/-- When an observation was made; ids decide between equal times. -/
def SourceRecord.instant (r : SourceRecord) : DateTime ×ₗ Id := toLex (r.observedAt, r.id)

theorem instant_le_of_rank_le {r' : SourceRecord} (hkey : r.sourceKey = r'.sourceKey)
    (h : r.rank ≤ r'.rank) : r.instant ≤ r'.instant := by
  simp only [SourceRecord.sourceKey, Prod.mk.injEq] at hkey
  obtain ⟨hworkspace, hsource, hdomain, hlocal⟩ := hkey
  simpa [SourceRecord.rank, SourceRecord.instant, Prod.Lex.toLex_le_toLex, hworkspace, hsource, hdomain,
    hlocal] using h

theorem eq_of_instant_eq (hk : Table.Keyed SourceRecord.id s.records) (hr : r ∈ s.records)
    (hl : latest ∈ s.records) (h : r.instant = latest.instant) : r = latest :=
  hk.eq_of_mem hr hl (congrArg Prod.snd (toLex_inj.mp h))

theorem Store.history_le (hl : latest ∈ (s.history key).getLast?) (hr : r ∈ s.history key) :
    r.instant ≤ latest.instant := by
  have hsorted : s.observations.Pairwise fun r r' => r.rank ≤ r'.rank :=
    List.pairwise_insertionSort _ _
  have hpair : (s.history key).Pairwise fun r r' => r.rank ≤ r'.rank := hsorted.filter _
  have hlast := hpair.rel_getLast_of_rel_getLast_getLast hr le_rfl
  rw [List.getLast?_eq_some_getLast (List.ne_nil_of_mem hr)] at hl
  cases hl
  refine instant_le_of_rank_le ?_ hlast
  rw [(Store.mem_history.mp hr).2, (Store.mem_history.mp (List.getLast_mem _)).2]

namespace MasteringService

theorem hasRecordKey_sourceKey : self.hasRecordKey source domainKey localId r ↔
    r.sourceKey = (self.wid, source.id, domainKey, localId) := by
  simp [hasRecordKey, SourceRecord.sourceKey, and_assoc]

theorem legacyRecord_eq_argmax : self.legacyRecord s source domainKey localId =
    (s.records.filter (self.hasRecordKey source domainKey localId)).argmax SourceRecord.instant := by
  unfold legacyRecord List.argmax
  congr 1
  funext best r
  cases best with
  | none => rfl
  | some b => simp [List.argAux, SourceRecord.instant, Prod.Lex.toLex_lt_toLex]

theorem legacyRecord_eq (hk : Table.Keyed SourceRecord.id s.records) :
    self.legacyRecord s source domainKey localId =
      (s.history (self.wid, source.id, domainKey, localId)).getLast? := by
  have hmem : ∀ r, r ∈ s.records.filter (self.hasRecordKey source domainKey localId) ↔
      r ∈ s.history (self.wid, source.id, domainKey, localId) := by
    intro r
    rw [List.mem_filter, hasRecordKey_sourceKey, Store.mem_history]
  rw [legacyRecord_eq_argmax]
  cases hlast : (s.history (self.wid, source.id, domainKey, localId)).getLast? with
  | none =>
    rw [List.getLast?_eq_none_iff] at hlast
    rw [List.argmax_eq_none]
    refine List.eq_nil_iff_forall_not_mem.mpr fun r hr => ?_
    rw [hmem, hlast] at hr
    cases hr
  | some latest =>
    have hlatest := List.mem_of_getLast? hlast
    cases hmax : (s.records.filter (self.hasRecordKey source domainKey localId)).argmax
        SourceRecord.instant with
    | none =>
      rw [List.argmax_eq_none] at hmax
      rw [← hmem, hmax] at hlatest
      cases hlatest
    | some r =>
      have hr := List.argmax_mem hmax
      have hle := Store.history_le hlast ((hmem r).mp hr)
      have hge := List.le_of_mem_argmax ((hmem latest).mpr hlatest) hmax
      exact congrArg some (eq_of_instant_eq hk (List.mem_filter.mp hr).1
        (Store.mem_history.mp hlatest).1 (le_antisymm hle hge))

end MasteringService

/-- Two objects in their stores are the same, up to their ids, to reasons and to authors. -/
structure SameProjection (t : Store) (o : SourceObject) (u : Store) (o' : SourceObject) : Prop where
  key : o'.sourceKey = o.sourceKey
  entity : o'.entityId = o.entityId
  current : o'.currentRecordId = o.currentRecordId
  latest : o'.latestRecordId = o.latestRecordId
  retired : o'.retired = o.retired
  effective : o'.currentEffectiveFrom = o.currentEffectiveFrom
  blocks : ∀ blockKey, blockKey ∈ u.currentBlocks o' ↔ blockKey ∈ t.currentBlocks o
  opened : ∀ x, x ∈ (u.openRows o'.id).map MembershipHistory.entityId ↔
    x ∈ (t.openRows o.id).map MembershipHistory.entityId

/-- The object that the upgrade made of a key is the one that is made when it is first asked for. -/
def BackfillsAgree (self : MasteringService) (s t : Store) (source : Source)
    (domainKey localId : String) : Prop :=
  let made := self.getOrCreateSourceObject s source domainKey localId
  ∃ o ∈ t.objects, o.sourceKey = (self.wid, source.id, domainKey, localId) ∧
    SameProjection t o made.1 made.2

/-- The newest observation says all there is to say: it is valid, in effect from the start and in no
block, or nothing is valid and it belongs to no entity. -/
def NewestSuffices (rt : Runtime) (domains : List Domain) (history : List SourceRecord) : Prop :=
  ∃ latest ∈ history.getLast?,
    (latest.state = .valid ∧ latest.effectiveFrom = none ∧
      ∀ compiled, Migration.policies rt domains = .ok compiled →
        Migration.blockKeys rt compiled latest = .ok []) ∨
    ((∀ r ∈ history, r.state ≠ .valid) ∧ latest.entityId = none)

/-- The object made when a key is first asked for. -/
structure MadeFrom (newest : SourceRecord) (sourceKey : SourceKey) (u : Store) (o : SourceObject) :
    Prop where
  key : o.sourceKey = sourceKey
  entity : o.entityId = newest.entityId
  current : o.currentRecordId = if newest.state = .valid then some newest.id else none
  latest : o.latestRecordId = some newest.id
  retired : o.retired = decide (newest.state = .deleted)
  effective : o.currentEffectiveFrom = none
  blocks : u.currentBlocks o = []
  opened : (u.openRows o.id).map MembershipHistory.entityId = newest.entityId.toList

theorem MasteringService.getOrCreateSourceObject_new (h : AlphaSchema s)
    (hlatest : latest ∈ (s.history (self.wid, source.id, domainKey, localId)).getLast?) :
    MadeFrom latest (self.wid, source.id, domainKey, localId)
      (self.getOrCreateSourceObject s source domainKey localId).1
      (self.getOrCreateSourceObject s source domainKey localId).2 := by
  have hlegacy : self.legacyRecord s source domainKey localId = some latest := by
    rw [legacyRecord_eq h.recordIds]
    exact hlatest
  unfold getOrCreateSourceObject
  rw [h.objects, hlegacy]
  simp only [List.find?_nil, Option.bind_some, Option.map_some]
  cases hentity : latest.entityId with
  | none =>
    refine ⟨rfl, hentity.symm, rfl, rfl, rfl, rfl, ?_, ?_⟩
    · simp [Store.currentBlocks, Store.insertObject, h.blocks]
    · simp [Store.openRows, Store.insertObject, h.memberships, hentity]
  | some x =>
    refine ⟨rfl, hentity.symm, rfl, rfl, rfl, rfl, ?_, ?_⟩
    · simp [Store.currentBlocks, Store.insertMembership, Store.insertObject, h.blocks]
    · simp [Store.openRows, Store.insertMembership, Store.insertObject, h.memberships, hentity]

theorem newestValid_of_valid {history : List SourceRecord} (hl : latest ∈ history.getLast?)
    (hv : latest.state = .valid) : newestValid history = some latest := by
  obtain ⟨older, rfl⟩ := List.getLast?_eq_some_iff.mp hl
  simp [newestValid, hv]

/-- The two ways agree if and only if the newest observation of the key suffices. -/
theorem backfillsAgree_iff (h : AlphaSchema s)
    (hm : Migration.createStableIdentityTables self.rt s = .ok t) (hr : r ∈ s.records)
    (hkey : r.sourceKey = (self.wid, source.id, domainKey, localId)) :
    BackfillsAgree self s t source domainKey localId ↔
      NewestSuffices self.rt s.domains (s.history (self.wid, source.id, domainKey, localId)) := by
  obtain ⟨compiled, o, hcompiled, ho, hb, honly⟩ := Migration.upgraded_key h hm hr
  rw [hkey] at hb honly
  obtain ⟨latest, hlatest, heq⟩ := hb.made
  have hmade := MasteringService.getOrCreateSourceObject_new h hlatest
  have hkeys := hb.blocks
  have hopened := hb.opened
  dsimp only at hlatest heq hkeys hopened
  unfold BackfillsAgree NewestSuffices
  generalize (self.getOrCreateSourceObject s source domainKey localId) = made at hmade
  obtain ⟨u, o'⟩ := made
  generalize s.history (self.wid, source.id, domainKey, localId) = history at hlatest heq hkeys hopened
  have hcurrent : o.currentRecordId = (newestValid history).map SourceRecord.id := by
    rw [heq]
    rfl
  constructor
  · rintro ⟨o'', ho'', hkey'', hsame⟩
    obtain rfl := honly o'' ho'' hkey''
    refine ⟨latest, hlatest, ?_⟩
    by_cases hv : latest.state = .valid
    · -- the newest observation is the current one in both stores
      have hnewest := newestValid_of_valid hlatest hv
      refine .inl ⟨hv, ?_, fun compiled' hcompiled' => ?_⟩
      · have heffective : o''.currentEffectiveFrom = latest.effectiveFrom := by
          rw [heq, hnewest]
          rfl
        rw [← heffective, ← hsame.effective, hmade.effective]
      · have hnone : t.currentBlocks o'' = [] := by
          refine List.eq_nil_iff_forall_not_mem.mpr fun blockKey hmem => ?_
          rw [← hsame.blocks, hmade.blocks] at hmem
          cases hmem
        obtain rfl : compiled' = compiled := Except.ok.inj (hcompiled'.symm.trans hcompiled)
        rw [hkeys latest hnewest, hnone]
    · -- the object that was asked for has no current record, so the migrated one has none
      have hnewest : newestValid history = none := by
        have hnone := hsame.current
        rw [hmade.current, if_neg hv, hcurrent] at hnone
        exact Option.map_eq_none_iff.mp hnone.symm
      refine .inr ⟨newestValid_eq_none.mp hnewest, ?_⟩
      cases hentity : latest.entityId with
      | none => rfl
      | some x =>
        have hmem := (hsame.opened x).mp (by simp [hmade.opened, hentity])
        rw [hopened, hnewest] at hmem
        cases hmem
  · rintro ⟨latest', hlatest', hc⟩
    obtain rfl : latest' = latest := Option.some.inj (hlatest'.symm.trans hlatest)
    refine ⟨o, ho, hb.sourceKey, ?_⟩
    have hblocks : t.currentBlocks o = [] := by
      rcases hc with ⟨hv, -, hno⟩ | ⟨hno, -⟩
      · have hnone := hno compiled hcompiled
        rw [hkeys latest' (newestValid_of_valid hlatest hv)] at hnone
        exact Except.ok.inj hnone
      · rw [Store.currentBlocks, hcurrent, newestValid_eq_none.mpr hno]
        simp
    have hrows : (t.openRows o.id).map MembershipHistory.entityId = latest'.entityId.toList := by
      rw [hopened]
      rcases hc with ⟨hv, -⟩ | ⟨hno, hentity⟩
      · rw [newestValid_of_valid hlatest hv, Option.bind_some]
      · rw [newestValid_eq_none.mpr hno, hentity, Option.bind_none]
    refine ⟨hmade.key.trans hb.sourceKey.symm, ?_, ?_, ?_, ?_, ?_, fun _ => ?_, fun _ => ?_⟩
    · rw [hmade.entity, heq]
      rcases hc with ⟨hv, -⟩ | ⟨hno, -⟩
      · rw [newestValid_of_valid hlatest hv]
        rfl
      · rw [newestValid_eq_none.mpr hno]
        rfl
    · rw [hmade.current, hcurrent]
      rcases hc with ⟨hv, -⟩ | ⟨hno, -⟩
      · rw [newestValid_of_valid hlatest hv, if_pos hv]
        rfl
      · rw [newestValid_eq_none.mpr hno, if_neg (hno latest' (List.mem_of_getLast? hlatest))]
        rfl
    · rw [hmade.latest, heq]
      rfl
    · rw [hmade.retired, heq]
      rcases hc with ⟨hv, -⟩ | ⟨hno, -⟩
      · rw [newestValid_of_valid hlatest hv]
        simp [Migration.object, hv]
      · rw [newestValid_eq_none.mpr hno]
        simp [Migration.object]
    · rw [hmade.effective, heq]
      rcases hc with ⟨hv, hnone, -⟩ | ⟨hno, -⟩
      · rw [newestValid_of_valid hlatest hv]
        exact hnone.symm
      · rw [newestValid_eq_none.mpr hno]
        rfl
    · rw [hmade.blocks, hblocks]
    · rw [hmade.opened, hrows]

namespace Supplier

def keeper : MasteringService := ⟨.plain, steward "alice", ⟨"w1", "acme"⟩⟩

def erp : Source := ⟨"erp", "w1", "erp", "ERP", "csv", 100, none, none⟩

/-- The last observation of `renamed`: it has lost the field that the policy blocks on. -/
def unnamed : SourceRecord :=
  { alpha "r3" .valid 3 with original := [("city", .str "X")], normalized := [("city", .str "x")] }

/-- A valid, a quarantined and again a valid observation. -/
def renamed : Store := { alphaStore [alpha "r1" .valid 1, alpha "r2" .quarantine 2, unnamed] with
  domains := [⟨"d1", "w1", "supplier", "Supplier", "coexistence", 1, .obj definition⟩] }

theorem backfillsAgree_renamed : ∃ t, Migration.createStableIdentityTables .plain renamed = .ok t ∧
    BackfillsAgree keeper renamed t erp "supplier" "42" := by
  obtain ⟨t, ht, -⟩ := upgradeCheck_ok renamed (fun _ => true) (by decide +kernel)
  have hids : (renamed.records.map SourceRecord.id).Nodup := by decide
  have hblocks : (Migration.policies .plain renamed.domains).toOption.all (fun compiled =>
      (Migration.blockKeys .plain compiled unnamed).toOption = some []) = true := by decide +kernel
  have hlatest : (renamed.history (keeper.wid, erp.id, "supplier", "42")).getLast? = some unnamed := rfl
  have hiff : BackfillsAgree keeper renamed t erp "supplier" "42" ↔ _ :=
    backfillsAgree_iff ⟨hids, rfl, rfl, rfl, rfl, rfl⟩ ht
      (show alpha "r1" .valid 1 ∈ renamed.records from List.mem_cons_self) rfl
  refine ⟨t, ht, hiff.mpr ⟨unnamed, hlatest, .inl ⟨rfl, rfl, fun compiled hcompiled => ?_⟩⟩⟩
  rw [show Migration.policies .plain renamed.domains = .ok compiled from hcompiled] at hblocks
  have hnone : (Migration.blockKeys .plain compiled unnamed).toOption = some [] := of_decide_eq_true hblocks
  show Migration.blockKeys .plain compiled unnamed = .ok []
  cases hkeys : Migration.blockKeys .plain compiled unnamed with
  | error e => simp [hkeys, Except.toOption] at hnone
  | ok keys => simpa [hkeys, Except.toOption] using hnone

/-- A quarantined observation after a valid one: the upgrade has a current record, the other way none. -/
theorem backfills_differ : AlphaSchema (alphaStore [alpha "r1" .valid 1, alpha "r2" .quarantine 2]) ∧
    ∃ t, Migration.createStableIdentityTables .plain
      (alphaStore [alpha "r1" .valid 1, alpha "r2" .quarantine 2]) = .ok t ∧
      ¬ BackfillsAgree keeper (alphaStore [alpha "r1" .valid 1, alpha "r2" .quarantine 2]) t erp
        "supplier" "42" := by
  refine ⟨alphaStore_schema (by decide), ?_⟩
  obtain ⟨t, ht, hcheck⟩ := upgradeCheck_ok (alphaStore [alpha "r1" .valid 1, alpha "r2" .quarantine 2])
    (fun t => decide (∀ o ∈ t.objects, o.currentRecordId = some "r1")) (by decide +kernel)
  have hlazy : (keeper.getOrCreateSourceObject (alphaStore [alpha "r1" .valid 1,
      alpha "r2" .quarantine 2]) erp "supplier" "42").2.currentRecordId = none := by decide +kernel
  refine ⟨t, ht, fun ⟨o, ho, _, hsame⟩ => ?_⟩
  have hcurrent := hlazy.symm.trans hsame.current
  rw [of_decide_eq_true hcheck o ho] at hcurrent
  cases hcurrent

end Supplier

end Recordlane
