import Mathlib.Data.List.Induction
import Recordlane.Migration

/-! The migration runner: releases upgrade a database, in any order and as often as they are started. -/
namespace Recordlane

/-- `Migration`: a revision of the schema. -/
structure Revision (δ : Type) where
  revision : String
  description : String
  apply : δ → Py δ

/-- A row of `schema_migrations`. -/
structure LedgerRow where
  revision : String
  checksum : String
  deriving DecidableEq

/-- A database: the tables of the application, if there are any, and the ledger of its revisions. -/
structure Installation (δ : Type) where
  tables : Option δ
  ledger : Option (List LedgerRow)

/-- What a release brings: its revisions, and the tables of its models. -/
structure Release (δ : Type) where
  migrations : List (Revision δ)
  createAll : δ

/-- What a transaction of the runner has written so far. -/
structure Upgrade (δ : Type) where
  tables : δ
  ledger : List LedgerRow
  appliedNow : List String

section

variable {δ : Type} (sha256 : String → String)

def Revision.checksum (m : Revision δ) : String := sha256 (m.revision ++ ":" ++ m.description)

/-- The checksum that a ledger has of a revision. -/
def recorded (ledger : List LedgerRow) (revision : String) : Option String :=
  (ledger.find? fun row => row.revision = revision).map LedgerRow.checksum

/-- `schema_is_current`. -/
def schemaIsCurrent (release : Release δ) (db : Installation δ) : Bool :=
  match db.ledger with
  | none => false
  | some applied => release.migrations.all fun m => recorded applied m.revision = some (m.checksum sha256)

/-- The revision is the primary key of the ledger. -/
def insertRow (ledger : List LedgerRow) (row : LedgerRow) : Py (List LedgerRow) :=
  if ledger.any fun r => r.revision = row.revision then .error (.integrity "schema_migrations")
  else .ok (ledger ++ [row])

/-- A round of `migrate`: a revision is skipped if the ledger had it at the start, under its checksum. -/
def applyRevision (applied : List LedgerRow) (u : Upgrade δ) (m : Revision δ) : Py (Upgrade δ) :=
  match (recorded applied m.revision).filter fun previous => previous ≠ "" with
  | some previous => if previous ≠ m.checksum sha256 then .error (.python "RuntimeError") else .ok u
  | none => do
    let tables ← m.apply u.tables
    let ledger ← insertRow u.ledger ⟨m.revision, m.checksum sha256⟩
    return ⟨tables, ledger, u.appliedNow ++ [m.revision]⟩

/-- What `migrate` starts its loop with: a database without a ledger is the documented baseline. -/
def beginUpgrade (release : Release δ) (db : Installation δ) : Py (Upgrade δ) :=
  let ledger := db.ledger.getD []
  let tables := db.tables.getD release.createAll
  if db.tables.isSome && ledger.isEmpty then
    match release.migrations with
    | [] => .error (.python "IndexError")
    | baseline :: _ =>
      .ok ⟨tables, [⟨baseline.revision, baseline.checksum sha256⟩], [baseline.revision]⟩
  else .ok ⟨tables, ledger, []⟩

/-- `migrate`, with the revisions it has applied. -/
def migrate (release : Release δ) (db : Installation δ) : Py (Installation δ × List String) := do
  let start ← beginUpgrade sha256 release db
  let u ← release.migrations.foldlM (applyRevision sha256 start.ledger) start
  return (⟨some u.tables, some u.ledger⟩, u.appliedNow)

/-- A database with the revisions that were applied to it, one invocation after the other. -/
structure Rollout (δ : Type) where
  db : Installation δ
  applied : List String

/-- Releases are started one after the other. Each is one transaction: an invocation that raises changes
nothing. -/
def rollouts : System (Rollout δ) (Release δ) (Py (List String)) where
  step r release :=
    match migrate sha256 release r.db with
    | .ok (db, appliedNow) => (⟨db, r.applied ++ appliedNow⟩, .ok appliedNow)
    | .error e => (r, .error e)

/-- The rows of revisions. -/
def ledgerRows (ms : List (Revision δ)) : List LedgerRow := ms.map fun m => ⟨m.revision, m.checksum sha256⟩

/-- Revisions applied one after the other. -/
def applyAll (ms : List (Revision δ)) (d : δ) : Py δ := ms.foldlM (fun d m => m.apply d) d

end

variable {δ : Type} {sha256 : String → String} {ms history : List (Revision δ)} {applied : List LedgerRow}
  {u : Upgrade δ} {d : δ}

theorem applyRevision_recorded {m : Revision δ} (hsha : ∀ text, sha256 text ≠ "")
    (h : recorded applied m.revision = some (m.checksum sha256)) :
    applyRevision sha256 applied u m = .ok u := by
  have hfilter : (some (m.checksum sha256)).filter (fun previous => previous ≠ "") =
      some (m.checksum sha256) := by
    simp [Option.filter, Revision.checksum, hsha]
  rw [applyRevision, h, hfilter]
  simp

theorem loop_recorded (hsha : ∀ text, sha256 text ≠ "")
    (h : ∀ m ∈ ms, recorded applied m.revision = some (m.checksum sha256)) :
    ms.foldlM (applyRevision sha256 applied) u = .ok u := by
  induction ms with
  | nil => rfl
  | cons m ms ih =>
    rw [List.foldlM_cons, Except.bind_eq_ok]
    exact ⟨u, applyRevision_recorded hsha (h m List.mem_cons_self),
      ih fun m' hm' => h m' (List.mem_cons_of_mem _ hm')⟩

theorem loop_new (sha256 : String → String) (u : Upgrade δ)
    (h : ∀ m ∈ ms, recorded applied m.revision = none)
    (hnodup : ((u.ledger.map LedgerRow.revision) ++ ms.map Revision.revision).Nodup) :
    ms.foldlM (applyRevision sha256 applied) u = (applyAll ms u.tables).map fun d =>
      ⟨d, u.ledger ++ ledgerRows sha256 ms, u.appliedNow ++ ms.map Revision.revision⟩ := by
  induction ms generalizing u with
  | nil => simp [applyAll, ledgerRows, Except.map, pure, Except.pure]
  | cons m ms ih =>
    have hm : applyRevision sha256 applied u m = (m.apply u.tables).map fun d =>
        ⟨d, u.ledger ++ [⟨m.revision, m.checksum sha256⟩], u.appliedNow ++ [m.revision]⟩ := by
      have hfree : (u.ledger.any fun r => r.revision = m.revision) = false := by
        rw [List.any_eq_false]
        intro r hr heq
        rw [decide_eq_true_eq] at heq
        refine (List.nodup_append.mp hnodup).2.2 r.revision (List.mem_map_of_mem hr) m.revision ?_ heq
        exact List.mem_cons_self
      rw [applyRevision, h m List.mem_cons_self]
      cases happly : m.apply u.tables with
      | error e => simp [Except.map, bind, Except.bind]
      | ok d => simp [Except.map, bind, Except.bind, insertRow, hfree, pure, Except.pure]
    rw [List.foldlM_cons, hm, applyAll, List.foldlM_cons]
    cases happly : m.apply u.tables with
    | error e => rfl
    | ok d =>
      have hrest : (((u.ledger ++ [(⟨m.revision, m.checksum sha256⟩ : LedgerRow)]).map LedgerRow.revision) ++
          ms.map Revision.revision).Nodup := by simpa using hnodup
      have hih := ih (u := ⟨d, u.ledger ++ [⟨m.revision, m.checksum sha256⟩], u.appliedNow ++ [m.revision]⟩)
        (fun m' hm' => h m' (List.mem_cons_of_mem _ hm')) hrest
      simp only [Except.map, bind, Except.bind]
      rw [hih]
      simp [applyAll, ledgerRows, Except.map]

theorem ledgerRows_revision (sha256 : String → String) (ms : List (Revision δ)) :
    (ledgerRows sha256 ms).map LedgerRow.revision = ms.map Revision.revision := by
  simp [ledgerRows]

theorem recorded_rows (hnodup : (ms.map Revision.revision).Nodup) {m : Revision δ} (hm : m ∈ ms) :
    recorded (ledgerRows sha256 ms) m.revision = some (m.checksum sha256) := by
  have hrow : (⟨m.revision, m.checksum sha256⟩ : LedgerRow) ∈ ledgerRows sha256 ms := List.mem_map_of_mem hm
  have hkeys : Table.Keyed LedgerRow.revision (ledgerRows sha256 ms) := by
    rwa [Table.Keyed, ledgerRows_revision]
  rw [recorded]
  exact congrArg (Option.map LedgerRow.checksum) (hkeys.find_of_mem hrow)

theorem recorded_eq_none {revision : String} (h : revision ∉ ms.map Revision.revision) :
    recorded (ledgerRows sha256 ms) revision = none := by
  rw [recorded, Option.map_eq_none_iff, List.find?_eq_none]
  intro row hrow heq
  rw [decide_eq_true_eq] at heq
  rw [← ledgerRows_revision sha256, ← heq] at h
  exact h (List.mem_map_of_mem hrow)

/-- One history of revisions: it starts with the baseline, and no two revisions have one name. -/
structure Lineage (sha256 : String → String) (history : List (Revision δ)) : Prop where
  hashed : ∀ text, sha256 text ≠ ""
  revisions : (history.map Revision.revision).Nodup
  baseline : history ≠ []

/-- The database stands at a revision of the history: it has tables, and the ledger has the revisions up
to there. An alpha database stands at none. -/
structure Installation.Stands (sha256 : String → String) (history : List (Revision δ)) (k : Nat) (d : δ)
    (db : Installation δ) : Prop where
  tables : db.tables = some d
  ledger : db.ledger.getD [] = ledgerRows sha256 (history.take k)

/-- What it takes to get from one revision to another. -/
def between (history : List (Revision δ)) (k n : Nat) : List (Revision δ) := (history.take n).drop k

theorem take_append_between (history : List (Revision δ)) (k n : Nat) :
    history.take k ++ between history k n = history.take (max k n) := by
  rw [between]
  rcases Nat.le_total k n with hkn | hkn
  · rw [Nat.max_eq_right hkn]
    conv_rhs => rw [← List.take_append_drop k (history.take n), List.take_take, Nat.min_eq_left hkn]
  · rw [Nat.max_eq_left hkn, List.drop_eq_nil_of_le ((List.length_take_le n history).trans hkn),
      List.append_nil]

theorem between_append {k n m : Nat} (hkn : k ≤ n) (hnm : n ≤ m) :
    between history k n ++ between history n m = between history k m := by
  have hall := take_append_between history n m
  rw [Nat.max_eq_right hnm] at hall
  by_cases hlength : n ≤ history.length
  · have hk : k ≤ (history.take n).length := by simp [hkn, hkn.trans hlength]
    calc between history k n ++ between history n m
        = (history.take n ++ between history n m).drop k := (List.drop_append_of_le_length hk).symm
      _ = between history k m := by rw [hall, between]
  · have hwhole : ∀ i, n ≤ i → history.take i = history := fun i hi =>
      List.take_of_length_le ((not_le.mp hlength).le.trans hi)
    simp only [between, hwhole n le_rfl, hwhole m hnm]
    rw [List.drop_eq_nil_of_le (not_le.mp hlength).le, List.append_nil]

theorem between_of_le {k n : Nat} (h : n ≤ k) : between history k n = [] :=
  List.drop_eq_nil_of_le ((List.length_take_le n history).trans h)

theorem between_max {k n : Nat} : between history k (max k n) = between history k n := by
  rcases Nat.le_total k n with h | h
  · rw [Nat.max_eq_right h]
  · rw [Nat.max_eq_left h, between_of_le le_rfl, between_of_le h]

theorem loop_stands (hh : Lineage sha256 history) {k n : Nat} (now : List String) :
    (history.take n).foldlM (applyRevision sha256 (ledgerRows sha256 (history.take k)))
      ⟨d, ledgerRows sha256 (history.take k), now⟩ = (applyAll (between history k n) d).map fun d =>
        ⟨d, ledgerRows sha256 (history.take (max k n)),
          now ++ (between history k n).map Revision.revision⟩ := by
  have hnodup : ((history.take k).map Revision.revision ++
      (between history k n).map Revision.revision).Nodup := by
    rw [← List.map_append, take_append_between]
    exact hh.revisions.sublist ((List.take_sublist _ _).map _)
  have hold : ((history.take n).take k).foldlM (applyRevision sha256 (ledgerRows sha256 (history.take k)))
      ⟨d, ledgerRows sha256 (history.take k), now⟩ = .ok ⟨d, ledgerRows sha256 (history.take k), now⟩ := by
    refine loop_recorded hh.hashed fun m hm => recorded_rows (List.nodup_append.mp hnodup).1 ?_
    rw [List.take_take, Nat.min_comm, ← List.take_take] at hm
    exact List.take_subset _ _ hm
  have hfree : ∀ m ∈ between history k n,
      recorded (ledgerRows sha256 (history.take k)) m.revision = none := fun m hm =>
    recorded_eq_none fun hin => (List.nodup_append.mp hnodup).2.2 _ hin _ (List.mem_map_of_mem hm) rfl
  have hnew := loop_new sha256 ⟨d, ledgerRows sha256 (history.take k), now⟩ hfree
    (by rw [ledgerRows_revision]; exact hnodup)
  conv_lhs => rw [← List.take_append_drop k (history.take n)]
  rw [List.foldlM_append, hold]
  simp only [bind, Except.bind]
  rw [← between, hnew]
  simp only [← take_append_between, ledgerRows, List.map_append]

variable {createAll : δ} {db : Installation δ} {k n m : Nat} {r : Rollout δ}

/-- Where a release of so many revisions takes a database. -/
def reached (k n : Nat) : Nat := max (max 1 k) n

theorem migrate_stands (hh : Lineage sha256 history) (createAll : δ) (hdb : db.Stands sha256 history k d)
    (hn : 1 ≤ n) :
    migrate sha256 ⟨history.take n, createAll⟩ db = (applyAll (between history (max 1 k) n) d).map fun d =>
      (⟨some d, some (ledgerRows sha256 (history.take (reached k n)))⟩,
        (between history k (reached k n)).map Revision.revision) := by
  have hbegin : beginUpgrade sha256 ⟨history.take n, createAll⟩ db = .ok
      ⟨d, ledgerRows sha256 (history.take (max 1 k)), (between history k 1).map Revision.revision⟩ := by
    rw [beginUpgrade, hdb.tables, hdb.ledger]
    cases history with
    | nil => exact (hh.baseline rfl).elim
    | cons baseline rest =>
      cases n with
      | zero => exact absurd hn (by decide)
      | succ n =>
        cases k with
        | zero => simp [ledgerRows, between]
        | succ k =>
          have hone : max 1 (k + 1) = k + 1 := by omega
          rw [hone]
          simp [ledgerRows, between]
  have hloop := loop_stands (d := d) hh (k := max 1 k) (n := n)
    ((between history k 1).map Revision.revision)
  simp only [migrate, hbegin, bind, Except.bind]
  rw [hloop]
  cases applyAll (between history (max 1 k) n) d with
  | error e => rfl
  | ok d' =>
    have hnames : between history k 1 ++ between history (max 1 k) n = between history k (reached k n) := by
      rcases Nat.eq_zero_or_pos k with rfl | hk
      · rw [reached, Nat.max_eq_left (Nat.zero_le 1), Nat.max_eq_right hn]
        exact between_append (Nat.zero_le 1) hn
      · rw [reached, Nat.max_eq_right hk, between_of_le hk, between_max, List.nil_append]
    simp only [Except.map, pure, Except.pure, ← List.map_append, hnames, reached]

theorem step_stands (hh : Lineage sha256 history) {d' : δ} (createAll : δ) (log : List String)
    (hdb : db.Stands sha256 history k d) (hn : 1 ≤ n)
    (h : applyAll (between history (max 1 k) n) d = .ok d') :
    (rollouts sha256).step ⟨db, log⟩ ⟨history.take n, createAll⟩ =
      (⟨⟨some d', some (ledgerRows sha256 (history.take (reached k n)))⟩,
        log ++ (between history k (reached k n)).map Revision.revision⟩,
        .ok ((between history k (reached k n)).map Revision.revision)) := by
  have hmigrate := migrate_stands hh createAll hdb hn
  rw [h] at hmigrate
  simp only [rollouts, hmigrate, Except.map]

theorem step_raised (hh : Lineage sha256 history) {e : Raised} (createAll : δ) (log : List String)
    (hdb : db.Stands sha256 history k d) (hn : 1 ≤ n)
    (h : applyAll (between history (max 1 k) n) d = .error e) :
    (rollouts sha256).step ⟨db, log⟩ ⟨history.take n, createAll⟩ = (⟨db, log⟩, .error e) := by
  have hmigrate := migrate_stands hh createAll hdb hn
  rw [h] at hmigrate
  simp only [rollouts, hmigrate, Except.map]

variable {createAll : Nat → δ}

/-- A release after another one: an older one does nothing, and a newer one does what it would have done
on its own. -/
theorem next_stands (hh : Lineage sha256 history) (hdb : db.Stands sha256 history k d) (hn : 1 ≤ n)
    (hm : 1 ≤ m) (hok : ((rollouts sha256).step ⟨db, []⟩ ⟨history.take n, createAll n⟩).2.isOk = true) :
    let r := (rollouts sha256).next ⟨db, []⟩ ⟨history.take n, createAll n⟩
    let direct := (rollouts sha256).step ⟨db, []⟩ ⟨history.take m, createAll m⟩
    (m ≤ n → (rollouts sha256).next r ⟨history.take m, createAll m⟩ = r) ∧
      (n ≤ m → (rollouts sha256).next r ⟨history.take m, createAll m⟩ =
        if direct.2.isOk then direct.1 else r) := by
  intro r direct
  cases happly : applyAll (between history (max 1 k) n) d with
  | error e =>
    rw [step_raised hh _ _ hdb hn happly] at hok
    cases hok
  | ok d' =>
    have hr : r = ⟨⟨some d', some (ledgerRows sha256 (history.take (reached k n)))⟩,
        (between history k (reached k n)).map Revision.revision⟩ :=
      congrArg Prod.fst (step_stands hh _ _ hdb hn happly)
    have hlevel : max 1 (reached k n) = reached k n := by unfold reached; omega
    have hstands : r.db.Stands sha256 history (reached k n) d' := by
      rw [hr]
      exact ⟨rfl, rfl⟩
    have hstep d'' := @step_stands _ _ _ _ _ _ _ hh d'' (createAll m) r.applied hstands hm
    have hidle : m ≤ reached k n → (rollouts sha256).next r ⟨history.take m, createAll m⟩ = r := by
      intro hle
      have hsame : reached (reached k n) m = reached k n := by unfold reached at hle ⊢; omega
      have hdone : applyAll (between history (max 1 (reached k n)) m) d' = .ok d' := by
        rw [hlevel, between_of_le hle]
        rfl
      rw [System.next, hstep d' hdone, hsame, between_of_le le_rfl, List.map_nil, List.append_nil]
      rw [hr]
    refine ⟨fun hle => hidle (hle.trans (le_max_right _ _)), fun hle => ?_⟩
    rcases Nat.lt_or_ge (reached k n) m with hlt | hge
    · -- the newer release has something left to apply
      have hsame : reached (reached k n) m = m ∧ reached k m = m := by unfold reached at hlt ⊢; omega
      have hrest : applyAll (between history (max 1 k) m) d =
          applyAll (between history (reached k n) m) d' := by
        rw [← between_append (n := reached k n) (le_max_left _ _) hlt.le, reached, between_max, applyAll,
          List.foldlM_append, ← applyAll, happly]
        rfl
      cases hnewer : applyAll (between history (reached k n) m) d' with
      | error e =>
        have hdirect : direct = (⟨db, []⟩, .error e) :=
          step_raised hh _ _ hdb hm (hrest.trans hnewer)
        have hnext := step_raised hh (createAll m) r.applied hstands hm (hlevel.symm ▸ hnewer)
        rw [System.next, hnext, hdirect]
        rfl
      | ok d'' =>
        have hdirect : direct = _ := step_stands hh _ _ hdb hm (hrest.trans hnewer)
        rw [System.next, hstep d'' (hlevel.symm ▸ hnewer), hdirect, hsame.1, hsame.2]
        simp only [Except.isOk, Except.toBool, if_true, hr]
        rw [← List.map_append, between_append _ hlt.le, List.nil_append]
        exact (le_max_right _ _).trans (le_max_left _ _)
    · -- the database is newer than both
      rw [hidle hge]
      have hdirect : direct.1 = r := by
        rcases hle.eq_or_lt with rfl | hlt
        · rfl
        have hold : m ≤ max 1 k ∧ n ≤ max 1 k ∧ reached k m = reached k n := by
          unfold reached at hge ⊢
          omega
        have hsame : d' = d := by
          rw [between_of_le hold.2.1] at happly
          cases happly
          rfl
        have hdone : applyAll (between history (max 1 k) m) d = .ok d := by
          rw [between_of_le hold.1]
          rfl
        rw [hr, hsame, ← hold.2.2]
        exact congrArg Prod.fst (step_stands hh _ _ hdb hm hdone)
      rw [hdirect, ite_self]

theorem next_raised {release : Release δ} (h : ((rollouts sha256).step r release).2.isOk = false) :
    (rollouts sha256).next r release = r := by
  simp only [System.next, rollouts] at h ⊢
  cases hmigrate : migrate sha256 release r.db with
  | error e => rfl
  | ok p =>
    rw [hmigrate] at h
    cases h

theorem current_of_le (hh : Lineage sha256 history) (hdb : db.Stands sha256 history k d) (hn : 1 ≤ n)
    (hok : ((rollouts sha256).step ⟨db, []⟩ ⟨history.take n, createAll n⟩).2.isOk = true) (hle : m ≤ n) :
    schemaIsCurrent sha256 ⟨history.take m, createAll m⟩
      ((rollouts sha256).step ⟨db, []⟩ ⟨history.take n, createAll n⟩).1.db = true := by
  cases happly : applyAll (between history (max 1 k) n) d with
  | error e =>
    rw [step_raised hh _ _ hdb hn happly] at hok
    cases hok
  | ok d' =>
    rw [step_stands hh _ _ hdb hn happly, schemaIsCurrent, List.all_eq_true]
    intro revision hrevision
    have hmem : revision ∈ history.take (reached k n) := by
      have hmin : min m (reached k n) = m := min_eq_left (hle.trans (le_max_right _ _))
      rw [← hmin, ← List.take_take] at hrevision
      exact List.take_subset _ _ hrevision
    rw [decide_eq_true_eq]
    exact recorded_rows (hh.revisions.sublist ((List.take_sublist _ _).map _)) hmem

theorem applied_nodup (hh : Lineage sha256 history) (hdb : db.Stands sha256 history k d) (hn : 1 ≤ n)
    (hok : ((rollouts sha256).step ⟨db, []⟩ ⟨history.take n, createAll n⟩).2.isOk = true) :
    ((rollouts sha256).step ⟨db, []⟩ ⟨history.take n, createAll n⟩).1.applied.Nodup := by
  cases happly : applyAll (between history (max 1 k) n) d with
  | error e =>
    rw [step_raised hh _ _ hdb hn happly] at hok
    cases hok
  | ok d' =>
    rw [step_stands hh _ _ hdb hn happly, List.nil_append]
    exact hh.revisions.sublist (((List.drop_sublist _ _).trans (List.take_sublist _ _)).map _)

/-- The newest release that has gone through decides where the database is. -/
theorem run_stands (hh : Lineage sha256 history) (createAll : Nat → δ)
    (hdb : db.Stands sha256 history k d) {ns : List Nat} (hns : ∀ n ∈ ns, 1 ≤ n) :
    let release n : Release δ := ⟨history.take n, createAll n⟩
    let direct n := (rollouts sha256).step ⟨db, []⟩ (release n)
    let r := (rollouts sha256).run ⟨db, []⟩ (ns.map release)
    ((∀ n ∈ ns, (direct n).2.isOk = false) ∧ r = ⟨db, []⟩) ∨
      ∃ n ∈ ns, (direct n).2.isOk = true ∧ r = (direct n).1 ∧ ∀ m ∈ ns, (direct m).2.isOk = true → m ≤ n := by
  intro release direct r
  induction ns using List.reverseRecOn with
  | nil => exact .inl ⟨by simp, rfl⟩
  | append_singleton ms m ih =>
    have hm : 1 ≤ m := hns m (by simp)
    have hr : r = (rollouts sha256).next ((rollouts sha256).run ⟨db, []⟩ (ms.map release)) (release m) := by
      simp only [r, List.map_append, System.run_append]
      rfl
    rcases ih fun n hn => hns n (by simp [hn]) with ⟨hnone, hsame⟩ | ⟨n, hn, hok, hsame, hall⟩
    · -- nothing has gone through before
      rw [hsame] at hr
      cases hdirect : (direct m).2.isOk with
      | false =>
        refine .inl ⟨fun n hn => ?_, hr.trans (next_raised hdirect)⟩
        rcases List.mem_append.mp hn with hn | hn
        · exact hnone n hn
        · rw [List.mem_singleton.mp hn, hdirect]
      | true =>
        refine .inr ⟨m, by simp, hdirect, hr, fun n hn hok => ?_⟩
        rcases List.mem_append.mp hn with hn | hn
        · rw [hnone n hn] at hok
          cases hok
        · exact (List.mem_singleton.mp hn).le
    · obtain ⟨holder, hnewer⟩ := next_stands hh hdb (hns n (by simp [hn])) hm hok
      rw [hsame] at hr
      rcases Nat.le_total m n with hle | hle
      · refine .inr ⟨n, by simp [hn], hok, hr.trans (holder hle), fun i hi hoki => ?_⟩
        rcases List.mem_append.mp hi with hi | hi
        · exact hall i hi hoki
        · exact (List.mem_singleton.mp hi).le.trans hle
      · have hr' := hr.trans (hnewer hle)
        cases hdirect : (direct m).2.isOk with
        | false =>
          rw [if_neg (by rw [hdirect]; decide)] at hr'
          refine .inr ⟨n, by simp [hn], hok, hr', fun i hi hoki => ?_⟩
          rcases List.mem_append.mp hi with hi | hi
          · exact hall i hi hoki
          · rw [List.mem_singleton.mp hi, hdirect] at hoki
            cases hoki
        | true =>
          rw [if_pos hdirect] at hr'
          refine .inr ⟨m, by simp, hdirect, hr', fun i hi hoki => ?_⟩
          rcases List.mem_append.mp hi with hi | hi
          · exact (hall i hi hoki).trans hle
          · exact (List.mem_singleton.mp hi).le

/-- Releases cut from one history are started in any order, again, and after one another: no revision is
applied twice, and the database is the one that the newest of them that goes through makes of it on its
own. -/
theorem upgrades_converge (hh : Lineage sha256 history) (createAll : Nat → δ)
    (hdb : db.Stands sha256 history k d) {ns : List Nat} (hns : ∀ n ∈ ns, 1 ≤ n) :
    let release n : Release δ := ⟨history.take n, createAll n⟩
    let direct n := (rollouts sha256).step ⟨db, []⟩ (release n)
    let r := (rollouts sha256).run ⟨db, []⟩ (ns.map release)
    r.applied.Nodup ∧ (((∀ n ∈ ns, (direct n).2.isOk = false) ∧ r = ⟨db, []⟩) ∨
      ∃ n ∈ ns, (direct n).2.isOk = true ∧ r = (direct n).1 ∧
        ∀ m ∈ ns, (direct m).2.isOk = true → m ≤ n ∧ schemaIsCurrent sha256 (release m) r.db = true) := by
  intro release direct r
  rcases run_stands hh createAll hdb hns with ⟨hnone, hr⟩ | ⟨n, hn, hok, hr, hall⟩
  · refine ⟨?_, .inl ⟨hnone, hr⟩⟩
    rw [show r = _ from hr]
    exact List.nodup_nil
  · refine ⟨?_, .inr ⟨n, hn, hok, hr, fun m hm hokm => ⟨hall m hm hokm, ?_⟩⟩⟩
    · rw [show r = _ from hr]
      exact applied_nodup hh hdb (hns n hn) hok
    · exact congrArg Rollout.db hr ▸ current_of_le hh hdb (hns n hn) hok (hall m hm hokm)

/-- `MIGRATIONS`. All but the second one change no rows: they make tables, columns and policies. -/
def Migration.migrations (rt : Runtime) : List (Revision Store) := [
  ⟨"0001_alpha_baseline", "initial modular-monolith schema", .ok⟩,
  ⟨"0002_stable_source_identity", "stable source objects, immutable observation metadata, indexed " ++
    "candidate blocks, temporal membership, and durable cannot-link constraints",
    Migration.createStableIdentityTables rt⟩,
  ⟨"0003_browser_identity",
    "OIDC PKCE transactions, opaque browser sessions, and SCIM identity lifecycle", .ok⟩,
  ⟨"0004_workspace_rls", "forced PostgreSQL row-level security for every workspace-owned table", .ok⟩,
  ⟨"0005_source_configuration", "validated non-secret source connection configuration", .ok⟩,
  ⟨"0006_publication_tracking",
    "consumer-specific delivery attempts and verified publication receipts", .ok⟩,
  ⟨"0007_ingestion_runs",
    "durable extraction checkpoints, completeness evidence, and snapshot handoff metadata", .ok⟩,
  ⟨"0008_identity_groups", "SCIM group provisioning and durable user membership", .ok⟩,
  ⟨"0009_workspace_provisioning_rls",
    "administrator-scoped workspace provisioning under forced row-level security", .ok⟩,
  ⟨"0010_operational_security", "scoped service identities and encrypted or external secret references",
    .ok⟩]

namespace Supplier

/-- An alpha database: tables, and no ledger. -/
def alphaDatabase : Installation Store := ⟨some (alphaStore returned), none⟩

def cut (n : Nat) : Release Store := ⟨(Migration.migrations .plain).take n, Store.empty ⟨"w1", "acme"⟩⟩

/-- The whole history after its second revision, and a restart of an older release. -/
theorem upgrades_converge_restarted :
    let r := (rollouts fun text => "sha256:" ++ text).run ⟨alphaDatabase, []⟩ ([2, 10, 5].map cut)
    r.applied.Nodup ∧ r = ((rollouts fun text => "sha256:" ++ text).step ⟨alphaDatabase, []⟩ (cut 10)).1 := by
  intro r
  have hlineage : Lineage (fun text => "sha256:" ++ text) (Migration.migrations .plain) :=
    ⟨fun text h => by simpa using congrArg String.length h, by decide, List.cons_ne_nil _ _⟩
  have hstands : alphaDatabase.Stands (fun text => "sha256:" ++ text) (Migration.migrations .plain) 0
    (alphaStore returned) := ⟨rfl, rfl⟩
  obtain ⟨hnodup, h⟩ := upgrades_converge hlineage (fun _ => Store.empty ⟨"w1", "acme"⟩) hstands
    (show ∀ n ∈ [2, 10, 5], 1 ≤ n by decide)
  refine ⟨hnodup, ?_⟩
  have hten : ((rollouts fun text => "sha256:" ++ text).step ⟨alphaDatabase, []⟩ (cut 10)).2.isOk = true := by
    decide +kernel
  rcases h with ⟨hnone, -⟩ | ⟨n, hn, -, hr, hall⟩
  · exact Bool.noConfusion (hten.symm.trans (hnone 10 (by decide)))
  · have hle : 10 ≤ n := (hall 10 (by decide) hten).1
    obtain rfl : n = 10 := by
      simp only [List.mem_cons, List.not_mem_nil, or_false] at hn
      omega
    exact hr

end Supplier

end Recordlane
