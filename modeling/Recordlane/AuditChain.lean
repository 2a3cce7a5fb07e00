import Mathlib
import Recordlane.Canonical
import Recordlane.Supplier
import Recordlane.Library.HashChain

/-! The audit log of a workspace under concurrent transactions. -/
namespace Recordlane

/-- What one transaction has of the audit log to itself: the rows it has inserted, and the entry that
is added to its session and not yet inserted. -/
structure AuditSession where
  inserted : List AuditEntry
  added : Option AuditEntry

namespace AuditSession

def fresh : AuditSession := ⟨[], none⟩

def entries (x : AuditSession) : List AuditEntry := x.inserted ++ x.added.toList

/-- An added entry is inserted, and created, before the session's next query and at the commit. -/
def flush (x : AuditSession) (now : DateTime) : AuditSession :=
  ⟨x.inserted ++ x.added.toList.map fun e => { e with createdAt := now }, none⟩

end AuditSession

/-- The audit entries of a workspace: those committed, in the order of their commits, and those of the
open transactions. -/
structure AuditLog where
  committed : List AuditEntry
  sessions : Nat → AuditSession
  clock : Nat

/-- What a transaction does, as far as the audit log can tell. Its number may be used again once it
has ended. -/
inductive AuditEvent
  | audit (tx : Nat) (who : Principal) (action objectType objectId : String) (detail : Dict)
  | query (tx : Nat)
  | commit (tx : Nat)
  | rollback (tx : Nat)

namespace AuditLog

def empty : AuditLog := ⟨[], fun _ => .fresh, 0⟩

/-- What a query of a transaction sees: what is committed and what the transaction has inserted. -/
def view (w : Workspace) (log : AuditLog) (x : AuditSession) : Store :=
  { Store.empty w with audits := log.committed ++ x.inserted, drawn := log.clock }

def set (log : AuditLog) (tx : Nat) (x : AuditSession) : AuditLog :=
  { log with sessions := Function.update log.sessions tx x, clock := log.clock + 1 }

theorem set_self {log : AuditLog} {tx : Nat} {x : AuditSession} : (log.set tx x).sessions tx = x :=
  Function.update_self ..

theorem set_other {log : AuditLog} {tx other : Nat} {x : AuditSession} (h : other ≠ tx) :
    (log.set tx x).sessions other = log.sessions other := Function.update_of_ne h ..

/-- The transactions of a workspace, one event after another. -/
def system (rt : Runtime) (w : Workspace) : System AuditLog AuditEvent Unit where
  step log event :=
    match event with
    | .audit tx who action objectType objectId detail =>
      let x := (log.sessions tx).flush (rt.now log.clock)
      let service : MasteringService := ⟨rt, who, w⟩
      let entry := (service.audit (log.view w x) action objectType objectId detail).audits.getLast?
      (log.set tx { x with added := entry }, ())
    | .query tx => (log.set tx ((log.sessions tx).flush (rt.now log.clock)), ())
    | .commit tx =>
      let x := (log.sessions tx).flush (rt.now log.clock)
      ({ log.set tx .fresh with committed := log.committed ++ x.inserted }, ())
    | .rollback tx => (log.set tx .fresh, ())

end AuditLog

/-- Who has made an audit call since its transaction began, and whom another transaction has overtaken
since: by the commit of audit entries. -/
structure Watch where
  audited : Nat → Bool
  overtaken : Nat → Bool

namespace Watch

def start : Watch := ⟨fun _ => false, fun _ => false⟩

def after (watch : Watch) : AuditEvent → Watch
  | .audit tx .. => { watch with audited := Function.update watch.audited tx true }
  | .query _ => watch
  | .commit tx =>
    { audited := Function.update watch.audited tx false
      overtaken := Function.update (fun other => watch.overtaken other ||
        (watch.audited tx && watch.audited other)) tx false }
  | .rollback tx =>
    { audited := Function.update watch.audited tx false
      overtaken := Function.update watch.overtaken tx false }

def admits (watch : Watch) : AuditEvent → Bool
  | .commit tx => !watch.overtaken tx
  | _ => true

end Watch

/-- No transaction that has been overtaken commits. -/
def Serialized : Watch → List AuditEvent → Prop
  | _, [] => True
  | watch, event :: events => watch.admits event = true ∧ Serialized (watch.after event) events

instance instDecidableSerialized : (watch : Watch) → (events : List AuditEvent) →
    Decidable (Serialized watch events)
  | _, [] => .isTrue trivial
  | watch, event :: events =>
    have := instDecidableSerialized (watch.after event) events
    inferInstanceAs (Decidable (watch.admits event = true ∧ Serialized (watch.after event) events))

/-- The document whose hash identifies an entry. -/
def AuditEntry.payload (e : AuditEntry) : Json :=
  .obj [("workspace", .str e.workspaceId), ("actor", .str e.actor), ("action", .str e.action),
    ("object_type", .str e.objectType), ("object_id", .str e.objectId), ("detail", e.detail),
    ("previous_hash", optionJson e.previousHash)]

/-- The entries form one chain: the first one has no predecessor, every other one names the entry
directly before it, and no two share their predecessor. -/
structure OneChain (entries : List AuditEntry) : Prop where
  linked : HashChain.Linked AuditEntry.previousHash AuditEntry.entryHash entries
  unshared : (entries.map AuditEntry.previousHash).Nodup

variable {rt : Runtime} {w : Workspace} {self : MasteringService} {s : Store} {log : AuditLog}
  {watch : Watch} {x : AuditSession} {e : AuditEntry} {events : List AuditEvent}
  {es : List AuditEntry} {now : DateTime}

/-- An entry of the workspace with the hash of its payload. -/
def Genuine (rt : Runtime) (w : Workspace) (e : AuditEntry) : Prop :=
  e.workspaceId = w.id ∧ e.entryHash = canonicalHash rt e.payload

/-- The entries stand in the order in which they were created. -/
abbrev ByTime (es : List AuditEntry) : Prop := es.Pairwise fun a b => a.createdAt < b.createdAt

abbrev Chained (es : List AuditEntry) : Prop :=
  HashChain.Linked AuditEntry.previousHash AuditEntry.entryHash es

theorem MasteringService.latestAudit_eq (ho : ByTime s.audits)
    (hw : ∀ e ∈ s.audits, e.workspaceId = self.wid) : self.latestAudit s = s.audits.getLast? := by
  have hall : (s.audits.filter fun a => a.workspaceId = self.wid) = s.audits :=
    List.filter_eq_self.mpr fun e he => decide_eq_true (hw e he)
  rw [latestAudit, hall]
  clear hall hw
  generalize s.audits = es at ho
  induction es using List.reverseRecOn with
  | nil => rfl
  | append_singleton es e ih =>
    rw [ByTime, List.pairwise_append] at ho
    rw [List.foldl_append, ih ho.1, List.foldl_cons, List.foldl_nil, List.getLast?_append]
    cases hlast : es.getLast? with
    | none => rfl
    | some b =>
      have hlater := ho.2.2 b (List.mem_of_getLast? hlast) e (List.mem_singleton_self e)
      simp [not_lt.mpr hlater.le]

theorem MasteringService.audit_entry (self : MasteringService) (s : Store)
    (action objectType objectId : String) (detail : Dict) :
    ∃ e, (self.audit s action objectType objectId detail).audits.getLast? = some e ∧
      Genuine self.rt self.workspace e ∧
      e.previousHash = (self.latestAudit s).map AuditEntry.entryHash := by
  refine ⟨_, List.getLast?_concat, ⟨rfl, rfl⟩, rfl⟩

theorem chained_flush (h : Chained (es ++ x.entries)) : Chained (es ++ (x.flush now).inserted) := by
  obtain ⟨inserted, added⟩ := x
  cases added with
  | none => exact h
  | some e =>
    have h : Chained (es ++ inserted ++ [e]) := by simpa [AuditSession.entries] using h
    rw [Chained, HashChain.linked_concat] at h
    have hlast : Chained (es ++ inserted ++ [{ e with createdAt := now }]) :=
      HashChain.linked_concat.mpr h
    simpa [AuditSession.flush] using hlast

/-- What holds of the log and of those who watch it: whoever has not been overtaken continues the chain
of the committed entries. -/
structure Watched (rt : Runtime) (w : Workspace) (log : AuditLog) (watch : Watch) : Prop where
  committed : ∀ e ∈ log.committed, Genuine rt w e ∧ ∃ k < log.clock, e.createdAt = rt.now k
  entries : ∀ tx, ∀ e ∈ (log.sessions tx).entries, Genuine rt w e
  inserted : ∀ tx, ∀ e ∈ (log.sessions tx).inserted, ∃ k < log.clock, e.createdAt = rt.now k
  idle : ∀ tx, watch.audited tx = false → log.sessions tx = .fresh
  chained : Chained log.committed ∧ ByTime log.committed
  continued : ∀ tx, watch.overtaken tx = false → Chained (log.committed ++ (log.sessions tx).entries) ∧
    ByTime (log.committed ++ (log.sessions tx).inserted)

theorem AuditSession.flush_genuine (h : ∀ e ∈ x.entries, Genuine rt w e) :
    ∀ e ∈ (x.flush now).inserted, Genuine rt w e := by
  intro e he
  rcases List.mem_append.mp he with he | he
  · exact h e (List.mem_append_left _ he)
  · obtain ⟨e', he', rfl⟩ := List.mem_map.mp he
    exact h e' (List.mem_append_right _ he')

namespace Watched

theorem empty : Watched rt w .empty .start := by
  constructor <;> simp [AuditLog.empty, AuditSession.fresh, AuditSession.entries, Watch.start,
    HashChain.linked_nil, Chained, ByTime]

theorem flush_stamped (h : Watched rt w log watch) (tx : Nat) :
    ∀ e ∈ ((log.sessions tx).flush (rt.now log.clock)).inserted,
      ∃ k < log.clock + 1, e.createdAt = rt.now k := by
  intro e he
  rcases List.mem_append.mp he with he | he
  · obtain ⟨k, hk, heq⟩ := h.inserted tx e he
    exact ⟨k, by omega, heq⟩
  · obtain ⟨e', -, rfl⟩ := List.mem_map.mp he
    exact ⟨log.clock, Nat.lt_succ_self _, rfl⟩

theorem flush_continued (hclock : StrictMono rt.now) (h : Watched rt w log watch) {tx : Nat}
    (ho : watch.overtaken tx = false) :
    Chained (log.committed ++ ((log.sessions tx).flush (rt.now log.clock)).inserted) ∧
      ByTime (log.committed ++ ((log.sessions tx).flush (rt.now log.clock)).inserted) := by
  obtain ⟨hchain, horder⟩ := h.continued tx ho
  refine ⟨chained_flush hchain, ?_⟩
  have hrows : ∀ e ∈ log.committed ++ (log.sessions tx).inserted, ∃ k < log.clock,
      e.createdAt = rt.now k := by
    intro e he
    rcases List.mem_append.mp he with he | he
    · exact (h.committed e he).2
    · exact h.inserted tx e he
  rw [AuditSession.flush, ← List.append_assoc, ByTime, List.pairwise_append]
  refine ⟨horder, ?_, fun a ha b hb => ?_⟩
  · cases (log.sessions tx).added <;> simp
  · obtain ⟨k, hk, heq⟩ := hrows a ha
    obtain ⟨b', -, rfl⟩ := List.mem_map.mp hb
    rw [heq]
    exact hclock hk

/-- A transaction changes its session and commits some entries. The chain that another one continues
is the same, or what it continues is the chain itself. -/
theorem change (h : Watched rt w log watch) {tx : Nat} {after : Watch} (new : List AuditEntry)
    (hentries : ∀ e ∈ x.entries, Genuine rt w e)
    (hinserted : ∀ e ∈ x.inserted, ∃ k < log.clock + 1, e.createdAt = rt.now k)
    (hnew : ∀ e ∈ new, Genuine rt w e ∧ ∃ k < log.clock + 1, e.createdAt = rt.now k)
    (hchained : Chained (log.committed ++ new) ∧ ByTime (log.committed ++ new))
    (hidle : after.audited tx = false → x = .fresh)
    (hcontinued : after.overtaken tx = false → Chained (log.committed ++ new ++ x.entries) ∧
      ByTime (log.committed ++ new ++ x.inserted))
    (hothers : ∀ other ≠ tx, after.audited other = watch.audited other ∧
      (after.overtaken other = false → watch.overtaken other = false ∧
        (new = [] ∨ log.sessions other = .fresh))) :
    Watched rt w { log.set tx x with committed := log.committed ++ new } after where
  committed e he := by
    rcases List.mem_append.mp he with he | he
    · obtain ⟨hgenuine, k, hk, heq⟩ := h.committed e he
      exact ⟨hgenuine, k, Nat.lt_succ_of_lt hk, heq⟩
    · exact hnew e he
  entries other e he := by
    by_cases hother : other = tx
    · subst hother
      rw [AuditLog.set_self] at he
      exact hentries e he
    · rw [AuditLog.set_other hother] at he
      exact h.entries other e he
  inserted other e he := by
    by_cases hother : other = tx
    · subst hother
      rw [AuditLog.set_self] at he
      exact hinserted e he
    · rw [AuditLog.set_other hother] at he
      obtain ⟨k, hk, heq⟩ := h.inserted other e he
      exact ⟨k, Nat.lt_succ_of_lt hk, heq⟩
  idle other haudited := by
    by_cases hother : other = tx
    · subst hother
      rw [AuditLog.set_self]
      exact hidle haudited
    · rw [AuditLog.set_other hother]
      exact h.idle other ((hothers other hother).1 ▸ haudited)
  chained := hchained
  continued other hovertaken := by
    by_cases hother : other = tx
    · subst hother
      rw [AuditLog.set_self]
      exact hcontinued hovertaken
    · rw [AuditLog.set_other hother]
      obtain ⟨ho, hnew | hfresh⟩ := (hothers other hother).2 hovertaken
      · rw [hnew, List.append_nil]
        exact h.continued other ho
      · rw [hfresh]
        simpa [AuditSession.fresh, AuditSession.entries] using hchained

theorem set (h : Watched rt w log watch) {tx : Nat} {after : Watch}
    (hentries : ∀ e ∈ x.entries, Genuine rt w e)
    (hinserted : ∀ e ∈ x.inserted, ∃ k < log.clock + 1, e.createdAt = rt.now k)
    (hidle : after.audited tx = false → x = .fresh)
    (hcontinued : after.overtaken tx = false → Chained (log.committed ++ x.entries) ∧
      ByTime (log.committed ++ x.inserted))
    (hothers : ∀ other ≠ tx, after.audited other = watch.audited other ∧
      after.overtaken other = watch.overtaken other) : Watched rt w (log.set tx x) after := by
  have hnil : log.committed ++ [] = log.committed := List.append_nil _
  have hchange := h.change [] hentries hinserted (by simp) (hnil.symm ▸ h.chained) hidle
    (hnil.symm ▸ hcontinued) fun other hother => ⟨(hothers other hother).1, fun ho =>
      ⟨(hothers other hother).2 ▸ ho, .inl rfl⟩⟩
  rw [hnil] at hchange
  exact hchange

/-- The audit call of a transaction links its entry to the last one that it sees. -/
theorem audit (hclock : StrictMono rt.now) (h : Watched rt w log watch) {tx : Nat} {who : Principal}
    {action objectType objectId : String} {detail : Dict} :
    Watched rt w ((AuditLog.system rt w).next log (.audit tx who action objectType objectId detail))
      (watch.after (.audit tx who action objectType objectId detail)) := by
  let x := (log.sessions tx).flush (rt.now log.clock)
  let service : MasteringService := ⟨rt, who, w⟩
  obtain ⟨e, he, hgenuine, hprevious⟩ := service.audit_entry (log.view w x) action objectType objectId
    detail
  have hx : ∀ e ∈ x.inserted, Genuine rt w e := AuditSession.flush_genuine (h.entries tx)
  have hset : Watched rt w (log.set tx { x with added := some e })
      (watch.after (.audit tx who action objectType objectId detail)) := by
    refine h.set ?_ (h.flush_stamped tx) (fun haudited => ?_) (fun ho => ?_) fun other hother => ?_
    · intro e' he'
      rcases List.mem_append.mp he' with he' | he'
      · exact hx e' he'
      · rw [List.mem_singleton.mp he']
        exact hgenuine
    · simp [Watch.after] at haudited
    · obtain ⟨hchain, horder⟩ := h.flush_continued hclock ho
      have hlatest : service.latestAudit (log.view w x) = (log.committed ++ x.inserted).getLast? := by
        refine MasteringService.latestAudit_eq horder fun e' he' => ?_
        rcases List.mem_append.mp he' with he' | he'
        · exact (h.committed e' he').1.1
        · exact (hx e' he').1
      refine ⟨?_, horder⟩
      rw [AuditSession.entries, Option.toList_some, ← List.append_assoc, Chained,
        HashChain.linked_concat]
      exact ⟨hchain, by rw [hprevious, hlatest]⟩
    · exact ⟨Function.update_of_ne hother .., rfl⟩
  have hnext : (AuditLog.system rt w).next log (.audit tx who action objectType objectId detail) =
      log.set tx { x with added := some e } := by
    rw [← he]
    rfl
  exact hnext ▸ hset

theorem query (hclock : StrictMono rt.now) (h : Watched rt w log watch) {tx : Nat} :
    Watched rt w ((AuditLog.system rt w).next log (.query tx)) watch := by
  refine h.set ?_ (h.flush_stamped tx) (fun haudited => ?_) (fun ho => ?_) fun _ _ => ⟨rfl, rfl⟩
  · intro e he
    rw [AuditSession.entries, AuditSession.flush, Option.toList_none, List.append_nil] at he
    exact AuditSession.flush_genuine (h.entries tx) e he
  · rw [h.idle tx haudited]
    rfl
  · obtain ⟨hchain, horder⟩ := h.flush_continued hclock ho
    rw [AuditSession.entries, show ((log.sessions tx).flush (rt.now log.clock)).added.toList = [] from rfl,
      List.append_nil]
    exact ⟨hchain, horder⟩

theorem rollback (h : Watched rt w log watch) {tx : Nat} :
    Watched rt w ((AuditLog.system rt w).next log (.rollback tx)) (watch.after (.rollback tx)) := by
  refine h.set ?_ ?_ (fun _ => rfl) (fun _ => ?_) fun other hother => ?_
  · simp [AuditSession.fresh, AuditSession.entries]
  · simp [AuditSession.fresh]
  · simpa [AuditSession.fresh, AuditSession.entries] using h.chained
  · exact ⟨Function.update_of_ne hother .., Function.update_of_ne hother ..⟩

/-- The commit of a transaction that has not been overtaken appends its entries to the chain. Whoever
has made an audit call is overtaken by it; the others continue the longer chain. -/
theorem commit (hclock : StrictMono rt.now) (h : Watched rt w log watch) {tx : Nat}
    (ho : watch.overtaken tx = false) :
    Watched rt w ((AuditLog.system rt w).next log (.commit tx)) (watch.after (.commit tx)) := by
  have hchain := h.flush_continued hclock ho
  have hgenuine : ∀ e ∈ ((log.sessions tx).flush (rt.now log.clock)).inserted, Genuine rt w e :=
    AuditSession.flush_genuine (h.entries tx)
  have hstamped := h.flush_stamped tx
  refine h.change _ ?_ ?_ (fun e he => ⟨hgenuine e he, hstamped e he⟩) hchain (fun _ => rfl)
    (fun _ => ?_) fun other hother => ⟨Function.update_of_ne hother .., fun hovertaken => ?_⟩
  · simp [AuditSession.fresh, AuditSession.entries]
  · simp [AuditSession.fresh]
  · simpa [AuditSession.fresh, AuditSession.entries] using hchain
  · dsimp only [Watch.after] at hovertaken
    rw [Function.update_of_ne hother, Bool.or_eq_false_iff, Bool.and_eq_false_iff] at hovertaken
    obtain ⟨hold, haudited | haudited⟩ := hovertaken
    · refine ⟨hold, .inl ?_⟩
      rw [h.idle tx haudited]
      rfl
    · exact ⟨hold, .inr (h.idle other haudited)⟩

theorem run (hclock : StrictMono rt.now) (h : Watched rt w log watch) (hs : Serialized watch events) :
    ∃ watch', Watched rt w ((AuditLog.system rt w).run log events) watch' := by
  induction events generalizing log watch with
  | nil => exact ⟨watch, h⟩
  | cons event events ih =>
    have hafter : Watched rt w ((AuditLog.system rt w).next log event) (watch.after event) := by
      cases event with
      | audit => exact h.audit hclock
      | query => exact h.query hclock
      | commit tx => exact h.commit hclock (by simpa [Watch.admits] using hs.1)
      | rollback => exact h.rollback
    exact ih hafter hs.2

end Watched

/-- Entries with equal hashes name equal predecessors, where the hash tells their payloads apart. -/
theorem Genuine.previous_eq {a b : AuditEntry} (ha : Genuine rt w a) (hb : Genuine rt w b)
    (hfree : CollisionFree rt (es.map AuditEntry.payload)) (hma : a ∈ es) (hmb : b ∈ es)
    (h : a.entryHash = b.entryHash) : a.previousHash = b.previousHash := by
  rw [ha.2, hb.2] at h
  have hsorted := hfree _ (List.mem_map_of_mem hma) _ (List.mem_map_of_mem hmb) h
  simp only [AuditEntry.payload, Json.sortKeys_obj, Json.obj.injEq] at hsorted
  have hget : (optionJson a.previousHash).sortKeys = (optionJson b.previousHash).sortKeys := by
    have hsome := congrArg (fun d : Dict => d.get? "previous_hash") hsorted
    simp only [Dict.get?_sorted] at hsome
    simpa [Dict.get?] using hsome
  cases hpa : a.previousHash <;> cases hpb : b.previousHash <;>
    simp_all [optionJson, Json.sortKeys]

/-- As long as no transaction is overtaken between its first audit call and its commit, the committed
entries form one chain, at every point of the run. -/
theorem oneChain_run (hclock : StrictMono rt.now) (hs : Serialized .start events)
    (hfree : CollisionFree rt (((AuditLog.system rt w).run .empty events).committed.map
      AuditEntry.payload)) : OneChain ((AuditLog.system rt w).run .empty events).committed := by
  obtain ⟨watch, h⟩ := Watched.empty.run hclock hs
  refine ⟨h.chained.1, h.chained.1.nodup fun a ha b hb heq => ?_⟩
  exact (h.committed a ha).1.previous_eq (h.committed b hb).1 hfree ha hb heq

/-- The hash of the last committed entry, once noted, pins the whole log: wherever a chain of the workspace
has an entry with this hash, it tells up to there, entry by entry, what was committed. -/
theorem audit_pinned (hclock : StrictMono rt.now) (hs : Serialized .start events)
    {noted : AuditEntry} (hnoted : ((AuditLog.system rt w).run .empty events).committed.getLast? = some noted)
    {before after : List AuditEntry} (hchained : Chained (before ++ e :: after))
    (hgenuine : ∀ a ∈ before ++ e :: after, Genuine rt w a)
    (hfree : CollisionFree rt ((((AuditLog.system rt w).run .empty events).committed ++
      (before ++ e :: after)).map AuditEntry.payload)) (h : e.entryHash = noted.entryHash) :
    (before ++ [e]).map (fun e => e.payload.sortKeys) =
      ((AuditLog.system rt w).run .empty events).committed.map fun e => e.payload.sortKeys := by
  obtain ⟨watch, hwatched⟩ := Watched.empty.run (w := w) hclock hs
  have hcommitted := hwatched.committed
  have hchained' := hwatched.chained.1
  generalize ((AuditLog.system rt w).run .empty events).committed = log at hnoted hfree hcommitted hchained' ⊢
  obtain ⟨log, rfl⟩ := List.getLast?_eq_some_iff.mp hnoted
  have hleft : Chained (before ++ [e]) := by
    rw [List.append_cons] at hchained
    exact hchained.left
  refine hleft.map_eq hchained' (fun a ha b hb hab => ?_) h
  have ha : a ∈ before ++ e :: after := by
    rcases List.mem_append.mp ha with ha | ha
    · exact List.mem_append_left _ ha
    · exact List.mem_append_right _ (List.mem_singleton.mp ha ▸ List.mem_cons_self)
  have hga := hgenuine a ha
  have hgb := (hcommitted b hb).1
  have hma : a ∈ (log ++ [noted]) ++ (before ++ e :: after) := List.mem_append_right _ ha
  have hmb : b ∈ (log ++ [noted]) ++ (before ++ e :: after) := List.mem_append_left _ hb
  refine ⟨?_, hga.previous_eq hgb hfree hma hmb hab⟩
  exact hfree _ (List.mem_map_of_mem hma) _ (List.mem_map_of_mem hmb) (hga.2.symm.trans (hab.trans hgb.2))

namespace Supplier

theorem plain_clock : StrictMono Runtime.plain.now := fun _ _ h => Int.ofNat_lt.mpr h

def auditOf (tx : Nat) (subject : String) : AuditEvent :=
  .audit tx (steward subject) "task.decided" "review_task" "t" [("by", .str subject)]

/-- Two transactions with audit calls, one after the other. -/
def inTurn : List AuditEvent := [auditOf 1 "alice", auditOf 1 "alice", .commit 1, auditOf 2 "bob",
  .query 2, auditOf 2 "bob", .commit 2]

/-- Two transactions with audit calls, both made before the first commit. -/
def atOnce : List AuditEvent := [auditOf 1 "alice", auditOf 2 "bob", .commit 1, .commit 2]

theorem oneChain_inTurn :
    OneChain ((AuditLog.system .plain workspace).run .empty inTurn).committed :=
  oneChain_run plain_clock (by decide) (by decide +kernel)

/-- What the first transaction committed is what the log tells later. -/
theorem audit_pinned_inTurn : ∃ before e after,
    ((AuditLog.system .plain workspace).run .empty inTurn).committed = before ++ e :: after ∧
    (before ++ [e]).map (fun e => e.payload.sortKeys) =
      ((AuditLog.system .plain workspace).run .empty (inTurn.take 3)).committed.map
        fun e => e.payload.sortKeys := by
  have hserialized : Serialized .start inTurn := by decide
  obtain ⟨watch, hwatched⟩ := Watched.empty.run (w := workspace) plain_clock hserialized
  have hgenuine := fun e he => (hwatched.committed e he).1
  have hchained := hwatched.chained.1
  have hlen : 1 < ((AuditLog.system .plain workspace).run .empty inTurn).committed.length := by decide +kernel
  have hsplit := List.take_append_drop 1 ((AuditLog.system .plain workspace).run .empty inTurn).committed
  rw [List.drop_eq_getElem_cons hlen] at hsplit
  obtain ⟨noted, hnoted⟩ : ∃ noted, ((AuditLog.system .plain workspace).run .empty
      (inTurn.take 3)).committed.getLast? = some noted := Option.isSome_iff_exists.mp (by decide +kernel)
  have hhash : (((AuditLog.system .plain workspace).run .empty inTurn).committed[1]).entryHash =
      noted.entryHash := by
    have hsame : (((AuditLog.system .plain workspace).run .empty inTurn).committed[1]?.map
        AuditEntry.entryHash) = ((AuditLog.system .plain workspace).run .empty
          (inTurn.take 3)).committed.getLast?.map AuditEntry.entryHash := by decide +kernel
    rw [hnoted, List.getElem?_eq_getElem hlen] at hsame
    exact Option.some.inj hsame
  refine ⟨_, _, _, hsplit.symm, audit_pinned plain_clock (by decide) hnoted (hsplit.symm ▸ hchained)
    (hsplit.symm ▸ hgenuine) ?_ hhash⟩
  rw [hsplit]
  decide +kernel

/-- Both entries are the first one: the chain forks. -/
theorem atOnce_forks : StrictMono Runtime.plain.now ∧
    CollisionFree .plain (((AuditLog.system .plain workspace).run .empty atOnce).committed.map
      AuditEntry.payload) ∧
    ¬ OneChain ((AuditLog.system .plain workspace).run .empty atOnce).committed := by
  refine ⟨plain_clock, by decide +kernel, fun h => ?_⟩
  have hforked : ¬ (((AuditLog.system .plain workspace).run .empty atOnce).committed.map
      AuditEntry.previousHash).Nodup := by decide +kernel
  exact hforked h.unshared

end Supplier

end Recordlane
