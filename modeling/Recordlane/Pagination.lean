import Recordlane.Library.Keyset
import Recordlane.Requests
import Recordlane.Supplier
import Recordlane.Views
import Mathlib.Data.String.Basic

/-! The listing of entities in pages, and what following its cursor returns while the store changes. -/
namespace Recordlane

def MasterStatus.name : MasterStatus → String
  | draft => "draft"
  | approved => "approved"

/-- `_master_view`. -/
def masterView (row : Option MasterVersion) (readable : List String) : Json :=
  match row with
  | none => .null
  | some row => .obj [("id", .str row.id), ("workspace_id", .str row.workspaceId),
      ("entity_id", .str row.entityId), ("version", .int row.version), ("status", .str row.status.name),
      ("values", .obj (filterMapping readable row.values)),
      ("provenance", .obj (filterMapping readable row.provenance)),
      ("reason", optionJson row.reason), ("approved_by", optionJson row.approvedBy)]

structure EntityPage where
  items : List Json
  nextCursor : Option Id

namespace MasteringService

section Listing

variable (self : MasteringService) (s : Store)

/-- The newest of some versions. -/
def newestMaster (rows : List MasterVersion) : Option MasterVersion :=
  (rows.insertionSort fun a b => b.version ≤ a.version).head?

/-- One item of the listing. -/
def entityView (row : Entity) : Json :=
  let readable := self.readableFields s row.domainKey
  let approved := newestMaster (s.masters.filter fun m => m.entityId = row.id && m.status = .approved)
  let draft := newestMaster (s.masters.filter fun m => m.entityId = row.id)
  .obj [("id", .str row.id), ("workspace_id", .str row.workspaceId), ("domain_key", .str row.domainKey),
    ("status", .str (statusName row.status)), ("version", .int row.version),
    ("master", masterView (approved <|> draft) readable),
    ("approval_state", .str (if approved.isSome then "approved" else "candidate")),
    ("current_contribution_count", .int (s.objects.filter fun o => o.workspaceId = self.wid &&
      o.entityId = some row.id && o.currentRecordId.isSome && !o.retired).length)]

/-- The entities that the listing is about. -/
def listed (domain : Option String) (e : Entity) : Bool :=
  e.workspaceId = self.wid && e.status ≠ .merged &&
    match domain with
    | none | some "" => true
    | some key => e.domainKey = key

def pastCursor (cursor : Option Id) (e : Entity) : Bool :=
  match cursor with
  | none | some "" => true
  | some id => id < e.id

/-- `entities` with a page size. -/
def entities (domain : Option String) (pageSize : Nat) (cursor : Option Id) : EntityPage :=
  let rows := ((s.entities.filter fun e => self.listed domain e && pastCursor cursor e).insertionSort
    fun a b => a.id ≤ b.id).take (pageSize + 1)
  let hasMore := pageSize < rows.length
  let rows := if hasMore then rows.take pageSize else rows
  ⟨rows.map (self.entityView s), if hasMore then rows.getLast?.map Entity.id else none⟩

end Listing

variable {rt : Runtime} {w : Workspace} {s : Store} {self : MasteringService} {domain : Option String}
  {pageSize : Nat} {cursor : Option Id} {seen : List Store} {items : List Json}

/-- A client follows the cursor to its end; between two pages any requests are served. The stores are those
that a page was read from, the items what all pages held. -/
inductive Traversal (self : MasteringService) (domain : Option String) (pageSize : Nat) :
    Option Id → Store → List Store → List Json → Prop
  | last {cursor : Option Id} {s : Store} : (self.entities s domain pageSize cursor).nextCursor = none →
      Traversal self domain pageSize cursor s [s] (self.entities s domain pageSize cursor).items
  | more {cursor : Option Id} {s : Store} {c : Id} {seen : List Store} {items : List Json}
      (requests : List Request) :
      (self.entities s domain pageSize cursor).nextCursor = some c →
      Traversal self domain pageSize (some c) ((service self.rt).run s requests) seen items →
      Traversal self domain pageSize cursor s (s :: seen)
      ((self.entities s domain pageSize cursor).items ++ items)

/-- The id that an item shows. -/
def itemId : Json → Json
  | .obj item => Dict.get item "id"
  | _ => .null

theorem entities_page (hcursor : cursor ≠ some "") : self.entities s domain pageSize cursor =
    ⟨(Keyset.page Entity.id pageSize cursor (s.entities.filter (self.listed domain))).items.map
    (self.entityView s),
      (Keyset.page Entity.id pageSize cursor (s.entities.filter (self.listed domain))).next⟩ := by
  have hpast (e : Entity) : pastCursor cursor e = decide (∀ c ∈ cursor, c < e.id) := by
    unfold pastCursor
    split
    · simp
    · exact absurd rfl hcursor
    · simp
  have hafter : (s.entities.filter fun e => self.listed domain e && pastCursor cursor e) =
      (s.entities.filter (self.listed domain)).filter fun e => decide (∀ c ∈ cursor, c < e.id) := by
    rw [List.filter_filter]
    refine List.filter_congr fun e _ => ?_
    rw [Bool.and_comm, hpast]
  unfold entities Keyset.page Keyset.past
  rw [hafter]
  dsimp only
  split <;> rfl

theorem entity_id_ne (huid : ∀ n, rt.uid n ≠ "") (hi : Integrity rt w s) {e : Entity} (he : e ∈ s.entities) :
    e.id ≠ "" := by
  obtain ⟨n, -, hn⟩ := (hi.entities e he).2
  rw [hn]
  exact huid n

theorem listed_ids (hi : Integrity rt w s) : ((s.entities.filter (self.listed domain)).map Entity.id).Nodup :=
  hi.entityIds.sublist (List.filter_sublist.map Entity.id)

theorem nextCursor_ne {c : Id} (huid : ∀ n, rt.uid n ≠ "") (hi : Integrity rt w s)
    (hnext : (Keyset.page Entity.id pageSize cursor (s.entities.filter (self.listed domain))).next = some c) :
    some c ≠ some "" := by
  obtain ⟨-, -, x, hx, rfl⟩ := Keyset.page_more hnext
  have hpast := Keyset.page_past (List.mem_of_getLast? hx)
  have hentity := List.mem_of_mem_filter (Keyset.mem_past.mp hpast).1
  exact fun hempty => entity_id_ne huid hi hentity (Option.some.inj hempty)

/-- What a client collects are the pages of the tables that it meets. -/
theorem Traversal.follows (h : Traversal self domain pageSize cursor s seen items)
    (huid : ∀ n, self.rt.uid n ≠ "") (hi : Integrity self.rt w s) (hcursor : cursor ≠ some "") :
    (∀ t ∈ seen, Integrity self.rt w t) ∧ ∃ found, items.map itemId = found.map
    (fun e => Json.str (Entity.id e)) ∧
      Keyset.Follows Entity.id pageSize cursor
      (seen.map fun t => t.entities.filter (self.listed domain)) found := by
  have hids {s : Store} {rows : List Entity} : (rows.map (self.entityView s)).map itemId =
      rows.map fun e => Json.str e.id := by
    rw [List.map_map]
    rfl
  induction h with
  | @last cursor s hnext =>
    rw [entities_page hcursor] at hnext ⊢
    refine ⟨fun t ht => List.mem_singleton.mp ht ▸ hi, _, hids, .last hnext⟩
  | @more cursor s c seen items requests hnext hrest ih =>
    rw [entities_page hcursor] at hnext ⊢
    obtain ⟨hseen, found, heq, hfollows⟩ := ih (integrity_run hi) (nextCursor_ne huid hi hnext)
    refine ⟨List.forall_mem_cons.mpr ⟨hi, hseen⟩, _, ?_, .more hnext hfollows⟩
    rw [List.map_append, hids, heq, List.map_append]

theorem traversal_ends (huid : ∀ n, self.rt.uid n ≠ "") (hi : Integrity self.rt w s)
    (hcursor : cursor ≠ some "") :
    ∃ seen items, Traversal self domain pageSize cursor s seen items := by
  generalize hleft : (Keyset.past Entity.id cursor (s.entities.filter (self.listed domain))).length = n
  induction n using Nat.strong_induction_on generalizing cursor with
  | _ n ih =>
    cases hnext : (self.entities s domain pageSize cursor).nextCursor with
    | none => exact ⟨_, _, .last hnext⟩
    | some c =>
      have hkeyset := hnext
      rw [entities_page hcursor] at hkeyset
      have hshorter := Keyset.past_shorter (listed_ids hi) hkeyset
      obtain ⟨seen, items, hrest⟩ := ih _ (hleft ▸ hshorter) (nextCursor_ne huid hi hkeyset) rfl
      exact ⟨_, _, .more [] hnext hrest⟩

/-- Following the cursor returns no entity twice, and every entity that the listing was about whenever a page
was read. -/
theorem traversal_complete (huid : ∀ n, self.rt.uid n ≠ "") (hs : Reachable self.rt self.workspace s)
    (hsize : 0 < pageSize) (h : Traversal self domain pageSize none s seen items) :
    (items.map itemId).Nodup ∧
      ∀ x, (∀ t ∈ seen, ∃ e ∈ t.entities, e.id = x ∧ self.listed domain e = true) →
        .str x ∈ items.map itemId := by
  obtain ⟨hseen, found, heq, hfollows⟩ := h.follows huid (integrity_reachable hs) nofun
  have hkeys : ∀ rows ∈ seen.map fun t => t.entities.filter (self.listed domain),
      (rows.map Entity.id).Nodup := by
    intro rows hrows
    obtain ⟨t, ht, rfl⟩ := List.mem_map.mp hrows
    exact listed_ids (hseen t ht)
  have hmap : found.map (fun e => Json.str e.id) = (found.map Entity.id).map .str := by
    rw [List.map_map]
    rfl
  rw [heq, hmap]
  constructor
  · have hnodup : (found.map Entity.id).Nodup := ((hfollows.increasing hkeys).1).imp ne_of_lt
    exact hnodup.map fun _ _ => Json.str.inj
  · intro x hx
    refine List.mem_map_of_mem (hfollows.complete hsize hkeys (fun rows hrows => ?_) nofun)
    obtain ⟨t, ht, rfl⟩ := List.mem_map.mp hrows
    obtain ⟨e, he, hid, hlisted⟩ := hx t ht
    exact ⟨e, List.mem_filter.mpr ⟨he, hlisted⟩, hid⟩

end MasteringService

namespace Supplier

/-- A runtime without an empty id. -/
def named : Runtime :=
  { Runtime.plain with
    uid := fun n => Runtime.plain.uid (n + 1)
    uid_injective := fun _ _ h => Nat.succ.inj (Runtime.plain.uid_injective h) }

def lister : MasteringService := ⟨named, steward "alice", workspace⟩

def threeListed : Store := (service named).run (Store.empty workspace) (setup ++ [three])

/-- A fourth name arrives after the first page. -/
def fourth : List Request := [ingest [observation "d" "1" [("name", .str "D")]]]

theorem traversal_complete_fourth : ∃ seen items, lister.Traversal none 2 none threeListed seen items ∧
    (items.map MasteringService.itemId).Nodup ∧
      ∀ x, (∀ t ∈ seen, ∃ e ∈ t.entities, e.id = x ∧ lister.listed none e = true) →
        .str x ∈ items.map MasteringService.itemId := by
  have hfirst : (lister.entities threeListed none 2 none).nextCursor = some (named.uid 16) := by
    decide +kernel
  have hlast :
      (lister.entities ((service named).run threeListed fourth) none 2 (some (named.uid 16))).nextCursor =
      none := by decide +kernel
  have huid : ∀ n, named.uid n ≠ "" := fun n h => by
    have hlength := congrArg (fun text => text.toList.length) h
    simp [named, Runtime.plain] at hlength
  have htraversal : lister.Traversal none 2 none threeListed _ _ := .more fourth hfirst (.last hlast)
  exact ⟨_, _, htraversal, MasteringService.traversal_complete huid ⟨setup ++ [three], rfl⟩
      (by decide) htraversal⟩

end Supplier

end Recordlane
