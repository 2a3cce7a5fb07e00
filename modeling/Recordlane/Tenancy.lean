import Recordlane.Mastering.Service
import Recordlane.Library.Run
import Recordlane.Library.Table

/-! The creation of workspaces, and the names by which requests find them. -/
namespace Recordlane

/-- The rule of `_workspace`: a name is the id of a workspace or its slug. -/
def Workspace.named (w : Workspace) (name : String) : Bool := w.id = name || w.slug = name

/-- `^[a-z][a-z0-9-]{1,39}$`. -/
def slugPattern (text : String) : Bool :=
  match text.toList with
  | first :: rest => first.isLower && 1 ≤ rest.length && rest.length ≤ 39 &&
      rest.all fun c => c.isLower || c.isDigit || c = '-'
  | [] => false

/-- The body of `create_workspace`, as its schema admits it. -/
structure WorkspaceCreate where
  slug : String
  name : String
  slug_matches : slugPattern slug = true
  name_length : 2 ≤ name.length ∧ name.length ≤ 160

/-- `str(uuid4())`: hyphens at four places, the version, the variant, and lower-case digits. -/
def uuid4Text (text : String) : Bool :=
  text.toList.length = 36 && text.toList.zipIdx.all fun (c, i) =>
    if i = 8 ∨ i = 13 ∨ i = 18 ∨ i = 23 then c = '-'
    else if i = 14 then c = '4'
    else if i = 19 then c = '8' || c = '9' || c = 'a' || c = 'b'
    else c.isDigit || ('a' ≤ c && c ≤ 'f')

/-- What `uid` draws. -/
structure Uuid4 where
  text : String
  drawn : uuid4Text text = true

structure WorkspaceRow extends Workspace where
  name : String

/-- The locally governed projection of an identity, as far as the creation of workspaces reads it. -/
structure IdentityUser where
  issuer : String
  subject : String
  workspaceIds : List String
  version : Nat

structure Tenants where
  workspaces : List WorkspaceRow
  identities : List IdentityUser

/-- `create_workspace` with its principal and the identifier its row draws. -/
structure CreateCall where
  payload : WorkspaceCreate
  who : Principal
  id : Uuid4

namespace Tenants

/-- One workspace, as the bootstrap leaves it. -/
def bootstrapped (first : WorkspaceRow) (identities : List IdentityUser) : Tenants :=
  ⟨[first], identities⟩

/-- The workspace a name is served from. -/
def resolve (t : Tenants) (name : String) : Option WorkspaceRow :=
  t.workspaces.find? fun w => w.named name

/-- The creator's identity, when it has one, is granted the workspace by its slug. -/
def grant (t : Tenants) (who : Principal) (slug : String) : List IdentityUser :=
  t.identities.map fun u =>
    if u.issuer = who.issuer ∧ u.subject = who.subject ∧ slug ∉ u.workspaceIds then
      { u with workspaceIds := sortedSet (u.workspaceIds ++ [slug]), version := u.version + 1 }
    else u

def createWorkspace (t : Tenants) (call : CreateCall) : Py (Tenants × WorkspaceRow) :=
  if !call.who.allows "read" then httpError 403 "forbidden" [("permission", .str "read")]
  else if (t.resolve call.who.workspaceId).isNone then httpError 403 "workspace_not_found" []
  else if !call.who.allows "*" then httpError 403 "administrator_required" []
  else if t.workspaces.any fun w => w.slug = call.payload.slug then
    httpError 409 "workspace_exists" []
  else if t.workspaces.any fun w => w.id = call.id.text then .error (.integrity "workspaces.id")
  else
    let row := {
      id := call.id.text
      slug := call.payload.slug
      name := call.payload.name }
    .ok (⟨t.workspaces ++ [row], t.grant call.who call.payload.slug⟩, row)

/-- What a call is checked for before its row is inserted, and by the primary key when it is. -/
structure Admits (t : Tenants) (call : CreateCall) : Prop where
  reads : call.who.allows "read" = true
  resolves : (t.resolve call.who.workspaceId).isSome
  administers : call.who.allows "*" = true
  slug_unused : ∀ w ∈ t.workspaces, w.slug ≠ call.payload.slug
  id_unused : ∀ w ∈ t.workspaces, w.id ≠ call.id.text

variable {t t' : Tenants} {call : CreateCall} {row : WorkspaceRow}

theorem createWorkspace_ok (h : t.createWorkspace call = .ok (t', row)) :
    t.Admits call ∧ t'.workspaces = t.workspaces ++ [row] ∧
      row.id = call.id.text ∧ row.slug = call.payload.slug := by
  simp only [createWorkspace, httpError] at h
  split_ifs at h with hread hresolve hadmin hslug hid
  obtain ⟨rfl, rfl⟩ := Prod.mk.inj (Except.ok.inj h)
  refine ⟨⟨by simpa using hread, ?_, by simpa using hadmin, by simpa using hslug, by simpa using hid⟩,
    rfl, rfl, rfl⟩
  simpa [Option.isSome_iff_ne_none] using hresolve

theorem Admits.created (h : t.Admits call) : ∃ made, t.createWorkspace call = .ok made := by
  have hslug : (t.workspaces.any fun w => w.slug = call.payload.slug) = false := by
    simpa using h.slug_unused
  have hid : (t.workspaces.any fun w => w.id = call.id.text) = false := by
    simpa using h.id_unused
  have hresolve : (t.resolve call.who.workspaceId).isNone = false := by
    simpa [Option.isSome_iff_ne_none] using h.resolves
  simp [createWorkspace, h.reads, hresolve, h.administers, hslug, hid]

/-- Names are unambiguous: a name is that of one workspace at most, and served from it. -/
structure Unambiguous (t : Tenants) : Prop where
  one : ∀ name, ∀ v ∈ t.workspaces, ∀ w ∈ t.workspaces, v.named name → w.named name → v = w
  served : ∀ name, ∀ w ∈ t.workspaces, w.named name → t.resolve name = some w

/-- The keys of the table: ids and slugs identify workspaces. -/
structure Keyed (t : Tenants) : Prop where
  ids : Table.Keyed (fun w : WorkspaceRow => w.id) t.workspaces
  slugs : Table.Keyed (fun w : WorkspaceRow => w.slug) t.workspaces

theorem keyed_bootstrapped (first : WorkspaceRow) (identities : List IdentityUser) :
    (bootstrapped first identities).Keyed := by
  constructor <;> simp [bootstrapped, Table.Keyed]

/-- No id of a workspace is another's slug. -/
def Apart (t : Tenants) : Prop :=
  ∀ v ∈ t.workspaces, ∀ w ∈ t.workspaces, v.id = w.slug → v = w

theorem Keyed.one (h : t.Keyed) (ha : t.Apart) {name : String} {v w : WorkspaceRow}
    (hv : v ∈ t.workspaces) (hw : w ∈ t.workspaces) (hvn : v.named name) (hwn : w.named name) :
    v = w := by
  simp only [Workspace.named, Bool.or_eq_true, decide_eq_true_eq] at hvn hwn
  rcases hvn with hv' | hv' <;> rcases hwn with hw' | hw'
  · exact h.ids.eq_of_mem hv hw (hv'.trans hw'.symm)
  · exact ha v hv w hw (hv'.trans hw'.symm)
  · exact (ha w hw v hv (hw'.trans hv'.symm)).symm
  · exact h.slugs.eq_of_mem hv hw (hv'.trans hw'.symm)

/-- Ids and slugs share one namespace, so they are unambiguous while they stay apart. -/
theorem Keyed.unambiguous_iff (h : t.Keyed) : t.Unambiguous ↔ t.Apart := by
  constructor
  · intro hu v hv w hw heq
    exact hu.one v.id v hv w hw (by simp [Workspace.named]) (by simp [Workspace.named, heq])
  · intro ha
    refine ⟨fun name v hv w hw => h.one ha hv hw, fun name w hw hn => ?_⟩
    cases hr : t.resolve name with
    | none => exact (List.find?_eq_none.mp hr w hw hn).elim
    | some v =>
      have hv : v ∈ t.workspaces := List.mem_of_find?_eq_some hr
      have hvn : v.named name = true := List.find?_some (p := fun w : WorkspaceRow => w.named name) hr
      rw [h.one ha hv hw hvn hn]

end Tenants

theorem MasteringService.start_resolves {t : Tenants} {s : Store} {rt : Runtime} {who : Principal}
    (hs : s.workspaces = t.workspaces.map WorkspaceRow.toWorkspace) {self : MasteringService}
    (h : start rt who s = .ok self) :
    ∃ w, t.resolve who.workspaceId = some w ∧ self.workspace = w.toWorkspace := by
  have hfound : s.workspaces.find? (fun v => v.id = who.workspaceId || v.slug = who.workspaceId) =
      (t.resolve who.workspaceId).map WorkspaceRow.toWorkspace := by
    rw [hs]
    exact List.find?_map
  rw [start, hfound] at h
  cases hr : t.resolve who.workspaceId with
  | none =>
    rw [hr] at h
    cases h
  | some w =>
    rw [hr] at h
    exact ⟨w, rfl, (congrArg MasteringService.workspace (Except.ok.inj h)).symm⟩

/-- The creation of workspaces, one call at a time. -/
def tenancy : System Tenants CreateCall (Py WorkspaceRow) where
  step t call :=
    match t.createWorkspace call with
    | .ok (t', row) => (t', .ok row)
    | .error e => (t, .error e)

/-- A workspace that is created has neither an existing id for its slug nor an existing slug for
its id. -/
def Tenants.Fresh (t : Tenants) (call : CreateCall) : Prop :=
  t.Admits call → ∀ w ∈ t.workspaces, w.id ≠ call.payload.slug ∧ w.slug ≠ call.id.text

section Runs

variable {t : Tenants} {call : CreateCall}

theorem tenancy_next (t : Tenants) (call : CreateCall) :
    (tenancy.next t call = t ∧ ¬ t.Admits call) ∨
      (t.Admits call ∧ ∃ row : WorkspaceRow, row.id = call.id.text ∧ row.slug = call.payload.slug ∧
        (tenancy.next t call).workspaces = t.workspaces ++ [row]) := by
  simp only [System.next, tenancy]
  cases hmade : t.createWorkspace call with
  | error e =>
    refine .inl ⟨rfl, fun h => ?_⟩
    obtain ⟨made, hok⟩ := h.created
    rw [hmade] at hok
    cases hok
  | ok made =>
    obtain ⟨hadmits, hrows, hid, hslug⟩ := Tenants.createWorkspace_ok hmade
    exact .inr ⟨hadmits, made.2, hid, hslug, hrows⟩

theorem Tenants.Keyed.next (h : t.Keyed) (call : CreateCall) : (tenancy.next t call).Keyed := by
  rcases tenancy_next t call with ⟨heq, -⟩ | ⟨hadmits, row, hid, hslug, hrows⟩
  · rw [heq]
    exact h
  · constructor
    · rw [hrows]
      exact h.ids.append fun w hw => by simpa [hid] using hadmits.id_unused w hw
    · rw [hrows]
      exact h.slugs.append fun w hw => by simpa [hslug] using hadmits.slug_unused w hw

theorem Tenants.Apart.of_next (h : (tenancy.next t call).Apart) : t.Apart := by
  rcases tenancy_next t call with ⟨heq, -⟩ | ⟨-, row, -, -, hrows⟩
  · rwa [heq] at h
  · intro v hv w hw
    exact h v (by simp [hrows, hv]) w (by simp [hrows, hw])

theorem Tenants.Apart.next_iff (h : t.Apart) : (tenancy.next t call).Apart ↔ t.Fresh call := by
  rcases tenancy_next t call with ⟨heq, hno⟩ | ⟨hadmits, row, hid, hslug, hrows⟩
  · rw [heq]
    exact ⟨fun _ hadmits => (hno hadmits).elim, fun _ => h⟩
  have hrow : row ∈ (tenancy.next t call).workspaces := by simp [hrows]
  have hold : ∀ w ∈ t.workspaces, w ∈ (tenancy.next t call).workspaces := by simp_all
  constructor
  · intro hnext _ w hw
    constructor
    · intro heq
      have hsame := hnext w (hold w hw) row hrow (heq.trans hslug.symm)
      exact hadmits.id_unused w hw (by rw [hsame, hid])
    · intro heq
      have hsame := hnext row hrow w (hold w hw) (hid.trans heq.symm)
      exact hadmits.id_unused w hw (by rw [← hsame, hid])
  · intro hfresh v hv w hw heq
    rw [hrows, List.mem_append, List.mem_singleton] at hv hw
    rcases hv with hv | rfl <;> rcases hw with hw | rfl
    · exact h v hv w hw heq
    · exact ((hfresh hadmits v hv).1 (heq.trans hslug)).elim
    · exact ((hfresh hadmits w hw).2 (heq.symm.trans hid)).elim
    · rfl

theorem Tenants.Apart.of_run {calls : List CreateCall} (h : (tenancy.run t calls).Apart) :
    t.Apart := by
  induction calls generalizing t with
  | nil => exact h
  | cons call calls ih => exact (ih h).of_next

theorem Tenants.Keyed.run (h : t.Keyed) (calls : List CreateCall) : (tenancy.run t calls).Keyed :=
  tenancy.run_invariant (Φ := fun _ _ => True) h (tenancy.along_of_forall (fun _ _ => trivial) calls)
    fun _ call ht _ => ht.next call

theorem Tenants.Apart.run_iff (h : t.Apart) (calls : List CreateCall) :
    (tenancy.run t calls).Apart ↔ tenancy.Along Tenants.Fresh t calls := by
  induction calls generalizing t with
  | nil => exact ⟨fun _ => trivial, fun _ => h⟩
  | cons call calls ih =>
    rw [System.run_cons, System.Along]
    constructor
    · intro hrun
      have hnext : (tenancy.next t call).Apart := hrun.of_run
      exact ⟨h.next_iff.mp hnext, (ih hnext).mp hrun⟩
    · rintro ⟨hfresh, hrest⟩
      exact (ih (h.next_iff.mpr hfresh)).mpr hrest

/-- Names stay unambiguous as long as no workspace takes an id for its slug, or a slug for its
id. -/
theorem names_unambiguous (first : WorkspaceRow) (identities : List IdentityUser)
    (calls : List CreateCall) :
    (tenancy.run (.bootstrapped first identities) calls).Unambiguous ↔
      tenancy.Along Tenants.Fresh (.bootstrapped first identities) calls := by
  have hkeyed := (Tenants.keyed_bootstrapped first identities).run calls
  have hapart : (Tenants.bootstrapped first identities).Apart := by
    intro v hv w hw _
    rw [List.mem_singleton.mp hv, List.mem_singleton.mp hw]
  rw [hkeyed.unambiguous_iff, hapart.run_iff]

/-- The demonstration workspace, and a second one whose slug is the first one's id. -/
def demoRow : WorkspaceRow where
  id := "b52f0a1c-3d4e-4f5a-8b6c-7d8e9f0a1b2c"
  slug := "demo"
  name := "Meridian Works"

def shadowing : CreateCall where
  payload := {
    slug := "b52f0a1c-3d4e-4f5a-8b6c-7d8e9f0a1b2c"
    name := "Shadow"
    slug_matches := by decide +kernel
    name_length := by decide +kernel }
  who := {
    subject := "admin"
    issuer := "recordlane:internal"
    workspaceId := "demo"
    roles := ["administrator"]
    scopes := none }
  id := ⟨"0c1d2e3f-4a5b-4c6d-9e7f-8a9b0c1d2e3f", by decide +kernel⟩

theorem names_clash :
    ∃ name, ∃ v ∈ (tenancy.run (.bootstrapped demoRow []) [shadowing]).workspaces,
      ∃ w ∈ (tenancy.run (.bootstrapped demoRow []) [shadowing]).workspaces,
        v.named name ∧ w.named name ∧ v.id ≠ w.id := by
  refine ⟨demoRow.id, demoRow, ?_, ⟨⟨shadowing.id.text, demoRow.id⟩, "Shadow"⟩, ?_, ?_⟩
  · exact .head _
  · exact .tail _ (.head _)
  · decide +kernel

end Runs

end Recordlane
