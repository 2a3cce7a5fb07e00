import Recordlane.Entitlements
import Recordlane.Library.Changes

/-! Patches of users and groups: what becomes of members, roles and workspaces over all operations. -/
namespace Recordlane

variable {rt : Runtime} {s t : Identities} {now : DateTime} {groupId userId : Id}

/-! Members. -/

/-- The users an operation names. -/
def ScimPatchOperation.members {Path : Type} (operation : ScimPatchOperation Path) : Py (List Id) := do
  (← operation.values).mapM scimMember

/-- What an operation on members asks for: an addition, or the place of the members. A removal names
nobody. -/
def ScimPatchOperation.memberChange (operation : ScimPatchOperation GroupPath) : Option (Change Id) :=
  match operation.path with
  | .members =>
    let members := (operation.members.toOption.getD []).toFinset
    some (if operation.op = .add then .add members else .set members)
  | _ => none

/-- The changes of members that a patch asks for. -/
def memberChanges (operations : List (ScimPatchOperation GroupPath)) : List (Change Id) :=
  operations.filterMap ScimPatchOperation.memberChange

theorem memberChanges_cons {operation : ScimPatchOperation GroupPath}
    {operations : List (ScimPatchOperation GroupPath)} :
    memberChanges (operation :: operations) = match operation.memberChange with
      | none => memberChanges operations
      | some c => c :: memberChanges operations := by
  rw [memberChanges, List.filterMap_cons]
  cases operation.memberChange <;> rfl

/-- The members of a group, as a set. -/
def Identities.memberSet (s : Identities) (groupId : Id) : Finset Id := (s.membersOf groupId).toFinset

namespace Identities

theorem replaceGroupMembers_ok {members more : List Id}
    (h : s.replaceGroupMembers groupId members = .ok (t, more)) :
    t.memberSet groupId = members.toFinset ∧ more = s.membersOf groupId ++ members ∧
      t = { s with members := t.members } := by
  simp only [replaceGroupMembers] at h
  split at h
  · cases h
  · cases h
    refine ⟨?_, rfl, rfl⟩
    ext userId
    rw [memberSet, List.mem_toFinset, mem_membersOf]
    simp

/-- A round of `patch_group`: an addition is one to all users affected so far. -/
theorem patchGroupField_members {row row' : IdentityGroup} {affected affected' : List Id}
    {operation : ScimPatchOperation GroupPath}
    (h : patchGroupField rt (s, row, affected) operation = .ok (t, row', affected')) :
    row'.id = row.id ∧ match operation.memberChange with
      | none => t = s ∧ affected' = affected
      | some c => (t.memberSet row.id, affected'.toFinset) =
          c.accumulate (s.memberSet row.id, affected.toFinset) := by
  obtain ⟨op, path, value⟩ := operation
  cases path with
  | displayName =>
    simp only [patchGroupField] at h
    split at h
    · cases h
    · cases h
      exact ⟨rfl, rfl, rfl⟩
  | roles =>
    simp only [patchGroupField, Except.bind_eq_ok, Except.pure_eq_ok] at h
    obtain ⟨_, -, heq⟩ := h
    cases heq
    exact ⟨rfl, rfl, rfl⟩
  | workspaceIds =>
    simp only [patchGroupField, Except.bind_eq_ok, Except.pure_eq_ok] at h
    obtain ⟨_, -, heq⟩ := h
    cases heq
    exact ⟨rfl, rfl, rfl⟩
  | members =>
    simp only [patchGroupField, Except.bind_eq_ok, Except.pure_eq_ok] at h
    obtain ⟨items, hitems, named, hnamed, ⟨u, more⟩, hreplace, heq⟩ := h
    cases heq
    obtain ⟨hmembers, rfl, -⟩ := replaceGroupMembers_ok hreplace
    have hread : (⟨op, .members, value⟩ : ScimPatchOperation GroupPath).members = .ok named := by
      simp only [ScimPatchOperation.members, Except.bind_eq_ok]
      exact ⟨items, hitems, hnamed⟩
    refine ⟨rfl, ?_⟩
    simp only [ScimPatchOperation.memberChange, hread, Except.toOption, Option.getD_some]
    rw [hmembers]
    by_cases hadd : op = .add
    · simp [hadd, Change.accumulate, Change.apply, memberSet, Finset.union_assoc]
    · simp [hadd, Change.accumulate, Change.apply, memberSet, Finset.union_assoc]

theorem foldlM_patchGroupField_members {row row' : IdentityGroup} {affected affected' : List Id}
    {operations : List (ScimPatchOperation GroupPath)}
    (h : operations.foldlM (patchGroupField rt) (s, row, affected) = .ok (t, row', affected')) :
    row'.id = row.id ∧ (t.memberSet row.id, affected'.toFinset) =
      (memberChanges operations).foldl Change.accumulate (s.memberSet row.id, affected.toFinset) := by
  induction operations generalizing s row affected with
  | nil =>
    rw [List.foldlM_nil, Except.pure_eq_ok] at h
    cases h
    exact ⟨rfl, rfl⟩
  | cons operation operations ih =>
    rw [List.foldlM_cons, Except.bind_eq_ok] at h
    obtain ⟨⟨u, r, more⟩, hround, hrest⟩ := h
    obtain ⟨hid, hchange⟩ := patchGroupField_members hround
    obtain ⟨hid', hrest⟩ := ih hrest
    refine ⟨hid'.trans hid, ?_⟩
    rw [hid] at hrest
    rw [hrest, memberChanges_cons]
    cases hc : operation.memberChange with
    | none =>
      rw [hc] at hchange
      rw [hchange.1, hchange.2]
    | some c =>
      rw [hc] at hchange
      rw [hchange]
      rfl

theorem patchGroup_members {operations : List (ScimPatchOperation GroupPath)} {row : IdentityGroup}
    (h : s.patchGroup rt now groupId operations = .ok (t, row)) :
    t.memberSet groupId = ((memberChanges operations).foldl Change.accumulate
      (s.memberSet groupId, s.memberSet groupId)).1 := by
  unfold patchGroup at h
  split at h
  · cases h
  · next before hfound =>
    simp only [Except.bind_eq_ok, Except.pure_eq_ok] at h
    obtain ⟨⟨u, patched, affected⟩, hfold, v, hwrite, heq⟩ := h
    cases heq
    obtain ⟨-, hchanges⟩ := foldlM_patchGroupField_members hfold
    have hid : before.id = groupId := Table.find_key hfound
    rw [hid] at hchanges
    have hmembers : (v.revokeMembers now affected).memberSet groupId = u.memberSet groupId := by
      rw [writeGroup_ok hwrite, revokeMembers_eq]
      rfl
    rw [hmembers]
    exact congrArg Prod.fst hchanges

end Identities

/-- Nobody that the members gave way to others for is left unnamed, where others are added after it. -/
def NamesAgain (members : Finset Id) (changes : List (Change Id)) : Prop :=
  ∀ first xs rest, changes = first ++ .set xs :: rest → rest ≠ [] → (∀ c ∈ rest, c.isAdd) →
    members ∪ Change.allNamed first ⊆ xs ∪ Change.allNamed rest

/-- The members of a group after a patch are what its operations make of them one after another, if and
only if everyone whom the last replacement or removal sends away is named again by it or after it, or
nobody is added after it. -/
theorem patchGroup_inOrder_iff {operations : List (ScimPatchOperation GroupPath)} {row : IdentityGroup}
    (h : s.patchGroup rt now groupId operations = .ok (t, row)) :
    t.memberSet groupId = (memberChanges operations).foldl Change.apply (s.memberSet groupId) ↔
      NamesAgain (s.memberSet groupId) (memberChanges operations) := by
  rw [Identities.patchGroup_members h]
  exact Change.foldl_accumulate_iff

namespace Supplier

theorem nameless : ∀ name ∈ (none : Option String), name.length ≤ 320 := by simp

/-- A user without roles of its own. -/
def newcomer (name : String)
    (h : decide (0 < name.length ∧ name.length ≤ 255) = true := by exact Eq.refl true) : IdentityRequest :=
  .createUser {
    externalId := name
    userName := name
    displayName := none
    active := true
    roles := []
    workspaceIds := []
    externalId_length := of_decide_eq_true h
    userName_length := ⟨(of_decide_eq_true h).1, (of_decide_eq_true h).2.trans (by decide)⟩
    displayName_length := nameless }

/-- Three users, and a group that the second one is a member of. -/
def grouped : Identities := (identityService .plain readable authSettings).run (.empty 0)
  [(0, newcomer "alice"), (0, newcomer "bob"), (0, newcomer "carol"),
    (0, .createGroup {
      externalId := "stewards"
      displayName := "Stewards"
      members := [Runtime.plain.uid 1]
      roles := [[("value", "steward")]]
      workspaceIds := ["acme"] })]

/-- A member as a patch gives it. -/
def member (n : Nat) : Json := .obj [("value", .str (Runtime.plain.uid n))]

/-- The members are removed, and some are added. -/
def regrouping (members : List Nat) : List (ScimPatchOperation GroupPath) :=
  [⟨.remove, .members, .null⟩, ⟨.add, .members, .arr (members.map member)⟩]

end Supplier

open Supplier in
/-- The member that is removed is named again. -/
theorem patchGroup_inOrder_regrouping : ∃ t row,
    grouped.patchGroup .plain 0 (Runtime.plain.uid 3) (regrouping [1, 2]) = .ok (t, row) ∧
      t.memberSet (Runtime.plain.uid 3) = (memberChanges (regrouping [1, 2])).foldl Change.apply
        (grouped.memberSet (Runtime.plain.uid 3)) := by
  have hrun : (match grouped.patchGroup .plain 0 (Runtime.plain.uid 3) (regrouping [1, 2]) with
      | .ok _ => true
      | .error _ => false) = true := by decide +kernel
  cases hpatch : grouped.patchGroup .plain 0 (Runtime.plain.uid 3) (regrouping [1, 2]) with
  | error e =>
    rw [hpatch] at hrun
    cases hrun
  | ok answered =>
    obtain ⟨t, row⟩ := answered
    refine ⟨t, row, rfl, (patchGroup_inOrder_iff hpatch).mpr fun first xs rest heq hne _ => ?_⟩
    have hchanges : memberChanges (regrouping [1, 2]) =
        [.set ∅, .add {Runtime.plain.uid 1, Runtime.plain.uid 2}] := rfl
    rw [hchanges] at heq
    rcases first with _ | ⟨c, _ | ⟨c', first⟩⟩
    · cases heq
      decide +kernel
    · cases heq
    · have hlength := congrArg List.length heq
      simp at hlength

open Supplier in
/-- The member is removed and not named again, and is a member afterwards. -/
theorem removed_member_returns : ¬ ∀ (s : Identities) (operations : List (ScimPatchOperation GroupPath))
    (groupId : Id) (t : Identities) (row : IdentityGroup),
    s.patchGroup .plain 0 groupId operations = .ok (t, row) →
      t.memberSet groupId = (memberChanges operations).foldl Change.apply (s.memberSet groupId) := by
  intro h
  have hrun : (match grouped.patchGroup .plain 0 (Runtime.plain.uid 3) (regrouping [2]) with
      | .ok (t, _) => decide (Runtime.plain.uid 1 ∈ t.membersOf (Runtime.plain.uid 3))
      | .error _ => false) = true := by decide +kernel
  cases hpatch : grouped.patchGroup .plain 0 (Runtime.plain.uid 3) (regrouping [2]) with
  | error e =>
    rw [hpatch] at hrun
    cases hrun
  | ok answered =>
    obtain ⟨t, row⟩ := answered
    rw [hpatch] at hrun
    have hin := List.mem_toFinset.mpr (of_decide_eq_true hrun)
    rw [← Identities.memberSet, h _ _ _ t row hpatch] at hin
    have hout : Runtime.plain.uid 1 ∉ (memberChanges (regrouping [2])).foldl Change.apply
        (grouped.memberSet (Runtime.plain.uid 3)) := by decide +kernel
    exact hout hin

/-! Roles and workspaces. -/

/-- What the operations on some path give, one after another. -/
def givenValues {Path α : Type} (on : Path → Bool) (read : ScimPatchOperation Path → Py (List α))
    (operations : List (ScimPatchOperation Path)) : List (List α) :=
  operations.filterMap fun operation => if on operation.path then (read operation).toOption else none

def UserPath.isRoles : UserPath → Bool
  | roles => true
  | _ => false

def UserPath.isWorkspaceIds : UserPath → Bool
  | workspaceIds => true
  | _ => false

def GroupPath.isRoles : GroupPath → Bool
  | roles => true
  | _ => false

def GroupPath.isWorkspaceIds : GroupPath → Bool
  | workspaceIds => true
  | _ => false

/-- A column keeps the values it held, with all that were given. -/
def Keeps {α : Type} (before : List α) (given : List (List α)) (after : List α) : Prop :=
  ∀ value ∈ before ++ given.flatten, value ∈ after

/-- What is given last names what the column held and all that was given before. -/
def LastNamesAll {α : Type} (before : List α) (given : List (List α)) : Prop :=
  ∀ last ∈ given.getLast?, ∀ value ∈ before ++ given.flatten, value ∈ last

instance {α : Type} [DecidableEq α] {before : List α} {given : List (List α)} :
    Decidable (LastNamesAll before given) :=
  inferInstanceAs (Decidable (∀ last ∈ given.getLast?, ∀ value ∈ before ++ given.flatten, value ∈ last))

theorem keeps_last_iff {α : Type} {before : List α} {given : List (List α)} :
    Keeps before given (given.getLast?.getD before) ↔ LastNamesAll before given := by
  unfold Keeps LastNamesAll
  cases hlast : given.getLast? with
  | none =>
    rw [List.getLast?_eq_none_iff.mp hlast]
    simp
  | some last => simp

/-- A loop whose rounds write a column on one path only leaves there what it was given last. -/
theorem foldlM_given {σ Path α : Type} {f : σ → ScimPatchOperation Path → Py σ} {column : σ → List α}
    {on : Path → Bool} {read : ScimPatchOperation Path → Py (List α)} {a b : σ}
    {operations : List (ScimPatchOperation Path)} (h : operations.foldlM f a = .ok b)
    (hround : ∀ a operation b, f a operation = .ok b →
      if on operation.path then read operation = .ok (column b) else column b = column a) :
    column b = (givenValues on read operations).getLast?.getD (column a) := by
  induction operations generalizing a with
  | nil =>
    rw [List.foldlM_nil, Except.pure_eq_ok] at h
    rw [h]
    rfl
  | cons operation operations ih =>
    rw [List.foldlM_cons, Except.bind_eq_ok] at h
    obtain ⟨c, hc, h⟩ := h
    have hcolumn := hround a operation c hc
    rw [ih h, givenValues, givenValues, List.filterMap_cons]
    by_cases hon : on operation.path
    · rw [if_pos hon] at hcolumn
      simp only [hon, if_true, hcolumn, Except.toOption]
      rw [List.getLast?_cons, Option.getD_some]
    · rw [if_neg hon] at hcolumn
      simp only [hon, Bool.false_eq_true, if_false, hcolumn]

theorem patchUserField_roles {before after : IdentityRow} {operation : ScimPatchOperation UserPath}
    (h : patchUserField rt before operation = .ok after) :
    (if operation.path.isRoles then patchedRoles rt operation = .ok after.roles
      else after.roles = before.roles) ∧
    if operation.path.isWorkspaceIds then patchedWorkspaces rt operation = .ok after.workspaceIds
      else after.workspaceIds = before.workspaceIds := by
  obtain ⟨op, path, value⟩ := operation
  cases path with
  | active =>
    cases h
    exact ⟨rfl, rfl⟩
  | userName =>
    simp only [patchUserField] at h
    split at h
    · cases h
    · cases h
      exact ⟨rfl, rfl⟩
  | displayName =>
    cases h
    exact ⟨rfl, rfl⟩
  | roles =>
    simp only [patchUserField, Except.bind_eq_ok, Except.pure_eq_ok] at h
    obtain ⟨roles, hroles, rfl⟩ := h
    exact ⟨hroles, rfl⟩
  | workspaceIds =>
    simp only [patchUserField, Except.bind_eq_ok, Except.pure_eq_ok] at h
    obtain ⟨workspaceIds, hworkspaces, rfl⟩ := h
    exact ⟨rfl, hworkspaces⟩

namespace Identities

theorem patchGroupField_roles {before after : Identities × IdentityGroup × List Id}
    {operation : ScimPatchOperation GroupPath} (h : patchGroupField rt before operation = .ok after) :
    (if operation.path.isRoles then patchedRoles rt operation = .ok after.2.1.roles
      else after.2.1.roles = before.2.1.roles) ∧
    if operation.path.isWorkspaceIds then patchedWorkspaces rt operation = .ok after.2.1.workspaceIds
      else after.2.1.workspaceIds = before.2.1.workspaceIds := by
  obtain ⟨op, path, value⟩ := operation
  cases path with
  | displayName =>
    simp only [patchGroupField] at h
    split at h
    · cases h
    · cases h
      exact ⟨rfl, rfl⟩
  | roles =>
    simp only [patchGroupField, Except.bind_eq_ok, Except.pure_eq_ok] at h
    obtain ⟨roles, hroles, rfl⟩ := h
    exact ⟨hroles, rfl⟩
  | workspaceIds =>
    simp only [patchGroupField, Except.bind_eq_ok, Except.pure_eq_ok] at h
    obtain ⟨workspaceIds, hworkspaces, rfl⟩ := h
    exact ⟨rfl, hworkspaces⟩
  | members =>
    simp only [patchGroupField, Except.bind_eq_ok, Except.pure_eq_ok] at h
    obtain ⟨_, -, _, -, ⟨u, more⟩, -, rfl⟩ := h
    exact ⟨rfl, rfl⟩

theorem patchGroupField_tables {before after : Identities × IdentityGroup × List Id}
    {operation : ScimPatchOperation GroupPath} (h : patchGroupField rt before operation = .ok after) :
    after.1 = { before.1 with members := after.1.members } := by
  obtain ⟨op, path, value⟩ := operation
  cases path with
  | displayName =>
    simp only [patchGroupField] at h
    split at h
    · cases h
    · cases h
      rfl
  | roles =>
    simp only [patchGroupField, Except.bind_eq_ok, Except.pure_eq_ok] at h
    obtain ⟨_, -, rfl⟩ := h
    rfl
  | workspaceIds =>
    simp only [patchGroupField, Except.bind_eq_ok, Except.pure_eq_ok] at h
    obtain ⟨_, -, rfl⟩ := h
    rfl
  | members =>
    simp only [patchGroupField, Except.bind_eq_ok, Except.pure_eq_ok] at h
    obtain ⟨_, -, _, -, ⟨u, more⟩, hreplace, rfl⟩ := h
    exact (replaceGroupMembers_ok hreplace).2.2

theorem foldlM_patchGroupField_tables {before after : Identities × IdentityGroup × List Id}
    {operations : List (ScimPatchOperation GroupPath)}
    (h : operations.foldlM (patchGroupField rt) before = .ok after) :
    after.1 = { before.1 with members := after.1.members } :=
  Except.foldlM_invariant (P := fun state => state.1 = { before.1 with members := state.1.members }) h rfl
    fun a operation b _ ha hab => by rw [patchGroupField_tables hab, ha]

variable {before after : IdentityRow}

theorem patchUser_columns {operations : List (ScimPatchOperation UserPath)}
    (hfound : s.user? userId = some before)
    (h : s.patchUser rt now userId operations = .ok (t, after)) : t.user? userId = some after ∧
      after.roles = (givenValues UserPath.isRoles (patchedRoles rt) operations).getLast?.getD before.roles ∧
      after.workspaceIds =
        (givenValues UserPath.isWorkspaceIds (patchedWorkspaces rt) operations).getLast?.getD
        before.workspaceIds := by
  simp only [patchUser, hfound, Except.bind_eq_ok, Except.pure_eq_ok] at h
  obtain ⟨patched, hpatched, u, hwrite, heq⟩ := h
  cases heq
  have hid : after.id = userId := (patchedUser_id hpatched).trans (Table.find_key hfound)
  simp only [patchedUser, Except.bind_eq_ok, Except.pure_eq_ok] at hpatched
  obtain ⟨row, hfold, rfl⟩ := hpatched
  have hroles : row.roles =
      (givenValues UserPath.isRoles (patchedRoles rt) operations).getLast?.getD before.roles :=
    foldlM_given hfold fun _ _ _ hab => (patchUserField_roles hab).1
  have hworkspaces : row.workspaceIds =
      (givenValues UserPath.isWorkspaceIds (patchedWorkspaces rt) operations).getLast?.getD
      before.workspaceIds :=
    @foldlM_given _ _ _ _ (fun row => row.workspaceIds) _ _ _ _ _ hfold fun _ _ _ hab =>
      (patchUserField_roles hab).2
  refine ⟨?_, hroles, hworkspaces⟩
  rw [revokeDeactivated_eq, writeUser_ok hwrite]
  rw [← hid] at hfound ⊢
  exact Table.find_write hfound

theorem patchGroup_columns {operations : List (ScimPatchOperation GroupPath)} {before after : IdentityGroup}
    (hfound : s.group? groupId = some before)
    (h : s.patchGroup rt now groupId operations = .ok (t, after)) : t.group? groupId = some after ∧
      after.roles = (givenValues GroupPath.isRoles (patchedRoles rt) operations).getLast?.getD before.roles ∧
      after.workspaceIds =
        (givenValues GroupPath.isWorkspaceIds (patchedWorkspaces rt) operations).getLast?.getD
        before.workspaceIds := by
  simp only [patchGroup, hfound, Except.bind_eq_ok, Except.pure_eq_ok] at h
  obtain ⟨⟨u, patched, affected⟩, hfold, v, hwrite, heq⟩ := h
  cases heq
  obtain ⟨hid, -⟩ := foldlM_patchGroupField_members hfold
  have htables : u = { s with members := u.members } := foldlM_patchGroupField_tables hfold
  have hgroups : u.groups = s.groups := by rw [htables]
  have hid : patched.id = groupId := hid.trans (Table.find_key hfound)
  have hroles : patched.roles =
      (givenValues GroupPath.isRoles (patchedRoles rt) operations).getLast?.getD before.roles :=
    @foldlM_given _ _ _ _ (fun state => state.2.1.roles) _ _ _ _ _ hfold fun _ _ _ hab =>
      (patchGroupField_roles hab).1
  have hworkspaces : patched.workspaceIds =
      (givenValues GroupPath.isWorkspaceIds (patchedWorkspaces rt) operations).getLast?.getD
      before.workspaceIds :=
    @foldlM_given _ _ _ _ (fun state => state.2.1.workspaceIds) _ _ _ _ _ hfold fun _ _ _ hab =>
      (patchGroupField_roles hab).2
  refine ⟨?_, hroles, hworkspaces⟩
  rw [revokeMembers_eq, writeGroup_ok hwrite, hgroups]
  rw [← hid] at hfound ⊢
  exact Table.find_write hfound

end Identities

/-- After a patch of a user or a group, its roles and workspaces hold all that they held and all that the
operations gave, if and only if the last operation on each of the two gives all of that. -/
theorem patch_keeps_iff (rt : Runtime) (s : Identities) (now : DateTime) :
    (∀ userId operations before t after, s.user? userId = some before →
      s.patchUser rt now userId operations = .ok (t, after) → t.user? userId = some after ∧
        (Keeps before.roles (givenValues UserPath.isRoles (patchedRoles rt) operations) after.roles ∧
            Keeps before.workspaceIds (givenValues UserPath.isWorkspaceIds (patchedWorkspaces rt) operations)
              after.workspaceIds ↔
          LastNamesAll before.roles (givenValues UserPath.isRoles (patchedRoles rt) operations) ∧
            LastNamesAll before.workspaceIds
              (givenValues UserPath.isWorkspaceIds (patchedWorkspaces rt) operations))) ∧
    ∀ groupId operations before t after, s.group? groupId = some before →
      s.patchGroup rt now groupId operations = .ok (t, after) → t.group? groupId = some after ∧
        (Keeps before.roles (givenValues GroupPath.isRoles (patchedRoles rt) operations) after.roles ∧
            Keeps before.workspaceIds (givenValues GroupPath.isWorkspaceIds (patchedWorkspaces rt) operations)
              after.workspaceIds ↔
          LastNamesAll before.roles (givenValues GroupPath.isRoles (patchedRoles rt) operations) ∧
            LastNamesAll before.workspaceIds
              (givenValues GroupPath.isWorkspaceIds (patchedWorkspaces rt) operations)) := by
  constructor
  · intro userId operations before t after hfound h
    obtain ⟨hstored, hroles, hworkspaces⟩ := Identities.patchUser_columns hfound h
    refine ⟨hstored, ?_⟩
    rw [hroles, hworkspaces, keeps_last_iff, keeps_last_iff]
  · intro groupId operations before t after hfound h
    obtain ⟨hstored, hroles, hworkspaces⟩ := Identities.patchGroup_columns hfound h
    refine ⟨hstored, ?_⟩
    rw [hroles, hworkspaces, keeps_last_iff, keeps_last_iff]

namespace Supplier

/-- Roles are added twice, then a workspace; what is added last names all that was there. -/
def widening {Path : Type} (roles workspaceIds : Path) : List (ScimPatchOperation Path) :=
  [⟨.add, roles, .arr [.obj [("value", .str "auditor")]]⟩,
    ⟨.add, roles, .arr [.str "auditor", .obj [("value", .str "steward")]]⟩,
    ⟨.add, workspaceIds, .arr [.str "acme", .str "umbrella"]⟩]

end Supplier

open Supplier in
/-- Alice and the group keep their roles and workspaces, and have the new ones. -/
theorem patch_keeps_named :
    (∃ before t after, grouped.user? (Runtime.plain.uid 0) = some before ∧
      grouped.patchUser .plain 0 (Runtime.plain.uid 0) (widening .roles .workspaceIds) = .ok (t, after) ∧
      Keeps before.roles
        (givenValues UserPath.isRoles (patchedRoles .plain) (widening .roles .workspaceIds)) after.roles ∧
      Keeps before.workspaceIds
        (givenValues UserPath.isWorkspaceIds (patchedWorkspaces .plain) (widening .roles .workspaceIds))
        after.workspaceIds) ∧
    ∃ before t after, grouped.group? (Runtime.plain.uid 3) = some before ∧
      grouped.patchGroup .plain 0 (Runtime.plain.uid 3) (widening .roles .workspaceIds) = .ok (t, after) ∧
      Keeps before.roles
        (givenValues GroupPath.isRoles (patchedRoles .plain) (widening .roles .workspaceIds)) after.roles ∧
      Keeps before.workspaceIds
        (givenValues GroupPath.isWorkspaceIds (patchedWorkspaces .plain) (widening .roles .workspaceIds))
        after.workspaceIds := by
  constructor
  · have hrun : ((grouped.user? (Runtime.plain.uid 0)).any fun before =>
        (grouped.patchUser .plain 0 (Runtime.plain.uid 0) (widening .roles .workspaceIds)).toOption.any
          fun _ => decide (LastNamesAll before.roles
              (givenValues UserPath.isRoles (patchedRoles .plain) (widening .roles .workspaceIds)) ∧
            LastNamesAll before.workspaceIds (givenValues UserPath.isWorkspaceIds
              (patchedWorkspaces .plain) (widening .roles .workspaceIds)))) = true := by
      decide +kernel
    obtain ⟨before, hfound, hrun⟩ := (Option.any_eq_true ..).mp hrun
    obtain ⟨⟨t, after⟩, hpatch, hnamed⟩ := Except.of_any hrun
    have hkept := ((patch_keeps_iff .plain grouped 0).1 _ _ before t after hfound hpatch).2
    exact ⟨before, t, after, hfound, hpatch, hkept.mpr (of_decide_eq_true hnamed)⟩
  · have hrun : ((grouped.group? (Runtime.plain.uid 3)).any fun before =>
        (grouped.patchGroup .plain 0 (Runtime.plain.uid 3) (widening .roles .workspaceIds)).toOption.any
          fun _ => decide (LastNamesAll before.roles
              (givenValues GroupPath.isRoles (patchedRoles .plain) (widening .roles .workspaceIds)) ∧
            LastNamesAll before.workspaceIds (givenValues GroupPath.isWorkspaceIds
              (patchedWorkspaces .plain) (widening .roles .workspaceIds)))) = true := by
      decide +kernel
    obtain ⟨before, hfound, hrun⟩ := (Option.any_eq_true ..).mp hrun
    obtain ⟨⟨t, after⟩, hpatch, hnamed⟩ := Except.of_any hrun
    have hkept := ((patch_keeps_iff .plain grouped 0).2 _ _ before t after hfound hpatch).2
    exact ⟨before, t, after, hfound, hpatch, hkept.mpr (of_decide_eq_true hnamed)⟩

open Supplier in
/-- A workspace is added to those of a group, and takes their place. -/
theorem added_workspace_replaces : ¬ ∀ (s : Identities) (groupId : Id)
    (operations : List (ScimPatchOperation GroupPath)) (before : IdentityGroup) (t : Identities)
    (after : IdentityGroup), (∀ operation ∈ operations, operation.op = .add) →
      s.group? groupId = some before → s.patchGroup .plain 0 groupId operations = .ok (t, after) →
      Keeps before.workspaceIds (givenValues GroupPath.isWorkspaceIds (patchedWorkspaces .plain) operations)
        after.workspaceIds := by
  intro h
  have hrun : ((grouped.group? (Runtime.plain.uid 3)).any fun before =>
      (grouped.patchGroup .plain 0 (Runtime.plain.uid 3)
        [⟨.add, .workspaceIds, .arr [.str "umbrella"]⟩]).toOption.any fun answered =>
          decide ("acme" ∈ before.workspaceIds ∧ "acme" ∉ answered.2.workspaceIds)) = true := by
    decide +kernel
  obtain ⟨before, hfound, hrun⟩ := (Option.any_eq_true ..).mp hrun
  obtain ⟨⟨t, after⟩, hpatch, hchecked⟩ := Except.of_any hrun
  obtain ⟨hbefore, hafter⟩ := of_decide_eq_true hchecked
  refine hafter (h _ _ _ before t after ?_ hfound hpatch "acme" (List.mem_append_left _ hbefore))
  simp

end Recordlane
