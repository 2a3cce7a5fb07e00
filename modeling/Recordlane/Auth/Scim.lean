import Recordlane.Auth.Session
import Recordlane.Library.Run

/-! SCIM 2.0: the provisioning of users and groups, and the requests of the identity endpoints. -/
namespace Recordlane

/-- A user resource, as its schema admits it. Each role is an object of texts. -/
structure ScimUser where
  externalId : String
  userName : String
  displayName : Option String
  active : Bool
  roles : List (List (String × String))
  workspaceIds : List String
  externalId_length : 1 ≤ externalId.length ∧ externalId.length ≤ 255 := by decide
  userName_length : 1 ≤ userName.length ∧ userName.length ≤ 320 := by decide
  displayName_length : ∀ name ∈ displayName, name.length ≤ 320 := by decide

inductive PatchOp
  | add | replace | remove
  deriving DecidableEq

inductive UserPath
  | active | userName | displayName | roles | workspaceIds

inductive GroupPath
  | displayName | members | roles | workspaceIds

/-- An operation of a patch on one of its paths. -/
structure ScimPatchOperation (Path : Type) where
  op : PatchOp
  path : Path
  value : Json

/-- A group resource, as its schema admits it; members are given by their values. -/
structure ScimGroup where
  externalId : String
  displayName : String
  members : List Id
  roles : List (List (String × String))
  workspaceIds : List String
  externalId_length : 1 ≤ externalId.length ∧ externalId.length ≤ 255 := by decide
  displayName_length : 1 ≤ displayName.length ∧ displayName.length ≤ 320 := by decide
  members_length : members.length ≤ 10000 := by decide
  member_length : ∀ member ∈ members, 1 ≤ member.length ∧ member.length ≤ 36 := by decide

variable (rt : Runtime) (crypto : Crypto) (settings : AuthSettings)

/-- The sorted values of role objects. -/
def scimRoles (roles : List (List (String × String))) : List Role :=
  (sortedSet (roles.filterMap fun item => (item.lookup "value").filter fun value => value ≠ "")).map .text

/-- The members that a `for` statement visits. -/
def Json.iterate : Json → Py (List Json)
  | .arr items => .ok items
  | .str text => .ok (text.toList.map fun c => .str c.toString)
  | .obj fields => .ok (fields.map fun p => .str p.1)
  | .null | .bool _ | .int _ | .float _ => .error (.python "TypeError")

/-- The role an item of a patch names: the value of an object, or the item as a text. -/
def patchedRole : Json → Py (Option Role)
  | .obj fields =>
    let value := Dict.get fields "value"
    if value.truthy then
      match value, value.number? with
      | .str name, _ => .ok (some (.text name))
      | _, some number => .ok (some (.number number))
      | _, none => .error (.python "TypeError")
    else .ok none
  | item => .ok (if item.truthy then some (.text (rt.strOf item)) else none)

def Role.text? : Role → Option String
  | text name => some name
  | number _ => none

def Role.number? : Role → Option ℚ
  | text _ => none
  | number value => some value

/-- `sorted(set(roles))`: a text and a number are not compared. -/
def sortedRoles (roles : List Role) : Py (List Role) :=
  let names := roles.filterMap Role.text?
  let numbers := roles.filterMap Role.number?
  if names ≠ [] ∧ numbers ≠ [] then .error (.python "TypeError")
  else .ok ((sortedSet names).map .text ++ (numbers.dedup.insertionSort (· ≤ ·)).map .number)

/-- The value of a patch, nothing for a removal. -/
def ScimPatchOperation.values {Path : Type} (operation : ScimPatchOperation Path) : Py (List Json) :=
  if operation.op = .remove then .ok [] else operation.value.iterate

def patchedRoles {Path : Type} (operation : ScimPatchOperation Path) : Py (List Role) := do
  let roles ← (← operation.values).mapM (patchedRole rt)
  sortedRoles (roles.filterMap id)

def patchedWorkspaces {Path : Type} (operation : ScimPatchOperation Path) : Py (List String) := do
  return sortedSet ((← operation.values).map rt.strOf)

/-- A round of `patch_user`. -/
def patchUserField (row : IdentityRow) (operation : ScimPatchOperation UserPath) : Py IdentityRow :=
  match operation.path with
  | .active => .ok { row with active := if operation.op = .remove then false else operation.value.truthy }
  | .userName =>
    if operation.op = .remove || !operation.value.truthy then httpError 422 "scim_username_required" []
    else .ok { row with userName := rt.strOf operation.value }
  | .displayName =>
    .ok { row with
      displayName := if operation.op = .remove then none else some (rt.strOf operation.value) }
  | .roles => do return { row with roles := ← patchedRoles rt operation }
  | .workspaceIds => do return { row with workspaceIds := ← patchedWorkspaces rt operation }

/-- A user row as a patch leaves it. -/
def patchedUser (row : IdentityRow) (operations : List (ScimPatchOperation UserPath)) : Py IdentityRow := do
  let row ← operations.foldlM (patchUserField rt) row
  return { row with version := row.version + 1 }

/-- A user row as a replacement leaves it. -/
def ScimUser.replaced (payload : ScimUser) (row : IdentityRow) : IdentityRow :=
  { row with
    externalId := some payload.externalId
    subject := payload.externalId
    userName := payload.userName
    displayName := payload.displayName
    active := payload.active
    roles := scimRoles payload.roles
    workspaceIds := sortedSet payload.workspaceIds
    version := row.version + 1 }

/-- `ScimMember`: the value of a member object. -/
def scimMember : Json → Py Id
  | .obj fields =>
    match Dict.get fields "value" with
    | .str value =>
      if 1 ≤ value.length ∧ value.length ≤ 36 then .ok value else .error (.validation "value")
    | _ => .error (.validation "value")
  | _ => .error (.python "TypeError")

namespace Identities

variable (s : Identities) (now : DateTime)

/-- A user row is written back; subjects and external ids are unique to an issuer. -/
def writeUser (row : IdentityRow) : Py Identities :=
  if s.users.any fun u => u.id ≠ row.id && u.issuer = row.issuer &&
      (u.subject = row.subject || u.externalId.isSome && u.externalId = row.externalId) then
    .error (.integrity "identity_users")
  else .ok { s with users := Table.modify IdentityRow.id s.users row.id fun _ => row }

/-- `create_user`. -/
def createUser (payload : ScimUser) : Py (Identities × IdentityRow) :=
  match setting settings.oidcIssuer with
  | none => httpError 503 "identity_not_configured" []
  | some issuer =>
    if s.users.any fun u => u.issuer = issuer && u.externalId = some payload.externalId then
      httpError 409 "scim_user_exists" []
    else if s.users.any fun u => u.issuer = issuer && u.subject = payload.externalId then
      .error (.integrity "identity_users")
    else
      let row : IdentityRow := {
        id := rt.uid s.drawn
        issuer := issuer
        subject := payload.externalId
        externalId := some payload.externalId
        userName := payload.userName
        displayName := payload.displayName
        active := payload.active
        roles := scimRoles payload.roles
        workspaceIds := sortedSet payload.workspaceIds
        version := 1 }
      .ok ({ s with users := s.users ++ [row], drawn := s.drawn + 1 }, row)

/-- The sessions of a user that a write has deactivated are revoked. -/
def revokeDeactivated (before after : IdentityRow) : Identities :=
  if before.active && !after.active then s.revokeIdentitySessions now after.id else s

/-- `replace_user`. -/
def replaceUser (userId : Id) (payload : ScimUser) : Py (Identities × IdentityRow) := do
  match s.user? userId with
  | none => httpError 404 "scim_user_not_found" []
  | some row =>
    let s ← s.writeUser (payload.replaced row)
    return (s.revokeDeactivated now row (payload.replaced row), payload.replaced row)

/-- `patch_user`. -/
def patchUser (userId : Id) (operations : List (ScimPatchOperation UserPath)) :
    Py (Identities × IdentityRow) := do
  match s.user? userId with
  | none => httpError 404 "scim_user_not_found" []
  | some row =>
    let patched ← patchedUser rt row operations
    let s ← s.writeUser patched
    return (s.revokeDeactivated now row patched, patched)

/-- `delete_user`: the row stays, and is not active. -/
def deleteUser (userId : Id) : Py Identities := do
  match s.user? userId with
  | none => httpError 404 "scim_user_not_found" []
  | some row =>
    let s ← s.writeUser { row with active := false, version := row.version + 1 }
    return s.revokeIdentitySessions now row.id

/-- `_replace_group_members`, with the users that it affects. -/
def replaceGroupMembers (groupId : Id) (members : List Id) : Py (Identities × List Id) :=
  let missing := sortedSet (members.filter fun id => (s.user? id).isNone)
  if !missing.isEmpty then
    httpError 422 "scim_member_not_found" [("ids", .arr (missing.map .str))]
  else
    .ok ({ s with
      members := (s.members.filter fun m => m.groupId ≠ groupId) ++
        members.dedup.map fun userId => ⟨groupId, userId⟩ }, s.membersOf groupId ++ members)

/-- `_revoke_members`. -/
def revokeMembers (memberIds : List Id) : Identities :=
  memberIds.foldl (fun s userId => s.revokeIdentitySessions now userId) s

/-- A group row is written back; external ids are unique to an issuer. -/
def writeGroup (row : IdentityGroup) : Py Identities :=
  if s.groups.any fun g => g.id ≠ row.id && g.issuer = row.issuer && g.externalId = row.externalId then
    .error (.integrity "identity_groups")
  else .ok { s with groups := Table.modify IdentityGroup.id s.groups row.id fun _ => row }

/-- `create_group`. -/
def createGroup (payload : ScimGroup) : Py (Identities × IdentityGroup) := do
  match setting settings.oidcIssuer with
  | none => httpError 503 "identity_not_configured" []
  | some issuer =>
    if s.groups.any fun g => g.issuer = issuer && g.externalId = payload.externalId then
      httpError 409 "scim_group_exists" []
    else
      let row : IdentityGroup := {
        id := rt.uid s.drawn
        issuer := issuer
        externalId := payload.externalId
        displayName := payload.displayName
        roles := scimRoles payload.roles
        workspaceIds := sortedSet payload.workspaceIds
        version := 1 }
      let s := { s with groups := s.groups ++ [row], drawn := s.drawn + 1 }
      let (s, affected) ← s.replaceGroupMembers row.id payload.members
      return (s.revokeMembers now affected, row)

/-- `replace_group`. -/
def replaceGroup (groupId : Id) (payload : ScimGroup) : Py (Identities × IdentityGroup) := do
  match s.group? groupId with
  | none => httpError 404 "scim_group_not_found" []
  | some row =>
    let row := { row with
      externalId := payload.externalId
      displayName := payload.displayName
      roles := scimRoles payload.roles
      workspaceIds := sortedSet payload.workspaceIds
      version := row.version + 1 }
    let s ← s.writeGroup row
    let (s, affected) ← s.replaceGroupMembers row.id payload.members
    return (s.revokeMembers now affected, row)

/-- A round of `patch_group`, with the users affected so far. -/
def patchGroupField (state : Identities × IdentityGroup × List Id)
    (operation : ScimPatchOperation GroupPath) : Py (Identities × IdentityGroup × List Id) :=
  let (s, row, affected) := state
  match operation.path with
  | .displayName =>
    if operation.op = .remove || !operation.value.truthy then httpError 422 "scim_group_name_required" []
    else .ok (s, { row with displayName := rt.strOf operation.value }, affected)
  | .roles => do return (s, { row with roles := ← patchedRoles rt operation }, affected)
  | .workspaceIds => do return (s, { row with workspaceIds := ← patchedWorkspaces rt operation }, affected)
  | .members => do
    let members ← (← operation.values).mapM scimMember
    let members := if operation.op = .add then affected ++ members else members
    let (s, more) ← s.replaceGroupMembers row.id members
    return (s, row, affected ++ more)

/-- `patch_group`. -/
def patchGroup (groupId : Id) (operations : List (ScimPatchOperation GroupPath)) :
    Py (Identities × IdentityGroup) := do
  match s.group? groupId with
  | none => httpError 404 "scim_group_not_found" []
  | some row =>
    let (s, row, affected) ← operations.foldlM (patchGroupField rt) (s, row, s.membersOf row.id)
    let row := { row with version := row.version + 1 }
    let s ← s.writeGroup row
    return (s.revokeMembers now affected, row)

/-- `delete_group`. -/
def deleteGroup (groupId : Id) : Py Identities :=
  match s.group? groupId with
  | none => httpError 404 "scim_group_not_found" []
  | some row =>
    let affected := s.membersOf row.id
    let s := { s with
      members := s.members.filter fun m => m.groupId ≠ row.id
      groups := s.groups.filter fun g => g.id ≠ row.id }
    .ok (s.revokeMembers now affected)

end Identities

/-- The requests of the identity endpoints that get past their own authentication. -/
inductive IdentityRequest
  | createUser (payload : ScimUser)
  | replaceUser (userId : Id) (payload : ScimUser)
  | patchUser (userId : Id) (operations : List (ScimPatchOperation UserPath))
  | deleteUser (userId : Id)
  | createGroup (payload : ScimGroup)
  | replaceGroup (groupId : Id) (payload : ScimGroup)
  | patchGroup (groupId : Id) (operations : List (ScimPatchOperation GroupPath))
  | deleteGroup (groupId : Id)
  | login (call : LoginCall)
  | callback (call : CallbackCall)
  | session (rawToken : String)
  | logout (rawToken : String)

inductive IdentityAnswer
  | user (row : IdentityRow)
  | group (row : IdentityGroup)
  | done
  | opened (rawSession returnTo : String)
  | principal (who : Option Principal)

/-- A request served at a time: what it commits with its answer, or an exception and no commit. -/
def serveIdentity (s : Identities) (now : DateTime) : IdentityRequest → Py (Identities × Py IdentityAnswer)
  | .createUser payload => do
    let (s, row) ← s.createUser rt settings payload
    return (s, .ok (.user row))
  | .replaceUser userId payload => do
    let (s, row) ← s.replaceUser now userId payload
    return (s, .ok (.user row))
  | .patchUser userId operations => do
    let (s, row) ← s.patchUser rt now userId operations
    return (s, .ok (.user row))
  | .deleteUser userId => do return (← s.deleteUser now userId, .ok .done)
  | .createGroup payload => do
    let (s, row) ← s.createGroup rt settings now payload
    return (s, .ok (.group row))
  | .replaceGroup groupId payload => do
    let (s, row) ← s.replaceGroup now groupId payload
    return (s, .ok (.group row))
  | .patchGroup groupId operations => do
    let (s, row) ← s.patchGroup rt now groupId operations
    return (s, .ok (.group row))
  | .deleteGroup groupId => do return (← s.deleteGroup now groupId, .ok .done)
  | .login call => do return (← s.login crypto settings now call, .ok .done)
  | .callback call => do
    let (s, answer) ← s.callback rt crypto settings now call
    return (s, answer.map fun opened => .opened opened.1 opened.2)
  | .session rawToken =>
    let (s, who) := s.sessionPrincipal crypto now rawToken
    .ok (s, .ok (.principal who))
  | .logout rawToken => .ok (s.logout crypto now rawToken, .ok .done)

/-- The tables some time later. -/
def Identities.later (s : Identities) (elapsed : Nat) : Identities := { s with clock := s.clock + elapsed }

/-- The identity endpoints: a request comes some time after the one before it, and one that raises
changes nothing. -/
def identityService : System Identities (Nat × IdentityRequest) (Py IdentityAnswer) where
  step s timed :=
    let s := s.later timed.1
    match serveIdentity rt crypto settings s s.clock timed.2 with
    | .ok (s, answer) => (s, answer)
    | .error e => (s, .error e)

end Recordlane
