import LaGraph.Projects.Repository
import Mathlib.Data.String.Basic

open foundation foundation.Tx

namespace lagraph.registry

/-- `_ROLE_RANK`. -/
def ProjectRole.rank : ProjectRole → Nat
  | .viewer => 1
  | .contributor => 2
  | .manager => 3
  | .owner => 4

def ProjectRole.name : ProjectRole → String
  | .viewer => "viewer"
  | .contributor => "contributor"
  | .manager => "manager"
  | .owner => "owner"

/-- A role that a membership can be given without promotion to owner. -/
abbrev GrantableRole := { role : ProjectRole // role ≠ .owner }

theorem manager_ne_owner : ProjectRole.manager ≠ .owner := by decide

theorem viewer_ne_owner : ProjectRole.viewer ≠ .owner := by decide

structure AccessDecision where
  effective_role : ProjectRole
  origins : List ProjectMembershipRow

/-- The highest role; the first of equals. -/
def max_role (first : ProjectRole) (rest : List ProjectRole) : ProjectRole :=
  rest.foldl (fun best role => if best.rank < role.rank then role else best) first

/-- The memberships through which a subject has access. -/
def access_origins (db : Database) (project_id tenant_id subject : String)
    (group_ids : List String) : List ProjectMembershipRow :=
  db.memberships.rows.filter fun row =>
    row.project_id = project_id && row.tenant_id = tenant_id &&
      (row.principal_type = .user && row.principal_id = subject ||
        row.principal_type = .group && group_ids.contains row.principal_id)

/-- The role a subject has on a project, if the project is one of its tenant and
it is a member. -/
def effective_role (db : Database) (project_id tenant_id subject : String)
    (group_ids : List String) : Option ProjectRole :=
  match (db.projects.get project_id).filter (·.tenant_id = tenant_id) with
  | none => none
  | some _ =>
    match access_origins db project_id tenant_id subject group_ids with
    | [] => none
    | first :: rest => some (max_role first.role (rest.map (·.role)))

/-- `access_decision`. -/
def access_decision (project_id tenant_id subject : String) (group_ids : List String)
    (minimum : ProjectRole) : Transaction AccessDecision := do
  let db ← select id
  match effective_role db project_id tenant_id subject group_ids with
  | none => raise (.ProjectNotFound project_id)
  | some effective => do
    raiseIf (effective.rank < minimum.rank)
      (.AuthorizationError "The project role is insufficient")
    pure ⟨effective, access_origins db project_id tenant_id subject group_ids⟩

/-- The order of the listing: by role name, descending, then by display name under
the collation of the database. -/
def listed_before (collation : String → String → Bool) (a b : ProjectMembershipRow) : Bool :=
  if a.role = b.role then collation a.display_name b.display_name
  else b.role.name < a.role.name

/-- The first 500 memberships in the order of the listing. -/
def listed_memberships (collation : String → String → Bool) (db : Database)
    (project_id tenant_id : String) : List ProjectMembershipRow :=
  ((db.memberships.rows.filter fun row =>
    row.project_id = project_id && row.tenant_id = tenant_id).mergeSort
      (listed_before collation)).take 500

/-- `list_memberships`. -/
def list_memberships (collation : String → String → Bool) (project_id tenant_id : String) :
    Transaction (List ProjectMembershipRow) :=
  select fun db => listed_memberships collation db project_id tenant_id

/-- A principal to add, with the identifier of the membership it may get. -/
structure NewMembership where
  id : String
  principal_type : PrincipalType
  principal_id : String
  display_name : String
  deriving DecidableEq, Repr

def membership_of (db : Database) (project_id : String) (principal_type : PrincipalType)
    (principal_id : String) : Option ProjectMembershipRow :=
  db.memberships.rows.find? fun row => row.project_id = project_id &&
    row.principal_type = principal_type && row.principal_id = principal_id

/-- `add_memberships`. -/
def add_memberships (project_id tenant_id : String) (principals : List NewMembership)
    (role : GrantableRole) (now : Moment) : Transaction Unit := do
  let project ← project_for_update project_id
  raiseIf (project.tenant_id ≠ tenant_id) (.ProjectNotFound project_id)
  forEach (fun item => do
    let existing ← select fun db =>
      membership_of db project_id item.principal_type item.principal_id
    match existing with
    | none =>
      add_membership
        { id := item.id, tenant_id, project_id, principal_type := item.principal_type,
          principal_id := item.principal_id, display_name := item.display_name,
          role := role.val, updated_at := now }
    | some existing => execute fun _ db => { db with
        memberships := db.memberships.update (·.id = existing.id)
          (fun row => { row with display_name := item.display_name, updated_at := now })
          (fun _ => rfl) }) principals

/-- How many owners a project has. -/
def owner_count (db : Database) (project_id : String) : Nat :=
  db.memberships.count fun row => row.project_id = project_id && row.role = .owner

/-- The membership of a project and tenant with that identifier. -/
def find_membership (db : Database) (project_id membership_id tenant_id : String) :
    Option ProjectMembershipRow :=
  (db.memberships.get membership_id).filter fun row =>
    row.project_id = project_id && row.tenant_id = tenant_id

/-- `update_membership`. -/
def update_membership (project_id membership_id tenant_id : String) (role : ProjectRole)
    (now : Moment) : Transaction Unit := do
  acquire (.membership membership_id)
  let row ← select fun db => find_membership db project_id membership_id tenant_id
  let row ← orRaise row (.ProjectNotFound membership_id)
  raiseIf (role = .owner ∧ row.principal_type ≠ .user)
    (.ProjectConflict "Groups cannot own projects")
  whenever (row.role = .owner ∧ role ≠ .owner) do
    let owners ← select fun db => owner_count db project_id
    raiseIf (owners = 1) (.ProjectConflict "The final owner cannot be demoted")
  execute fun _ db => { db with
    memberships := db.memberships.update (·.id = row.id)
      (fun row => { row with role, updated_at := now }) (fun _ => rfl) }

/-- `remove_membership`. -/
def remove_membership (project_id membership_id tenant_id : String) : Transaction Unit := do
  acquire (.membership membership_id)
  let row ← select fun db => find_membership db project_id membership_id tenant_id
  let row ← orRaise row (.ProjectNotFound membership_id)
  whenever (row.role = .owner) do
    let owners ← select fun db => owner_count db project_id
    raiseIf (owners = 1) (.ProjectConflict "The final owner cannot be removed")
  execute fun _ db => { db with memberships := db.memberships.delete (·.id = row.id) }

/-- `create_access_request`. -/
def create_access_request (id project_id tenant_id requester_id requester_name : String)
    (note : Option String) (now : Moment) : Transaction AccessRequestRow := do
  let project ← select fun db => (db.projects.get project_id).filter fun row =>
    row.tenant_id = tenant_id && row.state ≠ .archived
  let _ ← orRaise project (.ProjectNotFound project_id)
  let existing ← select fun db => db.access_requests.rows.find? fun row =>
    row.project_id = project_id && row.requester_id = requester_id && row.status = .pending
  match existing with
  | some row => pure row
  | none => do
    let row : AccessRequestRow :=
      { id, tenant_id, project_id, requester_id, requester_name, note, status := .pending,
        reviewed_by := none, decided_role := none, created_at := now, decided_at := none }
    add_access_request row
    pure row

/-- `list_access_requests`: the latest hundred. -/
def list_access_requests (project_id tenant_id : String) (requester_id : Option String) :
    Transaction (List AccessRequestRow) :=
  select fun db => ((db.access_requests.rows.filter fun row =>
    row.project_id = project_id && row.tenant_id = tenant_id &&
      requester_id.all (row.requester_id = ·)).mergeSort
        fun a b => b.created_at ≤ a.created_at).take 100

/-- The access request of a project and tenant with that identifier. -/
def find_access_request (db : Database) (project_id request_id tenant_id : String) :
    Option AccessRequestRow :=
  (db.access_requests.get request_id).filter fun row =>
    row.project_id = project_id && row.tenant_id = tenant_id

/-- A decision on an access request; only an approval grants a role. -/
inductive Decision
  | approved | denied
  deriving DecidableEq, Repr

def Decision.status : Decision → AccessRequestState
  | .approved => .approved
  | .denied => .denied

/-- `decide_access_request`. -/
def decide_access_request (id project_id request_id tenant_id : String) (decision : Decision)
    (role : Option GrantableRole) (actor : String) (now : Moment) : Transaction Unit := do
  acquire (.access_request request_id)
  let row ← select fun db => find_access_request db project_id request_id tenant_id
  let row ← orRaise row (.ProjectNotFound request_id)
  let decided_role := if decision = .approved then role.map (·.val) else none
  if row.status ≠ .pending then
    raiseIf (¬ (row.status = decision.status ∧ row.decided_role = decided_role))
      (.ProjectConflict "The access request is already decided")
  else do
    execute fun _ db => { db with
      access_requests := db.access_requests.update (·.id = row.id)
        (fun row => { row with
          status := decision.status, reviewed_by := some actor, decided_role,
          decided_at := some now }) (fun _ => rfl) }
    match decided_role with
    | none => pure ()
    | some granted => do
      let existing ← select fun db => membership_of db project_id .user row.requester_id
      match existing with
      | none =>
        add_membership
          { id, tenant_id, project_id, principal_type := .user,
            principal_id := row.requester_id, display_name := row.requester_name,
            role := granted, updated_at := now }
      | some existing => whenever (existing.role ≠ .owner) do
          execute fun _ db => { db with
            memberships := db.memberships.update (·.id = existing.id)
              (fun row => { row with role := granted, updated_at := now }) (fun _ => rfl) }

/-- `cancel_access_request`. -/
def cancel_access_request (project_id request_id tenant_id requester_id : String)
    (now : Moment) : Transaction Unit := do
  acquire (.access_request request_id)
  let row ← select fun db => (find_access_request db project_id request_id tenant_id).filter
    (·.requester_id = requester_id)
  let row ← orRaise row (.ProjectNotFound request_id)
  raiseIf (row.status ≠ .pending) (.ProjectConflict "Only pending requests can be cancelled")
  execute fun _ db => { db with
    access_requests := db.access_requests.update (·.id = row.id)
      (fun row => { row with status := .cancelled, decided_at := some now }) (fun _ => rfl) }

end lagraph.registry
