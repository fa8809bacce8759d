import LaGraph.Projects.Access.Memberships

open foundation foundation.Tx

namespace lagraph.registry

inductive RealmRole
  | viewer | editor | admin
  deriving DecidableEq, Repr

def RealmRole.name : RealmRole → String
  | .viewer => "viewer"
  | .editor => "editor"
  | .admin => "admin"

structure AuthPrincipal where
  subject : String
  username : String
  roles : List RealmRole
  tenant_id : String
  group_ids : List String

/-- What the routes read of the deployment: whether authentication is on, the
directory's answers where one is configured, and the collation of the database. -/
structure Deployment where
  auth_enabled : Bool
  directory : Option (String → String → List (PrincipalType × String))
  collation : String → String → Bool

/-- The requests on the members and access-request routes of a project. The
identifiers and moments are those the server draws while it handles them. -/
inductive AccessRequest
  | list_members
  | add_members (principals : List NewMembership) (role : GrantableRole) (now : Moment)
  | change_member_role (membership_id : String) (role : ProjectRole) (now : Moment)
  | remove_member (membership_id : String)
  | request_access (id : String) (note : Option String) (now : Moment)
  | list_access_requests
  | decide_access_request (id request_id : String) (decision : Decision)
      (role : Option GrantableRole) (now : Moment)
  | cancel_access_request (request_id : String) (now : Moment)

/-- `require_role`. -/
def require_role (role : RealmRole) (principal : AuthPrincipal) : Transaction Unit :=
  raiseIf (role ∉ principal.roles) (.AuthorizationError s!"The {role.name} role is required")

/-- `_tenant_project`. -/
def tenant_project (project_id tenant_id : String) : Transaction ProjectRow := do
  let row ← select fun db => db.projects.get project_id
  let row ← orRaise row (.ProjectNotFound project_id)
  raiseIf (row.tenant_id ≠ tenant_id) (.ProjectNotFound project_id)
  pure row

/-- `_authorize`. -/
def authorize (project_id : String) (principal : AuthPrincipal) (minimum : ProjectRole) :
    Transaction AccessDecision :=
  access_decision project_id principal.tenant_id principal.subject principal.group_ids minimum

/-- `_govern_access`: a realm administrator decides as an owner. -/
def govern_access (project_id : String) (principal : AuthPrincipal) (view_only : Bool) :
    Transaction AccessDecision :=
  if .admin ∈ principal.roles then do
    let _ ← tenant_project project_id principal.tenant_id
    pure ⟨.owner, []⟩
  else authorize project_id principal (if view_only then .viewer else .manager)

/-- The directory principals that the caller may add. -/
def resolved_principals (deployment : Deployment) (principal : AuthPrincipal)
    (principals : List NewMembership) : List (PrincipalType × String) :=
  (.user, principal.subject) :: principal.group_ids.map (.group, ·) ++
    (deployment.directory.map fun search => principals.flatMap fun item =>
      search item.display_name principal.tenant_id).getD []

/-- `list_members`. -/
def list_members (deployment : Deployment) (project_id : String) (principal : AuthPrincipal) :
    Transaction Unit := do
  let _ ← govern_access project_id principal true
  let _ ← list_memberships deployment.collation project_id principal.tenant_id

/-- `add_members`. -/
def add_members (deployment : Deployment) (project_id : String) (principal : AuthPrincipal)
    (principals : List NewMembership) (role : GrantableRole) (now : Moment) :
    Transaction Unit := do
  let _ ← govern_access project_id principal false
  raiseIf (deployment.auth_enabled = true ∧ ∃ item ∈ principals,
      (item.principal_type, item.principal_id) ∉
        resolved_principals deployment principal principals)
    (.InvalidRequest "A directory principal could not be resolved")
  add_memberships project_id principal.tenant_id principals role now

/-- `change_member_role`. -/
def change_member_role (project_id : String) (principal : AuthPrincipal) (membership_id : String)
    (role : ProjectRole) (now : Moment) : Transaction Unit := do
  let decision ← govern_access project_id principal false
  raiseIf (role = .owner ∧ decision.effective_role ≠ .owner)
    (.AuthorizationError "Only owners can appoint owners")
  update_membership project_id membership_id principal.tenant_id role now

/-- `remove_member`. -/
def remove_member (deployment : Deployment) (project_id : String) (principal : AuthPrincipal)
    (membership_id : String) : Transaction Unit := do
  let decision ← govern_access project_id principal false
  let rows ← list_memberships deployment.collation project_id principal.tenant_id
  let target := rows.find? (·.id = membership_id)
  raiseIf (target.any (·.role = .owner) ∧ decision.effective_role ≠ .owner)
    (.AuthorizationError "Only owners can remove owners")
  remove_membership project_id membership_id principal.tenant_id

/-- `request_access`: only who has no access can ask for it. -/
def request_access (id project_id : String) (principal : AuthPrincipal) (note : Option String)
    (now : Moment) : Transaction Unit := do
  let effective ← select fun db => effective_role db project_id principal.tenant_id
    principal.subject principal.group_ids
  raiseIf (effective ≠ none) (.ProjectConflict "Project members cannot request access")
  let _ ← create_access_request id project_id principal.tenant_id principal.subject
    principal.username note now

/-- Whether `_govern_access` lets the principal manage the project. -/
def governs (db : Database) (project_id : String) (principal : AuthPrincipal) : Bool :=
  if .admin ∈ principal.roles then
    (db.projects.get project_id).any (·.tenant_id = principal.tenant_id)
  else (effective_role db project_id principal.tenant_id principal.subject
    principal.group_ids).any fun role => ProjectRole.manager.rank ≤ role.rank

/-- `list_access_requests` of the router: who does not govern sees its own. -/
def list_requests (project_id : String) (principal : AuthPrincipal) : Transaction Unit := do
  let governed ← select fun db => governs db project_id principal
  if governed then do
    let _ ← list_access_requests project_id principal.tenant_id none
  else do
    let _ ← tenant_project project_id principal.tenant_id
    let _ ← list_access_requests project_id principal.tenant_id (some principal.subject)

/-- `decide_access_request` of the router. -/
def decide_request (id project_id : String) (principal : AuthPrincipal) (request_id : String)
    (decision : Decision) (role : Option GrantableRole) (now : Moment) : Transaction Unit := do
  let _ ← govern_access project_id principal false
  raiseIf (decision = .approved ∧ role = none)
    (.InvalidRequest "An approved request requires a role")
  decide_access_request id project_id request_id principal.tenant_id decision role
    principal.subject now

/-- The handling of a request by its route. -/
def AccessRequest.handle (deployment : Deployment) (project_id : String)
    (principal : AuthPrincipal) (request : AccessRequest) : Transaction Unit := do
  require_role .viewer principal
  match request with
  | .list_members => registry.list_members deployment project_id principal
  | .add_members principals role now =>
    registry.add_members deployment project_id principal principals role now
  | .change_member_role membership_id role now =>
    registry.change_member_role project_id principal membership_id role now
  | .remove_member membership_id =>
    registry.remove_member deployment project_id principal membership_id
  | .request_access id note now => registry.request_access id project_id principal note now
  | .list_access_requests => list_requests project_id principal
  | .decide_access_request id request_id decision role now =>
    decide_request id project_id principal request_id decision role now
  | .cancel_access_request request_id now =>
    registry.cancel_access_request project_id request_id principal.tenant_id principal.subject now

end lagraph.registry
