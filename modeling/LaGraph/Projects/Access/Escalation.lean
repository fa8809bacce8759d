import LaGraph.Projects.Access.Authority

open foundation foundation.Tx

namespace lagraph.registry

variable {db : Database} {deployment : Deployment} {project_id : String}
  {principal : AuthPrincipal}

/-- The requests that reach the row of an owner with no check that the caller may
touch owners. -/
def AccessRequest.unchecked (deployment : Deployment) (db : Database) (project_id : String)
    (principal : AuthPrincipal) : AccessRequest → Prop
  | .change_member_role membership_id role _ =>
    role ≠ .owner ∧ ∃ row, row.role = .owner ∧
      find_membership db project_id membership_id principal.tenant_id = some row
  | .remove_member membership_id =>
    ∃ row, row.role = .owner ∧
      find_membership db project_id membership_id principal.tenant_id = some row ∧
      row ∉ listed_memberships deployment.collation db project_id principal.tenant_id
  | _ => False

theorem handle_keeps {request : AccessRequest}
    (h : ∀ id role now, request ≠ .change_member_role id role now)
    (h' : ∀ id, request ≠ .remove_member id) :
    Preserves (OwnersKept project_id) (request.handle deployment project_id principal) := by
  refine .bind (fun _ _ _ => .trans) (.raiseIf .refl _ _) fun _ => ?_
  cases request with
  | list_members =>
    refine .bind (fun _ _ _ => .trans) govern_access_keeps fun _ => ?_
    exact .bind (fun _ _ _ => .trans) (.select .refl _) fun _ => .ret .refl _
  | add_members principals role now =>
    refine .bind (fun _ _ _ => .trans) govern_access_keeps fun _ => ?_
    refine .bind (fun _ _ _ => .trans) (.raiseIf .refl _ _) fun _ => ?_
    exact add_memberships_keeps
  | change_member_role id role now => exact absurd rfl (h id role now)
  | remove_member id => exact absurd rfl (h' id)
  | request_access id note now =>
    refine .bind (fun _ _ _ => .trans) (.select .refl _) fun _ => ?_
    refine .bind (fun _ _ _ => .trans) (.raiseIf .refl _ _) fun _ => ?_
    exact .bind (fun _ _ _ => .trans) create_access_request_keeps fun _ => .ret .refl _
  | list_access_requests =>
    refine .bind (fun _ _ _ => .trans) (.select .refl _) fun governed => ?_
    split
    · exact .bind (fun _ _ _ => .trans) (.select .refl _) fun _ => .ret .refl _
    · refine .bind (fun _ _ _ => .trans) tenant_project_keeps fun _ => ?_
      exact .bind (fun _ _ _ => .trans) (.select .refl _) fun _ => .ret .refl _
  | decide_access_request id request_id decision role now =>
    refine .bind (fun _ _ _ => .trans) govern_access_keeps fun _ => ?_
    refine .bind (fun _ _ _ => .trans) (.raiseIf .refl _ _) fun _ => ?_
    exact decide_access_request_keeps
  | cancel_access_request request_id now => exact cancel_access_request_keeps

/-- A principal below owner takes an owner's role or membership away exactly when it
is a manager and its request is one of the two that the routes leave unchecked, on a
project with another owner. -/
theorem owners_kept_iff {request : AccessRequest} (hadmin : .admin ∉ principal.roles)
    (hbelow : effective_role db project_id principal.tenant_id principal.subject
      principal.group_ids ≠ some .owner) :
    OwnersKept project_id db ((request.handle deployment project_id principal).transact db).2 ↔
      ¬ (.viewer ∈ principal.roles ∧ effective_role db project_id principal.tenant_id
          principal.subject principal.group_ids = some .manager ∧
        owner_count db project_id ≠ 1 ∧ request.unchecked deployment db project_id principal) := by
  by_cases hviewer : .viewer ∈ principal.roles
  · have hrun : ∀ t : Transaction Unit,
        (require_role .viewer principal >>= fun _ => t).transact db = t.transact db := by
      intro t
      rw [transact, transact, require_role, run_raiseIf_bind, if_neg (not_not.mpr hviewer)]
    cases request with
    | change_member_role id role now =>
      rw [AccessRequest.handle, hrun, change_member_role_kept_iff hadmin hbelow]
      simp [hviewer, AccessRequest.unchecked]
    | remove_member id =>
      rw [AccessRequest.handle, hrun, remove_member_kept_iff hadmin hbelow]
      simp [hviewer, AccessRequest.unchecked]
    | _ =>
      refine iff_of_true ?_ (fun h => h.2.2.2)
      exact (handle_keeps (by simp) (by simp)).transact .refl db
  · refine iff_of_true ?_ (fun h => hviewer h.1)
    have hrun : ∃ e, (request.handle deployment project_id principal).run db = .error e := by
      rw [AccessRequest.handle.eq_def, require_role, run_raiseIf_bind, if_pos hviewer]
      exact ⟨_, rfl⟩
    obtain ⟨e, hrun⟩ := hrun
    rw [transact_error hrun]
    exact .refl db

/-- The database after a project is created and requests are served on it. -/
def served (ids : ProjectIds) (creator : AuthPrincipal) (key : String) (deployment : Deployment)
    (requests : List (AuthPrincipal × AccessRequest)) : Database :=
  requests.foldl
    (fun db item => ((item.2.handle deployment ids.project item.1).transact db).2)
    ((create_project ids creator.subject creator.username creator.tenant_id key 0).transact
      .empty).2

def project_owner : AuthPrincipal where
  subject := "ana"
  username := "Ana"
  roles := [.viewer, .editor]
  tenant_id := "default"
  group_ids := []

def project_manager : AuthPrincipal where
  subject := "ben"
  username := "Ben"
  roles := [.viewer]
  tenant_id := "default"
  group_ids := []

def open_deployment : Deployment where
  auth_enabled := false
  directory := none
  collation := fun _ _ => true

/-- The owner adds a manager and a second owner. -/
def shared_project : Database :=
  served ⟨"handbook", "m1", "s1"⟩ project_owner "k1" open_deployment
    [(project_owner, .add_members [⟨"m2", .user, "ben", "Ben"⟩] ⟨.manager, manager_ne_owner⟩ 1),
      (project_owner, .add_members [⟨"m3", .user, "cleo", "Cleo"⟩] ⟨.viewer, viewer_ne_owner⟩ 2),
      (project_owner, .change_member_role "m3" .owner 3)]

theorem owners_kept_iff_listing :
    OwnersKept "handbook" shared_project
      ((AccessRequest.list_members.handle open_deployment "handbook" project_manager).transact
        shared_project).2 := by
  have hbelow : effective_role shared_project "handbook" project_manager.tenant_id
      project_manager.subject project_manager.group_ids ≠ some .owner := by decide +kernel
  exact (owners_kept_iff (by decide) hbelow).mpr fun h => h.2.2.2

/-- The manager makes the project's creator a viewer. -/
theorem manager_demotes_owner :
    ¬ ∀ ids creator key deployment requests principal request,
      .admin ∉ AuthPrincipal.roles principal →
      effective_role (served ids creator key deployment requests) ids.project
        principal.tenant_id principal.subject principal.group_ids ≠ some .owner →
      OwnersKept ids.project (served ids creator key deployment requests)
        ((AccessRequest.handle deployment ids.project principal request).transact
          (served ids creator key deployment requests)).2 := by
  intro h
  have hdemoted :
      .admin ∉ project_manager.roles ∧
        effective_role shared_project "handbook" project_manager.tenant_id
          project_manager.subject project_manager.group_ids ≠ some .owner ∧
        ¬ OwnersKept "handbook" shared_project
          (((AccessRequest.change_member_role "m1" .viewer 4).handle open_deployment "handbook"
            project_manager).transact shared_project).2 := by decide +kernel
  exact hdemoted.2.2 (h _ _ _ _ _ project_manager (.change_member_role "m1" .viewer 4)
    hdemoted.1 hdemoted.2.1)

end lagraph.registry
