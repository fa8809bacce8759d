import LaGraph.Projects.Access.Escalation

open foundation foundation.Tx

namespace lagraph.registry

variable {db : Database} {tenant_id subject : String} {group_ids : List String}

/-- The memberships that the listing joins: by the identifier of the principal,
whatever its type. -/
def listing_matches (tenant_id subject : String) (group_ids : List String)
    (row : ProjectMembershipRow) : Bool :=
  (subject :: group_ids).contains row.principal_id && row.tenant_id = tenant_id

/-- `list_projects` of the repository. -/
def list_projects (tenant_id subject : String) (group_ids : List String) :
    Transaction (List ProjectRow) :=
  select fun db => (db.projects.rows.filter fun project =>
    project.state ≠ .archived && project.tenant_id = tenant_id &&
      db.memberships.rows.any fun row =>
        row.project_id = project.id && listing_matches tenant_id subject group_ids row).mergeSort
          fun a b => b.updated_at ≤ a.updated_at

/-- The decision of the route for each project in turn. -/
def decide_all (tenant_id subject : String) (group_ids : List String) :
    List ProjectRow → Transaction (List (ProjectRow × AccessDecision))
  | [] => pure []
  | project :: projects => do
    let decision ← access_decision project.id tenant_id subject group_ids .viewer
    let rest ← decide_all tenant_id subject group_ids projects
    pure ((project, decision) :: rest)

/-- `list_projects` of the router. -/
def project_listing (tenant_id subject : String) (group_ids : List String) :
    Transaction (List (ProjectRow × AccessDecision)) := do
  let rows ← list_projects tenant_id subject group_ids
  decide_all tenant_id subject group_ids rows

/-- Whether the access decision lets the principal view the project. -/
def may_view (db : Database) (project_id tenant_id subject : String) (group_ids : List String) :
    Bool :=
  ((access_decision project_id tenant_id subject group_ids .viewer).run db).isOk

/-- The listing succeeds, with the projects of the tenant that are not archived and
that the principal may view. -/
def ListingAgrees (db : Database) (tenant_id subject : String) (group_ids : List String) :
    Prop :=
  ∃ listed, (project_listing tenant_id subject group_ids).run db = .ok (listed, db) ∧
    ∀ project, project ∈ listed.map (·.1) ↔
      project ∈ db.projects ∧ project.tenant_id = tenant_id ∧ project.state ≠ .archived ∧
        may_view db project.id tenant_id subject group_ids = true

/-- Some membership gives the principal access to the project. -/
def has_origin (db : Database) (project_id tenant_id subject : String)
    (group_ids : List String) : Prop :=
  access_origins db project_id tenant_id subject group_ids ≠ []

theorem ProjectRole.viewer_rank_le (role : ProjectRole) : ProjectRole.viewer.rank ≤ role.rank := by
  cases role <;> decide

/-- Every role is at least viewer: the decision fails only for want of a
membership. -/
theorem may_view_iff {project : ProjectRow} (hproject : project ∈ db.projects)
    (htenant : project.tenant_id = tenant_id) :
    may_view db project.id tenant_id subject group_ids = true ↔
      has_origin db project.id tenant_id subject group_ids := by
  have hget : (db.projects.get project.id).filter (·.tenant_id = tenant_id) = some project := by
    have hmem : db.projects.get project.id = some project := Table.get_of_mem hproject
    rw [hmem]
    simp [htenant]
  rw [may_view, access_decision, run_select_bind, has_origin, id_eq, effective_role, hget]
  cases access_origins db project.id tenant_id subject group_ids with
  | nil => simp [Except.isOk, Except.toBool]
  | cons first rest =>
    have hrank := ProjectRole.viewer_rank_le (max_role first.role (rest.map (·.role)))
    simp only [run_raiseIf_bind, Nat.not_lt.mpr hrank, if_false, run_pure]
    simp [Except.isOk, Except.toBool]

/-- A membership that gives access is one that the listing joins. -/
theorem listing_matches_of_origin {project_id : String}
    (h : has_origin db project_id tenant_id subject group_ids) :
    ∃ row ∈ db.memberships, row.project_id = project_id ∧
      listing_matches tenant_id subject group_ids row = true := by
  obtain ⟨row, hrow⟩ := List.exists_mem_of_ne_nil _ h
  obtain ⟨hmem, hscope⟩ := List.mem_filter.mp hrow
  refine ⟨row, hmem, ?_⟩
  simp only [Bool.and_eq_true, Bool.or_eq_true, decide_eq_true_eq] at hscope
  obtain ⟨⟨hproject, htenant⟩, hprincipal⟩ := hscope
  refine ⟨hproject, ?_⟩
  rw [listing_matches, Bool.and_eq_true, List.contains_cons, Bool.or_eq_true]
  cases hprincipal with
  | inl h => exact ⟨Or.inl (by simp [h.2]), by simp [htenant]⟩
  | inr h => exact ⟨Or.inr h.2, by simp [htenant]⟩

theorem access_decision_reads {project_id : String} {minimum : ProjectRole} :
    Preserves Eq (access_decision project_id tenant_id subject group_ids minimum) := by
  refine .bind (fun _ _ _ h h' => h.trans h') (.select (fun _ => rfl) _) fun d => ?_
  split
  · exact .raise _
  · refine .bind (fun _ _ _ h h' => h.trans h') (.raiseIf (fun _ => rfl) _ _) fun _ => ?_
    exact .ret (fun _ => rfl) _

/-- The decisions succeed together exactly when each one does. -/
theorem decide_all_ok {projects : List ProjectRow} :
    (∃ listed, (decide_all tenant_id subject group_ids projects).run db = .ok (listed, db) ∧
        listed.map (·.1) = projects) ↔
      ∀ project ∈ projects, may_view db project.id tenant_id subject group_ids = true := by
  induction projects with
  | nil => simp [decide_all]
  | cons project projects ih =>
    rw [List.forall_mem_cons, ← ih, may_view]
    cases hrun : (access_decision project.id tenant_id subject group_ids .viewer).run db with
    | error e => simp [decide_all, run_bind, hrun, Except.bind, Except.isOk, Except.toBool]
    | ok result =>
      have hsame : result.2 = db := (access_decision_reads db result.1 result.2 hrun).symm
      rw [decide_all, run_bind, hrun]
      simp only [Except.bind, hsame, Except.isOk, Except.toBool, true_and]
      constructor
      · intro h
        obtain ⟨listed, hlisted, hnames⟩ := h
        rw [run_bind] at hlisted
        cases hrest : (decide_all tenant_id subject group_ids projects).run db with
        | error e =>
          rw [hrest] at hlisted
          cases hlisted
        | ok rest =>
          rw [hrest] at hlisted
          cases hlisted
          exact ⟨rest.1, rfl, by simpa using hnames⟩
      · intro h
        obtain ⟨rest, hrest, hnames⟩ := h
        refine ⟨(project, result.1) :: rest, ?_, by simp [hnames]⟩
        rw [run_bind, hrest]
        rfl

/-- A listing that succeeds lists the rows it selected. -/
theorem decide_all_names {projects : List ProjectRow} {d d' : Database}
    {listed : List (ProjectRow × AccessDecision)}
    (h : (decide_all tenant_id subject group_ids projects).run d = .ok (listed, d')) :
    listed.map (·.1) = projects := by
  induction projects generalizing d listed with
  | nil =>
    cases h
    rfl
  | cons project projects ih =>
    rw [decide_all, run_bind] at h
    cases hrun : (access_decision project.id tenant_id subject group_ids .viewer).run d with
    | error e =>
      rw [hrun] at h
      cases h
    | ok result =>
      rw [hrun] at h
      simp only [Except.bind] at h
      rw [run_bind] at h
      cases hrest : (decide_all tenant_id subject group_ids projects).run result.2 with
      | error e =>
        rw [hrest] at h
        cases h
      | ok rest =>
        rw [hrest] at h
        cases h
        rw [List.map_cons, ih hrest]

/-- The listing agrees with the access decisions exactly when every project it joins
through a membership that names the principal under the other type is one that the
principal has access to all the same. -/
theorem listing_agrees_iff :
    ListingAgrees db tenant_id subject group_ids ↔
      ∀ project ∈ db.projects, project.tenant_id = tenant_id → project.state ≠ .archived →
        (∃ row ∈ db.memberships, row.project_id = project.id ∧
          listing_matches tenant_id subject group_ids row = true) →
        has_origin db project.id tenant_id subject group_ids := by
  have hrows : ∀ project : ProjectRow, project ∈ (db.projects.rows.filter fun project =>
      project.state ≠ .archived && project.tenant_id = tenant_id &&
        db.memberships.rows.any fun row => row.project_id = project.id &&
          listing_matches tenant_id subject group_ids row).mergeSort
            (fun a b => b.updated_at ≤ a.updated_at) ↔
      project ∈ db.projects ∧ project.tenant_id = tenant_id ∧ project.state ≠ .archived ∧
        ∃ row ∈ db.memberships, row.project_id = project.id ∧
          listing_matches tenant_id subject group_ids row = true := by
    intro project
    rw [List.mem_mergeSort, List.mem_filter, Table.mem_rows]
    simp only [Bool.and_eq_true, decide_eq_true_eq, List.any_eq_true, Table.mem_rows]
    tauto
  rw [ListingAgrees, project_listing, list_projects, run_select_bind]
  constructor
  · intro h project hproject htenant hstate hjoined
    obtain ⟨listed, hrun, hlisted⟩ := h
    have hmem := (hrows project).mpr ⟨hproject, htenant, hstate, hjoined⟩
    rw [← decide_all_names hrun, hlisted] at hmem
    exact (may_view_iff hproject htenant).mp hmem.2.2.2
  · intro h
    have hviews : ∀ project ∈ (db.projects.rows.filter fun project =>
        project.state ≠ .archived && project.tenant_id = tenant_id &&
          db.memberships.rows.any fun row => row.project_id = project.id &&
            listing_matches tenant_id subject group_ids row).mergeSort
              (fun a b => b.updated_at ≤ a.updated_at),
        may_view db project.id tenant_id subject group_ids = true := by
      intro project hmem
      obtain ⟨hproject, htenant, hstate, hjoined⟩ := (hrows project).mp hmem
      exact (may_view_iff hproject htenant).mpr (h project hproject htenant hstate hjoined)
    obtain ⟨listed, hrun, hnames⟩ := decide_all_ok.mpr hviews
    refine ⟨listed, hrun, fun project => ?_⟩
    rw [hnames, hrows]
    refine and_congr_right fun hproject => and_congr_right fun htenant =>
      and_congr_right fun hstate => ?_
    rw [may_view_iff hproject htenant]
    exact ⟨h project hproject htenant hstate, listing_matches_of_origin⟩

/-- A member of the group that has a user's identifier for its name. -/
def group_member : AuthPrincipal where
  subject := "dora"
  username := "Dora"
  roles := [.viewer, .editor]
  tenant_id := "default"
  group_ids := ["eli"]

def directory_deployment : Deployment where
  auth_enabled := true
  directory := none
  collation := fun _ _ => true

/-- A project whose owner has given access to a group named "eli". -/
def group_project : Database :=
  served ⟨"atlas", "m4", "s4"⟩ group_member "k4" directory_deployment
    [(group_member, .add_members [⟨"m5", .group, "eli", "Eli"⟩] ⟨.viewer, viewer_ne_owner⟩ 1)]

/-- The user with that identifier joins the project's row and has no access to it, so
its whole listing fails. -/
theorem listing_fails_for_group_name :
    ¬ ∀ ids creator key deployment requests tenant_id subject group_ids,
      ListingAgrees (served ids creator key deployment requests) tenant_id subject
        group_ids := by
  intro h
  obtain ⟨listed, hrun, -⟩ := h ⟨"atlas", "m4", "s4"⟩ group_member "k4" directory_deployment
    [(group_member, .add_members [⟨"m5", .group, "eli", "Eli"⟩] ⟨.viewer, viewer_ne_owner⟩ 1)]
    "default" "eli" []
  have hfails : ((project_listing "default" "eli" []).run group_project).isOk = false := by
    decide +kernel
  change (project_listing "default" "eli" []).run group_project = _ at hrun
  rw [hrun] at hfails
  cases hfails

end lagraph.registry
