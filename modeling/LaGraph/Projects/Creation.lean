import LaGraph.Foundation.Interleaving.Rely
import LaGraph.Projects.Repository

open foundation foundation.Tx

namespace lagraph.registry

/-- A request to create a project, with the identifiers drawn for it. -/
structure CreateProject where
  ids : ProjectIds
  subject : String
  username : String
  tenant_id : String
  key : String
  now : Moment
  deriving DecidableEq, Repr

def CreateProject.perform (call : CreateProject) : Transaction String :=
  create_project call.ids call.subject call.username call.tenant_id call.key call.now

/-- The unique key of the record of a request. -/
def CreateProject.record_key (call : CreateProject) : String × String × String :=
  (call.subject, "create_project", call.key)

/-- Others add projects and records, none under an identifier or a key whose lock is
held. -/
structure OthersCreate (held : List RowLock) (d d' : Database) : Prop where
  records : ∀ row ∈ d.idempotency, row ∈ d'.idempotency
  identifier : ∀ id, RowLock.identifier id ∈ held →
    d.projects.get id = none → d'.projects.get id = none
  key : ∀ actor operation key, RowLock.idempotency actor operation key ∈ held →
    d.idempotency.get (actor, operation, key) = none →
    d'.idempotency.get (actor, operation, key) = none

theorem others_create_rely : Rely OthersCreate where
  refl _ _ := ⟨fun _ h => h, fun _ _ h => h, fun _ _ _ _ h => h⟩
  trans _ _ _ _ h h' :=
    ⟨fun row hrow => h'.records row (h.records row hrow),
      fun id hid hnone => h'.identifier id hid (h.identifier id hid hnone),
      fun actor operation key hkey hnone =>
        h'.key actor operation key hkey (h.key actor operation key hkey hnone)⟩

/-- The project that the request inserts. -/
def CreateProject.project (call : CreateProject) : ProjectRow where
  id := call.ids.project
  tenant_id := call.tenant_id
  state := .draft
  updated_at := call.now
  archived_at := none
  active_snapshot_id := none
  active_graph_version := none
  active_document_count := 0
  generation := 0

def CreateProject.record (call : CreateProject) : IdempotencyRow where
  actor_subject := call.subject
  operation := "create_project"
  key := call.key
  resource_id := call.ids.project

/-- What a request that commits has done: found the record of an earlier one, or
inserted a project and the record of its key. -/
inductive Creates (call : CreateProject) (id : String) (held : List RowLock)
    (pending : Database → Database) (d : Database) : Prop
  | prior (row : IdempotencyRow) (hrow : row ∈ d.idempotency)
    (hkey : Keyed.key row = call.record_key) (hid : row.resource_id = id)
    (hprojects : (pending d).projects = d.projects)
    (hrecords : (pending d).idempotency = d.idempotency)
  | new (hid : call.ids.project = id)
    (hidentifier : RowLock.identifier id ∈ held) (hfresh : d.projects.get id = none)
    (hprojects : (pending d).projects = d.projects.insert call.project)
    (hlock : RowLock.idempotency call.subject "create_project" call.key ∈ held)
    (hunused : d.idempotency.get call.record_key = none)
    (hrecords : (pending d).idempotency = d.idempotency.insert call.record)

/-- However others interleave with it, a request does one of the two. -/
theorem create_project_safe (call : CreateProject) (d : Database) :
    call.perform.Safe OthersCreate (Creates call) [] id d := by
  refine Safe.select_bind fun d₀ _ => ?_
  cases hprior : ((d₀.idempotency.get (call.subject, "create_project", call.key)).map
      (·.resource_id)).filter (· ≠ "") with
  | some project_id =>
    simp only [id_eq, hprior]
    obtain ⟨row, hget, hid⟩ := Option.map_eq_some_iff.mp (Option.filter_eq_some_iff.mp hprior).1
    obtain ⟨hrow, hkey⟩ := Table.get_eq_some.mp hget
    exact Safe.ret fun d' hd => .prior row (hd.records row hrow) hkey hid rfl rfl
  | none =>
    simp only [id_eq, hprior]
    unfold add_project add_membership add_snapshot add_row remember
    simp only [bind_bind]
    refine Safe.acquire_bind fun _ _ => Safe.select_bind fun d₁ _ => Safe.raiseIf_bind fun hfree =>
      Safe.execute_bind fun d₂ hd₂ => ?_
    refine Safe.acquire_bind fun d₃ hd₃ => Safe.select_bind fun d₄ hd₄ => Safe.raiseIf_bind
      fun _ => Safe.execute_bind fun d₅ hd₅ => ?_
    refine Safe.acquire_bind fun d₆ hd₆ => Safe.select_bind fun d₇ hd₇ => Safe.raiseIf_bind
      fun _ => Safe.execute_bind fun d₈ hd₈ => ?_
    refine Safe.acquire_bind fun d₉ hd₉ => Safe.select_bind fun e₀ he₀ => Safe.raiseIf_bind
      fun hunused => Safe.execute_bind fun e₁ he₁ => Safe.ret fun e₂ he₂ => ?_
    -- the identifier is locked from its check on, the key from the check of the record on
    have hlocked : ∀ {held a b}, OthersCreate held a b → .identifier call.ids.project ∈ held →
        a.projects.get call.ids.project = none → b.projects.get call.ids.project = none :=
      fun h hheld => h.identifier _ hheld
    have hfree₁ : d₁.projects.get call.ids.project = none :=
      Option.not_isSome_iff_eq_none.mp hfree
    have hfree₅ := hlocked hd₅ (by simp [Keyed.key]) (hlocked hd₄ (by simp [Keyed.key]) (hlocked hd₃ (by simp [Keyed.key])
      (hlocked hd₂ (by simp [Keyed.key]) hfree₁)))
    have hfree₈ := hlocked hd₈ (by simp [Keyed.key]) (hlocked hd₇ (by simp [Keyed.key]) (hlocked hd₆ (by simp [Keyed.key]) hfree₅))
    have hfree' := hlocked he₂ (by simp [Keyed.key]) (hlocked he₁ (by simp [Keyed.key]) (hlocked he₀ (by simp [Keyed.key])
      (hlocked hd₉ (by simp [Keyed.key]) hfree₈)))
    have hunused₀ : e₀.idempotency.get call.record_key = none :=
      Option.not_isSome_iff_eq_none.mp hunused
    have hunused' := he₂.key _ _ _ (by simp [Keyed.key]) (he₁.key _ _ _ (by simp [Keyed.key]) hunused₀)
    exact .new rfl (by simp [Keyed.key]) hfree' rfl (by simp [Keyed.key]) hunused' rfl

/-- The requests of a run with what is committed. -/
abbrev Creations := System Database RowLock ProjectError String CreateProject

/-- Every request that returned has its record, every record the request that made
it, with its project, and every project its record. -/
structure Recorded (s : Creations) : Prop where
  returned : ∀ item ∈ s.returned, ∃ row ∈ s.committed.idempotency,
    Keyed.key row = item.1.record_key ∧ row.resource_id = item.2
  creator : ∀ row ∈ s.committed.idempotency, ∃ call : CreateProject,
    (call, row.resource_id) ∈ s.returned ∧ call.ids.project = row.resource_id ∧
      Keyed.key row = call.record_key ∧
      ∃ project ∈ s.committed.projects, project.id = row.resource_id ∧
        project.tenant_id = call.tenant_id
  projects : ∀ project ∈ s.committed.projects, ∃ row ∈ s.committed.idempotency,
    row.resource_id = project.id

structure CreationsInv (s : Creations) : Prop where
  exclusive : s.Exclusive
  safe : s.Safe (fun _ => OthersCreate) Creates
  recorded : Recorded s

variable {s s' : Creations} {e : Event CreateProject}

/-- The commit of one request is what every other one relies on. -/
theorem Creates.others {x y : Session Database RowLock ProjectError String CreateProject}
    {id : String} {d : Database} (h : Creates x.call id x.held x.pending d) (hapart : x.Apart y) :
    OthersCreate y.held d (x.pending d) := by
  cases h with
  | prior row hrow hkey hid hprojects hrecords =>
    refine ⟨fun row hrow => ?_, fun id _ hnone => ?_, fun actor operation key _ hnone => ?_⟩
    · rwa [hrecords]
    · rwa [hprojects]
    · rwa [hrecords]
  | new hid hidentifier hfresh hprojects hlock hunused hrecords =>
    refine ⟨fun row hrow => ?_, fun id' hid' hnone => ?_, fun actor operation key hkey hnone => ?_⟩
    · rw [hrecords]
      exact Table.mem_insert_left hrow
    · have hne : x.call.ids.project ≠ id' := by
        intro h
        exact hapart _ hidentifier (hid ▸ h ▸ hid')
      rwa [hprojects, Table.get_insert_of_ne hne]
    · have hne : (x.call.subject, "create_project", x.call.key) ≠ (actor, operation, key) := by
        intro h
        cases h
        exact hapart _ hlock hkey
      rwa [hrecords, Table.get_insert_of_ne hne]

/-- The commit of a request leaves everything recorded. -/
theorem Recorded.commit {call : CreateProject} {id : String} {held : List RowLock}
    {pending : Database → Database} {sessions : List (Session _ _ _ _ CreateProject)}
    (hs : Recorded s) (h : Creates call id held pending s.committed) :
    Recorded
      { committed := pending s.committed, sessions, returned := s.returned ++ [(call, id)] } := by
  cases h with
  | prior row hrow hkey hid hprojects hrecords =>
    refine ⟨fun item hitem => ?_, fun row' hrow' => ?_, fun project hproject => ?_⟩
    · rw [hrecords]
      cases List.mem_append.mp hitem with
      | inl hitem => exact hs.returned item hitem
      | inr hitem =>
        rw [List.mem_singleton.mp hitem]
        exact ⟨row, hrow, hkey, hid⟩
    · rw [hrecords] at hrow'
      obtain ⟨creator, hreturned, hown, hrecord, hexists⟩ := hs.creator row' hrow'
      rw [hprojects]
      exact ⟨creator, List.mem_append_left _ hreturned, hown, hrecord, hexists⟩
    · rw [hprojects] at hproject
      rw [hrecords]
      exact hs.projects project hproject
  | new hid hidentifier hfresh hprojects hlock hunused hrecords =>
    have hnew : ∀ row' ∈ s.committed.idempotency, Keyed.key row' ≠ Keyed.key call.record :=
      Table.get_eq_none.mp hunused
    have hfree : ∀ project ∈ s.committed.projects,
        Keyed.key project ≠ Keyed.key call.project := by
      rw [← hid] at hfresh
      exact Table.get_eq_none.mp hfresh
    refine ⟨fun item hitem => ?_, fun row' hrow' => ?_, fun project hproject => ?_⟩
    · rw [hrecords]
      cases List.mem_append.mp hitem with
      | inl hitem =>
        obtain ⟨row, hrow, hkey⟩ := hs.returned item hitem
        exact ⟨row, Table.mem_insert_left hrow, hkey⟩
      | inr hitem =>
        rw [List.mem_singleton.mp hitem]
        exact ⟨call.record, (Table.mem_insert_of_fresh hnew).mpr (Or.inr rfl), rfl, hid⟩
    · rw [hrecords, Table.mem_insert_of_fresh hnew] at hrow'
      rw [hprojects]
      cases hrow' with
      | inl hrow' =>
        obtain ⟨creator, hreturned, hown, hrecord, project, hproject, hsame⟩ :=
          hs.creator row' hrow'
        exact ⟨creator, List.mem_append_left _ hreturned, hown, hrecord, project,
          Table.mem_insert_left hproject, hsame⟩
      | inr hrow' =>
        subst hrow' hid
        exact ⟨call, List.mem_append_right _ (List.mem_singleton.mpr rfl), rfl, rfl,
          call.project, (Table.mem_insert_of_fresh hfree).mpr (Or.inr rfl), rfl, rfl⟩
    · rw [hprojects, Table.mem_insert_of_fresh hfree] at hproject
      rw [hrecords]
      cases hproject with
      | inl hproject =>
        obtain ⟨row, hrow, hsame⟩ := hs.projects project hproject
        exact ⟨row, Table.mem_insert_left hrow, hsame⟩
      | inr hproject =>
        rw [hproject]
        exact ⟨call.record, (Table.mem_insert_of_fresh hnew).mpr (Or.inr rfl), rfl⟩

theorem creations_inv_step (h : System.Step CreateProject.perform s e s')
    (hs : CreationsInv s) : CreationsInv s' := by
  have hrely : ∀ call : CreateProject, Rely ((fun _ => OthersCreate) call) :=
    fun _ => others_create_rely
  refine ⟨h.exclusive hs.exclusive, ?_, ?_⟩
  · refine h.safe hrely hs.safe (fun call _ => create_project_safe call _) ?_
    intro i before x after a hat hprogram y hy
    have heffect := hs.safe.at_commit hrely hat hprogram
    exact heffect.others ((hat.exclusive_iff.mp hs.exclusive).1 y hy)
  · cases h with
    | start call => exact ⟨hs.recorded.returned, hs.recorded.creator, hs.recorded.projects⟩
    | commit hat hprogram => exact hs.recorded.commit (hs.safe.at_commit hrely hat hprogram)
    | roll_back _ _ => exact ⟨hs.recorded.returned, hs.recorded.creator, hs.recorded.projects⟩
    | lock _ _ _ => exact ⟨hs.recorded.returned, hs.recorded.creator, hs.recorded.projects⟩
    | execute _ _ => exact ⟨hs.recorded.returned, hs.recorded.creator, hs.recorded.projects⟩

theorem creations_inv_empty : CreationsInv (System.empty Database.empty) where
  exclusive := List.Pairwise.nil
  safe := fun _ hx => absurd hx List.not_mem_nil
  recorded := ⟨fun _ h => absurd h List.not_mem_nil, fun _ h => absurd h Table.not_mem_empty,
    fun _ h => absurd h Table.not_mem_empty⟩

/-- What a run of requests to create projects has to show for itself. -/
structure CreatedOnce (s : Creations) : Prop where
  one_per_key : ∀ call id call' id', (call, id) ∈ s.returned → (call', id') ∈ s.returned →
    call.tenant_id = call'.tenant_id → call.subject = call'.subject → call.key = call'.key →
    id = id'
  created : ∀ project ∈ s.committed.projects, ∃ call : CreateProject,
    (call, project.id) ∈ s.returned ∧ call.ids.project = project.id
  own_tenant : ∀ call id, (call, id) ∈ s.returned → ∃ project ∈ s.committed.projects,
    project.id = id ∧ project.tenant_id = call.tenant_id

/-- A subject's key makes one project, whatever the tenant. -/
theorem Recorded.same_project (hs : Recorded s) {item item' : CreateProject × String}
    (hitem : item ∈ s.returned) (hitem' : item' ∈ s.returned)
    (hsubject : item.1.subject = item'.1.subject) (hkey : item.1.key = item'.1.key) :
    item.2 = item'.2 := by
  obtain ⟨row, hrow, hrecord, hid⟩ := hs.returned item hitem
  obtain ⟨row', hrow', hrecord', hid'⟩ := hs.returned item' hitem'
  have hsame : Keyed.key row = Keyed.key row' := by
    rw [hrecord, hrecord', CreateProject.record_key, CreateProject.record_key, hsubject, hkey]
  rw [← hid, ← hid', Table.eq_of_key hrow hrow' hsame]

/-- In every run one project is made for each key, and everybody gets one of its own
tenant exactly when no subject has used a key in two tenants. -/
theorem created_once_iff
    (hrun : System.Run CreateProject.perform (fun _ _ => True) (System.empty Database.empty) s) :
    CreatedOnce s ↔
      ∀ call id call' id', (call, id) ∈ s.returned → (call', id') ∈ s.returned →
        call.subject = call'.subject → call.key = call'.key →
        call.tenant_id = call'.tenant_id := by
  have hs : CreationsInv s :=
    hrun.invariant (fun _ _ _ _ h hs => creations_inv_step h hs) creations_inv_empty
  have hrecorded := hs.recorded
  constructor
  · intro h call id call' id' hcall hcall' hsubject hkey
    have hsame : id = id' := hrecorded.same_project hcall hcall' hsubject hkey
    obtain ⟨project, hproject, hid, htenant⟩ := h.own_tenant call id hcall
    obtain ⟨project', hproject', hid', htenant'⟩ := h.own_tenant call' id' hcall'
    have hids : project.id = project'.id := by rw [hid, hid', hsame]
    rw [← htenant, ← htenant', Table.eq_of_key hproject hproject' hids]
  · intro h
    refine ⟨?_, fun project hproject => ?_, fun call id hcall => ?_⟩
    · intro call id call' id' hcall hcall' _ hsubject hkey
      exact hrecorded.same_project hcall hcall' hsubject hkey
    · obtain ⟨row, hrow, hid⟩ := hrecorded.projects project hproject
      obtain ⟨call, hcall, hown, -⟩ := hrecorded.creator row hrow
      rw [hid] at hcall hown
      exact ⟨call, hcall, hown⟩
    · obtain ⟨row, hrow, hkey, hid⟩ := hrecorded.returned (call, id) hcall
      obtain ⟨creator, hcreator, -, hrecord, project, hproject, hsame, htenant⟩ :=
        hrecorded.creator row hrow
      have hboth : call.record_key = creator.record_key := hkey.symm.trans hrecord
      rw [CreateProject.record_key, CreateProject.record_key, Prod.mk.injEq, Prod.mk.injEq] at hboth
      have htenants := h call id creator row.resource_id hcall hcreator hboth.1 hboth.2.2
      exact ⟨project, hproject, hsame.trans hid, htenant.trans htenants.symm⟩

/-- Two requests of one subject with one key, for different tenants. -/
def request_of_first_tenant : CreateProject :=
  ⟨⟨"p6", "m6", "s6"⟩, "fay", "Fay", "north", "k6", 0⟩

def request_of_second_tenant : CreateProject :=
  ⟨⟨"p7", "m7", "s7"⟩, "fay", "Fay", "south", "k6", 1⟩

/-- The first request runs to its end, then the second. -/
def one_after_the_other : List (Event CreateProject) :=
  .start request_of_first_tenant :: List.replicate 14 (.advance 0) ++
    .start request_of_second_tenant :: List.replicate 2 (.advance 0)

/-- The second request gets the project of the other tenant. -/
theorem second_tenant_gets_first_project :
    ¬ ∀ s : Creations,
      System.Run CreateProject.perform (fun _ _ => True) (System.empty Database.empty) s →
      CreatedOnce s := by
  intro h
  have hreplay : ∃ s ∈ System.replay CreateProject.perform (System.empty Database.empty)
      one_after_the_other, (request_of_second_tenant, "p6") ∈ s.returned ∧
        ¬ ∃ project ∈ s.committed.projects, project.id = "p6" ∧
          project.tenant_id = request_of_second_tenant.tenant_id := by decide +kernel
  obtain ⟨s, hs, hreturned, hforeign⟩ := hreplay
  have hrun := (System.Run.refl _).of_replay hs
  exact hforeign ((h s hrun).own_tenant _ _ hreturned)

/-- With one tenant, the same request made twice makes one project. -/
theorem created_once_iff_repeated :
    ∃ s : Creations, s.returned.length = 2 ∧ CreatedOnce s := by
  have hreplay : ∃ s ∈ System.replay CreateProject.perform (System.empty Database.empty)
      (.start request_of_first_tenant :: List.replicate 14 (.advance 0) ++
        .start request_of_first_tenant :: List.replicate 2 (.advance 0)),
      s.returned = [(request_of_first_tenant, "p6"), (request_of_first_tenant, "p6")] := by
    decide +kernel
  obtain ⟨s, hs, hreturned⟩ := hreplay
  have hrun := (System.Run.refl _).of_replay hs
  refine ⟨s, by rw [hreturned]; rfl, (created_once_iff hrun).mpr ?_⟩
  intro call id call' id' hcall hcall' _ _
  rw [hreturned] at hcall hcall'
  simp only [List.mem_cons, Prod.mk.injEq, List.not_mem_nil, or_false, or_self] at hcall hcall'
  rw [hcall.1, hcall'.1]

end lagraph.registry
